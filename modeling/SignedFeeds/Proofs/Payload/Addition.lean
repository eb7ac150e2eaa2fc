/-
# Added votes revoke nothing

A signature that somebody adds to an authorized payload, a package that is put between the
others, and an address that is put on the list of signers can only help.  Broken signatures,
repeated ones and signatures of strangers are among what can be added, so nobody can spoil the
authorization of others by signing too.

An authorization asks for two things: that all packages can be hashed, and that enough known
signers are among the outcomes (`Payload.authorize_eq_ok_iff`).  So it stays as long as the
known signers stay (`Payload.authorize_of_knownSigners_subset`), and what else is reported can
be read off the row of outcomes.
-/
import SignedFeeds.Proofs.Payload.Attribution

namespace SignedFeeds

namespace Attribution

variable {outcomes outcomes' : List (Except WireError Address)}

lemma addresses_sublist (h : outcomes.Sublist outcomes') :
    (addresses outcomes).Sublist (addresses outcomes') := h.filterMap _

lemma addresses_prefix (h : outcomes <+: outcomes') : addresses outcomes <+: addresses outcomes' :=
  h.filterMap _

lemma failures_le (h : outcomes.Sublist outcomes') : failures outcomes ≤ failures outcomes' :=
  h.countP_le

end Attribution

namespace AllowList

/-- Of a list without those that are known, an insertion leaves out the inserted address if it
is for the service that is asked for, and nobody else. -/
lemma filter_knows_insert (l : AllowList) (service other : String) (a : Address)
    (addresses : List Address) :
    addresses.filter (fun b => !(l.insert service a).knows other b) =
      if service = other then
        (addresses.filter fun b => !l.knows other b).filter (fun b => b ≠ a)
      else addresses.filter fun b => !l.knows other b := by
  have hknows (b : Address) : (l.insert service a).knows other b =
      (decide (other = service ∧ b = a) || l.knows other b) := by
    rw [Bool.eq_iff_iff, knows_insert, Bool.or_eq_true, decide_eq_true_iff]
  by_cases hservice : service = other
  · subst hservice
    rw [if_pos rfl, List.filter_filter]
    refine List.filter_congr fun b _ => ?_
    simp [hknows]
  · rw [if_neg hservice]
    refine List.filter_congr fun b _ => ?_
    simp [hknows, Ne.symm hservice]

end AllowList

namespace Payload

variable {p p' : Payload} {registry registry' : Registry} {quorum : Quorum} {report : Attribution}

/-! ## What is kept -/

lemma knownSigners_subset_of_outcomes (h : p.outcomes.Sublist p'.outcomes) (registry : Registry)
    (service : String) : p.knownSigners registry service ⊆ p'.knownSigners registry service := by
  intro a ha
  rw [knownSigners, List.mem_toFinset] at *
  exact ((Attribution.addresses_sublist h).filter _).subset ha

lemma knownSigners_subset_of_registry {service : String}
    (h : ∀ a, registry service a = true → registry' service a = true) :
    p.knownSigners registry service ⊆ p.knownSigners registry' service := by
  intro a ha
  simp only [knownSigners, List.mem_toFinset, List.mem_filter] at *
  exact ⟨ha.1, h a ha.2⟩

/-- Where the known signers stay, whoever is authorized stays authorized. -/
lemma authorize_of_knownSigners_subset (h : p.authorize registry quorum = .ok report)
    (hp' : p'.Hashable)
    (hsub : p.knownSigners registry quorum.service ⊆ p'.knownSigners registry' quorum.service) :
    p'.authorize registry' quorum = .ok (p'.report registry' quorum.service) ∧
      ∀ a ∈ report.authorized, a ∈ (p'.report registry' quorum.service).authorized := by
  obtain ⟨-, hmany, rfl⟩ := authorize_eq_ok_iff.mp h
  constructor
  · exact authorize_eq_ok_iff.mpr ⟨hp', hmany.trans (Finset.card_le_card hsub), rfl⟩
  · intro a ha
    rw [mem_report_authorized] at *
    exact hsub ha

/-! ## What is added -/

/-- A signature that is added has an outcome of its own, behind the others. -/
lemma outcomes_prefix_of_addSignature {m m' : CosignedPackage} {sig : Signature}
    (h : m.addSignature sig = .ok m') (metadata : String) :
    outcomes ⟨.multi m, metadata⟩ <+: outcomes ⟨.multi m', metadata⟩ := by
  obtain ⟨-, rfl⟩ := CosignedPackage.addSignature_eq_ok_iff.mp h
  rw [outcomes_multi, outcomes_multi, List.map_append]
  exact List.prefix_append _ _

/-- A package that is put between the others has an outcome of its own, between theirs. -/
lemma outcomes_sublist_of_insert (front back : List SignedPackage) (m : SignedPackage)
    (metadata : String) :
    (outcomes ⟨.single (front ++ back), metadata⟩).Sublist
      (outcomes ⟨.single (front ++ m :: back), metadata⟩) := by
  rw [outcomes_single, outcomes_single]
  exact ((List.sublist_cons_self m back).append_left front).map _

lemma hashable_insert {front back : List SignedPackage} {m : SignedPackage} {metadata : String}
    (h : Hashable ⟨.single (front ++ back), metadata⟩)
    (hm : ∃ bytes, m.package.encode = .ok bytes) :
    Hashable ⟨.single (front ++ m :: back), metadata⟩ := by
  refine List.forall_mem_map.mpr fun x hx => ?_
  rcases List.mem_append.mp hx with hfront | hx
  · exact h _ (List.mem_map_of_mem (List.mem_append_left _ hfront))
  rcases List.mem_cons.mp hx with rfl | hback
  · exact hm
  · exact h _ (List.mem_map_of_mem (List.mem_append_right _ hback))

/-- **Added votes revoke nothing.**  An authorized payload stays authorized, with all the
addresses that it had, after a signature has been added to its package, after a package that can
be hashed has been put anywhere between its packages, and after an address has been put on the
list of the signers of any service.  The signers that were unknown are listed as before, with
more of them behind or between them; only an address that has been put on the list for the
service in question is no longer among them. -/
theorem added_votes_revoke_nothing (quorum : Quorum) :
    (∀ (m m' : CosignedPackage) metadata registry sig report,
      authorize ⟨.multi m, metadata⟩ registry quorum = .ok report → m.addSignature sig = .ok m' →
      ∃ report', authorize ⟨.multi m', metadata⟩ registry quorum = .ok report' ∧
        (∀ a ∈ report.authorized, a ∈ report'.authorized) ∧
        report.unknown <+: report'.unknown ∧ report.unrecoverable ≤ report'.unrecoverable) ∧
    (∀ front back (m : SignedPackage) metadata registry report,
      authorize ⟨.single (front ++ back), metadata⟩ registry quorum = .ok report →
      (∃ bytes, m.package.encode = .ok bytes) →
      ∃ report', authorize ⟨.single (front ++ m :: back), metadata⟩ registry quorum = .ok report' ∧
        (∀ a ∈ report.authorized, a ∈ report'.authorized) ∧
        report.unknown.Sublist report'.unknown ∧ report.unrecoverable ≤ report'.unrecoverable) ∧
    (∀ (p : Payload) (l : AllowList) service a report, p.authorize l.knows quorum = .ok report →
      ∃ report', p.authorize (l.insert service a).knows quorum = .ok report' ∧
        (∀ b ∈ report.authorized, b ∈ report'.authorized) ∧
        report'.unknown =
          (if service = quorum.service then report.unknown.filter (fun b => b ≠ a)
          else report.unknown) ∧
        report'.unrecoverable = report.unrecoverable) := by
  refine ⟨?_, ?_, ?_⟩
  · intro m m' metadata registry sig report h hadd
    have hprefix := outcomes_prefix_of_addSignature hadd metadata
    obtain ⟨hp, -, rfl⟩ := authorize_eq_ok_iff.mp h
    have hp' : Hashable ⟨.multi m', metadata⟩ := by
      -- the package is the same one
      obtain ⟨-, rfl⟩ := CosignedPackage.addSignature_eq_ok_iff.mp hadd
      exact hp
    obtain ⟨hauthorize, hkept⟩ := authorize_of_knownSigners_subset h hp'
      (knownSigners_subset_of_outcomes hprefix.sublist registry quorum.service)
    exact ⟨_, hauthorize, hkept, (Attribution.addresses_prefix hprefix).filter _,
      Attribution.failures_le hprefix.sublist⟩
  · intro front back m metadata registry report h hm
    have hsublist := outcomes_sublist_of_insert front back m metadata
    obtain ⟨hp, -, rfl⟩ := authorize_eq_ok_iff.mp h
    obtain ⟨hauthorize, hkept⟩ := authorize_of_knownSigners_subset h (hashable_insert hp hm)
      (knownSigners_subset_of_outcomes hsublist registry quorum.service)
    exact ⟨_, hauthorize, hkept, (Attribution.addresses_sublist hsublist).filter _,
      Attribution.failures_le hsublist⟩
  · intro p l service a report h
    obtain ⟨hp, -, rfl⟩ := authorize_eq_ok_iff.mp h
    have hmore : ∀ b, l.knows quorum.service b = true →
        (l.insert service a).knows quorum.service b = true := by
      intro b hb
      exact (AllowList.knows_insert l service quorum.service a b).mpr (.inr hb)
    obtain ⟨hauthorize, hkept⟩ :=
      authorize_of_knownSigners_subset h hp (knownSigners_subset_of_registry hmore)
    exact ⟨_, hauthorize, hkept, AllowList.filter_knows_insert l service quorum.service a _, rfl⟩

/-- One signer who is on the list is enough for a threshold of one. -/
lemma exists_authorize_of_outcomes_eq {l : AllowList} {service : String} {a : Address}
    (hp : p.Hashable) (hone : p.outcomes = [.ok a]) (hknown : l.knows service a = true) :
    ∃ report, p.authorize l.knows ⟨service, 1⟩ = .ok report ∧ a ∈ report.authorized := by
  have hsigners : p.knownSigners l.knows service = {a} := by
    simp [knownSigners, hone, hknown]
  refine ⟨_, authorize_eq_ok_iff.mpr ⟨hp, ?_, rfl⟩, ?_⟩
  · rw [hsigners, Finset.card_singleton]
  · rw [mem_report_authorized, hsigners, Finset.mem_singleton]

/-- A signer who is on the list keeps its authorization when a broken signature is added, when
a package with a broken signature is put in front of its own, and when a stranger is put on the
list. -/
theorem added_votes_revoke_nothing_sample :
    ∃ a, ∃ l : AllowList, ∃ single multi,
      authorize ⟨.single [⟨.sample, .ofParts 1 1 27⟩], "x"⟩ l.knows ⟨"s", 1⟩ = .ok single ∧
      a ∈ single.authorized ∧
      authorize ⟨.multi ⟨.sample, [.ofParts 1 1 27]⟩, "x"⟩ l.knows ⟨"s", 1⟩ = .ok multi ∧
      a ∈ multi.authorized ∧
      (∃ m report, CosignedPackage.addSignature ⟨.sample, [.ofParts 1 1 27]⟩ ⟨Block.zero⟩ = .ok m ∧
        authorize ⟨.multi m, "x"⟩ l.knows ⟨"s", 1⟩ = .ok report ∧ a ∈ report.authorized) ∧
      (∃ report, authorize ⟨.single [⟨.sample, ⟨Block.zero⟩⟩, ⟨.sample, .ofParts 1 1 27⟩], "x"⟩
        l.knows ⟨"s", 1⟩ = .ok report ∧ a ∈ report.authorized) ∧
      ∃ report, authorize ⟨.single [⟨.sample, .ofParts 1 1 27⟩], "x"⟩
        (l.insert "s" ⟨Block.zero⟩).knows ⟨"s", 1⟩ = .ok report ∧ a ∈ report.authorized := by
  obtain ⟨digest, a, hdigest, hrecover⟩ := exists_recover_sample
  obtain ⟨hmulti, hsingle, hlist⟩ := added_votes_revoke_nothing ⟨"s", 1⟩
  have hvote : DataPackage.sample.hash >>= (Signature.ofParts 1 1 27).recover = .ok a :=
    Fallible.bind_eq_ok_iff.mpr ⟨digest, hdigest, hrecover⟩
  have hsample : ∀ q ∈ [DataPackage.sample], ∃ bytes, q.encode = .ok bytes :=
    List.forall_mem_singleton.mpr DataPackage.exists_encode_sample
  have hknown : (AllowList.empty.insert "s" a).knows "s" a = true :=
    (AllowList.knows_insert _ _ _ _ _).mpr (.inl ⟨rfl, rfl⟩)
  obtain ⟨single, hsingle₁, hmem₁⟩ := exists_authorize_of_outcomes_eq
    (p := ⟨.single [⟨.sample, .ofParts 1 1 27⟩], "x"⟩) hsample
    (by rw [outcomes_single, List.map_singleton, SignedPackage.recover, hvote]) hknown
  obtain ⟨multi, hmulti₁, hmem₂⟩ := exists_authorize_of_outcomes_eq
    (p := ⟨.multi ⟨.sample, [.ofParts 1 1 27]⟩, "x"⟩) hsample
    (by rw [outcomes_multi, List.map_singleton, hvote]) hknown
  refine ⟨a, _, single, multi, hsingle₁, hmem₁, hmulti₁, hmem₂, ?_, ?_, ?_⟩
  · obtain ⟨report, hreport, hkept, -⟩ := hmulti _ _ _ _ ⟨Block.zero⟩ _ hmulti₁ rfl
    exact ⟨_, report, rfl, hreport, hkept a hmem₂⟩
  · obtain ⟨report, hreport, hkept, -⟩ := hsingle [] [⟨.sample, .ofParts 1 1 27⟩]
      ⟨.sample, ⟨Block.zero⟩⟩ _ _ _ hsingle₁ DataPackage.exists_encode_sample
    exact ⟨report, hreport, hkept a hmem₁⟩
  · obtain ⟨report, hreport, hkept, -⟩ := hlist _ _ "s" ⟨Block.zero⟩ _ hsingle₁
    exact ⟨report, hreport, hkept a hmem₁⟩

end Payload
end SignedFeeds
