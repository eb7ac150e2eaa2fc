/-
# Payloads of lawful signers

A signer is lawful if whatever it signs recovers to its own address.  Packages that lawful
signers have signed recover to the addresses of these signers, in the order of signing, and
they still do so when the payload has been written and found again behind any prefix.  An
authorization then counts the distinct known ones among the signers.

The signers hash the canonical form of a package, and so does whoever reads the package off
the wire; the steps in between are those of `SignedFeeds.Proofs.Payload.Transport`.
-/
import SignedFeeds.Proofs.Payload.Transport

namespace SignedFeeds

/-- Whatever the signer signs recovers to its address. -/
def Signer.Lawful (s : Signer) : Prop :=
  ∀ hash sig, s.sign hash = .ok sig → sig.recover hash = .ok s.address

/-- A signer that has one signature of one hash, and refuses every other hash. -/
def Signer.once (a : Address) (hash : Digest) (sig : Signature) : Signer where
  address := a
  sign other := if other = hash then .ok sig else .error (.undecodable "signer refused")

lemma Signer.lawful_once {a : Address} {hash : Digest} {sig : Signature}
    (h : sig.recover hash = .ok a) : (once a hash sig).Lawful := by
  intro other sig' hsign
  change (if other = hash then _ else _) = _ at hsign
  split_ifs at hsign with heq
  obtain rfl := Except.ok.inj hsign
  rw [heq, h]
  rfl

/-! ## Signed packages -/

lemma SignedPackage.recover_of_sign {p : DataPackage} {s : Signer} {m : SignedPackage}
    (hlawful : s.Lawful) (h : sign p s = .ok m) : m.recover = .ok s.address := by
  obtain ⟨package, -, h⟩ := Fallible.bind_eq_ok_iff.mp h
  obtain ⟨hash, hhash, h⟩ := Fallible.bind_eq_ok_iff.mp h
  obtain ⟨sig, hsig, h⟩ := Fallible.bind_eq_ok_iff.mp h
  obtain rfl := Fallible.pure_eq_ok_iff.mp h
  exact Fallible.bind_eq_ok_iff.mpr ⟨hash, hhash, hlawful hash sig hsig⟩

lemma CosignedPackage.recover_of_sign {p : DataPackage} {signers : List Signer}
    {m : CosignedPackage} (hlawful : ∀ s ∈ signers, s.Lawful) (h : sign p signers = .ok m) :
    m.recover = .ok (signers.map Signer.address) := by
  obtain ⟨package, -, h⟩ := Fallible.bind_eq_ok_iff.mp h
  obtain ⟨hash, hhash, h⟩ := Fallible.bind_eq_ok_iff.mp h
  obtain ⟨signatures, hsignatures, h⟩ := Fallible.bind_eq_ok_iff.mp h
  obtain ⟨_, -, h⟩ := Fallible.bind_eq_ok_iff.mp h
  obtain rfl := Fallible.pure_eq_ok_iff.mp h
  refine Fallible.bind_eq_ok_iff.mpr ⟨hash, hhash, ?_⟩
  -- each signature recovers to the address of the signer that made it
  rw [Fallible.mapM_of_mapM_eq_ok hsignatures fun s hs sig => hlawful s hs hash sig]
  exact Fallible.mapM_eq_ok_of_forall fun _ _ => rfl

namespace Payload

variable {p : Payload} {lists : List (List Address)} {front bytes : List UInt8}

lemma recoverSigners_of_signAll {metadata : String} {jobs : List (DataPackage × Signer)}
    {packages : List SignedPackage} (hlawful : ∀ job ∈ jobs, job.2.Lawful)
    (h : jobs.mapM (fun job => SignedPackage.sign job.1 job.2) = .ok packages) :
    recoverSigners ⟨.single packages, metadata⟩ = .ok (jobs.map fun job => [job.2.address]) := by
  have hstep (job : DataPackage × Signer) (hjob : job ∈ jobs) (m : SignedPackage)
      (hm : SignedPackage.sign job.1 job.2 = .ok m) :
      (m.recover.map fun a => [a]) = .ok [job.2.address] := by
    rw [SignedPackage.recover_of_sign (hlawful job hjob) hm]
    rfl
  show packages.mapM _ = _
  rw [Fallible.mapM_of_mapM_eq_ok h hstep]
  exact Fallible.mapM_eq_ok_of_forall fun _ _ => rfl

lemma recoverSigners_of_sign {metadata : String} {package : DataPackage} {signers : List Signer}
    {m : CosignedPackage} (hlawful : ∀ s ∈ signers, s.Lawful)
    (h : CosignedPackage.sign package signers = .ok m) :
    recoverSigners ⟨.multi m, metadata⟩ = .ok [signers.map Signer.address] :=
  Fallible.map_eq_ok_iff.mpr ⟨_, CosignedPackage.recover_of_sign hlawful h, rfl⟩

/-! ## Authorization of recovered signers -/

/-- Where all signers can be recovered, they are what the signatures recover to. -/
lemma outcomes_of_recoverSigners (h : p.recoverSigners = .ok lists) :
    p.outcomes = lists.flatten.map .ok := by
  obtain ⟨content, metadata⟩ := p
  cases content with
  | single packages =>
    induction packages generalizing lists with
    | nil =>
      obtain rfl := Except.ok.inj h
      rfl
    | cons m rest ih =>
      obtain ⟨_, lists, hm, hrest, rfl⟩ := Fallible.mapM_cons_eq_ok_iff.mp h
      obtain ⟨a, ha, rfl⟩ := Fallible.map_eq_ok_iff.mp hm
      rw [outcomes_single, List.map_cons, ← outcomes_single, ha, ih hrest]
      rfl
  | multi m =>
    obtain ⟨addresses, haddresses, rfl⟩ := Fallible.map_eq_ok_iff.mp h
    obtain ⟨hash, hhash, hmany⟩ := Fallible.bind_eq_ok_iff.mp haddresses
    rw [outcomes_multi, hhash, List.flatten_singleton]
    exact Fallible.mapM_eq_ok_iff_map.mp hmany

lemma authorize_eq_ok_iff_of_recoverSigners (hhashable : p.Hashable)
    (h : p.recoverSigners = .ok lists) (registry : Registry) (quorum : Quorum) :
    (∃ report, p.authorize registry quorum = .ok report) ↔
      quorum.threshold ≤ (lists.flatten.filter (registry quorum.service)).toFinset.card := by
  have hknown : p.knownSigners registry quorum.service =
      (lists.flatten.filter (registry quorum.service)).toFinset := by
    rw [knownSigners, outcomes_of_recoverSigners h, Attribution.addresses_map_ok]
  rw [authorize_of_hashable hhashable, hknown]
  split_ifs with hfew
  · exact iff_of_false (by rintro ⟨_, ⟨⟩⟩) (Nat.not_le.mpr hfew)
  · exact iff_of_true ⟨_, rfl⟩ (Nat.not_lt.mp hfew)

/-- A payload whose signers can be recovered is found with the same signers, and whether it is
authorized depends on the distinct known ones among them. -/
lemma exists_parse_of_recoverSigners (hencode : p.encode = .ok bytes)
    (h : p.recoverSigners = .ok lists) (front : List UInt8) :
    ∃ found, parse (front ++ bytes) = .ok found ∧ found.payload.recoverSigners = .ok lists ∧
      ∀ registry quorum, (∃ report, found.payload.authorize registry quorum = .ok report) ↔
        quorum.threshold ≤ (lists.flatten.filter (registry quorum.service)).toFinset.card := by
  obtain ⟨found, hfound, hsame⟩ := exists_parse_sameAttribution hencode front
  have hsigners := hsame.recoverSigners_eq.trans h
  exact ⟨found, hfound, hsigners,
    authorize_eq_ok_iff_of_recoverSigners (hashable_of_parse hfound) hsigners⟩

/-- **Lawful signers are recovered from the wire.**  A package that lawful signers have cosigned
is found in its payload, behind any prefix, with the addresses of the signers in the order of
signing.  Packages that lawful signers have signed one by one are found with one address each,
in the order of the packages.  Either payload is authorized exactly when enough of these
addresses are known, each counted once. -/
theorem lawful_signers_recovered (metadata : String) (front : List UInt8) :
    (∀ (p : DataPackage) (signers : List Signer) m bytes, (∀ s ∈ signers, s.Lawful) →
      CosignedPackage.sign p signers = .ok m → encode ⟨.multi m, metadata⟩ = .ok bytes →
      ∃ found, parse (front ++ bytes) = .ok found ∧
        found.payload.recoverSigners = .ok [signers.map Signer.address] ∧
        ∀ registry quorum, (∃ report, found.payload.authorize registry quorum = .ok report) ↔
          quorum.threshold ≤
            ((signers.map Signer.address).filter (registry quorum.service)).toFinset.card) ∧
    (∀ (jobs : List (DataPackage × Signer)) packages bytes, (∀ job ∈ jobs, job.2.Lawful) →
      jobs.mapM (fun job => SignedPackage.sign job.1 job.2) = .ok packages →
      encode ⟨.single packages, metadata⟩ = .ok bytes →
      ∃ found, parse (front ++ bytes) = .ok found ∧
        found.payload.recoverSigners = .ok (jobs.map fun job => [job.2.address]) ∧
        ∀ registry quorum, (∃ report, found.payload.authorize registry quorum = .ok report) ↔
          quorum.threshold ≤ ((jobs.map fun job => job.2.address).filter
            (registry quorum.service)).toFinset.card) := by
  refine ⟨fun p signers m bytes hlawful hsign hencode => ?_,
    fun jobs packages bytes hlawful hsign hencode => ?_⟩
  · have h := exists_parse_of_recoverSigners hencode (recoverSigners_of_sign hlawful hsign) front
    rwa [List.flatten_singleton] at h
  · have h := exists_parse_of_recoverSigners hencode (recoverSigners_of_signAll hlawful hsign) front
    rwa [← List.flatMap_def, ← List.map_eq_flatMap] at h

lemma exists_lawful_signer_sample :
    ∃ s : Signer, ∃ sig, s.Lawful ∧
      CosignedPackage.sign .sampleCrossed [s, s] = .ok ⟨.sample, [sig, sig]⟩ ∧
      SignedPackage.sign .sampleCrossed s = .ok ⟨.sample, sig⟩ := by
  obtain ⟨digest, a, hdigest, hrecover⟩ := exists_recover_sample
  have hcanonical : DataPackage.sampleCrossed.canonicalize = .ok .sample := by
    refine Fallible.map_eq_ok_iff.mpr ⟨DataPackage.sample.points, ?_, rfl⟩
    exact DataPackage.canonicalPoints_eq_ok_iff.mpr ⟨by decide, by decide, by decide, 1, by decide⟩
  have hsign : (Signer.once a digest (.ofParts 1 1 27)).sign digest = .ok (.ofParts 1 1 27) :=
    if_pos rfl
  refine ⟨.once a digest (.ofParts 1 1 27), .ofParts 1 1 27, Signer.lawful_once hrecover, ?_, ?_⟩
  · have hmany : [Signer.once a digest (.ofParts 1 1 27), .once a digest (.ofParts 1 1 27)].mapM
        (fun s => s.sign digest) = .ok [.ofParts 1 1 27, .ofParts 1 1 27] :=
      Fallible.mapM_eq_ok_iff_map.mpr (by simp only [List.map_cons, List.map_nil, hsign])
    exact Fallible.bind_eq_ok_iff.mpr ⟨_, hcanonical, Fallible.bind_eq_ok_iff.mpr
      ⟨_, hdigest, Fallible.bind_eq_ok_iff.mpr ⟨_, hmany, rfl⟩⟩⟩
  · exact Fallible.bind_eq_ok_iff.mpr ⟨_, hcanonical, Fallible.bind_eq_ok_iff.mpr
      ⟨_, hdigest, Fallible.bind_eq_ok_iff.mpr ⟨_, hsign, rfl⟩⟩⟩

/-- One signer that signs twice counts once, on either kind of payload. -/
theorem lawful_signers_recovered_sample :
    ∃ s : Signer, s.Lawful ∧
      (∃ m bytes found, CosignedPackage.sign .sampleCrossed [s, s] = .ok m ∧
        encode ⟨.multi m, "x"⟩ = .ok bytes ∧ parse (marker ++ bytes) = .ok found ∧
        found.payload.recoverSigners = .ok [[s.address, s.address]] ∧
        ¬ ∃ report, found.payload.authorize (fun _ _ => true) ⟨"s", 2⟩ = .ok report) ∧
      ∃ m bytes found, SignedPackage.sign .sampleCrossed s = .ok m ∧
        encode ⟨.single [m, m], "x"⟩ = .ok bytes ∧ parse (marker ++ bytes) = .ok found ∧
        found.payload.recoverSigners = .ok [[s.address], [s.address]] ∧
        ∃ report, found.payload.authorize (fun _ _ => true) ⟨"s", 1⟩ = .ok report := by
  obtain ⟨s, sig, hlawful, hcosign, hsign⟩ := exists_lawful_signer_sample
  obtain ⟨hmulti, hsingle⟩ := lawful_signers_recovered "x" marker
  refine ⟨s, hlawful, ?_, ?_⟩
  · obtain ⟨bytes, hencode⟩ := exists_encode_cosigned ⟨.sample, [sig, sig]⟩
      DataPackage.exists_encode_sample (by simp) (by simp [CosignedPackage.maxSigners])
    obtain ⟨found, hfound, hsigners, hquorum⟩ := hmulti .sampleCrossed [s, s] _ _
      (by simp [hlawful]) hcosign hencode
    refine ⟨_, _, found, hcosign, hencode, hfound, hsigners, ?_⟩
    rw [hquorum]
    simp
  · obtain ⟨bytes, hencode⟩ := exists_encode_pair ⟨.sample, sig⟩ ⟨.sample, sig⟩
      DataPackage.exists_encode_sample DataPackage.exists_encode_sample
    obtain ⟨found, hfound, hsigners, hquorum⟩ := hsingle [(.sampleCrossed, s), (.sampleCrossed, s)]
      _ _ (by simp [hlawful]) (Fallible.mapM_cons_eq_ok_iff.mpr ⟨_, _, hsign,
        Fallible.mapM_cons_eq_ok_iff.mpr ⟨_, [], hsign, rfl, rfl⟩, rfl⟩) hencode
    refine ⟨_, _, found, hsign, hencode, hfound, hsigners, (hquorum _ _).mpr ?_⟩
    simp

end Payload
end SignedFeeds
