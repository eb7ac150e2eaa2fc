/-
# What an authorization says

A payload is a row of votes: each signature, with the data package that it covers.  Every vote
has an outcome, an address or an error, and the outcome of one vote does not depend on the
other votes.  An authorization counts the distinct known addresses among the outcomes.

`Payload.authorize_eq_reference` says so.  What one outcome adds to the report is
`Attribution.record_eq`; what a row of outcomes adds follows by induction
(`Attribution.foldl_record`).
-/
import Mathlib.Data.Finset.Card
import Mathlib.Data.Finset.Dedup
import SignedFeeds.Authorization
import SignedFeeds.Proofs.Payload.RoundTrip

namespace SignedFeeds

namespace OrderedSet

variable {α : Type} [Ord α] [Std.LawfulEqOrd α]

lemma nodup_toList (s : OrderedSet α) : s.toList.Nodup := by
  refine s.ascending.imp fun {a b} hab heq => ?_
  have hself : compare b b = .eq := Std.ReflCmp.compare_self
  rw [heq, hself] at hab
  cases hab

/-- The size of a set counts each element once. -/
lemma size_eq_card [DecidableEq α] {s : OrderedSet α} {t : Finset α} (h : ∀ a, a ∈ s ↔ a ∈ t) :
    s.size = t.card := by
  have hset : s.toList.toFinset = t := by
    ext a
    rw [List.mem_toFinset, ← h a, mem_def]
  rw [size, ← hset, List.toFinset_card_of_nodup s.nodup_toList]

/-- Sets with the same elements are equal. -/
lemma eq_of_mem_iff [Std.OrientedOrd α] {s t : OrderedSet α} (h : ∀ a, a ∈ s ↔ a ∈ t) : s = t := by
  have hperm : s.toList.Perm t.toList :=
    (List.perm_ext_iff_of_nodup s.nodup_toList t.nodup_toList).mpr h
  refine OrderedSet.ext (hperm.eq_of_pairwise (fun a b _ _ hab hba => ?_) s.ascending t.ascending)
  exact absurd hba (Std.OrientedCmp.not_lt_of_lt hab)

end OrderedSet

namespace Attribution

/-- The addresses among the outcomes, in their order. -/
def addresses (outcomes : List (Except WireError Address)) : List Address :=
  outcomes.filterMap Except.toOption

/-- How many outcomes are errors. -/
def failures (outcomes : List (Except WireError Address)) : Nat :=
  outcomes.countP fun outcome => outcome.toOption.isNone

@[simp] lemma addresses_nil : addresses [] = [] := rfl

@[simp] lemma failures_nil : failures [] = 0 := rfl

@[simp] lemma addresses_ok_cons {a : Address} {rest : List (Except WireError Address)} :
    addresses (.ok a :: rest) = a :: addresses rest := rfl

@[simp] lemma addresses_error_cons {e : WireError} {rest : List (Except WireError Address)} :
    addresses (.error e :: rest) = addresses rest := rfl

lemma addresses_map_ok (l : List Address) : addresses (l.map .ok) = l := by
  rw [addresses, List.filterMap_map]
  exact List.filterMap_some

@[simp] lemma failures_ok_cons {a : Address} {rest : List (Except WireError Address)} :
    failures (.ok a :: rest) = failures rest := List.countP_cons_of_neg Bool.false_ne_true

@[simp] lemma failures_error_cons {e : WireError} {rest : List (Except WireError Address)} :
    failures (.error e :: rest) = failures rest + 1 := List.countP_cons_of_pos rfl

variable {known : Address → Bool} {report : Attribution}

/-- A known address joins the set, an unknown one is listed, and an error is counted. -/
lemma record_eq (outcome : Except WireError Address) :
    record known report outcome =
      ⟨((addresses [outcome]).filter known).foldl OrderedSet.insert report.authorized,
        report.unknown ++ (addresses [outcome]).filter (fun a => !known a),
        report.unrecoverable + failures [outcome]⟩ := by
  cases outcome with
  | error e => simp [record]
  | ok a => cases hknown : known a <;> simp [record, hknown]

/-- Outcomes that are recorded one by one add what they add as a whole. -/
lemma foldl_record (outcomes : List (Except WireError Address)) :
    outcomes.foldl (record known) report =
      ⟨((addresses outcomes).filter known).foldl OrderedSet.insert report.authorized,
        report.unknown ++ (addresses outcomes).filter (fun a => !known a),
        report.unrecoverable + failures outcomes⟩ := by
  induction outcomes generalizing report with
  | nil => simp
  | cons outcome rest ih =>
    have haddresses : addresses (outcome :: rest) = addresses [outcome] ++ addresses rest :=
      List.filterMap_append (l := [outcome])
    have hfailures : failures (outcome :: rest) = failures [outcome] + failures rest :=
      @List.countP_append _ _ [outcome] rest
    rw [List.foldl_cons, ih, record_eq, haddresses, hfailures]
    simp only [List.filter_append, List.foldl_append, List.append_assoc, Nat.add_assoc]

end Attribution

/-! ## Votes -/

/-- Each signature with the data package that it covers, in the order of the wire. -/
def Content.votes : Content → List (DataPackage × Signature)
  | .single packages => packages.map fun m => (m.package, m.signature)
  | .multi m => m.signatures.map fun sig => (m.package, sig)

namespace Payload

/-- What each signature recovers to, over the hash of its own data package. -/
def outcomes (p : Payload) : List (Except WireError Address) :=
  p.content.votes.map fun vote => vote.1.hash >>= vote.2.recover

lemma outcomes_single (packages : List SignedPackage) (metadata : String) :
    outcomes ⟨.single packages, metadata⟩ = packages.map SignedPackage.recover := List.map_map

lemma outcomes_multi (m : CosignedPackage) (metadata : String) :
    outcomes ⟨.multi m, metadata⟩ = m.signatures.map fun sig => m.package.hash >>= sig.recover :=
  List.map_map

/-- The known addresses among those that the signatures recover to. -/
def knownSigners (p : Payload) (registry : Registry) (service : String) : Finset Address :=
  ((Attribution.addresses p.outcomes).filter (registry service)).toFinset

variable {p : Payload}

/-- All data packages can be written, and so they can be hashed. -/
def Hashable (p : Payload) : Prop := ∀ q ∈ p.content.dataPackages, ∃ bytes, q.encode = .ok bytes

lemma recoveries_eq_outcomes (h : p.Hashable) : p.recoveries = .ok p.outcomes := by
  have hhash {q : DataPackage} (hq : q ∈ p.content.dataPackages) : ∃ d, q.hash = .ok d := by
    obtain ⟨bytes, hbytes⟩ := h q hq
    exact ⟨_, Fallible.map_eq_ok_iff.mpr ⟨bytes, hbytes, rfl⟩⟩
  obtain ⟨content, metadata⟩ := p
  rw [recoveries, outcomes]
  cases content with
  | single packages =>
    rw [Content.votes, List.map_map]
    refine Fallible.mapM_eq_ok_of_forall fun m hm => ?_
    obtain ⟨digest, hdigest⟩ := hhash (List.mem_map_of_mem hm)
    simp only [Function.comp_apply, hdigest]
    rfl
  | multi m =>
    obtain ⟨digest, hdigest⟩ := hhash List.mem_cons_self
    show m.package.hash.map _ = _
    rw [hdigest, Content.votes, List.map_map]
    refine congrArg Except.ok (List.map_congr_left fun sig _ => ?_)
    rw [Function.comp_apply, hdigest]
    rfl

/-- Only a payload that can be hashed gets as far as its signatures. -/
lemma hashable_of_recoveries {results : List (Except WireError Address)}
    (h : p.recoveries = .ok results) : p.Hashable := by
  have hencode {q : DataPackage} {d : Digest} (hq : q.hash = .ok d) :
      ∃ bytes, q.encode = .ok bytes := by
    obtain ⟨bytes, hbytes, -⟩ := Fallible.map_eq_ok_iff.mp hq
    exact ⟨bytes, hbytes⟩
  obtain ⟨content, metadata⟩ := p
  cases content with
  | single packages =>
    refine List.forall_mem_map.mpr fun m hm => ?_
    obtain ⟨_, hrecovery⟩ := Fallible.exists_of_mapM_eq_ok h hm
    obtain ⟨d, hd, -⟩ := Fallible.map_eq_ok_iff.mp hrecovery
    exact hencode hd
  | multi m =>
    obtain ⟨d, hd, -⟩ := Fallible.map_eq_ok_iff.mp h
    exact List.forall_mem_singleton.mpr (hencode hd)

lemma hash_eq_error {q : DataPackage} {e : WireError} (h : q.encode = .error e) :
    q.hash = .error e := by
  rw [DataPackage.hash, h]
  rfl

/-- The first data package that cannot be written decides, whatever the signatures are. -/
lemma recoveries_eq_error {before after : List DataPackage} {q : DataPackage} {e : WireError}
    (hpackages : p.content.dataPackages = before ++ q :: after)
    (hbefore : ∀ a ∈ before, ∃ bytes, a.encode = .ok bytes) (hq : q.encode = .error e) :
    p.recoveries = .error e := by
  obtain ⟨content, metadata⟩ := p
  cases content with
  | single packages =>
    obtain ⟨front, back, rfl, rfl, hback⟩ := List.map_eq_append_iff.mp hpackages
    obtain ⟨m, rest, rfl, rfl, -⟩ := List.map_eq_cons_iff.mp hback
    refine Fallible.mapM_eq_error (fun m' hm' => ?_) ?_
    · obtain ⟨bytes, hbytes⟩ := hbefore m'.package (List.mem_map_of_mem hm')
      exact ⟨_, by rw [DataPackage.hash, hbytes]; rfl⟩
    · rw [hash_eq_error hq]
      rfl
  | multi m =>
    -- there is one data package only, and it stands first
    obtain ⟨rfl, hrest⟩ | ⟨_, hnil⟩ := List.singleton_eq_append_iff.mp hpackages
    · obtain rfl : q = m.package := (List.cons.inj hrest).1
      show m.package.hash.map _ = _
      rw [hash_eq_error hq]
      rfl
    · cases hnil

lemma hashable_of_parse {buffer : List UInt8} {limits : Limits} {found : Found}
    (h : parse buffer limits = .ok found) : found.payload.Hashable := by
  obtain ⟨-, -, bytes, hencode, -⟩ := parse_eq_ok_iff.mp h
  obtain ⟨-, front, size, hlayout, -⟩ := encode_eq_ok_iff.mp hencode
  exact Content.exists_encode_of_layout hlayout

/-! ## The decision -/

/-- The report on a payload that can be hashed. -/
def report (p : Payload) (registry : Registry) (service : String) : Attribution :=
  ⟨.ofList ((Attribution.addresses p.outcomes).filter (registry service)),
    (Attribution.addresses p.outcomes).filter (fun a => !registry service a),
    Attribution.failures p.outcomes⟩

lemma mem_report_authorized {registry : Registry} {service : String} (a : Address) :
    a ∈ (p.report registry service).authorized ↔ a ∈ p.knownSigners registry service := by
  rw [report, OrderedSet.mem_ofList, knownSigners, List.mem_toFinset]

lemma foldl_outcomes (p : Payload) (registry : Registry) (service : String) :
    p.outcomes.foldl (Attribution.record (registry service)) .none = p.report registry service := by
  rw [Attribution.foldl_record, report, Attribution.none, List.nil_append, Nat.zero_add]
  rfl

lemma authorize_of_hashable (h : p.Hashable) (registry : Registry) (quorum : Quorum) :
    p.authorize registry quorum =
      if (p.knownSigners registry quorum.service).card < quorum.threshold then
        .error (.insufficient quorum.service quorum.threshold
          (p.knownSigners registry quorum.service).card)
      else .ok (p.report registry quorum.service) := by
  have hcard : (p.report registry quorum.service).authorized.size =
      (p.knownSigners registry quorum.service).card :=
    OrderedSet.size_eq_card mem_report_authorized
  simp only [authorize, recoveries_eq_outcomes h, foldl_outcomes, hcard]

lemma authorize_eq_ok_iff {registry : Registry} {quorum : Quorum} {report : Attribution} :
    p.authorize registry quorum = .ok report ↔
      p.Hashable ∧ quorum.threshold ≤ (p.knownSigners registry quorum.service).card ∧
        report = p.report registry quorum.service := by
  constructor
  · intro h
    have hp : p.Hashable := by
      rw [authorize] at h
      cases hrecoveries : p.recoveries with
      | error e =>
        rw [hrecoveries] at h
        cases h
      | ok results => exact hashable_of_recoveries hrecoveries
    rw [authorize_of_hashable hp] at h
    split_ifs at h with hfew
    exact ⟨hp, Nat.not_lt.mp hfew, (Except.ok.inj h).symm⟩
  · rintro ⟨hp, hmany, rfl⟩
    rw [authorize_of_hashable hp, if_neg (Nat.not_lt.mpr hmany)]

/-- **What `authorize` says.**  The first data package that cannot be written decides, whatever
the signatures are.  Otherwise the distinct known addresses among the outcomes are counted
against the threshold, and the report has these addresses, the unknown ones in the order of the
wire with their repeats, and the number of failed recoveries.  A payload that was found in a
buffer can always be hashed, so it is refused exactly when the known signers are too few. -/
theorem authorize_eq_reference (registry : Registry) (quorum : Quorum) :
    (∀ (p : Payload) before q after e, p.content.dataPackages = before ++ q :: after →
      (∀ a ∈ before, ∃ bytes, a.encode = .ok bytes) → q.encode = .error e →
        p.authorize registry quorum = .error (.unhashable e)) ∧
    (∀ p : Payload, p.Hashable →
      ((p.knownSigners registry quorum.service).card < quorum.threshold →
        p.authorize registry quorum = .error (.insufficient quorum.service quorum.threshold
          (p.knownSigners registry quorum.service).card)) ∧
      (quorum.threshold ≤ (p.knownSigners registry quorum.service).card →
        ∃ report, p.authorize registry quorum = .ok report ∧
          (∀ a, a ∈ report.authorized ↔ a ∈ p.knownSigners registry quorum.service) ∧
          report.unknown =
            (Attribution.addresses p.outcomes).filter (fun a => !registry quorum.service a) ∧
          report.unrecoverable = Attribution.failures p.outcomes)) ∧
    (∀ buffer limits found, parse buffer limits = .ok found →
      (∀ e, found.payload.authorize registry quorum ≠ .error (.unhashable e)) ∧
      ((∃ e, found.payload.authorize registry quorum = .error e) ↔
        (found.payload.knownSigners registry quorum.service).card < quorum.threshold)) := by
  refine ⟨fun p before q after e hpackages hbefore hq => ?_, fun p hp => ⟨fun hfew => ?_,
    fun hmany => ?_⟩, fun buffer limits found hfound => ?_⟩
  · rw [authorize, recoveries_eq_error hpackages hbefore hq]
  · rw [authorize_of_hashable hp, if_pos hfew]
  · refine ⟨p.report registry quorum.service, ?_, mem_report_authorized, rfl, rfl⟩
    rw [authorize_of_hashable hp, if_neg (Nat.not_lt.mpr hmany)]
  · rw [authorize_of_hashable (hashable_of_parse hfound)]
    split_ifs with hfew
    · exact ⟨by rintro e ⟨⟩, iff_of_true ⟨_, rfl⟩ hfew⟩
    · exact ⟨by rintro e ⟨⟩, iff_of_false (by rintro ⟨e, ⟨⟩⟩) hfew⟩

/-- A payload with two signatures of one signer and one that belongs to nobody. -/
def sampleVotes : Payload :=
  ⟨.multi ⟨.sample, [.ofParts 1 1 27, .ofParts 1 1 27, ⟨Block.zero⟩]⟩, "x"⟩

/-- A payload whose second data package cannot be written. -/
def sampleUnwritable : Payload :=
  ⟨.single [⟨.sample, ⟨Block.zero⟩⟩, ⟨⟨[], 7⟩, ⟨Block.zero⟩⟩], "x"⟩

/-- The numbers 1 and 1 are a signature that somebody made of the sample. -/
lemma exists_recover_sample :
    ∃ digest a, DataPackage.sample.hash = .ok digest ∧
      (Signature.ofParts 1 1 27).recover digest = .ok a := by
  -- the recovery runs on the hash of the bytes of the sample
  obtain ⟨bytes, hbytes, hgood⟩ : ∃ bytes, DataPackage.sample.encode = .ok bytes ∧
      ((Signature.ofParts 1 1 27).recover (Keccak.hash bytes)).toOption.isSome := by
    refine ⟨_, (DataPackage.encode_eq_ok_iff_of_ascending (by decide)).mpr
      ⟨by decide, 1, by decide, _, _, _, rfl, rfl, rfl, rfl⟩, ?_⟩
    decide +kernel
  obtain ⟨a, ha⟩ := Option.isSome_iff_exists.mp hgood
  refine ⟨Keccak.hash bytes, a, Fallible.map_eq_ok_iff.mpr ⟨bytes, hbytes, rfl⟩, ?_⟩
  cases hrecover : (Signature.ofParts 1 1 27).recover (Keccak.hash bytes) with
  | error e =>
    rw [hrecover] at ha
    cases ha
  | ok b =>
    rw [hrecover] at ha
    exact congrArg Except.ok (Option.some.inj ha)

lemma exists_outcomes_sampleVotes :
    ∃ a e, sampleVotes.outcomes = [.ok a, .ok a, .error e] := by
  obtain ⟨digest, a, hdigest, hrecover⟩ := exists_recover_sample
  have hzero : (⟨Block.zero⟩ : Signature).recover digest = .error .invalidSignature :=
    if_neg (by decide)
  have hvote (sig : Signature) : DataPackage.sample.hash >>= sig.recover = sig.recover digest := by
    rw [hdigest]
    rfl
  refine ⟨a, .invalidSignature, ?_⟩
  rw [sampleVotes, outcomes_multi]
  simp only [List.map_cons, List.map_nil, hvote, hrecover, hzero]

lemma exists_encode_sampleVotes : ∃ bytes, sampleVotes.encode = .ok bytes :=
  exists_encode_cosigned _ DataPackage.exists_encode_sample (by decide) (by decide)

theorem authorize_eq_reference_sample :
    sampleUnwritable.authorize (fun _ _ => true) ⟨"s", 0⟩ = .error (.unhashable .noPoints) ∧
      sampleVotes.authorize (fun _ _ => true) ⟨"s", 2⟩ = .error (.insufficient "s" 2 1) ∧
      (∃ report, sampleVotes.authorize (fun _ _ => true) ⟨"s", 1⟩ = .ok report ∧
        report.unknown = [] ∧ report.unrecoverable = 1) ∧
      ∃ buffer found, parse buffer = .ok found ∧
        ∃ e, found.payload.authorize (fun _ _ => true) ⟨"s", 2⟩ = .error e := by
  obtain ⟨hunwritable, hfew, hparse⟩ := authorize_eq_reference (fun _ _ => true) ⟨"s", 2⟩
  obtain ⟨a, e, houtcomes⟩ := exists_outcomes_sampleVotes
  have hcard : (sampleVotes.knownSigners (fun _ _ => true) "s").card = 1 := by
    simp [knownSigners, houtcomes]
  obtain ⟨bytes, hbytes⟩ := exists_encode_sampleVotes
  have hfound := parse_append_of_ascending (p := sampleVotes)
    (List.forall_mem_singleton.mpr (by decide)) hbytes marker
  have hhashable := hashable_of_parse hfound
  refine ⟨?_, ?_, ?_, _, _, hfound, (hparse _ _ _ hfound).2.mpr ?_⟩
  · refine (authorize_eq_reference _ _).1 sampleUnwritable [.sample] ⟨[], 7⟩ [] _ rfl ?_ rfl
    exact List.forall_mem_singleton.mpr DataPackage.exists_encode_sample
  · have h := (hfew sampleVotes hhashable).1 (by rw [hcard]; decide)
    rwa [hcard] at h
  · obtain ⟨report, hreport, -, hunknown, hunrecoverable⟩ :=
      ((authorize_eq_reference (fun _ _ => true) ⟨"s", 1⟩).2.1 sampleVotes hhashable).2 hcard.ge
    refine ⟨report, hreport, ?_, ?_⟩
    · simp [hunknown]
    · simp [hunrecoverable, houtcomes]
  · rw [hcard]
    decide

end Payload
end SignedFeeds
