/-
# Repeated votes count once

A signature can be spelled in four ways.  Whoever holds a payload can therefore add signatures
to it without any secret: each vote may be cast again, in another spelling and at another
place, as often as one likes.  None of this reaches an authorization, because addresses are
counted and not signatures: what is added has an outcome that is there already, and the known
addresses among the outcomes make a set.
-/
import Mathlib.Logic.Relation
import SignedFeeds.Proofs.Payload.Attribution
import SignedFeeds.Proofs.Signature.Recovery

namespace SignedFeeds
namespace Payload

variable {p p' : Payload}

/-- One vote is cast again: at some place there is one more signature, which spells a
signature that is there already and covers the same data package. -/
inductive RepeatsVote : Payload → Payload → Prop
  | single {front back : List SignedPackage} {m m' : SignedPackage} {metadata : String}
      (mem : m ∈ front ++ back) (package_eq : m'.package = m.package)
      (reencodes : m.signature.Reencodes m'.signature) :
      RepeatsVote ⟨.single (front ++ back), metadata⟩ ⟨.single (front ++ m' :: back), metadata⟩
  | multi {package : DataPackage} {front back : List Signature} {sig sig' : Signature}
      {metadata : String} (mem : sig ∈ front ++ back) (reencodes : sig.Reencodes sig') :
      RepeatsVote ⟨.multi ⟨package, front ++ back⟩, metadata⟩
        ⟨.multi ⟨package, front ++ sig' :: back⟩, metadata⟩

/-! ## One repeated vote -/

lemma RepeatsVote.hashable (h : p.RepeatsVote p') (hp : p.Hashable) : p'.Hashable := by
  cases h with
  | single mem package_eq _ =>
    refine List.forall_mem_map.mpr fun m hm => ?_
    rcases List.mem_append.mp hm with hm | hm
    · exact hp _ (List.mem_map_of_mem (List.mem_append_left _ hm))
    rcases List.mem_cons.mp hm with rfl | hm
    · rw [package_eq]
      exact hp _ (List.mem_map_of_mem mem)
    · exact hp _ (List.mem_map_of_mem (List.mem_append_right _ hm))
  | multi _ _ => exact hp

/-- In either generation one vote is added, and it covers the data package of another one. -/
lemma RepeatsVote.exists_votes (h : p.RepeatsVote p') :
    ∃ front back vote sig', p.content.votes = front ++ back ∧
      p'.content.votes = front ++ (vote.1, sig') :: back ∧ vote ∈ front ++ back ∧
      vote.2.Reencodes sig' := by
  cases h with
  | @single front back m m' metadata mem package_eq reencodes =>
    refine ⟨front.map fun m => (m.package, m.signature), back.map fun m => (m.package, m.signature),
      (m.package, m.signature), m'.signature, ?_, ?_, ?_, reencodes⟩
    · exact List.map_append
    · rw [Content.votes, List.map_append, List.map_cons, package_eq]
    · rw [← List.map_append]
      exact List.mem_map_of_mem mem
  | @multi package front back sig sig' metadata mem reencodes =>
    refine ⟨front.map fun sig => (package, sig), back.map fun sig => (package, sig),
      (package, sig), sig', List.map_append, List.map_append, ?_, reencodes⟩
    rw [← List.map_append]
    exact List.mem_map_of_mem mem

lemma RepeatsVote.mem_outcomes_iff (h : p.RepeatsVote p') (outcome : Except WireError Address) :
    outcome ∈ p'.outcomes ↔ outcome ∈ p.outcomes := by
  obtain ⟨front, back, vote, sig', hvotes, hvotes', hmem, hreencodes⟩ := h.exists_votes
  have hsame : vote.1.hash >>= sig'.recover = vote.1.hash >>= vote.2.recover :=
    congrArg _ (funext hreencodes.recover_eq)
  have hthere : vote.1.hash >>= vote.2.recover ∈ p.outcomes := by
    rw [outcomes, hvotes]
    exact List.mem_map_of_mem hmem
  have hsplit : outcome ∈ p'.outcomes ↔
      outcome = vote.1.hash >>= sig'.recover ∨ outcome ∈ p.outcomes := by
    simp only [outcomes, hvotes, hvotes', List.map_append, List.map_cons, List.mem_append,
      List.mem_cons, or_left_comm]
  rw [hsplit, hsame]
  refine ⟨?_, .inr⟩
  rintro (rfl | hold)
  · exact hthere
  · exact hold

/-! ## Any number of them -/

lemma hashable_and_mem_outcomes_of_repeats (hp : p.Hashable)
    (h : Relation.ReflTransGen RepeatsVote p p') :
    p'.Hashable ∧ ∀ outcome, outcome ∈ p'.outcomes ↔ outcome ∈ p.outcomes := by
  induction h with
  | refl => exact ⟨hp, fun _ => Iff.rfl⟩
  | tail _ hstep ih =>
    obtain ⟨hq, hmem⟩ := ih
    exact ⟨hstep.hashable hq, fun outcome =>
      (hstep.mem_outcomes_iff outcome).trans (hmem outcome)⟩

/-- Payloads with the same outcomes have the same known signers, however often and in whatever
order the outcomes come. -/
lemma knownSigners_of_mem_outcomes (h : ∀ outcome, outcome ∈ p'.outcomes ↔ outcome ∈ p.outcomes)
    (registry : Registry) (service : String) :
    p'.knownSigners registry service = p.knownSigners registry service := by
  ext a
  simp only [knownSigners, Attribution.addresses, List.mem_toFinset, List.mem_filter,
    List.mem_filterMap, h]

lemma report_authorized_of_mem_outcomes
    (h : ∀ outcome, outcome ∈ p'.outcomes ↔ outcome ∈ p.outcomes) (registry : Registry)
    (service : String) :
    (p'.report registry service).authorized = (p.report registry service).authorized := by
  refine OrderedSet.eq_of_mem_iff fun a => ?_
  rw [mem_report_authorized, mem_report_authorized, knownSigners_of_mem_outcomes h]

/-- **Repeated votes count once.**  However often votes are cast again, in whatever spelling
and at whatever places, the set of authorized addresses stays the same, and so does the
refusal with the number of signers that were found. -/
theorem repeated_votes_count_once (hp : p.Hashable) (h : Relation.ReflTransGen RepeatsVote p p')
    (registry : Registry) (quorum : Quorum) :
    (p'.authorize registry quorum).map Attribution.authorized =
      (p.authorize registry quorum).map Attribution.authorized := by
  obtain ⟨hp', hmem⟩ := hashable_and_mem_outcomes_of_repeats hp h
  rw [authorize_of_hashable hp, authorize_of_hashable hp', knownSigners_of_mem_outcomes hmem]
  split_ifs with hfew
  · rfl
  · exact congrArg Except.ok (report_authorized_of_mem_outcomes hmem registry quorum.service)

/-- A payload with a vote of one address authorizes that address. -/
lemma authorize_of_outcomes_eq {a : Address} (hp : p.Hashable) (h : p.outcomes = [.ok a])
    (quorum : Quorum) :
    (p.authorize (fun _ _ => true) quorum).map Attribution.authorized =
      if 1 < quorum.threshold then .error (.insufficient quorum.service quorum.threshold 1)
      else .ok (.ofList [a]) := by
  have hcard : (p.knownSigners (fun _ _ => true) quorum.service).card = 1 := by
    simp [knownSigners, h]
  rw [authorize_of_hashable hp, hcard]
  split_ifs with hfew
  · rfl
  · simp [report, h, Except.map]

/-- A payload with one signature. -/
def sampleVote : Payload := ⟨.multi ⟨.sample, [.ofParts 1 1 27]⟩, "x"⟩

/-- The signature of `sampleVote` with two other spellings around it. -/
def sampleSpellings : Payload :=
  ⟨.multi ⟨.sample,
    [.ofParts 1 (Secp256k1.n - 1) 28, .ofParts 1 1 27, .ofParts 1 1 0]⟩, "x"⟩

lemma sampleSpellings_of_repeats : Relation.ReflTransGen RepeatsVote sampleVote sampleSpellings := by
  have hhigh : (Signature.ofParts 1 1 27).Reencodes (.ofParts 1 (Secp256k1.n - 1) 28) := by decide
  have hshort : (Signature.ofParts 1 1 27).Reencodes (.ofParts 1 1 0) := by decide
  have hfront := @RepeatsVote.multi .sample [] [.ofParts 1 1 27] _ _ "x" (by simp) hhigh
  have hback := @RepeatsVote.multi .sample [.ofParts 1 (Secp256k1.n - 1) 28, .ofParts 1 1 27] []
    _ _ "x" (by simp) hshort
  exact .tail (.single hfront) hback

/-- Other spellings of a signature, in front of it and behind it, change neither what one signer
can do nor what it cannot. -/
theorem repeated_votes_count_once_sample :
    sampleVote.Hashable ∧ Relation.ReflTransGen RepeatsVote sampleVote sampleSpellings ∧
      (∃ a, (sampleSpellings.authorize (fun _ _ => true) ⟨"s", 1⟩).map Attribution.authorized =
        .ok (.ofList [a])) ∧
      (sampleSpellings.authorize (fun _ _ => true) ⟨"s", 2⟩).map Attribution.authorized =
        .error (.insufficient "s" 2 1) := by
  obtain ⟨digest, a, hdigest, hrecover⟩ := exists_recover_sample
  have hp : sampleVote.Hashable := List.forall_mem_singleton.mpr DataPackage.exists_encode_sample
  have hone : sampleVote.outcomes = [.ok a] := by
    have hvote : DataPackage.sample.hash >>= (Signature.ofParts 1 1 27).recover = .ok a :=
      Fallible.bind_eq_ok_iff.mpr ⟨digest, hdigest, hrecover⟩
    rw [sampleVote, outcomes_multi, List.map_singleton, hvote]
  have hsame := repeated_votes_count_once hp sampleSpellings_of_repeats (fun _ _ => true)
  exact ⟨hp, sampleSpellings_of_repeats,
    ⟨a, (hsame ⟨"s", 1⟩).trans (authorize_of_outcomes_eq hp hone ⟨"s", 1⟩)⟩,
    (hsame ⟨"s", 2⟩).trans (authorize_of_outcomes_eq hp hone ⟨"s", 2⟩)⟩

end Payload
end SignedFeeds
