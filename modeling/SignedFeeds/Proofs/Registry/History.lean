/-
# An allow list is a set of pairs

An allow list keeps a set of signers for each service that has been named, and it changes call
by call.  Seen from outside it is one flat set of pairs of a service and an address: a call adds
the pairs that it names or takes them away, and a removal answers whether its pair was there.
`Call.runFlat` is that program on flat sets.  An allow list that `Lists` a flat set gives the same
answer to a call and lists the flat set behind it (`Call.run_lists`), so a service that was never
named and one whose last signer was removed cannot be told apart.

Two things about whole runs follow by induction on the calls, last call last.  A pair is on the
list exactly when the last call that names it adds it (`mem_flat_iff`).  And the signers of a
service depend on the calls about this service alone (`signers_after_filter`).
-/
import Mathlib.Data.Finset.SDiff
import SignedFeeds.Proofs.Bytes.Order
import SignedFeeds.Proofs.Payload.Attribution

namespace SignedFeeds
namespace AllowList

/-- A call that changes an allow list. -/
inductive Call where
  /-- Authorizes an address for a service. -/
  | insert (service : String) (a : Address)
  /-- Authorizes several addresses for a service. -/
  | insertAll (service : String) (addresses : List Address)
  /-- Revokes an address for a service. -/
  | remove (service : String) (a : Address)

namespace Call

/-- The answer to a call, which only a removal has, and the list after it. -/
def run : Call → AllowList → Option Bool × AllowList
  | .insert service a, l => (none, l.insert service a)
  | .insertAll service addresses, l => (none, l.insertAll service addresses)
  | .remove service a, l => (some (l.remove service a).1, (l.remove service a).2)

/-- The service that a call is about. -/
def service : Call → String
  | .insert service _ => service
  | .insertAll service _ => service
  | .remove service _ => service

/-- The pairs that a call names. -/
def named : Call → Finset (String × Address)
  | .insert service a => {(service, a)}
  | .insertAll service addresses => (addresses.map fun a => (service, a)).toFinset
  | .remove service a => {(service, a)}

/-- Whether a call adds the pairs that it names; otherwise it takes them away. -/
def adds : Call → Bool
  | .insert .. => true
  | .insertAll .. => true
  | .remove .. => false

/-- What a call does to a flat set of pairs. -/
def change (call : Call) (pairs : Finset (String × Address)) : Finset (String × Address) :=
  if call.adds then pairs ∪ call.named else pairs \ call.named

/-- What a call answers on a flat set of pairs: whether the pair to be removed is there. -/
def answer? : Call → Finset (String × Address) → Option Bool
  | .insert .., _ => none
  | .insertAll .., _ => none
  | .remove service a, pairs => some (decide ((service, a) ∈ pairs))

/-- A call on a flat set of pairs. -/
def runFlat (call : Call) (pairs : Finset (String × Address)) :
    Option Bool × Finset (String × Address) :=
  (call.answer? pairs, call.change pairs)

lemma mem_change_iff {call : Call} {pairs : Finset (String × Address)} {e : String × Address} :
    e ∈ call.change pairs ↔ if e ∈ call.named then call.adds = true else e ∈ pairs := by
  rw [change]
  cases hadds : call.adds with
  | false => by_cases hnamed : e ∈ call.named <;> simp [hnamed]
  | true => by_cases hnamed : e ∈ call.named <;> simp [hnamed]

lemma fst_of_mem_named {call : Call} {e : String × Address} (h : e ∈ call.named) :
    e.1 = call.service := by
  cases call with
  | insert service a =>
    rw [named, Finset.mem_singleton] at h
    rw [h, Call.service]
  | insertAll service addresses =>
    rw [named, List.mem_toFinset, List.mem_map] at h
    obtain ⟨a, -, rfl⟩ := h
    rfl
  | remove service a =>
    rw [named, Finset.mem_singleton] at h
    rw [h, Call.service]

end Call

/-! ## One call -/

/-- The signers of the allow list are those of the flat set, service by service. -/
def Lists (l : AllowList) (pairs : Finset (String × Address)) : Prop :=
  ∀ service a, a ∈ l.signers service ↔ (service, a) ∈ pairs

variable {l : AllowList} {pairs : Finset (String × Address)}

lemma Lists.knows_eq (h : l.Lists pairs) (service : String) (a : Address) :
    l.knows service a = decide ((service, a) ∈ pairs) := by
  rw [Bool.eq_iff_iff, knows_iff, h service a, decide_eq_true_iff]

lemma Lists.insert (h : l.Lists pairs) (service : String) (a : Address) :
    (l.insert service a).Lists (pairs ∪ {(service, a)}) := by
  intro other b
  rw [← knows_iff, knows_insert, knows_iff, h other b, Finset.mem_union, Finset.mem_singleton,
    Prod.mk.injEq, or_comm]

lemma Lists.insertAll (h : l.Lists pairs) (service : String) (addresses : List Address) :
    (l.insertAll service addresses).Lists
      (pairs ∪ (addresses.map fun a => (service, a)).toFinset) := by
  induction addresses generalizing l pairs with
  | nil => simpa [AllowList.insertAll] using h
  | cons a rest ih =>
    have hrest := ih (h.insert service a)
    rw [Finset.union_assoc] at hrest
    simpa [AllowList.insertAll] using hrest

lemma Lists.remove (h : l.Lists pairs) (service : String) (a : Address) :
    (l.remove service a).2.Lists (pairs \ {(service, a)}) := by
  intro other b
  rw [← knows_iff, knows_remove, knows_iff, h other b, Finset.mem_sdiff, Finset.mem_singleton,
    Prod.mk.injEq, and_comm]

lemma remove_fst (l : AllowList) (service : String) (a : Address) :
    (l.remove service a).1 = l.knows service a := by
  rw [AllowList.remove]
  split_ifs with hknown
  · exact hknown.symm
  · exact (Bool.eq_false_iff.mpr hknown).symm

/-- A call on a list of given pairs answers as on the flat set, and does the same to it. -/
lemma Call.run_lists (call : Call) (h : l.Lists pairs) :
    (call.run l).1 = (call.runFlat pairs).1 ∧ (call.run l).2.Lists (call.runFlat pairs).2 := by
  cases call with
  | insert service a => exact ⟨rfl, h.insert service a⟩
  | insertAll service addresses => exact ⟨rfl, h.insertAll service addresses⟩
  | remove service a =>
    refine ⟨?_, h.remove service a⟩
    show some (l.remove service a).1 = some (decide ((service, a) ∈ pairs))
    rw [remove_fst, h.knows_eq service a]

/-! ## Runs of calls -/

variable {calls : List Call}

/-- The answers to a row of calls, and the state after them. -/
def runAll {State : Type} (run : Call → State → Option Bool × State) :
    List Call → State → List (Option Bool) × State
  | [], s => ([], s)
  | call :: calls, s =>
    let result := runAll run calls (run call s).2
    ((run call s).1 :: result.1, result.2)

/-- The allow list after calls on the empty one. -/
def after (calls : List Call) : AllowList := (runAll Call.run calls empty).2

/-- The flat set after calls on the empty one. -/
def flat (calls : List Call) : Finset (String × Address) := (runAll Call.runFlat calls ∅).2

lemma runAll_concat {State : Type} (run : Call → State → Option Bool × State)
    (calls : List Call) (call : Call) (s : State) :
    (runAll run (calls ++ [call]) s).2 = (run call (runAll run calls s).2).2 := by
  induction calls generalizing s with
  | nil => rfl
  | cons first calls ih => exact ih (run first s).2

lemma after_concat (calls : List Call) (call : Call) :
    after (calls ++ [call]) = (call.run (after calls)).2 := runAll_concat ..

lemma flat_concat (calls : List Call) (call : Call) :
    flat (calls ++ [call]) = call.change (flat calls) := runAll_concat ..

/-- Runs on both sides give the same answers and end alike. -/
lemma runAll_lists (h : l.Lists pairs) (calls : List Call) :
    (runAll Call.run calls l).1 = (runAll Call.runFlat calls pairs).1 ∧
      (runAll Call.run calls l).2.Lists (runAll Call.runFlat calls pairs).2 := by
  induction calls generalizing l pairs with
  | nil => exact ⟨rfl, h⟩
  | cons call calls ih =>
    obtain ⟨hanswer, hnext⟩ := call.run_lists h
    obtain ⟨hanswers, hlast⟩ := ih hnext
    refine ⟨?_, hlast⟩
    simp only [runAll, hanswer, hanswers]

lemma empty_lists : empty.Lists ∅ := by
  intro service a
  rw [← knows_iff, knows_empty]
  simp

lemma after_lists (calls : List Call) : (after calls).Lists (flat calls) :=
  (runAll_lists empty_lists calls).2

/-- The last of the calls that name the pair adds it. -/
def LastAdds (calls : List Call) (e : String × Address) : Prop :=
  ∃ call, (calls.filter fun call => e ∈ call.named).getLast? = some call ∧ call.adds = true

instance (calls : List Call) (e : String × Address) : Decidable (LastAdds calls e) :=
  decidable_of_iff
    (((calls.filter fun call => e ∈ call.named).getLast?.any Call.adds) = true)
    (Option.any_eq_true _ _)

lemma lastAdds_concat {call : Call} {e : String × Address} :
    LastAdds (calls ++ [call]) e ↔
      if e ∈ call.named then call.adds = true else LastAdds calls e := by
  rw [LastAdds, List.filter_append]
  by_cases hnamed : e ∈ call.named
  · simp [hnamed]
  · simp [hnamed, LastAdds]

/-- A pair is there if the last call that names it adds it. -/
lemma mem_flat_iff {e : String × Address} : e ∈ flat calls ↔ LastAdds calls e := by
  induction calls using List.reverseRecOn with
  | nil => simp [flat, runAll, LastAdds]
  | append_singleton calls call ih => rw [flat_concat, Call.mem_change_iff, lastAdds_concat, ih]

lemma mem_signers_after_iff {service : String} {a : Address} :
    a ∈ (after calls).signers service ↔ LastAdds calls (service, a) := by
  rw [after_lists calls service a, mem_flat_iff]

/-! ## Services apart -/

/-- The signers of a service after a call depend on those before it. -/
lemma mem_signers_run_iff {call : Call} {service : String} {a : Address} (h : l.Lists pairs) :
    a ∈ (call.run l).2.signers service ↔
      if (service, a) ∈ call.named then call.adds = true else a ∈ l.signers service := by
  rw [(call.run_lists h).2 service a, h service a]
  exact Call.mem_change_iff

/-- A call about another service leaves the signers as they are. -/
lemma signers_run_of_ne {call : Call} {service : String} (h : l.Lists pairs)
    (hne : service ≠ call.service) : (call.run l).2.signers service = l.signers service := by
  refine OrderedSet.eq_of_mem_iff fun a => ?_
  have hnamed : (service, a) ∉ call.named := fun hmem => hne (Call.fst_of_mem_named hmem)
  rw [mem_signers_run_iff h, if_neg hnamed]

/-- The calls about other services leave no trace in the signers of a service. -/
lemma signers_after_filter (calls : List Call) (service : String) :
    (after (calls.filter fun call => call.service = service)).signers service =
      (after calls).signers service := by
  induction calls using List.reverseRecOn with
  | nil => rfl
  | append_singleton calls call ih =>
    rw [List.filter_append, after_concat]
    by_cases hservice : call.service = service
    · -- the call is made on both sides, on the same signers
      refine OrderedSet.eq_of_mem_iff fun a => ?_
      simp only [hservice, decide_true, List.filter_cons_of_pos, List.filter_nil, after_concat]
      rw [mem_signers_run_iff (after_lists _), mem_signers_run_iff (after_lists _), ih]
    · simp only [hservice, decide_false, Bool.false_eq_true, not_false_eq_true,
        List.filter_cons_of_neg, List.filter_nil, List.append_nil]
      rw [ih, signers_run_of_ne (after_lists calls) (Ne.symm hservice)]

/-- The signers of a service are listed in ascending order of their bytes. -/
lemma signers_ascending (l : AllowList) (service : String) :
    (l.signers service).toList.Pairwise fun a b => a.bytes < b.bytes :=
  (l.signers service).ascending.imp fun {a b} hab => (Address.compare_eq_lt_iff a b).mp hab

/-- **An allow list is a set of pairs of a service and an address.**  Whatever calls are made on
the empty list, one after the other, it answers as the flat set does and lists that set.  So an
address is known for a service exactly when the last call that names the two adds them; a removal
answers whether its pair was there just before it; and the signers of a service are the addresses
that are there for it, each once, in strictly ascending order of their bytes.  The calls about one
service change no answer about another, neither at once nor later on. -/
theorem allow_list_is_set_of_pairs (calls : List Call) :
    ((runAll Call.run calls empty).1 = (runAll Call.runFlat calls ∅).1 ∧
      (after calls).Lists (flat calls)) ∧
    (∀ service a, (after calls).knows service a = true ↔ LastAdds calls (service, a)) ∧
    (∀ service a, ((Call.remove service a).run (after calls)).1 =
      some ((after calls).knows service a)) ∧
    (∀ service,
      (∀ a, a ∈ ((after calls).signers service).toList ↔ LastAdds calls (service, a)) ∧
      ((after calls).signers service).toList.Nodup ∧
      ((after calls).signers service).toList.Pairwise fun a b => a.bytes < b.bytes) ∧
    (∀ service, (after (calls.filter fun call => call.service = service)).signers service =
      (after calls).signers service) ∧
    ∀ call service, service ≠ call.service →
      (after (calls ++ [call])).signers service = (after calls).signers service ∧
      ∀ a, (after (calls ++ [call])).knows service a = (after calls).knows service a ∧
        ((Call.remove service a).run (after (calls ++ [call]))).1 =
          ((Call.remove service a).run (after calls)).1 := by
  refine ⟨runAll_lists empty_lists calls, ?_, ?_, ?_, signers_after_filter calls, ?_⟩
  · intro service a
    rw [knows_iff, mem_signers_after_iff]
  · intro service a
    exact congrArg some (remove_fst _ service a)
  · intro service
    exact ⟨fun a => mem_signers_after_iff, OrderedSet.nodup_toList _, signers_ascending _ service⟩
  · intro call service hne
    have hsigners := signers_run_of_ne (after_lists calls) hne
    rw [← after_concat] at hsigners
    have hknows (a : Address) :
        (after (calls ++ [call])).knows service a = (after calls).knows service a := by
      rw [knows, knows, hsigners]
    refine ⟨hsigners, fun a => ⟨hknows a, ?_⟩⟩
    show some _ = some _
    rw [remove_fst, remove_fst, hknows a]

/-- An address that differs from the zero address in its last byte. -/
def sampleAddress : Address := ⟨⟨List.replicate 19 0 ++ [7], rfl⟩⟩

/-- Two signers are authorized, one of them is revoked and authorized again, and the other service
is emptied. -/
def sampleCalls : List Call :=
  [.insertAll "prime" [sampleAddress, ⟨Block.zero⟩], .remove "prime" sampleAddress,
    .insert "second" sampleAddress, .insert "prime" sampleAddress, .remove "second" sampleAddress]

theorem allow_list_is_set_of_pairs_sample :
    (after sampleCalls).knows "prime" sampleAddress = true ∧
      (after sampleCalls).knows "second" sampleAddress = false ∧
      ((Call.remove "prime" sampleAddress).run (after sampleCalls)).1 = some true ∧
      ((Call.remove "second" sampleAddress).run (after sampleCalls)).1 = some false ∧
      sampleAddress ∈ ((after sampleCalls).signers "prime").toList ∧
      "second" ≠ (Call.remove "prime" sampleAddress).service ∧
      (after (sampleCalls ++ [.remove "prime" sampleAddress])).signers "second" =
        (after sampleCalls).signers "second" := by
  obtain ⟨-, hknows, hanswer, hsigners, -, hother⟩ := allow_list_is_set_of_pairs sampleCalls
  have hprime : (after sampleCalls).knows "prime" sampleAddress = true :=
    (hknows "prime" sampleAddress).mpr (by decide)
  have hsecond : (after sampleCalls).knows "second" sampleAddress = false := by
    rw [Bool.eq_false_iff, Ne, hknows]
    decide
  have hapart : "second" ≠ (Call.remove "prime" sampleAddress).service := by decide
  refine ⟨hprime, hsecond, ?_, ?_, ?_, hapart, (hother _ "second" hapart).1⟩
  · rw [hanswer, hprime]
  · rw [hanswer, hsecond]
  · exact ((hsigners "prime").1 sampleAddress).mpr (by decide)

end AllowList
end SignedFeeds
