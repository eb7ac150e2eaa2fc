/-
# The errors that a reader can end with

`FailsOnly` says of one run that, if it ends with an error, the error is of a given sort.  Like
`LocalAt` it is put together step by step.

A loop of a hostile length asks for its room first.  Where its body takes a fixed number of
bytes, the answer speaks for every step of it, so that the question is the only place where
such a loop can fail (`FailsOnly.require_times`).
-/
import SignedFeeds.Proofs.Reading.Locality

namespace SignedFeeds
namespace Reader

variable {ε ε' α β : Type} {pass stop : ε → Prop} {read : Reader ε α} {next : α → Reader ε β}
  {t t' : Tail}

/-- If the run ends with an error, the error is of the given sort. -/
def FailsOnly (pass : ε → Prop) (read : Reader ε α) (t : Tail) : Prop :=
  ∀ e t', read t = .error e t' → pass e

lemma failsOnly_of_ok {a : α} (h : read t = .ok a t') : FailsOnly pass read t := by
  intro e t'' herror
  rw [h] at herror
  cases herror

/-- A reader of fixed length does not fail where it has room. -/
lemma Fixed.failsOnly {n : Nat} (h : Fixed stop read n) (hroom : n ≤ t.remaining) :
    FailsOnly pass read t := by
  obtain ⟨a, hread⟩ := h.runs t hroom
  exact failsOnly_of_ok hread

namespace FailsOnly

lemma mono {pass' : ε → Prop} (hpass : ∀ e, pass e → pass' e) (h : FailsOnly pass read t) :
    FailsOnly pass' read t :=
  fun e t' herror => hpass e (h e t' herror)

protected lemma pure (a : α) : FailsOnly pass (pure a : Reader ε α) t := failsOnly_of_ok rfl

protected lemma throw {e : ε} (he : pass e) : FailsOnly pass (throw e : Reader ε α) t := by
  intro e' t' herror
  obtain ⟨rfl, -⟩ := EStateM.Result.error.inj herror
  exact he

lemma bind (h : FailsOnly pass read t)
    (hnext : ∀ a t', read t = .ok a t' → FailsOnly pass (next a) t') :
    FailsOnly pass (read >>= next) t := by
  intro e t'' herror
  rw [bind_apply] at herror
  split at herror
  · next a t' hread => exact hnext a t' hread e t'' herror
  · next e' t' hread =>
    obtain ⟨rfl, -⟩ := EStateM.Result.error.inj herror
    exact h e' t' hread

lemma map (h : FailsOnly pass read t) (f : α → β) : FailsOnly pass (f <$> read) t := by
  rw [← bind_pure_comp]
  exact h.bind fun a _ _ => .pure (f a)

lemma mapError {pass' : ε' → Prop} {f : ε → ε'} (hf : ∀ e, pass e → pass' (f e))
    (h : FailsOnly pass read t) : FailsOnly pass' (mapError f read) t := by
  intro e t' herror
  rw [Reader.mapError] at herror
  split at herror
  · cases herror
  · next e' s hread =>
    obtain ⟨rfl, -⟩ := EStateM.Result.error.inj herror
    exact hf e' (h e' s hread)

lemma guarded {cond : Prop} [Decidable cond] {e : ε} {next : Unit → Reader ε α}
    (he : cond → pass e) (h : ¬ cond → FailsOnly pass (next ()) t) :
    FailsOnly pass (if cond then throw e >>= next else next ()) t := by
  split
  · next hcond => exact (FailsOnly.throw (he hcond)).bind fun _ _ => by rintro ⟨⟩
  · next hcond => exact h hcond

lemma times (h : ∀ t, FailsOnly pass read t) (count : Nat) :
    FailsOnly pass (times count read) t := by
  suffices hgo : ∀ done t, FailsOnly pass (times.go read count done) t from hgo [] t
  induction count with
  | zero => exact fun done t => .pure done
  | succ count ih => exact fun done t => (h t).bind fun item t' _ => ih (item :: done) t'

end FailsOnly

/-! ## The readers of the wire layer -/

lemma take_failsOnly {pass : WireError → Prop} {field : String} {n : Nat}
    (h : t.remaining < n → pass (.truncated field n t.remaining)) :
    FailsOnly pass (take field n) t := by
  intro e t' herror
  rw [take] at herror
  split at herror
  · cases herror
  · next hpeek =>
    obtain ⟨rfl, -⟩ := EStateM.Result.error.inj herror
    exact h (Tail.peek?_eq_none_iff.mp hpeek)

lemma require_failsOnly {pass : WireError → Prop} {field : String} {count size : Nat}
    (h : t.remaining < count * size →
      pass (.truncated field (min (count * size) Tail.maxSize) t.remaining)) :
    FailsOnly pass (require field count size) t := by
  intro e t' herror
  rw [require] at herror
  split at herror
  · cases herror
  · next hholds =>
    obtain ⟨rfl, -⟩ := EStateM.Result.error.inj herror
    exact h (Nat.not_le.mp fun hroom => hholds (Tail.holds_iff.mpr hroom))

/-- A loop over items of fixed length can fail at the question for its room only. -/
lemma FailsOnly.require_times {stop pass : WireError → Prop} {read : Reader WireError α}
    {next : List α → Reader WireError β} {field : String} {count size : Nat}
    (hread : Fixed stop read size) (hrequire : FailsOnly pass (require field count size) t)
    (hnext : ∀ items t', FailsOnly pass (next items) t') :
    FailsOnly pass (require field count size >>= fun _ => Reader.times count read >>= next) t := by
  refine hrequire.bind fun _ t' hroom => ?_
  obtain ⟨hroom, rfl⟩ := require_eq_ok_iff.mp hroom
  exact ((times_fixed hread count).failsOnly hroom).bind fun items t' _ => hnext items t'

end Reader
end SignedFeeds
