/-
# Readers that see only what they read

More bytes in front of a buffer make no difference to a reader that does not run out of
bytes: it reads the same value, or fails with the same error.  `LocalAt` says so of one run,
with the exception of errors that tell that bytes were missing.

A reader that asks for a fixed number of bytes and gets fewer does run out of them.  This is
what makes a look ahead harmless that gives up near the front of a buffer: `Needs` says that
the reader which follows it cannot succeed there, and cannot fail otherwise either.
-/
import SignedFeeds.Proofs.Reading.Form

namespace SignedFeeds

namespace Tail

/-- The tail with more bytes in front. -/
def prepend (front : List UInt8) (t : Tail) : Tail := ⟨t.unread ++ front.reverse, t.consumed⟩

variable {front : List UInt8} {t : Tail} {n m : Nat}

@[simp] lemma remaining_prepend : (t.prepend front).remaining = t.remaining + front.length := by
  simp [prepend, remaining]

lemma ofBytes_append (front buffer : List UInt8) :
    ofBytes (front ++ buffer) = (ofBytes buffer).prepend front := by
  simp [ofBytes, prepend]

lemma peek?_prepend (h : n ≤ t.remaining) : (t.prepend front).peek? n = t.peek? n := by
  simp only [peek?, prepend, List.take_append_of_le_length h]

lemma skip_prepend (h : n ≤ t.remaining) : (t.prepend front).skip n = (t.skip n).prepend front := by
  simp only [skip, prepend, List.drop_append_of_le_length h]

@[simp] lemma remaining_skip : (t.skip n).remaining = t.remaining - n := List.length_drop

@[simp] lemma skip_skip : (t.skip n).skip m = t.skip (n + m) := by
  simp only [skip, List.drop_drop, Nat.add_assoc]

end Tail

/-- The error tells that bytes were missing. -/
def WireError.IsTruncated : WireError → Prop
  | .truncated _ _ _ => True
  | _ => False

namespace Reader

variable {ε ε' α β : Type} {stop : ε → Prop} {read : Reader ε α} {next : α → Reader ε β}
  {t t' : Tail} {front : List UInt8}

/-! ## Running out of bytes -/

/-- The run ends with an error that tells that it must stop here. -/
def RunsOut (stop : ε → Prop) (read : Reader ε α) (t : Tail) : Prop :=
  ∃ e t', read t = .error e t' ∧ stop e

lemma RunsOut.bind (h : RunsOut stop read t) : RunsOut stop (read >>= next) t := by
  obtain ⟨e, t', hread, hstop⟩ := h
  exact ⟨e, t', by rw [bind_apply, hread], hstop⟩

lemma RunsOut.after {a : α} (hread : read t = .ok a t') (h : RunsOut stop (next a) t') :
    RunsOut stop (read >>= next) t := by
  obtain ⟨e, t'', hnext, hstop⟩ := h
  exact ⟨e, t'', by rw [bind_apply, hread, ← hnext], hstop⟩

lemma RunsOut.mapError {stop' : ε' → Prop} {f : ε → ε'} (hf : ∀ e, stop e → stop' (f e))
    (h : RunsOut stop read t) : RunsOut stop' (mapError f read) t := by
  obtain ⟨e, t', hread, hstop⟩ := h
  exact ⟨f e, t', by rw [Reader.mapError, hread], hf e hstop⟩

lemma RunsOut.map (h : RunsOut stop read t) (f : α → β) : RunsOut stop (f <$> read) t := by
  rw [← bind_pure_comp]
  exact h.bind

/-- A loop that has read some items, and is to read more, stops where the next one does. -/
lemma RunsOut.times {P : Form α} (h : read.Accepts P) {items : List α} {bytes : List UInt8}
    {count : Nat} (hitems : P.many items bytes) (hlt : items.length < count)
    (hsplit : t.Split bytes t') (hout : RunsOut stop read t') : RunsOut stop (times count read) t := by
  suffices hgo : ∀ done, RunsOut stop (times.go read count done) t from hgo []
  intro done
  induction count generalizing items bytes t done with
  | zero => exact absurd hlt (Nat.not_lt_zero _)
  | succ count ih =>
    -- the item that is read now is the last one, if there is any
    obtain rfl | ⟨items, item, rfl⟩ := List.eq_nil_or_concat items
    · obtain rfl := Form.many_nil.mp hitems
      obtain rfl := Tail.Split.nil_iff.mp hsplit
      exact hout.bind
    · rw [List.concat_eq_append] at hitems hlt
      obtain ⟨front, back, hfront, hitem, rfl⟩ := Form.many_concat.mp hitems
      obtain ⟨s, hback, hrest⟩ := Tail.Split.append_iff.mp hsplit
      rw [List.length_append, List.length_singleton] at hlt
      exact .after ((h t item s).mpr ⟨back, hitem, hback⟩)
        (ih hfront (Nat.lt_of_succ_lt_succ hlt) hrest (item :: done))

/-- With fewer than `n` bytes the reader runs out of them. -/
def Needs (stop : ε → Prop) (read : Reader ε α) (n : Nat) : Prop :=
  ∀ t : Tail, t.remaining < n → RunsOut stop read t

lemma Needs.bind {n : Nat} (h : Needs stop read n) : Needs stop (read >>= next) n :=
  fun t ht => (h t ht).bind

/-- The reader takes exactly `n` bytes, whatever they are, or runs out of them. -/
structure Fixed (stop : ε → Prop) (read : Reader ε α) (n : Nat) : Prop where
  needs : Needs stop read n
  runs : ∀ t : Tail, n ≤ t.remaining → ∃ a, read t = .ok a (t.skip n)

namespace Fixed

variable {n m : Nat}

protected lemma pure (a : α) : Fixed stop (pure a : Reader ε α) 0 :=
  ⟨fun _ h => absurd h (Nat.not_lt_zero _), fun _ _ => ⟨a, rfl⟩⟩

lemma needs_bind (h : Fixed stop read n) (hnext : ∀ a, Needs stop (next a) m) :
    Needs stop (read >>= next) (n + m) := by
  intro t ht
  by_cases hn : n ≤ t.remaining
  · obtain ⟨a, hread⟩ := h.runs t hn
    refine RunsOut.after hread (hnext a _ ?_)
    rw [Tail.remaining_skip]
    omega
  · exact (h.needs t (Nat.not_le.mp hn)).bind

lemma bind (h : Fixed stop read n) (hnext : ∀ a, Fixed stop (next a) m) :
    Fixed stop (read >>= next) (n + m) := by
  refine ⟨h.needs_bind fun a => (hnext a).needs, fun t ht => ?_⟩
  obtain ⟨a, hread⟩ := h.runs t (by omega)
  obtain ⟨b, hb⟩ := (hnext a).runs (t.skip n) (by rw [Tail.remaining_skip]; omega)
  rw [Tail.skip_skip] at hb
  exact ⟨b, by rw [bind_apply, hread, ← hb]⟩

lemma map (h : Fixed stop read n) (f : α → β) : Fixed stop (f <$> read) n := by
  rw [← bind_pure_comp]
  exact h.bind fun a => Fixed.pure (f a)

end Fixed

lemma take_fixed (field : String) (n : Nat) : Fixed WireError.IsTruncated (take field n) n := by
  refine ⟨fun t ht => ?_, fun t ht => ?_⟩
  · rw [RunsOut, take, Tail.peek?_eq_none_iff.mpr ht]
    exact ⟨_, _, rfl, trivial⟩
  · obtain ⟨bytes, hlen, hsplit⟩ := Tail.exists_split ht
    exact ⟨bytes, take_eq_ok_iff.mpr ⟨hlen, hsplit⟩⟩

lemma takeCounter_fixed (c : Counter) :
    Fixed WireError.IsTruncated (takeCounter c) c.width := (take_fixed c.name c.width).map _

/-- A field of `n` bytes that stands for a value whatever the bytes are. -/
lemma field_fixed (name : String) {n : Nat} {ofBytes : List UInt8 → Except WireError α}
    (hbytes : ∀ bs, bs.length = n → ∃ a, ofBytes bs = .ok a) :
    Fixed WireError.IsTruncated (take name n >>= fun bs => ofExcept (ofBytes bs)) n := by
  refine ⟨(take_fixed name n).needs.bind, fun t ht => ?_⟩
  obtain ⟨bytes, hlen, hsplit⟩ := Tail.exists_split ht
  obtain ⟨a, ha⟩ := hbytes bytes hlen
  exact ⟨a, bind_eq_ok_iff.mpr ⟨bytes, _, take_eq_ok_iff.mpr ⟨hlen, hsplit⟩, by rw [ha]; rfl⟩⟩

lemma times_fixed {n : Nat} (h : Fixed stop read n) (count : Nat) :
    Fixed stop (times count read) (count * n) := by
  suffices hgo : ∀ done, Fixed stop (times.go read count done) (count * n) from hgo []
  induction count with
  | zero =>
    intro done
    rw [Nat.zero_mul]
    exact Fixed.pure done
  | succ count ih =>
    intro done
    rw [Nat.succ_mul, Nat.add_comm (count * n)]
    exact h.bind fun item => ih (item :: done)

lemma require_runsOut {field : String} {count size : Nat} (h : ¬ count * size ≤ t.remaining) :
    RunsOut WireError.IsTruncated (require field count size) t := by
  rw [RunsOut, require, if_neg fun hholds => h (Tail.holds_iff.mp hholds)]
  exact ⟨_, _, rfl, trivial⟩

/-- Asking for room is no escape from running out of bytes. -/
lemma Needs.require_bind {n : Nat} {read : Reader WireError α}
    (h : Needs WireError.IsTruncated read n) (field : String) (count size : Nat) :
    Needs WireError.IsTruncated (require field count size >>= fun _ => read) n := by
  intro t ht
  by_cases hroom : count * size ≤ t.remaining
  · have hpass : require field count size t = .ok () t := require_eq_ok_iff.mpr ⟨hroom, rfl⟩
    exact .after hpass (h t ht)
  · exact (require_runsOut hroom).bind

/-! ## Locality -/

/-- The result of a run with more bytes in front of those that it left. -/
def behind (front : List UInt8) : EStateM.Result ε Tail α → EStateM.Result ε Tail α
  | .ok a t => .ok a (t.prepend front)
  | .error e t => .error e (t.prepend front)

/-- More bytes in front make no difference to the run, unless it runs out of bytes. -/
def LocalAt (stop : ε → Prop) (read : Reader ε α) (t : Tail) : Prop :=
  RunsOut stop read t ∨ ∀ front, read (t.prepend front) = behind front (read t)

namespace LocalAt

protected lemma pure (a : α) : LocalAt stop (pure a : Reader ε α) t := .inr fun _ => rfl

protected lemma throw (e : ε) : LocalAt stop (throw e : Reader ε α) t := .inr fun _ => rfl

lemma bind (h : LocalAt stop read t) (hnext : ∀ a t', read t = .ok a t' → LocalAt stop (next a) t') :
    LocalAt stop (read >>= next) t := by
  rcases h with hout | hsame
  · exact .inl hout.bind
  cases hread : read t with
  | error e t' =>
    -- the error of the first reader is the error of both runs
    refine .inr fun front => ?_
    rw [bind_apply, bind_apply, hsame front, hread]
    rfl
  | ok a t' =>
    rcases hnext a t' hread with hout | hsame'
    · exact .inl (.after hread hout)
    · refine .inr fun front => ?_
      rw [bind_apply, bind_apply, hsame front, hread]
      exact hsame' front

lemma map (h : LocalAt stop read t) (f : α → β) : LocalAt stop (f <$> read) t := by
  rw [← bind_pure_comp]
  exact h.bind fun a t' _ => LocalAt.pure (f a)

lemma mapError {stop' : ε' → Prop} {f : ε → ε'} (hf : ∀ e, stop e → stop' (f e))
    (h : LocalAt stop read t) : LocalAt stop' (mapError f read) t := by
  rcases h with hout | hsame
  · exact .inl (hout.mapError hf)
  · refine .inr fun front => ?_
    rw [Reader.mapError, Reader.mapError, hsame front]
    cases read t <;> rfl

lemma guarded {cond : Prop} [Decidable cond] {e : ε} {next : Unit → Reader ε α}
    (h : ¬ cond → LocalAt stop (next ()) t) :
    LocalAt stop (if cond then throw e >>= next else next ()) t := by
  split
  · exact (LocalAt.throw e).bind fun _ _ => by rintro ⟨⟩
  · next hcond => exact h hcond

lemma ofExcept (result : Except ε α) : LocalAt stop (Reader.ofExcept result) t := by
  cases result with
  | ok a => exact .pure a
  | error e => exact .throw e

end LocalAt

lemma take_local (field : String) (n : Nat) : LocalAt WireError.IsTruncated (take field n) t := by
  by_cases h : n ≤ t.remaining
  · refine .inr fun front => ?_
    obtain ⟨bytes, hlen, hsplit⟩ := Tail.exists_split h
    have hskip : (t.prepend front).skip n = (t.skip n).prepend front := Tail.skip_prepend h
    simp only [take, Tail.peek?_prepend h, hsplit.peek? hlen]
    exact congrArg (EStateM.Result.ok bytes) hskip
  · exact .inl ((take_fixed field n).needs t (Nat.not_le.mp h))

lemma takeCounter_local (c : Counter) : LocalAt WireError.IsTruncated (takeCounter c) t :=
  (take_local c.name c.width).map _

lemma require_local (field : String) (count size : Nat) :
    LocalAt WireError.IsTruncated (require field count size) t := by
  by_cases h : count * size ≤ t.remaining
  · refine .inr fun front => ?_
    have hmore : count * size ≤ (t.prepend front).remaining := by
      rw [Tail.remaining_prepend]
      omega
    rw [require, require, if_pos (Tail.holds_iff.mpr h), if_pos (Tail.holds_iff.mpr hmore)]
    rfl
  · exact .inl (require_runsOut h)

lemma times_local (h : ∀ t, LocalAt stop read t) (count : Nat) : LocalAt stop (times count read) t := by
  suffices hgo : ∀ done t, LocalAt stop (times.go read count done) t from hgo [] t
  induction count with
  | zero => exact fun done t => LocalAt.pure done
  | succ count ih => exact fun done t => (h t).bind fun item t' _ => ih (item :: done) t'

end Reader
end SignedFeeds
