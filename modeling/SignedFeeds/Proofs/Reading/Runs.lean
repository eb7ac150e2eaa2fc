/-
# Runs of calls on a tail

A call takes bytes or a number off the end of a buffer, looks at the bytes there, or asks for room.
Only the first kinds take anything, and only if they succeed; `Call.field?` says how many bytes that
is.  So each call splits the unread bytes into those that it takes off and those that it leaves
(`Call.split`), and a whole run does the same (`Tail.split_after`): what was taken off, last call
first, stands behind what is left, and the two are the buffer.
-/
import SignedFeeds.Proofs.Reading.Form

namespace SignedFeeds

/-- One use of a buffer that is read from its end. -/
inductive Call where
  /-- Takes so many bytes. -/
  | take (field : String) (size : UInt64)
  /-- Takes a number of at most 8 bytes. -/
  | number (field : String) (width : Fin 9)
  /-- Takes a number of at most 8 bytes that is to be a size. -/
  | count (field : String) (width : Fin 9)
  /-- Looks at so many bytes. -/
  | peek (size : UInt64)
  /-- Asks for room for items of equal size. -/
  | require (field : String) (items size : UInt64)
deriving DecidableEq, Repr

/-- What a call gives. -/
inductive Answer where
  /-- The bytes that were taken. -/
  | bytes (bs : List UInt8)
  /-- The number that was taken. -/
  | number (n : Nat)
  /-- The bytes that were seen, if there are so many. -/
  | seen (bs : Option (List UInt8))
  /-- There is room. -/
  | room
deriving DecidableEq, Repr

/-- What a computation ends with, and the state that it leaves. -/
def outcome {σ α : Type} (step : EStateM WireError σ α) (s : σ) : Except WireError α × σ :=
  match step s with
  | .ok a s => (.ok a, s)
  | .error e s => (.error e, s)

lemma outcome_map {σ α β : Type} (f : α → β) (step : EStateM WireError σ α) (s : σ) :
    outcome (f <$> step) s = ((outcome step s).1.map f, (outcome step s).2) := by
  show (match EStateM.map f step s with | .ok a s => _ | .error e s => _) = _
  rw [EStateM.map, outcome]
  cases step s <;> rfl

namespace Call

/-- The call on a tail. -/
def read : Call → Reader WireError Answer
  | take field size => .bytes <$> Reader.take field size.toNat
  | number field width => .number <$> Reader.takeCounter ⟨field, width⟩
  | count field width => .number <$> Reader.takeCounter ⟨field, width⟩
  | peek size => fun t => .ok (.seen (t.peek? size.toNat)) t
  | require field items size =>
    (fun _ => .room) <$> Reader.require field items.toNat size.toNat

/-- What the call gives. -/
def answer (call : Call) (t : Tail) : Except WireError Answer := (outcome call.read t).1

/-- The tail that the call leaves. -/
def next (call : Call) (t : Tail) : Tail := (outcome call.read t).2

/-- The field that the call takes off, if it takes any: what it is called and how many bytes it
has. -/
def field? : Call → Option (String × Nat)
  | take field size => some (field, size.toNat)
  | number field width => some (field, width)
  | count field width => some (field, width)
  | peek _ => none
  | require _ _ _ => none

/-- The bytes that the call takes off. -/
def slice (call : Call) (t : Tail) : List UInt8 :=
  match call.field? with
  | none => []
  | some (field, n) =>
    match Reader.take field n t with
    | .ok bytes _ => bytes
    | .error _ _ => []

/-- What is made of the bytes that the call takes off. -/
def ofBytes : Call → List UInt8 → Answer
  | take _ _, bytes => .bytes bytes
  | _, bytes => .number (BigEndian.toNat bytes)

end Call

namespace Tail

/-- The tail behind a run of calls.  A call that fails does not end the run. -/
def after (t : Tail) (calls : List Call) : Tail := calls.foldl (fun t call => call.next t) t

/-- What each call of a run takes off, first call first. -/
def slices : Tail → List Call → List (List UInt8)
  | _, [] => []
  | t, call :: calls => call.slice t :: slices (call.next t) calls

end Tail

/-! ## The readers, case by case -/

namespace Reader

variable {field : String} {t : Tail}

/-- Bytes are taken if there are so many, and otherwise nothing is. -/
lemma take_cases (field : String) (n : Nat) (t : Tail) :
    (∃ bytes, bytes.length = n ∧ t.Split bytes (t.skip n) ∧ take field n t = .ok bytes (t.skip n)) ∨
      t.remaining < n ∧ take field n t = .error (.truncated field n t.remaining) t := by
  rcases Nat.lt_or_ge t.remaining n with hlt | hle
  · refine .inr ⟨hlt, ?_⟩
    rw [take, Tail.peek?_eq_none_iff.mpr hlt]
  · obtain ⟨bytes, hlen, hsplit⟩ := Tail.exists_split hle
    exact .inl ⟨bytes, hlen, hsplit, take_eq_ok_iff.mpr ⟨hlen, hsplit⟩⟩

lemma map_apply {ε α β : Type} (f : α → β) (read : Reader ε α) (t : Tail) :
    (f <$> read) t =
      match read t with
      | .ok a t' => .ok (f a) t'
      | .error e t' => .error e t' := by
  rw [← bind_pure_comp, bind_apply]
  rfl

end Reader

namespace Call

variable {call : Call} {t : Tail} {field : String} {n : Nat}

/-- A call that takes a field off makes its answer of the bytes of the field. -/
lemma read_of_field? (h : call.field? = some (field, n)) :
    call.read = call.ofBytes <$> Reader.take field n := by
  cases call with
  | take => cases h; rfl
  | number => cases h; exact Functor.map_map _ _ _
  | count => cases h; exact Functor.map_map _ _ _
  | peek => cases h
  | require => cases h

/-- A call that takes a field off. -/
lemma take_cases (h : call.field? = some (field, n)) (t : Tail) :
    (∃ bytes, bytes.length = n ∧ t.Split bytes (call.next t) ∧ call.slice t = bytes ∧
        call.answer t = .ok (call.ofBytes bytes)) ∨
      t.remaining < n ∧ call.next t = t ∧ call.slice t = [] ∧
        call.answer t = .error (.truncated field n t.remaining) := by
  simp only [next, slice, answer, outcome, h, read_of_field? h, Reader.map_apply]
  rcases Reader.take_cases field n t with ⟨bytes, hlen, hsplit, htake⟩ | ⟨hlt, htake⟩
  · exact .inl ⟨bytes, hlen, by simp only [htake, hsplit, and_self]⟩
  · exact .inr ⟨hlt, by simp only [htake, and_self]⟩

lemma slice_of_field?_eq_none (h : call.field? = none) : call.slice t = [] := by
  rw [slice, h]

/-- A call that takes no field off leaves the tail as it is. -/
lemma next_of_field?_eq_none (h : call.field? = none) : call.next t = t := by
  cases call with
  | take => cases h
  | number => cases h
  | count => cases h
  | peek => rfl
  | require field items size =>
    simp only [next, outcome, read, Reader.map_apply, Reader.require]
    split_ifs <;> rfl

/-- What a call takes off stands behind what it leaves. -/
lemma split (call : Call) (t : Tail) : t.Split (call.slice t) (call.next t) := by
  cases h : call.field? with
  | none =>
    rw [slice_of_field?_eq_none h, next_of_field?_eq_none h]
    exact Tail.Split.nil_iff.mpr rfl
  | some field =>
    rcases take_cases h t with ⟨bytes, -, hsplit, hslice, -⟩ | ⟨-, hnext, hslice, -⟩
    · rwa [hslice]
    · rw [hslice, hnext]
      exact Tail.Split.nil_iff.mpr rfl

/-- A call that fails leaves the tail as it is. -/
lemma next_of_answer_eq_error {e : WireError} (h : call.answer t = .error e) : call.next t = t := by
  cases hfield : call.field? with
  | none => exact next_of_field?_eq_none hfield
  | some field =>
    rcases take_cases hfield t with ⟨bytes, -, -, -, hanswer⟩ | ⟨-, hnext, -, -⟩
    · rw [hanswer] at h
      cases h
    · exact hnext

/-- A field is taken off exactly if it is there, and it is what a look at the end shows. -/
lemma exists_answer_eq_error_iff (h : call.field? = some (field, n)) :
    (∃ e, call.answer t = .error e) ↔ t.remaining < n := by
  rcases take_cases h t with ⟨bytes, rfl, hsplit, -, hanswer⟩ | ⟨hlt, -, -, hanswer⟩
  · rw [hanswer]
    exact iff_of_false (by rintro ⟨_, ⟨⟩⟩) (Nat.not_lt.mpr hsplit.length_le)
  · exact iff_of_true ⟨_, hanswer⟩ hlt

lemma answer_eq_ok_iff (h : call.field? = some (field, n)) {a : Answer} :
    call.answer t = .ok a ↔ t.peek? n = some (call.slice t) ∧ a = call.ofBytes (call.slice t) := by
  rcases take_cases h t with ⟨bytes, rfl, hsplit, rfl, hanswer⟩ | ⟨hlt, -, -, hanswer⟩
  · rw [hanswer, hsplit.peek? rfl, Except.ok.injEq, eq_comm]
    exact (and_iff_right rfl).symm
  · rw [hanswer, Tail.peek?_eq_none_iff.mpr hlt]
    exact iff_of_false (by rintro ⟨⟩) (by rintro ⟨⟨⟩, _⟩)

lemma answer_peek (size : UInt64) : (peek size).answer t = .ok (.seen (t.peek? size.toNat)) := rfl

lemma answer_require_eq_ok_iff (field : String) (items size : UInt64) :
    (require field items size).answer t = .ok .room ↔
      items.toNat * size.toNat ≤ t.remaining := by
  rw [answer, read, outcome_map, outcome, Reader.require]
  split_ifs with h
  · exact iff_of_true rfl (Tail.holds_iff.mp h)
  · exact iff_of_false (by rintro ⟨⟩) fun hle => h (Tail.holds_iff.mpr hle)

/-- What is seen at the end is what would be taken. -/
lemma answer_peek_iff_answer_take (field : String) (size : UInt64) (bytes : List UInt8) :
    (peek size).answer t = .ok (.seen (some bytes)) ↔
      (take field size).answer t = .ok (.bytes bytes) := by
  have hfield : (take field size).field? = some (field, size.toNat) := rfl
  rw [answer_peek]
  rcases take_cases hfield t with ⟨taken, hlen, hsplit, -, hanswer⟩ | ⟨hlt, -, -, hanswer⟩
  · rw [hanswer, hsplit.peek? hlen, ofBytes, Except.ok.injEq, Except.ok.injEq, Answer.seen.injEq,
      Option.some.injEq, Answer.bytes.injEq]
  · rw [hanswer, Tail.peek?_eq_none_iff.mpr hlt]
    exact iff_of_false (by rintro ⟨⟩) (by rintro ⟨⟩)

lemma answer_peek_eq_none_iff (size : UInt64) :
    (peek size).answer t = .ok (.seen none) ↔ t.remaining < size.toNat := by
  rw [answer_peek, Except.ok.injEq, Answer.seen.injEq, Tail.peek?_eq_none_iff]

end Call

/-! ## Whole runs -/

namespace Tail

variable {t : Tail}

/-- What a run takes off, last call first, stands behind what it leaves. -/
lemma split_after (t : Tail) (calls : List Call) :
    t.Split (slices t calls).reverse.flatten (after t calls) := by
  induction calls generalizing t with
  | nil => exact Split.nil_iff.mpr rfl
  | cons call calls ih =>
    rw [slices, List.reverse_cons, List.flatten_append, List.flatten_singleton]
    exact Split.append_iff.mpr ⟨call.next t, call.split t, ih (call.next t)⟩

variable (buffer : List UInt8) (calls : List Call)

/-- From the end of a buffer on, what is left and what was taken off are the buffer. -/
lemma rest_after_append_slices :
    ((ofBytes buffer).after calls).rest ++ ((ofBytes buffer).slices calls).reverse.flatten =
      buffer := by
  rw [← (split_after (ofBytes buffer) calls).rest_eq, rest_ofBytes]

lemma rest_after :
    ((ofBytes buffer).after calls).rest =
      buffer.take ((ofBytes buffer).after calls).remaining := by
  rw [← length_rest]
  exact List.prefix_iff_eq_take.mp ⟨_, rest_after_append_slices buffer calls⟩

lemma consumed_add_remaining_after :
    ((ofBytes buffer).after calls).consumed + ((ofBytes buffer).after calls).remaining =
      buffer.length := by
  have hconsumed : ((ofBytes buffer).after calls).consumed =
      ((ofBytes buffer).slices calls).reverse.flatten.length := by
    rw [(split_after (ofBytes buffer) calls).consumed_eq]
    exact Nat.zero_add _
  rw [hconsumed, Nat.add_comm, ← length_rest, ← List.length_append, rest_after_append_slices]

end Tail
end SignedFeeds
