/-
# Reading a buffer from its end

The start of a payload inside a larger buffer is unknown, but its end is the end of the
buffer.  So every structure is laid out to be read backwards: a tail takes fields off the
right end and never looks at what lies further to the left than it must.

A tail holds its unread bytes last byte first.  `rest` is the view of them in their order in
the buffer, in which each operation is described: `take n` splits `rest` into a front that
stays and `n` bytes that are returned.
-/
import SignedFeeds.Wire.Counter

namespace SignedFeeds

/-- A buffer that is being read from its end. -/
structure Tail where
  /-- The bytes not yet read, last byte of the buffer first. -/
  unread : List UInt8
  /-- How many bytes have been read. -/
  consumed : Nat
deriving DecidableEq, Repr

namespace Tail

/-- The whole of a buffer, nothing read yet. -/
def ofBytes (buffer : List UInt8) : Tail := ⟨buffer.reverse, 0⟩

/-- The bytes not yet read, in their order in the buffer. -/
def rest (t : Tail) : List UInt8 := t.unread.reverse

/-- How many bytes are not yet read. -/
def remaining (t : Tail) : Nat := t.unread.length

/-- The last `n` unread bytes, in their order in the buffer, if there are so many. -/
def peek? (t : Tail) (n : Nat) : Option (List UInt8) :=
  let field := t.unread.take n
  if field.length = n then some field.reverse else none

/-- The largest size that an error reports. -/
def maxSize : Nat := 0xffffffffffffffff

/-- Whether at least `n` bytes are unread.  At most `n` of them are walked over. -/
def holds (t : Tail) (n : Nat) : Bool := n = 0 || !(t.unread.drop (n - 1)).isEmpty

@[simp] theorem rest_ofBytes (buffer : List UInt8) : (ofBytes buffer).rest = buffer := by
  simp [rest, ofBytes]

@[simp] theorem length_rest (t : Tail) : t.rest.length = t.remaining := by
  simp [rest, remaining]

theorem unread_eq (t : Tail) : t.unread = t.rest.reverse := by simp [rest]

theorem holds_iff {t : Tail} {n : Nat} : t.holds n = true ↔ n ≤ t.remaining := by
  cases n with
  | zero => exact iff_of_true rfl (Nat.zero_le _)
  | succ n =>
    rw [holds, remaining, Nat.succ_le_iff]
    simp

/-- What is looked at is the end of the unread bytes. -/
theorem peek?_eq_some_iff {t : Tail} {n : Nat} {bytes : List UInt8} :
    t.peek? n = some bytes ↔ bytes.length = n ∧ ∃ front, t.rest = front ++ bytes := by
  have hlen : (t.unread.take n).length = n ↔ n ≤ t.unread.length := by
    rw [List.length_take]
    omega
  constructor
  · intro h
    simp only [peek?] at h
    split at h
    · next hn =>
      obtain rfl := Option.some.inj h
      refine ⟨by rw [List.length_reverse, hn], (t.unread.drop n).reverse, ?_⟩
      rw [rest, ← List.reverse_append, List.take_append_drop]
    · cases h
  · rintro ⟨rfl, front, hfront⟩
    have hunread : t.unread = bytes.reverse ++ front.reverse := by
      rw [unread_eq, hfront, List.reverse_append]
    simp [peek?, hunread]

theorem peek?_eq_none_iff {t : Tail} {n : Nat} : t.peek? n = none ↔ t.remaining < n := by
  simp only [peek?, remaining]
  split
  · next hn => rw [List.length_take] at hn; simp; omega
  · next hn => rw [List.length_take] at hn; simp; omega

end Tail

/-- A computation that reads from a tail.  What it has read before a failure stays read. -/
abbrev Reader (ε : Type) := EStateM ε Tail

namespace Reader

/-- Takes exactly `n` bytes off the end, or fails and takes nothing. -/
def take (field : String) (n : Nat) : Reader WireError (List UInt8) := fun t =>
  match t.peek? n with
  | some bytes => .ok bytes ⟨t.unread.drop n, t.consumed + n⟩
  | none => .error (.truncated field n t.remaining) t

/-- Takes a number off the end. -/
def takeCounter (c : Counter) : Reader WireError Nat :=
  BigEndian.toNat <$> take c.name c.width

/-- Fails unless `count` items of `size` bytes each are unread.  It reads nothing, and is
asked before a loop so that a hostile count cannot drive one. -/
def require (field : String) (count size : Nat) : Reader WireError Unit := fun t =>
  if t.holds (count * size) then .ok () t
  else .error (.truncated field (min (count * size) Tail.maxSize) t.remaining) t

/-- Runs a reader `n` times and returns what it read in the order of the buffer. -/
def times {ε α : Type} (n : Nat) (read : Reader ε α) : Reader ε (List α) :=
  go n []
where
  /-- The items read so far are those that lie furthest right. -/
  go : Nat → List α → Reader ε (List α)
    | 0, items => pure items
    | n + 1, items => do
      let item ← read
      go n (item :: items)

/-- Lets a reader fail with another kind of error. -/
def mapError {ε ε' α : Type} (f : ε → ε') (read : Reader ε α) : Reader ε' α := fun t =>
  match read t with
  | .ok a t => .ok a t
  | .error e t => .error (f e) t

/-- Fails with the error of a computation that does not read. -/
def ofExcept {ε α : Type} : Except ε α → Reader ε α
  | .ok a => pure a
  | .error e => throw e

/-- Reads a buffer that holds nothing but the given structure. -/
def whole {α : Type} (field : String) (read : Reader WireError α) (buffer : List UInt8) :
    Except WireError α :=
  match read (Tail.ofBytes buffer) with
  | .error e _ => .error e
  | .ok a t =>
    if t.unread.isEmpty then .ok a
    else .error (.malformed field t.consumed buffer.length)

end Reader
end SignedFeeds
