/-
# Byte strings of a fixed length

Hashes, addresses, feed ids and signatures are byte strings whose length is part of their
meaning.  A block carries the length in its type, so that whatever builds one has to show it.
Blocks are ordered byte by byte from the left.
-/
import SignedFeeds.Bytes.Hex

namespace SignedFeeds

/-- A byte string of exactly `n` bytes. -/
@[ext] structure Block (n : Nat) where
  /-- The bytes, leftmost first. -/
  bytes : List UInt8
  /-- There are exactly `n` of them. -/
  length_bytes : bytes.length = n
deriving DecidableEq

namespace Block

variable {n : Nat}

/-- The block with the given bytes, if there are `n` of them. -/
def ofBytes? (bs : List UInt8) : Option (Block n) :=
  if h : bs.length = n then some ⟨bs, h⟩ else none

/-- The block of `n` zero bytes. -/
def zero : Block n := ⟨List.replicate n 0, List.length_replicate⟩

/-- Two lower-case digits for each byte. -/
def toHex (b : Block n) : String := Hex.encode b.bytes

instance : Repr (Block n) where
  reprPrec b _ := b.toHex

@[simp] theorem ofBytes?_bytes (b : Block n) : ofBytes? b.bytes = some b := by
  simp [ofBytes?, b.length_bytes]

theorem ofBytes?_eq_some_iff {bs : List UInt8} {b : Block n} :
    ofBytes? bs = some b ↔ bs = b.bytes := by
  constructor
  · intro h
    unfold ofBytes? at h
    split at h
    · cases h; rfl
    · cases h
  · rintro rfl
    exact ofBytes?_bytes b

theorem ofBytes?_eq_none_iff {bs : List UInt8} :
    (ofBytes? bs : Option (Block n)) = none ↔ bs.length ≠ n := by
  unfold ofBytes?
  split <;> simp_all

/-! ## Byte order -/

instance : Ord (Block n) := ⟨compareOn Block.bytes⟩

theorem compare_eq (a b : Block n) : compare a b = compare a.bytes b.bytes := rfl

instance : Std.TransOrd (Block n) :=
  inferInstanceAs (Std.TransCmp (compareOn (Block.bytes : Block n → List UInt8)))

instance : Std.LawfulEqOrd (Block n) where
  eq_of_compare {a b} (h : compare a.bytes b.bytes = .eq) :=
    Block.ext (Std.LawfulEqCmp.eq_of_compare h)

end Block
end SignedFeeds
