/-
# Big-endian numbers

A number written in base 256, most significant byte first, in a field of fixed width.
`toNat` reads such a field and `ofNat` writes one.  The two are inverse to each other on
the numbers that the width can hold, which is the fact every counter, timestamp and value
of the wire format rests on.
-/

namespace SignedFeeds
namespace BigEndian

/-- The number spelled by a byte string, most significant byte first. -/
def toNat (bs : List UInt8) : Nat := bs.foldl (fun n b => 256 * n + b.toNat) 0

/-- The `width` low base-256 digits of `n`, followed by `tail`. -/
def digitsOnto : (width n : Nat) → (tail : List UInt8) → List UInt8
  | 0, _, tail => tail
  | width + 1, n, tail => digitsOnto width (n / 256) (UInt8.ofNat n :: tail)

/-- The `width` low base-256 digits of `n`, most significant first. -/
def ofNat (width n : Nat) : List UInt8 := digitsOnto width n []

/-- How many numbers a field of the given width can hold: `256 ^ width`. -/
def capacity (width : Nat) : Nat := Nat.pow 256 width

/-! ## Widths and bounds -/

@[simp] theorem capacity_zero : capacity 0 = 1 := rfl

theorem capacity_succ (width : Nat) : capacity (width + 1) = 256 * capacity width :=
  Nat.mul_comm ..

theorem capacity_pos (width : Nat) : 0 < capacity width := Nat.pow_pos (by decide)

theorem length_digitsOnto (width n : Nat) (tail : List UInt8) :
    (digitsOnto width n tail).length = width + tail.length := by
  induction width generalizing n tail with
  | zero => simp [digitsOnto]
  | succ width ih => simp only [digitsOnto, ih, List.length_cons]; omega

@[simp] theorem length_ofNat (width n : Nat) : (ofNat width n).length = width := by
  simp [ofNat, length_digitsOnto]

theorem digitsOnto_eq_append (width n : Nat) (tail : List UInt8) :
    digitsOnto width n tail = ofNat width n ++ tail := by
  induction width generalizing n tail with
  | zero => rfl
  | succ width ih =>
    rw [ofNat, digitsOnto, digitsOnto, ih, ih (n / 256) [UInt8.ofNat n], List.append_assoc]
    rfl

/-- The last digit is the number modulo 256 and the others spell its quotient. -/
theorem ofNat_succ (width n : Nat) :
    ofNat (width + 1) n = ofNat width (n / 256) ++ [UInt8.ofNat n] := by
  rw [ofNat, digitsOnto, digitsOnto_eq_append]

@[simp] theorem toNat_nil : toNat [] = 0 := rfl

theorem toNat_concat (bs : List UInt8) (b : UInt8) :
    toNat (bs ++ [b]) = 256 * toNat bs + b.toNat := by
  simp [toNat]

theorem toNat_lt (bs : List UInt8) : toNat bs < capacity bs.length := by
  rw [← bs.reverse_reverse]
  induction bs.reverse with
  | nil => simp
  | cons b rev ih =>
    have := b.toNat_lt
    rw [List.reverse_cons, toNat_concat, List.length_append, List.length_singleton,
      capacity_succ]
    omega

/-! ## Reading and writing are inverse -/

theorem toNat_ofNat (width n : Nat) : toNat (ofNat width n) = n % capacity width := by
  induction width generalizing n with
  | zero => simp [ofNat, digitsOnto, Nat.mod_one]
  | succ width ih =>
    rw [ofNat_succ, toNat_concat, ih, UInt8.toNat_ofNat', capacity_succ, Nat.mod_mul]
    omega

theorem toNat_ofNat_of_lt {width n : Nat} (h : n < capacity width) :
    toNat (ofNat width n) = n := by
  rw [toNat_ofNat, Nat.mod_eq_of_lt h]

theorem ofNat_toNat (bs : List UInt8) : ofNat bs.length (toNat bs) = bs := by
  rw [← bs.reverse_reverse]
  induction bs.reverse with
  | nil => rfl
  | cons b rev ih =>
    have hb := b.toNat_lt
    rw [List.reverse_cons, List.length_append, List.length_singleton, toNat_concat, ofNat_succ,
      show (256 * toNat rev.reverse + b.toNat) / 256 = toNat rev.reverse by omega, ih]
    have hlow : UInt8.ofNat (256 * toNat rev.reverse + b.toNat) = b := by
      rw [← UInt8.toNat_inj, UInt8.toNat_ofNat']
      omega
    rw [hlow]

end BigEndian
end SignedFeeds
