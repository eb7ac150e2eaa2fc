/-
# Decimal numbers

A decimal is a signed integer of at most 96 bits divided by a power of ten with an exponent of
at most 28.  Zero may carry a sign, and one number may be written with several scales.
-/

namespace SignedFeeds

/-- The least number that does not fit in 96 bits. -/
def Decimal.bound : Nat := 0x1000000000000000000000000

/-- The number `± mantissa / 10 ^ scale`. -/
structure Decimal where
  /-- Whether the sign is minus; zero may have one too. -/
  negative : Bool
  /-- All digits, without sign and point. -/
  mantissa : Nat
  /-- How many of the digits stand behind the point. -/
  scale : Nat
  /-- The digits fit in 96 bits. -/
  mantissa_lt : mantissa < Decimal.bound
  /-- At most 28 digits stand behind the point. -/
  scale_le : scale ≤ 28
deriving DecidableEq, Repr

namespace Decimal

/-- The decimal with the given parts, if they are in range. -/
def ofParts? (negative : Bool) (mantissa scale : Nat) : Option Decimal :=
  if h : mantissa < bound ∧ scale ≤ 28 then some ⟨negative, mantissa, scale, h.1, h.2⟩ else none

/-- A whole number of 64 bits. -/
def ofWord (n : UInt64) : Decimal :=
  ⟨false, n.toNat, 0, Nat.lt_trans n.toNat_lt (by decide), Nat.zero_le _⟩

/-- `a / b` rounded to the nearest integer, a half upwards. -/
def roundDiv (a b : Nat) : Nat := (2 * a + b) / (2 * b)

/-- The magnitude of the number times `10 ^ decimals`, rounded to the nearest integer.  A
half goes away from zero. -/
def scaled (d : Decimal) (decimals : Nat) : Nat :=
  if d.scale ≤ decimals then d.mantissa * Nat.pow 10 (decimals - d.scale)
  else roundDiv d.mantissa (Nat.pow 10 (d.scale - decimals))

/-- The digits without zeros at the end of the fraction, and how many are behind the point. -/
def trim (mantissa : Nat) : (scale : Nat) → Nat × Nat
  | 0 => (mantissa, 0)
  | scale + 1 =>
    if mantissa % 10 = 0 then trim (mantissa / 10) scale else (mantissa, scale + 1)

theorem trim_le (mantissa scale : Nat) :
    (trim mantissa scale).1 ≤ mantissa ∧ (trim mantissa scale).2 ≤ scale := by
  induction scale generalizing mantissa with
  | zero => simp [trim]
  | succ scale ih =>
    unfold trim
    split
    · have := ih (mantissa / 10)
      omega
    · simp

/-- The same number without zeros at the end of the fraction. -/
def normalize (d : Decimal) : Decimal where
  negative := d.negative
  mantissa := (trim d.mantissa d.scale).1
  scale := (trim d.mantissa d.scale).2
  mantissa_lt := Nat.lt_of_le_of_lt (trim_le ..).1 d.mantissa_lt
  scale_le := Nat.le_trans (trim_le ..).2 d.scale_le

/-- The number in positional notation, with all `scale` digits of the fraction. -/
def toText (d : Decimal) : String :=
  let digits := Nat.toDigits 10 d.mantissa
  let padded := List.replicate (d.scale + 1 - digits.length) '0' ++ digits
  let whole := padded.take (padded.length - d.scale)
  let fraction := padded.drop (padded.length - d.scale)
  let unsigned := if d.scale = 0 then whole else whole ++ '.' :: fraction
  String.ofList (if d.negative && d.mantissa != 0 then '-' :: unsigned else unsigned)

end Decimal
end SignedFeeds
