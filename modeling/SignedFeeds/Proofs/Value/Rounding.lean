/-
# Rounding to the nearest integer

A number is rounded to an integer that is as near to it as any, and of two such integers to that
which is further from zero.  `RoundsTo` says so without a computation.  There is one such integer
(`RoundsTo.unique`), and it is what `roundDiv` computes for a fraction
(`roundsTo_roundDiv`) and `scaled`, with the sign of the decimal, for a decimal that is multiplied
by a power of ten (`roundsTo_scaled`).
-/
import Mathlib.Algebra.Order.Field.Rat
import Mathlib.Tactic.FieldSimp
import Mathlib.Tactic.Linarith
import Mathlib.Tactic.Positivity
import Mathlib.Tactic.Ring
import SignedFeeds.Decimal

namespace SignedFeeds
namespace Decimal

/-- Rounding `x` to an integer gives `n`: no integer is nearer to `x`, and none that is as near is
further from zero. -/
structure RoundsTo (x : ℚ) (n : ℤ) : Prop where
  nearest : ∀ k : ℤ, |x - n| ≤ |x - k|
  away : ∀ k : ℤ, |x - k| = |x - n| → |k| ≤ |n|

variable {x : ℚ} {m n : ℤ}

lemma RoundsTo.unique (h : RoundsTo x m) (h' : RoundsTo x n) : m = n := by
  have hdist : |x - m| = |x - n| := le_antisymm (h.nearest n) (h'.nearest m)
  have habs : |m| = |n| := le_antisymm (h'.away m hdist) (h.away n hdist.symm)
  rcases abs_eq_abs.mp habs with heq | hneg
  · exact heq
  · -- two opposite integers are equally near to zero only, and zero is nearer
    have hcast : (m : ℚ) = -n := by exact_mod_cast hneg
    rw [hcast, sub_neg_eq_add] at hdist
    rcases abs_eq_abs.mp hdist with hzero | hzero
    · have hn : (n : ℚ) = 0 := by linarith
      have hn : n = 0 := by exact_mod_cast hn
      omega
    · have hx : x = 0 := by linarith
      have hnear := h'.nearest 0
      rw [hx, Int.cast_zero, sub_zero, abs_zero, zero_sub, abs_neg] at hnear
      have hn : (n : ℚ) = 0 := abs_nonpos_iff.mp hnear
      have hn : n = 0 := by exact_mod_cast hn
      omega

/-- Two integers have a distance of at least one. -/
lemma one_le_dist_add (hne : n ≠ m) : 1 ≤ |x - n| + |x - m| := by
  have hint : 1 ≤ |m - n| := Int.one_le_abs (sub_ne_zero.mpr hne.symm)
  have hrat : (1 : ℚ) ≤ |(m : ℚ) - n| := by exact_mod_cast hint
  have htriangle := abs_sub_le (m : ℚ) x n
  rw [abs_sub_comm (m : ℚ) x] at htriangle
  linarith

/-- An error of at most a half, and a half only away from zero, is as good as it gets. -/
lemma roundsTo_of_error_le (herror : |x - n| ≤ 1 / 2) (htie : |x - n| = 1 / 2 → |x| < |(n : ℚ)|) :
    RoundsTo x n := by
  refine ⟨fun k => ?_, fun k hk => ?_⟩
  · rcases eq_or_ne n k with rfl | hne
    · exact le_rfl
    · have hdist := one_le_dist_add (x := x) hne
      linarith
  · rcases eq_or_ne n k with rfl | hne
    · exact le_rfl
    · -- two integers are equally near only half-way between them
      have hdist := one_le_dist_add (x := x) hne
      have hhalf : |x - n| = 1 / 2 := by linarith
      have haway := htie hhalf
      have hk : (k : ℚ) = 2 * x - n := by
        rcases abs_eq_abs.mp hk with hsame | hother
        · exact absurd (by exact_mod_cast (by linarith : (n : ℚ) = k)) hne
        · linarith
      have hle : |(k : ℚ)| < |(n : ℚ)| + 1 := by
        have hsplit : (k : ℚ) = x + (x - n) := by rw [hk]; ring
        have htriangle := abs_add_le x (x - n)
        rw [← hsplit, hhalf] at htriangle
        linarith
      have hlt : |k| < |n| + 1 := by exact_mod_cast hle
      omega

lemma RoundsTo.neg (h : RoundsTo x n) : RoundsTo (-x) (-n) := by
  have hflip (k : ℤ) : |-x - (k : ℚ)| = |x - ((-k : ℤ) : ℚ)| := by
    rw [← abs_neg]
    push_cast
    ring_nf
  refine ⟨fun k => ?_, fun k hk => ?_⟩
  · rw [hflip, hflip, neg_neg]
    exact h.nearest (-k)
  · rw [hflip, hflip, neg_neg] at hk
    have haway := h.away (-k) hk
    rwa [abs_neg] at haway ⊢

lemma roundsTo_intCast (n : ℤ) : RoundsTo (n : ℚ) n := by
  refine roundsTo_of_error_le ?_ fun htie => ?_
  · simp
  · simp at htie

/-- The quotient with half of the divisor added is the rounded one. -/
lemma roundsTo_roundDiv (a : ℕ) {b : ℕ} (hb : 0 < b) :
    RoundsTo ((a : ℚ) / b) (roundDiv a b : ℕ) := by
  have hpos : (0 : ℚ) < b := by exact_mod_cast hb
  have hlow : 2 * b * roundDiv a b ≤ 2 * a + b := Nat.mul_div_le _ _
  have hhigh : 2 * a + b < 2 * b * (roundDiv a b + 1) := Nat.lt_mul_div_succ _ (by omega)
  generalize roundDiv a b = q at hlow hhigh ⊢
  have hlow : 2 * (b : ℚ) * q ≤ 2 * a + b := by exact_mod_cast hlow
  have hhigh : 2 * (a : ℚ) + b < 2 * b * (q + 1) := by exact_mod_cast hhigh
  have ha : (a : ℚ) = a / b * b := by field_simp
  have hnonneg : (0 : ℚ) ≤ a / b := by positivity
  generalize (a : ℚ) / b = x at ha hnonneg ⊢
  rw [ha] at hlow hhigh
  have hle : (q : ℚ) ≤ x + 1 / 2 := by nlinarith
  have hlt : x + 1 / 2 < q + 1 := by nlinarith
  refine roundsTo_of_error_le ?_ fun htie => ?_
  · rw [abs_le]
    push_cast
    constructor <;> linarith
  · -- the error is below a half on the upper side
    rcases abs_eq (by norm_num) |>.mp htie with hup | hdown
    · push_cast at hup
      linarith
    · push_cast at hdown ⊢
      rw [abs_of_nonneg hnonneg, abs_of_nonneg (by linarith)]
      linarith

/-! ## Decimals -/

/-- The number with the given sign and digits, of which `scale` stand behind the point. -/
def signed (negative : Bool) (mantissa scale : ℕ) : ℚ :=
  (if negative then -1 else 1) * (mantissa / 10 ^ scale)

/-- The number that a decimal stands for. -/
def toRat (d : Decimal) : ℚ := signed d.negative d.mantissa d.scale

lemma div_mul_pow_of_le (mantissa : ℕ) {scale places : ℕ} (h : scale ≤ places) :
    (mantissa : ℚ) / 10 ^ scale * 10 ^ places = ((mantissa * 10 ^ (places - scale) : ℕ) : ℚ) := by
  obtain ⟨extra, rfl⟩ := Nat.exists_eq_add_of_le h
  rw [Nat.add_sub_cancel_left, pow_add]
  push_cast
  field_simp

lemma div_mul_pow_of_lt (mantissa : ℕ) {scale places : ℕ} (h : places ≤ scale) :
    (mantissa : ℚ) / 10 ^ scale * 10 ^ places = mantissa / ((10 ^ (scale - places) : ℕ) : ℚ) := by
  obtain ⟨extra, rfl⟩ := Nat.exists_eq_add_of_le h
  rw [Nat.add_sub_cancel_left, pow_add]
  push_cast
  field_simp

/-- The magnitude of a decimal times a power of ten, rounded. -/
lemma roundsTo_scaled_magnitude (d : Decimal) (places : ℕ) :
    RoundsTo ((d.mantissa : ℚ) / 10 ^ d.scale * 10 ^ places) (d.scaled places : ℕ) := by
  rw [scaled]
  split_ifs with hle
  · rw [div_mul_pow_of_le d.mantissa hle]
    exact_mod_cast roundsTo_intCast (d.mantissa * 10 ^ (places - d.scale) : ℕ)
  · rw [div_mul_pow_of_lt d.mantissa (by omega)]
    exact roundsTo_roundDiv d.mantissa (by positivity)

/-- A sign in front of a number goes in front of the rounded number. -/
lemma RoundsTo.sign (h : RoundsTo x n) (negative : Bool) :
    RoundsTo ((if negative then -1 else 1) * x) ((if negative then -1 else 1) * n) := by
  cases negative with
  | false => simpa using h
  | true => simpa using h.neg

/-- A decimal times a power of ten, rounded. -/
lemma roundsTo_scaled (d : Decimal) (places : ℕ) :
    RoundsTo (d.toRat * 10 ^ places) ((if d.negative then -1 else 1) * (d.scaled places : ℕ)) := by
  rw [toRat, signed, mul_assoc]
  exact (roundsTo_scaled_magnitude d places).sign d.negative

end Decimal
end SignedFeeds
