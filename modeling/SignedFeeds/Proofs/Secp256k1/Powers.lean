/-
# Powers by squaring

The curve takes powers, multiples of points and inverses along the bits of a number, from the most
significant one on.  What holds of such a walk is proved by what one bit does to it
(`foldl_bits`): the number that has been walked over is doubled, and the bit is added.
-/
import Mathlib.FieldTheory.Finite.Basic
import SignedFeeds.Secp256k1.Curve

namespace SignedFeeds
namespace Secp256k1

variable {width k : ℕ}

/-! ## Bits -/

lemma bits_eq (width k : ℕ) : bits width k = ((List.range width).map k.testBit).reverse := by
  have h : ∀ (is : List ℕ) (rest : List Bool),
      is.foldl (fun rest i => k.testBit i :: rest) rest = (is.map k.testBit).reverse ++ rest := by
    intro is
    induction is with
    | nil => exact fun rest => rfl
    | cons i is ih => exact fun rest => by simp [ih]
  rw [bits, h, List.append_nil]

/-- The bits of a number are those of its half and its parity. -/
lemma bits_succ (width k : ℕ) : bits (width + 1) k = bits width (k / 2) ++ [k.testBit 0] := by
  rw [bits_eq, bits_eq, List.range_succ_eq_map, List.map_cons, List.reverse_cons, List.map_map]
  congr 3
  funext i
  exact Nat.testBit_succ k i

@[simp] lemma length_bits (width k : ℕ) : (bits width k).length = width := by
  rw [bits_eq, List.length_reverse, List.length_map, List.length_range]

lemma half_add_testBit (k : ℕ) : 2 * (k / 2) + (k.testBit 0).toNat = k := by
  rw [Nat.toNat_testBit, pow_zero, Nat.div_one]
  omega

lemma half_lt (h : k < 2 ^ (width + 1)) : k / 2 < 2 ^ width := by
  rw [pow_succ] at h
  omega

/-- A walk along the bits of a number, by what each bit does to it. -/
lemma foldl_bits {α : Type} {step : α → Bool → α} {start : α} (Holds : ℕ → α → Prop)
    (hstart : Holds 0 start)
    (hstep : ∀ k acc bit, Holds k acc → Holds (2 * k + bit.toNat) (step acc bit))
    (h : k < 2 ^ width) : Holds k ((bits width k).foldl step start) := by
  induction width generalizing k with
  | zero =>
    obtain rfl : k = 0 := by omega
    exact hstart
  | succ width ih =>
    rw [bits_succ, List.foldl_concat]
    have := hstep _ _ (k.testBit 0) (ih (half_lt h))
    rwa [half_add_testBit] at this

/-- A walk along the bits of two numbers at once. -/
lemma foldl_zip_bits {α : Type} {step : α → Bool × Bool → α} {start : α}
    (Holds : ℕ → ℕ → α → Prop) {a b : ℕ} (hstart : Holds 0 0 start)
    (hstep : ∀ a b acc pair, Holds a b acc →
      Holds (2 * a + pair.1.toNat) (2 * b + pair.2.toNat) (step acc pair))
    (ha : a < 2 ^ width) (hb : b < 2 ^ width) :
    Holds a b (((bits width a).zip (bits width b)).foldl step start) := by
  induction width generalizing a b with
  | zero =>
    obtain ⟨rfl, rfl⟩ : a = 0 ∧ b = 0 := by omega
    exact hstart
  | succ width ih =>
    rw [bits_succ, bits_succ, List.zip_append (by simp), List.foldl_append]
    have := hstep _ _ _ (a.testBit 0, b.testBit 0) (ih (half_lt ha) (half_lt hb))
    rwa [half_add_testBit, half_add_testBit] at this

/-! ## Powers and inverses -/

variable {b e m : ℕ}

lemma powMod_lt (hm : 0 < m) : powMod b e m < m := by
  rw [powMod, bits_succ 255, List.foldl_concat]
  split
  all_goals exact Nat.mod_lt _ hm

lemma cast_powMod (h : e < 2 ^ 256) : ((powMod b e m : ℕ) : ZMod m) = (b : ZMod m) ^ e := by
  refine foldl_bits (fun k acc => ((acc : ℕ) : ZMod m) = (b : ZMod m) ^ k) ?_ ?_ h
  · rw [Nat.cast_one, pow_zero]
  · intro k acc bit hacc
    cases bit with
    | false => simp [hacc, two_mul, pow_add]
    | true => simp [hacc, two_mul, pow_add]

/-- Fermat's theorem gives inverses. -/
lemma cast_invMod [Fact m.Prime] (hlow : 2 < m) (hhigh : m < 2 ^ 256) (a : ℕ) :
    ((invMod a m : ℕ) : ZMod m) = (a : ZMod m)⁻¹ := by
  rw [invMod, cast_powMod (by omega)]
  by_cases ha : (a : ZMod m) = 0
  · rw [ha, inv_zero, zero_pow (by omega)]
  · have hone : (a : ZMod m) ^ (m - 2 + 1) = 1 := by
      rw [show m - 2 + 1 = m - 1 by omega]
      exact ZMod.pow_card_sub_one_eq_one ha
    rw [pow_succ] at hone
    exact eq_inv_of_mul_eq_one_left hone

end Secp256k1
end SignedFeeds
