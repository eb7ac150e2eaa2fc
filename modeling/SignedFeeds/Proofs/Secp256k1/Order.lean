/-
# The order of the generator

The multiples of the generator are a group of the prime order `n`.  That `n` times the generator is
infinity is computed, and since `n` is prime no smaller multiple is.  So factors count modulo `n`.
-/
import Mathlib.GroupTheory.OrderOfElement
import SignedFeeds.Proofs.Secp256k1.Group

namespace SignedFeeds
namespace Secp256k1

variable {P Q : Group} {a b k : ℕ} {point : Point}

lemma denotes_ofPoint (h : coordinates P = some point) : (Weighted.ofPoint point).Denotes P := by
  cases P with
  | zero => cases h
  | some x y hxy =>
    obtain rfl := Option.some.inj h
    refine .finite hxy ⟨y.val_lt, prime_p.one_lt, ?_, ?_, ?_⟩
    all_goals simp [Weighted.ofPoint]

lemma nonsingular_generator : curve.Nonsingular (generator.x : ZMod p) (generator.y : ZMod p) := by
  have hmod : generator.y ^ 2 ≡ generator.x ^ 3 + 7 [MOD p] := by decide +kernel
  rw [nonsingular_iff]
  exact_mod_cast (ZMod.natCast_eq_natCast_iff _ _ _).mpr hmod

/-- The generator as a point of the group. -/
def base : Group := .some _ _ nonsingular_generator

lemma coordinates_base : coordinates base = some generator := by
  have hx : generator.x < p := by decide
  have hy : generator.y < p := by decide
  rw [base, coordinates, ZMod.val_natCast_of_lt hx, ZMod.val_natCast_of_lt hy]

lemma base_ne_zero : base ≠ 0 := WeierstrassCurve.Affine.Point.some_ne_zero _

/-- A combination of the generator and another point is computed as the group has it. -/
lemma combination?_eq (h : coordinates P = some point) (ha : a < 2 ^ 256) (hb : b < 2 ^ 256) :
    combination? a b point = coordinates (a • base + b • P) :=
  ((denotes_ofPoint coordinates_base).combine (denotes_ofPoint h) ha hb).toPoint?_eq

lemma multiple?_eq (h : k < 2 ^ 256) : multiple? k = coordinates (k • base) := by
  have hdenotes := (denotes_ofPoint coordinates_base).combine Weighted.denotes_infinity h
    (Nat.two_pow_pos 256)
  rw [multiple?, hdenotes.toPoint?_eq, zero_nsmul, add_zero]

lemma n_nsmul_base : n • base = 0 := by
  have hnone : multiple? n = none := by decide +kernel
  rw [← coordinates_eq_none_iff, ← multiple?_eq (by decide), hnone]

lemma addOrderOf_base : addOrderOf base = n := addOrderOf_eq_prime n_nsmul_base base_ne_zero

lemma nsmul_base_eq_zero_iff : k • base = 0 ↔ n ∣ k := by
  rw [← addOrderOf_base, addOrderOf_dvd_iff_nsmul_eq_zero]

/-- Factors of the generator count modulo `n`. -/
lemma nsmul_base_eq_of_cast_eq (h : (a : ZMod n) = b) : a • base = b • base := by
  rw [nsmul_eq_nsmul_iff_modEq, addOrderOf_base, ← ZMod.natCast_eq_natCast_iff, h]

lemma exists_multiple? (hpos : 0 < k) (hlt : k < n) : ∃ point, multiple? k = some point := by
  rw [← Option.ne_none_iff_exists', multiple?_eq (hlt.trans (by decide)), Ne,
    coordinates_eq_none_iff, nsmul_base_eq_zero_iff]
  exact Nat.not_dvd_of_pos_of_lt hpos hlt

end Secp256k1
end SignedFeeds
