/-
# The group of the curve

The points of `y² = x³ + 7`, with one at infinity, are a group.  A weighted triple denotes a point
(`Weighted.Denotes`), and doubling and adding triples is doubling and adding the points that they
denote.  So walking along the bits of two numbers gives a combination of two points
(`Weighted.Denotes.combine`), and the only division is the one that gives its coordinates.
-/
import Mathlib.AlgebraicGeometry.EllipticCurve.Affine.Point
import Mathlib.Tactic.FieldSimp
import Mathlib.Tactic.LinearCombination
import SignedFeeds.Proofs.Secp256k1.Primes

namespace SignedFeeds
namespace Secp256k1

/-! ## Points -/

/-- The curve `y² = x³ + 7` over the numbers modulo `p`. -/
def curve : WeierstrassCurve.Affine (ZMod p) := ⟨0, 0, 0, 0, 7⟩

/-- The points of the curve, with the one at infinity for zero. -/
abbrev Group := curve.Point

lemma equation_iff {x y : ZMod p} : curve.Equation x y ↔ y ^ 2 = x ^ 3 + 7 := by
  rw [WeierstrassCurve.Affine.equation_iff]
  simp [curve]

lemma Δ_ne_zero : curve.Δ ≠ 0 := by
  have hcast : curve.Δ = -((21168 : ℕ) : ZMod p) := by
    simp only [curve, WeierstrassCurve.Δ, WeierstrassCurve.b₂, WeierstrassCurve.b₄,
      WeierstrassCurve.b₆, WeierstrassCurve.b₈]
    push_cast
    ring
  rw [hcast, neg_ne_zero, Ne, ZMod.natCast_eq_zero_iff]
  decide

/-- The curve has no singular points. -/
lemma nonsingular_iff {x y : ZMod p} : curve.Nonsingular x y ↔ y ^ 2 = x ^ 3 + 7 := by
  rw [← WeierstrassCurve.Affine.equation_iff_nonsingular_of_Δ_ne_zero Δ_ne_zero, equation_iff]

@[simp] lemma negY_eq (x y : ZMod p) : curve.negY x y = -y := by
  simp [WeierstrassCurve.Affine.negY, curve]

lemma nonsingular_neg {x y : ZMod p} (h : curve.Nonsingular x y) : curve.Nonsingular x (-y) := by
  rw [nonsingular_iff, neg_sq]
  exact nonsingular_iff.mp h

lemma neg_some {x y : ZMod p} (h : curve.Nonsingular x y) :
    (-.some x y h : Group) = .some x (-y) (nonsingular_neg h) := by
  simp only [WeierstrassCurve.Affine.Point.neg_some, negY_eq]

lemma addX_eq (x₁ x₂ l : ZMod p) : curve.addX x₁ x₂ l = l ^ 2 - x₁ - x₂ := by
  simp [WeierstrassCurve.Affine.addX, curve]

lemma addY_eq (x₁ x₂ y₁ l : ZMod p) :
    curve.addY x₁ x₂ y₁ l = l * (x₁ - curve.addX x₁ x₂ l) - y₁ := by
  rw [WeierstrassCurve.Affine.addY, WeierstrassCurve.Affine.negAddY, negY_eq]
  ring

lemma two_ne_zero_mod_p : (2 : ZMod p) ≠ 0 := by
  have htwo : ((2 : ℕ) : ZMod p) ≠ 0 := by
    rw [Ne, ZMod.natCast_eq_zero_iff]
    decide
  exact_mod_cast htwo

/-- A point with another ordinate than zero is not its own negative. -/
lemma ne_negY {x y : ZMod p} (hy : y ≠ 0) : y ≠ curve.negY x y := by
  rw [negY_eq, Ne, eq_neg_iff_add_eq_zero, ← two_mul, mul_eq_zero, not_or]
  exact ⟨two_ne_zero_mod_p, hy⟩

/-- The slope of the tangent. -/
lemma slope_self {x y : ZMod p} (hy : y ≠ 0) : curve.slope x x y y = 3 * x ^ 2 / (2 * y) := by
  rw [WeierstrassCurve.Affine.slope_of_Y_ne rfl (ne_negY hy), negY_eq]
  simp [curve, two_mul]

/-- The slope of a chord. -/
lemma slope_of_ne {x₁ x₂ y₁ y₂ : ZMod p} (hx : x₁ ≠ x₂) :
    curve.slope x₁ x₂ y₁ y₂ = (y₁ - y₂) / (x₁ - x₂) :=
  WeierstrassCurve.Affine.slope_of_X_ne hx

/-- Points with one abscissa are equal or opposite. -/
lemma eq_neg_of_ne {x y₁ y₂ : ZMod p} (h₁ : curve.Nonsingular x y₁) (h₂ : curve.Nonsingular x y₂)
    (hne : y₁ ≠ y₂) : y₁ = -y₂ := by
  have hsquares : (y₁ - y₂) * (y₁ + y₂) = 0 := by
    linear_combination nonsingular_iff.mp h₁ - nonsingular_iff.mp h₂
  exact eq_neg_of_add_eq_zero_left
    ((mul_eq_zero.mp hsquares).resolve_left (sub_ne_zero.mpr hne))

/-! ## What triples denote -/

@[simp] lemma cast_mod (a : ℕ) : ((a % p : ℕ) : ZMod p) = a := ZMod.natCast_mod a p

lemma cast_sub {a b : ℕ} (h : b ≤ p) : ((sub a b : ℕ) : ZMod p) = a - b := by
  rw [sub, cast_mod, Nat.cast_add, Nat.cast_sub h, ZMod.natCast_self, zero_sub, sub_eq_add_neg]

lemma mod_lt (a : ℕ) : a % p < p := Nat.mod_lt a prime_p.pos

lemma sub_lt (a b : ℕ) : sub a b < p := mod_lt _

lemma cast_eq_zero_iff {a : ℕ} (h : a < p) : (a : ZMod p) = 0 ↔ a = 0 := by
  rw [ZMod.natCast_eq_zero_iff]
  exact ⟨fun hdvd => Nat.eq_zero_of_dvd_of_lt hdvd h, fun hzero => hzero ▸ dvd_zero p⟩

namespace Weighted

/-- The triple has the coordinates `x / z²` and `y / z³`. -/
structure At (q : Weighted) (x y : ZMod p) : Prop where
  y_lt : q.y < p
  z_lt : q.z < p
  z_ne : (q.z : ZMod p) ≠ 0
  x_eq : (q.x : ZMod p) = x * q.z ^ 2
  y_eq : (q.y : ZMod p) = y * q.z ^ 3

/-- What a triple denotes: a point by its coordinates, or the point at infinity. -/
inductive Denotes : Weighted → Group → Prop
  | infinity {q : Weighted} (hz : q.z = 0) : Denotes q 0
  | finite {q : Weighted} {x y : ZMod p} (h : curve.Nonsingular x y) (hq : q.At x y) :
    Denotes q (.some x y h)

variable {q r : Weighted} {x y x₁ y₁ x₂ y₂ : ZMod p} {P Q : Group}

lemma At.z_pos (h : q.At x y) : q.z ≠ 0 := fun hz => h.z_ne (by rw [hz, Nat.cast_zero])

lemma At.y_eq_zero_iff (h : q.At x y) : q.y = 0 ↔ y = 0 := by
  rw [← cast_eq_zero_iff h.y_lt, h.y_eq, mul_eq_zero, or_iff_left (pow_ne_zero 3 h.z_ne)]

lemma denotes_infinity : infinity.Denotes 0 := .infinity rfl

/-! ## Doubling -/

/-- The tangent meets the curve in the mirror image of the double. -/
lemma At.double (h : q.At x y) (hy : y ≠ 0) :
    q.double.At (curve.addX x x (curve.slope x x y y)) (curve.addY x x y (curve.slope x x y y)) := by
  have htwo := two_ne_zero_mod_p
  have hz := h.z_ne
  have hqy : (q.y : ZMod p) ≠ 0 := by
    rw [h.y_eq]
    exact mul_ne_zero hy (pow_ne_zero 3 hz)
  rw [Weighted.double, if_neg (not_or.mpr ⟨h.z_pos, h.y_eq_zero_iff.not.mpr hy⟩)]
  refine ⟨sub_lt .., mod_lt _, ?_, ?_, ?_⟩
  · simp [hqy, hz, htwo]
  · simp only [cast_sub (mod_lt _).le, cast_mod, Nat.cast_mul, Nat.cast_ofNat, h.x_eq, h.y_eq,
      addX_eq, slope_self hy]
    field_simp
    ring
  · simp only [cast_sub (mod_lt _).le, cast_sub (sub_lt ..).le, cast_mod, Nat.cast_mul,
      Nat.cast_ofNat, h.x_eq, h.y_eq, addY_eq, addX_eq, slope_self hy]
    field_simp
    ring

/-- Doubling a triple doubles its point. -/
lemma Denotes.double (h : q.Denotes P) : q.double.Denotes (P + P) := by
  cases h with
  | infinity hz =>
    rw [Weighted.double, if_pos (.inl hz), add_zero]
    exact denotes_infinity
  | @finite x y h hq =>
    by_cases hy : y = 0
    -- a point whose ordinate is zero is its own negative
    · rw [Weighted.double, if_pos (.inr (hq.y_eq_zero_iff.mpr hy)),
        WeierstrassCurve.Affine.Point.add_self_of_Y_eq (by rw [negY_eq, hy, neg_zero])]
      exact denotes_infinity
    · rw [WeierstrassCurve.Affine.Point.add_self_of_Y_ne (ne_negY hy)]
      exact .finite _ (hq.double hy)

/-! ## Adding -/

/-- The difference of the abscissas, over a common weight. -/
def xGap (q r : Weighted) : ℕ := sub (r.x * (q.z * q.z % p) % p) (q.x * (r.z * r.z % p) % p)

/-- The difference of the ordinates, over a common weight. -/
def yGap (q r : Weighted) : ℕ :=
  sub (r.y * (q.z * q.z % p * q.z % p) % p) (q.y * (r.z * r.z % p * r.z % p) % p)

lemma At.cast_xGap (hq : q.At x₁ y₁) (hr : r.At x₂ y₂) :
    (q.xGap r : ZMod p) = (x₂ - x₁) * (q.z * r.z) ^ 2 := by
  simp only [xGap, cast_sub (mod_lt _).le, cast_mod, Nat.cast_mul, hq.x_eq, hr.x_eq]
  ring

lemma At.cast_yGap (hq : q.At x₁ y₁) (hr : r.At x₂ y₂) :
    (q.yGap r : ZMod p) = (y₂ - y₁) * (q.z * r.z) ^ 3 := by
  simp only [yGap, cast_sub (mod_lt _).le, cast_mod, Nat.cast_mul, hq.y_eq, hr.y_eq]
  ring

lemma At.xGap_eq_zero_iff (hq : q.At x₁ y₁) (hr : r.At x₂ y₂) : q.xGap r = 0 ↔ x₁ = x₂ := by
  have hlt : q.xGap r < p := sub_lt ..
  rw [← cast_eq_zero_iff hlt, hq.cast_xGap hr, mul_eq_zero,
    or_iff_left (pow_ne_zero 2 (mul_ne_zero hq.z_ne hr.z_ne)), sub_eq_zero, eq_comm]

lemma At.yGap_eq_zero_iff (hq : q.At x₁ y₁) (hr : r.At x₂ y₂) : q.yGap r = 0 ↔ y₁ = y₂ := by
  have hlt : q.yGap r < p := sub_lt ..
  rw [← cast_eq_zero_iff hlt, hq.cast_yGap hr, mul_eq_zero,
    or_iff_left (pow_ne_zero 3 (mul_ne_zero hq.z_ne hr.z_ne)), sub_eq_zero, eq_comm]

/-- The sum of two points is found by the differences of their coordinates. -/
lemma add_eq (hq : q.z ≠ 0) (hr : r.z ≠ 0) :
    q.add r =
      if q.xGap r = 0 then if q.yGap r = 0 then q.double else infinity
      else
        let hh := q.xGap r * q.xGap r % p
        let hhh := hh * q.xGap r % p
        let v := q.x * (r.z * r.z % p) % p * hh % p
        let x := sub (sub (q.yGap r * q.yGap r) hhh) (2 * v % p)
        ⟨x, sub (q.yGap r * sub v x) (q.y * (r.z * r.z % p * r.z % p) % p * hhh % p),
          q.z * r.z % p * q.xGap r % p⟩ := by
  rw [Weighted.add, if_neg hq, if_neg hr]
  rfl

/-- The chord meets the curve in the mirror image of the sum. -/
lemma At.add (hq : q.At x₁ y₁) (hr : r.At x₂ y₂) (hne : x₁ ≠ x₂) :
    (q.add r).At (curve.addX x₁ x₂ (curve.slope x₁ x₂ y₁ y₂))
      (curve.addY x₁ x₂ y₁ (curve.slope x₁ x₂ y₁ y₂)) := by
  have hleft : x₁ - x₂ ≠ 0 := sub_ne_zero.mpr hne
  have hright : x₂ - x₁ ≠ 0 := sub_ne_zero.mpr hne.symm
  have hqz := hq.z_ne
  have hrz := hr.z_ne
  rw [add_eq hq.z_pos hr.z_pos, if_neg ((hq.xGap_eq_zero_iff hr).not.mpr hne)]
  refine ⟨sub_lt .., mod_lt _, ?_, ?_, ?_⟩
  · simp [hq.cast_xGap hr, hqz, hrz, hright]
  · simp only [cast_sub (mod_lt _).le, cast_mod, Nat.cast_mul, Nat.cast_ofNat, hq.x_eq,
      hq.cast_xGap hr, hq.cast_yGap hr, addX_eq, slope_of_ne hne]
    field_simp
    ring
  · simp only [cast_sub (mod_lt _).le, cast_sub (sub_lt ..).le, cast_mod, Nat.cast_mul,
      Nat.cast_ofNat, hq.x_eq, hq.y_eq, hq.cast_xGap hr, hq.cast_yGap hr, addY_eq, addX_eq,
      slope_of_ne hne]
    field_simp
    ring

/-- Adding triples adds their points. -/
lemma Denotes.add (hq : q.Denotes P) (hr : r.Denotes Q) : (q.add r).Denotes (P + Q) := by
  cases hq with
  | infinity hz => rwa [Weighted.add, if_pos hz, zero_add]
  | @finite x₁ y₁ h₁ hq =>
    cases hr with
    | infinity hz =>
      rw [Weighted.add, if_neg hq.z_pos, if_pos hz, add_zero]
      exact .finite h₁ hq
    | @finite x₂ y₂ h₂ hr =>
      by_cases hx : x₁ = x₂
      · rw [add_eq hq.z_pos hr.z_pos, if_pos ((hq.xGap_eq_zero_iff hr).mpr hx)]
        subst hx
        by_cases hy : y₁ = y₂
        · rw [if_pos ((hq.yGap_eq_zero_iff hr).mpr hy)]
          subst hy
          exact Denotes.double (.finite h₁ hq)
        · rw [if_neg ((hq.yGap_eq_zero_iff hr).not.mpr hy),
            WeierstrassCurve.Affine.Point.add_of_Y_eq rfl
              ((eq_neg_of_ne h₁ h₂ hy).trans (negY_eq ..).symm)]
          exact denotes_infinity
      · rw [WeierstrassCurve.Affine.Point.add_of_X_ne hx]
        exact .finite _ (hq.add hr hx)

/-! ## Combining -/

/-- Doubling and adding along the bits of two numbers gives the combination of two points. -/
lemma Denotes.combine {a b : ℕ} (hq : q.Denotes P) (hr : r.Denotes Q) (ha : a < 2 ^ 256)
    (hb : b < 2 ^ 256) : (combine a q b r).Denotes (a • P + b • Q) := by
  refine foldl_zip_bits (fun a b (acc : Weighted) => acc.Denotes (a • P + b • Q)) ?_ ?_ ha hb
  · rw [zero_nsmul, zero_nsmul, add_zero]
    exact denotes_infinity
  · intro a b acc bits hacc
    have hsum : (2 * a + bits.1.toNat) • P + (2 * b + bits.2.toNat) • Q =
        (a • P + b • Q) + (a • P + b • Q) + (bits.1.toNat • P + bits.2.toNat • Q) := by
      simp only [two_mul, add_nsmul]
      abel
    rw [hsum]
    obtain ⟨_ | _, _ | _⟩ := bits
    · simpa using hacc.double
    · simpa using hacc.double.add hr
    · simpa using hacc.double.add hq
    · simpa using hacc.double.add (hq.add hr)

end Weighted

/-! ## Coordinates -/

/-- The coordinates of a point, unless it is at infinity. -/
def coordinates : Group → Option Point
  | .zero => none
  | .some x y _ => some ⟨x.val, y.val⟩

@[simp] lemma coordinates_eq_none_iff {P : Group} : coordinates P = none ↔ P = 0 := by
  cases P with
  | zero => exact iff_of_true rfl rfl
  | some x y h =>
    exact iff_of_false (fun hnone => Option.some_ne_none _ hnone)
      (WeierstrassCurve.Affine.Point.some_ne_zero h)

lemma eq_val_of_cast_eq {a : ℕ} {x : ZMod p} (hlt : a < p) (h : (a : ZMod p) = x) : a = x.val := by
  rw [← h, ZMod.val_natCast_of_lt hlt]

lemma Weighted.Denotes.toPoint?_eq {q : Weighted} {P : Group} (h : q.Denotes P) :
    q.toPoint? = coordinates P := by
  cases h with
  | infinity hz =>
    rw [toPoint?, if_pos hz]
    rfl
  | @finite x y h hq =>
    have hz := hq.z_ne
    have hinv : (invMod q.z p : ZMod p) = (q.z : ZMod p)⁻¹ :=
      cast_invMod (by decide) (by decide) q.z
    rw [toPoint?, if_neg hq.z_pos, coordinates]
    refine congrArg some (congrArg₂ Point.mk (eq_val_of_cast_eq (mod_lt _) ?_)
      (eq_val_of_cast_eq (mod_lt _) ?_))
    · simp only [cast_mod, Nat.cast_mul, hinv, hq.x_eq]
      field_simp
    · simp only [cast_mod, Nat.cast_mul, hinv, hq.y_eq]
      field_simp

end Secp256k1
end SignedFeeds
