/-
# Recovering the key of a signature

A signature of a hash `z` under a secret `d` is made from a multiple `R = k G` of the generator: `r`
is the abscissa of `R` and `s k = z + r d` modulo `n`.  Of `(r, s)` and `(r, n - s)` the one with the
smaller second half is given out, which is made from `- R` in the same way.  So every signature
describes a multiple `k G` (`Signs`), and its parity tells which of the two points with abscissa `r`
this is.  The point is found again by a square root, and `(s k - z) / r` is the secret.
-/
import SignedFeeds.Proofs.Secp256k1.Order
import SignedFeeds.Secp256k1.Ecdsa

namespace SignedFeeds
namespace Secp256k1

variable {P : Group} {x y : ZMod p} {odd : Bool} {point : Point}

/-! ## The point of an abscissa and a parity -/

/-- A point or its negative, whichever has an ordinate of the parity. -/
def Group.withParity (odd : Bool) : Group → Group
  | .zero => 0
  | .some x y h => if (y.val % 2 == 1) = odd then .some x y h else -.some x y h

lemma p_odd : p % 2 = 1 := by decide

/-- A number modulo an odd prime and its negative have opposite parities. -/
lemma parity_neg (hy : y ≠ 0) : ((-y).val % 2 == 1) = !(y.val % 2 == 1) := by
  have hodd := p_odd
  have hlt := y.val_lt
  have : NeZero y := ⟨hy⟩
  rw [ZMod.val_neg_of_ne_zero]
  rcases Nat.mod_two_eq_zero_or_one y.val with h | h
  · simp [h, show (p - y.val) % 2 = 1 by omega]
  · simp [h, show (p - y.val) % 2 = 0 by omega]

/-- A point and its negative have the same pair of signs. -/
lemma Group.withParity_neg (P : Group) : (-P).withParity odd = P.withParity odd := by
  cases P with
  | zero => rfl
  | some x y h =>
    rw [neg_some, withParity, withParity]
    by_cases hy : y = 0
    · simp [hy]
    · rw [parity_neg hy, ← neg_some h, neg_neg]
      generalize (y.val % 2 == 1) = parity
      cases odd <;> cases parity <;> simp

/-- The power `(p + 1) / 4` of a square is a root of it, as `p` is 3 modulo 4. -/
lemma root_sq {square : ℕ} (h : (square : ZMod p) = y ^ 2) :
    (powMod square ((p + 1) / 4) p : ZMod p) ^ 2 = y ^ 2 := by
  have hquarter : 2 * ((p + 1) / 4 * 2) = p + 1 := by decide
  rw [cast_powMod (by decide), h, ← pow_mul, ← pow_mul, hquarter, pow_succ, ZMod.pow_card, sq]

lemma cast_square (h : curve.Nonsingular x y) :
    (((x.val * x.val % p * x.val + 7) % p : ℕ) : ZMod p) = y ^ 2 := by
  rw [nonsingular_iff.mp h, cast_mod, Nat.cast_add, Nat.cast_mul, cast_mod, Nat.cast_mul,
    ZMod.natCast_zmod_val, Nat.cast_ofNat]
  ring

/-- The ordinates that are looked for are a root and its negative. -/
lemma exists_root (h : curve.Nonsingular x y) :
    ∃ root < p, (root : ZMod p) ^ 2 = y ^ 2 ∧ ∀ odd, Point.lift? x.val odd =
      some ⟨x.val, if (root % 2 == 1) = odd then root else (p - root) % p⟩ := by
  have hsquare := cast_square h
  have hroot := root_sq hsquare
  refine ⟨_, powMod_lt prime_p.pos, hroot, fun odd => if_pos ?_⟩
  refine (eq_val_of_cast_eq (mod_lt _) ?_).trans (ZMod.val_natCast_of_lt (mod_lt _))
  rw [cast_mod, Nat.cast_mul, ← sq, hroot, hsquare]

/-- The point with an abscissa and a parity is found by a square root. -/
lemma lift?_eq (h : coordinates P = some point) :
    Point.lift? point.x odd = coordinates (P.withParity odd) := by
  cases P with
  | zero => cases h
  | some x y hxy =>
    obtain rfl := Option.some.inj h
    obtain ⟨root, hlt, hsq, hlift⟩ := exists_root hxy
    have hchoose (w : ZMod p) (hw : curve.Nonsingular x w) (hroot : (root : ZMod p) = w) :
        Point.lift? x.val odd = coordinates (Group.withParity odd (.some x w hw)) := by
      rw [hlift, eq_val_of_cast_eq hlt hroot, Group.withParity]
      split_ifs
      · rfl
      · rw [neg_some, coordinates, ZMod.neg_val']
    -- the root is the ordinate of the point or of its negative
    rcases sq_eq_sq_iff_eq_or_eq_neg.mp hsq with hy | hy
    · exact hchoose y hxy hy
    · rw [hchoose (-y) (nonsingular_neg hxy) hy, ← neg_some, Group.withParity_neg]

lemma Group.withParity_of_coordinates (h : coordinates P = some point) :
    P.withParity odd = if (point.y % 2 == 1) = odd then P else -P := by
  cases P with
  | zero => cases h
  | some x y hxy =>
    obtain rfl := Option.some.inj h
    rfl

/-! ## Signing -/

variable {secret k : ℕ} {hash : Digest} {m : Recoverable}

/-- The second half of a signature, before it is brought into low form. -/
def secondHalf (secret : ℕ) (hash : Digest) (k r : ℕ) : ℕ :=
  invMod k n * ((BigEndian.toNat hash.bytes % n + r * secret) % n) % n

/-- What a signature is: of the numbers `(r, s)` and `(r, n - s)`, with the parity that belongs to
them, the one with the smaller second half. -/
lemma signWith?_eq_some (h : signWith? secret hash k = some m) :
    ∃ point, multiple? k = some point ∧ m.r = point.x % n ∧ 0 < m.r ∧
      0 < secondHalf secret hash k m.r ∧ ∃ parity,
        m.id = (if n ≤ point.x then 2 else 0) + parity ∧
        (n / 2 < secondHalf secret hash k m.r ∧ m.s = n - secondHalf secret hash k m.r ∧
            parity = 1 - point.y % 2 ∨
          secondHalf secret hash k m.r ≤ n / 2 ∧ m.s = secondHalf secret hash k m.r ∧
            parity = point.y % 2) := by
  rw [signWith?] at h
  cases hpoint : multiple? k with
  | none =>
    rw [hpoint] at h
    cases h
  | some point =>
    simp only [hpoint] at h
    rw [← secondHalf] at h
    by_cases hzero : point.x % n = 0 ∨ secondHalf secret hash k (point.x % n) = 0
    · rw [if_pos hzero] at h
      cases h
    · rw [if_neg hzero] at h
      obtain ⟨hr, hs⟩ := not_or.mp hzero
      refine ⟨point, rfl, ?_⟩
      by_cases hhigh : n / 2 < secondHalf secret hash k (point.x % n)
      · rw [if_pos hhigh] at h
        obtain rfl := Option.some.inj h
        exact ⟨rfl, Nat.pos_of_ne_zero hr, Nat.pos_of_ne_zero hs, _, rfl, .inl ⟨hhigh, rfl, rfl⟩⟩
      · rw [if_neg hhigh] at h
        obtain rfl := Option.some.inj h
        exact ⟨rfl, Nat.pos_of_ne_zero hr, Nat.pos_of_ne_zero hs, _, rfl,
          .inr ⟨Nat.not_lt.mp hhigh, rfl, rfl⟩⟩

lemma cast_ne_zero (hpos : 0 < k) (hlt : k < n) : (k : ZMod n) ≠ 0 := by
  rw [Ne, ZMod.natCast_eq_zero_iff]
  exact Nat.not_dvd_of_pos_of_lt hpos hlt

lemma cast_invMod_n (k : ℕ) : ((invMod k n : ℕ) : ZMod n) = (k : ZMod n)⁻¹ :=
  cast_invMod (by decide) (by decide) k

lemma secondHalf_lt (secret : ℕ) (hash : Digest) (k r : ℕ) : secondHalf secret hash k r < n :=
  Nat.mod_lt _ (by decide)

/-- The equation of a signature. -/
lemma secondHalf_mul (secret : ℕ) (hash : Digest) (r : ℕ) (hpos : 0 < k) (hlt : k < n) :
    (secondHalf secret hash k r : ZMod n) * k = BigEndian.toNat hash.bytes + r * secret := by
  have hk := cast_ne_zero hpos hlt
  rw [secondHalf, ZMod.natCast_mod, Nat.cast_mul, cast_invMod_n, ZMod.natCast_mod, Nat.cast_add,
    ZMod.natCast_mod, Nat.cast_mul]
  field_simp

/-- The signature is made from the multiple `k` of the generator, in low form. -/
structure Signs (secret : ℕ) (hash : Digest) (k : ℕ) (m : Recoverable) : Prop where
  k_pos : 0 < k
  k_lt : k < n
  r_inRange : inRange m.r
  s_inRange : inRange m.s
  s_le : m.s ≤ n / 2
  equation : (m.s : ZMod n) * k = BigEndian.toNat hash.bytes + m.r * secret
  lift?_eq : m.id ≤ 1 → Point.lift? m.r (m.id == 1) = coordinates (k • base)

lemma sub_nsmul_base (h : k ≤ n) : (n - k) • base = -(k • base) := by
  rw [eq_neg_iff_add_eq_zero, ← add_nsmul, Nat.sub_add_cancel h, n_nsmul_base]

lemma exists_signs (hpos : 0 < k) (hlt : k < n) (h : signWith? secret hash k = some m) :
    ∃ k, Signs secret hash k m := by
  obtain ⟨point, hpoint, hr, hrpos, hspos, parity, hid, hcases⟩ := signWith?_eq_some h
  rw [multiple?_eq (hlt.trans (by decide))] at hpoint
  have hrange : inRange m.r := inRange_iff.mpr ⟨hrpos, hr ▸ Nat.mod_lt _ (by decide)⟩
  have hslt := secondHalf_lt secret hash k m.r
  have hequation := secondHalf_mul secret hash m.r hpos hlt
  -- a recovery number that is a parity belongs to an abscissa below `n`
  have hlift (hsmall : m.id ≤ 1) : Point.lift? m.r (m.id == 1) =
      coordinates (if (point.y % 2 == 1) = (parity == 1) then k • base else -(k • base)) := by
    have hbelow : ¬ n ≤ point.x := fun hle => by
      rw [hid, if_pos hle] at hsmall
      omega
    rw [hid, if_neg hbelow, Nat.zero_add, hr, Nat.mod_eq_of_lt (Nat.not_le.mp hbelow),
      lift?_eq hpoint, Group.withParity_of_coordinates hpoint]
  rcases hcases with ⟨hhigh, hs, rfl⟩ | ⟨hlow, hs, rfl⟩
  -- the negative of the point has the other parity
  · refine ⟨n - k, by omega, by omega, hrange, inRange_iff.mpr (by omega), by omega, ?_,
      fun hsmall => ?_⟩
    · rw [hs, Nat.cast_sub hslt.le, Nat.cast_sub hlt.le, ZMod.natCast_self]
      linear_combination hequation
    · have hother : ¬ (point.y % 2 == 1) = (1 - point.y % 2 == 1) := by
        rcases Nat.mod_two_eq_zero_or_one point.y with hy | hy <;> simp [hy]
      rw [hlift hsmall, if_neg hother, sub_nsmul_base hlt.le]
  · refine ⟨k, hpos, hlt, hrange, inRange_iff.mpr (by omega), by omega, ?_, fun hsmall => ?_⟩
    · rw [hs, hequation]
    · rw [hlift hsmall, if_pos rfl]

/-! ## Recovering -/

/-- The key of a signature is found from the point that the signature was made from. -/
lemma Signs.recover?_eq (h : Signs secret hash k m) (hid : m.id ≤ 1) (hsecret : secret < n) :
    recover? hash m.r m.s (m.id == 1) = multiple? secret := by
  obtain ⟨point, hpoint⟩ := exists_multiple? h.k_pos h.k_lt
  rw [multiple?_eq (h.k_lt.trans (by decide))] at hpoint
  obtain ⟨hrpos, hrlt⟩ := inRange_iff.mp h.r_inRange
  have hr := cast_ne_zero hrpos hrlt
  have hbound (a : ℕ) : a % n < 2 ^ 256 := (Nat.mod_lt a (by decide)).trans (by decide)
  simp only [recover?, h.lift?_eq hid, hpoint]
  rw [combination?_eq hpoint (hbound _) (hbound _), multiple?_eq (hsecret.trans (by decide)),
    ← mul_nsmul', ← add_nsmul]
  refine congrArg coordinates (nsmul_base_eq_of_cast_eq ?_)
  -- `(s k - z) / r` is the secret
  have hle : invMod m.r n * (BigEndian.toNat hash.bytes % n) % n ≤ n :=
    (Nat.mod_lt _ (by decide)).le
  rw [Nat.cast_add, ZMod.natCast_mod, Nat.cast_sub hle, ZMod.natCast_self, ZMod.natCast_mod,
    Nat.cast_mul, Nat.cast_mul, ZMod.natCast_mod, ZMod.natCast_mod, Nat.cast_mul, cast_invMod_n]
  field_simp
  linear_combination h.equation

/-- Every draw lies between 1 and `n - 1`. -/
lemma NonceState.range_of_draw? {tries : ℕ} {state : NonceState}
    (h : state.draw? tries = some k) : 0 < k ∧ k < n := by
  induction tries generalizing state with
  | zero => cases h
  | succ tries ih =>
    rw [draw?] at h
    split_ifs at h with hrange
    · obtain rfl := Option.some.inj h
      exact hrange
    · exact ih h

lemma exists_signs_of_sign? (h : sign? secret hash = some m) : ∃ k, Signs secret hash k m := by
  obtain ⟨k, hk, h⟩ := Option.bind_eq_some_iff.mp h
  obtain ⟨hpos, hlt⟩ := NonceState.range_of_draw? hk
  exact exists_signs hpos hlt h

end Secp256k1
end SignedFeeds
