/-
# The curve secp256k1

The points of `y² = x³ + 7` over the integers modulo a prime `p`, which form a group of
prime order `n`.  Numbers modulo `p` are natural numbers below `p`.  Group operations work on
triples `(x, y, z)` that stand for the point `(x / z², y / z³)`, because they need no
division there; `z = 0` is the point at infinity.
-/

namespace SignedFeeds
namespace Secp256k1

/-- The prime of the coordinate field, `2 ^ 256 - 2 ^ 32 - 977`. -/
def p : Nat := 0xfffffffffffffffffffffffffffffffffffffffffffffffffffffffefffffc2f

/-- The order of the group. -/
def n : Nat := 0xfffffffffffffffffffffffffffffffebaaedce6af48a03bbfd25e8cd0364141

/-- The `width` low bits of a number, most significant first. -/
def bits (width k : Nat) : List Bool :=
  (List.range width).foldl (fun rest i => k.testBit i :: rest) []

/-- `b ^ e` modulo `m`, for an exponent below `2 ^ 256`. -/
def powMod (b e m : Nat) : Nat :=
  (bits 256 e).foldl (fun acc bit => if bit then acc * acc % m * b % m else acc * acc % m) 1

/-- The inverse of a number modulo a prime `m`, by Fermat's theorem. -/
def invMod (a m : Nat) : Nat := powMod a (m - 2) m

/-- A point with coordinates, so not the one at infinity. -/
structure Point where
  /-- The abscissa, below `p`. -/
  x : Nat
  /-- The ordinate, below `p`. -/
  y : Nat
deriving DecidableEq, Repr

/-- The point from which all others are reached. -/
def generator : Point where
  x := 0x79be667ef9dcbbac55a06295ce870b07029bfcdb2dce28d959f2815b16f81798
  y := 0x483ada7726a3c4655da4fbfc0e1108a8fd17b448a68554199c47d08ffb10d4b8

/-- The point with abscissa `x` whose ordinate is odd or even as asked, if there is one.
As `p` is 3 modulo 4, the power `(p + 1) / 4` of a square is a root of it. -/
def Point.lift? (x : Nat) (odd : Bool) : Option Point :=
  let square := (x * x % p * x + 7) % p
  let root := powMod square ((p + 1) / 4) p
  if root * root % p = square then
    some ⟨x, if (root % 2 == 1) = odd then root else (p - root) % p⟩
  else none

/-- A point, possibly at infinity, in a form without division. -/
structure Weighted where
  /-- The abscissa times `z²`. -/
  x : Nat
  /-- The ordinate times `z³`. -/
  y : Nat
  /-- The weight, zero at infinity. -/
  z : Nat
deriving DecidableEq, Repr

/-- `a - b` modulo `p`, for `b` below `p`. -/
def sub (a b : Nat) : Nat := (a + (p - b)) % p

namespace Weighted

/-- The neutral element. -/
def infinity : Weighted := ⟨1, 1, 0⟩

/-- A point with weight 1. -/
def ofPoint (q : Point) : Weighted := ⟨q.x, q.y, 1⟩

/-- The coordinates, unless the point is at infinity. -/
def toPoint? (q : Weighted) : Option Point :=
  if q.z = 0 then none
  else
    let inv := invMod q.z p
    let inv2 := inv * inv % p
    some ⟨q.x * inv2 % p, q.y * (inv2 * inv % p) % p⟩

/-- The point added to itself. -/
def double (q : Weighted) : Weighted :=
  if q.z = 0 ∨ q.y = 0 then infinity
  else
    let yy := q.y * q.y % p
    let s := 4 * (q.x * yy) % p
    let m := 3 * (q.x * q.x) % p
    let x := sub (m * m) (2 * s % p)
    ⟨x, sub (m * sub s x) (8 * (yy * yy) % p), 2 * (q.y * q.z) % p⟩

/-- The sum of two points. -/
def add (q r : Weighted) : Weighted :=
  if q.z = 0 then r
  else if r.z = 0 then q
  else
    let qzz := q.z * q.z % p
    let rzz := r.z * r.z % p
    let u := q.x * rzz % p
    let s := q.y * (rzz * r.z % p) % p
    let h := sub (r.x * qzz % p) u
    let k := sub (r.y * (qzz * q.z % p) % p) s
    -- one abscissa: the points are equal or opposite
    if h = 0 then if k = 0 then double q else infinity
    else
      let hh := h * h % p
      let hhh := hh * h % p
      let v := u * hh % p
      let x := sub (sub (k * k) hhh) (2 * v % p)
      ⟨x, sub (k * sub v x) (s * hhh % p), q.z * r.z % p * h % p⟩

/-- `a q + b r`, by doubling and adding along the bits of both factors at once. -/
def combine (a : Nat) (q : Weighted) (b : Nat) (r : Weighted) : Weighted :=
  let both := q.add r
  ((bits 256 a).zip (bits 256 b)).foldl
    (fun acc pair =>
      match pair with
      | (false, false) => acc.double
      | (true, false) => acc.double.add q
      | (false, true) => acc.double.add r
      | (true, true) => acc.double.add both)
    infinity

end Weighted

/-- The multiple `k G` of the generator, unless it is at infinity. -/
def multiple? (k : Nat) : Option Point :=
  (Weighted.combine k (.ofPoint generator) 0 .infinity).toPoint?

/-- The sum `a G + b q`, unless it is at infinity. -/
def combination? (a b : Nat) (q : Point) : Option Point :=
  (Weighted.combine a (.ofPoint generator) b (.ofPoint q)).toPoint?

end Secp256k1
end SignedFeeds
