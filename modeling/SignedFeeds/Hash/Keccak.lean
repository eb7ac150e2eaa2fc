/-
# Keccak-256

The sponge over the 1600-bit permutation with a rate of 136 bytes.  Its padding writes the
byte 1 behind the message and sets the last bit of the rate.  The state is a five by five
square of 64-bit lanes; `Row` is one horizontal line of it and `State` the five lines from
the bottom up.

The message enters the state lane by lane, eight bytes in little-endian order, and the state
is permuted each time the seventeen lanes of the rate are filled.
-/
import SignedFeeds.Bytes.Block

namespace SignedFeeds

/-- A 32-byte hash. -/
@[ext] structure Digest extends Block 32
deriving DecidableEq, Repr

/-- The first four bytes, marked as a hash. -/
def Digest.brief (d : Digest) : String := "Keccak256(" ++ Hex.encode (d.bytes.take 4) ++ "...)"

namespace Keccak

/-- Five lanes with the same vertical coordinate. -/
structure Row where
  /-- The lane at horizontal coordinate 0. -/
  x0 : UInt64
  /-- The lane at horizontal coordinate 1. -/
  x1 : UInt64
  /-- The lane at horizontal coordinate 2. -/
  x2 : UInt64
  /-- The lane at horizontal coordinate 3. -/
  x3 : UInt64
  /-- The lane at horizontal coordinate 4. -/
  x4 : UInt64
deriving DecidableEq, Repr

namespace Row

/-- Five zero lanes. -/
def zero : Row := ⟨0, 0, 0, 0, 0⟩

/-- The lanes of two rows combined in pairs. -/
@[inline] def zipWith (f : UInt64 → UInt64 → UInt64) (a b : Row) : Row :=
  ⟨f a.x0 b.x0, f a.x1 b.x1, f a.x2 b.x2, f a.x3 b.x3, f a.x4 b.x4⟩

/-- Exclusive or, lane by lane. -/
@[inline] def xor (a b : Row) : Row := zipWith (· ^^^ ·) a b

/-- Exclusive or of a word into the lane at coordinate `x`. -/
def xorAt (r : Row) (x : Nat) (w : UInt64) : Row :=
  match x with
  | 0 => { r with x0 := r.x0 ^^^ w }
  | 1 => { r with x1 := r.x1 ^^^ w }
  | 2 => { r with x2 := r.x2 ^^^ w }
  | 3 => { r with x3 := r.x3 ^^^ w }
  | _ => { r with x4 := r.x4 ^^^ w }

end Row

/-- The five rows of the square. -/
structure State where
  /-- The row at vertical coordinate 0. -/
  y0 : Row
  /-- The row at vertical coordinate 1. -/
  y1 : Row
  /-- The row at vertical coordinate 2. -/
  y2 : Row
  /-- The row at vertical coordinate 3. -/
  y3 : Row
  /-- The row at vertical coordinate 4. -/
  y4 : Row
deriving DecidableEq, Repr

namespace State

/-- The state before any message. -/
def zero : State := ⟨.zero, .zero, .zero, .zero, .zero⟩

/-- Exclusive or of a word into the lane at place `5 y + x`. -/
def xorAt (s : State) (place : Nat) (w : UInt64) : State :=
  match place / 5 with
  | 0 => { s with y0 := s.y0.xorAt (place % 5) w }
  | 1 => { s with y1 := s.y1.xorAt (place % 5) w }
  | 2 => { s with y2 := s.y2.xorAt (place % 5) w }
  | 3 => { s with y3 := s.y3.xorAt (place % 5) w }
  | _ => { s with y4 := s.y4.xorAt (place % 5) w }

end State

/-! ## The permutation -/

/-- A lane rotated to the left by `k` bits. -/
@[inline] def rotl (w k : UInt64) : UInt64 := (w <<< k) ||| (w >>> (64 - k))

/-- Each lane is added to the parities of two neighbouring columns. -/
@[inline] def theta (s : State) : State :=
  let c := s.y0.xor (s.y1.xor (s.y2.xor (s.y3.xor s.y4)))
  let d : Row :=
    ⟨c.x4 ^^^ rotl c.x1 1, c.x0 ^^^ rotl c.x2 1, c.x1 ^^^ rotl c.x3 1, c.x2 ^^^ rotl c.x4 1,
      c.x3 ^^^ rotl c.x0 1⟩
  ⟨s.y0.xor d, s.y1.xor d, s.y2.xor d, s.y3.xor d, s.y4.xor d⟩

/-- Each lane is rotated by the amount that belongs to its place. -/
@[inline] def rho (s : State) : State :=
  ⟨s.y0.zipWith rotl ⟨0, 1, 62, 28, 27⟩, s.y1.zipWith rotl ⟨36, 44, 6, 55, 20⟩,
    s.y2.zipWith rotl ⟨3, 10, 43, 25, 39⟩, s.y3.zipWith rotl ⟨41, 45, 15, 21, 8⟩,
    s.y4.zipWith rotl ⟨18, 2, 61, 56, 14⟩⟩

/-- The lane at `(x, y)` moves to `(y, 2 x + 3 y)`. -/
@[inline] def pi (s : State) : State :=
  ⟨⟨s.y0.x0, s.y1.x1, s.y2.x2, s.y3.x3, s.y4.x4⟩,
    ⟨s.y0.x3, s.y1.x4, s.y2.x0, s.y3.x1, s.y4.x2⟩,
    ⟨s.y0.x1, s.y1.x2, s.y2.x3, s.y3.x4, s.y4.x0⟩,
    ⟨s.y0.x4, s.y1.x0, s.y2.x1, s.y3.x2, s.y4.x3⟩,
    ⟨s.y0.x2, s.y1.x3, s.y2.x4, s.y3.x0, s.y4.x1⟩⟩

/-- The nonlinear step on one row. -/
@[inline] def chiRow (r : Row) : Row :=
  ⟨r.x0 ^^^ (~~~r.x1 &&& r.x2), r.x1 ^^^ (~~~r.x2 &&& r.x3), r.x2 ^^^ (~~~r.x3 &&& r.x4),
    r.x3 ^^^ (~~~r.x4 &&& r.x0), r.x4 ^^^ (~~~r.x0 &&& r.x1)⟩

/-- The nonlinear step on every row. -/
@[inline] def chi (s : State) : State :=
  ⟨chiRow s.y0, chiRow s.y1, chiRow s.y2, chiRow s.y3, chiRow s.y4⟩

/-- A round constant is added to the first lane. -/
@[inline] def iota (s : State) (constant : UInt64) : State :=
  { s with y0 := { s.y0 with x0 := s.y0.x0 ^^^ constant } }

/-- One round of the permutation. -/
def round (s : State) (constant : UInt64) : State := iota (chi (pi (rho (theta s)))) constant

/-- The constants of the twenty-four rounds. -/
def roundConstants : List UInt64 :=
  [0x0000000000000001, 0x0000000000008082, 0x800000000000808a, 0x8000000080008000,
    0x000000000000808b, 0x0000000080000001, 0x8000000080008081, 0x8000000000008009,
    0x000000000000008a, 0x0000000000000088, 0x0000000080008009, 0x000000008000000a,
    0x000000008000808b, 0x800000000000008b, 0x8000000000008089, 0x8000000000008003,
    0x8000000000008002, 0x8000000000000080, 0x000000000000800a, 0x800000008000000a,
    0x8000000080008081, 0x8000000000008080, 0x0000000080000001, 0x8000000080008008]

/-- Twenty-four rounds. -/
def permute (s : State) : State := roundConstants.foldl round s

/-! ## The sponge -/

/-- A state that is being filled: the next message lane goes to place `next`. -/
structure Sponge where
  /-- The lanes. -/
  state : State
  /-- The place of the next lane of the message, below 17. -/
  next : Nat

/-- Takes in one lane of the message. -/
def Sponge.take (sponge : Sponge) (w : UInt64) : Sponge :=
  let state := sponge.state.xorAt sponge.next w
  if sponge.next = 16 then ⟨permute state, 0⟩ else ⟨state, sponge.next + 1⟩

/-- The lane spelled by at most eight bytes, least significant first. -/
def lane (bs : List UInt8) : UInt64 := bs.foldr (fun b w => (w <<< 8) ||| b.toUInt64) 0

/-- The eight bytes of a lane, least significant first. -/
def laneBytes (w : UInt64) : List UInt8 :=
  [w.toUInt8, (w >>> 8).toUInt8, (w >>> 16).toUInt8, (w >>> 24).toUInt8,
    (w >>> 32).toUInt8, (w >>> 40).toUInt8, (w >>> 48).toUInt8, (w >>> 56).toUInt8]

/-- Takes in the message and its padding and returns the final state. -/
def absorb (sponge : Sponge) : (message : List UInt8) → State
  | b0 :: b1 :: b2 :: b3 :: b4 :: b5 :: b6 :: b7 :: rest =>
    absorb (sponge.take (lane [b0, b1, b2, b3, b4, b5, b6, b7])) rest
  | last =>
    -- at most seven bytes are left, so the 1 behind them stands in the same lane
    let state := sponge.state.xorAt sponge.next (lane (last ++ [1]))
    permute (state.xorAt 16 0x8000000000000000)

/-- The Keccak-256 hash of a message. -/
def hash (message : List UInt8) : Digest :=
  let out := (absorb ⟨.zero, 0⟩ message).y0
  ⟨laneBytes out.x0 ++ (laneBytes out.x1 ++ (laneBytes out.x2 ++ laneBytes out.x3)), rfl⟩

end Keccak
end SignedFeeds
