/-
# Recoverable ECDSA over secp256k1

A signature of a hash `z` under a secret `d` is a pair `(r, s)` with `r` the abscissa of
`k G` modulo `n` and `s = (z + r d) / k`.  The parity of the ordinate of `k G`, kept beside
the pair, lets the public key be computed from the signature: it is
`(s R - z G) / r` for the point `R` with abscissa `r` and that parity.

The nonce `k` is drawn from the secret and the hash alone, by the generator of RFC 6979.
Of the two signatures `(r, s)` and `(r, n - s)` the one with the smaller `s` is given out;
changing between them replaces `R` by `-R`, so the parity changes as well.
-/
import SignedFeeds.Hash.Keccak
import SignedFeeds.Hash.Sha256
import SignedFeeds.Secp256k1.Curve

namespace SignedFeeds
namespace Secp256k1

/-! ## The nonce -/

/-- The state of the nonce generator. -/
structure NonceState where
  /-- The key of the keyed hash. -/
  key : List UInt8
  /-- The value that is hashed again and again. -/
  value : List UInt8

namespace NonceState

/-- Mixes `extra` into the key, and the key into the value. -/
def stir (state : NonceState) (extra : List UInt8) : NonceState :=
  let key := Hmac.sha256 state.key (state.value ++ extra)
  ⟨key, Hmac.sha256 key state.value⟩

/-- The state for a secret and a hash, both of 32 bytes.  The hash goes in as it is, not
reduced modulo `n`. -/
def start (secret hash : List UInt8) : NonceState :=
  let state : NonceState := ⟨List.replicate 32 0, List.replicate 32 1⟩
  (state.stir (0 :: secret ++ hash)).stir (1 :: secret ++ hash)

/-- The first of at most `tries` draws that lies between 1 and `n - 1`. -/
def draw? : (tries : Nat) → NonceState → Option Nat
  | 0, _ => none
  | tries + 1, state =>
    let value := Hmac.sha256 state.key state.value
    let k := BigEndian.toNat value
    if 0 < k ∧ k < n then some k else draw? tries (stir ⟨state.key, value⟩ [0])

end NonceState

/-- The nonce for a secret and a hash.  A draw misses with a probability below `2 ^ -127`,
so sixteen of them never all miss. -/
def nonce? (secret : Nat) (hash : Digest) : Option Nat :=
  (NonceState.start (BigEndian.ofNat 32 secret) hash.bytes).draw? 16

/-! ## Signing and recovering -/

/-- A signature with the number that tells which point `R` it was made from. -/
structure Recoverable where
  /-- The abscissa of `R` modulo `n`. -/
  r : Nat
  /-- The second half, at most `n / 2`. -/
  s : Nat
  /-- Bit 0 is the parity of the ordinate of `R`, bit 1 says that its abscissa is at least `n`. -/
  id : Nat
deriving DecidableEq, Repr

/-- Whether a number may stand in a signature: from 1 to `n - 1`. -/
def inRange (k : Nat) : Bool := 0 < k && k < n

theorem inRange_iff {k : Nat} : inRange k ↔ 0 < k ∧ k < n := by simp [inRange]

/-- The signature of a hash under a secret with the nonce `k`. -/
def signWith? (secret : Nat) (hash : Digest) (k : Nat) : Option Recoverable :=
  match multiple? k with
  | none => none
  | some point =>
    let r := point.x % n
    let z := BigEndian.toNat hash.bytes % n
    let s := invMod k n * ((z + r * secret) % n) % n
    let flag := if n ≤ point.x then 2 else 0
    if r = 0 ∨ s = 0 then none
    -- the smaller of the two, which belongs to `-R`
    else if n / 2 < s then some ⟨r, n - s, flag + (1 - point.y % 2)⟩
    else some ⟨r, s, flag + point.y % 2⟩

/-- The signature of a hash under a secret. -/
def sign? (secret : Nat) (hash : Digest) : Option Recoverable :=
  (nonce? secret hash).bind (signWith? secret hash)

/-- The public key under which `(r, s)` signs the hash, with `R` of the given parity. -/
def recover? (hash : Digest) (r s : Nat) (odd : Bool) : Option Point :=
  match Point.lift? r odd with
  | none => none
  | some point =>
    let z := BigEndian.toNat hash.bytes % n
    let inv := invMod r n
    combination? ((n - inv * z % n) % n) (inv * s % n) point

end Secp256k1
end SignedFeeds
