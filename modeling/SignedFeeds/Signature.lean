/-
# Recoverable signatures

A signature is 65 bytes, `r ‖ s ‖ v`.  The signer's address is not stored: it is recovered
from the signature and the hash that was signed.  The byte `v` carries a parity and is
written 27 or 28; 0 and 1 are read as well.  A signature with `s` above half the group order
is read as its twin, `n - s` with the other parity.
-/
import SignedFeeds.Address
import SignedFeeds.Secp256k1.Ecdsa
import SignedFeeds.Wire.Tail

namespace SignedFeeds

/-- The 65 bytes of a signature. -/
@[ext] structure Signature extends Block 65
deriving DecidableEq, Repr

namespace Signature

/-- The signature with the given bytes. -/
def ofBytes (bs : List UInt8) : Except WireError Signature :=
  (Block.ofField "signature" bs).map Signature.mk

/-- Reads a signature off the end of a buffer. -/
def read : Reader WireError Signature := do
  Reader.ofExcept (ofBytes (← Reader.take "signature" 65))

/-- The signature with the given parts. -/
def ofParts (r s : Nat) (v : UInt8) : Signature :=
  ⟨⟨BigEndian.ofNat 32 r ++ (BigEndian.ofNat 32 s ++ [v]), by simp⟩⟩

/-- The number in the first 32 bytes. -/
def r (sig : Signature) : Nat := BigEndian.toNat (sig.bytes.take 32)

/-- The number in the next 32 bytes. -/
def s (sig : Signature) : Nat := BigEndian.toNat ((sig.bytes.drop 32).take 32)

/-- The number in the last byte. -/
def v (sig : Signature) : Nat := BigEndian.toNat (sig.bytes.drop 64)

/-- The first four bytes, marked as a signature. -/
def brief (sig : Signature) : String := "Sig(" ++ Hex.encode (sig.bytes.take 4) ++ "...)"

/-- Whether the parity that `v` stands for is odd. -/
def parity? : (v : Nat) → Option Bool
  | 0 | 27 => some false
  | 1 | 28 => some true
  | _ => none

/-- The address of whoever made this signature of the hash.  A wrong hash does not fail as
such: it yields another address. -/
def recover (sig : Signature) (hash : Digest) : Except WireError Address :=
  if Secp256k1.inRange sig.r && Secp256k1.inRange sig.s then
    match parity? sig.v with
    | none => .error .invalidSignature
    | some odd =>
      let high := Secp256k1.n / 2 < sig.s
      let s := if high then Secp256k1.n - sig.s else sig.s
      match Secp256k1.recover? hash sig.r s (if high then !odd else odd) with
      | none => .error .invalidSignature
      | some key => .ok (Address.ofPublicKey key)
  else .error .invalidSignature

end Signature
end SignedFeeds
