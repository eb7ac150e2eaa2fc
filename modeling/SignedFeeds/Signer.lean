/-
# Signers

A signer is whatever has an address and can sign a hash; where its secret is kept does not
matter.  `SecretKey` is the signer that holds the secret itself.
-/
import SignedFeeds.Signature

namespace SignedFeeds

/-- Something that signs hashes under an address. -/
structure Signer where
  /-- The address that its signatures should recover to. -/
  address : Address
  /-- Signs a hash, or refuses. -/
  sign : Digest → Except WireError Signature

/-- The signer without an address that refuses every hash. -/
def Signer.refusing : Signer := ⟨⟨Block.zero⟩, fun _ => .error (.undecodable "signer refused")⟩

/-- A secret number between 1 and `n - 1`. -/
structure SecretKey where
  /-- The number. -/
  scalar : Nat
  /-- It is not zero. -/
  scalar_pos : 0 < scalar
  /-- It is below the group order. -/
  scalar_lt : scalar < Secp256k1.n

namespace SecretKey

/-- The secret with the given number. -/
def ofNat? (k : Nat) : Option SecretKey :=
  if h : 0 < k ∧ k < Secp256k1.n then some ⟨k, h.1, h.2⟩ else none

/-- Reads 64 digits of either case, with or without `0x`. -/
def ofText (text : String) : Except WireError SecretKey :=
  match Hex.decodeMarked text with
  | .error _ => .error .invalidKey
  | .ok bytes =>
    if bytes.length = 32 then
      match ofNat? (BigEndian.toNat bytes) with
      | some key => .ok key
      | none => .error .invalidKey
    else .error .invalidKey

/-- A secret drawn from a seed: one more than a hash modulo `n - 1`. -/
def ofSeed (seed : Nat) : SecretKey :=
  let k := BigEndian.toNat (Keccak.hash (BigEndian.ofNat 32 seed)).bytes
  ⟨k % (Secp256k1.n - 1) + 1, Nat.succ_pos _,
    by have := Nat.mod_lt k (show 0 < Secp256k1.n - 1 by decide); omega⟩

/-- The address of the public key.  No secret in range has the point at infinity as its key. -/
def address (key : SecretKey) : Address :=
  match Secp256k1.multiple? key.scalar with
  | some point => Address.ofPublicKey point
  | none => ⟨Block.zero⟩

/-- Signs a hash; `v` is 27 and the recovery number. -/
def sign (key : SecretKey) (hash : Digest) : Except WireError Signature :=
  match Secp256k1.sign? key.scalar hash with
  | some sig => .ok (Signature.ofParts sig.r sig.s (UInt8.ofNat (27 + sig.id)))
  | none => .error .invalidSignature

/-- The signer that holds this secret. -/
def toSigner (key : SecretKey) : Signer := ⟨key.address, key.sign⟩

/-- The address, marked as a pair of keys. -/
def brief (key : SecretKey) : String := "Keypair(" ++ key.address.checksum ++ ")"

end SecretKey
end SignedFeeds
