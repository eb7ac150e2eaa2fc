/-
# Signer addresses

The address of a signer is the last 20 bytes of the hash of its public key.  Its text is
`0x` and 40 digits.  The checksummed text has some of the letters in upper case: those whose
place is at least 8 in the hash of the lower-case digits.
-/
import SignedFeeds.Bytes.BigEndian
import SignedFeeds.Secp256k1.Curve
import SignedFeeds.Wire.Error

namespace SignedFeeds

/-- The 20 bytes that name a signer. -/
@[ext] structure Address extends Block 20
deriving DecidableEq, Repr

namespace Address

/-- The address that belongs to a public key. -/
def ofPublicKey (key : Secp256k1.Point) : Address :=
  let hash := Keccak.hash (BigEndian.ofNat 32 key.x ++ BigEndian.ofNat 32 key.y)
  ⟨⟨hash.bytes.drop 12, by rw [List.length_drop, hash.length_bytes]⟩⟩

/-- The digits in lower case, behind `0x`. -/
def lower (a : Address) : String := "0x" ++ a.toHex

/-- A digit in upper case if the half of a byte that belongs to it is at least 8. -/
def raise (digit : Char) (half : Nat) : Char :=
  if 8 ≤ half then digit.toUpper else digit

/-- The digits with the letters of the checksum in upper case, behind `0x`. -/
def checksum (a : Address) : String :=
  let digits := a.bytes.flatMap Hex.pair
  let hash := Keccak.hash (Text.toBytes (String.ofList digits))
  "0x" ++ String.ofList (List.zipWith raise digits (Hex.halves hash.bytes))

/-- Reads 40 digits of either case, with or without `0x`. -/
def ofText (text : String) : Except WireError Address :=
  match Hex.decodeMarked text with
  | .error e => .error (.undecodable e.message)
  | .ok bytes => (Block.ofField "signer address" bytes).map Address.mk

/-- The checksummed text, marked as an address. -/
def brief (a : Address) : String := "SignerAddress(" ++ a.checksum ++ ")"

/-! ## The order of addresses -/

instance : Ord Address := ⟨compareOn Address.toBlock⟩

instance : Std.TransOrd Address := inferInstanceAs (Std.TransCmp (compareOn Address.toBlock))

instance : Std.LawfulEqOrd Address where
  eq_of_compare {a b} (h : compare a.toBlock b.toBlock = .eq) :=
    Address.ext (congrArg Block.bytes (Std.LawfulEqCmp.eq_of_compare h))

end Address
end SignedFeeds
