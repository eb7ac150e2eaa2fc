/-
# Hexadecimal text

Two digits a byte, high half first.  Writing uses lower case; reading takes either case and
says where the first character stands that is no digit.
-/
import SignedFeeds.Bytes.Text

namespace SignedFeeds

/-- Why a text is no hexadecimal byte string. -/
inductive HexError where
  /-- The text has an odd number of bytes. -/
  | oddLength
  /-- The byte at `index` is no hexadecimal digit. -/
  | invalidDigit (byte : UInt8) (index : Nat)
deriving DecidableEq, Repr

namespace Hex

/-- The two halves of each byte, high half first. -/
def halves (bs : List UInt8) : List Nat := bs.flatMap fun b => [b.toNat / 16, b.toNat % 16]

/-- The two lower-case digits of a byte. -/
def pair (b : UInt8) : List Char := [Nat.digitChar (b.toNat / 16), Nat.digitChar (b.toNat % 16)]

/-- Two lower-case digits for each byte. -/
def encode (bs : List UInt8) : String := String.ofList (bs.flatMap pair)

/-- The value of a digit, given by its ASCII code. -/
def digitValue? (b : UInt8) : Option Nat :=
  let n := b.toNat
  if 48 ≤ n ∧ n ≤ 57 then some (n - 48)
  else if 97 ≤ n ∧ n ≤ 102 then some (n - 87)
  else if 65 ≤ n ∧ n ≤ 70 then some (n - 55)
  else none

/-- Reads digits two by two; `index` is the position of the first one in the whole text. -/
def decodeFrom : (index : Nat) → List UInt8 → Except HexError (List UInt8)
  | index, a :: b :: rest =>
    match digitValue? a, digitValue? b with
    | some high, some low =>
      (decodeFrom (index + 2) rest).map (UInt8.ofNat (16 * high + low) :: ·)
    | none, _ => .error (.invalidDigit a index)
    | some _, none => .error (.invalidDigit b (index + 1))
  | _, [_] => .error .oddLength
  | _, [] => .ok []

/-- The bytes that the UTF-8 bytes of a hexadecimal text denote.  An odd length is reported
before any digit is looked at. -/
def decodeBytes (text : List UInt8) : Except HexError (List UInt8) :=
  if text.length % 2 = 1 then .error .oddLength else decodeFrom 0 text

/-- The bytes that a hexadecimal text denotes. -/
def decode (text : String) : Except HexError (List UInt8) := decodeBytes (Text.toBytes text)

/-- The bytes of `text` behind a leading `0x`, if it has one. -/
def stripMark? : (text : List UInt8) → Option (List UInt8)
  | 0x30 :: 0x78 :: rest => some rest
  | _ => none

/-- A text in which the `0x` mark is optional. -/
def decodeMarked (text : String) : Except HexError (List UInt8) :=
  let bytes := Text.toBytes text
  decodeBytes ((stripMark? bytes).getD bytes)

end Hex

/-- A byte shown as a Latin-1 character: letters and signs stand for themselves, the quote and
the backslash are escaped, and what is not visible is given by name or by number. -/
def HexError.showByte (b : UInt8) : String :=
  let n := b.toNat
  if n = 0 then "\\0"
  else if n = 9 then "\\t"
  else if n = 10 then "\\n"
  else if n = 13 then "\\r"
  else if n = 39 ∨ n = 92 then String.ofList ['\\', Char.ofNat n]
  else if n < 32 ∨ (127 ≤ n ∧ n ≤ 160) ∨ n = 173 then
    "\\u\x7b" ++ String.ofList (Nat.toDigits 16 n) ++ "\x7d"
  else String.singleton (Char.ofNat n)

/-- The wording of a hexadecimal error. -/
def HexError.message : HexError → String
  | .oddLength => "Odd number of digits"
  | .invalidDigit byte index =>
    "Invalid character '" ++ showByte byte ++ "' at position " ++ toString index

end SignedFeeds
