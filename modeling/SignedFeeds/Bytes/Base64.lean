/-
# Base64 text

Three bytes are four symbols of six bits each; a last group of one or two bytes is filled up
with `=`.  Reading is strict: the padding has to be there, and the bits that it leaves unused
have to be zero, so that a byte string has one base64 text only.

A text is read in two parts.  The last group, of one to four characters, is read by rules of
its own, since only there may padding stand; all groups before it are symbols only.  An
error says which character is at fault, by its byte and its offset.
-/
import SignedFeeds.Bytes.Text

namespace SignedFeeds

/-- Why a text is not base64. -/
inductive Base64Error where
  /-- A byte is no symbol, or is padding where none may stand. -/
  | invalidSymbol (byte : UInt8) (offset : Nat)
  /-- The last group has fewer than two symbols; `symbols` counts those of the whole text. -/
  | invalidLength (symbols : Nat)
  /-- The padding is missing or has the wrong length. -/
  | invalidPadding
  /-- The last symbol has bits that belong to no byte. -/
  | invalidLastSymbol (byte : UInt8) (offset : Nat)
deriving DecidableEq, Repr

/-- The wording of a base64 error. -/
def Base64Error.message : Base64Error → String
  | .invalidSymbol byte offset =>
    "Invalid symbol " ++ toString byte.toNat ++ ", offset " ++ toString offset ++ "."
  | .invalidLength symbols => "Invalid input length: " ++ toString symbols
  | .invalidPadding => "Invalid padding"
  | .invalidLastSymbol byte offset =>
    "Invalid last symbol " ++ toString byte.toNat ++ ", offset " ++ toString offset ++ "."

namespace Base64

/-- The padding character `=`. -/
def padding : UInt8 := 61

/-- The symbol of a number below 64. -/
def symbol (n : Nat) : UInt8 :=
  if n < 26 then UInt8.ofNat (65 + n)
  else if n < 52 then UInt8.ofNat (71 + n)
  else if n < 62 then UInt8.ofNat (n - 4)
  else if n = 62 then 43
  else 47

/-- The number of a symbol. -/
def symbolValue? (b : UInt8) : Option Nat :=
  let n := b.toNat
  if 65 ≤ n ∧ n ≤ 90 then some (n - 65)
  else if 97 ≤ n ∧ n ≤ 122 then some (n - 71)
  else if 48 ≤ n ∧ n ≤ 57 then some (n + 4)
  else if n = 43 then some 62
  else if n = 47 then some 63
  else none

/-! ## Writing -/

/-- The bytes of the base64 text of a byte string. -/
def encodeBytes : List UInt8 → List UInt8
  | a :: b :: c :: rest =>
    let n := 65536 * a.toNat + 256 * b.toNat + c.toNat
    symbol (n / 262144) :: symbol (n / 4096 % 64) :: symbol (n / 64 % 64) :: symbol (n % 64)
      :: encodeBytes rest
  | [a, b] =>
    let n := 1024 * a.toNat + 4 * b.toNat
    [symbol (n / 4096), symbol (n / 64 % 64), symbol (n % 64), padding]
  | [a] =>
    let n := 16 * a.toNat
    [symbol (n / 64), symbol (n % 64), padding, padding]
  | [] => []

/-- The base64 text of a byte string. -/
def encode (bs : List UInt8) : String :=
  String.ofList ((encodeBytes bs).map fun b => Char.ofNat b.toNat)

/-! ## Reading -/

/-- Reads symbols, the first of them at `offset`, into their numbers. -/
def readSymbols : (offset : Nat) → List UInt8 → Except Base64Error (List Nat)
  | _, [] => .ok []
  | offset, b :: rest =>
    match symbolValue? b with
    | some n => (readSymbols (offset + 1) rest).map (n :: ·)
    | none => .error (.invalidSymbol b offset)

/-- The bytes of whole groups of four symbols. -/
def joinGroups : List Nat → List UInt8
  | a :: b :: c :: d :: rest =>
    let n := 262144 * a + 4096 * b + 64 * c + d
    UInt8.ofNat (n / 65536) :: UInt8.ofNat (n / 256) :: UInt8.ofNat n :: joinGroups rest
  | _ => []

/-- The symbols of a last group and the length of its padding. -/
structure LastGroup where
  /-- The numbers of the symbols. -/
  symbols : List Nat
  /-- How many padding characters follow them. -/
  pads : Nat

/-- Reads the last group, which starts at `start`.  The second argument is the position in
the group and the third what stands before it. -/
def readLast (start : Nat) : (position : Nat) → LastGroup → List UInt8 →
    Except Base64Error LastGroup
  | _, group, [] => .ok group
  | position, group, b :: rest =>
    if b = padding then
      if position < 2 then .error (.invalidSymbol b (start + position))
      else readLast start (position + 1) { group with pads := group.pads + 1 } rest
    else if 0 < group.pads then
      .error (.invalidSymbol padding (start + group.symbols.length))
    else
      match symbolValue? b with
      | some n => readLast start (position + 1) { group with symbols := group.symbols ++ [n] } rest
      | none => .error (.invalidSymbol b (start + position))

/-- The bytes of a last group that starts at `start`; `text` is the text of the group. -/
def joinLast (start : Nat) (text : List UInt8) (group : LastGroup) :
    Except Base64Error (List UInt8) :=
  let count := group.symbols.length
  if count < 2 then .error (.invalidLength (start + count))
  else if (count + group.pads) % 4 ≠ 0 then .error .invalidPadding
  else
    let fault := Base64Error.invalidLastSymbol (text.getD (count - 1) 0) (start + count - 1)
    match group.symbols with
    | [a, b] => if b % 16 ≠ 0 then .error fault else .ok ((joinGroups [a, b, 0, 0]).take 1)
    | [a, b, c] => if c % 4 ≠ 0 then .error fault else .ok ((joinGroups [a, b, c, 0]).take 2)
    | symbols => .ok (joinGroups symbols)

/-- The bytes that the UTF-8 bytes of a base64 text denote.  A single character behind whole
groups is looked at before all others. -/
def decodeBytes (text : List UInt8) : Except Base64Error (List UInt8) :=
  let length := text.length
  let lastByte := text.getLastD padding
  if length % 4 = 1 ∧ lastByte ≠ padding ∧ (symbolValue? lastByte).isNone then
    .error (.invalidSymbol lastByte (length - 1))
  else if length = 0 then .ok []
  else
    let start := (length - 1) / 4 * 4
    let last := text.drop start
    match readSymbols 0 (text.take start) with
    | .error e => .error e
    | .ok symbols =>
      match readLast start 0 ⟨[], 0⟩ last with
      | .error e => .error e
      | .ok group => (joinLast start last group).map (joinGroups symbols ++ ·)

/-- The bytes that a base64 text denotes. -/
def decode (text : String) : Except Base64Error (List UInt8) := decodeBytes (Text.toBytes text)

end Base64
end SignedFeeds
