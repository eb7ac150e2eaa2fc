/-
# JSON values

A value keeps what a reader may still have to judge.  A numeral is kept as its digits,
because some readers accept any numeral and others only those that a double can hold.  A
string may contain escapes for halves of surrogate pairs; if they do not pair up it denotes
no text, and `none` stands for it.
-/
import SignedFeeds.Bytes.Text

namespace SignedFeeds
namespace Json

/-- A number as it is written. -/
structure Numeral where
  /-- Whether it begins with a minus sign. -/
  negative : Bool
  /-- The digits in front of the point. -/
  whole : List Char
  /-- The digits behind the point, if there is one. -/
  fraction : List Char
  /-- Whether the exponent is negative, and its digits. -/
  exponent : Option (Bool × List Char)
deriving DecidableEq, Repr

/-- The least number that does not fit in 64 bits. -/
def wordBound : Nat := 0x10000000000000000

/-- The value of a decimal digit. -/
def digitValue (c : Char) : Nat := c.toNat - 48

namespace Numeral

/-- The numeral of a natural number. -/
def ofNat (n : Nat) : Numeral := ⟨false, Nat.toDigits 10 n, [], none⟩

/-- The natural number that is written, if it is written as one. -/
def toNat? (n : Numeral) : Option Nat :=
  if n.negative || !n.fraction.isEmpty || n.exponent.isSome then none
  else some (n.whole.foldl (fun acc c => 10 * acc + digitValue c) 0)

/-! ## The range of doubles -/

/-- Appends digits to a significand as long as it fits in 64 bits.  The second result
is how many digits are left over. -/
def pushDigits : (significand : Nat) → List Char → Nat × Nat
  | s, [] => (s, 0)
  | s, c :: rest =>
    if 10 * s + digitValue c < wordBound then pushDigits (10 * s + digitValue c) rest
    else (s, rest.length + 1)

/-- The nearest number with 53 significant bits; a tie goes to the even one. -/
def round53 (n : Nat) : Nat :=
  let unit := Nat.pow 2 (Nat.log2 n - 52)
  let q := n / unit
  let r := n % unit
  (if unit < 2 * r ∨ (2 * r = unit ∧ q % 2 = 1) then q + 1 else q) * unit

/-- Whether a double can hold the number.  The significand is rounded to a double and
multiplied by the double nearest to the power of ten; the product may not round to
infinity. -/
def fitsDouble (n : Numeral) : Bool :=
  let (s, dropped) := pushDigits 0 n.whole
  let (s, skipped) := pushDigits s n.fraction
  let power : Int := match n.exponent with
    | none => 0
    | some (negative, digits) =>
      let e := digits.foldl (fun acc c => 10 * acc + digitValue c) 0
      if negative then -Int.ofNat e else Int.ofNat e
  let exponent := power + dropped - (n.fraction.length - skipped : Nat)
  if s = 0 ∨ exponent ≤ 0 then true
  else if 308 < exponent then false
  else round53 s * round53 (Nat.pow 10 exponent.toNat) < Nat.pow 2 1024 - Nat.pow 2 970

end Numeral
end Json

/-- A JSON value. -/
inductive Json where
  /-- The value `null`. -/
  | null
  /-- A truth value. -/
  | bool (b : Bool)
  /-- A number. -/
  | number (n : Json.Numeral)
  /-- A string; `none` if it denotes no text. -/
  | string (text : Option String)
  /-- An array. -/
  | array (items : List Json)
  /-- An object, with its members in order and with repetitions. -/
  | object (members : List (Option String × Json))
deriving Repr, Inhabited

namespace Json

/-- The string with the given text. -/
def ofText (text : String) : Json := .string (some text)

/-- A natural number. -/
def ofNat (n : Nat) : Json := .number (.ofNat n)

mutual

/-- Whether every string in a value denotes a text, a double can hold every number, and at
most `room` arrays and objects are open at once. -/
def isSound (room : Nat) : Json → Bool
  | .null => true
  | .bool _ => true
  | .number n => n.fitsDouble
  | .string text => text.isSome
  | .array items => 0 < room && areSound (room - 1) items
  | .object members => 0 < room && membersSound (room - 1) members

/-- Whether all items of an array are sound. -/
def areSound (room : Nat) : List Json → Bool
  | [] => true
  | item :: rest => isSound room item && areSound room rest

/-- Whether all members of an object are sound. -/
def membersSound (room : Nat) : List (Option String × Json) → Bool
  | [] => true
  | (name, value) :: rest => name.isSome && isSound room value && membersSound room rest

end

end Json
end SignedFeeds
