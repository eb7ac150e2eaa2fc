/-
# Writing JSON

Values are written without blanks.  In strings only the quote, the backslash and the
characters below U+0020 are escaped, those with a letter of their own by that letter.
-/
import SignedFeeds.Json.Basic

namespace SignedFeeds
namespace Json

/-- A character as it stands in a string. -/
def escapeChar (c : Char) : List Char :=
  if c = '"' ∨ c = '\\' then ['\\', c]
  else if c = '\x08' then ['\\', 'b']
  else if c = '\t' then ['\\', 't']
  else if c = '\n' then ['\\', 'n']
  else if c = '\x0c' then ['\\', 'f']
  else if c = '\r' then ['\\', 'r']
  else if c.toNat < 32 then
    ['\\', 'u', '0', '0', Nat.digitChar (c.toNat / 16), Nat.digitChar (c.toNat % 16)]
  else [c]

/-- A string in quotes.  One that denotes no text is written as a lone half of a pair. -/
def renderString : Option String → List Char
  | some text => '"' :: (text.toList.flatMap escapeChar ++ ['"'])
  | none => ['"', '\\', 'u', 'd', '8', '0', '0', '"']

/-- A number. -/
def renderNumeral (n : Numeral) : List Char :=
  let sign := if n.negative then ['-'] else []
  let fraction := if n.fraction.isEmpty then [] else '.' :: n.fraction
  let exponent := match n.exponent with
    | none => []
    | some (negative, digits) => 'e' :: (if negative then '-' :: digits else digits)
  sign ++ n.whole ++ fraction ++ exponent

mutual

/-- The characters of a value. -/
def renderValue : Json → List Char
  | .null => ['n', 'u', 'l', 'l']
  | .bool true => ['t', 'r', 'u', 'e']
  | .bool false => ['f', 'a', 'l', 's', 'e']
  | .number n => renderNumeral n
  | .string text => renderString text
  | .array [] => ['[', ']']
  | .array (item :: rest) => '[' :: (renderValue item ++ renderItems rest)
  | .object [] => ['\x7b', '\x7d']
  | .object ((name, value) :: rest) =>
    '\x7b' :: (renderString name ++ ':' :: (renderValue value ++ renderMembers rest))

/-- The further items of an array and its closing bracket. -/
def renderItems : List Json → List Char
  | [] => [']']
  | item :: rest => ',' :: (renderValue item ++ renderItems rest)

/-- The further members of an object and its closing brace. -/
def renderMembers : List (Option String × Json) → List Char
  | [] => ['\x7d']
  | (name, value) :: rest =>
    ',' :: (renderString name ++ ':' :: (renderValue value ++ renderMembers rest))

end

/-- The text of a value. -/
def render (value : Json) : String := String.ofList (renderValue value)

end Json
end SignedFeeds
