/-
# Records in JSON

A record has named fields.  It is written as an object; it may be read from an object, whose
other members are ignored, or from an array that holds the fields in their order.
-/
import SignedFeeds.Json.Basic

namespace SignedFeeds
namespace Json

/-- The value of the only member with the given name.  The outer option is `none` if the
name is repeated. -/
def member? (name : String) (members : List (Option String × Json)) : Option (Option Json) :=
  match members.filter fun m => m.1 == some name with
  | [] => some none
  | [m] => some (some m.2)
  | _ => none

/-- The fields of a record that is an object.  Each name has to denote a text, and no field
may be repeated. -/
def objectFields? (names : List String) : Json → Option (List (Option Json))
  | .object members =>
    if members.all fun m => m.1.isSome then names.mapM fun name => member? name members else none
  | _ => none

/-- The fields of a record that is an object or an array.  An array may be short, so that
the last fields are missing, but not long. -/
def fields? (names : List String) : Json → Option (List (Option Json))
  | .array items =>
    if items.length ≤ names.length then
      some (items.map some ++ List.replicate (names.length - items.length) none)
    else none
  | value => objectFields? names value

/-- The text of a string. -/
def text? : Json → Option String
  | .string text => text
  | _ => none

/-- A natural number below `bound`, written as an integer. -/
def natBelow? (bound : Nat) : Json → Option Nat
  | .number n => n.toNat?.filter fun k => k < bound
  | _ => none

/-- The items of an array, each read in the same way. -/
def items? {α : Type} (read : Json → Option α) : Json → Option (List α)
  | .array items => items.mapM read
  | _ => none

/-- A field that may be missing. -/
def fieldD {α : Type} (fallback : α) (read : Json → Option α) : Option Json → Option α
  | none => some fallback
  | some value => read value

end Json
end SignedFeeds
