/-
# Numeric values

A value is a decimal multiplied by a power of ten, rounded to an integer, and written as a
big-endian number in a field of fixed width.
-/
import SignedFeeds.Decimal
import SignedFeeds.Wire.Counter

namespace SignedFeeds

/-- How decimals are turned into values. -/
structure NumericFormat where
  /-- The power of ten that a decimal is multiplied by. -/
  decimals : Nat := 8
  /-- How many bytes a value takes. -/
  width : Nat := 32
deriving DecidableEq, Repr

namespace Value

/-- The value bytes of a decimal.  A negative number that rounds to zero is zero. -/
def encode (d : Decimal) (format : NumericFormat) : Except WireError (List UInt8) :=
  if format.width = 0 then .error (.malformed Counter.valueWidth.name 1 0)
  else
    let number := d.scaled format.decimals
    if d.negative && number != 0 then .error .negativeValue
    else if number < BigEndian.capacity format.width then .ok (BigEndian.ofNat format.width number)
    else .error (.valueOverflow format.width)

/-- The decimal that value bytes stand for, without zeros at the end of its fraction. -/
def decode (bytes : List UInt8) (format : NumericFormat) : Except WireError Decimal :=
  if bytes.length ≠ format.width then .error (.malformed "value" format.width bytes.length)
  else
    match Decimal.ofParts? false (BigEndian.toNat bytes) format.decimals with
    | some d => .ok d.normalize
    | none => .error (.valueOverflow format.width)

end Value
end SignedFeeds
