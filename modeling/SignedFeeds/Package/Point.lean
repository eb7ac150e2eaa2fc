/-
# Data points

A data point is the value of one feed.  On the wire the value comes first, then the feed id.
-/
import SignedFeeds.Value
import SignedFeeds.Wire.Tail

namespace SignedFeeds

/-- The value of a feed. -/
structure DataPoint where
  /-- Which feed. -/
  feed : FeedId
  /-- The bytes of the value, whose number is the width of the value. -/
  value : List UInt8
deriving DecidableEq, Repr

namespace DataPoint

/-- The data point of a decimal. -/
def numeric (feed : FeedId) (d : Decimal) (format : NumericFormat) : Except WireError DataPoint :=
  (Value.encode d format).map (DataPoint.mk feed)

/-- The number of bytes of the value. -/
def width (q : DataPoint) : Nat := q.value.length

/-- The decimal that the value stands for. -/
def toDecimal (q : DataPoint) (decimals : Nat) : Except WireError Decimal :=
  Value.decode q.value ⟨decimals, q.width⟩

/-- The bytes `value ‖ feed`. -/
def encode (q : DataPoint) : List UInt8 := q.value ++ q.feed.bytes

/-- How many bytes `encode` gives. -/
def encodedLength (q : DataPoint) : Nat := q.width + 32

/-- Reads a data point whose value has `width` bytes. -/
def read (width : Nat) : Reader WireError DataPoint := do
  let feed ← Reader.ofExcept (FeedId.ofBytes (← Reader.take "data feed id" 32))
  let value ← Reader.take "value" width
  return ⟨feed, value⟩

end DataPoint
end SignedFeeds
