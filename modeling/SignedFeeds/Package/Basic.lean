/-
# Data packages

A data package is a set of data points with a time.  Its bytes are what is signed:

    (value ‖ feed) × n  ‖  time (6)  ‖  value width (4)  ‖  n (3)

The points stand in ascending order of their feeds, whatever order the package holds them
in, so that the bytes and the signatures do not depend on that order.  Writing checks that
there are points, that all values have one width, and that no feed occurs twice.  Reading
accepts no other order, so that a package has one written form only.
-/
import SignedFeeds.Package.Point

namespace SignedFeeds

/-- Data points with a time. -/
structure DataPackage where
  /-- The data points, in any order. -/
  points : List DataPoint
  /-- Milliseconds since the beginning of 1970. -/
  timestamp : UInt64
deriving DecidableEq, Repr

namespace DataPackage

/-- Data points in ascending order of their feeds; equal feeds stay in the order they had. -/
def sortPoints (points : List DataPoint) : List DataPoint :=
  points.mergeSort fun a b => (compare a.feed b.feed).isLE

/-- The first feed that two neighbours have in common. -/
def firstRepeat? : List DataPoint → Option FeedId
  | a :: b :: rest => if a.feed = b.feed then some a.feed else firstRepeat? (b :: rest)
  | _ => none

/-- The error of a package whose values have no bytes. -/
def zeroWidth : WireError := .malformed Counter.valueWidth.name 1 0

/-- The data points in ascending order, if they may stand in one package. -/
def canonicalPoints (p : DataPackage) : Except WireError (List DataPoint) :=
  match p.points with
  | [] => .error .noPoints
  | first :: _ =>
    if first.width = 0 then .error zeroWidth
    else
      match p.points.find? fun q => q.width != first.width with
      | some odd => .error (.mixedWidths first.width odd.width)
      | none =>
        let sorted := sortPoints p.points
        match firstRepeat? sorted with
        | some feed => .error (.duplicateFeed feed)
        | none => .ok sorted

/-- The package with its points in ascending order. -/
def canonicalize (p : DataPackage) : Except WireError DataPackage :=
  p.canonicalPoints.map fun points => ⟨points, p.timestamp⟩

/-- The width of the first value. -/
def valueWidth? (p : DataPackage) : Option Nat := p.points.head?.map DataPoint.width

/-- The first data point of a feed. -/
def get? (p : DataPackage) (feed : FeedId) : Option DataPoint :=
  p.points.find? fun q => q.feed == feed

/-- How many bytes `encode` gives. -/
def encodedLength (p : DataPackage) : Nat :=
  p.points.foldr (fun q length => q.encodedLength + length) 13

/-- The bytes of the package. -/
def encode (p : DataPackage) : Except WireError (List UInt8) := do
  let points ← p.canonicalPoints
  let timestamp ← Counter.timestamp.encode p.timestamp.toNat
  let width ← Counter.valueWidth.encode (p.valueWidth?.getD 0)
  let count ← Counter.points.encode points.length
  return points.flatMap DataPoint.encode ++ (timestamp ++ (width ++ count))

/-- The hash that signers sign. -/
def hash (p : DataPackage) : Except WireError Digest := p.encode.map Keccak.hash

/-! ## Reading -/

/-- What is wrong with the order of data points, if anything: a feed that follows a greater
one, or one that follows itself. -/
def orderFault? : List DataPoint → Option WireError
  | a :: b :: rest =>
    match compare a.feed b.feed with
    | .gt => some .unsorted
    | .eq => some (.duplicateFeed a.feed)
    | .lt => orderFault? (b :: rest)
  | _ => none

/-- Reads a package off the end of a buffer. -/
def read : Reader WireError DataPackage := do
  let count ← Reader.takeCounter .points
  let width ← Reader.takeCounter .valueWidth
  let timestamp ← Reader.takeCounter .timestamp
  if count = 0 then throw .noPoints
  if width = 0 then throw zeroWidth
  -- a count that the buffer cannot hold is refused before the loop
  Reader.require "data points" count (width + 32)
  let points ← Reader.times count (DataPoint.read width)
  match orderFault? points with
  | some e => throw e
  | none => return ⟨points, UInt64.ofNat timestamp⟩

/-- Reads a buffer that is one package. -/
def decode (buffer : List UInt8) : Except WireError DataPackage :=
  Reader.whole "data package" read buffer

end DataPackage
end SignedFeeds
