/-
# Finding a payload at the end of a buffer

Reading goes from the end of the buffer to the left: the marker, the size of the metadata,
the version tag if there is one, the metadata, and then the packages, the last one first.
What lies to the left of the payload is handed back untouched.  Any fault rejects the whole
buffer.

`Limits` bounds the counts that a reader is willing to follow.  The number of data points is
looked up in front of the signatures of a package before the package is read, so that an
excessive count is refused as such.
-/
import SignedFeeds.Payload.Wire

namespace SignedFeeds

/-- The largest counts that a reader accepts.  By default they are the largest ones that the
wire can express. -/
structure Limits where
  /-- Largest number of packages in a single-sign payload. -/
  maxPackages : Nat := 65535
  /-- Largest number of data points in a package. -/
  maxPoints : Nat := 16777215
deriving DecidableEq, Repr

namespace Payload

/-- A reader of the payload layer. -/
abbrev PayloadReader := Reader PayloadError

/-- Lets a reader of the package layer fail as one of the payload layer. -/
def liftReader {α : Type} (read : Reader WireError α) : PayloadReader α :=
  Reader.mapError PayloadError.wire read

/-- Looks at the unread bytes without reading any. -/
def inspect {α : Type} (f : Tail → α) : PayloadReader α := fun t => .ok (f t) t

/-- Reads the marker. -/
def readMarker : PayloadReader Unit := do
  let found ← inspect fun t => t.peek? marker.length
  if found = some marker then
    let _ ← liftReader (Reader.take "marker" marker.length)
  else throw (.invalidMarker (found.getD (← inspect Tail.rest)))

/-- The generation of a payload whose metadata region has the given size and has not been
read yet.  A region that cannot hold the tag has none. -/
def probe (size : Nat) (t : Tail) : Generation :=
  if 2 ≤ size ∧ t.peek? 2 = some versionTag then .multiSign else .singleSign

/-- Reads the metadata region: the tag, if the generation has one, and the text. -/
def readMetadata (size : Nat) (generation : Generation) : PayloadReader String := do
  let length ← match generation with
    | .singleSign => pure size
    | .multiSign => do
      let _ ← liftReader (Reader.take "payload version" 2)
      pure (size - 2)
  match Text.ofBytes? (← liftReader (Reader.take "unsigned metadata" length)) with
  | some metadata => return metadata
  | none => throw .malformedMetadata

/-- The number of data points of the package behind `skip` bytes of signatures, if the
unread bytes reach as far as that. -/
def pointsAhead? (skip : Nat) (t : Tail) : Option Nat :=
  let ahead : Tail := ⟨t.unread.drop skip, 0⟩
  if t.holds skip then (ahead.peek? Counter.points.width).map BigEndian.toNat else none

/-- Fails if the package behind `skip` bytes of signatures has more data points than
allowed.  A count that cannot be read is left for the package to report. -/
def checkPoints (limits : Limits) (skip : Nat) : PayloadReader Unit := do
  match ← inspect (pointsAhead? skip) with
  | some count =>
    if limits.maxPoints < count then
      throw (.limitExceeded "data points" count limits.maxPoints)
  | none => pure ()

/-- The size of the smallest signed package: one data point with a value of one byte. -/
def minPackageSize : Nat := 111

/-- Reads the packages of a single-sign payload. -/
def readPackages (limits : Limits) : PayloadReader (List SignedPackage) := do
  let count ← liftReader (Reader.takeCounter .packages)
  if count = 0 then throw .noPackages
  if limits.maxPackages < count then
    throw (.limitExceeded "data packages" count limits.maxPackages)
  -- a count that the buffer cannot hold is refused before the loop
  liftReader (Reader.require "data packages" count minPackageSize)
  Reader.times count do
    checkPoints limits 65
    liftReader SignedPackage.read

/-- Reads the package of a multi-sign payload. -/
def readCosigned (limits : Limits) : PayloadReader CosignedPackage := do
  let signers := BigEndian.toNat ((← inspect fun t => t.peek? 1).getD [])
  if 0 < signers then checkPoints limits (1 + signers * 65)
  liftReader CosignedPackage.read

/-- Reads the signed part of a payload. -/
def readContent (limits : Limits) : Generation → PayloadReader Content
  | .singleSign => Content.single <$> readPackages limits
  | .multiSign => Content.multi <$> readCosigned limits

/-- Reads a payload off the end of a buffer. -/
def read (limits : Limits) : PayloadReader Payload := do
  readMarker
  let size ← liftReader (Reader.takeCounter .metadataSize)
  liftReader (Reader.require "unsigned metadata" size 1)
  let generation ← inspect (probe size)
  let metadata ← readMetadata size generation
  let content ← readContent limits generation
  return ⟨content, metadata⟩

/-- A payload found at the end of a buffer. -/
structure Found where
  /-- The payload. -/
  payload : Payload
  /-- Everything in front of it. -/
  before : List UInt8
deriving DecidableEq, Repr

/-- Finds the payload at the end of a buffer. -/
def parse (buffer : List UInt8) (limits : Limits := {}) : Except PayloadError Found :=
  match read limits (Tail.ofBytes buffer) with
  | .ok payload t => .ok ⟨payload, t.rest⟩
  | .error e _ => .error e

/-- Reads a buffer that is one payload. -/
def decode (buffer : List UInt8) : Except PayloadError Payload :=
  match parse buffer with
  | .error e => .error e
  | .ok found =>
    if found.before.isEmpty then .ok found.payload
    else
      .error (.wire (.malformed "payload" (buffer.length - found.before.length) buffer.length))

end Payload
end SignedFeeds
