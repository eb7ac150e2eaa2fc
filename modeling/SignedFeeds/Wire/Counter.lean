/-
# Counters and output

A counter is a big-endian number in a field of fixed width and with a name for diagnostics.
A number that does not fit is an error; nothing is ever cut off.

`Writer` is a computation that appends to an output.  What it has appended stays there when
a later step fails, so that a writer is all or nothing only if its steps are arranged so.
-/
import SignedFeeds.Bytes.BigEndian
import SignedFeeds.Wire.Error

namespace SignedFeeds

/-- A field for a number. -/
structure Counter where
  /-- What the number is called in an error. -/
  name : String
  /-- How many bytes it takes. -/
  width : Nat
deriving DecidableEq, Repr

namespace Counter

/-- The bytes of a number in the field. -/
def encode (c : Counter) (value : Nat) : Except WireError (List UInt8) :=
  if value < BigEndian.capacity c.width then .ok (BigEndian.ofNat c.width value)
  else .error (.counterOverflow c.name value c.width)

theorem encode_eq_ok_iff {c : Counter} {value : Nat} {bytes : List UInt8} :
    c.encode value = .ok bytes ↔
      value < BigEndian.capacity c.width ∧ BigEndian.ofNat c.width value = bytes := by
  unfold encode
  split
  · next h => simp [h]
  · next h => simp [h]

/-- The time of a package in milliseconds. -/
def timestamp : Counter := ⟨"timestamp", 6⟩

/-- The number of bytes of each value of a package. -/
def valueWidth : Counter := ⟨"value byte width", 4⟩

/-- The number of data points of a package. -/
def points : Counter := ⟨"data points count", 3⟩

/-- The number of signatures of a package that is signed by several signers. -/
def signers : Counter := ⟨"signers count", 1⟩

/-- The number of packages of a payload. -/
def packages : Counter := ⟨"data packages count", 2⟩

/-- The number of metadata bytes of a payload. -/
def metadataSize : Counter := ⟨"unsigned metadata size", 3⟩

end Counter

/-- A computation that appends bytes to an output and may fail. -/
abbrev Writer := EStateM WireError (List UInt8)

namespace Writer

/-- Appends the given bytes. -/
def emit (bs : List UInt8) : Writer Unit := modify (· ++ bs)

/-- Fails if the given computation does. -/
def check : Except WireError Unit → Writer Unit
  | .ok _ => pure ()
  | .error e => throw e

/-- Appends the bytes that a computation gives, or fails as it does and appends nothing. -/
def emitAll : Except WireError (List UInt8) → Writer Unit
  | .ok bs => emit bs
  | .error e => throw e

/-- Appends a number in a field, or fails and appends nothing. -/
def emitCounter (c : Counter) (value : Nat) : Writer Unit := emitAll (c.encode value)

/-- The result of a step and the output after it. -/
def run (w : Writer Unit) (output : List UInt8) : Except WireError Unit × List UInt8 :=
  match EStateM.run w output with
  | .ok _ output => (.ok (), output)
  | .error e output => (.error e, output)

/-- The bytes that a writer appends to an empty output. -/
def toBytes (w : Writer Unit) : Except WireError (List UInt8) :=
  match w.run [] with
  | (.ok _, output) => .ok output
  | (.error e, _) => .error e

end Writer
end SignedFeeds
