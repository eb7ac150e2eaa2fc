/-
# The bytes of a payload

From left to right:

    single-sign:  signed package × n  ‖  n (2)  ‖  metadata  ‖  size (3)  ‖  marker (9)
    multi-sign:   cosigned package  ‖  metadata  ‖  version (2)  ‖  size (3)  ‖  marker (9)

The size counts the metadata and, in a multi-sign payload, the version tag behind it.  The
two generations are told apart by the two bytes in front of the size alone.  So single-sign
metadata may not end in the version tag.
-/
import SignedFeeds.Payload.Basic
import SignedFeeds.Payload.Error

namespace SignedFeeds
namespace Payload

/-- The bytes that every payload ends with. -/
def marker : List UInt8 := [0x00, 0x00, 0x02, 0xed, 0x57, 0x01, 0x1e, 0x00, 0x00]

/-- The two bytes that stand behind the metadata of a multi-sign payload. -/
def versionTag : List UInt8 := [0x00, 0x02]

/-- Whether metadata bytes end in the version tag. -/
def endsWithTag (metadata : List UInt8) : Bool := versionTag.isSuffixOf metadata

/-- Lets a computation of the package layer fail as one of the payload layer. -/
def liftWire {α : Type} : Except WireError α → Except PayloadError α
  | .ok a => .ok a
  | .error e => .error (.wire e)

/-- The packages of a payload and what stands between them and the metadata. -/
def encodeFront (metadata : List UInt8) : Content → Except PayloadError (List UInt8)
  | .single packages => do
    if packages.isEmpty then throw .noPackages
    if endsWithTag metadata then throw .ambiguousMetadata
    let bodies ← liftWire (packages.mapM SignedPackage.encode)
    let count ← liftWire (Counter.packages.encode packages.length)
    return bodies.flatten ++ count
  | .multi package => liftWire package.encode

/-- The metadata with the version tag of its generation. -/
def tagged (metadata : List UInt8) : Generation → List UInt8
  | .singleSign => metadata
  | .multiSign => metadata ++ versionTag

/-- The bytes of a payload. -/
def encode (p : Payload) : Except PayloadError (List UInt8) := do
  let metadata := Text.toBytes p.metadata
  let front ← encodeFront metadata p.content
  let region := tagged metadata p.generation
  let size ← liftWire (Counter.metadataSize.encode region.length)
  return front ++ (region ++ (size ++ marker))

/-- The bytes of a payload in lower-case digits. -/
def toHex (p : Payload) : Except PayloadError String := p.encode.map Hex.encode

end Payload
end SignedFeeds
