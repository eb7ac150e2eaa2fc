/-
# Payload documents

The document form of a payload is made of texts and numbers, for transports that carry no
bytes.  Values and signatures are base64.  A feed id is its label, or `0x` and 64 digits if
it has none.

Reading is more lenient than writing.  `0x` and hexadecimal digits may stand where base64
is expected; as such a text can also be base64, base64 is tried first and wins if it gives
the expected length.
-/
import SignedFeeds.Payload.Basic
import SignedFeeds.Payload.Error

namespace SignedFeeds

/-- The document of a data point. -/
structure PointDocument where
  /-- The text of the feed id. -/
  feed : String
  /-- The text of the value. -/
  value : String
deriving DecidableEq, Repr

/-- The document of a data package. -/
structure PackageDocument where
  /-- The data points, in the order of the package. -/
  points : List PointDocument
  /-- The time of the package. -/
  timestamp : UInt64
deriving DecidableEq, Repr

/-- The document of a package with one signature. -/
structure SignedDocument where
  /-- The data package. -/
  package : PackageDocument
  /-- The text of the signature. -/
  signature : String
deriving DecidableEq, Repr

/-- The document of a package with several signatures. -/
structure CosignedDocument where
  /-- The data package. -/
  package : PackageDocument
  /-- The texts of the signatures. -/
  signatures : List String
deriving DecidableEq, Repr

/-- The document of a payload. -/
structure PayloadDocument where
  /-- The number of the generation. -/
  version : UInt64
  /-- The metadata. -/
  metadata : String
  /-- The packages of a single-sign payload. -/
  packages : List SignedDocument
  /-- The package of a multi-sign payload. -/
  cosigned : Option CosignedDocument
deriving DecidableEq, Repr

/-! ## Texts -/

namespace FeedId

/-- The text of a feed id: its label, or all its digits. -/
def toDocument (id : FeedId) : String := id.display

/-- The feed id with a given text.  `0x` and 64 digits are the bytes themselves; any other
text is the name of the feed. -/
def ofDocument (text : String) : Except PayloadError FeedId :=
  match Hex.stripMark? (Text.toBytes text) with
  | some digits =>
    if digits.length = 64 then
      match Hex.decodeBytes digits with
      | .error e => .error (.document (.badFeedDigits e))
      | .ok bytes =>
        match FeedId.ofBytes bytes with
        | .ok id => .ok id
        | .error e => .error (.wire e)
    else .ok (.ofText text)
  | none => .ok (.ofText text)

end FeedId

/-- The bytes of `0x` and hexadecimal digits. -/
def markedHex? (text : String) : Option (List UInt8) :=
  (Hex.stripMark? (Text.toBytes text)).bind fun digits => (Hex.decodeBytes digits).toOption

/-- The bytes that the text of a field denotes.  Base64 of the expected length wins; if the
text is nothing of the kind, it may be hexadecimal. -/
def decodeBinary (field : String) (expected : Option Nat) (text : String) :
    Except PayloadError (List UInt8) :=
  match Base64.decode text with
  | .ok bytes =>
    if expected.all (· == bytes.length) then .ok bytes else .ok ((markedHex? text).getD bytes)
  | .error e =>
    match markedHex? text with
    | some bytes => .ok bytes
    | none => .error (.document (.badBase64 field e))

/-- The text of a signature. -/
def Signature.toDocument (sig : Signature) : String := Base64.encode sig.bytes

/-- The signature with a given text. -/
def Signature.ofDocument (text : String) : Except PayloadError Signature :=
  match decodeBinary "signature" (some 65) text with
  | .error e => .error e
  | .ok bytes =>
    match Signature.ofBytes bytes with
    | .ok sig => .ok sig
    | .error e => .error (.wire e)

/-! ## Packages -/

/-- The document of a data point. -/
def DataPoint.toDocument (q : DataPoint) : PointDocument :=
  ⟨q.feed.toDocument, Base64.encode q.value⟩

/-- The data point of a document. -/
def DataPoint.ofDocument (doc : PointDocument) : Except PayloadError DataPoint := do
  let feed ← FeedId.ofDocument doc.feed
  let value ← decodeBinary "value" none doc.value
  return ⟨feed, value⟩

/-- The document of a data package. -/
def DataPackage.toDocument (p : DataPackage) : PackageDocument :=
  ⟨p.points.map DataPoint.toDocument, p.timestamp⟩

/-- The data package of a document. -/
def DataPackage.ofDocument (doc : PackageDocument) : Except PayloadError DataPackage := do
  return ⟨← doc.points.mapM DataPoint.ofDocument, doc.timestamp⟩

/-- The document of a signed package. -/
def SignedPackage.toDocument (m : SignedPackage) : SignedDocument :=
  ⟨m.package.toDocument, m.signature.toDocument⟩

/-- The signed package of a document. -/
def SignedPackage.ofDocument (doc : SignedDocument) : Except PayloadError SignedPackage := do
  let package ← DataPackage.ofDocument doc.package
  let signature ← Signature.ofDocument doc.signature
  return ⟨package, signature⟩

/-- The document of a cosigned package. -/
def CosignedPackage.toDocument (m : CosignedPackage) : CosignedDocument :=
  ⟨m.package.toDocument, m.signatures.map Signature.toDocument⟩

/-- The cosigned package of a document. -/
def CosignedPackage.ofDocument (doc : CosignedDocument) :
    Except PayloadError CosignedPackage := do
  let package ← DataPackage.ofDocument doc.package
  let signatures ← doc.signatures.mapM Signature.ofDocument
  match CosignedPackage.attach package signatures with
  | .ok m => return m
  | .error e => throw (.wire e)

/-! ## Payloads -/

namespace Payload

/-- The document of a payload. -/
def toDocument (p : Payload) : PayloadDocument where
  version := UInt64.ofNat p.generation.number
  metadata := p.metadata
  packages := match p.content with
    | .single packages => packages.map SignedPackage.toDocument
    | .multi _ => []
  cosigned := match p.content with
    | .single _ => none
    | .multi package => some package.toDocument

/-- The signed part of a document of the given generation. -/
def contentOfDocument (doc : PayloadDocument) : Generation → Except PayloadError Content
  | .singleSign =>
    if doc.packages.isEmpty then .error .noPackages
    else (doc.packages.mapM SignedPackage.ofDocument).map Content.single
  | .multiSign =>
    match doc.cosigned with
    | none => .error (.document .noCosignedPackage)
    | some package => (CosignedPackage.ofDocument package).map Content.multi

/-- The payload of a document. -/
def ofDocument (doc : PayloadDocument) : Except PayloadError Payload :=
  match Generation.ofNumber? doc.version.toNat with
  | none => .error (.unsupportedVersion doc.version.toNat)
  | some generation =>
    (contentOfDocument doc generation).map fun content => ⟨content, doc.metadata⟩

end Payload
end SignedFeeds
