/-
# Payload documents as JSON

The members of an object keep the order of the fields, and a field without content is left
out.  Payloads and data points may also be read from arrays; packages may not.  All that
stands inside a package has to be sound JSON, while the value of a member of a payload that
is not one of its fields is only read past.
-/
import SignedFeeds.Document
import SignedFeeds.Json.Printer
import SignedFeeds.Json.Reader
import SignedFeeds.Json.Record

namespace SignedFeeds

/-- The number of arrays and objects that may be open at once where all is read for good. -/
def Json.maxOpen : Nat := 127

/-- A number of 64 bits. -/
def Json.word? (value : Json) : Option UInt64 := (value.natBelow? wordBound).map UInt64.ofNat

/-- An object whose members all have texts for names. -/
def Json.ofMembers (members : List (String × Json)) : Json :=
  .object (members.map fun m => (some m.1, m.2))

namespace PointDocument

/-- A data point as JSON. -/
def toJson (doc : PointDocument) : Json :=
  .ofMembers [("dataFeedId", .ofText doc.feed), ("value", .ofText doc.value)]

/-- The data point that JSON stands for. -/
def ofJson? (value : Json) : Option PointDocument := do
  match ← value.fields? ["dataFeedId", "value"] with
  | [some feed, some value] => return ⟨← feed.text?, ← value.text?⟩
  | _ => none

end PointDocument

namespace PackageDocument

/-- The members of a data package. -/
def members (doc : PackageDocument) : List (String × Json) :=
  [("dataPoints", .array (doc.points.map PointDocument.toJson)),
    ("timestampMilliseconds", .ofNat doc.timestamp.toNat)]

/-- The data package and the further member `extra` of an object. -/
def ofJson? (extra : String) (value : Json) : Option (PackageDocument × Json) := do
  match ← value.objectFields? ["dataPoints", "timestampMilliseconds", extra] with
  | [some points, some timestamp, some other] =>
    return (⟨← points.items? PointDocument.ofJson?, ← timestamp.word?⟩, other)
  | _ => none

end PackageDocument

namespace SignedDocument

/-- A signed package as JSON. -/
def toJson (doc : SignedDocument) : Json :=
  .ofMembers (doc.package.members ++ [("signature", .ofText doc.signature)])

/-- The signed package that JSON stands for, inside an array of an object. -/
def ofJson? (value : Json) : Option SignedDocument := do
  if value.isSound (Json.maxOpen - 2) then
    let (package, signature) ← PackageDocument.ofJson? "signature" value
    return ⟨package, ← signature.text?⟩
  else none

end SignedDocument

namespace CosignedDocument

/-- A cosigned package as JSON. -/
def toJson (doc : CosignedDocument) : Json :=
  .ofMembers (doc.package.members ++ [("signatures", .array (doc.signatures.map Json.ofText))])

/-- The cosigned package that JSON stands for, inside an object. -/
def ofJson? (value : Json) : Option CosignedDocument := do
  if value.isSound (Json.maxOpen - 1) then
    let (package, signatures) ← PackageDocument.ofJson? "signatures" value
    return ⟨package, ← signatures.items? Json.text?⟩
  else none

end CosignedDocument

namespace PayloadDocument

/-- A payload as JSON. -/
def toJson (doc : PayloadDocument) : Json :=
  .ofMembers ([("version", .ofNat doc.version.toNat), ("unsignedMetadata", .ofText doc.metadata)]
    ++ (if doc.packages.isEmpty then []
      else [("dataPackages", .array (doc.packages.map SignedDocument.toJson))])
    ++ (match doc.cosigned with
      | none => []
      | some package => [("multiSignDataPackage", package.toJson)]))

/-- A cosigned package, or `null` for none. -/
def cosignedOfJson? : Json → Option (Option CosignedDocument)
  | .null => some none
  | value => (CosignedDocument.ofJson? value).map some

/-- The payload that JSON stands for. -/
def ofJson? (value : Json) : Option PayloadDocument := do
  match ← value.fields?
      ["version", "unsignedMetadata", "dataPackages", "multiSignDataPackage"] with
  | [some version, metadata, packages, cosigned] =>
    return {
      version := ← version.word?
      metadata := ← Json.fieldD "" Json.text? metadata
      packages := ← Json.fieldD [] (Json.items? SignedDocument.ofJson?) packages
      cosigned := ← Json.fieldD none cosignedOfJson? cosigned }
  | _ => none

end PayloadDocument

namespace Payload

/-- The JSON text of a payload. -/
def toJsonText (p : Payload) : String := p.toDocument.toJson.render

/-- The payload of a JSON text. -/
def ofJsonText (text : String) : Except PayloadError Payload :=
  match (Json.parse? text).bind PayloadDocument.ofJson? with
  | some doc => ofDocument doc
  | none => .error (.document .unreadable)

end Payload
end SignedFeeds
