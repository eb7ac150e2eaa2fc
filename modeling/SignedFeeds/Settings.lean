/-
# Settings as JSON

The limits of a reader, the format of values, and the quorum of an authorization, as they
stand in configuration files.  Limits and formats have defaults for each field; a quorum has
none.
-/
import SignedFeeds.Authorization
import SignedFeeds.Document.Json
import SignedFeeds.Payload.Parse

namespace SignedFeeds

namespace Limits

/-- Limits as JSON. -/
def toJson (l : Limits) : Json :=
  .ofMembers [("maxDataPackages", .ofNat l.maxPackages), ("maxDataPoints", .ofNat l.maxPoints)]

/-- The limits that JSON stands for. -/
def ofJson? (value : Json) : Option Limits := do
  match ← value.fields? ["maxDataPackages", "maxDataPoints"] with
  | [packages, points] =>
    let standard : Limits := {}
    return {
      maxPackages := ← Json.fieldD standard.maxPackages (Json.natBelow? Json.wordBound) packages
      maxPoints := ← Json.fieldD standard.maxPoints (Json.natBelow? Json.wordBound) points }
  | _ => none

end Limits

namespace NumericFormat

/-- A format as JSON. -/
def toJson (f : NumericFormat) : Json :=
  .ofMembers [("decimals", .ofNat f.decimals), ("valueByteWidth", .ofNat f.width)]

/-- The format that JSON stands for. -/
def ofJson? (value : Json) : Option NumericFormat := do
  match ← value.fields? ["decimals", "valueByteWidth"] with
  | [decimals, width] =>
    let standard : NumericFormat := {}
    return {
      decimals := ← Json.fieldD standard.decimals (Json.natBelow? 0x100000000) decimals
      width := ← Json.fieldD standard.width (Json.natBelow? Json.wordBound) width }
  | _ => none

end NumericFormat

namespace Quorum

/-- A quorum as JSON. -/
def toJson (q : Quorum) : Json :=
  .ofMembers [("dataServiceId", .ofText q.service), ("uniqueSignersThreshold", .ofNat q.threshold)]

/-- The quorum that JSON stands for. -/
def ofJson? (value : Json) : Option Quorum := do
  match ← value.fields? ["dataServiceId", "uniqueSignersThreshold"] with
  | [some service, some threshold] => return ⟨← service.text?, ← threshold.natBelow? Json.wordBound⟩
  | _ => none

end Quorum
end SignedFeeds
