/-
# What can go wrong with a payload

All of these are faults of form.  Whether the signers of a payload are trusted is another
question, which `SignedFeeds.Authorization` answers.
-/
import SignedFeeds.Bytes.Base64
import SignedFeeds.Wire.Error

namespace SignedFeeds

/-- Why a document is no payload. -/
inductive DocumentError where
  /-- The text is not JSON, or not of the form of a payload. -/
  | unreadable
  /-- A feed id of full width has a character that is no digit. -/
  | badFeedDigits (cause : HexError)
  /-- A field is not base64. -/
  | badBase64 (field : String) (cause : Base64Error)
  /-- A document of version 2 has no cosigned package. -/
  | noCosignedPackage
deriving DecidableEq, Repr

/-- The wording of a document error. -/
def DocumentError.message : DocumentError → String
  | .unreadable => "not a payload document"
  | .badFeedDigits cause => "invalid dataFeedId hex: " ++ cause.message
  | .badBase64 field cause => "invalid " ++ field ++ " base64: " ++ cause.message
  | .noCosignedPackage => "version 2 payload without multiSignDataPackage"

/-- Why a payload cannot be read or written. -/
inductive PayloadError where
  /-- A package cannot be read or written. -/
  | wire (cause : WireError)
  /-- The buffer does not end with the marker. -/
  | invalidMarker (found : List UInt8)
  /-- There is no generation with this number. -/
  | unsupportedVersion (number : Nat)
  /-- A single-sign payload has no packages. -/
  | noPackages
  /-- Single-sign metadata would be read back as a version tag. -/
  | ambiguousMetadata
  /-- The metadata is not UTF-8. -/
  | malformedMetadata
  /-- A count is above the limit of the reader. -/
  | limitExceeded (field : String) (count limit : Nat)
  /-- A document is no payload. -/
  | document (cause : DocumentError)
deriving DecidableEq, Repr

/-- The wording of an error. -/
def PayloadError.message : PayloadError → String
  | .wire cause => cause.message
  | .invalidMarker found => "invalid payload marker: got 0x" ++ Hex.encode found
  | .unsupportedVersion number => "unsupported payload version: " ++ toString number
  | .noPackages => "payload has no data packages"
  | .ambiguousMetadata => "unsigned metadata ends with the multi-sign version tag"
  | .malformedMetadata => "unsigned metadata is not valid UTF-8"
  | .limitExceeded field count limit =>
    field ++ " count " ++ toString count ++ " exceeds limit " ++ toString limit
  | .document cause => "object format error: " ++ cause.message

end SignedFeeds
