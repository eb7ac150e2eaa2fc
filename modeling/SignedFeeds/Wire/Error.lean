/-
# What can go wrong with a package

One constructor for each cause, with the data that the cause has; `message` is the only
place where it is worded.
-/
import SignedFeeds.Feed

namespace SignedFeeds

/-- Why a package, or a part of it, cannot be read, written, signed or attributed. -/
inductive WireError where
  /-- A field has the wrong number of bytes. -/
  | malformed (field : String) (expected actual : Nat)
  /-- Two data points of a package have the same feed. -/
  | duplicateFeed (feed : FeedId)
  /-- A package has no data points. -/
  | noPoints
  /-- A value is not as wide as the first one of its package. -/
  | mixedWidths (expected actual : Nat)
  /-- The buffer ends, on its left, inside a field. -/
  | truncated (field : String) (needed remaining : Nat)
  /-- A package that is signed by several signers has no signature. -/
  | noSignatures
  /-- A value does not fit in the bytes it has, or in a decimal. -/
  | valueOverflow (width : Nat)
  /-- A value is below zero. -/
  | negativeValue
  /-- A counter does not fit in its field. -/
  | counterOverflow (field : String) (value width : Nat)
  /-- Data points on the wire are not in ascending order. -/
  | unsorted
  /-- No signer can be recovered from a signature. -/
  | invalidSignature
  /-- A secret is no secret key. -/
  | invalidKey
  /-- A text cannot be decoded. -/
  | undecodable (reason : String)
deriving DecidableEq, Repr

/-- The wording of an error. -/
def WireError.message : WireError → String
  | .malformed field expected actual =>
    "malformed " ++ field ++ ": expected " ++ toString expected ++ " bytes, got "
      ++ toString actual
  | .duplicateFeed feed => "duplicate data feed id: " ++ feed.display
  | .noPoints => "data package contains no data points"
  | .mixedWidths expected actual =>
    "inconsistent value byte width: expected " ++ toString expected ++ ", got " ++ toString actual
  | .truncated field needed remaining =>
    "truncated buffer: " ++ field ++ " needs " ++ toString needed ++ " bytes, "
      ++ toString remaining ++ " remaining"
  | .noSignatures => "multi-sign data package has no signatures"
  | .valueOverflow width => "value does not fit in " ++ toString width ++ " bytes"
  | .negativeValue => "negative values cannot be encoded"
  | .counterOverflow field value width =>
    field ++ " value " ++ toString value ++ " does not fit in " ++ toString width ++ " bytes"
  | .unsorted => "data points are not in canonical feed id order"
  | .invalidSignature => "invalid signature"
  | .invalidKey => "invalid private key"
  | .undecodable reason => "decoding error: " ++ reason

/-- The block of `n` bytes that stands in a field, or the error that the field has another
length. -/
def Block.ofField {n : Nat} (field : String) (bs : List UInt8) : Except WireError (Block n) :=
  match ofBytes? bs with
  | some block => .ok block
  | none => .error (.malformed field n bs.length)

/-- The feed id with the given bytes. -/
def FeedId.ofBytes (bs : List UInt8) : Except WireError FeedId :=
  (Block.ofField "data feed id" bs).map FeedId.mk

end SignedFeeds
