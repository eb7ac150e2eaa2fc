/-
# Payloads

A payload carries signed packages and a text that nobody signs.  There are two generations:
single-sign payloads hold any number of packages with one signature each, multi-sign
payloads hold one package with several signatures.
-/
import SignedFeeds.Package.Cosigned
import SignedFeeds.Package.Signed

namespace SignedFeeds

/-- The two generations of payloads. -/
inductive Generation where
  /-- One signature for each package. -/
  | singleSign
  /-- Several signatures for one package. -/
  | multiSign
deriving DecidableEq, Repr

namespace Generation

/-- The version number of a generation. -/
def number : Generation → Nat
  | .singleSign => 1
  | .multiSign => 2

/-- The generation with the given version number. -/
def ofNumber? : Nat → Option Generation
  | 1 => some .singleSign
  | 2 => some .multiSign
  | _ => none

/-- The name of a generation with its number. -/
def display (g : Generation) : String :=
  let name := match g with
    | .singleSign => "single-sign"
    | .multiSign => "multi-sign"
  name ++ " (v" ++ toString g.number ++ ")"

end Generation

/-- The signed part of a payload. -/
inductive Content where
  /-- Packages with one signature each. -/
  | single (packages : List SignedPackage)
  /-- A package with several signatures. -/
  | multi (package : CosignedPackage)
deriving DecidableEq, Repr

namespace Content

/-- The generation that holds such content. -/
def generation : Content → Generation
  | .single _ => .singleSign
  | .multi _ => .multiSign

/-- The data packages, in the order of the wire. -/
def dataPackages : Content → List DataPackage
  | .single packages => packages.map SignedPackage.package
  | .multi package => [package.package]

end Content

/-- Signed packages with unsigned metadata. -/
structure Payload where
  /-- What is signed. -/
  content : Content
  /-- A text that anyone who passes the payload on can change. -/
  metadata : String
deriving DecidableEq, Repr

namespace Payload

/-- The generation of the payload. -/
def generation (p : Payload) : Generation := p.content.generation

/-- The addresses of the signers, in the order of the wire: one list for each package. -/
def recoverSigners (p : Payload) : Except WireError (List (List Address)) :=
  match p.content with
  | .single packages => packages.mapM fun package => package.recover.map fun a => [a]
  | .multi package => package.recover.map fun addresses => [addresses]

end Payload
end SignedFeeds
