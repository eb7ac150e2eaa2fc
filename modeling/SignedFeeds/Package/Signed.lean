/-
# Signed packages

A package with one signature of its hash, written `package ‖ signature`.  Signing puts the
points in ascending order first; a signature may also be attached as it is.
-/
import SignedFeeds.Package.Basic
import SignedFeeds.Signer

namespace SignedFeeds

/-- A data package with one signature. -/
structure SignedPackage where
  /-- What is signed. -/
  package : DataPackage
  /-- The signature of its hash. -/
  signature : Signature
deriving DecidableEq, Repr

namespace SignedPackage

/-- The package in canonical form, signed. -/
def sign (p : DataPackage) (signer : Signer) : Except WireError SignedPackage := do
  let package ← p.canonicalize
  let signature ← signer.sign (← package.hash)
  return ⟨package, signature⟩

/-- The address of the signer, computed from the package and the signature. -/
def recover (m : SignedPackage) : Except WireError Address := do
  m.signature.recover (← m.package.hash)

/-- How many bytes `encode` gives. -/
def encodedLength (m : SignedPackage) : Nat := m.package.encodedLength + 65

/-- Appends the package and its signature. -/
def write (m : SignedPackage) : Writer Unit := do
  Writer.emitAll m.package.encode
  Writer.emit m.signature.bytes

/-- The bytes `package ‖ signature`. -/
def encode (m : SignedPackage) : Except WireError (List UInt8) := m.write.toBytes

/-- Reads a signature and a package off the end of a buffer. -/
def read : Reader WireError SignedPackage := do
  let signature ← Signature.read
  let package ← DataPackage.read
  return ⟨package, signature⟩

/-- Reads a buffer that is one signed package. -/
def decode (buffer : List UInt8) : Except WireError SignedPackage :=
  Reader.whole "signed data package" read buffer

end SignedPackage
end SignedFeeds
