/-
# Cosigned packages

A package with the signatures of several signers, written

    package ‖ signature × k ‖ k (1)

with `k` from 1 to 255.  All signers sign the same hash.  The signatures keep the order in
which they were added.
-/
import SignedFeeds.Package.Basic
import SignedFeeds.Signer

namespace SignedFeeds

/-- A data package with signatures of several signers. -/
structure CosignedPackage where
  /-- What is signed. -/
  package : DataPackage
  /-- The signatures of its hash, in the order of signing. -/
  signatures : List Signature
deriving DecidableEq, Repr

namespace CosignedPackage

/-- The largest number of signatures. -/
def maxSigners : Nat := 255

/-- Fails unless there are between 1 and 255 signatures. -/
def checkCount (count : Nat) : Except WireError Unit :=
  if count = 0 then .error .noSignatures
  else if maxSigners < count then
    .error (.counterOverflow Counter.signers.name count Counter.signers.width)
  else .ok ()

/-- A package with signatures that were made elsewhere. -/
def attach (package : DataPackage) (signatures : List Signature) :
    Except WireError CosignedPackage := do
  checkCount signatures.length
  return ⟨package, signatures⟩

/-- The package in canonical form, signed by every signer in turn. -/
def sign (p : DataPackage) (signers : List Signer) : Except WireError CosignedPackage := do
  let package ← p.canonicalize
  let hash ← package.hash
  attach package (← signers.mapM fun signer => signer.sign hash)

/-- The package with one more signature. -/
def addSignature (m : CosignedPackage) (signature : Signature) :
    Except WireError CosignedPackage := do
  checkCount (m.signatures.length + 1)
  return { m with signatures := m.signatures ++ [signature] }

/-- The package signed by one more signer. -/
def cosign (m : CosignedPackage) (signer : Signer) : Except WireError CosignedPackage := do
  m.addSignature (← signer.sign (← m.package.hash))

/-- The addresses of all signers, in the order of signing. -/
def recover (m : CosignedPackage) : Except WireError (List Address) := do
  let hash ← m.package.hash
  m.signatures.mapM fun signature => signature.recover hash

/-- How many bytes `encode` gives. -/
def encodedLength (m : CosignedPackage) : Nat :=
  m.package.encodedLength + m.signatures.length * 65 + 1

/-- Appends the package, its signatures and their number. -/
def write (m : CosignedPackage) : Writer Unit := do
  Writer.check (checkCount m.signatures.length)
  Writer.emitAll m.package.encode
  m.signatures.forM fun signature => Writer.emit signature.bytes
  Writer.emitCounter .signers m.signatures.length

/-- The bytes of the package, its signatures and their number. -/
def encode (m : CosignedPackage) : Except WireError (List UInt8) := m.write.toBytes

/-- Reads signatures and a package off the end of a buffer. -/
def read : Reader WireError CosignedPackage := do
  let count ← Reader.takeCounter .signers
  if count = 0 then throw .noSignatures
  Reader.require "signatures" count 65
  let signatures ← Reader.times count Signature.read
  let package ← DataPackage.read
  return ⟨package, signatures⟩

/-- Reads a buffer that is one cosigned package. -/
def decode (buffer : List UInt8) : Except WireError CosignedPackage :=
  Reader.whole "multi-sign data package" read buffer

end CosignedPackage
end SignedFeeds
