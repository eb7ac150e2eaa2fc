/-
# Deciding whether signers are trusted

A payload shows who signed it.  Whether those signers count is decided against a registry
and a quorum: the number of distinct known signers has to reach a threshold.  Signatures
from which nobody can be recovered are counted and do no other harm, so that a signer with a
broken signature loses its own vote only.
-/
import SignedFeeds.Payload.Basic
import SignedFeeds.Registry

namespace SignedFeeds

/-- How many distinct known signers a payload needs. -/
structure Quorum where
  /-- The data service that the signers have to be known for. -/
  service : String
  /-- How many of them are needed. -/
  threshold : Nat
deriving DecidableEq, Repr

/-- Who signed a payload, in the eyes of a registry. -/
structure Attribution where
  /-- The known signers, each once. -/
  authorized : OrderedSet Address
  /-- The other signers, in the order of the wire. -/
  unknown : List Address
  /-- How many signatures belong to nobody. -/
  unrecoverable : Nat
deriving DecidableEq

/-- Why a payload is not authorized. -/
inductive AuthorizationError where
  /-- A package has no hash. -/
  | unhashable (cause : WireError)
  /-- There are not enough distinct known signers. -/
  | insufficient (service : String) (required found : Nat)
deriving DecidableEq, Repr

/-- The wording of an error. -/
def AuthorizationError.message : AuthorizationError → String
  | .unhashable cause => "cannot hash data package: " ++ cause.message
  | .insufficient service required found =>
    "insufficient signers for " ++ service ++ ": " ++ toString found ++ " of "
      ++ toString required

namespace Attribution

/-- The report on no signatures. -/
def none : Attribution := ⟨∅, [], 0⟩

/-- Adds what was recovered from one signature. -/
def record (known : Address → Bool) (report : Attribution) :
    Except WireError Address → Attribution
  | .ok a =>
    if known a then { report with authorized := report.authorized.insert a }
    else { report with unknown := report.unknown ++ [a] }
  | .error _ => { report with unrecoverable := report.unrecoverable + 1 }

end Attribution

namespace Payload

/-- What is recovered from each signature, in the order of the wire, or the error of the
first package that has no hash. -/
def recoveries (p : Payload) : Except WireError (List (Except WireError Address)) :=
  match p.content with
  | .single packages => packages.mapM fun m => m.package.hash.map m.signature.recover
  | .multi m => m.package.hash.map fun hash => m.signatures.map fun sig => sig.recover hash

/-- Who signed a payload, if there are enough known signers. -/
def authorize (p : Payload) (registry : Registry) (quorum : Quorum) :
    Except AuthorizationError Attribution :=
  match p.recoveries with
  | .error e => .error (.unhashable e)
  | .ok results =>
    let report := results.foldl (Attribution.record (registry quorum.service)) .none
    if report.authorized.size < quorum.threshold then
      .error (.insufficient quorum.service quorum.threshold report.authorized.size)
    else .ok report

end Payload
end SignedFeeds
