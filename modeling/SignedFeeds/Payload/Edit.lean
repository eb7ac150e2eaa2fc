/-
# Editing payloads

Changes to a payload in place.  An edit that does not apply, because the payload is of the
other generation or has no package at the given index, gives `none`.  Nothing is checked or
sorted here; writing a payload does that.
-/
import SignedFeeds.Payload.Basic

namespace SignedFeeds
namespace Payload

/-- The payload with one more signed package behind the others. -/
def push? (p : Payload) (m : SignedPackage) : Option Payload :=
  match p.content with
  | .single packages => some { p with content := .single (packages ++ [m]) }
  | .multi _ => none

/-- The payload without the signed package at an index. -/
def dropAt? (p : Payload) (index : Nat) : Option Payload :=
  match p.content with
  | .single packages =>
    if index < packages.length then some { p with content := .single (packages.eraseIdx index) }
    else none
  | .multi _ => none

/-- The cosigned package of a multi-sign payload. -/
def cosigned? (p : Payload) : Option CosignedPackage :=
  match p.content with
  | .single _ => none
  | .multi m => some m

/-- The payload with another cosigned package. -/
def setCosigned (p : Payload) (m : CosignedPackage) : Payload := { p with content := .multi m }

/-- The payload with the data package at an index changed.  The only package of a
multi-sign payload has every index. -/
def modifyPackage? (p : Payload) (index : Nat) (f : DataPackage → DataPackage) : Option Payload :=
  match p.content with
  | .single packages =>
    if index < packages.length then
      some { p with
        content := .single (packages.modify index fun m => { m with package := f m.package }) }
    else none
  | .multi m => some (p.setCosigned { m with package := f m.package })

/-- The payload with its packages, or the signatures of its one package, in reverse. -/
def reverse (p : Payload) : Payload :=
  match p.content with
  | .single packages => { p with content := .single packages.reverse }
  | .multi m => p.setCosigned { m with signatures := m.signatures.reverse }

end Payload
end SignedFeeds
