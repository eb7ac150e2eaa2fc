/-
# Registries of signers

A registry says which addresses may sign for which data service.  Anything that can answer
the question will do; `AllowList` is the registry that lists the signers of each service.
-/
import Std.Data.HashMap
import SignedFeeds.Address
import SignedFeeds.OrderedSet

namespace SignedFeeds

/-- Whether an address may sign for a data service. -/
abbrev Registry := (service : String) → Address → Bool

/-- The signers of each data service. -/
structure AllowList where
  /-- The services that have been named, each with the set of its signers. -/
  services : Std.HashMap String (OrderedSet Address) := ∅

namespace AllowList

/-- The list without services. -/
def empty : AllowList := {}

/-- The signers of a service. -/
def signers (l : AllowList) (service : String) : OrderedSet Address :=
  l.services.getD service ∅

/-- Whether an address is listed for a service. -/
def knows (l : AllowList) : Registry := fun service a => a ∈ l.signers service

theorem knows_iff {l : AllowList} {service : String} {a : Address} :
    l.knows service a = true ↔ a ∈ l.signers service := decide_eq_true_iff

/-- The list with one more signer. -/
def insert (l : AllowList) (service : String) (a : Address) : AllowList :=
  ⟨l.services.insert service ((l.signers service).insert a)⟩

/-- An insertion adds one pair of a service and an address. -/
theorem knows_insert (l : AllowList) (service other : String) (a b : Address) :
    (l.insert service a).knows other b = true ↔
      (other = service ∧ b = a) ∨ l.knows other b = true := by
  simp only [knows_iff, signers, insert, Std.HashMap.getD_insert]
  by_cases h : service = other
  · subst h
    simp
  · simp [h, Ne.symm h]

/-- The list with several more signers of one service. -/
def insertAll (l : AllowList) (service : String) (addresses : List Address) : AllowList :=
  addresses.foldl (fun l a => l.insert service a) l

/-- The list without a signer of a service, and whether that signer was on it. -/
def remove (l : AllowList) (service : String) (a : Address) : Bool × AllowList :=
  if l.knows service a then
    (true, ⟨l.services.insert service ((l.signers service).erase a)⟩)
  else (false, l)

@[simp] theorem knows_empty (service : String) (a : Address) :
    empty.knows service a = false := by
  simp [knows, signers, empty]

/-- A removal takes away one pair of a service and an address. -/
theorem knows_remove (l : AllowList) (service other : String) (a b : Address) :
    (l.remove service a).2.knows other b = true ↔
      ¬ (other = service ∧ b = a) ∧ l.knows other b = true := by
  unfold remove
  split
  · simp only [knows_iff, signers, Std.HashMap.getD_insert]
    by_cases h : service = other
    · subst h
      simp [and_comm]
    · simp [h, Ne.symm h]
  · next hknown =>
    refine ⟨fun h => ⟨?_, h⟩, fun h => h.2⟩
    rintro ⟨rfl, rfl⟩
    exact hknown h

end AllowList
end SignedFeeds
