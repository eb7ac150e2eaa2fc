/-
# What a written payload looks like

The metadata region of a payload ends in the version tag exactly when the payload is
multi-sign: the tag is written for one generation and refused as an end of the metadata for
the other.  In front of the region stands the signed content, whose bytes do not depend on the
metadata.
-/
import SignedFeeds.Payload.Wire
import SignedFeeds.Proofs.Package.Writing

namespace SignedFeeds

/-- The bytes of the signed content of a payload. -/
def Content.Layout : Form Content
  | .single packages, bytes =>
    packages ≠ [] ∧ ∃ front n, Form.many (fun m b => m.encode = .ok b) packages front ∧
      Counter.packages.encode packages.length = .ok n ∧ bytes = front ++ n
  | .multi package, bytes => package.encode = .ok bytes

/-- Content that can be written has no data package that cannot. -/
lemma Content.exists_encode_of_layout {c : Content} {bytes : List UInt8} (h : c.Layout bytes) :
    ∀ p ∈ c.dataPackages, ∃ b, p.encode = .ok b := by
  cases c with
  | single packages =>
    obtain ⟨-, front, n, hmany, -⟩ := h
    refine List.forall_mem_map.mpr fun m hm => ?_
    obtain ⟨b, hb⟩ := Form.exists_of_many hmany hm
    obtain ⟨b', hb', -⟩ := SignedPackage.encode_eq_ok_iff.mp hb
    exact ⟨b', hb'⟩
  | multi package =>
    obtain ⟨b, n, hb, -⟩ := CosignedPackage.encode_eq_ok_iff.mp h
    exact List.forall_mem_singleton.mpr ⟨b, hb⟩

namespace Payload

/-- The metadata of the payload with the version tag of its generation. -/
def region (p : Payload) : List UInt8 := tagged (Text.toBytes p.metadata) p.generation

lemma liftWire_eq_ok_iff {α : Type} {x : Except WireError α} {a : α} :
    liftWire x = .ok a ↔ x = .ok a := by
  cases x <;> simp [liftWire]

/-! ## The version tag -/

lemma endsWithTag_iff {bytes : List UInt8} : endsWithTag bytes = true ↔ versionTag <:+ bytes :=
  List.isSuffixOf_iff_suffix

lemma endsWithTag_tagged_multiSign (metadata : List UInt8) :
    endsWithTag (tagged metadata .multiSign) = true :=
  endsWithTag_iff.mpr (List.suffix_append metadata versionTag)

/-- Metadata that may be written keeps the generations apart. -/
lemma endsWithTag_tagged_iff {metadata : List UInt8} {g : Generation} :
    (endsWithTag (tagged metadata g) = true ↔ g = .multiSign) ↔
      (g = .singleSign → endsWithTag metadata = false) := by
  cases g with
  | singleSign => simp [tagged]
  | multiSign => simp [endsWithTag_tagged_multiSign]

/-! ## The writer -/

lemma encodeFront_eq_ok_iff {metadata bytes : List UInt8} {c : Content} :
    encodeFront metadata c = .ok bytes ↔
      (c.generation = .singleSign → endsWithTag metadata = false) ∧ c.Layout bytes := by
  cases c with
  | multi package => simp [encodeFront, liftWire_eq_ok_iff, Content.Layout, Content.generation]
  | single packages =>
    rw [encodeFront]
    by_cases hempty : packages = []
    · subst hempty
      refine iff_of_false (by rintro ⟨⟩) ?_
      rintro ⟨_, hne, _⟩
      exact hne rfl
    cases htag : endsWithTag metadata with
    | true =>
      simp only [List.isEmpty_iff, hempty, if_false, if_true]
      refine iff_of_false (by rintro ⟨⟩) ?_
      rintro ⟨hfalse, _⟩
      cases hfalse rfl
    | false =>
      simp only [List.isEmpty_iff, hempty, if_false, Bool.false_eq_true, Fallible.bind_eq_ok_iff,
        Fallible.pure_eq_ok_iff, liftWire_eq_ok_iff, Content.Layout, ← Fallible.mapM_flatten_iff]
      constructor
      · rintro ⟨bodies, hbodies, n, hn, rfl⟩
        exact ⟨fun _ => trivial, hempty, _, n, ⟨bodies, hbodies, rfl⟩, hn, rfl⟩
      · rintro ⟨_, _, _, n, ⟨bodies, hbodies, rfl⟩, hn, rfl⟩
        exact ⟨bodies, hbodies, n, hn, rfl⟩

lemma encode_eq_ok_iff {p : Payload} {bytes : List UInt8} :
    p.encode = .ok bytes ↔
      (endsWithTag p.region = true ↔ p.generation = .multiSign) ∧
        ∃ front size, p.content.Layout front ∧
          Counter.metadataSize.encode p.region.length = .ok size ∧
          bytes = front ++ (p.region ++ (size ++ marker)) := by
  simp only [encode, Fallible.bind_eq_ok_iff, Fallible.pure_eq_ok_iff, liftWire_eq_ok_iff,
    encodeFront_eq_ok_iff, region, endsWithTag_tagged_iff]
  constructor
  · rintro ⟨front, ⟨htag, hfront⟩, size, hsize, rfl⟩
    exact ⟨htag, front, size, hfront, hsize, rfl⟩
  · rintro ⟨htag, front, size, hfront, hsize, rfl⟩
    exact ⟨front, ⟨htag, hfront⟩, size, hsize, rfl⟩

end Payload
end SignedFeeds
