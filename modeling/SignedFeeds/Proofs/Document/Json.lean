/-
# Payload documents as JSON, and back

Every document is what its JSON stands for, and its JSON text is read as that JSON.  The
records are treated from the inside out.  For each of them the fields are found under their
names and the values are sound, and lists of records follow from the records.
-/
import SignedFeeds.Document.Json
import SignedFeeds.Proofs.Fallible
import SignedFeeds.Proofs.Json.RoundTrip

namespace SignedFeeds

namespace Json

variable {α : Type}

lemma items?_array_map {read : Json → Option α} {write : α → Json} {xs : List α}
    (h : ∀ x ∈ xs, read (write x) = some x) : items? read (.array (xs.map write)) = some xs :=
  Fallible.mapM_map_eq_pure h

lemma areSound_eq_true {room : Nat} {items : List Json}
    (h : ∀ v ∈ items, v.isSound room = true) : areSound room items = true := by
  induction items with
  | nil => rw [areSound]
  | cons v rest ih =>
    obtain ⟨hv, hrest⟩ := List.forall_mem_cons.mp h
    rw [areSound, hv, ih hrest]
    rfl

lemma isSound_array {room : Nat} {items : List Json}
    (h : ∀ v ∈ items, v.isSound room = true) : (array items).isSound (room + 1) = true := by
  rw [isSound, Nat.add_sub_cancel, areSound_eq_true h]
  simp

lemma isSound_ofMembers {room : Nat} {members : List (String × Json)}
    (h : ∀ m ∈ members, m.2.isSound room = true) :
    (ofMembers members).isSound (room + 1) = true := by
  have hmembers : membersSound room (members.map fun m => (some m.1, m.2)) = true := by
    induction members with
    | nil => rw [List.map_nil, membersSound]
    | cons m rest ih =>
      obtain ⟨hm, hrest⟩ := List.forall_mem_cons.mp h
      rw [List.map_cons, membersSound, hm, ih hrest]
      rfl
  rw [ofMembers, isSound, Nat.add_sub_cancel, hmembers]
  simp

lemma isSound_ofText (room : Nat) (text : String) : (ofText text).isSound room = true := by
  rw [ofText, isSound]
  rfl

lemma isSound_ofNat (room : Nat) {n : Nat} (h : n < wordBound) :
    (ofNat n).isSound room = true := by
  rw [ofNat, isSound, Numeral.fitsDouble_ofNat h]

lemma written_ofMembers {members : List (String × Json)} (h : ∀ m ∈ members, Written m.2) :
    Written (ofMembers members) := by
  refine .object fun m hm => ?_
  obtain ⟨m', hm', rfl⟩ := List.mem_map.mp hm
  exact h m' hm'

lemma written_ofNat (n : Nat) : Written (ofNat n) := .number (Numeral.ofNat_grammatical n)

lemma written_array_map {write : α → Json} {xs : List α} (h : ∀ x ∈ xs, Written (write x)) :
    Written (.array (xs.map write)) := .array (List.forall_mem_map.mpr h)

lemma word?_ofNat_toNat (n : UInt64) : (ofNat n.toNat).word? = some n := by
  have hlt : n.toNat < wordBound := n.toNat_lt
  have hnat : (ofNat n.toNat).natBelow? wordBound = some n.toNat := by
    rw [ofNat, natBelow?, Numeral.toNat?_ofNat, Option.filter_some, if_pos (decide_eq_true hlt)]
  rw [word?, hnat, Option.map_some, UInt64.ofNat_toNat]

end Json

open Json

namespace PointDocument

variable (doc : PointDocument)

lemma ofJson?_toJson : ofJson? doc.toJson = some doc := by
  have hfields : doc.toJson.fields? ["dataFeedId", "value"] =
      some [some (ofText doc.feed), some (ofText doc.value)] := by
    simp [toJson, ofMembers, fields?, objectFields?, member?]
  rw [ofJson?, hfields]
  rfl

lemma isSound_toJson (room : Nat) : doc.toJson.isSound (room + 1) = true := by
  refine isSound_ofMembers ?_
  simp only [List.forall_mem_cons]
  exact ⟨isSound_ofText _ _, isSound_ofText _ _, List.forall_mem_nil _⟩

lemma written_toJson : doc.toJson.Written := by
  refine written_ofMembers ?_
  simp only [List.forall_mem_cons]
  exact ⟨.string _, .string _, List.forall_mem_nil _⟩

end PointDocument

namespace PackageDocument

variable (doc : PackageDocument) {extra : String} {other : Json}

/-- The fields of a package are found beside one further member. -/
lemma ofJson?_ofMembers (other : Json) (hpoints : extra ≠ "dataPoints")
    (htimestamp : extra ≠ "timestampMilliseconds") :
    ofJson? extra (.ofMembers (doc.members ++ [(extra, other)])) = some (doc, other) := by
  have hfields : (Json.ofMembers (doc.members ++ [(extra, other)])).objectFields?
      ["dataPoints", "timestampMilliseconds", extra] =
        some [some (.array (doc.points.map PointDocument.toJson)),
          some (ofNat doc.timestamp.toNat), some other] := by
    simp [members, ofMembers, objectFields?, member?, hpoints, htimestamp, hpoints.symm,
      htimestamp.symm]
  have hitems := items?_array_map fun q (_ : q ∈ doc.points) => q.ofJson?_toJson
  rw [ofJson?, hfields]
  simp only [Option.bind_eq_bind, Option.bind_some, hitems, word?_ofNat_toNat]
  rfl

lemma isSound_ofMembers {room : Nat} (hother : other.isSound (room + 2) = true) :
    (Json.ofMembers (doc.members ++ [(extra, other)])).isSound (room + 3) = true := by
  refine Json.isSound_ofMembers ?_
  simp only [members, List.cons_append, List.nil_append, List.forall_mem_cons]
  refine ⟨isSound_array (List.forall_mem_map.mpr fun q _ => q.isSound_toJson room),
    isSound_ofNat _ doc.timestamp.toNat_lt, hother, List.forall_mem_nil _⟩

lemma written_ofMembers (hother : other.Written) :
    (Json.ofMembers (doc.members ++ [(extra, other)])).Written := by
  refine Json.written_ofMembers ?_
  simp only [members, List.cons_append, List.nil_append, List.forall_mem_cons]
  exact ⟨written_array_map fun q _ => q.written_toJson, written_ofNat _, hother,
    List.forall_mem_nil _⟩

end PackageDocument

namespace SignedDocument

variable (doc : SignedDocument)

lemma ofJson?_toJson : ofJson? doc.toJson = some doc := by
  have hsound : doc.toJson.isSound (maxOpen - 2) = true :=
    doc.package.isSound_ofMembers (isSound_ofText _ _)
  have hpackage : PackageDocument.ofJson? "signature" doc.toJson = some (doc.package, _) :=
    doc.package.ofJson?_ofMembers (.ofText doc.signature) (by decide) (by decide)
  rw [ofJson?, if_pos hsound, hpackage]
  rfl

lemma written_toJson : doc.toJson.Written := doc.package.written_ofMembers (.string _)

end SignedDocument

namespace CosignedDocument

variable (doc : CosignedDocument)

lemma ofJson?_toJson : ofJson? doc.toJson = some doc := by
  have hsound : doc.toJson.isSound (maxOpen - 1) = true :=
    doc.package.isSound_ofMembers
      (isSound_array (List.forall_mem_map.mpr fun text _ => isSound_ofText _ text))
  have hpackage : PackageDocument.ofJson? "signatures" doc.toJson = some (doc.package, _) :=
    doc.package.ofJson?_ofMembers (.array (doc.signatures.map .ofText)) (by decide) (by decide)
  have hsignatures : items? text? (.array (doc.signatures.map .ofText)) = some doc.signatures :=
    items?_array_map fun text _ => rfl
  rw [ofJson?, if_pos hsound, hpackage]
  simp only [Option.bind_eq_bind, Option.bind_some, hsignatures]
  rfl

lemma written_toJson : doc.toJson.Written :=
  doc.package.written_ofMembers (written_array_map fun _ _ => .string _)

end CosignedDocument

namespace PayloadDocument

variable (doc : PayloadDocument)

/-- The fields of a payload; the last two are missing when they have no content. -/
lemma fields?_toJson :
    doc.toJson.fields? ["version", "unsignedMetadata", "dataPackages", "multiSignDataPackage"] =
      some [some (ofNat doc.version.toNat), some (ofText doc.metadata),
        if doc.packages.isEmpty then none
          else some (.array (doc.packages.map SignedDocument.toJson)),
        doc.cosigned.map CosignedDocument.toJson] := by
  obtain ⟨version, metadata, packages, cosigned⟩ := doc
  cases packages <;> cases cosigned <;>
    simp [toJson, ofMembers, fields?, objectFields?, member?]

lemma ofJson?_toJson : ofJson? doc.toJson = some doc := by
  obtain ⟨version, metadata, packages, cosigned⟩ := doc
  have hpackages : fieldD [] (items? SignedDocument.ofJson?)
      (if packages.isEmpty then none else some (.array (packages.map SignedDocument.toJson))) =
        some packages := by
    cases packages with
    | nil => rfl
    | cons m rest => exact items?_array_map fun m _ => m.ofJson?_toJson
  have hcosigned : fieldD none cosignedOfJson? (cosigned.map CosignedDocument.toJson) =
      some cosigned := by
    cases cosigned with
    | none => rfl
    | some m =>
      show (CosignedDocument.ofJson? m.toJson).map some = _
      rw [m.ofJson?_toJson]
      rfl
  rw [ofJson?, fields?_toJson]
  simp only [Option.bind_eq_bind, Option.bind_some, word?_ofNat_toNat, hpackages, hcosigned]
  rfl

lemma written_toJson : doc.toJson.Written := by
  refine written_ofMembers ?_
  simp only [List.forall_mem_append, List.forall_mem_cons]
  refine ⟨⟨⟨written_ofNat _, .string _, List.forall_mem_nil _⟩, ?_⟩, ?_⟩
  · split_ifs
    · exact List.forall_mem_nil _
    · exact List.forall_mem_singleton.mpr (written_array_map fun m _ => m.written_toJson)
  · cases doc.cosigned with
    | none => exact List.forall_mem_nil _
    | some m => exact List.forall_mem_singleton.mpr m.written_toJson

/-- The JSON text of a document is read as the document. -/
lemma parse?_render : (Json.parse? doc.toJson.render).bind ofJson? = some doc := by
  rw [Json.parse?_render doc.written_toJson, Option.bind_some, ofJson?_toJson]

end PayloadDocument
end SignedFeeds
