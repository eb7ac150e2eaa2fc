/-
# What can be wrong with a buffer

`Payload.Fault` lists the errors that finding a payload can end with.  What stands behind the
signed part, up to the size of the metadata, is read first (`readHead`); from there on the probe
for the version tag has decided for one generation, and only the fields of that generation can be
cut off.

Reading the metadata is never short of bytes: the whole region has been asked for before, and the
probe finds a tag in a region of at least two bytes only.
-/
import SignedFeeds.Proofs.Package.Faults
import SignedFeeds.Proofs.Payload.Limits

namespace SignedFeeds
namespace Payload

open Reader

/-- What can be wrong with a buffer, if only the given fields can be cut off. -/
inductive Fault (limits : Limits) (fields : List String) : PayloadError → Prop
  | invalidMarker (found : List UInt8) : Fault limits fields (.invalidMarker found)
  | malformedMetadata : Fault limits fields .malformedMetadata
  | noPackages : Fault limits fields .noPackages
  | exceeded {e : PayloadError} (above : limits.Exceeded e) : Fault limits fields e
  | wire {cause : WireError} (fault : cause.ReadFault fields) : Fault limits fields (.wire cause)

variable {limits : Limits} {fields fields' : List String} {t t' : Tail} {size : Nat}

lemma Fault.mono (hsub : fields ⊆ fields') {e : PayloadError} (h : Fault limits fields e) :
    Fault limits fields' e := by
  cases h with
  | invalidMarker found => exact .invalidMarker found
  | malformedMetadata => exact .malformedMetadata
  | noPackages => exact .noPackages
  | exceeded above => exact .exceeded above
  | wire fault => exact .wire (fault.mono hsub)

/-- A run that fails with such errors only. -/
abbrev FaultsAt {α : Type} (limits : Limits) (fields : List String) (read : PayloadReader α)
    (t : Tail) : Prop := FailsOnly (Fault limits fields) read t

lemma liftReader_faults {α : Type} {read : Reader WireError α} (h : ReadFaultsAt fields read t) :
    FaultsAt limits fields (liftReader read) t :=
  h.mapError fun _ => .wire

lemma inspect_bind_faults {α β : Type} {f : Tail → α} {next : α → PayloadReader β}
    (h : FaultsAt limits fields (next (f t)) t) : FaultsAt limits fields (inspect f >>= next) t := h

/-! ## Marker and metadata -/

/-- What has been compared is there to be taken. -/
lemma readMarker_faults : FaultsAt limits fields readMarker t := by
  refine inspect_bind_faults ?_
  split
  · next hpeek =>
    have hroom : marker.length ≤ t.remaining := by
      obtain ⟨-, front, hrest⟩ := Tail.peek?_eq_some_iff.mp hpeek
      rw [← Tail.length_rest, hrest, List.length_append]
      omega
    exact (liftReader_faults ((take_fixed _ _).failsOnly hroom)).bind fun _ _ _ => .pure ()
  · exact .throw (.invalidMarker _)

lemma two_le_of_probe (h : probe size t = .multiSign) : 2 ≤ size := by
  rw [probe] at h
  split at h
  · next htag => exact htag.1
  · cases h

/-- Metadata that have room can only fail to be a text. -/
lemma readText_faults {length : Nat} (hroom : length ≤ t.remaining) :
    FaultsAt limits fields
      (do
        match Text.ofBytes? (← liftReader (take "unsigned metadata" length)) with
        | some metadata => return metadata
        | none => throw .malformedMetadata : PayloadReader String) t := by
  refine (liftReader_faults ((take_fixed _ _).failsOnly hroom)).bind fun bytes _ _ => ?_
  cases Text.ofBytes? bytes with
  | some metadata => exact .pure metadata
  | none => exact .throw .malformedMetadata

/-- The probe finds a tag only where it has room, and leaves the rest of the region to the text. -/
lemma readMetadata_faults (hroom : size ≤ t.remaining) :
    FaultsAt limits fields (readMetadata size (probe size t)) t := by
  cases hprobe : probe size t with
  | singleSign => exact readText_faults hroom
  | multiSign =>
    have htwo : 2 ≤ t.remaining := Nat.le_trans (two_le_of_probe hprobe) hroom
    refine (liftReader_faults ((take_fixed _ _).failsOnly htwo)).bind fun tag t' htake => ?_
    obtain ⟨hlen, hsplit⟩ := take_eq_ok_iff.mp (mapError_eq_ok_iff.mp htake)
    have hrest : t.remaining = t'.remaining + 2 := by rw [hsplit.remaining_eq, hlen]
    exact readText_faults (by omega)

/-! ## The signed content -/

lemma checkPoints_faults (skip : Nat) : FaultsAt limits fields (checkPoints limits skip) t := by
  refine inspect_bind_faults ?_
  cases hahead : pointsAhead? skip t with
  | none => exact .pure ()
  | some count =>
    show FailsOnly _ (ite _ _ _) t
    split
    · next habove => exact .throw (.exceeded (.points habove (pointsAhead?_lt hahead)))
    · exact .pure ()

/-- The fields of the signed part of a payload that can be cut off. -/
def cutFields : Generation → List String
  | .singleSign => "data packages count" :: "data packages" :: SignedPackage.cutFields
  | .multiSign => CosignedPackage.cutFields

lemma readPackages_faults : FaultsAt limits (cutFields .singleSign) (readPackages limits) t := by
  refine (liftReader_faults (takeCounter_faults (by decide) (by decide))).bind
    fun count _ hcount => ?_
  have hfits := takeCounter_lt (mapError_eq_ok_iff.mp hcount)
  have hcapacity : BigEndian.capacity Counter.packages.width * minPackageSize < Tail.maxSize := by
    decide
  have hsize : count * minPackageSize < Tail.maxSize :=
    Nat.lt_of_le_of_lt (Nat.mul_le_mul_right _ (Nat.le_of_lt hfits)) hcapacity
  refine .guarded (fun _ => .noPackages) fun _ =>
    .guarded (fun habove => .exceeded (.packages habove hfits)) fun _ =>
      (liftReader_faults (require_faults (by decide) hsize)).bind fun _ _ _ =>
        .times (fun t => ?_) count
  exact (checkPoints_faults 65).bind fun _ _ _ =>
    liftReader_faults (SignedPackage.read_faults.mono fun _ => .mono (by decide))

lemma readCosigned_faults : FaultsAt limits (cutFields .multiSign) (readCosigned limits) t := by
  have hread (t : Tail) : FaultsAt limits CosignedPackage.cutFields
      (liftReader CosignedPackage.read) t := liftReader_faults CosignedPackage.read_faults
  rw [readCosigned_eq]
  refine inspect_bind_faults ?_
  split
  · exact (checkPoints_faults _).bind fun _ _ _ => hread _
  · exact hread t

lemma readContent_faults (g : Generation) :
    FaultsAt limits (cutFields g) (readContent limits g) t := by
  cases g with
  | singleSign => exact readPackages_faults.map _
  | multiSign => exact readCosigned_faults.map _

/-! ## The two parts of a run -/

/-- Reads what stands behind the metadata, and gives the size of their region, which is there. -/
def readHead : PayloadReader Nat := do
  readMarker
  let size ← liftReader (takeCounter .metadataSize)
  liftReader (require "unsigned metadata" size 1)
  return size

/-- Reads the metadata, whose region has the given size, and the signed content. -/
def readBody (limits : Limits) (size : Nat) : PayloadReader Payload := do
  let generation ← inspect (probe size)
  let metadata ← readMetadata size generation
  let content ← readContent limits generation
  return ⟨content, metadata⟩

lemma read_eq_bind (limits : Limits) : read limits = readHead >>= readBody limits := by
  simp only [readHead, bind_assoc, pure_bind]
  rfl

/-- The fields behind the signed part that can be cut off. -/
def headFields : List String := ["unsigned metadata size", "unsigned metadata"]

lemma readHead_faults : FaultsAt limits headFields readHead t := by
  refine readMarker_faults.bind fun _ _ _ =>
    (liftReader_faults (takeCounter_faults (by decide) (by decide))).bind fun size _ hsize => ?_
  have hfits := takeCounter_lt (mapError_eq_ok_iff.mp hsize)
  have hcapacity : BigEndian.capacity Counter.metadataSize.width < Tail.maxSize := by decide
  exact (liftReader_faults (require_faults (by decide) (by omega))).bind fun _ _ _ => .pure size

/-- After the head the region of the metadata is there. -/
lemma readHead_room (h : readHead t = .ok size t') : size ≤ t'.remaining := by
  obtain ⟨_, _, -, h⟩ := bind_eq_ok_iff.mp h
  obtain ⟨_, _, -, h⟩ := bind_eq_ok_iff.mp h
  obtain ⟨_, _, hrequire, hpure⟩ := bind_eq_ok_iff.mp h
  obtain ⟨rfl, rfl⟩ := EStateM.Result.ok.inj hpure
  obtain ⟨hroom, rfl⟩ := require_eq_ok_iff.mp (mapError_eq_ok_iff.mp hrequire)
  omega

lemma readBody_faults (hroom : size ≤ t.remaining) :
    FaultsAt limits (cutFields (probe size t)) (readBody limits size) t := by
  refine inspect_bind_faults ?_
  exact (readMetadata_faults hroom).bind fun metadata _ _ =>
    (readContent_faults _).bind fun content _ _ => .pure (Payload.mk content metadata)

/-- The metadata region of the buffer has the given size, and the probe into it decides for the
given generation. -/
def Probed (buffer : List UInt8) (size : Nat) (g : Generation) : Prop :=
  ∃ t, readHead (Tail.ofBytes buffer) = .ok size t ∧ probe size t = g

/-! ## Finding a payload -/

variable {buffer : List UInt8} {e : PayloadError}

lemma Probed.unique {size' : Nat} {g g' : Generation} (h : Probed buffer size g)
    (h' : Probed buffer size' g') : g = g' := by
  obtain ⟨t, hhead, rfl⟩ := h
  obtain ⟨t', hhead', rfl⟩ := h'
  rw [hhead] at hhead'
  obtain ⟨rfl, rfl⟩ := EStateM.Result.ok.inj hhead'
  rfl

/-- A fault lies in the head, or in the signed part of the generation that the probe finds. -/
lemma fault_of_parse (h : parse buffer limits = .error e) :
    Fault limits headFields e ∧ (∀ size g, ¬ Probed buffer size g) ∨
      ∃ size g, Probed buffer size g ∧ Fault limits (cutFields g) e := by
  rw [parse] at h
  split at h
  · cases h
  next e' t' hread =>
  obtain rfl := Except.error.inj h
  rw [read_eq_bind, bind_apply] at hread
  cases hhead : readHead (Tail.ofBytes buffer) with
  | error e s =>
    rw [hhead] at hread
    obtain ⟨rfl, rfl⟩ := EStateM.Result.error.inj hread
    refine .inl ⟨readHead_faults _ _ hhead, ?_⟩
    rintro size g ⟨t, hok, -⟩
    rw [hhead] at hok
    cases hok
  | ok size s =>
    rw [hhead] at hread
    exact .inr ⟨size, _, ⟨s, hhead, rfl⟩, readBody_faults (readHead_room hhead) _ _ hread⟩

lemma Fault.of_truncated {field : String} {needed remaining : Nat}
    (h : Fault limits fields (.wire (.truncated field needed remaining))) :
    field ∈ fields ∧ remaining < needed ∧ needed < Tail.maxSize := by
  cases h with
  | exceeded above => cases above
  | wire fault =>
    cases fault with
    | truncated listed short fits => exact ⟨listed, short, fits⟩

lemma Fault.of_malformed {field : String} {expected actual : Nat}
    (h : Fault limits fields (.wire (.malformed field expected actual))) :
    field = "value byte width" ∧ expected = 1 ∧ actual = 0 := by
  cases h with
  | exceeded above => cases above
  | wire fault =>
    cases fault with
    | zeroWidth => exact ⟨rfl, rfl, rfl⟩

/-- The fields of a payload that can be cut off. -/
def allFields : List String := headFields ++ (cutFields .singleSign ++ cutFields .multiSign)

/-- **Finding a payload fails in a few ways only.**  Whatever the buffer and the limits, the error
is one of `Fault`: there is no marker, the metadata are no text, there are no packages, a count is
above its limit, a package has no points, no signatures, values of no bytes, or points out of order
or repeated, or one of the listed fields is cut off.  In the last case more bytes are needed than
are left, and the number of them is exact.  Once the probe has decided for a generation, only the
fields of that generation are cut off, so that behind a version tag it is never a single signature;
and where the probe finds the tag, the metadata region has room for it. -/
theorem parse_error_surface (buffer : List UInt8) (limits : Limits) :
    (∀ e, parse buffer limits = .error e →
      Fault limits allFields e ∧
      (∀ field needed remaining, e = .wire (.truncated field needed remaining) →
        remaining < needed ∧ needed < Tail.maxSize ∧
          field ∉ ["payload version", "data feed id", "value"]) ∧
      (∀ field expected actual, e = .wire (.malformed field expected actual) →
        field = "value byte width" ∧ expected = 1 ∧ actual = 0) ∧
      (∀ size g, Probed buffer size g → Fault limits (cutFields g) e) ∧
      ∀ size, Probed buffer size .multiSign → ∀ needed remaining,
        e ≠ .wire (.truncated "signature" needed remaining)) ∧
    ∀ size, Probed buffer size .multiSign → 2 ≤ size := by
  refine ⟨fun e h => ?_, fun size ⟨t, _, hprobe⟩ => two_le_of_probe hprobe⟩
  have hall : Fault limits allFields e := by
    rcases fault_of_parse h with ⟨hhead, -⟩ | ⟨size, g, -, hbody⟩
    · exact hhead.mono (List.subset_append_left ..)
    · cases g with
      | singleSign => exact hbody.mono (by decide)
      | multiSign => exact hbody.mono (by decide)
  have hprobed (size : Nat) (g : Generation) (hg : Probed buffer size g) :
      Fault limits (cutFields g) e := by
    rcases fault_of_parse h with ⟨-, hnot⟩ | ⟨size', g', hg', hbody⟩
    · exact absurd hg (hnot size g)
    · obtain rfl := hg.unique hg'
      exact hbody
  refine ⟨hall, ?_, ?_, hprobed, ?_⟩
  · rintro field needed remaining rfl
    obtain ⟨hlisted, hshort, hexact⟩ := hall.of_truncated
    have hdisjoint : ∀ field ∈ allFields, field ∉ ["payload version", "data feed id", "value"] := by
      decide
    exact ⟨hshort, hexact, hdisjoint field hlisted⟩
  · rintro field expected actual rfl
    exact hall.of_malformed
  · rintro size htag needed remaining rfl
    exact absurd (hprobed size .multiSign htag).of_truncated.1 (by decide)

/-- Of a cosigned package with five signatures only their number is there. -/
def cutSignatures : List UInt8 := [5, 97, 98, 99] ++ versionTag ++ [0, 0, 5] ++ marker

/-- A package that announces as many data points as can be written, and of the largest width. -/
def cutPoints : List UInt8 :=
  List.replicate 39 0 ++ List.replicate 7 255 ++ List.replicate 65 0 ++ [0, 1, 0, 0, 0] ++ marker

theorem parse_error_surface_sample :
    parse cutSignatures = .error (.wire (.truncated "signatures" 325 0)) ∧
      Probed cutSignatures 5 .multiSign ∧ 2 ≤ 5 ∧
      Fault {} (cutFields .multiSign) (.wire (.truncated "signatures" 325 0)) ∧
      parse cutPoints = .error (.wire (.truncated "data points" 72057590263054305 33)) ∧
      Fault {} allFields (.wire (.truncated "data points" 72057590263054305 33)) ∧
      33 < 72057590263054305 ∧ 72057590263054305 < Tail.maxSize := by
  have hsignatures : parse cutSignatures = .error (.wire (.truncated "signatures" 325 0)) := rfl
  have htag : Probed cutSignatures 5 .multiSign := ⟨_, rfl, rfl⟩
  have hpoints : parse cutPoints =
      .error (.wire (.truncated "data points" 72057590263054305 33)) := rfl
  obtain ⟨hfaults, hroom⟩ := parse_error_surface cutSignatures {}
  obtain ⟨-, -, -, hprobed, -⟩ := hfaults _ hsignatures
  obtain ⟨hall, htruncated, -⟩ := (parse_error_surface cutPoints {}).1 _ hpoints
  obtain ⟨hless, hexact, -⟩ := htruncated _ _ _ rfl
  exact ⟨hsignatures, htag, hroom 5 htag, hprobed 5 _ htag, hpoints, hall, hless, hexact⟩

end Payload
end SignedFeeds
