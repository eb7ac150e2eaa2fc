/-
# What the probe takes for a version tag

The generation of a payload is found by a look at the two bytes in front of the size field.  The
size says how long the metadata region is.  The two bytes may reach beyond the region, into what
stands in front of it, when the region has one byte or none; then the probe does not take them for
a tag, whatever they are (`probe_of_split`).

So the probe finds a tag exactly where the metadata end in one.  That is what is tested when
single-sign metadata are to be written: what is refused is just what would be taken for
multi-sign, if it were written without that test (`encodeUnchecked`).
-/
import SignedFeeds.Proofs.Payload.Domain
import SignedFeeds.Proofs.Payload.Faults

namespace SignedFeeds
namespace Payload

open Reader

variable {t t' : Tail} {size : Nat} {p : Payload} {packages : List SignedPackage}

/-- The test compares the last two bytes, if there are two. -/
lemma endsWithTag_iff_drop {metadata : List UInt8} :
    endsWithTag metadata = true ↔
      2 ≤ metadata.length ∧ metadata.drop (metadata.length - 2) = versionTag := by
  have hlen : versionTag.length = 2 := rfl
  rw [endsWithTag_iff]
  constructor
  · rintro ⟨front, rfl⟩
    refine ⟨by simp [hlen], ?_⟩
    rw [List.length_append, hlen, Nat.add_sub_cancel, List.drop_left]
  · rintro ⟨-, hdrop⟩
    rw [← hdrop]
    exact List.drop_suffix _ _

/-! ## The head of a buffer -/

/-- The head is read exactly where a size and the marker stand behind a region of that size. -/
lemma readHead_eq_ok_iff :
    readHead t = .ok size t' ↔
      ∃ field, Counter.metadataSize.encode size = .ok field ∧ t.Split (field ++ marker) t' ∧
        size ≤ t'.remaining := by
  simp only [readHead, bind_eq_ok_iff, readMarker_accepts _ _ _, mapError_eq_ok_iff, liftReader,
    takeCounter_accepts _ _ _ _, require_eq_ok_iff, Nat.mul_one, Tail.Split.append_iff]
  constructor
  · rintro ⟨u, t₁, ⟨_, rfl, hmarker⟩, n, t₂, ⟨field, hfield, hsize⟩, u', t₃, ⟨hroom, rfl⟩, hpure⟩
    obtain ⟨rfl, rfl⟩ := EStateM.Result.ok.inj hpure
    exact ⟨field, hfield, ⟨t₁, hmarker, hsize⟩, hroom⟩
  · rintro ⟨field, hfield, ⟨t₁, hmarker, hsize⟩, hroom⟩
    exact ⟨(), t₁, ⟨marker, rfl, hmarker⟩, size, t', ⟨field, hfield, hsize⟩, (), t', ⟨hroom, rfl⟩,
      rfl⟩

/-- Behind the head of a buffer the probe sees the region. -/
lemma readHead_of_region (front : List UInt8) {region field : List UInt8}
    (hfield : Counter.metadataSize.encode region.length = .ok field) :
    ∃ t, readHead (Tail.ofBytes (front ++ (region ++ (field ++ marker)))) = .ok region.length t ∧
      t.rest = front ++ region ∧
      (probe region.length t = .multiSign ↔ endsWithTag region = true) := by
  obtain ⟨t, hhead, hregion⟩ :=
    Tail.Split.append_iff.mp (Tail.split_ofBytes front (region ++ (field ++ marker)))
  refine ⟨t, readHead_eq_ok_iff.mpr ⟨field, hfield, hhead, hregion.length_le⟩, ?_,
    probe_of_split hregion⟩
  rw [hregion.rest_eq, Tail.rest, List.reverse_reverse]

lemma probed_of_endsWithTag (front : List UInt8) {region field : List UInt8}
    (hfield : Counter.metadataSize.encode region.length = .ok field)
    (htag : endsWithTag region = true) :
    Probed (front ++ (region ++ (field ++ marker))) region.length .multiSign := by
  obtain ⟨t, hhead, -, hprobe⟩ := readHead_of_region front hfield
  exact ⟨t, hhead, hprobe.mpr htag⟩

lemma endsWithTag_of_probed {front region field : List UInt8}
    (hfield : Counter.metadataSize.encode region.length = .ok field)
    (h : Probed (front ++ (region ++ (field ++ marker))) size .multiSign) :
    endsWithTag region = true := by
  obtain ⟨t, hhead, -, hprobe⟩ := readHead_of_region front hfield
  exact hprobe.mp (h.unique ⟨t, hhead, rfl⟩).symm

/-- What is found has the generation for which the probe decides. -/
lemma generation_of_probed {buffer : List UInt8} {limits : Limits} {found : Found} {g : Generation}
    (hfound : parse buffer limits = .ok found) (h : Probed buffer size g) :
    found.payload.generation = g := by
  obtain ⟨-, -, bytes, hencode, rfl⟩ := parse_eq_ok_iff.mp hfound
  obtain ⟨htag, front, field, -, hfield, rfl⟩ := encode_eq_ok_iff.mp hencode
  rw [← List.append_assoc] at h
  obtain ⟨t, hhead, -, hprobe⟩ := readHead_of_region (found.before ++ front) hfield
  obtain rfl := h.unique ⟨t, hhead, rfl⟩
  rw [htag] at hprobe
  cases hg : found.payload.generation with
  | multiSign => exact (hprobe.mpr hg).symm
  | singleSign =>
    cases hp : probe found.payload.region.length t with
    | singleSign => rfl
    | multiSign => exact absurd (hprobe.mp hp) (by rw [hg]; decide)

/-! ## What is refused -/

lemma encode_eq_ambiguous_iff (hcontent : p.content = .single packages) (hne : packages ≠ []) :
    p.encode = .error .ambiguousMetadata ↔ endsWithTag (Text.toBytes p.metadata) = true := by
  constructor
  · intro h
    cases firstFault_of_encode h with
    | ambiguousMetadata _ _ htag => exact endsWithTag_iff.mpr htag
  · intro htag
    exact encode_of_firstFault (.ambiguousMetadata hcontent hne (endsWithTag_iff.mp htag))

lemma region_of_encodeUnchecked {metadata bytes : List UInt8}
    (h : encodeUnchecked packages metadata = .ok bytes) :
    ∃ front field, Counter.metadataSize.encode metadata.length = .ok field ∧
      bytes = front ++ (metadata ++ (field ++ marker)) := by
  simp only [encodeUnchecked, Fallible.bind_eq_ok_iff, Fallible.pure_eq_ok_iff,
    liftWire_eq_ok_iff] at h
  obtain ⟨bodies, -, count, -, field, hfield, rfl⟩ := h
  exact ⟨_, field, hfield, rfl⟩

/-- **What is refused is just what would be misread.**  Whatever stands in front of metadata of
fewer than 2²⁴ bytes, once the marker and the size have been read, the probe decides for
multi-sign if and only if the metadata end in the version tag; this is so for metadata of one byte
or none as well, where the two bytes that the probe looks at reach into what stands in front.  Hence
a payload of single-sign packages is refused for its metadata if and only if, in its bytes as they
would be without the test, the probe finds a tag; and whatever is found in such bytes is
multi-sign.  To all other payloads the test makes no difference. -/
theorem ambiguous_iff_probed_multiSign :
    (∀ front metadata : List UInt8, metadata.length < 2 ^ 24 →
      ∃ t, readHead (Tail.ofBytes
          (front ++ (metadata ++ (BigEndian.ofNat 3 metadata.length ++ marker)))) =
            .ok metadata.length t ∧ t.rest = front ++ metadata ∧
        (probe metadata.length t = .multiSign ↔ endsWithTag metadata = true)) ∧
    (∀ metadata, endsWithTag metadata = true ↔
      2 ≤ metadata.length ∧ metadata.drop (metadata.length - 2) = [0x00, 0x02]) ∧
    ∀ (p : Payload) packages, p.content = .single packages → packages ≠ [] →
      (p.encode =
        if endsWithTag (Text.toBytes p.metadata) then .error .ambiguousMetadata
        else encodeUnchecked packages (Text.toBytes p.metadata)) ∧
      (∀ front, (Text.toBytes p.metadata).length < 2 ^ 24 →
        (p.encode = .error .ambiguousMetadata ↔
          Probed (front ++ (Text.toBytes p.metadata ++
            (BigEndian.ofNat 3 (Text.toBytes p.metadata).length ++ marker)))
              (Text.toBytes p.metadata).length .multiSign)) ∧
      ∀ bytes, encodeUnchecked packages (Text.toBytes p.metadata) = .ok bytes →
        (p.encode = .error .ambiguousMetadata ↔ ∃ size, Probed bytes size .multiSign) ∧
        (p.encode = .error .ambiguousMetadata → ∀ limits found,
          parse bytes limits = .ok found → found.payload.generation = .multiSign) := by
  have hsize (metadata : List UInt8) (hlt : metadata.length < 2 ^ 24) :
      Counter.metadataSize.encode metadata.length = .ok (BigEndian.ofNat 3 metadata.length) :=
    DataPackage.counter_encode_of_lt capacity_eq.2 hlt
  refine ⟨fun front metadata hlt => readHead_of_region front (hsize metadata hlt),
    fun metadata => endsWithTag_iff_drop, fun p packages hcontent hne => ?_⟩
  simp only [encode_eq_ambiguous_iff hcontent hne]
  refine ⟨encode_eq_of_single hcontent hne, fun front hlt => ?_, fun bytes hbytes => ?_⟩
  · exact ⟨probed_of_endsWithTag front (hsize _ hlt), endsWithTag_of_probed (hsize _ hlt)⟩
  · obtain ⟨front, field, hfield, rfl⟩ := region_of_encodeUnchecked hbytes
    refine ⟨⟨fun htag => ⟨_, probed_of_endsWithTag front hfield htag⟩, ?_⟩, ?_⟩
    · rintro ⟨size, hprobed⟩
      exact endsWithTag_of_probed hfield hprobed
    · intro htag limits found hfound
      exact generation_of_probed hfound (probed_of_endsWithTag front hfield htag)

/-- One package that can be written. -/
def sampleSingle : List SignedPackage := [⟨.sample, ⟨Block.zero⟩⟩]

lemma exists_encodeUnchecked_sampleSingle (metadata : List UInt8)
    (hlt : metadata.length < 2 ^ 24) :
    ∃ bytes, encodeUnchecked sampleSingle metadata = .ok bytes :=
  exists_encodeUnchecked (List.forall_mem_singleton.mpr DataPackage.exists_encode_sample)
    (by decide) hlt

/-- Two bytes like a tag in front of the size: one of them or both in front of the metadata, and
both within the metadata. -/
theorem ambiguous_iff_probed_multiSign_sample :
    (∃ t, readHead (Tail.ofBytes ([0x01, 0x00] ++ ([0x02] ++ (BigEndian.ofNat 3 1 ++ marker)))) =
      .ok 1 t ∧ t.rest = [0x01, 0x00, 0x02] ∧ probe 1 t ≠ .multiSign) ∧
    (∃ t, readHead (Tail.ofBytes ([0x00, 0x02] ++ ([] ++ (BigEndian.ofNat 3 0 ++ marker)))) =
      .ok 0 t ∧ t.rest = [0x00, 0x02] ∧ probe 0 t ≠ .multiSign) ∧
    (∃ bytes, encodeUnchecked sampleSingle (Text.toBytes "\x02") = .ok bytes ∧
      (∀ size, ¬ Probed bytes size .multiSign) ∧
      encode ⟨.single sampleSingle, "\x02"⟩ = .ok bytes) ∧
    ∃ bytes size, encodeUnchecked sampleSingle (Text.toBytes "x\x00\x02") = .ok bytes ∧
      Probed bytes size .multiSign ∧
      encode ⟨.single sampleSingle, "x\x00\x02"⟩ = .error .ambiguousMetadata := by
  obtain ⟨hprobe, -, hpayload⟩ := ambiguous_iff_probed_multiSign
  refine ⟨?_, ?_, ?_, ?_⟩
  · obtain ⟨t, hhead, hrest, hiff⟩ := hprobe [0x01, 0x00] [0x02] (by decide)
    exact ⟨t, hhead, hrest, mt hiff.mp (by decide)⟩
  · obtain ⟨t, hhead, hrest, hiff⟩ := hprobe [0x00, 0x02] [] (by decide)
    exact ⟨t, hhead, hrest, mt hiff.mp (by decide)⟩
  · obtain ⟨bytes, hbytes⟩ :=
      exists_encodeUnchecked_sampleSingle (Text.toBytes "\x02") (by decide)
    obtain ⟨hencode, -, hwritten⟩ :=
      hpayload ⟨.single sampleSingle, "\x02"⟩ sampleSingle rfl (by decide)
    rw [if_neg (by decide), hbytes] at hencode
    refine ⟨bytes, hbytes, fun size hprobed => ?_, hencode⟩
    have hrefused := (hwritten bytes hbytes).1.mpr ⟨size, hprobed⟩
    rw [hencode] at hrefused
    cases hrefused
  · obtain ⟨bytes, hbytes⟩ :=
      exists_encodeUnchecked_sampleSingle (Text.toBytes "x\x00\x02") (by decide)
    obtain ⟨hencode, -, hwritten⟩ :=
      hpayload ⟨.single sampleSingle, "x\x00\x02"⟩ sampleSingle rfl (by decide)
    rw [if_pos (by decide)] at hencode
    obtain ⟨size, hprobed⟩ := (hwritten bytes hbytes).1.mp hencode
    exact ⟨bytes, size, hbytes, hprobed, hencode⟩

end Payload
end SignedFeeds
