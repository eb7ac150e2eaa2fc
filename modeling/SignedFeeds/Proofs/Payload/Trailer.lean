/-
# Cutting into the trailer

Every payload ends with the marker, so a payload that has lost bytes at its end should be noticed
by the marker that is missing.  But the marker begins as it ends, with zeros, and when it has lost
seven or more of its nine bytes, another marker could end where it is cut.  That marker would
begin inside the metadata (`region_of_shorter`): the size of the metadata would be its last three
bytes but one or two zeros, and the metadata would end with its beginning, which has the byte
0xed as its fourth.

No metadata region ends like that.  Behind the metadata of a multi-sign payload stands the
version tag.  And in a text the byte 0xed leads a character of three bytes, so it neither ends a
text nor stands before the byte 0x57, which is the next one of the marker.
-/
import Mathlib.Data.List.DropRight
import SignedFeeds.Proofs.Bytes.Utf8
import SignedFeeds.Proofs.Payload.RoundTrip

namespace SignedFeeds
namespace Payload

variable {p : Payload} {front bytes buffer : List UInt8} {limits : Limits}

/-! ## Buffers without a marker -/

/-- A buffer that does not end with the marker is refused with the bytes that stand in its place. -/
lemma parse_of_not_suffix (h : ¬ marker <:+ buffer) :
    parse buffer limits = .error (.invalidMarker (buffer.rtake marker.length)) := by
  have hother : (Tail.ofBytes buffer).peek? marker.length ≠ some marker := by
    intro hpeek
    obtain ⟨-, front, hfront⟩ := Tail.peek?_eq_some_iff.mp hpeek
    rw [Tail.rest_ofBytes] at hfront
    exact h ⟨front, hfront.symm⟩
  have hfound : ((Tail.ofBytes buffer).peek? marker.length).getD (Tail.ofBytes buffer).rest =
      buffer.rtake marker.length := by
    rw [List.rtake_eq_reverse_take_reverse]
    cases hpeek : (Tail.ofBytes buffer).peek? marker.length with
    | none =>
      have hshort := Tail.peek?_eq_none_iff.mp hpeek
      rw [Option.getD_none, Tail.rest_ofBytes, List.take_of_length_le, List.reverse_reverse]
      rw [← Tail.length_rest, Tail.rest_ofBytes] at hshort
      rw [List.length_reverse]
      omega
    | some found =>
      rw [Tail.peek?] at hpeek
      split at hpeek
      · exact (Option.some.inj hpeek).symm
      · cases hpeek
  have hread : readMarker (Tail.ofBytes buffer) =
      .error (.invalidMarker (buffer.rtake marker.length)) (Tail.ofBytes buffer) := by
    rw [readMarker, inspect_bind, if_neg hother, inspect_bind, hfound]
    rfl
  rw [parse, read, Reader.bind_apply, hread]

/-! ## The marker and its beginning -/

/-- Only the first two bytes of the marker are also its last ones. -/
lemma marker_border {kept : Nat} (hkept : kept < marker.length)
    (h : marker.take kept = marker.drop (marker.length - kept)) : kept ≤ 2 := by
  have hborders : ∀ kept < 9, marker.take kept = marker.drop (9 - kept) → kept ≤ 2 := by decide
  exact hborders kept hkept h

/-- If a marker ends where the first bytes of another one do, it begins before that one. -/
lemma marker_before {x y : List UInt8} {kept : Nat} (hkept : kept < marker.length)
    (h : x ++ marker.take kept = y ++ marker) :
    kept ≤ 2 ∧ x = y ++ marker.take (marker.length - kept) := by
  have hsplit : y ++ marker =
      y ++ marker.take (marker.length - kept) ++ marker.drop (marker.length - kept) := by
    rw [List.append_assoc, List.take_append_drop]
  rw [hsplit] at h
  have hlen : (marker.take kept).length = (marker.drop (marker.length - kept)).length := by
    rw [List.length_take, List.length_drop]
    omega
  obtain ⟨hx, hborder⟩ := List.append_inj' h hlen
  exact ⟨marker_border hkept hborder, hx⟩

/-! ## What the metadata would have to be -/

/-- What stands in front of the marker, when another marker ends `kept` bytes behind it: the end
of the metadata region, and its size. -/
lemma region_of_shorter {x y region size : List UInt8} {kept : Nat}
    (hsize : Counter.metadataSize.encode region.length = .ok size) (hkept : kept < marker.length)
    (h : x ++ (region ++ size) ++ marker.take kept = y ++ marker) :
    kept ≤ 2 ∧ marker.take (6 - kept) <:+ region := by
  obtain ⟨htwo, hbefore⟩ := marker_before hkept h
  obtain ⟨hfits, rfl⟩ := Counter.encode_eq_ok_iff.mp hsize
  have hcut : marker.take (marker.length - kept) =
      marker.take (6 - kept) ++ (marker.take (9 - kept)).drop (6 - kept) := by
    have hcuts : ∀ kept ≤ 2, marker.take (9 - kept) =
        marker.take (6 - kept) ++ (marker.take (9 - kept)).drop (6 - kept) := by decide
    exact hcuts kept htwo
  rw [hcut, ← List.append_assoc, ← List.append_assoc] at hbefore
  have hthree : ∀ kept ≤ 2, ((marker.take (9 - kept)).drop (6 - kept)).length = 3 := by decide
  obtain ⟨hregion, hsize⟩ := List.append_inj' hbefore
    ((BigEndian.length_ofNat 3 region.length).trans (hthree kept htwo).symm)
  -- the size that the marker spells is larger than what is needed of the region
  have hlarge : ∀ kept ≤ 2, 6 ≤ BigEndian.toNat ((marker.take (9 - kept)).drop (6 - kept)) := by
    decide
  have hlength : 6 ≤ region.length := by
    have hspelled := hlarge kept htwo
    rw [← hsize] at hspelled
    rwa [← BigEndian.toNat_ofNat_of_lt hfits]
  refine ⟨htwo, List.suffix_of_suffix_length_le ⟨y, hregion.symm⟩ (List.suffix_append _ _) ?_⟩
  rw [List.length_take]
  omega

/-- The beginning of the marker ends no text. -/
lemma not_suffix_toBytes (text : String) {kept : Nat} (hkept : kept ≤ 2) :
    ¬ marker.take (6 - kept) <:+ Text.toBytes text := by
  rintro ⟨y, hy⟩
  have hcut : ∀ kept ≤ 2, marker.take (6 - kept) =
      [0x00, 0x00, 0x02] ++ 0xed :: (marker.drop 4).take (2 - kept) := by decide
  have hleads := Text.leadsFollowed_toBytes text
  rw [← hy, hcut kept hkept, ← List.append_assoc] at hleads
  obtain ⟨c, rest, hnext, hcontinues⟩ := hleads.exists_continuation (by decide)
  have hmem : c ∈ (marker.drop 4).take (2 - kept) := hnext ▸ List.mem_cons_self
  have hother : ∀ c ∈ marker.drop 4, c < 0x80 := by simp [marker]
  exact absurd hcontinues.1 (UInt8.not_le.mpr (hother c (List.mem_of_mem_take hmem)))

/-- The beginning of the marker ends no metadata region. -/
lemma not_suffix_region (p : Payload) {kept : Nat} (hkept : kept ≤ 2) :
    ¬ marker.take (6 - kept) <:+ p.region := by
  rw [region]
  cases p.generation with
  | singleSign => exact not_suffix_toBytes p.metadata hkept
  | multiSign =>
    intro hsuffix
    have htag : versionTag <:+ marker.take (6 - kept) := by
      refine List.suffix_of_suffix_length_le (List.suffix_append _ versionTag) hsuffix ?_
      have hlen : versionTag.length = 2 := rfl
      have hnine : marker.length = 9 := rfl
      rw [List.length_take]
      omega
    have hnone : ∀ kept ≤ 2, ¬ versionTag <:+ marker.take (6 - kept) := by decide
    exact hnone kept hkept htag

/-! ## Payloads that have lost their end -/

/-- A payload that has lost some of its last nine bytes does not end with a marker. -/
lemma not_suffix_rdrop (h : p.encode = .ok bytes) {k : Nat} (hpos : 1 ≤ k)
    (hle : k ≤ marker.length) (front : List UInt8) : ¬ marker <:+ front ++ bytes.rdrop k := by
  rintro ⟨y, hy⟩
  obtain ⟨-, content, size, -, hsize, rfl⟩ := encode_eq_ok_iff.mp h
  have hcut : (content ++ (p.region ++ (size ++ marker))).rdrop k =
      content ++ (p.region ++ size) ++ marker.take (marker.length - k) := by
    have hassoc : content ++ (p.region ++ (size ++ marker)) =
        content ++ (p.region ++ size) ++ marker := by
      simp only [List.append_assoc]
    rw [hassoc, List.rdrop, List.length_append, List.take_append]
    rw [List.take_of_length_le (by omega)]
    congr 2
    omega
  rw [hcut, ← List.append_assoc, ← List.append_assoc] at hy
  obtain ⟨htwo, hsuffix⟩ := region_of_shorter hsize (by omega) hy.symm
  exact not_suffix_region p htwo hsuffix

/-- **Cutting into the trailer is always noticed.**  A written payload that has lost from one to
nine bytes at its end is refused for the want of a marker, whatever stands in front of it, whatever
its packages and its metadata are, and whatever the limits of the reader; the error shows the last
nine bytes that are left. -/
theorem parse_cut_trailer (h : p.encode = .ok bytes) {k : Nat} (hpos : 1 ≤ k) (hle : k ≤ 9)
    (front : List UInt8) (limits : Limits) :
    parse (front ++ bytes.rdrop k) limits =
      .error (.invalidMarker ((front ++ bytes.rdrop k).rtake 9)) :=
  parse_of_not_suffix (not_suffix_rdrop h hpos hle front)

theorem parse_cut_trailer_sample :
    ∃ bytes, sample.encode = .ok bytes ∧ 1 ≤ 8 ∧ 8 ≤ 9 ∧
      parse (marker ++ bytes.rdrop 8) =
        .error (.invalidMarker ((marker ++ bytes.rdrop 8).rtake 9)) := by
  obtain ⟨bytes, hbytes⟩ := exists_encode_sample
  exact ⟨bytes, hbytes, by decide, by decide,
    parse_cut_trailer hbytes (by decide) (by decide) marker {}⟩

end Payload
end SignedFeeds
