/-
# Writing a package and reading it back

The reader of each kind of package accepts exactly what is written for packages in canonical
order: whatever else stands in front, it finds the package and leaves the rest, and it finds
nothing where no such bytes stand.  A package in another order is read back in canonical
order.

* `DataPackage.read_leaves_iff_encode`: data packages;
* `read_signed_iff_encode`: packages with one and with several signatures.  The signatures of
  a cosigned package come back in the order in which they were given, for each number that
  the field behind them can hold.
-/
import SignedFeeds.Proofs.Package.Binding

namespace SignedFeeds

namespace DataPackage

variable {p : DataPackage} {bytes : List UInt8}

lemma decode_eq_ok_iff : decode bytes = .ok p ↔ Ascending p.points ∧ p.encode = .ok bytes :=
  read_accepts.whole_eq_ok_iff

lemma leaves_iff {t : Tail} {rest : List UInt8} :
    read.Leaves t p rest ↔
      Ascending p.points ∧ ∃ bytes, p.encode = .ok bytes ∧ t.rest = rest ++ bytes := by
  simp only [read_accepts.leaves_iff, and_assoc, exists_and_left]

/-- **Data packages are read from nothing but what is written.**  A package is found at the
end of a buffer exactly when its points ascend and its bytes stand there, and then what is
left is what stands in front.  The number of its bytes is known beforehand.  So the bytes of
a package give back its canonical form, and a buffer that is one package is its bytes. -/
theorem read_leaves_iff_encode :
    (∀ (t : Tail) (p : DataPackage) rest, read.Leaves t p rest ↔
      Ascending p.points ∧ ∃ bytes, p.encode = .ok bytes ∧ t.rest = rest ++ bytes) ∧
      (∀ (p : DataPackage) bytes, p.encode = .ok bytes → bytes.length = p.encodedLength) ∧
      (∀ (p : DataPackage) bytes, p.encode = .ok bytes →
        ∃ c, p.canonicalize = .ok c ∧ decode bytes = .ok c) ∧
      (∀ buffer (p : DataPackage), decode buffer = .ok p → p.encode = .ok buffer) := by
  refine ⟨fun t p rest => leaves_iff, fun p bytes => length_encode, ?_, ?_⟩
  · intro p bytes h
    obtain ⟨c, hc, hasc, -, -, hencode⟩ := exists_canonicalize_of_encode h
    exact ⟨c, hc, decode_eq_ok_iff.mpr ⟨hasc, hencode⟩⟩
  · intro buffer p h
    exact (decode_eq_ok_iff.mp h).2

theorem read_leaves_sample :
    ∃ bytes c, sampleCrossed.encode = .ok bytes ∧ bytes.length = sampleCrossed.encodedLength ∧
      sampleCrossed.canonicalize = .ok c ∧ decode bytes = .ok c ∧ c.encode = .ok bytes ∧
      Ascending sample.points ∧ read.Leaves (Tail.ofBytes ([1, 2] ++ bytes)) sample [1, 2] := by
  obtain ⟨bytes, hbytes⟩ := exists_encode_sample
  have hsame : sample.SameContent sampleCrossed := ⟨rfl, by decide⟩
  have hcrossed := hsame.encode_eq_ok hbytes
  have hasc : Ascending sample.points := by decide
  obtain ⟨hleaves, hlength, hdecode, hencode⟩ := read_leaves_iff_encode
  obtain ⟨c, hc, hread⟩ := hdecode sampleCrossed bytes hcrossed
  refine ⟨bytes, c, hcrossed, hlength _ _ hcrossed, hc, hread, hencode _ _ hread, hasc, ?_⟩
  exact (hleaves _ _ _).mpr ⟨hasc, bytes, hbytes, Tail.rest_ofBytes _⟩

end DataPackage

/-! ## Signatures around a package -/

namespace SignedPackage

variable {m : SignedPackage} {bytes : List UInt8}

lemma leaves_iff {t : Tail} {rest : List UInt8} :
    read.Leaves t m rest ↔ DataPackage.Ascending m.package.points ∧
      ∃ bytes, m.encode = .ok bytes ∧ t.rest = rest ++ bytes := by
  simp only [read_accepts.leaves_iff, and_assoc, exists_and_left]

lemma length_encode (h : m.encode = .ok bytes) : bytes.length = m.encodedLength := by
  obtain ⟨front, hfront, rfl⟩ := encode_eq_ok_iff.mp h
  rw [List.length_append, DataPackage.length_encode hfront, m.signature.length_bytes, encodedLength]

end SignedPackage

namespace CosignedPackage

variable {m : CosignedPackage} {bytes : List UInt8}

lemma leaves_iff {t : Tail} {rest : List UInt8} :
    read.Leaves t m rest ↔ DataPackage.Ascending m.package.points ∧
      ∃ bytes, m.encode = .ok bytes ∧ t.rest = rest ++ bytes := by
  simp only [read_accepts.leaves_iff, and_assoc, exists_and_left]

lemma length_encode (h : m.encode = .ok bytes) : bytes.length = m.encodedLength := by
  obtain ⟨front, n, hfront, -, hn, rfl⟩ := encode_eq_ok_iff.mp h
  have hn : n.length = 1 := DataPackage.length_counter_encode hn
  rw [List.length_append, List.length_append, DataPackage.length_encode hfront,
    length_signatures, hn, encodedLength]
  omega

/-- Any signatures can be written behind a package that can be written, as long as their
number can. -/
lemma exists_encode {p : DataPackage} {front : List UInt8} (h : p.encode = .ok front)
    {signatures : List Signature} (hpos : 0 < signatures.length)
    (hle : signatures.length ≤ maxSigners) : ∃ bytes, encode ⟨p, signatures⟩ = .ok bytes := by
  have hcount : checkCount signatures.length = .ok () := checkCount_eq_ok_iff.mpr ⟨hpos, hle⟩
  exact ⟨_, encode_eq_ok_iff.mpr ⟨front, _, h, hpos, encode_count_of_checkCount hcount, rfl⟩⟩

end CosignedPackage

/-- **Signed packages are read from nothing but what is written.**  A package with one or with
several signatures is found at the end of a buffer exactly when its points ascend and its
bytes stand there.  Signatures are read back in the order in which they were given, whatever
their number from 1 to 255; other numbers of signatures are never written. -/
theorem read_signed_iff_encode :
    ((∀ (t : Tail) (m : SignedPackage) rest, SignedPackage.read.Leaves t m rest ↔
        DataPackage.Ascending m.package.points ∧
          ∃ bytes, m.encode = .ok bytes ∧ t.rest = rest ++ bytes) ∧
      (∀ (m : SignedPackage) bytes, m.encode = .ok bytes → bytes.length = m.encodedLength)) ∧
    ((∀ (t : Tail) (m : CosignedPackage) rest, CosignedPackage.read.Leaves t m rest ↔
        DataPackage.Ascending m.package.points ∧
          ∃ bytes, m.encode = .ok bytes ∧ t.rest = rest ++ bytes) ∧
      (∀ (m : CosignedPackage) bytes, m.encode = .ok bytes → bytes.length = m.encodedLength)) ∧
    (∀ (p : DataPackage) front (signatures : List Signature), p.encode = .ok front →
      1 ≤ signatures.length → signatures.length ≤ 255 →
      ∃ c bytes, p.canonicalize = .ok c ∧ CosignedPackage.encode ⟨p, signatures⟩ = .ok bytes ∧
        ∀ t rest, t.rest = rest ++ bytes → CosignedPackage.read.Leaves t ⟨c, signatures⟩ rest) ∧
    (∀ m : CosignedPackage, m.signatures.length = 0 → m.encode = .error .noSignatures) ∧
    (∀ m : CosignedPackage, 255 < m.signatures.length →
      m.encode = .error (.counterOverflow "signers count" m.signatures.length 1)) := by
  refine ⟨⟨fun t m rest => SignedPackage.leaves_iff, fun m bytes => SignedPackage.length_encode⟩,
    ⟨fun t m rest => CosignedPackage.leaves_iff, fun m bytes => CosignedPackage.length_encode⟩,
    ?_, ?_, ?_⟩
  · intro p front signatures hp hpos hle
    obtain ⟨bytes, hbytes⟩ := CosignedPackage.exists_encode hp hpos hle
    obtain ⟨front', n, hfront, -, hn, rfl⟩ := CosignedPackage.encode_eq_ok_iff.mp hbytes
    -- the canonical form of the package stands in the same bytes
    obtain ⟨c, hc, hasc, -, -, hencode⟩ := DataPackage.exists_canonicalize_of_encode hfront
    refine ⟨c, _, hc, hbytes, fun t rest hrest => CosignedPackage.leaves_iff.mpr ⟨hasc, _, ?_, hrest⟩⟩
    exact CosignedPackage.encode_eq_ok_iff.mpr ⟨front', n, hencode, hpos, hn, rfl⟩
  · intro m hzero
    refine CosignedPackage.encode_of_checkCount_eq_error ?_
    rw [CosignedPackage.checkCount, if_pos hzero]
  · intro m hmany
    have hmax : CosignedPackage.maxSigners < m.signatures.length := hmany
    refine CosignedPackage.encode_of_checkCount_eq_error ?_
    rw [CosignedPackage.checkCount, if_neg (by omega), if_pos hmax]
    rfl

theorem read_signed_sample :
    ∃ bytes c signed, DataPackage.sampleCrossed.canonicalize = .ok c ∧
      CosignedPackage.encode ⟨.sampleCrossed, [⟨Block.zero⟩, ⟨Block.zero⟩]⟩ = .ok bytes ∧
      bytes.length = CosignedPackage.encodedLength
        ⟨.sampleCrossed, [⟨Block.zero⟩, ⟨Block.zero⟩]⟩ ∧
      CosignedPackage.read.Leaves (Tail.ofBytes ([1, 2] ++ bytes))
        ⟨c, [⟨Block.zero⟩, ⟨Block.zero⟩]⟩ [1, 2] ∧
      SignedPackage.encode ⟨.sample, ⟨Block.zero⟩⟩ = .ok signed ∧
      signed.length = SignedPackage.encodedLength ⟨.sample, ⟨Block.zero⟩⟩ ∧
      SignedPackage.read.Leaves (Tail.ofBytes ([1, 2] ++ signed)) ⟨.sample, ⟨Block.zero⟩⟩ [1, 2] ∧
      CosignedPackage.encode ⟨.sample, []⟩ = .error .noSignatures ∧
      CosignedPackage.encode ⟨.sample, List.replicate 256 ⟨Block.zero⟩⟩ =
        .error (.counterOverflow "signers count" 256 1) := by
  obtain ⟨front, hfront⟩ := DataPackage.exists_encode_sample
  have hsame : DataPackage.sample.SameContent .sampleCrossed := ⟨rfl, by decide⟩
  obtain ⟨⟨hsigned, hsignedLength⟩, ⟨-, hlength⟩, horder, hnone, hmany⟩ := read_signed_iff_encode
  obtain ⟨c, bytes, hc, hbytes, hread⟩ := horder _ _ [⟨Block.zero⟩, ⟨Block.zero⟩]
    (hsame.encode_eq_ok hfront) (by decide) (by decide)
  have hone : SignedPackage.encode ⟨.sample, ⟨Block.zero⟩⟩ = .ok _ :=
    SignedPackage.encode_eq_ok_iff.mpr ⟨front, hfront, rfl⟩
  refine ⟨bytes, c, _, hc, hbytes, hlength _ _ hbytes, hread _ _ (Tail.rest_ofBytes _), hone,
    hsignedLength _ _ hone, ?_, hnone _ rfl, ?_⟩
  · exact (hsigned _ _ _).mpr ⟨by decide, _, hone, Tail.rest_ofBytes _⟩
  · have hlen : (List.replicate 256 (⟨Block.zero⟩ : Signature)).length = 256 := List.length_replicate
    have herror := hmany ⟨.sample, List.replicate 256 ⟨Block.zero⟩⟩ (by rw [hlen]; decide)
    rwa [hlen] at herror

end SignedFeeds
