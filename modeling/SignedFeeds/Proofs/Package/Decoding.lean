/-
# Reading packages

The reader of each kind of package accepts exactly what its writer gives for packages in
canonical order: `DataPackage.read_accepts`, `SignedPackage.read_accepts` and
`CosignedPackage.read_accepts`.  Each proof computes the form that the reader accepts from
its steps, last field first, and compares it with the layout that is written.
-/
import SignedFeeds.Proofs.Package.Writing

namespace SignedFeeds

/-! ## Fields of fixed length -/

lemma Block.ofField_eq_ok_iff {n : Nat} {field : String} {bs : List UInt8} {block : Block n} :
    Block.ofField field bs = .ok block ↔ bs = block.bytes := by
  rw [← Block.ofBytes?_eq_some_iff, Block.ofField]
  cases Block.ofBytes? bs <;> simp

lemma FeedId.ofBytes_eq_ok_iff {bs : List UInt8} {feed : FeedId} :
    FeedId.ofBytes bs = .ok feed ↔ bs = feed.bytes := by
  rw [FeedId.ofBytes, Fallible.map_eq_ok_iff]
  constructor
  · rintro ⟨block, hblock, rfl⟩
    exact Block.ofField_eq_ok_iff.mp hblock
  · rintro rfl
    exact ⟨feed.toBlock, Block.ofField_eq_ok_iff.mpr rfl, rfl⟩

lemma Signature.ofBytes_eq_ok_iff {bs : List UInt8} {sig : Signature} :
    Signature.ofBytes bs = .ok sig ↔ bs = sig.bytes := by
  rw [Signature.ofBytes, Fallible.map_eq_ok_iff]
  constructor
  · rintro ⟨block, hblock, rfl⟩
    exact Block.ofField_eq_ok_iff.mp hblock
  · rintro rfl
    exact ⟨sig.toBlock, Block.ofField_eq_ok_iff.mpr rfl, rfl⟩

/-- Any 65 bytes are a signature. -/
lemma Signature.ofBytes_of_length {bs : List UInt8} (h : bs.length = 65) :
    Signature.ofBytes bs = .ok ⟨⟨bs, h⟩⟩ := Signature.ofBytes_eq_ok_iff.mpr rfl

/-! ## Data points -/

lemma DataPoint.read_accepts (width : Nat) :
    (DataPoint.read width).Accepts fun q bytes => q.width = width ∧ bytes = q.encode := by
  refine (Reader.Accepts.field "data feed id" (fun _ _ => FeedId.ofBytes_eq_ok_iff)
    (fun feed => feed.length_bytes) fun feed =>
      (Reader.take_accepts "value" width).returning (DataPoint.mk feed)).congr fun q bytes => ?_
  constructor
  · rintro ⟨feed, _, ⟨value, rfl, rfl, hlen⟩, rfl⟩
    exact ⟨hlen, rfl⟩
  · rintro ⟨hlen, rfl⟩
    exact ⟨q.feed, q.value, ⟨q.value, rfl, rfl, hlen⟩, rfl⟩

namespace DataPackage

/-! ## Data packages -/

/-- The order of the points is looked at after all of them have been read. -/
lemma checkOrder_accepts (points : List DataPoint) (timestamp : UInt64) :
    Reader.Accepts
      (match orderFault? points with
        | some e => throw e
        | none => pure ⟨points, timestamp⟩ : Reader WireError DataPackage)
      fun p bytes => Ascending points ∧ p = ⟨points, timestamp⟩ ∧ bytes = [] := by
  rw [← orderFault?_eq_none_iff]
  cases orderFault? points with
  | none => exact (Reader.Accepts.pure _).congr fun p bytes => by simp
  | some e => exact (Reader.Accepts.throw e).congr fun p bytes => by simp

/-- The points of a package whose numbers have been read. -/
lemma readPoints_accepts (count width : Nat) (timestamp : UInt64) :
    Reader.Accepts
      (do
        Reader.require "data points" count (width + 32)
        let points ← Reader.times count (DataPoint.read width)
        match orderFault? points with
          | some e => throw e
          | none => pure ⟨points, timestamp⟩ : Reader WireError DataPackage)
      fun p bytes => Ascending p.points ∧ p.points.length = count ∧
        (∀ q ∈ p.points, q.width = width) ∧ p.timestamp = timestamp ∧
        bytes = p.points.flatMap DataPoint.encode := by
  have hpoints := (Reader.times_accepts (DataPoint.read_accepts width) count).bind fun points =>
    checkOrder_accepts points timestamp
  refine (hpoints.congr fun p bytes => ?_).roomy (Reader.require_checks _ _ _) ?_
  · simp only [Form.many_and, Form.many_eq_iff]
    constructor
    · rintro ⟨points, _, back, ⟨hlen, hwidth, rfl⟩, ⟨hasc, rfl, rfl⟩, rfl⟩
      exact ⟨hasc, hlen, hwidth, rfl, rfl⟩
    · rintro ⟨hasc, hlen, hwidth, rfl, rfl⟩
      exact ⟨p.points, [], _, ⟨hlen, hwidth, rfl⟩, ⟨hasc, rfl, rfl⟩, rfl⟩
  · -- the points take exactly the room that is asked for
    rintro p _ ⟨_, rfl, hwidth, _, rfl⟩
    exact Nat.le_of_eq (length_flatMap_encode hwidth).symm

lemma toNat_ofNat_of_encode {n : Nat} {bytes : List UInt8}
    (h : Counter.timestamp.encode n = .ok bytes) : (UInt64.ofNat n).toNat = n := by
  have hlt := (Counter.encode_eq_ok_iff.mp h).1
  refine UInt64.toNat_ofNat_of_lt' (Nat.lt_trans hlt ?_)
  decide

/-- A package is read exactly from what is written for it in canonical order. -/
lemma read_accepts :
    read.Accepts fun p bytes => Ascending p.points ∧ p.encode = .ok bytes := by
  refine Reader.Accepts.congr ((Reader.takeCounter_accepts .points).bind fun count =>
    (Reader.takeCounter_accepts .valueWidth).bind fun width =>
    (Reader.takeCounter_accepts .timestamp).bind fun timestamp =>
    Reader.Accepts.guarded (Reader.Accepts.guarded
      (readPoints_accepts count width (UInt64.ofNat timestamp)))) fun p bytes => ?_
  constructor
  · rintro ⟨count, _, n, hn, ⟨width, _, w, hw, ⟨time, _, t, ht, ⟨hcount, hwidth, hasc, rfl,
      hwidths, htime, rfl⟩, rfl⟩, rfl⟩, rfl⟩
    refine ⟨hasc, (encode_eq_ok_iff_of_ascending hasc).mpr ⟨?_, width, ?_, t, w, n, ?_⟩⟩
    · rintro hnil
      exact hcount (by rw [hnil, List.length_nil])
    · exact ⟨Nat.pos_of_ne_zero hwidth, hwidths⟩
    · rw [htime, toNat_ofNat_of_encode ht]
      exact ⟨ht, hw, hn, by simp only [List.append_assoc]⟩
  · rintro ⟨hasc, hencode⟩
    obtain ⟨hne, w, hwidth, t, wb, n, ht, hw, hn, rfl⟩ :=
      (encode_eq_ok_iff_of_ascending hasc).mp hencode
    have hpos := hwidth.1
    exact ⟨p.points.length, _, n, hn, ⟨w, _, wb, hw, ⟨p.timestamp.toNat, _, t, ht,
      ⟨by simpa using hne, by omega, hasc, rfl, hwidth.2, by simp, rfl⟩, rfl⟩, rfl⟩,
      by simp only [List.append_assoc]⟩

end DataPackage

/-! ## Signatures around a package -/

lemma Signature.read_accepts : Signature.read.Accepts fun sig bytes => bytes = sig.bytes := by
  have hfield := Reader.Accepts.field "signature" (fun _ _ => Signature.ofBytes_eq_ok_iff)
    (fun sig => sig.length_bytes) fun sig => Reader.Accepts.pure sig
  simp only [bind_pure] at hfield
  refine hfield.congr fun sig bytes => ?_
  constructor
  · rintro ⟨_, _, ⟨rfl, rfl⟩, rfl⟩
    rfl
  · rintro rfl
    exact ⟨sig, [], ⟨rfl, rfl⟩, rfl⟩

/-- A signed package is read exactly from what is written for it in canonical order. -/
lemma SignedPackage.read_accepts :
    SignedPackage.read.Accepts fun m bytes =>
      DataPackage.Ascending m.package.points ∧ m.encode = .ok bytes := by
  refine (Signature.read_accepts.bind fun sig =>
    DataPackage.read_accepts.returning fun package => SignedPackage.mk package sig).congr
    fun m bytes => ?_
  rw [SignedPackage.encode_eq_ok_iff]
  constructor
  · rintro ⟨_, front, _, rfl, ⟨package, rfl, hasc, hfront⟩, rfl⟩
    exact ⟨hasc, front, hfront, rfl⟩
  · rintro ⟨hasc, front, hfront, rfl⟩
    exact ⟨m.signature, front, _, rfl, ⟨m.package, rfl, hasc, hfront⟩, rfl⟩

namespace CosignedPackage

/-- A cosigned package is read exactly from what is written for it in canonical order; the
signatures, which are read last first, keep their order. -/
lemma read_accepts :
    read.Accepts fun m bytes =>
      DataPackage.Ascending m.package.points ∧ m.encode = .ok bytes := by
  have hpackage (signatures : List Signature) :=
    DataPackage.read_accepts.returning fun package => CosignedPackage.mk package signatures
  have hsignatures (count : Nat) :=
    (Reader.times_accepts Signature.read_accepts count).bind fun signatures => hpackage signatures
  refine Reader.Accepts.congr ((Reader.takeCounter_accepts .signers).bind fun count =>
    Reader.Accepts.guarded ((hsignatures count).roomy (Reader.require_checks _ _ _) ?_))
    fun m bytes => ?_
  · -- the signatures alone take the room that is asked for
    rintro m _ ⟨signatures, front, back, ⟨rfl, hback⟩, _, rfl⟩
    have hlen (sig : Signature) (b : List UInt8) (hb : b = sig.bytes) : 65 ≤ b.length :=
      Nat.le_of_eq (by rw [hb, sig.length_bytes])
    have := Form.length_le_of_many hlen hback
    rw [List.length_append]
    omega
  · rw [encode_eq_ok_iff]
    simp only [Form.many_eq_iff]
    constructor
    · rintro ⟨_, _, n, hn, ⟨hcount, signatures, _, _, ⟨rfl, rfl⟩,
        ⟨package, rfl, hasc, hfront⟩, rfl⟩, rfl⟩
      exact ⟨hasc, _, n, hfront, Nat.pos_of_ne_zero hcount, hn, List.append_assoc ..⟩
    · rintro ⟨hasc, front, n, hfront, hpos, hn, rfl⟩
      exact ⟨_, _, n, hn, ⟨Nat.ne_of_gt hpos, m.signatures, front, _, ⟨rfl, rfl⟩,
        ⟨m.package, rfl, hasc, hfront⟩, rfl⟩, (List.append_assoc ..).symm⟩

end CosignedPackage
end SignedFeeds
