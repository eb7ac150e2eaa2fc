/-
# Which payloads can be written

A single-sign payload can be written when it has packages, its metadata do not end in the version
tag, every data package can be written, and the number of packages and the size of the metadata
fit their fields.  A multi-sign payload needs between 1 and 255 signatures, a data package that can
be written, and room for its metadata with the version tag (`Payload.Writable`).

Otherwise `Payload.FirstFault` says what is reported: one constructor for each fault, in the order
of precedence within its generation.  Of several packages that cannot be written the first one is
reported, whatever the later ones are.

`Payload.Written` is the row of fields that is written.  A number stands there as a field of fixed
width from which it can be read back (`Counter.encode_eq_ok_iff_spells`), so none is ever cut off.
-/
import Mathlib.Algebra.Group.Nat.Defs
import SignedFeeds.Proofs.Package.Cosigning
import SignedFeeds.Proofs.Package.Domain
import SignedFeeds.Proofs.Package.RoundTrip
import SignedFeeds.Proofs.Payload.RoundTrip
import SignedFeeds.Proofs.Payload.Writing

namespace SignedFeeds

/-! ## Fields and packages -/

/-- The field has the given width, and the number can be read back from it. -/
def Spells (field : List UInt8) (width value : Nat) : Prop :=
  field.length = width ∧ BigEndian.toNat field = value

/-- A field is written exactly when it spells the number. -/
lemma Counter.encode_eq_ok_iff_spells {c : Counter} {value : Nat} {field : List UInt8} :
    c.encode value = .ok field ↔ Spells field c.width value := by
  rw [Counter.encode_eq_ok_iff]
  constructor
  · rintro ⟨hlt, rfl⟩
    exact ⟨BigEndian.length_ofNat _ _, BigEndian.toNat_ofNat_of_lt hlt⟩
  · rintro ⟨hwidth, rfl⟩
    rw [← hwidth]
    exact ⟨BigEndian.toNat_lt field, BigEndian.ofNat_toNat field⟩

namespace SignedPackage

variable {m : SignedPackage}

/-- A signed package is written unless its data package is at fault. -/
lemma exists_encode_iff :
    (∃ bytes, m.encode = .ok bytes) ↔ ∃ bytes, m.package.encode = .ok bytes := by
  simp only [encode_eq_ok_iff]
  constructor
  · rintro ⟨_, front, hfront, -⟩
    exact ⟨front, hfront⟩
  · rintro ⟨front, hfront⟩
    exact ⟨_, front, hfront, rfl⟩

lemma encode_eq_error {e : WireError} (h : m.package.encode = .error e) : m.encode = .error e := by
  rw [encode_eq, h]
  rfl

end SignedPackage

namespace Payload

variable {p : Payload} {packages : List SignedPackage} {m : CosignedPackage}

/-! ## What can be written and what is wrong otherwise -/

/-- The payload holds single-sign packages, and its metadata may stand behind them. -/
structure Untagged (p : Payload) (packages : List SignedPackage) : Prop where
  content_eq : p.content = .single packages
  ne_nil : packages ≠ []
  no_tag : ¬ versionTag <:+ Text.toBytes p.metadata

/-- And every one of the packages can be written. -/
structure Sound (p : Payload) (packages : List SignedPackage) : Prop
    extends p.Untagged packages where
  exists_encode : ∀ m ∈ packages, ∃ bytes, m.package.encode = .ok bytes

/-- The payload holds a cosigned package that can be written. -/
structure Cosigned (p : Payload) (m : CosignedPackage) : Prop where
  content_eq : p.content = .multi m
  counted : m.Counted
  exists_encode : ∃ bytes, m.package.encode = .ok bytes

/-- All that a payload needs in order to be written. -/
inductive Writable (p : Payload) : Prop
  | single {packages : List SignedPackage} (hsound : p.Sound packages)
      (hcount : packages.length < 2 ^ 16) (hsize : (Text.toBytes p.metadata).length < 2 ^ 24)
  | multi {m : CosignedPackage} (hsound : p.Cosigned m)
      (hsize : (Text.toBytes p.metadata).length + 2 < 2 ^ 24)

/-- What is wrong with a payload that cannot be written.  In either generation the faults are in
their order, and each of them has what the faults before it exclude. -/
inductive FirstFault (p : Payload) : PayloadError → Prop
  /-- There are no packages. -/
  | noPackages (hcontent : p.content = .single []) : FirstFault p .noPackages
  /-- There are packages, and the metadata end in the version tag. -/
  | ambiguousMetadata {packages : List SignedPackage} (hcontent : p.content = .single packages)
      (hne : packages ≠ []) (htag : versionTag <:+ Text.toBytes p.metadata) :
      FirstFault p .ambiguousMetadata
  /-- A data package cannot be written, and all those in front of it can. -/
  | package {before after : List SignedPackage} {m : SignedPackage} {cause : WireError}
      (huntagged : p.Untagged (before ++ m :: after))
      (hbefore : ∀ m ∈ before, ∃ bytes, m.package.encode = .ok bytes)
      (hcause : m.package.encode = .error cause) : FirstFault p (.wire cause)
  /-- The number of packages does not fit. -/
  | packageCount {packages : List SignedPackage} (hsound : p.Sound packages)
      (habove : 2 ^ 16 ≤ packages.length) :
      FirstFault p (.wire (.counterOverflow "data packages count" packages.length 2))
  /-- The size of the metadata does not fit. -/
  | metadataSize {packages : List SignedPackage} (hsound : p.Sound packages)
      (hcount : packages.length < 2 ^ 16) (habove : 2 ^ 24 ≤ (Text.toBytes p.metadata).length) :
      FirstFault p
        (.wire (.counterOverflow "unsigned metadata size" (Text.toBytes p.metadata).length 3))
  /-- There are no signatures. -/
  | noSignatures {m : CosignedPackage} (hcontent : p.content = .multi m)
      (hnil : m.signatures.length = 0) : FirstFault p (.wire .noSignatures)
  /-- There are too many signatures. -/
  | signerCount {m : CosignedPackage} (hcontent : p.content = .multi m)
      (habove : 255 < m.signatures.length) :
      FirstFault p (.wire (.counterOverflow "signers count" m.signatures.length 1))
  /-- The data package that is cosigned cannot be written. -/
  | cosigned {m : CosignedPackage} {cause : WireError} (hcontent : p.content = .multi m)
      (hcounted : m.Counted) (hcause : m.package.encode = .error cause) : FirstFault p (.wire cause)
  /-- The size of the metadata with the version tag does not fit. -/
  | regionSize {m : CosignedPackage} (hsound : p.Cosigned m)
      (habove : 2 ^ 24 ≤ (Text.toBytes p.metadata).length + 2) :
      FirstFault p
        (.wire (.counterOverflow "unsigned metadata size" ((Text.toBytes p.metadata).length + 2) 3))

/-- The bytes of a payload, field by field. -/
inductive Written (p : Payload) : List UInt8 → Prop
  | single {packages : List SignedPackage} {bodies count size : List UInt8}
      (hcontent : p.content = .single packages)
      (hbodies : Form.many (fun m body => ∃ front, m.package.encode = .ok front ∧
        body = front ++ m.signature.bytes) packages bodies)
      (hcount : Spells count 2 packages.length)
      (hsize : Spells size 3 (Text.toBytes p.metadata).length) :
      Written p ((bodies ++ count) ++ (Text.toBytes p.metadata ++ (size ++ marker)))
  | multi {m : CosignedPackage} {front count size : List UInt8} (hcontent : p.content = .multi m)
      (hfront : m.package.encode = .ok front) (hcount : Spells count 1 m.signatures.length)
      (hsize : Spells size 3 ((Text.toBytes p.metadata).length + 2)) :
      Written p ((front ++ (m.signatures.flatMap (fun sig => sig.bytes) ++ count)) ++
        (Text.toBytes p.metadata ++ versionTag ++ (size ++ marker)))

/-- How many bytes `encode` gives. -/
def encodedLength (p : Payload) : Nat :=
  let size := (Text.toBytes p.metadata).length
  match p.content with
  | .single packages =>
    packages.foldr (fun m length => m.encodedLength + length) (2 + size + 3 + 9)
  | .multi m => m.encodedLength + (size + 2) + 3 + 9

/-! ## Each fault is reported -/

/-- The bytes of single-sign packages and metadata, whatever the metadata end in. -/
def encodeUnchecked (packages : List SignedPackage) (metadata : List UInt8) :
    Except PayloadError (List UInt8) := do
  let bodies ← liftWire (packages.mapM SignedPackage.encode)
  let count ← liftWire (Counter.packages.encode packages.length)
  let size ← liftWire (Counter.metadataSize.encode metadata.length)
  return bodies.flatten ++ count ++ (metadata ++ (size ++ marker))

/-- The end of the metadata is looked at before anything is written. -/
lemma encode_eq_of_single (h : p.content = .single packages) (hne : packages ≠ []) :
    p.encode =
      if endsWithTag (Text.toBytes p.metadata) then .error .ambiguousMetadata
      else encodeUnchecked packages (Text.toBytes p.metadata) := by
  have hempty := List.isEmpty_eq_false_iff.mpr hne
  rw [encode, generation, h, encodeFront, hempty]
  cases endsWithTag (Text.toBytes p.metadata) with
  | true => rfl
  | false =>
    simp only [Bool.false_eq_true, if_false, Content.generation, tagged, bind_assoc, pure_bind]
    rfl

lemma Untagged.encode_eq (h : p.Untagged packages) :
    p.encode = encodeUnchecked packages (Text.toBytes p.metadata) := by
  rw [encode_eq_of_single h.content_eq h.ne_nil, if_neg (mt endsWithTag_iff.mp h.no_tag)]

/-- The bytes of a multi-sign payload, as far as its package and the size go. -/
lemma encode_eq_of_multi (h : p.content = .multi m) :
    p.encode = (do
      let front ← liftWire m.encode
      let size ← liftWire (Counter.metadataSize.encode ((Text.toBytes p.metadata).length + 2))
      return front ++ (Text.toBytes p.metadata ++ versionTag ++ (size ++ marker))) := by
  simp only [encode, generation, h, encodeFront, Content.generation, tagged, List.length_append]
  rfl

/-- A fault of the cosigned package is one of the payload. -/
lemma encode_of_cosigned_error {e : WireError} (h : p.content = .multi m)
    (he : m.encode = .error e) : p.encode = .error (.wire e) := by
  rw [encode_eq_of_multi h, he]
  rfl

lemma exists_bodies (h : ∀ m ∈ packages, ∃ bytes, m.package.encode = .ok bytes) :
    ∃ bodies, packages.mapM SignedPackage.encode = .ok bodies :=
  Fallible.exists_mapM_eq_ok fun m hm => SignedPackage.exists_encode_iff.mpr (h m hm)

lemma Cosigned.exists_front (h : p.Cosigned m) : ∃ front, m.encode = .ok front := by
  obtain ⟨front, hfront⟩ := h.exists_encode
  exact CosignedPackage.exists_encode hfront h.counted.1 h.counted.2

/-- The bounds of the two numbers are what their fields can hold. -/
lemma capacity_eq :
    BigEndian.capacity Counter.packages.width = 2 ^ 16 ∧
      BigEndian.capacity Counter.metadataSize.width = 2 ^ 24 := by decide

/-- Packages that can be written, and numbers that fit their fields. -/
lemma exists_encodeUnchecked {metadata : List UInt8}
    (hpackages : ∀ m ∈ packages, ∃ bytes, m.package.encode = .ok bytes)
    (hcount : packages.length < 2 ^ 16) (hsize : metadata.length < 2 ^ 24) :
    ∃ bytes, encodeUnchecked packages metadata = .ok bytes := by
  obtain ⟨bodies, hbodies⟩ := exists_bodies hpackages
  rw [encodeUnchecked, hbodies, DataPackage.counter_encode_of_lt capacity_eq.1 hcount,
    DataPackage.counter_encode_of_lt capacity_eq.2 hsize]
  exact ⟨_, rfl⟩

lemma encode_of_firstFault {e : PayloadError} (h : p.FirstFault e) : p.encode = .error e := by
  obtain ⟨hcountCapacity, hsizeCapacity⟩ := capacity_eq
  cases h with
  | noPackages hcontent =>
    rw [encode, hcontent]
    rfl
  | ambiguousMetadata hcontent hne htag =>
    rw [encode_eq_of_single hcontent hne, if_pos (endsWithTag_iff.mpr htag)]
  | package huntagged hbefore hcause =>
    have hbefore' := fun m hm => SignedPackage.exists_encode_iff.mpr (hbefore m hm)
    rw [huntagged.encode_eq, encodeUnchecked,
      Fallible.mapM_eq_error hbefore' (SignedPackage.encode_eq_error hcause)]
    rfl
  | packageCount hsound habove =>
    obtain ⟨bodies, hbodies⟩ := exists_bodies hsound.exists_encode
    rw [hsound.encode_eq, encodeUnchecked, hbodies,
      DataPackage.counter_encode_of_le hcountCapacity habove]
    rfl
  | metadataSize hsound hcount habove =>
    obtain ⟨bodies, hbodies⟩ := exists_bodies hsound.exists_encode
    rw [hsound.encode_eq, encodeUnchecked, hbodies,
      DataPackage.counter_encode_of_lt hcountCapacity hcount,
      DataPackage.counter_encode_of_le hsizeCapacity habove]
    rfl
  | noSignatures hcontent hnil =>
    refine encode_of_cosigned_error hcontent (CosignedPackage.encode_of_checkCount_eq_error ?_)
    rw [CosignedPackage.checkCount, if_pos hnil]
  | signerCount hcontent habove =>
    refine encode_of_cosigned_error hcontent (CosignedPackage.encode_of_checkCount_eq_error ?_)
    rw [CosignedPackage.checkCount, if_neg (Nat.ne_of_gt (Nat.zero_lt_of_lt habove))]
    exact if_pos habove
  | cosigned hcontent hcounted hcause =>
    exact encode_of_cosigned_error hcontent
      ((CosignedPackage.encode_eq_error_iff hcounted).mpr hcause)
  | regionSize hsound habove =>
    obtain ⟨front, hfront⟩ := hsound.exists_front
    rw [encode_eq_of_multi hsound.content_eq, hfront,
      DataPackage.counter_encode_of_le hsizeCapacity habove]
    rfl

/-! ## There are no other payloads -/

/-- The number of signatures fits, or there are too few or too many. -/
lemma counted_cases (m : CosignedPackage) :
    m.Counted ∨ m.signatures.length = 0 ∨ 255 < m.signatures.length := by
  rcases Nat.eq_zero_or_pos m.signatures.length with hzero | hpos
  · exact .inr (.inl hzero)
  rcases Nat.lt_or_ge 255 m.signatures.length with habove | hle
  · exact .inr (.inr habove)
  · exact .inl ⟨hpos, hle⟩

lemma writable_or_fault_of_single (h : p.content = .single packages) :
    p.Writable ∨ ∃ e, p.FirstFault e := by
  by_cases hne : packages = []
  · obtain rfl := hne
    exact .inr ⟨_, .noPackages h⟩
  by_cases htag : versionTag <:+ Text.toBytes p.metadata
  · exact .inr ⟨_, .ambiguousMetadata h hne htag⟩
  rcases Fallible.forall_ok_or_first_error packages (fun m => m.package.encode) with
    hall | ⟨before, m, after, cause, rfl, hbefore, hcause⟩
  · have hsound : p.Sound packages := ⟨⟨h, hne, htag⟩, hall⟩
    rcases Nat.lt_or_ge packages.length (2 ^ 16) with hcount | hcount
    · rcases Nat.lt_or_ge (Text.toBytes p.metadata).length (2 ^ 24) with hsize | hsize
      · exact .inl (.single hsound hcount hsize)
      · exact .inr ⟨_, .metadataSize hsound hcount hsize⟩
    · exact .inr ⟨_, .packageCount hsound hcount⟩
  · exact .inr ⟨_, .package ⟨h, hne, htag⟩ hbefore hcause⟩

lemma writable_or_fault_of_multi (h : p.content = .multi m) :
    p.Writable ∨ ∃ e, p.FirstFault e := by
  rcases counted_cases m with hcounted | hzero | habove
  · cases hpackage : m.package.encode with
    | error cause => exact .inr ⟨_, .cosigned h hcounted hpackage⟩
    | ok front =>
      have hsound : p.Cosigned m := ⟨h, hcounted, front, hpackage⟩
      rcases Nat.lt_or_ge ((Text.toBytes p.metadata).length + 2) (2 ^ 24) with hsize | hsize
      · exact .inl (.multi hsound hsize)
      · exact .inr ⟨_, .regionSize hsound hsize⟩
  · exact .inr ⟨_, .noSignatures h hzero⟩
  · exact .inr ⟨_, .signerCount h habove⟩

/-- A payload can be written, or it has a first fault. -/
lemma writable_or_fault (p : Payload) : p.Writable ∨ ∃ e, p.FirstFault e := by
  cases hcontent : p.content with
  | single packages => exact writable_or_fault_of_single hcontent
  | multi m => exact writable_or_fault_of_multi hcontent

/-! ## What is written -/

variable {bytes : List UInt8}

lemma Sound.encode_eq_ok_iff (h : p.Sound packages) : p.encode = .ok bytes ↔ p.Written bytes := by
  simp only [h.encode_eq, encodeUnchecked, Fallible.bind_eq_ok_iff, Fallible.pure_eq_ok_iff,
    liftWire_eq_ok_iff, Counter.encode_eq_ok_iff_spells]
  constructor
  · rintro ⟨bodies, hbodies, count, hcount, size, hsize, rfl⟩
    have hmany := Fallible.mapM_flatten_iff.mp ⟨bodies, hbodies, rfl⟩
    simp only [SignedPackage.encode_eq_ok_iff] at hmany
    exact .single h.content_eq hmany hcount hsize
  · intro hwritten
    cases hwritten with
    | single hcontent hbodies hcount hsize =>
      obtain rfl := Content.single.inj (h.content_eq.symm.trans hcontent)
      simp only [← SignedPackage.encode_eq_ok_iff] at hbodies
      obtain ⟨parts, hparts, rfl⟩ := Fallible.mapM_flatten_iff.mpr hbodies
      exact ⟨parts, hparts, _, hcount, _, hsize, rfl⟩
    | multi hcontent =>
      rw [h.content_eq] at hcontent
      cases hcontent

lemma Cosigned.encode_eq_ok_iff (h : p.Cosigned m) : p.encode = .ok bytes ↔ p.Written bytes := by
  simp only [encode_eq_of_multi h.content_eq, Fallible.bind_eq_ok_iff, Fallible.pure_eq_ok_iff,
    liftWire_eq_ok_iff, CosignedPackage.encode_eq_ok_iff, Counter.encode_eq_ok_iff_spells]
  constructor
  · rintro ⟨_, ⟨front, count, hfront, -, hcount, rfl⟩, size, hsize, rfl⟩
    exact .multi h.content_eq hfront hcount hsize
  · intro hwritten
    cases hwritten with
    | single hcontent =>
      rw [h.content_eq] at hcontent
      cases hcontent
    | multi hcontent hfront hcount hsize =>
      obtain rfl := Content.multi.inj (h.content_eq.symm.trans hcontent)
      exact ⟨_, ⟨_, _, hfront, h.counted.1, hcount, rfl⟩, _, hsize, rfl⟩

lemma Writable.encode_eq_ok_iff (h : p.Writable) : p.encode = .ok bytes ↔ p.Written bytes := by
  cases h with
  | single hsound => exact hsound.encode_eq_ok_iff
  | multi hsound => exact hsound.encode_eq_ok_iff

lemma Writable.exists_encode (h : p.Writable) : ∃ bytes, p.encode = .ok bytes := by
  cases h with
  | single hsound hcount hsize =>
    rw [hsound.encode_eq]
    exact exists_encodeUnchecked hsound.exists_encode hcount hsize
  | multi hsound hsize =>
    obtain ⟨front, hfront⟩ := hsound.exists_front
    rw [encode_eq_of_multi hsound.content_eq, hfront,
      DataPackage.counter_encode_of_lt capacity_eq.2 hsize]
    exact ⟨_, rfl⟩

lemma writable_of_encode (h : p.encode = .ok bytes) : p.Writable := by
  rcases p.writable_or_fault with hwritable | ⟨e, hfault⟩
  · exact hwritable
  · rw [encode_of_firstFault hfault] at h
    cases h

lemma firstFault_of_encode {e : PayloadError} (h : p.encode = .error e) : p.FirstFault e := by
  rcases p.writable_or_fault with hwritable | ⟨e', hfault⟩
  · obtain ⟨bytes, hbytes⟩ := hwritable.exists_encode
    rw [h] at hbytes
    cases hbytes
  · obtain rfl := Except.error.inj (h.symm.trans (encode_of_firstFault hfault))
    exact hfault

/-! ## Lengths -/

/-- The packages add their lengths to that of what stands behind them. -/
lemma foldr_encodedLength {bodies : List UInt8} {n : Nat}
    (h : Form.many (fun m body => ∃ front, m.package.encode = .ok front ∧
      body = front ++ m.signature.bytes) packages bodies) :
    packages.foldr (fun m length => m.encodedLength + length) n = bodies.length + n := by
  simp only [← SignedPackage.encode_eq_ok_iff] at h
  induction packages generalizing bodies with
  | nil =>
    obtain rfl := Form.many_nil.mp h
    exact (Nat.zero_add n).symm
  | cons m packages ih =>
    obtain ⟨body, rest, hbody, hrest, rfl⟩ := Form.many_cons.mp h
    rw [List.foldr_cons, ih hrest, List.length_append, SignedPackage.length_encode hbody,
      Nat.add_assoc]

lemma Written.length_eq (h : p.Written bytes) : bytes.length = p.encodedLength := by
  have hmarker : marker.length = 9 := rfl
  cases h with
  | single hcontent hbodies hcount hsize =>
    simp only [encodedLength, hcontent, List.length_append, foldr_encodedLength hbodies, hcount.1,
      hsize.1, hmarker]
    omega
  | multi hcontent hfront hcount hsize =>
    have htag : versionTag.length = 2 := rfl
    simp only [encodedLength, hcontent, CosignedPackage.encodedLength, List.length_append,
      DataPackage.length_encode hfront, CosignedPackage.length_signatures, hcount.1, hsize.1,
      hmarker, htag]
    omega

/-- **Which payloads can be written, what is written, and what is reported otherwise.**  A
single-sign payload can be written exactly when there are packages, the metadata do not end in the
version tag, every data package can be written, there are fewer than 2¹⁶ packages, and the metadata
have fewer than 2²⁴ bytes.  A multi-sign payload can be written exactly when it has between 1 and
255 signatures, its data package can be written, and the metadata with the version tag have fewer
than 2²⁴ bytes.  All other payloads are refused for their first fault.  What is written is the row
of fields, with every number whole, and its length is known without writing it.  It makes no
difference whether the bytes are put together at the end or written one step after the other. -/
theorem encode_domain_and_precedence (p : Payload) :
    ((∃ bytes, p.encode = .ok bytes) ↔ p.Writable) ∧
    (∀ bytes, p.encode = .ok bytes ↔ p.Writable ∧ p.Written bytes) ∧
    (∀ e, p.encode = .error e ↔ p.FirstFault e) ∧
    (∀ bytes, p.encode = .ok bytes → bytes.length = p.encodedLength) ∧
    p.encodeInSteps = p.encode := by
  refine ⟨⟨?_, Writable.exists_encode⟩, fun bytes => ⟨?_, ?_⟩,
    fun e => ⟨firstFault_of_encode, encode_of_firstFault⟩, fun bytes h => ?_, encodeInSteps_eq p⟩
  · rintro ⟨bytes, h⟩
    exact writable_of_encode h
  · intro h
    have hwritable := writable_of_encode h
    exact ⟨hwritable, hwritable.encode_eq_ok_iff.mp h⟩
  · rintro ⟨hwritable, hwritten⟩
    exact hwritable.encode_eq_ok_iff.mpr hwritten
  · exact ((writable_of_encode h).encode_eq_ok_iff.mp h).length_eq

/-- A package that can be written, one without points, and one whose value has no bytes. -/
def sampleFaulty : List SignedPackage :=
  [⟨.sample, ⟨Block.zero⟩⟩] ++ ⟨⟨[], 7⟩, ⟨Block.zero⟩⟩ ::
    [⟨⟨[⟨.ofTextBytes [0x41], []⟩], 7⟩, ⟨Block.zero⟩⟩]

/-- Faulty packages are reported after the metadata and in their order, and too many signatures
before the package that they sign. -/
theorem encode_domain_and_precedence_sample :
    (∃ bytes, sample.encode = .ok bytes ∧ sample.Written bytes ∧
      bytes.length = sample.encodedLength) ∧
    (∃ bytes, encode ⟨.multi ⟨.sample, [⟨Block.zero⟩]⟩, "\x00\x02"⟩ = .ok bytes) ∧
    encode ⟨.single sampleFaulty, "\x00\x02"⟩ = .error .ambiguousMetadata ∧
    encode ⟨.single sampleFaulty, "x"⟩ = .error (.wire .noPoints) ∧
    encode ⟨.multi ⟨⟨[], 7⟩, List.replicate 256 ⟨Block.zero⟩⟩, "x"⟩ =
      .error (.wire (.counterOverflow "signers count" 256 1)) := by
  obtain ⟨bytes, hbytes⟩ := exists_encode_sample
  obtain ⟨-, hwritten, -, hlength, -⟩ := encode_domain_and_precedence sample
  have hlen : (List.replicate 256 (⟨Block.zero⟩ : Signature)).length = 256 := List.length_replicate
  refine ⟨⟨bytes, hbytes, ((hwritten bytes).mp hbytes).2, hlength bytes hbytes⟩, ?_, ?_, ?_, ?_⟩
  · refine (encode_domain_and_precedence _).1.mpr
      (.multi ⟨rfl, ⟨by decide, by decide⟩, ?_⟩ (by decide))
    exact DataPackage.exists_encode_sample
  · exact ((encode_domain_and_precedence _).2.2.1 _).mpr
      (.ambiguousMetadata rfl (by decide) (by decide))
  · refine ((encode_domain_and_precedence _).2.2.1 _).mpr
      (.package ⟨rfl, by decide, by decide⟩ ?_ rfl)
    exact List.forall_mem_singleton.mpr DataPackage.exists_encode_sample
  · have hfault : FirstFault ⟨.multi ⟨⟨[], 7⟩, List.replicate 256 ⟨Block.zero⟩⟩, "x"⟩ _ :=
      .signerCount rfl (by rw [hlen]; decide)
    rw [hlen] at hfault
    exact ((encode_domain_and_precedence _).2.2.1 _).mpr hfault

end Payload
end SignedFeeds
