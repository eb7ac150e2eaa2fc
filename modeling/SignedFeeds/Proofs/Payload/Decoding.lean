/-
# Reading payloads

`Payload.read_accepts`: a payload is read exactly from what is written for it, when its
packages are in canonical order and its counts are within the limits of the reader.

Three steps of the reader look at bytes that are read later: the probe for the version tag,
the look at the number of signatures, and the look at the number of data points.  Each of them
is shown to see the very field that the writer put there (`probe_of_split`,
`pointsAhead?_of_split`), so that it decides by the value and not by what lies around it.
-/
import SignedFeeds.Payload.Parse
import SignedFeeds.Proofs.Package.Decoding
import SignedFeeds.Proofs.Payload.Encoding

namespace SignedFeeds

/-- All data packages have their points in canonical order. -/
def Content.Ascending (c : Content) : Prop :=
  ∀ p ∈ c.dataPackages, DataPackage.Ascending p.points

instance (c : Content) : Decidable c.Ascending :=
  inferInstanceAs (Decidable (∀ p ∈ c.dataPackages, DataPackage.Ascending p.points))

/-- No count is above the limits.  Only single-sign payloads count packages. -/
def Content.Within (limits : Limits) (c : Content) : Prop :=
  (c.generation = .singleSign → c.dataPackages.length ≤ limits.maxPackages) ∧
    ∀ p ∈ c.dataPackages, p.points.length ≤ limits.maxPoints

instance (limits : Limits) (c : Content) : Decidable (c.Within limits) :=
  inferInstanceAs (Decidable ((c.generation = .singleSign → _) ∧ ∀ p ∈ c.dataPackages, _))

namespace Payload

variable {t t' : Tail} {bytes : List UInt8}

lemma inspect_bind {α β : Type} (f : Tail → α) (next : α → PayloadReader β) :
    (inspect f >>= next) t = next (f t) t := rfl

/-! ## The marker -/

lemma readMarker_accepts : readMarker.Accepts fun _ bytes => bytes = marker := by
  intro t u t'
  rw [readMarker, inspect_bind]
  constructor
  · intro h
    split at h
    · rw [Reader.bind_eq_ok_iff] at h
      obtain ⟨taken, s, htake, hpure⟩ := h
      obtain ⟨-, rfl⟩ := EStateM.Result.ok.inj hpure
      next hpeek =>
      obtain ⟨hlen, hsplit⟩ := Reader.take_eq_ok_iff.mp (Reader.mapError_eq_ok_iff.mp htake)
      -- what is taken is what has been compared
      obtain rfl : marker = taken := Option.some.inj (hpeek.symm.trans (hsplit.peek? hlen))
      exact ⟨marker, rfl, hsplit⟩
    · cases h
  · rintro ⟨_, rfl, hsplit⟩
    rw [if_pos (hsplit.peek? rfl), Reader.bind_eq_ok_iff]
    exact ⟨marker, t', Reader.mapError_eq_ok_iff.mpr (Reader.take_eq_ok_iff.mpr ⟨rfl, hsplit⟩), rfl⟩

/-! ## The metadata region -/

lemma probe_eq_multiSign_iff {size : Nat} :
    probe size t = .multiSign ↔ 2 ≤ size ∧ t.peek? 2 = some versionTag := by
  rw [probe]
  split_ifs with hcond <;> simp [hcond]

/-- The probe decides by the end of the metadata region, even where that region is too short
for the tag and the two bytes that are looked at reach beyond it. -/
lemma probe_of_split {region : List UInt8} (h : t.Split region t') :
    probe region.length t = .multiSign ↔ endsWithTag region = true := by
  have hlen : versionTag.length = 2 := rfl
  rw [probe_eq_multiSign_iff, endsWithTag_iff, Tail.peek?_eq_some_iff, h.rest_eq]
  constructor
  · rintro ⟨htwo, -, front, hfront⟩
    exact List.suffix_of_suffix_length_le ⟨front, hfront.symm⟩ (List.suffix_append _ _) htwo
  · rintro ⟨front, rfl⟩
    refine ⟨by simp [hlen], hlen, t'.rest ++ front, by simp⟩

lemma readText_accepts (length : Nat) :
    Reader.Accepts
      (do
        match Text.ofBytes? (← liftReader (Reader.take "unsigned metadata" length)) with
        | some metadata => return metadata
        | none => throw .malformedMetadata : PayloadReader String)
      fun text bytes => bytes = Text.toBytes text ∧ bytes.length = length := by
  have hdecode (taken : List UInt8) : Reader.Accepts
      (match Text.ofBytes? taken with
        | some metadata => return metadata
        | none => throw .malformedMetadata : PayloadReader String)
      fun text bytes => taken = Text.toBytes text ∧ bytes = [] := by
    simp only [← Text.ofBytes?_eq_some_iff]
    cases Text.ofBytes? taken with
    | some metadata => exact (Reader.Accepts.pure _).congr fun text bytes => by simp [eq_comm]
    | none => exact (Reader.Accepts.throw _).congr fun text bytes => by simp
  refine (((Reader.take_accepts "unsigned metadata" length).mapError _).bind hdecode).congr
    fun text bytes => ?_
  constructor
  · rintro ⟨_, _, back, ⟨rfl, hlen⟩, ⟨rfl, rfl⟩, rfl⟩
    exact ⟨rfl, hlen⟩
  · rintro ⟨rfl, hlen⟩
    exact ⟨_, [], _, ⟨rfl, hlen⟩, ⟨rfl, rfl⟩, rfl⟩

lemma readMetadata_singleSign_accepts (size : Nat) :
    (readMetadata size .singleSign).Accepts fun text bytes =>
      bytes = Text.toBytes text ∧ bytes.length = size := by
  refine ((Reader.Accepts.pure size).bind readText_accepts).congr fun text bytes => ?_
  constructor
  · rintro ⟨_, front, _, ⟨rfl, rfl⟩, ⟨rfl, hlen⟩, rfl⟩
    rw [List.append_nil]
    exact ⟨rfl, hlen⟩
  · rintro ⟨rfl, hlen⟩
    exact ⟨size, _, [], ⟨rfl, rfl⟩, ⟨rfl, hlen⟩, by rw [List.append_nil]⟩

lemma readMetadata_multiSign_accepts (size : Nat) :
    (readMetadata size .multiSign).Accepts fun text bytes =>
      ∃ tag, tag.length = 2 ∧ (Text.toBytes text).length = size - 2 ∧
        bytes = Text.toBytes text ++ tag := by
  refine (((Reader.take_accepts "payload version" 2).mapError _).bind fun _ =>
    (Reader.Accepts.pure (size - 2)).bind readText_accepts).congr fun text bytes => ?_
  constructor
  · rintro ⟨_, _, tag, ⟨rfl, htag⟩, ⟨_, _, _, ⟨rfl, rfl⟩, ⟨rfl, hlen⟩, rfl⟩, rfl⟩
    exact ⟨_, htag, hlen, by rw [List.append_nil]⟩
  · rintro ⟨tag, htag, hlen, rfl⟩
    exact ⟨tag, _, tag, ⟨rfl, htag⟩, ⟨_, _, [], ⟨rfl, rfl⟩, ⟨rfl, hlen⟩, rfl⟩,
      by rw [List.append_nil]⟩

/-- After the probe, what is read is the region: the text, and behind it the tag of the
generation that was found. -/
lemma readMetadata_probe_eq_ok_iff {size : Nat} {text : String} :
    readMetadata size (probe size t) t = .ok text t' ↔
      (tagged (Text.toBytes text) (probe size t)).length = size ∧
        t.Split (tagged (Text.toBytes text) (probe size t)) t' := by
  cases hprobe : probe size t with
  | singleSign =>
    rw [readMetadata_singleSign_accepts size t text t']
    constructor
    · rintro ⟨_, ⟨rfl, hlen⟩, hsplit⟩
      exact ⟨hlen, hsplit⟩
    · rintro ⟨hlen, hsplit⟩
      exact ⟨_, ⟨rfl, hlen⟩, hsplit⟩
  | multiSign =>
    -- the two bytes that are skipped are the ones that the probe has seen
    obtain ⟨htwo, hpeek⟩ := probe_eq_multiSign_iff.mp hprobe
    have htagLength : versionTag.length = 2 := rfl
    rw [readMetadata_multiSign_accepts size t text t']
    constructor
    · rintro ⟨_, ⟨tag, htag, hlen, rfl⟩, hsplit⟩
      obtain ⟨s, hback, _⟩ := Tail.Split.append_iff.mp hsplit
      obtain rfl : versionTag = tag := Option.some.inj (hpeek.symm.trans (hback.peek? htag))
      refine ⟨?_, hsplit⟩
      rw [tagged, List.length_append]
      omega
    · rintro ⟨hlen, hsplit⟩
      rw [tagged, List.length_append] at hlen
      exact ⟨_, ⟨versionTag, rfl, by omega, rfl⟩, hsplit⟩

/-! ## The look ahead -/

lemma pointsAhead?_eq (skip : Nat) (t : Tail) :
    pointsAhead? skip t =
      if skip ≤ t.remaining then ((t.skip skip).peek? Counter.points.width).map BigEndian.toNat
      else none := by
  rw [pointsAhead?]
  exact if_congr Tail.holds_iff rfl rfl

/-- The look ahead finds the three bytes that stand in front of the skipped ones. -/
lemma pointsAhead?_of_split {front n back : List UInt8} (hn : n.length = Counter.points.width)
    (h : t.Split (front ++ (n ++ back)) t') :
    pointsAhead? back.length t = some (BigEndian.toNat n) := by
  rw [← List.append_assoc] at h
  obtain ⟨s, hback, hfront⟩ := Tail.Split.append_iff.mp h
  obtain ⟨s', hn', _⟩ := Tail.Split.append_iff.mp hfront
  rw [pointsAhead?_eq, if_pos hback.length_le, ← hback.eq_skip,
    hn'.peek? hn, Option.map_some]

/-- In a written package the look ahead finds the number of its data points. -/
lemma pointsAhead?_of_encode {p : DataPackage} {front back : List UInt8}
    (hencode : p.encode = .ok front) (h : t.Split (front ++ back) t') :
    pointsAhead? back.length t = some p.points.length := by
  obtain ⟨points, w, -, hperm, -, -, time, width, n, -, -, hn, rfl⟩ :=
    DataPackage.encode_eq_ok_iff.mp hencode
  rw [← hperm.length_eq]
  obtain ⟨hlt, rfl⟩ := Counter.encode_eq_ok_iff.mp hn
  simp only [← List.append_assoc] at h
  rw [List.append_assoc] at h
  rw [pointsAhead?_of_split (BigEndian.length_ofNat _ _) h, BigEndian.toNat_ofNat_of_lt hlt]

lemma checkPoints_checks (limits : Limits) (skip : Nat) :
    (checkPoints limits skip).Checks fun t =>
      ∀ count, pointsAhead? skip t = some count → count ≤ limits.maxPoints := by
  intro t u t'
  show _ ↔ (∀ count, pointsAhead? skip t = some count → count ≤ limits.maxPoints) ∧ t' = t
  rw [checkPoints, inspect_bind]
  cases pointsAhead? skip t with
  | none =>
    constructor
    · intro h
      refine ⟨?_, (EStateM.Result.ok.inj h).2.symm⟩
      rintro _ ⟨⟩
    · rintro ⟨_, rfl⟩
      rfl
  | some count =>
    simp only [Option.some.injEq, forall_eq']
    split_ifs with hlimit
    · exact iff_of_false (by rintro ⟨⟩) fun h => absurd h.1 (Nat.not_le.mpr hlimit)
    · constructor
      · intro h
        exact ⟨Nat.not_lt.mp hlimit, (EStateM.Result.ok.inj h).2.symm⟩
      · rintro ⟨_, rfl⟩
        rfl

/-! ## The signed content -/

lemma minPackageSize_le {m : SignedPackage} {bytes : List UInt8} (h : m.encode = .ok bytes) :
    minPackageSize ≤ bytes.length := by
  obtain ⟨front, hfront, rfl⟩ := SignedPackage.encode_eq_ok_iff.mp h
  obtain ⟨points, w, -, -, hne, hwidth, hlayout⟩ := DataPackage.encode_eq_ok_iff.mp hfront
  have hlength := hlayout.length_eq hwidth.2
  have hcount : 1 * (1 + 32) ≤ points.length * (w + 32) :=
    Nat.mul_le_mul (List.length_pos_iff.mpr hne) (by have := hwidth.1; omega)
  rw [List.length_append, m.signature.length_bytes, minPackageSize]
  omega

/-- One signed package, after the look at its number of points. -/
lemma readLimited_accepts (limits : Limits) :
    Reader.Accepts
      (do
        checkPoints limits 65
        liftReader SignedPackage.read : PayloadReader SignedPackage)
      fun m bytes => m.package.points.length ≤ limits.maxPoints ∧
        DataPackage.Ascending m.package.points ∧ m.encode = .ok bytes := by
  refine (SignedPackage.read_accepts.mapError PayloadError.wire).checked
    (checkPoints_checks limits 65) ?_
  rintro t m bytes t' ⟨_, hencode⟩ hsplit
  obtain ⟨front, hfront, rfl⟩ := SignedPackage.encode_eq_ok_iff.mp hencode
  have hahead := pointsAhead?_of_encode hfront hsplit
  rw [m.signature.length_bytes] at hahead
  simp only [hahead, Option.some.injEq, forall_eq']

lemma readPackages_accepts (limits : Limits) :
    (readPackages limits).Accepts fun packages bytes =>
      (Content.single packages).Ascending ∧ (Content.single packages).Within limits ∧
        (Content.single packages).Layout bytes := by
  have hloop (count : Nat) := Reader.times_accepts (readLimited_accepts limits) count
  refine Reader.Accepts.congr (((Reader.takeCounter_accepts .packages).mapError _).bind fun count =>
    Reader.Accepts.guarded (Reader.Accepts.guarded ((hloop count).roomy
      ((Reader.require_checks _ _ _).mapError _) ?_))) fun packages bytes => ?_
  · rintro packages bytes ⟨rfl, hmany⟩
    exact Form.length_le_of_many (fun m b h => minPackageSize_le h.2.2) hmany
  · simp only [Form.many_and, Content.Ascending, Content.Within, Content.Layout,
      Content.generation, Content.dataPackages, List.forall_mem_map, List.length_map]
    constructor
    · rintro ⟨_, front, n, hn, ⟨hcount, hlimit, rfl, hpoints, hasc, hfront⟩, rfl⟩
      refine ⟨hasc, ⟨fun _ => Nat.not_lt.mp hlimit, hpoints⟩, ?_, front, n, hfront, hn, rfl⟩
      rintro rfl
      exact hcount rfl
    · rintro ⟨hasc, ⟨hlimit, hpoints⟩, hne, front, n, hfront, hn, rfl⟩
      exact ⟨_, front, n, hn, ⟨by simpa using hne, Nat.not_lt.mpr (hlimit trivial), rfl, hpoints,
        hasc, hfront⟩, rfl⟩

/-- The number that the last unread byte stands for. -/
def signersAhead (t : Tail) : Nat := BigEndian.toNat ((t.peek? 1).getD [])

/-- Without signatures nothing is looked ahead for. -/
lemma readCosigned_eq (limits : Limits) :
    readCosigned limits = inspect signersAhead >>= fun signers =>
      if 0 < signers then
        checkPoints limits (1 + signers * 65) >>= fun _ => liftReader CosignedPackage.read
      else liftReader CosignedPackage.read := rfl

lemma signersAhead_of_split (h : t.Split bytes t') (hlen : bytes.length = 1) :
    signersAhead t = BigEndian.toNat bytes := by
  rw [signersAhead, h.peek? hlen, Option.getD_some]

/-- The look at the byte behind a cosigned package gives the number of its signatures. -/
lemma signersAhead_of_encode {m : CosignedPackage} (h : m.encode = .ok bytes)
    (hsplit : t.Split bytes t') : signersAhead t = m.signatures.length := by
  obtain ⟨front, n, _, _, hn, rfl⟩ := CosignedPackage.encode_eq_ok_iff.mp h
  obtain ⟨hlt, rfl⟩ := Counter.encode_eq_ok_iff.mp hn
  simp only [← List.append_assoc] at hsplit
  obtain ⟨s, hback, _⟩ := Tail.Split.append_iff.mp hsplit
  rw [signersAhead_of_split hback (BigEndian.length_ofNat _ _), BigEndian.toNat_ofNat_of_lt hlt]

/-- The look ahead passes over the signatures of a cosigned package and their number. -/
lemma pointsAhead?_of_encode_cosigned {m : CosignedPackage} (h : m.encode = .ok bytes)
    (hsplit : t.Split bytes t') :
    pointsAhead? (1 + m.signatures.length * 65) t = some m.package.points.length := by
  obtain ⟨front, n, hfront, _, hn, rfl⟩ := CosignedPackage.encode_eq_ok_iff.mp h
  have hn : n.length = 1 := DataPackage.length_counter_encode hn
  have hahead := pointsAhead?_of_encode hfront hsplit
  rwa [List.length_append, CosignedPackage.length_signatures, hn, Nat.add_comm] at hahead

lemma readCosigned_accepts (limits : Limits) :
    (readCosigned limits).Accepts fun m bytes =>
      m.package.points.length ≤ limits.maxPoints ∧
        DataPackage.Ascending m.package.points ∧ m.encode = .ok bytes := by
  have hread := CosignedPackage.read_accepts.mapError PayloadError.wire
  intro t m t'
  have hrun : readCosigned limits t = .ok m t' ↔
      (0 < signersAhead t → ∀ count, pointsAhead? (1 + signersAhead t * 65) t = some count →
        count ≤ limits.maxPoints) ∧ liftReader CosignedPackage.read t = .ok m t' := by
    rw [readCosigned_eq, inspect_bind]
    split_ifs with hpos
    · rw [Reader.bind_eq_ok_iff]
      constructor
      · rintro ⟨u, s, hcheck, hok⟩
        obtain ⟨hpoints, rfl⟩ := (checkPoints_checks limits _ t u s).mp hcheck
        exact ⟨fun _ => hpoints, hok⟩
      · rintro ⟨hpoints, hok⟩
        exact ⟨(), t, (checkPoints_checks limits _ t () t).mpr ⟨hpoints hpos, rfl⟩, hok⟩
    · simp [hpos]
  rw [hrun, liftReader, hread t m t']
  constructor
  · rintro ⟨hpoints, bytes, ⟨hasc, hencode⟩, hsplit⟩
    rw [signersAhead_of_encode hencode hsplit] at hpoints
    obtain ⟨_, _, _, hpos, _⟩ := CosignedPackage.encode_eq_ok_iff.mp hencode
    exact ⟨bytes, ⟨hpoints hpos _ (pointsAhead?_of_encode_cosigned hencode hsplit), hasc, hencode⟩,
      hsplit⟩
  · rintro ⟨bytes, ⟨hpoints, hasc, hencode⟩, hsplit⟩
    refine ⟨fun _ count hcount => ?_, bytes, ⟨hasc, hencode⟩, hsplit⟩
    rw [signersAhead_of_encode hencode hsplit,
      pointsAhead?_of_encode_cosigned hencode hsplit] at hcount
    obtain rfl := Option.some.inj hcount
    exact hpoints

lemma readContent_accepts (limits : Limits) (g : Generation) :
    (readContent limits g).Accepts fun c bytes =>
      c.generation = g ∧ c.Ascending ∧ c.Within limits ∧ c.Layout bytes := by
  cases g with
  | singleSign =>
    refine ((readPackages_accepts limits).map Content.single).congr fun c bytes => ?_
    constructor
    · rintro ⟨packages, rfl, h⟩
      exact ⟨rfl, h⟩
    · rintro ⟨hgeneration, h⟩
      cases c with
      | single packages => exact ⟨packages, rfl, h⟩
      | multi package => cases hgeneration
  | multiSign =>
    refine ((readCosigned_accepts limits).map Content.multi).congr fun c bytes => ?_
    constructor
    · rintro ⟨package, rfl, hpoints, hasc, hencode⟩
      refine ⟨rfl, List.forall_mem_singleton.mpr hasc, ⟨?_, ?_⟩, hencode⟩
      · rintro ⟨⟩
      · exact List.forall_mem_singleton.mpr hpoints
    · rintro ⟨hgeneration, hasc, ⟨_, hpoints⟩, hencode⟩
      cases c with
      | single packages => cases hgeneration
      | multi package =>
        exact ⟨package, rfl, hpoints _ List.mem_cons_self, hasc _ List.mem_cons_self, hencode⟩

/-! ## The payload -/

/-- What stands in front of the size field: the signed content and the metadata region. -/
lemma readRegion_accepts (limits : Limits) (size : Nat) :
    Reader.Accepts
      (do
        liftReader (Reader.require "unsigned metadata" size 1)
        let generation ← inspect (probe size)
        let metadata ← readMetadata size generation
        let content ← readContent limits generation
        return ⟨content, metadata⟩ : PayloadReader Payload)
      fun p bytes => p.content.Ascending ∧ p.content.Within limits ∧
        (endsWithTag p.region = true ↔ p.generation = .multiSign) ∧ p.region.length = size ∧
        ∃ front, p.content.Layout front ∧ bytes = front ++ p.region := by
  have hcontent (g : Generation) (metadata : String) :=
    (readContent_accepts limits g).returning fun content => Payload.mk content metadata
  intro t p t'
  rw [Reader.bind_eq_ok_iff]
  constructor
  · rintro ⟨u, s, hroom, hrun⟩
    obtain ⟨hroom, rfl⟩ := Reader.require_eq_ok_iff.mp (Reader.mapError_eq_ok_iff.mp hroom)
    rw [inspect_bind, Reader.bind_eq_ok_iff] at hrun
    obtain ⟨metadata, s', hmetadata, hrest⟩ := hrun
    obtain ⟨hlen, hregion⟩ := readMetadata_probe_eq_ok_iff.mp hmetadata
    obtain ⟨front, ⟨content, rfl, hgeneration, hasc, hwithin, hlayout⟩, hfront⟩ :=
      (hcontent _ metadata s' p t').mp hrest
    have hprobe := probe_of_split hregion
    rw [hlen, ← hgeneration] at hprobe
    rw [← hgeneration] at hlen hregion
    exact ⟨front ++ _, ⟨hasc, hwithin, hprobe.symm, hlen, front, hlayout, rfl⟩,
      Tail.Split.append_iff.mpr ⟨s', hregion, hfront⟩⟩
  · rintro ⟨_, ⟨hasc, hwithin, htag, hlen, front, hlayout, rfl⟩, hsplit⟩
    obtain ⟨s', hregion, hfront⟩ := Tail.Split.append_iff.mp hsplit
    have hprobe : probe size t = p.generation := by
      rw [← hlen]
      have hiff := (probe_of_split hregion).trans htag
      cases hp : probe p.region.length t <;> cases hg : p.generation <;> simp_all
    refine ⟨(), t, Reader.mapError_eq_ok_iff.mpr (Reader.require_eq_ok_iff.mpr ⟨?_, rfl⟩), ?_⟩
    · have := hregion.length_le
      omega
    · rw [inspect_bind, Reader.bind_eq_ok_iff]
      refine ⟨p.metadata, s', readMetadata_probe_eq_ok_iff.mpr ?_, ?_⟩
      · rw [hprobe]
        exact ⟨hlen, hregion⟩
      · rw [hprobe]
        exact (hcontent _ _ s' p t').mpr ⟨front, ⟨p.content, rfl, rfl, hasc, hwithin, hlayout⟩, hfront⟩

/-- A payload is read exactly from what is written for it, when its packages are in canonical
order and within the limits. -/
lemma read_accepts (limits : Limits) :
    (read limits).Accepts fun p bytes =>
      p.content.Ascending ∧ p.content.Within limits ∧ p.encode = .ok bytes := by
  refine (readMarker_accepts.bind fun _ =>
    ((Reader.takeCounter_accepts .metadataSize).mapError _).bind fun size =>
      readRegion_accepts limits size).congr fun p bytes => ?_
  rw [encode_eq_ok_iff]
  constructor
  · rintro ⟨_, _, _, rfl, ⟨_, _, size, hsize,
      ⟨hasc, hwithin, htag, rfl, front, hlayout, rfl⟩, rfl⟩, rfl⟩
    exact ⟨hasc, hwithin, htag, front, size, hlayout, hsize, by simp only [List.append_assoc]⟩
  · rintro ⟨hasc, hwithin, htag, front, size, hlayout, hsize, rfl⟩
    exact ⟨(), _, marker, rfl, ⟨_, _, size, hsize,
      ⟨hasc, hwithin, htag, rfl, front, hlayout, rfl⟩, rfl⟩, by simp only [List.append_assoc]⟩

/-- The payload that is found at the end of a buffer, and what stands in front of it. -/
lemma parse_eq_ok_iff {buffer : List UInt8} {limits : Limits} {found : Found} :
    parse buffer limits = .ok found ↔
      found.payload.content.Ascending ∧ found.payload.content.Within limits ∧
        ∃ bytes, found.payload.encode = .ok bytes ∧ buffer = found.before ++ bytes := by
  rw [parse]
  constructor
  · intro h
    split at h
    · next p t hread =>
      obtain rfl := Except.ok.inj h
      obtain ⟨bytes, ⟨hasc, hwithin, hencode⟩, hsplit⟩ := (read_accepts limits _ p t).mp hread
      refine ⟨hasc, hwithin, bytes, hencode, ?_⟩
      rw [← hsplit.rest_eq, Tail.rest_ofBytes]
    · cases h
  · rintro ⟨hasc, hwithin, bytes, hencode, rfl⟩
    have hread : read limits (Tail.ofBytes (found.before ++ bytes)) =
        .ok found.payload ⟨found.before.reverse, bytes.length⟩ :=
      (read_accepts limits _ _ _).mpr ⟨bytes, ⟨hasc, hwithin, hencode⟩,
        Tail.split_ofBytes found.before bytes⟩
    simp only [hread, Tail.rest, List.reverse_reverse]

end Payload
end SignedFeeds
