/-
# Writing a payload and finding it again

A payload that has been written is found at the end of whatever it stands behind, with its
packages in canonical form; and whatever is found has been written there, byte for byte.
Both follow from `Payload.parse_eq_ok_iff`.  What has to be added is that the canonical form
of a payload exists and is written alike, and that the limits of the wire are those that a
reader has by default.
-/
import SignedFeeds.Proofs.Package.Binding
import SignedFeeds.Proofs.Payload.Decoding

namespace SignedFeeds

/-! ## Canonical forms -/

/-- The package with its points in ascending order, and its signature as it is. -/
def SignedPackage.canonicalize (m : SignedPackage) : Except WireError SignedPackage :=
  m.package.canonicalize.map fun package => ⟨package, m.signature⟩

/-- The package with its points in ascending order, and its signatures as they are. -/
def CosignedPackage.canonicalize (m : CosignedPackage) : Except WireError CosignedPackage :=
  m.package.canonicalize.map fun package => ⟨package, m.signatures⟩

/-- The content with the points of each package in ascending order. -/
def Content.canonicalize : Content → Except WireError Content
  | .single packages => (packages.mapM SignedPackage.canonicalize).map .single
  | .multi package => package.canonicalize.map .multi

/-- The payload with the points of each package in ascending order. -/
def Payload.canonicalize (p : Payload) : Except WireError Payload :=
  p.content.canonicalize.map fun content => ⟨content, p.metadata⟩

lemma SignedPackage.exists_canonicalize {m : SignedPackage} {bytes : List UInt8}
    (h : m.encode = .ok bytes) :
    ∃ c, m.canonicalize = .ok c ∧ DataPackage.Ascending c.package.points ∧
      c.encode = .ok bytes := by
  obtain ⟨front, hfront, rfl⟩ := SignedPackage.encode_eq_ok_iff.mp h
  obtain ⟨package, hpackage, hasc, -, -, hencode⟩ :=
    DataPackage.exists_canonicalize_of_encode hfront
  refine ⟨⟨package, m.signature⟩, ?_, hasc, ?_⟩
  · exact Fallible.map_eq_ok_iff.mpr ⟨package, hpackage, rfl⟩
  · exact SignedPackage.encode_eq_ok_iff.mpr ⟨front, hencode, rfl⟩

lemma CosignedPackage.exists_canonicalize {m : CosignedPackage} {bytes : List UInt8}
    (h : m.encode = .ok bytes) :
    ∃ c, m.canonicalize = .ok c ∧ DataPackage.Ascending c.package.points ∧
      c.encode = .ok bytes := by
  obtain ⟨front, n, hfront, hpos, hn, rfl⟩ := CosignedPackage.encode_eq_ok_iff.mp h
  obtain ⟨package, hpackage, hasc, -, -, hencode⟩ :=
    DataPackage.exists_canonicalize_of_encode hfront
  refine ⟨⟨package, m.signatures⟩, ?_, hasc, ?_⟩
  · exact Fallible.map_eq_ok_iff.mpr ⟨package, hpackage, rfl⟩
  · exact CosignedPackage.encode_eq_ok_iff.mpr ⟨front, n, hencode, hpos, hn, rfl⟩

/-- Packages one behind the other, each replaced by its canonical form. -/
lemma exists_canonicalize_of_many {packages : List SignedPackage} {bytes : List UInt8}
    (h : Form.many (fun m b => m.encode = .ok b) packages bytes) :
    ∃ canonical, packages.mapM SignedPackage.canonicalize = .ok canonical ∧
      canonical.length = packages.length ∧
      (∀ c ∈ canonical, DataPackage.Ascending c.package.points) ∧
      Form.many (fun m b => m.encode = .ok b) canonical bytes := by
  induction packages generalizing bytes with
  | nil => exact ⟨[], rfl, rfl, List.forall_mem_nil _, h⟩
  | cons m rest ih =>
    obtain ⟨front, back, hm, hrest, rfl⟩ := h
    obtain ⟨c, hc, hasc, hencode⟩ := SignedPackage.exists_canonicalize hm
    obtain ⟨canonical, hcanonical, hlen, hascs, hmany⟩ := ih hrest
    refine ⟨c :: canonical, ?_, by rw [List.length_cons, hlen, List.length_cons],
      List.forall_mem_cons.mpr ⟨hasc, hascs⟩, front, back, hencode, hmany, rfl⟩
    exact Fallible.mapM_cons_eq_ok_iff.mpr ⟨c, canonical, hc, hcanonical, rfl⟩

lemma Content.exists_canonicalize {c : Content} {bytes : List UInt8} (h : c.Layout bytes) :
    ∃ c', c.canonicalize = .ok c' ∧ c'.generation = c.generation ∧ c'.Ascending ∧
      c'.Layout bytes := by
  cases c with
  | single packages =>
    obtain ⟨hne, front, n, hmany, hn, rfl⟩ := h
    obtain ⟨canonical, hcanonical, hlen, hasc, hmany'⟩ := exists_canonicalize_of_many hmany
    refine ⟨.single canonical, Fallible.map_eq_ok_iff.mpr ⟨canonical, hcanonical, rfl⟩, rfl,
      List.forall_mem_map.mpr hasc, ?_, front, n, hmany', by rwa [hlen], rfl⟩
    rintro rfl
    exact hne (List.eq_nil_of_length_eq_zero hlen.symm)
  | multi package =>
    obtain ⟨canonical, hcanonical, hasc, hencode⟩ := CosignedPackage.exists_canonicalize h
    exact ⟨.multi canonical, Fallible.map_eq_ok_iff.mpr ⟨canonical, hcanonical, rfl⟩, rfl,
      List.forall_mem_singleton.mpr hasc, hencode⟩

/-! ## Limits -/

/-- The default limits are those of the wire: what can be written is within them. -/
lemma Content.within_default {c : Content} {bytes : List UInt8} (h : c.Layout bytes) :
    c.Within {} := by
  have hpoints (p : DataPackage) (hp : p ∈ c.dataPackages) : p.points.length ≤ 16777215 := by
    obtain ⟨b, hb⟩ := Content.exists_encode_of_layout h p hp
    obtain ⟨points, w, -, hperm, -, -, t, wb, n, -, -, hn, -⟩ := DataPackage.encode_eq_ok_iff.mp hb
    have hlt : points.length < 16777216 := (Counter.encode_eq_ok_iff.mp hn).1
    rw [← hperm.length_eq]
    omega
  refine ⟨fun hgeneration => ?_, hpoints⟩
  cases c with
  | single packages =>
    obtain ⟨-, front, n, -, hn, -⟩ := h
    have hlt : packages.length < 65536 := (Counter.encode_eq_ok_iff.mp hn).1
    rw [Content.dataPackages, List.length_map]
    exact Nat.le_of_lt_succ hlt
  | multi package => cases hgeneration

namespace Payload

variable {p : Payload} {bytes : List UInt8}

/-- A payload that can be written has a canonical form, which is written alike. -/
lemma exists_canonicalize (h : p.encode = .ok bytes) :
    ∃ p', p.canonicalize = .ok p' ∧ p'.content.Ascending ∧ p'.encode = .ok bytes := by
  obtain ⟨htag, front, size, hlayout, hsize, rfl⟩ := encode_eq_ok_iff.mp h
  obtain ⟨content, hcontent, hgeneration, hasc, hlayout'⟩ := Content.exists_canonicalize hlayout
  refine ⟨⟨content, p.metadata⟩, ?_, hasc, ?_⟩
  · exact Fallible.map_eq_ok_iff.mpr ⟨content, hcontent, rfl⟩
  · have hgeneration' : Payload.generation ⟨content, p.metadata⟩ = p.generation := hgeneration
    have hregion : Payload.region ⟨content, p.metadata⟩ = p.region := by
      rw [region, region, hgeneration']
    rw [encode_eq_ok_iff, hregion, hgeneration']
    exact ⟨htag, front, size, hlayout', hsize, rfl⟩

lemma within_default_of_encode (h : p.encode = .ok bytes) : p.content.Within {} := by
  obtain ⟨-, front, size, hlayout, -⟩ := encode_eq_ok_iff.mp h
  exact Content.within_default hlayout

/-! ## Finding what has been written -/

/-- A payload in canonical form is found as it is. -/
lemma parse_append_of_ascending (hasc : p.content.Ascending) (h : p.encode = .ok bytes)
    (front : List UInt8) : parse (front ++ bytes) = .ok ⟨p, front⟩ :=
  parse_eq_ok_iff.mpr ⟨hasc, within_default_of_encode h, bytes, h, rfl⟩

/-- **A written payload is found behind any prefix.**  Whatever stands in front of its bytes,
what is found at the end is the payload with each of its packages in canonical form, and the
prefix is handed back as it was. -/
theorem parse_append_encode (h : p.encode = .ok bytes) (front : List UInt8) :
    ∃ p', p.canonicalize = .ok p' ∧ parse (front ++ bytes) = .ok ⟨p', front⟩ := by
  obtain ⟨p', hp', hasc, hencode⟩ := exists_canonicalize h
  exact ⟨p', hp', parse_append_of_ascending hasc hencode front⟩

lemma exists_encode_pair (m m' : SignedPackage) (h : ∃ bytes, m.package.encode = .ok bytes)
    (h' : ∃ bytes, m'.package.encode = .ok bytes) :
    ∃ bytes, encode ⟨.single [m, m'], "x"⟩ = .ok bytes := by
  obtain ⟨front, hfront⟩ := h
  obtain ⟨back, hback⟩ := h'
  have hmany : Form.many (fun (m : SignedPackage) b => m.encode = .ok b) [m, m'] _ :=
    ⟨_, _, SignedPackage.encode_eq_ok_iff.mpr ⟨front, hfront, rfl⟩,
      ⟨_, _, SignedPackage.encode_eq_ok_iff.mpr ⟨back, hback, rfl⟩, rfl, rfl⟩, rfl⟩
  exact ⟨_, encode_eq_ok_iff.mpr ⟨endsWithTag_tagged_iff.mpr fun _ => rfl, _, _,
    ⟨by simp, _, _, hmany, rfl, rfl⟩, rfl, rfl⟩⟩

lemma exists_encode_cosigned (m : CosignedPackage) (h : ∃ bytes, m.package.encode = .ok bytes)
    (hpos : 0 < m.signatures.length) (hmax : m.signatures.length ≤ CosignedPackage.maxSigners) :
    ∃ bytes, encode ⟨.multi m, "x"⟩ = .ok bytes := by
  obtain ⟨front, hfront⟩ := h
  have hcount : Counter.signers.encode m.signatures.length = .ok _ :=
    Counter.encode_eq_ok_iff.mpr ⟨Nat.lt_succ_of_le hmax, rfl⟩
  have hlayout : Content.Layout (.multi m) _ :=
    CosignedPackage.encode_eq_ok_iff.mpr ⟨front, _, hfront, hpos, hcount, rfl⟩
  exact ⟨_, encode_eq_ok_iff.mpr ⟨iff_of_true rfl rfl, _, _, hlayout, rfl, rfl⟩⟩

/-- A payload of two packages with the same points in both orders. -/
def sample : Payload :=
  ⟨.single [⟨DataPackage.sampleCrossed, ⟨Block.zero⟩⟩, ⟨DataPackage.sample, ⟨Block.zero⟩⟩], "x"⟩

lemma exists_encode_sample : ∃ bytes, sample.encode = .ok bytes := by
  obtain ⟨bytes, hbytes⟩ := DataPackage.exists_encode_sample
  have hsame : DataPackage.sample.SameContent .sampleCrossed := ⟨rfl, by decide⟩
  exact exists_encode_pair _ _ ⟨bytes, hsame.encode_eq_ok hbytes⟩ ⟨bytes, hbytes⟩

theorem parse_marker_append_encode_sample :
    ∃ bytes p', sample.encode = .ok bytes ∧ sample.canonicalize = .ok p' ∧
      parse (marker ++ bytes) = .ok ⟨p', marker⟩ := by
  obtain ⟨bytes, hbytes⟩ := exists_encode_sample
  obtain ⟨p', hp', hparse⟩ := parse_append_encode hbytes marker
  exact ⟨bytes, p', hbytes, hp', hparse⟩

/-! ## Writing what has been found -/

lemma decode_eq_ok_iff : decode bytes = .ok p ↔ parse bytes = .ok ⟨p, []⟩ := by
  rw [decode]
  cases parse bytes with
  | error e => simp
  | ok found =>
    obtain ⟨payload, before⟩ := found
    cases before <;> simp

/-- **Payloads are not malleable.**  What is found at the end of a buffer can be written, and
its bytes are exactly what stands there.  So a buffer that is one payload is the bytes of that
payload, and no two buffers are read as the same payload. -/
theorem encode_of_parse :
    (∀ buffer limits found, parse buffer limits = .ok found →
      ∃ bytes, found.payload.encode = .ok bytes ∧ buffer = found.before ++ bytes) ∧
      (∀ buffer p, decode buffer = .ok p → p.encode = .ok buffer) ∧
      (∀ x y p, decode x = .ok p → decode y = .ok p → x = y) := by
  have hdecode (buffer : List UInt8) (p : Payload) (h : decode buffer = .ok p) :
      p.encode = .ok buffer := by
    obtain ⟨-, -, bytes, hencode, rfl⟩ := parse_eq_ok_iff.mp (decode_eq_ok_iff.mp h)
    exact hencode
  refine ⟨fun buffer limits found h => (parse_eq_ok_iff.mp h).2.2, hdecode, ?_⟩
  intro x y p hx hy
  have hx' := hdecode x p hx
  rw [hdecode y p hy] at hx'
  exact (Except.ok.inj hx').symm

theorem encode_of_parse_sample :
    ∃ bytes p', parse (marker ++ bytes) = .ok ⟨p', marker⟩ ∧
      (∃ written, p'.encode = .ok written ∧ marker ++ bytes = marker ++ written) ∧
      decode bytes = .ok p' ∧ p'.encode = .ok bytes ∧ ∀ y, decode y = .ok p' → bytes = y := by
  obtain ⟨bytes, hbytes⟩ := exists_encode_sample
  obtain ⟨p', -, hasc, hencode⟩ := exists_canonicalize hbytes
  obtain ⟨hparse, hdecode, hinj⟩ := encode_of_parse
  have hfound := parse_append_of_ascending hasc hencode marker
  have hwhole := decode_eq_ok_iff.mpr (parse_append_of_ascending hasc hencode [])
  exact ⟨bytes, p', hfound, hparse _ _ _ hfound, hwhole, hdecode bytes p' hwhole,
    fun y hy => hinj bytes y p' hwhole hy⟩

end Payload
end SignedFeeds
