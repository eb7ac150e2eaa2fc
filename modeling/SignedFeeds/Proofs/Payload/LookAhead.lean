/-
# Excessive counts are refused before anything is read

The number of data points of a package is looked up before the package is read.  If it is above
the limit, the buffer is refused for it, and neither the points nor what stands in front of them
has been looked at: this is so whatever the other bytes are, and however few
(`oversized_points_refused`).

The look is made anew for each package.  A loop that has read the packages at its end is at the
next one with all that stands in front of them (`Reader.RunsOut.times`), and the signatures and
the count that it sees there belong to this package.
-/
import SignedFeeds.Proofs.Payload.Probe

namespace SignedFeeds
namespace Payload

open Reader

variable {limits : Limits} {t t' : Tail} {k : Nat} {e : PayloadError}

/-! ## The look at a count -/

lemma inspect_bind_runsOut {α β : Type} {stop : PayloadError → Prop} {f : Tail → α}
    {next : α → PayloadReader β} (h : RunsOut stop (next (f t)) t) :
    RunsOut stop (inspect f >>= next) t := h

lemma checkPoints_runsOut {skip : Nat} (hahead : pointsAhead? skip t = some k)
    (habove : limits.maxPoints < k) :
    RunsOut (· = .limitExceeded "data points" k limits.maxPoints) (checkPoints limits skip) t := by
  refine ⟨_, t, ?_, rfl⟩
  rw [checkPoints, inspect_bind]
  simp only [hahead, habove, if_true]
  rfl

/-- The count in front of the signatures is the one that is looked up. -/
lemma pointsAhead?_of_rest {x signatures : List UInt8} (hwidth : k < 2 ^ 24)
    (hrest : t.rest = x ++ (BigEndian.ofNat 3 k ++ signatures)) :
    pointsAhead? signatures.length t = some k := by
  have hlen : (BigEndian.ofNat 3 k).length = Counter.points.width := BigEndian.length_ofNat 3 k
  have hwhole : t.rest = [] ++ (x ++ (BigEndian.ofNat 3 k ++ signatures)) := hrest
  obtain ⟨s, hsplit, -⟩ := Tail.exists_split_of_rest hwhole
  rw [pointsAhead?_of_split hlen hsplit, BigEndian.toNat_ofNat_of_lt hwidth]

/-! ## Many packages with one signature -/

/-- A package that can be written is read as its canonical form, which has as many points. -/
lemma exists_limited {m : SignedPackage} {bytes : List UInt8} (h : m.encode = .ok bytes)
    (hwithin : m.package.points.length ≤ limits.maxPoints) :
    ∃ c : SignedPackage, c.package.points.length ≤ limits.maxPoints ∧
      DataPackage.Ascending c.package.points ∧ c.encode = .ok bytes := by
  obtain ⟨front, hfront, rfl⟩ := SignedPackage.encode_eq_ok_iff.mp h
  obtain ⟨package, -, hasc, hperm, -, hencode⟩ := DataPackage.exists_canonicalize_of_encode hfront
  refine ⟨⟨package, m.signature⟩, ?_, hasc, SignedPackage.encode_eq_ok_iff.mpr ⟨front, hencode, rfl⟩⟩
  rw [hperm.length_eq]
  exact hwithin

/-- Behind `n` the loop reads the packages at the end and stops at the one with too many points. -/
lemma readPackages_runsOut {x signature packed : List UInt8} {packages : List SignedPackage}
    {n : Nat} (habove : limits.maxPoints < k) (hwidth : k < 2 ^ 24) (hsig : signature.length = 65)
    (hpacked : Form.many (fun m b => m.package.points.length ≤ limits.maxPoints ∧ m.encode = .ok b)
      packages packed)
    (hlt : packages.length < n) (hmax : n ≤ limits.maxPackages) (hfits : n < 2 ^ 16)
    (hrest : t.rest = x ++ (BigEndian.ofNat 3 k ++ signature) ++ packed ++ BigEndian.ofNat 2 n)
    (hroom : n * minPackageSize ≤ (x ++ (BigEndian.ofNat 3 k ++ signature) ++ packed).length) :
    RunsOut (· = .limitExceeded "data points" k limits.maxPoints) (readPackages limits) t := by
  obtain ⟨canonical, hlen, hmany⟩ := Form.exists_many (fun m b h => exists_limited h.2 h.1) hpacked
  obtain ⟨s, hcount, hleft⟩ := Tail.exists_split_of_rest hrest
  have hread : liftReader (takeCounter .packages) t = .ok n s :=
    mapError_eq_ok_iff.mpr (takeCounter_accepts .packages t n s |>.mpr
      ⟨_, DataPackage.counter_encode_of_lt capacity_eq.1 hfits, hcount⟩)
  have hrequire : liftReader (require "data packages" n minPackageSize) s = .ok () s := by
    refine mapError_eq_ok_iff.mpr (require_eq_ok_iff.mpr ⟨?_, rfl⟩)
    rw [← Tail.length_rest, hleft]
    exact hroom
  obtain ⟨s', hpackages, hnext⟩ := Tail.exists_split_of_rest hleft
  have hahead := pointsAhead?_of_rest hwidth hnext
  rw [hsig] at hahead
  refine .after hread ?_
  rw [if_neg (Nat.ne_of_gt (Nat.zero_lt_of_lt hlt)), if_neg (Nat.not_lt.mpr hmax)]
  refine .after hrequire (.times (readLimited_accepts limits) hmany (by rw [hlen]; exact hlt)
    hpackages ?_)
  exact (checkPoints_runsOut hahead habove).bind

/-! ## One package with many signatures -/

lemma readCosigned_runsOut {x signatures : List UInt8} {g : Nat} (habove : limits.maxPoints < k)
    (hwidth : k < 2 ^ 24) (hpos : 0 < g) (hfits : g < 256) (hsigs : signatures.length = g * 65)
    (hrest : t.rest = x ++ (BigEndian.ofNat 3 k ++ (signatures ++ [UInt8.ofNat g]))) :
    RunsOut (· = .limitExceeded "data points" k limits.maxPoints) (readCosigned limits) t := by
  have hbyte : BigEndian.toNat (BigEndian.ofNat 1 g) = g := BigEndian.toNat_ofNat_of_lt hfits
  have hlen : (signatures ++ [UInt8.ofNat g]).length = 1 + g * 65 := by
    rw [List.length_append, List.length_singleton, hsigs, Nat.add_comm]
  have hahead := pointsAhead?_of_rest hwidth hrest
  rw [hlen] at hahead
  have hsigners : signersAhead t = g := by
    simp only [← List.append_assoc] at hrest
    obtain ⟨s, hsplit, -⟩ := Tail.exists_split_of_rest hrest
    rw [signersAhead_of_split hsplit rfl]
    exact hbyte
  rw [readCosigned_eq]
  refine inspect_bind_runsOut ?_
  rw [hsigners, if_pos hpos]
  exact (checkPoints_runsOut hahead habove).bind

/-! ## The whole buffer -/

/-- A buffer is refused for what the signed part in it is refused for. -/
lemma parse_of_runsOut {front field : List UInt8} {metadata : String} {g : Generation}
    (hfield : Counter.metadataSize.encode (tagged (Text.toBytes metadata) g).length = .ok field)
    (htag : endsWithTag (tagged (Text.toBytes metadata) g) = true ↔ g = .multiSign)
    (hout : ∀ t : Tail, t.rest = front → RunsOut (· = e) (readContent limits g) t) :
    parse (front ++ (tagged (Text.toBytes metadata) g ++ (field ++ marker))) limits = .error e := by
  obtain ⟨t, hhead, hrest, hprobe⟩ := readHead_of_region front hfield
  obtain ⟨t', hregion, hleft⟩ := Tail.exists_split_of_rest hrest
  obtain ⟨size, hsize⟩ : ∃ size, size = (tagged (Text.toBytes metadata) g).length := ⟨_, rfl⟩
  rw [← hsize] at hhead hprobe
  have hgeneration : probe size t = g := by
    have hiff := hprobe.trans htag
    cases hp : probe size t <;> cases g <;> simp_all
  have hmetadata : readMetadata size g t = .ok metadata t' := by
    rw [← hgeneration, readMetadata_probe_eq_ok_iff, hgeneration]
    exact ⟨hsize.symm, hregion⟩
  have hbody : RunsOut (· = e) (readBody limits size) t := by
    refine inspect_bind_runsOut ?_
    rw [hgeneration]
    exact .after hmetadata (hout t' hleft).bind
  obtain ⟨_, s, hread, rfl⟩ : RunsOut (· = e) (read limits) _ := by
    rw [read_eq_bind]
    exact .after hhead hbody
  rw [parse, hread]

/-- **A count of data points above the limit is refused before the package is read.**  Whatever
stands in front of the count, be it too short for a package or no package at all, the buffer is
refused for the count, which the error names with the limit.  This is so for a package of a
single-sign payload, when those behind it are within the limits and the bytes are enough for as many
packages as are counted, and for the package of a multi-sign payload. -/
theorem oversized_points_refused (limits : Limits) (x : List UInt8) (k : Nat)
    (habove : limits.maxPoints < k) (hwidth : k < 2 ^ 24) :
    (∀ (signature : List UInt8) (packages : List SignedPackage) (bodies : List (List UInt8))
      (n : Nat) (metadata : String),
      signature.length = 65 →
      packages.mapM SignedPackage.encode = .ok bodies →
      (∀ m ∈ packages, m.package.points.length ≤ limits.maxPoints) →
      packages.length < n → n ≤ min limits.maxPackages 65535 →
      (Text.toBytes metadata).length < 2 ^ 24 → ¬ versionTag <:+ Text.toBytes metadata →
      111 * n ≤ (x ++ (BigEndian.ofNat 3 k ++ signature) ++ bodies.flatten).length →
      parse (x ++ (BigEndian.ofNat 3 k ++ signature) ++ bodies.flatten ++ BigEndian.ofNat 2 n ++
        (Text.toBytes metadata ++ (BigEndian.ofNat 3 (Text.toBytes metadata).length ++ marker)))
        limits = .error (.limitExceeded "data points" k limits.maxPoints)) ∧
    ∀ (signatures : List UInt8) (g : Nat) (metadata : String),
      1 ≤ g → g ≤ 255 → signatures.length = g * 65 →
      (Text.toBytes metadata).length + 2 < 2 ^ 24 →
      parse (x ++ (BigEndian.ofNat 3 k ++ (signatures ++ [UInt8.ofNat g])) ++
        (Text.toBytes metadata ++ versionTag ++
          (BigEndian.ofNat 3 ((Text.toBytes metadata).length + 2) ++ marker)))
        limits = .error (.limitExceeded "data points" k limits.maxPoints) := by
  constructor
  · intro signature packages bodies n metadata hsig hbodies hwithin hlt hmax hsize htag hroom
    have hpacked := Form.many_and.mpr ⟨hwithin, Fallible.mapM_flatten_iff.mp ⟨bodies, hbodies, rfl⟩⟩
    refine parse_of_runsOut (g := .singleSign)
      (DataPackage.counter_encode_of_lt capacity_eq.2 hsize)
      (iff_of_false (mt endsWithTag_iff.mp htag) (by decide)) fun t hrest => ?_
    refine (readPackages_runsOut habove hwidth hsig hpacked hlt (by omega) (by omega) hrest ?_).map
      Content.single
    rw [Nat.mul_comm]
    exact hroom
  · intro signatures g metadata hpos hmax hsigs hsize
    have hlen : (tagged (Text.toBytes metadata) .multiSign).length =
        (Text.toBytes metadata).length + 2 := List.length_append
    refine parse_of_runsOut (g := .multiSign) ?_
      (iff_of_true (endsWithTag_iff.mpr (List.suffix_append _ _)) rfl) fun t hrest => ?_
    · rw [hlen]
      exact DataPackage.counter_encode_of_lt capacity_eq.2 hsize
    · exact (readCosigned_runsOut habove hwidth hpos (by omega) hsigs hrest).map Content.multi

/-- Eleven points where ten are allowed: in front of a package with two points and behind zeros, and
at the front of the buffer. -/
theorem oversized_points_refused_sample :
    (∃ body, SignedPackage.encode ⟨.sample, ⟨Block.zero⟩⟩ = .ok body ∧
      parse (List.replicate 200 0 ++ (BigEndian.ofNat 3 11 ++ List.replicate 65 0) ++ [body].flatten ++
        BigEndian.ofNat 2 2 ++ (Text.toBytes "m" ++ (BigEndian.ofNat 3 1 ++ marker))) ⟨5, 10⟩ =
          .error (.limitExceeded "data points" 11 10)) ∧
    parse ([] ++ (BigEndian.ofNat 3 11 ++ (List.replicate 65 0 ++ [1])) ++
      (Text.toBytes "m" ++ versionTag ++ (BigEndian.ofNat 3 3 ++ marker))) ⟨5, 10⟩ =
        .error (.limitExceeded "data points" 11 10) := by
  obtain ⟨front, hfront⟩ := DataPackage.exists_encode_sample
  have hbody : SignedPackage.encode ⟨.sample, ⟨Block.zero⟩⟩ =
      .ok (front ++ (Block.zero : Block 65).bytes) :=
    SignedPackage.encode_eq_ok_iff.mpr ⟨front, hfront, rfl⟩
  refine ⟨⟨_, hbody, ?_⟩, ?_⟩
  · refine (oversized_points_refused ⟨5, 10⟩ (List.replicate 200 0) 11 (by decide) (by decide)).1
      (List.replicate 65 0) [⟨.sample, ⟨Block.zero⟩⟩] _ 2 "m" rfl ?_ (by decide) (by decide)
      (by decide) (by decide) (by decide) ?_
    · rw [List.mapM_cons, hbody]
      rfl
    · simp only [List.length_append, List.length_replicate]
      omega
  · exact (oversized_points_refused ⟨5, 10⟩ [] 11 (by decide) (by decide)).2 (List.replicate 65 0) 1
      "m" (by decide) (by decide) rfl (by decide)

end Payload
end SignedFeeds
