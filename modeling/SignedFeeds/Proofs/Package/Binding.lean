/-
# What the signed bytes of a package stand for

The bytes that are signed give the time of a package and its points, and nothing about the
order in which the package holds them.  One direction is the canonical order of the writer.
The other is that a reader accepts the bytes: it finds the number of points and the width of
their values at the end, so no other division of the same bytes into points can be meant.
-/
import SignedFeeds.Proofs.Package.Decoding

namespace SignedFeeds
namespace DataPackage

/-- The same points at the same time, in whatever order they are held. -/
structure SameContent (p q : DataPackage) : Prop where
  timestamp_eq : p.timestamp = q.timestamp
  perm : p.points.Perm q.points

namespace SameContent

variable {p q r : DataPackage}

lemma symm (h : p.SameContent q) : q.SameContent p := ⟨h.timestamp_eq.symm, h.perm.symm⟩

lemma trans (h : p.SameContent q) (h' : q.SameContent r) : p.SameContent r :=
  ⟨h.timestamp_eq.trans h'.timestamp_eq, h.perm.trans h'.perm⟩

/-- If one can be written, so can the other, and the bytes are the same. -/
lemma encode_eq_ok (h : p.SameContent q) {bytes : List UInt8} (hp : p.encode = .ok bytes) :
    q.encode = .ok bytes := by
  obtain ⟨w, hwidth⟩ := exists_width_of_encode hp
  rw [encode_eq_of_perm h.perm.symm h.timestamp_eq.symm hwidth.2, hp]

end SameContent

/-- The bytes of a package give its content back. -/
lemma sameContent_of_encode_eq {p q : DataPackage} {bytes : List UInt8}
    (hp : p.encode = .ok bytes) (hq : q.encode = .ok bytes) : p.SameContent q := by
  obtain ⟨c, _, hasc, hperm, htime, hc⟩ := exists_canonicalize_of_encode hp
  obtain ⟨c', _, hasc', hperm', htime', hc'⟩ := exists_canonicalize_of_encode hq
  have hpc : p.SameContent c := ⟨htime.symm, hperm.symm⟩
  have hcq : c'.SameContent q := ⟨htime', hperm'⟩
  -- both canonical forms are what a reader finds in the bytes
  obtain rfl := read_accepts.unique ⟨hasc, hc⟩ ⟨hasc', hc'⟩
  exact hpc.trans hcq

/-- **The signed bytes bind the content of a package, and nothing else.**  Two packages that
can be written have the same bytes exactly when they hold the same points at the same time.
Packages with the same content can be written alike; if the values have one width, they are
also refused alike, with the same error.  So two packages have one hash only if they have the
same content or their bytes, which differ, collide. -/
theorem encode_binds_content (p q : DataPackage) :
    (∀ bp bq, p.encode = .ok bp → q.encode = .ok bq → (bp = bq ↔ p.SameContent q)) ∧
      (p.SameContent q → ∀ bytes, p.encode = .ok bytes ↔ q.encode = .ok bytes) ∧
      (p.SameContent q → ∀ w, (∀ a ∈ p.points, a.width = w) → p.encode = q.encode) ∧
      (∀ digest, p.hash = .ok digest → q.hash = .ok digest →
        p.SameContent q ∨ ∃ bp bq, p.encode = .ok bp ∧ q.encode = .ok bq ∧ bp ≠ bq ∧
          Keccak.hash bp = Keccak.hash bq) := by
  have hbind (bp bq : List UInt8) (hp : p.encode = .ok bp) (hq : q.encode = .ok bq) :
      bp = bq ↔ p.SameContent q := by
    constructor
    · rintro rfl
      exact sameContent_of_encode_eq hp hq
    · intro h
      have hq' := h.encode_eq_ok hp
      rw [hq] at hq'
      exact (Except.ok.inj hq').symm
  refine ⟨hbind, fun h bytes => ⟨h.encode_eq_ok, h.symm.encode_eq_ok⟩, ?_, ?_⟩
  · intro h w hwidth
    exact (encode_eq_of_perm h.perm.symm h.timestamp_eq.symm hwidth).symm
  · intro digest hp hq
    obtain ⟨bp, hbp, rfl⟩ := Fallible.map_eq_ok_iff.mp hp
    obtain ⟨bq, hbq, hcollide⟩ := Fallible.map_eq_ok_iff.mp hq
    by_cases heq : bp = bq
    · exact .inl ((hbind bp bq hbp hbq).mp heq)
    · exact .inr ⟨bp, bq, hbp, hbq, heq, hcollide⟩

/-- A package of two points in canonical order. -/
def sample : DataPackage := ⟨[⟨.ofTextBytes [0x41], [1]⟩, ⟨.ofTextBytes [0x42], [2]⟩], 7⟩

/-- The points of the sample in the other order. -/
def sampleCrossed : DataPackage := ⟨[⟨.ofTextBytes [0x42], [2]⟩, ⟨.ofTextBytes [0x41], [1]⟩], 7⟩

lemma exists_encode_sample : ∃ bytes, sample.encode = .ok bytes :=
  ⟨_, (encode_eq_ok_iff_of_ascending (by decide)).mpr
    ⟨by decide, 1, by decide, _, _, _, rfl, rfl, rfl, rfl⟩⟩

theorem encode_binds_sample :
    ∃ bytes digest, sample.encode = .ok bytes ∧ sampleCrossed.encode = .ok bytes ∧
      sample.encode = sampleCrossed.encode ∧ sample.SameContent sampleCrossed ∧
      sample.hash = .ok digest ∧ sampleCrossed.hash = .ok digest ∧
      (sample.SameContent sampleCrossed ∨ ∃ bp bq, sample.encode = .ok bp ∧
        sampleCrossed.encode = .ok bq ∧ bp ≠ bq ∧ Keccak.hash bp = Keccak.hash bq) := by
  obtain ⟨bytes, hbytes⟩ := exists_encode_sample
  obtain ⟨hbind, halike, hwidth, hcollide⟩ := encode_binds_content sample sampleCrossed
  have hsame : sample.SameContent sampleCrossed := ⟨rfl, by decide⟩
  have hcrossed := (halike hsame bytes).mp hbytes
  have hp : sample.hash = .ok (Keccak.hash bytes) := by rw [hash, hbytes]; rfl
  have hq : sampleCrossed.hash = .ok (Keccak.hash bytes) := by rw [hash, hcrossed]; rfl
  exact ⟨bytes, _, hbytes, hcrossed, hwidth hsame 1 (by decide),
    (hbind bytes bytes hbytes hcrossed).mp rfl, hp, hq, hcollide _ hp hq⟩

end DataPackage
end SignedFeeds
