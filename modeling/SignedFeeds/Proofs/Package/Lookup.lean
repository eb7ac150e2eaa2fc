/-
# Looking up a feed

A look-up scans the points of a package, in the order in which the package holds them, for the
first one of a feed.  In a package that can be written, or that has been read, no feed occurs twice
(`DataPackage.nodup_of_encode`, `DataPackage.nodup_of_read`), although only neighbours are compared
there, and so the first point of a feed is its only one.  Hence the same point is found in the
package, in its canonical form and in what its bytes are read back as, and in whatever order the
points are put.
-/
import Mathlib.Data.List.Find
import Mathlib.Data.List.Nodup
import SignedFeeds.Proofs.Package.RoundTrip

namespace SignedFeeds
namespace DataPackage

variable {p q : DataPackage} {feed : FeedId} {bytes : List UInt8}

lemma exists_get?_iff : (∃ a, p.get? feed = some a) ↔ ∃ a ∈ p.points, a.feed = feed := by
  rw [← Option.isSome_iff_exists, get?, List.find?_isSome]
  simp only [beq_iff_eq]

/-! ## Packages in which no feed occurs twice -/

/-- A look-up finds all points of the feed. -/
lemma filter_feed_eq (h : (p.points.map DataPoint.feed).Nodup) :
    p.points.filter (fun a => a.feed == feed) = (p.get? feed).toList := by
  have hne := List.pairwise_map.mp h
  have hfeed : ∀ a ∈ p.points.filter (fun a => a.feed == feed), a.feed = feed := fun a ha =>
    beq_iff_eq.mp (List.mem_filter.mp ha).2
  rw [get?, ← List.head?_filter]
  have hfound := hne.sublist (List.filter_sublist (p := fun a => a.feed == feed))
  cases hpoints : p.points.filter (fun a => a.feed == feed) with
  | nil => rfl
  | cons a rest =>
    cases rest with
    | nil => rfl
    | cons b rest =>
      -- two points of the feed would differ in their feeds
      rw [hpoints] at hfeed hfound
      have hab := (List.pairwise_cons.mp hfound).1 b List.mem_cons_self
      rw [hfeed a List.mem_cons_self, hfeed b (List.mem_cons_of_mem a List.mem_cons_self)] at hab
      exact absurd rfl hab

/-- The order of the points makes no difference to a look-up. -/
lemma get?_eq_of_perm (h : (p.points.map DataPoint.feed).Nodup) (hperm : q.points.Perm p.points) :
    q.get? feed = p.get? feed := by
  refine (List.find?_eq_find?_of_perm hperm.symm ?_).symm
  rintro a ⟨ha, hfeed⟩ b ⟨hb, hfeed'⟩
  rw [beq_iff_eq] at hfeed hfeed'
  exact List.inj_on_of_nodup_map h ha hb (hfeed.trans hfeed'.symm)

lemma nodup_of_encode (h : p.encode = .ok bytes) : (p.points.map DataPoint.feed).Nodup := by
  obtain ⟨points, _, hasc, hperm, -⟩ := encode_eq_ok_iff.mp h
  exact (hperm.map _).nodup_iff.mp hasc.nodup

lemma nodup_of_read {t t' : Tail} (h : read t = .ok p t') :
    (p.points.map DataPoint.feed).Nodup := by
  obtain ⟨_, ⟨hasc, -⟩, -⟩ := (read_accepts t p t').mp h
  exact hasc.nodup

/-- **A look-up finds the same point in every form of a package.**  A point of a feed is found
exactly if there is one.  If the package can be written, a look-up finds the same point, or none, in
its canonical form, which is what its bytes are read as, and in all packages with the same points in
another order.  In a package that is read off a buffer the point that is found is the only one of
its feed. -/
theorem lookup_is_stable :
    (∀ (p : DataPackage) feed, (∃ a, p.get? feed = some a) ↔ ∃ a ∈ p.points, a.feed = feed) ∧
    (∀ (p : DataPackage) bytes, p.encode = .ok bytes →
      (∃ c, p.canonicalize = .ok c ∧ ∀ feed, c.get? feed = p.get? feed) ∧
      (∃ d, decode bytes = .ok d ∧ ∀ feed, d.get? feed = p.get? feed) ∧
      ∀ q : DataPackage, q.points.Perm p.points → ∀ feed, q.get? feed = p.get? feed) ∧
    ∀ (t : Tail) (p : DataPackage) t', read t = .ok p t' →
      (p.points.map DataPoint.feed).Nodup ∧
      ∀ feed, p.points.filter (fun a => a.feed == feed) = (p.get? feed).toList := by
  refine ⟨fun p feed => exists_get?_iff, fun p bytes h => ?_, fun t p t' h => ?_⟩
  · have hnodup := nodup_of_encode h
    obtain ⟨c, hc, hasc, hperm, -, hencode⟩ := exists_canonicalize_of_encode h
    have hsame (feed : FeedId) : c.get? feed = p.get? feed := get?_eq_of_perm hnodup hperm
    exact ⟨⟨c, hc, hsame⟩, ⟨c, decode_eq_ok_iff.mpr ⟨hasc, hencode⟩, hsame⟩,
      fun q hq feed => get?_eq_of_perm hnodup hq⟩
  · have hnodup := nodup_of_read h
    exact ⟨hnodup, fun feed => filter_feed_eq hnodup⟩

/-- The second of two points, which becomes the first one, and a feed that has none. -/
theorem lookup_is_stable_sample :
    ∃ bytes d, sampleCrossed.encode = .ok bytes ∧ decode bytes = .ok d ∧
      d.get? (.ofTextBytes [0x41]) = some ⟨.ofTextBytes [0x41], [1]⟩ ∧
      d.get? (.ofTextBytes [0x43]) = none ∧
      sample.points.Perm sampleCrossed.points ∧
      sample.get? (.ofTextBytes [0x41]) = some ⟨.ofTextBytes [0x41], [1]⟩ ∧
      (∃ t, read (Tail.ofBytes ([7] ++ bytes)) = .ok sample t) ∧
      (sample.points.map DataPoint.feed).Nodup ∧
      sample.points.filter (fun a => a.feed == .ofTextBytes [0x41]) =
        [⟨.ofTextBytes [0x41], [1]⟩] := by
  obtain ⟨bytes, hbytes⟩ := exists_encode_sample
  have hsame : sample.SameContent sampleCrossed := ⟨rfl, by decide⟩
  have hcrossed := hsame.encode_eq_ok hbytes
  have hfound : sampleCrossed.get? (.ofTextBytes [0x41]) = some ⟨.ofTextBytes [0x41], [1]⟩ := by
    decide
  obtain ⟨-, hwritten, hread⟩ := lookup_is_stable
  obtain ⟨-, ⟨d, hd, hget⟩, hperm⟩ := hwritten sampleCrossed bytes hcrossed
  have hfirst := (hperm sample hsame.perm (.ofTextBytes [0x41])).trans hfound
  obtain ⟨t, ht, -⟩ : read.Leaves (Tail.ofBytes ([7] ++ bytes)) sample [7] :=
    leaves_iff.mpr ⟨by decide, bytes, hbytes, Tail.rest_ofBytes _⟩
  obtain ⟨hnodup, hfilter⟩ := hread _ _ _ ht
  refine ⟨bytes, d, hcrossed, hd, (hget _).trans hfound, (hget _).trans (by decide), hsame.perm,
    hfirst, ⟨t, ht⟩, hnodup, ?_⟩
  rw [hfilter, hfirst]
  rfl

end DataPackage
end SignedFeeds
