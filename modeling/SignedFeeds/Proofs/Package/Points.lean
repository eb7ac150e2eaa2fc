/-
# The canonical order of data points

Points are *ascending* when each feed is below the next one, which rules out repeated feeds.
The canonical points of a package are the one ascending list with the same points, so they do
not depend on the order in which the package holds them.

The order is a matter of the feeds alone.  Points of one feed keep the order in which they
came, so the sorted lists of two orders can differ, but their feeds do not, and neither does
the repeated feed that is reported.
-/
import Mathlib.Tactic.Common
import SignedFeeds.Package.Basic

namespace SignedFeeds
namespace DataPackage

/-- Each feed is below all that follow it. -/
def Ascending (points : List DataPoint) : Prop :=
  points.Pairwise fun a b => compare a.feed b.feed = .lt

/-- All values have `width` bytes, and at least one. -/
def HasWidth (points : List DataPoint) (width : Nat) : Prop :=
  0 < width ∧ ∀ q ∈ points, q.width = width

variable {points points' : List DataPoint}

instance : Decidable (Ascending points) :=
  inferInstanceAs (Decidable (points.Pairwise fun a b => compare a.feed b.feed = .lt))

instance {width : Nat} : Decidable (HasWidth points width) :=
  inferInstanceAs (Decidable (0 < width ∧ ∀ q ∈ points, q.width = width))

lemma HasWidth.of_perm {width : Nat} (h : HasWidth points width) (hperm : points'.Perm points) :
    HasWidth points' width :=
  ⟨h.1, fun q hq => h.2 q (hperm.mem_iff.mp hq)⟩

/-! ## Feeds in order -/

lemma feed_le_trans (a b c : DataPoint) (hab : (compare a.feed b.feed).isLE)
    (hbc : (compare b.feed c.feed).isLE) : (compare a.feed c.feed).isLE :=
  Std.TransCmp.isLE_trans hab hbc

lemma feed_le_total (a b : DataPoint) :
    ((compare a.feed b.feed).isLE || (compare b.feed a.feed).isLE) = true := by
  have hswap : compare b.feed a.feed = (compare a.feed b.feed).swap := Std.OrientedCmp.eq_swap
  rw [hswap]
  cases compare a.feed b.feed <;> rfl

lemma feed_ne_of_lt {a b : DataPoint} (h : compare a.feed b.feed = .lt) : a.feed ≠ b.feed := by
  intro heq
  have hself : compare b.feed b.feed = .eq := Std.ReflCmp.compare_self
  rw [heq, hself] at h
  cases h

/-- Two feeds in order are the same or strictly in order. -/
lemma feed_eq_or_lt {a b : DataPoint} (h : (compare a.feed b.feed).isLE) :
    a.feed = b.feed ∨ compare a.feed b.feed = .lt := by
  cases hab : compare a.feed b.feed with
  | lt => exact .inr rfl
  | eq => exact .inl (Std.LawfulEqCmp.eq_of_compare hab)
  | gt =>
    rw [hab] at h
    cases h

lemma Ascending.nodup (h : Ascending points) : (points.map DataPoint.feed).Nodup :=
  List.pairwise_map.mpr (h.imp feed_ne_of_lt)

/-- There is only one ascending order of given points. -/
lemma Ascending.eq_of_perm (h : Ascending points) (h' : Ascending points')
    (hperm : points.Perm points') : points = points' := by
  refine hperm.eq_of_pairwise (fun a b _ _ hab hba => ?_) h h'
  exact absurd hba (Std.OrientedCmp.not_lt_of_lt hab)

/-! ## Sorting -/

lemma sortPoints_perm (points : List DataPoint) : (sortPoints points).Perm points :=
  List.mergeSort_perm points _

lemma pairwise_sortPoints (points : List DataPoint) :
    (sortPoints points).Pairwise fun a b => (compare a.feed b.feed).isLE :=
  List.pairwise_mergeSort feed_le_trans feed_le_total points

/-- Sorting puts the feeds in one order, whatever order they came in. -/
lemma map_feed_sortPoints_eq (hperm : points'.Perm points) :
    (sortPoints points').map DataPoint.feed = (sortPoints points).map DataPoint.feed := by
  have hsorted (l : List DataPoint) : ((sortPoints l).map DataPoint.feed).Pairwise
      fun a b => (compare a b).isLE := List.pairwise_map.mpr (pairwise_sortPoints l)
  have hfeeds : ((sortPoints points').map DataPoint.feed).Perm
      ((sortPoints points).map DataPoint.feed) :=
    (((sortPoints_perm points').trans hperm).trans (sortPoints_perm points).symm).map _
  refine hfeeds.eq_of_pairwise (fun a b _ _ hab hba => ?_) (hsorted points') (hsorted points)
  exact Std.LawfulEqCmp.eq_of_compare (Std.OrientedCmp.isLE_antisymm hab hba)

/-- Sorted points ascend exactly when no feed occurs twice. -/
lemma ascending_sortPoints_iff :
    Ascending (sortPoints points) ↔ (points.map DataPoint.feed).Nodup := by
  constructor
  · intro h
    exact ((sortPoints_perm points).map _).nodup_iff.mp h.nodup
  · intro h
    have hne := List.pairwise_map.mp (((sortPoints_perm points).map _).nodup_iff.mpr h)
    refine ((pairwise_sortPoints points).and hne).imp fun hab => ?_
    exact (feed_eq_or_lt hab.1).resolve_left hab.2

/-! ## The two scans of neighbours -/

/-- The scan for a repeated feed looks at the feeds only. -/
lemma firstRepeat?_eq_of_map_feed (h : points'.map DataPoint.feed = points.map DataPoint.feed) :
    firstRepeat? points' = firstRepeat? points := by
  induction points generalizing points' with
  | nil =>
    obtain rfl := List.map_eq_nil_iff.mp h
    rfl
  | cons b rest ih =>
    obtain ⟨b', rest', rfl, hb, hrest⟩ := List.map_eq_cons_iff.mp h
    cases rest with
    | nil =>
      obtain rfl := List.map_eq_nil_iff.mp hrest
      rfl
    | cons c rest =>
      have htail := ih hrest
      obtain ⟨c', rest', rfl, hc, hrest⟩ := List.map_eq_cons_iff.mp hrest
      simp only [firstRepeat?, hb, hc, htail]

/-- Neighbours suffice: an order that holds between them holds throughout. -/
lemma ascending_cons_cons {a b : DataPoint} :
    Ascending (a :: b :: points) ↔ compare a.feed b.feed = .lt ∧ Ascending (b :: points) := by
  rw [Ascending, List.pairwise_cons]
  constructor
  · rintro ⟨ha, h⟩
    exact ⟨ha b List.mem_cons_self, h⟩
  · rintro ⟨hab, h⟩
    refine ⟨fun c hc => ?_, h⟩
    rcases List.mem_cons.mp hc with rfl | hc
    · exact hab
    · exact Std.TransCmp.lt_trans hab ((List.pairwise_cons.mp h).1 c hc)

lemma orderFault?_eq_none_iff : orderFault? points = none ↔ Ascending points := by
  induction points with
  | nil => exact iff_of_true rfl List.Pairwise.nil
  | cons a rest ih =>
    cases rest with
    | nil => exact iff_of_true rfl (List.pairwise_singleton ..)
    | cons b rest =>
      rw [orderFault?, ascending_cons_cons, ← ih]
      cases compare a.feed b.feed <;> simp

/-- In sorted points a repeated feed stands beside itself. -/
lemma firstRepeat?_eq_none_iff
    (h : points.Pairwise fun a b => (compare a.feed b.feed).isLE) :
    firstRepeat? points = none ↔ Ascending points := by
  induction points with
  | nil => exact iff_of_true rfl List.Pairwise.nil
  | cons a rest ih =>
    cases rest with
    | nil => exact iff_of_true rfl (List.pairwise_singleton ..)
    | cons b rest =>
      have hab := (List.pairwise_cons.mp h).1 b List.mem_cons_self
      rw [firstRepeat?, ascending_cons_cons, ← ih h.of_cons]
      rcases feed_eq_or_lt hab with heq | hlt
      · simp [heq, Std.ReflCmp.compare_self]
      · simp [hlt, feed_ne_of_lt hlt]

/-! ## Canonical points -/

/-- The canonical points of a package whose values all have one width. -/
lemma canonicalPoints_of_width {p : DataPackage} {w : Nat} (hne : p.points ≠ [])
    (hwidth : ∀ q ∈ p.points, q.width = w) :
    p.canonicalPoints =
      if w = 0 then .error zeroWidth
      else
        match firstRepeat? (sortPoints p.points) with
        | some feed => .error (.duplicateFeed feed)
        | none => .ok (sortPoints p.points) := by
  unfold canonicalPoints
  split
  · next hpoints => exact absurd hpoints hne
  · next first rest hpoints =>
    have hfirst : first.width = w := hwidth first (by rw [hpoints]; exact List.mem_cons_self)
    have hfind : (p.points.find? fun q => q.width != w) = none :=
      List.find?_eq_none.mpr fun q hq => by simp [hwidth q hq]
    rewrite [hfirst, hfind]
    rfl

/-- The canonical points are the ascending arrangement of the points of the package, and
there are any exactly when the points share a width and no feed occurs twice. -/
lemma canonicalPoints_eq_ok_iff {p : DataPackage} :
    p.canonicalPoints = .ok points ↔
      Ascending points ∧ points.Perm p.points ∧ points ≠ [] ∧ ∃ w, HasWidth points w := by
  constructor
  · intro h
    have hne : p.points ≠ [] := by
      intro hnil
      simp [canonicalPoints, hnil] at h
    obtain ⟨w, hwidth⟩ : ∃ w, ∀ q ∈ p.points, q.width = w := by
      unfold canonicalPoints at h
      split at h
      · cases h
      · next first rest hpoints =>
        split_ifs at h
        split at h
        · cases h
        · next hfind => exact ⟨first.width, by simpa using hfind⟩
    rw [canonicalPoints_of_width hne hwidth] at h
    split_ifs at h with hzero
    split at h
    · cases h
    · next hrepeat =>
      obtain rfl := Except.ok.inj h
      have hperm := sortPoints_perm p.points
      exact ⟨(firstRepeat?_eq_none_iff (pairwise_sortPoints _)).mp hrepeat, hperm,
        fun hnil => hne (hperm.symm.trans (by rw [hnil])).eq_nil,
        w, HasWidth.of_perm ⟨Nat.pos_of_ne_zero hzero, hwidth⟩ hperm⟩
  · rintro ⟨hasc, hperm, hne, w, hwidth⟩
    have hwidth' := hwidth.of_perm hperm.symm
    have hsorted : sortPoints p.points = points := by
      refine Ascending.eq_of_perm ?_ hasc ((sortPoints_perm p.points).trans hperm.symm)
      exact ascending_sortPoints_iff.mpr ((hperm.map _).nodup_iff.mp hasc.nodup)
    have hrepeat : firstRepeat? points = none := by
      rw [← hsorted] at hasc ⊢
      exact (firstRepeat?_eq_none_iff (pairwise_sortPoints _)).mpr hasc
    have hne' : p.points ≠ [] := fun hnil => hne (hperm.trans (by rw [hnil])).eq_nil
    rw [canonicalPoints_of_width hne' hwidth'.2, if_neg (Nat.ne_of_gt hwidth.1), hsorted, hrepeat]

/-- Points of one width in another order have the same canonical points, or the same fault:
the repeated feed that is reported does not depend on the order either. -/
lemma canonicalPoints_eq_of_perm {p q : DataPackage} (hperm : q.points.Perm p.points) {w : Nat}
    (hwidth : ∀ a ∈ p.points, a.width = w) : q.canonicalPoints = p.canonicalPoints := by
  by_cases hne : p.points = []
  · have hne' : q.points = [] := (hperm.trans (by rw [hne])).eq_nil
    simp only [canonicalPoints, hne, hne']
  have hne' : q.points ≠ [] := fun hnil => hne (hperm.symm.trans (by rw [hnil])).eq_nil
  have hwidth' : ∀ a ∈ q.points, a.width = w := fun a ha => hwidth a (hperm.mem_iff.mp ha)
  have hrepeat := firstRepeat?_eq_of_map_feed (map_feed_sortPoints_eq hperm)
  rw [canonicalPoints_of_width hne hwidth, canonicalPoints_of_width hne' hwidth', hrepeat]
  cases hnone : firstRepeat? (sortPoints p.points) with
  | some feed => rfl
  | none =>
    -- without a repeat the two sorted lists ascend, and are one and the same
    have hasc (l : List DataPoint) := (firstRepeat?_eq_none_iff (pairwise_sortPoints l)).mp
    have hsorted : sortPoints q.points = sortPoints p.points :=
      (hasc q.points (hrepeat.trans hnone)).eq_of_perm (hasc p.points hnone)
        (((sortPoints_perm _).trans hperm).trans (sortPoints_perm _).symm)
    simp only [hsorted]

end DataPackage
end SignedFeeds
