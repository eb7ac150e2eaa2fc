/-
# Which packages can be written

A package can be written when it has points, all its values have one width of at least one byte,
no feed occurs twice, and its time, the width and the number of its points fit their fields
(`DataPackage.Writable`).  Otherwise something is wrong with it, and perhaps more than one thing.
`DataPackage.FirstFault` says which of them is reported: one constructor for each fault, in the
order of precedence, with what has been found in order before it.

The two together cover all packages (`writable_or_fault`), and writing does what either of them
says; so each describes exactly when it happens.

Of repeated feeds the least is reported.  Only neighbours in the sorted points are compared, but
in sorted points the copies of a feed are neighbours, and the scan meets the least of them first
(`least_of_firstRepeat?`).
-/
import Mathlib.Algebra.Group.Nat.Defs
import Mathlib.Data.List.Nodup
import SignedFeeds.Proofs.Bytes.Order
import SignedFeeds.Proofs.Package.Binding

namespace SignedFeeds
namespace DataPackage

variable {p : DataPackage} {points : List DataPoint} {w : Nat}

/-- There are points, their values have one width, and no feed occurs twice. -/
structure Sound (p : DataPackage) (w : Nat) : Prop where
  ne_nil : p.points ≠ []
  hasWidth : HasWidth p.points w
  nodup : (p.points.map DataPoint.feed).Nodup

/-- All that a package needs in order to be written with values of `w` bytes. -/
structure Writable (p : DataPackage) (w : Nat) : Prop extends p.Sound w where
  timestamp_lt : p.timestamp.toNat < 2 ^ 48
  width_lt : w < 2 ^ 32
  count_lt : p.points.length < 2 ^ 24

/-- The feed occurs more than once. -/
def Repeats (points : List DataPoint) (feed : FeedId) : Prop :=
  2 ≤ (points.map DataPoint.feed).count feed

/-- What is wrong with a package that cannot be written: the first fault in the order of these
constructors.  Each of them has what the faults before it exclude. -/
inductive FirstFault (p : DataPackage) : WireError → Prop
  /-- There are no points. -/
  | noPoints (hnil : p.points = []) : FirstFault p .noPoints
  /-- The first value has no bytes. -/
  | zeroWidth {first : DataPoint} {rest : List DataPoint} (hpoints : p.points = first :: rest)
      (hzero : first.width = 0) : FirstFault p (.malformed "value byte width" 1 0)
  /-- A point has another width than the first one, and all points in front of it have the
  width of the first one. -/
  | mixedWidths {before after : List DataPoint} {odd : DataPoint} {w : Nat}
      (hpoints : p.points = before ++ odd :: after) (hne : before ≠ [])
      (hwidth : HasWidth before w) (hodd : odd.width ≠ w) : FirstFault p (.mixedWidths w odd.width)
  /-- A feed occurs more than once, and no smaller one does. -/
  | duplicateFeed {feed : FeedId} {w : Nat} (hwidth : HasWidth p.points w)
      (hrepeats : Repeats p.points feed)
      (hleast : ∀ other, Repeats p.points other → ¬ other.bytes < feed.bytes) :
      FirstFault p (.duplicateFeed feed)
  /-- The time does not fit. -/
  | timestamp {w : Nat} (hsound : p.Sound w) (habove : 2 ^ 48 ≤ p.timestamp.toNat) :
      FirstFault p (.counterOverflow "timestamp" p.timestamp.toNat 6)
  /-- The width of the values does not fit. -/
  | valueWidth {w : Nat} (hsound : p.Sound w) (htime : p.timestamp.toNat < 2 ^ 48)
      (habove : 2 ^ 32 ≤ w) : FirstFault p (.counterOverflow "value byte width" w 4)
  /-- The number of points does not fit. -/
  | count {w : Nat} (hsound : p.Sound w) (htime : p.timestamp.toNat < 2 ^ 48)
      (hwidth : w < 2 ^ 32) (habove : 2 ^ 24 ≤ p.points.length) :
      FirstFault p (.counterOverflow "data points count" p.points.length 3)

/-! ## Repeated feeds -/

lemma Repeats.exists_mem {feed : FeedId} (h : Repeats points feed) :
    ∃ q ∈ points, q.feed = feed := by
  have hpos : 0 < (points.map DataPoint.feed).count feed := Nat.lt_of_lt_of_le (by decide) h
  exact List.mem_map.mp (List.count_pos_iff.mp hpos)

lemma repeats_of_perm {points' : List DataPoint} {feed : FeedId} (hperm : points'.Perm points) :
    Repeats points' feed ↔ Repeats points feed := by
  rw [Repeats, Repeats, (hperm.map DataPoint.feed).count_eq]

lemma not_repeats_of_nodup {feed : FeedId} (h : (points.map DataPoint.feed).Nodup) :
    ¬ Repeats points feed := by
  intro hrepeats
  have hle := List.nodup_iff_count_le_one.mp h feed
  rw [Repeats] at hrepeats
  omega

/-- Behind a point with a smaller feed the same feeds are repeated. -/
lemma repeats_cons_iff {a : DataPoint} {feed : FeedId}
    (h : ∀ b ∈ points, compare a.feed b.feed = .lt) :
    Repeats (a :: points) feed ↔ Repeats points feed := by
  rw [Repeats, Repeats, List.map_cons, List.count_cons]
  by_cases ha : a.feed = feed
  · -- the smaller feed itself occurs only once
    have hzero : (points.map DataPoint.feed).count feed = 0 := by
      rw [List.count_eq_zero]
      intro hmem
      obtain ⟨b, hb, rfl⟩ := List.mem_map.mp hmem
      exact feed_ne_of_lt (h b hb) ha
    simp [ha, hzero]
  · simp [ha]

/-- In sorted points the scan of neighbours finds the least of the repeated feeds. -/
lemma least_of_firstRepeat? (h : points.Pairwise fun a b => (compare a.feed b.feed).isLE)
    {feed : FeedId} (hfirst : firstRepeat? points = some feed) :
    Repeats points feed ∧ ∀ other, Repeats points other → (compare feed other).isLE := by
  induction points with
  | nil => cases hfirst
  | cons a rest ih =>
    cases rest with
    | nil => cases hfirst
    | cons b rest =>
      have hle := (List.pairwise_cons.mp h).1
      rw [firstRepeat?] at hfirst
      split_ifs at hfirst with heq
      · obtain rfl := Option.some.inj hfirst
        refine ⟨by simp [Repeats, heq], fun other hother => ?_⟩
        obtain ⟨q, hq, rfl⟩ := hother.exists_mem
        rcases List.mem_cons.mp hq with rfl | hq
        · simp [Std.ReflCmp.compare_self]
        · exact hle q hq
      · have hab := (feed_eq_or_lt (hle b List.mem_cons_self)).resolve_left heq
        have hlt : ∀ c ∈ b :: rest, compare a.feed c.feed = .lt := by
          intro c hc
          rcases List.mem_cons.mp hc with rfl | hc
          · exact hab
          · have hbc := (List.pairwise_cons.mp h.of_cons).1 c hc
            exact Std.TransCmp.lt_of_lt_of_isLE hab hbc
        simp only [repeats_cons_iff hlt]
        exact ih h.of_cons hfirst

/-- The feed that is reported is the least of the repeated ones, whatever the order of the
points. -/
lemma firstRepeat?_sortPoints_eq_some_iff {feed : FeedId} :
    firstRepeat? (sortPoints points) = some feed ↔
      Repeats points feed ∧ ∀ other, Repeats points other → ¬ other.bytes < feed.bytes := by
  have hfound (found : FeedId) (h : firstRepeat? (sortPoints points) = some found) :
      Repeats points found ∧ ∀ other, Repeats points other → (compare found other).isLE := by
    have hleast := least_of_firstRepeat? (pairwise_sortPoints points) h
    simpa only [repeats_of_perm (sortPoints_perm points)] using hleast
  constructor
  · intro h
    obtain ⟨hrepeats, hle⟩ := hfound feed h
    refine ⟨hrepeats, fun other hother hless => ?_⟩
    rw [← FeedId.compare_eq_lt_iff] at hless
    exact absurd hless (Std.OrientedCmp.not_lt_of_isLE (hle other hother))
  · rintro ⟨hrepeats, hleast⟩
    cases hfirst : firstRepeat? (sortPoints points) with
    | none =>
      have hasc := (firstRepeat?_eq_none_iff (pairwise_sortPoints points)).mp hfirst
      exact absurd hrepeats (not_repeats_of_nodup (ascending_sortPoints_iff.mp hasc))
    | some found =>
      -- two least feeds are one
      obtain ⟨hrepeats', hle⟩ := hfound found hfirst
      have hge := hleast found hrepeats'
      rw [← FeedId.compare_eq_lt_iff] at hge
      have heq : compare found feed = .eq := by
        cases hcompare : compare found feed with
        | lt => exact absurd hcompare hge
        | eq => rfl
        | gt =>
          have hless := hle feed hrepeats
          rw [hcompare] at hless
          cases hless
      rw [Std.LawfulEqCmp.eq_of_compare heq]

/-! ## Each fault is reported -/

lemma encode_of_canonicalPoints_eq_error {e : WireError} (h : p.canonicalPoints = .error e) :
    p.encode = .error e := by
  rw [encode, h]
  rfl

/-- The canonical points of a sound package, with the number of bytes that is written for their
values. -/
lemma Sound.canonicalPoints_eq (h : p.Sound w) :
    p.canonicalPoints = .ok (sortPoints p.points) ∧ p.valueWidth?.getD 0 = w := by
  constructor
  · rw [canonicalPoints_eq_ok_iff]
    have hperm := sortPoints_perm p.points
    refine ⟨ascending_sortPoints_iff.mpr h.nodup, hperm, ?_, w, h.hasWidth.of_perm hperm⟩
    intro hnil
    exact h.ne_nil (hperm.symm.trans (by rw [hnil])).eq_nil
  · rw [valueWidth?_of_width h.ne_nil h.hasWidth.2, Option.getD_some]

/-- The bytes of a sound package, as far as its numbers fit. -/
lemma Sound.encode_eq (h : p.Sound w) :
    p.encode = (do
      let time ← Counter.timestamp.encode p.timestamp.toNat
      let width ← Counter.valueWidth.encode w
      let count ← Counter.points.encode p.points.length
      return (sortPoints p.points).flatMap DataPoint.encode ++ (time ++ (width ++ count))) := by
  obtain ⟨hpoints, hwidth⟩ := h.canonicalPoints_eq
  rw [encode, hpoints, hwidth, ← (sortPoints_perm p.points).length_eq]
  rfl

section Counters

variable {c : Counter} {n bound : Nat}

lemma counter_encode_of_lt (hbound : BigEndian.capacity c.width = bound) (h : n < bound) :
    c.encode n = .ok (BigEndian.ofNat c.width n) := by
  rw [Counter.encode, hbound, if_pos h]

lemma counter_encode_of_le (hbound : BigEndian.capacity c.width = bound) (h : bound ≤ n) :
    c.encode n = .error (.counterOverflow c.name n c.width) := by
  rw [Counter.encode, hbound, if_neg (Nat.not_lt.mpr h)]

end Counters

/-- The bounds of the three numbers are what their fields can hold. -/
lemma capacity_eq :
    BigEndian.capacity Counter.timestamp.width = 2 ^ 48 ∧
      BigEndian.capacity Counter.valueWidth.width = 2 ^ 32 ∧
      BigEndian.capacity Counter.points.width = 2 ^ 24 := by decide

lemma canonicalPoints_of_mixedWidths {before after : List DataPoint} {odd : DataPoint}
    (hpoints : p.points = before ++ odd :: after) (hne : before ≠ []) (hwidth : HasWidth before w)
    (hodd : odd.width ≠ w) : p.canonicalPoints = .error (.mixedWidths w odd.width) := by
  obtain ⟨first, rest, rfl⟩ := List.exists_cons_of_ne_nil hne
  obtain rfl : first.width = w := hwidth.2 first List.mem_cons_self
  have hfind : (first :: rest ++ odd :: after).find? (fun q => q.width != first.width) =
      some odd := by
    refine List.find?_eq_some_iff_append.mpr ⟨by simpa using hodd, first :: rest, after, rfl, ?_⟩
    intro q hq
    simp [hwidth.2 q hq]
  have hpos : first.width ≠ 0 := Nat.ne_of_gt hwidth.1
  simp only [List.cons_append] at hpoints hfind
  simp only [canonicalPoints, hpoints, if_neg hpos, hfind]

lemma encode_of_firstFault {e : WireError} (h : p.FirstFault e) : p.encode = .error e := by
  obtain ⟨htimeCapacity, hwidthCapacity, hcountCapacity⟩ := capacity_eq
  cases h with
  | noPoints hnil =>
    refine encode_of_canonicalPoints_eq_error ?_
    simp only [canonicalPoints, hnil]
  | zeroWidth hpoints hzero =>
    refine encode_of_canonicalPoints_eq_error ?_
    simp only [canonicalPoints, hpoints, if_pos hzero]
    rfl
  | mixedWidths hpoints hne hwidth hodd =>
    exact encode_of_canonicalPoints_eq_error (canonicalPoints_of_mixedWidths hpoints hne hwidth hodd)
  | duplicateFeed hwidth hrepeats hleast =>
    refine encode_of_canonicalPoints_eq_error ?_
    have hne : p.points ≠ [] := by
      obtain ⟨q, hq, -⟩ := hrepeats.exists_mem
      exact List.ne_nil_of_mem hq
    rw [canonicalPoints_of_width hne hwidth.2, if_neg (Nat.ne_of_gt hwidth.1),
      firstRepeat?_sortPoints_eq_some_iff.mpr ⟨hrepeats, hleast⟩]
  | timestamp hsound habove =>
    rw [hsound.encode_eq, counter_encode_of_le htimeCapacity habove]
    rfl
  | valueWidth hsound htime habove =>
    rw [hsound.encode_eq, counter_encode_of_lt htimeCapacity htime,
      counter_encode_of_le hwidthCapacity habove]
    rfl
  | count hsound htime hwidth habove =>
    rw [hsound.encode_eq, counter_encode_of_lt htimeCapacity htime,
      counter_encode_of_lt hwidthCapacity hwidth,
      counter_encode_of_le hcountCapacity habove]
    rfl

/-! ## There are no other packages -/

/-- The bytes of a package: its points in ascending order of their feeds, and the three numbers. -/
def Written (p : DataPackage) (w : Nat) (bytes : List UInt8) : Prop :=
  ∃ sorted : List DataPoint, sorted.Perm p.points ∧
    sorted.Pairwise (fun a b => a.feed.bytes < b.feed.bytes) ∧
    bytes = sorted.flatMap (fun q => q.value ++ q.feed.bytes) ++
      (BigEndian.ofNat 6 p.timestamp.toNat ++
        (BigEndian.ofNat 4 w ++ BigEndian.ofNat 3 p.points.length))

lemma Writable.exists_encode (h : p.Writable w) :
    ∃ bytes, p.encode = .ok bytes ∧ p.Written w bytes := by
  obtain ⟨htimeCapacity, hwidthCapacity, hcountCapacity⟩ := capacity_eq
  refine ⟨_, ?_, sortPoints p.points, sortPoints_perm p.points, ?_, rfl⟩
  · rw [h.encode_eq, counter_encode_of_lt htimeCapacity h.timestamp_lt,
      counter_encode_of_lt hwidthCapacity h.width_lt,
      counter_encode_of_lt hcountCapacity h.count_lt]
    rfl
  · refine (ascending_sortPoints_iff.mpr h.nodup).imp fun {a b} hab => ?_
    exact (FeedId.compare_eq_lt_iff a.feed b.feed).mp hab

/-- There is only one way to write a package. -/
lemma Written.unique {bytes bytes' : List UInt8} (h : p.Written w bytes)
    (h' : p.Written w bytes') : bytes = bytes' := by
  obtain ⟨sorted, hperm, hasc, rfl⟩ := h
  obtain ⟨sorted', hperm', hasc', rfl⟩ := h'
  simp only [← FeedId.compare_eq_lt_iff] at hasc hasc'
  rw [Ascending.eq_of_perm hasc hasc' (hperm.trans hperm'.symm)]

/-- Points that do not all have the width of the first one have an earliest that does not. -/
lemma exists_mixedWidths {first : DataPoint} {rest : List DataPoint} (hpos : first.width ≠ 0)
    (hodd : ∃ q ∈ first :: rest, q.width ≠ first.width) :
    ∃ before odd after, first :: rest = before ++ odd :: after ∧ before ≠ [] ∧
      HasWidth before first.width ∧ odd.width ≠ first.width := by
  obtain ⟨q, hq, hother⟩ := hodd
  have hsome : ((first :: rest).find? fun q => q.width != first.width).isSome := by
    rw [List.find?_isSome]
    exact ⟨q, hq, by simpa using hother⟩
  obtain ⟨odd, hfind⟩ := Option.isSome_iff_exists.mp hsome
  obtain ⟨hodd, before, after, hsplit, hsame⟩ := List.find?_eq_some_iff_append.mp hfind
  have hodd : odd.width ≠ first.width := by simpa using hodd
  refine ⟨before, odd, after, hsplit, ?_, ⟨Nat.pos_of_ne_zero hpos, ?_⟩, hodd⟩
  · -- the first point has its own width
    rintro rfl
    obtain ⟨rfl, -⟩ := List.cons.inj hsplit
    exact hodd rfl
  · intro q hq
    simpa using hsame q hq

/-- Where a feed is repeated, some feed is the least repeated one. -/
lemma exists_least_repeat (h : ¬ (points.map DataPoint.feed).Nodup) :
    ∃ feed, Repeats points feed ∧ ∀ other, Repeats points other → ¬ other.bytes < feed.bytes := by
  cases hfirst : firstRepeat? (sortPoints points) with
  | none =>
    have hasc := (firstRepeat?_eq_none_iff (pairwise_sortPoints points)).mp hfirst
    exact absurd (ascending_sortPoints_iff.mp hasc) h
  | some feed => exact ⟨feed, firstRepeat?_sortPoints_eq_some_iff.mp hfirst⟩

/-- A sound package can be written, unless one of its numbers is too large. -/
lemma Sound.writable_or_fault (h : p.Sound w) : p.Writable w ∨ ∃ e, p.FirstFault e := by
  by_cases htime : p.timestamp.toNat < 2 ^ 48
  · by_cases hwidth : w < 2 ^ 32
    · by_cases hcount : p.points.length < 2 ^ 24
      · exact .inl ⟨h, htime, hwidth, hcount⟩
      · exact .inr ⟨_, .count h htime hwidth (Nat.not_lt.mp hcount)⟩
    · exact .inr ⟨_, .valueWidth h htime (Nat.not_lt.mp hwidth)⟩
  · exact .inr ⟨_, .timestamp h (Nat.not_lt.mp htime)⟩

/-- A package can be written, or it has a first fault. -/
lemma writable_or_fault (p : DataPackage) : (∃ w, p.Writable w) ∨ ∃ e, p.FirstFault e := by
  cases hpoints : p.points with
  | nil => exact .inr ⟨_, .noPoints hpoints⟩
  | cons first rest =>
    by_cases hzero : first.width = 0
    · exact .inr ⟨_, .zeroWidth hpoints hzero⟩
    by_cases hodd : ∃ q ∈ first :: rest, q.width ≠ first.width
    · obtain ⟨before, odd, after, hsplit, hne, hwidth, hodd⟩ := exists_mixedWidths hzero hodd
      exact .inr ⟨_, .mixedWidths (hpoints.trans hsplit) hne hwidth hodd⟩
    have hwidth : HasWidth p.points first.width := by
      refine ⟨Nat.pos_of_ne_zero hzero, fun q hq => ?_⟩
      rw [hpoints] at hq
      exact not_not.mp fun hother => hodd ⟨q, hq, hother⟩
    by_cases hnodup : (p.points.map DataPoint.feed).Nodup
    · have hsound : p.Sound first.width := ⟨by simp [hpoints], hwidth, hnodup⟩
      rcases hsound.writable_or_fault with hwritable | hfault
      · exact .inl ⟨_, hwritable⟩
      · exact .inr hfault
    · obtain ⟨feed, hrepeats, hleast⟩ := exists_least_repeat hnodup
      exact .inr ⟨_, .duplicateFeed hwidth hrepeats hleast⟩

/-! ## What a result says -/

lemma exists_written_of_encode {bytes : List UInt8} (h : p.encode = .ok bytes) :
    ∃ w, p.Writable w ∧ p.Written w bytes := by
  rcases p.writable_or_fault with ⟨w, hwritable⟩ | ⟨e, hfault⟩
  · obtain ⟨bytes', h', hwritten⟩ := hwritable.exists_encode
    obtain rfl := Except.ok.inj (h.symm.trans h')
    exact ⟨w, hwritable, hwritten⟩
  · rw [encode_of_firstFault hfault] at h
    cases h

lemma Writable.encode_of_written {bytes : List UInt8} (h : p.Writable w)
    (hwritten : p.Written w bytes) : p.encode = .ok bytes := by
  obtain ⟨bytes', h', hwritten'⟩ := h.exists_encode
  rw [h', hwritten'.unique hwritten]

lemma firstFault_of_encode {e : WireError} (h : p.encode = .error e) : p.FirstFault e := by
  rcases p.writable_or_fault with ⟨w, hwritable⟩ | ⟨e', hfault⟩
  · obtain ⟨bytes, h', -⟩ := hwritable.exists_encode
    rw [h] at h'
    cases h'
  · obtain rfl := Except.error.inj (h.symm.trans (encode_of_firstFault hfault))
    exact hfault

/-- The canonical form of a package is its own canonical form. -/
lemma canonicalize_of_canonicalize {c : DataPackage} (h : p.canonicalize = .ok c) :
    c.canonicalize = .ok c := by
  obtain ⟨points, hpoints, rfl⟩ := Fallible.map_eq_ok_iff.mp h
  obtain ⟨hasc, -, hne, hwidth⟩ := canonicalPoints_eq_ok_iff.mp hpoints
  exact Fallible.map_eq_ok_iff.mpr
    ⟨points, canonicalPoints_eq_ok_iff.mpr ⟨hasc, List.Perm.refl _, hne, hwidth⟩, rfl⟩

/-- **Which packages can be written, what is written, and what is reported otherwise.**  A package
can be written exactly when it has points, all of one width of at least one byte, no feed occurs
twice, and its time is below 2⁴⁸, the width below 2³² and the number of points below 2²⁴.  What is
written are the points in strictly ascending order of their feeds, each as its value and its feed,
and then the time in six bytes, the width in four and the number of points in three.  All other
packages are refused for their first fault; in particular, of the feeds that occur more than once
the least is named.  The canonical form has the points and the time of the package, which is a value
and stays what it was, and it is its own canonical form. -/
theorem encode_domain_and_faults (p : DataPackage) :
    ((∃ bytes, p.encode = .ok bytes) ↔ ∃ w, p.Writable w) ∧
    (∀ bytes, p.encode = .ok bytes ↔ ∃ w, p.Writable w ∧ p.Written w bytes) ∧
    (∀ e, p.encode = .error e ↔ p.FirstFault e) ∧
    (p.canonicalize >>= canonicalize) = p.canonicalize ∧
    ∀ c, p.canonicalize = .ok c → c.points.Perm p.points ∧ c.timestamp = p.timestamp := by
  refine ⟨⟨?_, ?_⟩, fun bytes => ⟨exists_written_of_encode, ?_⟩,
    fun e => ⟨firstFault_of_encode, encode_of_firstFault⟩, ?_, fun c h => ?_⟩
  · rintro ⟨bytes, h⟩
    obtain ⟨w, hwritable, -⟩ := exists_written_of_encode h
    exact ⟨w, hwritable⟩
  · rintro ⟨w, hwritable⟩
    obtain ⟨bytes, h, -⟩ := hwritable.exists_encode
    exact ⟨bytes, h⟩
  · rintro ⟨w, hwritable, hwritten⟩
    exact hwritable.encode_of_written hwritten
  · cases hcanonical : p.canonicalize with
    | error e => rfl
    | ok c => exact canonicalize_of_canonicalize hcanonical
  · obtain ⟨points, hpoints, rfl⟩ := Fallible.map_eq_ok_iff.mp h
    exact ⟨(canonicalPoints_eq_ok_iff.mp hpoints).2.1, rfl⟩

/-- Two feeds that occur twice each, the smaller one later, at a time that does not fit. -/
def sampleTwins : DataPackage :=
  ⟨[⟨.ofTextBytes [0x42], [1]⟩, ⟨.ofTextBytes [0x42], [2]⟩, ⟨.ofTextBytes [0x41], [3]⟩,
    ⟨.ofTextBytes [0x41], [4]⟩], 0x1000000000000⟩

theorem encode_domain_and_faults_sample :
    (∃ bytes, sample.encode = .ok bytes ∧ ∃ w, sample.Writable w ∧ sample.Written w bytes) ∧
      sampleTwins.FirstFault (.duplicateFeed (.ofTextBytes [0x41])) ∧
      sampleTwins.encode = .error (.duplicateFeed (.ofTextBytes [0x41])) ∧
      ∃ c, sampleCrossed.canonicalize = .ok c ∧ c.points.Perm sampleCrossed.points := by
  obtain ⟨bytes, hbytes⟩ := exists_encode_sample
  obtain ⟨-, hwritten, -⟩ := encode_domain_and_faults sample
  obtain ⟨-, -, hfault, -⟩ := encode_domain_and_faults sampleTwins
  obtain ⟨-, -, -, -, hcanonical⟩ := encode_domain_and_faults sampleCrossed
  have htwins : sampleTwins.FirstFault (.duplicateFeed (.ofTextBytes [0x41])) := by
    refine .duplicateFeed (w := 1) (by decide) (by unfold Repeats; decide) fun other hother => ?_
    obtain ⟨q, hq, rfl⟩ := hother.exists_mem
    have hleast : ∀ q ∈ sampleTwins.points,
        ¬ q.feed.bytes < (FeedId.ofTextBytes [0x41]).bytes := by decide
    exact hleast q hq
  have hcrossed : sampleCrossed.canonicalize = .ok sample := by
    refine Fallible.map_eq_ok_iff.mpr ⟨sample.points, ?_, rfl⟩
    exact canonicalPoints_eq_ok_iff.mpr ⟨by decide, by decide, by decide, 1, by decide⟩
  exact ⟨⟨bytes, hbytes, (hwritten bytes).mp hbytes⟩, htwins, (hfault _).mpr htwins, sample,
    hcrossed, (hcanonical sample hcrossed).1⟩

end DataPackage
end SignedFeeds
