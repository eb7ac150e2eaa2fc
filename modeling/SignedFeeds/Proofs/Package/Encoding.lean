/-
# What a written package looks like

`Layout` is the row of fields that a package is written as.  A package can be written when
its points have a canonical order and its numbers fit their fields; its bytes are then the
layout of the canonical points.  Hence the order of the points leaves no trace in the bytes,
and a package and its canonical form are written alike.
-/
import SignedFeeds.Proofs.Fallible
import SignedFeeds.Proofs.Package.Points

namespace SignedFeeds

/-- What can be wrong with a data package that is to be written. -/
inductive WireError.WriteFault : WireError → Prop
  | noPoints : WriteFault .noPoints
  | zeroWidth : WriteFault (.malformed "value byte width" 1 0)
  | mixedWidths (expected actual : Nat) : WriteFault (.mixedWidths expected actual)
  | duplicateFeed (feed : FeedId) : WriteFault (.duplicateFeed feed)
  | counterOverflow {c : Counter} {value : Nat} (listed : c ∈ [.timestamp, .valueWidth, .points])
      (above : BigEndian.capacity c.width ≤ value) :
      WriteFault (.counterOverflow c.name value c.width)

lemma WireError.WriteFault.of_counter {c : Counter} {value : Nat} {e : WireError}
    (listed : c ∈ [.timestamp, .valueWidth, .points]) (h : c.encode value = .error e) :
    e.WriteFault := by
  rw [Counter.encode] at h
  split_ifs at h with hfits
  obtain rfl := Except.error.inj h
  exact .counterOverflow listed (Nat.not_lt.mp hfits)

lemma WireError.WriteFault.of_counterOverflow {field : String} {value width : Nat}
    (h : WriteFault (.counterOverflow field value width)) :
    ∃ c ∈ [Counter.timestamp, .valueWidth, .points], c.name = field := by
  generalize he : WireError.counterOverflow field value width = e at h
  cases h with
  | counterOverflow listed above =>
    obtain ⟨rfl, -, -⟩ := WireError.counterOverflow.inj he
    exact ⟨_, listed, rfl⟩
  | _ => cases he

namespace DataPackage

/-- The bytes `(value ‖ feed) × n ‖ time ‖ value width ‖ n` of given points in this order. -/
def Layout (points : List DataPoint) (time width : Nat) (bytes : List UInt8) : Prop :=
  ∃ t w n, Counter.timestamp.encode time = .ok t ∧ Counter.valueWidth.encode width = .ok w ∧
    Counter.points.encode points.length = .ok n ∧
    bytes = points.flatMap DataPoint.encode ++ (t ++ (w ++ n))

variable {p q : DataPackage} {points : List DataPoint} {bytes : List UInt8}

lemma valueWidth?_of_width {w : Nat} (hne : p.points ≠ []) (hwidth : ∀ a ∈ p.points, a.width = w) :
    p.valueWidth? = some w := by
  obtain ⟨a, rest, hpoints⟩ := List.exists_cons_of_ne_nil hne
  rw [valueWidth?, hpoints, List.head?_cons, Option.map_some,
    hwidth a (by rw [hpoints]; exact List.mem_cons_self)]

/-- A package is written as the layout of its canonical points. -/
lemma encode_eq_ok_iff :
    p.encode = .ok bytes ↔
      ∃ points w, Ascending points ∧ points.Perm p.points ∧ points ≠ [] ∧ HasWidth points w ∧
        Layout points p.timestamp.toNat w bytes := by
  -- the width that is written is that of the first point in the order of the package
  have hvalueWidth {points : List DataPoint} {w : Nat} (hperm : points.Perm p.points)
      (hne : points ≠ []) (hwidth : HasWidth points w) : p.valueWidth?.getD 0 = w := by
    have hne' : p.points ≠ [] := fun hnil => hne (hperm.trans (by rw [hnil])).eq_nil
    rw [valueWidth?_of_width hne' (hwidth.of_perm hperm.symm).2, Option.getD_some]
  simp only [encode, Fallible.bind_eq_ok_iff, Fallible.pure_eq_ok_iff, canonicalPoints_eq_ok_iff]
  constructor
  · rintro ⟨points, ⟨hasc, hperm, hne, w, hwidth⟩, t, ht, wb, hw, n, hn, rfl⟩
    rw [hvalueWidth hperm hne hwidth] at hw
    exact ⟨points, w, hasc, hperm, hne, hwidth, t, wb, n, ht, hw, hn, rfl⟩
  · rintro ⟨points, w, hasc, hperm, hne, hwidth, t, wb, n, ht, hw, hn, rfl⟩
    rw [← hvalueWidth hperm hne hwidth] at hw
    exact ⟨points, ⟨hasc, hperm, hne, w, hwidth⟩, t, ht, wb, hw, n, hn, rfl⟩

/-- A package in canonical order is written as the layout of its points as they stand. -/
lemma encode_eq_ok_iff_of_ascending (h : Ascending p.points) :
    p.encode = .ok bytes ↔
      p.points ≠ [] ∧ ∃ w, HasWidth p.points w ∧ Layout p.points p.timestamp.toNat w bytes := by
  rw [encode_eq_ok_iff]
  constructor
  · rintro ⟨points, w, hasc, hperm, hne, hwidth, hlayout⟩
    obtain rfl := hasc.eq_of_perm h hperm
    exact ⟨hne, w, hwidth, hlayout⟩
  · rintro ⟨hne, w, hwidth, hlayout⟩
    exact ⟨p.points, w, h, List.Perm.refl _, hne, hwidth, hlayout⟩

/-! ## What cannot be written -/

lemma fault_of_canonicalPoints {e : WireError} (h : p.canonicalPoints = .error e) :
    e.WriteFault := by
  rw [canonicalPoints] at h
  split at h
  · obtain rfl := Except.error.inj h
    exact .noPoints
  split_ifs at h
  · obtain rfl := Except.error.inj h
    exact .zeroWidth
  split at h
  · obtain rfl := Except.error.inj h
    exact .mixedWidths _ _
  dsimp only at h
  split at h
  · obtain rfl := Except.error.inj h
    exact .duplicateFeed _
  · cases h

/-- The error of a package that cannot be written. -/
lemma fault_of_encode {e : WireError} (h : p.encode = .error e) : e.WriteFault := by
  rcases Fallible.bind_eq_error_iff.mp h with h | ⟨points, -, h⟩
  · exact fault_of_canonicalPoints h
  rcases Fallible.bind_eq_error_iff.mp h with h | ⟨t, -, h⟩
  · exact .of_counter (by decide) h
  rcases Fallible.bind_eq_error_iff.mp h with h | ⟨w, -, h⟩
  · exact .of_counter (by decide) h
  rcases Fallible.bind_eq_error_iff.mp h with h | ⟨n, -, h⟩
  · exact .of_counter (by decide) h
  · cases h

/-! ## The order of the points -/

/-- Points of one width in another order are written alike, or refused for the same fault. -/
lemma encode_eq_of_perm (hperm : q.points.Perm p.points) (htime : q.timestamp = p.timestamp)
    {w : Nat} (hwidth : ∀ a ∈ p.points, a.width = w) : q.encode = p.encode := by
  have hwidth? : q.valueWidth? = p.valueWidth? := by
    by_cases hne : p.points = []
    · have hne' : q.points = [] := (hperm.trans (by rw [hne])).eq_nil
      rw [valueWidth?, valueWidth?, hne, hne']
    · have hne' : q.points ≠ [] := fun hnil => hne (hperm.symm.trans (by rw [hnil])).eq_nil
      rw [valueWidth?_of_width hne hwidth,
        valueWidth?_of_width hne' fun a ha => hwidth a (hperm.mem_iff.mp ha)]
  rw [encode, encode, canonicalPoints_eq_of_perm hperm hwidth, htime, hwidth?]

lemma exists_width_of_encode (h : p.encode = .ok bytes) : ∃ w, HasWidth p.points w := by
  obtain ⟨points, w, _, hperm, _, hwidth, _⟩ := encode_eq_ok_iff.mp h
  exact ⟨w, hwidth.of_perm hperm.symm⟩

/-- A package that can be written has a canonical form, which is in canonical order and is
written alike. -/
lemma exists_canonicalize_of_encode (h : p.encode = .ok bytes) :
    ∃ c : DataPackage, p.canonicalize = .ok c ∧ Ascending c.points ∧ c.points.Perm p.points ∧
      c.timestamp = p.timestamp ∧ c.encode = .ok bytes := by
  obtain ⟨points, w, hasc, hperm, hne, hwidth, hlayout⟩ := encode_eq_ok_iff.mp h
  refine ⟨⟨points, p.timestamp⟩, ?_, hasc, hperm, rfl, ?_⟩
  · rw [canonicalize, canonicalPoints_eq_ok_iff.mpr ⟨hasc, hperm, hne, w, hwidth⟩]
    rfl
  · exact (encode_eq_ok_iff_of_ascending hasc).mpr ⟨hne, w, hwidth, hlayout⟩

/-- The canonical form of a package is written alike, or refused for the same fault. -/
lemma encode_of_canonicalize {c : DataPackage} (h : p.canonicalize = .ok c) :
    c.encode = p.encode := by
  obtain ⟨points, hpoints, rfl⟩ := Fallible.map_eq_ok_iff.mp h
  obtain ⟨-, hperm, -, w, hwidth⟩ := canonicalPoints_eq_ok_iff.mp hpoints
  exact encode_eq_of_perm hperm rfl (hwidth.of_perm hperm.symm).2

lemma hash_of_canonicalize {c : DataPackage} (h : p.canonicalize = .ok c) : c.hash = p.hash := by
  rw [hash, hash, encode_of_canonicalize h]

/-! ## Lengths -/

/-- Points of one width take equally many bytes each. -/
lemma length_flatMap_encode {w : Nat} (hwidth : ∀ a ∈ points, a.width = w) :
    (points.flatMap DataPoint.encode).length = points.length * (w + 32) := by
  induction points with
  | nil => simp
  | cons a rest ih =>
    have ha : a.value.length = w := hwidth a List.mem_cons_self
    have hrest := ih fun b hb => hwidth b (List.mem_cons_of_mem _ hb)
    have hfeed := a.feed.length_bytes
    simp only [List.flatMap_cons, List.length_append, List.length_cons, hrest, DataPoint.encode,
      ha, hfeed, Nat.succ_mul]
    omega

lemma length_counter_encode {c : Counter} {n : Nat} (h : c.encode n = .ok bytes) :
    bytes.length = c.width := by
  obtain ⟨_, rfl⟩ := Counter.encode_eq_ok_iff.mp h
  exact BigEndian.length_ofNat c.width n

lemma Layout.length_eq {time w : Nat} (h : Layout points time w bytes)
    (hwidth : ∀ a ∈ points, a.width = w) : bytes.length = points.length * (w + 32) + 13 := by
  obtain ⟨t, wb, n, ht, hw, hn, rfl⟩ := h
  have ht := length_counter_encode ht
  have hw := length_counter_encode hw
  have hn := length_counter_encode hn
  simp only [List.length_append, length_flatMap_encode hwidth, ht, hw, hn, Counter.timestamp,
    Counter.valueWidth, Counter.points]

lemma encodedLength_of_width {w : Nat} (hwidth : ∀ a ∈ p.points, a.width = w) :
    p.encodedLength = p.points.length * (w + 32) + 13 := by
  have hsum : ∀ points : List DataPoint, (∀ a ∈ points, a.width = w) →
      points.foldr (fun q length => q.encodedLength + length) 13 =
        points.length * (w + 32) + 13 := by
    intro points hwidth
    induction points with
    | nil => simp
    | cons a rest ih =>
      have ha : a.width = w := hwidth a List.mem_cons_self
      have hrest := ih fun b hb => hwidth b (List.mem_cons_of_mem _ hb)
      rw [List.foldr_cons, hrest, DataPoint.encodedLength, ha, List.length_cons, Nat.succ_mul]
      omega
  exact hsum p.points hwidth

/-- The length of the bytes is known without writing them. -/
lemma length_encode (h : p.encode = .ok bytes) : bytes.length = p.encodedLength := by
  obtain ⟨points, w, -, hperm, -, hwidth, hlayout⟩ := encode_eq_ok_iff.mp h
  rw [hlayout.length_eq hwidth.2, encodedLength_of_width (hwidth.of_perm hperm.symm).2,
    hperm.length_eq]

end DataPackage
end SignedFeeds
