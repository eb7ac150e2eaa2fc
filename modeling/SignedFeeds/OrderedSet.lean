/-
# Ordered sets

A finite set kept as its elements in strictly ascending order.  The order is part of the
type, so two sets with the same elements are equal.
-/

namespace SignedFeeds

/-- A finite set, as the ascending list of its elements. -/
@[ext] structure OrderedSet (α : Type) [Ord α] where
  /-- The elements, each once, smallest first. -/
  toList : List α
  /-- Each element is below all that follow it. -/
  ascending : toList.Pairwise fun a b => compare a b = .lt

namespace OrderedSet

variable {α : Type} [Ord α]

/-- The set without elements. -/
def empty : OrderedSet α := ⟨[], .nil⟩

instance : EmptyCollection (OrderedSet α) := ⟨empty⟩

instance : Inhabited (OrderedSet α) := ⟨empty⟩

instance : Membership α (OrderedSet α) := ⟨fun s a => a ∈ s.toList⟩

instance [DecidableEq α] : DecidableEq (OrderedSet α) := fun s t =>
  decidable_of_iff (s.toList = t.toList) OrderedSet.ext_iff.symm

instance [DecidableEq α] (a : α) (s : OrderedSet α) : Decidable (a ∈ s) :=
  inferInstanceAs (Decidable (a ∈ s.toList))

/-- The number of elements. -/
def size (s : OrderedSet α) : Nat := s.toList.length

/-- An ascending list with one more element, which stays out if it is there already. -/
def insertSorted (a : α) : List α → List α
  | [] => [a]
  | b :: rest =>
    match compare a b with
    | .lt => a :: b :: rest
    | .eq => b :: rest
    | .gt => b :: insertSorted a rest

theorem mem_insertSorted_imp {a x : α} {l : List α} (h : x ∈ insertSorted a l) :
    x = a ∨ x ∈ l := by
  induction l with
  | nil => simpa [insertSorted] using h
  | cons b rest ih =>
    unfold insertSorted at h
    split at h
    · simpa using h
    · exact .inr h
    · rcases List.mem_cons.mp h with rfl | h
      · simp
      · rcases ih h with h | h <;> simp [h]

theorem pairwise_insertSorted [Std.TransOrd α] {a : α} {l : List α}
    (h : l.Pairwise fun a b => compare a b = .lt) :
    (insertSorted a l).Pairwise fun a b => compare a b = .lt := by
  induction l with
  | nil => simp [insertSorted]
  | cons b rest ih =>
    have hb := List.pairwise_cons.mp h
    unfold insertSorted
    split
    · next hab =>
      refine List.pairwise_cons.mpr ⟨fun x hx => ?_, h⟩
      rcases List.mem_cons.mp hx with rfl | hx
      · exact hab
      · exact Std.TransCmp.lt_trans hab (hb.1 x hx)
    · exact h
    · next hab =>
      refine List.pairwise_cons.mpr ⟨fun x hx => ?_, ih hb.2⟩
      rcases mem_insertSorted_imp hx with rfl | hx
      · exact Std.OrientedCmp.lt_of_gt hab
      · exact hb.1 x hx

/-- The set with one more element. -/
def insert [Std.TransOrd α] (s : OrderedSet α) (a : α) : OrderedSet α :=
  ⟨insertSorted a s.toList, pairwise_insertSorted s.ascending⟩

theorem mem_def {s : OrderedSet α} {a : α} : a ∈ s ↔ a ∈ s.toList := Iff.rfl

@[simp] theorem not_mem_empty (a : α) : ¬ a ∈ (∅ : OrderedSet α) := List.not_mem_nil

theorem mem_insertSorted_of_mem {a x : α} {l : List α} (h : x ∈ l) : x ∈ insertSorted a l := by
  induction l with
  | nil => cases h
  | cons b rest ih =>
    unfold insertSorted
    split
    · exact List.mem_cons_of_mem _ h
    · exact h
    · rcases List.mem_cons.mp h with rfl | h
      · exact List.mem_cons_self
      · exact List.mem_cons_of_mem _ (ih h)

theorem mem_insertSorted_self [Std.LawfulEqOrd α] (a : α) (l : List α) : a ∈ insertSorted a l := by
  induction l with
  | nil => simp [insertSorted]
  | cons b rest ih =>
    unfold insertSorted
    split
    · exact List.mem_cons_self
    · next hab =>
      rw [Std.LawfulEqCmp.eq_of_compare hab]
      exact List.mem_cons_self
    · exact List.mem_cons_of_mem _ ih

@[simp] theorem mem_insert [Std.TransOrd α] [Std.LawfulEqOrd α] {s : OrderedSet α} {a x : α} :
    x ∈ s.insert a ↔ x = a ∨ x ∈ s := by
  refine ⟨mem_insertSorted_imp, ?_⟩
  rintro (rfl | h)
  · exact mem_insertSorted_self x s.toList
  · exact mem_insertSorted_of_mem h

/-- The set without the given element. -/
def erase [DecidableEq α] (s : OrderedSet α) (a : α) : OrderedSet α :=
  ⟨s.toList.filter (· ≠ a), s.ascending.filter _⟩

@[simp] theorem mem_erase [DecidableEq α] {s : OrderedSet α} {a x : α} :
    x ∈ s.erase a ↔ x ∈ s ∧ x ≠ a := by
  simp [mem_def, erase]

/-- The set of the elements of a list. -/
def ofList [Std.TransOrd α] (l : List α) : OrderedSet α := l.foldl insert ∅

theorem mem_foldl_insert [Std.TransOrd α] [Std.LawfulEqOrd α] {l : List α} {s : OrderedSet α}
    {x : α} : x ∈ l.foldl insert s ↔ x ∈ l ∨ x ∈ s := by
  induction l generalizing s with
  | nil => simp
  | cons a rest ih =>
    rw [List.foldl_cons, ih, mem_insert, List.mem_cons]
    grind

@[simp] theorem mem_ofList [Std.TransOrd α] [Std.LawfulEqOrd α] {l : List α} {x : α} :
    x ∈ ofList l ↔ x ∈ l := by
  simp [ofList, mem_foldl_insert]

end OrderedSet
end SignedFeeds
