/-
# Steps that may fail

A computation that gives a result or an error is described by when it gives a result: a chain
of steps succeeds when each step does.  A list of values written one by one is the list form
of `Form.many`.
-/
import Mathlib.Tactic.Common
import SignedFeeds.Proofs.Reading.Form

namespace SignedFeeds
namespace Fallible

variable {ε α β : Type}

lemma bind_eq_ok_iff {x : Except ε α} {f : α → Except ε β} {b : β} :
    (x >>= f) = .ok b ↔ ∃ a, x = .ok a ∧ f a = .ok b := by
  cases x with
  | error e => exact iff_of_false (by rintro ⟨⟩) (by rintro ⟨_, ⟨⟩, _⟩)
  | ok a =>
    constructor
    · intro h
      exact ⟨a, rfl, h⟩
    · rintro ⟨_, ⟨⟩, h⟩
      exact h

lemma bind_eq_error_iff {x : Except ε α} {f : α → Except ε β} {e : ε} :
    (x >>= f) = .error e ↔ x = .error e ∨ ∃ a, x = .ok a ∧ f a = .error e := by
  cases x with
  | error e' =>
    constructor
    · intro h
      exact .inl (congrArg Except.error (Except.error.inj h))
    · rintro (h | ⟨_, ⟨⟩, _⟩)
      exact congrArg Except.error (Except.error.inj h)
  | ok a =>
    constructor
    · intro h
      exact .inr ⟨a, rfl, h⟩
    · rintro (⟨⟨⟩⟩ | ⟨_, ⟨⟩, h⟩)
      exact h

lemma pure_eq_ok_iff {a b : α} : (pure a : Except ε α) = .ok b ↔ b = a := by
  constructor
  · intro h
    exact (Except.ok.inj h).symm
  · rintro rfl
    rfl

lemma map_eq_ok_iff {x : Except ε α} {f : α → β} {b : β} :
    x.map f = .ok b ↔ ∃ a, x = .ok a ∧ b = f a := by
  cases x with
  | error e => exact iff_of_false (by rintro ⟨⟩) (by rintro ⟨_, ⟨⟩, _⟩)
  | ok a =>
    constructor
    · intro h
      exact ⟨a, rfl, (Except.ok.inj h).symm⟩
    · rintro ⟨_, ⟨⟩, rfl⟩
      rfl

lemma mapM_cons_eq_ok_iff {x : α} {xs : List α} {f : α → Except ε β} {ys : List β} :
    (x :: xs).mapM f = .ok ys ↔
      ∃ y rest, f x = .ok y ∧ xs.mapM f = .ok rest ∧ ys = y :: rest := by
  simp only [List.mapM_cons, bind_eq_ok_iff, pure_eq_ok_iff]
  constructor
  · rintro ⟨y, hy, rest, hrest, rfl⟩
    exact ⟨y, rest, hy, hrest, rfl⟩
  · rintro ⟨y, rest, hy, hrest, rfl⟩
    exact ⟨y, hy, rest, hrest, rfl⟩

/-- Steps that all succeed, one for each value. -/
lemma mapM_eq_ok_iff_map {xs : List α} {f : α → Except ε β} {ys : List β} :
    xs.mapM f = .ok ys ↔ xs.map f = ys.map .ok := by
  induction xs generalizing ys with
  | nil =>
    rw [List.mapM_nil, pure_eq_ok_iff, List.map_nil, eq_comm (a := []), List.map_eq_nil_iff]
  | cons x xs ih =>
    simp only [mapM_cons_eq_ok_iff, ih, List.map_cons, eq_comm (a := f x :: xs.map f),
      List.map_eq_cons_iff]
    constructor
    · rintro ⟨y, rest, hx, hrest, rfl⟩
      exact ⟨y, rest, rfl, hx.symm, hrest.symm⟩
    · rintro ⟨y, rest, rfl, hx, hrest⟩
      exact ⟨y, rest, hx.symm, hrest.symm, rfl⟩

lemma length_of_mapM_eq_ok {xs : List α} {f : α → Except ε β} {ys : List β}
    (h : xs.mapM f = .ok ys) : ys.length = xs.length := by
  have hlen := congrArg List.length (mapM_eq_ok_iff_map.mp h)
  rwa [List.length_map, List.length_map, eq_comm] at hlen

lemma exists_of_mapM_eq_ok {xs : List α} {f : α → Except ε β} {ys : List β} {x : α}
    (h : xs.mapM f = .ok ys) (hx : x ∈ xs) : ∃ y, f x = .ok y := by
  have hmem : f x ∈ ys.map .ok := by
    rw [← mapM_eq_ok_iff_map.mp h]
    exact List.mem_map_of_mem hx
  obtain ⟨y, -, hy⟩ := List.mem_map.mp hmem
  exact ⟨y, hy.symm⟩

lemma mapM_eq_ok_of_forall {xs : List α} {f : α → Except ε β} {g : α → β}
    (h : ∀ x ∈ xs, f x = .ok (g x)) : xs.mapM f = .ok (xs.map g) := by
  rw [mapM_eq_ok_iff_map, List.map_map]
  exact List.map_congr_left h

lemma map_eq_bind (x : Except ε α) (f : α → β) : x.map f = x >>= fun a => pure (f a) := by
  cases x <;> rfl

/-- A step that all values have in common is made once, in front of the others. -/
lemma mapM_bind_eq {γ : Type} {xs : List α} (hxs : xs ≠ []) (first : Except ε γ)
    (f : α → γ → Except ε β) :
    xs.mapM (fun x => first >>= f x) = first >>= fun c => xs.mapM fun x => f x c := by
  cases first with
  | ok c => rfl
  | error e =>
    -- the first value already meets the error
    obtain ⟨x, rest, rfl⟩ := List.exists_cons_of_ne_nil hxs
    rw [List.mapM_cons]
    rfl

/-- What is done to each result can be done to the list of them. -/
lemma mapM_map_eq {γ : Type} (xs : List α) (f : α → Except ε β) (g : β → γ) :
    xs.mapM (fun x => (f x).map g) = (xs.mapM f).map (List.map g) := by
  induction xs with
  | nil => rfl
  | cons x xs ih =>
    rw [List.mapM_cons, List.mapM_cons, ih]
    cases f x with
    | error e => rfl
    | ok y => cases xs.mapM f <;> rfl

/-- A step on what another step gave for each value is one step on the values. -/
lemma mapM_of_mapM_eq_ok {γ : Type} {xs : List α} {ys : List β} {f : α → Except ε β}
    {g : β → Except ε γ} {g' : α → Except ε γ} (h : xs.mapM f = .ok ys)
    (hstep : ∀ x ∈ xs, ∀ y, f x = .ok y → g y = g' x) : ys.mapM g = xs.mapM g' := by
  induction xs generalizing ys with
  | nil =>
    obtain rfl := Except.ok.inj h
    rfl
  | cons x xs ih =>
    obtain ⟨y, rest, hx, hrest, rfl⟩ := mapM_cons_eq_ok_iff.mp h
    obtain ⟨hhead, htail⟩ := List.forall_mem_cons.mp hstep
    rw [List.mapM_cons, List.mapM_cons, hhead y hx, ih hrest htail]

/-- Values that are each read back are read back as a list. -/
lemma mapM_map_eq_pure {m : Type → Type} [Monad m] [LawfulMonad m] {read : β → m α}
    {write : α → β} {xs : List α} (h : ∀ x ∈ xs, read (write x) = pure x) :
    (xs.map write).mapM read = pure xs := by
  induction xs with
  | nil => rw [List.map_nil, List.mapM_nil]
  | cons x xs ih =>
    obtain ⟨hx, hxs⟩ := List.forall_mem_cons.mp h
    rw [List.map_cons, List.mapM_cons, hx, ih hxs, pure_bind, pure_bind]

/-- The first step that fails gives its error to the whole. -/
lemma mapM_eq_error {before after : List α} {x : α} {f : α → Except ε β} {e : ε}
    (hbefore : ∀ y ∈ before, ∃ b, f y = .ok b) (hx : f x = .error e) :
    (before ++ x :: after).mapM f = .error e := by
  induction before with
  | nil => rw [List.nil_append, List.mapM_cons, hx]; rfl
  | cons y before ih =>
    obtain ⟨b, hy⟩ := hbefore y List.mem_cons_self
    have hrest := ih fun z hz => hbefore z (List.mem_cons_of_mem y hz)
    rw [List.cons_append, List.mapM_cons, hy, hrest]
    rfl

lemma exists_mapM_eq_ok {xs : List α} {f : α → Except ε β}
    (h : ∀ x ∈ xs, ∃ y, f x = .ok y) : ∃ ys, xs.mapM f = .ok ys := by
  induction xs with
  | nil => exact ⟨[], rfl⟩
  | cons x xs ih =>
    obtain ⟨⟨y, hy⟩, hxs⟩ := List.forall_mem_cons.mp h
    obtain ⟨ys, hys⟩ := ih hxs
    exact ⟨y :: ys, mapM_cons_eq_ok_iff.mpr ⟨y, ys, hy, hys, rfl⟩⟩

/-- Steps that do not all succeed have a first one that fails. -/
lemma forall_ok_or_first_error (xs : List α) (f : α → Except ε β) :
    (∀ x ∈ xs, ∃ y, f x = .ok y) ∨
      ∃ before x after e, xs = before ++ x :: after ∧ (∀ y ∈ before, ∃ b, f y = .ok b) ∧
        f x = .error e := by
  induction xs with
  | nil => exact .inl (List.forall_mem_nil _)
  | cons x xs ih =>
    cases hx : f x with
    | error e => exact .inr ⟨[], x, xs, e, rfl, List.forall_mem_nil _, hx⟩
    | ok y =>
      rcases ih with hall | ⟨before, x', after, e, rfl, hbefore, hx'⟩
      · exact .inl (List.forall_mem_cons.mpr ⟨⟨y, hx⟩, hall⟩)
      · refine .inr ⟨x :: before, x', after, e, rfl, ?_, hx'⟩
        exact List.forall_mem_cons.mpr ⟨⟨y, hx⟩, hbefore⟩

/-- Values written one by one stand one behind the other. -/
lemma mapM_flatten_iff {xs : List α} {f : α → Except ε (List UInt8)} {bytes : List UInt8} :
    (∃ bodies, xs.mapM f = .ok bodies ∧ bytes = bodies.flatten) ↔
      Form.many (fun x b => f x = .ok b) xs bytes := by
  induction xs generalizing bytes with
  | nil =>
    simp only [List.mapM_nil, pure_eq_ok_iff, Form.many_nil, exists_eq_left, List.flatten_nil]
  | cons x xs ih =>
    simp only [mapM_cons_eq_ok_iff, Form.many_cons, ← ih]
    constructor
    · rintro ⟨_, ⟨body, bodies, hbody, hbodies, rfl⟩, rfl⟩
      exact ⟨body, _, hbody, ⟨bodies, hbodies, rfl⟩, List.flatten_cons⟩
    · rintro ⟨body, _, hbody, ⟨bodies, hbodies, rfl⟩, rfl⟩
      exact ⟨_, ⟨body, bodies, hbody, hbodies, rfl⟩, List.flatten_cons.symm⟩

end Fallible
end SignedFeeds
