/-
# JSON values, written and read

A written value begins with a character that is neither a blank nor a closing bracket, and
tells what kind of value it is.  So the reader follows the writer from there to the end of the
value.  Each of its steps reads a character at least, hence the length of the text is enough
fuel.  The values, items and members are proved together, by induction on the fuel.
-/
import SignedFeeds.Proofs.Json.Tokens

namespace SignedFeeds
namespace Json

/-- All numbers in the value are such as the grammar has them. -/
inductive Written : Json → Prop
  | null : Written .null
  | bool (b : Bool) : Written (.bool b)
  | number {n : Numeral} (h : n.Grammatical) : Written (.number n)
  | string (text : Option String) : Written (.string text)
  | array {items : List Json} (h : ∀ v ∈ items, Written v) : Written (.array items)
  | object {members : List (Option String × Json)} (h : ∀ m ∈ members, Written m.2) :
    Written (.object members)

/-! ## The first character -/

lemma skipBlanks_cons {c : Char} {tail : List Char} (h : isBlank c = false) :
    skipBlanks (c :: tail) = c :: tail := by
  simp [skipBlanks, h]

/-- A minus sign or a digit, with which a number begins. -/
def StartsNumber (c : Char) : Prop := c = '-' ∨ c.isDigit

lemma StartsNumber.ne {c d : Char} (h : StartsNumber c) (hd : ¬(d = '-' ∨ d.isDigit)) :
    c ≠ d := by
  rintro rfl
  exact hd h

lemma StartsNumber.isBlank_eq {c : Char} (h : StartsNumber c) : isBlank c = false := by
  have hspace := h.ne (d := ' ') (by decide)
  have htab := h.ne (d := '\t') (by decide)
  have hline := h.ne (d := '\n') (by decide)
  have hreturn := h.ne (d := '\r') (by decide)
  simp [isBlank, hspace, htab, hline, hreturn]

lemma renderNumeral_head {n : Numeral} (h : n.Grammatical) :
    ∃ c tail, renderNumeral n = c :: tail ∧ StartsNumber c := by
  obtain ⟨c, tail, hcons, hc⟩ := h.whole.exists_cons
  rw [renderNumeral_eq, hcons]
  cases n.negative with
  | true => exact ⟨_, _, rfl, .inl rfl⟩
  | false => exact ⟨_, _, rfl, .inr hc⟩

/-- The first character of a value is no blank and closes nothing. -/
lemma renderValue_head {v : Json} (h : Written v) :
    ∃ c tail, renderValue v = c :: tail ∧ isBlank c = false ∧ c ≠ ']' := by
  cases h with
  | null => exact ⟨_, _, by rw [renderValue], rfl, by decide⟩
  | bool b => cases b <;> exact ⟨_, _, by rw [renderValue], rfl, by decide⟩
  | number h =>
    obtain ⟨c, tail, hcons, hc⟩ := renderNumeral_head h
    exact ⟨c, tail, by rw [renderValue, hcons], hc.isBlank_eq, hc.ne (by decide)⟩
  | string text =>
    obtain ⟨body, hbody, -⟩ := exists_renderString_eq text
    exact ⟨_, _, by rw [renderValue, hbody], rfl, by decide⟩
  | @array items h => cases items <;> exact ⟨_, _, by rw [renderValue], rfl, by decide⟩
  | @object members h =>
    rcases members with _ | ⟨⟨name, value⟩, tail⟩ <;>
      exact ⟨_, _, by rw [renderValue], rfl, by decide⟩

lemma stops_renderItems (items : List Json) (rest : List Char) :
    Stops (renderItems items ++ rest) := by
  intro c hc
  cases items with
  | nil =>
    obtain rfl : ']' = c := Option.some.inj hc
    decide
  | cons item tail =>
    obtain rfl : ',' = c := Option.some.inj hc
    decide

lemma stops_renderMembers (members : List (Option String × Json)) (rest : List Char) :
    Stops (renderMembers members ++ rest) := by
  intro c hc
  cases members with
  | nil =>
    obtain rfl : '\x7d' = c := Option.some.inj hc
    decide
  | cons member tail =>
    obtain rfl : ',' = c := Option.some.inj hc
    decide

lemma length_renderItems_pos (items : List Json) : 0 < (renderItems items).length := by
  cases items <;> exact Nat.succ_pos _

lemma length_renderMembers_pos (members : List (Option String × Json)) :
    0 < (renderMembers members).length := by
  cases members <;> exact Nat.succ_pos _

/-! ## One step of the reader -/

variable {fuel : Nat} {c : Char} {tail : List Char}

lemma readValue_of_startsNumber (h : StartsNumber c) :
    readValue (fuel + 1) (c :: tail) =
      (readNumeral (c :: tail)).map fun (n, rest) => (.number n, rest) := by
  rw [readValue, skipBlanks_cons h.isBlank_eq]
  split
  case h_7 => rfl
  -- no other kind of value begins as a number does
  all_goals
    rename_i heq
    exact absurd (List.cons.inj heq).1 (h.ne (by decide))

lemma readValue_array (hblank : isBlank c = false) (hne : c ≠ ']') :
    readValue (fuel + 1) ('[' :: c :: tail) =
      (readItems fuel (c :: tail)).map fun (items, rest) => (.array items, rest) := by
  rw [readValue, skipBlanks_cons rfl]
  simp only [skipBlanks_cons hblank]
  split
  · next heq => exact absurd (List.cons.inj heq).1 hne
  · rfl

/-! ## All steps -/

/-- What `fuel` is enough for is read back as it was written. -/
structure ReadsBack (fuel : Nat) : Prop where
  value : ∀ v rest, Written v → Stops rest → (renderValue v).length ≤ fuel →
    readValue fuel (renderValue v ++ rest) = some (v, rest)
  items : ∀ item tail rest, Written item → (∀ v ∈ tail, Written v) →
    (renderValue item ++ renderItems tail).length ≤ fuel →
    readItems fuel (renderValue item ++ renderItems tail ++ rest) = some (item :: tail, rest)
  members : ∀ name value tail rest, Written value → (∀ m ∈ tail, Written m.2) →
    (renderString name ++ ':' :: (renderValue value ++ renderMembers tail)).length ≤ fuel →
    readMembers fuel (renderString name ++ ':' :: (renderValue value ++ renderMembers tail) ++ rest)
      = some ((name, value) :: tail, rest)

lemma ReadsBack.zero : ReadsBack 0 where
  value v rest hv _ hlen := by
    obtain ⟨c, tail, hcons, -⟩ := renderValue_head hv
    rw [hcons] at hlen
    cases hlen
  items item tail rest hitem _ hlen := by
    have := length_renderItems_pos tail
    rw [List.length_append] at hlen
    omega
  members name value tail rest _ _ hlen := by
    have := length_renderMembers_pos tail
    simp only [List.length_append, List.length_cons] at hlen
    omega

lemma ReadsBack.value_succ (ih : ReadsBack fuel) {v : Json} {rest : List Char} (hv : Written v)
    (hrest : Stops rest) (hlen : (renderValue v).length ≤ fuel + 1) :
    readValue (fuel + 1) (renderValue v ++ rest) = some (v, rest) := by
  cases hv with
  | null =>
    rw [renderValue]
    rfl
  | bool b => cases b <;> rw [renderValue] <;> rfl
  | number h =>
    obtain ⟨c, tail, hcons, hc⟩ := renderNumeral_head h
    have hread := readNumeral_append h hrest
    rw [hcons] at hread
    rw [renderValue, hcons, List.cons_append, readValue_of_startsNumber hc, ← List.cons_append,
      hread]
    rfl
  | string text =>
    obtain ⟨body, hbody, hread⟩ := exists_renderString_eq text
    rw [renderValue, hbody]
    show (readString (body ++ rest)).map _ = _
    rw [hread]
    rfl
  | @array items h =>
    cases items with
    | nil =>
      rw [renderValue]
      rfl
    | cons item tail =>
      obtain ⟨hitem, htail⟩ := List.forall_mem_cons.mp h
      obtain ⟨c, cs, hcons, hblank, hne⟩ := renderValue_head hitem
      rw [renderValue] at hlen ⊢
      have hread := ih.items item tail rest hitem htail (Nat.le_of_succ_le_succ hlen)
      rw [hcons] at hread ⊢
      show readValue (fuel + 1) ('[' :: c :: (cs ++ renderItems tail ++ rest)) = _
      rw [readValue_array hblank hne]
      show (readItems fuel (c :: cs ++ renderItems tail ++ rest)).map _ = _
      rw [hread]
      rfl
  | @object members h =>
    rcases members with _ | ⟨⟨name, value⟩, tail⟩
    · rw [renderValue]
      rfl
    · obtain ⟨hvalue, htail⟩ := List.forall_mem_cons.mp h
      obtain ⟨body, hbody, -⟩ := exists_renderString_eq name
      rw [renderValue] at hlen ⊢
      have hread := ih.members name value tail rest hvalue htail (Nat.le_of_succ_le_succ hlen)
      rw [hbody] at hread ⊢
      show (readMembers fuel (('"' :: body) ++ _ ++ rest)).map _ = _
      rw [hread]
      rfl

lemma ReadsBack.items_succ (ih : ReadsBack fuel) {item : Json} {tail : List Json}
    {rest : List Char} (hitem : Written item) (htail : ∀ v ∈ tail, Written v)
    (hlen : (renderValue item ++ renderItems tail).length ≤ fuel + 1) :
    readItems (fuel + 1) (renderValue item ++ renderItems tail ++ rest) =
      some (item :: tail, rest) := by
  have hpos := length_renderItems_pos tail
  rw [List.length_append] at hlen
  have hfirst := ih.value item (renderItems tail ++ rest) hitem (stops_renderItems tail rest)
    (by omega)
  rw [List.append_assoc, readItems, hfirst]
  cases tail with
  | nil =>
    rw [renderItems]
    rfl
  | cons next tail =>
    obtain ⟨hnext, htail⟩ := List.forall_mem_cons.mp htail
    rw [renderItems] at hlen ⊢
    -- the item that has been read took at least one character
    have hread := ih.items next tail rest hnext htail (by
      simp only [List.length_cons] at hlen
      obtain ⟨c, cs, hcons, -⟩ := renderValue_head hitem
      rw [hcons, List.length_cons] at hlen
      omega)
    show (readItems fuel (renderValue next ++ renderItems tail ++ rest)).map _ = _
    rw [hread]
    rfl

lemma ReadsBack.members_succ (ih : ReadsBack fuel) {name : Option String} {value : Json}
    {tail : List (Option String × Json)} {rest : List Char} (hvalue : Written value)
    (htail : ∀ m ∈ tail, Written m.2)
    (hlen : (renderString name ++ ':' :: (renderValue value ++ renderMembers tail)).length ≤
      fuel + 1) :
    readMembers (fuel + 1)
        (renderString name ++ ':' :: (renderValue value ++ renderMembers tail) ++ rest) =
      some ((name, value) :: tail, rest) := by
  obtain ⟨body, hbody, hname⟩ := exists_renderString_eq name
  have hpos := length_renderMembers_pos tail
  simp only [hbody, List.length_append, List.length_cons] at hlen
  have hfirst := ih.value value (renderMembers tail ++ rest) hvalue (stops_renderMembers tail rest)
    (by omega)
  have hcolon : skipBlanks (':' :: (renderValue value ++ (renderMembers tail ++ rest))) =
      ':' :: (renderValue value ++ (renderMembers tail ++ rest)) := skipBlanks_cons rfl
  rw [hbody]
  simp only [List.cons_append, List.append_assoc]
  rw [readMembers, skipBlanks_cons rfl]
  simp only [hname, hcolon, hfirst]
  rcases tail with _ | ⟨⟨next, nextValue⟩, tail⟩
  · rw [renderMembers]
    rfl
  · obtain ⟨hnext, htail⟩ := List.forall_mem_cons.mp htail
    have hread := ih.members next nextValue tail rest hnext htail (by
      simp only [renderMembers, List.length_append, List.length_cons] at hlen ⊢
      omega)
    rw [renderMembers]
    show (readMembers fuel
      (renderString next ++ ':' :: (renderValue nextValue ++ renderMembers tail) ++ rest)).map _ = _
    rw [hread]
    rfl

lemma readsBack (fuel : Nat) : ReadsBack fuel := by
  induction fuel with
  | zero => exact .zero
  | succ fuel ih =>
    exact ⟨fun v rest => ih.value_succ, fun item tail rest => ih.items_succ,
      fun name value tail rest => ih.members_succ⟩

/-- A value that has been written is what its text is read as. -/
theorem parse?_render {v : Json} (h : Written v) : parse? (render v) = some v := by
  have hstops : Stops [] := by
    rintro c ⟨⟩
  have hread := (readsBack ((renderValue v).length + 1)).value v [] h hstops (Nat.le_succ _)
  rw [List.append_nil] at hread
  rw [parse?, render, String.toList_ofList]
  simp only [hread]
  rfl

end Json
end SignedFeeds
