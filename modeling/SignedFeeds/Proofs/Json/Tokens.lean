/-
# Numbers and strings in JSON, written and read

A number ends where the text does not go on with a digit, a point or an exponent.  A string
ends at its closing quote, since a quote inside it is escaped.  Up to that end, what has been
written is read back as it was.
-/
import Mathlib.Data.List.TakeDrop
import Mathlib.Tactic.Common
import SignedFeeds.Json.Printer
import SignedFeeds.Json.Reader

namespace SignedFeeds
namespace Json

/-! ## Numbers -/

/-- The text does not go on with a number. -/
def Stops (rest : List Char) : Prop :=
  ∀ c ∈ rest.head?, c.isDigit = false ∧ c ≠ '.' ∧ c ≠ 'e' ∧ c ≠ 'E'

/-- One or more digits. -/
def Digits (cs : List Char) : Prop := cs ≠ [] ∧ ∀ c ∈ cs, c.isDigit

/-- The parts of the numeral are such as the grammar has them. -/
structure Numeral.Grammatical (n : Numeral) : Prop where
  whole : Digits n.whole
  leading : n.whole = ['0'] ∨ n.whole.head? ≠ some '0'
  fraction : n.fraction = [] ∨ Digits n.fraction
  exponent : ∀ negative digits, n.exponent = some (negative, digits) → Digits digits

variable {cs rest : List Char}

lemma Digits.exists_cons (h : Digits cs) : ∃ c tail, cs = c :: tail ∧ c.isDigit := by
  obtain ⟨hne, hdigits⟩ := h
  obtain ⟨c, tail, rfl⟩ := List.exists_cons_of_ne_nil hne
  exact ⟨c, tail, rfl, hdigits c List.mem_cons_self⟩

lemma readDigits_append (h : Digits cs) (hrest : ∀ c ∈ rest.head?, c.isDigit = false) :
    readDigits (cs ++ rest) = some (cs, rest) := by
  obtain ⟨hne, hdigits⟩ := h
  have htake : (cs ++ rest).takeWhile Char.isDigit = cs := by
    rw [List.takeWhile_append_of_pos hdigits]
    cases rest with
    | nil => simp
    | cons c tail => simp [hrest c rfl]
  have hdrop : (cs ++ rest).dropWhile Char.isDigit = rest := by
    rw [List.dropWhile_append_of_pos hdigits]
    cases rest with
    | nil => rfl
    | cons c tail => simp [hrest c rfl]
  rw [readDigits, List.span_eq_takeWhile_dropWhile, htake, hdrop]
  split
  · next heq =>
    cases heq
    exact absurd rfl hne
  · next heq =>
    cases heq
    rfl

lemma readWhole_append (h : Digits cs) (hzero : cs = ['0'] ∨ cs.head? ≠ some '0')
    (hrest : ∀ c ∈ rest.head?, c.isDigit = false) :
    readWhole (cs ++ rest) = some (cs, rest) := by
  rcases hzero with rfl | hzero
  · rfl
  obtain ⟨c, tail, rfl, -⟩ := h.exists_cons
  rw [← readDigits_append h hrest]
  rw [readWhole]
  rintro rest' heq
  cases heq
  exact hzero rfl

lemma readFraction_append (h : cs = [] ∨ Digits cs)
    (hrest : ∀ c ∈ rest.head?, c.isDigit = false ∧ c ≠ '.') :
    readFraction ((if cs.isEmpty then [] else '.' :: cs) ++ rest) = some (cs, rest) := by
  rcases h with rfl | h
  · show readFraction rest = _
    rw [readFraction]
    rintro tail rfl
    exact (hrest '.' rfl).2 rfl
  · have hempty : cs.isEmpty = false := List.isEmpty_eq_false_iff.mpr h.1
    rw [hempty]
    exact readDigits_append h fun c hc => (hrest c hc).1

/-- The text of an exponent. -/
def renderExponent : Option (Bool × List Char) → List Char
  | none => []
  | some (negative, digits) => 'e' :: (if negative then '-' :: digits else digits)

lemma renderNumeral_eq (n : Numeral) :
    renderNumeral n = (if n.negative then ['-'] else []) ++
      (n.whole ++ ((if n.fraction.isEmpty then [] else '.' :: n.fraction) ++
        renderExponent n.exponent)) := by
  obtain ⟨negative, whole, fraction, exponent⟩ := n
  simp only [renderNumeral, List.append_assoc]
  rfl

lemma readSign_append (h : Digits cs) (negative : Bool) :
    readSign ((if negative then '-' :: cs else cs) ++ rest) = (negative, cs ++ rest) := by
  cases negative with
  | true => rfl
  | false =>
    obtain ⟨c, tail, rfl, hc⟩ := h.exists_cons
    show readSign (c :: (tail ++ rest)) = _
    rw [readSign]
    · rfl
    · rintro _ heq
      cases heq
      cases hc
    · rintro _ heq
      cases heq
      cases hc

lemma readExponent_append {exponent : Option (Bool × List Char)}
    (h : ∀ negative digits, exponent = some (negative, digits) → Digits digits)
    (hrest : Stops rest) :
    readExponent (renderExponent exponent ++ rest) = some (exponent, rest) := by
  rcases exponent with _ | ⟨negative, digits⟩
  · cases rest with
    | nil => rfl
    | cons c tail =>
      obtain ⟨-, -, he, hE⟩ := hrest c rfl
      have hmark : ¬(c = 'e' ∨ c = 'E') := by
        rintro (rfl | rfl)
        · exact he rfl
        · exact hE rfl
      show readExponent (c :: tail) = _
      rw [readExponent, if_neg hmark]
  · have hdigits := h negative digits rfl
    show readExponent ('e' :: ((if negative then '-' :: digits else digits) ++ rest)) = _
    rw [readExponent, if_pos (.inl rfl), readSign_append hdigits]
    simp only [readDigits_append hdigits fun c hc => (hrest c hc).1]
    rfl

lemma renderExponent_head (exponent : Option (Bool × List Char)) (hrest : Stops rest) :
    ∀ c ∈ (renderExponent exponent ++ rest).head?, c.isDigit = false ∧ c ≠ '.' := by
  intro c hc
  cases exponent with
  | none => exact ⟨(hrest c hc).1, (hrest c hc).2.1⟩
  | some exponent =>
    obtain rfl : 'e' = c := Option.some.inj hc
    decide

/-- A number behind its sign. -/
def readUnsigned (negative : Bool) (cs : List Char) : Option (Numeral × List Char) := do
  let (whole, cs) ← readWhole cs
  let (fraction, cs) ← readFraction cs
  let (exponent, cs) ← readExponent cs
  return (⟨negative, whole, fraction, exponent⟩, cs)

lemma readNumeral_append_of_digits (h : Digits cs) (negative : Bool) :
    readNumeral ((if negative then ['-'] else []) ++ (cs ++ rest)) =
      readUnsigned negative (cs ++ rest) := by
  cases negative with
  | true => rfl
  | false =>
    obtain ⟨c, tail, rfl, hc⟩ := h.exists_cons
    show readNumeral (c :: (tail ++ rest)) = _
    rw [readNumeral]
    · rfl
    · -- a digit is no minus sign
      rintro _ heq
      cases heq
      cases hc

/-- A number is read back as it was written. -/
lemma readNumeral_append {n : Numeral} (h : n.Grammatical) (hrest : Stops rest) :
    readNumeral (renderNumeral n ++ rest) = some (n, rest) := by
  have hexponent := readExponent_append h.exponent hrest
  have hhead := renderExponent_head n.exponent hrest
  have hfraction := readFraction_append h.fraction hhead
  have hdigit : ∀ c ∈ ((if n.fraction.isEmpty then [] else '.' :: n.fraction) ++
      (renderExponent n.exponent ++ rest)).head?, c.isDigit = false := by
    intro c hc
    cases hn : n.fraction with
    | nil =>
      rw [hn] at hc
      exact (hhead c hc).1
    | cons d tail =>
      rw [hn] at hc
      obtain rfl : '.' = c := Option.some.inj hc
      rfl
  have hwhole := readWhole_append h.whole h.leading hdigit
  rw [renderNumeral_eq]
  simp only [List.append_assoc]
  rw [readNumeral_append_of_digits h.whole]
  simp only [readUnsigned, hwhole, hfraction, hexponent, Option.bind_eq_bind, Option.bind_some]
  rfl

/-! ## Natural numbers -/

/-- The digits of a positive number begin with another digit than zero. -/
lemma head?_toDigits_ne_zero {n : Nat} (h : 0 < n) : (Nat.toDigits 10 n).head? ≠ some '0' := by
  induction n using Nat.strongRecOn with
  | ind n ih =>
    by_cases hlt : n < 10
    · rw [Nat.toDigits_of_lt_base hlt]
      intro heq
      have hzero : Nat.digitChar n = '0' := Option.some.inj heq
      rw [eq_comm, Nat.zero_eq_digitChar] at hzero
      omega
    · have hfront := ih (n / 10) (by omega) (by omega)
      obtain ⟨c, tail, hcons⟩ := List.exists_cons_of_ne_nil (Nat.toDigits_ne_nil (n := n / 10))
      rw [Nat.toDigits_of_base_le (by decide) (Nat.not_lt.mp hlt), hcons]
      rw [hcons] at hfront
      exact hfront

lemma Numeral.ofNat_grammatical (n : Nat) : (Numeral.ofNat n).Grammatical where
  whole := ⟨Nat.toDigits_ne_nil, fun _ hc => Nat.isDigit_of_mem_toDigits (by decide) (by decide) hc⟩
  leading := by
    rcases Nat.eq_zero_or_pos n with rfl | hpos
    · exact .inl rfl
    · exact .inr (head?_toDigits_ne_zero hpos)
  fraction := .inl rfl
  exponent := by rintro _ _ ⟨⟩

lemma foldl_toDigits (n : Nat) :
    (Nat.toDigits 10 n).foldl (fun acc c => 10 * acc + digitValue c) 0 = n := by
  have h := Nat.ofDigitChars_ten_toDigits (n := n)
  rw [Nat.ofDigitChars_eq_foldl] at h
  exact h

lemma Numeral.toNat?_ofNat (n : Nat) : (Numeral.ofNat n).toNat? = some n :=
  congrArg some (foldl_toDigits n)

lemma le_foldl_digits (cs : List Char) (s : Nat) :
    s ≤ cs.foldl (fun acc c => 10 * acc + digitValue c) s := by
  induction cs generalizing s with
  | nil => exact Nat.le_refl s
  | cons c tail ih =>
    have h := ih (10 * s + digitValue c)
    rw [List.foldl_cons]
    omega

/-- Digits of a number that fits in a word are all pushed. -/
lemma Numeral.pushDigits_of_lt {cs : List Char} {s : Nat}
    (h : cs.foldl (fun acc c => 10 * acc + digitValue c) s < wordBound) :
    pushDigits s cs = (cs.foldl (fun acc c => 10 * acc + digitValue c) s, 0) := by
  induction cs generalizing s with
  | nil => rfl
  | cons c tail ih =>
    rw [List.foldl_cons] at h ⊢
    -- further digits only make the number greater
    have hlt := Nat.lt_of_le_of_lt (le_foldl_digits tail _) h
    rw [pushDigits, if_pos hlt, ih h]

lemma Numeral.fitsDouble_ofNat {n : Nat} (h : n < wordBound) : (Numeral.ofNat n).fitsDouble := by
  have hpush : pushDigits 0 (Nat.toDigits 10 n) = (n, 0) := by
    rw [← foldl_toDigits n] at h
    rw [pushDigits_of_lt h, foldl_toDigits]
  simp [fitsDouble, ofNat, hpush, pushDigits]

/-! ## Strings -/

lemma Piece.ofCode_toNat (c : Char) : ofCode c.toNat = .char c := by
  have hvalid : c.toNat.isValidChar := c.valid
  rw [ofCode, dif_pos hvalid]
  rfl

lemma hexCode?_digitChar : ∀ {n : Nat}, n < 32 →
    hexCode? ['0', '0', Nat.digitChar (n / 16), Nat.digitChar (n % 16)] = some n := by
  decide

/-- A character that has been escaped is read as that character. -/
lemma readPieces_escapeChar (c : Char) (done : List Piece) (rest : List Char) :
    readPieces done (escapeChar c ++ rest) = readPieces (.char c :: done) rest := by
  rw [escapeChar]
  split_ifs with h1 h2 h3 h4 h5 h6 h7
  · rcases h1 with rfl | rfl
    · rfl
    · rfl
  · subst h2
    rfl
  · subst h3
    rfl
  · subst h4
    rfl
  · subst h5
    rfl
  · subst h6
    rfl
  · show readPieces done ('\\' :: 'u' :: '0' :: '0' :: _ :: _ :: rest) = _
    rw [readPieces, hexCode?_digitChar h7]
    simp only [Piece.ofCode_toNat]
  · show readPieces done (c :: rest) = _
    rw [readPieces, if_neg h7]
    · intro hquote
      exact h1 (.inl hquote)
    · intro _ _ _ _ _ hbackslash _
      exact h1 (.inr hbackslash)
    · intro _ _ hbackslash _
      exact h1 (.inr hbackslash)

lemma readPieces_flatMap (cs : List Char) (done : List Piece) (rest : List Char) :
    readPieces done (cs.flatMap escapeChar ++ '"' :: rest) =
      some (done.reverse ++ cs.map .char, rest) := by
  induction cs generalizing done with
  | nil => simp [readPieces]
  | cons c tail ih =>
    rw [List.flatMap_cons, List.append_assoc, readPieces_escapeChar, ih, List.reverse_cons,
      List.append_assoc]
    rfl

lemma joinPieces_map_char (cs done : List Char) :
    joinPieces done (cs.map .char) = some (done.reverse ++ cs) := by
  induction cs generalizing done with
  | nil => simp [joinPieces]
  | cons c tail ih =>
    rw [List.map_cons, joinPieces, ih, List.reverse_cons, List.append_assoc]
    rfl

/-- A string is read back as it was written, from behind its opening quote. -/
lemma exists_renderString_eq (text : Option String) :
    ∃ body, renderString text = '"' :: body ∧
      ∀ rest, readString (body ++ rest) = some (text, rest) := by
  cases text with
  | none => exact ⟨_, rfl, fun rest => rfl⟩
  | some text =>
    refine ⟨_, rfl, fun rest => ?_⟩
    rw [List.append_assoc, List.singleton_append, readString, readPieces_flatMap]
    simp [joinPieces_map_char]

end Json
end SignedFeeds
