/-
# Lead bytes in a text

In the bytes of a text a character of several bytes begins with a lead byte, which is at least
0xc0, and goes on with continuation bytes, which are not.  So a lead byte is never the last byte
of a text, and what follows it is a continuation byte.
-/
import Mathlib.Tactic.Common
import SignedFeeds.Bytes.Text

namespace SignedFeeds
namespace Text

/-- A byte that goes on with a character. -/
def IsContinuation (b : UInt8) : Prop := 0x80 ≤ b ∧ b < 0xc0

/-- Each lead byte is followed by a continuation byte. -/
def LeadsFollowed : List UInt8 → Prop
  | [] => True
  | [b] => b < 0xc0
  | b :: c :: rest => (0xc0 ≤ b → IsContinuation c) ∧ LeadsFollowed (c :: rest)

variable {front back : List UInt8}

lemma LeadsFollowed.append (hfront : LeadsFollowed front) (hback : LeadsFollowed back) :
    LeadsFollowed (front ++ back) := by
  induction front with
  | nil => exact hback
  | cons b front ih =>
    cases front with
    | nil =>
      cases back with
      | nil => exact hfront
      | cons c back => exact ⟨fun hlead => absurd hfront (UInt8.not_lt.mpr hlead), hback⟩
    | cons c front => exact ⟨hfront.1, ih hfront.2⟩

/-- What stands behind a lead byte begins with a continuation byte. -/
lemma LeadsFollowed.exists_continuation {b : UInt8} (h : LeadsFollowed (front ++ b :: back))
    (hlead : 0xc0 ≤ b) : ∃ c rest, back = c :: rest ∧ IsContinuation c := by
  induction front with
  | nil =>
    cases back with
    | nil => exact absurd h (UInt8.not_lt.mpr hlead)
    | cons c rest => exact ⟨c, rest, rfl, h.1 hlead⟩
  | cons a front ih =>
    cases front with
    | nil => exact ih h.2
    | cons a' front => exact ih h.2

/-! ## Characters -/

lemma isContinuation_ofNat (n : Nat) : IsContinuation (UInt8.ofNat (n % 0x40 + 0x80)) := by
  constructor
  · rw [UInt8.le_iff_toNat_le, UInt8.toNat_ofNat']
    simp
    omega
  · rw [UInt8.lt_iff_toNat_lt, UInt8.toNat_ofNat']
    simp
    omega

lemma leadsFollowed_utf8EncodeChar (c : Char) : LeadsFollowed (String.utf8EncodeChar c) := by
  have hnext (n : Nat) := isContinuation_ofNat n
  have hlast (n : Nat) := (isContinuation_ofNat n).2
  rw [String.utf8EncodeChar.eq_1]
  generalize c.val.toNat = v
  split_ifs with hone htwo hthree
  · -- a character of one byte has no lead byte
    show UInt8.ofNat v < 0xc0
    rw [UInt8.lt_iff_toNat_lt, UInt8.toNat_ofNat']
    simp
    omega
  · exact ⟨fun _ => hnext _, hlast _⟩
  · exact ⟨fun _ => hnext _, fun _ => hnext _, hlast _⟩
  · exact ⟨fun _ => hnext _, fun _ => hnext _, fun _ => hnext _, hlast _⟩

lemma toBytes_eq_flatMap (text : String) :
    toBytes text = text.toList.flatMap String.utf8EncodeChar := by
  conv => lhs; rw [← String.ofList_toList (s := text)]
  rw [toBytes, String.toUTF8, String.toByteArray_ofList, List.utf8Encode.eq_1]
  simp

/-- A byte below 128 is a character of its own. -/
lemma exists_cons_of_flatMap_utf8EncodeChar {cs : List Char} {b : UInt8} {rest : List UInt8}
    (hb : b < 0x80) (h : cs.flatMap String.utf8EncodeChar = b :: rest) :
    ∃ cs', cs = Char.ofNat b.toNat :: cs' ∧ cs'.flatMap String.utf8EncodeChar = rest := by
  cases cs with
  | nil => cases h
  | cons c cs' =>
    have hlead {n : ℕ} (hlow : 0x80 ≤ n) (hhigh : n < 256) : UInt8.ofNat n ≠ b := by
      rintro rfl
      rw [UInt8.lt_iff_toNat_lt, UInt8.toNat_ofNat', Nat.mod_eq_of_lt hhigh] at hb
      exact absurd hb (Nat.not_lt.mpr hlow)
    rw [List.flatMap_cons, String.utf8EncodeChar.eq_1] at h
    split_ifs at h with hone htwo hthree
    · rw [List.singleton_append, List.cons.injEq] at h
      obtain ⟨rfl, hrest⟩ := h
      refine ⟨cs', ?_, hrest⟩
      rw [UInt8.toNat_ofNat', Nat.mod_eq_of_lt (by omega)]
      exact congrArg (· :: cs') (Char.ofNat_toNat c).symm
    all_goals
      exact absurd (List.cons.inj h).1 (hlead (by omega) (by omega))

lemma leadsFollowed_toBytes (text : String) : LeadsFollowed (toBytes text) := by
  rw [toBytes_eq_flatMap]
  induction text.toList with
  | nil => trivial
  | cons c rest ih => exact (leadsFollowed_utf8EncodeChar c).append ih

end Text
end SignedFeeds
