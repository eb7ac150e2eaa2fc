/-
# The two readings of a feed text

In a document a feed is named by a text, or by `0x` and the 64 digits of its id.  The two are told
apart by the length alone: `0x` with 64 bytes behind it is never a name (`FeedId.IsFullWidth`).  Its
digits are the id if they are digits, in either case; if one of them is none, the text is refused,
also where it might have been a name.  Every other text is the name of its feed, and the data
point that is read is the one that is made with this name (`FeedId.text_is_digits_or_name`).
-/
import SignedFeeds.Document
import SignedFeeds.Proofs.Bytes.Denotation
import SignedFeeds.Proofs.Package.Decoding

namespace SignedFeeds
namespace FeedId

variable {id : FeedId} {text digits : String}

/-- The text is `0x` with 64 bytes behind it. -/
def IsFullWidth (text : String) : Prop :=
  ∃ digits, text = "0x" ++ digits ∧ (Text.toBytes digits).length = 64

/-- The text is `0x` and 64 hexadecimal digits, of either case. -/
def IsDigits (text : String) : Prop :=
  ∃ digits, text = "0x" ++ digits ∧ digits.length = 64 ∧ ∀ c ∈ digits.toList, Hex.IsDigit c

lemma isDigits_iff : IsDigits text ↔ ∃ id : FeedId, Hex.SpellsMarked text id.bytes := by
  have hspells (digits : String) : (digits.length = 64 ∧ ∀ c ∈ digits.toList, Hex.IsDigit c) ↔
      ∃ id : FeedId, Hex.Spells digits id.bytes := by
    rw [← Hex.exists_spells_iff 32]
    exact ⟨fun ⟨bs, hlen, h⟩ => ⟨⟨⟨bs, hlen⟩⟩, h⟩, fun ⟨id, h⟩ => ⟨id.bytes, id.length_bytes, h⟩⟩
  simp only [IsDigits, hspells, Hex.SpellsMarked]
  constructor
  · rintro ⟨digits, rfl, id, h⟩
    exact ⟨id, digits, rfl, h⟩
  · rintro ⟨id, digits, rfl, h⟩
    exact ⟨digits, rfl, id, h⟩

/-! ## Reading -/

lemma ofDocument_of_spellsMarked (h : Hex.SpellsMarked text id.bytes) : ofDocument text = .ok id := by
  obtain ⟨digits, rfl, hspells⟩ := h
  have hdecode := Hex.decodeBytes_eq_ok_iff.mpr ⟨digits, rfl, hspells⟩
  have hlen : (Text.toBytes digits).length = 64 := by rw [hspells.length_eq, id.length_bytes]
  have hid : FeedId.ofBytes id.bytes = .ok id := FeedId.ofBytes_eq_ok_iff.mpr rfl
  rw [ofDocument, Hex.toBytes_mark]
  simp only [Hex.stripMark?, hlen, if_true, hdecode, hid]

/-- What has another form is a name. -/
lemma ofDocument_of_not_isFullWidth (h : ¬ IsFullWidth text) : ofDocument text = .ok (ofText text) := by
  rw [ofDocument]
  split
  · next rest hmark =>
    obtain ⟨digits, rfl, rfl⟩ := Hex.stripMark?_toBytes_eq_some_iff.mp hmark
    rw [if_neg fun hlen => h ⟨digits, rfl, hlen⟩]
  · rfl

/-- Among 64 bytes that are not all digits, the first one that is none is reported. -/
lemma fault_of_not_isDigits (hwidth : IsFullWidth text) (h : ¬ IsDigits text) :
    ∃ digits front b back, text = "0x" ++ digits ∧ Text.toBytes digits = front ++ b :: back ∧
      (∀ a ∈ front, Hex.digitValue? a ≠ none) ∧ Hex.digitValue? b = none ∧
      ofDocument text = .error (.document (.badFeedDigits (.invalidDigit b front.length))) := by
  obtain ⟨digits, rfl, hlen⟩ := hwidth
  cases hdecode : Hex.decodeBytes (Text.toBytes digits) with
  | ok bytes =>
    obtain ⟨spelled, hbytes, hspells⟩ := Hex.decodeBytes_eq_ok_iff.mp hdecode
    obtain rfl := Text.toBytes_inj.mp hbytes
    have hcount : bytes.length = 32 := by
      have := hspells.length_eq
      omega
    exact absurd (isDigits_iff.mpr ⟨⟨⟨bytes, hcount⟩⟩, digits, rfl, hspells⟩) h
  | error e =>
    obtain ⟨front, b, back, hsplit, hfront, hb, rfl⟩ :=
      Hex.fault_of_decodeBytes (by rw [hlen]) hdecode
    refine ⟨digits, front, b, back, rfl, hsplit, hfront, hb, ?_⟩
    rw [ofDocument, Hex.toBytes_mark]
    simp only [Hex.stripMark?, hlen, if_true, hdecode]

/-- **A feed text is an id in digits or a name.**  `0x` and 64 hexadecimal digits, of either case, are
the id that they spell.  A text of another form is the name of the feed, however long it is and
whatever characters it has, and so a data point with this text is the data point of the feed with
this name.  A text that begins with `0x` and has 64 bytes behind it, not all of them digits, is
refused, and the first byte that is no digit is reported. -/
theorem text_is_digits_or_name :
    (∀ text, IsDigits text →
      ∃ id : FeedId, Hex.SpellsMarked text id.bytes ∧ ofDocument text = .ok id) ∧
    (∀ text, ¬ IsFullWidth text →
      ofDocument text = .ok (ofText text) ∧
      ∀ value, DataPoint.ofDocument ⟨text, value⟩ =
        (decodeBinary "value" none value).map (DataPoint.mk (ofText text))) ∧
    ∀ text, IsFullWidth text → ¬ IsDigits text →
      ∃ digits front b back, text = "0x" ++ digits ∧ Text.toBytes digits = front ++ b :: back ∧
        (∀ a ∈ front, Hex.digitValue? a ≠ none) ∧ Hex.digitValue? b = none ∧
        ofDocument text = .error (.document (.badFeedDigits (.invalidDigit b front.length))) := by
  refine ⟨fun text h => ?_, fun text h => ?_, fun text hwidth h => fault_of_not_isDigits hwidth h⟩
  · obtain ⟨id, hspells⟩ := isDigits_iff.mp h
    exact ⟨id, hspells, ofDocument_of_spellsMarked hspells⟩
  · have hname := ofDocument_of_not_isFullWidth h
    refine ⟨hname, fun value => ?_⟩
    rw [DataPoint.ofDocument, hname, Fallible.map_eq_bind]
    rfl

/-- Digits of mixed case, a name that begins like digits, and 64 bytes with a character of three
bytes among them. -/
theorem text_is_digits_or_name_sample :
    let digits := "0x" ++ String.ofList (List.replicate 32 'a' ++ List.replicate 32 'F')
    let neither := "0x" ++ String.ofList ('0' :: '日' :: List.replicate 60 '0')
    (IsDigits digits ∧
      ∃ id : FeedId, Hex.SpellsMarked digits id.bytes ∧ ofDocument digits = .ok id) ∧
    (¬ IsFullWidth "0xETH" ∧ ofDocument "0xETH" = .ok (ofText "0xETH") ∧
      DataPoint.ofDocument ⟨"0xETH", "AQ=="⟩ = .ok ⟨ofText "0xETH", [0x01]⟩) ∧
    IsFullWidth neither ∧ ¬ IsDigits neither ∧ ∃ b index,
      ofDocument neither = .error (.document (.badFeedDigits (.invalidDigit b index))) := by
  intro digits neither
  obtain ⟨hdigits, hnames, hrefused⟩ := text_is_digits_or_name
  have hall : IsDigits digits := by
    refine ⟨_, rfl, by decide +kernel, ?_⟩
    rw [String.toList_ofList, List.forall_mem_append]
    exact ⟨fun c hc => List.eq_of_mem_replicate hc ▸ (by decide),
      fun c hc => List.eq_of_mem_replicate hc ▸ (by decide)⟩
  have hshort : ¬ IsFullWidth "0xETH" := by
    rintro ⟨rest, htext, hlen⟩
    have hlength := congrArg (fun text => (Text.toBytes text).length) htext
    simp only [Hex.toBytes_mark, List.length_cons, hlen] at hlength
    exact absurd hlength (by decide)
  have hwidth : IsFullWidth neither := ⟨_, rfl, by decide +kernel⟩
  have hother : ¬ IsDigits neither := by
    rintro ⟨rest, htext, hlen, -⟩
    have hlength : neither.length = 66 := by rw [htext, String.length_append, hlen]; rfl
    exact absurd hlength (by decide +kernel)
  obtain ⟨hname, hpoint⟩ := hnames "0xETH" hshort
  obtain ⟨_, front, b, _, -, -, -, -, hfault⟩ := hrefused neither hwidth hother
  exact ⟨⟨hall, hdigits digits hall⟩, ⟨hshort, hname, hpoint "AQ=="⟩, hwidth, hother, b,
    front.length, hfault⟩

/-- A text that has the length of an id in digits, and none of the digits. -/
theorem name_as_long_as_digits_refused :
    let text := "0xzzzzzzzzzzzzzzzzzzzzzzzzzzzzzzzzzzzzzzzzzzzzzzzzzzzzzzzzzzzzzzzz"
    ¬ IsDigits text ∧
      ofDocument text = .error (.document (.badFeedDigits (.invalidDigit 0x7a 0))) ∧
      ¬ ∀ text, ¬ IsDigits text → ofDocument text = .ok (ofText text) := by
  intro text
  have hread : ofDocument text =
      .error (.document (.badFeedDigits (.invalidDigit 0x7a 0))) := by decide +kernel
  have hdigits : ¬ IsDigits text := by
    intro h
    obtain ⟨id, hspells⟩ := isDigits_iff.mp h
    rw [ofDocument_of_spellsMarked hspells] at hread
    cases hread
  refine ⟨hdigits, hread, fun hnames => ?_⟩
  have hname := hnames text hdigits
  rw [hread] at hname
  cases hname

end FeedId
end SignedFeeds
