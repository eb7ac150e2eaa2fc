/-
# Labels and the ids they name

A text of at most 31 bytes stands in its feed id in front of zeros, so the id forgets how many NUL
characters the text ends in, and nothing else (`FeedId.ofText_eq_iff`).  A label is read off the
bytes in front of the first zero.  For a printable text this is the whole text, since the byte zero
encodes the control character NUL and is part of no other character
(`Text.zero_mem_toBytes_iff`).  So reading a label is the inverse of naming a feed by a printable
text (`FeedId.label?_eq_some_iff`).
-/
import Mathlib.Data.List.DropRight
import SignedFeeds.Feed
import SignedFeeds.Proofs.Bytes.Utf8

namespace SignedFeeds

/-! ## Zeros at the end -/

section Padding

variable {α : Type} {p : α → Bool} {xs ys : List α} {a : α}

lemma rdropWhile_append_replicate (xs : List α) (n : ℕ) (ha : p a) :
    (xs ++ List.replicate n a).rdropWhile p = xs.rdropWhile p := by
  induction n with
  | zero => rw [List.replicate_zero, List.append_nil]
  | succ n ih =>
    rw [List.replicate_succ', ← List.append_assoc, List.rdropWhile_concat_pos p _ a ha, ih]

/-- Lists of one length that differ only in how much of one filling they end in are equal. -/
lemma eq_of_rdropWhile_eq (hp : ∀ x, p x → x = a) (hlen : xs.length = ys.length)
    (h : xs.rdropWhile p = ys.rdropWhile p) : xs = ys := by
  have hfilled (zs : List α) :
      zs = zs.rdropWhile p ++ List.replicate (zs.rtakeWhile p).length a := by
    have hall : zs.rtakeWhile p = List.replicate (zs.rtakeWhile p).length a :=
      List.eq_replicate_iff.mpr ⟨rfl, fun x hx => hp x (List.mem_rtakeWhile_imp hx)⟩
    rw [← hall, List.rdropWhile_append_rtakeWhile]
  have hxs := congrArg List.length (hfilled xs)
  have hys := congrArg List.length (hfilled ys)
  rw [List.length_append, List.length_replicate] at hxs hys
  rw [hfilled xs, hfilled ys, h]
  rw [h] at hxs
  congr 2
  omega

end Padding

/-! ## NUL in the bytes of a text -/

namespace Text

/-- The text without the NUL characters that it ends in. -/
def trimNul (text : String) : String := String.ofList (text.toList.rdropWhile (· == '\x00'))

/-- All bytes of a character of several bytes are at least 0x80. -/
lemma zero_mem_utf8EncodeChar_iff {c : Char} : 0 ∈ String.utf8EncodeChar c ↔ c = '\x00' := by
  have hne {n : ℕ} (hpos : 0 < n) (hlt : n < 256) : (0 : UInt8) ≠ UInt8.ofNat n := by
    intro h
    have hn := congrArg UInt8.toNat h
    rw [UInt8.toNat_ofNat', Nat.mod_eq_of_lt hlt] at hn
    exact absurd hn (Nat.ne_of_lt hpos)
  have hnul : c = '\x00' ↔ c.val.toNat = 0 := by
    rw [Char.ext_iff, ← UInt32.toNat_inj]
    rfl
  rw [hnul, String.utf8EncodeChar.eq_1]
  generalize c.val.toNat = v
  split_ifs with hone htwo hthree
  · rw [List.mem_singleton]
    refine ⟨fun h => ?_, fun h => h ▸ rfl⟩
    by_contra hv
    exact hne (Nat.pos_of_ne_zero hv) (by omega) h
  all_goals
    refine iff_of_false ?_ (by omega)
    simp only [List.mem_cons, List.not_mem_nil, or_false, not_or]
  · exact ⟨hne (by omega) (by omega), hne (by omega) (by omega)⟩
  · exact ⟨hne (by omega) (by omega), hne (by omega) (by omega), hne (by omega) (by omega)⟩
  · exact ⟨hne (by omega) (by omega), hne (by omega) (by omega), hne (by omega) (by omega),
      hne (by omega) (by omega)⟩

lemma zero_mem_toBytes_iff {text : String} : 0 ∈ toBytes text ↔ '\x00' ∈ text.toList := by
  rw [toBytes_eq_flatMap, List.mem_flatMap]
  simp only [zero_mem_utf8EncodeChar_iff, exists_eq_right]

/-- Where the text loses a NUL at its end, its bytes lose a zero. -/
lemma flatMap_utf8EncodeChar_rdropWhile (cs : List Char) :
    (cs.rdropWhile (· == '\x00')).flatMap String.utf8EncodeChar =
      (cs.flatMap String.utf8EncodeChar).rdropWhile (· == 0) := by
  induction cs using List.reverseRecOn with
  | nil => rfl
  | append_singleton cs c ih =>
    rw [List.flatMap_append, List.flatMap_singleton]
    by_cases hc : c = '\x00'
    · subst hc
      rw [List.rdropWhile_concat_pos _ _ _ rfl, ih]
      exact (List.rdropWhile_concat_pos _ _ _ rfl).symm
    · have hzero : 0 ∉ String.utf8EncodeChar c := mt zero_mem_utf8EncodeChar_iff.mp hc
      -- the last byte is one of the character, so it is not zero
      obtain hnil | ⟨front, b, hlast⟩ := (String.utf8EncodeChar c).eq_nil_or_concat
      · exact absurd hnil String.utf8EncodeChar_ne_nil
      rw [List.rdropWhile_concat_neg _ _ _ (by simpa using hc), List.flatMap_append,
        List.flatMap_singleton, hlast, List.concat_eq_append, ← List.append_assoc,
        List.rdropWhile_concat_neg]
      rintro hb
      exact hzero (by rw [hlast, ← eq_of_beq hb]; simp)

lemma toBytes_trimNul (text : String) :
    toBytes (trimNul text) = (toBytes text).rdropWhile (· == 0) := by
  rw [toBytes_eq_flatMap, toBytes_eq_flatMap, trimNul, String.toList_ofList,
    flatMap_utf8EncodeChar_rdropWhile]

end Text

/-! ## Ids of texts -/

namespace FeedId

variable {id : FeedId} {text text' : String}

lemma bytes_ofText (h : (Text.toBytes text).length ≤ 31) :
    (ofText text).bytes =
      Text.toBytes text ++ List.replicate (32 - (Text.toBytes text).length) 0 := by
  rw [ofText, ofTextBytes, dif_pos h]

/-- The id of a short text forgets the NUL characters that the text ends in, and nothing else. -/
lemma ofText_eq_iff (h : (Text.toBytes text).length ≤ 31) (h' : (Text.toBytes text').length ≤ 31) :
    ofText text = ofText text' ↔ Text.trimNul text = Text.trimNul text' := by
  have htrim {text : String} (h : (Text.toBytes text).length ≤ 31) :
      (ofText text).bytes.rdropWhile (· == 0) = Text.toBytes (Text.trimNul text) := by
    rw [bytes_ofText h, rdropWhile_append_replicate _ _ rfl, Text.toBytes_trimNul]
  rw [← Text.toBytes_inj, ← htrim h, ← htrim h']
  refine ⟨fun heq => by rw [heq], fun heq => FeedId.ext ?_⟩
  have hlen : (ofText text).bytes.length = (ofText text').bytes.length := by
    rw [Block.length_bytes, Block.length_bytes]
  exact eq_of_rdropWhile_eq (fun _ => eq_of_beq) hlen heq

/-! ## Labels -/

/-- A label is what stands in front of the first zero, if this is a printable text and nothing but
zeros follow. -/
lemma label?_eq_some_iff_split :
    id.label? = some text ↔
      id.bytes.takeWhile (· != 0) = Text.toBytes text ∧ (∀ b ∈ id.bytes.dropWhile (· != 0), b = 0) ∧
      1 ≤ (Text.toBytes text).length ∧ (Text.toBytes text).length ≤ 31 ∧
      ∀ c ∈ text.toList, Text.isControl c = false := by
  have hprintable : (!text.toList.any Text.isControl) = true ↔
      ∀ c ∈ text.toList, Text.isControl c = false := by simp
  have hfilling : ¬ (id.bytes.dropWhile (· != 0)).any (· != 0) = true ↔
      ∀ b ∈ id.bytes.dropWhile (· != 0), b = 0 := by simp
  rw [label?]
  split_ifs with hform
  · refine iff_of_false (by simp) fun ⟨hfront, hzeros, hpos, hle, _⟩ => ?_
    rw [hfront] at hform
    rcases hform with h | h | h
    · omega
    · omega
    · exact hfilling.mpr hzeros h
  · simp only [not_or] at hform
    rw [Option.filter_eq_some_iff, Text.ofBytes?_eq_some_iff, hprintable]
    constructor
    · rintro ⟨hfront, htext⟩
      rw [hfront] at hform
      exact ⟨hfront, hfilling.mp hform.2.2, by omega, by omega, htext⟩
    · rintro ⟨hfront, -, -, -, htext⟩
      exact ⟨hfront, htext⟩

/-- Reading a label is the inverse of naming a feed by a printable text. -/
lemma label?_eq_some_iff :
    id.label? = some text ↔
      ofText text = id ∧ 1 ≤ (Text.toBytes text).length ∧ (Text.toBytes text).length ≤ 31 ∧
      ∀ c ∈ text.toList, Text.isControl c = false := by
  rw [label?_eq_some_iff_split]
  constructor
  · rintro ⟨hfront, hzeros, hpos, hle, htext⟩
    refine ⟨FeedId.ext ?_, hpos, hle, htext⟩
    have hsplit := List.takeWhile_append_dropWhile (p := (· != 0)) (l := id.bytes)
    have hlength := congrArg List.length hsplit
    rw [hfront, List.length_append, id.length_bytes] at hlength
    rw [bytes_ofText hle, ← hsplit, hfront]
    congr 1
    exact (List.eq_replicate_iff.mpr ⟨by omega, hzeros⟩).symm
  · rintro ⟨rfl, hpos, hle, htext⟩
    have hnonzero : ∀ b ∈ Text.toBytes text, (b != 0) = true := by
      intro b hb
      rw [bne_iff_ne]
      rintro rfl
      exact absurd (htext _ (Text.zero_mem_toBytes_iff.mp hb)) (by decide)
    rw [bytes_ofText hle, List.takeWhile_append_of_pos hnonzero,
      List.dropWhile_append_of_pos hnonzero]
    refine ⟨?_, fun b hb => ?_, hpos, hle, htext⟩
    · rw [List.takeWhile_replicate, if_neg (by decide), List.append_nil]
    · exact List.eq_of_mem_replicate ((List.dropWhile_sublist _).subset hb)

/-- **Labels are the printable texts that feeds are named by.**  An id has a label exactly if it is
the id of that label and the label is a text of 1 to 31 bytes without control characters; so no two
ids have one label.  Two texts of at most 31 bytes name one feed exactly if they differ at most in
the NUL characters at their ends. -/
theorem labels_are_printable_names :
    (∀ (id : FeedId) (text : String), id.label? = some text ↔
      ofText text = id ∧ 1 ≤ (Text.toBytes text).length ∧ (Text.toBytes text).length ≤ 31 ∧
        ∀ c ∈ text.toList, Text.isControl c = false) ∧
    (∀ (id id' : FeedId) (text : String),
      id.label? = some text → id'.label? = some text → id = id') ∧
    ∀ text text' : String, (Text.toBytes text).length ≤ 31 → (Text.toBytes text').length ≤ 31 →
      (ofText text = ofText text' ↔ Text.trimNul text = Text.trimNul text') := by
  refine ⟨fun id text => label?_eq_some_iff, fun id id' text h h' => ?_,
    fun text text' h h' => ofText_eq_iff h h'⟩
  obtain ⟨hid, -⟩ := label?_eq_some_iff.mp h
  obtain ⟨hid', -⟩ := label?_eq_some_iff.mp h'
  exact hid.symm.trans hid'

/-- A label of two characters in six bytes, and a text with NUL characters inside and behind it. -/
theorem labels_are_printable_names_sample :
    (ofText "日本").label? = some "日本" ∧
      (∀ id : FeedId, id.label? = some "日本" → id = ofText "日本") ∧
      ofText "A\x00B\x00\x00" = ofText "A\x00B" ∧ ofText "A\x00B" ≠ ofText "A" ∧
      (ofText "A\x00B").label? = none := by
  obtain ⟨hlabel, hinjective, hnames⟩ := labels_are_printable_names
  have hprintable : ∀ c ∈ "日本".toList, Text.isControl c = false := by simp [Text.isControl]
  have htwo := (hlabel (ofText "日本") "日本").mpr ⟨rfl, by decide, by decide, hprintable⟩
  refine ⟨htwo, fun id hid => hinjective id _ _ hid htwo, ?_, ?_, ?_⟩
  · exact (hnames _ _ (by decide) (by decide)).mpr rfl
  · exact fun h => absurd ((hnames _ _ (by decide) (by decide)).mp h) (by decide)
  · rfl

end FeedId
end SignedFeeds
