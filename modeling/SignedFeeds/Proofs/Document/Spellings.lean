/-
# Which bytes the text of a value or a signature denotes

Base64 and marked digits may stand for the same bytes, and one text can be both.  Then base64 wins,
unless it gives a length that is not the expected one.

A signature has a length, and at this length the two spellings never meet: its text denotes one
signature or none (`Signature.text_unambiguous`).  A value may have any length.  Marked digits are
base64 exactly if they spell an odd number of bytes, and then they are read as other, longer bytes
(`DataPoint.value_of_spelling`).
-/
import SignedFeeds.Proofs.Bytes.Denotation
import SignedFeeds.Proofs.Document.RoundTrip

namespace SignedFeeds

variable {field text : String} {expected : Option Nat} {bytes : List UInt8}

lemma markedHex?_eq_some_iff : markedHex? text = some bytes ↔ Hex.SpellsMarked text bytes := by
  rw [markedHex?, Option.bind_eq_some_iff, Hex.spellsMarked_iff]
  refine exists_congr fun digits => and_congr_right fun _ => ?_
  cases Hex.decodeBytes digits <;> simp [Except.toOption]

/-! ## Binary fields -/

/-- Marked digits are read where no base64 of the expected length is in their way. -/
lemma decodeBinary_of_spellsMarked (h : Hex.SpellsMarked text bytes)
    (hbase64 : ∀ other, text = Base64.encode other → ∃ n ∈ expected, n ≠ other.length) :
    decodeBinary field expected text = .ok bytes := by
  have hmarked := markedHex?_eq_some_iff.mpr h
  rw [decodeBinary]
  cases hdecode : Base64.decode text with
  | error fault => simp only [hmarked]
  | ok other =>
    obtain ⟨n, hn, hne⟩ := hbase64 other (Base64.decode_eq_ok_iff.mp hdecode)
    obtain rfl := Option.mem_def.mp hn
    simp [hmarked, hne]

/-- What is read is a spelling of the bytes. -/
lemma spelling_of_decodeBinary (h : decodeBinary field expected text = .ok bytes) :
    text = Base64.encode bytes ∨ Hex.SpellsMarked text bytes := by
  rw [← Base64.decode_eq_ok_iff, ← markedHex?_eq_some_iff]
  rw [decodeBinary] at h
  cases hdecode : Base64.decode text with
  | error fault =>
    cases hmarked : markedHex? text with
    | none => simp [hdecode, hmarked] at h
    | some other =>
      simp only [hdecode, hmarked] at h
      exact .inr (congrArg some (Except.ok.inj h))
  | ok other =>
    simp only [hdecode] at h
    split at h
    · exact .inl (congrArg Except.ok (Except.ok.inj h))
    cases hmarked : markedHex? text with
    | none =>
      rw [hmarked] at h
      exact .inl (congrArg Except.ok (Except.ok.inj h))
    | some digits =>
      rw [hmarked] at h
      exact .inr (congrArg some (Except.ok.inj h))

/-- Only a text that is neither base64 nor marked digits is refused, as no base64. -/
lemma fault_of_decodeBinary {e : PayloadError} (h : decodeBinary field expected text = .error e) :
    ∃ fault, Base64.decode text = .error fault ∧ (∀ other, ¬ Hex.SpellsMarked text other) ∧
      e = .document (.badBase64 field fault) := by
  rw [decodeBinary] at h
  cases hdecode : Base64.decode text with
  | error fault =>
    cases hmarked : markedHex? text with
    | none =>
      simp only [hdecode, hmarked] at h
      refine ⟨fault, rfl, fun other hother => ?_, (Except.error.inj h).symm⟩
      rw [markedHex?_eq_some_iff.mpr hother] at hmarked
      cases hmarked
    | some other => simp [hdecode, hmarked] at h
  | ok other =>
    simp only [hdecode] at h
    split at h <;> cases h

/-! ## Signatures -/

namespace Signature

variable {sig : Signature}

lemma ofBytes_of_length_ne (h : bytes.length ≠ 65) :
    ofBytes bytes = .error (.malformed "signature" 65 bytes.length) := by
  rw [ofBytes, Block.ofField, Block.ofBytes?_eq_none_iff.mpr h]
  rfl

/-- At the length of a signature, base64 is shorter than marked digits. -/
lemma not_spellsMarked_encode (sig sig' : Signature) :
    ¬ Hex.SpellsMarked (Base64.encode sig.bytes) sig'.bytes := by
  intro h
  have hlen := h.length_eq
  rw [Base64.toBytes_encode, Base64.length_encodeBytes, sig.length_bytes, sig'.length_bytes] at hlen
  omega

lemma ofDocument_of_spellsMarked (h : Hex.SpellsMarked text sig.bytes) :
    ofDocument text = .ok sig := by
  have hsig : ofBytes sig.bytes = .ok sig := ofBytes_eq_ok_iff.mpr rfl
  have hbinary : decodeBinary "signature" (some 65) text = .ok sig.bytes := by
    refine decodeBinary_of_spellsMarked h fun other hother => ⟨65, rfl, fun hlen => ?_⟩
    obtain rfl := hother
    exact not_spellsMarked_encode ⟨⟨other, hlen.symm⟩⟩ sig h
  rw [ofDocument, hbinary]
  simp only [hsig]

lemma spelling_of_ofDocument (h : ofDocument text = .ok sig) :
    text = Base64.encode sig.bytes ∨ Hex.SpellsMarked text sig.bytes := by
  rw [ofDocument] at h
  cases hbinary : decodeBinary "signature" (some 65) text with
  | error e =>
    rw [hbinary] at h
    cases h
  | ok bytes =>
    cases hsig : ofBytes bytes with
    | error e =>
      simp only [hbinary, hsig] at h
      cases h
    | ok read =>
      simp only [hbinary, hsig] at h
      obtain rfl := Except.ok.inj h
      rw [← ofBytes_eq_ok_iff.mp hsig]
      exact spelling_of_decodeBinary hbinary

/-- **The text of a signature is unambiguous.**  A text is read as a signature exactly if it is its
base64 or `0x` and its digits in either case, and no text is both, whether of the same signature or
of two.  Every other text is refused: either the bytes that it spells are not 65, or it spells
none in base64 or marked digits. -/
theorem text_unambiguous :
    (∀ (text : String) (sig : Signature), ofDocument text = .ok sig ↔
      text = Base64.encode sig.bytes ∨ Hex.SpellsMarked text sig.bytes) ∧
    (∀ (text : String) (sig sig' : Signature),
      ¬ (text = Base64.encode sig.bytes ∧ Hex.SpellsMarked text sig'.bytes)) ∧
    ∀ text : String,
      (∀ sig : Signature, text ≠ Base64.encode sig.bytes ∧ ¬ Hex.SpellsMarked text sig.bytes) →
      (∃ bytes, (text = Base64.encode bytes ∨ Hex.SpellsMarked text bytes) ∧ bytes.length ≠ 65 ∧
        ofDocument text = .error (.wire (.malformed "signature" 65 bytes.length))) ∨
      ∃ fault, Base64.decode text = .error fault ∧ (∀ bytes, ¬ Hex.SpellsMarked text bytes) ∧
        ofDocument text = .error (.document (.badBase64 "signature" fault)) := by
  refine ⟨fun text sig => ⟨spelling_of_ofDocument, ?_⟩, ?_, fun text hother => ?_⟩
  · rintro (rfl | hmarked)
    · exact ofDocument_toDocument sig
    · exact ofDocument_of_spellsMarked hmarked
  · rintro text sig sig' ⟨rfl, hmarked⟩
    exact not_spellsMarked_encode sig sig' hmarked
  · rw [ofDocument]
    cases hbinary : decodeBinary "signature" (some 65) text with
    | error e =>
      obtain ⟨fault, hdecode, hmarked, rfl⟩ := fault_of_decodeBinary hbinary
      exact .inr ⟨fault, hdecode, hmarked, rfl⟩
    | ok bytes =>
      have hspelling := spelling_of_decodeBinary hbinary
      have hlen : bytes.length ≠ 65 := fun hlen =>
        hspelling.elim (hother ⟨⟨bytes, hlen⟩⟩).1 (hother ⟨⟨bytes, hlen⟩⟩).2
      exact .inl ⟨bytes, hspelling, hlen, by simp only [ofBytes_of_length_ne hlen]⟩

/-- The zero signature in either spelling, and a text that is neither. -/
theorem text_unambiguous_sample :
    let sig : Signature := ⟨Block.zero⟩
    ofDocument (Base64.encode sig.bytes) = .ok sig ∧
      ofDocument ("0x" ++ Hex.encode sig.bytes) = .ok sig ∧
      (∀ sig : Signature, "?" ≠ Base64.encode sig.bytes ∧ ¬ Hex.SpellsMarked "?" sig.bytes) ∧
      ∃ fault, ofDocument "?" = .error (.document (.badBase64 "signature" fault)) := by
  intro sig
  obtain ⟨hread, -, hrefused⟩ := text_unambiguous
  have hneither (sig : Signature) :
      "?" ≠ Base64.encode sig.bytes ∧ ¬ Hex.SpellsMarked "?" sig.bytes := by
    have hone : (Text.toBytes "?").length = 1 := rfl
    refine ⟨fun hbase64 => ?_, fun hmarked => ?_⟩
    · rw [hbase64, Base64.toBytes_encode, Base64.length_encodeBytes] at hone
      omega
    · have hlen := hmarked.length_eq
      omega
  refine ⟨(hread _ sig).mpr (.inl rfl), (hread _ sig).mpr (.inr ⟨_, rfl, Hex.spells_encode _⟩),
    hneither, ?_⟩
  obtain ⟨bytes, -, -, herror⟩ | ⟨fault, -, -, herror⟩ := hrefused "?" hneither
  · cases herror
  · exact ⟨fault, herror⟩

end Signature

/-! ## Values -/

namespace DataPoint

variable {feed : String} {value : List UInt8}

lemma ofDocument_of_decodeBinary (h : decodeBinary "value" none text = .ok value) :
    ofDocument ⟨feed, text⟩ = (FeedId.ofDocument feed).map fun id => ⟨id, value⟩ := by
  rw [ofDocument, h, Fallible.map_eq_bind]
  rfl

/-- **What the text of a value denotes.**  Base64 of a value is read as this value, and so are `0x`
and its digits in either case if the number of bytes is even.  If it is odd, the same text is the
base64 of another, longer value, and this is what it is read as. -/
theorem value_of_spelling (feed : String) (value : List UInt8) :
    (∀ text, text = Base64.encode value →
      ofDocument ⟨feed, text⟩ = (FeedId.ofDocument feed).map fun id => ⟨id, value⟩) ∧
    (∀ text, Hex.SpellsMarked text value → value.length % 2 = 0 →
      ofDocument ⟨feed, text⟩ = (FeedId.ofDocument feed).map fun id => ⟨id, value⟩) ∧
    ∀ text, Hex.SpellsMarked text value → value.length % 2 = 1 →
      ∃ other, text = Base64.encode other ∧ 2 * other.length = 3 * (value.length + 1) ∧
        other ≠ value ∧
        ofDocument ⟨feed, text⟩ = (FeedId.ofDocument feed).map fun id => ⟨id, other⟩ := by
  have hbase64 (other : List UInt8) : ofDocument ⟨feed, Base64.encode other⟩ =
      (FeedId.ofDocument feed).map fun id => ⟨id, other⟩ :=
    ofDocument_of_decodeBinary (decodeBinary_encode (by rintro _ ⟨⟩))
  refine ⟨?_, fun text hmarked heven => ?_, fun text hmarked hodd => ?_⟩
  · rintro _ rfl
    exact hbase64 value
  · refine ofDocument_of_decodeBinary (decodeBinary_of_spellsMarked hmarked ?_)
    rintro other rfl
    have hodd := Base64.odd_length_of_spellsMarked_encode hmarked
    omega
  · obtain ⟨other, rfl, hlen⟩ := Base64.exists_encode_of_spellsMarked hmarked hodd
    refine ⟨other, rfl, hlen, ?_, hbase64 other⟩
    rintro rfl
    omega

/-- Two bytes in digits of mixed case, and one byte. -/
theorem value_of_spelling_sample :
    Hex.SpellsMarked "0x0aFf" [0x0a, 0xff] ∧ [(0x0a : UInt8), 0xff].length % 2 = 0 ∧
      ofDocument ⟨"BTC", "0x0aFf"⟩ = .ok ⟨FeedId.ofText "BTC", [0x0a, 0xff]⟩ ∧
      Hex.SpellsMarked "0x01" [0x01] ∧ [(0x01 : UInt8)].length % 2 = 1 ∧
      ∃ other, other.length = 3 ∧
        ofDocument ⟨"BTC", "0x01"⟩ = .ok ⟨FeedId.ofText "BTC", other⟩ := by
  have htwo : Hex.SpellsMarked "0x0aFf" [0x0a, 0xff] := ⟨"0aFf", rfl, by decide +kernel⟩
  have hone : Hex.SpellsMarked "0x01" [0x01] := ⟨"01", rfl, by decide +kernel⟩
  obtain ⟨-, heven, -⟩ := value_of_spelling "BTC" [0x0a, 0xff]
  obtain ⟨-, -, hodd⟩ := value_of_spelling "BTC" [0x01]
  obtain ⟨other, -, hlen, -, hother⟩ := hodd _ hone rfl
  rw [List.length_singleton] at hlen
  exact ⟨htwo, rfl, heven _ htwo rfl, hone, rfl, other, by omega, hother⟩

/-- The digits of the byte 1 are the base64 of three bytes. -/
theorem digits_of_one_byte_read_as_base64 :
    Hex.SpellsMarked "0x01" [0x01] ∧ "0x01" = Base64.encode [0xd3, 0x1d, 0x35] ∧
      ofDocument ⟨"BTC", "0x01"⟩ = .ok ⟨FeedId.ofText "BTC", [0xd3, 0x1d, 0x35]⟩ ∧
      ¬ ∀ (text : String) (value : List UInt8), value ≠ [] → Hex.SpellsMarked text value →
        ofDocument ⟨"BTC", text⟩ = .ok ⟨FeedId.ofText "BTC", value⟩ := by
  have hspells : Hex.SpellsMarked "0x01" [0x01] := ⟨"01", rfl, by decide +kernel⟩
  have hread : ofDocument ⟨"BTC", "0x01"⟩ = .ok ⟨FeedId.ofText "BTC", [0xd3, 0x1d, 0x35]⟩ := rfl
  refine ⟨hspells, rfl, hread, fun hfaithful => ?_⟩
  have hvalue := hfaithful "0x01" [0x01] (by simp) hspells
  rw [hread] at hvalue
  cases hvalue

end DataPoint
end SignedFeeds
