/-
# Counters in words of 64 bits

The numbers that are written in counters are words.  Whether a word fits its field is decided by a
shift, and its bytes are the last ones of the word (`Counter.writeWord`); a field is read by
shifting its bytes into a word.  For fields of at most 8 bytes writing so is the same as writing the number
(`Counter.writeWord_eq`), the field of 8 bytes included, for which no shift can be asked.

So a number is either written in full and read back, or refused with nothing written, and the bytes
of a field are what is written for the number that they are read as.
-/
import SignedFeeds.Proofs.Bytes.Words
import SignedFeeds.Proofs.Package.Domain

namespace SignedFeeds
namespace Counter

/-- Appends the low bytes of a word.  A field that is narrower than a word has room for it if no bit
is left when they are shifted out. -/
def writeWord (c : Counter) (value : UInt64) : Writer Unit :=
  if c.width < 8 ∧ value >>> UInt64.ofNat (8 * c.width) ≠ 0 then
    throw (.counterOverflow c.name value.toNat c.width)
  else Writer.emit ((Word.toBytes value).drop (8 - c.width))

variable {c : Counter} {value : UInt64}

lemma toNat_lt_of_width_eq (h : c.width = 8) : value.toNat < 256 ^ c.width := by
  rw [h]
  exact value.toNat_lt

/-- The shift tells whether the word is too large. -/
lemma overflows_iff (h : c.width ≤ 8) :
    (c.width < 8 ∧ value >>> UInt64.ofNat (8 * c.width) ≠ 0) ↔ 256 ^ c.width ≤ value.toNat := by
  rcases Nat.lt_or_eq_of_le h with hnarrow | hfull
  · simp only [hnarrow, true_and, ne_eq, Word.shiftRight_eq_zero_iff value hnarrow, Nat.not_lt]
  · have hfits : value.toNat < 256 ^ c.width := toNat_lt_of_width_eq hfull
    exact iff_of_false (fun hover => Nat.ne_of_lt hover.1 hfull) (Nat.not_le.mpr hfits)

/-- A number that fits is appended, whatever the output. -/
lemma allOrNothing_of_lt {n : ℕ} (h : n < 256 ^ c.width) :
    (Writer.emitCounter c n).AllOrNothing (.ok (BigEndian.ofNat c.width n)) := by
  rw [← DataPackage.counter_encode_of_lt (c := c) rfl h]
  exact Writer.allOrNothing_emitAll _

/-- A number that does not fit is refused, and nothing is appended. -/
lemma allOrNothing_of_le {n : ℕ} (h : 256 ^ c.width ≤ n) :
    (Writer.emitCounter c n).AllOrNothing (.error (.counterOverflow c.name n c.width)) := by
  rw [← DataPackage.counter_encode_of_le (c := c) rfl h]
  exact Writer.allOrNothing_emitAll _

lemma writeWord_eq (h : c.width ≤ 8) : c.writeWord value = Writer.emitCounter c value.toNat := by
  rw [writeWord, Writer.emitCounter, Word.drop_toBytes value h]
  by_cases hfits : value.toNat < 256 ^ c.width
  · rw [if_neg (fun hover => Nat.not_lt.mpr ((overflows_iff h).mp hover) hfits),
      DataPackage.counter_encode_of_lt (c := c) rfl hfits]
    rfl
  · have hover := Nat.not_lt.mp hfits
    rw [if_pos ((overflows_iff h).mpr hover), DataPackage.counter_encode_of_le (c := c) rfl hover]
    rfl

/-- **Counters are read as what was written, and nothing is cut off.**  In a field of at most 8
bytes the words below `256 ^ width` are written, each as the bytes that it is read back from, and
the others are refused with nothing appended; in a field of 8 bytes all words are written.  The word
steps do just that.  Conversely, when at most 8 bytes are read no bit is lost on the way, the number is one
that their field holds, and writing it appends the same bytes. -/
theorem counters_round_trip :
    (∀ c : Counter, c.width ≤ 8 → ∀ value : UInt64,
      c.writeWord value = Writer.emitCounter c value.toNat ∧
      (value.toNat < 256 ^ c.width →
        ∃ bytes, bytes.length = c.width ∧ Word.ofBytes bytes = value ∧
          BigEndian.toNat bytes = value.toNat ∧
          (Writer.emitCounter c value.toNat).AllOrNothing (.ok bytes)) ∧
      (256 ^ c.width ≤ value.toNat →
        (Writer.emitCounter c value.toNat).AllOrNothing
          (.error (.counterOverflow c.name value.toNat c.width))) ∧
      (c.width = 8 → value.toNat < 256 ^ c.width)) ∧
    ∀ bytes : List UInt8, bytes.length ≤ 8 →
      (∀ front b back, bytes = front ++ b :: back →
        256 * (Word.ofBytes front).toNat + b.toNat < 2 ^ 64 ∧
        (Word.ofBytes (front ++ [b])).toNat = 256 * (Word.ofBytes front).toNat + b.toNat) ∧
      (Word.ofBytes bytes).toNat = BigEndian.toNat bytes ∧
      BigEndian.toNat bytes < 256 ^ bytes.length ∧
      ∀ name, (Writer.emitCounter ⟨name, bytes.length⟩ (BigEndian.toNat bytes)).AllOrNothing
        (.ok bytes) := by
  refine ⟨fun c hwidth value => ⟨writeWord_eq hwidth, fun hfits => ?_,
    allOrNothing_of_le, toNat_lt_of_width_eq⟩, fun bytes hlen => ⟨?_,
    Word.toNat_ofBytes hlen, BigEndian.toNat_lt bytes, fun name => ?_⟩⟩
  · have hlen := BigEndian.length_ofNat c.width value.toNat
    have hnumber := BigEndian.toNat_ofNat_of_lt hfits
    refine ⟨_, hlen, ?_, hnumber, allOrNothing_of_lt hfits⟩
    rw [← UInt64.toNat_inj, Word.toNat_ofBytes (by omega), hnumber]
  · rintro front b back rfl
    rw [List.length_append, List.length_cons] at hlen
    have hstep : (Word.ofBytes (front ++ [b])).toNat =
        256 * (Word.ofBytes front).toNat + b.toNat := by
      rw [Word.toNat_ofBytes (by rw [List.length_append, List.length_singleton]; omega),
        Word.toNat_ofBytes (by omega), BigEndian.toNat_concat]
    exact ⟨hstep ▸ UInt64.toNat_lt _, hstep⟩
  · have hwritten := allOrNothing_of_lt (c := ⟨name, bytes.length⟩)
      (BigEndian.toNat_lt bytes)
    rwa [BigEndian.ofNat_toNat] at hwritten

/-- A time, a number of packages that does not fit, and the largest word. -/
theorem counters_round_trip_sample :
    (∃ bytes, bytes.length = 6 ∧ Word.ofBytes bytes = 1654353400000 ∧
      (timestamp.writeWord 1654353400000).run [7] = (.ok (), [7] ++ bytes)) ∧
    (packages.writeWord 0x10000).run [7] =
      (.error (.counterOverflow "data packages count" 0x10000 2), [7]) ∧
    (UInt64.toNat 0xffffffffffffffff < 256 ^ 8) ∧
    Writer.run (Writer.emitCounter ⟨"number", 8⟩ (BigEndian.toNat (List.replicate 8 0xff))) [7] =
      (.ok (), [7] ++ List.replicate 8 0xff) := by
  obtain ⟨hwrite, hread⟩ := counters_round_trip
  obtain ⟨htime, hfits, -⟩ := hwrite timestamp (by decide) 1654353400000
  obtain ⟨hcount, -, hrefused, -⟩ := hwrite packages (by decide) 0x10000
  obtain ⟨-, -, -, hfull⟩ := hwrite ⟨"number", 8⟩ (by decide) 0xffffffffffffffff
  obtain ⟨-, -, -, hagain⟩ := hread (List.replicate 8 0xff) (by decide)
  obtain ⟨bytes, hlen, hbytes, -, hrun⟩ := hfits (by decide)
  refine ⟨⟨bytes, hlen, hbytes, ?_⟩, ?_, hfull rfl, hagain "number" [7]⟩
  · rw [htime]
    exact hrun [7]
  · rw [hcount]
    exact hrefused (by decide) [7]

end Counter
end SignedFeeds
