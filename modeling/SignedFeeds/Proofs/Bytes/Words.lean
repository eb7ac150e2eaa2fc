/-
# Numbers in words of 64 bits

A word is written by shifting its bytes to the right end one by one, and read by shifting one byte
after the other into an empty word.  Both agree with the big-endian writing of the number
(`Word.drop_toBytes`, `Word.toNat_ofBytes`): at most 8 bytes are shifted in, so none is ever shifted
out at the top.

A number fits in fewer than 8 bytes exactly if shifting it by that many bytes leaves nothing
(`Word.shiftRight_eq_zero_iff`).  For 8 bytes there is no such test, since a word shifted by 64 bits
is not shifted at all, and no need of one.
-/
import Mathlib.Algebra.Group.Nat.Defs
import Mathlib.Data.List.Induction
import Mathlib.Tactic.Common
import SignedFeeds.Bytes.BigEndian

namespace SignedFeeds

namespace BigEndian

/-- Each digit is found by dividing by a power of 256, the last one by none. -/
lemma ofNat_eq_map_range (width n : ℕ) :
    ofNat width n = (List.range width).reverse.map fun k => UInt8.ofNat (n / 256 ^ k) := by
  induction width generalizing n with
  | zero => rfl
  | succ width ih =>
    have hnext (k : ℕ) : n / 256 / 256 ^ k = n / 256 ^ (k + 1) := by
      rw [Nat.div_div_eq_div_mul, ← Nat.pow_succ']
    rw [ofNat_succ, ih, List.range_succ_eq_map]
    simp only [hnext, List.reverse_cons, List.map_append, List.map_reverse, List.map_map,
      List.map_cons, List.map_nil, Nat.pow_zero, Nat.div_one]
    rfl

/-- The low digits stand at the end. -/
lemma drop_ofNat {width wide : ℕ} (h : width ≤ wide) (n : ℕ) :
    (ofNat wide n).drop (wide - width) = ofNat width n := by
  rw [ofNat_eq_map_range, ofNat_eq_map_range, ← List.map_drop, List.drop_reverse, List.length_range,
    Nat.sub_sub_self h, List.take_range, Nat.min_eq_left h]

/-- Shorter fields hold less. -/
lemma capacity_le_capacity {width wide : ℕ} (h : width ≤ wide) : capacity width ≤ capacity wide :=
  Nat.pow_le_pow_right (by decide) h

end BigEndian

namespace Word

/-- The 8 bytes of a word, most significant first. -/
def toBytes (w : UInt64) : List UInt8 :=
  (List.range 8).reverse.map fun k => (w >>> UInt64.ofNat (8 * k)).toUInt8

/-- The word that the bytes are shifted into, most significant first. -/
def ofBytes (bs : List UInt8) : UInt64 := bs.foldl (fun w b => w <<< 8 ||| b.toUInt64) 0

/-! ## Writing -/

/-- Shifting by whole bytes, fewer than a word has. -/
lemma toNat_shiftRight (w : UInt64) {k : ℕ} (h : k < 8) :
    (w >>> UInt64.ofNat (8 * k)).toNat = w.toNat / 256 ^ k := by
  have hbits : (UInt64.ofNat (8 * k)).toNat = 8 * k :=
    UInt64.toNat_ofNat_of_lt' (Nat.lt_trans (Nat.mul_lt_mul_of_pos_left h (by decide)) (by decide))
  rw [UInt64.toNat_shiftRight, hbits, Nat.mod_eq_of_lt (by omega), Nat.shiftRight_eq_div_pow,
    Nat.pow_mul]

lemma toBytes_eq (w : UInt64) : toBytes w = BigEndian.ofNat 8 w.toNat := by
  rw [toBytes, BigEndian.ofNat_eq_map_range]
  refine List.map_congr_left fun k hk => ?_
  rw [List.mem_reverse, List.mem_range] at hk
  rw [← UInt8.toNat_inj, UInt64.toNat_toUInt8, toNat_shiftRight w hk, UInt8.toNat_ofNat']

/-- The low bytes of a word are the number in a field of so many bytes. -/
lemma drop_toBytes (w : UInt64) {width : ℕ} (h : width ≤ 8) :
    (toBytes w).drop (8 - width) = BigEndian.ofNat width w.toNat := by
  rw [toBytes_eq, BigEndian.drop_ofNat h]

lemma shiftRight_eq_zero_iff (w : UInt64) {width : ℕ} (h : width < 8) :
    w >>> UInt64.ofNat (8 * width) = 0 ↔ w.toNat < 256 ^ width := by
  rw [← UInt64.toNat_inj, toNat_shiftRight w h, UInt64.toNat_zero, Nat.div_eq_zero_iff]
  have hpos : 256 ^ width ≠ 0 := Nat.ne_of_gt (Nat.pow_pos (by decide))
  simp only [hpos, false_or]

/-! ## Reading -/

lemma ofBytes_concat (bs : List UInt8) (b : UInt8) :
    ofBytes (bs ++ [b]) = ofBytes bs <<< 8 ||| b.toUInt64 := by
  simp only [ofBytes, List.foldl_append, List.foldl_cons, List.foldl_nil]

/-- As long as there is room for a byte, shifting it in loses nothing. -/
lemma toNat_shiftIn {w : UInt64} (h : w.toNat < 256 ^ 7) (b : UInt8) :
    (w <<< 8 ||| b.toUInt64).toNat = 256 * w.toNat + b.toNat := by
  have hb := b.toNat_lt
  have hroom : w.toNat <<< 8 < 2 ^ 64 := by
    rw [Nat.shiftLeft_eq]
    omega
  rw [UInt64.toNat_or, UInt64.toNat_shiftLeft, UInt8.toNat_toUInt64]
  show w.toNat <<< 8 % 2 ^ 64 ||| b.toNat = _
  rw [Nat.mod_eq_of_lt hroom, ← Nat.shiftLeft_add_eq_or_of_lt hb, Nat.shiftLeft_eq]
  omega

/-- Up to 8 bytes are read as the number that they spell. -/
lemma toNat_ofBytes {bs : List UInt8} (h : bs.length ≤ 8) :
    (ofBytes bs).toNat = BigEndian.toNat bs := by
  induction bs using List.reverseRecOn with
  | nil => rfl
  | append_singleton bs b ih =>
    rw [List.length_append, List.length_singleton] at h
    have hfront := ih (by omega)
    have hroom : (ofBytes bs).toNat < 256 ^ 7 := by
      rw [hfront]
      exact Nat.lt_of_lt_of_le (BigEndian.toNat_lt bs)
        (BigEndian.capacity_le_capacity (Nat.le_of_succ_le_succ h))
    rw [ofBytes_concat, toNat_shiftIn hroom, hfront, BigEndian.toNat_concat]

end Word
end SignedFeeds
