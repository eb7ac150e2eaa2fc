/-
# The bytes of a decimal

The value of a decimal is written in steps: the decimal is rounded to the given number of places,
scaled up to an integer, spelled with as few bytes as possible, and filled up on the left.  A
value that does not fit shows only at the end, when it has too many bytes.  `encodeInSteps` is
this computation, for any way of rounding that is exact.  Its result is what `encode` computes
from the rounded integer at once (`encodeInSteps_eq`).  Either way what is written is the nearest
integer, a half away from zero, and nothing is cut off.
-/
import Mathlib.Data.Nat.Digits.Lemmas
import SignedFeeds.Proofs.Value.Rounding
import SignedFeeds.Value

namespace SignedFeeds

/-! ## Digits -/

namespace BigEndian

lemma toNat_replicate_append (k : ℕ) (bs : List UInt8) :
    toNat (List.replicate k 0 ++ bs) = toNat bs := by
  induction k with
  | zero => rfl
  | succ k ih => exact ih

lemma ofNat_zero (width : ℕ) : ofNat width 0 = List.replicate width 0 := by
  have hzero : toNat (List.replicate width 0 ++ []) = 0 := toNat_replicate_append width []
  have hspelled := ofNat_toNat (List.replicate width 0 ++ [])
  rwa [hzero, List.append_nil, List.length_replicate] at hspelled

/-- The shortest spelling of a number; that of zero has one digit all the same. -/
def digits (n : ℕ) : List UInt8 :=
  if n = 0 then [0] else ((Nat.digits 256 n).map UInt8.ofNat).reverse

/-- A spelling without the zeros at its beginning. -/
def strip (bs : List UInt8) : List UInt8 := bs.dropWhile (· == 0)

lemma toNat_reverse_map {ds : List ℕ} (h : ∀ d ∈ ds, d < 256) :
    toNat (ds.map UInt8.ofNat).reverse = Nat.ofDigits 256 ds := by
  induction ds with
  | nil => rfl
  | cons d ds ih =>
    have hd : (UInt8.ofNat d).toNat = d := UInt8.toNat_ofNat_of_lt' (h d List.mem_cons_self)
    have hds := ih fun d' hd' => h d' (List.mem_cons_of_mem d hd')
    rw [List.map_cons, List.reverse_cons, toNat_concat, hds, hd, Nat.ofDigits_cons]
    exact Nat.add_comm _ _

/-- What is left of the shortest spelling of zero is nothing, and any other has no zeros at its
beginning. -/
lemma strip_digits (n : ℕ) : strip (digits n) = ((Nat.digits 256 n).map UInt8.ofNat).reverse := by
  rw [digits]
  split_ifs with hzero
  · subst hzero
    rfl
  · have hne : Nat.digits 256 n ≠ [] := Nat.digits_ne_nil_iff_ne_zero.mpr hzero
    have htop : (Nat.digits 256 n).getLast hne ≠ 0 := Nat.getLast_digit_ne_zero 256 hzero
    have hlt := Nat.digits_lt_base (by decide : 1 < 256) (List.getLast_mem hne)
    rw [← List.dropLast_append_getLast hne, List.map_append, List.reverse_append]
    refine List.dropWhile_cons_of_neg ?_
    rw [beq_iff_eq, ← UInt8.toNat_inj, UInt8.toNat_ofNat_of_lt' hlt]
    exact htop

/-- The shortest spelling has at most `width` digits if the number fits into as many. -/
lemma length_strip_digits_le_iff {n width : ℕ} :
    (strip (digits n)).length ≤ width ↔ n < capacity width := by
  rw [strip_digits, List.length_reverse, List.length_map]
  exact Nat.digits_length_le_iff (by decide) n

/-- Filled up on the left, the shortest spelling is the one of the given width. -/
lemma fill_strip_digits {n width : ℕ} (h : n < capacity width) :
    List.replicate (width - (strip (digits n)).length) 0 ++ strip (digits n) = ofNat width n := by
  have hlen := length_strip_digits_le_iff.mpr h
  have hnat : toNat (strip (digits n)) = n := by
    rw [strip_digits, toNat_reverse_map fun d hd => Nat.digits_lt_base (by decide) hd,
      Nat.ofDigits_digits]
  have hspelled := ofNat_toNat
    (List.replicate (width - (strip (digits n)).length) 0 ++ strip (digits n))
  rw [toNat_replicate_append, hnat, List.length_append, List.length_replicate,
    Nat.sub_add_cancel hlen] at hspelled
  exact hspelled.symm

end BigEndian

/-! ## Ways of rounding -/

namespace Decimal

/-- A rounded decimal.  Other than a `Decimal`, it may be a zero of any number of places. -/
structure Rounded where
  /-- Whether the sign is minus. -/
  negative : Bool
  /-- All digits, without sign and point. -/
  mantissa : ℕ
  /-- How many of the digits stand behind the point. -/
  scale : ℕ

/-- The number that a rounded decimal stands for. -/
def Rounded.toRat (r : Rounded) : ℚ := signed r.negative r.mantissa r.scale

/-- A way of rounding to a number of places is exact if it leaves no more places and gives the
nearest number that has no more, a half away from zero. -/
structure RoundsExactly (round : Decimal → ℕ → Rounded) : Prop where
  scale_le : ∀ d places, (round d places).scale ≤ places
  nearest : ∀ d places, ∃ n : ℤ, RoundsTo (d.toRat * 10 ^ places) n ∧
    (round d places).toRat * 10 ^ places = n

/-- Rounding to a number of places.  A zero gets all of them, and a number that has no more stays
as it is. -/
def roundTo (d : Decimal) (places : ℕ) : Rounded :=
  if d.mantissa = 0 then ⟨d.negative, 0, places⟩
  else if d.scale ≤ places then ⟨d.negative, d.mantissa, d.scale⟩
  else ⟨d.negative, roundDiv d.mantissa (10 ^ (d.scale - places)), places⟩

/-- The digits with zeros behind them, as many as are missing of the given places. -/
def Rounded.scaled (r : Rounded) (places : ℕ) : ℕ := r.mantissa * 10 ^ (places - r.scale)

lemma Rounded.toRat_mul_pow (r : Rounded) {places : ℕ} (h : r.scale ≤ places) :
    r.toRat * 10 ^ places = (((if r.negative then -1 else 1) * (r.scaled places : ℕ) : ℤ) : ℚ) := by
  rw [toRat, signed, mul_assoc, div_mul_pow_of_le r.mantissa h, scaled]
  cases r.negative <;> simp

lemma scaled_roundTo (d : Decimal) (places : ℕ) :
    (roundTo d places).negative = d.negative ∧
      (roundTo d places).scaled places = d.scaled places := by
  rw [roundTo, Decimal.scaled]
  split_ifs with hzero hle hle
  · exact ⟨rfl, by simp [Rounded.scaled, hzero]⟩
  · refine ⟨rfl, ?_⟩
    have hpos : 0 < Nat.pow 10 (d.scale - places) := Nat.pow_pos (by decide)
    rw [hzero, roundDiv, Nat.div_eq_of_lt (by omega), Rounded.scaled, Nat.zero_mul]
  · exact ⟨rfl, rfl⟩
  · exact ⟨rfl, by simp [Rounded.scaled]⟩

lemma scale_roundTo_le (d : Decimal) (places : ℕ) : (roundTo d places).scale ≤ places := by
  rw [roundTo]
  split_ifs with hzero hle
  · exact le_rfl
  · exact hle
  · exact le_rfl

lemma roundTo_exact : RoundsExactly roundTo := by
  refine ⟨scale_roundTo_le, fun d places => ⟨_, roundsTo_scaled d places, ?_⟩⟩
  obtain ⟨hnegative, hscaled⟩ := scaled_roundTo d places
  rw [Rounded.toRat_mul_pow _ (scale_roundTo_le d places), hnegative, hscaled]

end Decimal

/-! ## Writing values -/

namespace Value

open Decimal

variable {d : Decimal} {format : NumericFormat} {n : ℤ}

/-- The value bytes of a decimal, step by step.  The number is compared with the width only when
all its bytes are there. -/
def encodeInSteps (round : Decimal → ℕ → Rounded) (d : Decimal) (format : NumericFormat) :
    Except WireError (List UInt8) :=
  if format.width = 0 then .error (.malformed Counter.valueWidth.name 1 0)
  else
    let rounded := round d format.decimals
    if rounded.negative && rounded.mantissa != 0 then .error .negativeValue
    else
      let digits := BigEndian.strip (BigEndian.digits (rounded.scaled format.decimals))
      if format.width < digits.length then .error (.valueOverflow format.width)
      else .ok (List.replicate (format.width - digits.length) 0 ++ digits)

lemma sign_mul_neg_iff (negative : Bool) (number : ℕ) :
    (if negative then -1 else 1) * (number : ℤ) < 0 ↔ (negative && number != 0) = true := by
  cases negative with
  | false => simp
  | true =>
    simp
    omega

lemma toNat_sign_mul (negative : Bool) (number : ℕ) (h : ¬ (negative && number != 0) = true) :
    ((if negative then -1 else 1) * (number : ℤ)).toNat = number := by
  cases negative with
  | false => simp
  | true =>
    have hzero : number = 0 := by simpa using h
    simp [hzero]

/-- What is written of a decimal is decided by the integer that it rounds to. -/
lemma encode_eq_of_roundsTo (hn : RoundsTo (d.toRat * 10 ^ format.decimals) n) :
    encode d format =
      if format.width = 0 then .error (.malformed Counter.valueWidth.name 1 0)
      else if n < 0 then .error .negativeValue
      else if n.toNat < BigEndian.capacity format.width then
        .ok (BigEndian.ofNat format.width n.toNat)
      else .error (.valueOverflow format.width) := by
  have hscaled := hn.unique (roundsTo_scaled d format.decimals)
  have hneg := sign_mul_neg_iff d.negative (d.scaled format.decimals)
  have hnat := toNat_sign_mul d.negative (d.scaled format.decimals)
  rw [← hscaled] at hneg hnat
  rw [encode]
  refine if_congr Iff.rfl rfl ?_
  dsimp only
  by_cases hnegative : (d.negative && d.scaled format.decimals != 0) = true
  · rw [if_pos hnegative, if_pos (hneg.mpr hnegative)]
  · rw [if_neg hnegative, if_neg (mt hneg.mp hnegative), hnat hnegative]

/-- The steps give what is computed from the rounded integer at once. -/
lemma encodeInSteps_eq {round : Decimal → ℕ → Rounded} (h : RoundsExactly round) (d : Decimal)
    (format : NumericFormat) : encodeInSteps round d format = encode d format := by
  obtain ⟨n, hn, hround⟩ := h.nearest d format.decimals
  rw [encode_eq_of_roundsTo hn, encodeInSteps]
  rw [Rounded.toRat_mul_pow _ (h.scale_le d format.decimals)] at hround
  generalize round d format.decimals = rounded at hround ⊢
  have hscaled : (if rounded.negative then -1 else 1) *
      (rounded.scaled format.decimals : ℤ) = n := by exact_mod_cast hround
  have hzero : (rounded.mantissa != 0) = (rounded.scaled format.decimals != 0) := by
    rw [Rounded.scaled, Bool.eq_iff_iff, bne_iff_ne, bne_iff_ne]
    simp
  have hneg := sign_mul_neg_iff rounded.negative (rounded.scaled format.decimals)
  have hnat := toNat_sign_mul rounded.negative (rounded.scaled format.decimals)
  rw [hscaled] at hneg hnat
  refine if_congr Iff.rfl rfl ?_
  dsimp only
  rw [hzero]
  generalize rounded.scaled format.decimals = number at hneg hnat ⊢
  by_cases hnegative : (rounded.negative && number != 0) = true
  · rw [if_pos hnegative, if_pos (hneg.mpr hnegative)]
  · rw [if_neg hnegative, if_neg (mt hneg.mp hnegative), hnat hnegative]
    by_cases hfits : number < BigEndian.capacity format.width
    · have hlen := BigEndian.length_strip_digits_le_iff.mpr hfits
      rw [if_neg (Nat.not_lt.mpr hlen), if_pos hfits, BigEndian.fill_strip_digits hfits]
    · have hlen := mt BigEndian.length_strip_digits_le_iff.mp hfits
      rw [if_pos (Nat.not_le.mp hlen), if_neg hfits]

/-! ## Results by the rounded integer -/

/-- An integer that is not negative fits if it is below a power of 256. -/
lemma toNat_lt_capacity_iff (h : 0 ≤ n) (width : ℕ) :
    n.toNat < BigEndian.capacity width ↔ n < 256 ^ width := by
  have hcapacity : ((BigEndian.capacity width : ℕ) : ℤ) = 256 ^ width := Nat.cast_pow 256 width
  rw [← hcapacity]
  omega

lemma encode_eq_negativeValue_iff (hwidth : 1 ≤ format.width)
    (hn : RoundsTo (d.toRat * 10 ^ format.decimals) n) :
    encode d format = .error .negativeValue ↔ n < 0 := by
  rw [encode_eq_of_roundsTo hn, if_neg (by omega)]
  split_ifs with hneg hfits <;> simp [hneg]

lemma encode_eq_valueOverflow_iff (hwidth : 1 ≤ format.width)
    (hn : RoundsTo (d.toRat * 10 ^ format.decimals) n) :
    encode d format = .error (.valueOverflow format.width) ↔ 256 ^ format.width ≤ n := by
  rw [encode_eq_of_roundsTo hn, if_neg (by omega)]
  have hpos : (0 : ℤ) < 256 ^ format.width := by positivity
  split_ifs with hneg hfits
  · simp
    omega
  · simpa using (toNat_lt_capacity_iff (by omega) format.width).mp hfits
  · simpa using mt (toNat_lt_capacity_iff (by omega) format.width).mpr hfits

lemma encode_eq_ok (hwidth : 1 ≤ format.width)
    (hn : RoundsTo (d.toRat * 10 ^ format.decimals) n) (hnonneg : 0 ≤ n)
    (hlt : n < 256 ^ format.width) :
    encode d format = .ok (BigEndian.ofNat format.width n.toNat) := by
  rw [encode_eq_of_roundsTo hn, if_neg (by omega), if_neg (by omega),
    if_pos ((toNat_lt_capacity_iff hnonneg format.width).mpr hlt)]

/-- Every result is one of the three, so the bytes are of an integer that fits. -/
lemma bounds_of_encode_eq_ok {bytes : List UInt8} (hwidth : 1 ≤ format.width)
    (hn : RoundsTo (d.toRat * 10 ^ format.decimals) n) (h : encode d format = .ok bytes) :
    0 ≤ n ∧ n < 256 ^ format.width := by
  have hnegative := mt (encode_eq_negativeValue_iff hwidth hn).mpr (by simp [h])
  have hoverflow := mt (encode_eq_valueOverflow_iff hwidth hn).mpr (by simp [h])
  omega

/-- Exactly one integer is the value of a decimal in a format: the nearest to the decimal times
the power of ten, a half away from zero.  If it is negative or has too many bytes the decimal is
refused, with an error for each of the two.  Otherwise its bytes are all of it, with zeros in
front, and a zero is all zeros whatever the sign of the decimal.  The computation in steps has the
same results, with any exact way of rounding. -/
theorem encode_rounds_exactly (d : Decimal) (format : NumericFormat) (hwidth : 1 ≤ format.width) :
    (∃! n : ℤ, RoundsTo (d.toRat * 10 ^ format.decimals) n) ∧
    (∀ n : ℤ, RoundsTo (d.toRat * 10 ^ format.decimals) n →
      (encode d format = .error .negativeValue ↔ n < 0) ∧
      (encode d format = .error (.valueOverflow format.width) ↔ 256 ^ format.width ≤ n) ∧
      (0 ≤ n → n < 256 ^ format.width →
        encode d format = .ok (BigEndian.ofNat format.width n.toNat)) ∧
      (∀ bytes, encode d format = .ok bytes →
        bytes.length = format.width ∧ (BigEndian.toNat bytes : ℤ) = n) ∧
      (n = 0 → encode d format = .ok (List.replicate format.width 0))) ∧
    (∀ round, RoundsExactly round → encodeInSteps round d format = encode d format) := by
  refine ⟨?_, fun n hn => ⟨?_, ?_, ?_, fun bytes h => ?_, ?_⟩, fun round h => ?_⟩
  · exact ⟨_, roundsTo_scaled d format.decimals,
      fun n hn => hn.unique (roundsTo_scaled d format.decimals)⟩
  · exact encode_eq_negativeValue_iff hwidth hn
  · exact encode_eq_valueOverflow_iff hwidth hn
  · exact encode_eq_ok hwidth hn
  · obtain ⟨hnonneg, hlt⟩ := bounds_of_encode_eq_ok hwidth hn h
    obtain rfl : BigEndian.ofNat format.width n.toNat = bytes :=
      Except.ok.inj ((encode_eq_ok hwidth hn hnonneg hlt).symm.trans h)
    rw [BigEndian.toNat_ofNat_of_lt ((toNat_lt_capacity_iff hnonneg format.width).mpr hlt)]
    exact ⟨BigEndian.length_ofNat .., Int.toNat_of_nonneg hnonneg⟩
  · rintro rfl
    rw [encode_eq_ok hwidth hn le_rfl (by positivity), Int.toNat_zero, BigEndian.ofNat_zero]
  · exact encodeInSteps_eq h d format

/-- One byte with two places: minus 0.004 rounds to zero and is written, 2.555 rounds up to a
number that is too large. -/
theorem encode_rounds_exactly_sample :
    let format : NumericFormat := ⟨2, 1⟩
    let tiny : Decimal := ⟨true, 4, 3, by decide, by decide⟩
    let large : Decimal := ⟨false, 2555, 3, by decide, by decide⟩
    (1 ≤ format.width ∧ RoundsExactly roundTo) ∧
      RoundsTo (tiny.toRat * 10 ^ 2) 0 ∧ encode tiny format = .ok [0] ∧
      RoundsTo (large.toRat * 10 ^ 2) 256 ∧ encode large format = .error (.valueOverflow 1) ∧
      encodeInSteps roundTo large format = .error (.valueOverflow 1) := by
  intro format tiny large
  have hwidth : 1 ≤ format.width := by decide
  have htiny := roundsTo_scaled tiny 2
  rw [show (if tiny.negative then -1 else 1) * (tiny.scaled 2 : ℤ) = 0 by decide] at htiny
  have hlarge := roundsTo_scaled large 2
  rw [show (if large.negative then -1 else 1) * (large.scaled 2 : ℤ) = 256 by decide] at hlarge
  obtain ⟨-, hresults, -⟩ := encode_rounds_exactly tiny format hwidth
  obtain ⟨-, -, -, -, hzero⟩ := hresults 0 htiny
  obtain ⟨-, hresults, hsteps⟩ := encode_rounds_exactly large format hwidth
  obtain ⟨-, hoverflow, -⟩ := hresults 256 hlarge
  have hrefused := hoverflow.mpr (by decide)
  exact ⟨⟨hwidth, roundTo_exact⟩, htiny, hzero rfl, hlarge, hrefused,
    (hsteps roundTo roundTo_exact).trans hrefused⟩

end Value
end SignedFeeds
