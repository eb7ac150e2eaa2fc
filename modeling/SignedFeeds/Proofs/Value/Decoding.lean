/-
# The decimal of value bytes

Value bytes spell an integer, which is read as a decimal with the given number of places.  Of the
decimals that are the same number the one that is returned has no zeros at the end of its fraction
(`Decimal.Reduced`), and there is only one such decimal (`Reduced.eq_of_toRat_eq`).  So reading may
change the scale, and nothing else: writing what has been read gives the bytes back.

Not every integer that can be written can be read, because a decimal has 96 bits only.  Reading
finds that out in steps: the bytes are stripped of the zeros in front and put into a window of
sixteen bytes, the number in the window has to fit in a signed integer of that size, and then in a
decimal.  `decodeInSteps` is this computation.  As the last bound is the smallest, the others refuse
nothing that it does not (`decodeInSteps_eq`).
-/
import Mathlib.Data.List.DropRight
import SignedFeeds.Proofs.Value.Encoding

namespace SignedFeeds

/-! ## Reduced decimals -/

namespace Decimal

variable {d d' : Decimal}

/-- A zero has no sign, and a fraction does not end in a zero. -/
structure Reduced (d : Decimal) : Prop where
  sign : d.negative = true → d.mantissa ≠ 0
  last : d.scale ≠ 0 → d.mantissa % 10 ≠ 0

lemma abs_toRat (d : Decimal) : |d.toRat| = d.mantissa / 10 ^ d.scale := by
  have hnonneg : (0 : ℚ) ≤ d.mantissa / 10 ^ d.scale := by positivity
  rw [toRat, signed]
  cases d.negative with
  | false => simpa using abs_of_nonneg hnonneg
  | true => simpa using abs_of_nonneg hnonneg

/-- Of two ways to write a number, a reduced one has no more places. -/
lemma Reduced.scale_le (h : d.Reduced) (heq : |d.toRat| = |d'.toRat|) : d.scale ≤ d'.scale := by
  by_contra hlt
  have hmore : d'.scale ≤ d.scale := by omega
  rw [abs_toRat, abs_toRat] at heq
  have hscaled := congrArg (· * (10 : ℚ) ^ d.scale) heq
  simp only [div_mul_pow_of_le _ le_rfl, div_mul_pow_of_le _ hmore] at hscaled
  have hmantissa : d.mantissa * 10 ^ (d.scale - d.scale) =
      d'.mantissa * 10 ^ (d.scale - d'.scale) := by exact_mod_cast hscaled
  obtain ⟨extra, hextra⟩ := Nat.exists_eq_add_of_lt (Nat.not_le.mp hlt)
  rw [Nat.sub_self, pow_zero, mul_one, hextra, add_assoc, Nat.add_sub_cancel_left, pow_succ,
    ← mul_assoc] at hmantissa
  refine h.last (by omega) ?_
  rw [hmantissa, Nat.mul_mod_left]

/-- The sign of a reduced decimal can be seen from the number. -/
lemma Reduced.negative_iff (h : d.Reduced) : d.negative = true ↔ d.toRat < 0 := by
  constructor
  · intro hneg
    have hmantissa : (0 : ℚ) < d.mantissa := by exact_mod_cast Nat.pos_of_ne_zero (h.sign hneg)
    have hpos : (0 : ℚ) < d.mantissa / 10 ^ d.scale := by positivity
    rw [toRat, signed, if_pos hneg]
    linarith
  · intro hlt
    by_contra hpos
    have hnonneg : (0 : ℚ) ≤ d.mantissa / 10 ^ d.scale := by positivity
    rw [toRat, signed, if_neg hpos] at hlt
    linarith

/-- A number has one reduced form. -/
lemma Reduced.eq_of_toRat_eq (h : d.Reduced) (h' : d'.Reduced) (heq : d.toRat = d'.toRat) :
    d = d' := by
  have hnegative : d.negative = d'.negative := by
    rw [Bool.eq_iff_iff, h.negative_iff, h'.negative_iff, heq]
  have habs : |d.toRat| = |d'.toRat| := by rw [heq]
  have hscale : d.scale = d'.scale := le_antisymm (h.scale_le habs) (h'.scale_le habs.symm)
  have hpow : (10 : ℚ) ^ d'.scale ≠ 0 := by positivity
  rw [abs_toRat, abs_toRat, hscale, div_left_inj' hpow] at habs
  have hmantissa : d.mantissa = d'.mantissa := by exact_mod_cast habs
  cases d
  cases d'
  simp_all

lemma trim_div_pow (mantissa scale : ℕ) :
    ((trim mantissa scale).1 : ℚ) / 10 ^ (trim mantissa scale).2 = mantissa / 10 ^ scale := by
  induction scale generalizing mantissa with
  | zero => rfl
  | succ scale ih =>
    rw [trim]
    split_ifs with hzero
    · have hten : ((mantissa / 10 : ℕ) : ℚ) * 10 = mantissa := by
        exact_mod_cast Nat.div_mul_cancel (Nat.dvd_of_mod_eq_zero hzero)
      rw [ih, ← hten, pow_succ, mul_div_mul_right _ _ (by norm_num)]
    · rfl

lemma trim_last (mantissa scale : ℕ) (h : (trim mantissa scale).2 ≠ 0) :
    (trim mantissa scale).1 % 10 ≠ 0 := by
  induction scale generalizing mantissa with
  | zero => exact absurd rfl h
  | succ scale ih =>
    rw [trim] at h ⊢
    split_ifs at h ⊢ with hzero
    · exact ih (mantissa / 10) h
    · exact hzero

lemma toRat_normalize (d : Decimal) : d.normalize.toRat = d.toRat := by
  rw [toRat, toRat, signed, signed, normalize, trim_div_pow]

lemma reduced_normalize (h : d.negative = false) : d.normalize.Reduced where
  sign hneg := by
    have hfalse : d.negative = true := hneg
    rw [h] at hfalse
    cases hfalse
  last := trim_last d.mantissa d.scale

end Decimal

/-! ## The window -/

namespace BigEndian

lemma strip_replicate_append (k : ℕ) (bs : List UInt8) :
    strip (List.replicate k 0 ++ bs) = strip bs := by
  induction k with
  | zero => rfl
  | succ k ih => exact ih

/-- Without the zeros in front, every spelling of a number is the shortest one. -/
lemma strip_eq (bs : List UInt8) : strip bs = strip (digits (toNat bs)) := by
  have hfill := fill_strip_digits (toNat_lt bs)
  rw [ofNat_toNat] at hfill
  calc strip bs
      = strip (List.replicate _ 0 ++ strip (digits (toNat bs))) := by rw [hfill]
    _ = strip (strip (digits (toNat bs))) := strip_replicate_append _ _
    _ = strip (digits (toNat bs)) := List.dropWhile_idempotent _ _

lemma length_strip_le_iff {bs : List UInt8} {width : ℕ} :
    (strip bs).length ≤ width ↔ toNat bs < capacity width := by
  rw [strip_eq, length_strip_digits_le_iff]

/-- In a window that is wide enough a spelling stands for the same number. -/
lemma toNat_window (k : ℕ) (bs : List UInt8) :
    toNat (List.replicate k 0 ++ strip bs) = toNat bs := by
  have hfill := fill_strip_digits (toNat_lt bs)
  rw [ofNat_toNat, ← strip_eq] at hfill
  rw [toNat_replicate_append]
  conv_rhs => rw [← hfill, toNat_replicate_append]

end BigEndian

/-! ## Reading values -/

namespace Value

open Decimal

variable {bytes : List UInt8} {format : NumericFormat} {d : Decimal}

/-- The decimal that value bytes stand for, step by step.  The number is compared with the bound of
a decimal only when it is known to fit in the window, and then in a signed integer of its size. -/
def decodeInSteps (bytes : List UInt8) (format : NumericFormat) : Except WireError Decimal :=
  if bytes.length ≠ format.width then .error (.malformed "value" format.width bytes.length)
  else
    let digits := BigEndian.strip bytes
    if 16 < digits.length then .error (.valueOverflow format.width)
    else
      let number := BigEndian.toNat (List.replicate (16 - digits.length) 0 ++ digits)
      if 2 ^ 127 ≤ number then .error (.valueOverflow format.width)
      else
        match ofParts? false number format.decimals with
        | some d => .ok d.normalize
        | none => .error (.valueOverflow format.width)

lemma bound_eq : Decimal.bound = 2 ^ 96 := by decide

lemma decode_of_fits (hlen : bytes.length = format.width)
    (h : BigEndian.toNat bytes < Decimal.bound ∧ format.decimals ≤ 28) :
    decode bytes format =
      .ok (normalize ⟨false, BigEndian.toNat bytes, format.decimals, h.1, h.2⟩) := by
  rw [decode, if_neg (not_not.mpr hlen), ofParts?, dif_pos h]

lemma decode_of_not_fits (hlen : bytes.length = format.width)
    (h : ¬ (BigEndian.toNat bytes < Decimal.bound ∧ format.decimals ≤ 28)) :
    decode bytes format = .error (.valueOverflow format.width) := by
  rw [decode, if_neg (not_not.mpr hlen), ofParts?, dif_neg h]

/-- The window and the signed integer refuse only what no decimal can hold. -/
lemma decodeInSteps_eq (bytes : List UInt8) (format : NumericFormat) :
    decodeInSteps bytes format = decode bytes format := by
  by_cases hlen : bytes.length = format.width
  · rw [decodeInSteps, if_neg (not_not.mpr hlen)]
    have hcapacity : BigEndian.capacity 16 = 2 ^ 128 := by decide
    have hbound := bound_eq
    dsimp only
    rw [BigEndian.toNat_window]
    split_ifs with hlong hlarge
    · have hover := mt BigEndian.length_strip_le_iff.mpr (Nat.not_le.mpr hlong)
      exact (decode_of_not_fits hlen (by omega)).symm
    · exact (decode_of_not_fits hlen (by omega)).symm
    · cases hparts : ofParts? false (BigEndian.toNat bytes) format.decimals with
      | none => rw [decode, if_neg (not_not.mpr hlen), hparts]
      | some d => rw [decode, if_neg (not_not.mpr hlen), hparts]
  · rw [decodeInSteps, decode, if_pos hlen, if_pos hlen]

/-- What is read is the reduced form of the spelled integer with the given number of places. -/
lemma decode_eq_ok_iff :
    decode bytes format = .ok d ↔
      bytes.length = format.width ∧ BigEndian.toNat bytes < 2 ^ 96 ∧ format.decimals ≤ 28 ∧
        d.Reduced ∧ d.toRat = BigEndian.toNat bytes / 10 ^ format.decimals := by
  rw [← bound_eq]
  by_cases hlen : bytes.length = format.width
  · by_cases hfits : BigEndian.toNat bytes < Decimal.bound ∧ format.decimals ≤ 28
    · rw [decode_of_fits hlen hfits, Except.ok.injEq]
      have hreduced : (normalize ⟨false, BigEndian.toNat bytes, format.decimals, hfits.1,
          hfits.2⟩).Reduced := reduced_normalize rfl
      have hvalue := toRat_normalize
        ⟨false, BigEndian.toNat bytes, format.decimals, hfits.1, hfits.2⟩
      simp only [toRat, signed, Bool.false_eq_true, if_false, one_mul] at hvalue
      constructor
      · rintro rfl
        exact ⟨hlen, hfits.1, hfits.2, hreduced, hvalue⟩
      · rintro ⟨-, -, -, hd, heq⟩
        exact hreduced.eq_of_toRat_eq hd (hvalue.trans heq.symm)
    · rw [decode_of_not_fits hlen hfits]
      refine iff_of_false (by rintro ⟨⟩) ?_
      rintro ⟨-, hlt, hplaces, -⟩
      exact hfits ⟨hlt, hplaces⟩
  · rw [decode, if_pos hlen]
    exact iff_of_false (by rintro ⟨⟩) fun h => hlen h.1

/-- The integer that has been written is the decimal times the power of ten, if that is one. -/
lemma toNat_of_encode (hwidth : 1 ≤ format.width) (h : encode d format = .ok bytes) {n : ℤ}
    (hn : d.toRat * 10 ^ format.decimals = n) :
    d.toRat = BigEndian.toNat bytes / 10 ^ format.decimals := by
  have hrounds : RoundsTo (d.toRat * 10 ^ format.decimals) n := by
    rw [hn]
    exact roundsTo_intCast n
  obtain ⟨hnonneg, hlt⟩ := bounds_of_encode_eq_ok hwidth hrounds h
  obtain rfl : BigEndian.ofNat format.width n.toNat = bytes :=
    Except.ok.inj ((encode_eq_ok hwidth hrounds hnonneg hlt).symm.trans h)
  rw [BigEndian.toNat_ofNat_of_lt ((toNat_lt_capacity_iff hnonneg format.width).mpr hlt)]
  have hcast : ((n.toNat : ℕ) : ℚ) = n := by exact_mod_cast Int.toNat_of_nonneg hnonneg
  rw [hcast, ← hn, mul_div_cancel_right₀ _ (by positivity)]

lemma length_of_encode (h : encode d format = .ok bytes) : bytes.length = format.width := by
  rw [encode] at h
  dsimp only at h
  split_ifs at h
  obtain rfl := Except.ok.inj h
  exact BigEndian.length_ofNat ..

/-- What has been read is written with the bytes it has been read from. -/
lemma encode_of_decode (hwidth : 1 ≤ format.width) (h : decode bytes format = .ok d) :
    encode d format = .ok bytes := by
  obtain ⟨hlen, -, -, -, hvalue⟩ := decode_eq_ok_iff.mp h
  have hscaled : d.toRat * 10 ^ format.decimals = ((BigEndian.toNat bytes : ℤ) : ℚ) := by
    rw [hvalue, div_mul_cancel₀ _ (by positivity), Int.cast_natCast]
  have hrounds : RoundsTo (d.toRat * 10 ^ format.decimals) (BigEndian.toNat bytes : ℤ) := by
    rw [hscaled]
    exact roundsTo_intCast _
  have hfits := BigEndian.toNat_lt bytes
  rw [hlen, ← Int.toNat_natCast (BigEndian.toNat bytes),
    toNat_lt_capacity_iff (Int.natCast_nonneg _)] at hfits
  rw [encode_eq_ok hwidth hrounds (Int.natCast_nonneg _) hfits, Int.toNat_natCast, ← hlen,
    BigEndian.ofNat_toNat]

/-- **Writing and reading values are inverse to each other.**  Bytes that have been written are read
if their integer is below 2⁹⁶ and there are at most 28 places, and are refused as too large
otherwise.  What is read is the only reduced decimal that is the integer with so many places; it is
the number that was written, if that has no more places.  Bytes that are read, whatever wrote them,
are what is written for the decimal.  And reading in steps has the same results. -/
theorem decode_inverts_encode :
    (∀ (v : Decimal) (format : NumericFormat) bytes, 1 ≤ format.width →
      encode v format = .ok bytes →
      (BigEndian.toNat bytes < 2 ^ 96 ∧ format.decimals ≤ 28 →
        ∃ d, decode bytes format = .ok d ∧
          (∀ d' : Decimal, d' = d ↔
            d'.Reduced ∧ d'.toRat = BigEndian.toNat bytes / 10 ^ format.decimals) ∧
          ((∃ n : ℤ, v.toRat * 10 ^ format.decimals = n) → d.toRat = v.toRat)) ∧
      (¬ (BigEndian.toNat bytes < 2 ^ 96 ∧ format.decimals ≤ 28) →
        decode bytes format = .error (.valueOverflow format.width))) ∧
    (∀ (bytes : List UInt8) decimals d, 1 ≤ bytes.length →
      decode bytes ⟨decimals, bytes.length⟩ = .ok d →
      encode d ⟨decimals, bytes.length⟩ = .ok bytes) ∧
    ∀ bytes format, decodeInSteps bytes format = decode bytes format := by
  refine ⟨fun v format bytes hwidth h => ⟨?_, fun hnot => ?_⟩,
    fun bytes decimals d hwidth => encode_of_decode hwidth, decodeInSteps_eq⟩
  · rintro ⟨hlt, hplaces⟩
    have hlen := length_of_encode h
    obtain ⟨d, hd⟩ : ∃ d, decode bytes format = .ok d :=
      ⟨_, decode_of_fits hlen ⟨by rwa [bound_eq], hplaces⟩⟩
    obtain ⟨-, -, -, hreduced, hvalue⟩ := decode_eq_ok_iff.mp hd
    refine ⟨d, hd, fun d' => ⟨?_, ?_⟩, ?_⟩
    · rintro rfl
      exact ⟨hreduced, hvalue⟩
    · rintro ⟨hreduced', hvalue'⟩
      exact hreduced'.eq_of_toRat_eq hreduced (hvalue'.trans hvalue.symm)
    · rintro ⟨n, hn⟩
      rw [hvalue, toNat_of_encode hwidth h hn]
  · rw [← bound_eq] at hnot
    exact decode_of_not_fits (length_of_encode h) hnot

/-- 1.50 comes back as 1.5; ten to the power of 27 is written with 18 places, but not read. -/
theorem decode_inverts_encode_sample :
    let format : NumericFormat := ⟨18, 32⟩
    let short : Decimal := ⟨false, 150, 2, by decide, by decide⟩
    let long : Decimal := ⟨false, 10 ^ 27, 0, by decide, by decide⟩
    1 ≤ format.width ∧
      (∃ bytes d, encode short format = .ok bytes ∧ BigEndian.toNat bytes < 2 ^ 96 ∧
        decode bytes format = .ok d ∧ d = ⟨false, 15, 1, by decide, by decide⟩ ∧
        d.toRat = short.toRat) ∧
      (∃ bytes, encode long format = .ok bytes ∧ ¬ BigEndian.toNat bytes < 2 ^ 96 ∧
        decode bytes format = .error (.valueOverflow 32)) ∧
      ∃ d, 1 ≤ [(0 : UInt8), 42].length ∧ decode [0, 42] ⟨1, 2⟩ = .ok d ∧
        encode d ⟨1, 2⟩ = .ok [0, 42] := by
  intro format short long
  obtain ⟨hread, hwritten, -⟩ := decode_inverts_encode
  have hwidth : 1 ≤ format.width := by decide
  have hshort : encode short format = .ok (BigEndian.ofNat 32 (15 * 10 ^ 17)) := by decide +kernel
  have hlong : encode long format = .ok (BigEndian.ofNat 32 (10 ^ 45)) := by decide +kernel
  have hsmall : BigEndian.toNat (BigEndian.ofNat 32 (15 * 10 ^ 17)) = 15 * 10 ^ 17 := by
    decide +kernel
  have hlarge : BigEndian.toNat (BigEndian.ofNat 32 (10 ^ 45)) = 10 ^ 45 := by decide +kernel
  have hfits : BigEndian.toNat (BigEndian.ofNat 32 (15 * 10 ^ 17)) < 2 ^ 96 := by
    rw [hsmall]; decide
  have hover : ¬ BigEndian.toNat (BigEndian.ofNat 32 (10 ^ 45)) < 2 ^ 96 := by
    rw [hlarge]; decide
  obtain ⟨hok, -⟩ := hread short format _ hwidth hshort
  obtain ⟨-, herror⟩ := hread long format _ hwidth hlong
  obtain ⟨d, hd, honly, hsame⟩ := hok ⟨hfits, by decide⟩
  have hvalue : short.toRat = 3 / 2 := by
    norm_num [short, toRat, signed]
  refine ⟨hwidth, ⟨_, d, hshort, hfits, hd, ?_, ?_⟩,
    ⟨_, hlong, hover, herror fun h => hover h.1⟩, ?_⟩
  · refine ((honly _).mpr ⟨⟨by decide, by decide⟩, ?_⟩).symm
    rw [hsmall]
    norm_num [toRat, signed]
  · exact hsame ⟨15 * 10 ^ 17, by rw [hvalue]; norm_num⟩
  · have htwo : decode [0, 42] ⟨1, 2⟩ = .ok ⟨false, 42, 1, by decide, by decide⟩ := by
      decide +kernel
    exact ⟨_, by decide, htwo, hwritten [0, 42] 1 _ (by decide) htwo⟩

end Value
end SignedFeeds
