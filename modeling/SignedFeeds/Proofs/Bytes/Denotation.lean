/-
# Which texts denote a byte string

Digits of either case spell a byte string when, in lower case, they are the text that is written
for it (`Hex.Spells`); such texts are read, and no others (`Hex.decodeBytes_eq_ok_iff`).  A base64
text has no such freedom: the padding has to be there, and the bits that no byte takes have to be
zero.  So only the text that is written for a byte string is read as it
(`Base64.decode_eq_ok_iff`).

All digits, and both characters of the mark `0x`, are symbols of base64.  A text of symbols alone
is base64 as soon as it consists of whole groups (`Base64.exists_encode_of_symbols`), whatever
else it was meant to be.
-/
import Mathlib.Data.List.Basic
import SignedFeeds.Bytes.Hex
import SignedFeeds.Proofs.Bytes.Encodings
import SignedFeeds.Proofs.Bytes.Utf8
import SignedFeeds.Proofs.Fallible

namespace SignedFeeds

/-! ## Hexadecimal -/

namespace Hex

/-- In lower case the text is what is written for the bytes: two digits for each of them. -/
def Spells (text : String) (bs : List UInt8) : Prop := text.toLower = encode bs

instance (text : String) (bs : List UInt8) : Decidable (Spells text bs) :=
  inferInstanceAs (Decidable (text.toLower = encode bs))

/-- The same behind the mark `0x`. -/
def SpellsMarked (text : String) (bs : List UInt8) : Prop :=
  ∃ digits, text = "0x" ++ digits ∧ Spells digits bs

variable {text digits : String} {bytes bs : List UInt8}

lemma halves_cons (b : UInt8) (bs : List UInt8) :
    halves (b :: bs) = b.toNat / 16 :: b.toNat % 16 :: halves bs := rfl

lemma halves_lt : ∀ n ∈ halves bs, n < 16 := by
  intro n hn
  obtain ⟨b, -, hb⟩ := List.mem_flatMap.mp hn
  have hlt := b.toNat_lt
  simp only [List.mem_cons, List.not_mem_nil, or_false] at hb
  rcases hb with rfl | rfl <;> omega

lemma length_halves (bs : List UInt8) : (halves bs).length = 2 * bs.length := by
  induction bs with
  | nil => rfl
  | cons b bs ih =>
    rw [halves_cons, List.length_cons, List.length_cons, ih, List.length_cons]
    omega

lemma getElem?_halves (bs : List UInt8) (i : Nat) :
    (halves bs)[i]? =
      bs[i / 2]?.map fun b => if i % 2 = 0 then b.toNat / 16 else b.toNat % 16 := by
  induction bs generalizing i with
  | nil => rfl
  | cons b bs ih =>
    match i with
    | 0 => rfl
    | 1 => rfl
    | i + 2 =>
      have hhalf : (i + 2) / 2 = i / 2 + 1 := by omega
      have hparity : (i + 2) % 2 = i % 2 := by omega
      show (halves bs)[i]? = _
      rw [ih, hhalf, hparity, List.getElem?_cons_succ]

/-- The halves are the values of the digits that are written. -/
lemma encode_eq_ofList (bs : List UInt8) :
    encode bs = String.ofList ((halves bs).map Nat.digitChar) := by
  rw [encode, halves, List.map_flatMap]
  rfl

/-! ### Digits of either case -/

/-- A byte is read as a digit only if, in lower case, it is what that digit is written as. -/
lemma toLower_of_digitValue? {b : UInt8} {n : Nat} (h : digitValue? b = some n) :
    b.toNat < 128 ∧ n < 16 ∧ (Char.ofNat b.toNat).toLower = Nat.digitChar n := by
  have hall : ∀ m < 256, ∀ n ∈ digitValue? (UInt8.ofNat m),
      m < 128 ∧ n < 16 ∧ (Char.ofNat m).toLower = Nat.digitChar n := by
    decide +kernel
  refine hall b.toNat b.toNat_lt n ?_
  rw [UInt8.ofNat_toNat]
  exact h

lemma toNat_digitChar_lt : ∀ {n : Nat}, n < 16 → (Nat.digitChar n).toNat < 128 := by
  decide

/-- What is ASCII in lower case is ASCII. -/
lemma toNat_lt_of_toLower {c : Char} (h : c.toLower.toNat < 128) : c.toNat < 128 := by
  by_cases hupper : c.val ≥ 'A'.val ∧ c.val ≤ 'Z'.val
  · have hle : c.val.toNat ≤ 90 := hupper.2
    exact Nat.lt_of_le_of_lt hle (by decide)
  · have hlower : c.toLower = c := dif_neg hupper
    rwa [hlower] at h

lemma digitValue?_of_toLower {c : Char} {n : Nat} (hn : n < 16)
    (h : c.toLower = Nat.digitChar n) :
    c.toNat < 128 ∧ digitValue? (UInt8.ofNat c.toNat) = some n := by
  have hall : ∀ m < 128, ∀ n < 16, (Char.ofNat m).toLower = Nat.digitChar n →
      digitValue? (UInt8.ofNat m) = some n := by
    decide +kernel
  have hascii : c.toNat < 128 := toNat_lt_of_toLower (by rw [h]; exact toNat_digitChar_lt hn)
  refine ⟨hascii, hall c.toNat hascii n hn ?_⟩
  rw [Char.ofNat_toNat, h]

lemma map_digitValue?_of_map_toLower {cs : List Char} {ns : List Nat} (hns : ∀ n ∈ ns, n < 16)
    (h : cs.map Char.toLower = ns.map Nat.digitChar) :
    (∀ c ∈ cs, c.toNat < 128) ∧
      (cs.map fun c => digitValue? (UInt8.ofNat c.toNat)) = ns.map some := by
  induction ns generalizing cs with
  | nil =>
    obtain rfl := List.map_eq_nil_iff.mp h
    exact ⟨List.forall_mem_nil _, rfl⟩
  | cons n ns ih =>
    obtain ⟨c, rest, rfl, hc, hrest⟩ := List.map_eq_cons_iff.mp h
    obtain ⟨hn, hns⟩ := List.forall_mem_cons.mp hns
    obtain ⟨hascii, hvalue⟩ := digitValue?_of_toLower hn hc
    obtain ⟨hasciis, hvalues⟩ := ih hns hrest
    exact ⟨List.forall_mem_cons.mpr ⟨hascii, hasciis⟩, by simp only [List.map_cons, hvalue, hvalues]⟩

lemma map_toLower_of_map_digitValue? {ns : List Nat} (h : bytes.map digitValue? = ns.map some) :
    (∀ b ∈ bytes, b.toNat < 128) ∧
      (bytes.map fun b => (Char.ofNat b.toNat).toLower) = ns.map Nat.digitChar := by
  induction ns generalizing bytes with
  | nil =>
    obtain rfl := List.map_eq_nil_iff.mp h
    exact ⟨List.forall_mem_nil _, rfl⟩
  | cons n ns ih =>
    obtain ⟨b, rest, rfl, hb, hrest⟩ := List.map_eq_cons_iff.mp h
    obtain ⟨hascii, -, hlower⟩ := toLower_of_digitValue? hb
    obtain ⟨hasciis, hlowers⟩ := ih hrest
    exact ⟨List.forall_mem_cons.mpr ⟨hascii, hasciis⟩, by simp only [List.map_cons, hlower, hlowers]⟩

lemma toLower_ofList (cs : List Char) :
    (String.ofList cs).toLower = String.ofList (cs.map Char.toLower) := by
  show (String.ofList cs).map Char.toLower = _
  rw [String.map_eq_internal, String.toList_ofList]

/-- Writing uses lower case, so what is written spells the bytes. -/
lemma spells_encode (bs : List UInt8) : Spells (encode bs) bs := by
  have hlower : ∀ n < 16, (Nat.digitChar n).toLower = Nat.digitChar n := by decide
  rw [Spells, encode_eq_ofList, toLower_ofList, List.map_map]
  exact congrArg String.ofList (List.map_congr_left fun n hn => hlower n (halves_lt n hn))

/-- The values that are read off the bytes of a text are those of the bytes that it spells. -/
lemma spells_iff :
    Spells text bs ↔ (Text.toBytes text).map digitValue? = (halves bs).map some := by
  rw [Spells, encode_eq_ofList]
  constructor
  · intro h
    rw [← String.ofList_toList (s := text), toLower_ofList, String.ofList_inj] at h
    obtain ⟨hascii, hvalues⟩ := map_digitValue?_of_map_toLower halves_lt h
    have hbytes := Text.toBytes_ofList_ascii hascii
    rw [String.ofList_toList] at hbytes
    rw [hbytes, List.map_map, ← hvalues]
    rfl
  · intro h
    obtain ⟨hascii, hlower⟩ := map_toLower_of_map_digitValue? h
    have htext := Text.toBytes_inj.mp (Text.toBytes_ofList_map_ofNat hascii)
    rw [← htext, toLower_ofList, List.map_map, ← hlower]
    rfl

lemma Spells.length_eq (h : Spells text bs) : (Text.toBytes text).length = 2 * bs.length := by
  rw [← length_halves, ← List.length_map (f := digitValue?), spells_iff.mp h, List.length_map]

/-- Two digits are the halves of one byte. -/
lemma halves_ofNat {high low : Nat} (hhigh : high < 16) (hlow : low < 16) :
    halves (UInt8.ofNat (16 * high + low) :: bs) = high :: low :: halves bs := by
  have hbyte : (UInt8.ofNat (16 * high + low)).toNat = 16 * high + low := by
    rw [UInt8.toNat_ofNat']
    omega
  rw [halves_cons, hbyte, show (16 * high + low) / 16 = high by omega,
    show (16 * high + low) % 16 = low by omega]

lemma exists_halves {count : Nat} {ns : List Nat} (hlen : ns.length = 2 * count)
    (hlt : ∀ n ∈ ns, n < 16) : ∃ bs, bs.length = count ∧ halves bs = ns := by
  induction count generalizing ns with
  | zero => exact ⟨[], rfl, (List.length_eq_zero_iff.mp hlen).symm⟩
  | succ count ih =>
    match ns, hlen with
    | high :: low :: rest, hlen =>
      simp only [List.forall_mem_cons] at hlt
      simp only [List.length_cons] at hlen
      obtain ⟨bs, hcount, hbs⟩ := ih (by omega) hlt.2.2
      refine ⟨UInt8.ofNat (16 * high + low) :: bs, ?_, ?_⟩
      · rw [List.length_cons, hcount]
      · rw [halves_ofNat hlt.1 hlt.2.1, hbs]

/-- A character that is a hexadecimal digit, of either case. -/
def IsDigit (c : Char) : Prop := c.toLower ∈ "0123456789abcdef".toList

instance (c : Char) : Decidable (IsDigit c) :=
  inferInstanceAs (Decidable (c.toLower ∈ "0123456789abcdef".toList))

lemma isDigit_iff {c : Char} : IsDigit c ↔ ∃ n < 16, Nat.digitChar n = c.toLower := by
  have hdigits : "0123456789abcdef".toList = (List.range 16).map Nat.digitChar := by decide
  rw [IsDigit, hdigits, List.mem_map]
  simp only [List.mem_range]

/-- Two digits for each byte are all that it takes to spell a byte string. -/
lemma exists_spells_iff (count : Nat) :
    (∃ bs, bs.length = count ∧ Spells text bs) ↔
      text.length = 2 * count ∧ ∀ c ∈ text.toList, IsDigit c := by
  have hspells (bs : List UInt8) :
      Spells text bs ↔ text.toList.map Char.toLower = (halves bs).map Nat.digitChar := by
    rw [Spells, encode_eq_ofList, ← String.ofList_toList (s := text), toLower_ofList,
      String.ofList_inj, String.ofList_toList]
  simp only [hspells, isDigit_iff, ← String.length_toList]
  constructor
  · rintro ⟨bs, rfl, hlower⟩
    refine ⟨?_, fun c hc => ?_⟩
    · have hlen := congrArg List.length hlower
      rwa [List.length_map, List.length_map, length_halves] at hlen
    · have hmem : c.toLower ∈ (halves bs).map Nat.digitChar := by
        rw [← hlower]
        exact List.mem_map_of_mem hc
      obtain ⟨n, hn, hdigit⟩ := List.mem_map.mp hmem
      exact ⟨n, halves_lt n hn, hdigit⟩
  · rintro ⟨hlen, hall⟩
    choose! value hlt hdigit using hall
    have hvalues : (text.toList.map value).length = 2 * count := by rw [List.length_map, hlen]
    obtain ⟨bs, hcount, hbs⟩ := exists_halves hvalues (List.forall_mem_map.mpr hlt)
    refine ⟨bs, hcount, ?_⟩
    rw [hbs, List.map_map]
    exact (List.map_congr_left hdigit).symm

/-! ### Reading -/

lemma map_digitValue?_of_decodeFrom {index : Nat} (h : decodeFrom index bytes = .ok bs) :
    bytes.map digitValue? = (halves bs).map some := by
  induction index, bytes using decodeFrom.induct generalizing bs with
  | case1 index a b rest high low hb ha ih =>
    simp only [decodeFrom, ha, hb] at h
    cases hrest : decodeFrom (index + 2) rest with
    | error e =>
      rw [hrest] at h
      cases h
    | ok tail =>
      rw [hrest] at h
      obtain rfl := Except.ok.inj h
      rw [halves_ofNat (toLower_of_digitValue? ha).2.1 (toLower_of_digitValue? hb).2.1]
      simp only [List.map_cons, ha, hb, ih hrest]
  | case2 index a b rest ha =>
    simp only [decodeFrom, ha] at h
    cases h
  | case3 index a b rest high hb ha =>
    simp only [decodeFrom, ha, hb] at h
    cases h
  | case4 index a => cases h
  | case5 index =>
    obtain rfl := Except.ok.inj h
    rfl

lemma decodeFrom_of_map_digitValue? (index : Nat) (h : bytes.map digitValue? = (halves bs).map some) :
    decodeFrom index bytes = .ok bs := by
  induction bs generalizing index bytes with
  | nil =>
    obtain rfl := List.map_eq_nil_iff.mp h
    rfl
  | cons byte bs ih =>
    obtain ⟨a, _, rfl, ha, h⟩ := List.map_eq_cons_iff.mp h
    obtain ⟨b, rest, rfl, hb, hrest⟩ := List.map_eq_cons_iff.mp h
    have hbyte : 16 * (byte.toNat / 16) + byte.toNat % 16 = byte.toNat := Nat.div_add_mod _ _
    simp only [decodeFrom, ha, hb, ih (index + 2) hrest, hbyte, UInt8.ofNat_toNat]
    rfl

/-- Of an even number of bytes the first one that is no digit is reported. -/
lemma fault_of_decodeFrom {index : Nat} {e : HexError} (heven : bytes.length % 2 = 0)
    (h : decodeFrom index bytes = .error e) :
    ∃ front b back, bytes = front ++ b :: back ∧ (∀ a ∈ front, digitValue? a ≠ none) ∧
      digitValue? b = none ∧ e = .invalidDigit b (index + front.length) := by
  induction index, bytes using decodeFrom.induct with
  | case1 index a b rest high low hb ha ih =>
    simp only [decodeFrom, ha, hb] at h
    cases hrest : decodeFrom (index + 2) rest with
    | ok tail =>
      rw [hrest] at h
      cases h
    | error e' =>
      rw [hrest] at h
      obtain rfl := Except.error.inj h
      simp only [List.length_cons] at heven
      obtain ⟨front, c, back, rfl, hfront, hc, rfl⟩ := ih (by omega) hrest
      refine ⟨a :: b :: front, c, back, rfl, ?_, hc, ?_⟩
      · simp only [List.forall_mem_cons]
        exact ⟨by simp [ha], by simp [hb], hfront⟩
      · simp only [List.length_cons]
        congr 1
        omega
  | case2 index a b rest ha =>
    simp only [decodeFrom, ha] at h
    exact ⟨[], a, b :: rest, rfl, List.forall_mem_nil _, ha, (Except.error.inj h).symm⟩
  | case3 index a b rest high hb ha =>
    simp only [decodeFrom, ha, hb] at h
    exact ⟨[a], b, rest, rfl, by simp [ha], hb, (Except.error.inj h).symm⟩
  | case4 index a => simp at heven
  | case5 index => cases h

lemma fault_of_decodeBytes {e : HexError} (heven : bytes.length % 2 = 0)
    (h : decodeBytes bytes = .error e) :
    ∃ front b back, bytes = front ++ b :: back ∧ (∀ a ∈ front, digitValue? a ≠ none) ∧
      digitValue? b = none ∧ e = .invalidDigit b front.length := by
  rw [decodeBytes, if_neg (by omega)] at h
  obtain ⟨front, b, back, hsplit, hfront, hb, he⟩ := fault_of_decodeFrom heven h
  rw [Nat.zero_add] at he
  exact ⟨front, b, back, hsplit, hfront, hb, he⟩

/-- Bytes are read as a byte string exactly if they are those of a text that spells it. -/
lemma decodeBytes_eq_ok_iff :
    decodeBytes bytes = .ok bs ↔ ∃ digits, bytes = Text.toBytes digits ∧ Spells digits bs := by
  rw [decodeBytes]
  constructor
  · intro h
    split at h
    · cases h
    have hvalues := map_digitValue?_of_decodeFrom h
    have hbytes := Text.toBytes_ofList_map_ofNat (map_toLower_of_map_digitValue? hvalues).1
    refine ⟨_, hbytes.symm, spells_iff.mpr ?_⟩
    rw [hbytes, hvalues]
  · rintro ⟨digits, rfl, hspells⟩
    have hvalues := spells_iff.mp hspells
    rw [if_neg (by rw [hspells.length_eq]; omega),
      decodeFrom_of_map_digitValue? 0 (spells_iff.mp hspells)]

lemma toBytes_mark (digits : String) :
    Text.toBytes ("0x" ++ digits) = 0x30 :: 0x78 :: Text.toBytes digits := by
  rw [Text.toBytes_append]
  rfl

lemma stripMark?_eq_some_iff : stripMark? bytes = some bs ↔ bytes = 0x30 :: 0x78 :: bs := by
  constructor
  · intro h
    unfold stripMark? at h
    split at h
    · obtain rfl := Option.some.inj h
      rfl
    · cases h
  · rintro rfl
    rfl

/-- The mark is read off the texts that begin with it. -/
lemma stripMark?_toBytes_eq_some_iff :
    stripMark? (Text.toBytes text) = some bs ↔
      ∃ digits, text = "0x" ++ digits ∧ Text.toBytes digits = bs := by
  rw [stripMark?_eq_some_iff]
  constructor
  · intro h
    rw [Text.toBytes_eq_flatMap] at h
    obtain ⟨cs, hzero, hcs⟩ := Text.exists_cons_of_flatMap_utf8EncodeChar (by decide) h
    obtain ⟨ds, rfl, hds⟩ := Text.exists_cons_of_flatMap_utf8EncodeChar (by decide) hcs
    refine ⟨String.ofList ds, ?_, by rw [Text.toBytes_eq_flatMap, String.toList_ofList, hds]⟩
    rw [← String.toList_inj, hzero, String.toList_append]
    show _ = '0' :: 'x' :: (String.ofList ds).toList
    rw [String.toList_ofList]
    rfl
  · rintro ⟨digits, rfl, rfl⟩
    exact toBytes_mark digits

lemma spellsMarked_iff :
    SpellsMarked text bs ↔
      ∃ rest, stripMark? (Text.toBytes text) = some rest ∧ decodeBytes rest = .ok bs := by
  simp only [stripMark?_eq_some_iff, decodeBytes_eq_ok_iff]
  constructor
  · rintro ⟨digits, rfl, hspells⟩
    exact ⟨_, toBytes_mark digits, digits, rfl, hspells⟩
  · rintro ⟨_, hbytes, digits, rfl, hspells⟩
    exact ⟨digits, Text.toBytes_inj.mp (hbytes.trans (toBytes_mark digits).symm), hspells⟩

lemma SpellsMarked.length_eq (h : SpellsMarked text bs) :
    (Text.toBytes text).length = 2 * bs.length + 2 := by
  obtain ⟨digits, rfl, hspells⟩ := h
  rw [toBytes_mark, List.length_cons, List.length_cons, hspells.length_eq]

end Hex

/-! ## Base64 -/

namespace Base64

variable {text : String} {bytes bs : List UInt8} {start : Nat}

/-- A byte is read as a symbol only if it is the symbol of the number that is read. -/
lemma symbol_of_symbolValue? {b : UInt8} {n : Nat} (h : symbolValue? b = some n) :
    n < 64 ∧ symbol n = b := by
  have hall : ∀ m < 256, ∀ n ∈ symbolValue? (UInt8.ofNat m),
      n < 64 ∧ symbol n = UInt8.ofNat m := by
    decide +kernel
  have hbyte := hall b.toNat b.toNat_lt n
  rw [UInt8.ofNat_toNat] at hbyte
  exact hbyte h

/-! ### Whole groups -/

/-- Whole groups with no group among them are none. -/
lemma eq_nil_of_no_group {ns : List Nat} (hlen : ns.length % 4 = 0)
    (hnone : ∀ w x y z rest, ns ≠ w :: x :: y :: z :: rest) : ns = [] := by
  rcases ns with _ | ⟨w, _ | ⟨x, _ | ⟨y, _ | ⟨z, rest⟩⟩⟩⟩
  · rfl
  · exact absurd hlen (by simp)
  · exact absurd hlen (by simp)
  · exact absurd hlen (by simp)
  · exact absurd rfl (hnone w x y z rest)

/-- Symbols in whole groups are what the bytes that they denote are written as. -/
lemma encodeBytes_joinGroups_append {ns : List Nat} (hlen : ns.length % 4 = 0)
    (hlt : ∀ n ∈ ns, n < 64) (last : List UInt8) :
    encodeBytes (joinGroups ns ++ last) = ns.map symbol ++ encodeBytes last := by
  induction ns using joinGroups.induct with
  | case1 w x y z rest ih =>
    simp only [List.forall_mem_cons] at hlt
    obtain ⟨hw, hx, hy, hz, hrest⟩ := hlt
    have hrestLen : rest.length % 4 = 0 := by
      simp only [List.length_cons] at hlen
      omega
    obtain ⟨n, hn⟩ : ∃ n, n = 262144 * w + 4096 * x + 64 * y + z := ⟨_, rfl⟩
    -- the number of the group, put together again from the bytes that it is cut into
    have hjoined : 65536 * (UInt8.ofNat (n / 65536)).toNat + 256 * (UInt8.ofNat (n / 256)).toNat +
        (UInt8.ofNat n).toNat = n := by
      simp only [UInt8.toNat_ofNat']
      omega
    rw [joinGroups, ← hn]
    simp only [List.cons_append, encodeBytes, hjoined, ih hrestLen hrest, List.map_cons]
    rw [show n / 262144 = w by omega, show n / 4096 % 64 = x by omega,
      show n / 64 % 64 = y by omega, show n % 64 = z by omega]
  | case2 ns hshort =>
    -- no group is left
    obtain rfl := eq_nil_of_no_group hlen hshort
    rfl

lemma length_joinGroups {ns : List Nat} (hlen : ns.length % 4 = 0) :
    4 * (joinGroups ns).length = 3 * ns.length := by
  induction ns using joinGroups.induct with
  | case1 w x y z rest ih =>
    simp only [List.length_cons] at hlen
    have := ih (by omega)
    simp only [joinGroups, List.length_cons]
    omega
  | case2 ns hshort =>
    obtain rfl := eq_nil_of_no_group hlen hshort
    rfl

/-- A text of symbols in whole groups is a base64 text. -/
lemma exists_encode_of_symbols (hsymbols : ∀ b ∈ Text.toBytes text, ∃ n, symbolValue? b = some n)
    (hlen : (Text.toBytes text).length % 4 = 0) :
    ∃ bs, text = encode bs ∧ 4 * bs.length = 3 * (Text.toBytes text).length := by
  obtain ⟨ns, hns⟩ : ∃ ns, ns = (Text.toBytes text).map fun b => (symbolValue? b).getD 0 := ⟨_, rfl⟩
  have hnumber (b : UInt8) (hb : b ∈ Text.toBytes text) :
      (symbolValue? b).getD 0 < 64 ∧ symbol ((symbolValue? b).getD 0) = b := by
    obtain ⟨n, hn⟩ := hsymbols b hb
    rw [hn]
    exact symbol_of_symbolValue? hn
  have hsymbol : ns.map symbol = Text.toBytes text := by
    rw [hns, List.map_map]
    exact (List.map_congr_left fun b hb => (hnumber b hb).2).trans (List.map_id _)
  have hlt : ∀ n ∈ ns, n < 64 := by
    rw [hns]
    exact List.forall_mem_map.mpr fun b hb => (hnumber b hb).1
  have hlength : ns.length = (Text.toBytes text).length := by rw [hns, List.length_map]
  rw [← hlength] at hlen ⊢
  refine ⟨joinGroups ns, Text.toBytes_inj.mp ?_, length_joinGroups hlen⟩
  have hgroups := encodeBytes_joinGroups_append hlen hlt []
  rw [List.append_nil] at hgroups
  rw [toBytes_encode, hgroups, hsymbol]
  exact (List.append_nil _).symm

/-! ### The last group -/

lemma map_symbol_of_readSymbols {offset : Nat} {ns : List Nat}
    (h : readSymbols offset bytes = .ok ns) : ns.map symbol = bytes ∧ ∀ n ∈ ns, n < 64 := by
  induction offset, bytes using readSymbols.induct generalizing ns with
  | case1 offset =>
    obtain rfl := Except.ok.inj h
    exact ⟨rfl, List.forall_mem_nil _⟩
  | case2 offset b rest n hb ih =>
    simp only [readSymbols, hb] at h
    cases hrest : readSymbols (offset + 1) rest with
    | error e =>
      rw [hrest] at h
      cases h
    | ok tail =>
      rw [hrest] at h
      obtain rfl := Except.ok.inj h
      obtain ⟨hn, hsymbol⟩ := symbol_of_symbolValue? hb
      obtain ⟨htail, hlt⟩ := ih hrest
      exact ⟨by rw [List.map_cons, hsymbol, htail], List.forall_mem_cons.mpr ⟨hn, hlt⟩⟩
  | case3 offset b rest hb =>
    simp only [readSymbols, hb] at h
    cases h

/-- What is read of a last group are symbols and, behind them, padding. -/
lemma exists_of_readLast {position : Nat} {group group' : LastGroup}
    (h : readLast start position group bytes = .ok group') :
    ∃ ns pads, bytes = ns.map symbol ++ List.replicate pads padding ∧ (∀ n ∈ ns, n < 64) ∧
      group' = ⟨group.symbols ++ ns, group.pads + pads⟩ ∧ (0 < group.pads → ns = []) := by
  induction position, group, bytes using readLast.induct with
  | case1 position group =>
    obtain rfl := Except.ok.inj h
    exact ⟨[], 0, rfl, List.forall_mem_nil _, by simp, fun _ => rfl⟩
  | case2 position group rest hearly =>
    rw [readLast, if_pos rfl, if_pos hearly] at h
    cases h
  | case3 position group rest hlate ih =>
    rw [readLast, if_pos rfl, if_neg hlate] at h
    obtain ⟨ns, pads, rfl, -, rfl, hnone⟩ := ih h
    -- behind padding there is nothing but padding
    obtain rfl := hnone (Nat.succ_pos _)
    refine ⟨[], pads + 1, rfl, List.forall_mem_nil _, ?_, fun _ => rfl⟩
    simp only [Nat.add_assoc, Nat.add_comm 1 pads]
  | case4 position group b rest hb hpads =>
    rw [readLast, if_neg hb, if_pos hpads] at h
    cases h
  | case5 position group b rest hb hpads n hn ih =>
    rw [readLast, if_neg hb, if_neg hpads, hn] at h
    obtain ⟨hlt, hsymbol⟩ := symbol_of_symbolValue? hn
    obtain ⟨ns, pads, rfl, hns, rfl, -⟩ := ih h
    refine ⟨n :: ns, pads, by rw [List.map_cons, hsymbol, List.cons_append],
      List.forall_mem_cons.mpr ⟨hlt, hns⟩, ?_, fun hpos => absurd hpos hpads⟩
    simp only [List.append_assoc, List.singleton_append]
  | case6 position group b rest hb hpads hnone =>
    rw [readLast, if_neg hb, if_neg hpads, hnone] at h
    cases h

/-- Two symbols are those of one byte if the four bits that are left over are zero. -/
lemma encodeBytes_of_two {w x : Nat} (hw : w < 64) (hx : x < 64) (hunused : x % 16 = 0) :
    encodeBytes ((joinGroups [w, x, 0, 0]).take 1) =
      [symbol w, symbol x, padding, padding] := by
  have hbyte : 16 * (UInt8.ofNat ((262144 * w + 4096 * x + 64 * 0 + 0) / 65536)).toNat =
      64 * w + x := by
    rw [UInt8.toNat_ofNat']
    omega
  simp only [joinGroups, List.take_succ_cons, List.take_zero, encodeBytes, hbyte]
  rw [show (64 * w + x) / 64 = w by omega, show (64 * w + x) % 64 = x by omega]

/-- Three symbols are those of two bytes if the two bits that are left over are zero. -/
lemma encodeBytes_of_three {w x y : Nat} (hw : w < 64) (hx : x < 64) (hy : y < 64)
    (hunused : y % 4 = 0) :
    encodeBytes ((joinGroups [w, x, y, 0]).take 2) =
      [symbol w, symbol x, symbol y, padding] := by
  obtain ⟨n, hn⟩ : ∃ n, n = 262144 * w + 4096 * x + 64 * y + 0 := ⟨_, rfl⟩
  have hbytes : 1024 * (UInt8.ofNat (n / 65536)).toNat + 4 * (UInt8.ofNat (n / 256)).toNat =
      4096 * w + 64 * x + y := by
    simp only [UInt8.toNat_ofNat']
    omega
  simp only [joinGroups, ← hn, List.take_succ_cons, List.take_zero, encodeBytes, hbytes]
  rw [show (4096 * w + 64 * x + y) / 4096 = w by omega,
    show (4096 * w + 64 * x + y) / 64 % 64 = x by omega,
    show (4096 * w + 64 * x + y) % 64 = y by omega]

/-- A last group has the symbols and the padding that its bytes are written with. -/
lemma encodeBytes_of_joinLast {group : LastGroup} {last : List UInt8}
    (h : joinLast start bytes group = .ok last) (hlt : ∀ n ∈ group.symbols, n < 64)
    (hle : group.symbols.length + group.pads ≤ 4) :
    encodeBytes last = group.symbols.map symbol ++ List.replicate group.pads padding := by
  obtain ⟨symbols, pads⟩ := group
  rw [joinLast] at h
  split_ifs at h with hfew hpadding
  have hcases : symbols.length = 2 ∧ pads = 2 ∨ symbols.length = 3 ∧ pads = 1 ∨
      symbols.length = 4 ∧ pads = 0 := by
    dsimp only at hle hfew hpadding
    omega
  rcases hcases with ⟨hlen, rfl⟩ | ⟨hlen, rfl⟩ | ⟨hlen, rfl⟩
  · obtain ⟨w, x, rfl⟩ := List.length_eq_two.mp hlen
    simp only [List.forall_mem_cons] at hlt
    dsimp only at h
    split_ifs at h with hunused
    obtain rfl := Except.ok.inj h
    exact encodeBytes_of_two hlt.1 hlt.2.1 (not_not.mp hunused)
  · obtain ⟨w, x, y, rfl⟩ := List.length_eq_three.mp hlen
    simp only [List.forall_mem_cons] at hlt
    dsimp only at h
    split_ifs at h with hunused
    obtain rfl := Except.ok.inj h
    exact encodeBytes_of_three hlt.1 hlt.2.1 hlt.2.2.1 (not_not.mp hunused)
  · -- nothing is left over of a group that is full
    have hfull : joinGroups symbols = last := by
      obtain ⟨w, ns, rfl⟩ := List.exists_of_length_succ symbols hlen
      obtain ⟨x, y, z, rfl⟩ := List.length_eq_three.mp (Nat.succ.inj hlen)
      exact Except.ok.inj h
    have hwhole : symbols.length % 4 = 0 := by rw [hlen]
    have hgroups := encodeBytes_joinGroups_append hwhole hlt []
    rw [List.append_nil, hfull] at hgroups
    exact hgroups

/-! ### The whole text -/

/-- A text that is read is read in two parts. -/
lemma exists_parts_of_decodeBytes {start : Nat} (h : decodeBytes bytes = .ok bs)
    (hne : bytes.length ≠ 0) (hstart : start = (bytes.length - 1) / 4 * 4) :
    ∃ ns group last, readSymbols 0 (bytes.take start) = .ok ns ∧
      readLast start 0 ⟨[], 0⟩ (bytes.drop start) = .ok group ∧
      joinLast start (bytes.drop start) group = .ok last ∧ bs = joinGroups ns ++ last := by
  rw [decodeBytes] at h
  split_ifs at h
  dsimp only at h
  rw [← hstart] at h
  cases hfront : readSymbols 0 (bytes.take start) with
  | error e =>
    rw [hfront] at h
    cases h
  | ok ns =>
  cases hback : readLast start 0 ⟨[], 0⟩ (bytes.drop start) with
  | error e =>
    rw [hfront, hback] at h
    cases h
  | ok group =>
    simp only [hfront, hback] at h
    obtain ⟨last, hlast, rfl⟩ := Fallible.map_eq_ok_iff.mp h
    exact ⟨ns, group, last, rfl, rfl, hlast, rfl⟩

/-- What is read is the text that is written for the bytes. -/
lemma encodeBytes_of_decodeBytes (h : decodeBytes bytes = .ok bs) : encodeBytes bs = bytes := by
  by_cases hempty : bytes.length = 0
  · obtain rfl := List.length_eq_zero_iff.mp hempty
    obtain rfl := Except.ok.inj h
    rfl
  obtain ⟨start, hstart⟩ : ∃ start, start = (bytes.length - 1) / 4 * 4 := ⟨_, rfl⟩
  obtain ⟨ns, group, last, hfront, hback, hjoin, rfl⟩ :=
    exists_parts_of_decodeBytes h hempty hstart
  obtain ⟨htake, hlt⟩ := map_symbol_of_readSymbols hfront
  obtain ⟨symbols, pads, hdrop, hsymbols, rfl, -⟩ := exists_of_readLast hback
  rw [List.nil_append, Nat.zero_add] at hjoin
  -- the last group has at most four characters, and the groups before it are whole
  have hwhole : ns.length = start := by
    rw [← List.length_map (f := symbol), htake, List.length_take]
    omega
  have hle : symbols.length + pads ≤ 4 := by
    have hlen := congrArg List.length hdrop
    rw [List.length_drop, List.length_append, List.length_map, List.length_replicate] at hlen
    omega
  calc
    encodeBytes (joinGroups ns ++ last) = ns.map symbol ++ encodeBytes last :=
      encodeBytes_joinGroups_append (by omega) hlt last
    _ = bytes.take start ++ bytes.drop start := by
      rw [htake, encodeBytes_of_joinLast hjoin hsymbols hle, hdrop]
    _ = bytes := List.take_append_drop start bytes

/-- A text is read as a byte string exactly if it is the one that is written for it. -/
lemma decode_eq_ok_iff : decode text = .ok bs ↔ text = encode bs := by
  constructor
  · intro h
    exact Text.toBytes_inj.mp ((encodeBytes_of_decodeBytes h).symm.trans (toBytes_encode bs).symm)
  · rintro rfl
    exact decode_encode bs

lemma length_encodeBytes (bs : List UInt8) :
    (encodeBytes bs).length = 4 * ((bs.length + 2) / 3) := by
  induction bs using encodeBytes.induct with
  | case1 a b c rest ih =>
    simp only [encodeBytes, List.length_cons, ih]
    omega
  | case2 a b => simp only [encodeBytes, List.length_cons, List.length_nil]
  | case3 a => simp only [encodeBytes, List.length_cons, List.length_nil]
  | case4 => rfl

/-! ### Marked digits as base64 -/

lemma exists_symbolValue?_of_digitValue? {b : UInt8} {n : Nat} (h : Hex.digitValue? b = some n) :
    ∃ m, symbolValue? b = some m := by
  have hall : ∀ m < 256, (Hex.digitValue? (UInt8.ofNat m)).isSome →
      (symbolValue? (UInt8.ofNat m)).isSome := by
    decide +kernel
  refine Option.isSome_iff_exists.mp ?_
  rw [← UInt8.ofNat_toNat (x := b)]
  refine hall b.toNat b.toNat_lt ?_
  rw [UInt8.ofNat_toNat, h]
  rfl

/-- Behind the mark, the digits of an odd number of bytes are whole groups of symbols. -/
lemma exists_encode_of_spellsMarked (h : Hex.SpellsMarked text bs) (hodd : bs.length % 2 = 1) :
    ∃ other, text = encode other ∧ 2 * other.length = 3 * (bs.length + 1) := by
  have hlen := h.length_eq
  obtain ⟨digits, rfl, hspells⟩ := h
  have hsymbols : ∀ b ∈ Text.toBytes ("0x" ++ digits), ∃ n, symbolValue? b = some n := by
    rw [Hex.toBytes_mark]
    refine List.forall_mem_cons.mpr ⟨⟨52, rfl⟩, List.forall_mem_cons.mpr ⟨⟨49, rfl⟩, ?_⟩⟩
    intro b hb
    obtain ⟨n, -, hn⟩ : ∃ n ∈ Hex.halves bs, some n = Hex.digitValue? b :=
      List.mem_map.mp (Hex.spells_iff.mp hspells ▸ List.mem_map_of_mem hb)
    exact exists_symbolValue?_of_digitValue? hn.symm
  obtain ⟨other, hother, hcount⟩ := exists_encode_of_symbols hsymbols (by omega)
  exact ⟨other, hother, by omega⟩

lemma odd_length_of_spellsMarked_encode {other : List UInt8} (h : Hex.SpellsMarked (encode other) bs) :
    bs.length % 2 = 1 := by
  have hlen := h.length_eq
  rw [toBytes_encode, length_encodeBytes] at hlen
  omega

end Base64
end SignedFeeds
