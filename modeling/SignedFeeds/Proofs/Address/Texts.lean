/-
# The texts of an address

An address is written in lower case, or with some letters in upper case as a checksum.  Which ones
depends on a hash, digit by digit (`Address.checksumBy`), but whatever the hash is, only the case of
letters depends on it (`Address.toLower_checksumBy`).

A text is read as an address if it is 40 hexadecimal digits, of either case, behind at most one mark
`0x`.  In lower case and without the mark they are the digits of the address
(`Address.ofText_eq_ok_iff`), so a text names at most one address, and both forms that are written
name the address that they are written for.
-/
import SignedFeeds.Address
import SignedFeeds.Proofs.Bytes.Denotation
import SignedFeeds.Proofs.Package.Decoding

namespace SignedFeeds

/-- The text behind the mark `0x`, if it begins with one. -/
def Hex.unmarked (text : String) : String :=
  match text.toList with
  | '0' :: 'x' :: rest => String.ofList rest
  | _ => text

namespace Hex

variable {text : String} {bs : List UInt8}

lemma unmarked_mark (digits : String) : unmarked ("0x" ++ digits) = digits := by
  have hlist : ("0x" ++ digits).toList = '0' :: 'x' :: digits.toList := by
    rw [String.toList_append]
    rfl
  rw [unmarked, hlist]
  exact String.ofList_toList

/-- A text that does not begin with the mark is read as it is. -/
lemma unmarked_of_stripMark?_eq_none (h : stripMark? (Text.toBytes text) = none) :
    unmarked text = text := by
  rw [unmarked]
  split
  · next rest hlist =>
    have htext : text = "0x" ++ String.ofList rest := by
      rw [← String.toList_inj, hlist, String.toList_append]
      show _ = '0' :: 'x' :: (String.ofList rest).toList
      rw [String.toList_ofList]
    rw [htext, toBytes_mark] at h
    cases h
  · rfl

lemma decodeMarked_eq (text : String) : decodeMarked text = decode (unmarked text) := by
  rw [decodeMarked, decode]
  cases hmark : stripMark? (Text.toBytes text) with
  | none => simp only [Option.getD_none, unmarked_of_stripMark?_eq_none hmark]
  | some rest =>
    obtain ⟨digits, rfl, rfl⟩ := stripMark?_toBytes_eq_some_iff.mp hmark
    simp only [Option.getD_some, unmarked_mark]

lemma decode_eq_ok_iff : decode text = .ok bs ↔ Spells text bs := by
  rw [decode, decodeBytes_eq_ok_iff]
  constructor
  · rintro ⟨digits, hbytes, hspells⟩
    rwa [Text.toBytes_inj.mp hbytes]
  · intro h
    exact ⟨text, rfl, h⟩

lemma Spells.unique {bs' : List UInt8} (h : Spells text bs) (h' : Spells text bs') : bs = bs' := by
  have hsame := (decode_eq_ok_iff.mpr h).symm.trans (decode_eq_ok_iff.mpr h')
  exact Except.ok.inj hsame

lemma toLower_mark (digits : String) : ("0x" ++ digits).toLower = "0x" ++ digits.toLower := by
  have hlist (text : String) : text.toLower.toList = text.toList.map Char.toLower := by
    conv_lhs => rw [← String.ofList_toList (s := text), toLower_ofList, String.toList_ofList]
  rw [← String.toList_inj, hlist, String.toList_append, String.toList_append, hlist,
    List.map_append]
  rfl

end Hex

namespace Address

variable {a b : Address} {text : String} {hash : Digest} {digits : List Char}

/-! ## The checksum -/

/-- Half a byte of the hash, high half first. -/
def halfByte (hash : Digest) (i : ℕ) : UInt8 :=
  (hash.bytes.getD (i / 2) 0 >>> (if i % 2 = 0 then 4 else 0)) &&& 0x0f

/-- The digits, each letter in upper case if its half of a byte is at least 8, behind `0x`. -/
def checksumBy (a : Address) (hash : Digest) : String :=
  "0x" ++ String.ofList (a.toHex.toList.mapIdx fun i c =>
    if c.isAlpha ∧ 8 ≤ halfByte hash i then c.toUpper else c)

/-- The halves of a byte by shifting and by dividing. -/
lemma toNat_half (b : UInt8) (i : ℕ) :
    ((b >>> (if i % 2 = 0 then 4 else 0)) &&& 0x0f).toNat =
      if i % 2 = 0 then b.toNat / 16 else b.toNat % 16 := by
  have hlow (n : ℕ) : n &&& 15 = n % 16 := Nat.and_two_pow_sub_one_eq_mod n 4
  have hb := b.toNat_lt
  split_ifs
  · rw [UInt8.toNat_and, UInt8.toNat_shiftRight]
    show b.toNat >>> 4 &&& 15 = _
    rw [hlow, Nat.shiftRight_eq_div_pow]
    omega
  · rw [UInt8.toNat_and, UInt8.toNat_shiftRight]
    exact hlow b.toNat

lemma getElem?_halves_hash (hash : Digest) {i : ℕ} (h : i < 64) :
    (Hex.halves hash.bytes)[i]? = some (halfByte hash i).toNat := by
  have hbyte : i / 2 < hash.bytes.length := by
    rw [hash.length_bytes]
    omega
  rw [Hex.getElem?_halves, halfByte, List.getD_eq_getElem?_getD, List.getElem?_eq_getElem hbyte,
    Option.map_some, Option.getD_some, toNat_half]

/-- Only letters have an upper case. -/
lemma raise_eq (c : Char) (half : UInt8) :
    raise c half.toNat = if c.isAlpha ∧ 8 ≤ half then c.toUpper else c := by
  have hhalf : 8 ≤ half ↔ 8 ≤ half.toNat := UInt8.le_iff_toNat_le
  by_cases halpha : c.isAlpha
  · simp only [raise, hhalf, halpha, true_and]
  · have hupper : c.toUpper = c := dif_neg fun hlower => halpha <| by
      have hislower : c.isLower :=
        Bool.and_eq_true_iff.mpr ⟨decide_eq_true hlower.1, decide_eq_true hlower.2⟩
      exact Bool.or_eq_true_iff.mpr (.inr hislower)
    simp only [raise, hupper, ite_self]

lemma toList_toHex (a : Address) : a.toHex.toList = (Hex.halves a.bytes).map Nat.digitChar := by
  rw [Block.toHex, Hex.encode_eq_ofList, String.toList_ofList]

lemma length_toHex (a : Address) : a.toHex.toList.length = 40 := by
  rw [toList_toHex, List.length_map, Hex.length_halves, a.length_bytes]

/-- The checksum is the one that is chosen by the hash of the digits in lower case. -/
lemma checksum_eq_checksumBy (a : Address) :
    a.checksum = a.checksumBy (Keccak.hash (Text.toBytes a.toHex)) := by
  have hdigits : a.toHex.toList = a.bytes.flatMap Hex.pair := String.toList_ofList
  have hlen := a.length_toHex
  rw [checksum, checksumBy, hdigits] at *
  refine congrArg (fun cs => "0x" ++ String.ofList cs) (List.mapIdx_eq_iff.mpr fun i => ?_).symm
  rw [List.getElem?_zipWith]
  by_cases hi : i < 40
  · have hdigit := List.getElem?_eq_getElem (Nat.lt_of_lt_of_eq hi hlen.symm)
    rw [hdigit, getElem?_halves_hash _ (by omega)]
    exact congrArg some (raise_eq _ _)
  · rw [List.getElem?_eq_none (by omega)]
    rfl

/-- Whatever letters are in upper case, in lower case they are what they were. -/
lemma map_toLower_mapIdx (a : Address) (up : ℕ → Char → Prop) [∀ i c, Decidable (up i c)] :
    (a.toHex.toList.mapIdx fun i c => if up i c then c.toUpper else c).map Char.toLower =
      a.toHex.toList := by
  have hlower : ∀ n < 16, (Nat.digitChar n).toLower = Nat.digitChar n ∧
      (Nat.digitChar n).toUpper.toLower = Nat.digitChar n := by decide
  refine List.ext_getElem? fun i => ?_
  rw [List.getElem?_map, List.getElem?_mapIdx]
  cases hdigit : a.toHex.toList[i]? with
  | none => rfl
  | some c =>
    have hc := List.mem_of_getElem? hdigit
    rw [toList_toHex] at hc
    obtain ⟨n, hn, rfl⟩ := List.mem_map.mp hc
    obtain ⟨hsame, hagain⟩ := hlower n (Hex.halves_lt n hn)
    refine congrArg some ?_
    show (if up i n.digitChar then n.digitChar.toUpper else n.digitChar).toLower = n.digitChar
    split_ifs
    · exact hagain
    · exact hsame

lemma spells_checksumBy (a : Address) (hash : Digest) :
    Hex.Spells (Hex.unmarked (a.checksumBy hash)) a.bytes := by
  rw [checksumBy, Hex.unmarked_mark, Hex.Spells, Hex.toLower_ofList, map_toLower_mapIdx]
  exact String.ofList_toList

lemma toLower_checksumBy (a : Address) (hash : Digest) : (a.checksumBy hash).toLower = a.lower := by
  rw [checksumBy, Hex.toLower_mark, Hex.toLower_ofList, map_toLower_mapIdx, String.ofList_toList,
    lower]

/-! ## Reading -/

lemma ofText_eq_ok_iff : ofText text = .ok a ↔ Hex.Spells (Hex.unmarked text) a.bytes := by
  rw [ofText, Hex.decodeMarked_eq, ← Hex.decode_eq_ok_iff]
  cases Hex.decode (Hex.unmarked text) with
  | error e => exact iff_of_false (by rintro ⟨⟩) (by rintro ⟨⟩)
  | ok bytes =>
    rw [Fallible.map_eq_ok_iff]
    constructor
    · rintro ⟨block, hblock, rfl⟩
      exact congrArg Except.ok (Block.ofField_eq_ok_iff.mp hblock)
    · intro h
      exact ⟨a.toBlock, Block.ofField_eq_ok_iff.mpr (Except.ok.inj h), rfl⟩

lemma ofText_checksumBy (a : Address) (hash : Digest) : ofText (a.checksumBy hash) = .ok a :=
  ofText_eq_ok_iff.mpr (spells_checksumBy a hash)

lemma ofText_lower (a : Address) : ofText a.lower = .ok a := by
  rw [ofText_eq_ok_iff, lower, Hex.unmarked_mark]
  exact Hex.spells_encode a.bytes

/-- The texts of addresses are the texts of 40 digits. -/
lemma exists_ofText_iff :
    (∃ a, ofText text = .ok a) ↔
      (Hex.unmarked text).length = 40 ∧ ∀ c ∈ (Hex.unmarked text).toList, Hex.IsDigit c := by
  rw [← Hex.exists_spells_iff 20]
  constructor
  · rintro ⟨a, h⟩
    exact ⟨a.bytes, a.length_bytes, ofText_eq_ok_iff.mp h⟩
  · rintro ⟨bs, hlen, h⟩
    exact ⟨⟨⟨bs, hlen⟩⟩, ofText_eq_ok_iff.mpr h⟩

/-- Accepted texts name one address exactly if they are the same in lower case and without the
mark. -/
lemma eq_iff_toLower_eq {other : String} (ha : ofText text = .ok a) (hb : ofText other = .ok b) :
    a = b ↔ (Hex.unmarked text).toLower = (Hex.unmarked other).toLower := by
  have ha := ofText_eq_ok_iff.mp ha
  have hb := ofText_eq_ok_iff.mp hb
  constructor
  · rintro rfl
    exact Eq.trans ha (Eq.symm hb)
  · intro h
    have hb' : Hex.Spells (Hex.unmarked text) b.bytes := Eq.trans h hb
    exact Address.ext (ha.unique hb')

/-- **The texts of an address name it and no other.**  Both texts that are written for an address
are read as it.  The checksum takes its letters from the hash of the digits in lower case; whatever
that hash is, the text is the one in lower case but for the case of letters, and is read as the
address.  A text is read as an address exactly if, without one leading `0x`, it is 40 hexadecimal
digits of either case, which in lower case are those of the address; so two texts that are read name
one address exactly if they differ at most in the case of letters and in the mark. -/
theorem texts_name_one_address :
    (∀ a : Address, ofText a.checksum = .ok a ∧ ofText a.lower = .ok a) ∧
    (∀ a : Address, a.checksum = a.checksumBy (Keccak.hash (Text.toBytes a.toHex)) ∧
      ∀ hash : Digest, (a.checksumBy hash).toLower = a.lower ∧
        ofText (a.checksumBy hash) = .ok a) ∧
    (∀ text, (∃ a, ofText text = .ok a) ↔
      (Hex.unmarked text).length = 40 ∧ ∀ c ∈ (Hex.unmarked text).toList, Hex.IsDigit c) ∧
    (∀ text a, ofText text = .ok a ↔ (Hex.unmarked text).toLower = a.toHex) ∧
    ∀ text other a b, ofText text = .ok a → ofText other = .ok b →
      (a = b ↔ (Hex.unmarked text).toLower = (Hex.unmarked other).toLower) := by
  refine ⟨fun a => ⟨?_, ofText_lower a⟩, fun a => ⟨checksum_eq_checksumBy a, fun hash =>
    ⟨toLower_checksumBy a hash, ofText_checksumBy a hash⟩⟩, fun text => exists_ofText_iff,
    fun text a => ofText_eq_ok_iff, fun text other a b => eq_iff_toLower_eq⟩
  rw [checksum_eq_checksumBy]
  exact ofText_checksumBy a _

/-- A checksum behind the mark, and the same digits in upper case without it. -/
theorem texts_name_one_address_sample :
    let a : Address := ⟨⟨[0xf3, 0x9f, 0xd6, 0xe5, 0x1a, 0xad, 0x88, 0xf6, 0xf4, 0xce, 0x6a, 0xb8,
      0x82, 0x72, 0x79, 0xcf, 0xff, 0xb9, 0x22, 0x66], rfl⟩⟩
    let marked := "0xf39Fd6e51aad88F6F4ce6aB8827279cffFb92266"
    let plain := "F39FD6E51AAD88F6F4CE6AB8827279CFFFB92266"
    a.checksum = marked ∧ ofText marked = .ok a ∧ ofText plain = .ok a ∧
      (Hex.unmarked plain).length = 40 ∧
      (Hex.unmarked marked).toLower = (Hex.unmarked plain).toLower := by
  intro a marked plain
  obtain ⟨-, -, hdigits, hspells, hsame⟩ := texts_name_one_address
  have hmarked : ofText marked = .ok a := (hspells marked a).mpr (by decide +kernel)
  have hplain : ofText plain = .ok a := (hspells plain a).mpr (by decide +kernel)
  exact ⟨by decide +kernel, hmarked, hplain, ((hdigits plain).mp ⟨a, hplain⟩).1,
    (hsame marked plain a a hmarked hplain).mp rfl⟩

end Address
end SignedFeeds
