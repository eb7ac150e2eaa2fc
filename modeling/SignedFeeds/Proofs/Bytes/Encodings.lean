/-
# Byte strings as base64 text, and back

Base64 text is ASCII, so reading sees one byte for each character.  A text denotes the byte
string that it was written for: its last group is read apart from the groups in front of it,
and `Base64.exists_groups` cuts a byte string and its text at that place.
-/
import Mathlib.Tactic.Common
import SignedFeeds.Bytes.Base64

namespace SignedFeeds

lemma Text.toBytes_ofList_ascii {cs : List Char} (h : ∀ c ∈ cs, c.toNat < 128) :
    Text.toBytes (String.ofList cs) = cs.map fun c => UInt8.ofNat c.toNat := by
  have hencode : cs.flatMap String.utf8EncodeChar = cs.map fun c => UInt8.ofNat c.toNat := by
    induction cs with
    | nil => rfl
    | cons c rest ih =>
      have hc := h c List.mem_cons_self
      have hsingle : String.utf8EncodeChar c = [UInt8.ofNat c.toNat] := by
        rw [String.utf8EncodeChar.eq_1]
        exact if_pos (Nat.le_of_lt_succ hc)
      rw [List.flatMap_cons, List.map_cons, hsingle, ih fun d hd => h d (List.mem_cons_of_mem c hd)]
      rfl
  rw [← hencode, toBytes, String.toUTF8, String.toByteArray_ofList, List.utf8Encode.eq_1]
  simp

/-- Bytes below 128 are the bytes of a text, with one character each. -/
lemma Text.toBytes_ofList_map_ofNat {bytes : List UInt8} (h : ∀ b ∈ bytes, b.toNat < 128) :
    toBytes (String.ofList (bytes.map fun b => Char.ofNat b.toNat)) = bytes := by
  have hcode (b : UInt8) (hb : b ∈ bytes) : (Char.ofNat b.toNat).toNat = b.toNat := by
    have hlt := h b hb
    have hvalid : b.toNat.isValidChar := .inl (by omega)
    rw [Char.ofNat, dif_pos hvalid]
    rfl
  rw [toBytes_ofList_ascii, List.map_map]
  · refine (List.map_congr_left fun b hb => ?_).trans (List.map_id _)
    rw [Function.comp_apply, hcode b hb, UInt8.ofNat_toNat, id]
  · refine List.forall_mem_map.mpr fun b hb => ?_
    rw [hcode b hb]
    exact h b hb

lemma Text.toBytes_append (s t : String) : toBytes (s ++ t) = toBytes s ++ toBytes t := by
  simp [toBytes, String.toUTF8]

/-! ## Base64 -/

namespace Base64

lemma symbolValue?_symbol : ∀ {n : Nat}, n < 64 → symbolValue? (symbol n) = some n := by
  decide

lemma symbol_ne_padding : ∀ {n : Nat}, n < 64 → symbol n ≠ padding := by
  decide

lemma symbol_lt : ∀ {n : Nat}, n < 64 → (symbol n).toNat < 128 := by
  decide

/-- Four symbols denote three bytes when both spell one number. -/
lemma joinGroups_cons {w x y z : Nat} {a b c : UInt8} (rest : List Nat)
    (h : 262144 * w + 4096 * x + 64 * y + z = 65536 * a.toNat + 256 * b.toNat + c.toNat) :
    joinGroups (w :: x :: y :: z :: rest) = a :: b :: c :: joinGroups rest := by
  obtain ⟨n, hn⟩ : ∃ n, n = 65536 * a.toNat + 256 * b.toNat + c.toNat := ⟨_, rfl⟩
  have hb := b.toNat_lt
  have hc := c.toNat_lt
  have hfirst : UInt8.ofNat (n / 65536) = a := by
    have h : n / 65536 = a.toNat := by omega
    rw [h, UInt8.ofNat_toNat]
  have hsecond : UInt8.ofNat (n / 256) = b := by
    have h : n / 256 % 256 = b.toNat := by omega
    rw [← UInt8.toNat_inj, UInt8.toNat_ofNat', h]
  have hthird : UInt8.ofNat n = c := by
    have h : n % 256 = c.toNat := by omega
    rw [← UInt8.toNat_inj, UInt8.toNat_ofNat', h]
  rw [joinGroups, h, ← hn]
  simp only [hfirst, hsecond, hthird]

/-- Whole groups of three bytes, and a last group that is not empty, are written apart. -/
lemma exists_groups {bs : List UInt8} (h : bs ≠ []) :
    ∃ ns last, bs = joinGroups ns ++ last ∧ encodeBytes bs = ns.map symbol ++ encodeBytes last ∧
      ns.length % 4 = 0 ∧ (∀ n ∈ ns, n < 64) ∧ 0 < last.length ∧ last.length ≤ 3 := by
  induction bs using encodeBytes.induct with
  | case1 a b c rest ih =>
    -- three bytes are the last group if nothing follows them
    by_cases hrest : rest = []
    · subst hrest
      exact ⟨[], [a, b, c], rfl, rfl, rfl, List.forall_mem_nil _, by simp, by simp⟩
    obtain ⟨ns, last, hjoin, hencode, hlen, hlt, hlast⟩ := ih hrest
    obtain ⟨n, hn⟩ : ∃ n, n = 65536 * a.toNat + 256 * b.toNat + c.toNat := ⟨_, rfl⟩
    have ha := a.toNat_lt
    have hb := b.toNat_lt
    have hc := c.toNat_lt
    have hgroup : joinGroups (n / 262144 :: n / 4096 % 64 :: n / 64 % 64 :: n % 64 :: ns) =
        a :: b :: c :: joinGroups ns := joinGroups_cons ns (by omega)
    refine ⟨n / 262144 :: n / 4096 % 64 :: n / 64 % 64 :: n % 64 :: ns, last, ?_, ?_, ?_, ?_,
      hlast⟩
    · rw [hgroup, hjoin]
      rfl
    · rw [encodeBytes, hencode, hn]
      rfl
    · simp only [List.length_cons]
      omega
    · simp only [List.forall_mem_cons]
      exact ⟨by omega, by omega, by omega, by omega, hlt⟩
  | case2 a b => exact ⟨[], [a, b], rfl, rfl, rfl, List.forall_mem_nil _, by simp, by simp⟩
  | case3 a => exact ⟨[], [a], rfl, rfl, rfl, List.forall_mem_nil _, by simp, by simp⟩
  | case4 => exact absurd rfl h

/-! ### The groups in front -/

lemma readSymbols_map_symbol {ns : List Nat} (h : ∀ n ∈ ns, n < 64) (offset : Nat) :
    readSymbols offset (ns.map symbol) = .ok ns := by
  induction ns generalizing offset with
  | nil => rfl
  | cons n rest ih =>
    obtain ⟨hn, hrest⟩ := List.forall_mem_cons.mp h
    simp only [List.map_cons, readSymbols, symbolValue?_symbol hn, ih hrest]
    rfl

/-! ### The last group -/

/-- The symbols and the padding of a last group are those that its bytes are written with, and
they denote these bytes. -/
structure LastGroup.Spells (group : LastGroup) (last : List UInt8) : Prop where
  encode : encodeBytes last = group.symbols.map symbol ++ List.replicate group.pads padding
  length : group.symbols.length + group.pads = 4
  two_le : 2 ≤ group.symbols.length
  lt : ∀ n ∈ group.symbols, n < 64
  join : ∀ start text, joinLast start text group = .ok last

lemma spells_three (a b c : UInt8) : ∃ group : LastGroup, group.Spells [a, b, c] := by
  obtain ⟨n, hn⟩ : ∃ n, n = 65536 * a.toNat + 256 * b.toNat + c.toNat := ⟨_, rfl⟩
  have ha := a.toNat_lt
  have hb := b.toNat_lt
  have hc := c.toNat_lt
  refine ⟨⟨[n / 262144, n / 4096 % 64, n / 64 % 64, n % 64], 0⟩, ?_, rfl, by simp, ?_, ?_⟩
  · rw [encodeBytes, hn]
    rfl
  · simp only [List.forall_mem_cons]
    exact ⟨by omega, by omega, by omega, by omega, List.forall_mem_nil _⟩
  · intro start text
    have hjoin : joinGroups [n / 262144, n / 4096 % 64, n / 64 % 64, n % 64] = [a, b, c] :=
      joinGroups_cons [] (by omega)
    simp [joinLast, hjoin]

lemma spells_two (a b : UInt8) : ∃ group : LastGroup, group.Spells [a, b] := by
  obtain ⟨n, hn⟩ : ∃ n, n = 1024 * a.toNat + 4 * b.toNat := ⟨_, rfl⟩
  have ha := a.toNat_lt
  have hb := b.toNat_lt
  refine ⟨⟨[n / 4096, n / 64 % 64, n % 64], 1⟩, ?_, rfl, by simp, ?_, ?_⟩
  · rw [encodeBytes, hn]
    rfl
  · simp only [List.forall_mem_cons]
    exact ⟨by omega, by omega, by omega, List.forall_mem_nil _⟩
  · intro start text
    -- the symbols are the first three of the group with a zero byte behind
    have hjoin : joinGroups [n / 4096, n / 64 % 64, n % 64, 0] = [a, b, 0] :=
      joinGroups_cons [] (by rw [UInt8.toNat_zero]; omega)
    have hunused : n % 64 % 4 = 0 := by omega
    simp [joinLast, hunused, hjoin]

lemma spells_one (a : UInt8) : ∃ group : LastGroup, group.Spells [a] := by
  obtain ⟨n, hn⟩ : ∃ n, n = 16 * a.toNat := ⟨_, rfl⟩
  have ha := a.toNat_lt
  refine ⟨⟨[n / 64, n % 64], 2⟩, ?_, rfl, Nat.le_refl 2, ?_, ?_⟩
  · rw [encodeBytes, hn]
    rfl
  · simp only [List.forall_mem_cons]
    exact ⟨by omega, by omega, List.forall_mem_nil _⟩
  · intro start text
    have hjoin : joinGroups [n / 64, n % 64, 0, 0] = [a, 0, 0] :=
      joinGroups_cons [] (by rw [UInt8.toNat_zero]; omega)
    have hunused : n % 64 % 16 = 0 := by omega
    simp [joinLast, hunused, hjoin]

lemma exists_spells {last : List UInt8} (hpos : 0 < last.length) (hlen : last.length ≤ 3) :
    ∃ group : LastGroup, group.Spells last := by
  match last, hpos, hlen with
  | [a], _, _ => exact spells_one a
  | [a, b], _, _ => exact spells_two a b
  | [a, b, c], _, _ => exact spells_three a b c

variable {start : Nat}

lemma readLast_symbols {ns : List Nat} (h : ∀ n ∈ ns, n < 64) (position : Nat) (done : List Nat)
    (rest : List UInt8) :
    readLast start position ⟨done, 0⟩ (ns.map symbol ++ rest) =
      readLast start (position + ns.length) ⟨done ++ ns, 0⟩ rest := by
  induction ns generalizing position done with
  | nil => simp
  | cons n ns ih =>
    obtain ⟨hn, hns⟩ := List.forall_mem_cons.mp h
    rw [List.map_cons, List.cons_append, readLast, if_neg (symbol_ne_padding hn), if_neg (by simp),
      symbolValue?_symbol hn]
    simp only [ih hns, List.append_assoc, List.singleton_append, List.length_cons]
    rw [Nat.add_right_comm, Nat.add_assoc]

lemma readLast_padding (pads : Nat) {position : Nat} (h : 2 ≤ position) (group : LastGroup) :
    readLast start position group (List.replicate pads padding) =
      .ok ⟨group.symbols, group.pads + pads⟩ := by
  induction pads generalizing position group with
  | zero => rfl
  | succ k ih =>
    rw [List.replicate_succ, readLast, if_pos rfl, if_neg (Nat.not_lt.mpr h),
      ih (Nat.le_succ_of_le h)]
    simp only [Nat.add_assoc, Nat.add_comm 1 k]

lemma readLast_encodeBytes {group : LastGroup} {last : List UInt8} (h : group.Spells last) :
    readLast start 0 ⟨[], 0⟩ (encodeBytes last) = .ok group := by
  have hposition : 2 ≤ 0 + group.symbols.length := by
    have := h.two_le
    omega
  rw [h.encode, readLast_symbols h.lt, readLast_padding _ hposition]
  simp

/-! ### The whole text -/

/-- A base64 text denotes the bytes that it was written for. -/
lemma decodeBytes_encodeBytes (bs : List UInt8) : decodeBytes (encodeBytes bs) = .ok bs := by
  by_cases hbs : bs = []
  · subst hbs
    rfl
  obtain ⟨ns, last, hjoin, hencode, hlen, hlt, hpos, hle⟩ := exists_groups hbs
  obtain ⟨group, hgroup⟩ := exists_spells hpos hle
  have hfour : (encodeBytes last).length = 4 := by
    rw [hgroup.encode, List.length_append, List.length_map, List.length_replicate, hgroup.length]
  have hlength : (encodeBytes bs).length = ns.length + 4 := by
    rw [hencode, List.length_append, List.length_map, hfour]
  -- the reader cuts the text where the writer began the last group
  have hstart : ((encodeBytes bs).length - 1) / 4 * 4 = (ns.map symbol).length := by
    rw [hlength, List.length_map]
    omega
  have hfront : (encodeBytes bs).take (ns.map symbol).length = ns.map symbol := by
    rw [hencode, List.take_left]
  have hlast : (encodeBytes bs).drop (ns.map symbol).length = encodeBytes last := by
    rw [hencode, List.drop_left]
  have hmod : ¬(encodeBytes bs).length % 4 = 1 := by omega
  have hne : ¬(encodeBytes bs).length = 0 := by omega
  simp only [decodeBytes, hmod, false_and, if_false, hne, hstart, hfront, hlast,
    readSymbols_map_symbol hlt, readLast_encodeBytes hgroup, hgroup.join]
  rw [hjoin]
  rfl

lemma encodeBytes_lt {bs : List UInt8} : ∀ b ∈ encodeBytes bs, b.toNat < 128 := by
  by_cases hbs : bs = []
  · subst hbs
    exact List.forall_mem_nil _
  obtain ⟨ns, last, -, hencode, -, hlt, hpos, hle⟩ := exists_groups hbs
  obtain ⟨group, hgroup⟩ := exists_spells hpos hle
  have hsymbols {ns : List Nat} (h : ∀ n ∈ ns, n < 64) : ∀ b ∈ ns.map symbol, b.toNat < 128 :=
    List.forall_mem_map.mpr fun n hn => symbol_lt (h n hn)
  rw [hencode, hgroup.encode]
  refine List.forall_mem_append.mpr ⟨hsymbols hlt, List.forall_mem_append.mpr
    ⟨hsymbols hgroup.lt, fun b hb => ?_⟩⟩
  rw [List.eq_of_mem_replicate hb]
  decide

lemma toBytes_encode (bs : List UInt8) : Text.toBytes (encode bs) = encodeBytes bs :=
  Text.toBytes_ofList_map_ofNat encodeBytes_lt

lemma decode_encode (bs : List UInt8) : decode (encode bs) = .ok bs := by
  rw [decode, toBytes_encode, decodeBytes_encodeBytes]

end Base64
end SignedFeeds
