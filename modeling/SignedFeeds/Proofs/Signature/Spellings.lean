/-
# The spellings of a signature

Whatever stands in the 65 bytes of a signature, recovering goes by what they spell
(`Signature.ReadsSpellings`): replacing `s` by `n - s` and the parity by the other one changes
nothing, and neither does adding 27 to a parity that is written as it is.  Bytes that spell no
signature are refused.

The recovery leaves all that concerns the curve to a library: reading the two numbers, bringing them
into low form, and finding the key.  `recoverInSteps` is the recovery with any such library, in
which the recovery number is flipped as often as the library replaces `s`.  What is said about
spellings holds for every library that reads numbers and brings them into low form as it should
(`RecoveryLibrary.Lawful`), however it finds keys.
-/
import SignedFeeds.Proofs.Signature.Recovery

namespace SignedFeeds

/-- What the recovery asks of a library for the curve. -/
structure RecoveryLibrary where
  /-- Reads `r` and `s` from 64 bytes. -/
  parse? : List UInt8 → Option (ℕ × ℕ)
  /-- The numbers with the smaller one of `s` and `n - s`, if that is not the one they have. -/
  lower? : ℕ × ℕ → Option (ℕ × ℕ)
  /-- The key that signed the hash with these numbers and this recovery number. -/
  key? : Digest → ℕ × ℕ → ℕ → Option Secp256k1.Point

/-- The library reads exactly the numbers from 1 to `n - 1`, and replaces `s` exactly if it is above
`n / 2`. -/
structure RecoveryLibrary.Lawful (library : RecoveryLibrary) : Prop where
  parse?_eq : ∀ sig : Signature, library.parse? (sig.bytes.take 64) =
    if Secp256k1.inRange sig.r && Secp256k1.inRange sig.s then some (sig.r, sig.s) else none
  lower?_eq : ∀ r s, library.lower? (r, s) =
    if Secp256k1.n / 2 < s then some (r, Secp256k1.n - s) else none

/-- The library whose keys are found by computing on the curve. -/
def RecoveryLibrary.curve : RecoveryLibrary where
  parse? bytes :=
    let r := BigEndian.toNat (bytes.take 32)
    let s := BigEndian.toNat (bytes.drop 32)
    if Secp256k1.inRange r && Secp256k1.inRange s then some (r, s) else none
  lower? numbers :=
    if Secp256k1.n / 2 < numbers.2 then some (numbers.1, Secp256k1.n - numbers.2) else none
  key? hash numbers id := Secp256k1.recover? hash numbers.1 numbers.2 (id == 1)

namespace Signature

variable {sig sig' : Signature} {library : RecoveryLibrary}

/-! ## Recovery with a library -/

/-- The recovery number that `v` stands for. -/
def recoveryId? (v : ℕ) : Option ℕ :=
  if v = 0 ∨ v = 1 then some v
  else if v = 27 ∨ v = 28 then some (v - 27)
  else none

/-- The address of whoever made this signature of the hash, step by step. -/
def recoverInSteps (library : RecoveryLibrary) (sig : Signature) (hash : Digest) :
    Except WireError Address :=
  match library.parse? (sig.bytes.take 64) with
  | none => .error .invalidSignature
  | some numbers =>
    match recoveryId? sig.v with
    | none => .error .invalidSignature
    | some id =>
      -- replacing `s` mirrors the point that the signature was made from
      let low := match library.lower? numbers with
        | some lower => (lower, id ^^^ 1)
        | none => (numbers, id)
      match library.key? hash low.1 low.2 with
      | none => .error .invalidSignature
      | some key => .ok (Address.ofPublicKey key)

/-- What is recovered through the low form, with any search for a key of `r`, `s` and a parity. -/
def recoverVia (find : ℕ → ℕ → Bool → Option Secp256k1.Point) (sig : Signature) :
    Except WireError Address :=
  if Secp256k1.inRange sig.r && Secp256k1.inRange sig.s then
    (sig.lowForm.bind fun low => find sig.r low.1 low.2).elim
      (.error .invalidSignature) fun key => .ok (Address.ofPublicKey key)
  else .error .invalidSignature

lemma recover_eq_recoverVia (sig : Signature) (hash : Digest) :
    sig.recover hash = sig.recoverVia (Secp256k1.recover? hash) := recover_eq sig hash

lemma parity?_eq_none {v : ℕ} (h : v ∉ [0, 1, 27, 28]) : parity? v = none := by
  unfold parity?
  split <;> simp_all

/-- The recovery number is the parity. -/
lemma recoveryId?_eq (v : ℕ) : recoveryId? v = (parity? v).map Bool.toNat := by
  by_cases h : v ∈ [0, 1, 27, 28]
  · have hall : ∀ v ∈ [0, 1, 27, 28], recoveryId? v = (parity? v).map Bool.toNat := by decide
    exact hall v h
  · simp only [List.mem_cons, List.not_mem_nil, or_false, not_or] at h
    rw [parity?_eq_none (by simpa using h), recoveryId?, if_neg (by omega), if_neg (by omega),
      Option.map_none]

/-- Flipping the recovery number is taking the other parity. -/
lemma toNat_xor_one (odd : Bool) : odd.toNat ^^^ 1 = (!odd).toNat := by
  cases odd <;> rfl

/-- With a lawful library the steps go through the low form. -/
lemma recoverInSteps_eq (h : library.Lawful) (sig : Signature) (hash : Digest) :
    sig.recoverInSteps library hash =
      sig.recoverVia fun r s odd => library.key? hash (r, s) odd.toNat := by
  rw [recoverInSteps, recoverVia, h.parse?_eq]
  by_cases hrange : (Secp256k1.inRange sig.r && Secp256k1.inRange sig.s) = true
  · rw [if_pos hrange, if_pos hrange, lowForm, recoveryId?_eq]
    cases parity? sig.v with
    | none => rfl
    | some odd =>
      simp only [Option.map_some, Option.bind_some, h.lower?_eq]
      by_cases hhigh : Secp256k1.n / 2 < sig.s
      · simp only [if_pos hhigh, toNat_xor_one]
        cases library.key? hash (sig.r, Secp256k1.n - sig.s) (!odd).toNat <;> rfl
      · simp only [if_neg hhigh]
        cases library.key? hash (sig.r, sig.s) odd.toNat <;> rfl
  · rw [if_neg hrange, if_neg hrange]

lemma lawful_curve : RecoveryLibrary.curve.Lawful where
  parse?_eq sig := by
    have hr : (sig.bytes.take 64).take 32 = sig.bytes.take 32 := by
      rw [List.take_take]
      rfl
    have hs : (sig.bytes.take 64).drop 32 = (sig.bytes.drop 32).take 32 := List.drop_take
    simp only [RecoveryLibrary.curve, hr, hs]
    rfl
  lower?_eq r s := rfl

/-- The recovery is the one with the library that computes on the curve. -/
lemma recoverInSteps_curve (sig : Signature) (hash : Digest) :
    sig.recoverInSteps .curve hash = sig.recover hash := by
  rw [recoverInSteps_eq lawful_curve, recover_eq_recoverVia]
  congr 1
  funext r s odd
  cases odd <;> rfl

/-! ## Spellings -/

/-- A recovery goes by what the bytes of a signature spell. -/
structure ReadsSpellings (recover : Signature → Except WireError Address) : Prop where
  /-- The other one of `s` and `n - s` with the other parity is the same signature. -/
  twin : ∀ sig sig' : Signature, 1 ≤ sig.s → sig.s < Secp256k1.n → sig'.r = sig.r →
    sig'.s = Secp256k1.n - sig.s → (sig.v, sig'.v) ∈ [(27, 28), (28, 27), (0, 1), (1, 0)] →
    recover sig' = recover sig
  /-- A parity may have 27 added to it. -/
  offset : ∀ sig sig' : Signature, sig.v ∈ [0, 1] → sig'.r = sig.r → sig'.s = sig.s →
    sig'.v = sig.v + 27 → recover sig' = recover sig
  /-- Other bytes are no parity. -/
  parity : ∀ sig : Signature, sig.v ∉ [0, 1, 27, 28] → recover sig = .error .invalidSignature
  /-- Both numbers are between 1 and `n - 1`. -/
  range : ∀ sig : Signature, sig.r = 0 ∨ Secp256k1.n ≤ sig.r ∨ sig.s = 0 ∨ Secp256k1.n ≤ sig.s →
    recover sig = .error .invalidSignature

variable {find : ℕ → ℕ → Bool → Option Secp256k1.Point}

/-- The low form is all that the search is told. -/
lemma recoverVia_congr (hr : sig'.r = sig.r)
    (hrange : Secp256k1.inRange sig'.s = Secp256k1.inRange sig.s)
    (hlow : sig'.lowForm = sig.lowForm) : sig'.recoverVia find = sig.recoverVia find := by
  rw [recoverVia, recoverVia, hr, hrange, hlow]

lemma Reencodes.recoverVia_eq (h : sig.Reencodes sig') :
    sig'.recoverVia find = sig.recoverVia find :=
  recoverVia_congr h.r_eq h.inRange_eq h.lowForm_eq

lemma parity?_add {v : ℕ} (h : v ∈ [0, 1]) : parity? (v + 27) = parity? v := by
  have hboth : ∀ v ∈ [0, 1], parity? (v + 27) = parity? v := by decide
  exact hboth v h

/-- A pair of opposite parities in one notation. -/
lemma reencodes_twin (hpos : 1 ≤ sig.s) (hlt : sig.s < Secp256k1.n) (hr : sig'.r = sig.r)
    (hs : sig'.s = Secp256k1.n - sig.s)
    (hv : (sig.v, sig'.v) ∈ [(27, 28), (28, 27), (0, 1), (1, 0)]) : sig.Reencodes sig' := by
  have hpairs : ∀ pair ∈ [(27, 28), (28, 27), (0, 1), (1, 0)],
      pair.1 ∈ [0, 1, 27, 28] ∧ pair.2 ∈ [0, 1, 27, 28] ∧ pair.2 % 27 ≠ pair.1 % 27 := by decide
  obtain ⟨hfirst, hsecond, hother⟩ := hpairs _ hv
  exact ⟨hpos, hlt, hfirst, hsecond, hr, .inr ⟨hs, hother⟩⟩

/-- Whatever keys are found, a recovery through the low form goes by what is spelled. -/
lemma readsSpellings_recoverVia : ReadsSpellings (recoverVia find) where
  twin sig sig' hpos hlt hr hs hv := (reencodes_twin hpos hlt hr hs hv).recoverVia_eq
  offset sig sig' hv hr hs hv' := by
    refine recoverVia_congr hr (by rw [hs]) ?_
    rw [lowForm, lowForm, hs, hv', parity?_add hv]
  parity sig hv := by
    rw [recoverVia, lowForm, parity?_eq_none hv]
    split_ifs <;> rfl
  range sig h := by
    have hnot : ¬ (Secp256k1.inRange sig.r && Secp256k1.inRange sig.s) = true := by
      rw [Bool.and_eq_true, Secp256k1.inRange_iff, Secp256k1.inRange_iff]
      omega
    exact if_neg hnot

/-- **Every spelling of a signature recovers the same signer.**  The other one of `s` and `n - s`
with the other parity gives the same result, address or error, and so does a parity with 27 added to
it.  Bytes with another parity byte, or with a number that is zero or not below the group order,
give no address.  All of this holds for the recovery on the curve, and with any library that reads
numbers and lowers them as it should, whatever keys it finds. -/
theorem recover_reads_spellings (hash : Digest) :
    (ReadsSpellings fun sig => sig.recover hash) ∧
    (∀ library : RecoveryLibrary, library.Lawful →
      ReadsSpellings fun sig => sig.recoverInSteps library hash) ∧
    RecoveryLibrary.curve.Lawful ∧
    ∀ sig : Signature, sig.recoverInSteps .curve hash = sig.recover hash := by
  refine ⟨?_, fun library h => ?_, lawful_curve, fun sig => recoverInSteps_curve sig hash⟩
  · simp only [recover_eq_recoverVia]
    exact readsSpellings_recoverVia
  · simp only [recoverInSteps_eq h]
    exact readsSpellings_recoverVia

/-- Two ones are a signature that somebody made, and the other three spellings of it belong to the
same signer.  With 35 for a parity, or with zeros, they belong to nobody. -/
theorem recover_reads_spellings_sample :
    RecoveryLibrary.curve.Lawful ∧
      (∃ a, (ofParts 1 1 27).recover ⟨Block.zero⟩ = .ok a ∧
        (ofParts 1 (Secp256k1.n - 1) 28).recover ⟨Block.zero⟩ = .ok a ∧
        (ofParts 1 1 0).recover ⟨Block.zero⟩ = .ok a ∧
        (ofParts 1 (Secp256k1.n - 1) 1).recoverInSteps .curve ⟨Block.zero⟩ = .ok a) ∧
      (ofParts 1 1 35).recover ⟨Block.zero⟩ = .error .invalidSignature ∧
      (ofParts 0 1 27).recover ⟨Block.zero⟩ = .error .invalidSignature := by
  obtain ⟨hrecover, hsteps, hlawful, hsame⟩ := recover_reads_spellings ⟨Block.zero⟩
  obtain ⟨a, ha⟩ : ∃ a, (ofParts 1 1 27).recover ⟨Block.zero⟩ = .ok a := by
    have hsome : ((ofParts 1 1 27).recover ⟨Block.zero⟩).toOption.isSome := by decide +kernel
    cases hresult : (ofParts 1 1 27).recover ⟨Block.zero⟩ with
    | ok a => exact ⟨a, rfl⟩
    | error e =>
      rw [hresult] at hsome
      cases hsome
  have hhigh := hrecover.twin (ofParts 1 1 27) (ofParts 1 (Secp256k1.n - 1) 28)
    (by decide) (by decide) (by decide) (by decide) (by decide)
  have hshort := hrecover.offset (ofParts 1 1 0) (ofParts 1 1 27)
    (by decide) (by decide) (by decide) (by decide)
  have hboth := (hsteps .curve hlawful).twin (ofParts 1 1 0) (ofParts 1 (Secp256k1.n - 1) 1)
    (by decide) (by decide) (by decide) (by decide) (by decide)
  rw [hsame (ofParts 1 1 0), ← hshort, ha] at hboth
  exact ⟨hlawful, ⟨a, ha, hhigh.trans ha, hshort.symm.trans ha, hboth⟩,
    hrecover.parity _ (by decide), hrecover.range _ (.inl (by decide))⟩

end Signature
end SignedFeeds
