/-
# Key pairs as signers

A key pair signs with a library for the curve: the library gives two numbers and a recovery number,
and the signature is the 64 bytes of the numbers with 27 and the recovery number behind them.  The
recovery goes the other way with the same library.

What joins the two is the law of the library that a signature is in low form and is recovered as the
key's own (`SigningLibrary.Lawful`).  The byte behind the numbers, the parity it stands for, the low
form of the other spellings and the address of the key are then all as the recovery expects them, as
long as the recovery number is a parity.  It is 2 or 3 if the abscissa of the point that was signed
with is not below the group order; no byte stands for these.

The library that computes on the curve is lawful (`SigningLibrary.lawful_curve`), and with it a key
pair is a `SecretKey`.
-/
import SignedFeeds.Package.Signed
import SignedFeeds.Proofs.Package.Binding
import SignedFeeds.Proofs.Secp256k1.Recovery
import SignedFeeds.Proofs.Signature.Spellings

namespace SignedFeeds

/-! ## The parts of a signature -/

namespace Signature

variable {r s : ℕ} {v : UInt8}

lemma r_ofParts (h : r < Secp256k1.n) : (ofParts r s v).r = r := by
  have hfits : r < BigEndian.capacity 32 := Nat.lt_trans h (by decide)
  have htake : (ofParts r s v).bytes.take 32 = BigEndian.ofNat 32 r :=
    List.take_left' (BigEndian.length_ofNat 32 r)
  rw [Signature.r, htake, BigEndian.toNat_ofNat_of_lt hfits]

lemma drop_ofParts : (ofParts r s v).bytes.drop 32 = BigEndian.ofNat 32 s ++ [v] :=
  List.drop_left' (BigEndian.length_ofNat 32 r)

lemma s_ofParts (h : s < Secp256k1.n) : (ofParts r s v).s = s := by
  have hfits : s < BigEndian.capacity 32 := Nat.lt_trans h (by decide)
  rw [Signature.s, drop_ofParts, List.take_left' (BigEndian.length_ofNat 32 s),
    BigEndian.toNat_ofNat_of_lt hfits]

lemma v_ofParts : (ofParts r s v).v = v.toNat := by
  have hdrop : (ofParts r s v).bytes.drop 64 = [v] := by
    rw [← List.drop_drop (i := 32) (j := 32), drop_ofParts,
      List.drop_left' (BigEndian.length_ofNat 32 s)]
  rw [Signature.v, hdrop]
  exact Nat.zero_add _

/-- Parts that are in range, with a parity in either notation, are spelled in four ways. -/
lemma reencodes_ofParts {v' : UInt8} {s' : ℕ} (hr : r < Secp256k1.n) (hpos : 0 < s)
    (hs : s < Secp256k1.n) (hv : v.toNat ∈ [0, 1, 27, 28]) (hv' : v'.toNat ∈ [0, 1, 27, 28])
    (h : s' = s ∧ v'.toNat % 27 = v.toNat % 27 ∨
      s' = Secp256k1.n - s ∧ v'.toNat % 27 ≠ v.toNat % 27) :
    (ofParts r s v).Reencodes (ofParts r s' v') := by
  have hs' : s' < Secp256k1.n := by omega
  constructor
  all_goals simp only [r_ofParts hr, s_ofParts hs, s_ofParts hs', v_ofParts]
  all_goals assumption

end Signature

/-! ## Signing with a library -/

/-- What a key pair asks of a library for the curve, besides what the recovery asks of it. -/
structure SigningLibrary extends RecoveryLibrary where
  /-- The secrets that the library works with. -/
  Key : Type
  /-- The secret that is written in 32 bytes. -/
  secret? : Block 32 → Option Key
  /-- The public key of a secret. -/
  publicKey : Key → Secp256k1.Point
  /-- Signs a hash: `r` and `s`, and the recovery number. -/
  sign? : Key → Digest → Option ((ℕ × ℕ) × ℕ)
  /-- Writes `r` and `s` to 64 bytes. -/
  toBytes : ℕ × ℕ → Block 64

namespace SigningLibrary

variable {library : SigningLibrary} {key : library.Key} {hash : Digest} {r s id : ℕ}

/-- The library writes numbers as it reads them.  What it signs is made of numbers that it reads,
with the smaller one of `s` and `n - s`, and with a parity it recovers the public key from it. -/
structure Lawful (library : SigningLibrary) : Prop extends library.toRecoveryLibrary.Lawful where
  bytes_toBytes : ∀ r s,
    (library.toBytes (r, s)).bytes = BigEndian.ofNat 32 r ++ BigEndian.ofNat 32 s
  inRange_of_sign? : ∀ key hash r s id, library.sign? key hash = some ((r, s), id) →
    Secp256k1.inRange r ∧ Secp256k1.inRange s
  low_of_sign? : ∀ key hash r s id, library.sign? key hash = some ((r, s), id) →
    s ≤ Secp256k1.n / 2
  key?_of_sign? : ∀ key hash r s id, library.sign? key hash = some ((r, s), id) → id ≤ 1 →
    library.key? hash (r, s) id = some (library.publicKey key)

/-- The key pair of the secret in 32 bytes. -/
def ofBytes (library : SigningLibrary) (secret : Block 32) : Except WireError library.Key :=
  match library.secret? secret with
  | some key => .ok key
  | none => .error .invalidKey

/-- The address of the public key. -/
def address (library : SigningLibrary) (key : library.Key) : Address :=
  Address.ofPublicKey (library.publicKey key)

/-- Signs a hash, step by step. -/
def sign (library : SigningLibrary) (key : library.Key) (hash : Digest) :
    Except WireError Signature :=
  match library.sign? key hash with
  | none => .error .invalidSignature
  | some (numbers, id) =>
    let numbers := library.toBytes numbers
    .ok ⟨⟨numbers.bytes ++ [UInt8.ofNat (27 + id)], by simp [numbers.length_bytes]⟩⟩

/-- The key pair as a signer. -/
def signer (library : SigningLibrary) (key : library.Key) : Signer :=
  ⟨library.address key, library.sign key⟩

lemma sign_eq (h : library.Lawful) (hsign : library.sign? key hash = some ((r, s), id)) :
    library.sign key hash = .ok (.ofParts r s (UInt8.ofNat (27 + id))) := by
  simp only [sign, hsign, h.bytes_toBytes, List.append_assoc]
  rfl

lemma sign_eq_error (hsign : library.sign? key hash = none) :
    library.sign key hash = .error .invalidSignature := by
  simp only [sign, hsign]

/-- A parity is found again with 27 added to it. -/
lemma recoverInSteps_ofParts (h : library.Lawful)
    (hsign : library.sign? key hash = some ((r, s), id)) (hid : id ≤ 1) :
    (Signature.ofParts r s (UInt8.ofNat (27 + id))).recoverInSteps library.toRecoveryLibrary hash =
      .ok (library.address key) := by
  obtain ⟨hr, hs⟩ := h.inRange_of_sign? _ _ _ _ _ hsign
  have hlow := h.low_of_sign? _ _ _ _ _ hsign
  have hrange : (Secp256k1.inRange r && Secp256k1.inRange s) = true :=
    Bool.and_eq_true_iff.mpr ⟨hr, hs⟩
  have hid' : Signature.recoveryId? (UInt8.ofNat (27 + id)).toNat = some id := by
    obtain rfl | rfl : id = 0 ∨ id = 1 := by omega
    all_goals rfl
  rw [Signature.recoverInSteps, h.parse?_eq, Signature.r_ofParts (Secp256k1.inRange_iff.mp hr).2,
    Signature.s_ofParts (Secp256k1.inRange_iff.mp hs).2, if_pos hrange, Signature.v_ofParts]
  simp only [hid', h.lower?_eq, if_neg (Nat.not_lt.mpr hlow), h.key?_of_sign? _ _ _ _ _ hsign hid]
  rfl

/-- A signature whose recovery number is no parity cannot be written. -/
lemma recoverInSteps_ofParts_of_mem (h : library.Lawful) (hid : id ∈ [2, 3]) :
    (Signature.ofParts r s (UInt8.ofNat (27 + id))).recoverInSteps library.toRecoveryLibrary hash =
      .error .invalidSignature := by
  rw [Signature.recoverInSteps_eq h.toLawful]
  refine Signature.readsSpellings_recoverVia.parity _ ?_
  have hboth : ∀ id ∈ [2, 3], (UInt8.ofNat (27 + id)).toNat ∉ [0, 1, 27, 28] := by decide
  rw [Signature.v_ofParts]
  exact hboth id hid

end SigningLibrary

/-! ## What a signer is expected to do -/

/-- The other three spellings of the signature with these numbers and this parity. -/
def Signature.respellings (r s id : ℕ) : List Signature :=
  [.ofParts r s (UInt8.ofNat id), .ofParts r (Secp256k1.n - s) (UInt8.ofNat (28 - id)),
    .ofParts r (Secp256k1.n - s) (UInt8.ofNat (1 - id))]

lemma Signature.reencodes_of_mem_respellings {sig : Signature} {r s id : ℕ}
    (hr : Secp256k1.inRange r) (hs : Secp256k1.inRange s) (hid : id ≤ 1)
    (hsig : sig ∈ respellings r s id) : (ofParts r s (UInt8.ofNat (27 + id))).Reencodes sig := by
  obtain ⟨-, hr⟩ := Secp256k1.inRange_iff.mp hr
  obtain ⟨hpos, hs⟩ := Secp256k1.inRange_iff.mp hs
  simp only [respellings, List.mem_cons, List.not_mem_nil, or_false] at hsig
  obtain rfl | rfl : id = 0 ∨ id = 1 := by omega
  all_goals
    obtain rfl | rfl | rfl := hsig
    · exact reencodes_ofParts hr hpos hs (by decide) (by decide) (.inl ⟨rfl, by decide⟩)
    · exact reencodes_ofParts hr hpos hs (by decide) (by decide) (.inr ⟨rfl, by decide⟩)
    · exact reencodes_ofParts hr hpos hs (by decide) (by decide) (.inr ⟨rfl, by decide⟩)

/-- What the signer signs with these numbers recovers to its address. -/
structure Signer.MeetsContract (signer : Signer) (sign? : Digest → Option ((ℕ × ℕ) × ℕ))
    (recover : Signature → Digest → Except WireError Address) : Prop where
  /-- A signature is `r`, `s`, and 27 with the parity, and all its spellings are recovered. -/
  signature : ∀ hash r s id, sign? hash = some ((r, s), id) → id ≤ 1 →
    ∃ sig : Signature, signer.sign hash = .ok sig ∧
      sig.bytes = BigEndian.ofNat 32 r ++ BigEndian.ofNat 32 s ++ [UInt8.ofNat (27 + id)] ∧
      ∀ sig' ∈ sig :: Signature.respellings r s id, recover sig' hash = .ok signer.address
  /-- A package that can be written is signed if the hash of its bytes is. -/
  package : ∀ (p : DataPackage) bytes, p.encode = .ok bytes →
    ∀ r s id, sign? (Keccak.hash bytes) = some ((r, s), id) → id ≤ 1 →
      ∃ m, SignedPackage.sign p signer = .ok m ∧
        (m.package.hash >>= recover m.signature) = .ok signer.address
  /-- No byte stands for a recovery number that is no parity. -/
  unwritable : ∀ hash r s id, sign? hash = some ((r, s), id) → id ∈ [2, 3] →
    ∃ sig : Signature, signer.sign hash = .ok sig ∧ recover sig hash = .error .invalidSignature
  /-- A hash for which there are no numbers is refused. -/
  refused : ∀ hash, sign? hash = none → signer.sign hash = .error .invalidSignature

/-- A package is signed by the hash of its bytes. -/
lemma SignedPackage.exists_sign {p : DataPackage} {bytes : List UInt8} {sig : Signature}
    (signer : Signer) (recover : Signature → Digest → Except WireError Address)
    (hencode : p.encode = .ok bytes) (hsign : signer.sign (Keccak.hash bytes) = .ok sig) :
    ∃ m, sign p signer = .ok m ∧
      (m.package.hash >>= recover m.signature) = recover sig (Keccak.hash bytes) := by
  obtain ⟨c, hcanonical, -, -, -, hwritten⟩ := DataPackage.exists_canonicalize_of_encode hencode
  have hhash : c.hash = .ok (Keccak.hash bytes) :=
    Fallible.map_eq_ok_iff.mpr ⟨bytes, hwritten, rfl⟩
  refine ⟨⟨c, sig⟩, ?_, ?_⟩
  · exact Fallible.bind_eq_ok_iff.mpr ⟨c, hcanonical, Fallible.bind_eq_ok_iff.mpr
      ⟨_, hhash, Fallible.bind_eq_ok_iff.mpr ⟨sig, hsign, rfl⟩⟩⟩
  · rw [hhash]
    rfl

lemma SigningLibrary.Lawful.meetsContract {library : SigningLibrary} (h : library.Lawful)
    (key : library.Key) : (library.signer key).MeetsContract (library.sign? key)
      (Signature.recoverInSteps library.toRecoveryLibrary) where
  signature hash r s id hsign hid := by
    obtain ⟨hr, hs⟩ := h.inRange_of_sign? _ _ _ _ _ hsign
    have hfound := recoverInSteps_ofParts h hsign hid
    refine ⟨_, sign_eq h hsign, (List.append_assoc ..).symm,
      List.forall_mem_cons.mpr ⟨hfound, fun sig' hsig' => ?_⟩⟩
    have hsame := Signature.reencodes_of_mem_respellings hr hs hid hsig'
    rw [Signature.recoverInSteps_eq h.toLawful, hsame.recoverVia_eq,
      ← Signature.recoverInSteps_eq h.toLawful, hfound]
    rfl
  package p bytes hencode r s id hsign hid := by
    obtain ⟨m, hm, hrecover⟩ := SignedPackage.exists_sign (library.signer key)
      (Signature.recoverInSteps library.toRecoveryLibrary) hencode (sign_eq h hsign)
    exact ⟨m, hm, hrecover.trans (recoverInSteps_ofParts h hsign hid)⟩
  unwritable hash r s id hsign hid :=
    ⟨_, sign_eq h hsign, recoverInSteps_ofParts_of_mem h hid⟩
  refused _ hsign := sign_eq_error hsign

/-! ## Signing on the curve -/

namespace SecretKey

variable {key : SecretKey} {hash : Digest}

/-- The public key.  No secret in range has the point at infinity for it. -/
@[irreducible] def publicKey (key : SecretKey) : Secp256k1.Point :=
  (Secp256k1.multiple? key.scalar).get
    (Option.isSome_iff_exists.mpr (Secp256k1.exists_multiple? key.scalar_pos key.scalar_lt))

lemma multiple?_scalar (key : SecretKey) :
    Secp256k1.multiple? key.scalar = some key.publicKey := by
  rw [publicKey, Option.some_get]

lemma address_eq (key : SecretKey) : key.address = Address.ofPublicKey key.publicKey := by
  rw [address, multiple?_scalar]

/-- The numbers of a signature and its recovery number. -/
@[irreducible] def sign? (key : SecretKey) (hash : Digest) : Option ((ℕ × ℕ) × ℕ) :=
  (Secp256k1.sign? key.scalar hash).map fun m => ((m.r, m.s), m.id)

lemma sign?_eq_some_iff {r s id : ℕ} :
    key.sign? hash = some ((r, s), id) ↔ Secp256k1.sign? key.scalar hash = some ⟨r, s, id⟩ := by
  rw [sign?, Option.map_eq_some_iff]
  constructor
  · rintro ⟨m, hm, hparts⟩
    cases hparts
    exact hm
  · exact fun hm => ⟨_, hm, rfl⟩

lemma sign?_eq_none_iff : key.sign? hash = none ↔ Secp256k1.sign? key.scalar hash = none := by
  rw [sign?, Option.map_eq_none_iff]

lemma sign_eq (key : SecretKey) (hash : Digest) :
    key.sign hash = (Secp256k1.sign? key.scalar hash).elim (.error .invalidSignature)
      fun m => .ok (.ofParts m.r m.s (UInt8.ofNat (27 + m.id))) := by
  -- an equation of functions: at a key and a hash the nonce would be drawn to check it
  have hall : ∀ sign, sign = SecretKey.sign → sign key hash = (Secp256k1.sign? key.scalar hash).elim
      (.error .invalidSignature) fun m => .ok (.ofParts m.r m.s (UInt8.ofNat (27 + m.id))) := by
    intro sign hsign
    delta SecretKey.sign at hsign
    simp only [hsign]
    cases Secp256k1.sign? key.scalar hash <;> rfl
  exact hall _ rfl

end SecretKey

namespace SigningLibrary

/-- The library that computes on the curve. -/
def curve : SigningLibrary where
  toRecoveryLibrary := .curve
  Key := SecretKey
  secret? secret := SecretKey.ofNat? (BigEndian.toNat secret.bytes)
  publicKey := SecretKey.publicKey
  sign? := SecretKey.sign?
  toBytes numbers := ⟨BigEndian.ofNat 32 numbers.1 ++ BigEndian.ofNat 32 numbers.2, by simp⟩

lemma exists_signs_curve {key : SecretKey} {hash : Digest} {r s id : ℕ}
    (h : curve.sign? key hash = some ((r, s), id)) :
    ∃ k, Secp256k1.Signs key.scalar hash k ⟨r, s, id⟩ :=
  Secp256k1.exists_signs_of_sign? (SecretKey.sign?_eq_some_iff.mp h)

lemma lawful_curve : curve.Lawful where
  toLawful := Signature.lawful_curve
  bytes_toBytes r s := rfl
  inRange_of_sign? key hash r s id h := by
    obtain ⟨k, hsigns⟩ := exists_signs_curve h
    exact ⟨hsigns.r_inRange, hsigns.s_inRange⟩
  low_of_sign? key hash r s id h := by
    obtain ⟨k, hsigns⟩ := exists_signs_curve h
    exact hsigns.s_le
  key?_of_sign? key hash r s id h hid := by
    obtain ⟨k, hsigns⟩ := exists_signs_curve h
    have hkey := hsigns.recover?_eq hid key.scalar_lt
    rw [key.multiple?_scalar] at hkey
    exact hkey

lemma sign_curve (key : SecretKey) (hash : Digest) : curve.sign key hash = key.sign hash := by
  rw [SecretKey.sign_eq]
  cases hsign : Secp256k1.sign? key.scalar hash with
  | none => exact sign_eq_error (SecretKey.sign?_eq_none_iff.mpr hsign)
  | some m => exact sign_eq lawful_curve (SecretKey.sign?_eq_some_iff.mpr hsign)

/-- With the library that computes on the curve, a key pair is the signer of its secret. -/
lemma signer_curve (key : SecretKey) : curve.signer key = key.toSigner :=
  congrArg₂ Signer.mk key.address_eq.symm (funext (sign_curve key))

end SigningLibrary

/-- **Key pairs meet the contract of a signer.**  With any lawful library, every secret of 32 bytes
is refused or accepted.  Let a hash be signed by a key pair whose secret was accepted, with a
recovery number that is a parity.  The signature is `r`, `s`, and 27 with the parity, and all its
spellings recover to the address of the key pair.  A package that can be written is signed if the
hash of its bytes is, and its signer is recovered with the address of the key pair.  With a recovery
number of 2 or 3 the signature recovers to nobody, and a hash that the library does not sign is
refused.

The signer of a secret meets the contract as it is, by the arithmetic of the curve. -/
theorem key_pairs_meet_contract :
    (∀ library : SigningLibrary, library.Lawful → ∀ secret : Block 32,
      library.ofBytes secret = .error .invalidKey ∨
        ∃ key, library.ofBytes secret = .ok key ∧
          (library.signer key).MeetsContract (library.sign? key)
            (Signature.recoverInSteps library.toRecoveryLibrary)) ∧
    ∀ key : SecretKey, key.toSigner.MeetsContract key.sign? Signature.recover := by
  refine ⟨fun library hlawful secret => ?_, fun key => ?_⟩
  · cases hkey : library.secret? secret with
    | none => exact .inl (by rw [SigningLibrary.ofBytes, hkey])
    | some key => exact .inr ⟨key, by rw [SigningLibrary.ofBytes, hkey], hlawful.meetsContract key⟩
  · have hrecover : Signature.recoverInSteps .curve = Signature.recover := by
      funext sig hash
      exact Signature.recoverInSteps_curve sig hash
    rw [← SigningLibrary.signer_curve, ← hrecover]
    exact SigningLibrary.lawful_curve.meetsContract key

/-- The hash of the sample is signed with the secret 1, and with a parity. -/
lemma exists_sign_sample : ∃ bytes r s id, DataPackage.sample.encode = .ok bytes ∧
    (SecretKey.mk 1 (by decide) (by decide)).sign? (Keccak.hash bytes) = some ((r, s), id) ∧
    id ≤ 1 := by
  obtain ⟨bytes, hbytes, hsigned⟩ : ∃ bytes, DataPackage.sample.encode = .ok bytes ∧
      (Secp256k1.sign? 1 (Keccak.hash bytes)).any fun m => m.id ≤ 1 := by
    refine ⟨_, (DataPackage.encode_eq_ok_iff_of_ascending (by decide)).mpr
      ⟨by decide, 1, by decide, _, _, _, rfl, rfl, rfl, rfl⟩, ?_⟩
    decide +kernel
  obtain ⟨⟨r, s, id⟩, hm, hid⟩ := (Option.any_eq_true _ _).mp hsigned
  exact ⟨bytes, r, s, id, hbytes, SecretKey.sign?_eq_some_iff.mpr hm, of_decide_eq_true hid⟩

/-- The secret 1 is accepted.  What its signer makes of the sample recovers to its address, in all
four spellings and from the package. -/
theorem key_pairs_meet_contract_sample :
    SigningLibrary.curve.Lawful ∧ ∃ key : SecretKey,
      SigningLibrary.curve.ofBytes ⟨BigEndian.ofNat 32 1, by decide⟩ = .ok key ∧
      ∃ bytes r s id, DataPackage.sample.encode = .ok bytes ∧
        key.sign? (Keccak.hash bytes) = some ((r, s), id) ∧ id ≤ 1 ∧
        (∀ sig' ∈ Signature.respellings r s id,
          sig'.recover (Keccak.hash bytes) = .ok key.toSigner.address ∧
            sig'.recoverInSteps .curve (Keccak.hash bytes) = .ok key.toSigner.address) ∧
        ∃ m, SignedPackage.sign .sample key.toSigner = .ok m ∧ m.recover = .ok key.toSigner.address := by
  obtain ⟨hlibrary, hcurve⟩ := key_pairs_meet_contract
  obtain ⟨bytes, r, s, id, hbytes, hsign, hid⟩ := exists_sign_sample
  obtain hrefused | ⟨key, hkey, hmeets⟩ := hlibrary _ SigningLibrary.lawful_curve
    ⟨BigEndian.ofNat 32 1, by decide⟩
  · cases hrefused
  · obtain rfl : key = ⟨1, by decide, by decide⟩ := (Except.ok.inj hkey).symm
    obtain ⟨_, -, -, hspellings⟩ := (hcurve _).signature _ _ _ _ hsign hid
    obtain ⟨_, -, -, hsteps⟩ := hmeets.signature _ _ _ _ hsign hid
    obtain ⟨m, hm, hrecover⟩ := (hcurve _).package _ _ hbytes _ _ _ hsign hid
    rw [SigningLibrary.signer_curve] at hsteps
    exact ⟨SigningLibrary.lawful_curve, _, hkey, bytes, r, s, id, hbytes, hsign, hid,
      fun sig' hsig' => ⟨hspellings sig' (.tail _ hsig'), hsteps sig' (.tail _ hsig')⟩,
      m, hm, hrecover⟩

end SignedFeeds
