/-
# Signing in turn

A package that several signers sign at once is hashed once, and its signatures are counted when all
of them are there.  If they sign it one after the other, it is hashed anew and its signatures are
counted anew each time.  The outcome is the same, errors included, as long as no count is in the way
before the last signer (`sign_in_turn`): what was hashed once is what is hashed again, since nothing
but the signatures changes.

`cosign` computes a new package.  In place the same steps are made by `cosignInPlace`, where a
signer who fails leaves the package with the signatures so far; what a run of it ends with is what is
computed (`outcome_forM_cosignInPlace`).
-/
import SignedFeeds.Proofs.Package.Cosigning

namespace SignedFeeds
namespace CosignedPackage

variable {p package : DataPackage} {hash : Digest} {signatures : List Signature} {signer : Signer}
  {signers : List Signer}

/-! ## One more signer -/

/-- Behind signatures that can be counted, one more is made and counted as if all were made at
once. -/
lemma attach_bind_cosign (hhash : package.hash = .ok hash) (hpos : 1 ≤ signatures.length)
    (hle : signatures.length ≤ maxSigners) (signer : Signer) :
    (attach package signatures >>= fun m => m.cosign signer) =
      signer.sign hash >>= fun sig => attach package (signatures ++ [sig]) := by
  have hattach : attach package signatures = .ok ⟨package, signatures⟩ :=
    attach_eq_ok_iff.mpr ⟨rfl, hpos, hle⟩
  have hadd : addSignature ⟨package, signatures⟩ =
      fun sig => attach package (signatures ++ [sig]) := by
    funext sig
    rw [addSignature, attach, List.length_append, List.length_singleton]
  rw [hattach, ← hadd]
  show (package.hash >>= fun hash => signer.sign hash >>= addSignature ⟨package, signatures⟩) = _
  rw [hhash]
  rfl

/-- The last signer may as well sign what the others have signed. -/
lemma sign_concat (hpos : 1 ≤ signers.length) (hle : signers.length ≤ maxSigners) :
    sign p (signers ++ [signer]) = sign p signers >>= fun m => m.cosign signer := by
  rw [sign, sign]
  cases hpackage : p.canonicalize with
  | error e => rfl
  | ok package =>
  show (package.hash >>= fun hash => (signers ++ [signer]).mapM _ >>= attach package) =
    (package.hash >>= fun hash => signers.mapM _ >>= attach package) >>= fun m => m.cosign signer
  cases hhash : package.hash with
  | error e => rfl
  | ok hash =>
  show ((signers ++ [signer]).mapM _ >>= attach package) =
    (signers.mapM _ >>= attach package) >>= fun m => m.cosign signer
  rw [List.mapM_append]
  cases hsigs : signers.mapM (fun signer => signer.sign hash) with
  | error e => rfl
  | ok signatures =>
    have hlen := Fallible.length_of_mapM_eq_ok hsigs
    refine Eq.trans ?_ (attach_bind_cosign hhash (by omega) (by omega) signer).symm
    rw [List.mapM_cons]
    cases signer.sign hash <;> rfl

/-- Signers who are to sign later sign one after the other. -/
lemma sign_append (first : List Signer) (hpos : 1 ≤ first.length)
    (hle : (first ++ signers).length ≤ maxSigners + 1) :
    sign p (first ++ signers) = sign p first >>= fun m => signers.foldlM cosign m := by
  induction signers generalizing first with
  | nil =>
    rw [List.append_nil]
    exact (bind_pure _).symm
  | cons signer signers ih =>
    rw [List.length_append, List.length_cons] at hle
    rw [← List.singleton_append, ← List.append_assoc,
      ih (first ++ [signer]) (by simp) (by simp only [List.length_append, List.length_singleton]; omega),
      sign_concat hpos (by omega), bind_assoc]
    rfl

/-! ## In place -/

/-- What a change in place ends with: the package that it leaves, or its error. -/
def Update.outcome (change : Update) (m : CosignedPackage) : Except WireError CosignedPackage :=
  match change m with
  | .ok _ m' => .ok m'
  | .error e _ => .error e

lemma outcome_cosignInPlace (signer : Signer) (m : CosignedPackage) :
    (cosignInPlace signer).outcome m = m.cosign signer := by
  rw [Update.outcome, cosignInPlace_eq]
  cases m.cosign signer <;> rfl

lemma outcome_bind (change next : Update) (m : CosignedPackage) :
    Update.outcome (change >>= fun _ => next) m = change.outcome m >>= next.outcome := by
  show (match EStateM.bind change (fun _ => next) m with | .ok _ m' => _ | .error e _ => _) = _
  rw [EStateM.bind, Update.outcome]
  cases change m <;> rfl

lemma outcome_forM_cosignInPlace (signers : List Signer) (m : CosignedPackage) :
    Update.outcome (signers.forM cosignInPlace) m = signers.foldlM cosign m := by
  induction signers generalizing m with
  | nil => rfl
  | cons signer signers ih =>
    rw [List.foldlM_cons, ← outcome_cosignInPlace, ← funext ih]
    exact outcome_bind _ _ m

/-! ## All signers -/

/-- One signature more than can be counted. -/
lemma sign_of_too_many {p package : DataPackage} {signatures : List Signature}
    (hlen : signers.length = maxSigners + 1) (hpackage : p.canonicalize = .ok package)
    (hhash : package.hash = .ok hash)
    (hsigs : signers.mapM (fun signer => signer.sign hash) = .ok signatures) :
    sign p signers = .error (.counterOverflow "signers count" 256 1) := by
  have hcount := Fallible.length_of_mapM_eq_ok hsigs
  rw [hlen] at hcount
  rw [sign, hpackage]
  show (package.hash >>= fun hash => signers.mapM _ >>= attach package) = _
  rw [hhash]
  show (signers.mapM (fun signer => signer.sign hash) >>= attach package) = _
  rw [hsigs]
  show (checkCount signatures.length >>= fun _ => pure _) = _
  rw [hcount]
  rfl

/-- **Signing in turn is signing at once.**  If there are up to 255 signers and one more, it makes no
difference whether this one signs with the others or cosigns what they have signed: the package and
the order of its signatures are the same, and so is the error, whether it is the package's, a
signer's or that of the count.  Hence up to 256 signers may sign one after the other, behind the
first; the last of 256 meets the same error as all of them at once, which is that of the count
when no signer refuses.  In place the outcome is the same. -/
theorem sign_in_turn (p : DataPackage) :
    (∀ (signers : List Signer) (signer : Signer), 1 ≤ signers.length → signers.length ≤ 255 →
      sign p (signers ++ [signer]) = sign p signers >>= fun m => m.cosign signer) ∧
    (∀ (first : Signer) (signers : List Signer), (first :: signers).length ≤ 256 →
      sign p (first :: signers) = sign p [first] >>= fun m => signers.foldlM cosign m) ∧
    (∀ (m : CosignedPackage) (signers : List Signer),
      Update.outcome (signers.forM cosignInPlace) m = signers.foldlM cosign m) ∧
    ∀ (signers : List Signer) package hash signatures, signers.length = 256 →
      p.canonicalize = .ok package → package.hash = .ok hash →
      signers.mapM (fun signer => signer.sign hash) = .ok signatures →
      sign p signers = .error (.counterOverflow "signers count" 256 1) :=
  ⟨fun _ _ hpos hle => sign_concat hpos hle,
    fun first _ hle => sign_append [first] (Nat.le_refl 1) hle,
    fun m signers => outcome_forM_cosignInPlace signers m,
    fun _ _ _ _ hlen hpackage hhash hsigs => sign_of_too_many hlen hpackage hhash hsigs⟩

/-- A signer who refuses what another one has signed, and 256 who do not. -/
theorem sign_in_turn_sample :
    let willing : Signer := ⟨⟨Block.zero⟩, fun _ => .ok ⟨Block.zero⟩⟩
    let overflow : WireError := .counterOverflow "signers count" 256 1
    ∃ m, sign .sample [willing] = .ok m ∧
      m.cosign .refusing = .error (.undecodable "signer refused") ∧
      sign .sample ([willing] ++ [.refusing]) = .error (.undecodable "signer refused") ∧
      sign .sample (willing :: List.replicate 255 willing) = .error overflow ∧
      (List.replicate 255 willing).foldlM cosign m = .error overflow ∧
      Update.outcome ((List.replicate 255 willing).forM cosignInPlace) m = .error overflow := by
  intro willing overflow
  obtain ⟨front, hfront⟩ := DataPackage.exists_encode_sample
  have hcanonical : DataPackage.sample.canonicalize = .ok .sample := by
    refine Fallible.map_eq_ok_iff.mpr ⟨DataPackage.sample.points, ?_, rfl⟩
    exact DataPackage.canonicalPoints_eq_ok_iff.mpr ⟨by decide, by decide, by decide, 1, by decide⟩
  have hhash : DataPackage.sample.hash = .ok (Keccak.hash front) := by
    rw [DataPackage.hash, hfront]
    rfl
  have hone : sign .sample [willing] = .ok ⟨.sample, [⟨Block.zero⟩]⟩ :=
    Fallible.bind_eq_ok_iff.mpr ⟨_, hcanonical, Fallible.bind_eq_ok_iff.mpr ⟨_, hhash, rfl⟩⟩
  have hrefuse : cosign ⟨.sample, [⟨Block.zero⟩]⟩ .refusing =
      .error (.undecodable "signer refused") := by
    rw [cosign, hhash]
    rfl
  have hall : (willing :: List.replicate 255 willing).mapM
      (fun signer => signer.sign (Keccak.hash front)) = .ok (List.replicate 256 ⟨Block.zero⟩) := by
    rw [← List.replicate_succ, Fallible.mapM_eq_ok_iff_map, List.map_replicate, List.map_replicate]
  have hlen : (willing :: List.replicate 255 willing).length = 256 := by
    rw [List.length_cons, List.length_replicate]
  obtain ⟨hlast, hturn, hplace, hcount⟩ := sign_in_turn .sample
  have hmany := hcount _ _ _ _ hlen hcanonical hhash hall
  have hfold := hturn willing (List.replicate 255 willing) (Nat.le_of_eq hlen)
  rw [hmany, hone] at hfold
  refine ⟨_, hone, hrefuse, ?_, hmany, hfold.symm, (hplace _ _).trans hfold.symm⟩
  rw [hlast [willing] .refusing (by decide) (by decide), hone]
  exact hrefuse

end CosignedPackage
end SignedFeeds
