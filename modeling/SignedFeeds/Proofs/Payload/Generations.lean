/-
# Both generations name the same signers

Several signatures of one data package can be sent in two ways: on one cosigned package, or on
signed packages of which each repeats the data package.  Who signed is the same either way,
whatever the signatures are and whether or not the package can be hashed.

The cosigned package is hashed once and the repeated ones are hashed one by one.  A step that is
repeated for each value may as well be made once in front of all of them, as long as there is a
value (`Fallible.mapM_bind_eq`).  Without a signature the two would differ: the package of the
one payload has no hash perhaps, and the other payload has no package.
-/
import SignedFeeds.Proofs.Payload.Attribution

namespace SignedFeeds

namespace Payload

variable {p : DataPackage} {signatures : List Signature}

lemma recoveries_of_copies (hne : signatures ≠ []) (metadata metadata' : String) :
    recoveries ⟨.single (signatures.map (SignedPackage.mk p)), metadata⟩ =
      recoveries ⟨.multi ⟨p, signatures⟩, metadata'⟩ := by
  show (signatures.map (SignedPackage.mk p)).mapM (fun m => m.package.hash.map m.signature.recover) =
    p.hash.map fun d => signatures.map fun sig => sig.recover d
  simp only [Fallible.map_eq_bind, List.mapM_map, ← List.mapM_pure]
  exact Fallible.mapM_bind_eq hne p.hash fun sig d => pure (sig.recover d)

lemma recoverSigners_of_copies (hne : signatures ≠ []) (metadata metadata' : String) :
    recoverSigners ⟨.multi ⟨p, signatures⟩, metadata'⟩ =
      (recoverSigners ⟨.single (signatures.map (SignedPackage.mk p)), metadata⟩).map
        fun lists => [lists.flatten] := by
  have hmulti : CosignedPackage.recover ⟨p, signatures⟩ =
      signatures.mapM fun sig => p.hash >>= sig.recover :=
    (Fallible.mapM_bind_eq hne p.hash fun sig d => sig.recover d).symm
  have hsingle : recoverSigners ⟨.single (signatures.map (SignedPackage.mk p)), metadata⟩ =
      (signatures.mapM fun sig => p.hash >>= sig.recover).map (List.map fun a => [a]) := by
    rw [← Fallible.mapM_map_eq]
    exact List.mapM_map
  rw [hsingle]
  show (CosignedPackage.recover ⟨p, signatures⟩).map _ = _
  rw [hmulti]
  cases signatures.mapM fun sig => p.hash >>= sig.recover with
  | error e => rfl
  | ok addresses =>
    have hflatten : (addresses.map fun a => [a]).flatten = addresses := by
      rw [← List.flatMap_def, List.flatMap_singleton']
    simp only [Except.map, hflatten]

/-- **Both generations name the same signers.**  For any data package and between 1 and 255
signatures, a payload with the signatures on one cosigned package and a payload with a signed
package for each of them get the same authorization or the same refusal from every registry and
quorum.  The signers of the one are those of the other in the same order, or there is the same
error. -/
theorem generations_name_same_signers (p : DataPackage) (signatures : List Signature)
    (hne : signatures ≠ []) (hle : signatures.length ≤ 255) (metadata metadata' : String) :
    ∃ m, CosignedPackage.attach p signatures = .ok m ∧
      (∀ registry quorum,
        authorize ⟨.single (signatures.map (SignedPackage.mk p)), metadata⟩ registry quorum =
          authorize ⟨.multi m, metadata'⟩ registry quorum) ∧
      recoverSigners ⟨.multi m, metadata'⟩ =
        (recoverSigners ⟨.single (signatures.map (SignedPackage.mk p)), metadata⟩).map
          fun lists => [lists.flatten] := by
  refine ⟨⟨p, signatures⟩, ?_, fun registry quorum => ?_, recoverSigners_of_copies hne _ _⟩
  · exact CosignedPackage.attach_eq_ok_iff.mpr ⟨rfl, List.length_pos_iff.mpr hne, hle⟩
  · simp only [authorize, recoveries_of_copies hne metadata metadata']

/-- A signer that signed twice, beside a signature that belongs to nobody, is reported once. -/
lemma authorize_of_repeated_vote {p : Payload} {a : Address} {e : WireError} (hp : p.Hashable)
    (h : p.outcomes = [.ok a, .ok a, .error e]) (service : String) :
    p.authorize (fun _ _ => true) ⟨service, 1⟩ = .ok ⟨.ofList [a], [], 1⟩ := by
  have hcard : (p.knownSigners (fun _ _ => true) service).card = 1 := by
    simp [knownSigners, h]
  have honce : OrderedSet.ofList [a, a] = .ofList [a] := by
    refine OrderedSet.eq_of_mem_iff fun b => ?_
    simp only [OrderedSet.mem_ofList, List.mem_cons, List.not_mem_nil, or_false, or_self]
  rw [authorize_of_hashable hp, hcard, if_neg (Nat.lt_irrefl 1)]
  simp [report, h, honce]

/-- Copies of a package with a signature, its repeat and one that belongs to nobody. -/
def sampleCopies : Payload :=
  ⟨.single [⟨.sample, .ofParts 1 1 27⟩, ⟨.sample, .ofParts 1 1 27⟩, ⟨.sample, ⟨Block.zero⟩⟩], "x"⟩

/-- Copies of a package with a signature and its repeat. -/
def sampleTwice : Payload :=
  ⟨.single [⟨.sample, .ofParts 1 1 27⟩, ⟨.sample, .ofParts 1 1 27⟩], "x"⟩

/-- Who signed the copies, and the error that hides them behind the broken signature. -/
lemma exists_recoverSigners_copies :
    ∃ a, sampleCopies.outcomes = [.ok a, .ok a, .error .invalidSignature] ∧
      sampleCopies.recoverSigners = .error .invalidSignature ∧
      sampleTwice.recoverSigners = .ok [[a], [a]] := by
  obtain ⟨digest, a, hdigest, hrecover⟩ := exists_recover_sample
  have hgood : SignedPackage.recover ⟨.sample, .ofParts 1 1 27⟩ = .ok a :=
    Fallible.bind_eq_ok_iff.mpr ⟨digest, hdigest, hrecover⟩
  have hbroken : SignedPackage.recover ⟨.sample, ⟨Block.zero⟩⟩ = .error .invalidSignature :=
    Fallible.bind_eq_error_iff.mpr (.inr ⟨digest, hdigest, if_neg (by decide)⟩)
  refine ⟨a, ?_, ?_, ?_⟩
  · simp only [sampleCopies, outcomes_single, List.map_cons, List.map_nil, hgood, hbroken]
  · simp only [sampleCopies, recoverSigners, List.mapM_cons, hgood, hbroken]
    rfl
  · simp only [sampleTwice, recoverSigners, List.mapM_cons, List.mapM_nil, hgood]
    rfl

/-- A package that cannot be hashed is refused either way, even if no signature is needed.  Of one
that can be hashed, a signature, its repeat and a broken one make the same report, and without the
broken one the same signers are listed. -/
theorem generations_name_same_signers_sample :
    let good : Signature := .ofParts 1 1 27
    let broken : Signature := ⟨Block.zero⟩
    ([broken, good] ≠ [] ∧ [broken, good].length ≤ 255 ∧
      authorize ⟨.single [⟨⟨[], 7⟩, broken⟩, ⟨⟨[], 7⟩, good⟩], "x"⟩ (fun _ _ => true) ⟨"s", 0⟩ =
        .error (.unhashable .noPoints) ∧
      ∃ m, CosignedPackage.attach ⟨[], 7⟩ [broken, good] = .ok m ∧
        authorize ⟨.multi m, ""⟩ (fun _ _ => true) ⟨"s", 0⟩ = .error (.unhashable .noPoints) ∧
        recoverSigners ⟨.multi m, ""⟩ = .error .noPoints) ∧
    ∃ a,
      (∃ m, CosignedPackage.attach .sample [good, good, broken] = .ok m ∧
        sampleCopies.authorize (fun _ _ => true) ⟨"s", 1⟩ = .ok ⟨.ofList [a], [], 1⟩ ∧
        authorize ⟨.multi m, ""⟩ (fun _ _ => true) ⟨"s", 1⟩ = .ok ⟨.ofList [a], [], 1⟩ ∧
        recoverSigners ⟨.multi m, ""⟩ = .error .invalidSignature) ∧
      ∃ m, CosignedPackage.attach .sample [good, good] = .ok m ∧
        sampleTwice.recoverSigners = .ok [[a], [a]] ∧
        recoverSigners ⟨.multi m, ""⟩ = .ok [[a, a]] := by
  intro good broken
  obtain ⟨a, houtcomes, hrefused, hlists⟩ := exists_recoverSigners_copies
  have hne : [broken, good] ≠ [] := List.cons_ne_nil _ _
  have hle : [broken, good].length ≤ 255 := by decide
  refine ⟨⟨hne, hle, rfl, ?_⟩, a, ?_, ?_⟩
  · obtain ⟨m, hm, hauthorize, hsigners⟩ :=
      generations_name_same_signers ⟨[], 7⟩ _ hne hle "x" ""
    exact ⟨m, hm, (hauthorize _ _).symm.trans rfl, hsigners.trans rfl⟩
  · obtain ⟨m, hm, hauthorize, hsigners⟩ := generations_name_same_signers .sample
      [good, good, broken] (List.cons_ne_nil _ _) (by decide) "x" ""
    have hp : sampleCopies.Hashable := by
      simp [sampleCopies, Hashable, Content.dataPackages, DataPackage.exists_encode_sample]
    have hreport := authorize_of_repeated_vote hp houtcomes "s"
    refine ⟨m, hm, hreport, (hauthorize _ _).symm.trans hreport, hsigners.trans ?_⟩
    exact congrArg (Except.map fun lists => [lists.flatten]) hrefused
  · obtain ⟨m, hm, -, hsigners⟩ := generations_name_same_signers .sample [good, good]
      (List.cons_ne_nil _ _) (by decide) "x" ""
    refine ⟨m, hm, hlists, hsigners.trans ?_⟩
    exact congrArg (Except.map fun lists => [lists.flatten]) hlists

end Payload
end SignedFeeds
