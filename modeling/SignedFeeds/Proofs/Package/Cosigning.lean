/-
# Cosigning a package call by call

A cosigned package that is held somewhere is changed in place: a signature is added to it, or a
signer is asked for one.  Any of these calls may fail, and the package stays in use afterwards.
`CosignedPackage.Update` is such a change together with the state that a failure leaves behind,
so that a change which stops half-way would show.  None of them does: a call leaves what
`addSignature` or `cosign` computes, or the package as it was (`Call.update_eq`).

What a call can do is said once, in `Call.run_cases`.  The rest follows from it for whole runs,
by induction on the calls.
-/
import SignedFeeds.Proofs.Document.RoundTrip

namespace SignedFeeds
namespace CosignedPackage

/-! ## Changes in place -/

/-- A change of a cosigned package in place.  What it has changed before a failure stays
changed. -/
abbrev Update := EStateM WireError CosignedPackage Unit

/-- Adds a signature, if it can still be counted. -/
def addInPlace (sig : Signature) : Update := do
  ofExcept (checkCount ((← get).signatures.length + 1))
  modify fun m => { m with signatures := m.signatures ++ [sig] }

/-- Has a signer sign the hash of the package, and adds the signature. -/
def cosignInPlace (signer : Signer) : Update := do
  let hash ← ofExcept (← get).package.hash
  let sig ← ofExcept (signer.sign hash)
  addInPlace sig

/-- Puts a value in the place of the package, or fails and leaves the package alone. -/
def commit (result : Except WireError CosignedPackage) : Update := fun m =>
  match result with
  | .ok m' => .ok () m'
  | .error e => .error e m

lemma addInPlace_eq (sig : Signature) (m : CosignedPackage) :
    addInPlace sig m = commit (m.addSignature sig) m := by
  show (ofExcept (checkCount (m.signatures.length + 1)) >>= fun _ => modify _ : Update) m = _
  rw [addSignature]
  cases checkCount (m.signatures.length + 1) with
  | ok u => rfl
  | error e => rfl

lemma cosignInPlace_eq (signer : Signer) (m : CosignedPackage) :
    cosignInPlace signer m = commit (m.cosign signer) m := by
  show (ofExcept m.package.hash >>= fun hash => ofExcept (signer.sign hash) >>= addInPlace :
    Update) m = commit (m.package.hash >>= fun hash => signer.sign hash >>= m.addSignature) m
  cases m.package.hash with
  | error e => rfl
  | ok hash =>
    show (ofExcept (signer.sign hash) >>= addInPlace : Update) m =
      commit (signer.sign hash >>= m.addSignature) m
    cases signer.sign hash with
    | error e => rfl
    | ok sig => exact addInPlace_eq sig m

/-! ## Calls -/

/-- A call on a cosigned package. -/
inductive Call where
  /-- Adds a signature that was made elsewhere. -/
  | add (sig : Signature)
  /-- Asks a signer, who may refuse. -/
  | cosign (signer : Signer)

namespace Call

variable {call : Call} {m m' : CosignedPackage}

/-- The change that a call makes. -/
def update : Call → Update
  | .add sig => addInPlace sig
  | .cosign signer => cosignInPlace signer

/-- The result of a call and the package after it. -/
def run (call : Call) (m : CosignedPackage) : Except WireError Unit × CosignedPackage :=
  match call.update m with
  | .ok _ m' => (.ok (), m')
  | .error e m' => (.error e, m')

/-- The package with the change of a call, computed as a new value. -/
def apply : Call → CosignedPackage → Except WireError CosignedPackage
  | .add sig, m => m.addSignature sig
  | .cosign signer, m => m.cosign signer

/-- The signature that a call would add, if it gets one. -/
def offer : Call → CosignedPackage → Except WireError Signature
  | .add sig, _ => .ok sig
  | .cosign signer, m => m.package.hash >>= signer.sign

/-- In place a call leaves the value that is computed, or the package as it was. -/
lemma update_eq (call : Call) (m : CosignedPackage) :
    call.update m = commit (call.apply m) m := by
  cases call with
  | add sig => exact addInPlace_eq sig m
  | cosign signer => exact cosignInPlace_eq signer m

lemma apply_eq_bind (call : Call) (m : CosignedPackage) :
    call.apply m = call.offer m >>= m.addSignature := by
  cases call with
  | add sig => rfl
  | cosign signer => exact (bind_assoc ..).symm

lemma apply_eq_ok_iff :
    call.apply m = .ok m' ↔
      ∃ sig, call.offer m = .ok sig ∧ m.signatures.length < maxSigners ∧
        m' = ⟨m.package, m.signatures ++ [sig]⟩ := by
  rw [apply_eq_bind]
  simp only [Fallible.bind_eq_ok_iff, addSignature_eq_ok_iff]

/-- A call appends the signature that it gets, while there are fewer than 255, or fails and
leaves the package as it was. -/
lemma run_cases (call : Call) (m : CosignedPackage) :
    (∃ e, call.apply m = .error e ∧ call.run m = (.error e, m)) ∨
      ∃ sig, call.offer m = .ok sig ∧ m.signatures.length < maxSigners ∧
        call.apply m = .ok ⟨m.package, m.signatures ++ [sig]⟩ ∧
        call.run m = (.ok (), ⟨m.package, m.signatures ++ [sig]⟩) := by
  rw [run, update_eq]
  cases happly : call.apply m with
  | error e => exact .inl ⟨e, rfl, rfl⟩
  | ok m' =>
    obtain ⟨sig, hoffer, hlt, rfl⟩ := apply_eq_ok_iff.mp happly
    exact .inr ⟨sig, hoffer, hlt, rfl, rfl⟩

/-- A call that fails leaves the package exactly as it was. -/
lemma eq_of_run_error {e : WireError} (h : call.run m = (.error e, m')) :
    m' = m ∧ call.apply m = .error e := by
  rcases call.run_cases m with ⟨e', happly, hrun⟩ | ⟨sig, -, -, -, hrun⟩
  · rw [h] at hrun
    obtain ⟨he, rfl⟩ := Prod.mk.inj hrun
    obtain rfl := Except.error.inj he
    exact ⟨rfl, happly⟩
  · rw [h] at hrun
    cases hrun

lemma apply_of_run_ok {u : Unit} (h : call.run m = (.ok u, m')) : call.apply m = .ok m' := by
  rcases call.run_cases m with ⟨e, -, hrun⟩ | ⟨sig, -, -, happly, hrun⟩
  · rw [h] at hrun
    cases hrun
  · rw [h] at hrun
    obtain ⟨-, rfl⟩ := Prod.mk.inj hrun
    exact happly

lemma run_of_offer {sig : Signature} (hoffer : call.offer m = .ok sig)
    (hlt : m.signatures.length < maxSigners) :
    call.run m = (.ok (), ⟨m.package, m.signatures ++ [sig]⟩) := by
  have happly := apply_eq_ok_iff.mpr ⟨sig, hoffer, hlt, rfl⟩
  rw [run, update_eq, happly]
  rfl

end Call

/-! ## Runs of calls -/

variable {m m' : CosignedPackage} {calls : List Call}

/-- The package after a run of calls, each of which may fail. -/
def after (m : CosignedPackage) (calls : List Call) : CosignedPackage :=
  calls.foldl (fun m call => (call.run m).2) m

lemma after_cons (m : CosignedPackage) (call : Call) (calls : List Call) :
    m.after (call :: calls) = (call.run m).2.after calls := rfl

lemma after_concat (m : CosignedPackage) (calls : List Call) (call : Call) :
    m.after (calls ++ [call]) = (call.run (m.after calls)).2 := by
  rw [after, List.foldl_append]
  rfl

/-- The later package is the same one, with perhaps more signatures behind those it had. -/
structure Extends (later m : CosignedPackage) : Prop where
  package_eq : later.package = m.package
  isPrefix : m.signatures <+: later.signatures

lemma Extends.refl (m : CosignedPackage) : m.Extends m := ⟨rfl, List.prefix_rfl⟩

lemma Extends.trans {m'' : CosignedPackage} (h : m''.Extends m') (h' : m'.Extends m) :
    m''.Extends m :=
  ⟨h.package_eq.trans h'.package_eq, h'.isPrefix.trans h.isPrefix⟩

lemma Call.run_extends (call : Call) (m : CosignedPackage) : (call.run m).2.Extends m := by
  rcases call.run_cases m with ⟨e, -, hrun⟩ | ⟨sig, -, -, -, hrun⟩
  · rw [hrun]
    exact .refl m
  · rw [hrun]
    exact ⟨rfl, List.prefix_append _ _⟩

lemma after_extends (m : CosignedPackage) (calls : List Call) : (m.after calls).Extends m := by
  induction calls generalizing m with
  | nil => exact .refl m
  | cons call calls ih =>
    rw [after_cons]
    exact (ih _).trans (call.run_extends m)

lemma Call.run_counted (h : m.Counted) (call : Call) : (call.run m).2.Counted := by
  rcases call.run_cases m with ⟨e, -, hrun⟩ | ⟨sig, -, hlt, -, hrun⟩
  · rw [hrun]
    exact h
  · rw [hrun, Counted, List.length_append, List.length_singleton]
    exact ⟨Nat.succ_pos _, hlt⟩

lemma after_counted (h : m.Counted) (calls : List Call) : (m.after calls).Counted := by
  induction calls generalizing m with
  | nil => exact h
  | cons call calls ih =>
    rw [after_cons]
    exact ih (call.run_counted h)

/-! ## Where a cosigned package comes from -/

/-- The ways to obtain a cosigned package: it is signed, put together, read from a buffer or
read from a document. -/
inductive Built (m : CosignedPackage) : Prop
  | signed {p : DataPackage} {signers : List Signer} (h : sign p signers = .ok m)
  | attached {p : DataPackage} {signatures : List Signature} (h : attach p signatures = .ok m)
  | read {t t' : Tail} (h : read t = .ok m t')
  | document {doc : CosignedDocument} (h : ofDocument doc = .ok m)

lemma Built.counted (h : Built m) : m.Counted := by
  cases h with
  | signed h =>
    obtain ⟨_, -, h⟩ := Fallible.bind_eq_ok_iff.mp h
    obtain ⟨_, -, h⟩ := Fallible.bind_eq_ok_iff.mp h
    obtain ⟨_, -, h⟩ := Fallible.bind_eq_ok_iff.mp h
    exact (attach_eq_ok_iff.mp h).2
  | attached h => exact (attach_eq_ok_iff.mp h).2
  | read h =>
    obtain ⟨bytes, ⟨-, hencode⟩, -⟩ := (read_accepts _ _ _).mp h
    exact counted_of_encode hencode
  | document h => exact counted_of_ofDocument h

/-- With a number of signatures that can be counted, only the data package can be at fault. -/
lemma encode_eq_error_iff (h : m.Counted) {e : WireError} :
    m.encode = .error e ↔ m.package.encode = .error e := by
  rw [encode_eq_of_counted h]
  cases m.package.encode with
  | ok front => exact iff_of_false (by rintro ⟨⟩) (by rintro ⟨⟩)
  | error e' => exact Iff.rfl

/-- No data package is at fault for a number of signatures. -/
lemma signers_not_at_fault {p : DataPackage} {e : WireError} (h : p.encode = .error e) :
    e ≠ .noSignatures ∧ ∀ value width, e ≠ .counterOverflow "signers count" value width := by
  have hfault := DataPackage.fault_of_encode h
  constructor
  · rintro rfl
    cases hfault
  · rintro value width rfl
    obtain ⟨c, hlisted, hname⟩ := hfault.of_counterOverflow
    have hother : ∀ c ∈ [Counter.timestamp, .valueWidth, .points], c.name ≠ "signers count" := by
      decide
    exact hother c hlisted hname

/-- **Cosigning only appends.**  Whichever way a cosigned package has been obtained, and whatever
calls have been made on it since: it has between 1 and 255 signatures, it is the same data package
as in the beginning, and the signatures that it had stand in front of those that it has got.
Each further call keeps all of this.  A call that fails leaves the package exactly as it was, and
a call with a signature to add succeeds as long as there are fewer than 255.  So the bytes can
be written whenever those of the data package can, and the number of signatures is never at
fault. -/
theorem cosigning_only_appends {m : CosignedPackage} (h : m.Built) (calls : List Call) :
    (1 ≤ (m.after calls).signatures.length ∧ (m.after calls).signatures.length ≤ 255) ∧
    ((m.after calls).package = m.package ∧ m.signatures <+: (m.after calls).signatures) ∧
    (∀ call later result, call.run (m.after calls) = (result, later) →
      m.after (calls ++ [call]) = later ∧
      later.package = (m.after calls).package ∧
      (m.after calls).signatures <+: later.signatures ∧
      (∀ e, result = .error e →
        later = m.after calls ∧ call.apply (m.after calls) = .error e) ∧
      (∀ u, result = .ok u → call.apply (m.after calls) = .ok later) ∧
      ∀ sig, call.offer (m.after calls) = .ok sig → (m.after calls).signatures.length < 255 →
        result = .ok () ∧ later.signatures = (m.after calls).signatures ++ [sig]) ∧
    (∀ e, (m.after calls).encode = .error e ↔ m.package.encode = .error e) ∧
    ∀ e, (m.after calls).encode = .error e →
      e ≠ .noSignatures ∧ ∀ value width, e ≠ .counterOverflow "signers count" value width := by
  have hcounted : (m.after calls).Counted := after_counted h.counted calls
  have hextends := after_extends m calls
  have hencode (e : WireError) :
      (m.after calls).encode = .error e ↔ m.package.encode = .error e := by
    rw [encode_eq_error_iff hcounted, hextends.package_eq]
  refine ⟨hcounted, ⟨hextends.package_eq, hextends.isPrefix⟩, ?_, hencode, fun e he =>
    signers_not_at_fault ((hencode e).mp he)⟩
  intro call later result hrun
  have hlater : (call.run (m.after calls)).2 = later := congrArg Prod.snd hrun
  have hstep := call.run_extends (m.after calls)
  rw [hlater] at hstep
  refine ⟨by rw [after_concat, hlater], hstep.package_eq, hstep.isPrefix, ?_, ?_, ?_⟩
  · rintro e rfl
    exact Call.eq_of_run_error hrun
  · rintro u rfl
    exact Call.apply_of_run_ok hrun
  · intro sig hoffer hlt
    rw [Call.run_of_offer hoffer hlt] at hrun
    obtain ⟨rfl, rfl⟩ := Prod.mk.inj hrun
    exact ⟨rfl, rfl⟩

/-- A signer who refuses, a signature that is added after that, and more signatures than can be
counted. -/
theorem cosigning_only_appends_sample :
    ∃ m : CosignedPackage, attach .sample [⟨Block.zero⟩] = .ok m ∧ m.Built ∧
      (Call.cosign .refusing).run m = (.error (.undecodable "signer refused"), m) ∧
      (m.after ([.cosign .refusing] ++ [.add (.ofParts 1 1 27)])).signatures =
        [⟨Block.zero⟩, .ofParts 1 1 27] ∧
      (m.after (List.replicate 300 (.add ⟨Block.zero⟩))).signatures.length ≤ 255 ∧
      ∃ bytes, (m.after (List.replicate 300 (.add ⟨Block.zero⟩))).encode = .ok bytes := by
  obtain ⟨front, hfront⟩ := DataPackage.exists_encode_sample
  have hattach : attach .sample [⟨Block.zero⟩] = .ok ⟨.sample, [⟨Block.zero⟩]⟩ := rfl
  have hbuilt := Built.attached hattach
  have hrefuse : (Call.cosign .refusing).run ⟨.sample, [⟨Block.zero⟩]⟩ =
      (.error (.undecodable "signer refused"), ⟨.sample, [⟨Block.zero⟩]⟩) := by
    rw [Call.run, Call.update_eq, Call.apply, cosign, DataPackage.hash, hfront]
    rfl
  have hsame : after ⟨.sample, [⟨Block.zero⟩]⟩ [.cosign .refusing] = ⟨.sample, [⟨Block.zero⟩]⟩ :=
    congrArg Prod.snd hrefuse
  obtain ⟨-, -, hstep, -⟩ := cosigning_only_appends hbuilt [.cosign .refusing]
  obtain ⟨hafter, -, -, -, -, hadd⟩ := hstep (.add (.ofParts 1 1 27)) _ _ rfl
  obtain ⟨⟨-, hle⟩, -, -, hencode, -⟩ :=
    cosigning_only_appends hbuilt (List.replicate 300 (.add ⟨Block.zero⟩))
  refine ⟨_, hattach, hbuilt, hrefuse, ?_, hle, ?_⟩
  · rw [hafter, (hadd _ rfl (by rw [hsame]; decide)).2, hsame]
    rfl
  · cases hbytes : (after ⟨.sample, [⟨Block.zero⟩]⟩
        (List.replicate 300 (.add ⟨Block.zero⟩))).encode with
    | ok bytes => exact ⟨bytes, rfl⟩
    | error e =>
      -- then the data package could not be written either
      have hnone := (hencode e).mp hbytes
      rw [hfront] at hnone
      cases hnone

end CosignedPackage
end SignedFeeds
