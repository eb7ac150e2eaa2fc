/-
# What the writers of signed packages append

A writer appends to an output and may stop half-way.  The writers of signed and of cosigned
packages do not: what they append is all of their bytes, or nothing if there is an error
(`Writer.AllOrNothing`).  This is kept by doing one step after the other as long as no step can
fail behind one that has appended something.  A cosigned package has such a step: the number of its
signatures is written last.  The check in front of everything else makes sure that it fits.
-/
import SignedFeeds.Package.Cosigned
import SignedFeeds.Package.Signed
import SignedFeeds.Proofs.Package.Encoding

namespace SignedFeeds

namespace Writer

variable {output : List UInt8}

lemma run_bind (w : Writer Unit) (next : Unit → Writer Unit) :
    Writer.run (w >>= next) output =
      match w.run output with
      | (.ok u, output) => (next u).run output
      | (.error e, output) => (.error e, output) := by
  simp only [Writer.run, EStateM.run, bind, EStateM.bind]
  cases w output <;> rfl

/-- Whatever the output, the writer appends the given bytes to it; or, if an error is given, it
fails with this error and leaves the output as it was. -/
def AllOrNothing (w : Writer Unit) (result : Except WireError (List UInt8)) : Prop :=
  ∀ output, w.run output =
    match result with
    | .ok bytes => (.ok (), output ++ bytes)
    | .error e => (.error e, output)

variable {w w' : Writer Unit} {result : Except WireError (List UInt8)} {back : List UInt8}

/-- The bytes are those that an empty output is left with. -/
lemma AllOrNothing.toBytes_eq (h : AllOrNothing w result) : w.toBytes = result := by
  rw [Writer.toBytes, h []]
  cases result <;> rfl

lemma allOrNothing_emit (bs : List UInt8) : AllOrNothing (emit bs) (.ok bs) := fun _ => rfl

lemma allOrNothing_emitAll (result : Except WireError (List UInt8)) :
    AllOrNothing (emitAll result) result := fun output => by
  cases result <;> rfl

lemma allOrNothing_forM_emit {α : Type} (xs : List α) (f : α → List UInt8) :
    AllOrNothing (xs.forM fun x => emit (f x)) (.ok (xs.flatMap f)) := by
  induction xs with
  | nil =>
    intro output
    exact congrArg (Prod.mk (Except.ok ())) (List.append_nil output).symm
  | cons x xs ih =>
    intro output
    show Writer.run (emit (f x) >>= fun _ => xs.forM fun y => emit (f y)) output = _
    rw [run_bind, allOrNothing_emit (f x) output]
    simp only [ih (output ++ f x), List.flatMap_cons, List.append_assoc]

/-- Nothing has been appended when a check in front fails. -/
lemma AllOrNothing.check_bind (first : Except WireError Unit) (h : AllOrNothing w result) :
    AllOrNothing (check first >>= fun _ => w) (first >>= fun _ => result) := by
  intro output
  rw [run_bind]
  cases first with
  | error e => rfl
  | ok u => exact h output

/-- Behind a step that appends something stands a step that cannot fail where it is reached. -/
lemma AllOrNothing.bind (h : AllOrNothing w result)
    (h' : ∀ front, result = .ok front → AllOrNothing w' (.ok back)) :
    AllOrNothing (w >>= fun _ => w') (result.map (· ++ back)) := by
  intro output
  rw [run_bind, h output]
  cases result with
  | error e => rfl
  | ok front =>
    exact (h' front rfl (output ++ front)).trans
      (congrArg (Prod.mk (Except.ok ())) (List.append_assoc output front back))

end Writer

namespace SignedPackage

lemma allOrNothing_write (m : SignedPackage) :
    Writer.AllOrNothing m.write (m.package.encode.map (· ++ m.signature.bytes)) :=
  (Writer.allOrNothing_emitAll m.package.encode).bind fun _ _ => Writer.allOrNothing_emit _

lemma encode_eq (m : SignedPackage) : m.encode = m.package.encode.map (· ++ m.signature.bytes) :=
  m.allOrNothing_write.toBytes_eq

lemma encode_eq_ok_iff {m : SignedPackage} {bytes : List UInt8} :
    m.encode = .ok bytes ↔
      ∃ front, m.package.encode = .ok front ∧ bytes = front ++ m.signature.bytes := by
  rw [encode_eq, Fallible.map_eq_ok_iff]

end SignedPackage

namespace CosignedPackage

lemma length_signatures (signatures : List Signature) :
    (signatures.flatMap fun sig => sig.bytes).length = signatures.length * 65 := by
  induction signatures with
  | nil => rfl
  | cons sig rest ih =>
    rw [List.flatMap_cons, List.length_append, sig.length_bytes, ih, List.length_cons,
      Nat.succ_mul, Nat.add_comm]

lemma checkCount_eq_ok_iff {count : Nat} {u : Unit} :
    checkCount count = .ok u ↔ 0 < count ∧ count ≤ maxSigners := by
  rw [checkCount]
  split_ifs <;> simp <;> omega

/-- Between 1 and 255 signatures can be counted in the field behind them. -/
lemma encode_count_of_checkCount {count : Nat} {u : Unit} (h : checkCount count = .ok u) :
    Counter.signers.encode count = .ok (BigEndian.ofNat Counter.signers.width count) := by
  have hle : count ≤ 255 := (checkCount_eq_ok_iff.mp h).2
  have hcapacity : BigEndian.capacity Counter.signers.width = 256 := by decide
  exact Counter.encode_eq_ok_iff.mpr ⟨by omega, rfl⟩

lemma checkCount_of_encode_count {count : Nat} {n : List UInt8} (hpos : 0 < count)
    (hn : Counter.signers.encode count = .ok n) : checkCount count = .ok () := by
  have hlt : count < 256 := (Counter.encode_eq_ok_iff.mp hn).1
  exact checkCount_eq_ok_iff.mpr ⟨hpos, Nat.le_of_lt_succ hlt⟩

/-- There are between 1 and 255 signatures. -/
def Counted (m : CosignedPackage) : Prop :=
  1 ≤ m.signatures.length ∧ m.signatures.length ≤ maxSigners

lemma counted_iff {m : CosignedPackage} : checkCount m.signatures.length = .ok () ↔ m.Counted :=
  checkCount_eq_ok_iff

lemma attach_eq_ok_iff {p : DataPackage} {signatures : List Signature} {m : CosignedPackage} :
    attach p signatures = .ok m ↔ m = ⟨p, signatures⟩ ∧ m.Counted := by
  rw [attach, Fallible.bind_eq_ok_iff]
  constructor
  · rintro ⟨_, hcount, hm⟩
    obtain rfl := Fallible.pure_eq_ok_iff.mp hm
    exact ⟨rfl, counted_iff.mp hcount⟩
  · rintro ⟨rfl, hcounted⟩
    exact ⟨(), counted_iff.mpr hcounted, rfl⟩

lemma addSignature_eq_ok_iff {m m' : CosignedPackage} {sig : Signature} :
    m.addSignature sig = .ok m' ↔
      m.signatures.length < maxSigners ∧ m' = ⟨m.package, m.signatures ++ [sig]⟩ := by
  rw [addSignature, Fallible.bind_eq_ok_iff]
  constructor
  · rintro ⟨_, hcount, hm'⟩
    exact ⟨(checkCount_eq_ok_iff.mp hcount).2, Fallible.pure_eq_ok_iff.mp hm'⟩
  · rintro ⟨hlt, rfl⟩
    exact ⟨(), checkCount_eq_ok_iff.mpr ⟨Nat.succ_pos _, hlt⟩, rfl⟩

/-- All that is written in front of the number of signatures. -/
def writeUncounted (m : CosignedPackage) : Writer Unit := do
  Writer.check (checkCount m.signatures.length)
  Writer.emitAll m.package.encode
  m.signatures.forM fun signature => Writer.emit signature.bytes

lemma write_eq (m : CosignedPackage) :
    m.write = m.writeUncounted >>= fun _ => Writer.emitCounter .signers m.signatures.length := by
  simp only [write, writeUncounted, bind_assoc]

lemma allOrNothing_writeUncounted (m : CosignedPackage) :
    Writer.AllOrNothing m.writeUncounted
      (checkCount m.signatures.length >>= fun _ =>
        m.package.encode.map (· ++ m.signatures.flatMap fun sig => sig.bytes)) :=
  .check_bind _ ((Writer.allOrNothing_emitAll m.package.encode).bind fun _ _ =>
    Writer.allOrNothing_forM_emit _ _)

/-- A number of signatures that has passed the check can be written. -/
lemma allOrNothing_emitCounter {count : Nat} {u : Unit} (h : checkCount count = .ok u) :
    Writer.AllOrNothing (Writer.emitCounter .signers count)
      (.ok (BigEndian.ofNat Counter.signers.width count)) := by
  rw [← encode_count_of_checkCount h]
  exact Writer.allOrNothing_emitAll _

lemma allOrNothing_write (m : CosignedPackage) :
    Writer.AllOrNothing m.write
      ((checkCount m.signatures.length >>= fun _ =>
        m.package.encode.map (· ++ m.signatures.flatMap fun sig => sig.bytes)).map
          (· ++ BigEndian.ofNat Counter.signers.width m.signatures.length)) := by
  rw [write_eq]
  refine m.allOrNothing_writeUncounted.bind fun front hfront => ?_
  obtain ⟨u, hcount, -⟩ := Fallible.bind_eq_ok_iff.mp hfront
  exact allOrNothing_emitCounter hcount

/-- With a number of signatures that can be counted, all depends on the data package. -/
lemma encode_eq_of_counted {m : CosignedPackage} (h : m.Counted) :
    m.encode = m.package.encode.map fun front =>
      front ++ (m.signatures.flatMap (fun sig => sig.bytes) ++
        BigEndian.ofNat Counter.signers.width m.signatures.length) := by
  rw [encode, m.allOrNothing_write.toBytes_eq, counted_iff.mpr h]
  cases m.package.encode with
  | error e => rfl
  | ok front => exact congrArg Except.ok (List.append_assoc _ _ _)

/-- A number of signatures that is refused is refused before anything else is looked at. -/
lemma encode_of_checkCount_eq_error {m : CosignedPackage} {e : WireError}
    (h : checkCount m.signatures.length = .error e) : m.encode = .error e := by
  rw [encode, m.allOrNothing_write.toBytes_eq, h]
  rfl

lemma encode_eq_ok_iff {m : CosignedPackage} {bytes : List UInt8} :
    m.encode = .ok bytes ↔
      ∃ front n, m.package.encode = .ok front ∧ 0 < m.signatures.length ∧
        Counter.signers.encode m.signatures.length = .ok n ∧
        bytes = front ++ (m.signatures.flatMap (fun sig => sig.bytes) ++ n) := by
  cases hcount : checkCount m.signatures.length with
  | error e =>
    rw [encode_of_checkCount_eq_error hcount]
    refine iff_of_false (by rintro ⟨⟩) ?_
    rintro ⟨front, n, _, hpos, hn, _⟩
    rw [checkCount_of_encode_count hpos hn] at hcount
    cases hcount
  | ok u =>
    have hpos := (checkCount_eq_ok_iff.mp hcount).1
    rw [encode_eq_of_counted (counted_iff.mp hcount), Fallible.map_eq_ok_iff]
    simp only [encode_count_of_checkCount hcount, Except.ok.injEq]
    constructor
    · rintro ⟨front, hfront, rfl⟩
      exact ⟨front, _, hfront, hpos, rfl, rfl⟩
    · rintro ⟨front, _, hfront, -, rfl, rfl⟩
      exact ⟨front, hfront, rfl⟩

lemma counted_of_encode {m : CosignedPackage} {bytes : List UInt8} (h : m.encode = .ok bytes) :
    m.Counted := by
  obtain ⟨_, _, -, hpos, hn, -⟩ := encode_eq_ok_iff.mp h
  exact counted_iff.mp (checkCount_of_encode_count hpos hn)

end CosignedPackage
end SignedFeeds
