/-
# Writing a payload into one output

`Payload.encode` puts the bytes of a payload together from the bytes of its parts.  Written into
one output they come out one step after the other: the packages in their order, and each number
behind what it counts.  When a step fails, what the steps before it have appended is still there,
and is dropped with the output.

`Appends` relates a step to the bytes of its part.  It is closed under doing one step after the
other, so a loop over the packages appends the bytes of all of them, or fails as the first package
does that cannot be written.
-/
import SignedFeeds.Proofs.Payload.Encoding

namespace SignedFeeds

namespace Payload

lemma liftWire_pure {α : Type} (a : α) : liftWire (pure a) = pure a := rfl

lemma liftWire_bind {α β : Type} (x : Except WireError α) (f : α → Except WireError β) :
    liftWire (x >>= f) = liftWire x >>= fun a => liftWire (f a) := by
  cases x <;> rfl

end Payload

/-- A computation that appends the bytes of a payload to an output and may fail. -/
abbrev PayloadWriter := EStateM PayloadError (List UInt8)

namespace PayloadWriter

/-- Lets a writer of the package layer fail as one of the payload layer. -/
def lift (w : Writer Unit) : PayloadWriter Unit := EStateM.adaptExcept PayloadError.wire w

/-- Appends the given bytes. -/
def emit (bs : List UInt8) : PayloadWriter Unit := modify (· ++ bs)

/-- The bytes that are appended to an empty output. -/
def toBytes (w : PayloadWriter Unit) : Except PayloadError (List UInt8) :=
  match EStateM.run w [] with
  | .ok _ output => .ok output
  | .error e _ => .error e

/-- Whatever the output, the writer appends the given bytes to it, or fails with the given
error. -/
def Appends (w : PayloadWriter Unit) : Except PayloadError (List UInt8) → Prop
  | .ok bs => ∀ output, w output = .ok () (output ++ bs)
  | .error e => ∀ output, ∃ left, w output = .error e left

variable {w w' : PayloadWriter Unit} {first second : Except PayloadError (List UInt8)}

lemma Appends.toBytes_eq (h : Appends w first) : w.toBytes = first := by
  cases first with
  | ok bs => rw [toBytes, EStateM.run, h []]; rfl
  | error e =>
    obtain ⟨left, hleft⟩ := h []
    rw [toBytes, EStateM.run, hleft]

lemma appends_emit (bs : List UInt8) : Appends (emit bs) (pure bs) := fun _ => rfl

lemma appends_pure : Appends (pure ()) (.ok []) := fun output => by rw [List.append_nil]; rfl

lemma appends_throw (e : PayloadError) : Appends (throw e) (.error e) := fun output => ⟨output, rfl⟩

lemma bind_apply (w w' : PayloadWriter Unit) (output : List UInt8) :
    (w >>= fun _ => w') output =
      match w output with
      | .ok _ output => w' output
      | .error e output => .error e output := by
  show EStateM.bind w (fun _ => w') output = _
  rw [EStateM.bind]
  cases w output <;> rfl

/-- One step after the other: the second one is only made after a first one that succeeds. -/
lemma Appends.bind (h : Appends w first) (h' : Appends w' second) :
    Appends (w >>= fun _ => w') (do return (← first) ++ (← second)) := by
  cases first with
  | error e =>
    intro output
    obtain ⟨left, hleft⟩ := h output
    exact ⟨left, by rw [bind_apply, hleft]⟩
  | ok bs =>
    cases second with
    | error e =>
      intro output
      obtain ⟨left, hleft⟩ := h' (output ++ bs)
      exact ⟨left, by rw [bind_apply, h output]; exact hleft⟩
    | ok bs' =>
      intro output
      rw [bind_apply, h output, ← List.append_assoc]
      exact h' (output ++ bs)

lemma lift_apply (w : Writer Unit) (output : List UInt8) :
    lift w output =
      match w.run output with
      | (.ok _, output) => .ok () output
      | (.error e, output) => .error (.wire e) output := by
  rw [lift, EStateM.adaptExcept, Writer.run, EStateM.run]
  cases w output <;> rfl

/-- A writer of the package layer that appends all of its bytes or nothing. -/
lemma appends_lift {w : Writer Unit} {result : Except WireError (List UInt8)}
    (h : w.AllOrNothing result) : Appends (lift w) (Payload.liftWire result) := by
  cases result with
  | ok bs => exact fun output => by rw [lift_apply, h output]
  | error e => exact fun output => ⟨output, by rw [lift_apply, h output]⟩

lemma appends_package (m : SignedPackage) :
    Appends (lift m.write) (Payload.liftWire m.encode) := by
  rw [m.encode_eq]
  exact appends_lift m.allOrNothing_write

lemma appends_cosigned (m : CosignedPackage) :
    Appends (lift m.write) (Payload.liftWire m.encode) := by
  rw [CosignedPackage.encode, m.allOrNothing_write.toBytes_eq]
  exact appends_lift m.allOrNothing_write

lemma appends_counter (c : Counter) (n : Nat) :
    Appends (lift (Writer.emitCounter c n)) (Payload.liftWire (c.encode n)) :=
  appends_lift (Writer.allOrNothing_emitAll _)

/-- A loop over the packages appends what the packages are written as, in their order. -/
lemma appends_packages (packages : List SignedPackage) :
    Appends (packages.forM fun m => lift m.write)
      ((Payload.liftWire (packages.mapM SignedPackage.encode)).map List.flatten) := by
  induction packages with
  | nil => exact appends_pure
  | cons m packages ih =>
    have hstep := (appends_package m).bind ih
    simp only [Fallible.map_eq_bind, bind_assoc, pure_bind] at hstep
    simp only [List.mapM_cons, Payload.liftWire_bind, Payload.liftWire_pure, Fallible.map_eq_bind,
      bind_assoc, pure_bind, List.flatten_cons]
    exact hstep

end PayloadWriter

namespace Payload

open PayloadWriter

/-- Appends everything in front of the marker, one step after the other. -/
def writeBody (metadata : List UInt8) : Content → PayloadWriter Unit
  | .single packages => do
    if packages.isEmpty then throw .noPackages
    if endsWithTag metadata then throw .ambiguousMetadata
    packages.forM fun m => lift m.write
    lift (Writer.emitCounter .packages packages.length)
    emit metadata
    lift (Writer.emitCounter .metadataSize metadata.length)
  | .multi m => do
    lift m.write
    emit metadata
    emit versionTag
    lift (Writer.emitCounter .metadataSize (metadata.length + versionTag.length))

/-- The bytes of the payload, written into an empty output. -/
def encodeInSteps (p : Payload) : Except PayloadError (List UInt8) :=
  PayloadWriter.toBytes do
    writeBody (Text.toBytes p.metadata) p.content
    emit marker

/-- What `encode` puts in front of the marker. -/
def encodeBody (metadata : List UInt8) (c : Content) : Except PayloadError (List UInt8) := do
  let front ← encodeFront metadata c
  let size ← liftWire (Counter.metadataSize.encode (tagged metadata c.generation).length)
  return front ++ (tagged metadata c.generation ++ size)

lemma appends_writeBody (metadata : List UInt8) (c : Content) :
    Appends (writeBody metadata c) (encodeBody metadata c) := by
  cases c with
  | multi m =>
    have hsteps := (appends_cosigned m).bind ((appends_emit metadata).bind
      ((appends_emit versionTag).bind (appends_counter .metadataSize
        (metadata.length + versionTag.length))))
    simpa only [writeBody, encodeBody, encodeFront, tagged, Content.generation, List.length_append,
      List.append_assoc, bind_assoc, pure_bind] using hsteps
  | single packages =>
    rw [writeBody, encodeBody, encodeFront]
    by_cases hempty : packages.isEmpty
    · simp only [hempty, if_true]
      exact appends_throw _
    by_cases htag : endsWithTag metadata
    · simp only [hempty, htag, if_true, Bool.false_eq_true, if_false]
      exact appends_throw _
    have hsteps := (appends_packages packages).bind
      ((appends_counter .packages packages.length).bind
        ((appends_emit metadata).bind (appends_counter .metadataSize metadata.length)))
    simpa only [hempty, htag, Bool.false_eq_true, if_false, tagged, Content.generation,
      Fallible.map_eq_bind, List.append_assoc, bind_assoc, pure_bind] using hsteps

/-- Written step by step, a payload has the same bytes or the same error. -/
lemma encodeInSteps_eq (p : Payload) : p.encodeInSteps = p.encode := by
  rw [encodeInSteps, ((appends_writeBody _ _).bind (appends_emit marker)).toBytes_eq, encode,
    encodeBody]
  simp only [bind_assoc, pure_bind, List.append_assoc]
  rfl

end Payload
end SignedFeeds
