/-
# Limits only filter

A reader with lower limits does what one with higher limits does, or refuses the buffer because
a count is above one of its limits.  It never finds another payload, and no fault is hidden by
another fault.  A payload that can be found is refused exactly when it is not within the limits.

The number of data points is looked up before it is read, by an offset that is computed from
the number of signatures.  `FiltersAt` follows the two readers step by step through a buffer of
any form; that the look sees the very count which the package begins with is known for the
buffers that hold a payload (`parse_eq_ok_iff`).

The default limits are the largest counts that fit into their fields, so they refuse nothing.
-/
import SignedFeeds.Proofs.Payload.RoundTrip
import SignedFeeds.Proofs.Reading.Locality

namespace SignedFeeds

/-! ## Readers that stop early -/

namespace Reader

variable {ε α β : Type} {stop pass : ε → Prop} {read read' : Reader ε α}
  {next next' : α → Reader ε β} {t : Tail}

/-- The first reader stops here with an error of one sort, or it runs like the second reader
and, if it fails, fails with an error of the other sort. -/
def FiltersAt (stop pass : ε → Prop) (read read' : Reader ε α) (t : Tail) : Prop :=
  RunsOut stop read t ∨ read' t = read t ∧ ∀ e t', read t = .error e t' → pass e

namespace FiltersAt

protected lemma pure (a : α) : FiltersAt stop pass (pure a : Reader ε α) (pure a) t :=
  .inr ⟨rfl, by rintro _ _ ⟨⟩⟩

protected lemma throw {e : ε} (he : pass e) :
    FiltersAt stop pass (throw e : Reader ε α) (throw e) t := by
  refine .inr ⟨rfl, fun e' t' h => ?_⟩
  obtain ⟨rfl, -⟩ := EStateM.Result.error.inj h
  exact he

lemma bind (h : FiltersAt stop pass read read' t)
    (hnext : ∀ a t', read t = .ok a t' → FiltersAt stop pass (next a) (next' a) t') :
    FiltersAt stop pass (read >>= next) (read' >>= next') t := by
  rcases h with hout | ⟨hsame, hpass⟩
  · exact .inl hout.bind
  cases hread : read t with
  | error e t' =>
    refine .inr ⟨by rw [bind_apply, bind_apply, hsame, hread], fun e' t'' h => ?_⟩
    rw [bind_apply, hread] at h
    obtain ⟨rfl, -⟩ := EStateM.Result.error.inj h
    exact hpass _ _ hread
  | ok a t' =>
    rcases hnext a t' hread with hout | ⟨hsame', hpass'⟩
    · exact .inl (.after hread hout)
    · refine .inr ⟨by rw [bind_apply, bind_apply, hsame, hread]; exact hsame', fun e' t'' h => ?_⟩
      rw [bind_apply, hread] at h
      exact hpass' e' t'' h

lemma map (h : FiltersAt stop pass read read' t) (f : α → β) :
    FiltersAt stop pass (f <$> read) (f <$> read') t := by
  rw [← bind_pure_comp, ← bind_pure_comp]
  exact h.bind fun a _ _ => .pure (f a)

/-- Both readers make the same test. -/
lemma guarded {cond : Prop} [Decidable cond] {e : ε} {next next' : Unit → Reader ε α}
    (he : pass e) (h : FiltersAt stop pass (next ()) (next' ()) t) :
    FiltersAt stop pass (if cond then throw e >>= next else next ())
      (if cond then throw e >>= next' else next' ()) t := by
  split
  · exact (FiltersAt.throw he).bind fun _ _ => by rintro ⟨⟩
  · exact h

/-- The first reader refuses whatever the second one refuses, and perhaps more. -/
lemma refused {cond cond' : Prop} [Decidable cond] [Decidable cond'] {fault fault' : Reader ε α}
    (hstop : cond → RunsOut stop fault t) (hcond : cond' → cond)
    (h : FiltersAt stop pass read read' t) :
    FiltersAt stop pass (if cond then fault else read) (if cond' then fault' else read') t := by
  by_cases hc : cond
  · rw [if_pos hc]
    exact .inl (hstop hc)
  · rw [if_neg hc, if_neg (mt hcond hc)]
    exact h

lemma times (h : ∀ t, FiltersAt stop pass read read' t) (count : Nat) :
    FiltersAt stop pass (times count read) (times count read') t := by
  suffices hgo : ∀ done t, FiltersAt stop pass (times.go read count done)
      (times.go read' count done) t from hgo [] t
  induction count with
  | zero => exact fun done t => .pure done
  | succ count ih => exact fun done t => (h t).bind fun item t' _ => ih (item :: done) t'

end FiltersAt

end Reader

/-! ## Limits -/

/-- The limits are compared count by count. -/
instance : LE Limits := ⟨fun l l' => l.maxPackages ≤ l'.maxPackages ∧ l.maxPoints ≤ l'.maxPoints⟩

instance (l l' : Limits) : Decidable (l ≤ l') :=
  inferInstanceAs (Decidable (l.maxPackages ≤ l'.maxPackages ∧ l.maxPoints ≤ l'.maxPoints))

/-- The error tells that a count is above one of the limits.  It names the count, which fits
into its field, and the limit. -/
inductive Limits.Exceeded (limits : Limits) : PayloadError → Prop
  | packages {count : Nat} (above : limits.maxPackages < count)
      (fits : count < BigEndian.capacity Counter.packages.width) :
      limits.Exceeded (.limitExceeded "data packages" count limits.maxPackages)
  | points {count : Nat} (above : limits.maxPoints < count)
      (fits : count < BigEndian.capacity Counter.points.width) :
      limits.Exceeded (.limitExceeded "data points" count limits.maxPoints)

/-- The error tells that a count is above a limit. -/
def PayloadError.IsLimit : PayloadError → Prop
  | .limitExceeded _ _ _ => True
  | _ => False

lemma Limits.Exceeded.isLimit {limits : Limits} {e : PayloadError} (h : limits.Exceeded e) :
    e.IsLimit := by
  cases h <;> trivial

/-- The default limits are the largest counts that fit. -/
lemma Limits.not_exceeded_default (e : PayloadError) : ¬ Exceeded {} e := by
  rintro (⟨above, fits⟩ | ⟨above, fits⟩)
  · exact absurd fits (Nat.not_lt.mpr above)
  · exact absurd fits (Nat.not_lt.mpr above)

namespace Payload

open Reader

variable {limits limits' : Limits} {t : Tail}

/-- The reader with the given limits refuses a count, or runs like the other reader and does
not fail over a count. -/
abbrev LimitsAt {α : Type} (limits : Limits) (read read' : PayloadReader α) (t : Tail) : Prop :=
  FiltersAt limits.Exceeded (fun e => ¬ e.IsLimit) read read' t

/-- The reader does not fail over a count, whatever the limits. -/
abbrev UnlimitedAt {α : Type} (limits : Limits) (read : PayloadReader α) (t : Tail) : Prop :=
  LimitsAt limits read read t

lemma liftReader_unlimited {α : Type} (read : Reader WireError α) :
    UnlimitedAt limits (liftReader read) t := by
  refine .inr ⟨rfl, fun e t' h => ?_⟩
  rw [liftReader, mapError] at h
  split at h
  · cases h
  · obtain ⟨rfl, -⟩ := EStateM.Result.error.inj h
    rintro ⟨⟩

lemma inspect_bind_limits {α β : Type} {f : Tail → α} {next next' : α → PayloadReader β}
    (h : LimitsAt limits (next (f t)) (next' (f t)) t) :
    LimitsAt limits (inspect f >>= next) (inspect f >>= next') t := h

/-! ## Marker and metadata -/

lemma readMarker_unlimited : UnlimitedAt limits readMarker t := by
  refine inspect_bind_limits ?_
  split
  · exact (liftReader_unlimited _).bind fun _ _ _ => .pure ()
  · exact .throw (by rintro ⟨⟩)

lemma readText_unlimited (length : Nat) :
    UnlimitedAt limits
      (do
        match Text.ofBytes? (← liftReader (take "unsigned metadata" length)) with
        | some metadata => return metadata
        | none => throw .malformedMetadata : PayloadReader String) t := by
  refine (liftReader_unlimited _).bind fun bytes t' _ => ?_
  cases Text.ofBytes? bytes with
  | some metadata => exact .pure metadata
  | none => exact .throw (by rintro ⟨⟩)

lemma readMetadata_unlimited (size : Nat) (g : Generation) :
    UnlimitedAt limits (readMetadata size g) t := by
  cases g with
  | singleSign => exact readText_unlimited size
  | multiSign => exact (liftReader_unlimited _).bind fun _ _ _ => readText_unlimited (size - 2)

/-! ## The signed content -/

lemma pointsAhead?_lt {skip count : Nat} (h : pointsAhead? skip t = some count) :
    count < BigEndian.capacity Counter.points.width := by
  rw [pointsAhead?_eq] at h
  split at h
  · obtain ⟨bytes, hpeek, rfl⟩ := Option.map_eq_some_iff.mp h
    rw [← (Tail.peek?_eq_some_iff.mp hpeek).1]
    exact BigEndian.toNat_lt bytes
  · cases h

lemma checkPoints_limits (hle : limits ≤ limits') (skip : Nat) :
    LimitsAt limits (checkPoints limits skip) (checkPoints limits' skip) t := by
  refine inspect_bind_limits ?_
  cases hahead : pointsAhead? skip t with
  | none => exact .pure ()
  | some count =>
    exact .refused (fun habove => ⟨_, _, rfl, .points habove (pointsAhead?_lt hahead)⟩)
      (Nat.lt_of_le_of_lt hle.2) (.pure ())

lemma readPackages_limits (hle : limits ≤ limits') :
    LimitsAt limits (readPackages limits) (readPackages limits') t := by
  refine (liftReader_unlimited _).bind fun count t' hcount => ?_
  have hfits := takeCounter_lt (mapError_eq_ok_iff.mp hcount)
  refine .guarded (by rintro ⟨⟩) (.refused (fun habove => ⟨_, _, rfl, .packages habove hfits⟩)
    (Nat.lt_of_le_of_lt hle.1) ((liftReader_unlimited _).bind fun _ _ _ => ?_))
  exact .times (fun t => (checkPoints_limits hle 65).bind fun _ _ _ => liftReader_unlimited _) count

lemma readCosigned_limits (hle : limits ≤ limits') :
    LimitsAt limits (readCosigned limits) (readCosigned limits') t := by
  rw [readCosigned_eq, readCosigned_eq]
  refine inspect_bind_limits ?_
  split
  · exact (checkPoints_limits hle _).bind fun _ _ _ => liftReader_unlimited _
  · exact liftReader_unlimited _

lemma readContent_limits (hle : limits ≤ limits') (g : Generation) :
    LimitsAt limits (readContent limits g) (readContent limits' g) t := by
  cases g with
  | singleSign => exact (readPackages_limits hle).map _
  | multiSign => exact (readCosigned_limits hle).map _

lemma read_limits (hle : limits ≤ limits') :
    LimitsAt limits (read limits) (read limits') t :=
  readMarker_unlimited.bind fun _ _ _ =>
    (liftReader_unlimited _).bind fun size _ _ =>
      (liftReader_unlimited _).bind fun _ t' _ =>
        (readMetadata_unlimited size (probe size t')).bind fun metadata _ _ =>
          (readContent_limits hle _).bind fun content _ _ => .pure (Payload.mk content metadata)

/-! ## Finding a payload -/

variable {buffer : List UInt8} {found : Found}

/-- Lower limits give an error about a count, or the result of the higher limits, which is no
such error then. -/
lemma parse_limits (hle : limits ≤ limits') (buffer : List UInt8) :
    (∃ e, parse buffer limits = .error e ∧ limits.Exceeded e) ∨
      parse buffer limits' = parse buffer limits ∧
        ∀ e, parse buffer limits = .error e → ¬ e.IsLimit := by
  rcases read_limits hle (t := Tail.ofBytes buffer) with ⟨e, t', hread, habove⟩ | ⟨hsame, hpass⟩
  · exact .inl ⟨e, by rw [parse, hread], habove⟩
  · refine .inr ⟨by rw [parse, parse, hsame], fun e h => ?_⟩
    rw [parse] at h
    split at h
    · cases h
    next e' t' hread =>
    obtain rfl := Except.error.inj h
    exact hpass _ _ hread

lemma parse_of_within (h : parse buffer limits' = .ok found)
    (hwithin : found.payload.content.Within limits) : parse buffer limits = .ok found := by
  obtain ⟨hasc, -, hencode⟩ := parse_eq_ok_iff.mp h
  exact parse_eq_ok_iff.mpr ⟨hasc, hwithin, hencode⟩

lemma exists_exceeded_of_not_within (hle : limits ≤ limits') (h : parse buffer limits' = .ok found)
    (hwithin : ¬ found.payload.content.Within limits) :
    ∃ e, parse buffer limits = .error e ∧ limits.Exceeded e := by
  rcases parse_limits hle buffer with hexceeded | ⟨hsame, -⟩
  · exact hexceeded
  · exact absurd (parse_eq_ok_iff.mp (hsame.symm.trans h)).2.1 hwithin

/-- **Limits only filter.**  What is found within lower limits is found within higher ones, and
an error that is not about a limit stays the same error.  Of what is found within higher
limits, the lower ones keep exactly the payloads whose counts are within them, and give an
error about a limit for the others.  The default limits never give such an error, and no higher
limits make a difference to them. -/
theorem limits_only_filter :
    (∀ limits limits' : Limits, limits ≤ limits' → ∀ buffer,
      (∀ found, parse buffer limits = .ok found → parse buffer limits' = .ok found) ∧
      (∀ e, parse buffer limits = .error e → ¬ e.IsLimit → parse buffer limits' = .error e) ∧
      ∀ found, parse buffer limits' = .ok found →
        (found.payload.content.Within limits → parse buffer limits = .ok found) ∧
        (¬ found.payload.content.Within limits →
          ∃ e, parse buffer limits = .error e ∧ limits.Exceeded e)) ∧
    ∀ buffer, (∀ e, parse buffer = .error e → ¬ e.IsLimit) ∧
      ∀ limits' : Limits, {} ≤ limits' → parse buffer limits' = parse buffer := by
  refine ⟨fun limits limits' hle buffer => ⟨fun found h => ?_, fun e h hlimit => ?_, fun found h =>
    ⟨parse_of_within h, exists_exceeded_of_not_within hle h⟩⟩, fun buffer => ?_⟩
  · rcases parse_limits hle buffer with ⟨e, herror, -⟩ | ⟨hsame, -⟩
    · rw [h] at herror
      cases herror
    · exact hsame.trans h
  · rcases parse_limits hle buffer with ⟨e', herror, hexceeded⟩ | ⟨hsame, -⟩
    · rw [h] at herror
      obtain rfl := Except.error.inj herror
      exact absurd hexceeded.isLimit hlimit
    · exact hsame.trans h
  · have hdefault (limits' : Limits) (hle : {} ≤ limits') :
        parse buffer limits' = parse buffer ∧ ∀ e, parse buffer = .error e → ¬ e.IsLimit :=
      (parse_limits hle buffer).resolve_left fun ⟨e, _, h⟩ => Limits.not_exceeded_default e h
    exact ⟨(hdefault {} (by decide)).2, fun limits' hle => (hdefault limits' hle).1⟩

/-- Two packages with two points each are within limits of two, and above either limit of
one. -/
theorem limits_only_filter_sample :
    ∃ bytes found, parse (marker ++ bytes) ⟨2, 2⟩ = .ok found ∧
      Limits.mk 2 2 ≤ ⟨3, 2⟩ ∧ parse (marker ++ bytes) ⟨3, 2⟩ = .ok found ∧
      parse (marker ++ bytes) = .ok found ∧
      parse (marker ++ bytes) ⟨65536, 16777216⟩ = .ok found ∧
      (∃ e, parse (marker ++ bytes) ⟨1, 2⟩ = .error e ∧ Limits.Exceeded ⟨1, 2⟩ e) ∧
      (∃ e, parse (marker ++ bytes) ⟨2, 1⟩ = .error e ∧ Limits.Exceeded ⟨2, 1⟩ e) ∧
      parse [] ⟨1, 2⟩ = .error (.invalidMarker []) ∧
      parse [] ⟨2, 2⟩ = .error (.invalidMarker []) := by
  obtain ⟨bytes, hbytes⟩ := exists_encode_pair ⟨.sample, ⟨Block.zero⟩⟩ ⟨.sample, ⟨Block.zero⟩⟩
    DataPackage.exists_encode_sample DataPackage.exists_encode_sample
  have hdefault := parse_append_of_ascending (by decide) hbytes marker
  obtain ⟨hfilter, hnone⟩ := limits_only_filter
  have htwo := ((hfilter ⟨2, 2⟩ {} (by decide) _).2.2 _ hdefault).1 (by decide)
  refine ⟨bytes, _, htwo, by decide, ?_, hdefault, ?_, ?_, ?_, rfl, ?_⟩
  · exact (hfilter ⟨2, 2⟩ ⟨3, 2⟩ (by decide) _).1 _ htwo
  · exact ((hnone _).2 ⟨65536, 16777216⟩ (by decide)).trans hdefault
  · exact ((hfilter ⟨1, 2⟩ {} (by decide) _).2.2 _ hdefault).2 (by decide)
  · exact ((hfilter ⟨2, 1⟩ {} (by decide) _).2.2 _ hdefault).2 (by decide)
  · exact (hfilter ⟨1, 2⟩ ⟨2, 2⟩ (by decide) []).2.1 _ rfl (by rintro ⟨⟩)

end Payload
end SignedFeeds
