/-
# Finding a payload depends on the end of the buffer only

Bytes in front of a buffer change nothing about the payload that is found at its end, nor
about the error if there is none, unless bytes were missing.  Three places look at bytes that
they do not read.  The marker is compared only when there are enough bytes for it.  The probe
for the version tag looks inside the metadata region, which has been found to be there.  The
look at the number of data points may reach beyond the front of the buffer; then it gives up,
and the package that is read next runs out of bytes.

It follows that a payload that has lost bytes in front is never taken for another one.
-/
import SignedFeeds.Proofs.Package.Locality
import SignedFeeds.Proofs.Payload.RoundTrip

namespace SignedFeeds

open Reader

/-- The error tells that bytes were missing. -/
def PayloadError.IsTruncated : PayloadError → Prop
  | .wire cause => cause.IsTruncated
  | _ => False

lemma PayloadError.isTruncated_iff {e : PayloadError} :
    e.IsTruncated ↔ ∃ field needed remaining, e = .wire (.truncated field needed remaining) := by
  constructor
  · intro h
    cases e with
    | wire cause =>
      cases cause with
      | truncated field needed remaining => exact ⟨field, needed, remaining, rfl⟩
      | _ => cases h
    | _ => cases h
  · rintro ⟨field, needed, remaining, rfl⟩
    trivial

namespace Payload

variable {t t' : Tail} {front : List UInt8}

lemma liftReader_local {α : Type} {read : Reader WireError α}
    (h : LocalAt WireError.IsTruncated read t) :
    LocalAt PayloadError.IsTruncated (liftReader read) t :=
  h.mapError fun _ he => he

lemma liftReader_needs {α : Type} {read : Reader WireError α} {n : Nat}
    (h : Needs WireError.IsTruncated read n) :
    Needs PayloadError.IsTruncated (liftReader read) n :=
  fun t ht => (h t ht).mapError fun _ he => he

/-- A look that more bytes in front do not change. -/
lemma inspect_bind_local {α β : Type} {stop : PayloadError → Prop} {f : Tail → α}
    {next : α → PayloadReader β} (hf : ∀ front, f (t.prepend front) = f t)
    (h : LocalAt stop (next (f t)) t) : LocalAt stop (inspect f >>= next) t := by
  rcases h with hout | hsame
  · exact .inl hout
  · refine .inr fun front => ?_
    rw [inspect_bind, inspect_bind, hf front, hsame front]

/-! ## Marker and metadata -/

/-- Where the marker has room, it is there or not whatever stands in front. -/
lemma readMarker_local (h : marker.length ≤ t.remaining) :
    LocalAt PayloadError.IsTruncated readMarker t := by
  refine inspect_bind_local (fun front => Tail.peek?_prepend h) ?_
  obtain ⟨found, hfound⟩ : ∃ found, t.peek? marker.length = some found := by
    obtain ⟨found, hlen, hsplit⟩ := Tail.exists_split h
    exact ⟨found, hsplit.peek? hlen⟩
  rw [hfound]
  split
  · exact (liftReader_local (take_local _ _)).bind fun _ _ _ => .pure ()
  · exact .inr fun front => rfl

lemma probe_prepend {size : Nat} (h : size ≤ t.remaining) :
    probe size (t.prepend front) = probe size t := by
  by_cases htwo : 2 ≤ size
  · rw [probe, probe, Tail.peek?_prepend (Nat.le_trans htwo h)]
  · rw [probe, probe, if_neg fun hcond => htwo hcond.1, if_neg fun hcond => htwo hcond.1]

lemma readText_local (length : Nat) :
    LocalAt PayloadError.IsTruncated
      (do
        match Text.ofBytes? (← liftReader (take "unsigned metadata" length)) with
        | some metadata => return metadata
        | none => throw .malformedMetadata : PayloadReader String) t := by
  refine (liftReader_local (take_local _ _)).bind fun bytes t' _ => ?_
  cases Text.ofBytes? bytes with
  | some metadata => exact .pure metadata
  | none => exact .throw _

lemma readMetadata_local (size : Nat) (g : Generation) :
    LocalAt PayloadError.IsTruncated (readMetadata size g) t := by
  cases g with
  | singleSign => exact readText_local size
  | multiSign => exact (liftReader_local (take_local _ _)).bind fun _ _ _ => readText_local (size - 2)

/-! ## The look ahead -/

lemma pointsAhead?_eq_none_iff {skip : Nat} :
    pointsAhead? skip t = none ↔ t.remaining < skip + Counter.points.width := by
  have hwidth : 0 < Counter.points.width := by decide
  rw [pointsAhead?_eq]
  split
  · next h =>
    rw [Option.map_eq_none_iff, Tail.peek?_eq_none_iff, Tail.remaining_skip]
    omega
  · next h => exact iff_of_true rfl (by omega)

lemma pointsAhead?_prepend {skip : Nat} (h : skip + Counter.points.width ≤ t.remaining) :
    pointsAhead? skip (t.prepend front) = pointsAhead? skip t := by
  have hskip : skip ≤ t.remaining := by omega
  have hpeek : Counter.points.width ≤ (t.skip skip).remaining := by
    rw [Tail.remaining_skip]
    omega
  have hmore : skip ≤ (t.prepend front).remaining := by
    rw [Tail.remaining_prepend]
    omega
  rw [pointsAhead?_eq, pointsAhead?_eq, if_pos hskip, if_pos hmore, Tail.skip_prepend hskip,
    Tail.peek?_prepend hpeek]

/-- The look ahead gives up only where the package that follows it runs out of bytes. -/
lemma checkPoints_bind_local {α : Type} (limits : Limits) {skip : Nat} {read : PayloadReader α}
    (hlocal : LocalAt PayloadError.IsTruncated read t)
    (hneeds : t.remaining < skip + Counter.points.width → RunsOut PayloadError.IsTruncated read t) :
    LocalAt PayloadError.IsTruncated (checkPoints limits skip >>= fun _ => read) t := by
  by_cases hroom : skip + Counter.points.width ≤ t.remaining
  · refine LocalAt.bind (inspect_bind_local (fun front => pointsAhead?_prepend hroom) ?_) ?_
    · cases pointsAhead? skip t with
      | none => exact .pure ()
      | some count =>
        show LocalAt _ (if limits.maxPoints < count then _ else _) t
        split
        · exact .throw _
        · exact .pure ()
    · intro u t' hcheck
      obtain ⟨_, rfl⟩ := (checkPoints_checks limits skip t u t').mp hcheck
      exact hlocal
  · have hnone : pointsAhead? skip t = none :=
      pointsAhead?_eq_none_iff.mpr (Nat.not_le.mp hroom)
    have hpass : checkPoints limits skip t = .ok () t := by
      refine (checkPoints_checks limits skip t () t).mpr ⟨fun count hcount => ?_, rfl⟩
      rw [hnone] at hcount
      cases hcount
    exact .inl (.after hpass (hneeds (Nat.not_le.mp hroom)))

/-! ## The signed content -/

lemma readPackages_local (limits : Limits) :
    LocalAt PayloadError.IsTruncated (readPackages limits) t := by
  refine (liftReader_local (takeCounter_local _)).bind fun count _ _ =>
    LocalAt.guarded fun _ => LocalAt.guarded fun _ =>
      (liftReader_local (require_local _ _ _)).bind fun _ _ _ => times_local (fun t => ?_) count
  exact checkPoints_bind_local limits (liftReader_local SignedPackage.read_local)
    (liftReader_needs SignedPackage.read_needs t)

/-- The number that is looked at is the one that a cosigned package begins with. -/
lemma takeCounter_signers (h : 1 ≤ t.remaining) :
    takeCounter .signers t = .ok (signersAhead t) (t.skip 1) := by
  obtain ⟨bytes, hlen, hsplit⟩ := Tail.exists_split h
  exact takeCounter_eq_ok_iff.mpr ⟨bytes, hlen, hsplit, signersAhead_of_split hsplit hlen⟩

lemma readCosigned_local (limits : Limits) :
    LocalAt PayloadError.IsTruncated (readCosigned limits) t := by
  have hread := liftReader_local (CosignedPackage.read_local (t := t))
  rw [readCosigned_eq]
  by_cases hone : 1 ≤ t.remaining
  · refine inspect_bind_local (fun front => ?_) ?_
    · rw [signersAhead, signersAhead, Tail.peek?_prepend hone]
    split
    · next hpos =>
      refine checkPoints_bind_local limits hread fun hroom => ?_
      refine (CosignedPackage.read_runsOut hpos (takeCounter_signers hone) ?_).mapError fun _ he => he
      rw [Tail.remaining_skip]
      omega
    · exact hread
  · -- not even the number of signatures is there
    have hzero : signersAhead t = 0 := by
      rw [signersAhead, Tail.peek?_eq_none_iff.mpr (Nat.not_le.mp hone)]
      rfl
    refine .inl ?_
    show RunsOut _ (ite _ _ _) t
    rw [hzero, if_neg (Nat.lt_irrefl 0)]
    exact liftReader_needs (takeCounter_fixed .signers).needs.bind t (Nat.not_le.mp hone)

lemma readContent_local (limits : Limits) (g : Generation) :
    LocalAt PayloadError.IsTruncated (readContent limits g) t := by
  cases g with
  | singleSign => exact (readPackages_local limits).map _
  | multiSign => exact (readCosigned_local limits).map _

/-- Where the marker has room, more bytes in front make no difference, unless bytes are
missing. -/
lemma read_local (limits : Limits) (h : marker.length ≤ t.remaining) :
    LocalAt PayloadError.IsTruncated (read limits) t := by
  refine (readMarker_local h).bind fun _ _ _ =>
    (liftReader_local (takeCounter_local _)).bind fun size _ _ =>
      (liftReader_local (require_local _ _ _)).bind fun u t' hroom => ?_
  obtain ⟨hsize, rfl⟩ := require_eq_ok_iff.mp (mapError_eq_ok_iff.mp hroom)
  refine inspect_bind_local (fun front => probe_prepend (by omega)) ?_
  exact (readMetadata_local _ _).bind fun metadata _ _ =>
    (readContent_local limits _).bind fun content _ _ => .pure (Payload.mk content metadata)

/-! ## Finding a payload -/

variable {buffer : List UInt8} {limits : Limits}

/-- A buffer that is shorter than the marker is reported as it is. -/
lemma parse_of_length_lt (h : buffer.length < marker.length) :
    parse buffer limits = .error (.invalidMarker buffer) := by
  have hpeek : (Tail.ofBytes buffer).peek? marker.length = none := by
    rw [Tail.peek?_eq_none_iff, ← Tail.length_rest, Tail.rest_ofBytes]
    exact h
  have hmarker : readMarker (Tail.ofBytes buffer) =
      .error (.invalidMarker (Tail.ofBytes buffer).rest) (Tail.ofBytes buffer) := by
    rw [readMarker, inspect_bind, hpeek]
    rfl
  rw [parse, read, bind_apply, hmarker, Tail.rest_ofBytes]

lemma parse_append_of_ok {found : Found} (h : parse buffer limits = .ok found)
    (front : List UInt8) :
    parse (front ++ buffer) limits = .ok ⟨found.payload, front ++ found.before⟩ := by
  obtain ⟨hasc, hwithin, bytes, hencode, rfl⟩ := parse_eq_ok_iff.mp h
  exact parse_eq_ok_iff.mpr ⟨hasc, hwithin, bytes, hencode, (List.append_assoc ..).symm⟩

lemma parse_append_of_error {e : PayloadError} (h : parse buffer limits = .error e)
    (htruncated : ¬ e.IsTruncated) (hmarker : marker.length ≤ buffer.length)
    (front : List UInt8) : parse (front ++ buffer) limits = .error e := by
  have hroom : marker.length ≤ (Tail.ofBytes buffer).remaining := by
    rwa [← Tail.length_rest, Tail.rest_ofBytes]
  rw [parse] at h
  split at h
  · cases h
  next e' t' hread =>
  obtain rfl := Except.error.inj h
  rcases read_local limits hroom with ⟨e, t, hout, hstop⟩ | hsame
  · rw [hread] at hout
    obtain ⟨rfl, rfl⟩ := EStateM.Result.error.inj hout
    exact absurd hstop htruncated
  · rw [parse, Tail.ofBytes_append, hsame front, hread]
    rfl

/-- The end of a payload without its beginning holds no payload. -/
lemma exists_error_of_suffix {p : Payload} {front back : List UInt8}
    (h : p.encode = .ok (front ++ back)) (hfront : front ≠ []) :
    ∃ e, parse back = .error e ∧ parse (front ++ back) ≠ .error e := by
  obtain ⟨p', -, hasc, hencode⟩ := exists_canonicalize h
  have hwhole : parse (front ++ back) = .ok ⟨p', []⟩ := parse_append_of_ascending hasc hencode []
  cases hback : parse back with
  | error e => exact ⟨e, rfl, by rw [hwhole]; rintro ⟨⟩⟩
  | ok found =>
    -- what is found in the end would be found in the whole, with something in front of it
    have hfound := parse_append_of_ok hback front
    rw [hwhole] at hfound
    have hbefore : [] = front ++ found.before := congrArg Found.before (Except.ok.inj hfound)
    exact absurd (List.append_eq_nil_iff.mp hbefore.symm).1 hfront

/-- **Finding a payload depends on the end of the buffer only.**  What is found stays found
behind any prefix.  An error stays the same error, unless it tells that bytes were missing:
a field reaches beyond the front of the buffer, or there is no room for the marker.  A payload
that has lost bytes in front always gives such an error. -/
theorem parse_depends_on_end :
    (∀ front buffer limits found, parse buffer limits = .ok found →
      parse (front ++ buffer) limits = .ok ⟨found.payload, front ++ found.before⟩) ∧
      (∀ front buffer limits e, parse buffer limits = .error e → ¬ e.IsTruncated →
        ¬ (buffer.length < marker.length ∧ ∃ found, e = .invalidMarker found) →
        parse (front ++ buffer) limits = .error e) ∧
      (∀ (p : Payload) front back, p.encode = .ok (front ++ back) → front ≠ [] →
        (marker.length ≤ back.length → ∃ field needed remaining,
          parse back = .error (.wire (.truncated field needed remaining))) ∧
        (back.length < marker.length → parse back = .error (.invalidMarker back))) := by
  refine ⟨fun front buffer limits found h => parse_append_of_ok h front, ?_, ?_⟩
  · intro front buffer limits e h htruncated hshort
    refine parse_append_of_error h htruncated (Nat.not_lt.mp fun hlt => hshort ⟨hlt, buffer, ?_⟩) front
    rw [parse_of_length_lt hlt] at h
    exact (Except.error.inj h).symm
  · intro p front back h hfront
    refine ⟨fun hmarker => ?_, parse_of_length_lt⟩
    obtain ⟨e, hback, hwhole⟩ := exists_error_of_suffix h hfront
    by_cases htruncated : e.IsTruncated
    · obtain ⟨field, needed, remaining, rfl⟩ := PayloadError.isTruncated_iff.mp htruncated
      exact ⟨field, needed, remaining, hback⟩
    · exact absurd (parse_append_of_error hback htruncated hmarker front) hwhole

theorem parse_depends_on_end_sample :
    ∃ p' front back, sample.encode = .ok (front ++ back) ∧
      parse (marker ++ (front ++ back)) = .ok ⟨p', marker ++ []⟩ ∧
      parse (marker ++ List.replicate 9 1) = .error (.invalidMarker (List.replicate 9 1)) ∧
      ∃ field needed remaining,
        parse back = .error (.wire (.truncated field needed remaining)) := by
  obtain ⟨bytes, hbytes⟩ := exists_encode_sample
  obtain ⟨p', -, hasc, hencode⟩ := exists_canonicalize hbytes
  obtain ⟨hok, herror, hsuffix⟩ := parse_depends_on_end
  have hwhole := hok marker bytes {} ⟨p', []⟩ (parse_append_of_ascending hasc hencode [])
  obtain ⟨-, front, size, ⟨-, first, n, -, hn, rfl⟩, -, rfl⟩ := encode_eq_ok_iff.mp hbytes
  have hn : n.length = 2 := DataPackage.length_counter_encode hn
  refine ⟨p', first ++ n, _, hbytes, hwhole, ?_, (hsuffix sample _ _ hbytes ?_).1 ?_⟩
  · refine herror marker (List.replicate 9 1) {} _ rfl (by rintro ⟨⟩) ?_
    rintro ⟨hlt, -⟩
    exact absurd hlt (by decide)
  · intro hnil
    have := congrArg List.length hnil
    rw [List.length_append, hn, List.length_nil] at this
    omega
  · simp only [List.length_append]
    omega

end Payload
end SignedFeeds
