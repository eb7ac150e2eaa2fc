/-
# Attribution survives transport

Who signed a payload, and whether the signers suffice, is the same for the payload itself, for
what is found at the end of a buffer that it was written into, and for what is read from its
JSON text.  The JSON text gives the payload back as it was.  The wire gives it back in
canonical form, which is another payload when the points of a package were out of order; but
signatures cover the hash of a package, and a package and its canonical form have one hash.
-/
import SignedFeeds.Proofs.Document.RoundTrip
import SignedFeeds.Proofs.Payload.Attribution

namespace SignedFeeds

lemma SignedPackage.recover_of_canonicalize {m c : SignedPackage} (h : m.canonicalize = .ok c) :
    c.recover = m.recover := by
  obtain ⟨package, hpackage, rfl⟩ := Fallible.map_eq_ok_iff.mp h
  rw [recover, recover, DataPackage.hash_of_canonicalize hpackage]

lemma CosignedPackage.recover_of_canonicalize {m c : CosignedPackage}
    (h : m.canonicalize = .ok c) : c.recover = m.recover := by
  obtain ⟨package, hpackage, rfl⟩ := Fallible.map_eq_ok_iff.mp h
  rw [recover, recover, DataPackage.hash_of_canonicalize hpackage]

namespace Payload

variable {p c : Payload} {bytes : List UInt8}

/-- Two payloads with the same signers, or the same fault that hides them, and with the same
report or the same refusal from every registry and every quorum. -/
structure SameAttribution (p q : Payload) : Prop where
  recoverSigners_eq : p.recoverSigners = q.recoverSigners
  authorize_eq : ∀ registry quorum, p.authorize registry quorum = q.authorize registry quorum

/-! ## Canonical forms -/

lemma recoverSigners_of_canonicalize (h : p.canonicalize = .ok c) :
    c.recoverSigners = p.recoverSigners := by
  obtain ⟨content, metadata⟩ := p
  obtain ⟨content', hcontent, rfl⟩ := Fallible.map_eq_ok_iff.mp h
  cases content with
  | single packages =>
    obtain ⟨packages', hpackages, rfl⟩ := Fallible.map_eq_ok_iff.mp hcontent
    refine Fallible.mapM_of_mapM_eq_ok hpackages fun m _ m' hm => ?_
    rw [SignedPackage.recover_of_canonicalize hm]
  | multi m =>
    obtain ⟨m', hm, rfl⟩ := Fallible.map_eq_ok_iff.mp hcontent
    show m'.recover.map _ = m.recover.map _
    rw [CosignedPackage.recover_of_canonicalize hm]

lemma recoveries_of_canonicalize (h : p.canonicalize = .ok c) : c.recoveries = p.recoveries := by
  obtain ⟨content, metadata⟩ := p
  obtain ⟨content', hcontent, rfl⟩ := Fallible.map_eq_ok_iff.mp h
  cases content with
  | single packages =>
    obtain ⟨packages', hpackages, rfl⟩ := Fallible.map_eq_ok_iff.mp hcontent
    refine Fallible.mapM_of_mapM_eq_ok hpackages fun m _ m' hm => ?_
    obtain ⟨package, hpackage, rfl⟩ := Fallible.map_eq_ok_iff.mp hm
    rw [DataPackage.hash_of_canonicalize hpackage]
  | multi m =>
    obtain ⟨m', hm, rfl⟩ := Fallible.map_eq_ok_iff.mp hcontent
    obtain ⟨package, hpackage, rfl⟩ := Fallible.map_eq_ok_iff.mp hm
    show package.hash.map _ = m.package.hash.map _
    rw [DataPackage.hash_of_canonicalize hpackage]

lemma sameAttribution_of_canonicalize (h : p.canonicalize = .ok c) : c.SameAttribution p := by
  refine ⟨recoverSigners_of_canonicalize h, fun registry quorum => ?_⟩
  rw [authorize, authorize, recoveries_of_canonicalize h]

/-! ## The two ways of transport -/

lemma exists_parse_sameAttribution (h : p.encode = .ok bytes) (front : List UInt8) :
    ∃ found, parse (front ++ bytes) = .ok found ∧ found.payload.SameAttribution p := by
  obtain ⟨c, hc, hasc, hencode⟩ := exists_canonicalize h
  exact ⟨⟨c, front⟩, parse_append_of_ascending hasc hencode front,
    sameAttribution_of_canonicalize hc⟩

lemma ofJsonText_of_encode (h : p.encode = .ok bytes) : ofJsonText p.toJsonText = .ok p := by
  obtain ⟨-, front, size, hlayout, -⟩ := encode_eq_ok_iff.mp h
  rw [ofJsonText_toJsonText, ofDocument_toDocument (Content.populated_of_layout hlayout)]

/-- **Attribution survives transport.**  A payload that can be written is found at the end of
any buffer that its bytes end, and is read from its JSON text.  The payload, what is found and
what is read have the same signers and are authorized alike, whatever the order of the points
was. -/
theorem transport_keeps_attribution (h : p.encode = .ok bytes) (front : List UInt8) :
    (∃ found, parse (front ++ bytes) = .ok found ∧ found.payload.SameAttribution p) ∧
      ∃ read, ofJsonText p.toJsonText = .ok read ∧ read.SameAttribution p :=
  ⟨exists_parse_sameAttribution h front, p, ofJsonText_of_encode h, rfl, fun _ _ => rfl⟩

/-- What is found of the sample is another payload: the points of its first package have
changed places. -/
theorem transport_keeps_attribution_sample :
    ∃ bytes found read, sample.encode = .ok bytes ∧ parse (marker ++ bytes) = .ok found ∧
      found.payload ≠ sample ∧ ofJsonText sample.toJsonText = .ok read ∧
      found.payload.recoverSigners = sample.recoverSigners ∧
      read.authorize (fun _ _ => true) ⟨"s", 1⟩ =
        found.payload.authorize (fun _ _ => true) ⟨"s", 1⟩ := by
  obtain ⟨bytes, hbytes⟩ := exists_encode_sample
  obtain ⟨⟨found, hfound, hsame⟩, read, hread, hsame'⟩ := transport_keeps_attribution hbytes marker
  refine ⟨bytes, found, read, hbytes, hfound, ?_, hread, hsame.recoverSigners_eq, ?_⟩
  · intro heq
    have hasc := (parse_eq_ok_iff.mp hfound).1
    rw [heq] at hasc
    exact absurd (hasc .sampleCrossed (by decide)) (by decide)
  · rw [hsame.authorize_eq, hsame'.authorize_eq]

end Payload
end SignedFeeds
