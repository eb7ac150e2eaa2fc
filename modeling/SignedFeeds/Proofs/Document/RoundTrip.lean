/-
# Payloads as documents, and back

Neither the document of a payload nor its JSON text loses anything.  A feed id that is not
printable is written with all its digits, and one that is printable is the id of its label.
Base64 wins over hexadecimal where the length is the expected one, and of all that is written
it is.
-/
import SignedFeeds.Proofs.Bytes.Encodings
import SignedFeeds.Proofs.Document.FeedNames
import SignedFeeds.Proofs.Document.Json
import SignedFeeds.Proofs.Feed.Labels
import SignedFeeds.Proofs.Payload.RoundTrip

namespace SignedFeeds

/-! ## Texts -/

namespace FeedId

/-- A feed id is read back, whether it is written as a label or with all its digits. -/
lemma ofDocument_toDocument (id : FeedId) : ofDocument id.toDocument = .ok id := by
  rw [toDocument, display]
  cases hlabel : id.label? with
  | some label =>
    obtain ⟨hname, -, hlen, -⟩ := label?_eq_some_iff.mp hlabel
    have hshort : ¬ IsFullWidth label := by
      rintro ⟨digits, rfl, hdigits⟩
      rw [Hex.toBytes_mark, List.length_cons, List.length_cons] at hlen
      omega
    rw [Option.getD_some, ofDocument_of_not_isFullWidth hshort, hname]
  | none => exact ofDocument_of_spellsMarked ⟨id.toHex, rfl, Hex.spells_encode id.bytes⟩

end FeedId

lemma decodeBinary_encode {field : String} {expected : Option Nat} {bytes : List UInt8}
    (h : ∀ n ∈ expected, n = bytes.length) :
    decodeBinary field expected (Base64.encode bytes) = .ok bytes := by
  have hexpected : expected.all (· == bytes.length) = true := by
    cases expected with
    | none => rfl
    | some n => exact beq_iff_eq.mpr (h n rfl)
  rw [decodeBinary, Base64.decode_encode]
  simp only [hexpected, if_true]

lemma Signature.ofDocument_toDocument (sig : Signature) : ofDocument sig.toDocument = .ok sig := by
  have hlen : ∀ n ∈ some 65, n = sig.bytes.length := by
    rintro _ ⟨⟩
    exact sig.length_bytes.symm
  have hsig : Signature.ofBytes sig.bytes = .ok sig := Signature.ofBytes_eq_ok_iff.mpr rfl
  rw [ofDocument, toDocument, decodeBinary_encode hlen]
  simp only [hsig]

/-! ## Packages -/

lemma DataPoint.ofDocument_toDocument (q : DataPoint) : ofDocument q.toDocument = .ok q := by
  have hvalue : decodeBinary "value" none (Base64.encode q.value) = .ok q.value :=
    decodeBinary_encode (by rintro _ ⟨⟩)
  rw [ofDocument, toDocument, FeedId.ofDocument_toDocument, hvalue]
  rfl

lemma DataPackage.ofDocument_toDocument (p : DataPackage) : ofDocument p.toDocument = .ok p := by
  have hpoints : p.toDocument.points.mapM DataPoint.ofDocument = .ok p.points :=
    Fallible.mapM_map_eq_pure fun q _ => q.ofDocument_toDocument
  rw [ofDocument, hpoints]
  rfl

lemma SignedPackage.ofDocument_toDocument (m : SignedPackage) :
    ofDocument m.toDocument = .ok m := by
  rw [ofDocument, toDocument, m.package.ofDocument_toDocument, m.signature.ofDocument_toDocument]
  rfl

lemma CosignedPackage.ofDocument_toDocument {m : CosignedPackage} (h : m.Counted) :
    ofDocument m.toDocument = .ok m := by
  have hsignatures : m.toDocument.signatures.mapM Signature.ofDocument = .ok m.signatures :=
    Fallible.mapM_map_eq_pure fun sig _ => sig.ofDocument_toDocument
  have hattach : attach m.package m.signatures = .ok m := attach_eq_ok_iff.mpr ⟨rfl, h⟩
  refine Fallible.bind_eq_ok_iff.mpr ⟨m.package, m.package.ofDocument_toDocument,
    Fallible.bind_eq_ok_iff.mpr ⟨m.signatures, hsignatures, ?_⟩⟩
  rw [hattach]
  rfl

lemma CosignedPackage.counted_of_ofDocument {doc : CosignedDocument} {m : CosignedPackage}
    (h : ofDocument doc = .ok m) : m.Counted := by
  obtain ⟨package, -, h⟩ := Fallible.bind_eq_ok_iff.mp h
  obtain ⟨signatures, -, h⟩ := Fallible.bind_eq_ok_iff.mp h
  cases hattach : attach package signatures with
  | error e =>
    rw [hattach] at h
    cases h
  | ok m' =>
    rw [hattach] at h
    obtain rfl := Except.ok.inj h
    exact (attach_eq_ok_iff.mp hattach).2

/-! ## Payloads -/

/-- There is a signature, and not more of them than can be counted. -/
def Content.Populated : Content → Prop
  | .single packages => packages ≠ []
  | .multi m => 1 ≤ m.signatures.length ∧ m.signatures.length ≤ 255

lemma Content.populated_of_layout {c : Content} {bytes : List UInt8} (h : c.Layout bytes) :
    c.Populated := by
  cases c with
  | single packages => exact h.1
  | multi m => exact CosignedPackage.counted_of_encode h

namespace Payload

variable {p : Payload}

lemma contentOfDocument_toDocument (h : p.content.Populated) :
    contentOfDocument p.toDocument p.generation = .ok p.content := by
  obtain ⟨content, metadata⟩ := p
  cases content with
  | single packages =>
    have hempty : (packages.map SignedPackage.toDocument).isEmpty = false := by
      rw [List.isEmpty_map]
      exact List.isEmpty_eq_false_iff.mpr h
    have hpackages : (packages.map SignedPackage.toDocument).mapM SignedPackage.ofDocument =
        .ok packages := Fallible.mapM_map_eq_pure fun m _ => m.ofDocument_toDocument
    show (if (packages.map SignedPackage.toDocument).isEmpty then .error .noPackages
      else ((packages.map SignedPackage.toDocument).mapM SignedPackage.ofDocument).map _) = _
    rw [hempty, hpackages]
    rfl
  | multi m =>
    show (CosignedPackage.ofDocument m.toDocument).map Content.multi = _
    rw [CosignedPackage.ofDocument_toDocument h]
    rfl

lemma ofDocument_toDocument (h : p.content.Populated) : ofDocument p.toDocument = .ok p := by
  have hversion : Generation.ofNumber? p.toDocument.version.toNat = some p.generation := by
    show Generation.ofNumber? (UInt64.ofNat p.generation.number).toNat = _
    cases p.generation <;> rfl
  rw [ofDocument, hversion]
  simp only [contentOfDocument_toDocument h]
  rfl

lemma ofJsonText_toJsonText (p : Payload) : ofJsonText p.toJsonText = ofDocument p.toDocument := by
  rw [ofJsonText, toJsonText, PayloadDocument.parse?_render]

lemma populated_of_ofDocument {doc : PayloadDocument} (h : ofDocument doc = .ok p) :
    p.content.Populated := by
  rw [ofDocument] at h
  cases hversion : Generation.ofNumber? doc.version.toNat with
  | none =>
    rw [hversion] at h
    cases h
  | some generation =>
    rw [hversion] at h
    obtain ⟨content, hcontent, rfl⟩ := Fallible.map_eq_ok_iff.mp h
    cases generation with
    | singleSign =>
      rw [contentOfDocument] at hcontent
      cases hdocs : doc.packages with
      | nil =>
        rw [hdocs] at hcontent
        cases hcontent
      | cons first rest =>
        rw [hdocs] at hcontent
        obtain ⟨packages, hpackages, rfl⟩ := Fallible.map_eq_ok_iff.mp hcontent
        obtain ⟨m, ms, -, -, rfl⟩ := Fallible.mapM_cons_eq_ok_iff.mp hpackages
        exact List.cons_ne_nil m ms
    | multiSign =>
      rw [contentOfDocument] at hcontent
      cases hdoc : doc.cosigned with
      | none =>
        rw [hdoc] at hcontent
        cases hcontent
      | some cosigned =>
        rw [hdoc] at hcontent
        obtain ⟨m, hm, rfl⟩ := Fallible.map_eq_ok_iff.mp hcontent
        exact CosignedPackage.counted_of_ofDocument hm

lemma populated_of_parse {buffer : List UInt8} {limits : Limits} {found : Found}
    (h : parse buffer limits = .ok found) : found.payload.content.Populated := by
  obtain ⟨-, -, bytes, hencode, -⟩ := parse_eq_ok_iff.mp h
  obtain ⟨-, front, size, hlayout, -⟩ := encode_eq_ok_iff.mp hencode
  exact Content.populated_of_layout hlayout

/-- **Documents and JSON lose nothing.**  A payload with a number of signatures that can be
counted is read back from its document and from its JSON text as it was, whatever its feed
ids, values, signatures and metadata are.  All readers of payloads return such payloads. -/
theorem ofDocument_and_ofJsonText :
    (∀ p : Payload, p.content.Populated →
      ofDocument p.toDocument = .ok p ∧ ofJsonText p.toJsonText = .ok p) ∧
    (∀ buffer limits found, parse buffer limits = .ok found → found.payload.content.Populated) ∧
    (∀ buffer p, decode buffer = .ok p → p.content.Populated) ∧
    (∀ doc p, ofDocument doc = .ok p → p.content.Populated) ∧
    (∀ text p, ofJsonText text = .ok p → p.content.Populated) := by
  refine ⟨fun p hp => ⟨ofDocument_toDocument hp, ?_⟩, fun buffer limits found => populated_of_parse,
    fun buffer p h => ?_, fun doc p => populated_of_ofDocument, fun text p h => ?_⟩
  · rw [ofJsonText_toJsonText, ofDocument_toDocument hp]
  · exact populated_of_parse (decode_eq_ok_iff.mp h)
  · rw [ofJsonText] at h
    cases hdoc : (Json.parse? text).bind PayloadDocument.ofJson? with
    | none =>
      rw [hdoc] at h
      cases h
    | some doc =>
      rw [hdoc] at h
      exact populated_of_ofDocument h

/-- A payload with its points out of order, a feed id that is no text, an empty value, and
metadata that has to be escaped. -/
def sampleEscaped : Payload :=
  ⟨.multi ⟨⟨[⟨⟨⟨List.replicate 32 0xff, rfl⟩⟩, []⟩, ⟨.ofTextBytes [0x42], [2]⟩], 7⟩,
    [⟨Block.zero⟩]⟩, "\"\\\n"⟩

theorem ofDocument_and_ofJsonText_sample :
    sampleEscaped.content.Populated ∧ ofDocument sampleEscaped.toDocument = .ok sampleEscaped ∧
      ofJsonText sampleEscaped.toJsonText = .ok sampleEscaped ∧
      ∃ buffer p, parse (marker ++ buffer) = .ok ⟨p, marker⟩ ∧ p.content.Populated := by
  obtain ⟨hback, hparse, -, -, htext⟩ := ofDocument_and_ofJsonText
  have hpopulated : sampleEscaped.content.Populated := ⟨by decide, by decide⟩
  obtain ⟨hofDocument, hofJsonText⟩ := hback sampleEscaped hpopulated
  obtain ⟨bytes, hbytes⟩ := exists_encode_sample
  obtain ⟨p, -, hasc, hencode⟩ := exists_canonicalize hbytes
  have hfound := parse_append_of_ascending hasc hencode marker
  exact ⟨htext _ _ hofJsonText, hofDocument, hofJsonText, bytes, p, hfound, hparse _ _ _ hfound⟩

end Payload
end SignedFeeds
