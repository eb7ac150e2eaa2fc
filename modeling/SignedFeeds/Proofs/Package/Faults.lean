/-
# What can be wrong with the bytes of a package

`WireError.ReadFault` lists the errors that reading a package can end with, and the fields that
can be cut off.  These are the counters, and what a counter announces: the loops over data
points and signatures ask for all of their bytes first, so that no feed id, no value and none of
several signatures is ever the field that is cut off.

A reader reports no more than `Tail.maxSize` missing bytes.  A count of three bytes times a width
of four stays below that, and so the number in the report is always the true one.
-/
import SignedFeeds.Proofs.Package.Locality
import SignedFeeds.Proofs.Reading.Faults

namespace SignedFeeds

open Reader

/-- What can be wrong with the bytes of a package, if only the given fields can be cut off. -/
inductive WireError.ReadFault (fields : List String) : WireError → Prop
  | noPoints : ReadFault fields .noPoints
  | noSignatures : ReadFault fields .noSignatures
  | unsorted : ReadFault fields .unsorted
  | duplicateFeed (feed : FeedId) : ReadFault fields (.duplicateFeed feed)
  | zeroWidth : ReadFault fields (.malformed "value byte width" 1 0)
  | truncated {field : String} {needed remaining : Nat} (listed : field ∈ fields)
      (short : remaining < needed) (fits : needed < Tail.maxSize) :
      ReadFault fields (.truncated field needed remaining)

lemma WireError.ReadFault.mono {fields fields' : List String} (hsub : fields ⊆ fields')
    {e : WireError} (h : ReadFault fields e) : ReadFault fields' e := by
  cases h with
  | noPoints => exact .noPoints
  | noSignatures => exact .noSignatures
  | unsorted => exact .unsorted
  | duplicateFeed feed => exact .duplicateFeed feed
  | zeroWidth => exact .zeroWidth
  | truncated listed short fits => exact .truncated (hsub listed) short fits

/-- A run that fails with such errors only. -/
abbrev ReadFaultsAt {α : Type} (fields : List String) (read : Reader WireError α) (t : Tail) :
    Prop := FailsOnly (WireError.ReadFault fields) read t

variable {fields : List String} {t : Tail}

lemma take_faults {field : String} {n : Nat} (hfield : field ∈ fields) (hn : n < Tail.maxSize) :
    ReadFaultsAt fields (take field n) t :=
  take_failsOnly fun hshort => .truncated hfield hshort hn

lemma takeCounter_faults {c : Counter} (hfield : c.name ∈ fields) (hwidth : c.width < Tail.maxSize) :
    ReadFaultsAt fields (takeCounter c) t :=
  (take_faults hfield hwidth).map _

/-- The number of bytes that are missing is exact where it does not overflow. -/
lemma require_faults {field : String} {count size : Nat} (hfield : field ∈ fields)
    (hsize : count * size < Tail.maxSize) : ReadFaultsAt fields (require field count size) t := by
  refine require_failsOnly fun hshort => ?_
  rw [Nat.min_eq_left (Nat.le_of_lt hsize)]
  exact .truncated hfield hshort hsize

/-! ## Data packages -/

/-- A data point takes as many bytes as its value and its feed id. -/
lemma DataPoint.read_fixed (width : Nat) :
    Fixed WireError.IsTruncated (DataPoint.read width) (width + 32) := by
  have hfeed : Fixed WireError.IsTruncated
      (take "data feed id" 32 >>= fun bs => Reader.ofExcept (FeedId.ofBytes bs)) 32 :=
    field_fixed "data feed id" fun bs hlen => ⟨⟨⟨bs, hlen⟩⟩, FeedId.ofBytes_eq_ok_iff.mpr rfl⟩
  have hread := hfeed.bind fun feed => (take_fixed "value" width).bind fun value =>
    Fixed.pure (DataPoint.mk feed value)
  rw [bind_assoc, Nat.add_comm 32] at hread
  exact hread

namespace DataPackage

/-- The fields of a data package that can be cut off. -/
def cutFields : List String :=
  ["data points count", "value byte width", "timestamp", "data points"]

lemma readFault_of_orderFault {points : List DataPoint} {e : WireError}
    (h : orderFault? points = some e) : e.ReadFault fields := by
  induction points with
  | nil => cases h
  | cons a rest ih =>
    cases rest with
    | nil => cases h
    | cons b rest =>
      rw [orderFault?] at h
      cases hab : compare a.feed b.feed with
      | lt =>
        rw [hab] at h
        exact ih h
      | eq =>
        rw [hab] at h
        obtain rfl := Option.some.inj h
        exact .duplicateFeed a.feed
      | gt =>
        rw [hab] at h
        obtain rfl := Option.some.inj h
        exact .unsorted

lemma checkOrder_faults (points : List DataPoint) (timestamp : UInt64) :
    ReadFaultsAt fields
      (match orderFault? points with
        | some e => throw e
        | none => pure ⟨points, timestamp⟩ : Reader WireError DataPackage) t := by
  cases hfault : orderFault? points with
  | some e => exact .throw (readFault_of_orderFault hfault)
  | none => exact .pure _

/-- The largest counts that the fields of a package can hold do not overflow together. -/
lemma pointsSize_lt {count width : Nat} (hcount : count < BigEndian.capacity Counter.points.width)
    (hwidth : width < BigEndian.capacity Counter.valueWidth.width) :
    count * (width + 32) < Tail.maxSize := by
  have hcapacity : BigEndian.capacity Counter.points.width *
      (BigEndian.capacity Counter.valueWidth.width + 32) < Tail.maxSize := by decide
  exact Nat.lt_of_le_of_lt (Nat.mul_le_mul (Nat.le_of_lt hcount) (by omega)) hcapacity

lemma read_faults : ReadFaultsAt cutFields read t := by
  refine (takeCounter_faults (by decide) (by decide)).bind fun count _ hcount =>
    (takeCounter_faults (by decide) (by decide)).bind fun width _ hwidth =>
      (takeCounter_faults (by decide) (by decide)).bind fun timestamp _ _ =>
        .guarded (fun _ => .noPoints) fun _ => .guarded (fun _ => .zeroWidth) fun _ => ?_
  have hsize := pointsSize_lt (takeCounter_lt hcount) (takeCounter_lt hwidth)
  exact .require_times (DataPoint.read_fixed width) (require_faults (by decide) hsize)
    fun points _ => checkOrder_faults points _

end DataPackage

/-! ## Signatures around a package -/

lemma Signature.read_faults {fields : List String} (hfield : "signature" ∈ fields) :
    ReadFaultsAt fields Signature.read t := by
  refine (take_faults hfield (by decide)).bind fun bs _ htake => ?_
  obtain ⟨hlen, -⟩ := take_eq_ok_iff.mp htake
  rw [Signature.ofBytes_of_length hlen]
  exact .pure _

namespace SignedPackage

/-- The fields of a signed package that can be cut off. -/
def cutFields : List String := "signature" :: DataPackage.cutFields

lemma read_faults : ReadFaultsAt cutFields read t := by
  have hpackage (t : Tail) : ReadFaultsAt cutFields DataPackage.read t :=
    DataPackage.read_faults.mono fun _ => .mono (List.subset_cons_self ..)
  exact (Signature.read_faults (by decide)).bind fun sig _ _ =>
    (hpackage _).bind fun package _ _ => .pure (SignedPackage.mk package sig)

end SignedPackage

namespace CosignedPackage

/-- The fields of a cosigned package that can be cut off. -/
def cutFields : List String := "signers count" :: "signatures" :: DataPackage.cutFields

lemma read_faults : ReadFaultsAt cutFields read t := by
  have hpackage (t : Tail) : ReadFaultsAt cutFields DataPackage.read t :=
    DataPackage.read_faults.mono fun _ => .mono (by decide)
  refine (takeCounter_faults (by decide) (by decide)).bind fun count _ hcount =>
    .guarded (fun _ => .noSignatures) fun _ => ?_
  have hcapacity : BigEndian.capacity Counter.signers.width * 65 < Tail.maxSize := by decide
  have hsize : count * 65 < Tail.maxSize := by
    have := takeCounter_lt hcount
    omega
  exact .require_times Signature.read_fixed (require_faults (by decide) hsize)
    fun signatures _ => (hpackage _).bind fun package _ _ =>
      .pure (CosignedPackage.mk package signatures)

end CosignedPackage
end SignedFeeds
