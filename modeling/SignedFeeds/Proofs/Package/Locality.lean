/-
# Package readers see only what they read

The readers of packages are local, step by step.  Each of them also runs out of bytes when
the count of the data points is not there: that count stands behind the signatures, and all
that is read before it has a fixed length, once the number of signatures is known.
-/
import SignedFeeds.Proofs.Package.Decoding
import SignedFeeds.Proofs.Reading.Locality

namespace SignedFeeds

open Reader

variable {t : Tail}

lemma DataPoint.read_local (width : Nat) : LocalAt WireError.IsTruncated (DataPoint.read width) t :=
  (take_local _ _).bind fun _ _ _ => (LocalAt.ofExcept _).bind fun feed _ _ =>
    (take_local _ _).bind fun value _ _ => .pure (DataPoint.mk feed value)

namespace DataPackage

lemma checkOrder_local (points : List DataPoint) (timestamp : UInt64) :
    LocalAt WireError.IsTruncated
      (match orderFault? points with
        | some e => throw e
        | none => pure ⟨points, timestamp⟩ : Reader WireError DataPackage) t := by
  cases orderFault? points with
  | some e => exact .throw e
  | none => exact .pure _

lemma read_local : LocalAt WireError.IsTruncated read t := by
  refine (takeCounter_local _).bind fun count _ _ => (takeCounter_local _).bind fun width _ _ =>
    (takeCounter_local _).bind fun timestamp _ _ => ?_
  exact LocalAt.guarded fun _ => LocalAt.guarded fun _ => (require_local _ _ _).bind fun _ _ _ =>
    (times_local (fun _ => DataPoint.read_local width) count).bind fun points _ _ =>
      checkOrder_local points _

/-- The number of data points is read first. -/
lemma read_needs : Needs WireError.IsTruncated read Counter.points.width :=
  (takeCounter_fixed .points).needs.bind

end DataPackage

lemma Signature.read_fixed : Fixed WireError.IsTruncated Signature.read 65 :=
  field_fixed "signature" fun _ hlen => ⟨_, Signature.ofBytes_of_length hlen⟩

lemma Signature.read_local : LocalAt WireError.IsTruncated Signature.read t :=
  (take_local _ _).bind fun _ _ _ => .ofExcept _

namespace SignedPackage

lemma read_local : LocalAt WireError.IsTruncated read t :=
  Signature.read_local.bind fun _ _ _ => DataPackage.read_local.bind fun package _ _ =>
    .pure (SignedPackage.mk package _)

/-- Up to the number of data points, a signed package has a fixed length. -/
lemma read_needs : Needs WireError.IsTruncated read (65 + Counter.points.width) :=
  Signature.read_fixed.needs_bind fun _ => DataPackage.read_needs.bind

end SignedPackage

namespace CosignedPackage

lemma read_local : LocalAt WireError.IsTruncated read t :=
  (takeCounter_local _).bind fun count _ _ => LocalAt.guarded fun _ =>
    (require_local _ _ _).bind fun _ _ _ =>
      (times_local (fun _ => Signature.read_local) count).bind fun signatures _ _ =>
        DataPackage.read_local.bind fun package _ _ => .pure (CosignedPackage.mk package signatures)

/-- Up to the number of data points, a cosigned package has the length that its number of
signatures tells. -/
lemma read_runsOut {signers : Nat} {t' : Tail} (hpos : 0 < signers)
    (hcount : takeCounter .signers t = .ok signers t')
    (ht : t'.remaining < signers * 65 + Counter.points.width) :
    RunsOut WireError.IsTruncated read t := by
  refine RunsOut.after hcount ?_
  rw [if_neg (Nat.ne_of_gt hpos)]
  exact Needs.require_bind ((times_fixed Signature.read_fixed signers).needs_bind fun _ =>
    DataPackage.read_needs.bind) _ _ _ t' ht

end CosignedPackage
end SignedFeeds
