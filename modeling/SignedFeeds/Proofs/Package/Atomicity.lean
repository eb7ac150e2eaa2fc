/-
# Writing is all or nothing

When a signed or a cosigned package cannot be written, the output that it was to be appended to is
left as it was, whatever is wrong with the package and however it was put together.  When it can,
its bytes are appended, the same ones that are written to an empty output.

For a cosigned package this is not plain from the order of the steps, since the number of signatures
is written behind everything else and a number may not fit its field.  But the numbers that the
check in front lets pass are exactly those that fit (`CosignedPackage.checkCount_eq`).
-/
import SignedFeeds.Proofs.Package.Binding

namespace SignedFeeds
namespace CosignedPackage

/-- Of one signature and more, the check refuses what cannot be counted, with the error that
counting would meet. -/
lemma checkCount_eq {count : ℕ} (hpos : 0 < count) :
    checkCount count = (Counter.signers.encode count).map fun _ => () := by
  have hcapacity : BigEndian.capacity Counter.signers.width = 256 := by decide
  rw [checkCount, if_neg (by omega), Counter.encode, hcapacity]
  by_cases hfits : count < 256
  · rw [if_pos hfits, if_neg (by rw [maxSigners]; omega)]
    rfl
  · rw [if_neg hfits, if_pos (by rw [maxSigners]; omega)]
    rfl

/-- The number of signatures is written whenever its turn comes. -/
lemma run_emitCounter_of_run_writeUncounted {m : CosignedPackage} {output left : List UInt8}
    (h : m.writeUncounted.run output = (.ok (), left)) :
    (Writer.emitCounter .signers m.signatures.length).run left =
      (.ok (), left ++ [UInt8.ofNat m.signatures.length]) := by
  rw [m.allOrNothing_writeUncounted output] at h
  cases hcount : checkCount m.signatures.length with
  | error e =>
    rw [hcount] at h
    cases h
  | ok u => exact allOrNothing_emitCounter hcount left

end CosignedPackage

/-- **Writing a signed package is all or nothing.**  Whatever the output, and whatever package is to
be appended to it: the writer either succeeds and appends the bytes of the package, or it fails as
these bytes do and leaves the output as it was.  With several signatures the number of them is
written last, and this step never fails: after the steps in front of it the byte of the number is
appended, since the check that comes first gives what counting the signatures would give. -/
theorem writing_is_all_or_nothing :
    (∀ m : SignedPackage, m.write.AllOrNothing m.encode) ∧
    (∀ m : CosignedPackage, m.write.AllOrNothing m.encode) ∧
    (∀ (m : CosignedPackage),
      m.write = m.writeUncounted >>= fun _ => Writer.emitCounter .signers m.signatures.length) ∧
    (∀ (m : CosignedPackage) (output left : List UInt8),
      m.writeUncounted.run output = (.ok (), left) →
      (Writer.emitCounter .signers m.signatures.length).run left =
        (.ok (), left ++ [UInt8.ofNat m.signatures.length])) ∧
    ∀ count, 0 < count →
      CosignedPackage.checkCount count = (Counter.signers.encode count).map fun _ => () := by
  refine ⟨fun m => ?_, fun m => ?_, fun m => m.write_eq,
    fun m output left h => CosignedPackage.run_emitCounter_of_run_writeUncounted h,
    fun count hpos => CosignedPackage.checkCount_eq hpos⟩
  · rw [m.encode_eq]
    exact m.allOrNothing_write
  · rw [CosignedPackage.encode, m.allOrNothing_write.toBytes_eq]
    exact m.allOrNothing_write

/-- Behind the same byte: a package of each kind that is written, a cosigned one with a signature
too many, and a signed one without data points. -/
theorem writing_is_all_or_nothing_sample :
    let zero : Signature := ⟨Block.zero⟩
    let overflow : WireError := .counterOverflow "signers count" 256 1
    (∃ front, DataPackage.sample.encode = .ok front ∧
      (SignedPackage.write ⟨.sample, zero⟩).run [7] = (.ok (), [7] ++ (front ++ zero.bytes)) ∧
      (CosignedPackage.write ⟨.sample, [zero, zero]⟩).run [7] =
        (.ok (), [7] ++ (front ++ (zero.bytes ++ zero.bytes ++ [2])))) ∧
    (∃ left, (CosignedPackage.writeUncounted ⟨.sample, [zero]⟩).run [7] = (.ok (), left) ∧
      (Writer.emitCounter .signers 1).run left = (.ok (), left ++ [1])) ∧
    CosignedPackage.checkCount 256 = .error overflow ∧
    (CosignedPackage.write ⟨.sample, List.replicate 256 zero⟩).run [7] = (.error overflow, [7]) ∧
    (SignedPackage.write ⟨⟨[], 0⟩, zero⟩).run [7] = (.error .noPoints, [7]) := by
  intro zero overflow
  obtain ⟨hsigned, hcosigned, -, hcounter, hcheck⟩ := writing_is_all_or_nothing
  obtain ⟨front, hfront⟩ := DataPackage.exists_encode_sample
  obtain ⟨left, hleft⟩ : ∃ left,
      (CosignedPackage.writeUncounted ⟨.sample, [zero]⟩).run [7] = (.ok (), left) := by
    refine ⟨[7] ++ (front ++ zero.bytes), ?_⟩
    rw [CosignedPackage.allOrNothing_writeUncounted, hfront]
    rfl
  have hmany : CosignedPackage.checkCount 256 = .error overflow := by
    rw [hcheck 256 (by decide)]
    rfl
  have hoverflow : CosignedPackage.encode ⟨.sample, List.replicate 256 zero⟩ = .error overflow :=
    CosignedPackage.encode_of_checkCount_eq_error (by rw [List.length_replicate, hmany])
  have hempty : SignedPackage.encode ⟨⟨[], 0⟩, zero⟩ = .error .noPoints := rfl
  have hone : SignedPackage.encode ⟨.sample, zero⟩ = .ok (front ++ zero.bytes) := by
    rw [SignedPackage.encode_eq, hfront]
    rfl
  have htwo : CosignedPackage.encode ⟨.sample, [zero, zero]⟩ =
      .ok (front ++ (zero.bytes ++ zero.bytes ++ [2])) := by
    rw [CosignedPackage.encode_eq_of_counted ⟨by decide, by decide⟩, hfront]
    rfl
  refine ⟨⟨front, hfront, ?_, ?_⟩, ⟨left, hleft, hcounter _ _ _ hleft⟩, hmany, ?_, ?_⟩
  · rw [hsigned, hone]
  · rw [hcosigned, htwo]
  · rw [hcosigned, hoverflow]
  · rw [hsigned, hempty]

end SignedFeeds
