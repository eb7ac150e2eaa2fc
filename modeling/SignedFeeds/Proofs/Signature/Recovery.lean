/-
# What a signature recovers to

Of the parts of a signature the recovery uses `r`, the smaller one of `s` and `n - s`, and one
parity.  So a signature can be spelled in four ways that recover alike: with either of the two
numbers `s` and `n - s`, which have opposite parities, and with the parity written as it is or
with 27 added to it.

As `n` is odd, exactly one of `s` and `n - s` lies above `n / 2`.
-/
import Mathlib.Tactic.Common
import SignedFeeds.Signature

namespace SignedFeeds
namespace Signature

variable {sig sig' : Signature}

/-- The smaller one of `s` and `n - s`, and the parity that belongs to it. -/
def lowForm (sig : Signature) : Option (Nat × Bool) :=
  (parity? sig.v).map fun odd =>
    if Secp256k1.n / 2 < sig.s then (Secp256k1.n - sig.s, !odd) else (sig.s, odd)

/-- The recovery sees `s` and `v` through the low form alone, apart from the range of `s`. -/
lemma recover_eq (sig : Signature) (hash : Digest) :
    sig.recover hash =
      if Secp256k1.inRange sig.r && Secp256k1.inRange sig.s then
        (sig.lowForm.bind fun low => Secp256k1.recover? hash sig.r low.1 low.2).elim
          (.error .invalidSignature) fun key => .ok (Address.ofPublicKey key)
      else .error .invalidSignature := by
  rw [recover, lowForm]
  refine if_congr Iff.rfl ?_ rfl
  cases parity? sig.v with
  | none => rfl
  | some odd =>
    simp only [Option.map_some, Option.bind_some]
    split_ifs with hhigh
    · cases Secp256k1.recover? hash sig.r (Secp256k1.n - sig.s) (!odd) <;> rfl
    · cases Secp256k1.recover? hash sig.r sig.s odd <;> rfl

/-- The second signature is a spelling of the first one. -/
@[mk_iff] structure Reencodes (sig sig' : Signature) : Prop where
  s_pos : 1 ≤ sig.s
  s_lt : sig.s < Secp256k1.n
  v_mem : sig.v ∈ [0, 1, 27, 28]
  v_mem' : sig'.v ∈ [0, 1, 27, 28]
  r_eq : sig'.r = sig.r
  /-- The number and its parity are kept, or both are replaced. -/
  twin : (sig'.s = sig.s ∧ sig'.v % 27 = sig.v % 27) ∨
    (sig'.s = Secp256k1.n - sig.s ∧ sig'.v % 27 ≠ sig.v % 27)

instance (sig sig' : Signature) : Decidable (sig.Reencodes sig') :=
  decidable_of_iff _ (reencodes_iff sig sig').symm

lemma parity?_eq_some {v : Nat} (h : v ∈ [0, 1, 27, 28]) : parity? v = some (v % 27 == 1) := by
  have hall : ∀ v ∈ [0, 1, 27, 28], parity? v = some (v % 27 == 1) := by decide
  exact hall v h

/-- Of two different parities one is odd. -/
lemma parity_flip {v v' : Nat} (h : v ∈ [0, 1, 27, 28]) (h' : v' ∈ [0, 1, 27, 28])
    (hne : v' % 27 ≠ v % 27) : (v' % 27 == 1) = !(v % 27 == 1) := by
  have hall : ∀ v ∈ [0, 1, 27, 28], ∀ v' ∈ [0, 1, 27, 28],
    v' % 27 ≠ v % 27 → (v' % 27 == 1) = !(v % 27 == 1) := by decide
  exact hall v h v' h' hne

/-- Exactly one of a number and its negative is high. -/
lemma high_sub_iff {s : Nat} (hlt : s < Secp256k1.n) :
    Secp256k1.n / 2 < Secp256k1.n - s ↔ ¬ Secp256k1.n / 2 < s := by
  have hodd : Secp256k1.n % 2 = 1 := by decide
  omega

namespace Reencodes

lemma lowForm_eq (h : sig.Reencodes sig') : sig'.lowForm = sig.lowForm := by
  rw [lowForm, lowForm, parity?_eq_some h.v_mem, parity?_eq_some h.v_mem', Option.map_some,
    Option.map_some]
  refine congrArg some ?_
  rcases h.twin with ⟨hs, hv⟩ | ⟨hs, hv⟩
  · rw [hs, hv]
  · have hflip := high_sub_iff h.s_lt
    rw [hs, parity_flip h.v_mem h.v_mem' hv]
    by_cases hhigh : Secp256k1.n / 2 < sig.s
    · rw [if_neg fun hsub => hflip.mp hsub hhigh, if_pos hhigh]
    · rw [if_pos (hflip.mpr hhigh), if_neg hhigh, Nat.sub_sub_self (Nat.le_of_lt h.s_lt),
        Bool.not_not]

lemma inRange_eq (h : sig.Reencodes sig') :
    Secp256k1.inRange sig'.s = Secp256k1.inRange sig.s := by
  have hpos := h.s_pos
  have hlt := h.s_lt
  rcases h.twin with ⟨hs, -⟩ | ⟨hs, -⟩
  · rw [hs]
  · rw [Bool.eq_iff_iff, Secp256k1.inRange_iff, Secp256k1.inRange_iff, hs]
    omega

/-- All spellings of a signature recover alike, whatever they recover to. -/
lemma recover_eq (h : sig.Reencodes sig') (hash : Digest) :
    sig'.recover hash = sig.recover hash := by
  rw [Signature.recover_eq, Signature.recover_eq, h.r_eq, h.inRange_eq, h.lowForm_eq]

end Reencodes
end Signature
end SignedFeeds
