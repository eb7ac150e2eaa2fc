/-
# The two primes of the curve

The coordinates are numbers modulo a prime and the group has prime order, by Lucas's test: a number
`q` is prime if some base has order `q - 1` modulo `q`.  The test needs the prime factors of `q - 1`.
Those that are too large to be found prime by division are certified by the same test, each before
the numbers that it is a factor of.
-/
import Mathlib.NumberTheory.LucasPrimality
import Mathlib.Tactic.NormNum.Prime
import SignedFeeds.Proofs.Secp256k1.Powers

namespace SignedFeeds
namespace Secp256k1

/-- A number with a base for Lucas's test, and the factors of its predecessor. -/
structure LucasEntry where
  /-- The number that is prime. -/
  number : ℕ
  /-- The base, whose order is the predecessor of the number. -/
  base : ℕ
  /-- The prime factors of the predecessor, as often as they divide it. -/
  factors : List ℕ

/-- The number passes the test with factors that are known to be prime. -/
@[mk_iff] structure LucasEntry.Passes (known : List ℕ) (e : LucasEntry) : Prop where
  one_lt : 1 < e.number
  number_lt : e.number < 2 ^ 256
  factors_known : ∀ f ∈ e.factors, f ∈ known
  prod_factors : e.factors.prod = e.number - 1
  powMod_pred : powMod e.base (e.number - 1) e.number = 1
  powMod_div : ∀ f ∈ e.factors, powMod e.base ((e.number - 1) / f) e.number ≠ 1

instance (known : List ℕ) (e : LucasEntry) : Decidable (e.Passes known) :=
  decidable_of_iff _ (LucasEntry.passes_iff known e).symm

/-- Each number passes the test with factors that are known, or that come before it. -/
def Certified : (known : List ℕ) → List LucasEntry → Prop
  | _, [] => True
  | known, e :: rest => e.Passes known ∧ Certified (e.number :: known) rest

instance Certified.decidable : ∀ known entries, Decidable (Certified known entries)
  | _, [] => .isTrue trivial
  | known, e :: rest =>
    have := Certified.decidable (e.number :: known) rest
    inferInstanceAs (Decidable (e.Passes known ∧ Certified (e.number :: known) rest))

variable {known : List ℕ} {e : LucasEntry} {entries : List LucasEntry}

lemma powMod_eq_one_iff {b k m : ℕ} (hm : 1 < m) (hk : k < 2 ^ 256) :
    powMod b k m = 1 ↔ (b : ZMod m) ^ k = 1 := by
  have : Fact (1 < m) := ⟨hm⟩
  rw [← cast_powMod hk, ← Nat.cast_one (R := ZMod m), ZMod.natCast_eq_natCast_iff,
    Nat.ModEq, Nat.mod_eq_of_lt (powMod_lt (by omega)), Nat.mod_eq_of_lt hm]

lemma LucasEntry.Passes.prime (hknown : ∀ q ∈ known, q.Prime) (h : e.Passes known) :
    e.number.Prime := by
  have hlt := h.number_lt
  refine lucas_primality e.number (e.base : ZMod e.number) ?_ fun q hq hdvd => ?_
  · exact (powMod_eq_one_iff h.one_lt (by omega)).mp h.powMod_pred
  -- a prime that divides the predecessor is one of the factors
  · rw [← h.prod_factors, Prime.dvd_prod_iff hq.prime] at hdvd
    obtain ⟨f, hf, hqf⟩ := hdvd
    obtain rfl := (Nat.prime_dvd_prime_iff_eq hq (hknown f (h.factors_known f hf))).mp hqf
    have hdiv : (e.number - 1) / q ≤ e.number - 1 := Nat.div_le_self ..
    exact fun hone => h.powMod_div q hf ((powMod_eq_one_iff h.one_lt (by omega)).mpr hone)

lemma Certified.prime (hknown : ∀ q ∈ known, q.Prime) (h : Certified known entries) :
    ∀ e ∈ entries, e.number.Prime := by
  induction entries generalizing known with
  | nil => simp
  | cons e rest ih =>
    have hfirst := h.1.prime hknown
    exact List.forall_mem_cons.mpr ⟨hfirst, ih (List.forall_mem_cons.mpr ⟨hfirst, hknown⟩) h.2⟩

/-- Primes that are found by division. -/
def smallPrimes : List ℕ :=
  [2, 3, 5, 7, 11, 17, 29, 31, 41, 53, 59, 97, 109, 149, 293, 461, 631, 797, 971, 1373, 1627, 1871,
    2011, 2621, 2657, 4051, 4423, 5323, 7723, 9349, 13441, 16699, 20113, 24809, 28181, 41201, 85831,
    96557, 120233, 305873]

/-- Larger primes, up to `p` and `n`. -/
def largePrimes : List LucasEntry :=
  [⟨13331831, 13, [2, 5, 971, 1373]⟩,
    ⟨173378833005251801, 6, [2, 2, 2, 5, 5, 2621, 24809, 13331831]⟩,
    ⟨22149492674086928081353, 5, [2, 2, 2, 3, 5323, 173378833005251801]⟩,
    ⟨132896956044521568488119, 6, [2, 3, 22149492674086928081353]⟩,
    ⟨1206781, 10, [2, 2, 3, 5, 20113]⟩,
    ⟨7240687, 3, [2, 3, 1206781]⟩,
    ⟨107590001, 3, [2, 2, 2, 2, 5, 5, 5, 5, 7, 29, 53]⟩,
    ⟨255515944373312847190720520512484175977, 3, [2, 2, 2, 7, 7, 11, 1627, 2657, 4423, 41201,
      96557, 7240687, 107590001]⟩,
    ⟨205115282021455665897114700593932402728804164701536103180137503955397371, 10, [2, 3, 5, 29,
      29, 31, 7723, 132896956044521568488119, 255515944373312847190720520512484175977]⟩,
    ⟨p, 3, [2, 3, 7, 13441,
      205115282021455665897114700593932402728804164701536103180137503955397371]⟩,
    ⟨4681609, 23, [2, 2, 2, 3, 97, 2011]⟩,
    ⟨107361793816595537, 3, [2, 2, 2, 2, 16699, 85831, 4681609]⟩,
    ⟨44706919, 6, [2, 3, 797, 9349]⟩,
    ⟨174723607534414371449, 3, [2, 2, 2, 17, 59, 4051, 120233, 44706919]⟩,
    ⟨545358713, 5, [2, 2, 2, 41, 59, 28181]⟩,
    ⟨1627771, 3, [2, 3, 5, 29, 1871]⟩,
    ⟨297159362677, 2, [2, 2, 3, 3, 11, 461, 1627771]⟩,
    ⟨29047611873442575647497758179, 2, [2, 293, 305873, 545358713, 297159362677]⟩,
    ⟨341948486974166000522343609283189, 2, [2, 2, 3, 3, 3, 109, 29047611873442575647497758179]⟩,
    ⟨n, 7, [2, 2, 2, 2, 2, 2, 3, 149, 631, 107361793816595537, 174723607534414371449,
      341948486974166000522343609283189]⟩]

lemma prime_of_mem_smallPrimes : ∀ q ∈ smallPrimes, q.Prime := by
  norm_num [smallPrimes]

lemma certified_largePrimes : Certified smallPrimes largePrimes := by
  decide +kernel

lemma prime_of_mem_largePrimes {q : ℕ} (h : q ∈ largePrimes.map LucasEntry.number) : q.Prime := by
  obtain ⟨e, he, rfl⟩ := List.mem_map.mp h
  exact certified_largePrimes.prime prime_of_mem_smallPrimes e he

lemma prime_p : p.Prime := prime_of_mem_largePrimes (by decide +kernel)

lemma prime_n : n.Prime := prime_of_mem_largePrimes (by decide +kernel)

instance : Fact p.Prime := ⟨prime_p⟩

instance : Fact n.Prime := ⟨prime_n⟩

end Secp256k1
end SignedFeeds
