/-
# The order of blocks

Blocks are compared byte by byte from the left.  So one block stands before another exactly when
its bytes are less as a word over the bytes, and feeds and addresses, which are blocks, are in
ascending order exactly when their bytes are.
-/
import Mathlib.Tactic.Common
import SignedFeeds.Address
import SignedFeeds.Feed

namespace SignedFeeds

/-- Byte strings are compared as words. -/
lemma compare_bytes_eq_lt_iff (as bs : List UInt8) : compare as bs = .lt ↔ as < bs := by
  induction as generalizing bs with
  | nil =>
    cases bs with
    | nil => simp
    | cons b bs => simp
  | cons a as ih =>
    cases bs with
    | nil => simp
    | cons b bs =>
      rw [List.compare_eq_compareLex, List.compareLex_cons_cons, ← List.compare_eq_compareLex,
        Ordering.then_eq_lt, ih, List.cons_lt_cons_iff, Std.compare_eq_lt, Std.compare_eq_iff_eq]

lemma Block.compare_eq_lt_iff {n : Nat} (a b : Block n) : compare a b = .lt ↔ a.bytes < b.bytes :=
  compare_bytes_eq_lt_iff a.bytes b.bytes

lemma FeedId.compare_eq_lt_iff (a b : FeedId) : compare a b = .lt ↔ a.bytes < b.bytes :=
  Block.compare_eq_lt_iff a.toBlock b.toBlock

lemma Address.compare_eq_lt_iff (a b : Address) : compare a b = .lt ↔ a.bytes < b.bytes :=
  Block.compare_eq_lt_iff a.toBlock b.toBlock

end SignedFeeds
