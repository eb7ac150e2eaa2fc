/-
# Feed ids

A feed is named by a text such as `BTC`, and on the wire by 32 bytes.  A text of at most 31
bytes stands there itself, filled up with zeros; a longer one is replaced by its hash.  The
bytes of a short text can be read back, and `label?` does so for texts that can be printed.
-/
import SignedFeeds.Hash.Keccak

namespace SignedFeeds

/-- The 32 bytes that name a feed. -/
@[ext] structure FeedId extends Block 32
deriving DecidableEq, Repr

namespace FeedId

theorem length_fill {n : Nat} {bs : List UInt8} (h : bs.length ≤ n) :
    (bs ++ List.replicate (n - bs.length) 0).length = n := by
  rw [List.length_append, List.length_replicate]
  omega

/-- The id of the feed whose name has the given bytes. -/
def ofTextBytes (bytes : List UInt8) : FeedId :=
  if h : bytes.length ≤ 31 then
    ⟨bytes ++ List.replicate (32 - bytes.length) 0, length_fill (Nat.le_succ_of_le h)⟩
  else ⟨(Keccak.hash bytes).toBlock⟩

/-- The id of the feed with the given name. -/
def ofText (text : String) : FeedId := ofTextBytes (Text.toBytes text)

/-- The name of the feed, when the id is a printable text filled up with zeros.  Hashes and
other bytes have no label. -/
def label? (id : FeedId) : Option String :=
  let text := id.bytes.takeWhile (· != 0)
  let filling := id.bytes.dropWhile (· != 0)
  if text.length = 0 ∨ 31 < text.length ∨ filling.any (· != 0) then none
  else (Text.ofBytes? text).filter fun label => !label.toList.any Text.isControl

/-- The label, or all 64 digits behind `0x`. -/
def display (id : FeedId) : String := id.label?.getD ("0x" ++ id.toHex)

/-- The label, or the first eight digits, marked as a feed id. -/
def brief (id : FeedId) : String :=
  "FeedId(" ++ id.label?.getD ("0x" ++ Hex.encode (id.bytes.take 4) ++ "...") ++ ")"

/-! ## The order of feeds -/

instance : Ord FeedId := ⟨compareOn FeedId.toBlock⟩

instance : Std.TransOrd FeedId := inferInstanceAs (Std.TransCmp (compareOn FeedId.toBlock))

instance : Std.LawfulEqOrd FeedId where
  eq_of_compare {a b} (h : compare a.toBlock b.toBlock = .eq) :=
    FeedId.ext (congrArg Block.bytes (Std.LawfulEqCmp.eq_of_compare h))

end FeedId
end SignedFeeds
