/-
# SHA-256 and its keyed form

The hash works on blocks of sixteen 32-bit words in big-endian order.  Each block is
stretched to sixty-four words and drives sixty-four rounds on a chain of eight words.
`Hmac.sha256` is the keyed hash built from two nested calls.
-/
import SignedFeeds.Bytes.BigEndian

namespace SignedFeeds
namespace Sha256

/-- The eight words that a message is folded into. -/
structure Chain where
  /-- First word. -/
  a : UInt32
  /-- Second word. -/
  b : UInt32
  /-- Third word. -/
  c : UInt32
  /-- Fourth word. -/
  d : UInt32
  /-- Fifth word. -/
  e : UInt32
  /-- Sixth word. -/
  f : UInt32
  /-- Seventh word. -/
  g : UInt32
  /-- Eighth word. -/
  h : UInt32
deriving DecidableEq, Repr

/-- The chain before any message. -/
def Chain.start : Chain :=
  ⟨0x6a09e667, 0xbb67ae85, 0x3c6ef372, 0xa54ff53a, 0x510e527f, 0x9b05688c, 0x1f83d9ab,
    0x5be0cd19⟩

/-- Addition word by word. -/
def Chain.add (s t : Chain) : Chain :=
  ⟨s.a + t.a, s.b + t.b, s.c + t.c, s.d + t.d, s.e + t.e, s.f + t.f, s.g + t.g, s.h + t.h⟩

/-- A word rotated to the right by `k` bits. -/
def rotr (w k : UInt32) : UInt32 := (w >>> k) ||| (w <<< (32 - k))

/-- The constants of the sixty-four rounds. -/
def roundConstants : List UInt32 :=
  [0x428a2f98, 0x71374491, 0xb5c0fbcf, 0xe9b5dba5, 0x3956c25b, 0x59f111f1, 0x923f82a4,
    0xab1c5ed5, 0xd807aa98, 0x12835b01, 0x243185be, 0x550c7dc3, 0x72be5d74, 0x80deb1fe,
    0x9bdc06a7, 0xc19bf174, 0xe49b69c1, 0xefbe4786, 0x0fc19dc6, 0x240ca1cc, 0x2de92c6f,
    0x4a7484aa, 0x5cb0a9dc, 0x76f988da, 0x983e5152, 0xa831c66d, 0xb00327c8, 0xbf597fc7,
    0xc6e00bf3, 0xd5a79147, 0x06ca6351, 0x14292967, 0x27b70a85, 0x2e1b2138, 0x4d2c6dfc,
    0x53380d13, 0x650a7354, 0x766a0abb, 0x81c2c92e, 0x92722c85, 0xa2bfe8a1, 0xa81a664b,
    0xc24b8b70, 0xc76c51a3, 0xd192e819, 0xd6990624, 0xf40e3585, 0x106aa070, 0x19a4c116,
    0x1e376c08, 0x2748774c, 0x34b0bcb5, 0x391c0cb3, 0x4ed8aa4a, 0x5b9cca4f, 0x682e6ff3,
    0x748f82ee, 0x78a5636f, 0x84c87814, 0x8cc70208, 0x90befffa, 0xa4506ceb, 0xbef9a3f7,
    0xc67178f2]

/-- One round, with its constant and its word of the stretched block. -/
def round (s : Chain) (input : UInt32 × UInt32) : Chain :=
  let choice := (s.e &&& s.f) ^^^ (~~~s.e &&& s.g)
  let majority := (s.a &&& s.b) ^^^ (s.a &&& s.c) ^^^ (s.b &&& s.c)
  let t1 := s.h + (rotr s.e 6 ^^^ rotr s.e 11 ^^^ rotr s.e 25) + choice + input.1 + input.2
  let t2 := (rotr s.a 2 ^^^ rotr s.a 13 ^^^ rotr s.a 22) + majority
  ⟨t1 + t2, s.a, s.b, s.c, s.d + t1, s.e, s.f, s.g⟩

/-- One more word for a stretched block that is held newest word first. -/
def stretch (words : List UInt32) : List UInt32 :=
  let w2 := words.getD 1 0
  let w15 := words.getD 14 0
  let small0 := rotr w15 7 ^^^ rotr w15 18 ^^^ (w15 >>> 3)
  let small1 := rotr w2 17 ^^^ rotr w2 19 ^^^ (w2 >>> 10)
  (small1 + words.getD 6 0 + small0 + words.getD 15 0) :: words

/-- Folds a block of sixteen words into the chain. -/
def compress (s : Chain) (block : List UInt32) : Chain :=
  let words := (Nat.repeat stretch 48 block.reverse).reverse
  s.add ((roundConstants.zip words).foldl round s)

/-- The big-endian words of a byte string, four bytes each. -/
def words : List UInt8 → List UInt32
  | b0 :: b1 :: b2 :: b3 :: rest => UInt32.ofNat (BigEndian.toNat [b0, b1, b2, b3]) :: words rest
  | _ => []

/-- The message followed by the byte 128, by zeros, and by its length in bits, which fills
a whole number of 64-byte blocks. -/
def pad (message : List UInt8) : List UInt8 :=
  message ++ (0x80 :: List.replicate ((119 - message.length % 64) % 64) 0)
    ++ BigEndian.ofNat 8 (8 * message.length)

/-- Folds `count` blocks of sixteen words into the chain. -/
def compressBlocks : (count : Nat) → Chain → List UInt32 → Chain
  | 0, s, _ => s
  | count + 1, s, ws => compressBlocks count (compress s (ws.take 16)) (ws.drop 16)

/-- The SHA-256 hash of a message. -/
def hash (message : List UInt8) : List UInt8 :=
  let ws := words (pad message)
  let s := compressBlocks (ws.length / 16) .start ws
  [s.a, s.b, s.c, s.d, s.e, s.f, s.g, s.h].flatMap fun w => BigEndian.ofNat 4 w.toNat

end Sha256

namespace Hmac

/-- A key filled with zeros to a block of 64 bytes; a longer one is hashed first. -/
def blockKey (key : List UInt8) : List UInt8 :=
  let short := if key.length ≤ 64 then key else Sha256.hash key
  short ++ List.replicate (64 - short.length) 0

/-- The HMAC of a message under a key, with SHA-256. -/
def sha256 (key message : List UInt8) : List UInt8 :=
  let inner := (blockKey key).map (· ^^^ 0x36)
  let outer := (blockKey key).map (· ^^^ 0x5c)
  Sha256.hash (outer ++ Sha256.hash (inner ++ message))

end Hmac
end SignedFeeds
