/-
# Golden payloads

Payloads with known bytes.  Every implementation of the format has to arrive at the same
package, hash, signatures and payload, so these fix the layout, the hash, the choice of
nonces and the preference for small `s`.
-/
import SignedFeeds.Conformance.SignerGroup

namespace SignedFeeds

/-- A payload with its expected bytes, all in lower-case digits. -/
structure Golden where
  /-- What the payload is called. -/
  name : String
  /-- The keys, in the order of signing. -/
  group : SignerGroup
  /-- Feeds and whole values, in the order of submission. -/
  points : List (String × Decimal)
  /-- The time of the package. -/
  timestamp : UInt64
  /-- The metadata. -/
  metadata : String
  /-- The generation. -/
  generation : Generation
  /-- The bytes of the package. -/
  expectedPackage : String
  /-- The hash of the package. -/
  expectedHash : String
  /-- One signature for each key. -/
  expectedSignatures : List String
  /-- The bytes of the payload. -/
  expectedPayload : String
  /-- The hash of the payload. -/
  expectedPayloadHash : String

namespace Golden

/-- The bytes of the package that both golden payloads carry. -/
def samplePackage : String :=
  "000000000000000000000000000000000000000000000000000003d1e3821000"
    ++ "4254430000000000000000000000000000000000000000000000000000000000"
    ++ "0000000000000000000000000000000000000000000000000000002e90edd000"
    ++ "4554480000000000000000000000000000000000000000000000000000000000"
    ++ "01812f2590c0" ++ "00000020" ++ "000002"

/-- The hash of that package. -/
def sampleHash : String := "466d5d4a48a2e0448d788584dae008787f4318ac62f82529e16be3e0a62d0026"

/-- The signature of that hash by the first development key. -/
def firstSignature : String :=
  "047f0ea23f909f6ecec327b0c115975cd1217e6a1b7ff66f371ae4fb577f9038"
    ++ "1ce0b5dfd34a2a4f253e3a599982dac791d0127e16ef15afe2ceebde614d2def" ++ "1c"

/-- The signature of that hash by the second development key. -/
def secondSignature : String :=
  "77a0af79beee5155fffc1762f1e05d53b3a52af6d80fcb73367d3ad1f80448b0"
    ++ "24c1075a60639fb8a2c712c760e018c13a5767b022e893acea7464be1db0c6d2" ++ "1c"

/-- The price of one bitcoin. -/
def bitcoin : String × Decimal := ("BTC", .ofWord 42000)

/-- The price of one ether. -/
def ether : String × Decimal := ("ETH", .ofWord 2000)

/-- A package with one signature, submitted out of order. -/
def single : Golden where
  name := "single-sign BTC/ETH"
  group := { keys := SignerGroup.developmentKeys.take 1 }
  points := [ether, bitcoin]
  timestamp := 1654353400000
  metadata := "1.0.0#test"
  generation := .singleSign
  expectedPackage := samplePackage
  expectedHash := sampleHash
  expectedSignatures := [firstSignature]
  expectedPayload :=
    samplePackage ++ firstSignature ++ "0001" ++ "312e302e302374657374" ++ "00000a"
      ++ "000002ed57011e0000"
  expectedPayloadHash := "f69c40fcf11491c3be52ebe1922ba2502592c0648ded7cbf84a37b47b6976387"

/-- A package with two signatures. -/
def multi : Golden where
  name := "multi-sign BTC/ETH"
  group := SignerGroup.development
  points := [bitcoin, ether]
  timestamp := 1654353400000
  metadata := "cosign"
  generation := .multiSign
  expectedPackage := samplePackage
  expectedHash := sampleHash
  expectedSignatures := [firstSignature, secondSignature]
  expectedPayload :=
    samplePackage ++ firstSignature ++ secondSignature ++ "02" ++ "636f7369676e" ++ "0002"
      ++ "000008" ++ "000002ed57011e0000"
  expectedPayloadHash := "b98ee822ee438f9ee96cdfa4b6df9e0a94341546605bab2b2f19c1caca2fbff4"

/-- All golden payloads. -/
def all : List Golden := [single, multi]

/-- The unsigned package, in the order of submission. -/
def package (g : Golden) : Except WireError DataPackage := g.group.package g.points g.timestamp

/-- The signed payload. -/
def payload (g : Golden) : Except WireError Payload := do
  g.group.payload g.generation (← g.package) g.metadata

/-- Whether a payload has the expected bytes and hash. -/
def isMatch (g : Golden) (bytes : List UInt8) : Bool :=
  Hex.encode bytes == g.expectedPayload
    && (Keccak.hash bytes).toHex == g.expectedPayloadHash

end Golden
end SignedFeeds
