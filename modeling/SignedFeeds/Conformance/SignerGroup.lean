/-
# Groups of signers

A group of secret keys that sign the same packages, with the format of the values they
write.  Groups make payloads whose signers are known, to try readers and authorizations on.
-/
import SignedFeeds.Authorization
import SignedFeeds.Payload.Wire

namespace SignedFeeds

/-- Secret keys that sign together. -/
structure SignerGroup where
  /-- The keys, in the order of signing. -/
  keys : List SecretKey
  /-- The format of values. -/
  format : NumericFormat := {}

namespace SignerGroup

/-- The data service that all groups sign for. -/
def service : String := "redstone-test"

/-- Two keys that everyone knows. -/
def developmentKeys : List SecretKey :=
  [⟨0xac0974bec39a17e36ba4a6b4d238ff944bacb478cbed5efcae784d7bf4f2ff80, by decide, by decide⟩,
    ⟨0x59c6995e998f97a5a0044966f0945389dc9e86dae88c7a8412f4603b6b78690d, by decide, by decide⟩]

/-- The group of the development keys. -/
def development : SignerGroup := { keys := developmentKeys }

/-- A group of `count` keys drawn from consecutive seeds. -/
def ofSeeds (first count : Nat) : SignerGroup :=
  { keys := (List.range count).map fun i => SecretKey.ofSeed (first + i) }

/-- The package of the given values. -/
def package (g : SignerGroup) (points : List (String × Decimal)) (timestamp : UInt64) :
    Except WireError DataPackage := do
  return ⟨← points.mapM fun q => DataPoint.numeric (.ofText q.1) q.2 g.format, timestamp⟩

/-- The single-sign payload in which each key signs the same package. -/
def signEach (g : SignerGroup) (p : DataPackage) (metadata : String) :
    Except WireError Payload := do
  return ⟨.single (← g.keys.mapM fun key => SignedPackage.sign p key.toSigner), metadata⟩

/-- The multi-sign payload in which all keys sign one package. -/
def cosign (g : SignerGroup) (p : DataPackage) (metadata : String) : Except WireError Payload := do
  return ⟨.multi (← CosignedPackage.sign p (g.keys.map SecretKey.toSigner)), metadata⟩

/-- The payload of the given generation that the group signs. -/
def payload (g : SignerGroup) : Generation → DataPackage → (metadata : String) →
    Except WireError Payload
  | .singleSign => g.signEach
  | .multiSign => g.cosign

/-- The addresses of the keys. -/
def addresses (g : SignerGroup) : List Address := g.keys.map SecretKey.address

/-- The list on which all members of the group are known. -/
def allowList (g : SignerGroup) : AllowList := AllowList.empty.insertAll service g.addresses

/-- A package with the price of one bitcoin and one ether. -/
def samplePackage : Except WireError DataPackage :=
  development.package [("BTC", .ofWord 42000), ("ETH", .ofWord 2000)] 1654353400000

/-- What may stand in front of a payload in a call: a selector and two words. -/
def callData : List UInt8 :=
  [0xa9, 0x05, 0x9c, 0xbb] ++ List.replicate 12 0 ++ List.replicate 20 0x11
    ++ List.replicate 31 0 ++ [0x64]

/-- A payload in which package `i` is signed by key `i`, counted round and round, or in
which all keys sign the first package. -/
def distribute (g : SignerGroup) (packages : List DataPackage) (generation : Generation)
    (metadata : String) : Except WireError Payload :=
  match generation with
  | .multiSign => g.cosign (packages.headD ⟨[], 0⟩) metadata
  | .singleSign => do
    let signed ← packages.zipIdx.mapM fun (p, i) =>
      match g.keys[i % g.keys.length]? with
      | some key => SignedPackage.sign p key.toSigner
      | none => .error .invalidKey
    return ⟨.single signed, metadata⟩

end SignerGroup
end SignedFeeds
