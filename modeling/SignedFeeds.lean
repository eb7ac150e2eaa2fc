import SignedFeeds.Conformance.Golden
import SignedFeeds.Payload.Edit
import SignedFeeds.Proofs.Document.RoundTrip
import SignedFeeds.Proofs.Package.Cosigning
import SignedFeeds.Proofs.Package.RoundTrip
import SignedFeeds.Proofs.Payload.Addition
import SignedFeeds.Proofs.Payload.Attribution
import SignedFeeds.Proofs.Payload.Faults
import SignedFeeds.Proofs.Payload.Generations
import SignedFeeds.Proofs.Payload.Limits
import SignedFeeds.Proofs.Payload.Locality
import SignedFeeds.Proofs.Payload.Signing
import SignedFeeds.Proofs.Payload.Transport
import SignedFeeds.Settings
import SignedFeeds.Proofs.Payload.Inflation
import SignedFeeds.Proofs.Reading.Faults
import SignedFeeds.Proofs.Package.Faults
import SignedFeeds.Proofs.Registry.History
import SignedFeeds.Proofs.Payload.Trailer
import SignedFeeds.Proofs.Package.Domain
import SignedFeeds.Proofs.Value.Encoding
import SignedFeeds.Proofs.Payload.Probe
import SignedFeeds.Proofs.Signature.Spellings
import SignedFeeds.Proofs.Value.Decoding
import SignedFeeds.Proofs.Document.Spellings
import SignedFeeds.Proofs.Payload.LookAhead
import SignedFeeds.Proofs.Package.SigningInTurn
import SignedFeeds.Proofs.Document.FeedNames
import SignedFeeds.Proofs.Feed.Labels
import SignedFeeds.Proofs.Package.Atomicity
import SignedFeeds.Proofs.Signature.Signing
import SignedFeeds.Proofs.Secp256k1.Group
import SignedFeeds.Proofs.Secp256k1.Order
import SignedFeeds.Proofs.Secp256k1.Powers
import SignedFeeds.Proofs.Secp256k1.Primes
import SignedFeeds.Proofs.Secp256k1.Recovery
import SignedFeeds.Proofs.Package.Lookup
import SignedFeeds.Proofs.Wire.Counters
import SignedFeeds.Proofs.Address.Texts
import SignedFeeds.Proofs.Reading.Cursor
