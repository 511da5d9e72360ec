import WireForm.Catalogue.Schema
import WireForm.Json.Parser
import WireForm.Proofs.Conformance
import WireForm.Proofs.Decoding
import WireForm.Proofs.Dispatch
import WireForm.Proofs.DocumentFault
import WireForm.Proofs.Entries
import WireForm.Proofs.Equivalence
import WireForm.Proofs.Finite
import WireForm.Proofs.Leaf
import WireForm.Proofs.Location
import WireForm.Proofs.Outcome
import WireForm.Proofs.Reading
import WireForm.Proofs.RoundTrip
import WireForm.Proofs.Sound
import WireForm.Proofs.ValueFault
import WireForm.Proofs.Writing
import WireForm.Schema.Decode
import WireForm.Schema.Encode
import WireForm.Proofs.NonFinite
import WireForm.Proofs.Stability
import WireForm.Proofs.Trail
import WireForm.Proofs.Discriminants
import WireForm.Proofs.Verbatim
import WireForm.Proofs.Bytes
import WireForm.Proofs.Calendar
import WireForm.Proofs.Timestamp
import WireForm.Proofs.FieldScript
import WireForm.Proofs.FailFast
import WireForm.Proofs.Members
import WireForm.Proofs.ElementScript
import WireForm.Proofs.FieldHistory
import WireForm.Proofs.Base64
import WireForm.Proofs.Widening
import WireForm.Proofs.Foreign
import WireForm.Proofs.Rounding
import WireForm.Proofs.Narrowing
import WireForm.Proofs.Tags
