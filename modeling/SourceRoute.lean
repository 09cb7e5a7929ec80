import SourceRoute.Auth.Block
import SourceRoute.Auth.Chain
import SourceRoute.Auth.Current
import SourceRoute.Auth.Key
import SourceRoute.Bits.Access
import SourceRoute.Bits.Range
import SourceRoute.Build.Draft
import SourceRoute.Build.Outline
import SourceRoute.Build.Peering
import SourceRoute.Build.Plan
import SourceRoute.Build.Shortcut
import SourceRoute.Bytes
import SourceRoute.Crypto.Aes
import SourceRoute.Crypto.Cmac
import SourceRoute.Crypto.Sha256
import SourceRoute.Event
import SourceRoute.Fault.Building
import SourceRoute.Fault.Encoding
import SourceRoute.Fault.Malformed
import SourceRoute.Fault.Processing
import SourceRoute.Field.Flags
import SourceRoute.Field.Hop
import SourceRoute.Field.Info
import SourceRoute.Field.Mac
import SourceRoute.Fingerprint
import SourceRoute.Header.Basic
import SourceRoute.Header.Validity
import SourceRoute.Header.Wire
import SourceRoute.Instant
import SourceRoute.IsdAs
import SourceRoute.Link
import SourceRoute.Path.Basic
import SourceRoute.Path.Wire
import SourceRoute.Proofs.Advancing
import SourceRoute.Proofs.BitLaws
import SourceRoute.Proofs.BuildExact
import SourceRoute.Proofs.BuildLaws
import SourceRoute.Proofs.ChainBinding
import SourceRoute.Proofs.ChainChecks
import SourceRoute.Proofs.ChainLaws
import SourceRoute.Proofs.CheckedHeader
import SourceRoute.Proofs.Codec
import SourceRoute.Proofs.ConsecutiveLinks
import SourceRoute.Proofs.ConstructionPrefix
import SourceRoute.Proofs.CurrentLaws
import SourceRoute.Proofs.Delivery
import SourceRoute.Proofs.Directives
import SourceRoute.Proofs.Drafting
import SourceRoute.Proofs.EncodeInPlace
import SourceRoute.Proofs.FieldLaws
import SourceRoute.Proofs.Forwarding
import SourceRoute.Proofs.HeaderLaws
import SourceRoute.Proofs.HopLocation
import SourceRoute.Proofs.IdentifierGrammar
import SourceRoute.Proofs.IdentifierText
import SourceRoute.Proofs.KeyedSegments
import SourceRoute.Proofs.LinkIteration
import SourceRoute.Proofs.LinkLaws
import SourceRoute.Proofs.LinkReversal
import SourceRoute.Proofs.PathLaws
import SourceRoute.Proofs.PathLinks
import SourceRoute.Proofs.PeeringRoutes
import SourceRoute.Proofs.PlanReversal
import SourceRoute.Proofs.PositionLaws
import SourceRoute.Proofs.RangeAccess
import SourceRoute.Proofs.Reversal
import SourceRoute.Proofs.ReverseInPlace
import SourceRoute.Proofs.ReverseRuns
import SourceRoute.Proofs.ReversedTwice
import SourceRoute.Proofs.RouteFingerprint
import SourceRoute.Proofs.RunLaws
import SourceRoute.Proofs.RunSafety
import SourceRoute.Proofs.Shortcuts
import SourceRoute.Proofs.Signing
import SourceRoute.Proofs.TextLaws
import SourceRoute.Proofs.UncheckedAdvance
import SourceRoute.Proofs.VerificationScope
import SourceRoute.Proofs.ViewEdits
import SourceRoute.Proofs.ViewLaws
import SourceRoute.Proofs.ViewLayout
import SourceRoute.Proofs.ViewReversal
import SourceRoute.Proofs.ViewRuns
import SourceRoute.Proofs.ViewSimulation
import SourceRoute.Proofs.WireFormat
import SourceRoute.Records
import SourceRoute.Router
import SourceRoute.Runs
import SourceRoute.Span
import SourceRoute.Text.CodePoints
import SourceRoute.Text.Combining
import SourceRoute.Text.Fields
import SourceRoute.Text.Hex
import SourceRoute.Text.Invisible
import SourceRoute.Text.Numeral
import SourceRoute.Text.Quoted
import SourceRoute.View.Basic
import SourceRoute.View.Edit
import SourceRoute.View.Record
import SourceRoute.View.Text
import SourceRoute.Wire
