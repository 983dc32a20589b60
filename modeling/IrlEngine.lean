import IrlEngine.Lib.Run
import IrlEngine.Policy
import IrlEngine.Seal
import IrlEngine.Lib.Table
import IrlEngine.Store
import IrlEngine.Authorize
import IrlEngine.Replay
import IrlEngine.Binding
import IrlEngine.Lifecycle
import IrlEngine.AuditChain
import IrlEngine.Verdicts
import IrlEngine.Ledger
import IrlEngine.Portfolio
import IrlEngine.Exposure
import IrlEngine.AntiReplay
import IrlEngine.Layer2
import IrlEngine.Lib.MerkleTree
import IrlEngine.Merkle
import IrlEngine.Anchor
import IrlEngine.AnchorCoverage
import IrlEngine.Envelope
import IrlEngine.Vault
import IrlEngine.BindRecord
import IrlEngine.Denials
import IrlEngine.Mta
import IrlEngine.Reads
import IrlEngine.Erasure
import IrlEngine.Lib.AesGcm
import IrlEngine.Redaction
import IrlEngine.Admin
import IrlEngine.Backfill
import IrlEngine.AdminAudit
import IrlEngine.BackfillRuns
import IrlEngine.Directions
import IrlEngine.Lib.Decimal
import IrlEngine.Lib.FloatText
import IrlEngine.Lib.JsonStyle
import IrlEngine.Lib.Utf16
import IrlEngine.Jcs
import IrlEngine.OperatorForm
import IrlEngine.TokenCache
import IrlEngine.Tolerance
import IrlEngine.Venues
import IrlEngine.TokenLookup
import IrlEngine.Shadow
import IrlEngine.Positions
import IrlEngine.Rejections
import IrlEngine.Lib.Joined
import IrlEngine.Fingerprint
import IrlEngine.Router
import IrlEngine.Lib.JsonDocument
import IrlEngine.MtaDecode
import IrlEngine.MtaCache
import IrlEngine.ModelHash
import IrlEngine.Lib.JsonOrder
import IrlEngine.Lib.Framing
import IrlEngine.Freshness
import IrlEngine.Constraints
import IrlEngine.Assets
import IrlEngine.Lib.Keyset
import IrlEngine.AuditPages
import IrlEngine.StatusChain
import IrlEngine.RateLimit
import IrlEngine.EvidenceExport
import IrlEngine.Lib.JsonPath
import IrlEngine.Lib.Serde
import IrlEngine.Wire
import IrlEngine.Sdk
import IrlEngine.AnchorAudit
import IrlEngine.OtsReceipts
import IrlEngine.Kms
import IrlEngine.Partitioning
import IrlEngine.Lib.Csv
import IrlEngine.EvidenceCsv
import IrlEngine.Lib.Interference
import IrlEngine.Gateway
import IrlEngine.Access
import IrlEngine.Readers
import IrlEngine.Responses
import IrlEngine.Clients
import IrlEngine.ClientCalls
import IrlEngine.ClientReads
import IrlEngine.TraceList
import IrlEngine.SignalModes
