import IrlEngine.Errors

/-!
# Snapshots, requests and reasoning traces

The data of `snapshot.rs` and of the signed heartbeat: the trade action with its
direction, the execution intent, the sealed `CognitiveSnapshot`, the authorize
request, and the `ReasoningTrace` that is stored.  `toJson` is what
`serde_json::to_value` makes of each of them: enums are externally tagged, order
types are in SCREAMING_SNAKE_CASE, signatures are base64 strings, and the optional
parts of a regulatory block are left out when absent.
-/

namespace IrlEngine

/-! ## JSON of the scalar types -/

/-- A byte as a number. -/
def jsonU8 (n : UInt8) : Json := .num (.posInt n.toUInt64)

/-- An unsigned integer as a number. -/
def jsonU64 (n : UInt64) : Json := .num (.posInt n)

/-- A signed integer as a number. -/
def jsonI64 (n : Int64) : Json := .num (Number.ofInt64 n)

/-- A float as a number. -/
def jsonF64 (f : F64) : Json := .num (.float f)

/-- An option: `null` for nothing. -/
def jsonOption {α : Type*} (f : α → Json) : Option α → Json
  | none => .null
  | some a => f a

/-! ## Trade actions -/

/-- The direction and size of a proposed trade. -/
inductive TradeAction where
  | long (size : F64)
  | short (size : F64)
  | neutral
  | custom (s : String)
  deriving DecidableEq, Repr

/-- The canonical direction of an action. -/
inductive Direction where
  | long
  | short
  | neutral
  | unknown
  deriving DecidableEq, Repr

/-- The text the policy engine compares with `allowed_sides`. -/
def Direction.text : Direction → String
  | .long => "long"
  | .short => "short"
  | .neutral => "neutral"
  | .unknown => "unknown"

/-- Keyword matching on the lower-cased, trimmed text of a custom action. -/
def resolveCustomDirection (s : String) : Direction :=
  let lower := Text.trim (Text.toAsciiLowercase s.toList)
  if Text.contains lower "long" || Text.startsWith lower "buy" || Text.isText lower "open"
      || Text.contains lower "open_long" then .long
  else if Text.contains lower "short" || Text.startsWith lower "sell" || Text.isText lower "close"
      || Text.isText lower "exit" || Text.isText lower "reverse"
      || Text.contains lower "close_short" then .short
  else if Text.isText lower "neutral" || Text.isText lower "flat" || Text.isText lower "cancel"
      || Text.isText lower "hold" then .neutral
  else .unknown

namespace TradeAction

/-- `TradeAction::direction`. -/
def direction : TradeAction → Direction
  | .long _ => .long
  | .short _ => .short
  | .neutral => .neutral
  | .custom s => resolveCustomDirection s

/-- The `Display` text, which is what the `execution_action` column holds. -/
def display : TradeAction → String
  | .long s => "Long(" ++ s.display ++ ")"
  | .short s => "Short(" ++ s.display ++ ")"
  | .neutral => "Neutral"
  | .custom s => s

/-- A tagged variant: the name of the action, and its size. -/
def toJson : TradeAction → Json
  | .long s => .obj [("Long", jsonF64 s)]
  | .short s => .obj [("Short", jsonF64 s)]
  | .neutral => .str "Neutral"
  | .custom s => .obj [("Custom", .str s)]

end TradeAction

/-! ## Order types -/

/-- `OrderType`. -/
inductive OrderType where
  | market
  | limit
  | stop
  | stopLimit
  | twap
  | vwap
  | ioc
  | fok
  | postOnly
  | pegged
  | trailingStop
  | iceberg
  | custom (s : String)
  deriving DecidableEq, Repr

namespace OrderType

/-- The `Display` text, which is what the `execution_order_type` column holds. -/
def display : OrderType → String
  | .market => "MARKET"
  | .limit => "LIMIT"
  | .stop => "STOP"
  | .stopLimit => "STOP_LIMIT"
  | .twap => "TWAP"
  | .vwap => "VWAP"
  | .ioc => "IOC"
  | .fok => "FOK"
  | .postOnly => "POST_ONLY"
  | .pegged => "PEGGED"
  | .trailingStop => "TRAILING_STOP"
  | .iceberg => "ICEBERG"
  | .custom s => s

/-- A unit variant is serialized as its renamed name, which is its `Display` text. -/
def toJson : OrderType → Json
  | .custom s => .obj [("CUSTOM", .str s)]
  | t => .str t.display

end OrderType

/-! ## The sealed snapshot -/

/-- `ExecutionIntent`: the order as it is sealed. -/
structure ExecutionIntent where
  action : TradeAction
  asset : String
  orderType : OrderType
  venueId : String
  quantity : F64
  notional : F64
  notionalCurrency : String
  multiplier : F64
  limitPrice : Option F64
  stopPrice : Option F64
  clientOrderId : String
  deriving DecidableEq, Repr

/-- Its members, in the order of the fields. -/
def ExecutionIntent.toJson (e : ExecutionIntent) : Json :=
  .obj [("action", e.action.toJson), ("asset", .str e.asset), ("order_type", e.orderType.toJson),
    ("venue_id", .str e.venueId), ("quantity", jsonF64 e.quantity),
    ("notional", jsonF64 e.notional), ("notional_currency", .str e.notionalCurrency),
    ("multiplier", jsonF64 e.multiplier), ("limit_price", jsonOption jsonF64 e.limitPrice),
    ("stop_price", jsonOption jsonF64 e.stopPrice), ("client_order_id", .str e.clientOrderId)]

/-- A signed pulse of the MTA operator. -/
structure SignedHeartbeat where
  sequenceId : UInt64
  timestampMs : UInt64
  regimeId : UInt8
  mtaRef : String
  signature : List UInt8
  deriving DecidableEq, Repr

/-- Its members; the signature goes as base64. -/
def SignedHeartbeat.toJson (h : SignedHeartbeat) : Json :=
  .obj [("sequence_id", jsonU64 h.sequenceId), ("timestamp_ms", jsonU64 h.timestampMs),
    ("regime_id", jsonU8 h.regimeId), ("mta_ref", .str h.mtaRef),
    ("signature", .str (String.ofList (Encoding.base64Encode h.signature)))]

/-- Everything an agent knew and intended at the moment of decision. -/
structure CognitiveSnapshot where
  traceId : Uuid
  mtaRegimeId : UInt8
  mtaVersion : String
  mtaHash : String
  latentFingerprint : String
  featureSchemaId : String
  execution : ExecutionIntent
  validTime : Int64
  txnTime : Int64
  heartbeat : SignedHeartbeat
  deriving DecidableEq, Repr

/-- Its members, in the order of the fields. -/
def CognitiveSnapshot.toJson (s : CognitiveSnapshot) : Json :=
  .obj [("trace_id", .str s.traceId.toText), ("mta_regime_id", jsonU8 s.mtaRegimeId),
    ("mta_version", .str s.mtaVersion), ("mta_hash", .str s.mtaHash),
    ("latent_fingerprint", .str s.latentFingerprint),
    ("feature_schema_id", .str s.featureSchemaId), ("execution", s.execution.toJson),
    ("valid_time", jsonI64 s.validTime), ("txn_time", jsonI64 s.txnTime),
    ("heartbeat", s.heartbeat.toJson)]

/-- `SHA-256(model_id || prompt_version || feature_schema_id || hyperparameter_checksum)`. -/
def computeLatentFingerprint
    (modelId promptVersion featureSchemaId hyperparameterChecksum : String) :
    String :=
  sha256Hex (Text.utf8 modelId ++ Text.utf8 "||" ++ Text.utf8 promptVersion ++ Text.utf8 "||"
    ++ Text.utf8 featureSchemaId ++ Text.utf8 "||" ++ Text.utf8 hyperparameterChecksum)

/-! ## The request -/

/-- Optional regulatory metadata. -/
structure RegulatoryBlock where
  mifidAlgoId : Option String
  mifidDecisionMaker : Option String
  cftcCtiCode : Option String
  cftcAccountType : Option String
  catOrderId : Option String
  jurisdiction : Option String
  deriving DecidableEq, Repr

/-- The members of an optional string that is skipped when absent. -/
def jsonSkipped (key : String) : Option String → List (String × Json)
  | none => []
  | some s => [(key, .str s)]

/-- Its members; a missing one is left out. -/
def RegulatoryBlock.toJson (r : RegulatoryBlock) : Json :=
  .obj (jsonSkipped "mifid_algo_id" r.mifidAlgoId
    ++ jsonSkipped "mifid_decision_maker" r.mifidDecisionMaker
    ++ jsonSkipped "cftc_cti_code" r.cftcCtiCode
    ++ jsonSkipped "cftc_account_type" r.cftcAccountType
    ++ jsonSkipped "cat_order_id" r.catOrderId ++ jsonSkipped "jurisdiction" r.jurisdiction)

/-- The body of `POST /irl/authorize`, after the decoder has filled in the defaults. -/
structure AuthorizeRequest where
  agentId : Uuid
  modelHashHex : String
  modelId : String
  promptVersion : String
  featureSchemaId : String
  hyperparameterChecksum : String
  action : TradeAction
  asset : String
  orderType : OrderType
  venueId : String
  quantity : F64
  notional : F64
  notionalCurrency : String
  multiplier : F64
  limitPrice : Option F64
  stopPrice : Option F64
  clientOrderId : String
  agentValidTime : Int64
  heartbeat : Option SignedHeartbeat
  reduceOnly : Bool
  regulatory : Option RegulatoryBlock
  deriving DecidableEq, Repr

/-! ## The stored trace -/

/-- `BiTemporalBlock`. -/
structure BiTemporalBlock where
  validTime : DateTime
  txnTime : DateTime
  timeSource : String

/-- `MtaBlock`. -/
structure MtaBlock where
  regimeId : UInt8
  regimeLabel : String
  riskLevel : F64
  maxNotionalScale : F64
  allowedSides : List String
  version : String
  hash : String
  signatureValid : Bool

/-- `AgentBlock`. -/
structure AgentBlock where
  agentId : Uuid
  latentFingerprint : String
  featureSchemaId : String

/-- `ExecutionBlock`: the order with its action and its type as texts. -/
structure ExecutionBlock where
  action : String
  asset : String
  orderType : String
  venueId : String
  quantity : F64
  notional : F64
  notionalCurrency : String
  multiplier : F64
  limitPrice : Option F64
  stopPrice : Option F64
  clientOrderId : String

/-- `HeartbeatBlock`. -/
structure HeartbeatBlock where
  sequenceId : UInt64
  signatureValid : Bool
  driftMs : Int64

/-- `PolicyBlock`. -/
structure PolicyBlock where
  id : String
  version : String
  hash : String
  result : String

/-- `IntegrityBlock`: the seal, and what binding adds to it. -/
structure IntegrityBlock where
  reasoningHash : String
  finalProof : Option String
  verificationStatus : String
  executionStatus : Option String

/-- The `Reasoning_Trace_v1` record. -/
structure ReasoningTrace where
  traceId : Uuid
  version : String
  bitemporal : BiTemporalBlock
  mta : MtaBlock
  agent : AgentBlock
  execution : ExecutionBlock
  heartbeat : HeartbeatBlock
  policy : PolicyBlock
  integrity : IntegrityBlock
  regulatory : Option RegulatoryBlock

/-- Its members, in the order of the fields. -/
def BiTemporalBlock.toJson (K : Crates) (b : BiTemporalBlock) : Json :=
  .obj [("valid_time", .str (K.rfc3339 b.validTime)), ("txn_time", .str (K.rfc3339 b.txnTime)),
    ("time_source", .str b.timeSource)]

/-- Its members, in the order of the fields. -/
def MtaBlock.toJson (b : MtaBlock) : Json :=
  .obj [("regime_id", jsonU8 b.regimeId), ("regime_label", .str b.regimeLabel),
    ("risk_level", jsonF64 b.riskLevel), ("max_notional_scale", jsonF64 b.maxNotionalScale),
    ("allowed_sides", .arr (b.allowedSides.map .str)), ("version", .str b.version),
    ("hash", .str b.hash), ("signature_valid", .bool b.signatureValid)]

/-- Its members, in the order of the fields. -/
def AgentBlock.toJson (b : AgentBlock) : Json :=
  .obj [("agent_id", .str b.agentId.toText), ("latent_fingerprint", .str b.latentFingerprint),
    ("feature_schema_id", .str b.featureSchemaId)]

/-- Its members, in the order of the fields. -/
def ExecutionBlock.toJson (b : ExecutionBlock) : Json :=
  .obj [("action", .str b.action), ("asset", .str b.asset), ("order_type", .str b.orderType),
    ("venue_id", .str b.venueId), ("quantity", jsonF64 b.quantity),
    ("notional", jsonF64 b.notional), ("notional_currency", .str b.notionalCurrency),
    ("multiplier", jsonF64 b.multiplier), ("limit_price", jsonOption jsonF64 b.limitPrice),
    ("stop_price", jsonOption jsonF64 b.stopPrice), ("client_order_id", .str b.clientOrderId)]

/-- Its members, in the order of the fields. -/
def HeartbeatBlock.toJson (b : HeartbeatBlock) : Json :=
  .obj [("sequence_id", jsonU64 b.sequenceId), ("signature_valid", .bool b.signatureValid),
    ("drift_ms", jsonI64 b.driftMs)]

/-- Its members, in the order of the fields. -/
def PolicyBlock.toJson (b : PolicyBlock) : Json :=
  .obj [("id", .str b.id), ("version", .str b.version), ("hash", .str b.hash),
    ("result", .str b.result)]

/-- Its members, in the order of the fields. -/
def IntegrityBlock.toJson (b : IntegrityBlock) : Json :=
  .obj [("reasoning_hash", .str b.reasoningHash), ("final_proof", jsonOption .str b.finalProof),
    ("verification_status", .str b.verificationStatus),
    ("execution_status", jsonOption .str b.executionStatus)]

/-- The document of a trace, one member for each block. -/
def ReasoningTrace.toJson (K : Crates) (t : ReasoningTrace) : Json :=
  .obj ([("trace_id", .str t.traceId.toText), ("version", .str t.version),
    ("bitemporal", t.bitemporal.toJson K), ("mta", t.mta.toJson), ("agent", t.agent.toJson),
    ("execution", t.execution.toJson), ("heartbeat", t.heartbeat.toJson),
    ("policy", t.policy.toJson), ("integrity", t.integrity.toJson)]
    ++ match t.regulatory with
      | none => []
      | some r => [("regulatory", r.toJson)])

end IrlEngine
