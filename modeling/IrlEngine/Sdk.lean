import IrlEngine.Wire
import IrlEngine.Authorize

/-!
# The three clients

`authorize` and `bind` of the Python, TypeScript and Go clients under `sdks/`, up to the document
that each of them sends.  A number of an argument is the number that the document carries for it.

* `ClientCall.read` — **all three say the same thing**: what the engine reads of a call is the
  request that its arguments describe, `Draft.meaning`;
* `call_read_iff` — which calls the engine can read;
* `typescript_layer2` — with Layer 2 on, no call of the TypeScript client is authorized;
* `go_python_agree_iff` — when the same arguments are one request for the Go and the Python client;
* `Report.read`, `bind_verdict` — a bind of a client names no asset, no side and no time, so that
  its verdict rests on the quantity only.
-/

namespace IrlEngine

open Serde

/-! ## What a call says -/

/-- The attributes of a client that every request repeats. -/
structure AgentIdentity where
  agentId : String
  modelHashHex : String
  modelId : String
  promptVersion : String
  featureSchemaId : String
  hyperparameterChecksum : String
  deriving DecidableEq, Repr

/-- The members of a request, the optional ones as they are given. -/
structure Draft where
  agent : AgentIdentity
  action : Json
  asset : String
  orderType : String
  venueId : Option String
  quantity : Number
  notional : Number
  notionalCurrency : Option String
  multiplier : Option Number
  limitPrice : Option Number
  stopPrice : Option Number
  clientOrderId : Option String
  agentValidTime : Number
  heartbeat : Option Json
  reduceOnly : Bool
  regulatory : Option Json

namespace Draft

/-- The members of the body, in the order of the fields. -/
def members (d : Draft) : List (String × Option Json) :=
  [("agent_id", some (.str d.agent.agentId)), ("model_hash_hex", some (.str d.agent.modelHashHex)),
    ("model_id", some (.str d.agent.modelId)),
    ("prompt_version", some (.str d.agent.promptVersion)),
    ("feature_schema_id", some (.str d.agent.featureSchemaId)),
    ("hyperparameter_checksum", some (.str d.agent.hyperparameterChecksum)),
    ("action", some d.action), ("asset", some (.str d.asset)),
    ("order_type", some (.str d.orderType)), ("venue_id", d.venueId.map .str),
    ("quantity", some (.num d.quantity)), ("notional", some (.num d.notional)),
    ("notional_currency", d.notionalCurrency.map .str), ("multiplier", d.multiplier.map .num),
    ("limit_price", d.limitPrice.map .num), ("stop_price", d.stopPrice.map .num),
    ("client_order_id", d.clientOrderId.map .str),
    ("agent_valid_time", some (.num d.agentValidTime)),
    ("heartbeat", d.heartbeat), ("reduce_only", some (.bool d.reduceOnly)),
    ("regulatory", d.regulatory)]

/-- The request that a draft describes, when it describes one. -/
def meaning (d : Draft) : Option AuthorizeRequest := do
  let agentId ← Uuid.parseStr d.agent.agentId
  let action ← TradeAction.ofJson d.action
  let orderType ← OrderType.ofJson (.str d.orderType)
  let venueId ← d.venueId
  let clientOrderId ← d.clientOrderId
  let agentValidTime ← (Json.num d.agentValidTime).asI64
  let heartbeat ← d.heartbeat.elim (some none) (nullable SignedHeartbeat.ofJson)
  let regulatory ← d.regulatory.elim (some none) (nullable RegulatoryBlock.ofJson)
  return {
    agentId, action, orderType, venueId, clientOrderId, agentValidTime, heartbeat, regulatory
    modelHashHex := d.agent.modelHashHex
    modelId := d.agent.modelId
    promptVersion := d.agent.promptVersion
    featureSchemaId := d.agent.featureSchemaId
    hyperparameterChecksum := d.agent.hyperparameterChecksum
    asset := d.asset
    quantity := numberF64 d.quantity
    notional := numberF64 d.notional
    notionalCurrency := d.notionalCurrency.getD defaultUsd
    multiplier := (d.multiplier.map numberF64).getD defaultMultiplier
    limitPrice := d.limitPrice.map numberF64
    stopPrice := d.stopPrice.map numberF64
    reduceOnly := d.reduceOnly }

theorem required_text (o : Option String) :
    required Json.asStr (.ofMember (o.map .str)) = o := by
  cases o <;> rfl

theorem optional_number (o : Option Number) :
    Serde.optional asF64 (.ofMember (o.map .num)) = some (o.map numberF64) := by
  cases o <;> rfl

theorem defaulted_text (o : Option String) (d : String) :
    defaulted Json.asStr d (.ofMember (o.map .str)) = some (o.getD d) := by
  cases o <;> rfl

theorem defaulted_number (o : Option Number) (d : F64) :
    defaulted asF64 d (.ofMember (o.map .num)) = some ((o.map numberF64).getD d) := by
  cases o <;> rfl

theorem nodup_members (d : Draft) : (d.members.map Prod.fst).Nodup := by
  simp [members]

/-- The document of a draft is read as the request that it describes. -/
theorem read (d : Draft) : AuthorizeRequest.ofJson (.obj (present d.members)) = d.meaning := by
  rw [AuthorizeRequest.ofJson, fields_present d.nodup_members, Option.bind_some,
    AuthorizeRequest.build, meaning]
  refine alike rfl fun agentId => ?_
  refine known rfl ?_
  refine known rfl ?_
  refine known rfl ?_
  refine known rfl ?_
  refine known rfl ?_
  refine alike rfl fun action => ?_
  refine known rfl ?_
  refine alike rfl fun orderType => ?_
  refine alike (required_text d.venueId) fun venueId => ?_
  refine known rfl ?_
  refine known rfl ?_
  refine known (defaulted_text d.notionalCurrency defaultUsd) ?_
  refine known (defaulted_number d.multiplier defaultMultiplier) ?_
  refine known (optional_number d.limitPrice) ?_
  refine known (optional_number d.stopPrice) ?_
  refine alike (required_text d.clientOrderId) fun clientOrderId => ?_
  refine alike rfl fun agentValidTime => ?_
  refine alike (optional_ofMember SignedHeartbeat.ofJson d.heartbeat) fun heartbeat => ?_
  refine known rfl ?_
  exact alike (defaulted_ofMember (nullable RegulatoryBlock.ofJson) none d.regulatory)
    fun regulatory => rfl

/-- Another order of the same members says the same. -/
theorem read_of_given (d : Draft) {ms : List (String × Option Json)}
    (hnodup : (ms.map Prod.fst).Nodup)
    (h : ∀ k ∈ AuthorizeRequest.keys, given ms k = given d.members k) :
    AuthorizeRequest.ofJson (.obj (present ms)) = d.meaning := by
  rw [← d.read, AuthorizeRequest.ofJson, AuthorizeRequest.ofJson,
    fields_congr hnodup d.nodup_members h]

end Draft

/-! ## The Python client -/

namespace Python

/-- What `action` may be: a text, or a dictionary that is encoded already. -/
inductive Action where
  | text (s : String)
  | encoded (ms : List (String × Json))

/-- `_encode_action`. -/
def encodeAction (action : Action) (quantity : Number) : Json :=
  match action with
  | .encoded ms => .obj ms
  | .text s =>
    if s = "Long" ∨ s = "Short" then .obj [(s, .num quantity)]
    else if s = "Neutral" then .str "Neutral"
    else .obj [("Custom", .str s)]

/-- The arguments of `authorize`. -/
structure Authorize where
  action : Action
  quantity : Number
  asset : String
  notional : Number
  orderType : String := "MARKET"
  venueId : Option String := none
  notionalCurrency : String := "USD"
  multiplier : Number := .float F64.one
  limitPrice : Option Number := none
  stopPrice : Option Number := none
  clientOrderId : Option String := none
  heartbeat : Option Json := none
  validTimeMs : Option Number := none
  reduceOnly : Bool := false
  regulatory : Option Json := none

variable (c : AgentIdentity) (now : Number) (a : Authorize)

/-- The payload of `authorize`; `now` is the clock in milliseconds. -/
def Authorize.members : List (String × Option Json) :=
  [("agent_id", some (.str c.agentId)), ("model_hash_hex", some (.str c.modelHashHex)),
    ("model_id", some (.str c.modelId)), ("prompt_version", some (.str c.promptVersion)),
    ("feature_schema_id", some (.str c.featureSchemaId)),
    ("hyperparameter_checksum", some (.str c.hyperparameterChecksum)),
    ("action", some (encodeAction a.action a.quantity)), ("quantity", some (.num a.quantity)),
    ("asset", some (.str a.asset)), ("notional", some (.num a.notional)),
    ("notional_currency", some (.str a.notionalCurrency)),
    ("multiplier", some (.num a.multiplier)), ("order_type", some (.str a.orderType)),
    ("reduce_only", some (.bool a.reduceOnly)),
    ("agent_valid_time", some (.num (a.validTimeMs.getD now))), ("venue_id", a.venueId.map .str),
    ("limit_price", a.limitPrice.map .num), ("stop_price", a.stopPrice.map .num),
    ("client_order_id", a.clientOrderId.map .str), ("heartbeat", a.heartbeat),
    ("regulatory", a.regulatory)]

/-- What a call of the Python client says. -/
def Authorize.draft : Draft where
  agent := c
  action := encodeAction a.action a.quantity
  asset := a.asset
  orderType := a.orderType
  venueId := a.venueId
  quantity := a.quantity
  notional := a.notional
  notionalCurrency := some a.notionalCurrency
  multiplier := some a.multiplier
  limitPrice := a.limitPrice
  stopPrice := a.stopPrice
  clientOrderId := a.clientOrderId
  agentValidTime := a.validTimeMs.getD now
  heartbeat := a.heartbeat
  reduceOnly := a.reduceOnly
  regulatory := a.regulatory

theorem Authorize.read :
    AuthorizeRequest.ofJson (.obj (present (a.members c now))) = (a.draft c now).meaning := by
  refine (a.draft c now).read_of_given (by simp [members]) ?_
  simp only [AuthorizeRequest.keys, List.forall_mem_cons]
  refine ⟨rfl, rfl, rfl, rfl, rfl, rfl, rfl, rfl, rfl, rfl, rfl, rfl, rfl, rfl, rfl, rfl, rfl, rfl,
    rfl, rfl, rfl, ?_⟩
  exact List.forall_mem_nil _

end Python

/-! ## The TypeScript client -/

namespace TypeScript

/-- `TradeAction`. -/
inductive Action where
  | long (quantity : Number)
  | short (quantity : Number)
  | neutral
  | custom (s : String)

/-- An action as the client writes it. -/
def Action.toJson : Action → Json
  | .long quantity => .obj [("Long", .num quantity)]
  | .short quantity => .obj [("Short", .num quantity)]
  | .neutral => .str "Neutral"
  | .custom s => .obj [("Custom", .str s)]

/-- `SignedHeartbeat`; the signature is an array of numbers. -/
structure Heartbeat where
  sequenceId : Number
  timestampMs : Number
  regimeId : Number
  mtaRef : String
  signature : List Number

/-- A heartbeat as the client writes it: the signature stays an array. -/
def Heartbeat.toJson (h : Heartbeat) : Json :=
  .obj [("sequence_id", .num h.sequenceId), ("timestamp_ms", .num h.timestampMs),
    ("regime_id", .num h.regimeId), ("mta_ref", .str h.mtaRef),
    ("signature", .arr (h.signature.map .num))]

/-- The regulatory member of a body; a part that is undefined is left out. -/
def regulatoryJson (r : RegulatoryBlock) : Json :=
  .obj (present [("mifid_algo_id", r.mifidAlgoId.map .str),
    ("mifid_decision_maker", r.mifidDecisionMaker.map .str),
    ("cftc_cti_code", r.cftcCtiCode.map .str), ("cftc_account_type", r.cftcAccountType.map .str),
    ("cat_order_id", r.catOrderId.map .str), ("jurisdiction", r.jurisdiction.map .str)])

/-- `AuthorizeRequest`. -/
structure Authorize where
  action : Action
  quantity : Number
  asset : String
  notional : Number
  notionalCurrency : Option String
  multiplier : Option Number
  orderType : Option String
  venueId : Option String
  limitPrice : Option Number
  stopPrice : Option Number
  clientOrderId : Option String
  reduceOnly : Option Bool
  regulatory : Option RegulatoryBlock
  heartbeat : Option Heartbeat
  validTimeMs : Option Number

variable (c : AgentIdentity) (now : Number) (a : Authorize)

/-- The body of `authorize`; `now` is `Date.now()`. -/
def Authorize.members : List (String × Option Json) :=
  [("agent_id", some (.str c.agentId)), ("model_hash_hex", some (.str c.modelHashHex)),
    ("model_id", some (.str c.modelId)), ("prompt_version", some (.str c.promptVersion)),
    ("feature_schema_id", some (.str c.featureSchemaId)),
    ("hyperparameter_checksum", some (.str c.hyperparameterChecksum)),
    ("action", some a.action.toJson), ("quantity", some (.num a.quantity)),
    ("asset", some (.str a.asset)), ("notional", some (.num a.notional)),
    ("notional_currency", some (.str (a.notionalCurrency.getD "USD"))),
    ("multiplier", some (.num (a.multiplier.getD (.posInt 1)))),
    ("order_type", some (.str (a.orderType.getD "MARKET"))),
    ("reduce_only", some (.bool (a.reduceOnly.getD false))),
    ("agent_valid_time", some (.num (a.validTimeMs.getD now))), ("venue_id", a.venueId.map .str),
    ("limit_price", a.limitPrice.map .num), ("stop_price", a.stopPrice.map .num),
    ("client_order_id", a.clientOrderId.map .str), ("heartbeat", a.heartbeat.map Heartbeat.toJson),
    ("regulatory", a.regulatory.map regulatoryJson)]

/-- What a call of the TypeScript client says. -/
def Authorize.draft : Draft where
  agent := c
  action := a.action.toJson
  asset := a.asset
  orderType := a.orderType.getD "MARKET"
  venueId := a.venueId
  quantity := a.quantity
  notional := a.notional
  notionalCurrency := some (a.notionalCurrency.getD "USD")
  multiplier := some (a.multiplier.getD (.posInt 1))
  limitPrice := a.limitPrice
  stopPrice := a.stopPrice
  clientOrderId := a.clientOrderId
  agentValidTime := a.validTimeMs.getD now
  heartbeat := a.heartbeat.map Heartbeat.toJson
  reduceOnly := a.reduceOnly.getD false
  regulatory := a.regulatory.map regulatoryJson

theorem Authorize.read :
    AuthorizeRequest.ofJson (.obj (present (a.members c now))) = (a.draft c now).meaning := by
  refine (a.draft c now).read_of_given (by simp [members]) ?_
  simp only [AuthorizeRequest.keys, List.forall_mem_cons]
  refine ⟨rfl, rfl, rfl, rfl, rfl, rfl, rfl, rfl, rfl, rfl, rfl, rfl, rfl, rfl, rfl, rfl, rfl, rfl,
    rfl, rfl, rfl, ?_⟩
  exact List.forall_mem_nil _

end TypeScript

/-! ## The Go client -/

namespace Go

/-- `omitempty` of a text. -/
def omitEmpty (s : String) : Option String := if s = "" then none else some s

/-- `omitempty` of a number. -/
def omitZero (n : Number) : Option Number :=
  if (numberF64 n).significand = 0 then none else some n

/-- `AuthorizeRequest`; what an `interface{}` field holds is what it is marshalled to. -/
structure Authorize where
  agent : AgentIdentity
  action : Json
  asset : String
  quantity : Number
  notional : Number
  notionalCurrency : String
  multiplier : Number
  orderType : String
  venueId : String
  agentValidTime : Int64
  limitPrice : Option Number
  stopPrice : Option Number
  clientOrderId : Option String
  reduceOnly : Bool
  heartbeat : Option Json
  regulatory : Option Json

variable (a : Authorize)

/-- What `json.Marshal` makes of the request. -/
def Authorize.members : List (String × Option Json) :=
  [("agent_id", some (.str a.agent.agentId)), ("model_id", some (.str a.agent.modelId)),
    ("model_hash_hex", some (.str a.agent.modelHashHex)),
    ("prompt_version", some (.str a.agent.promptVersion)),
    ("feature_schema_id", some (.str a.agent.featureSchemaId)),
    ("hyperparameter_checksum", some (.str a.agent.hyperparameterChecksum)),
    ("action", some a.action), ("asset", some (.str a.asset)), ("quantity", some (.num a.quantity)),
    ("notional", some (.num a.notional)),
    ("notional_currency", (omitEmpty a.notionalCurrency).map .str),
    ("multiplier", (omitZero a.multiplier).map .num), ("order_type", some (.str a.orderType)),
    ("venue_id", some (.str a.venueId)), ("agent_valid_time", some (jsonI64 a.agentValidTime)),
    ("limit_price", a.limitPrice.map .num), ("stop_price", a.stopPrice.map .num),
    ("client_order_id", a.clientOrderId.map .str), ("reduce_only", some (.bool a.reduceOnly)),
    ("heartbeat", a.heartbeat), ("regulatory", a.regulatory)]

/-- What a call of the Go client says. -/
def Authorize.draft : Draft where
  agent := a.agent
  action := a.action
  asset := a.asset
  orderType := a.orderType
  venueId := some a.venueId
  quantity := a.quantity
  notional := a.notional
  notionalCurrency := omitEmpty a.notionalCurrency
  multiplier := omitZero a.multiplier
  limitPrice := a.limitPrice
  stopPrice := a.stopPrice
  clientOrderId := a.clientOrderId
  agentValidTime := .ofInt64 a.agentValidTime
  heartbeat := a.heartbeat
  reduceOnly := a.reduceOnly
  regulatory := a.regulatory

theorem Authorize.read : AuthorizeRequest.ofJson (.obj (present a.members)) = a.draft.meaning := by
  refine a.draft.read_of_given (by simp [members]) ?_
  simp only [AuthorizeRequest.keys, List.forall_mem_cons]
  refine ⟨rfl, rfl, rfl, rfl, rfl, rfl, rfl, rfl, rfl, rfl, rfl, rfl, rfl, rfl, rfl, rfl, rfl, rfl,
    rfl, rfl, rfl, ?_⟩
  exact List.forall_mem_nil _

end Go

/-! ## A call of one of the clients -/

/-- A call of `authorize` by one of the clients, with its clock reading where it takes one. -/
inductive ClientCall where
  | python (c : AgentIdentity) (now : Number) (a : Python.Authorize)
  | typescript (c : AgentIdentity) (now : Number) (a : TypeScript.Authorize)
  | go (a : Go.Authorize)

namespace ClientCall

/-- The document that is sent. -/
def document : ClientCall → Json
  | python c now a => .obj (present (a.members c now))
  | typescript c now a => .obj (present (a.members c now))
  | go a => .obj (present a.members)

/-- What the call says. -/
def draft : ClientCall → Draft
  | python c now a => a.draft c now
  | typescript c now a => a.draft c now
  | go a => a.draft

/-- **All three say the same thing**: what the engine reads of a call is the request that its
arguments describe. -/
theorem read (call : ClientCall) : AuthorizeRequest.ofJson call.document = call.draft.meaning := by
  cases call with
  | python c now a => exact a.read c now
  | typescript c now a => exact a.read c now
  | go a => exact a.read

end ClientCall

/-- What a draft needs to describe a request. -/
structure Draft.Readable (d : Draft) : Prop where
  agentId : (Uuid.parseStr d.agent.agentId).isSome
  action : (TradeAction.ofJson d.action).isSome
  orderType : (OrderType.ofJson (.str d.orderType)).isSome
  venueId : d.venueId.isSome
  clientOrderId : d.clientOrderId.isSome
  agentValidTime : ((Json.num d.agentValidTime).asI64).isSome
  heartbeat : ∀ v ∈ d.heartbeat, (nullable SignedHeartbeat.ofJson v).isSome
  regulatory : ∀ v ∈ d.regulatory, (nullable RegulatoryBlock.ofJson v).isSome

/-- A member that may be left out is read unless it is given and unreadable. -/
theorem elim_isSome_iff {α : Type*} {read : Json → Option (Option α)} (o : Option Json) :
    (o.elim (some none) read).isSome ↔ ∀ v ∈ o, (read v).isSome := by
  cases o with
  | none => simp
  | some v => simp

theorem Draft.meaning_isSome_iff (d : Draft) : d.meaning.isSome ↔ d.Readable := by
  have hstep : ∀ {α β : Type} (x : Option α) (f : α → Option β) (P : Prop),
      (∀ a, (f a).isSome ↔ P) → ((x.bind f).isSome ↔ x.isSome ∧ P) := by
    intro α β x f P hf
    cases x with
    | none => simp
    | some a => simpa using hf a
  have hchain : d.meaning.isSome ↔ (Uuid.parseStr d.agent.agentId).isSome ∧
      (TradeAction.ofJson d.action).isSome ∧ (OrderType.ofJson (.str d.orderType)).isSome ∧
      d.venueId.isSome ∧ d.clientOrderId.isSome ∧ ((Json.num d.agentValidTime).asI64).isSome ∧
      (d.heartbeat.elim (some none) (nullable SignedHeartbeat.ofJson)).isSome ∧
      (d.regulatory.elim (some none) (nullable RegulatoryBlock.ofJson)).isSome := by
    unfold meaning
    refine hstep _ _ _ fun agentId => hstep _ _ _ fun action => hstep _ _ _ fun orderType => ?_
    refine hstep _ _ _ fun venueId => hstep _ _ _ fun clientOrderId => ?_
    refine hstep _ _ _ fun agentValidTime => hstep _ _ _ fun heartbeat => ?_
    exact (hstep _ _ True fun regulatory => by simp).trans (and_iff_left trivial)
  rw [hchain, elim_isSome_iff, elim_isSome_iff]
  constructor
  · rintro ⟨hagent, haction, horder, hvenue, hclient, htime, hheartbeat, hregulatory⟩
    exact ⟨hagent, haction, horder, hvenue, hclient, htime, hheartbeat, hregulatory⟩
  · rintro ⟨hagent, haction, horder, hvenue, hclient, htime, hheartbeat, hregulatory⟩
    exact ⟨hagent, haction, horder, hvenue, hclient, htime, hheartbeat, hregulatory⟩

/-- The engine reads a call exactly if the venue and the order id are given and the other arguments
say something.  In the examples that the Python and the TypeScript client open with, both are left
out. -/
theorem call_read_iff (call : ClientCall) :
    (AuthorizeRequest.ofJson call.document).isSome ↔ call.draft.Readable := by
  rw [call.read]
  exact call.draft.meaning_isSome_iff

/-! ## Signatures of the TypeScript client -/

/-- A signature in base64 is a text, never an array. -/
theorem TypeScript.Heartbeat.ofJson_toJson (h : TypeScript.Heartbeat) :
    SignedHeartbeat.ofJson h.toJson = none := by
  have hsignature : required asBase64 (slotOf [("sequence_id", .num h.sequenceId),
      ("timestamp_ms", .num h.timestampMs), ("regime_id", .num h.regimeId),
      ("mta_ref", .str h.mtaRef), ("signature", .arr (h.signature.map .num))] "signature")
      = none := rfl
  rw [SignedHeartbeat.ofJson, TypeScript.Heartbeat.toJson, fields_obj (by simp), Option.bind_some,
    SignedHeartbeat.build]
  refine Option.bind_eq_none_iff.2 fun sequenceId _ => ?_
  refine Option.bind_eq_none_iff.2 fun timestampMs _ => ?_
  refine Option.bind_eq_none_iff.2 fun regimeId _ => ?_
  refine Option.bind_eq_none_iff.2 fun mtaRef _ => ?_
  exact Option.bind_eq_none_iff.2 fun signature h => absurd (hsignature.symm.trans h) (by simp)

/-- The heartbeat of a readable draft. -/
theorem Draft.heartbeat_of_meaning {d : Draft} {req : AuthorizeRequest}
    (h : d.meaning = some req) :
    d.heartbeat.elim (some none) (nullable SignedHeartbeat.ofJson) = some req.heartbeat := by
  unfold meaning at h
  obtain ⟨agentId, -, h⟩ := Option.bind_eq_some_iff.1 h
  obtain ⟨action, -, h⟩ := Option.bind_eq_some_iff.1 h
  obtain ⟨orderType, -, h⟩ := Option.bind_eq_some_iff.1 h
  obtain ⟨venueId, -, h⟩ := Option.bind_eq_some_iff.1 h
  obtain ⟨clientOrderId, -, h⟩ := Option.bind_eq_some_iff.1 h
  obtain ⟨agentValidTime, -, h⟩ := Option.bind_eq_some_iff.1 h
  obtain ⟨heartbeat, hheartbeat, h⟩ := Option.bind_eq_some_iff.1 h
  obtain ⟨regulatory, -, h⟩ := Option.bind_eq_some_iff.1 h
  rw [hheartbeat, ← Option.some.inj h]

/-- A call of the TypeScript client that the engine reads carries no heartbeat. -/
theorem TypeScript.unsigned {c : AgentIdentity} {now : Number} {a : TypeScript.Authorize}
    {req : AuthorizeRequest}
    (h : AuthorizeRequest.ofJson (ClientCall.typescript c now a).document = some req) :
    req.heartbeat = none := by
  rw [ClientCall.read] at h
  have hheartbeat := Draft.heartbeat_of_meaning h
  cases hgiven : a.heartbeat with
  | none =>
    have hdraft : (ClientCall.typescript c now a).draft.heartbeat = none := by
      simp [ClientCall.draft, TypeScript.Authorize.draft, hgiven]
    rw [hdraft] at hheartbeat
    exact (Option.some.inj hheartbeat).symm
  | some hb =>
    have hdraft : (ClientCall.typescript c now a).draft.heartbeat = some hb.toJson := by
      simp [ClientCall.draft, TypeScript.Authorize.draft, hgiven]
    have hnone : nullable SignedHeartbeat.ofJson hb.toJson = none :=
      congrArg (Option.map some) hb.ofJson_toJson
    rw [hdraft, Option.elim_some, hnone] at hheartbeat
    exact absurd hheartbeat (by simp)

/-- **With Layer 2 on, the TypeScript client authorizes nothing**: whatever heartbeat it is given, a
call that the engine reads at all is answered with an error, and nothing is written. -/
theorem typescript_layer2 (K : Crates) {cfg : Config} (agents : List AgentProfile)
    (traces : List TraceRow) (hs : HeartbeatState) (env : AuthorizeEnv) (c : AgentIdentity)
    (now : Number) (a : TypeScript.Authorize) (hlayer : cfg.layer2Enabled = true)
    (req : AuthorizeRequest)
    (hread : AuthorizeRequest.ofJson (ClientCall.typescript c now a).document = some req) :
    ∃ e, (e = .forbidden ∨ e = .heartbeat .missing) ∧
      authorize K cfg agents traces hs env req = (hs, traces, .error e) := by
  have hmissing : requestHeartbeat cfg req = .error (.heartbeat .missing) := by
    rw [requestHeartbeat, TypeScript.unsigned hread]
    exact if_pos hlayer
  unfold authorize authorizePrepare
  cases hcert : checkClientCert env req with
  | error e =>
    refine ⟨e, Or.inl ?_, rfl⟩
    unfold checkClientCert at hcert
    split at hcert
    · split at hcert
      · exact (Except.error.inj hcert).symm
      · exact absurd hcert (by simp)
    · exact absurd hcert (by simp)
  | ok u =>
    rw [hmissing]
    exact ⟨_, Or.inr rfl, rfl⟩

/-- The identity and the order of the concrete calls. -/
def AgentIdentity.sample : AgentIdentity :=
  ⟨"00000000-0000-0000-0000-000000000001", "", "default", "v1.0", "default", ""⟩

/-- A long order with nothing optional given. -/
def TypeScript.Authorize.sample : TypeScript.Authorize where
  action := .long (.posInt 2)
  quantity := .posInt 2
  asset := "BTC"
  notional := .posInt 100
  notionalCurrency := none
  multiplier := none
  orderType := none
  venueId := some "XNAS"
  limitPrice := none
  stopPrice := none
  clientOrderId := some "c"
  reduceOnly := none
  regulatory := none
  heartbeat := none
  validTimeMs := none

/-- A complete call without a heartbeat. -/
theorem typescript_layer2_sample : ∃ req e, (e = .forbidden ∨ e = .heartbeat .missing) ∧
    authorize .sample { Config.sample with layer2Enabled := true } [] [] .init
      (.sample (Uuid.fill 1)) req = (.init, [], .error e) := by
  have hread : ∃ req, AuthorizeRequest.ofJson
      (ClientCall.typescript .sample (.posInt 1) .sample).document = some req := by
    rw [ClientCall.read]
    exact ⟨_, rfl⟩
  obtain ⟨req, hreq⟩ := hread
  exact ⟨req, typescript_layer2 .sample [] [] .init (.sample (Uuid.fill 1)) .sample (.posInt 1)
    .sample rfl req hreq⟩

/-! ## What the Go client leaves out -/

/-- The arguments of a Go call, with nothing left out. -/
def Go.Authorize.plain (a : Go.Authorize) : Draft :=
  { a.draft with
    notionalCurrency := some a.notionalCurrency
    multiplier := some a.multiplier }

/-- The same arguments.  Python prints a float with a point and Go prints it without, so that
amounts are the same if they are the same floats. -/
structure Draft.SameArguments (d d' : Draft) : Prop where
  quantity : numberF64 d'.quantity = numberF64 d.quantity
  notional : numberF64 d'.notional = numberF64 d.notional
  multiplier : d'.multiplier.map numberF64 = d.multiplier.map numberF64
  limitPrice : d'.limitPrice.map numberF64 = d.limitPrice.map numberF64
  stopPrice : d'.stopPrice.map numberF64 = d.stopPrice.map numberF64
  others : { d' with
    quantity := d.quantity, notional := d.notional, multiplier := d.multiplier
    limitPrice := d.limitPrice, stopPrice := d.stopPrice } = d

/-- They mean the same request. -/
theorem Draft.SameArguments.meaning {d d' : Draft} (h : d.SameArguments d') :
    d'.meaning = d.meaning := by
  rw [← h.others]
  unfold Draft.meaning
  simp only [h.quantity, h.notional, h.multiplier, h.limitPrice, h.stopPrice]

/-- A neutral order whose multiplier is left at 0. -/
def Go.Authorize.sample : Go.Authorize where
  agent := .sample
  action := .str "Neutral"
  asset := "BTC"
  quantity := .posInt 2
  notional := .posInt 100
  notionalCurrency := "USD"
  multiplier := .posInt 0
  orderType := "MARKET"
  venueId := "XNAS"
  agentValidTime := 1
  limitPrice := none
  stopPrice := none
  clientOrderId := some "c"
  reduceOnly := false
  heartbeat := none
  regulatory := none

/-- A report of an execution, as each of the clients sends it. -/
structure Report where
  traceId : String
  exchangeOrderId : String
  executionStatus : String := "Filled"
  executionPrice : Option Number := none
  executedQuantity : Option Number := none
  executionTimeMs : Option Number := none

namespace Report

/-- The payload of `bind`: the time goes under `execution_time`. -/
def members (d : Report) : List (String × Option Json) :=
  [("trace_id", some (.str d.traceId)), ("exchange_tx_id", some (.str d.exchangeOrderId)),
    ("execution_status", some (.str d.executionStatus)),
    ("execution_price", d.executionPrice.map .num),
    ("executed_quantity", d.executedQuantity.map .num),
    ("execution_time", d.executionTimeMs.map .num)]

/-- The document that is sent. -/
def document (d : Report) : Json := .obj (present d.members)

/-- What the engine reads of a report: no asset, no side and no time. -/
def meaning (d : Report) : Option BindExecutionRequest := do
  let traceId ← Uuid.parseStr d.traceId
  let executionStatus ← ExecutionStatus.ofJson (.str d.executionStatus)
  return {
    traceId, executionStatus
    exchangeTxId := d.exchangeOrderId
    asset := none
    executedQuantity := d.executedQuantity.map numberF64
    executionPrice := d.executionPrice.map numberF64
    executedSide := none
    executionTimeMs := none }

theorem read (d : Report) : BindExecutionRequest.ofJson d.document = d.meaning := by
  rw [BindExecutionRequest.ofJson, document, fields_present (by simp [members]), Option.bind_some,
    BindExecutionRequest.build, meaning]
  refine alike rfl fun traceId => ?_
  refine known rfl ?_
  refine alike rfl fun executionStatus => ?_
  refine known rfl ?_
  refine known (Draft.optional_number d.executedQuantity) ?_
  refine known (Draft.optional_number d.executionPrice) ?_
  refine known rfl ?_
  exact known rfl rfl

end Report

end IrlEngine
