import IrlEngine.Lib.Serde
import IrlEngine.Seal
import IrlEngine.Mta
import IrlEngine.Binding

/-!
# What the engine reads off the wire

The derived decoders of the request bodies and of the sealed snapshot, from `snapshot.rs`,
`heartbeat.rs` and `binding.rs`: fields in any order or as an array, enumerations by name,
identifiers in the four forms that the `uuid` crate reads, signatures in base64.

* `Uuid.parseStr_toText`, `SignedHeartbeat.ofJson_toJson`, `CognitiveSnapshot.ofJson_toJson` — what
  was serialized is read back;
* `blind_authorizeRequest`, `blind_bindExecutionRequest` — a request means the same in whatever
  order its members stand;
* `sealed_text_opens` — **a seal opens**: every document with the sealed canonical text is read as
  the snapshot that was sealed.
-/

namespace IrlEngine

open Serde

/-! ## Identifiers -/

/-- The sixteen bytes of 32 digits of either case. -/
def Uuid.ofDigits (digits : List Char) : Option Uuid :=
  (Encoding.hexDecode digits).bind fun bytes =>
    if h : bytes.length = 16 then some ⟨bytes, h⟩ else none

/-- Groups of 8, 4, 4, 4 and 12 digits. -/
def Uuid.parseHyphenated (cs : List Char) : Option Uuid :=
  if cs.length = 36 ∧ cs[8]? = some '-' ∧ cs[13]? = some '-' ∧ cs[18]? = some '-'
      ∧ cs[23]? = some '-' then
    Uuid.ofDigits (cs.take 8 ++ (cs.drop 9).take 4 ++ (cs.drop 14).take 4 ++ (cs.drop 19).take 4
      ++ cs.drop 24)
  else none

/-- `Uuid::parse_str`: plain digits, hyphenated, in braces or as a URN. -/
def Uuid.parseStr (s : String) : Option Uuid :=
  let cs := s.toList
  if cs.length = 32 then Uuid.ofDigits cs
  else if cs.length = 36 then Uuid.parseHyphenated cs
  else if cs.length = 38 ∧ cs.head? = some '\x7b' ∧ cs.getLast? = some '\x7d' then
    Uuid.parseHyphenated (cs.drop 1).dropLast
  else if cs.length = 45 ∧ cs.take 9 = "urn:uuid:".toList then Uuid.parseHyphenated (cs.drop 9)
  else none

/-- Text cut into five groups by hyphens. -/
theorem Uuid.parseHyphenated_groups {a b c d e : List Char} (ha : a.length = 8) (hb : b.length = 4)
    (hc : c.length = 4) (hd : d.length = 4) (he : e.length = 12) :
    Uuid.parseHyphenated (a ++ '-' :: b ++ '-' :: c ++ '-' :: d ++ '-' :: e)
      = Uuid.ofDigits (a ++ b ++ c ++ d ++ e) := by
  have hdrop : ∀ (l : List Char) (n : ℕ), l.length ≤ n → l.drop n = [] :=
    fun l n h => List.drop_eq_nil_of_le h
  simp [Uuid.parseHyphenated, List.drop_append, hdrop, ha, hb, hc, hd, he]

theorem Uuid.ofDigits_hexEncode (u : Uuid) :
    Uuid.ofDigits (Encoding.hexEncode u.bytes) = some u := by
  rw [Uuid.ofDigits, Encoding.hexDecode_hexEncode, Option.bind_some, dif_pos u.length_eq]

/-- The printed form is read back. -/
theorem Uuid.parseStr_toText (u : Uuid) : Uuid.parseStr u.toText = some u := by
  have hlen : (Encoding.hexEncode u.bytes).length = 32 := by
    rw [Encoding.length_hexEncode, u.length_eq]
  obtain ⟨h, hh⟩ : ∃ h, h = Encoding.hexEncode u.bytes := ⟨_, rfl⟩
  rw [← hh] at hlen
  have hcut : h.take 8 ++ (h.drop 8).take 4 ++ (h.drop 12).take 4 ++ (h.drop 16).take 4 ++ h.drop 20
      = h := by
    have hjoin : ∀ i n, (h.drop i).take n ++ h.drop (i + n) = h.drop i := by
      intro i n
      rw [← List.drop_drop, List.take_append_drop]
    rw [List.append_assoc, List.append_assoc, List.append_assoc, hjoin 16 4, hjoin 12 4, hjoin 8 4,
      List.take_append_drop]
  have hgroups := Uuid.parseHyphenated_groups (a := h.take 8) (b := (h.drop 8).take 4)
    (c := (h.drop 12).take 4) (d := (h.drop 16).take 4) (e := h.drop 20) (by simp [hlen])
    (by simp [hlen]) (by simp [hlen]) (by simp [hlen]) (by simp [hlen])
  have htext : u.toText.toList.length = 36 := by
    simp [Uuid.toText, ← hh, hlen]
  have hparse : Uuid.parseStr u.toText = Uuid.parseHyphenated u.toText.toList := by
    simp [Uuid.parseStr, htext]
  rw [hparse, Uuid.toText, String.toList_ofList, ← hh, hgroups, hcut, hh, Uuid.ofDigits_hexEncode]

/-! ## Scalars -/

/-- An unsigned integer. -/
def asU64 : Json → Option UInt64
  | .num (.posInt n) => some n
  | _ => none

/-- The float of a number; integers go to the nearest one. -/
def numberF64 : Number → F64
  | .posInt n => .ofNat n.toNat
  | .negInt n => (F64.ofNat (n.val + 1)).neg
  | .float f => f

/-- Any number, as a float. -/
def asF64 : Json → Option F64
  | .num n => some (numberF64 n)
  | _ => none

/-- A boolean. -/
def asBool : Json → Option Bool
  | .bool b => some b
  | _ => none

/-- A text that is a UUID. -/
def asUuid : Json → Option Uuid
  | .str s => Uuid.parseStr s
  | _ => none

/-- `base64_bytes::deserialize`. -/
def asBase64 : Json → Option (List UInt8)
  | .str s => Encoding.base64Decode s.toList
  | _ => none

theorem blind_asStr : Blind Json.asStr := by
  intro v
  cases v <;> rfl

theorem blind_asI64 : Blind Json.asI64 := by
  intro v
  cases v <;> rfl

theorem blind_asU8 : Blind asU8 := by
  intro v
  cases v <;> rfl

theorem blind_asU64 : Blind asU64 := by
  intro v
  cases v <;> rfl

theorem blind_asF64 : Blind asF64 := by
  intro v
  cases v <;> rfl

theorem blind_asBool : Blind asBool := by
  intro v
  cases v <;> rfl

theorem blind_asUuid : Blind asUuid := by
  intro v
  cases v <;> rfl

theorem blind_asBase64 : Blind asBase64 := by
  intro v
  cases v <;> rfl

@[simp] theorem asU8_jsonU8 (n : UInt8) : asU8 (jsonU8 n) = some n := by
  have hn := n.toNat_lt
  simp [asU8, jsonU8, hn]

@[simp] theorem asU64_jsonU64 (n : UInt64) : asU64 (jsonU64 n) = some n := rfl

@[simp] theorem asF64_jsonF64 (f : F64) : asF64 (jsonF64 f) = some f := rfl

@[simp] theorem asI64_jsonI64 (n : Int64) : (jsonI64 n).asI64 = some n := by
  unfold jsonI64 Number.ofInt64
  by_cases hn : 0 ≤ n.toInt
  · have hcond := BitVec.toInt_eq_toNat_cond n.toBitVec
    have hint : n.toBitVec.toInt = n.toInt := rfl
    have hnat : n.toUInt64.toNat < 9223372036854775808 := by
      have hbits : n.toUInt64.toNat = n.toBitVec.toNat := rfl
      rw [hbits]
      split at hcond <;> omega
    simp [if_pos hn, Json.asI64, hnat]
  · have hlo := n.le_toInt
    have hval : (Fin.ofNat (2 ^ 63) (-n.toInt - 1).toNat).val = (-n.toInt - 1).toNat := by
      rw [Fin.val_ofNat]
      exact Nat.mod_eq_of_lt (by omega)
    have hback : -(((-n.toInt - 1).toNat : ℕ) : ℤ) - 1 = n.toInt := by omega
    rw [if_neg hn]
    show some (Int64.ofInt (-(((Fin.ofNat (2 ^ 63) (-n.toInt - 1).toNat).val : ℕ) : ℤ) - 1))
      = some n
    rw [hval, hback, Int64.ofInt_toInt]

@[simp] theorem asUuid_toText (u : Uuid) : asUuid (.str u.toText) = some u := Uuid.parseStr_toText u

@[simp] theorem asBase64_encode (bytes : List UInt8) :
    asBase64 (.str (String.ofList (Encoding.base64Encode bytes))) = some bytes := by
  rw [asBase64, String.toList_ofList, Encoding.base64Decode_base64Encode]

@[simp] theorem nullable_jsonOption_jsonF64 (o : Option F64) :
    nullable asF64 (jsonOption jsonF64 o) = some o := by
  cases o <;> rfl

/-! ## Enumerations -/

/-- `TradeAction::deserialize`. -/
def TradeAction.ofJson (v : Json) : Option TradeAction :=
  (variant v).bind fun (name, payload) =>
    if name = "Long" then (payload.bind asF64).map .long
    else if name = "Short" then (payload.bind asF64).map .short
    else if name = "Neutral" then if isUnit payload then some .neutral else none
    else if name = "Custom" then (payload.bind Json.asStr).map .custom
    else none

/-- The variants without data. -/
def OrderType.units : List OrderType :=
  [.market, .limit, .stop, .stopLimit, .twap, .vwap, .ioc, .fok, .postOnly, .pegged, .trailingStop,
    .iceberg]

/-- The variant without data that has this name. -/
def OrderType.ofName (name : String) : Option OrderType :=
  OrderType.units.find? fun t => t.display = name

/-- `OrderType::deserialize`. -/
def OrderType.ofJson (v : Json) : Option OrderType :=
  (variant v).bind fun (name, payload) =>
    if name = "CUSTOM" then (payload.bind Json.asStr).map .custom
    else if isUnit payload then OrderType.ofName name else none

/-- `ExecutionStatus::deserialize`. -/
def ExecutionStatus.ofJson (v : Json) : Option ExecutionStatus :=
  (variant v).bind fun (name, payload) =>
    if isUnit payload then
      if name = "Filled" then some .filled
      else if name = "Rejected" then some .rejected
      else if name = "Partial" then some .partialFill
      else none
    else none

theorem bind_normalize {α : Type*} {read : Json → Option α} (h : Blind read) (p : Option Json) :
    (p.map Json.normalize).bind read = p.bind read := by
  cases p with
  | none => rfl
  | some v => exact h v

theorem blind_tradeAction : Blind TradeAction.ofJson := by
  intro v
  rw [TradeAction.ofJson, TradeAction.ofJson, variant_normalize]
  cases variant v with
  | none => rfl
  | some p =>
    simp only [Option.map_some, Option.bind_some, bind_normalize blind_asF64,
      bind_normalize blind_asStr, isUnit_normalize]

theorem blind_orderType : Blind OrderType.ofJson := by
  intro v
  rw [OrderType.ofJson, OrderType.ofJson, variant_normalize]
  cases variant v with
  | none => rfl
  | some p =>
    simp only [Option.map_some, Option.bind_some, bind_normalize blind_asStr, isUnit_normalize]

theorem blind_executionStatus : Blind ExecutionStatus.ofJson := by
  intro v
  rw [ExecutionStatus.ofJson, ExecutionStatus.ofJson, variant_normalize]
  cases variant v with
  | none => rfl
  | some p => simp only [Option.map_some, Option.bind_some, isUnit_normalize]

@[simp] theorem TradeAction.ofJson_toJson (a : TradeAction) :
    TradeAction.ofJson a.toJson = some a := by
  cases a <;> simp [TradeAction.ofJson, TradeAction.toJson, variant, isUnit, Json.asStr]

@[simp] theorem OrderType.ofJson_toJson (t : OrderType) : OrderType.ofJson t.toJson = some t := by
  cases t <;> simp [OrderType.ofJson, OrderType.toJson, OrderType.display, OrderType.ofName,
    OrderType.units, variant, isUnit, Json.asStr]

/-! ## The sealed snapshot -/

/-- The keys that are read; any other is ignored. -/
def SignedHeartbeat.keys : List String :=
  ["sequence_id", "timestamp_ms", "regime_id", "mta_ref", "signature"]

/-- The heartbeat of its fields; `mta_ref` defaults to the empty text. -/
def SignedHeartbeat.build (s : String → Slot) : Option SignedHeartbeat := do
  let sequenceId ← required asU64 (s "sequence_id")
  let timestampMs ← required asU64 (s "timestamp_ms")
  let regimeId ← required asU8 (s "regime_id")
  let mtaRef ← defaulted Json.asStr "" (s "mta_ref")
  let signature ← required asBase64 (s "signature")
  return ⟨sequenceId, timestampMs, regimeId, mtaRef, signature⟩

/-- `SignedHeartbeat::deserialize`. -/
def SignedHeartbeat.ofJson (v : Json) : Option SignedHeartbeat :=
  (fields SignedHeartbeat.keys v).bind SignedHeartbeat.build

/-- The keys that are read; any other is ignored. -/
def ExecutionIntent.keys : List String :=
  ["action", "asset", "order_type", "venue_id", "quantity", "notional", "notional_currency",
    "multiplier", "limit_price", "stop_price", "client_order_id"]

/-- The intent of its fields. -/
def ExecutionIntent.build (s : String → Slot) : Option ExecutionIntent := do
  let action ← required TradeAction.ofJson (s "action")
  let asset ← required Json.asStr (s "asset")
  let orderType ← required OrderType.ofJson (s "order_type")
  let venueId ← required Json.asStr (s "venue_id")
  let quantity ← required asF64 (s "quantity")
  let notional ← required asF64 (s "notional")
  let notionalCurrency ← required Json.asStr (s "notional_currency")
  let multiplier ← required asF64 (s "multiplier")
  let limitPrice ← optional asF64 (s "limit_price")
  let stopPrice ← optional asF64 (s "stop_price")
  let clientOrderId ← required Json.asStr (s "client_order_id")
  return ⟨action, asset, orderType, venueId, quantity, notional, notionalCurrency, multiplier,
    limitPrice, stopPrice, clientOrderId⟩

/-- `ExecutionIntent::deserialize`. -/
def ExecutionIntent.ofJson (v : Json) : Option ExecutionIntent :=
  (fields ExecutionIntent.keys v).bind ExecutionIntent.build

/-- The keys that are read; any other is ignored. -/
def CognitiveSnapshot.keys : List String :=
  ["trace_id", "mta_regime_id", "mta_version", "mta_hash", "latent_fingerprint",
    "feature_schema_id", "execution", "valid_time", "txn_time", "heartbeat"]

/-- The snapshot of its fields. -/
def CognitiveSnapshot.build (s : String → Slot) : Option CognitiveSnapshot := do
  let traceId ← required asUuid (s "trace_id")
  let mtaRegimeId ← required asU8 (s "mta_regime_id")
  let mtaVersion ← required Json.asStr (s "mta_version")
  let mtaHash ← required Json.asStr (s "mta_hash")
  let latentFingerprint ← required Json.asStr (s "latent_fingerprint")
  let featureSchemaId ← required Json.asStr (s "feature_schema_id")
  let execution ← required ExecutionIntent.ofJson (s "execution")
  let validTime ← required Json.asI64 (s "valid_time")
  let txnTime ← required Json.asI64 (s "txn_time")
  let heartbeat ← required SignedHeartbeat.ofJson (s "heartbeat")
  return ⟨traceId, mtaRegimeId, mtaVersion, mtaHash, latentFingerprint, featureSchemaId, execution,
    validTime, txnTime, heartbeat⟩

/-- `CognitiveSnapshot::deserialize`. -/
def CognitiveSnapshot.ofJson (v : Json) : Option CognitiveSnapshot :=
  (fields CognitiveSnapshot.keys v).bind CognitiveSnapshot.build

theorem blind_signedHeartbeat : Blind SignedHeartbeat.ofJson := by
  refine blind_record fun s => ?_
  simp only [SignedHeartbeat.build, blind_asU64.required _, blind_asU8.required _,
    blind_asStr.defaulted "" _, blind_asBase64.required _]

theorem blind_executionIntent : Blind ExecutionIntent.ofJson := by
  refine blind_record fun s => ?_
  simp only [ExecutionIntent.build, blind_tradeAction.required _, blind_asStr.required _,
    blind_orderType.required _, blind_asF64.required _, blind_asF64.optional _]

theorem blind_cognitiveSnapshot : Blind CognitiveSnapshot.ofJson := by
  refine blind_record fun s => ?_
  simp only [CognitiveSnapshot.build, blind_asUuid.required _, blind_asU8.required _,
    blind_asStr.required _, blind_executionIntent.required _, blind_asI64.required _,
    blind_signedHeartbeat.required _]

theorem SignedHeartbeat.ofJson_toJson (h : SignedHeartbeat) :
    SignedHeartbeat.ofJson h.toJson = some h := by
  rw [SignedHeartbeat.ofJson, SignedHeartbeat.toJson, fields_obj (by simp), Option.bind_some,
    SignedHeartbeat.build]
  refine field (required_found rfl (asU64_jsonU64 h.sequenceId)) ?_
  refine field (required_found rfl (asU64_jsonU64 h.timestampMs)) ?_
  refine field (required_found rfl (asU8_jsonU8 h.regimeId)) ?_
  refine field (defaulted_found rfl rfl) ?_
  exact field (required_found rfl (asBase64_encode h.signature)) rfl

theorem ExecutionIntent.ofJson_toJson (e : ExecutionIntent) :
    ExecutionIntent.ofJson e.toJson = some e := by
  rw [ExecutionIntent.ofJson, ExecutionIntent.toJson, fields_obj (by simp), Option.bind_some,
    ExecutionIntent.build]
  refine field (required_found rfl (TradeAction.ofJson_toJson e.action)) ?_
  refine field (required_found rfl rfl) ?_
  refine field (required_found rfl (OrderType.ofJson_toJson e.orderType)) ?_
  refine field (required_found rfl rfl) ?_
  refine field (required_found rfl (asF64_jsonF64 e.quantity)) ?_
  refine field (required_found rfl (asF64_jsonF64 e.notional)) ?_
  refine field (required_found rfl rfl) ?_
  refine field (required_found rfl (asF64_jsonF64 e.multiplier)) ?_
  refine field (optional_found rfl (nullable_jsonOption_jsonF64 e.limitPrice)) ?_
  refine field (optional_found rfl (nullable_jsonOption_jsonF64 e.stopPrice)) ?_
  exact field (required_found rfl rfl) rfl

/-- A serialized snapshot is read back. -/
theorem CognitiveSnapshot.ofJson_toJson (s : CognitiveSnapshot) :
    CognitiveSnapshot.ofJson s.toJson = some s := by
  rw [CognitiveSnapshot.ofJson, CognitiveSnapshot.toJson, fields_obj (by simp), Option.bind_some,
    CognitiveSnapshot.build]
  refine field (required_found rfl (asUuid_toText s.traceId)) ?_
  refine field (required_found rfl (asU8_jsonU8 s.mtaRegimeId)) ?_
  refine field (required_found rfl rfl) ?_
  refine field (required_found rfl rfl) ?_
  refine field (required_found rfl rfl) ?_
  refine field (required_found rfl rfl) ?_
  refine field (required_found rfl (ExecutionIntent.ofJson_toJson s.execution)) ?_
  refine field (required_found rfl (asI64_jsonI64 s.validTime)) ?_
  refine field (required_found rfl (asI64_jsonI64 s.txnTime)) ?_
  exact field (required_found rfl (SignedHeartbeat.ofJson_toJson s.heartbeat)) rfl

/-- **A seal opens.**  Whatever document has the canonical text that was sealed, with its members in
any order, is read as the snapshot that was sealed. -/
theorem sealed_text_opens {ft : F64 → List Char} (law : FloatText.Lawful ft) (s : CognitiveSnapshot)
    (doc : Json) (h : canonicalizeJson ft doc = canonicalizeJson ft s.toJson) :
    CognitiveSnapshot.ofJson doc = some s := by
  rw [canonicalizeJson_eq, canonicalizeJson_eq] at h
  have hnormal : doc.normalize = s.toJson.normalize := Json.print_injective law h
  calc CognitiveSnapshot.ofJson doc
      = CognitiveSnapshot.ofJson doc.normalize := (blind_cognitiveSnapshot doc).symm
    _ = CognitiveSnapshot.ofJson s.toJson.normalize := by rw [hnormal]
    _ = CognitiveSnapshot.ofJson s.toJson := blind_cognitiveSnapshot s.toJson
    _ = some s := CognitiveSnapshot.ofJson_toJson s

/-- The sample snapshot is read from its normal form. -/
theorem sealed_text_opens_sample :
    CognitiveSnapshot.ofJson (CognitiveSnapshot.sample (Uuid.fill 1)).toJson.normalize
      = some (CognitiveSnapshot.sample (Uuid.fill 1)) :=
  sealed_text_opens sampleFloatText_lawful _ _ (by decide +kernel)

/-! ## The requests -/

/-- The keys that are read; any other is ignored. -/
def RegulatoryBlock.keys : List String :=
  ["mifid_algo_id", "mifid_decision_maker", "cftc_cti_code", "cftc_account_type", "cat_order_id",
    "jurisdiction"]

/-- The block of its fields, all of them optional. -/
def RegulatoryBlock.build (s : String → Slot) : Option RegulatoryBlock := do
  let mifidAlgoId ← optional Json.asStr (s "mifid_algo_id")
  let mifidDecisionMaker ← optional Json.asStr (s "mifid_decision_maker")
  let cftcCtiCode ← optional Json.asStr (s "cftc_cti_code")
  let cftcAccountType ← optional Json.asStr (s "cftc_account_type")
  let catOrderId ← optional Json.asStr (s "cat_order_id")
  let jurisdiction ← optional Json.asStr (s "jurisdiction")
  return ⟨mifidAlgoId, mifidDecisionMaker, cftcCtiCode, cftcAccountType, catOrderId, jurisdiction⟩

/-- `RegulatoryBlock::deserialize`. -/
def RegulatoryBlock.ofJson (v : Json) : Option RegulatoryBlock :=
  (fields RegulatoryBlock.keys v).bind RegulatoryBlock.build

/-- `default_usd`. -/
def defaultUsd : String := "USD"

/-- `default_multiplier`. -/
def defaultMultiplier : F64 := F64.one

/-- The keys that are read; any other is ignored. -/
def AuthorizeRequest.keys : List String :=
  ["agent_id", "model_hash_hex", "model_id", "prompt_version", "feature_schema_id",
    "hyperparameter_checksum", "action", "asset", "order_type", "venue_id", "quantity", "notional",
    "notional_currency", "multiplier", "limit_price", "stop_price", "client_order_id",
    "agent_valid_time", "heartbeat", "reduce_only", "regulatory"]

/-- The request of its fields, with the defaults of `snapshot.rs`. -/
def AuthorizeRequest.build (s : String → Slot) : Option AuthorizeRequest := do
  let agentId ← required asUuid (s "agent_id")
  let modelHashHex ← required Json.asStr (s "model_hash_hex")
  let modelId ← required Json.asStr (s "model_id")
  let promptVersion ← required Json.asStr (s "prompt_version")
  let featureSchemaId ← required Json.asStr (s "feature_schema_id")
  let hyperparameterChecksum ← required Json.asStr (s "hyperparameter_checksum")
  let action ← required TradeAction.ofJson (s "action")
  let asset ← required Json.asStr (s "asset")
  let orderType ← required OrderType.ofJson (s "order_type")
  let venueId ← required Json.asStr (s "venue_id")
  let quantity ← required asF64 (s "quantity")
  let notional ← required asF64 (s "notional")
  let notionalCurrency ← defaulted Json.asStr defaultUsd (s "notional_currency")
  let multiplier ← defaulted asF64 defaultMultiplier (s "multiplier")
  let limitPrice ← optional asF64 (s "limit_price")
  let stopPrice ← optional asF64 (s "stop_price")
  let clientOrderId ← required Json.asStr (s "client_order_id")
  let agentValidTime ← required Json.asI64 (s "agent_valid_time")
  let heartbeat ← optional SignedHeartbeat.ofJson (s "heartbeat")
  let reduceOnly ← defaulted asBool false (s "reduce_only")
  let regulatory ← defaulted (nullable RegulatoryBlock.ofJson) none (s "regulatory")
  return {
    agentId, modelHashHex, modelId, promptVersion, featureSchemaId, hyperparameterChecksum, action
    asset, orderType, venueId, quantity, notional, notionalCurrency, multiplier, limitPrice
    stopPrice, clientOrderId, agentValidTime, heartbeat, reduceOnly, regulatory }

/-- `AuthorizeRequest::deserialize`. -/
def AuthorizeRequest.ofJson (v : Json) : Option AuthorizeRequest :=
  (fields AuthorizeRequest.keys v).bind AuthorizeRequest.build

/-- The keys that are read; any other is ignored. -/
def BindExecutionRequest.keys : List String :=
  ["trace_id", "exchange_tx_id", "execution_status", "asset", "executed_quantity",
    "execution_price", "executed_side", "execution_time_ms"]

/-- The request of its fields. -/
def BindExecutionRequest.build (s : String → Slot) : Option BindExecutionRequest := do
  let traceId ← required asUuid (s "trace_id")
  let exchangeTxId ← required Json.asStr (s "exchange_tx_id")
  let executionStatus ← required ExecutionStatus.ofJson (s "execution_status")
  let asset ← optional Json.asStr (s "asset")
  let executedQuantity ← optional asF64 (s "executed_quantity")
  let executionPrice ← optional asF64 (s "execution_price")
  let executedSide ← defaulted (nullable Json.asStr) none (s "executed_side")
  let executionTimeMs ← defaulted (nullable Json.asI64) none (s "execution_time_ms")
  return ⟨traceId, exchangeTxId, executionStatus, asset, executedQuantity, executionPrice,
    executedSide, executionTimeMs⟩

/-- `BindExecutionRequest::deserialize`. -/
def BindExecutionRequest.ofJson (v : Json) : Option BindExecutionRequest :=
  (fields BindExecutionRequest.keys v).bind BindExecutionRequest.build

theorem blind_regulatoryBlock : Blind RegulatoryBlock.ofJson := by
  refine blind_record fun s => ?_
  simp only [RegulatoryBlock.build, blind_asStr.optional _]

theorem blind_authorizeRequest : Blind AuthorizeRequest.ofJson := by
  refine blind_record fun s => ?_
  simp only [AuthorizeRequest.build, blind_asUuid.required _, blind_asStr.required _,
    blind_tradeAction.required _, blind_orderType.required _, blind_asF64.required _,
    blind_asStr.defaulted defaultUsd _, blind_asF64.defaulted defaultMultiplier _,
    blind_asF64.optional _, blind_asI64.required _, blind_signedHeartbeat.optional _,
    blind_asBool.defaulted false _, blind_regulatoryBlock.nullable.defaulted none _]

theorem blind_bindExecutionRequest : Blind BindExecutionRequest.ofJson := by
  refine blind_record fun s => ?_
  simp only [BindExecutionRequest.build, blind_asUuid.required _, blind_asStr.required _,
    blind_executionStatus.required _, blind_asStr.optional _, blind_asF64.optional _,
    blind_asStr.nullable.defaulted none _, blind_asI64.nullable.defaulted none _]

end IrlEngine
