import IrlEngine.Seal
import IrlEngine.Lib.Table

/-!
# The trace table and its two insert functions

The columns of `irl.reasoning_traces`, envelope encryption of the stored trace
(`encryption.rs`), and `insert_trace` / `insert_trace_atomic` of `db.rs`.  Numeric
columns hold exact rationals.  Both inserts build the same row (`traceRow`), whose
`verification_status` is the column default `PENDING`; they differ in the portfolio
check that `insertTraceAtomic` makes first (`capCheck`).
-/

namespace IrlEngine

/-! ## Rows -/

/-- The life cycle of a reasoning trace. -/
inductive VerificationStatus where
  | pending
  | matched
  | divergent
  | orphan
  | expired
  | mismatch
  deriving DecidableEq, Repr

/-- The text in the column `verification_status`. -/
def VerificationStatus.display : VerificationStatus → String
  | .pending => "PENDING"
  | .matched => "MATCHED"
  | .divergent => "DIVERGENT"
  | .orphan => "ORPHAN"
  | .expired => "EXPIRED"
  | .mismatch => "MISMATCH"

/-- A row of `irl.reasoning_traces`.  The columns after `mtaPubkeyUsed` are not
written by an insert. -/
structure TraceRow where
  traceId : Uuid
  validTime : DateTime
  txnTime : DateTime
  mtaRegimeId : Int16
  mtaVersion : String
  mtaHash : String
  latentFingerprint : String
  featureSchemaId : String
  executionAction : String
  executionAsset : String
  clientOrderId : String
  executionOrderType : String
  executionVenueId : Option String
  executionQuantity : ℚ
  executionNotional : ℚ
  executionLimitPrice : Option ℚ
  executionNotionalCurrency : Option String
  executionMultiplier : Option ℚ
  executionStopPrice : Option ℚ
  heartbeatSeq : Int64
  policyId : String
  policyVersion : String
  policyHash : String
  policyResult : PolicyResult
  reasoningHash : String
  traceJson : Json
  agentId : Option Uuid
  traceNonce : Option (List UInt8)
  encryptedDek : Option (List UInt8)
  keyVersion : Option Int32
  encryptionVersion : Int32
  mtaPubkeyUsed : Option String
  exchangeTxId : Option String
  verificationStatus : VerificationStatus
  executionStatus : Option String
  executionPrice : Option ℚ
  executionTime : Option DateTime
  finalProof : Option String
  gdprErasedAt : Option DateTime
  gdprRequestId : Option Uuid

/-! ## Envelope encryption -/

/-- A data key as a key provider hands it out: in the clear, wrapped, and the
version of the wrapping key. -/
structure DekGrant where
  dek : List UInt8
  encryptedDek : List UInt8
  keyVersion : Int32
  dek_length : dek.length = 32

/-- What one encryption draws from outside: the answer of `generate_dek` and the
fresh nonce. -/
structure EncryptionDraw where
  generateDek : Except String DekGrant
  nonce : List UInt8
  nonce_length : nonce.length = 12

/-- `encrypt_trace`, with the nonce as an argument. -/
def encryptTrace (K : Crates) (plaintext dek nonce : List UInt8) : Except String (List UInt8) :=
  match K.aesGcmEncrypt dek nonce plaintext with
  | .ok ciphertext => .ok ciphertext
  | .error e => .error ("AES-GCM encryption failed: " ++ e)

/-- `serde_json::to_vec` of a `Value`, whose map keeps its keys sorted. -/
def toVec (K : Crates) (value : Json) : List UInt8 :=
  Text.encode (Json.print K.floatText value.normalize)

/-- `wrap_ciphertext_for_jsonb`. -/
def wrapCiphertextForJsonb (ciphertext : List UInt8) : Json :=
  Json.normalize (.obj [("v", .num (.posInt 1)),
    ("data", .str (String.ofList (Encoding.base64Encode ciphertext)))])

/-- The columns in which a trace is stored. -/
structure StoredJson where
  traceJson : Json
  traceNonce : Option (List UInt8)
  encryptedDek : Option (List UInt8)
  keyVersion : Option Int32
  encryptionVersion : Int32

/-- Serialize and encrypt a trace under a fresh data key. -/
def encryptJson (K : Crates) (draw : EncryptionDraw) (traceJson : Json) :
    Except AppError StoredJson :=
  match draw.generateDek with
  | .error e => .error (.encryption e)
  | .ok grant =>
    match encryptTrace K (toVec K traceJson) grant.dek draw.nonce with
    | .error e => .error (.encryption e)
    | .ok ciphertext => .ok {
        traceJson := wrapCiphertextForJsonb ciphertext
        traceNonce := some draw.nonce
        encryptedDek := some grant.encryptedDek
        keyVersion := some grant.keyVersion
        encryptionVersion := 1 }

/-- The stored form of a trace: encrypted when there is a key provider. -/
def storeJson (K : Crates) (key : Option EncryptionDraw) (traceJson : Json) :
    Except AppError StoredJson :=
  match key with
  | some draw => encryptJson K draw traceJson
  | none => .ok ⟨traceJson, none, none, none, 0⟩

/-! ## Building a row -/

/-- The arguments the two inserts share. -/
structure InsertArgs where
  snapshot : CognitiveSnapshot
  reasoningHash : String
  decision : PolicyDecision
  trace : ReasoningTrace
  agentId : Option Uuid
  key : Option EncryptionDraw
  mtaPubkeyUsed : Option String

/-- The inserted columns, with the defaults of the others. -/
def InsertArgs.row (a : InsertArgs) (stored : StoredJson) (validTime txnTime : DateTime) :
    TraceRow where
  traceId := a.snapshot.traceId
  validTime := validTime
  txnTime := txnTime
  mtaRegimeId := Int16.ofNat a.snapshot.mtaRegimeId.toNat
  mtaVersion := a.snapshot.mtaVersion
  mtaHash := a.snapshot.mtaHash
  latentFingerprint := a.snapshot.latentFingerprint
  featureSchemaId := a.snapshot.featureSchemaId
  executionAction := a.snapshot.execution.action.display
  executionAsset := a.snapshot.execution.asset
  clientOrderId := a.snapshot.execution.clientOrderId
  executionOrderType := a.snapshot.execution.orderType.display
  executionVenueId := some a.snapshot.execution.venueId
  executionQuantity := a.snapshot.execution.quantity.toRat
  executionNotional := a.snapshot.execution.notional.toRat
  executionLimitPrice := a.snapshot.execution.limitPrice.map F64.toRat
  executionNotionalCurrency := some a.snapshot.execution.notionalCurrency
  executionMultiplier := some a.snapshot.execution.multiplier.toRat
  executionStopPrice := a.snapshot.execution.stopPrice.map F64.toRat
  heartbeatSeq := a.snapshot.heartbeat.sequenceId.toInt64
  policyId := a.decision.policyId
  policyVersion := a.decision.policyVersion
  policyHash := a.decision.policyHash
  policyResult := a.decision.result
  reasoningHash := a.reasoningHash
  traceJson := stored.traceJson
  agentId := a.agentId
  traceNonce := stored.traceNonce
  encryptedDek := stored.encryptedDek
  keyVersion := stored.keyVersion
  encryptionVersion := stored.encryptionVersion
  mtaPubkeyUsed := a.mtaPubkeyUsed
  exchangeTxId := none
  verificationStatus := .pending
  executionStatus := none
  executionPrice := none
  executionTime := none
  finalProof := none
  gdprErasedAt := none
  gdprRequestId := none

/-- The row an insert writes, or why it fails before the statement is sent. -/
def traceRow (K : Crates) (a : InsertArgs) : Except AppError TraceRow :=
  match storeJson K a.key (a.trace.toJson K).normalize with
  | .error e => .error e
  | .ok stored =>
    match DateTime.ofMillis a.snapshot.validTime with
    | none => .error (.serialization "invalid valid_time timestamp")
    | some validTime =>
      match DateTime.ofMillis a.snapshot.txnTime with
      | none => .error (.serialization "invalid txn_time timestamp")
      | some txnTime => .ok (a.row stored validTime txnTime)

theorem traceRow_ok {K : Crates} {a : InsertArgs} {r : TraceRow} (h : traceRow K a = .ok r) :
    ∃ stored validTime txnTime,
      storeJson K a.key (a.trace.toJson K).normalize = .ok stored ∧
      DateTime.ofMillis a.snapshot.validTime = some validTime ∧
      DateTime.ofMillis a.snapshot.txnTime = some txnTime ∧ r = a.row stored validTime txnTime := by
  unfold traceRow at h
  cases hs : storeJson K a.key (a.trace.toJson K).normalize with
  | error e => rw [hs] at h; exact absurd h (by simp)
  | ok stored =>
    cases hv : DateTime.ofMillis a.snapshot.validTime with
    | none => rw [hs, hv] at h; exact absurd h (by simp)
    | some validTime =>
      cases ht : DateTime.ofMillis a.snapshot.txnTime with
      | none => rw [hs, hv, ht] at h; exact absurd h (by simp)
      | some txnTime =>
        rw [hs, hv, ht] at h
        exact ⟨stored, validTime, txnTime, rfl, rfl, rfl, (Except.ok.inj h).symm⟩

/-- Without a key provider an insert fails on its timestamps only. -/
theorem traceRow_plain {K : Crates} {a : InsertArgs} {validTime txnTime : DateTime}
    (hkey : a.key = none) (hv : DateTime.ofMillis a.snapshot.validTime = some validTime)
    (ht : DateTime.ofMillis a.snapshot.txnTime = some txnTime) :
    traceRow K a
      = .ok (a.row ⟨(a.trace.toJson K).normalize, none, none, none, 0⟩ validTime txnTime) := by
  simp only [traceRow, hkey, storeJson, hv, ht]

theorem traceRow_traceId {K : Crates} {a : InsertArgs} {r : TraceRow} (h : traceRow K a = .ok r) :
    r.traceId = a.snapshot.traceId := by
  obtain ⟨_, _, _, -, -, -, rfl⟩ := traceRow_ok h
  rfl

theorem traceRow_agentId {K : Crates} {a : InsertArgs} {r : TraceRow} (h : traceRow K a = .ok r) :
    r.agentId = a.agentId := by
  obtain ⟨_, _, _, -, -, -, rfl⟩ := traceRow_ok h
  rfl

/-! ## The inserts -/

/-- `SUM(execution_notional)` over an agent's `PENDING` rows. -/
def pendingSum (traces : List TraceRow) (agentId : Uuid) : ℚ :=
  ((traces.filter fun r => r.agentId = some agentId ∧ r.verificationStatus = .pending).map
    TraceRow.executionNotional).sum

@[simp] theorem pendingSum_nil (agentId : Uuid) : pendingSum [] agentId = 0 := rfl

theorem pendingSum_cons (r : TraceRow) (t : List TraceRow) (agentId : Uuid) :
    pendingSum (r :: t) agentId
      = (if r.agentId = some agentId ∧ r.verificationStatus = .pending then r.executionNotional
        else 0) + pendingSum t agentId := by
  unfold pendingSum
  rw [List.filter_cons]
  split
  · rename_i hr
    rw [if_pos (of_decide_eq_true hr), List.map_cons, List.sum_cons]
  · rename_i hr
    rw [if_neg fun h => hr (decide_eq_true h), zero_add]

theorem pendingSum_append (t u : List TraceRow) (agentId : Uuid) :
    pendingSum (t ++ u) agentId = pendingSum t agentId + pendingSum u agentId := by
  unfold pendingSum
  rw [List.filter_append, List.map_append, List.sum_append]

theorem pendingSum_perm {t u : List TraceRow} (h : t.Perm u) (agentId : Uuid) :
    pendingSum t agentId = pendingSum u agentId := by
  unfold pendingSum
  exact ((h.filter _).map _).sum_eq

/-- Rows of other agents do not count. -/
theorem pendingSum_eq_zero {t : List TraceRow} {agentId : Uuid}
    (h : ∀ r ∈ t, r.agentId ≠ some agentId) : pendingSum t agentId = 0 := by
  unfold pendingSum
  rw [List.filter_eq_nil_iff.2]
  · rfl
  · intro r hr
    simp [h r hr]

/-- The portfolio check: the pending sum plus the new notional stays within the cap. -/
def capCheck (traces : List TraceRow) (a : InsertArgs) (portfolioCheck : Option (ℚ × String)) :
    Except AppError Unit :=
  match a.agentId, portfolioCheck with
  | some aid, some (cap, regimeLabel) =>
    let total := pendingSum traces aid + a.snapshot.execution.notional.toRat
    if cap < total then
      .error (.policy (.notionalExceedsLimit total cap regimeLabel "IrlConstraintPolicy"))
    else .ok ()
  | _, _ => .ok ()

/-- `insert_trace`: the table with the new row. -/
def insertTrace (K : Crates) (traces : List TraceRow) (a : InsertArgs) :
    Except AppError (List TraceRow) :=
  match traceRow K a with
  | .error e => .error e
  | .ok r => .ok (traces ++ [r])

/-- `insert_trace_atomic`: the portfolio check, then the insert, in one transaction. -/
def insertTraceAtomic (K : Crates) (traces : List TraceRow) (a : InsertArgs)
    (portfolioCheck : Option (ℚ × String)) : Except AppError (List TraceRow) :=
  match capCheck traces a portfolioCheck with
  | .error e => .error e
  | .ok () => insertTrace K traces a

theorem insertTrace_ok {K : Crates} {traces t : List TraceRow} {a : InsertArgs}
    (h : insertTrace K traces a = .ok t) : ∃ r, traceRow K a = .ok r ∧ t = traces ++ [r] := by
  unfold insertTrace at h
  cases hr : traceRow K a with
  | error e => rw [hr] at h; exact absurd h (by simp)
  | ok r => rw [hr] at h; exact ⟨r, rfl, (Except.ok.inj h).symm⟩

theorem insertTraceAtomic_ok {K : Crates} {traces t : List TraceRow} {a : InsertArgs}
    {check : Option (ℚ × String)} (h : insertTraceAtomic K traces a check = .ok t) :
    capCheck traces a check = .ok () ∧ insertTrace K traces a = .ok t := by
  unfold insertTraceAtomic at h
  cases hc : capCheck traces a check with
  | error e => rw [hc] at h; exact absurd h (by simp)
  | ok u => cases u; rw [hc] at h; exact ⟨rfl, h⟩

/-- The check depends on the table through the pending sum of the agent alone. -/
theorem capCheck_congr {t u : List TraceRow} {a : InsertArgs}
    (h : ∀ aid, a.agentId = some aid → pendingSum t aid = pendingSum u aid)
    (check : Option (ℚ × String)) : capCheck t a check = capCheck u a check := by
  unfold capCheck
  cases hagent : a.agentId with
  | none => rfl
  | some aid =>
    cases check with
    | none => rfl
    | some c =>
      obtain ⟨cap, label⟩ := c
      simp only [h aid hagent]

theorem capCheck_isOk {traces : List TraceRow} {a : InsertArgs} {aid : Uuid} (cap : ℚ)
    (label : String) (hagent : a.agentId = some aid) :
    (capCheck traces a (some (cap, label))).isOk
      = decide (pendingSum traces aid + a.snapshot.execution.notional.toRat ≤ cap) := by
  unfold capCheck
  rw [hagent]
  simp only
  by_cases hcap : cap < pendingSum traces aid + a.snapshot.execution.notional.toRat
  · rw [if_pos hcap, decide_eq_false (not_le.2 hcap)]
    rfl
  · rw [if_neg hcap, decide_eq_true (not_lt.1 hcap)]
    rfl

theorem capCheck_ok {traces : List TraceRow} {a : InsertArgs} {aid : Uuid} {cap : ℚ}
    {label : String} (hagent : a.agentId = some aid)
    (h : capCheck traces a (some (cap, label)) = .ok ()) :
    pendingSum traces aid + a.snapshot.execution.notional.toRat ≤ cap := by
  unfold capCheck at h
  rw [hagent] at h
  simp only at h
  split at h
  · exact absurd h (by simp)
  · rename_i hle
    exact not_lt.1 hle

end IrlEngine
