import IrlEngine.Store
import IrlEngine.Heartbeat

/-!
# Authorizing an intent

`routes/authorize.rs`.  A call first reads: the client certificate, the heartbeat,
the MTA state and the agent registry; from these `authorizeDecide` computes what is
to be written, an `AuthorizeWrite`.  `authorizeCommit` then writes it, with the
trace table as it is at that later moment.

* **Soundness** — `authorize_sound`: whatever the two tables hold when the call
  reaches them, a row it persists is justified by the MTA state and the profile of
  that same call.
-/

namespace IrlEngine

/-! ## What a call sees -/

/-- What a call observes outside its request and the database. -/
structure AuthorizeEnv where
  /-- CN of the client certificate, when one was presented. -/
  certCn : Option String
  /-- The clock reading of heartbeat validation. -/
  heartbeatNow : Int64
  /-- Did the upsert of the heartbeat sequence succeed? -/
  heartbeatPersisted : Bool
  /-- The answer of `fetch_verified`. -/
  mta : Except AppError MtaState
  /-- The clock reading that becomes `txn_time`. -/
  now : Int64
  /-- `Uuid::new_v4()`. -/
  traceId : Uuid
  shadowMode : Bool
  /-- The draws of one encryption, when a key provider is configured. -/
  key : Option EncryptionDraw

/-! ## Building the snapshot and the trace -/

/-- `Long` and `Short` carry the requested quantity. -/
def AuthorizeRequest.effectiveAction (req : AuthorizeRequest) : TradeAction :=
  match req.action with
  | .long _ => .long req.quantity
  | .short _ => .short req.quantity
  | .neutral => .neutral
  | .custom s => .custom s

/-- The order as the snapshot and the trace record it. -/
def AuthorizeRequest.intent (req : AuthorizeRequest) : ExecutionIntent where
  action := req.effectiveAction
  asset := req.asset
  orderType := req.orderType
  venueId := req.venueId
  quantity := req.quantity
  notional := req.notional
  notionalCurrency := req.notionalCurrency
  multiplier := req.multiplier
  limitPrice := req.limitPrice
  stopPrice := req.stopPrice
  clientOrderId := req.clientOrderId

/-- The snapshot that `authorize` seals. -/
def AuthorizeRequest.snapshot (req : AuthorizeRequest) (env : AuthorizeEnv) (mta : MtaState)
    (heartbeat : SignedHeartbeat) : CognitiveSnapshot where
  traceId := env.traceId
  mtaRegimeId := mta.regimeId
  mtaVersion := mta.version
  mtaHash := mta.hash
  latentFingerprint := computeLatentFingerprint req.modelId req.promptVersion req.featureSchemaId
    req.hyperparameterChecksum
  featureSchemaId := req.featureSchemaId
  execution := req.intent
  validTime := req.agentValidTime
  txnTime := env.now
  heartbeat := heartbeat

/-- `build_trace`. -/
def buildTrace (snap : CognitiveSnapshot) (mta : MtaState) (driftMs : Int64)
    (decision : PolicyDecision) (reasoningHash : String) (cfg : Config) (agentId : Uuid)
    (regulatory : Option RegulatoryBlock) : ReasoningTrace where
  traceId := snap.traceId
  version := "1.0.0"
  bitemporal :=
    { validTime := (DateTime.ofMillis snap.validTime).getD DateTime.epoch
      txnTime := (DateTime.ofMillis snap.txnTime).getD DateTime.epoch
      timeSource := cfg.timeSource.debug }
  mta :=
    { regimeId := mta.regimeId, regimeLabel := mta.regimeLabel, riskLevel := mta.riskLevel
      maxNotionalScale := mta.maxNotionalScale, allowedSides := mta.allowedSides
      version := mta.version, hash := mta.hash, signatureValid := true }
  agent :=
    { agentId := agentId, latentFingerprint := snap.latentFingerprint
      featureSchemaId := snap.featureSchemaId }
  execution :=
    { action := snap.execution.action.display, asset := snap.execution.asset
      orderType := snap.execution.orderType.display, venueId := snap.execution.venueId
      quantity := snap.execution.quantity, notional := snap.execution.notional
      notionalCurrency := snap.execution.notionalCurrency, multiplier := snap.execution.multiplier
      limitPrice := snap.execution.limitPrice, stopPrice := snap.execution.stopPrice
      clientOrderId := snap.execution.clientOrderId }
  heartbeat :=
    { sequenceId := snap.heartbeat.sequenceId, signatureValid := true, driftMs := driftMs }
  policy :=
    { id := decision.policyId, version := decision.policyVersion, hash := decision.policyHash
      result := decision.result.display }
  integrity :=
    { reasoningHash := reasoningHash, finalProof := none, verificationStatus := "PENDING"
      executionStatus := none }
  regulatory := regulatory

/-! ## The checks before the policy -/

/-- A presented certificate must name the agent. -/
def checkClientCert (env : AuthorizeEnv) (req : AuthorizeRequest) : Except AppError Unit :=
  match env.certCn with
  | some cn => if cn ≠ req.agentId.toText then .error .forbidden else .ok ()
  | none => .ok ()

/-- The heartbeat of the request, or the placeholder of Layer 1. -/
def requestHeartbeat (cfg : Config) (req : AuthorizeRequest) : Except AppError SignedHeartbeat :=
  match req.heartbeat with
  | some h => .ok h
  | none =>
    if cfg.layer2Enabled then .error (.heartbeat .missing)
    else .ok ⟨0, req.agentValidTime.toUInt64, 0, "", []⟩

/-- Validate the heartbeat when Layer 2 is on; the drift is 0 otherwise. -/
def validateHeartbeat (K : Crates) (cfg : Config) (hs : HeartbeatState) (env : AuthorizeEnv)
    (req : AuthorizeRequest) (hb : SignedHeartbeat) : HeartbeatState × Except AppError Int64 :=
  if cfg.layer2Enabled then
    hs.validate K cfg hb req.agentId env.heartbeatNow env.heartbeatPersisted
  else (hs, .ok 0)

/-- A heartbeat that names an MTA broadcast must name the current one. -/
def checkMtaRef (cfg : Config) (hb : SignedHeartbeat) (mta : MtaState) : Except AppError Unit :=
  if cfg.layer2Enabled ∧ hb.mtaRef ≠ "" ∧ hb.mtaRef ≠ mta.hash then
    .error (.heartbeat (.mtaRefMismatch hb.mtaRef mta.hash))
  else .ok ()

/-- The 32 bytes of the model hash the agent presents. -/
def decodeModelHash (req : AuthorizeRequest) : Except AppError (List UInt8) :=
  match hexDecodeText req.modelHashHex with
  | none => .error (.policy .modelHashMismatch)
  | some bytes => if bytes.length = 32 then .ok bytes else .error (.policy .modelHashMismatch)

/-! ## The decision -/

/-- What a call has decided to write. -/
inductive AuthorizeWrite where
  /-- The halted path: persist, ignore a failure, and return the policy error. -/
  | halted (a : InsertArgs) (e : AppError)
  /-- Insert under the portfolio check. -/
  | commit (a : InsertArgs) (portfolioCheck : Option (ℚ × String)) (shadowBlocked : Bool)

/-- The arguments of the insert for a decision. -/
def insertArgs (K : Crates) (cfg : Config) (env : AuthorizeEnv) (req : AuthorizeRequest)
    (mta : MtaState) (driftMs : Int64) (snap : CognitiveSnapshot) (decision : PolicyDecision) :
    InsertArgs where
  snapshot := snap
  reasoningHash := snap.seal K
  decision := decision
  trace := buildTrace snap mta driftMs decision (snap.seal K) cfg req.agentId req.regulatory
  agentId := some req.agentId
  key := env.key
  mtaPubkeyUsed := some mta.pubkeyFingerprint

/-- Policy enforcement with its shadow and halted branches. -/
def enforcePolicy (K : Crates) (cfg : Config) (env : AuthorizeEnv) (req : AuthorizeRequest)
    (mta : MtaState) (profile : AgentProfile) (driftMs : Int64) (snap : CognitiveSnapshot) :
    AuthorizeWrite :=
  let args := insertArgs K cfg env req mta driftMs snap
  let action := req.effectiveAction
  match enforce mta action req.notional profile.maxNotional req.reduceOnly with
  | .ok decision =>
    let portfolioCheck :=
      if !req.reduceOnly then some (effectiveCap mta profile.maxNotional, mta.regimeLabel) else none
    .commit (args decision) portfolioCheck false
  | .error e =>
    let decision := evaluate mta action req.notional profile.maxNotional req.reduceOnly
    if env.shadowMode then .commit (args { decision with result := .shadowHalted }) none true
    else .halted (args decision) e

/-- Everything between the MTA answer and the write. -/
def authorizeDecide (K : Crates) (cfg : Config) (agents : List AgentProfile) (env : AuthorizeEnv)
    (req : AuthorizeRequest) (hb : SignedHeartbeat) (driftMs : Int64) (mta : MtaState) :
    Except AppError AuthorizeWrite := do
  checkMtaRef cfg hb mta
  let modelHash ← decodeModelHash req
  let profile ← authorizeAgent agents req.agentId modelHash mta.regimeId mta.pubkeyFingerprint
  let snap := req.snapshot env mta hb
  verifyBitemporal snap
  return enforcePolicy K cfg env req mta profile driftMs snap

/-- The reading half of a call: an accepted heartbeat stays accepted even when a
later check fails. -/
def authorizePrepare (K : Crates) (cfg : Config) (agents : List AgentProfile)
    (hs : HeartbeatState) (env : AuthorizeEnv) (req : AuthorizeRequest) :
    HeartbeatState × Except AppError AuthorizeWrite :=
  match checkClientCert env req with
  | .error e => (hs, .error e)
  | .ok () =>
    match requestHeartbeat cfg req with
    | .error e => (hs, .error e)
    | .ok hb =>
      match validateHeartbeat K cfg hs env req hb with
      | (hs', .error e) => (hs', .error e)
      | (hs', .ok driftMs) =>
        match env.mta with
        | .error e => (hs', .error e)
        | .ok mta => (hs', authorizeDecide K cfg agents env req hb driftMs mta)

/-! ## The write -/

/-- The body of an answer with success. -/
structure AuthorizeResponse where
  traceId : Uuid
  reasoningHash : String
  shadowBlocked : Bool

/-- The writing half of a call, on the trace table as it then is. -/
def authorizeCommit (K : Crates) (traces : List TraceRow) :
    AuthorizeWrite → List TraceRow × Except AppError AuthorizeResponse
  | .halted a e =>
    match insertTrace K traces a with
    | .ok t => (t, .error e)
    | .error _ => (traces, .error e)
  | .commit a portfolioCheck shadowBlocked =>
    match insertTraceAtomic K traces a portfolioCheck with
    | .ok t => (t, .ok ⟨a.snapshot.traceId, a.reasoningHash, shadowBlocked⟩)
    | .error e => (traces, .error e)

/-- A call that reads the registry as `agents` and later finds the trace table as
`traces`. -/
def authorize (K : Crates) (cfg : Config) (agents : List AgentProfile) (traces : List TraceRow)
    (hs : HeartbeatState) (env : AuthorizeEnv) (req : AuthorizeRequest) :
    HeartbeatState × List TraceRow × Except AppError AuthorizeResponse :=
  match authorizePrepare K cfg agents hs env req with
  | (hs', .error e) => (hs', traces, .error e)
  | (hs', .ok write) => (hs', authorizeCommit K traces write)

/-! ## What each half can do -/

section Inversion

variable {K : Crates} {cfg : Config} {agents : List AgentProfile} {hs hs' : HeartbeatState}
  {env : AuthorizeEnv} {req : AuthorizeRequest}

/-- The row a write persists. -/
def AuthorizeWrite.args : AuthorizeWrite → InsertArgs
  | .halted a _ => a
  | .commit a _ _ => a

/-- Three ways out of the policy: allowed, shadow-blocked, halted. -/
inductive PolicyOutcome (K : Crates) (cfg : Config) (env : AuthorizeEnv) (req : AuthorizeRequest)
    (mta : MtaState) (profile : AgentProfile) (driftMs : Int64) (snap : CognitiveSnapshot) :
    AuthorizeWrite → Prop where
  | allowed (d : PolicyDecision) (hresult : d.result = .allowed)
      (hwithin : WithinConstraints mta req.effectiveAction req.notional profile.maxNotional
        req.reduceOnly) :
      PolicyOutcome K cfg env req mta profile driftMs snap
        (.commit (insertArgs K cfg env req mta driftMs snap d)
          (if !req.reduceOnly then some (effectiveCap mta profile.maxNotional, mta.regimeLabel)
            else none) false)
  | shadow (d : PolicyDecision) (hresult : d.result = .shadowHalted) (hmode : env.shadowMode = true)
      (houtside : ¬ WithinConstraints mta req.effectiveAction req.notional profile.maxNotional
        req.reduceOnly) :
      PolicyOutcome K cfg env req mta profile driftMs snap
        (.commit (insertArgs K cfg env req mta driftMs snap d) none true)
  | halted (d : PolicyDecision) (e : AppError) (hresult : d.result = .halted)
      (hmode : env.shadowMode = false)
      (houtside : ¬ WithinConstraints mta req.effectiveAction req.notional profile.maxNotional
        req.reduceOnly) :
      PolicyOutcome K cfg env req mta profile driftMs snap
        (.halted (insertArgs K cfg env req mta driftMs snap d) e)

theorem enforcePolicy_outcome (mta : MtaState) (profile : AgentProfile) (driftMs : Int64)
    (snap : CognitiveSnapshot) :
    PolicyOutcome K cfg env req mta profile driftMs snap
      (enforcePolicy K cfg env req mta profile driftMs snap) := by
  unfold enforcePolicy
  cases he : enforce mta req.effectiveAction req.notional profile.maxNotional req.reduceOnly with
  | ok d =>
    obtain ⟨hwithin, hd⟩ := enforce_ok he
    simp only [he]
    exact .allowed d (by rw [hd]) hwithin
  | error e =>
    have hout := enforce_error he
    simp only [he]
    cases hmode : env.shadowMode with
    | true =>
      rw [if_pos rfl]
      exact .shadow _ rfl hmode hout
    | false =>
      rw [if_neg Bool.false_ne_true]
      exact .halted _ e (evaluate_halted hout) hmode hout

theorem enforcePolicy_allowed {mta : MtaState} {profile : AgentProfile} (driftMs : Int64)
    (snap : CognitiveSnapshot)
    (h : WithinConstraints mta req.effectiveAction req.notional profile.maxNotional
      req.reduceOnly) :
    enforcePolicy K cfg env req mta profile driftMs snap
      = .commit (insertArgs K cfg env req mta driftMs snap
          ⟨.allowed, policyIdText, policyVersionText, constraintHash mta⟩)
        (if !req.reduceOnly then some (effectiveCap mta profile.maxNotional, mta.regimeLabel)
          else none) false := by
  unfold enforcePolicy
  simp only [enforce, checkConstraints_ok_iff.2 h, bind, Except.bind, pure, Except.pure]

theorem authorizeDecide_ok {hb : SignedHeartbeat} {driftMs : Int64} {mta : MtaState}
    {w : AuthorizeWrite} (h : authorizeDecide K cfg agents env req hb driftMs mta = .ok w) :
    ∃ modelHash profile, hexDecodeText req.modelHashHex = some modelHash ∧
      AgentAuthorized agents req.agentId modelHash mta.regimeId mta.pubkeyFingerprint profile ∧
      req.agentValidTime < env.now ∧
      PolicyOutcome K cfg env req mta profile driftMs (req.snapshot env mta hb) w := by
  obtain ⟨_, -, h⟩ := bind_eq_ok.1 h
  obtain ⟨modelHash, hhash, h⟩ := bind_eq_ok.1 h
  obtain ⟨profile, hprofile, h⟩ := bind_eq_ok.1 h
  obtain ⟨_, htime, h⟩ := bind_eq_ok.1 h
  obtain rfl : _ = w := Except.ok.inj h
  have hlt := verifyBitemporal_ok htime
  refine ⟨modelHash, profile, ?_, authorizeAgent_ok hprofile, hlt,
    enforcePolicy_outcome mta profile driftMs _⟩
  unfold decodeModelHash at hhash
  cases hd : hexDecodeText req.modelHashHex with
  | none => rw [hd] at hhash; exact absurd hhash (by simp)
  | some bytes =>
    rw [hd] at hhash
    simp only at hhash
    split at hhash
    · rw [Except.ok.inj hhash]
    · exact absurd hhash (by simp)

theorem authorizePrepare_ok {w : AuthorizeWrite}
    (h : authorizePrepare K cfg agents hs env req = (hs', .ok w)) :
    ∃ hb driftMs mta, requestHeartbeat cfg req = .ok hb ∧
      validateHeartbeat K cfg hs env req hb = (hs', .ok driftMs) ∧ env.mta = .ok mta ∧
      authorizeDecide K cfg agents env req hb driftMs mta = .ok w := by
  unfold authorizePrepare at h
  cases hcert : checkClientCert env req with
  | error e => simp [hcert] at h
  | ok u =>
    cases hreq : requestHeartbeat cfg req with
    | error e => simp [hcert, hreq] at h
    | ok hb =>
      rcases hval : validateHeartbeat K cfg hs env req hb with ⟨hs₁, r⟩
      cases r with
      | error e => simp [hcert, hreq, hval] at h
      | ok driftMs =>
        cases hmta : env.mta with
        | error e => simp [hcert, hreq, hval, hmta] at h
        | ok mta =>
          simp only [hcert, hreq, hval, hmta, Prod.mk.injEq] at h
          obtain ⟨rfl, hdec⟩ := h
          exact ⟨hb, driftMs, mta, rfl, hval, rfl, hdec⟩

/-- What a call writes carries the seal of its own snapshot. -/
theorem reasoningHash_of_prepare {w : AuthorizeWrite}
    (h : authorizePrepare K cfg agents hs env req = (hs', .ok w)) :
    w.args.reasoningHash = w.args.snapshot.seal K := by
  obtain ⟨hb, driftMs, mta, -, -, -, hdecide⟩ := authorizePrepare_ok h
  obtain ⟨_, _, -, -, -, houtcome⟩ := authorizeDecide_ok hdecide
  cases houtcome <;> rfl

/-- A write appends its own row, after the portfolio check if it is not a halt, or
leaves the table alone and is refused. -/
theorem authorizeCommit_cases (K : Crates) (traces : List TraceRow) (w : AuthorizeWrite) :
    ((authorizeCommit K traces w).1 = traces ∧ ∃ e, (authorizeCommit K traces w).2 = .error e) ∨
    ∃ row, traceRow K w.args = .ok row ∧ (authorizeCommit K traces w).1 = traces ++ [row] ∧
      ∀ a check sb, w = .commit a check sb → capCheck traces a check = .ok () := by
  cases w with
  | halted a e =>
    cases hi : insertTrace K traces a with
    | error e' => exact Or.inl ⟨by simp [authorizeCommit, hi], e, by simp [authorizeCommit, hi]⟩
    | ok t =>
      obtain ⟨row, hrow, rfl⟩ := insertTrace_ok hi
      right
      refine ⟨row, hrow, by simp [authorizeCommit, hi], ?_⟩
      intro a' check sb h
      exact absurd h (by simp)
  | commit a check sb =>
    cases hi : insertTraceAtomic K traces a check with
    | error e' => exact Or.inl ⟨by simp [authorizeCommit, hi], e', by simp [authorizeCommit, hi]⟩
    | ok t =>
      obtain ⟨hcap, hins⟩ := insertTraceAtomic_ok hi
      obtain ⟨row, hrow, rfl⟩ := insertTrace_ok hins
      right
      refine ⟨row, hrow, by simp [authorizeCommit, hi], ?_⟩
      intro a' check' sb' h
      obtain ⟨rfl, rfl, rfl⟩ := AuthorizeWrite.commit.inj h
      exact hcap

/-- A call whose reads all succeed reaches the policy. -/
theorem authorizePrepare_eq {hb : SignedHeartbeat} {driftMs : Int64} {mta : MtaState}
    {modelHash : List UInt8} {profile : AgentProfile} (hcert : checkClientCert env req = .ok ())
    (hreq : requestHeartbeat cfg req = .ok hb)
    (hval : validateHeartbeat K cfg hs env req hb = (hs', .ok driftMs)) (hmta : env.mta = .ok mta)
    (href : checkMtaRef cfg hb mta = .ok ()) (hhash : decodeModelHash req = .ok modelHash)
    (hagent : authorizeAgent agents req.agentId modelHash mta.regimeId mta.pubkeyFingerprint
      = .ok profile)
    (htime : verifyBitemporal (req.snapshot env mta hb) = .ok ()) :
    authorizePrepare K cfg agents hs env req
      = (hs', .ok (enforcePolicy K cfg env req mta profile driftMs (req.snapshot env mta hb))) := by
  simp only [authorizePrepare, authorizeDecide, hcert, hreq, hval, hmta, href, hhash, hagent, htime,
    bind, Except.bind, pure, Except.pure]

end Inversion

/-! ## A concrete deployment -/

/-- Layer 1 only, system clock. -/
def Config.sample : Config where
  mtaPubkey := []
  timeSource := .system
  maxHeartbeatDriftMs := 200
  layer2Enabled := false
  bindSizeTolerance := F64.zero
  traceExpiryMs := 1000

/-- The hash of 32 zero bytes, in hex. -/
def sampleModelHash : String := String.ofList (Encoding.hexEncode (List.replicate 32 0))

/-- An active agent with the given cap. -/
def AgentProfile.sample (agentId : Uuid) (maxNotional : F64) : AgentProfile where
  agentId := agentId
  name := "agent"
  modelHashHex := sampleModelHash
  policyModuleId := "IrlConstraintPolicy"
  allowedRegimes := none
  maxNotional := maxNotional
  maxLeverage := F64.one
  allowedVenues := none
  status := "Active"
  allowedMtaPubkeys := none

/-- A regime at full scale that permits long positions only. -/
def MtaState.sample : MtaState where
  regimeId := 2
  regimeLabel := "EXPANSION"
  riskLevel := F64.zero
  maxNotionalScale := F64.one
  allowedSides := ["Long"]
  version := "v"
  hash := "h"
  broadcastTime := 0
  pubkeyFingerprint := "k"
  signalMode := "mock"

/-- A moment in which the operator allows both sides at full scale. -/
def AuthorizeEnv.sample (traceId : Uuid) : AuthorizeEnv where
  certCn := none
  heartbeatNow := 2
  heartbeatPersisted := true
  mta := .ok MtaState.sample
  now := 2
  traceId := traceId
  shadowMode := false
  key := none

/-- A market order for one unit. -/
def AuthorizeRequest.sample (agentId : Uuid) (action : TradeAction) (notional : F64) :
    AuthorizeRequest where
  agentId := agentId
  modelHashHex := sampleModelHash
  modelId := "m"
  promptVersion := "p"
  featureSchemaId := "s"
  hyperparameterChecksum := "c"
  action := action
  asset := "BTC"
  orderType := .market
  venueId := "V"
  quantity := F64.one
  notional := notional
  notionalCurrency := "USD"
  multiplier := F64.one
  limitPrice := none
  stopPrice := none
  clientOrderId := "o"
  agentValidTime := 1
  heartbeat := none
  reduceOnly := false
  regulatory := none

theorem hexDecodeText_sample :
    hexDecodeText sampleModelHash = some (List.replicate 32 0) := by
  rw [hexDecodeText, sampleModelHash, String.toList_ofList, Encoding.hexDecode_hexEncode]

theorem authorizeAgent_sample (agentId : Uuid) (cap : F64) (regime : UInt8) (fp : String) :
    authorizeAgent [.sample agentId cap] agentId (List.replicate 32 0) regime fp
      = .ok (.sample agentId cap) := by
  have hfetch : fetchProfile [.sample agentId cap] agentId = .ok (.sample agentId cap) := by
    simp [fetchProfile, AgentProfile.sample]
  have hreg : registeredHash (.sample agentId cap) = .ok (List.replicate 32 0) := by
    rw [registeredHash,
      show (AgentProfile.sample agentId cap).modelHashHex = sampleModelHash from rfl,
      hexDecodeText_sample]
  simp only [authorizeAgent, hfetch, hreg, bind, Except.bind, ensure]
  simp [AgentProfile.sample, regimeAllowed, pubkeyAllowed, pure, Except.pure]

/-- What a sample call passes to the insert. -/
def sampleArgs (K : Crates) (traceId : Uuid) (req : AuthorizeRequest) (d : PolicyDecision) :
    InsertArgs :=
  insertArgs K .sample (.sample traceId) req .sample 0
    (req.snapshot (.sample traceId) .sample
      (req.heartbeat.getD ⟨0, req.agentValidTime.toUInt64, 0, "", []⟩)) d

/-- The row of a sample call that presents a valid time of 1. -/
def sampleRow (K : Crates) (traceId : Uuid) (req : AuthorizeRequest)
    (d : PolicyDecision) : TraceRow :=
  (sampleArgs K traceId req d).row
    ⟨((sampleArgs K traceId req d).trace.toJson K).normalize, none, none, none, 0⟩
    ⟨1, by decide⟩ ⟨2, by decide⟩

/-- The decision on an order within the constraints. -/
def sampleDecision : PolicyDecision :=
  ⟨.allowed, policyIdText, policyVersionText, constraintHash .sample⟩

section Sample

variable (K : Crates) (hs : HeartbeatState) (traceId : Uuid) (req : AuthorizeRequest) (cap : F64)

/-- In the sample deployment every request with the registered model hash reaches the policy. -/
theorem authorizePrepare_sample (hhash : req.modelHashHex = sampleModelHash)
    (htime : req.agentValidTime = 1) :
    authorizePrepare K .sample [.sample req.agentId cap] hs (.sample traceId) req
      = (hs, .ok (enforcePolicy K .sample (.sample traceId) req .sample (.sample req.agentId cap) 0
          (req.snapshot (.sample traceId) .sample
            (req.heartbeat.getD ⟨0, req.agentValidTime.toUInt64, 0, "", []⟩)))) := by
  have hdecode : decodeModelHash req = .ok (List.replicate 32 0) := by
    rw [decodeModelHash, hhash, hexDecodeText_sample]
    rfl
  refine authorizePrepare_eq rfl ?_ ?_ rfl ?_ hdecode (authorizeAgent_sample ..) ?_
  · rw [requestHeartbeat]
    cases req.heartbeat with
    | none => rfl
    | some h => rfl
  · simp [validateHeartbeat, Config.sample]
  · simp [checkMtaRef, Config.sample]
  · have hlt : req.agentValidTime < (AuthorizeEnv.sample traceId).now := by
      rw [htime]
      show (1 : Int64) < 2
      decide
    rw [verifyBitemporal, if_neg]
    exact Int64.not_le.2 hlt

/-- An order within the constraints is to be committed under the cap. -/
theorem authorizePrepare_sample_allowed (hhash : req.modelHashHex = sampleModelHash)
    (htime : req.agentValidTime = 1) (hro : req.reduceOnly = false)
    (hwithin : WithinConstraints .sample req.effectiveAction req.notional cap req.reduceOnly) :
    authorizePrepare K .sample [.sample req.agentId cap] hs (.sample traceId) req
      = (hs, .ok (.commit (sampleArgs K traceId req sampleDecision)
          (some (effectiveCap .sample cap, MtaState.sample.regimeLabel)) false)) := by
  have hwithin' : WithinConstraints .sample req.effectiveAction req.notional
      (AgentProfile.sample req.agentId cap).maxNotional req.reduceOnly := hwithin
  rw [authorizePrepare_sample K hs traceId req cap hhash htime,
    enforcePolicy_allowed 0 _ hwithin', hro]
  rfl

/-- An order outside the constraints is halted. -/
theorem authorizePrepare_sample_halted (hhash : req.modelHashHex = sampleModelHash)
    (htime : req.agentValidTime = 1)
    (hout : ¬ WithinConstraints .sample req.effectiveAction req.notional cap req.reduceOnly) :
    ∃ e, authorizePrepare K .sample [.sample req.agentId cap] hs (.sample traceId) req
      = (hs,
        .ok (.halted (sampleArgs K traceId req { sampleDecision with result := .halted }) e)) := by
  rw [authorizePrepare_sample K hs traceId req cap hhash htime]
  cases hc : checkConstraints .sample req.effectiveAction req.notional cap req.reduceOnly with
  | ok u => exact absurd (checkConstraints_ok_iff.1 hc) hout
  | error e =>
    refine ⟨e, ?_⟩
    have hcap : (AgentProfile.sample req.agentId cap).maxNotional = cap := rfl
    simp only [enforcePolicy, enforce, evaluate, hcap, hc, bind, Except.bind]
    rfl

theorem traceRow_sample (htime : req.agentValidTime = 1) (d : PolicyDecision) :
    traceRow K (sampleArgs K traceId req d) = .ok (sampleRow K traceId req d) := by
  refine traceRow_plain rfl ?_ ?_
  · show DateTime.ofMillis req.agentValidTime = _
    rw [htime]
    decide
  · show DateTime.ofMillis 2 = _
    decide

theorem capCheck_sample (traces : List TraceRow) (c : ℚ) (label : String) :
    capCheck traces (sampleArgs K traceId req sampleDecision) (some (c, label))
      = if c < pendingSum traces req.agentId + req.notional.toRat then
          .error (.policy (.notionalExceedsLimit
            (pendingSum traces req.agentId + req.notional.toRat) c label "IrlConstraintPolicy"))
        else .ok () := rfl

/-- The cap decides whether the row is appended. -/
theorem authorizeCommit_sample (htime : req.agentValidTime = 1) (traces : List TraceRow) (c : ℚ)
    (label : String) (sb : Bool) :
    (authorizeCommit K traces (.commit (sampleArgs K traceId req sampleDecision)
      (some (c, label)) sb)).1
      = if c < pendingSum traces req.agentId + req.notional.toRat then traces
        else traces ++ [sampleRow K traceId req sampleDecision] := by
  have hcheck := capCheck_sample K traceId req traces c label
  by_cases hcap : c < pendingSum traces req.agentId + req.notional.toRat
  · rw [if_pos hcap] at hcheck ⊢
    simp only [authorizeCommit, insertTraceAtomic, hcheck]
  · rw [if_neg hcap] at hcheck ⊢
    simp only [authorizeCommit, insertTraceAtomic, hcheck, insertTrace,
      traceRow_sample K traceId req htime]

theorem authorizeCommit_sample_isOk (htime : req.agentValidTime = 1)
    (traces : List TraceRow) (c : ℚ) (label : String) (sb : Bool) :
    (authorizeCommit K traces (.commit (sampleArgs K traceId req sampleDecision)
      (some (c, label)) sb)).2.isOk
      = decide (pendingSum traces req.agentId + req.notional.toRat ≤ c) := by
  have hcheck := capCheck_sample K traceId req traces c label
  by_cases hcap : c < pendingSum traces req.agentId + req.notional.toRat
  · rw [if_pos hcap] at hcheck
    rw [decide_eq_false (not_le.2 hcap)]
    simp only [authorizeCommit, insertTraceAtomic, hcheck]
    rfl
  · rw [if_neg hcap] at hcheck
    rw [decide_eq_true (not_lt.1 hcap)]
    simp only [authorizeCommit, insertTraceAtomic, hcheck, insertTrace,
      traceRow_sample K traceId req htime]
    rfl

theorem authorizeCommit_sample_halted (htime : req.agentValidTime = 1) (traces : List TraceRow)
    (d : PolicyDecision) (e : AppError) :
    authorizeCommit K traces (.halted (sampleArgs K traceId req d) e)
      = (traces ++ [sampleRow K traceId req d], .error e) := by
  simp only [authorizeCommit, insertTrace, traceRow_sample K traceId req htime]

end Sample

/-! ## Soundness -/

/-- What justifies an `ALLOWED` row: `before` is the trace table the portfolio check
reads, `snap` the snapshot that was sealed. -/
structure Justified (agents : List AgentProfile) (before : List TraceRow) (req : AuthorizeRequest)
    (mta : MtaState) (profile : AgentProfile) (snap : CognitiveSnapshot) : Prop where
  registered : profile ∈ agents
  identity : profile.agentId = req.agentId
  active : profile.status = "Active"
  model : ∃ hash, hexDecodeText req.modelHashHex = some hash ∧
    hexDecodeText profile.modelHashHex = some hash
  regime : ∀ allowed, profile.allowedRegimes = some allowed →
    Int16.ofNat mta.regimeId.toNat ∈ allowed
  pubkey : ∀ keys, profile.allowedMtaPubkeys = some keys → mta.pubkeyFingerprint ∈ keys
  bitemporal : snap.validTime < snap.txnTime
  notional : req.notional.toRat ≤ profile.maxNotional.toRat * mta.maxNotionalScale.toRat
  side : req.reduceOnly = true ∨ ∃ s ∈ mta.allowedSides,
    Text.eqIgnoreAsciiCase s req.effectiveAction.direction.text = true
  mtaRegimeId : snap.mtaRegimeId = mta.regimeId
  mtaVersion : snap.mtaVersion = mta.version
  mtaHash : snap.mtaHash = mta.hash
  portfolio : req.reduceOnly = false → pendingSum before req.agentId + req.notional.toRat
    ≤ profile.maxNotional.toRat * mta.maxNotionalScale.toRat

theorem AgentAuthorized.regime_mem {agents : List AgentProfile} {agentId : Uuid}
    {hash : List UInt8} {regime : UInt8} {fp : String} {p : AgentProfile}
    (h : AgentAuthorized agents agentId hash regime fp p) {allowed : List Int16}
    (ha : p.allowedRegimes = some allowed) : Int16.ofNat regime.toNat ∈ allowed := by
  have hr := h.regime
  rw [regimeAllowed, ha] at hr
  simpa using hr

theorem AgentAuthorized.pubkey_mem {agents : List AgentProfile} {agentId : Uuid}
    {hash : List UInt8} {regime : UInt8} {fp : String} {p : AgentProfile}
    (h : AgentAuthorized agents agentId hash regime fp p) {keys : List String}
    (hk : p.allowedMtaPubkeys = some keys) : fp ∈ keys := by
  have hr := h.pubkey
  rw [pubkeyAllowed, hk] at hr
  simpa using hr

/-- The negation of the two policy checks. -/
theorem not_withinConstraints {mta : MtaState} {action : TradeAction} {n c : F64} {ro : Bool}
    (h : ¬ WithinConstraints mta action n c ro) :
    (ro = false ∧ sideAllowed mta action = false) ∨ effectiveCap mta c < n.toRat := by
  by_cases hn : n.toRat ≤ effectiveCap mta c
  · left
    cases hro : ro <;> cases hs : sideAllowed mta action <;>
      simp_all [WithinConstraints]
  · exact Or.inr (not_le.1 hn)

/-- **Soundness of authorize.**  Whatever the registry, the trace table and the MTA
hold when a call reaches them, the call leaves the trace table alone or appends one
row; an `ALLOWED` row is justified, and a `HALTED` or `SHADOW_HALTED` row fails the
direction or the notional check. -/
theorem authorize_sound (K : Crates) (cfg : Config) (agents : List AgentProfile)
    (traces : List TraceRow) (hs : HeartbeatState) (env : AuthorizeEnv) (req : AuthorizeRequest) :
    (authorize K cfg agents traces hs env req).2.1 = traces ∨
    ∃ row mta profile snap,
      (authorize K cfg agents traces hs env req).2.1 = traces ++ [row] ∧
      env.mta = .ok mta ∧ fetchProfile agents req.agentId = .ok profile ∧
      row.reasoningHash = snap.seal K ∧
      (row.policyResult = .allowed → Justified agents traces req mta profile snap) ∧
      (row.policyResult = .halted ∨ row.policyResult = .shadowHalted →
        (req.reduceOnly = false ∧ sideAllowed mta req.effectiveAction = false) ∨
          profile.maxNotional.toRat * mta.maxNotionalScale.toRat < req.notional.toRat) := by
  unfold authorize
  rcases hprep : authorizePrepare K cfg agents hs env req with ⟨hs', r⟩
  cases r with
  | error e => exact Or.inl rfl
  | ok w =>
    simp only
    rcases authorizeCommit_cases K traces w with ⟨hsame, -⟩ | ⟨row, hrow, happ, hcap⟩
    · exact Or.inl hsame
    right
    obtain ⟨hb, driftMs, mta, -, -, hmta, hdecide⟩ := authorizePrepare_ok hprep
    obtain ⟨modelHash, profile, hhash, hauth, htime, houtcome⟩ := authorizeDecide_ok hdecide
    obtain ⟨stored, validTime, txnTime, -, -, -, rfl⟩ := traceRow_ok hrow
    refine ⟨_, mta, profile, req.snapshot env mta hb, happ, hmta, hauth.fetched, ?_⟩
    cases houtcome with
    | allowed d hresult hwithin =>
      refine ⟨rfl, fun _ => ?_, fun h => ?_⟩
      · obtain ⟨hside, hnotional⟩ := hwithin
        refine {
          registered := hauth.registered, identity := hauth.identity, active := hauth.active
          model := ⟨modelHash, hhash, hauth.model⟩
          regime := fun allowed ha => hauth.regime_mem ha
          pubkey := fun keys hk => hauth.pubkey_mem hk
          bitemporal := htime, notional := hnotional, side := ?_
          mtaRegimeId := rfl, mtaVersion := rfl, mtaHash := rfl, portfolio := fun hro => ?_ }
        · refine hside.imp id fun hs => ?_
          simpa [sideAllowed] using hs
        · have hc := hcap _ _ _ rfl
          rw [hro] at hc
          exact capCheck_ok rfl hc
      · rcases h with h | h <;> exact absurd (hresult.symm.trans h) (by decide)
    | shadow d hresult hmode hout =>
      exact ⟨rfl, fun h => absurd (hresult.symm.trans h) (by decide),
        fun _ => not_withinConstraints hout⟩
    | halted d e hresult hmode hout =>
      exact ⟨rfl, fun h => absurd (hresult.symm.trans h) (by decide),
        fun _ => not_withinConstraints hout⟩

end IrlEngine
