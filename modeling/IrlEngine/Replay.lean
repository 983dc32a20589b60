import IrlEngine.Authorize

/-!
# Replaying a seal from the stored record

What an auditor has is the row of a trace and the `ReasoningTrace` JSON in it; what
was hashed is the snapshot.  The record lacks four fields of the heartbeat, and it
renders an action and an order type by their `Display` texts, which a custom variant
can imitate.

* `replay_iff` — of two executions with one stored record, the sealed bytes agree
  exactly when these unstored parts of the requests do.
* `ruling_eq_iff` — of two calls with the same sealed bytes, the rulings of the policy
  agree exactly when the `reduce_only` claims do.
-/

namespace IrlEngine

/-! ## Executions and their stored records -/

/-- An authorize call that persisted a row. -/
structure Execution (K : Crates) where
  cfg : Config
  agents : List AgentProfile
  traces : List TraceRow
  hs : HeartbeatState
  env : AuthorizeEnv
  req : AuthorizeRequest
  hs' : HeartbeatState
  write : AuthorizeWrite
  row : TraceRow
  prepared : authorizePrepare K cfg agents hs env req = (hs', .ok write)
  persisted : (authorizeCommit K traces write).1 = traces ++ [row]

/-- The stored record without its reasoning hash: the columns, and the trace JSON in
the clear. -/
structure AuditRecord where
  columns : TraceRow
  trace : Json

/-- The trace without the hash of its seal. -/
def ReasoningTrace.withoutHash (t : ReasoningTrace) : ReasoningTrace :=
  { t with integrity := { t.integrity with reasoningHash := "" } }

namespace Execution

variable {K : Crates}

/-- The snapshot that was sealed. -/
def snapshot (e : Execution K) : CognitiveSnapshot := e.write.args.snapshot

/-- What an execution leaves in the database, the seal apart. -/
def record (e : Execution K) : AuditRecord where
  columns := { e.row with reasoningHash := "", traceJson := .null }
  trace := (e.write.args.trace.withoutHash.toJson K).normalize

end Execution

/-- The heartbeat of a request, or the Layer 1 placeholder. -/
def AuthorizeRequest.effectiveHeartbeat (req : AuthorizeRequest) : SignedHeartbeat :=
  req.heartbeat.getD ⟨0, req.agentValidTime.toUInt64, 0, "", []⟩

/-- The variant `Custom`. -/
def TradeAction.isCustom : TradeAction → Bool
  | .custom _ => true
  | _ => false

/-- The variant `Custom`. -/
def OrderType.isCustom : OrderType → Bool
  | .custom _ => true
  | _ => false

/-- Agreement on what the stored record leaves out: four heartbeat fields, and
whether the action and the order type are custom. -/
structure UnstoredAgree (r₁ r₂ : AuthorizeRequest) : Prop where
  timestampMs : r₁.effectiveHeartbeat.timestampMs = r₂.effectiveHeartbeat.timestampMs
  regimeId : r₁.effectiveHeartbeat.regimeId = r₂.effectiveHeartbeat.regimeId
  mtaRef : r₁.effectiveHeartbeat.mtaRef = r₂.effectiveHeartbeat.mtaRef
  signature : r₁.effectiveHeartbeat.signature = r₂.effectiveHeartbeat.signature
  action : r₁.action.isCustom = r₂.action.isCustom
  orderType : r₁.orderType.isCustom = r₂.orderType.isCustom

/-! ## What the record determines -/

theorem requestHeartbeat_ok {cfg : Config} {req : AuthorizeRequest} {hb : SignedHeartbeat}
    (h : requestHeartbeat cfg req = .ok hb) : hb = req.effectiveHeartbeat := by
  unfold requestHeartbeat at h
  unfold AuthorizeRequest.effectiveHeartbeat
  cases hh : req.heartbeat with
  | some b => rw [hh] at h; exact (Except.ok.inj h).symm
  | none =>
    rw [hh] at h
    simp only at h
    split at h
    · exact absurd h (by simp)
    · exact (Except.ok.inj h).symm

/-- The arguments of the insert, from the inputs of the call. -/
theorem args_of_prepare {K : Crates} {cfg : Config} {agents : List AgentProfile}
    {hs hs' : HeartbeatState} {env : AuthorizeEnv} {req : AuthorizeRequest} {w : AuthorizeWrite}
    (h : authorizePrepare K cfg agents hs env req = (hs', .ok w)) : ∃ mta driftMs d profile,
      env.mta = .ok mta ∧ fetchProfile agents req.agentId = .ok profile ∧
      w.args = insertArgs K cfg env req mta driftMs
        (req.snapshot env mta req.effectiveHeartbeat) d ∧
      PolicyOutcome K cfg env req mta profile driftMs
        (req.snapshot env mta req.effectiveHeartbeat) w := by
  obtain ⟨hb, driftMs, mta, hreq, -, hmta, hdecide⟩ := authorizePrepare_ok h
  obtain rfl := requestHeartbeat_ok hreq
  obtain ⟨_, profile, -, hauth, -, houtcome⟩ := authorizeDecide_ok hdecide
  have hargs : ∃ d, w.args = insertArgs K cfg env req mta driftMs
      (req.snapshot env mta req.effectiveHeartbeat) d := by
    cases houtcome with
    | allowed d _ _ => exact ⟨d, rfl⟩
    | shadow d _ _ _ => exact ⟨d, rfl⟩
    | halted d _ _ _ _ => exact ⟨d, rfl⟩
  obtain ⟨d, hd⟩ := hargs
  exact ⟨mta, driftMs, d, profile, hmta, hauth.fetched, hd, houtcome⟩

theorem Execution.args_eq {K : Crates} (e : Execution K) : ∃ mta driftMs d,
    e.write.args = insertArgs K e.cfg e.env e.req mta driftMs
      (e.req.snapshot e.env mta e.req.effectiveHeartbeat) d := by
  obtain ⟨mta, driftMs, d, -, -, -, hargs, -⟩ := args_of_prepare e.prepared
  exact ⟨mta, driftMs, d, hargs⟩

/-- The persisted row is the row of those arguments. -/
theorem Execution.row_eq {K : Crates} (e : Execution K) : ∃ stored validTime txnTime,
    DateTime.ofMillis e.snapshot.validTime = some validTime ∧
    DateTime.ofMillis e.snapshot.txnTime = some txnTime ∧
    e.row = e.write.args.row stored validTime txnTime := by
  rcases authorizeCommit_cases K e.traces e.write with ⟨hsame, -⟩ | ⟨row, hrow, happ, -⟩
  · exact absurd (hsame.symm.trans e.persisted) (by simp)
  · obtain ⟨stored, v, t, -, hv, ht, rfl⟩ := traceRow_ok hrow
    refine ⟨stored, v, t, hv, ht, ?_⟩
    have := List.append_cancel_left (e.persisted.symm.trans happ)
    simpa using this

theorem ExecutionBlock.eq_of_normalize {a b : ExecutionBlock}
    (h : a.toJson.normalize = b.toJson.normalize) : a = b := by
  have hv := Json.normalize_values (by rfl) (by simp) h
  simp only [List.map_cons, List.map_nil, List.cons.injEq, normalize_str, normalize_jsonF64,
    normalize_jsonOption_jsonF64, Json.str.injEq, jsonF64_injective.eq_iff,
    jsonOption_jsonF64_injective.eq_iff, and_true] at hv
  obtain ⟨haction, hasset, horder, hvenue, hquantity, hnotional, hcurrency, hmult, hlimit, hstop,
    hclient⟩ := hv
  cases a; cases b
  simp_all

/-- The execution block can be read back from the trace JSON. -/
theorem ReasoningTrace.execution_eq {K : Crates} {s t : ReasoningTrace}
    (h : (s.toJson K).normalize = (t.toJson K).normalize) : s.execution = t.execution := by
  refine ExecutionBlock.eq_of_normalize ?_
  refine Json.normalize_member ?_ h (k := "execution") ?_ ?_
  · cases t.regulatory <;> simp
  · simp
  · simp

theorem OrderType.display_inj {a b : OrderType} (hc : a.isCustom = b.isCustom)
    (h : a.display = b.display) : a = b := by
  cases a <;> cases b <;> simp_all [OrderType.display, OrderType.isCustom]

/-- A sized action is not rendered as the neutral one. -/
theorem sized_ne_neutral (q : F64) : "Long(" ++ q.display ++ ")" ≠ "Neutral" ∧
    "Short(" ++ q.display ++ ")" ≠ "Neutral" := by
  have hneutral : "Neutral".toList = ['N', 'e', 'u', 't', 'r', 'a', 'l'] := by decide
  have hlong : "Long(".toList = ['L', 'o', 'n', 'g', '('] := by decide
  have hshort : "Short(".toList = ['S', 'h', 'o', 'r', 't', '('] := by decide
  refine ⟨fun h => ?_, fun h => ?_⟩
  · have hl := congrArg String.toList h
    rw [String.toList_append, String.toList_append, hlong, hneutral] at hl
    simp at hl
  · have hl := congrArg String.toList h
    rw [String.toList_append, String.toList_append, hshort, hneutral] at hl
    simp at hl

theorem effectiveAction_eq {r₁ r₂ : AuthorizeRequest} (hc : r₁.action.isCustom = r₂.action.isCustom)
    (hq : r₁.quantity = r₂.quantity)
    (h : r₁.effectiveAction.display = r₂.effectiveAction.display) :
    r₁.effectiveAction = r₂.effectiveAction := by
  have hneutral := sized_ne_neutral r₂.quantity
  unfold AuthorizeRequest.effectiveAction at *
  cases h₁ : r₁.action <;> cases h₂ : r₂.action <;>
    simp_all [TradeAction.display, TradeAction.isCustom, eq_comm]

/-! ## Replay -/

theorem isCustom_effectiveAction (req : AuthorizeRequest) :
    req.effectiveAction.isCustom = req.action.isCustom := by
  unfold AuthorizeRequest.effectiveAction
  cases req.action <;> rfl

/-- The execution block and the agreement on custom variants determine the intent. -/
theorem intent_eq {r₁ r₂ : AuthorizeRequest} (hu : UnstoredAgree r₁ r₂)
    (haction : r₁.effectiveAction.display = r₂.effectiveAction.display)
    (horder : r₁.orderType.display = r₂.orderType.display) (hquantity : r₁.quantity = r₂.quantity)
    (hrest : { r₁.intent with action := .neutral, orderType := .market }
      = { r₂.intent with action := .neutral, orderType := .market }) : r₁.intent = r₂.intent := by
  have ha := effectiveAction_eq hu.action hquantity haction
  have ho := OrderType.display_inj hu.orderType horder
  simp only [AuthorizeRequest.intent, ExecutionIntent.mk.injEq] at hrest ⊢
  exact ⟨ha, hrest.2.1, ho, hrest.2.2.2⟩

/-- The stored sequence and the agreement on the other fields determine the heartbeat. -/
theorem effectiveHeartbeat_eq {r₁ r₂ : AuthorizeRequest} (hu : UnstoredAgree r₁ r₂)
    (hseq : r₁.effectiveHeartbeat.sequenceId.toInt64 = r₂.effectiveHeartbeat.sequenceId.toInt64) :
    r₁.effectiveHeartbeat = r₂.effectiveHeartbeat := by
  have hseq' : r₁.effectiveHeartbeat.sequenceId = r₂.effectiveHeartbeat.sequenceId := by
    simpa using congrArg Int64.toUInt64 hseq
  have hfields :=
    And.intro hu.timestampMs (And.intro hu.regimeId (And.intro hu.mtaRef hu.signature))
  generalize r₁.effectiveHeartbeat = h₁ at hseq' hfields ⊢
  generalize r₂.effectiveHeartbeat = h₂ at hseq' hfields ⊢
  cases h₁; cases h₂
  simp_all

theorem regimeColumn_injective {a b : UInt8} (h : Int16.ofNat a.toNat = Int16.ofNat b.toNat) :
    a = b := by
  have ha := a.toNat_lt
  have hb := b.toNat_lt
  have hint := congrArg Int16.toInt h
  rw [Int16.toInt_ofNat_of_lt (by omega), Int16.toInt_ofNat_of_lt (by omega)] at hint
  exact UInt8.toNat_inj.1 (by omega)

/-- Equal records and agreement on the unstored parts give equal snapshots. -/
theorem snapshot_eq_of_record {K : Crates} {e₁ e₂ : Execution K} (h : e₁.record = e₂.record)
    (hu : UnstoredAgree e₁.req e₂.req) : e₁.snapshot = e₂.snapshot := by
  obtain ⟨mta₁, drift₁, d₁, ha₁⟩ := e₁.args_eq
  obtain ⟨mta₂, drift₂, d₂, ha₂⟩ := e₂.args_eq
  obtain ⟨stored₁, v₁, t₁, hv₁, ht₁, hr₁⟩ := e₁.row_eq
  obtain ⟨stored₂, v₂, t₂, hv₂, ht₂, hr₂⟩ := e₂.row_eq
  have hvalid₁ := DateTime.ofMillis_eq_some hv₁
  have hvalid₂ := DateTime.ofMillis_eq_some hv₂
  have htxn₁ := DateTime.ofMillis_eq_some ht₁
  have htxn₂ := DateTime.ofMillis_eq_some ht₂
  -- the columns give everything but the numbers, which they hold only up to the sign of zero
  have hcols := congrArg AuditRecord.columns h
  simp only [Execution.record, hr₁, hr₂, ha₁, ha₂, InsertArgs.row, insertArgs,
    AuthorizeRequest.snapshot, TraceRow.mk.injEq] at hcols
  obtain ⟨htrace, hv, ht, hregime, hversion, hhash, hfp, hschema, -, -, -, -, -, -, -, -, -, -, -,
    hseq, -⟩ := hcols
  have hexec := ReasoningTrace.execution_eq (s := e₁.write.args.trace.withoutHash)
    (t := e₂.write.args.trace.withoutHash) (congrArg AuditRecord.trace h)
  simp only [ha₁, ha₂, ReasoningTrace.withoutHash, insertArgs, buildTrace,
    AuthorizeRequest.snapshot, AuthorizeRequest.intent, ExecutionBlock.mk.injEq] at hexec
  obtain ⟨haction, hasset, horder, hvenue, hquantity, hnotional, hcurrency, hmult, hlimit, hstop,
    hclient⟩ := hexec
  have hintent : e₁.req.intent = e₂.req.intent := by
    refine intent_eq hu haction horder hquantity ?_
    simp only [AuthorizeRequest.intent, hasset, hvenue, hquantity, hnotional, hcurrency, hmult,
      hlimit, hstop, hclient]
  have hheartbeat := effectiveHeartbeat_eq hu hseq
  simp only [Execution.snapshot, ha₁, ha₂, insertArgs, AuthorizeRequest.snapshot,
    CognitiveSnapshot.mk.injEq] at hvalid₁ hvalid₂ htxn₁ htxn₂ ⊢
  exact ⟨htrace, regimeColumn_injective hregime, hversion, hhash, hfp, hschema, hintent,
    by rw [← hvalid₁, ← hvalid₂, hv], by rw [← htxn₁, ← htxn₂, ht], hheartbeat⟩

/-- **Forensic replay.**  Of two executions with one stored record, the sealed bytes
are equal exactly when the requests agree on what the record leaves out. -/
theorem replay_iff {K : Crates} (law : FloatText.Lawful K.floatText) (e₁ e₂ : Execution K)
    (h : e₁.record = e₂.record) :
    e₁.snapshot.canonicalBytes K = e₂.snapshot.canonicalBytes K ↔ UnstoredAgree e₁.req e₂.req := by
  constructor
  · intro hbytes
    have hsnap := CognitiveSnapshot.canonicalBytes_injective law hbytes
    obtain ⟨mta₁, drift₁, d₁, ha₁⟩ := e₁.args_eq
    obtain ⟨mta₂, drift₂, d₂, ha₂⟩ := e₂.args_eq
    simp only [Execution.snapshot, ha₁, ha₂, insertArgs, AuthorizeRequest.snapshot,
      AuthorizeRequest.intent, CognitiveSnapshot.mk.injEq, ExecutionIntent.mk.injEq] at hsnap
    obtain ⟨-, -, -, -, -, -, ⟨haction, -, horder, -⟩, -, -, hhb⟩ := hsnap
    refine ⟨by rw [hhb], by rw [hhb], by rw [hhb], by rw [hhb], ?_, by rw [horder]⟩
    rw [← isCustom_effectiveAction, haction, isCustom_effectiveAction]
  · intro hu
    rw [snapshot_eq_of_record h hu]

/-! ## Two executions with one record -/

/-- A one-unit order with the given heartbeat, which Layer 1 does not look at. -/
def AuthorizeRequest.withHeartbeat (hb : SignedHeartbeat) : AuthorizeRequest :=
  { AuthorizeRequest.sample (.fill 1) (.long F64.one) F64.one with heartbeat := some hb }

theorem withinConstraints_sample (hb : SignedHeartbeat) :
    WithinConstraints .sample (AuthorizeRequest.withHeartbeat hb).effectiveAction
      (AuthorizeRequest.withHeartbeat hb).notional F64.one
      (AuthorizeRequest.withHeartbeat hb).reduceOnly := by
  show WithinConstraints .sample (.long F64.one) F64.one F64.one false
  refine ⟨Or.inr (by decide), ?_⟩
  rw [effectiveCap, show MtaState.sample.maxNotionalScale = F64.one from rfl, F64.toRat_one]
  norm_num

/-- The execution of such an order on an empty trace table. -/
def Execution.sample (hb : SignedHeartbeat) : Execution .sample where
  cfg := .sample
  agents := [.sample (.fill 1) F64.one]
  traces := []
  hs := ⟨fun _ => none, fun _ => none⟩
  env := .sample (.fill 2)
  req := .withHeartbeat hb
  hs' := ⟨fun _ => none, fun _ => none⟩
  write := .commit (sampleArgs .sample (.fill 2) (.withHeartbeat hb) sampleDecision)
    (some (effectiveCap .sample F64.one, MtaState.sample.regimeLabel)) false
  row := sampleRow .sample (.fill 2) (.withHeartbeat hb) sampleDecision
  prepared := authorizePrepare_sample_allowed .sample _ (.fill 2) (.withHeartbeat hb)
    F64.one rfl rfl
    rfl (withinConstraints_sample hb)
  persisted := by
    have hcap : ¬ effectiveCap .sample F64.one < pendingSum [] (Uuid.fill 1) + F64.one.toRat := by
      have hone : effectiveCap .sample F64.one = 1 := by decide +kernel
      rw [hone, F64.toRat_one]
      norm_num [pendingSum]
    rw [authorizeCommit_sample _ _ _ rfl]
    exact if_neg hcap

/-- The record depends on the sequence of the heartbeat only. -/
theorem record_sample (t : UInt64) :
    (Execution.sample ⟨0, t, 0, "", []⟩).record = (Execution.sample ⟨0, 0, 0, "", []⟩).record := by
  simp only [Execution.record, Execution.sample, AuthorizeWrite.args, sampleRow, sampleArgs,
    insertArgs, InsertArgs.row, Option.getD_some, buildTrace, ReasoningTrace.withoutHash,
    AuthorizeRequest.snapshot,
    AuthorizeRequest.withHeartbeat, AuthorizeRequest.intent, AuthorizeRequest.effectiveAction]

/-- Two orders whose heartbeats differ in the broadcast time have one record and
different sealed bytes. -/
theorem replay_fails : ¬ ∀ (K : Crates) (e₁ e₂ : Execution K), e₁.record = e₂.record →
    e₁.snapshot.canonicalBytes K = e₂.snapshot.canonicalBytes K := by
  intro h
  have hbytes := h .sample _ _ (record_sample 1)
  have hsnap := CognitiveSnapshot.canonicalBytes_injective sampleFloatText_lawful hbytes
  have htime : (1 : UInt64) = 0 := congrArg (fun s => s.heartbeat.timestampMs) hsnap
  exact absurd htime (by decide)

/-- The criterion at these two executions. -/
theorem replay_iff_sample :
    (Execution.sample ⟨0, 1, 0, "", []⟩).snapshot.canonicalBytes .sample
        = (Execution.sample ⟨0, 0, 0, "", []⟩).snapshot.canonicalBytes .sample ↔
      UnstoredAgree (.withHeartbeat ⟨0, 1, 0, "", []⟩) (.withHeartbeat ⟨0, 0, 0, "", []⟩) :=
  replay_iff sampleFloatText_lawful _ _ (record_sample 1)

/-! ## What the seal decides

The policy reads the request, the MTA state, the profile and the pending sum; the
seal covers the snapshot.  Of what the policy reads in a request, `reduce_only` is
the one thing that the snapshot does not hold. -/

/-- An authorize call that sealed a snapshot, with the trace table its insert finds. -/
structure SealedCall (K : Crates) where
  cfg : Config
  agents : List AgentProfile
  traces : List TraceRow
  hs : HeartbeatState
  env : AuthorizeEnv
  req : AuthorizeRequest
  hs' : HeartbeatState
  write : AuthorizeWrite
  prepared : authorizePrepare K cfg agents hs env req = (hs', .ok write)

/-- The outcome of the policy: is the order allowed, and which checks were applied? -/
structure Ruling where
  allowed : Bool
  directionChecked : Bool
  portfolioChecked : Bool
  deriving DecidableEq, Repr

/-- Allowed by the policy, and by the portfolio check on the table as it is. -/
def AuthorizeWrite.allowed (traces : List TraceRow) : AuthorizeWrite → Bool
  | .halted _ _ => false
  | .commit a portfolioCheck shadowBlocked =>
    !shadowBlocked && (capCheck traces a portfolioCheck).isOk

/-- The insert makes the portfolio check. -/
def AuthorizeWrite.portfolioChecked : AuthorizeWrite → Bool
  | .halted _ _ => false
  | .commit _ portfolioCheck _ => portfolioCheck.isSome

namespace SealedCall

variable {K : Crates}

/-- The snapshot that the call has sealed. -/
def snapshot (e : SealedCall K) : CognitiveSnapshot := e.write.args.snapshot

/-- `check_constraints` makes the direction check unless the request is `reduce_only`. -/
def ruling (e : SealedCall K) : Ruling where
  allowed := e.write.allowed e.traces
  directionChecked := !e.req.reduceOnly
  portfolioChecked := e.write.portfolioChecked

/-- One MTA state, one profile, one pending sum. -/
structure SameGround (e₁ e₂ : SealedCall K) : Prop where
  mta : e₁.env.mta = e₂.env.mta
  profile : fetchProfile e₁.agents e₁.req.agentId = fetchProfile e₂.agents e₂.req.agentId
  pending : pendingSum e₁.traces e₁.req.agentId = pendingSum e₂.traces e₂.req.agentId

end SealedCall

/-- The portfolio check of an order, on the pending sum. -/
def withinPortfolio (mta : MtaState) (profile : AgentProfile) (pending : ℚ)
    (notional : F64) : Bool :=
  decide (pending + notional.toRat ≤ effectiveCap mta profile.maxNotional)

/-- What the ruling depends on: the action, the notional and `reduce_only`. -/
def rulingOf (mta : MtaState) (profile : AgentProfile) (pending : ℚ)
    (action : TradeAction) (notional : F64) (reduceOnly : Bool) : Ruling :=
  let within := decide (WithinConstraints mta action notional profile.maxNotional reduceOnly)
  { allowed := within && (reduceOnly || withinPortfolio mta profile pending notional)
    directionChecked := !reduceOnly
    portfolioChecked := within && !reduceOnly }

/-- The portfolio check of an allowed order. -/
theorem capCheck_allowed (traces : List TraceRow) (K : Crates) (cfg : Config) (env : AuthorizeEnv)
    (req : AuthorizeRequest) (mta : MtaState) (profile : AgentProfile) (driftMs : Int64)
    (hb : SignedHeartbeat) (d : PolicyDecision) :
    (capCheck traces (insertArgs K cfg env req mta driftMs (req.snapshot env mta hb) d)
      (if !req.reduceOnly then some (effectiveCap mta profile.maxNotional, mta.regimeLabel)
        else none)).isOk
      = (req.reduceOnly
          || withinPortfolio mta profile (pendingSum traces req.agentId) req.notional) := by
  cases req.reduceOnly with
  | true => rfl
  | false => exact capCheck_isOk _ _ rfl

/-- The snapshot and the ruling of a call, from its inputs. -/
theorem SealedCall.ruling_eq {K : Crates} (e : SealedCall K) : ∃ mta profile,
    e.env.mta = .ok mta ∧ fetchProfile e.agents e.req.agentId = .ok profile ∧
    e.snapshot = e.req.snapshot e.env mta e.req.effectiveHeartbeat ∧
    e.ruling = rulingOf mta profile (pendingSum e.traces e.req.agentId) e.req.effectiveAction
      e.req.notional e.req.reduceOnly := by
  obtain ⟨mta, driftMs, d, profile, hmta, hprofile, hargs, houtcome⟩ := args_of_prepare e.prepared
  refine ⟨mta, profile, hmta, hprofile, ?_, ?_⟩
  · rw [SealedCall.snapshot, hargs]
    rfl
  · unfold SealedCall.ruling rulingOf
    generalize e.write = w at houtcome
    cases houtcome with
    | allowed d' _ hwithin =>
      simp only [AuthorizeWrite.allowed, AuthorizeWrite.portfolioChecked, capCheck_allowed,
        decide_eq_true hwithin, Bool.not_false, Bool.true_and]
      cases e.req.reduceOnly <;> rfl
    | shadow d' _ _ hout =>
      simp [AuthorizeWrite.allowed, AuthorizeWrite.portfolioChecked, hout]
    | halted d' err _ _ hout =>
      simp [AuthorizeWrite.allowed, AuthorizeWrite.portfolioChecked, hout]

/-- **What the seal decides.**  Of two calls on the same ground with the same sealed
bytes, the rulings agree exactly when the `reduce_only` claims do. -/
theorem ruling_eq_iff {K : Crates} (law : FloatText.Lawful K.floatText) (e₁ e₂ : SealedCall K)
    (hground : e₁.SameGround e₂)
    (hbytes : e₁.snapshot.canonicalBytes K = e₂.snapshot.canonicalBytes K) :
    e₁.ruling = e₂.ruling ↔ e₁.req.reduceOnly = e₂.req.reduceOnly := by
  constructor
  · intro h
    have hdir : (!e₁.req.reduceOnly) = !e₂.req.reduceOnly := congrArg Ruling.directionChecked h
    simpa using hdir
  · intro hro
    obtain ⟨mta₁, profile₁, hmta₁, hprofile₁, hsnap₁, hruling₁⟩ := e₁.ruling_eq
    obtain ⟨mta₂, profile₂, hmta₂, hprofile₂, hsnap₂, hruling₂⟩ := e₂.ruling_eq
    obtain rfl : mta₁ = mta₂ := Except.ok.inj (hmta₁.symm.trans (hground.mta.trans hmta₂))
    obtain rfl : profile₁ = profile₂ :=
      Except.ok.inj (hprofile₁.symm.trans (hground.profile.trans hprofile₂))
    have hsnap := CognitiveSnapshot.canonicalBytes_injective law hbytes
    rw [hsnap₁, hsnap₂] at hsnap
    simp only [AuthorizeRequest.snapshot, AuthorizeRequest.intent, CognitiveSnapshot.mk.injEq,
      ExecutionIntent.mk.injEq] at hsnap
    obtain ⟨-, -, -, -, -, -, ⟨haction, -, -, -, -, hnotional, -⟩, -⟩ := hsnap
    rw [hruling₁, hruling₂, hground.pending, haction, hnotional, hro]

/-! ## Two calls with one seal -/

/-- An order to sell one unit, which the sample regime does not permit. -/
def AuthorizeRequest.short (reduceOnly : Bool) : AuthorizeRequest :=
  { AuthorizeRequest.sample (.fill 1) (.short F64.one) F64.one with reduceOnly := reduceOnly }

/-- The call of such an order on an empty trace table. -/
def SealedCall.sample (reduceOnly : Bool) : SealedCall .sample where
  cfg := .sample
  agents := [.sample (.fill 1) F64.one]
  traces := []
  hs := .init
  env := .sample (.fill 2)
  req := .short reduceOnly
  hs' := .init
  write := enforcePolicy .sample .sample (.sample (.fill 2)) (.short reduceOnly) .sample
    (.sample (.fill 1) F64.one) 0 (AuthorizeRequest.snapshot (.short reduceOnly) (.sample (.fill 2))
      .sample ⟨0, 1, 0, "", []⟩)
  prepared := authorizePrepare_sample .sample _ (.fill 2) (.short reduceOnly) F64.one rfl rfl

theorem sameGround_sample : (SealedCall.sample true).SameGround (SealedCall.sample false) :=
  ⟨rfl, rfl, rfl⟩

/-- The seal does not see the claim. -/
theorem snapshot_short (reduceOnly : Bool) : (SealedCall.sample reduceOnly).snapshot
    = AuthorizeRequest.snapshot (.short true) (.sample (.fill 2)) .sample
        (AuthorizeRequest.short true).effectiveHeartbeat := by
  obtain ⟨mta, profile, hmta, -, hsnap, -⟩ := (SealedCall.sample reduceOnly).ruling_eq
  obtain rfl : MtaState.sample = mta := Except.ok.inj hmta
  exact hsnap

theorem ruling_short (reduceOnly : Bool) : (SealedCall.sample reduceOnly).ruling
    = ⟨reduceOnly, !reduceOnly, false⟩ := by
  obtain ⟨mta, profile, hmta, hprofile, -, hruling⟩ := (SealedCall.sample reduceOnly).ruling_eq
  obtain rfl : MtaState.sample = mta := Except.ok.inj hmta
  obtain rfl : AgentProfile.sample (.fill 1) F64.one = profile := Except.ok.inj hprofile
  rw [hruling]
  cases reduceOnly <;> decide +kernel

/-- Two calls on the same ground with the same sealed bytes: the order that claims
`reduce_only` is allowed, the other one is halted. -/
theorem reduceOnly_unsealed :
    (SealedCall.sample true).SameGround (SealedCall.sample false) ∧
    (SealedCall.sample true).snapshot.canonicalBytes .sample
      = (SealedCall.sample false).snapshot.canonicalBytes .sample ∧
    (SealedCall.sample true).ruling = ⟨true, false, false⟩ ∧
    (SealedCall.sample false).ruling = ⟨false, true, false⟩ := by
  refine ⟨sameGround_sample, ?_, ruling_short true, ruling_short false⟩
  rw [snapshot_short, snapshot_short]

/-- The criterion at these two calls. -/
theorem ruling_eq_iff_sample :
    (SealedCall.sample true).ruling = (SealedCall.sample false).ruling ↔ true = false :=
  ruling_eq_iff sampleFloatText_lawful _ _ sameGround_sample
    (by rw [snapshot_short, snapshot_short])

end IrlEngine
