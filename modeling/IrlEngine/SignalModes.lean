import IrlEngine.Access
import IrlEngine.Denials
import IrlEngine.Layer2
import IrlEngine.Mta
import IrlEngine.Replay

/-!
# Deployments without a live operator

`MTA_MODE` chooses one of three clients: the live one of `Mta.lean`, or one of two that answer a
fixed, unsigned state.  The null client is documented to apply no regime constraints, and its traces
to record `signal_mode = "none"` for the auditors.

* `unsigned_admits_iff` — what is left of the regime under the two fixed states;
* `signal_mode_unread` — the signal mode has no effect on any run of the gateway, so that it is
  recorded nowhere;
* `signal_source_recorded` — the MTA hash of a trace still tells which client it was decided with.
-/

namespace IrlEngine

/-! ## The clients -/

/-- Which client to instantiate at startup. -/
inductive MtaMode where
  | macroPulse
  | mock
  | none
  deriving DecidableEq, Repr

/-- Regime 0 at full scale, with all three sides and a fingerprint of zeros. -/
def unsignedMta (regimeLabel version hash signalMode : String) (broadcastTime : Int64) :
    MtaState where
  regimeId := 0
  regimeLabel := regimeLabel
  riskLevel := F64.one
  maxNotionalScale := F64.one
  allowedSides := ["long", "short", "neutral"]
  version := version
  hash := hash
  broadcastTime := broadcastTime
  pubkeyFingerprint := "0000000000000000000000000000000000000000000000000000000000000000"
  signalMode := signalMode

/-- The hash of the mock client's state. -/
def mockHash : String := "mock0000000000000000000000000000000000000000000000000000000000000000"

/-- The hash of the null client's state. -/
def nullHash : String := "none0000000000000000000000000000000000000000000000000000000000000000"

/-- `MockMtaClient`, for evaluation. -/
def MockMtaClient.fetchVerified (nowMs : Int64) : Except AppError MtaState :=
  .ok (unsignedMta "expansion" "mock-v0" mockHash "mock" (nowMs - 50))

/-- `NullMtaClient`, for production without an external signal. -/
def NullMtaClient.fetchVerified (nowMs : Int64) : Except AppError MtaState :=
  .ok (unsignedMta "unconstrained" "none" nullHash "none" nowMs)

/-- What the client of a mode can answer; a state that the live client has cached was such an answer
when it was fetched. -/
inductive Answers (K : Crates) (wire : List UInt8 → Except String RawMtaResponse) :
    MtaMode → MtaState → Prop where
  | macroPulse {mta : MtaState} (pubkey : List UInt8) (response : Except String (List UInt8))
      (h : fetchAndVerify K wire pubkey response = .ok mta) : Answers K wire .macroPulse mta
  | mock {mta : MtaState} (nowMs : Int64) (h : MockMtaClient.fetchVerified nowMs = .ok mta) :
      Answers K wire .mock mta
  | none {mta : MtaState} (nowMs : Int64) (h : NullMtaClient.fetchVerified nowMs = .ok mta) :
      Answers K wire .none mta

/-! ## What is left of the regime -/

section Residual

variable {K : Crates} {cfg : Config} {agents : List AgentProfile} {hs : HeartbeatState}
  {env : AuthorizeEnv} {req : AuthorizeRequest} {profile : AgentProfile}
  {label version hash mode : String} {time : Int64}

theorem sideAllowed_unsigned (action : TradeAction) :
    sideAllowed (unsignedMta label version hash mode time) action = true ↔
      action.direction ≠ .unknown := by
  show (["long", "short", "neutral"].any fun s =>
    Text.eqIgnoreAsciiCase s action.direction.text) = true ↔ action.direction ≠ .unknown
  cases action.direction <;> decide

theorem effectiveCap_unsigned (cap : F64) :
    effectiveCap (unsignedMta label version hash mode time) cap = cap.toRat := by
  rw [effectiveCap, unsignedMta, F64.toRat_one, mul_one]

theorem withinConstraints_unsigned {action : TradeAction} {n c : F64} {ro : Bool} :
    WithinConstraints (unsignedMta label version hash mode time) action n c ro ↔
      (ro = true ∨ action.direction ≠ .unknown) ∧ n.toRat ≤ c.toRat := by
  rw [WithinConstraints, sideAllowed_unsigned, effectiveCap_unsigned]

end Residual

/-- A sample call under the null client. -/
def AuthorizeEnv.unconstrained (traceId : Uuid) : AuthorizeEnv :=
  { AuthorizeEnv.sample traceId with mta := NullMtaClient.fetchVerified 2 }

/-- An order whose custom action names no direction. -/
def AuthorizeRequest.hedge : AuthorizeRequest := .sample (.fill 1) (.custom "hedge") F64.one

/-- The state under another signal mode. -/
def MtaState.relabel (f : String → String) (mta : MtaState) : MtaState :=
  { mta with signalMode := f mta.signalMode }

/-- The environment under another signal mode. -/
def AuthorizeEnv.relabel (f : String → String) (env : AuthorizeEnv) : AuthorizeEnv :=
  { env with mta := env.mta.map (MtaState.relabel f) }

/-- The call under another signal mode. -/
def AuthorizeCall.relabel (f : String → String) (call : AuthorizeCall) : AuthorizeCall :=
  { call with env := call.env.relabel f }

/-- The request under another signal mode. -/
def Route.relabel (f : String → String) : Route → Route
  | .authorize call => .authorize (call.relabel f)
  | route => route

/-- The event, had the clients reported other signal modes. -/
def GatewayEvent.relabel (f : String → String) : GatewayEvent → GatewayEvent
  | .request r => .request { r with route := r.route.relabel f }
  | e => e

section Relabel

variable {K : Crates} {cfg : Config} {agents : List AgentProfile} {hs : HeartbeatState}
  {env : AuthorizeEnv} {req : AuthorizeRequest} (f : String → String)

/-- Snapshot, trace, policy and registry read the other fields of a state only. -/
theorem authorizeDecide_relabel (hb : SignedHeartbeat) (drift : Int64) (mta : MtaState) :
    authorizeDecide K cfg agents (env.relabel f) req hb drift (mta.relabel f)
      = authorizeDecide K cfg agents env req hb drift mta := rfl

theorem authorizePrepare_relabel :
    authorizePrepare K cfg agents hs (env.relabel f) req
      = authorizePrepare K cfg agents hs env req := by
  unfold authorizePrepare
  have hcert : checkClientCert (env.relabel f) req = checkClientCert env req := rfl
  have hval : ∀ hb, validateHeartbeat K cfg hs (env.relabel f) req hb
      = validateHeartbeat K cfg hs env req hb := fun hb => rfl
  cases hmta : env.mta with
  | error e =>
    have hrelabel : (env.relabel f).mta = .error e := by
      rw [AuthorizeEnv.relabel, hmta]
      rfl
    simp only [hcert, hval, hrelabel]
  | ok mta =>
    have hrelabel : (env.relabel f).mta = .ok (mta.relabel f) := by
      rw [AuthorizeEnv.relabel, hmta]
      rfl
    simp only [hcert, hval, hrelabel, authorizeDecide_relabel]

theorem handle_relabel (V : VaultSetup) (s : AdminState) (op : String) (ip : Option String)
    (route : Route) : (route.relabel f).handle V s op ip = route.handle V s op ip := by
  cases route with
  | authorize call =>
    have hstep : step V.D s.sys (.authorize (call.relabel f)) = step V.D s.sys
      (.authorize call) := by
      simp only [step, AuthorizeCall.relabel, authorizePrepare_relabel]
    have hreply : authorize V.D.K V.D.cfg (call.relabel f).agents s.sys.traces (call.relabel f).hs
        (call.relabel f).env (call.relabel f).req
        = authorize V.D.K V.D.cfg call.agents s.sys.traces call.hs call.env call.req := by
      simp only [authorize, AuthorizeCall.relabel, authorizePrepare_relabel]
    rw [Route.relabel, Route.handle, hstep, hreply]
    rfl
  | admin call audit => rfl
  | bindExecution req => rfl
  | read ownerOnly query => rfl
  | malformed ownerOnly reason => rfl

theorem ownerOnly_relabel (route : Route) : (route.relabel f).ownerOnly = route.ownerOnly := by
  cases route <;> rfl

theorem gatewayStep_relabel (V : VaultSetup) (s : GatewayState) (e : GatewayEvent) :
    gatewayStep V s (e.relabel f) = gatewayStep V s e := by
  cases e with
  | request r =>
    have hserve : ∀ admission, ApiRequest.serve V s.admin
        { r with route := r.route.relabel f } admission = r.serve V s.admin admission := by
      intro admission
      cases admission with
      | error e => rfl
      | ok token =>
        rw [ApiRequest.serve, ownerOnly_relabel, handle_relabel]
        rfl
    simp only [GatewayEvent.relabel, gatewayStep, ApiRequest.exec, hserve]
  | lastUsed hash now => rfl
  | refreshTokens refresh => rfl
  | refreshShadow => rfl
  | work e => rfl
  | restart env envDefault now maxPerSecond => rfl

end Relabel

/-- **The signal mode is recorded nowhere.**  Had the clients of a deployment reported any other
signal modes, every run of the gateway would have left the same tables and given the same answers,
to the requests of an auditor as well. -/
theorem signal_mode_unread (V : VaultSetup) (f : String → String) (s : GatewayState)
    (es : List GatewayEvent) :
    Interference.play (gatewayStep V) s (es.map (GatewayEvent.relabel f))
      = Interference.play (gatewayStep V) s es :=
  Interference.play_map (gatewayStep_relabel f V) s es

/-! ## The client behind a trace -/

/-- The client that a stored MTA hash points to. -/
def signalSource (mtaHash : String) : MtaMode :=
  if mtaHash = nullHash then .none else if mtaHash = mockHash then .mock else .macroPulse

/-- The texts that stand for a hash are too long to be one. -/
theorem sha256Hex_ne {text : String} (h : (Text.utf8 text).length ≠ 64) (body : List UInt8) :
    sha256Hex body ≠ text := by
  rintro rfl
  exact h (length_utf8_sha256Hex body)

theorem signalSource_of_answers {K : Crates} {wire : List UInt8 → Except String RawMtaResponse}
    {mode : MtaMode} {mta : MtaState} (h : Answers K wire mode mta) :
    signalSource mta.hash = mode := by
  cases h with
  | macroPulse pubkey response hfetch =>
    obtain ⟨body, raw, -, -, -, rfl⟩ := fetchAndVerify_ok hfetch
    rw [signalSource, RawMtaResponse.adapt, if_neg (sha256Hex_ne (by decide) body),
      if_neg (sha256Hex_ne (by decide) body)]
  | mock nowMs hfetch =>
    have hmock : signalSource mockHash = .mock := by decide
    rw [← Except.ok.inj hfetch]
    exact hmock
  | none nowMs hfetch =>
    have hnull : signalSource nullHash = .none := by decide
    rw [← Except.ok.inj hfetch]
    exact hnull

/-- The id of a row with the hash of the state it was decided on. -/
def TraceRow.source (r : TraceRow) : Uuid × String := (r.traceId, r.mtaHash)

theorem lasting_source : Lasting TraceRow.source :=
  ⟨fun _ _ _ => rfl, fun _ => rfl, fun _ _ => rfl, fun _ _ _ _ => rfl⟩

/-- The request authorizes with a valid token, and what it leaves was decided on this state. -/
def DecidedOn (source : Uuid × String) (mta : MtaState) (s : GatewayState) (e : GatewayEvent) :
    Prop :=
  ∃ r token call, e = .request r ∧ r.route = .authorize call ∧ Admitted s r token ∧
    call.env.mta = .ok mta ∧ source = (call.env.traceId, mta.hash)

/-- The row was left by the request, and its hash points to whichever client had answered the state
of the request. -/
def SourceRecorded (row : TraceRow) (s : GatewayState) (e : GatewayEvent) : Prop :=
  ∃ mta, DecidedOn row.source mta s e ∧
    ∀ K wire mode, Answers K wire mode mta → signalSource row.mtaHash = mode

section Sources

variable {V : VaultSetup} {s t : GatewayState} {e : GatewayEvent} {source : Uuid × String}

/-- An authorize call leaves one row at most, with the hash of its state. -/
theorem source_of_authorize {D : Deployment} {sys sys' : System} {call : AuthorizeCall}
    (h : step D sys (.authorize call) = some sys')
    (hmem : source ∈ sys'.traces.map TraceRow.source) :
    source ∈ sys.traces.map TraceRow.source ∨
      ∃ mta, call.env.mta = .ok mta ∧ source = (call.env.traceId, mta.hash) := by
  rcases insertStep_of_step rfl h with rfl | ⟨a, row, hargs, hinsert⟩
  · exact Or.inl hmem
  · rw [hinsert.next, List.map_append, List.mem_append] at hmem
    refine hmem.imp id fun hnew => ?_
    obtain rfl := List.mem_singleton.1 hnew
    rcases hprep : authorizePrepare D.K D.cfg call.agents call.hs call.env call.req
      with ⟨hs', _ | w⟩
    · simp [insertedBy, hprep] at hargs
    · simp only [insertedBy, hprep, Option.some.injEq] at hargs
      obtain ⟨mta, drift, d, profile, hmta, -, hw, -⟩ := args_of_prepare hprep
      obtain ⟨_, _, _, -, -, -, hrow⟩ := traceRow_ok hinsert.row
      refine ⟨mta, hmta, ?_⟩
      rw [hrow, ← hargs, hw]
      rfl

theorem decidedOn_of_entered {admin : AdminState} (h : Entered V s e admin)
    (hmem : source ∈ admin.sys.traces.map TraceRow.source) :
    source ∈ s.admin.sys.traces.map TraceRow.source ∨ ∃ mta, DecidedOn source mta s e := by
  cases h with
  | idle e => exact Or.inl hmem
  | called r token call audit hcalls =>
    rw [lasting_source.map_handle hcalls.fresh] at hmem
    exact Or.inl hmem
  | traded r token hadmitted e he sys hsys =>
    cases hroute : r.route with
    | authorize call =>
      obtain rfl : .authorize call = e := by
        rw [hroute] at he
        exact Option.some.inj he
      refine (source_of_authorize hsys hmem).imp id ?_
      rintro ⟨mta, hmta, hsource⟩
      exact ⟨mta, r, token, call, rfl, hroute, hadmitted, hmta, hsource⟩
    | bindExecution req =>
      obtain rfl : .bindRead req = e := by
        rw [hroute] at he
        exact Option.some.inj he
      exact Or.inl (lasting_source.map_step rfl hsys ▸ hmem)
    | admin call audit => simp [hroute, Route.event] at he
    | read ownerOnly query => simp [hroute, Route.event] at he
    | malformed ownerOnly reason => simp [hroute, Route.event] at he
  | worked e he sys hsys =>
    exact Or.inl (lasting_source.map_step (isInsert_of_isWork he) hsys ▸ hmem)
  | refreshed e cache shadowMode => exact Or.inl hmem
  | restarted env envDefault now maxPerSecond => exact Or.inl hmem

/-- **A trace tells which client it was decided with.**  A row that a run of the gateway adds,
through restarts, verdicts, encryption and erasure, was left by an authorize request on a state
whose hash it carries; and if a client of some mode had answered that state, the hash of the row
points to that mode. -/
theorem signal_source_recorded {es : List GatewayEvent} (hrun : GatewayRun V s es t)
    {row : TraceRow} (hrow : row ∈ t.admin.sys.traces)
    (hnew : row.traceId ∉ s.admin.sys.traces.map TraceRow.traceId) :
    Run.Happens (Interference.states (gatewayStep V)) (SourceRecorded row) s es := by
  have habsent : row.source ∉ s.admin.sys.traces.map TraceRow.source := by
    intro hmem
    obtain ⟨old, hold, hsame⟩ := List.mem_map.1 hmem
    exact hnew (List.mem_map.2 ⟨old, hold, congrArg Prod.fst hsame⟩)
  refine Run.happens_mono ?_ (Run.happens_of_change
    (Q := fun u => row.source ∈ u.admin.sys.traces.map TraceRow.source) hrun habsent
    (List.mem_map_of_mem hrow))
  rintro u e ⟨hmissing, v, hstep, hwritten⟩
  obtain ⟨mta, hdecided⟩ :=
    (decidedOn_of_entered (entered_of_step hstep) hwritten).resolve_left hmissing
  refine ⟨mta, hdecided, fun K wire mode hanswers => ?_⟩
  obtain ⟨_, _, _, -, -, -, -, hsource⟩ := hdecided
  rw [show row.mtaHash = mta.hash from congrArg Prod.snd hsource]
  exact signalSource_of_answers hanswers

end Sources

/-! A hedge under the null client, which is halted and leaves its trace. -/

/-- The state of the null client. -/
def MtaState.null : MtaState := unsignedMta "unconstrained" "none" nullHash "none" 2

/-- The hedge, under the state of the null client. -/
def AuthorizeCall.hedge : AuthorizeCall :=
  ⟨[.sample (.fill 1) F64.two], .init, .unconstrained (.fill 2), .hedge⟩

/-- What the call passes to the insert. -/
def hedgeArgs (K : Crates) : InsertArgs :=
  AuthorizeCall.hedge.argsFor (.plain K) ⟨0, 1, 0, "", []⟩ 0 .null
    (AuthorizeCall.hedge.refusal .null (.sample (.fill 1) F64.two) .halted)

theorem prepare_hedge (K : Crates) : ∃ e,
    authorizePrepare K .sample AuthorizeCall.hedge.agents AuthorizeCall.hedge.hs
      AuthorizeCall.hedge.env AuthorizeCall.hedge.req = (.init, .ok (.halted (hedgeArgs K) e)) := by
  have hdecode : decodeModelHash .hedge = .ok (List.replicate 32 0) := by
    rw [decodeModelHash, show AuthorizeRequest.hedge.modelHashHex = sampleModelHash from rfl,
      hexDecodeText_sample]
    rfl
  have hagent : authorizeAgent [.sample (.fill 1) F64.two] AuthorizeRequest.hedge.agentId
      (List.replicate 32 0) MtaState.null.regimeId MtaState.null.pubkeyFingerprint
      = .ok (.sample (.fill 1) F64.two) := authorizeAgent_sample ..
  have hmta : AuthorizeCall.hedge.env.mta = .ok .null := rfl
  have hval : validateHeartbeat K .sample .init AuthorizeCall.hedge.env AuthorizeCall.hedge.req
      ⟨0, 1, 0, "", []⟩ = (.init, .ok 0) := rfl
  have houtside : ¬ AuthorizeCall.hedge.Within .null (.sample (.fill 1) F64.two) := by
    intro hwithin
    exact absurd (withinConstraints_unsigned.1 hwithin).1 (by decide)
  obtain ⟨e, -, hpolicy⟩ := enforcePolicy_outside (.plain K) ⟨0, 1, 0, "", []⟩ 0 houtside
  have hprep := authorizePrepare_eq rfl rfl hval hmta rfl hdecode hagent rfl
  exact ⟨e, hprep.trans (congrArg (fun w => (_, Except.ok w)) hpolicy)⟩

theorem step_hedge : ∃ row, step (VaultSetup.sealing []).D .init (.authorize .hedge)
    = some ⟨[row], [], []⟩ := by
  obtain ⟨e, hprep⟩ := prepare_hedge .sealing
  have hvalid : DateTime.ofMillis (hedgeArgs .sealing).snapshot.validTime
      = some ⟨1, by decide⟩ := by
    show DateTime.ofMillis 1 = _
    decide
  have htxn : DateTime.ofMillis (hedgeArgs .sealing).snapshot.txnTime = some ⟨2, by decide⟩ := by
    show DateTime.ofMillis 2 = _
    decide
  obtain ⟨row, hrow⟩ : ∃ row, traceRow .sealing (hedgeArgs .sealing) = .ok row :=
    ⟨_, traceRow_plain rfl hvalid htxn⟩
  refine ⟨row, (step_authorize _ .init .hedge (congrArg Prod.snd hprep) List.not_mem_nil).trans ?_⟩
  simp only [authorizeCommit, insertTrace, VaultSetup.sealing, hrow]
  rfl

/-- The hedge of a client. -/
theorem signal_source_recorded_hedge : ∃ row, Run.Happens
    (Interference.states (gatewayStep (.sealing []))) (SourceRecorded row) (.serving .client)
    [.request (.bearing (.authorize .hedge))] := by
  obtain ⟨row, horder⟩ := step_hedge
  have hsys : (GatewayState.serving .client).admin.sys = .init := rfl
  have hexec := exec_bearing (.sealing []) .client (.authorize .hedge) (Or.inl rfl)
  have hstep : Interference.states (gatewayStep (.sealing [])) (.serving .client)
      (.request (.bearing (.authorize .hedge)))
        = some ⟨{ (GatewayState.serving .client).admin with sys := ⟨[row], [], []⟩ }, .new 0,
            .once⟩ := by
    rw [Interference.states, gatewayStep, hexec, Route.handle, hsys, horder]
    rfl
  exact ⟨row, signal_source_recorded ((Run.run_cons hstep []).trans (Run.run_nil _))
    (List.mem_singleton_self _) List.not_mem_nil⟩

end IrlEngine
