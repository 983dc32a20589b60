import IrlEngine.Gateway

/-!
# Owners and authors

Runs of the gateway, as seen by whoever has to answer for them.

* **What only owners may change, an owner has changed** — `owner_data_kept_or`;
* **Every audit row has an author** — `audit_rows_attributed`;
* **Without an owner nothing ever becomes of the admin routes** — `ownerless_stays_frozen`.
-/

namespace IrlEngine

/-! ## What only owners may change -/

/-- Between two states nobody has revoked or issued a token, switched the shadow mode or erased an
agent: only starts have left their marks. -/
structure OwnerKept (s t : AdminState) : Prop where
  /-- The table in all columns but `last_used_at`, and tokens of the environment after it. -/
  tokens : ∃ new, t.tokens = s.tokens ++ new ∧ ∀ row ∈ new, ∃ raw,
    row = (TokenRow.env raw).toApiToken
  /-- The first start inserts the row. -/
  shadowRow : s.shadowRow = none ∨ t.shadowRow = s.shadowRow
  /-- Every row keeps its `gdpr_erased_at` and `gdpr_request_id`, and new rows have neither. -/
  erasures : ∃ new, t.sys.traces.map TraceRow.erasure = s.sys.traces.map TraceRow.erasure ++ new ∧
    ∀ erasure ∈ new, erasure.2 = (none, none)

namespace OwnerKept

variable {a b c : AdminState}

theorem of_eq (htokens : b.tokens = a.tokens) (hshadow : b.shadowRow = a.shadowRow)
    (htraces : b.sys.traces = a.sys.traces) : OwnerKept a b where
  tokens := ⟨[], by rw [htokens, List.append_nil], by simp⟩
  shadowRow := Or.inr hshadow
  erasures := ⟨[], by rw [htraces, List.append_nil], by simp⟩

theorem refl (a : AdminState) : OwnerKept a a := of_eq rfl rfl rfl

theorem trans (hab : OwnerKept a b) (hbc : OwnerKept b c) : OwnerKept a c where
  tokens := by
    obtain ⟨new, hb, hnew⟩ := hab.tokens
    obtain ⟨new', hc, hnew'⟩ := hbc.tokens
    refine ⟨new ++ new', by rw [hc, hb, List.append_assoc], fun row hrow => ?_⟩
    exact (List.mem_append.1 hrow).elim (hnew row) (hnew' row)
  shadowRow := by
    rcases hab.shadowRow with hnone | hb
    · exact Or.inl hnone
    · exact hbc.shadowRow.imp (fun hnone => hb ▸ hnone) fun hc => hc.trans hb
  erasures := by
    obtain ⟨new, hb, hnew⟩ := hab.erasures
    obtain ⟨new', hc, hnew'⟩ := hbc.erasures
    refine ⟨new ++ new', by rw [hc, hb, List.append_assoc], fun erasure herasure => ?_⟩
    exact (List.mem_append.1 herasure).elim (hnew erasure) (hnew' erasure)

end OwnerKept

/-- The startup sync appends clients. -/
theorem syncTokens_eq (tokens : List ApiToken) (env : List String) :
    ∃ new, syncTokens tokens env = tokens ++ new ∧
      ∀ row ∈ new, ∃ raw, row = (TokenRow.env raw).toApiToken := by
  unfold syncTokens
  induction env generalizing tokens with
  | nil => exact ⟨[], (List.append_nil tokens).symm, by simp⟩
  | cons raw env ih =>
    obtain ⟨new, hsync, hnew⟩ := ih (Table.insertMissing ApiToken.tokenHash
      [(TokenRow.env raw).toApiToken] tokens)
    refine ⟨_, by rw [List.foldl_cons, hsync, Table.insertMissing, List.append_assoc], ?_⟩
    intro row hrow
    rcases List.mem_append.1 hrow with hrow | hrow
    · exact ⟨raw, List.mem_singleton.1 (List.mem_filter.1 hrow).1⟩
    · exact hnew row hrow

theorem ownerKept_restart (s : AdminState) (env : List String) (envDefault : Bool) (now : ℤ) :
    OwnerKept s (s.restart env envDefault now) where
  tokens := syncTokens_eq s.tokens env
  shadowRow := by
    show s.shadowRow = none ∨ (ShadowState.new s.shadowRow envDefault now).row = s.shadowRow
    cases s.shadowRow with
    | none => exact Or.inl rfl
    | some row => exact Or.inr rfl
  erasures := ⟨[], (List.append_nil _).symm, by simp⟩

section Kept

variable {V : VaultSetup} {s t : GatewayState} {e : GatewayEvent}

/-- The end of a handler writes to the audit log only. -/
theorem exists_respond (s : AdminState) (op : Operator) (action : AuditAction)
    (targetId : Option String) (details response : Json) :
    ∃ log, (respond s op action targetId details response).1 = { s with auditLog := log } := by
  unfold respond insertAuditLog
  cases op.audit with
  | some reason => exact ⟨s.auditLog, rfl⟩
  | none => exact ⟨_, rfl⟩

/-- The handlers that are open to clients write the registry and the audit log. -/
theorem exists_clientCall {call : AdminCall} (h : call.ownerOnly = false) (V : VaultSetup)
    (s : AdminState) (op : Operator) :
    ∃ agents log, (call.handle V s op).1 = { s with agents := agents, auditLog := log } := by
  have hrespond : ∀ agents action targetId details response, ∃ agents' log,
      (respond { s with agents := agents } op action targetId details response).1
        = { s with agents := agents', auditLog := log } := by
    intro agents action targetId details response
    obtain ⟨log, hlog⟩ := exists_respond { s with agents := agents } op action targetId
      details response
    exact ⟨agents, log, hlog⟩
  cases call with
  | registerAgent req agentId now insert =>
    show ∃ agents log, (registerAgent s op req agentId now insert).1 = _
    unfold registerAgent
    split
    · cases insert with
      | some reason => exact ⟨s.agents, s.auditLog, rfl⟩
      | none =>
        dsimp only
        split
        · exact ⟨s.agents, s.auditLog, rfl⟩
        · exact hrespond _ _ _ _ _
    · exact ⟨s.agents, s.auditLog, rfl⟩
  | updateAgentStatus agentId status now update =>
    show ∃ agents log, (updateAgentStatus s op agentId status now update).1 = _
    unfold updateAgentStatus
    split
    · cases update with
      | some reason => exact ⟨s.agents, s.auditLog, rfl⟩
      | none =>
        dsimp only
        split
        · exact ⟨s.agents, s.auditLog, rfl⟩
        · exact hrespond _ _ _ _ _
    · exact ⟨s.agents, s.auditLog, rfl⟩
  | tokenIssue clientName rawBytes insert refresh => cases h
  | tokenRevoke tokenId pick select update refresh => cases h
  | shadowModeSet enabled reason now update => cases h
  | gdprEraseHandler agentId requestId keyProvider env => cases h

/-- An event in the life of a trace erases nothing. -/
theorem ownerKept_of_trace {e : Event} {sys : System} (he : e.isErasure = false)
    (h : step V.D s.admin.sys e = some sys) : OwnerKept s.admin { s.admin with sys := sys } where
  tokens := ⟨[], (List.append_nil _).symm, by simp⟩
  shadowRow := Or.inr rfl
  erasures := erasures_of_step he h

theorem isErasure_of_isWork {e : Event} (h : e.isWork = true) : e.isErasure = false := by
  cases e <;> first | rfl | cases h

theorem isErasure_of_route {route : Route} {e : Event} (h : route.event = some e) :
    e.isErasure = false := by
  cases route with
  | authorize call =>
    rw [← Option.some.inj h]
    rfl
  | bindExecution req =>
    rw [← Option.some.inj h]
    rfl
  | admin call audit => cases h
  | read ownerOnly query => cases h
  | malformed ownerOnly reason => cases h

/-- An owner calls a handler that only owners may call. -/
def OwnerCalls (s : GatewayState) (e : GatewayEvent) : Prop :=
  ∃ r token call, e = .request r ∧ Calls s r token call ∧ call.ownerOnly = true ∧
    OwnerToken s.admin.tokens token

theorem ownerKept_of_entered {admin : AdminState} (h : Entered V s e admin) :
    OwnerKept s.admin admin ∨ OwnerCalls s e := by
  cases h with
  | idle e => exact Or.inl (.refl _)
  | called r token call audit hcalls =>
    cases hcall : call.ownerOnly with
    | true => exact Or.inr ⟨r, token, call, rfl, hcalls, hcall, hcalls.owner hcall⟩
    | false =>
      obtain ⟨agents, log, hhandle⟩ := exists_clientCall hcall V s.admin
        ⟨tokenIdOf (tokenHash token), r.peer, audit⟩
      rw [hhandle]
      exact Or.inl (.of_eq rfl rfl rfl)
  | traded r token hadmitted e he sys hsys =>
    exact Or.inl (ownerKept_of_trace (isErasure_of_route he) hsys)
  | worked e he sys hsys => exact Or.inl (ownerKept_of_trace (isErasure_of_isWork he) hsys)
  | refreshed e cache shadowMode => exact Or.inl (.of_eq rfl rfl rfl)
  | restarted env envDefault now maxPerSecond => exact Or.inl (ownerKept_restart ..)

/-- **What only owners may change, an owner has changed**: in every run that issues or revokes a
token, switches the shadow mode or erases an agent, an active owner's token calls such a handler.
The column `last_used_at` is not among these data: the requests of every token bump its own. -/
theorem owner_data_kept_or {es : List GatewayEvent} (hrun : GatewayRun V s es t)
    (hchanged : ¬ OwnerKept s.admin t.admin) :
    Run.Happens (Interference.states (gatewayStep V)) OwnerCalls s es := by
  have hstart : ¬ ¬ OwnerKept s.admin s.admin := fun h => h (.refl _)
  refine Run.happens_mono ?_
    (Run.happens_of_change (Q := fun u => ¬ OwnerKept s.admin u.admin) hrun hstart hchanged)
  rintro u e ⟨hkept, v, hstep, hlost⟩
  refine (ownerKept_of_entered (entered_of_step hstep)).resolve_left fun h => hlost ?_
  exact (not_not.1 hkept).trans h

/-- The switch of the shadow mode is such a change. -/
theorem owner_data_kept_or_switched : Run.Happens (Interference.states (gatewayStep (.sealing [])))
    OwnerCalls (.serving .owner) [.request (.bearing .shadowOn)] := by
  refine owner_data_kept_or (run_switched _) fun hkept => ?_
  rcases hkept.shadowRow with hnone | hsame
  · cases hnone
  · have hvalue := congrArg (fun row => row.bind ShadowRow.valueBool) hsame
    exact absurd hvalue (by decide)

/-! ## Authors -/

/-- The handler of the request appends the row, under the id of its token and with the address of
the connection. -/
def Authors (V : VaultSetup) (row : AuditRow) (s : GatewayState) (e : GatewayEvent) : Prop :=
  ∃ r token call audit, e = .request r ∧ Calls s r token call ∧
    (call.handle V s.admin ⟨tokenIdOf (tokenHash token), r.peer, audit⟩).1.auditLog
      = s.admin.auditLog ++ [row] ∧
    row.Matches ⟨tokenIdOf (tokenHash token), r.peer, audit⟩ call

theorem authors_of_entered {admin : AdminState} (h : Entered V s e admin) :
    admin.auditLog = s.admin.auditLog ∨
      ∃ row, admin.auditLog = s.admin.auditLog ++ [row] ∧ Authors V row s e := by
  cases h with
  | idle e => exact Or.inl rfl
  | called r token call audit hcalls =>
    have hspec := callSpec_handle V ⟨tokenIdOf (tokenHash token), r.peer, audit⟩ hcalls.fresh
    by_cases hdone :
        call.Completes V s.admin ⟨tokenIdOf (tokenHash token), r.peer, audit⟩ ∧ audit = none
    · obtain ⟨new, hlog, hmatches⟩ := hspec.audited hdone.1 hdone.2
      exact Or.inr ⟨new, hlog, r, token, call, audit, rfl, hcalls, hlog, hmatches⟩
    · exact Or.inl (hspec.silent hdone)
  | traded r token hadmitted e he sys hsys => exact Or.inl rfl
  | worked e he sys hsys => exact Or.inl rfl
  | refreshed e cache shadowMode => exact Or.inl rfl
  | restarted env envDefault now maxPerSecond => exact Or.inl rfl

/-- **Every audit row has an author**: the log only grows, and each row that a run adds, if it is
the same as another or not, was appended by a request of its own, whose token was valid at that
time, and an owner's where only owners may act; and the row names that token and the address of the
connection. -/
theorem audit_rows_attributed {es : List GatewayEvent} (hrun : GatewayRun V s es t) :
    s.admin.auditLog <+: t.admin.auditLog ∧
      ∀ pre row post, t.admin.auditLog = s.admin.auditLog ++ pre ++ row :: post →
        Run.Happens (Interference.states (gatewayStep V))
          (fun u e => u.admin.auditLog = s.admin.auditLog ++ pre ∧ Authors V row u e) s es := by
  have hstep : ∀ u e v, Interference.states (gatewayStep V) u e = some v →
      v.admin.auditLog = u.admin.auditLog ∨
        ∃ row, v.admin.auditLog = u.admin.auditLog ++ [row] ∧ Authors V row u e :=
    fun u e v h => authors_of_entered (entered_of_step h)
  have hone : ∀ u e v, Interference.states (gatewayStep V) u e = some v →
      v.admin.auditLog = u.admin.auditLog ∨ ∃ row, v.admin.auditLog = u.admin.auditLog ++ [row] :=
    fun u e v h => (hstep u e v h).imp_right fun ⟨row, hnew, _⟩ => ⟨row, hnew⟩
  refine ⟨Run.log_prefix (l := fun u => u.admin.auditLog) hone hrun, fun pre row post hlog => ?_⟩
  refine Run.happens_mono ?_ (Run.happens_of_log (l := fun u => u.admin.auditLog) hone hrun hlog)
  rintro u e ⟨hpre, v, h, hnew⟩
  rcases hstep u e v h with hsame | ⟨row', hnew', hauthors⟩
  · exact absurd (hsame.symm.trans hnew) (by simp)
  · obtain rfl : row' = row := by simpa using hnew'.symm.trans hnew
    exact ⟨hpre, hauthors⟩

/-- The row of the switch. -/
theorem audit_rows_attributed_switched : ∃ row, Run.Happens
    (Interference.states (gatewayStep (.sealing [])))
    (fun u e => u.admin.auditLog = [] ∧ Authors (.sealing []) row u e) (.serving .owner)
    [.request (.bearing .shadowOn)] :=
  ⟨_, (audit_rows_attributed (run_switched _)).2 [] _ [] rfl⟩

/-! ## Deployments without an owner -/

/-- Nobody in the table is an owner. -/
def Ownerless (tokens : List ApiToken) : Prop := ∀ row ∈ tokens, row.role ≠ .owner

theorem Ownerless.not_ownerToken {tokens : List ApiToken} (h : Ownerless tokens) (token : String) :
    ¬ OwnerToken tokens token := fun ⟨row, hrow, _, _, howner⟩ => h row hrow howner

theorem Ownerless.of_kept {a b : AdminState} (h : Ownerless a.tokens) (hkept : OwnerKept a b) :
    Ownerless b.tokens := by
  obtain ⟨new, htokens, hnew⟩ := hkept.tokens
  intro row hrow howner
  rw [htokens] at hrow
  rcases List.mem_append.1 hrow with hold | hadded
  · exact h row hold howner
  · obtain ⟨raw, rfl⟩ := hnew row hadded
    cases howner

/-- The row records something that is open to clients. -/
def AuditRow.ByClient (row : AuditRow) : Prop :=
  ∃ action ∈ [AuditAction.agentRegister, .agentSuspend, .agentActivate, .agentStatusChange],
    row.action = action.asStr

theorem statusAction_mem (status : String) : statusAction status ∈
    [AuditAction.agentRegister, .agentSuspend, .agentActivate, .agentStatusChange] := by
  unfold statusAction
  split_ifs <;> decide

theorem byClient_of_authors (h : Ownerless s.admin.tokens) {row : AuditRow}
    (hrow : Authors V row s e) : row.ByClient := by
  obtain ⟨r, token, call, audit, -, hcalls, -, hmatches⟩ := hrow
  have hclient : call.ownerOnly = false := by
    by_contra howner
    exact h.not_ownerToken token (hcalls.owner (by simpa using howner))
  refine ⟨call.action, ?_, hmatches.action⟩
  cases call with
  | registerAgent req agentId now insert => exact List.mem_cons_self
  | updateAgentStatus agentId status now update => exact statusAction_mem status
  | tokenIssue clientName rawBytes insert refresh => cases hclient
  | tokenRevoke tokenId pick select update refresh => cases hclient
  | shadowModeSet enabled reason now update => cases hclient
  | gdprEraseHandler agentId requestId keyProvider env => cases hclient

/-- **Without an owner nothing ever becomes of the admin routes.**  However long a deployment runs
whose table has no owner (as after all migrations of an empty database), no token is issued or
revoked, the shadow mode stays as it is in the table, nobody is erased, and the audit log records
agents only. -/
theorem ownerless_stays_frozen {es : List GatewayEvent} (hrun : GatewayRun V s es t)
    (hownerless : Ownerless s.admin.tokens) :
    OwnerKept s.admin t.admin ∧
      ∃ new, t.admin.auditLog = s.admin.auditLog ++ new ∧ ∀ row ∈ new, row.ByClient := by
  refine Run.run_invariant (I := fun u => OwnerKept s.admin u.admin ∧
    ∃ new, u.admin.auditLog = s.admin.auditLog ++ new ∧ ∀ row ∈ new, row.ByClient) ?_ hrun
    ⟨.refl _, [], by simp, by simp⟩
  rintro u e v ⟨hkept, new, hlog, hnew⟩ hstep
  have hu : Ownerless u.admin.tokens := hownerless.of_kept hkept
  have hentered := entered_of_step hstep
  have hnone : ¬ OwnerCalls u e :=
    fun ⟨_, token, _, _, _, _, howner⟩ => hu.not_ownerToken token howner
  refine ⟨hkept.trans ((ownerKept_of_entered hentered).resolve_right hnone), ?_⟩
  rcases authors_of_entered hentered with hsame | ⟨row, happended, hauthors⟩
  · exact ⟨new, hsame.trans hlog, hnew⟩
  · refine ⟨new ++ [row], by rw [happended, hlog, List.append_assoc], fun row' hrow' => ?_⟩
    rcases List.mem_append.1 hrow' with hold | hlast
    · exact hnew row' hold
    · rw [List.mem_singleton.1 hlast]
      exact byClient_of_authors hu hauthors

/-- A client registers an agent. -/
def Route.register : Route :=
  .admin (.registerAgent ⟨"agent", sampleModelHash, none, none, none, none, none, none⟩ (.fill 1) 0
    none) none

/-- The registration succeeds, and leaves the tokens alone. -/
theorem gatewayStep_register : ∃ u answer row,
    gatewayStep (.sealing []) (.serving .client) (.request (.bearing .register))
      = some (u, answer) ∧
    u.admin.tokens = (GatewayState.serving .client).admin.tokens ∧
    u.admin.tokenCache = [tokenHash "t"] ∧ u.limiter = .new 0 ∧ u.admin.auditLog = [row] := by
  have hvalid : RegisterAgentRequest.validHash
      ⟨"agent", sampleModelHash, none, none, none, none, none, none⟩ = true := by
    have hlength : (Text.utf8 sampleModelHash).length = 64 := by decide +kernel
    simp [RegisterAgentRequest.validHash, hexDecodeText_sample, hlength]
  rw [gatewayStep, exec_bearing (.sealing []) .client .register (Or.inl rfl), Route.register,
    Route.handle]
  split_ifs with hfresh
  · dsimp only [AdminCall.handle]
    rw [registerAgent, if_pos hvalid]
    exact ⟨_, _, _, rfl, rfl, rfl, rfl, rfl⟩
  · exact absurd rfl hfresh

/-- A client registers an agent, which is recorded, and may not switch the shadow mode. -/
theorem ownerless_stays_frozen_refused : ∃ t answer row,
    Interference.play (gatewayStep (.sealing [])) (.serving .client)
      [.request (.bearing .register), .request (.bearing .shadowOn)]
        = some (t, [answer, some (.error (.app .forbidden))]) ∧
      OwnerKept (GatewayState.serving .client).admin t.admin ∧ t.admin.auditLog = [row] ∧
      row.ByClient := by
  obtain ⟨u, answer, row, hstep, htokens, hcache, hlimiter, hlog⟩ := gatewayStep_register
  have hrole : tokenRole u.admin.tokens "t" = some .client := by
    rw [htokens]
    simp [tokenRole, GatewayState.serving]
  have howner : Route.shadowOn.ownerOnly = true := rfl
  have hrefused := exec_bearing_refused (.sealing []) (hcache ▸ List.mem_singleton_self _) hlimiter
    hrole howner
  have hplay : Interference.play (gatewayStep (.sealing [])) (.serving .client)
      [.request (.bearing .register), .request (.bearing .shadowOn)]
        = some (⟨u.admin, .new 0, u.use.bumpLastUsed 0 "t"⟩,
          [answer, some (.error (.app .forbidden))]) := by
    refine Interference.play_cons_eq_some.2 ⟨u, _, _, hstep, ?_, rfl⟩
    refine Interference.play_cons_eq_some.2 ⟨_, _, _, ?_, rfl, rfl⟩
    rw [gatewayStep, hrefused]
    rfl
  have hownerless : Ownerless (GatewayState.serving .client).admin.tokens := by
    intro token htoken
    rw [List.mem_singleton.1 htoken]
    decide
  obtain ⟨hkept, new, hadded, hclient⟩ :=
    ownerless_stays_frozen (Interference.run_of_play hplay) hownerless
  have hnew : new = [row] := hadded.symm.trans hlog
  exact ⟨_, answer, row, hplay, hkept, hlog, hclient row (hnew ▸ List.mem_singleton_self _)⟩

end Kept

/-! ## Traces -/

/-- A reading of a row that no update of the table changes. -/
structure Lasting {γ : Type} (f : TraceRow → γ) : Prop where
  bound : ∀ (r : TraceRow) result req, f (r.bindTo result req) = f r
  expired : ∀ r : TraceRow, f { r with verificationStatus := .expired } = f r
  recoded : ∀ (r : TraceRow) stored, f (r.recode stored) = f r
  erased : ∀ (r : TraceRow) stored erasedAt requestId,
    f { r.recode stored with gdprErasedAt := some erasedAt, gdprRequestId := some requestId } = f r

theorem lasting_traceId : Lasting TraceRow.traceId :=
  ⟨fun _ _ _ => rfl, fun _ => rfl, fun _ _ => rfl, fun _ _ _ _ => rfl⟩

section Lasting

variable {V : VaultSetup} {γ : Type} {f : TraceRow → γ}

/-- An erasure leaves lasting columns alone. -/
theorem Lasting.map_eraseRows (hf : Lasting f) {erasedAt : DateTime} {requestId : Uuid}
    {row : ℕ → RowEnv} (qs : List ErasureRow) (n : ℕ) (t : List TraceRow) :
    (eraseRows V erasedAt requestId row qs n t).1.map f = t.map f := by
  induction qs generalizing n t with
  | nil => rfl
  | cons q qs ih =>
    simp only [eraseRows]
    split
    · rfl
    · split
      · rfl
      · rw [ih]
        refine Table.map_updateWhere ?_ t
        exact fun r => hf.erased r _ _ _

theorem Lasting.map_eraseLoop (hf : Lasting f) {erasedAt : DateTime} {requestId agentId : Uuid}
    {row : ℕ → RowEnv} {unified : Bool} (pages : List (Except String Scan)) (offset n : ℕ)
    (t : List TraceRow) :
    (eraseLoop V erasedAt requestId row unified agentId pages offset n t).1.map f = t.map f := by
  induction pages generalizing offset n t with
  | nil => rfl
  | cons answer pages ih =>
    cases answer with
    | error reason => rfl
    | ok scan =>
      rcases eraseLoop_page V erasedAt requestId row unified agentId scan pages offset n t rfl with
        ⟨-, e, heq⟩ | ⟨-, -, heq⟩ | ⟨-, -, heq⟩
      · rw [heq, hf.map_eraseRows]
      · rw [heq, hf.map_eraseRows]
      · rw [heq, ih, hf.map_eraseRows]

/-- So does every admin handler. -/
theorem Lasting.map_handle (hf : Lasting f) {s : AdminState} {op : Operator} {call : AdminCall}
    (hfresh : call.isFresh s = true) :
    (call.handle V s op).1.sys.traces.map f = s.sys.traces.map f := by
  have hspec := callSpec_handle V op hfresh
  cases call with
  | gdprEraseHandler agentId requestId keyProvider env =>
    cases keyProvider with
    | false => rfl
    | true =>
      rw [AdminCall.handle, traces_gdprEraseHandler, gdprEraseAgent]
      split
      · rfl
      · exact hf.map_eraseLoop _ _ _ _
  | registerAgent req agentId now insert => rw [hspec.traces rfl]
  | updateAgentStatus agentId status now update => rw [hspec.traces rfl]
  | tokenIssue clientName rawBytes insert refresh => rw [hspec.traces rfl]
  | tokenRevoke tokenId pick select update refresh => rw [hspec.traces rfl]
  | shadowModeSet enabled reason now update => rw [hspec.traces rfl]

/-- And every event that inserts nothing. -/
theorem Lasting.map_step (hf : Lasting f) {D : Deployment} {sys sys' : System} {e : Event}
    (he : e.isInsert = false) (h : step D sys e = some sys') :
    sys'.traces.map f = sys.traces.map f := by
  cases e with
  | bindRead req =>
    rw [step] at h
    split at h <;> rw [← Option.some.inj h]
  | bindUpdate k now =>
    rw [step] at h
    split at h
    · rw [← Option.some.inj h]
      exact Table.map_updateWhere (fun r => hf.bound r _ _) _
    · cases h
  | bindLedger k =>
    rw [step] at h
    split at h
    · rw [← Option.some.inj h]
    · cases h
  | expirePending nowMicros =>
    rw [← Option.some.inj h]
    exact Table.map_updateWhere hf.expired _
  | encryptOneRow traceId stored =>
    rw [← Option.some.inj h]
    exact Table.map_updateWhere (fun r => hf.recoded r _) _
  | gdprUpdate traceId txnTime stored erasedAt requestId =>
    rw [← Option.some.inj h]
    exact Table.map_updateWhere (fun r => hf.erased r _ _ _) _
  | insertTrace a => cases he
  | insertTraceAtomic a check => cases he
  | authorize call => cases he

end Lasting

section Traces

variable {V : VaultSetup} {s t : GatewayState} {e : GatewayEvent}

theorem isInsert_of_isWork {e : Event} (h : e.isWork = true) : e.isInsert = false := by
  cases e <;> first | rfl | cases h

/-- The request authorizes with a valid token, and leaves the trace with this id. -/
def Opens (V : VaultSetup) (traceId : Uuid) (s : GatewayState) (e : GatewayEvent) : Prop :=
  ∃ r token call sys, e = .request r ∧ r.route = .authorize call ∧ Admitted s r token ∧
    step V.D s.admin.sys (.authorize call) = some sys ∧ traceId ∈ sys.traces.map TraceRow.traceId

theorem opens_of_entered {admin : AdminState} (h : Entered V s e admin) {traceId : Uuid}
    (hid : traceId ∈ admin.sys.traces.map TraceRow.traceId) :
    traceId ∈ s.admin.sys.traces.map TraceRow.traceId ∨ Opens V traceId s e := by
  cases h with
  | idle e => exact Or.inl hid
  | called r token call audit hcalls =>
    rw [lasting_traceId.map_handle hcalls.fresh] at hid
    exact Or.inl hid
  | traded r token hadmitted e he sys hsys =>
    cases hroute : r.route with
    | authorize call =>
      obtain rfl : .authorize call = e := by
        rw [hroute] at he
        exact Option.some.inj he
      exact Or.inr ⟨r, token, call, sys, rfl, hroute, hadmitted, hsys, hid⟩
    | bindExecution req =>
      obtain rfl : .bindRead req = e := by
        rw [hroute] at he
        exact Option.some.inj he
      exact Or.inl (lasting_traceId.map_step rfl hsys ▸ hid)
    | admin call audit => simp [hroute, Route.event] at he
    | read ownerOnly query => simp [hroute, Route.event] at he
    | malformed ownerOnly reason => simp [hroute, Route.event] at he
  | worked e he sys hsys =>
    exact Or.inl (lasting_traceId.map_step (isInsert_of_isWork he) hsys ▸ hid)
  | refreshed e cache shadowMode => exact Or.inl hid
  | restarted env envDefault now maxPerSecond => exact Or.inl hid

/-- **Every trace has been authorized**: a trace that a run adds was left by an authorize request
whose token was valid at that time. -/
theorem traces_attributed {es : List GatewayEvent} (hrun : GatewayRun V s es t) {traceId : Uuid}
    (hid : traceId ∈ t.admin.sys.traces.map TraceRow.traceId)
    (hnew : traceId ∉ s.admin.sys.traces.map TraceRow.traceId) :
    Run.Happens (Interference.states (gatewayStep V)) (Opens V traceId) s es := by
  refine Run.happens_mono ?_ (Run.happens_of_change
    (Q := fun u => traceId ∈ u.admin.sys.traces.map TraceRow.traceId) hrun hnew hid)
  rintro u e ⟨hmissing, v, hstep, hwritten⟩
  exact (opens_of_entered (entered_of_step hstep) hwritten).resolve_left hmissing

/-- The first order of a client. -/
theorem traces_attributed_first : Run.Happens (Interference.states (gatewayStep (.sealing [])))
    (Opens (.sealing []) (.fill 2)) (.serving .client)
    [.request (.bearing (.authorize (.sample "buy")))] := by
  have hexec := exec_bearing (.sealing []) .client (.authorize (.sample "buy")) (Or.inl rfl)
  have horder : step (VaultSetup.sealing []).D (GatewayState.serving .client).admin.sys
      (.authorize (.sample "buy")) = some ⟨[buyRow .sealing (.fill 2) F64.one], [], []⟩ :=
    step_first (buysWithin_sample F64.toRat_one_le_two)
  have hstep : Interference.states (gatewayStep (.sealing [])) (.serving .client)
      (.request (.bearing (.authorize (.sample "buy"))))
        = some ⟨{ (GatewayState.serving .client).admin with
            sys := ⟨[buyRow .sealing (.fill 2) F64.one], [], []⟩ }, .new 0, .once⟩ := by
    rw [Interference.states, gatewayStep, hexec, Route.handle, horder]
    rfl
  exact traces_attributed ((Run.run_cons hstep []).trans (Run.run_nil _))
    (List.mem_singleton_self _) List.not_mem_nil

end Traces

end IrlEngine
