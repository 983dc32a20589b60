import IrlEngine.BindRecord
import IrlEngine.Clients
import IrlEngine.Sdk

/-!
# From the arguments to the row and back

What `authorize` and `bind` of the three clients return or raise, for every state of the engine that
they find.

* `call_outcome` — a call returns the ids of a trace that it has just left under the seal of its own
  arguments, or raises the error of the engine;
* `bind_outcome` — a bind returns the proof and the verdict that now stand in the row, or raises an
  error after which nothing has changed, or only the row of a fill that is not booked.
-/

namespace IrlEngine

/-! ## Calls -/

/-- `AuthorizeResult` and `AuthorizeResponse`; in TypeScript a text may be `undefined`. -/
structure AuthorizeResult where
  traceId : Option Json
  reasoningHash : Option Json
  authorized : Json
  shadowBlocked : Json

/-- What `authorize` takes from the document. -/
def Client.authorizeResult (client : Client) (data : Json) : Option AuthorizeResult :=
  match client with
  | .python => do
    let traceId ← data.get? "trace_id"
    let reasoningHash ← data.get? "reasoning_hash"
    return ⟨traceId, reasoningHash, (data.get? "authorized").getD (.bool true),
      (data.get? "shadow_blocked").getD (.bool false)⟩
  | .typescript => do
    let data ← TypeScript.object data
    return ⟨data.get? "trace_id", data.get? "reasoning_hash",
      TypeScript.property data "authorized" (.bool true),
      TypeScript.property data "shadow_blocked" (.bool false)⟩
  | .go => do
    let traceId ← Go.decode Go.intoText "trace_id" "" data
    let reasoningHash ← Go.decode Go.intoText "reasoning_hash" "" data
    let authorized ← Go.decode Go.intoBool "authorized" false data
    let shadowBlocked ← Go.decode Go.intoBool "shadow_blocked" false data
    return ⟨some (.str traceId), some (.str reasoningHash), .bool authorized, .bool shadowBlocked⟩

/-- The result of a response of the engine. -/
def AuthorizeResponse.result (r : AuthorizeResponse) : AuthorizeResult :=
  ⟨some (.str r.traceId.toText), some (.str r.reasoningHash), .bool true, .bool r.shadowBlocked⟩

/-- All three clients take the same from a response of `authorize`. -/
theorem authorizeResult_document (client : Client) (r : AuthorizeResponse) :
    client.authorizeResult (Json.normalize (.obj r.document)) = some r.result := by
  have hnamed : Go.Named r.document := by
    refine ⟨by simp [AuthorizeResponse.document], ?_⟩
    show ∀ l ∈ ["trace_id", "reasoning_hash", "authorized", "shadow_blocked"], Go.Plain l
    decide +kernel
  have hget : ∀ k, (Json.normalize (.obj r.document)).get? k
      = ((Json.obj r.document).get? k).map Json.normalize := Json.get?_normalize_obj hnamed.nodup
  obtain ⟨ns, hns, -⟩ := Go.members_normalize r.document
  cases client with
  | python =>
    simp only [Client.authorizeResult, hget]
    rfl
  | typescript =>
    have hobject : TypeScript.object (Json.normalize (.obj r.document))
        = some (Json.normalize (.obj r.document)) := by
      rw [hns]
      rfl
    simp only [Client.authorizeResult, hobject, Option.bind_eq_bind, Option.bind_some,
      TypeScript.property, hget]
    rfl
  | go =>
    have hplain : ∀ k ∈ ["trace_id", "reasoning_hash", "authorized", "shadow_blocked"],
        Go.Plain k := by decide +kernel
    simp only [List.forall_mem_cons] at hplain
    obtain ⟨hid, hhash, hauthorized, hshadow, -⟩ := hplain
    simp only [Client.authorizeResult, hnamed.decode_eq hid, hnamed.decode_eq hhash,
      hnamed.decode_eq hauthorized, hnamed.decode_eq hshadow]
    rfl

/-- `/irl/authorize` behind its middleware, up to the response; `reason` is what serde says of a
document that is not a request. -/
def serveAuthorize (K : Crates) (phrase : ℕ → String) (reason : Json → String) (cfg : Config)
    (agents : List AgentProfile) (traces : List TraceRow) (hs : HeartbeatState) (env : AuthorizeEnv)
    (doc : Json) : HeartbeatState × List TraceRow × HttpResponse :=
  match AuthorizeRequest.ofJson doc with
  | none => (hs, traces, unprocessable phrase (reason doc))
  | some req =>
    match authorize K cfg agents traces hs env req with
    | (hs', traces', .error e) => (hs', traces', (ApiError.app e).intoResponse K phrase)
    | (hs', traces', .ok r) => (hs', traces', okResponse K phrase r.document)

/-- What a client makes of a refused document: its text, the phrase of its status, or nothing. -/
def Client.refusal (client : Client) (phrase : ℕ → String) (reason : String) : ClientError :=
  match client with
  | .python => .irl (.str "UNKNOWN") (.str (unprocessable phrase reason).text) 422
  | .typescript => .irl (.str "UNKNOWN") (.str (phrase 422)) 422
  | .go => .irl (.str "") (.str "") 422

theorem handle_unprocessable (phrase : ℕ → String) (client : Client) (reason : String) :
    client.handle (unprocessable phrase reason) = .error (client.refusal phrase reason) := by
  cases client with
  | python =>
    have htext : (unprocessable phrase reason).text ≠ "" := by
      intro h
      have hlength := congrArg String.length h
      rw [unprocessable, String.length_append] at hlength
      exact absurd hlength (by simp)
    show Except.error (ClientError.irl _ (.str (if _ then _ else _)) _) = _
    rw [if_neg htext]
    rfl
  | typescript => rfl
  | go => rfl

/-- The client that makes the call. -/
def ClientCall.client : ClientCall → Client
  | python .. => .python
  | typescript .. => .typescript
  | go _ => .go

section Call

variable (K : Crates) (cfg : Config) (agents : List AgentProfile) (traces : List TraceRow)
  (hs : HeartbeatState) (env : AuthorizeEnv) (req : AuthorizeRequest)

/-- What is true of the row of a call that is answered with success. -/
structure Answered (r : AuthorizeResponse) (row : TraceRow) : Prop where
  traceId : row.traceId = r.traceId
  reasoningHash : row.reasoningHash = r.reasoningHash
  shadowBlocked : r.shadowBlocked = decide (row.policyResult = .shadowHalted)
  allowed : row.policyResult ≠ .halted
  agentId : row.agentId = some req.agentId
  pending : row.verificationStatus = .pending
  /-- The hash seals the request with the heartbeat and the broadcast that it was decided on. -/
  sealed : ∃ hb mta, requestHeartbeat cfg req = .ok hb ∧ env.mta = .ok mta ∧
    row.reasoningHash = (req.snapshot env mta hb).seal K

variable {K cfg agents traces hs env req}

/-- A success leaves one row. -/
theorem authorize_answered {hs' : HeartbeatState} {traces' : List TraceRow} {r : AuthorizeResponse}
    (h : authorize K cfg agents traces hs env req = (hs', traces', .ok r)) :
    ∃ row, traces' = traces ++ [row] ∧ Answered K cfg env req r row := by
  unfold authorize at h
  rcases hprepare : authorizePrepare K cfg agents hs env req with ⟨hs₁, e | w⟩
  · simp [hprepare] at h
  · obtain ⟨hb, driftMs, mta, hhb, -, hmta, hdecide⟩ := authorizePrepare_ok hprepare
    obtain ⟨_, profile, -, -, -, houtcome⟩ := authorizeDecide_ok hdecide
    simp only [hprepare, Prod.mk.injEq] at h
    obtain ⟨-, hcommit⟩ := h
    have htraces := congrArg Prod.fst hcommit
    have hanswer := congrArg Prod.snd hcommit
    cases w with
    | halted a e =>
      rw [authorizeCommit] at hanswer
      split at hanswer <;> exact absurd hanswer (by simp)
    | commit a check sb =>
      cases hinsert : insertTraceAtomic K traces a check with
      | error e =>
        rw [authorizeCommit, hinsert] at hanswer
        exact absurd hanswer (by simp)
      | ok t =>
        rw [authorizeCommit, hinsert] at hanswer htraces
        obtain rfl := Except.ok.inj hanswer
        obtain ⟨row, hrow, happ⟩ := insertTrace_ok (insertTraceAtomic_ok hinsert).2
        obtain ⟨stored, validTime, txnTime, -, -, -, rfl⟩ := traceRow_ok hrow
        refine ⟨_, htraces.symm.trans happ, ?_⟩
        cases houtcome with
        | allowed d hresult hwithin =>
          refine ⟨rfl, rfl, ?_, ?_, rfl, rfl, hb, mta, hhb, hmta, rfl⟩
          · show false = decide (d.result = .shadowHalted)
            rw [hresult]
            rfl
          · show d.result ≠ .halted
            rw [hresult]
            decide
        | shadow d hresult hmode houtside =>
          refine ⟨rfl, rfl, ?_, ?_, rfl, rfl, hb, mta, hhb, hmta, rfl⟩
          · show true = decide (d.result = .shadowHalted)
            rw [hresult]
            rfl
          · show d.result ≠ .halted
            rw [hresult]
            decide

/-- An error leaves at most the row of a halted trade. -/
theorem authorize_refused {hs' : HeartbeatState} {traces' : List TraceRow} {e : AppError}
    (h : authorize K cfg agents traces hs env req = (hs', traces', .error e)) :
    traces' = traces ∨ ∃ row, traces' = traces ++ [row] ∧ row.policyResult = .halted := by
  unfold authorize at h
  rcases hprepare : authorizePrepare K cfg agents hs env req with ⟨hs₁, e₁ | w⟩
  · simp only [hprepare, Prod.mk.injEq] at h
    exact Or.inl h.2.1.symm
  · obtain ⟨hb, driftMs, mta, -, -, -, hdecide⟩ := authorizePrepare_ok hprepare
    obtain ⟨_, profile, -, -, -, houtcome⟩ := authorizeDecide_ok hdecide
    simp only [hprepare, Prod.mk.injEq] at h
    obtain ⟨-, hcommit⟩ := h
    have htraces := congrArg Prod.fst hcommit
    have hanswer := congrArg Prod.snd hcommit
    cases w with
    | halted a e₁ =>
      cases hinsert : insertTrace K traces a with
      | error e₂ =>
        rw [authorizeCommit, hinsert] at htraces
        exact Or.inl htraces.symm
      | ok t =>
        rw [authorizeCommit, hinsert] at htraces
        obtain ⟨row, hrow, happ⟩ := insertTrace_ok hinsert
        obtain ⟨stored, validTime, txnTime, -, -, -, rfl⟩ := traceRow_ok hrow
        refine Or.inr ⟨_, htraces.symm.trans happ, ?_⟩
        cases houtcome with
        | halted d _ hresult hmode houtside => exact hresult
    | commit a check sb =>
      cases hinsert : insertTraceAtomic K traces a check with
      | error e₂ =>
        rw [authorizeCommit, hinsert] at htraces
        exact Or.inl htraces.symm
      | ok t =>
        rw [authorizeCommit, hinsert] at hanswer
        exact absurd hanswer (by simp)

variable (K cfg agents traces hs env)

/-- How a call can end: with the trace table that it leaves, and what its client returns or
raises. -/
inductive CallOutcome (phrase : ℕ → String) (reason : Json → String) (call : ClientCall) :
    List TraceRow → Except ClientError AuthorizeResult → Prop where
  | returned (req : AuthorizeRequest) (r : AuthorizeResponse) (row : TraceRow)
      (hreq : call.draft.meaning = some req) (hrow : Answered K cfg env req r row) :
      CallOutcome phrase reason call (traces ++ [row]) (.ok r.result)
  | refused (req : AuthorizeRequest) (e : AppError) (hreq : call.draft.meaning = some req)
      (he : (authorize K cfg agents traces hs env req).2.2 = .error e) :
      CallOutcome phrase reason call traces (.error (ApiError.app e).raised)
  | halted (req : AuthorizeRequest) (e : AppError) (row : TraceRow)
      (hreq : call.draft.meaning = some req)
      (he : (authorize K cfg agents traces hs env req).2.2 = .error e)
      (hrow : row.policyResult = .halted) :
      CallOutcome phrase reason call (traces ++ [row]) (.error (ApiError.app e).raised)
  | unreadable (hreq : call.draft.meaning = none) :
      CallOutcome phrase reason call traces
        (.error (call.client.refusal phrase (reason call.document)))

/-- **From the arguments to the row and back**: with whichever client, a call returns the ids of the
trace that it has just left, under the seal of the request that its arguments describe, and says
whether the trade was only let through in shadow mode; or it raises the code and the message of the
engine, and has left at most the record of a halted trade. -/
theorem call_outcome (phrase : ℕ → String) (reason : Json → String) (call : ClientCall) :
    CallOutcome K cfg agents traces hs env phrase reason call
      (serveAuthorize K phrase reason cfg agents traces hs env call.document).2.1
      (call.client.receive call.client.authorizeResult
        (serveAuthorize K phrase reason cfg agents traces hs env call.document).2.2) := by
  have hread := call.read
  rw [serveAuthorize, hread]
  cases hreq : call.draft.meaning with
  | none =>
    dsimp only
    rw [Client.receive, handle_unprocessable]
    exact .unreadable hreq
  | some req =>
    dsimp only
    rcases hanswer : authorize K cfg agents traces hs env req with ⟨hs', traces', e | r⟩
    · have he : (authorize K cfg agents traces hs env req).2.2 = .error e := by rw [hanswer]
      dsimp only
      rw [receive_intoResponse]
      rcases authorize_refused hanswer with rfl | ⟨row, rfl, hrow⟩
      · exact .refused req e hreq he
      · exact .halted req e row hreq he hrow
    · obtain ⟨row, rfl, hrow⟩ := authorize_answered hanswer
      dsimp only
      rw [okResponse, receive_normalize K phrase _ _ (by decide), authorizeResult_document]
      exact .returned req r row hreq hrow

end Call

/-! ## Binds -/

/-- `BindResult` and `BindResponse`; what is missing is `None`, `null` or `nil`. -/
structure BindResult where
  traceId : Option Json
  finalProof : Json
  verificationStatus : Option Json
  executionStatus : Json
  divergenceReason : Json

/-- What `bind` takes from the document. -/
def Client.bindResult (client : Client) (data : Json) : Option BindResult :=
  match client with
  | .python => do
    let traceId ← data.get? "trace_id"
    let verificationStatus ← data.get? "verification_status"
    return ⟨traceId, (data.get? "final_proof").getD .null, verificationStatus,
      (data.get? "execution_status").getD .null, (data.get? "divergence_reason").getD .null⟩
  | .typescript => do
    let data ← TypeScript.object data
    return ⟨data.get? "trace_id", TypeScript.property data "final_proof" .null,
      data.get? "verification_status", TypeScript.property data "execution_status" .null,
      TypeScript.property data "divergence_reason" .null⟩
  | .go => do
    let traceId ← Go.decode Go.intoText "trace_id" "" data
    let finalProof ← Go.decode Go.intoTextPtr "final_proof" none data
    let verificationStatus ← Go.decode Go.intoText "verification_status" "" data
    let executionStatus ← Go.decode Go.intoTextPtr "execution_status" none data
    let divergenceReason ← Go.decode Go.intoTextPtr "divergence_reason" none data
    return ⟨some (.str traceId), jsonOption .str finalProof, some (.str verificationStatus),
      jsonOption .str executionStatus, jsonOption .str divergenceReason⟩

/-- What a client makes of the document of a result. -/
def BindExecutionResult.received (r : BindExecutionResult) : BindResult :=
  ⟨some (.str r.traceId.toText), .str r.finalProof, some (.str r.verificationStatus.display),
    .str r.executionStatus, jsonOption .str r.divergenceReason⟩

/-- The names in the document of a result. -/
def BindExecutionResult.names : List String :=
  ["trace_id", "final_proof", "verification_status", "execution_status", "execution_time",
    "divergence_reason"]

theorem BindExecutionResult.names_document (K : Crates) (r : BindExecutionResult) :
    ((r.document K).map Prod.fst).Sublist names := by
  have hnames : ((r.document K).map Prod.fst) = ["trace_id", "final_proof", "verification_status",
      "execution_status", "execution_time"]
      ++ (r.divergenceReason.map fun _ => "divergence_reason").toList := by
    rw [document, List.map_append]
    cases r.divergenceReason <;> rfl
  rw [hnames]
  refine List.Sublist.append_left ?_ _
  cases r.divergenceReason with
  | none => exact List.nil_sublist _
  | some reason => exact List.Sublist.refl _

theorem BindExecutionResult.named (K : Crates) (r : BindExecutionResult) :
    Go.Named (r.document K) := by
  have hplain : ∀ l ∈ names, Go.Plain l := by decide +kernel
  have hnodup : names.Nodup := by simp [names]
  exact ⟨(r.names_document K).nodup hnodup, fun l hl => hplain l ((r.names_document K).subset hl)⟩

/-- All three clients take the same from a response of `bind_execution`. -/
theorem bindResult_document (K : Crates) (client : Client) (r : BindExecutionResult) :
    client.bindResult (Json.normalize (.obj (r.document K))) = some r.received := by
  have hnamed := r.named K
  have hget : ∀ k, (Json.normalize (.obj (r.document K))).get? k
      = ((Json.obj (r.document K)).get? k).map Json.normalize :=
        Json.get?_normalize_obj hnamed.nodup
  have hreason : ((Json.obj (r.document K)).get? "divergence_reason").map Json.normalize
      = r.divergenceReason.map .str := by
    unfold BindExecutionResult.document
    cases r.divergenceReason <;> rfl
  obtain ⟨ns, hns, -⟩ := Go.members_normalize (r.document K)
  cases client with
  | python =>
    simp only [Client.bindResult, hget, hreason]
    unfold BindExecutionResult.received
    cases r.divergenceReason <;> rfl
  | typescript =>
    have hobject : TypeScript.object (Json.normalize (.obj (r.document K)))
        = some (Json.normalize (.obj (r.document K))) := by
      rw [hns]
      rfl
    simp only [Client.bindResult, hobject, Option.bind_eq_bind, Option.bind_some,
      TypeScript.property, hget, hreason]
    unfold BindExecutionResult.received
    cases r.divergenceReason <;> rfl
  | go =>
    have hplain : ∀ k ∈ BindExecutionResult.names, Go.Plain k := by decide +kernel
    simp only [BindExecutionResult.names, List.forall_mem_cons] at hplain
    obtain ⟨hid, hproof, hverification, hexecution, -, hdivergence, -⟩ := hplain
    simp only [Client.bindResult, hnamed.decode_eq hid, hnamed.decode_eq hproof,
      hnamed.decode_eq hverification, hnamed.decode_eq hexecution, hnamed.decode_eq hdivergence,
      hreason]
    unfold BindExecutionResult.received
    cases r.divergenceReason <;> rfl

section Bind

variable (K : Crates) (faults : BindFaults) (cfg : Config) (aliases : List (String × String))
  (traces : List TraceRow) (positions : List PositionRow) (now : DateTime)

/-- `/irl/bind-execution` behind its middleware, up to the response. -/
def serveBind (phrase : ℕ → String) (reason : Json → String) (doc : Json) :
    List TraceRow × List PositionRow × HttpResponse :=
  match BindExecutionRequest.ofJson doc with
  | none => (traces, positions, unprocessable phrase (reason doc))
  | some req =>
    match bindExecutionWith faults cfg aliases traces positions req now with
    | (traces', positions', .error e) =>
      (traces', positions', (ApiError.app e).intoResponse K phrase)
    | (traces', positions', .ok result) =>
      (traces', positions', okResponse K phrase (result.document K))

/-- How a bind request can end. -/
inductive BindEnd (req : BindExecutionRequest) :
    List TraceRow → List PositionRow → Except AppError BindExecutionResult → Prop where
  /-- The verdict stands in the row, and the fill, if there is one, is booked. -/
  | bound (row : TraceRow) (positions' : List PositionRow)
      (hrow : Table.rowOf TraceRow.traceId traces req.traceId = some row)
      (hpending : row.verificationStatus = .pending)
      (hpositions : positions' = (bindFill req row.intent
        (reconcile cfg aliases req row.intent now)).elim positions (upsertPosition positions)) :
      BindEnd req (updateBinding traces (reconcile cfg aliases req row.intent now) req) positions'
        (.ok (reconcile cfg aliases req row.intent now))
  /-- The trace is unknown or bound, or one of the first two statements fails. -/
  | refused (e : AppError)
      (he : readIntent traces req = .error e ∨
        ∃ reason, e = .database reason ∧
        (faults.read = some reason ∨ faults.update = some reason)) :
      BindEnd req traces positions (.error e)
  /-- The verdict stands in the row when the statement of the ledger fails. -/
  | unbooked (row : TraceRow) (reason : String)
      (hrow : Table.rowOf TraceRow.traceId traces req.traceId = some row)
      (hpending : row.verificationStatus = .pending)
      (hfill : (bindFill req row.intent (reconcile cfg aliases req row.intent now)).isSome = true)
      (hledger : faults.ledger = some reason) :
      BindEnd req (updateBinding traces (reconcile cfg aliases req row.intent now) req) positions
        (.error (.database reason))

theorem bindEnd_bindExecutionWith (req : BindExecutionRequest) :
    BindEnd faults cfg aliases traces positions now req
      (bindExecutionWith faults cfg aliases traces positions req now).1
      (bindExecutionWith faults cfg aliases traces positions req now).2.1
      (bindExecutionWith faults cfg aliases traces positions req now).2.2 := by
  unfold bindExecutionWith
  cases hread : faults.read with
  | some reason => exact .refused _ (Or.inr ⟨reason, rfl, Or.inl hread⟩)
  | none =>
    cases hintent : readIntent traces req with
    | error e => exact .refused e (Or.inl hintent)
    | ok intent =>
      obtain ⟨row, hrow, hpending, rfl⟩ := readIntent_ok hintent
      cases hupdate : faults.update with
      | some reason => exact .refused _ (Or.inr ⟨reason, rfl, Or.inr hupdate⟩)
      | none =>
        cases hfill : bindFill req row.intent (reconcile cfg aliases req row.intent now) with
        | none =>
          simp only [hfill]
          exact .bound row _ hrow hpending (by rw [hfill]; rfl)
        | some fill =>
          cases hledger : faults.ledger with
          | none =>
            simp only [hfill]
            exact .bound row _ hrow hpending (by rw [hfill]; rfl)
          | some reason =>
            simp only [hfill]
            exact .unbooked row reason hrow hpending (by rw [hfill]; rfl) hledger

theorem matched_of_bindFill {req : BindExecutionRequest} {intent : BindIntent}
    {result : BindExecutionResult} (h : (bindFill req intent result).isSome = true) :
    result.verificationStatus = .matched := by
  unfold bindFill at h
  split at h
  · assumption
  · cases h

variable {cfg aliases traces now} in
/-- The row of a trace after its verdict. -/
theorem rowOf_updateBinding {req : BindExecutionRequest} {row : TraceRow}
    (hrow : Table.rowOf TraceRow.traceId traces req.traceId = some row) :
    Table.rowOf TraceRow.traceId
      (updateBinding traces (reconcile cfg aliases req row.intent now) req) req.traceId
        = some (row.bindTo (reconcile cfg aliases req row.intent now) req) := by
  have hmatches : row.traceId = req.traceId := Table.key_of_rowOf hrow
  have hkey : ∀ r : TraceRow, (r.bindTo (reconcile cfg aliases req row.intent now) req).traceId
      = r.traceId := fun r => rfl
  rw [updateBinding, Table.rowOf_updateWhere hkey, hrow, Option.map_some, if_pos]
  exact decide_eq_true hmatches

/-- How a bind can end for its client. -/
inductive BindOutcome (phrase : ℕ → String) (reason : Json → String) (client : Client)
    (report : Report) :
    List TraceRow → List PositionRow → Except ClientError BindResult → Prop where
  /-- The proof and the verdict that the client returns now stand in the row, and the fill, if there
  is one, is booked. -/
  | returned (req : BindExecutionRequest) (row row' : TraceRow) (proof executionStatus : String)
      (divergenceReason : Option String) (traces' : List TraceRow) (positions' : List PositionRow)
      (hreq : report.meaning = some req)
      (hrow : Table.rowOf TraceRow.traceId traces req.traceId = some row)
      (hpending : row.verificationStatus = .pending)
      (hrow' : Table.rowOf TraceRow.traceId traces' req.traceId = some row')
      (hproof : row'.finalProof = some proof)
      (hcompute : proof = computeFinalProof row'.reasoningHash report.exchangeOrderId)
      (hexecution : row'.executionStatus = some executionStatus)
      (hreason : divergenceReason = none ↔ row'.verificationStatus = .matched)
      (hpositions : positions' = (bindFill req row.intent
        (reconcile cfg aliases req row.intent now)).elim positions (upsertPosition positions)) :
      BindOutcome phrase reason client report traces' positions'
        (.ok ⟨some (.str req.traceId.toText), .str proof,
          some (.str row'.verificationStatus.display),
          .str executionStatus, jsonOption .str divergenceReason⟩)
  /-- Nothing has changed. -/
  | refused (req : BindExecutionRequest) (e : AppError) (hreq : report.meaning = some req)
      (he : readIntent traces req = .error e ∨
        ∃ reason, e = .database reason ∧
        (faults.read = some reason ∨ faults.update = some reason)) :
      BindOutcome phrase reason client report traces positions (.error (ApiError.app e).raised)
  /-- The row of the trace is `MATCHED`, and the positions have not changed. -/
  | unbooked (req : BindExecutionRequest) (row : TraceRow) (message : String)
      (hreq : report.meaning = some req)
      (hrow : Table.rowOf TraceRow.traceId traces req.traceId = some row)
      (hpending : row.verificationStatus = .pending)
      (hmatched : (reconcile cfg aliases req row.intent now).verificationStatus = .matched)
      (hledger : faults.ledger = some message) :
      BindOutcome phrase reason client report
        (updateBinding traces (reconcile cfg aliases req row.intent now) req) positions
        (.error (ApiError.app (.database message)).raised)
  | unreadable (hreq : report.meaning = none) :
      BindOutcome phrase reason client report traces positions
        (.error (client.refusal phrase (reason report.document)))

/-- **What a bind returns is what now stands in the table**: for each client the proof, the verdict
and the execution status of the row, and a reason exactly for a divergence.  Or the error of the
engine is raised, and nothing is changed, unless the statement of the ledger has failed: then the
verdict of a `MATCHED` bind stands, and its fill is not booked. -/
theorem bind_outcome (phrase : ℕ → String) (reason : Json → String) (client : Client)
    (report : Report) :
    BindOutcome faults cfg aliases traces positions now phrase reason client report
      (serveBind K faults cfg aliases traces positions now phrase reason report.document).1
      (serveBind K faults cfg aliases traces positions now phrase reason report.document).2.1
      (client.receive client.bindResult
        (serveBind K faults cfg aliases traces positions now phrase reason
          report.document).2.2) := by
  have hread := report.read
  rw [serveBind, hread]
  cases hreq : report.meaning with
  | none =>
    dsimp only
    rw [Client.receive, handle_unprocessable]
    exact .unreadable hreq
  | some req =>
    have htx : req.exchangeTxId = report.exchangeOrderId := by
      unfold Report.meaning at hreq
      obtain ⟨traceId, -, hreq⟩ := Option.bind_eq_some_iff.1 hreq
      obtain ⟨executionStatus, -, hreq⟩ := Option.bind_eq_some_iff.1 hreq
      rw [← Option.some.inj hreq]
    have hend := bindEnd_bindExecutionWith faults cfg aliases traces positions now req
    dsimp only
    rcases hanswer : bindExecutionWith faults cfg aliases traces positions req now
      with ⟨traces', positions', answer⟩
    rw [hanswer] at hend
    cases hend with
    | bound row _ hrow hpending hpositions =>
      dsimp only
      rw [okResponse, receive_normalize K phrase _ _ (by decide), bindResult_document]
      refine .returned req row _ _ _ _ _ positions' hreq hrow hpending (rowOf_updateBinding hrow)
        rfl ?_ rfl ?_ hpositions
      · rw [← htx]
        rfl
      · show divergence cfg aliases req row.intent = none ↔
          (reconcile cfg aliases req row.intent now).verificationStatus = .matched
        rw [reconcile]
        dsimp only
        cases divergence cfg aliases req row.intent <;> simp
    | refused e he =>
      dsimp only
      rw [receive_intoResponse]
      exact .refused req e hreq he
    | unbooked row message hrow hpending hfill hledger =>
      dsimp only
      rw [receive_intoResponse]
      exact .unbooked req row message hreq hrow hpending (matched_of_bindFill hfill) hledger

end Bind

end IrlEngine
