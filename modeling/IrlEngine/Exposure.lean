import IrlEngine.Lifecycle
import Mathlib.Tactic.Linarith

/-!
# Exposure

What the portfolio check bounds over whole runs, and what consumes the cap.

* `exposure_bounded` — the gross notional that an agent has authorized without
  `reduce_only` and not yet bound stays within a constant cap, if no request of the agent
  has a negative notional.  The check compares a signed sum, and a negative notional is
  let through.
* `denied_consumes_iff` — a denied request leaves later decisions alone for good exactly
  when its notional is zero.  Denied rows are inserted as `PENDING`, and the pending sum
  does not look at the policy result.
-/

namespace IrlEngine

/-! ## The effect of a call -/

/-- The reading half of a call. -/
def AuthorizeCall.prepare (D : Deployment) (call : AuthorizeCall) :
    HeartbeatState × Except AppError AuthorizeWrite :=
  authorizePrepare D.K D.cfg call.agents call.hs call.env call.req

/-- The answer to a call that finds the trace table as `traces`. -/
def AuthorizeCall.answer (D : Deployment) (traces : List TraceRow) (call : AuthorizeCall) :
    Except AppError AuthorizeResponse :=
  match (call.prepare D).2 with
  | .error e => .error e
  | .ok w => (authorizeCommit D.K traces w).2

/-- What is true of a row that a call inserts. -/
structure Inserted (s : System) (call : AuthorizeCall) (r : TraceRow) : Prop where
  fresh : r.traceId ∉ s.traces.map TraceRow.traceId
  traceId : r.traceId = call.env.traceId
  agentId : r.agentId = some call.req.agentId
  executionNotional : r.executionNotional = call.req.notional.toRat
  verificationStatus : r.verificationStatus = .pending
  /-- An allowed row of an order that may open a position has passed the check. -/
  within : r.policyResult = .allowed → call.req.reduceOnly = false →
    ∃ mta, call.env.mta = .ok mta ∧ ∃ profile ∈ call.agents, profile.agentId = call.req.agentId ∧
      pendingSum s.traces call.req.agentId + call.req.notional.toRat
        ≤ effectiveCap mta profile.maxNotional

/-- The row of a write, by the policy outcome that led to it. -/
theorem inserted_of_outcome {D : Deployment} {s : System} {call : AuthorizeCall} {mta : MtaState}
    {profile : AgentProfile} {driftMs : Int64} {hb : SignedHeartbeat} {w : AuthorizeWrite}
    {r : TraceRow} (hmta : call.env.mta = .ok mta) (hprofile : profile ∈ call.agents)
    (hid : profile.agentId = call.req.agentId)
    (houtcome : PolicyOutcome D.K D.cfg call.env call.req mta profile driftMs
      (call.req.snapshot call.env mta hb) w)
    (hrow : traceRow D.K w.args = .ok r)
    (hcap : ∀ a check sb, w = .commit a check sb → capCheck s.traces a check = .ok ())
    (hfresh : w.args.snapshot.traceId ∉ s.traces.map TraceRow.traceId) : Inserted s call r := by
  obtain ⟨stored, validTime, txnTime, -, -, -, rfl⟩ := traceRow_ok hrow
  cases houtcome with
  | allowed d hresult hwithin =>
    refine ⟨hfresh, rfl, rfl, rfl, rfl, ?_⟩
    intro _ hro
    refine ⟨mta, hmta, profile, hprofile, hid, ?_⟩
    have hcheck := hcap _ _ _ rfl
    rw [hro, show (!false) = true from rfl, if_pos rfl] at hcheck
    exact capCheck_ok rfl hcheck
  | shadow d hresult _ _ =>
    refine ⟨hfresh, rfl, rfl, rfl, rfl, ?_⟩
    intro hallowed
    exact absurd (hresult.symm.trans hallowed) (by simp)
  | halted d e hresult _ _ =>
    refine ⟨hfresh, rfl, rfl, rfl, rfl, ?_⟩
    intro hallowed
    exact absurd (hresult.symm.trans hallowed) (by simp)

/-- A call inserts one row, or changes nothing and is refused. -/
theorem step_authorize_cases {D : Deployment} {s s' : System} {call : AuthorizeCall}
    (h : step D s (.authorize call) = some s') :
    (s' = s ∧ ∃ e, call.answer D s.traces = .error e) ∨
      ∃ r, s' = { s with traces := s.traces ++ [r] } ∧ Inserted s call r := by
  simp only [step] at h
  rcases hprep : authorizePrepare D.K D.cfg call.agents call.hs call.env call.req with ⟨hs', res⟩
  rw [hprep] at h
  cases res with
  | error e =>
    refine Or.inl ⟨(Option.some.inj h).symm, e, ?_⟩
    rw [AuthorizeCall.answer, AuthorizeCall.prepare, hprep]
  | ok w =>
    simp only [System.insertWith] at h
    split at h
    · rename_i hfresh
      rw [← Option.some.inj h]
      obtain ⟨hb, driftMs, mta, -, -, hmta, hdecide⟩ := authorizePrepare_ok hprep
      obtain ⟨_, profile, -, hagent, -, houtcome⟩ := authorizeDecide_ok hdecide
      rcases authorizeCommit_cases D.K s.traces w with ⟨hsame, e, he⟩ | ⟨r, hrow, happ, hcap⟩
      · refine Or.inl ⟨by rw [hsame], e, ?_⟩
        rw [AuthorizeCall.answer, AuthorizeCall.prepare, hprep]
        exact he
      · refine Or.inr ⟨r, by rw [happ], ?_⟩
        exact inserted_of_outcome hmta hagent.registered hagent.identity houtcome hrow hcap
          (of_decide_eq_true hfresh)
    · exact absurd h (by simp)

/-- An order to buy is accepted if the pending sum leaves room for it. -/
theorem answer_buy {K : Crates} {traceId : Uuid} {notional cap : F64}
    (hle : notional.toRat ≤ cap.toRat) (traces : List TraceRow) :
    ((AuthorizeCall.order traceId "buy" notional cap).answer (.plain K) traces).isOk
      = decide (pendingSum traces (.fill 1) + notional.toRat ≤ cap.toRat) := by
  have hprep : ((AuthorizeCall.order traceId "buy" notional cap).prepare (.plain K)).2 = _ :=
    congrArg Prod.snd (prepare_buy hle)
  rw [AuthorizeCall.answer, hprep]
  exact authorizeCommit_sample_isOk K traceId (.sample (.fill 1) (.custom "buy") notional) rfl
    traces cap.toRat MtaState.sample.regimeLabel false

/-! ## Gross exposure -/

/-- What a row counts for: its notional without the sign, if it is an allowed pending row
of the agent with one of the given ids. -/
def grossOf (agentId : Uuid) (ids : List Uuid) (r : TraceRow) : ℚ :=
  if r.agentId = some agentId ∧ r.verificationStatus = .pending ∧ r.policyResult = .allowed ∧
      r.traceId ∈ ids then |r.executionNotional| else 0

/-- What all rows of a table count for. -/
def grossExposure (agentId : Uuid) (ids : List Uuid) (traces : List TraceRow) : ℚ :=
  (traces.map (grossOf agentId ids)).sum

/-- The id of the trace that an event authorizes for the agent without `reduce_only`. -/
def authorizedId (D : Deployment) (agentId : Uuid) (s : System) : Event → List Uuid
  | .authorize call =>
    if call.req.agentId = agentId ∧ call.req.reduceOnly = false ∧
        (call.answer D s.traces).isOk = true then [call.env.traceId]
    else []
  | _ => []

theorem authorizedId_cases (D : Deployment) (agentId : Uuid) (s : System) (call : AuthorizeCall) :
    (authorizedId D agentId s (.authorize call) = [call.env.traceId] ∧
      call.req.reduceOnly = false) ∨ authorizedId D agentId s (.authorize call) = [] := by
  simp only [authorizedId]
  split
  · rename_i hcond
    exact Or.inl ⟨rfl, hcond.2.1⟩
  · exact Or.inr rfl

/-- A step that also records which traces were authorized without `reduce_only`. -/
def exposureStep (D : Deployment) (agentId : Uuid) (x : System × List Uuid) (e : Event) :
    Option (System × List Uuid) :=
  (step D x.1 e).map fun t => (t, x.2 ++ authorizedId D agentId x.1 e)

/-- The requests of the agent find its cap at `C`, and rows come from requests only. -/
def CapIs (agentId : Uuid) (C : ℚ) : Event → Prop
  | .authorize call => call.req.agentId = agentId → ∀ mta, call.env.mta = .ok mta →
      ∀ profile ∈ call.agents, profile.agentId = agentId → effectiveCap mta profile.maxNotional = C
  | .insertTrace _ => False
  | .insertTraceAtomic _ _ => False
  | _ => True

/-- The requests of the agent have no negative notional. -/
def NoNegative (agentId : Uuid) : Event → Prop
  | .authorize call => call.req.agentId = agentId → 0 ≤ call.req.notional.toRat
  | _ => True

/-- The invariant behind `exposure_bounded`. -/
structure Exposed (agentId : Uuid) (C : ℚ) (x : System × List Uuid) : Prop where
  nonneg : ∀ r ∈ x.1.traces, r.agentId = some agentId → 0 ≤ r.executionNotional
  known : ∀ id ∈ x.2, id ∈ x.1.traces.map TraceRow.traceId
  bounded : grossExposure agentId x.2 x.1.traces ≤ C

section Exposed

variable {D : Deployment} {agentId : Uuid} {C : ℚ} {s s' : System} {ids : List Uuid} {e : Event}

theorem agentId_of_sameTerms {r r' : TraceRow} (h : SameTerms r r') : r'.agentId = r.agentId :=
  congrArg BindIntent.agentId h.intent

/-- A row that is changed counts for no more than before. -/
theorem grossOf_rowChange {r r' : TraceRow} (h : RowChange D s e r r') :
    grossOf agentId ids r' ≤ grossOf agentId ids r := by
  have hterms := h.sameTerms
  have hle : (r'.verificationStatus = .pending → r.verificationStatus = .pending) →
      grossOf agentId ids r' ≤ grossOf agentId ids r := by
    intro hstatus
    unfold grossOf
    rw [agentId_of_sameTerms hterms, hterms.policyResult, hterms.traceId, hterms.executionNotional]
    split
    · rename_i hr'
      rw [if_pos ⟨hr'.1, hstatus hr'.2.1, hr'.2.2⟩]
    · split
      · exact abs_nonneg _
      · exact le_refl 0
  cases h with
  | same => exact le_refl _
  | bound k now req intent hk _ hid =>
    refine hle fun hpending => ?_
    rw [TraceRow.bindTo_verificationStatus] at hpending
    rcases reconcile_status D.cfg D.aliases req intent now with h | h <;>
      rw [h] at hpending <;> exact absurd hpending (by decide)
  | expired now _ hpending _ => exact hle fun _ => hpending
  | recoded _ f hf => exact hle fun hpending => (hf.verificationStatus r).symm.trans hpending

/-- A table whose rows are changed one by one counts for no more than before. -/
theorem exposed_of_map {g : TraceRow → TraceRow} (hg : ∀ r ∈ s.traces, RowChange D s e r (g r))
    (htraces : s'.traces = s.traces.map g) (hs : Exposed agentId C (s, ids)) :
    Exposed agentId C (s', ids) := by
  have hids : s'.traces.map TraceRow.traceId = s.traces.map TraceRow.traceId := by
    rw [htraces, List.map_map]
    exact List.map_congr_left fun r hr => (hg r hr).sameTerms.traceId
  refine ⟨?_, ?_, ?_⟩
  · intro r' hr' hagent
    rw [htraces] at hr'
    obtain ⟨r, hr, rfl⟩ := List.mem_map.1 hr'
    have hterms := (hg r hr).sameTerms
    rw [hterms.executionNotional]
    exact hs.nonneg r hr ((agentId_of_sameTerms hterms).symm.trans hagent)
  · intro id hid
    show id ∈ s'.traces.map TraceRow.traceId
    rw [hids]
    exact hs.known id hid
  · refine le_trans ?_ hs.bounded
    show grossExposure agentId ids s'.traces ≤ grossExposure agentId ids s.traces
    unfold grossExposure
    rw [htraces, List.map_map]
    exact List.sum_le_sum fun r hr => grossOf_rowChange (hg r hr)

/-- Without negative notionals the gross exposure is within the pending sum. -/
theorem grossExposure_le_pendingSum (hs : Exposed agentId C (s, ids)) :
    grossExposure agentId ids s.traces ≤ pendingSum s.traces agentId := by
  unfold grossExposure pendingSum
  rw [Table.sum_map_filter]
  refine List.sum_le_sum fun r hr => ?_
  unfold grossOf
  by_cases hagent : r.agentId = some agentId
  · have hnonneg := hs.nonneg r hr hagent
    by_cases hpending : r.verificationStatus = .pending
    · simp only [hagent, hpending, true_and, and_self, decide_true, if_true, abs_of_nonneg hnonneg]
      split
      · exact le_refl _
      · exact hnonneg
    · simp [hpending]
  · simp [hagent]

/-- The rows that are already there count for the same when a fresh id is recorded. -/
theorem grossExposure_fresh {id : Uuid} (hfresh : id ∉ s.traces.map TraceRow.traceId) :
    grossExposure agentId (ids ++ [id]) s.traces = grossExposure agentId ids s.traces := by
  unfold grossExposure
  refine congrArg List.sum (List.map_congr_left fun r hr => ?_)
  have hne : r.traceId ≠ id := fun h => hfresh (h ▸ List.mem_map_of_mem hr)
  unfold grossOf
  simp only [List.mem_append, List.mem_singleton, hne, or_false]

/-- A request of the agent keeps the exposure within the cap. -/
theorem exposed_of_inserted {call : AuthorizeCall} {r : TraceRow} (hr : Inserted s call r)
    (hcap : CapIs agentId C (.authorize call)) (hnn : NoNegative agentId (.authorize call))
    (hs : Exposed agentId C (s, ids)) :
    Exposed agentId C
      ({ s with traces := s.traces ++ [r] },
        ids ++ authorizedId D agentId s (.authorize call)) := by
  have hrecord := authorizedId_cases D agentId s call
  refine ⟨?_, ?_, ?_⟩
  · intro q hq hagent
    rcases List.mem_append.1 hq with hq | hq
    · exact hs.nonneg q hq hagent
    · rw [List.mem_singleton.1 hq] at hagent ⊢
      rw [hr.executionNotional]
      exact hnn (Option.some.inj (hr.agentId.symm.trans hagent))
  · intro id hid
    show id ∈ (s.traces ++ [r]).map TraceRow.traceId
    rw [List.map_append, List.mem_append]
    rcases List.mem_append.1 hid with hid | hid
    · exact Or.inl (hs.known id hid)
    · rcases hrecord with ⟨hone, -⟩ | hnone
      · rw [hone, List.mem_singleton, ← hr.traceId] at hid
        exact Or.inr (by rw [hid]; simp)
      · rw [hnone] at hid
        exact absurd hid (by simp)
  · show grossExposure agentId _ (s.traces ++ [r]) ≤ C
    have hsplit : grossExposure agentId (ids ++ authorizedId D agentId s (.authorize call))
        (s.traces ++ [r]) = grossExposure agentId ids s.traces
          + grossOf agentId (ids ++ authorizedId D agentId s (.authorize call)) r := by
      have hold : grossExposure agentId (ids ++ authorizedId D agentId s (.authorize call)) s.traces
          = grossExposure agentId ids s.traces := by
        rcases hrecord with ⟨hone, -⟩ | hnone
        · rw [hone]
          exact grossExposure_fresh (hr.traceId ▸ hr.fresh)
        · rw [hnone, List.append_nil]
      rw [← hold, grossExposure, List.map_append, List.sum_append, List.map_singleton,
        List.sum_singleton]
      rfl
    rw [hsplit]
    unfold grossOf
    split
    · rename_i hcounts
      obtain ⟨hagent, -, hallowed, hid⟩ := hcounts
      have hagent' : call.req.agentId = agentId := Option.some.inj (hr.agentId.symm.trans hagent)
      -- the id is new, so it was recorded for this very request
      have hro : call.req.reduceOnly = false := by
        rcases List.mem_append.1 hid with hid | hid
        · exact absurd (hs.known _ hid) hr.fresh
        · rcases hrecord with ⟨-, hro⟩ | hnone
          · exact hro
          · rw [hnone] at hid
            exact absurd hid (by simp)
      obtain ⟨mta, hmta, profile, hprofile, hpid, hle⟩ := hr.within hallowed hro
      rw [hcap hagent' mta hmta profile hprofile (hpid.trans hagent'), hagent'] at hle
      rw [hr.executionNotional, abs_of_nonneg (hnn hagent')]
      exact (add_le_add_left (grossExposure_le_pendingSum hs) _).trans hle
    · rw [add_zero]
      exact hs.bounded

theorem Exposed.step (hs : Exposed agentId C (s, ids)) (hcap : CapIs agentId C e)
    (hnn : NoNegative agentId e) (h : step D s e = some s') :
    Exposed agentId C (s', ids ++ authorizedId D agentId s e) := by
  by_cases hinsert : e.isInsert = true
  · cases e with
    | authorize call =>
      rcases step_authorize_cases h with ⟨rfl, err, herr⟩ | ⟨r, rfl, hr⟩
      · have hnone : authorizedId D agentId s' (.authorize call) = [] := by
          simp [authorizedId, herr, Except.isOk, Except.toBool]
        rw [hnone, List.append_nil]
        exact hs
      · exact exposed_of_inserted hr hcap hnn hs
    | insertTrace a => exact absurd hcap id
    | insertTraceAtomic a check => exact absurd hcap id
    | _ => exact absurd hinsert (by simp [Event.isInsert])
  · have hnone : authorizedId D agentId s e = [] := by
      cases e with
      | authorize call => exact absurd rfl hinsert
      | _ => rfl
    obtain ⟨g, new, htraces, hg, hnew⟩ := traces_of_change (change_of_step h)
    rcases hnew with rfl | ⟨hins, -⟩
    · rw [hnone, List.append_nil]
      exact exposed_of_map hg (by rw [htraces, List.append_nil]) hs
    · exact absurd hins hinsert

end Exposed

/-- **The cumulative cap bounds the gross exposure**: while the cap of an agent is `C` and
its requests have no negative notional, the notionals it has authorized without
`reduce_only` and not yet bound add up to no more than `C`. -/
theorem exposure_bounded (D : Deployment) (agentId : Uuid) {C : ℚ} (hC : 0 ≤ C) {es : List Event}
    {s : System} {ids : List Uuid}
    (hrun : Run.run (exposureStep D agentId) (.init, []) es = some (s, ids))
    (hcap : ∀ e ∈ es, CapIs agentId C e) (hnn : ∀ e ∈ es, NoNegative agentId e) :
    grossExposure agentId ids s.traces ≤ C := by
  have hinit : Exposed agentId C (.init, []) :=
    ⟨fun r hr => absurd hr (by simp [System.init]), fun id hid => absurd hid (by simp), hC⟩
  have hP : Run.Along (exposureStep D agentId)
      (fun _ e => CapIs agentId C e ∧ NoNegative agentId e) (.init, []) es :=
    Run.along_of_forall (fun e he => ⟨hcap e he, hnn e he⟩) _
  refine (Run.run_invariant_along (I := Exposed agentId C) ?_ hrun hP hinit).bounded
  rintro ⟨s, ids⟩ e ⟨s', ids'⟩ hs ⟨hcap, hnn⟩ hstep
  obtain ⟨t, ht, heq⟩ := Option.map_eq_some_iff.1 hstep
  obtain ⟨rfl, rfl⟩ := Prod.mk.inj heq
  exact hs.step hcap hnn ht

theorem capIs_order (traceId : Uuid) (action : String) (notional cap : F64) :
    CapIs (.fill 1) cap.toRat (.authorize (.order traceId action notional cap)) := by
  intro _ mta hmta profile hprofile _
  obtain rfl : MtaState.sample = mta := Except.ok.inj hmta
  rw [List.mem_singleton.1 hprofile]
  exact effectiveCap_sample cap

/-- A first order to buy that fits under the cap. -/
theorem exposureStep_buy {notional cap : F64} (hle : notional.toRat ≤ cap.toRat) :
    exposureStep .sample (.fill 1) (.init, []) (.authorize (.order (.fill 2) "buy" notional cap))
      = some (⟨[buyRow .sample (.fill 2) notional], [], []⟩, [.fill 2]) := by
  have hroom : pendingSum [] (.fill 1) + notional.toRat ≤ cap.toRat := by
    rw [pendingSum_nil, zero_add]
    exact hle
  have hstep : step .sample .init (.authorize (.order (.fill 2) "buy" notional cap))
      = some ⟨[buyRow .sample (.fill 2) notional], [], []⟩ :=
    step_first (buysWithin_sample hle)
  have hanswer : ((AuthorizeCall.order (.fill 2) "buy" notional cap).answer .sample []).isOk
    = true :=
    (answer_buy hle []).trans (decide_eq_true hroom)
  have hids : authorizedId .sample (.fill 1) .init
    (.authorize (.order (.fill 2) "buy" notional cap))
      = [.fill 2] := if_pos ⟨rfl, rfl, hanswer⟩
  simp only [exposureStep, hstep, hids]
  rfl

theorem grossExposure_buy (notional : F64) :
    grossExposure (.fill 1) [.fill 2] [buyRow .sample (.fill 2) notional] = |notional.toRat| := by
  have hgross : grossOf (.fill 1) [.fill 2] (buyRow .sample (.fill 2) notional)
    = |notional.toRat| :=
    if_pos ⟨rfl, rfl, rfl, List.mem_singleton.2 rfl⟩
  rw [grossExposure, List.map_singleton, List.sum_singleton, hgross]

/-- An order of notional 1 under a cap of 2. -/
theorem exposure_bounded_sample :
    grossExposure (.fill 1) [.fill 2] [buyRow .sample (.fill 2) F64.one] ≤ F64.two.toRat := by
  have hstep := exposureStep_buy F64.toRat_one_le_two
  refine exposure_bounded .sample (.fill 1) ?_ (Run.run_cons hstep []) ?_ ?_
  · rw [F64.toRat_two]
    norm_num
  · intro e he
    rw [List.mem_singleton.1 he]
    exact capIs_order _ _ _ _
  · intro e he
    rw [List.mem_singleton.1 he]
    intro _
    show 0 ≤ F64.one.toRat
    rw [F64.toRat_one]
    exact zero_le_one

/-- An order of notional -2 is accepted under a cap of 1. -/
theorem exposure_exceeded : ∃ (es : List Event) (s : System) (ids : List Uuid),
    Run.run (exposureStep .sample (.fill 1)) (.init, []) es = some (s, ids) ∧
      (∀ e ∈ es, CapIs (.fill 1) F64.one.toRat e) ∧
      F64.one.toRat < grossExposure (.fill 1) ids s.traces := by
  have hle : F64.two.neg.toRat ≤ F64.one.toRat := by
    rw [F64.toRat_neg, F64.toRat_one, F64.toRat_two]
    norm_num
  refine ⟨_, _, _, Run.run_cons (exposureStep_buy hle) [], ?_, ?_⟩
  · intro e he
    rw [List.mem_singleton.1 he]
    exact capIs_order _ _ _ _
  · rw [grossExposure_buy, F64.toRat_neg, F64.toRat_one, F64.toRat_two]
    norm_num

/-! ## Denied requests -/

/-- The call as it runs when it finds the validator in the state `hs`. -/
def AuthorizeCall.under (call : AuthorizeCall) (hs : HeartbeatState) : AuthorizeCall :=
  { call with hs := hs }

/-- The heartbeat state and the tables after a call. -/
def authorizeIn (D : Deployment) (x : HeartbeatState × System) (call : AuthorizeCall) :
    Option (HeartbeatState × System) :=
  (step D x.2 (.authorize (call.under x.1))).map fun t => (((call.under x.1).prepare D).1, t)

/-- Which of the later requests are accepted, when they come one after the other. -/
def accepted (D : Deployment) : HeartbeatState × System → List AuthorizeCall → Option (List Bool)
  | _, [] => some []
  | x, call :: calls =>
    match authorizeIn D x call with
    | none => none
    | some y =>
      (accepted D y calls).map fun bs => ((call.under x.1).answer D x.2.traces).isOk :: bs

/-- A request that the policy denies, and that is persisted as halted or shadow-halted. -/
def DeniedTo (D : Deployment) (x : HeartbeatState × System) (call : AuthorizeCall)
    (y : HeartbeatState × System) : Prop :=
  authorizeIn D x call = some y ∧ ∃ r, y.2.traces = x.2.traces ++ [r] ∧
    (r.policyResult = .halted ∨ r.policyResult = .shadowHalted)

/-- With Layer 2 on, a heartbeat is used up by the request that presents it, whatever the
policy says of the request; a later request presents a newer one. -/
def NewerHeartbeat (cfg : Config) (call later : AuthorizeCall) : Prop :=
  cfg.layer2Enabled = true → ∀ h ∈ call.req.heartbeat, ∀ h' ∈ later.req.heartbeat,
    h.sequenceId < h'.sequenceId

/-- A denied request with this notional never changes a later decision. -/
def ConsumesNoCap (K : Crates) (notional : F64) : Prop :=
  ∀ (D : Deployment) (x y : HeartbeatState × System) (call : AuthorizeCall), D.K = K →
    Reachable D x.2 → DeniedTo D x call y → call.req.notional = notional →
      ∀ later : List AuthorizeCall,
    (∀ c ∈ later, c.req.agentId = call.req.agentId ∧ NewerHeartbeat D.cfg call c) →
    ∀ bs bs', accepted D x later = some bs → accepted D y later = some bs' → bs = bs'

/-- Two tables in which every agent has the same pending sum. -/
def SamePending (t u : List TraceRow) : Prop :=
  ∀ agentId, pendingSum t agentId = pendingSum u agentId

/-- On such tables a write appends the same rows and has the same answer. -/
theorem authorizeCommit_congr (K : Crates) {t u : List TraceRow} (h : SamePending t u)
    (w : AuthorizeWrite) :
    ∃ rows, (authorizeCommit K t w).1 = t ++ rows ∧ (authorizeCommit K u w).1 = u ++ rows ∧
      (authorizeCommit K t w).2 = (authorizeCommit K u w).2 := by
  cases w with
  | halted a e =>
    simp only [authorizeCommit, insertTrace]
    cases traceRow K a with
    | error err => exact ⟨[], by simp, by simp, rfl⟩
    | ok r => exact ⟨[r], rfl, rfl, rfl⟩
  | commit a check sb =>
    have hcheck : capCheck t a check = capCheck u a check :=
      capCheck_congr (fun aid _ => h aid) check
    simp only [authorizeCommit, insertTraceAtomic, hcheck, insertTrace]
    cases capCheck u a check with
    | error err => exact ⟨[], by simp, by simp, rfl⟩
    | ok x =>
      cases traceRow K a with
      | error err => exact ⟨[], by simp, by simp, rfl⟩
      | ok r => exact ⟨[r], rfl, rfl, rfl⟩

/-- A call in two states with the same pending sums. -/
theorem step_samePending {D : Deployment} {s s' t t' : System} {call : AuthorizeCall}
    (hs : step D s (.authorize call) = some t) (hs' : step D s' (.authorize call) = some t')
    (h : SamePending s.traces s'.traces) :
    SamePending t.traces t'.traces ∧ call.answer D s.traces = call.answer D s'.traces := by
  simp only [step] at hs hs'
  unfold AuthorizeCall.answer AuthorizeCall.prepare
  cases hprep : (authorizePrepare D.K D.cfg call.agents call.hs call.env call.req).2 with
  | error e =>
    rw [hprep] at hs hs'
    rw [← Option.some.inj hs, ← Option.some.inj hs']
    exact ⟨h, rfl⟩
  | ok w =>
    rw [hprep] at hs hs'
    obtain ⟨rows, ht, hu, hanswer⟩ := authorizeCommit_congr D.K h w
    simp only [System.insertWith] at hs hs'
    split at hs
    · split at hs'
      · rw [← Option.some.inj hs, ← Option.some.inj hs']
        refine ⟨fun agentId => ?_, hanswer⟩
        show pendingSum (authorizeCommit D.K s.traces w).1 agentId
          = pendingSum (authorizeCommit D.K s'.traces w).1 agentId
        rw [ht, hu, pendingSum_append, pendingSum_append, h agentId]
      · exact absurd hs' (by simp)
    · exact absurd hs (by simp)

/-- The write that is prepared is all that a call takes from its heartbeat. -/
theorem step_of_prepare {D : Deployment} {call call' : AuthorizeCall}
    (h : (call.prepare D).2.toOption = (call'.prepare D).2.toOption) (s : System) :
    step D s (.authorize call) = step D s (.authorize call') ∧
      (call.answer D s.traces).isOk = (call'.answer D s.traces).isOk := by
  unfold AuthorizeCall.answer
  simp only [step]
  unfold AuthorizeCall.prepare at h ⊢
  cases hp : (authorizePrepare D.K D.cfg call.agents call.hs call.env call.req).2 with
  | error e =>
    cases hp' : (authorizePrepare D.K D.cfg call'.agents call'.hs call'.env call'.req).2 with
    | error e' => exact ⟨rfl, rfl⟩
    | ok w' => simp [hp, hp', Except.toOption] at h
  | ok w =>
    cases hp' : (authorizePrepare D.K D.cfg call'.agents call'.hs call'.env call'.req).2 with
    | error e' => simp [hp, hp', Except.toOption] at h
    | ok w' =>
      rw [hp, hp'] at h
      obtain rfl := Option.some.inj h
      exact ⟨rfl, rfl⟩

section Alike

variable {D : Deployment} {seq : UInt64} {hs hs' : HeartbeatState} {x y : HeartbeatState × System}
  {call : AuthorizeCall}

theorem mem_of_requestHeartbeat {cfg : Config} {req : AuthorizeRequest} {hb : SignedHeartbeat}
    (h : requestHeartbeat cfg req = .ok hb) (hlayer : cfg.layer2Enabled = true) :
    hb ∈ req.heartbeat := by
  unfold requestHeartbeat at h
  cases hreq : req.heartbeat with
  | none => simp [hreq, hlayer] at h
  | some hb' =>
    rw [hreq] at h
    rw [Except.ok.inj h]
    exact Option.mem_some_self hb

theorem validateHeartbeat_agreeAfter {hb : SignedHeartbeat}
    (hst : hs.AgreeAfter seq call.req.agentId hs') (hreq : requestHeartbeat D.cfg call.req = .ok hb)
    (hnew : D.cfg.layer2Enabled = true → ∀ h ∈ call.req.heartbeat, seq < h.sequenceId) :
    (validateHeartbeat D.K D.cfg hs call.env call.req hb).1.AgreeAfter seq call.req.agentId
        (validateHeartbeat D.K D.cfg hs' call.env call.req hb).1 ∧
      (validateHeartbeat D.K D.cfg hs call.env call.req hb).2.toOption
        = (validateHeartbeat D.K D.cfg hs' call.env call.req hb).2.toOption := by
  unfold validateHeartbeat
  by_cases hlayer : D.cfg.layer2Enabled = true
  · rw [if_pos hlayer, if_pos hlayer]
    exact validate_agreeAfter D.K D.cfg hst
      (hnew hlayer hb (mem_of_requestHeartbeat hreq hlayer)) _ _
  · rw [if_neg hlayer, if_neg hlayer]
    exact ⟨hst, rfl⟩

/-- A call with a newer heartbeat prepares the same write in both heartbeat states. -/
theorem prepare_agreeAfter (hst : hs.AgreeAfter seq call.req.agentId hs')
    (hnew : D.cfg.layer2Enabled = true → ∀ h ∈ call.req.heartbeat, seq < h.sequenceId) :
    ((call.under hs).prepare D).1.AgreeAfter seq call.req.agentId ((call.under hs').prepare D).1 ∧
      ((call.under hs).prepare D).2.toOption = ((call.under hs').prepare D).2.toOption := by
  unfold AuthorizeCall.prepare AuthorizeCall.under authorizePrepare
  dsimp only
  cases checkClientCert call.env call.req with
  | error e => exact ⟨hst, rfl⟩
  | ok u =>
    cases hreq : requestHeartbeat D.cfg call.req with
    | error e => exact ⟨hst, rfl⟩
    | ok hb =>
      have hval := validateHeartbeat_agreeAfter hst hreq hnew
      dsimp only
      generalize validateHeartbeat D.K D.cfg hs call.env call.req hb = v at hval ⊢
      generalize validateHeartbeat D.K D.cfg hs' call.env call.req hb = v' at hval ⊢
      obtain ⟨hnext, hres⟩ := hval
      match v, v' with
      | (_, .error _), (_, .error _) => exact ⟨hnext, rfl⟩
      | (_, .error _), (_, .ok _) => exact absurd hres (by simp [Except.toOption])
      | (_, .ok _), (_, .error _) => exact absurd hres (by simp [Except.toOption])
      | (_, .ok d), (_, .ok d') =>
        obtain rfl : d = d' := Option.some.inj hres
        cases call.env.mta with
        | error e => exact ⟨hnext, rfl⟩
        | ok mta => exact ⟨hnext, rfl⟩

/-- A denied request leaves the heartbeat state as good as it was for newer heartbeats. -/
theorem agreeAfter_of_denied (h : DeniedTo D x call y) :
    ∃ seq, x.1.AgreeAfter seq call.req.agentId y.1 ∧
      (D.cfg.layer2Enabled = true → ∃ hb ∈ call.req.heartbeat, hb.sequenceId = seq) := by
  obtain ⟨hin, r, htraces, -⟩ := h
  obtain ⟨t, hstep, rfl⟩ := Option.map_eq_some_iff.1 hin
  rcases hprep : (call.under x.1).prepare D with ⟨hs', res⟩
  cases res with
  | error e =>
    have hsame : step D x.2 (.authorize (call.under x.1)) = some x.2 := by
      unfold AuthorizeCall.prepare at hprep
      simp only [step, hprep]
    rw [← Option.some.inj (hsame.symm.trans hstep)] at htraces
    exact absurd (congrArg List.length htraces) (by simp)
  | ok w =>
    obtain ⟨hb, d, mta, hreq, hval, -, -⟩ := authorizePrepare_ok hprep
    refine ⟨hb.sequenceId, ?_, fun hlayer => ⟨hb, mem_of_requestHeartbeat hreq hlayer, rfl⟩⟩
    unfold validateHeartbeat at hval
    by_cases hlayer : D.cfg.layer2Enabled = true
    · rw [if_pos hlayer] at hval
      obtain ⟨hstale, rfl⟩ := validate_ok hval
      exact agreeAfter_accept hstale _
    · rw [if_neg hlayer] at hval
      rw [← (Prod.mk.inj hval).1]
      exact agreeAfter_of_eq rfl

/-- Requests with newer heartbeats are answered alike where the pending sums are the same. -/
theorem accepted_alike {agentId : Uuid} {later : List AuthorizeCall}
    (hlater : ∀ c ∈ later, c.req.agentId = agentId ∧
      (D.cfg.layer2Enabled = true → ∀ h ∈ c.req.heartbeat, seq < h.sequenceId))
    (hst : x.1.AgreeAfter seq agentId y.1) (hsum : SamePending x.2.traces y.2.traces)
    {bs bs' : List Bool} (hb : accepted D x later = some bs) (hb' : accepted D y later = some bs') :
    bs = bs' := by
  induction later generalizing x y bs bs' with
  | nil => exact Option.some.inj (hb.symm.trans hb')
  | cons c later ih =>
    obtain ⟨hagent, hnew⟩ := hlater c (List.mem_cons_self ..)
    simp only [accepted, authorizeIn] at hb hb'
    cases hs : step D x.2 (.authorize (c.under x.1)) with
    | none => rw [hs] at hb; exact absurd hb (by simp)
    | some t =>
      cases hs' : step D y.2 (.authorize (c.under y.1)) with
      | none => rw [hs'] at hb'; exact absurd hb' (by simp)
      | some t' =>
        rw [hs] at hb
        rw [hs'] at hb'
        obtain ⟨hnext, hprep⟩ := prepare_agreeAfter (hagent ▸ hst) hnew
        obtain ⟨hstep, hok⟩ := step_of_prepare hprep y.2
        obtain ⟨hsame, hanswer⟩ := step_samePending hs (hstep.trans hs') hsum
        obtain ⟨cs, hcs, rfl⟩ := Option.map_eq_some_iff.1 hb
        obtain ⟨cs', hcs', rfl⟩ := Option.map_eq_some_iff.1 hb'
        rw [hanswer, hok, ih (fun c hc => hlater c (List.mem_cons_of_mem _ hc)) (hagent ▸ hnext)
          hsame hcs hcs']

end Alike

/-- A denied request of notional zero leaves every pending sum as it is. -/
theorem consumesNoCap_of_zero {K : Crates} {notional : F64} (h : notional.toRat = 0) :
    ConsumesNoCap K notional := by
  intro D x y call _ _ hdenied hn later hlater bs bs' hb hb'
  obtain ⟨seq, hst, hseq⟩ := agreeAfter_of_denied hdenied
  refine accepted_alike (fun c hc => ⟨(hlater c hc).1, fun hlayer h' hh' => ?_⟩) hst ?_ hb hb'
  · obtain ⟨hb, hmem, rfl⟩ := hseq hlayer
    exact (hlater c hc).2 hlayer hb hmem h' hh'
  · intro agentId
    obtain ⟨hin, r, htraces, -⟩ := hdenied
    obtain ⟨t, hstep, rfl⟩ := Option.map_eq_some_iff.1 hin
    rcases step_authorize_cases hstep with ⟨rfl, -⟩ | ⟨q, rfl, hq⟩
    · exact absurd (congrArg List.length htraces) (by simp)
    · have hzero : q.executionNotional = 0 := by
        rw [hq.executionNotional]
        exact (congrArg F64.toRat hn).trans h
      show pendingSum x.2.traces agentId = pendingSum (x.2.traces ++ [q]) agentId
      rw [pendingSum_append, pendingSum_cons, hzero]
      simp

section Orders

variable {K : Crates} {s : System} {traceId : Uuid} {notional cap : F64}

theorem authorizeIn_buy (hle : notional.toRat ≤ cap.toRat)
    (hfresh : traceId ∉ s.traces.map TraceRow.traceId) :
    authorizeIn (.plain K) (.init, s) (.order traceId "buy" notional cap)
      = some (.init, { s with
          traces := if cap.toRat < pendingSum s.traces (.fill 1) + notional.toRat then s.traces
            else s.traces ++ [buyRow K traceId notional] }) := by
  show (step (.plain K) s (.authorize (.order traceId "buy" notional cap))).map _ = _
  rw [step_buy s hle hfresh]
  exact congrArg (fun x => some (x.1, _)) (prepare_buy hle)

theorem authorizeIn_sell (hfresh : traceId ∉ s.traces.map TraceRow.traceId) :
    authorizeIn (.plain K) (.init, s) (.order traceId "sell" notional cap)
      = some (.init, { s with traces := s.traces ++ [sellRow K traceId notional] }) := by
  obtain ⟨e, hprep⟩ := prepare_sell K traceId notional cap
  show (step (.plain K) s (.authorize (.order traceId "sell" notional cap))).map _ = _
  rw [step_sell s hfresh]
  exact congrArg (fun x => some (x.1, _)) hprep

theorem pendingSum_buyRow : pendingSum (s.traces ++ [buyRow K traceId notional]) (.fill 1)
    = pendingSum s.traces (.fill 1) + notional.toRat := by
  rw [pendingSum_append, pendingSum_cons, if_pos ⟨rfl, rfl⟩, pendingSum_nil, add_zero]
  rfl

theorem accepted_buy (hle : notional.toRat ≤ cap.toRat)
    (hfresh : traceId ∉ s.traces.map TraceRow.traceId) (calls : List AuthorizeCall) :
    accepted (.plain K) (.init, s) (.order traceId "buy" notional cap :: calls)
      = (accepted (.plain K) (.init, { s with
          traces := if cap.toRat < pendingSum s.traces (.fill 1) + notional.toRat then s.traces
            else s.traces ++ [buyRow K traceId notional] }) calls).map
          fun bs => decide (pendingSum s.traces (.fill 1) + notional.toRat ≤ cap.toRat) :: bs := by
  have hanswer : (((AuthorizeCall.order traceId "buy" notional cap).under .init).answer (.plain K)
      s.traces).isOk = _ := answer_buy hle s.traces
  rw [accepted, authorizeIn_buy hle hfresh]
  simp only [hanswer]

/-- Two orders to buy, each for the whole cap: what is pending before decides on both. -/
theorem accepted_twice (hpos : 0 < notional.toRat)
    (hids : ∀ id ∈ s.traces.map TraceRow.traceId, id = .fill 2) :
    accepted (.plain K) (.init, s)
        [.order (.fill 3) "buy" notional notional, .order (.fill 4) "buy" notional notional]
      = some [decide (pendingSum s.traces (.fill 1) ≤ 0),
          decide (pendingSum s.traces (.fill 1) + notional.toRat ≤ 0)] := by
  have h3 : Uuid.fill 3 ∉ s.traces.map TraceRow.traceId := fun h => absurd (hids _ h) (by decide)
  have h4 : Uuid.fill 4 ∉ s.traces.map TraceRow.traceId := fun h => absurd (hids _ h) (by decide)
  rw [accepted_buy (le_refl _) h3]
  by_cases hroom : notional.toRat < pendingSum s.traces (.fill 1) + notional.toRat
  · -- the first order finds no room, and neither does the second
    rw [if_pos hroom, accepted_buy (le_refl _) h4]
    have hsum : ¬ pendingSum s.traces (.fill 1) ≤ 0 := by linarith
    have hsum' : ¬ pendingSum s.traces (.fill 1) + notional.toRat ≤ 0 := by linarith
    simp [accepted, hsum, hsum', not_le.2 hroom]
  · have h4' : Uuid.fill 4 ∉ (s.traces ++ [buyRow K (.fill 3) notional]).map TraceRow.traceId := by
      rw [List.map_append, List.mem_append, not_or]
      exact ⟨h4,
        fun h => absurd (show Uuid.fill 4 = .fill 3 from List.mem_singleton.1 h) (by decide)⟩
    rw [if_neg hroom, accepted_buy (le_refl _) h4', pendingSum_buyRow]
    simp [accepted]

theorem deniedTo_sell (K : Crates) (notional cap : F64) :
    DeniedTo (.plain K) (.init, .init) (.order (.fill 2) "sell" notional cap)
      (.init, ⟨[sellRow K (.fill 2) notional], [], []⟩) :=
  ⟨authorizeIn_sell (by simp [System.init]), sellRow K (.fill 2) notional, rfl, Or.inl rfl⟩

theorem pendingSum_sellRow (K : Crates) (notional : F64) :
    pendingSum [sellRow K (.fill 2) notional] (.fill 1) = notional.toRat := by
  rw [pendingSum_cons, if_pos ⟨rfl, rfl⟩, pendingSum_nil, add_zero]
  rfl

end Orders

/-- **Denied requests and the cap**: a denied request leaves all later decisions alone
exactly when its notional is zero. -/
theorem denied_consumes_iff (K : Crates) (notional : F64) :
    ConsumesNoCap K notional ↔ notional.toRat = 0 := by
  refine ⟨fun h => ?_, consumesNoCap_of_zero⟩
  by_contra hne
  have hpos : 0 < notional.abs.toRat := by
    rw [F64.toRat_abs]
    exact abs_pos.2 hne
  -- the later orders are for the notional without its sign, which is also the cap
  have hwithout := accepted_twice (K := K) (s := .init) hpos (by simp [System.init])
  have hwith := accepted_twice (K := K) (s := ⟨[sellRow K (.fill 2) notional], [], []⟩) hpos
    (fun id hid => List.mem_singleton.1 hid)
  have hsame := h (.plain K) (.init, .init) _ (.order (.fill 2) "sell" notional notional.abs)
    rfl ⟨[], rfl⟩ (deniedTo_sell K _ _) rfl _ ?_ _ _ hwithout hwith
  · rw [pendingSum_sellRow, F64.toRat_abs] at hsame
    have hinit : pendingSum System.init.traces (.fill 1) = 0 := rfl
    rw [hinit, zero_add] at hsame
    obtain ⟨hfirst, hsecond⟩ : notional.toRat ≤ 0 ∧ 0 < notional.toRat + |notional.toRat| := by
      simpa [hne] using hsame
    rw [abs_of_nonpos hfirst] at hsecond
    linarith
  · intro c hc
    simp only [List.mem_cons, List.not_mem_nil, or_false] at hc
    rcases hc with rfl |
      rfl <;> exact ⟨rfl, fun hlayer => absurd hlayer (by simp [Deployment.plain, Config.sample])⟩

/-- A halted order of notional 1 takes up a cap of 1. -/
theorem denied_consumes_cap :
    ∃ (x y : HeartbeatState × System) (call : AuthorizeCall) (later : List AuthorizeCall),
      Reachable .sample x.2 ∧ DeniedTo .sample x call y ∧
      (∀ c ∈ later, c.req.agentId = call.req.agentId) ∧
      accepted .sample x later = some [true] ∧ accepted .sample y later = some [false] := by
  refine ⟨(.init, .init), _, .order (.fill 2) "sell" F64.one F64.one,
    [.order (.fill 3) "buy" F64.one F64.one], ⟨[], rfl⟩, deniedTo_sell .sample _ _, ?_, ?_, ?_⟩
  · intro c hc
    rw [List.mem_singleton.1 hc]
    rfl
  · rw [Deployment.sample, accepted_buy (le_refl _) (by simp [System.init])]
    simp [accepted, System.init]
  · rw [Deployment.sample,
      accepted_buy (le_refl _) (fun h => absurd (List.mem_singleton.1 h) (by decide)),
      pendingSum_sellRow]
    simp [accepted]

end IrlEngine
