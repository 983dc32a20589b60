import IrlEngine.Exposure

/-!
# Denied orders

An order can be denied in two places: by `policy::enforce`, before anything is written,
and by the portfolio check inside the transaction that inserts its row.  A denial of the
first kind is stored as `HALTED`, or let through and stored as `SHADOW_HALTED`; one of
the second kind rolls the insert back, whatever the mode.

* `Checked` — what a call has read when it has passed every check before the policy;
* `denials_recorded_iff` — which denials leave a `HALTED` row;
* `shadow_lets_through_iff` — which orders shadow mode lets through, along every run.
-/

namespace IrlEngine

/-- The two errors that deny an order. -/
def AppError.isDenial : AppError → Bool
  | .policy (.regimeViolation _ _ _ _) => true
  | .policy (.notionalExceedsLimit _ _ _ _) => true
  | _ => false

/-! ## Calls that reach the policy -/

/-- A call has passed the certificate, heartbeat, MTA, registry and bitemporal checks, with this
heartbeat, drift, MTA state and agent profile. -/
structure Checked (D : Deployment) (call : AuthorizeCall) (hb : SignedHeartbeat) (driftMs : Int64)
    (mta : MtaState) (profile : AgentProfile) : Prop where
  cert : checkClientCert call.env call.req = .ok ()
  heartbeat : requestHeartbeat D.cfg call.req = .ok hb
  drift : (validateHeartbeat D.K D.cfg call.hs call.env call.req hb).2 = .ok driftMs
  state : call.env.mta = .ok mta
  mtaRef : checkMtaRef D.cfg hb mta = .ok ()
  agent : ∃ modelHash, decodeModelHash call.req = .ok modelHash ∧
    authorizeAgent call.agents call.req.agentId modelHash mta.regimeId mta.pubkeyFingerprint
      = .ok profile
  bitemporal : verifyBitemporal (call.req.snapshot call.env mta hb) = .ok ()

/-- The trace table after a call that finds it as `traces`. -/
def AuthorizeCall.tableAfter (D : Deployment) (traces : List TraceRow) (call : AuthorizeCall) :
    List TraceRow :=
  (authorize D.K D.cfg call.agents traces call.hs call.env call.req).2.1

/-- Is the order within the constraints of the regime, taken by itself? -/
def AuthorizeCall.Within (call : AuthorizeCall) (mta : MtaState) (profile : AgentProfile) : Prop :=
  WithinConstraints mta call.req.effectiveAction call.req.notional profile.maxNotional
    call.req.reduceOnly

/-- Does the order exceed the cap together with the pending orders of the agent? -/
def AuthorizeCall.OverPortfolio (call : AuthorizeCall) (traces : List TraceRow) (mta : MtaState)
    (profile : AgentProfile) : Prop :=
  call.req.reduceOnly = false ∧ effectiveCap mta profile.maxNotional
    < pendingSum traces call.req.agentId + call.req.notional.toRat

/-- The decision that is stored for an order outside the constraints. -/
def AuthorizeCall.refusal (call : AuthorizeCall) (mta : MtaState) (profile : AgentProfile)
    (result : PolicyResult) : PolicyDecision :=
  { evaluate mta call.req.effectiveAction call.req.notional profile.maxNotional
      call.req.reduceOnly with result := result }

/-- What a call passes to the insert for a decision. -/
def AuthorizeCall.argsFor (D : Deployment) (call : AuthorizeCall) (hb : SignedHeartbeat)
    (driftMs : Int64) (mta : MtaState) (d : PolicyDecision) : InsertArgs :=
  insertArgs D.K D.cfg call.env call.req mta driftMs (call.req.snapshot call.env mta hb) d

/-- The trace can be encrypted, if there is a key provider, and its two timestamps are dates.  That
the `INSERT` is accepted by the types of the columns is left to the database: numbers within
`NUMERIC(20,8)` and `NUMERIC(10,6)`, and no text with a `U+0000`. -/
structure Storable (K : Crates) (a : InsertArgs) : Prop where
  json : (storeJson K a.key (a.trace.toJson K).normalize).isOk = true
  validTime : (DateTime.ofMillis a.snapshot.validTime).isSome = true
  txnTime : (DateTime.ofMillis a.snapshot.txnTime).isSome = true

theorem storable_iff {K : Crates} {a : InsertArgs} : Storable K a ↔ ∃ r, traceRow K a = .ok r := by
  constructor
  · rintro ⟨hjson, hvalid, htxn⟩
    obtain ⟨validTime, hv⟩ := Option.isSome_iff_exists.1 hvalid
    obtain ⟨txnTime, ht⟩ := Option.isSome_iff_exists.1 htxn
    unfold traceRow
    cases hstore : storeJson K a.key (a.trace.toJson K).normalize with
    | error e => rw [hstore] at hjson; exact absurd hjson (by simp [Except.isOk, Except.toBool])
    | ok stored => exact ⟨a.row stored validTime txnTime, by simp only [hv, ht]⟩
  · rintro ⟨r, hr⟩
    obtain ⟨stored, validTime, txnTime, hjson, hv, ht, -⟩ := traceRow_ok hr
    exact ⟨by rw [hjson]; rfl, by rw [hv]; rfl, by rw [ht]; rfl⟩

/-- A row that cannot be built is no denial. -/
theorem isDenial_of_traceRow {K : Crates} {a : InsertArgs} {e : AppError}
    (h : traceRow K a = .error e) : e.isDenial = false := by
  unfold traceRow at h
  cases hstore : storeJson K a.key (a.trace.toJson K).normalize with
  | error e' =>
    rw [hstore] at h
    obtain rfl := Except.error.inj h
    unfold storeJson encryptJson at hstore
    split at hstore
    · split at hstore
      · obtain rfl := Except.error.inj hstore
        rfl
      · split at hstore
        · obtain rfl := Except.error.inj hstore
          rfl
        · exact absurd hstore (by simp)
    · exact absurd hstore (by simp)
  | ok stored =>
    simp only [hstore] at h
    split at h
    · obtain rfl := Except.error.inj h
      rfl
    · split at h
      · obtain rfl := Except.error.inj h
        rfl
      · exact absurd h (by simp)

section Checked

variable {D : Deployment} {call : AuthorizeCall} {hb : SignedHeartbeat} {driftMs : Int64}
  {mta : MtaState} {profile : AgentProfile} {traces : List TraceRow} {e : AppError}

theorem Checked.prepare (h : Checked D call hb driftMs mta profile) :
    (call.prepare D).2 = .ok (enforcePolicy D.K D.cfg call.env call.req mta profile driftMs
      (call.req.snapshot call.env mta hb)) := by
  obtain ⟨modelHash, hhash, hagent⟩ := h.agent
  rcases hval : validateHeartbeat D.K D.cfg call.hs call.env call.req hb with ⟨hs', r⟩
  obtain rfl : r = .ok driftMs := by
    have hdrift := h.drift
    rwa [hval] at hdrift
  unfold AuthorizeCall.prepare
  rw [authorizePrepare_eq h.cert h.heartbeat hval h.state h.mtaRef hhash hagent h.bitemporal]

/-- A call that has decided on a write goes on to make it. -/
theorem outcome_of_prepare (traces : List TraceRow) {w : AuthorizeWrite}
    (h : (call.prepare D).2 = .ok w) :
    call.tableAfter D traces = (authorizeCommit D.K traces w).1 ∧
      call.answer D traces = (authorizeCommit D.K traces w).2 := by
  unfold AuthorizeCall.tableAfter AuthorizeCall.answer authorize
  rw [h]
  unfold AuthorizeCall.prepare at h
  rcases hprep : authorizePrepare D.K D.cfg call.agents call.hs call.env call.req with ⟨hs', r⟩
  rw [hprep] at h
  obtain rfl : r = .ok w := h
  exact ⟨rfl, rfl⟩

theorem isDenial_of_checkConstraints {action : TradeAction} {n c : F64} {ro : Bool}
    (h : checkConstraints mta action n c ro = .error e) : e.isDenial = true := by
  unfold checkConstraints at h
  split at h
  · obtain rfl := Except.error.inj h
    rfl
  · split at h
    · obtain rfl := Except.error.inj h
      rfl
    · exact absurd h (by simp)

/-- Outside the constraints the order is halted, or let through in shadow mode. -/
theorem enforcePolicy_outside (D : Deployment) (hb : SignedHeartbeat) (driftMs : Int64)
    (hout : ¬ call.Within mta profile) :
    ∃ e, e.isDenial = true ∧ enforcePolicy D.K D.cfg call.env call.req mta profile driftMs
        (call.req.snapshot call.env mta hb)
      = if call.env.shadowMode then
          .commit (call.argsFor D hb driftMs mta (call.refusal mta profile .shadowHalted)) none true
        else .halted (call.argsFor D hb driftMs mta (call.refusal mta profile .halted)) e := by
  have hhalted : call.refusal mta profile .halted = evaluate mta call.req.effectiveAction
      call.req.notional profile.maxNotional call.req.reduceOnly := by
    unfold AuthorizeCall.refusal
    rw [← evaluate_halted hout]
  unfold enforcePolicy
  cases hc : checkConstraints mta call.req.effectiveAction call.req.notional profile.maxNotional
      call.req.reduceOnly with
  | ok u => exact absurd (checkConstraints_ok_iff.1 hc) hout
  | error e =>
    refine ⟨e, isDenial_of_checkConstraints hc, ?_⟩
    rw [hhalted]
    simp only [enforce, hc, bind, Except.bind]
    rfl

theorem not_overPortfolio_iff : ¬ call.OverPortfolio traces mta profile ↔
    call.req.reduceOnly = true ∨ pendingSum traces call.req.agentId + call.req.notional.toRat
      ≤ effectiveCap mta profile.maxNotional := by
  unfold AuthorizeCall.OverPortfolio
  rw [not_and_or, not_lt, Bool.not_eq_false]

/-- Within the constraints, the portfolio check decides: over the cap the order is denied and
nothing is written. -/
theorem outcome_over (hwithin : call.Within mta profile)
    (h : Checked D call hb driftMs mta profile) (hover : call.OverPortfolio traces mta profile) :
    call.tableAfter D traces = traces ∧
      ∃ e, call.answer D traces = .error e ∧ e.isDenial = true := by
  obtain ⟨hro, hcap⟩ := hover
  have hprep := h.prepare
  rw [enforcePolicy_allowed driftMs _ hwithin, hro] at hprep
  obtain ⟨htable, hanswer⟩ := outcome_of_prepare traces hprep
  have hcheck : ∀ d, capCheck traces (insertArgs D.K D.cfg call.env call.req mta driftMs
      (call.req.snapshot call.env mta hb) d)
      (some (effectiveCap mta profile.maxNotional, mta.regimeLabel))
      = .error (.policy (.notionalExceedsLimit
          (pendingSum traces call.req.agentId + call.req.notional.toRat)
          (effectiveCap mta profile.maxNotional) mta.regimeLabel "IrlConstraintPolicy")) :=
    fun d => if_pos hcap
  rw [htable, hanswer]
  simp only [authorizeCommit, insertTraceAtomic, Bool.not_false, if_true, hcheck]
  exact ⟨trivial, _, rfl, rfl⟩

/-- Under the cap no denial is left. -/
theorem answer_under (hwithin : call.Within mta profile)
    (h : Checked D call hb driftMs mta profile) (hunder : ¬ call.OverPortfolio traces mta profile)
    (he : call.answer D traces = .error e) : e.isDenial = false := by
  have hprep := h.prepare
  rw [enforcePolicy_allowed driftMs _ hwithin] at hprep
  obtain ⟨-, hanswer⟩ := outcome_of_prepare traces hprep
  rw [hanswer] at he
  simp only [authorizeCommit, insertTraceAtomic] at he
  have hcheck : capCheck traces (insertArgs D.K D.cfg call.env call.req mta driftMs
      (call.req.snapshot call.env mta hb) ⟨.allowed, policyIdText, policyVersionText,
      constraintHash mta⟩)
      (if !call.req.reduceOnly then some (effectiveCap mta profile.maxNotional, mta.regimeLabel)
        else none) = .ok () := by
    rcases not_overPortfolio_iff.1 hunder with hro | hle
    · rw [hro]
      rfl
    · cases hro : call.req.reduceOnly with
      | true => rfl
      | false => exact if_neg (not_lt.2 hle)
  rw [hcheck] at he
  simp only [insertTrace] at he
  split at he
  · exact absurd he (by simp)
  · rename_i heq
    obtain rfl := Except.error.inj he
    split at heq
    · rename_i hrow
      obtain rfl := Except.error.inj heq
      exact isDenial_of_traceRow hrow
    · exact absurd heq (by simp)

/-- In shadow mode an order outside the constraints is stored as `SHADOW_HALTED` if it can be
stored at all, and is not denied either way. -/
theorem outcome_shadow (traces : List TraceRow) (hout : ¬ call.Within mta profile)
    (h : Checked D call hb driftMs mta profile) (hmode : call.env.shadowMode = true) :
    (∀ e, call.answer D traces = .error e → e.isDenial = false) ∧
      ((∃ r, traceRow D.K (call.argsFor D hb driftMs mta (call.refusal mta profile .shadowHalted))
          = .ok r ∧ call.tableAfter D traces = traces ++ [r]) ∨
        (¬ Storable D.K (call.argsFor D hb driftMs mta (call.refusal mta profile .shadowHalted)) ∧
          call.tableAfter D traces = traces)) := by
  obtain ⟨e₀, -, hpolicy⟩ := enforcePolicy_outside D hb driftMs hout
  rw [hmode, if_pos rfl] at hpolicy
  obtain ⟨htable, hanswer⟩ := outcome_of_prepare traces (h.prepare.trans (congrArg _ hpolicy))
  rw [htable, hanswer, storable_iff]
  have hcheck : capCheck traces (call.argsFor D hb driftMs mta
      (call.refusal mta profile .shadowHalted)) none = .ok () := rfl
  simp only [authorizeCommit, insertTraceAtomic, hcheck, insertTrace]
  cases hrow : traceRow D.K
    (call.argsFor D hb driftMs mta (call.refusal mta profile .shadowHalted)) with
  | ok r => exact ⟨fun e he => absurd he (by simp), Or.inl ⟨r, rfl, rfl⟩⟩
  | error e =>
    refine ⟨fun e' he => ?_, Or.inr ⟨by simp, rfl⟩⟩
    obtain rfl := Except.error.inj he
    exact isDenial_of_traceRow hrow

/-- With enforcement on, an order outside the constraints is denied, and stored as `HALTED` if it
can be stored at all. -/
theorem outcome_halted (traces : List TraceRow) (hout : ¬ call.Within mta profile)
    (h : Checked D call hb driftMs mta profile) (hmode : call.env.shadowMode = false) :
    (∃ e, call.answer D traces = .error e ∧ e.isDenial = true) ∧
    ((∃ r, traceRow D.K (call.argsFor D hb driftMs mta (call.refusal mta profile .halted)) = .ok r ∧
        call.tableAfter D traces = traces ++ [r]) ∨
      (¬ Storable D.K (call.argsFor D hb driftMs mta (call.refusal mta profile .halted)) ∧
        call.tableAfter D traces = traces)) := by
  obtain ⟨e₀, hdenial, hpolicy⟩ :=
    enforcePolicy_outside D hb driftMs hout
  rw [hmode, if_neg Bool.false_ne_true] at hpolicy
  obtain ⟨htable, hanswer⟩ :=
    outcome_of_prepare traces (h.prepare.trans (congrArg _ hpolicy))
  rw [htable, hanswer, storable_iff]
  simp only [authorizeCommit, insertTrace]
  cases hrow : traceRow D.K (call.argsFor D hb driftMs mta (call.refusal mta profile .halted)) with
  | ok r => exact ⟨⟨e₀, rfl, hdenial⟩, Or.inl ⟨r, rfl, rfl⟩⟩
  | error e => exact ⟨⟨e₀, rfl, hdenial⟩, Or.inr ⟨by simp, rfl⟩⟩

end Checked

/-! ## Which denials are recorded -/

/-- A row of this result for the snapshot of the call is in the table. -/
def AuthorizeCall.RecordedAs (call : AuthorizeCall) (K : Crates) (hb : SignedHeartbeat)
    (mta : MtaState) (result : PolicyResult) (traces : List TraceRow) : Prop :=
  ∃ r ∈ traces, r.traceId = call.env.traceId ∧ r.policyResult = result ∧
    r.reasoningHash = (call.req.snapshot call.env mta hb).seal K

section Recorded

variable {D : Deployment} {call : AuthorizeCall} {hb : SignedHeartbeat} {driftMs : Int64}
  {mta : MtaState} {profile : AgentProfile} {traces : List TraceRow} {result : PolicyResult}

theorem recordedAs_of_row {r : TraceRow}
    (hrow : traceRow D.K (call.argsFor D hb driftMs mta (call.refusal mta profile result))
      = .ok r) :
    call.RecordedAs D.K hb mta result (traces ++ [r]) := by
  obtain ⟨stored, validTime, txnTime, -, -, -, rfl⟩ := traceRow_ok hrow
  exact ⟨_, List.mem_append_right _ (List.mem_singleton_self _), rfl, rfl, rfl⟩

theorem not_recordedAs (hfresh : call.env.traceId ∉ traces.map TraceRow.traceId) :
    ¬ call.RecordedAs D.K hb mta result traces := by
  rintro ⟨r, hr, hid, -⟩
  exact hfresh (hid ▸ List.mem_map_of_mem hr)

end Recorded

/-- **Denials on record.**  Of the calls that pass every check before the policy and are then
denied, those leave a `HALTED` row whose order is itself outside the constraints and whose trace
can be stored; a denial by the portfolio check leaves none. -/
theorem denials_recorded_iff (D : Deployment) (traces : List TraceRow) (call : AuthorizeCall)
    {hb : SignedHeartbeat} {driftMs : Int64} {mta : MtaState} {profile : AgentProfile}
    (hchecked : Checked D call hb driftMs mta profile)
    (hfresh : call.env.traceId ∉ traces.map TraceRow.traceId) {e : AppError}
    (hanswer : call.answer D traces = .error e) (hdenial : e.isDenial = true) :
    call.RecordedAs D.K hb mta .halted (call.tableAfter D traces) ↔
      ¬ call.Within mta profile ∧
        Storable D.K (call.argsFor D hb driftMs mta (call.refusal mta profile .halted)) := by
  by_cases hwithin : call.Within mta profile
  · -- the portfolio check has denied the order, and the insert is rolled back
    have hover : call.OverPortfolio traces mta profile := by
      by_contra hunder
      rw [answer_under hwithin hchecked hunder hanswer] at hdenial
      exact absurd hdenial (by simp)
    rw [(outcome_over hwithin hchecked hover).1]
    exact iff_of_false (not_recordedAs hfresh) fun h => h.1 hwithin
  · have hmode : call.env.shadowMode = false := by
      by_contra hshadow
      have hshadow : call.env.shadowMode = true := by simpa using hshadow
      rw [(outcome_shadow traces hwithin hchecked hshadow).1 e hanswer] at hdenial
      exact absurd hdenial (by simp)
    rcases (outcome_halted traces hwithin hchecked hmode).2 with
      ⟨r, hrow, htable⟩ | ⟨hnot, htable⟩
    · rw [htable]
      exact iff_of_true (recordedAs_of_row hrow) ⟨hwithin, storable_iff.2 ⟨r, hrow⟩⟩
    · rw [htable]
      exact iff_of_false (not_recordedAs hfresh) fun h => hnot h.2

/-! ## Shadow mode -/

/-- A call in shadow mode that passes every check before the policy, with a new trace id. -/
structure Shadowed (D : Deployment) (s : System) (call : AuthorizeCall) (hb : SignedHeartbeat)
    (driftMs : Int64) (mta : MtaState) (profile : AgentProfile) : Prop where
  mode : call.env.shadowMode = true
  checked : Checked D call hb driftMs mta profile
  fresh : call.env.traceId ∉ s.traces.map TraceRow.traceId

/-- The order is not denied, and if it violates a limit, by itself or together with the pending
orders, this is on record as `SHADOW_HALTED`. -/
def LetThrough (D : Deployment) (s : System) (call : AuthorizeCall) (hb : SignedHeartbeat)
    (mta : MtaState) (profile : AgentProfile) : Prop :=
  (∀ e, call.answer D s.traces = .error e → e.isDenial = false) ∧
    (¬ call.Within mta profile ∨ call.OverPortfolio s.traces mta profile →
      call.RecordedAs D.K hb mta .shadowHalted (call.tableAfter D s.traces))

/-- An order within the constraints is also within the portfolio cap, and any other order can be
stored. -/
def ShadowOpen (D : Deployment) (s : System) (call : AuthorizeCall) (hb : SignedHeartbeat)
    (driftMs : Int64) (mta : MtaState) (profile : AgentProfile) : Prop :=
  (call.Within mta profile → ¬ call.OverPortfolio s.traces mta profile) ∧
    (¬ call.Within mta profile →
      Storable D.K (call.argsFor D hb driftMs mta (call.refusal mta profile .shadowHalted)))

theorem letThrough_iff {D : Deployment} {s : System} {call : AuthorizeCall} {hb : SignedHeartbeat}
    {driftMs : Int64} {mta : MtaState} {profile : AgentProfile}
    (h : Shadowed D s call hb driftMs mta profile) :
    LetThrough D s call hb mta profile ↔ ShadowOpen D s call hb driftMs mta profile := by
  unfold LetThrough ShadowOpen
  by_cases hwithin : call.Within mta profile
  · by_cases hover : call.OverPortfolio s.traces mta profile
    · obtain ⟨-, e, he, hdenial⟩ := outcome_over hwithin h.checked hover
      refine iff_of_false (fun hlet => ?_) fun hopen => hopen.1 hwithin hover
      rw [hlet.1 e he] at hdenial
      exact absurd hdenial (by simp)
    · refine iff_of_true ⟨fun e he => answer_under hwithin h.checked hover he, fun hor => ?_⟩
        ⟨fun _ => hover, fun hout => absurd hwithin hout⟩
      exact absurd hor (not_or.2 ⟨not_not.2 hwithin, hover⟩)
  · obtain ⟨hanswer, hcases⟩ := outcome_shadow s.traces hwithin h.checked h.mode
    rcases hcases with ⟨r, hrow, htable⟩ | ⟨hnot, htable⟩
    · rw [htable]
      exact iff_of_true ⟨hanswer, fun _ => recordedAs_of_row hrow⟩
        ⟨fun hw => absurd hw hwithin, fun _ => storable_iff.2 ⟨r, hrow⟩⟩
    · rw [htable]
      exact iff_of_false (fun hlet => not_recordedAs h.fresh (hlet.2 (Or.inl hwithin)))
        fun hopen => hnot (hopen.2 hwithin)

/-- **Shadow mode and the portfolio cap.**  Along every run, the calls made in shadow mode are all
let through, with their violations on record as `SHADOW_HALTED`, if and only if each of them that
is within the constraints is also within the portfolio cap, and each other one can be stored. -/
theorem shadow_lets_through_iff (D : Deployment) (es : List Event) :
    Run.Along (step D) (fun s e => ∀ call hb driftMs mta profile, e = .authorize call →
        Shadowed D s call hb driftMs mta profile → LetThrough D s call hb mta profile) .init es ↔
      Run.Along (step D) (fun s e => ∀ call hb driftMs mta profile, e = .authorize call →
        Shadowed D s call hb driftMs mta profile → ShadowOpen D s call hb driftMs mta profile)
        .init es := by
  refine Run.along_iff_of_invariant (I := fun _ => True) (fun _ _ _ _ _ => trivial) ?_ trivial es
  intro s e _
  constructor
  · intro h call hb driftMs mta profile he hshadowed
    exact (letThrough_iff hshadowed).1 (h call hb driftMs mta profile he hshadowed)
  · intro h call hb driftMs mta profile he hshadowed
    exact (letThrough_iff hshadowed).2 (h call hb driftMs mta profile he hshadowed)

/-! Orders of notional 1 of the sample agent, under a cap of 1. -/

/-- An order to buy or to sell, in the given mode. -/
def AuthorizeCall.inMode (shadowMode : Bool) (traceId : Uuid) (action : String) : AuthorizeCall :=
  { AuthorizeCall.order traceId action F64.one F64.one with
    env := { AuthorizeEnv.sample traceId with shadowMode := shadowMode } }

theorem checked_inMode (mode : Bool) (traceId : Uuid) (action : String) :
    Checked .sample (.inMode mode traceId action) ⟨0, 1, 0, "", []⟩ 0 .sample
      (.sample (.fill 1) F64.one) := by
  refine ⟨rfl, rfl, rfl, rfl, rfl, ⟨List.replicate 32 0, ?_, authorizeAgent_sample ..⟩, rfl⟩
  rw [decodeModelHash, show (AuthorizeCall.inMode mode traceId action).req.modelHashHex
    = sampleModelHash from rfl, hexDecodeText_sample]
  rfl

/-- The state after one accepted order. -/
def cappedState : System := ⟨[buyRow .sample (.fill 2) F64.one], [], []⟩

theorem run_capped : Run.run (step .sample) .init
    [.authorize (.order (.fill 2) "buy" F64.one F64.one)] = some cappedState := by
  have hcap : ¬ F64.one.toRat < pendingSum System.init.traces (.fill 1) + F64.one.toRat := by
    rw [System.init, pendingSum_nil, zero_add]
    exact lt_irrefl _
  have hfresh : Uuid.fill 2 ∉ System.init.traces.map TraceRow.traceId := by simp [System.init]
  have hstep := step_buy (K := .sample) .init (le_refl F64.one.toRat) hfresh
  rw [if_neg hcap] at hstep
  exact Run.run_cons hstep []

theorem within_buy (mode : Bool) (traceId : Uuid) :
    (AuthorizeCall.inMode mode traceId "buy").Within .sample (.sample (.fill 1) F64.one) := by
  have hside : sideAllowed .sample (.custom "buy") = true := by decide
  refine ⟨Or.inr hside, ?_⟩
  show F64.one.toRat ≤ effectiveCap .sample F64.one
  rw [effectiveCap_sample]

theorem outside_sell (mode : Bool) (traceId : Uuid) :
    ¬ (AuthorizeCall.inMode mode traceId "sell").Within .sample (.sample (.fill 1) F64.one) := by
  rintro ⟨hside, -⟩
  revert hside
  show ¬ (false = true ∨ sideAllowed .sample (.custom "sell") = true)
  decide

/-- The second order to buy exceeds the cap together with the first. -/
theorem over_buy (mode : Bool) (traceId : Uuid) :
    (AuthorizeCall.inMode mode traceId "buy").OverPortfolio cappedState.traces .sample
      (.sample (.fill 1) F64.one) := by
  refine ⟨rfl, ?_⟩
  have hsum : pendingSum cappedState.traces (.fill 1) = F64.one.toRat := by
    rw [cappedState, pendingSum_cons, pendingSum_nil, add_zero]
    exact if_pos ⟨rfl, rfl⟩
  show effectiveCap .sample F64.one < pendingSum cappedState.traces (.fill 1) + F64.one.toRat
  rw [hsum, effectiveCap_sample, F64.toRat_one]
  norm_num

theorem fresh_capped : (Uuid.fill 3) ∉ cappedState.traces.map TraceRow.traceId := by
  show Uuid.fill 3 ∉ [Uuid.fill 2]
  decide

/-- The order to sell is denied by the policy, and on record. -/
theorem denials_recorded_sell :
    (AuthorizeCall.inMode false (.fill 3) "sell").RecordedAs .sample ⟨0, 1, 0, "", []⟩ .sample
      .halted ((AuthorizeCall.inMode false (.fill 3) "sell").tableAfter .sample
        cappedState.traces) := by
  have hchecked := checked_inMode false (.fill 3) "sell"
  obtain ⟨⟨e, hanswer, hdenial⟩, -⟩ := outcome_halted cappedState.traces
    (outside_sell false (.fill 3)) hchecked rfl
  refine (denials_recorded_iff .sample cappedState.traces _ hchecked fresh_capped hanswer
    hdenial).2 ⟨outside_sell false (.fill 3), ?_⟩
  exact ⟨rfl, by decide, by decide⟩

/-- The second order to buy passes every check before the policy, is denied, and leaves no row. -/
theorem denial_unrecorded : ∃ es s call hb driftMs mta profile e,
    Run.run (step .sample) .init es = some s ∧ Checked .sample call hb driftMs mta profile ∧
    call.env.traceId ∉ s.traces.map TraceRow.traceId ∧
    call.answer .sample s.traces = .error e ∧ e.isDenial = true ∧
    ¬ call.RecordedAs .sample hb mta .halted (call.tableAfter .sample s.traces) := by
  have hchecked := checked_inMode false (.fill 3) "buy"
  obtain ⟨htable, e, hanswer, hdenial⟩ := outcome_over (within_buy false (.fill 3)) hchecked
    (over_buy false (.fill 3))
  refine ⟨_, cappedState, _, _, _, _, _, e, run_capped, hchecked, fresh_capped,
    hanswer, hdenial, ?_⟩
  rw [htable]
  exact not_recordedAs (D := .sample) fresh_capped

/-- In shadow mode, too, the second order to buy is denied. -/
theorem shadow_blocks : ∃ es s call hb driftMs mta profile,
    Run.run (step .sample) .init es = some s ∧ Shadowed .sample s call hb driftMs mta profile ∧
    ¬ LetThrough .sample s call hb mta profile ∧
    ∃ e, call.answer .sample s.traces = .error e ∧ e.isDenial = true := by
  have hshadowed : Shadowed .sample cappedState (.inMode true (.fill 3) "buy") ⟨0, 1, 0, "", []⟩ 0
      .sample (.sample (.fill 1) F64.one) :=
    ⟨rfl, checked_inMode true (.fill 3) "buy", fresh_capped⟩
  obtain ⟨-, e, hanswer, hdenial⟩ := outcome_over (within_buy true (.fill 3)) hshadowed.checked
    (over_buy true (.fill 3))
  refine ⟨_, cappedState, _, _, _, _, _, run_capped, hshadowed, ?_, e, hanswer, hdenial⟩
  intro hlet
  rw [hlet.1 e hanswer] at hdenial
  exact absurd hdenial (by simp)

end IrlEngine
