import IrlEngine.Lifecycle

/-!
# Verdicts

A bind request checks that its trace is `PENDING` when it reads the intent, and
writes its verdict later, with a statement keyed by the trace id alone.  So a verdict
can be overwritten by a request that read the trace before the verdict was written.

* `verdicts_final` — a verdict is final in every run in which a request that overlaps
  another one reports the same transaction and the same agreement, and in which no
  sweep expires a trace that a request is about to write;
* `halted_never_confirmed` — a blocked intent is never confirmed in a run in which no
  report agrees with the stored intent of a blocked trace.  The bind itself does not
  look at the policy result.
-/

namespace IrlEngine

/-! ## Requests in flight -/

/-- A request that has read the trace and not yet written its verdict. -/
def InFlight (s : System) (id : Uuid) (req : BindExecutionRequest) (intent : BindIntent) : Prop :=
  ⟨req, .read intent⟩ ∈ s.binds ∧ req.traceId = id

/-- A request is in flight after a step because it was before, or because it has just
read a pending row. -/
theorem inFlight_of_change {D : Deployment} {s s' : System} {e : Event} (h : Change D s e s')
    {id : Uuid} {req : BindExecutionRequest} {intent : BindIntent}
    (hf : InFlight s' id req intent) :
    InFlight s id req intent ∨
      e = .bindRead req ∧ ∃ r, Table.rowOf TraceRow.traceId s.traces id = some r ∧
        r.verificationStatus = .pending ∧ intent = r.intent := by
  obtain ⟨hmem, hid⟩ := hf
  generalize hb : (⟨req, .read intent⟩ : Bind) = b at hmem
  cases bindChange_of_change h hmem with
  | same _ _ hmem => exact Or.inl ⟨hb ▸ hmem, hid⟩
  | refused req' err => simp at hb
  | read req' r hrow hpending =>
    simp only [Bind.mk.injEq, BindPhase.read.injEq] at hb
    obtain ⟨rfl, rfl⟩ := hb
    exact Or.inr ⟨rfl, r, hid ▸ hrow, hpending, rfl⟩
  | updated k now req' intent' hk =>
    exact absurd (congrArg Bind.phase hb).symm (afterUpdate_ne_read req' intent' intent _)
  | ledger k req' intent' result fill hk => simp at hb

/-- The row that a request in flight has read. -/
theorem InFlight.row {s : System} (hs : IntentsCurrent s) {id : Uuid} {req : BindExecutionRequest}
    {intent : BindIntent} (hf : InFlight s id req intent) :
    ∃ r, Table.rowOf TraceRow.traceId s.traces id = some r ∧
      intent = r.pendingIntent := by
  obtain ⟨hmem, rfl⟩ := hf
  exact hs _ hmem intent rfl

/-- All requests in flight on a trace have read the same intent. -/
theorem InFlight.intent_eq {s : System} (hs : IntentsCurrent s) {id : Uuid}
    {req req' : BindExecutionRequest} {intent intent' : BindIntent}
    (hf : InFlight s id req intent) (hf' : InFlight s id req' intent') : intent' = intent := by
  obtain ⟨r, hrow, rfl⟩ := hf.row hs
  obtain ⟨r', hrow', rfl⟩ := hf'.row hs
  rw [hrow, Option.some.injEq] at hrow'
  rw [hrow']

/-! ## Final verdicts -/

/-- The statuses that end the life cycle of a trace. -/
def VerificationStatus.isFinal : VerificationStatus → Bool
  | .matched => true
  | .divergent => true
  | .expired => true
  | _ => false

/-- The columns of a verdict are the same. -/
structure SameVerdict (r r' : TraceRow) : Prop where
  verificationStatus : r'.verificationStatus = r.verificationStatus
  finalProof : r'.finalProof = r.finalProof
  exchangeTxId : r'.exchangeTxId = r.exchangeTxId

theorem SameVerdict.refl (r : TraceRow) : SameVerdict r r := ⟨rfl, rfl, rfl⟩

theorem SameVerdict.trans {a b c : TraceRow} (h : SameVerdict a b) (h' : SameVerdict b c) :
    SameVerdict a c :=
  ⟨h'.verificationStatus.trans h.verificationStatus, h'.finalProof.trans h.finalProof,
    h'.exchangeTxId.trans h.exchangeTxId⟩

/-- Two reports name the same transaction, and agree with the intent or both do not. -/
structure SameReport (D : Deployment) (req req' : BindExecutionRequest) (intent : BindIntent) :
    Prop where
  exchangeTxId : req'.exchangeTxId = req.exchangeTxId
  agrees : Agrees D.cfg D.aliases req' intent ↔ Agrees D.cfg D.aliases req intent

theorem SameReport.symm {D : Deployment} {req req' : BindExecutionRequest} {intent : BindIntent}
    (h : SameReport D req req' intent) : SameReport D req' req intent :=
  ⟨h.exchangeTxId.symm, h.agrees.symm⟩

/-- The row already shows what the request is going to write. -/
def Shows (D : Deployment) (r : TraceRow) (req : BindExecutionRequest) (intent : BindIntent) :
    Prop :=
  ∀ q now, SameVerdict r (TraceRow.bindTo q (reconcile D.cfg D.aliases req intent now) req)

theorem reconcile_status_congr {cfg : Config} {aliases : List (String × String)}
    {req req' : BindExecutionRequest} {intent : BindIntent} (now now' : DateTime)
    (h : Agrees cfg aliases req' intent ↔ Agrees cfg aliases req intent) :
    (reconcile cfg aliases req' intent now').verificationStatus
      = (reconcile cfg aliases req intent now).verificationStatus := by
  rw [← reconcile_matched_iff now', ← reconcile_matched_iff now] at h
  rcases reconcile_status cfg aliases req intent now with hs | hs
  · rw [hs, h.2 hs]
  · rcases reconcile_status cfg aliases req' intent now' with hs' | hs'
    · rw [hs', h.1 hs']
    · rw [hs, hs']

/-- A bound row shows what any request with the same report is going to write. -/
theorem shows_of_bindTo {D : Deployment} {req req' : BindExecutionRequest} {intent : BindIntent}
    (h : SameReport D req req' intent) (r : TraceRow) (now : DateTime) :
    Shows D (r.bindTo (reconcile D.cfg D.aliases req intent now) req) req' intent := by
  intro q now'
  refine ⟨reconcile_status_congr now now' h.agrees, ?_, ?_⟩
  · show some (computeFinalProof intent.reasoningHash req'.exchangeTxId)
      = some (computeFinalProof intent.reasoningHash req.exchangeTxId)
    rw [h.exchangeTxId]
  · show some req'.exchangeTxId = some req.exchangeTxId
    rw [h.exchangeTxId]

theorem Shows.congr {D : Deployment} {r r' : TraceRow} {req : BindExecutionRequest}
    {intent : BindIntent} (h : Shows D r req intent) (hr : SameVerdict r' r) :
    Shows D r' req intent :=
  fun q now => hr.trans (h q now)

/-- A request that overlaps another one makes the same report, and a sweep spares the
traces that a request is about to write. -/
def Undisturbed (D : Deployment) (s : System) : Event → Prop
  | .bindRead req => ∀ r, Table.rowOf TraceRow.traceId s.traces req.traceId = some r →
      r.verificationStatus = .pending →
      ∀ req' intent, InFlight s req.traceId req' intent → SameReport D req' req intent
  | .expirePending nowMicros => ∀ r ∈ s.traces, r.verificationStatus = .pending →
      isStale D.cfg nowMicros r = true → ∀ req intent, ¬ InFlight s r.traceId req intent
  | _ => True

/-- The invariant behind final verdicts. -/
structure Settling (D : Deployment) (s : System) : Prop where
  intents : IntentsCurrent s
  /-- Requests that overlap make the same report. -/
  reports : ∀ id req req' intent, InFlight s id req intent → InFlight s id req' intent →
    SameReport D req req' intent
  /-- A request in flight finds its trace pending, or in the state it is going to write. -/
  rows : ∀ id req intent r, InFlight s id req intent →
    Table.rowOf TraceRow.traceId s.traces id = some r →
    r.verificationStatus = .pending ∨ Shows D r req intent

/-- What a step makes of the row that a request in flight has read. -/
theorem Settling.rows_step {D : Deployment} {s : System} {e : Event} (hs : Settling D s)
    (hP : Undisturbed D s e) {id : Uuid} {req : BindExecutionRequest} {intent : BindIntent}
    (hf : InFlight s id req intent) {r r' : TraceRow}
    (hrow : Table.rowOf TraceRow.traceId s.traces id = some r) (h : RowChange D s e r r') :
    r'.verificationStatus = .pending ∨ Shows D r' req intent := by
  have hid := Table.key_of_rowOf hrow
  cases h with
  | same => exact hs.rows id req intent r hf hrow
  | bound k now req₀ intent₀ hk _ hid₀ =>
    have hf₀ : InFlight s id req₀ intent₀ := ⟨List.mem_of_getElem? hk, hid₀.symm.trans hid⟩
    obtain rfl := hf.intent_eq hs.intents hf₀
    exact Or.inr (shows_of_bindTo (hs.reports id req₀ req intent₀ hf₀ hf) r now)
  | expired nowMicros _ hpending hstale =>
    have hspared := hP r (Table.mem_of_rowOf hrow) hpending hstale req intent
    exact absurd (hid ▸ hf) hspared
  | recoded _ f hf' =>
    refine (hs.rows id req intent r hf hrow).imp ?_ ?_
    · exact fun hpending => (hf'.verificationStatus r).trans hpending
    · intro hshows
      exact hshows.congr ⟨(hf'.verificationStatus r).symm, (hf'.finalProof r).symm,
        (hf'.exchangeTxId r).symm⟩

theorem Settling.step {D : Deployment} {s s' : System} {e : Event} (hs : Settling D s)
    (hP : Undisturbed D s e) (h : step D s e = some s') : Settling D s' := by
  have hc := change_of_step h
  refine ⟨intentsCurrent_of_change hc hs.intents, ?_, ?_⟩
  · intro id req req' intent hf hf'
    rcases inFlight_of_change hc hf with hold | ⟨he, r, hrow, hpending, -⟩
    · rcases inFlight_of_change hc hf' with hold' | ⟨he', r, hrow, hpending, -⟩
      · exact hs.reports id req req' intent hold hold'
      · subst he'
        obtain rfl := hf'.2
        exact hP r hrow hpending req intent hold
    · subst he
      obtain rfl := hf.2
      rcases inFlight_of_change hc hf' with hold' | ⟨he', -⟩
      · exact (hP r hrow hpending req' intent hold').symm
      · obtain rfl := Event.bindRead.inj he'
        exact ⟨rfl, Iff.rfl⟩
  · intro id req intent r' hf hrow'
    rcases inFlight_of_change hc hf with hold | ⟨he, r, hrow, hpending, -⟩
    · obtain ⟨r, hrow, -⟩ := hold.row hs.intents
      obtain ⟨q, hq, hchange⟩ := rowOf_of_change hc hrow
      rw [hq, Option.some.injEq] at hrow'
      subst hrow'
      exact hs.rows_step hP hold hrow hchange
    · -- the request has just read the row, and a read changes no row
      obtain ⟨q, hq, hchange⟩ := rowOf_of_change hc hrow
      rw [hq, Option.some.injEq] at hrow'
      subst hrow' he
      cases hchange with
      | same => exact Or.inl hpending
      | recoded _ f hf' => exact Or.inl ((hf'.verificationStatus r).trans hpending)

/-- A step keeps the verdict of a row that has one. -/
theorem Settling.sameVerdict {D : Deployment} {s : System} {e : Event} (hs : Settling D s)
    {id : Uuid} {r r' : TraceRow} (hrow : Table.rowOf TraceRow.traceId s.traces id = some r)
    (hfinal : r.verificationStatus.isFinal = true) (h : RowChange D s e r r') :
    SameVerdict r r' := by
  have hne : r.verificationStatus ≠ .pending := by
    intro hpending
    rw [hpending] at hfinal
    exact absurd hfinal (by decide)
  cases h with
  | same => exact .refl r
  | bound k now req intent hk _ hid =>
    have hf : InFlight s id req intent :=
      ⟨List.mem_of_getElem? hk, hid.symm.trans (Table.key_of_rowOf hrow)⟩
    rcases hs.rows id req intent r hf hrow with hpending | hshows
    · exact absurd hpending hne
    · exact hshows r now
  | expired now _ hpending _ => exact absurd hpending hne
  | recoded _ f hf =>
    exact ⟨hf.verificationStatus r, hf.finalProof r, hf.exchangeTxId r⟩

/-- Every row that has a verdict keeps it. -/
def KeepsVerdicts (s t : System) : Prop :=
  ∀ id r, Table.rowOf TraceRow.traceId s.traces id = some r →
    r.verificationStatus.isFinal = true →
    ∃ r', Table.rowOf TraceRow.traceId t.traces id = some r' ∧ SameVerdict r r'

theorem KeepsVerdicts.trans {s t u : System} (h : KeepsVerdicts s t) (h' : KeepsVerdicts t u) :
    KeepsVerdicts s u := by
  intro id r hrow hfinal
  obtain ⟨r₁, hrow₁, h₁⟩ := h id r hrow hfinal
  obtain ⟨r₂, hrow₂, h₂⟩ := h' id r₁ hrow₁ (by rw [h₁.verificationStatus]; exact hfinal)
  exact ⟨r₂, hrow₂, h₁.trans h₂⟩

theorem settling_init (D : Deployment) : Settling D .init :=
  ⟨fun b hb => absurd hb (by simp [System.init]),
    fun id req req' intent hf => absurd hf.1 (by simp [System.init]),
    fun id req intent r hf => absurd hf.1 (by simp [System.init])⟩

/-- **Verdicts are final** in every run that disturbs no request in flight. -/
theorem verdicts_final (D : Deployment) {s t : System} {es fs : List Event}
    (hs : Run.run (step D) .init es = some s) (ht : Run.run (step D) s fs = some t)
    (hP : Run.Along (step D) (Undisturbed D) .init (es ++ fs)) :
    ∀ r ∈ s.traces, r.verificationStatus.isFinal = true →
      (∃ r' ∈ t.traces, r'.traceId = r.traceId) ∧
      ∀ r' ∈ t.traces, r'.traceId = r.traceId → SameVerdict r r' := by
  obtain ⟨hPs, hPt⟩ := Run.along_append hP hs
  have hinv : Settling D s :=
    Run.run_invariant_along (fun s e t hi hp h => hi.step hp h) hs hPs (settling_init D)
  have hkeeps : KeepsVerdicts s t := by
    refine Run.run_relates_along (R := KeepsVerdicts) (fun s id r hrow _ => ⟨r, hrow, .refl r⟩)
      (fun _ _ _ => KeepsVerdicts.trans) (fun s e t hi hp h => hi.step hp h) ?_ ht hPt hinv
    intro s e t hi hp h id r hrow hfinal
    obtain ⟨r', hrow', hchange⟩ := rowOf_of_change (change_of_step h) hrow
    exact ⟨r', hrow', hi.sameVerdict hrow hfinal hchange⟩
  intro r hr hfinal
  obtain ⟨q, hq, hsame⟩ :=
    hkeeps r.traceId r (Table.rowOf_of_mem (uniqueIds_of_reachable ⟨es, hs⟩) hr) hfinal
  refine ⟨⟨q, Table.mem_of_rowOf hq, Table.key_of_rowOf hq⟩, ?_⟩
  intro r' hr' hid
  have hids : UniqueIds t := uniqueIds_of_reachable (D := D) ⟨es ++ fs, by
    rw [Run.run_append, hs]
    exact ht⟩
  have hrow' := Table.rowOf_of_mem hids hr'
  rw [hid, hq, Option.some.injEq] at hrow'
  exact hrow' ▸ hsame

/-- Two overlapping requests: the second overwrites the transaction of a `MATCHED` row. -/
theorem verdict_overwritten :
    ∃ s t, Run.run (step .sample) .init
        [.authorize (.sample "buy"), .bindRead (.sample "tx-1"), .bindRead (.sample "tx-2"),
          .bindUpdate 0 boughtRow.txnTime] = some s ∧
      Run.run (step .sample) s [.bindUpdate 1 boughtRow.txnTime] = some t ∧
      ∃ r ∈ s.traces, ∃ r' ∈ t.traces, r'.traceId = r.traceId ∧ r.verificationStatus = .matched ∧
        ¬ SameVerdict r r' := by
  refine ⟨overlapState "tx-1" "tx-2", _, run_sample_overlap "tx-1" "tx-2",
    Run.run_cons (step_sample_update rfl [] rfl boughtRow.txnTime) [],
    boundRow "tx-1", List.mem_singleton_self _,
    (boundRow "tx-1").bindTo (sampleResult "tx-2" boughtRow.intent boughtRow.txnTime)
    (.sample "tx-2"),
    List.mem_singleton_self _, TraceRow.bindTo_traceId .., boundRow_status "tx-1", ?_⟩
  intro hsame
  have htx := hsame.exchangeTxId
  rw [boundRow, TraceRow.bindTo_exchangeTxId, TraceRow.bindTo_exchangeTxId] at htx
  exact absurd htx (by decide)

/-- A request that comes after the verdict is refused, and the verdict stays. -/
theorem verdicts_final_sample :
    ∃ t, Run.run (step .sample) (boundState "tx-1") [.bindRead (.sample "tx-2")] = some t ∧
      ∀ r' ∈ t.traces, r'.traceId = (boundRow "tx-1").traceId →
        SameVerdict (boundRow "tx-1") r' := by
  have hread : ∃ err, readIntent [boundRow "tx-1"] (.sample "tx-2") = .error err := by
    cases h : readIntent [boundRow "tx-1"] (.sample "tx-2") with
    | error err => exact ⟨err, rfl⟩
    | ok intent =>
      obtain ⟨r, hrow, hpending, -⟩ := readIntent_ok h
      obtain rfl := List.mem_singleton.1 (Table.mem_of_rowOf hrow)
      rw [boundRow_status] at hpending
      exact absurd hpending (by decide)
  obtain ⟨err, hread⟩ := hread
  have hstep : step .sample (boundState "tx-1") (.bindRead (.sample "tx-2"))
      = some { boundState "tx-1" with
          binds := (boundState "tx-1").binds ++ [⟨.sample "tx-2", .refused err⟩] } := by
    simp only [step, boundState, hread]
  have hidle : ∀ req intent, ¬ InFlight (boundState "tx-1") (.fill 2) req intent := by
    rintro req intent ⟨hmem, -⟩
    exact boundRequest_ne_read "tx-1" req intent (List.mem_singleton.1 hmem)
  have hP : Run.Along (step .sample) (Undisturbed .sample) .init
      ([.authorize (.sample "buy"), .bindRead (.sample "tx-1"), .bindUpdate 0 boughtRow.txnTime]
        ++ [.bindRead (.sample "tx-2")]) := by
    refine Run.along_cons trivial step_sample_bought
      (Run.along_cons ?_ (step_sample_read (.sample "tx-1") rfl rfl [] [])
        (Run.along_cons trivial (step_sample_update rfl [] rfl boughtRow.txnTime)
          (Run.along_cons ?_ hstep trivial)))
    · rintro r - - req intent ⟨hmem, -⟩
      exact absurd hmem (by simp)
    · intro r _ _ req intent hf
      exact absurd hf (hidle req intent)
  have hrun := Run.run_cons hstep []
  exact ⟨_, hrun, (verdicts_final .sample (run_sample_bound "tx-1") hrun hP (boundRow "tx-1")
    (List.mem_singleton_self _) (by rw [boundRow_status]; rfl)).2⟩

/-! ## Blocked intents -/

/-- No report that a request brings agrees with the stored intent of a blocked trace. -/
def Unconfirmed (D : Deployment) (s : System) : Event → Prop
  | .bindRead req => ∀ r ∈ s.traces, r.traceId = req.traceId → r.policyResult = .halted →
      r.verificationStatus = .pending → ¬ Agrees D.cfg D.aliases req r.intent
  | _ => True

/-- What a request for a blocked trace may have come to. -/
def Bind.Barred (D : Deployment) (b : Bind) : Prop :=
  match b.phase with
  | .refused _ => True
  | .read intent => ¬ Agrees D.cfg D.aliases b.req intent
  | .updated _ _ _ => False
  | .done _ _ fill => fill = none

/-- The invariant behind `halted_never_confirmed`. -/
structure HaltedInv (D : Deployment) (s : System) : Prop where
  ids : UniqueIds s
  intents : IntentsCurrent s
  rows : ∀ r ∈ s.traces, r.policyResult = .halted → r.verificationStatus ≠ .matched
  binds : ∀ b ∈ s.binds, ∀ r, Table.rowOf TraceRow.traceId s.traces b.req.traceId = some r →
    r.policyResult = .halted → b.Barred D

/-- A report that does not agree moves no position. -/
theorem afterUpdate_of_not_agrees {D : Deployment} {req : BindExecutionRequest}
    {intent : BindIntent} (h : ¬ Agrees D.cfg D.aliases req intent) (now : DateTime) :
    Bind.Barred D ⟨req, afterUpdate req intent (reconcile D.cfg D.aliases req intent now)⟩ := by
  have hdivergent : (reconcile D.cfg D.aliases req intent now).verificationStatus = .divergent :=
    (reconcile_status D.cfg D.aliases req intent now).resolve_left
      fun hm => h ((reconcile_matched_iff now).1 hm)
  have hfill : bindFill req intent (reconcile D.cfg D.aliases req intent now) = none := by
    unfold bindFill
    rw [hdivergent]
  rw [afterUpdate, hfill]
  exact rfl

/-- What a step makes of a row that is not confirmed. -/
theorem HaltedInv.row_step {D : Deployment} {s : System} {e : Event} (hs : HaltedInv D s)
    {r r' : TraceRow} (hr : r ∈ s.traces) (hhalted : r.policyResult = .halted)
    (h : RowChange D s e r r') : r'.verificationStatus ≠ .matched := by
  cases h with
  | same => exact hs.rows r hr hhalted
  | bound k now req intent hk _ hid =>
    have hrow := Table.rowOf_of_mem hs.ids hr
    have hbarred := hs.binds _ (List.mem_of_getElem? hk) r (hid ▸ hrow) hhalted
    exact fun hm => hbarred ((reconcile_matched_iff now).1 hm)
  | expired now _ _ _ => simp
  | recoded _ f hf =>
    rw [hf.verificationStatus]
    exact hs.rows r hr hhalted

/-- What a step makes of a request for a blocked trace. -/
theorem HaltedInv.bind_step {D : Deployment} {s : System} {e : Event} (hs : HaltedInv D s)
    (hP : Unconfirmed D s e) {b : Bind} (h : BindChange D s e b) {r : TraceRow}
    (hrow : Table.rowOf TraceRow.traceId s.traces b.req.traceId = some r)
    (hhalted : r.policyResult = .halted) : b.Barred D := by
  cases h with
  | same _ _ hb => exact hs.binds b hb r hrow hhalted
  | refused req err => trivial
  | read req q hq hpending =>
    obtain rfl := Option.some.inj (hq.symm.trans hrow)
    exact hP q (Table.mem_of_rowOf hq) (Table.key_of_rowOf hq) hhalted hpending
  | updated k now req intent hk =>
    exact afterUpdate_of_not_agrees (hs.binds _ (List.mem_of_getElem? hk) r hrow hhalted) now
  | ledger k req intent result fill hk =>
    exact absurd (hs.binds _ (List.mem_of_getElem? hk) r hrow hhalted) id

theorem HaltedInv.step {D : Deployment} {s s' : System} {e : Event} (hs : HaltedInv D s)
    (hP : Unconfirmed D s e) (h : step D s e = some s') : HaltedInv D s' := by
  have hc := change_of_step h
  refine ⟨uniqueIds_of_change hc hs.ids, intentsCurrent_of_change hc hs.intents, ?_, ?_⟩
  · intro r' hr' hhalted
    rcases mem_of_change hc hr' with ⟨-, hnew⟩ | ⟨r, hr, hchange⟩
    · rw [hnew.verificationStatus]
      simp
    · exact hs.row_step hr (hchange.sameTerms.policyResult.symm.trans hhalted) hchange
  · intro b hb r' hrow' hhalted
    have hbc := bindChange_of_change hc hb
    cases hi : b.phase.intent? with
    | none =>
      -- only a refused request has read nothing
      unfold Bind.Barred
      cases hphase : b.phase with
      | refused err => trivial
      | read intent => rw [hphase] at hi; simp [BindPhase.intent?] at hi
      | updated intent result fill => rw [hphase] at hi; simp [BindPhase.intent?] at hi
      | done intent result fill => rw [hphase] at hi; simp [BindPhase.intent?] at hi
    | some intent =>
      obtain ⟨r, hrow, -⟩ := hbc.row hs.intents hi
      obtain ⟨q, hq, hchange⟩ := rowOf_of_change hc hrow
      rw [hq, Option.some.injEq] at hrow'
      subst hrow'
      exact hs.bind_step hP hbc hrow (hchange.sameTerms.policyResult.symm.trans hhalted)

theorem haltedInv_init (D : Deployment) : HaltedInv D .init :=
  ⟨by simp [UniqueIds, System.init], fun b hb => absurd hb (by simp [System.init]),
    fun r hr => absurd hr (by simp [System.init]), fun b hb => absurd hb (by simp [System.init])⟩

/-- Only the ledger write of a request changes a position. -/
theorem positions_of_change {D : Deployment} {s s' : System} {e : Event} (h : Change D s e s')
    (hne : s'.positions ≠ s.positions) :
    ∃ k req intent result fill, e = .bindLedger k ∧
      s.binds[k]? = some ⟨req, .updated intent result fill⟩ := by
  cases h with
  | ledger k req intent result fill hk => exact ⟨k, req, intent, result, fill, rfl, hk⟩
  | _ => exact absurd rfl hne

/-- **A blocked intent is never confirmed**, and no position changes on its behalf, in a
run in which no report agrees with the intent of a blocked trace. -/
theorem halted_never_confirmed (D : Deployment) {s : System} {es : List Event}
    (hs : Run.run (step D) .init es = some s)
    (hP : Run.Along (step D) (Unconfirmed D) .init es) :
    (∀ r ∈ s.traces, r.policyResult = .halted → r.verificationStatus ≠ .matched) ∧
    ∀ e s', step D s e = some s' → s'.positions ≠ s.positions →
      ∃ k b, e = .bindLedger k ∧ s.binds[k]? = some b ∧
        ∀ r ∈ s.traces, r.traceId = b.req.traceId → r.policyResult ≠ .halted := by
  have hinv : HaltedInv D s :=
    Run.run_invariant_along (fun s e t hi hp h => hi.step hp h) hs hP (haltedInv_init D)
  refine ⟨hinv.rows, ?_⟩
  intro e s' hstep hne
  obtain ⟨k, req, intent, result, fill, he, hk⟩ := positions_of_change (change_of_step hstep) hne
  refine ⟨k, _, he, hk, ?_⟩
  intro r hr hid hhalted
  have hrow := Table.rowOf_of_mem hinv.ids hr
  exact hinv.binds _ (List.mem_of_getElem? hk) r (hid ▸ hrow) hhalted

/-- A blocked order is confirmed by the exchange report of its fill, and the fill is
booked to the agent's position. -/
theorem halted_confirmed :
    ∃ s, Run.run (step .sample) .init
        [.authorize (.sample "sell"), .bindRead (.sample "tx-1"), .bindUpdate 0 haltedRow.txnTime,
          .bindLedger 0] = some s ∧
      (∃ r ∈ s.traces, r.policyResult = .halted ∧ r.verificationStatus = .matched) ∧
      s.positions = [(sampleFill (.fill 1) haltedRow.intent).row] := by
  have hdelta : quantityDelta haltedRow.intent.action 1 ≠ 0 := by decide +kernel
  have hupdated := afterUpdate_sample "tx-1" haltedRow_quantity rfl hdelta haltedRow.txnTime
  refine ⟨⟨[haltedRow.bindTo (sampleResult "tx-1" haltedRow.intent haltedRow.txnTime)
    (.sample "tx-1")], [(sampleFill (.fill 1) haltedRow.intent).row],
    [⟨.sample "tx-1", .done haltedRow.intent
    (sampleResult "tx-1" haltedRow.intent haltedRow.txnTime)
      (some (sampleFill (.fill 1) haltedRow.intent))⟩]⟩, ?_, ?_, rfl⟩
  · rw [Run.run_cons step_sample_halted,
      Run.run_cons (step_sample_read (.sample "tx-1") rfl rfl [] []),
      Run.run_cons (step_sample_update rfl [] rfl haltedRow.txnTime),
      Run.run_cons (step_sample_ledger _ [] rfl hupdated)]
    rfl
  · refine ⟨_, List.mem_singleton_self _, rfl, ?_⟩
    rw [TraceRow.bindTo_verificationStatus, sampleResult_status "tx-1" haltedRow_quantity]

/-- A report of a fill in another asset. -/
def foreignReport : BindExecutionRequest :=
  { BindExecutionRequest.sample "tx-1" with asset := some "ETH" }

/-- A report on another asset does not confirm a blocked order. -/
theorem halted_never_confirmed_sample :
    ∃ s, Run.run (step .sample) .init [.authorize (.sample "sell"),
      .bindRead foreignReport] = some s ∧ haltedRow ∈ s.traces ∧
      ∀ r ∈ s.traces, r.policyResult = .halted → r.verificationStatus ≠ .matched := by
  have hread := step_sample_read foreignReport (r := haltedRow) rfl rfl [] []
  have hrun := (Run.run_cons step_sample_halted [.bindRead foreignReport]).trans
    (Run.run_cons hread [])
  refine ⟨_, hrun, List.mem_singleton_self _, (halted_never_confirmed .sample hrun ?_).1⟩
  refine Run.along_cons trivial step_sample_halted (Run.along_cons ?_ hread trivial)
  intro r hr _ _ _ hagrees
  obtain rfl := List.mem_singleton.1 hr
  have hasset : assetsMatch [] "ETH" "BTC" = true := hagrees.asset "ETH" rfl
  exact absurd hasset (by decide)

end IrlEngine
