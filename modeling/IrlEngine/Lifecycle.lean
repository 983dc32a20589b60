import IrlEngine.Authorize
import IrlEngine.Binding
import IrlEngine.Lib.Run

/-!
# The life cycle of a trace

The trace table, the position ledger and all bind requests so far, under every writer
of a trace: the inserts (alone or made by `authorize`), the three database accesses of
a bind request, the expiry sweep of `verifier.rs`, the backfill of `backfill.rs` and
the erasure update of `gdpr.rs`.  Each event is one statement or one transaction, so a
list of events is an interleaving of requests and workers.

`step` is `none` where an event cannot happen; in particular trace ids are fresh and
an insert carries the seal of its snapshot, as its callers pass it.

* `Change` — everything a step can do, and `change_of_step`;
* `RowChange` — what it can make of one row, with `rowOf_of_change` and
  `mem_of_change`;
* `uniqueIds_of_reachable`, `rowOf_of_run`, `intentsCurrent_of_change` — trace ids
  stay unique, a row keeps its id, hash, transaction time and intent for good, and a
  bind request never holds an outdated intent.
-/

namespace IrlEngine

/-! ## The state -/

/-- How far a bind request has come. -/
inductive BindPhase where
  /-- The read found no trace, or one that is not `PENDING`. -/
  | refused (e : AppError)
  /-- The intent is read, the verdict not yet written. -/
  | read (intent : BindIntent)
  /-- The verdict is written, the ledger not yet. -/
  | updated (intent : BindIntent) (result : BindExecutionResult) (fill : Fill)
  /-- The request is answered; `fill` is what it added to the ledger. -/
  | done (intent : BindIntent) (result : BindExecutionResult) (fill : Option Fill)

/-- A bind request, and how far it has come. -/
structure Bind where
  req : BindExecutionRequest
  phase : BindPhase

/-- The tables, and every bind request in the order of its read. -/
structure System where
  traces : List TraceRow
  positions : List PositionRow
  binds : List Bind

/-- No rows and no requests. -/
def System.init : System := ⟨[], [], []⟩

/-- What is fixed for a run. -/
structure Deployment where
  K : Crates
  cfg : Config
  aliases : List (String × String)

/-- A call of `authorize` with what it read before it reached the trace table. -/
structure AuthorizeCall where
  agents : List AgentProfile
  hs : HeartbeatState
  env : AuthorizeEnv
  req : AuthorizeRequest

/-- The statements of the engine on these tables, one by one. -/
inductive Event where
  | insertTrace (a : InsertArgs)
  | insertTraceAtomic (a : InsertArgs) (portfolioCheck : Option (ℚ × String))
  | authorize (call : AuthorizeCall)
  /-- `get_intent_for_binding` and the `PENDING` check of a new bind request. -/
  | bindRead (req : BindExecutionRequest)
  /-- `update_binding` of the `k`-th bind request. -/
  | bindUpdate (k : ℕ) (now : DateTime)
  /-- `upsert_position` of the `k`-th bind request. -/
  | bindLedger (k : ℕ)
  /-- A sweep of the expiry worker; the clock of the database is in microseconds. -/
  | expirePending (nowMicros : ℤ)
  /-- The update of one row by a backfill worker. -/
  | encryptOneRow (traceId : Uuid) (stored : StoredJson)
  /-- The update of one row by `gdpr_erase_agent`. -/
  | gdprUpdate (traceId : Uuid) (txnTime : DateTime) (stored : StoredJson) (erasedAt : DateTime)
      (requestId : Uuid)

/-- Does the event insert a row? -/
def Event.isInsert : Event → Bool
  | .insertTrace _ => true
  | .insertTraceAtomic _ _ => true
  | .authorize _ => true
  | _ => false

/-! ## The workers' statements -/

/-- `txn_time < now() - make_interval(secs => expiry_ms / 1000)`. -/
def isStale (cfg : Config) (nowMicros : ℤ) (r : TraceRow) : Bool :=
  decide (r.txnTime.millis.toInt * 1000 < nowMicros - 1000000 * (cfg.traceExpiryMs.toNat / 1000))

/-- `expire_pending`: stale `PENDING` rows become `EXPIRED`. -/
def expirePending (cfg : Config) (nowMicros : ℤ) (traces : List TraceRow) : List TraceRow :=
  Table.updateWhere (fun r => r.verificationStatus = .pending ∧ isStale cfg nowMicros r)
    (fun r => { r with verificationStatus := .expired }) traces

/-- The columns an encryption rewrites. -/
def TraceRow.recode (r : TraceRow) (stored : StoredJson) : TraceRow :=
  { r with
    traceJson := stored.traceJson
    traceNonce := stored.traceNonce
    encryptedDek := stored.encryptedDek
    keyVersion := stored.keyVersion
    encryptionVersion := 1 }

/-- The update of `encrypt_one_row`, which spares rows that are encrypted already. -/
def encryptOneRow (traceId : Uuid) (stored : StoredJson) (traces : List TraceRow) : List TraceRow :=
  Table.updateWhere (fun r => r.traceId = traceId ∧ r.encryptionVersion = 0)
    (fun r => r.recode stored) traces

/-- The update of an erasure. -/
def gdprUpdate (traceId : Uuid) (txnTime : DateTime) (stored : StoredJson) (erasedAt : DateTime)
    (requestId : Uuid) (traces : List TraceRow) : List TraceRow :=
  Table.updateWhere (fun r => r.traceId = traceId ∧ r.txnTime = txnTime)
    (fun r =>
      { r.recode stored with gdprErasedAt := some erasedAt, gdprRequestId := some requestId })
    traces

/-! ## Steps -/

/-- Where a bind request stands after its verdict is written. -/
def afterUpdate (req : BindExecutionRequest) (intent : BindIntent) (result : BindExecutionResult) :
    BindPhase :=
  match bindFill req intent result with
  | none => .done intent result none
  | some fill => .updated intent result fill

/-- No row has the id. -/
def System.isFresh (s : System) (id : Uuid) : Bool := decide (id ∉ s.traces.map TraceRow.traceId)

/-- The state after an insert of the snapshot with that id; a failed insert changes nothing. -/
def System.insertWith (s : System) (id : Uuid) (traces : Except AppError (List TraceRow)) :
    Option System :=
  if s.isFresh id then
    match traces with
    | .ok t => some { s with traces := t }
    | .error _ => some s
  else none

/-- The step of an event. -/
def step (D : Deployment) (s : System) : Event → Option System
  | .insertTrace a =>
    if a.reasoningHash = a.snapshot.seal D.K then
      s.insertWith a.snapshot.traceId (insertTrace D.K s.traces a)
    else none
  | .insertTraceAtomic a check =>
    if a.reasoningHash = a.snapshot.seal D.K then
      s.insertWith a.snapshot.traceId (insertTraceAtomic D.K s.traces a check)
    else none
  | .authorize call =>
    match (authorizePrepare D.K D.cfg call.agents call.hs call.env call.req).2 with
    | .error _ => some s
    | .ok w => s.insertWith w.args.snapshot.traceId (.ok (authorizeCommit D.K s.traces w).1)
  | .bindRead req =>
    match readIntent s.traces req with
    | .error e => some { s with binds := s.binds ++ [⟨req, .refused e⟩] }
    | .ok intent => some { s with binds := s.binds ++ [⟨req, .read intent⟩] }
  | .bindUpdate k now =>
    match s.binds[k]? with
    | some ⟨req, .read intent⟩ =>
      let result := reconcile D.cfg D.aliases req intent now
      some { s with
        traces := updateBinding s.traces result req
        binds := s.binds.set k ⟨req, afterUpdate req intent result⟩ }
    | _ => none
  | .bindLedger k =>
    match s.binds[k]? with
    | some ⟨req, .updated intent result fill⟩ =>
      some { s with
        positions := upsertPosition s.positions fill
        binds := s.binds.set k ⟨req, .done intent result (some fill)⟩ }
    | _ => none
  | .expirePending nowMicros => some { s with traces := expirePending D.cfg nowMicros s.traces }
  | .encryptOneRow traceId stored => some { s with traces := encryptOneRow traceId stored s.traces }
  | .gdprUpdate traceId txnTime stored erasedAt requestId =>
    some { s with traces := gdprUpdate traceId txnTime stored erasedAt requestId s.traces }

/-- A state that some list of events leads to. -/
def Reachable (D : Deployment) (s : System) : Prop := ∃ es, Run.run (step D) .init es = some s

/-! ## What a step can do -/

/-- The columns that no verdict depends on are all an update of this kind writes. -/
structure JsonOnly (f : TraceRow → TraceRow) : Prop where
  traceId : ∀ r, (f r).traceId = r.traceId
  validTime : ∀ r, (f r).validTime = r.validTime
  txnTime : ∀ r, (f r).txnTime = r.txnTime
  reasoningHash : ∀ r, (f r).reasoningHash = r.reasoningHash
  policyResult : ∀ r, (f r).policyResult = r.policyResult
  executionNotional : ∀ r, (f r).executionNotional = r.executionNotional
  verificationStatus : ∀ r, (f r).verificationStatus = r.verificationStatus
  exchangeTxId : ∀ r, (f r).exchangeTxId = r.exchangeTxId
  finalProof : ∀ r, (f r).finalProof = r.finalProof
  intent : ∀ r, (f r).intent = r.intent

/-- What is true of a row when it is inserted. -/
structure NewRow (r : TraceRow) : Prop where
  verificationStatus : r.verificationStatus = .pending
  exchangeTxId : r.exchangeTxId = none
  finalProof : r.finalProof = none
  reasoningHash : ∃ m, r.reasoningHash = sha256Hex m

/-- Everything a step can do. -/
inductive Change (D : Deployment) (s : System) : Event → System → Prop where
  | idle (e : Event) : Change D s e s
  | insert (e : Event) (he : e.isInsert = true) (r : TraceRow)
      (hfresh : r.traceId ∉ s.traces.map TraceRow.traceId) (hnew : NewRow r) : Change D s e
        { s with traces := s.traces ++ [r] }
  | refuse (req : BindExecutionRequest) (err : AppError) :
      Change D s (.bindRead req) { s with binds := s.binds ++ [⟨req, .refused err⟩] }
  | read (req : BindExecutionRequest) (r : TraceRow)
      (hrow : Table.rowOf TraceRow.traceId s.traces req.traceId = some r)
      (hpending : r.verificationStatus = .pending) :
      Change D s (.bindRead req) { s with binds := s.binds ++ [⟨req, .read r.intent⟩] }
  | update (k : ℕ) (now : DateTime) (req : BindExecutionRequest) (intent : BindIntent)
      (hk : s.binds[k]? = some ⟨req, .read intent⟩) :
      Change D s (.bindUpdate k now)
        { s with
          traces := updateBinding s.traces (reconcile D.cfg D.aliases req intent now) req
          binds := s.binds.set k
            ⟨req, afterUpdate req intent (reconcile D.cfg D.aliases req intent now)⟩ }
  | ledger (k : ℕ) (req : BindExecutionRequest) (intent : BindIntent)
      (result : BindExecutionResult) (fill : Fill)
      (hk : s.binds[k]? = some ⟨req, .updated intent result fill⟩) :
      Change D s (.bindLedger k)
        { s with
          positions := upsertPosition s.positions fill
          binds := s.binds.set k ⟨req, .done intent result (some fill)⟩ }
  | expire (nowMicros : ℤ) :
      Change D s (.expirePending nowMicros)
        { s with traces := expirePending D.cfg nowMicros s.traces }
  | recode (e : Event) (p : TraceRow → Bool) (f : TraceRow → TraceRow) (hf : JsonOnly f) :
      Change D s e { s with traces := Table.updateWhere p f s.traces }

theorem newRow_of_traceRow {K : Crates} {a : InsertArgs} {r : TraceRow} (h : traceRow K a = .ok r)
    (hseal : a.reasoningHash = a.snapshot.seal K) : NewRow r := by
  obtain ⟨_, _, _, -, -, -, rfl⟩ := traceRow_ok h
  exact ⟨rfl, rfl, rfl, a.snapshot.canonicalBytes K, hseal⟩

/-- The arguments of the insert that an event makes. -/
def insertedBy (D : Deployment) : Event → Option InsertArgs
  | .insertTrace a => some a
  | .insertTraceAtomic a _ => some a
  | .authorize call =>
    match (authorizePrepare D.K D.cfg call.agents call.hs call.env call.req).2 with
    | .error _ => none
    | .ok w => some w.args
  | _ => none

theorem insertWith_cases {s s' : System} {id : Uuid} {traces : Except AppError (List TraceRow)}
    (h : s.insertWith id traces = some s') : id ∉ s.traces.map TraceRow.traceId ∧
      (s' = s ∨ ∃ t, traces = .ok t ∧ s' = { s with traces := t }) := by
  unfold System.insertWith at h
  split at h
  · rename_i hfresh
    refine ⟨of_decide_eq_true hfresh, ?_⟩
    cases traces with
    | error err => exact Or.inl (Option.some.inj h).symm
    | ok t => exact Or.inr ⟨t, rfl, (Option.some.inj h).symm⟩
  · exact absurd h (by simp)

/-- Does the insert of these arguments lead from the first state to the second? -/
structure InsertStep (D : Deployment) (s s' : System) (a : InsertArgs) (r : TraceRow) : Prop where
  sealed : a.reasoningHash = a.snapshot.seal D.K
  row : traceRow D.K a = .ok r
  fresh : r.traceId ∉ s.traces.map TraceRow.traceId
  next : s' = { s with traces := s.traces ++ [r] }

/-- An insert that goes through appends the row of its arguments, with a fresh id. -/
theorem insertStep_of_insertWith {D : Deployment} {s s' : System} {a : InsertArgs}
    {traces : Except AppError (List TraceRow)} (hseal : a.reasoningHash = a.snapshot.seal D.K)
    (htraces : ∀ t, traces = .ok t →
      t = s.traces ∨ ∃ r, traceRow D.K a = .ok r ∧ t = s.traces ++ [r])
    (h : s.insertWith a.snapshot.traceId traces = some s') :
    s' = s ∨ ∃ r, InsertStep D s s' a r := by
  obtain ⟨hfresh, rfl | ⟨t, rfl, rfl⟩⟩ := insertWith_cases h
  · exact Or.inl rfl
  · rcases htraces t rfl with rfl | ⟨r, hr, rfl⟩
    · exact Or.inl rfl
    · exact Or.inr ⟨r, hseal, hr, by rwa [traceRow_traceId hr], rfl⟩

/-- **Each of the inserts** changes nothing or appends the row of its arguments. -/
theorem insertStep_of_step {D : Deployment} {s s' : System} {e : Event} (he : e.isInsert = true)
    (h : step D s e = some s') :
    s' = s ∨ ∃ a r, insertedBy D e = some a ∧ InsertStep D s s' a r := by
  have hargs : ∀ a, insertedBy D e = some a → (s' = s ∨ ∃ r, InsertStep D s s' a r) →
      s' = s ∨ ∃ a r, insertedBy D e = some a ∧ InsertStep D s s' a r := by
    intro a ha hcases
    refine hcases.imp id ?_
    rintro ⟨r, hr⟩
    exact ⟨a, r, ha, hr⟩
  cases e with
  | insertTrace a =>
    simp only [step] at h
    split at h
    · rename_i hseal
      refine hargs a rfl (insertStep_of_insertWith hseal (fun t ht => Or.inr ?_) h)
      exact insertTrace_ok ht
    · exact absurd h (by simp)
  | insertTraceAtomic a check =>
    simp only [step] at h
    split at h
    · rename_i hseal
      refine hargs a rfl (insertStep_of_insertWith hseal (fun t ht => Or.inr ?_) h)
      exact insertTrace_ok (insertTraceAtomic_ok ht).2
    · exact absurd h (by simp)
  | authorize call =>
    simp only [step] at h
    rcases hprep : authorizePrepare D.K D.cfg call.agents call.hs call.env call.req with ⟨hs', r⟩
    rw [hprep] at h
    cases r with
    | error err => exact Or.inl (Option.some.inj h).symm
    | ok w =>
      refine hargs w.args (by simp only [insertedBy, hprep])
        (insertStep_of_insertWith (reasoningHash_of_prepare hprep) ?_ h)
      intro t ht
      obtain rfl := Except.ok.inj ht
      refine (authorizeCommit_cases D.K s.traces w).imp And.left ?_
      rintro ⟨r, hr, happ, -⟩
      exact ⟨r, hr, happ⟩
  | _ => exact absurd he (by simp [Event.isInsert])

theorem change_of_insert {D : Deployment} {s s' : System} {e : Event} (he : e.isInsert = true)
    (h : step D s e = some s') : Change D s e s' := by
  rcases insertStep_of_step he h with rfl | ⟨a, r, -, hins⟩
  · exact .idle e
  · rw [hins.next]
    exact .insert e he r hins.fresh (newRow_of_traceRow hins.row hins.sealed)

theorem readIntent_ok {traces : List TraceRow} {req : BindExecutionRequest} {intent : BindIntent}
    (h : readIntent traces req = .ok intent) :
    ∃ r, Table.rowOf TraceRow.traceId traces req.traceId = some r ∧
      r.verificationStatus = .pending ∧ intent = r.intent := by
  unfold readIntent getIntentForBinding at h
  cases hrow : Table.rowOf TraceRow.traceId traces req.traceId with
  | none => rw [hrow] at h; exact absurd h (by simp)
  | some r =>
    rw [hrow] at h
    simp only at h
    split at h
    · exact absurd h (by simp)
    · rename_i hpending
      exact ⟨r, rfl, not_not.1 hpending, (Except.ok.inj h).symm⟩

theorem jsonOnly_recode (stored : StoredJson) : JsonOnly fun r => r.recode stored :=
  ⟨fun _ => rfl, fun _ => rfl, fun _ => rfl, fun _ => rfl, fun _ => rfl, fun _ => rfl, fun _ => rfl,
    fun _ => rfl, fun _ => rfl, fun _ => rfl⟩

theorem jsonOnly_erase (stored : StoredJson) (erasedAt : DateTime) (requestId : Uuid) :
    JsonOnly fun r =>
      { r.recode stored with gdprErasedAt := some erasedAt, gdprRequestId := some requestId } :=
  ⟨fun _ => rfl, fun _ => rfl, fun _ => rfl, fun _ => rfl, fun _ => rfl, fun _ => rfl, fun _ => rfl,
    fun _ => rfl, fun _ => rfl, fun _ => rfl⟩

/-- **Every step is one of the changes.** -/
theorem change_of_step {D : Deployment} {s s' : System} {e : Event} (h : step D s e = some s') :
    Change D s e s' := by
  cases e with
  | insertTrace a => exact change_of_insert rfl h
  | insertTraceAtomic a check => exact change_of_insert rfl h
  | authorize call => exact change_of_insert rfl h
  | bindRead req =>
    simp only [step] at h
    cases hread : readIntent s.traces req with
    | error err =>
      rw [hread] at h
      rw [← Option.some.inj h]
      exact .refuse req err
    | ok intent =>
      rw [hread] at h
      obtain ⟨r, hrow, hpending, rfl⟩ := readIntent_ok hread
      rw [← Option.some.inj h]
      exact .read req r hrow hpending
  | bindUpdate k now =>
    simp only [step] at h
    split at h
    · rename_i req intent hk
      rw [← Option.some.inj h]
      exact .update k now req intent hk
    · exact absurd h (by simp)
  | bindLedger k =>
    simp only [step] at h
    split at h
    · rename_i req intent result fill hk
      rw [← Option.some.inj h]
      exact .ledger k req intent result fill hk
    · exact absurd h (by simp)
  | expirePending nowMicros =>
    rw [← Option.some.inj h]
    exact .expire nowMicros
  | encryptOneRow traceId stored =>
    rw [← Option.some.inj h]
    exact .recode _ _ _ (jsonOnly_recode stored)
  | gdprUpdate traceId txnTime stored erasedAt requestId =>
    rw [← Option.some.inj h]
    exact .recode _ _ _ (jsonOnly_erase stored erasedAt requestId)

/-! ## What becomes of a row -/

/-- What one step can make of a row that is already there. -/
inductive RowChange (D : Deployment) (s : System) : Event → TraceRow → TraceRow → Prop where
  | same (e : Event) (r : TraceRow) : RowChange D s e r r
  | bound (k : ℕ) (now : DateTime) (req : BindExecutionRequest) (intent : BindIntent)
      (hk : s.binds[k]? = some ⟨req, .read intent⟩) (r : TraceRow) (hid : r.traceId = req.traceId) :
      RowChange D s (.bindUpdate k now) r
        (r.bindTo (reconcile D.cfg D.aliases req intent now) req)
  | expired (nowMicros : ℤ) (r : TraceRow) (hpending : r.verificationStatus = .pending)
      (hstale : isStale D.cfg nowMicros r = true) :
      RowChange D s (.expirePending nowMicros) r { r with verificationStatus := .expired }
  | recoded (e : Event) (f : TraceRow → TraceRow) (hf : JsonOnly f) (r : TraceRow) :
      RowChange D s e r (f r)

/-- The columns that a row keeps for good. -/
structure SameTerms (r r' : TraceRow) : Prop where
  traceId : r'.traceId = r.traceId
  validTime : r'.validTime = r.validTime
  txnTime : r'.txnTime = r.txnTime
  reasoningHash : r'.reasoningHash = r.reasoningHash
  policyResult : r'.policyResult = r.policyResult
  executionNotional : r'.executionNotional = r.executionNotional
  intent : r'.pendingIntent = r.pendingIntent

theorem SameTerms.refl (r : TraceRow) : SameTerms r r := ⟨rfl, rfl, rfl, rfl, rfl, rfl, rfl⟩

theorem SameTerms.trans {a b c : TraceRow} (h : SameTerms a b) (h' : SameTerms b c) :
    SameTerms a c :=
  ⟨h'.traceId.trans h.traceId, h'.validTime.trans h.validTime, h'.txnTime.trans h.txnTime,
    h'.reasoningHash.trans h.reasoningHash, h'.policyResult.trans h.policyResult,
    h'.executionNotional.trans h.executionNotional, h'.intent.trans h.intent⟩

theorem RowChange.sameTerms {D : Deployment} {s : System} {e : Event} {r r' : TraceRow}
    (h : RowChange D s e r r') : SameTerms r r' := by
  cases h with
  | same => exact .refl r
  | bound k now req intent hk _ hid => exact ⟨rfl, rfl, rfl, rfl, rfl, rfl, rfl⟩
  | expired now _ _ _ => exact ⟨rfl, rfl, rfl, rfl, rfl, rfl, rfl⟩
  | recoded _ f hf =>
    exact ⟨hf.traceId r, hf.validTime r, hf.txnTime r, hf.reasoningHash r, hf.policyResult r,
      hf.executionNotional r, by rw [TraceRow.pendingIntent, hf.intent]; rfl⟩

/-- A step changes the rows one by one and appends at most one new row. -/
theorem traces_of_change {D : Deployment} {s s' : System} {e : Event} (h : Change D s e s') :
    ∃ g new, s'.traces = s.traces.map g ++ new ∧ (∀ r ∈ s.traces, RowChange D s e r (g r)) ∧
      (new = [] ∨ e.isInsert = true ∧
        ∃ r, new = [r] ∧ r.traceId ∉ s.traces.map TraceRow.traceId ∧ NewRow r) := by
  have hsame : ∀ e, ∀ r ∈ s.traces, RowChange D s e r (id r) := fun e r _ => .same e r
  cases h with
  | idle => exact ⟨id, [], by simp, hsame e, Or.inl rfl⟩
  | insert _ he r hfresh hnew =>
    exact ⟨id, [r], by simp, hsame e, Or.inr ⟨he, r, rfl, hfresh, hnew⟩⟩
  | refuse req err => exact ⟨id, [], by simp, hsame _, Or.inl rfl⟩
  | read req r _ _ => exact ⟨id, [], by simp, hsame _, Or.inl rfl⟩
  | ledger k req intent result fill _ => exact ⟨id, [], by simp, hsame _, Or.inl rfl⟩
  | update k now req intent hk =>
    refine ⟨_, [], (List.append_nil _).symm, ?_, Or.inl rfl⟩
    intro r _
    split
    · rename_i hid
      exact .bound k now req intent hk r (of_decide_eq_true hid)
    · exact .same _ r
  | expire nowMicros =>
    refine ⟨_, [], (List.append_nil _).symm, ?_, Or.inl rfl⟩
    intro r _
    split
    · rename_i hp
      simp only [decide_eq_true_eq] at hp
      exact .expired nowMicros r hp.1 hp.2
    · exact .same _ r
  | recode _ p f hf =>
    refine ⟨_, [], (List.append_nil _).symm, ?_, Or.inl rfl⟩
    intro r _
    split
    · exact .recoded e f hf r
    · exact .same e r

/-- The row of an id after a step. -/
theorem rowOf_of_change {D : Deployment} {s s' : System} {e : Event} (h : Change D s e s')
    {id : Uuid} {r : TraceRow} (hrow : Table.rowOf TraceRow.traceId s.traces id = some r) :
    ∃ r', Table.rowOf TraceRow.traceId s'.traces id = some r' ∧ RowChange D s e r r' := by
  obtain ⟨g, new, htraces, hg, -⟩ := traces_of_change h
  refine ⟨g r, ?_, hg r (Table.mem_of_rowOf hrow)⟩
  rw [htraces]
  refine Table.rowOf_append_of_some ?_
  rw [Table.rowOf_map (fun r hr => (hg r hr).sameTerms.traceId), hrow]
  rfl

/-- Where a row comes from: it was inserted by the step, or changed by it. -/
theorem mem_of_change {D : Deployment} {s s' : System} {e : Event} (h : Change D s e s')
    {r' : TraceRow} (hr' : r' ∈ s'.traces) :
    (r'.traceId ∉ s.traces.map TraceRow.traceId ∧ NewRow r') ∨
      ∃ r ∈ s.traces, RowChange D s e r r' := by
  obtain ⟨g, new, htraces, hg, hnew⟩ := traces_of_change h
  rw [htraces, List.mem_append] at hr'
  rcases hr' with hr' | hr'
  · obtain ⟨r, hr, rfl⟩ := List.mem_map.1 hr'
    exact Or.inr ⟨r, hr, hg r hr⟩
  · rcases hnew with rfl | ⟨-, n, rfl, hfresh, hn⟩
    · exact absurd hr' (by simp)
    · rw [List.mem_singleton] at hr'
      exact Or.inl (hr' ▸ ⟨hfresh, hn⟩)

/-! ## Whole runs -/

/-- Trace ids are unique. -/
def UniqueIds (s : System) : Prop := (s.traces.map TraceRow.traceId).Nodup

theorem uniqueIds_of_change {D : Deployment} {s s' : System} {e : Event} (h : Change D s e s')
    (hs : UniqueIds s) : UniqueIds s' := by
  obtain ⟨g, new, htraces, hg, hnew⟩ := traces_of_change h
  have hids : (s.traces.map g).map TraceRow.traceId = s.traces.map TraceRow.traceId := by
    rw [List.map_map]
    exact List.map_congr_left fun r hr => (hg r hr).sameTerms.traceId
  unfold UniqueIds at hs ⊢
  rw [htraces, List.map_append, hids]
  rcases hnew with rfl | ⟨-, r, rfl, hfresh, -⟩
  · simpa using hs
  · rw [List.map_singleton, List.nodup_append]
    refine ⟨hs, by simp, ?_⟩
    intro a ha b hb
    rw [List.mem_singleton] at hb
    exact fun hab => hfresh (hb ▸ hab ▸ ha)

/-- A system that contains this one reaches only states that it reaches. -/
theorem Reachable.next {D : Deployment} {s s' : System} (h : Reachable D s)
    (hstep : s' = s ∨ ∃ e, step D s e = some s') : Reachable D s' := by
  rcases hstep with rfl | ⟨e, he⟩
  · exact h
  · obtain ⟨es, hes⟩ := h
    exact ⟨es ++ [e], by rw [Run.run_append_of_eq hes, Run.run_cons he, Run.run_nil]⟩

theorem uniqueIds_of_reachable {D : Deployment} {s : System} (h : Reachable D s) : UniqueIds s := by
  obtain ⟨es, hrun⟩ := h
  refine Run.run_invariant (fun s e t hs he => uniqueIds_of_change (change_of_step he) hs) hrun ?_
  simp [UniqueIds, System.init]

/-- The rows of one id at the two ends of a run. -/
theorem rowOf_of_run {D : Deployment} {s t : System} {es : List Event}
    (h : Run.run (step D) s es = some t) {id : Uuid} {r : TraceRow}
    (hrow : Table.rowOf TraceRow.traceId s.traces id = some r) :
    ∃ r', Table.rowOf TraceRow.traceId t.traces id = some r' ∧ SameTerms r r' := by
  induction es generalizing s r with
  | nil =>
    rw [Run.run_nil, Option.some.injEq] at h
    exact ⟨r, h ▸ hrow, .refl r⟩
  | cons e es ih =>
    obtain ⟨u, hu, hrest⟩ := Run.run_cons_eq_some.1 h
    obtain ⟨r₁, hrow₁, hchange⟩ := rowOf_of_change (change_of_step hu) hrow
    obtain ⟨r₂, hrow₂, hsame⟩ := ih hrest hrow₁
    exact ⟨r₂, hrow₂, hchange.sameTerms.trans hsame⟩

/-- The intent a request has read. -/
def BindPhase.intent? : BindPhase → Option BindIntent
  | .refused _ => none
  | .read intent => some intent
  | .updated intent _ _ => some intent
  | .done intent _ _ => some intent

/-- Every request still agrees with the row it has read. -/
def IntentsCurrent (s : System) : Prop :=
  ∀ b ∈ s.binds, ∀ intent, b.phase.intent? = some intent →
    ∃ r, Table.rowOf TraceRow.traceId s.traces b.req.traceId = some r ∧
      intent = r.pendingIntent

theorem afterUpdate_ne_read (req : BindExecutionRequest) (intent intent' : BindIntent)
    (result : BindExecutionResult) : afterUpdate req intent result ≠ .read intent' := by
  unfold afterUpdate
  cases bindFill req intent result <;> simp

theorem intent?_afterUpdate (req : BindExecutionRequest) (intent : BindIntent)
    (result : BindExecutionResult) : (afterUpdate req intent result).intent? = some intent := by
  unfold afterUpdate
  cases bindFill req intent result <;> rfl

/-- Where a request stands after a step, and why. -/
inductive BindChange (D : Deployment) (s : System) : Event → Bind → Prop where
  | same (e : Event) (b : Bind) (hb : b ∈ s.binds) : BindChange D s e b
  | refused (req : BindExecutionRequest) (err : AppError) :
      BindChange D s (.bindRead req) ⟨req, .refused err⟩
  | read (req : BindExecutionRequest) (r : TraceRow)
      (hrow : Table.rowOf TraceRow.traceId s.traces req.traceId = some r)
      (hpending : r.verificationStatus = .pending) :
      BindChange D s (.bindRead req) ⟨req, .read r.intent⟩
  | updated (k : ℕ) (now : DateTime) (req : BindExecutionRequest) (intent : BindIntent)
      (hk : s.binds[k]? = some ⟨req, .read intent⟩) :
      BindChange D s (.bindUpdate k now)
        ⟨req, afterUpdate req intent (reconcile D.cfg D.aliases req intent now)⟩
  | ledger (k : ℕ) (req : BindExecutionRequest) (intent : BindIntent)
      (result : BindExecutionResult) (fill : Fill)
      (hk : s.binds[k]? = some ⟨req, .updated intent result fill⟩) :
      BindChange D s (.bindLedger k) ⟨req, .done intent result (some fill)⟩

theorem bindChange_of_change {D : Deployment} {s s' : System} {e : Event} (h : Change D s e s')
    {b : Bind} (hb : b ∈ s'.binds) : BindChange D s e b := by
  cases h with
  | idle => exact .same e b hb
  | insert _ _ r _ _ => exact .same e b hb
  | expire now => exact .same _ b hb
  | recode _ p f hf => exact .same e b hb
  | refuse req err =>
    rcases List.mem_append.1 hb with hb | hb
    · exact .same _ b hb
    · obtain rfl := List.mem_singleton.1 hb
      exact .refused req err
  | read req r hrow hpending =>
    rcases List.mem_append.1 hb with hb | hb
    · exact .same _ b hb
    · obtain rfl := List.mem_singleton.1 hb
      exact .read req r hrow hpending
  | update k now req intent hk =>
    rcases List.mem_or_eq_of_mem_set hb with hb | rfl
    · exact .same _ b hb
    · exact .updated k now req intent hk
  | ledger k req intent result fill hk =>
    rcases List.mem_or_eq_of_mem_set hb with hb | rfl
    · exact .same _ b hb
    · exact .ledger k req intent result fill hk

/-- A request that has read an intent after a step has a row before it. -/
theorem BindChange.row {D : Deployment} {s : System} {e : Event} {b : Bind} (hs : IntentsCurrent s)
    (h : BindChange D s e b) {intent : BindIntent} (hintent : b.phase.intent? = some intent) :
    ∃ r, Table.rowOf TraceRow.traceId s.traces b.req.traceId = some r ∧
      intent = r.pendingIntent := by
  cases h with
  | same _ _ hb => exact hs b hb intent hintent
  | refused req err => exact absurd hintent (by simp [BindPhase.intent?])
  | read req r hrow hpending =>
    obtain rfl := Option.some.inj hintent
    exact ⟨r, hrow, (r.pendingIntent_eq hpending).symm⟩
  | updated k now req intent' hk =>
    rw [intent?_afterUpdate] at hintent
    exact hs _ (List.mem_of_getElem? hk) intent hintent
  | ledger k req intent' result fill hk => exact hs _ (List.mem_of_getElem? hk) intent hintent

theorem intentsCurrent_of_change {D : Deployment} {s s' : System} {e : Event}
    (h : Change D s e s') (hs : IntentsCurrent s) : IntentsCurrent s' := by
  intro b hb intent hintent
  obtain ⟨r, hrow, hr⟩ := (bindChange_of_change h hb).row hs hintent
  obtain ⟨r', hrow', hchange⟩ := rowOf_of_change h hrow
  exact ⟨r', hrow', hr.trans hchange.sameTerms.intent.symm⟩

/-! ## A sample run -/

/-- Layer 1 only, with the given crates and no aliases. -/
def Deployment.plain (K : Crates) : Deployment := ⟨K, .sample, []⟩

/-- The deployment of the concrete runs. -/
def Deployment.sample : Deployment := .plain .sample

/-- An order of the sample agent, under the given cap. -/
def AuthorizeCall.order (traceId : Uuid) (action : String) (notional cap : F64) :
    AuthorizeCall where
  agents := [.sample (.fill 1) cap]
  hs := .init
  env := .sample traceId
  req := .sample (.fill 1) (.custom action) notional

/-- An order of notional 1 under a cap of 2. -/
def AuthorizeCall.sample (action : String) : AuthorizeCall :=
  .order (.fill 2) action F64.one F64.two

/-- The row of an order to buy, which the regime permits. -/
def buyRow (K : Crates) (traceId : Uuid) (notional : F64) : TraceRow :=
  sampleRow K traceId (.sample (.fill 1) (.custom "buy") notional) sampleDecision

/-- The row of an order to sell, which the regime forbids. -/
def sellRow (K : Crates) (traceId : Uuid) (notional : F64) : TraceRow :=
  sampleRow K traceId (.sample (.fill 1) (.custom "sell") notional)
    { sampleDecision with result := .halted }

/-- The row of the accepted sample order. -/
def boughtRow : TraceRow := buyRow .sample (.fill 2) F64.one

/-- The row of the halted sample order. -/
def haltedRow : TraceRow := sellRow .sample (.fill 2) F64.one

/-- An exchange report of one filled unit. -/
def BindExecutionRequest.sample (tx : String) : BindExecutionRequest where
  traceId := .fill 2
  exchangeTxId := tx
  executionStatus := .filled
  asset := none
  executedQuantity := some F64.one
  executionPrice := none
  executedSide := none
  executionTimeMs := none

theorem effectiveCap_sample (cap : F64) : effectiveCap .sample cap = cap.toRat := by
  rw [effectiveCap, show MtaState.sample.maxNotionalScale = F64.one from rfl,
    F64.toRat_one, mul_one]

/-- A prepared call appends its row when it reaches the table. -/
theorem step_authorize (D : Deployment) (s : System) (call : AuthorizeCall) {w : AuthorizeWrite}
    (hprep : (authorizePrepare D.K D.cfg call.agents call.hs call.env call.req).2 = .ok w)
    (hfresh : w.args.snapshot.traceId ∉ s.traces.map TraceRow.traceId) :
    step D s (.authorize call) = some { s with traces := (authorizeCommit D.K s.traces w).1 } := by
  have hf : s.isFresh w.args.snapshot.traceId = true := decide_eq_true hfresh
  simp only [step, hprep, System.insertWith, hf, if_true]

section Order

variable {K : Crates} {traceId : Uuid} {notional cap : F64}

/-- An order of the sample agent to buy, which its cap permits. -/
structure BuysWithin (req : AuthorizeRequest) (cap : F64) : Prop where
  hash : req.modelHashHex = sampleModelHash
  time : req.agentValidTime = 1
  opens : req.reduceOnly = false
  buys : req.effectiveAction = .custom "buy"
  le : req.notional.toRat ≤ cap.toRat

theorem buysWithin_sample (hle : notional.toRat ≤ cap.toRat) :
    BuysWithin (.sample (.fill 1) (.custom "buy") notional) cap := ⟨rfl, rfl, rfl, rfl, hle⟩

/-- It is prepared for the table. -/
theorem prepare_within (K : Crates) (traceId : Uuid) {req : AuthorizeRequest}
    (h : BuysWithin req cap) :
    authorizePrepare K .sample [.sample req.agentId cap] .init (.sample traceId) req
      = (.init, .ok (.commit (sampleArgs K traceId req sampleDecision)
          (some (cap.toRat, MtaState.sample.regimeLabel)) false)) := by
  have hwithin : WithinConstraints .sample req.effectiveAction req.notional cap req.reduceOnly := by
    rw [h.buys]
    refine ⟨Or.inr (by decide), ?_⟩
    rw [effectiveCap_sample]
    exact h.le
  have hprep := authorizePrepare_sample_allowed K .init traceId req cap h.hash h.time
    h.opens hwithin
  rw [effectiveCap_sample] at hprep
  exact hprep

/-- It is appended if the pending sum leaves room for it. -/
theorem step_within (s : System) {req : AuthorizeRequest} (h : BuysWithin req cap)
    (hfresh : traceId ∉ s.traces.map TraceRow.traceId) :
    step (.plain K) s (.authorize ⟨[.sample req.agentId cap], .init, .sample traceId, req⟩)
      = some { s with
          traces :=
            if cap.toRat < pendingSum s.traces req.agentId + req.notional.toRat then s.traces
            else s.traces ++ [sampleRow K traceId req sampleDecision] } := by
  refine (step_authorize (.plain K) s ⟨[.sample req.agentId cap], .init, .sample traceId, req⟩
    (congrArg Prod.snd (prepare_within K traceId h)) hfresh).trans ?_
  have hcommit := authorizeCommit_sample K traceId req h.time s.traces cap.toRat
    MtaState.sample.regimeLabel false
  exact congrArg (fun t => some { s with traces := t }) hcommit

/-- As the first order it has room. -/
theorem step_first {req : AuthorizeRequest} (h : BuysWithin req cap) :
    step (.plain K) .init (.authorize ⟨[.sample req.agentId cap], .init, .sample traceId, req⟩)
      = some ⟨[sampleRow K traceId req sampleDecision], [], []⟩ := by
  have hroom : ¬ cap.toRat < pendingSum [] req.agentId + req.notional.toRat := by
    rw [pendingSum_nil, zero_add, not_lt]
    exact h.le
  refine (step_within .init h (by simp [System.init])).trans ?_
  exact congrArg (fun t => some (System.mk t [] [])) (if_neg hroom)

theorem prepare_buy (hle : notional.toRat ≤ cap.toRat) :
    authorizePrepare K .sample [.sample (.fill 1) cap] .init (.sample traceId)
      (.sample (.fill 1) (.custom "buy") notional)
      = (.init, .ok (.commit (sampleArgs K traceId (.sample (.fill 1) (.custom "buy") notional)
          sampleDecision) (some (cap.toRat, MtaState.sample.regimeLabel)) false)) :=
  prepare_within K traceId (buysWithin_sample hle)

/-- An order to buy is appended if the pending sum leaves room for it. -/
theorem step_buy (s : System) (hle : notional.toRat ≤ cap.toRat)
    (hfresh : traceId ∉ s.traces.map TraceRow.traceId) :
    step (.plain K) s (.authorize (.order traceId "buy" notional cap))
      = some { s with
          traces := if cap.toRat < pendingSum s.traces (.fill 1) + notional.toRat then s.traces
            else s.traces ++ [buyRow K traceId notional] } :=
  step_within s (buysWithin_sample hle) hfresh

theorem prepare_sell (K : Crates) (traceId : Uuid) (notional cap : F64) : ∃ e,
    authorizePrepare K .sample [.sample (.fill 1) cap] .init (.sample traceId)
      (.sample (.fill 1) (.custom "sell") notional)
      = (.init, .ok (.halted (sampleArgs K traceId
          (.sample (.fill 1) (.custom "sell") notional)
          { sampleDecision with result := .halted }) e)) := by
  have hout : ¬ WithinConstraints .sample (.custom "sell") notional cap false := by
    rintro ⟨hside, -⟩
    revert hside
    decide
  exact authorizePrepare_sample_halted K .init traceId
    (.sample (.fill 1) (.custom "sell") notional) cap rfl rfl hout

/-- An order to sell is appended as halted. -/
theorem step_sell (s : System) (hfresh : traceId ∉ s.traces.map TraceRow.traceId) :
    step (.plain K) s (.authorize (.order traceId "sell" notional cap))
      = some { s with traces := s.traces ++ [sellRow K traceId notional] } := by
  obtain ⟨e, hprep⟩ := prepare_sell K traceId notional cap
  refine (step_authorize (.plain K) s (.order traceId "sell" notional cap)
    (congrArg Prod.snd hprep) hfresh).trans ?_
  have hcommit := authorizeCommit_sample_halted K traceId
    (.sample (.fill 1) (.custom "sell") notional) rfl s.traces
    { sampleDecision with result := .halted } e
  exact congrArg (fun t => some { s with traces := t.1 }) hcommit

end Order

theorem step_sample_bought :
    step .sample .init (.authorize (.sample "buy")) = some ⟨[boughtRow], [], []⟩ :=
  step_first (buysWithin_sample F64.toRat_one_le_two)

theorem step_sample_halted :
    step .sample .init (.authorize (.sample "sell")) = some ⟨[haltedRow], [], []⟩ :=
  step_sell .init (by simp [System.init])

/-- A sample report of one unit agrees with an intent of one unit. -/
theorem divergence_sample (tx : String) {intent : BindIntent} (h : intent.quantity = 1) :
    divergence .sample [] (.sample tx) intent = none := by
  have htol : Config.sample.bindSizeTolerance.toRat = 0 := F64.toRat_zero
  simp [divergence, BindExecutionRequest.sample, h, htol]

/-- What a sample report makes of a one-unit intent. -/
def sampleResult (tx : String) (intent : BindIntent) (now : DateTime) : BindExecutionResult :=
  reconcile .sample [] (.sample tx) intent now

theorem sampleResult_status (tx : String) {intent : BindIntent} (h : intent.quantity = 1)
    (now : DateTime) : (sampleResult tx intent now).verificationStatus = .matched := by
  unfold sampleResult reconcile
  rw [divergence_sample tx h]

/-- A bind of the only row is admitted when the row is pending. -/
theorem step_sample_read (req : BindExecutionRequest) {r : TraceRow} (hid : r.traceId = req.traceId)
    (hpending : r.verificationStatus = .pending) (ps : List PositionRow) (bs : List Bind) :
    step .sample ⟨[r], ps, bs⟩ (.bindRead req)
      = some ⟨[r], ps, bs ++ [⟨req, .read r.intent⟩]⟩ := by
  have hrow : Table.rowOf TraceRow.traceId [r] req.traceId = some r := by
    simp [Table.rowOf, hid]
  have hstatus : r.intent.status = .pending := hpending
  have hread : readIntent [r] req = .ok r.intent := by
    simp [readIntent, getIntentForBinding, hrow, hstatus]
  simp only [step, hread]

theorem step_sample_update {tx : String} {intent : BindIntent} {r : TraceRow}
    (hid : r.traceId = .fill 2) (ps : List PositionRow) {bs : List Bind} {k : ℕ}
    (hk : bs[k]? = some ⟨.sample tx, .read intent⟩) (now : DateTime) :
    step .sample ⟨[r], ps, bs⟩ (.bindUpdate k now)
      = some ⟨[r.bindTo (sampleResult tx intent now) (.sample tx)], ps,
          bs.set k ⟨.sample tx, afterUpdate (.sample tx) intent (sampleResult tx intent now)⟩⟩ := by
  have htable : updateBinding [r] (sampleResult tx intent now) (.sample tx)
      = [r.bindTo (sampleResult tx intent now) (.sample tx)] := by
    have hr : r.traceId = (sampleResult tx intent now).traceId := hid
    simp [updateBinding, hr]
  simp only [step, hk]
  exact congrArg (fun t => some (System.mk t ps _)) htable

/-- The row of the accepted order after a sample report of it. -/
def boundRow (tx : String) : TraceRow :=
  boughtRow.bindTo (sampleResult tx boughtRow.intent boughtRow.txnTime) (.sample tx)

/-- The sample request after its verdict is written. -/
def boundRequest (tx : String) : Bind :=
  ⟨.sample tx, afterUpdate (.sample tx) boughtRow.intent
    (sampleResult tx boughtRow.intent boughtRow.txnTime)⟩

/-- The state in which the accepted order is bound, and the ledger not yet written. -/
def boundState (tx : String) : System := ⟨[boundRow tx], [], [boundRequest tx]⟩

theorem boundRequest_ne_read (tx : String) (req : BindExecutionRequest) (intent : BindIntent) :
    (⟨req, .read intent⟩ : Bind) ≠ boundRequest tx := by
  intro h
  rw [boundRequest, Bind.mk.injEq] at h
  exact afterUpdate_ne_read _ _ _ _ h.2.symm

theorem sampleRow_quantity (K : Crates) (traceId : Uuid) (req : AuthorizeRequest)
    (d : PolicyDecision) : (sampleRow K traceId req d).intent.quantity = req.quantity.toRat := rfl

theorem boughtRow_quantity : boughtRow.intent.quantity = 1 := by
  rw [boughtRow, buyRow, sampleRow_quantity, AuthorizeRequest.sample, F64.toRat_one]

theorem boundRow_status (tx : String) : (boundRow tx).verificationStatus = .matched := by
  rw [boundRow, TraceRow.bindTo_verificationStatus, sampleResult_status tx boughtRow_quantity]

theorem run_sample_bound (tx : String) :
    Run.run (step .sample) .init
      [.authorize (.sample "buy"), .bindRead (.sample tx), .bindUpdate 0 boughtRow.txnTime]
      = some (boundState tx) := by
  rw [Run.run_cons step_sample_bought, Run.run_cons (step_sample_read (.sample tx) rfl rfl [] []),
    Run.run_cons (step_sample_update rfl [] rfl boughtRow.txnTime)]
  rfl

/-- Two requests have read the accepted order, and the first has written its verdict. -/
def overlapState (tx tx' : String) : System :=
  ⟨[boundRow tx], [], [boundRequest tx, ⟨.sample tx', .read boughtRow.intent⟩]⟩

theorem run_sample_overlap (tx tx' : String) :
    Run.run (step .sample) .init
      [.authorize (.sample "buy"), .bindRead (.sample tx), .bindRead (.sample tx'),
        .bindUpdate 0 boughtRow.txnTime]
      = some (overlapState tx tx') := by
  rw [Run.run_cons step_sample_bought, Run.run_cons (step_sample_read (.sample tx) rfl rfl [] []),
    Run.run_cons (step_sample_read (.sample tx') rfl rfl [] _),
    Run.run_cons (step_sample_update rfl [] rfl boughtRow.txnTime)]
  rfl

/-- What a sample report of an agent's one-unit intent adds to the ledger. -/
def sampleFill (aid : Uuid) (intent : BindIntent) : Fill :=
  ⟨⟨aid, intent.asset, intent.venueId, intent.currency⟩, quantityDelta intent.action 1, none,
    intent.multiplier, .fill 2⟩

theorem afterUpdate_sample (tx : String) {intent : BindIntent} {aid : Uuid}
    (hquantity : intent.quantity = 1) (hagent : intent.agentId = some aid)
    (hdelta : quantityDelta intent.action 1 ≠ 0) (now : DateTime) :
    afterUpdate (.sample tx) intent (sampleResult tx intent now)
      = .updated intent (sampleResult tx intent now) (sampleFill aid intent) := by
  have hexec : ((BindExecutionRequest.sample tx).executedQuantity.map F64.toRat).getD 0 = 1 :=
    F64.toRat_one
  have hfill : bindFill (.sample tx) intent (sampleResult tx intent now)
      = some (sampleFill aid intent) := by
    unfold bindFill
    rw [sampleResult_status tx hquantity, hagent, hexec]
    exact if_pos hdelta
  rw [afterUpdate, hfill]

theorem step_sample_ledger (ts : List TraceRow) (ps : List PositionRow) {bs : List Bind} {k : ℕ}
    {b : Bind} {intent : BindIntent} {result : BindExecutionResult} {fill : Fill}
    (hk : bs[k]? = some b) (hphase : b.phase = .updated intent result fill) :
    step .sample ⟨ts, ps, bs⟩ (.bindLedger k)
      = some ⟨ts, upsertPosition ps fill, bs.set k ⟨b.req, .done intent result (some fill)⟩⟩ := by
  obtain ⟨req, phase⟩ := b
  subst hphase
  simp only [step, hk]

theorem haltedRow_quantity : haltedRow.intent.quantity = 1 := by
  rw [haltedRow, sellRow, sampleRow_quantity, AuthorizeRequest.sample, F64.toRat_one]

theorem boughtRow_delta : quantityDelta boughtRow.intent.action 1 = 1 := by decide +kernel

theorem boundRequest_phase (tx : String) :
    (boundRequest tx).phase = .updated boughtRow.intent
      (sampleResult tx boughtRow.intent boughtRow.txnTime)
      (sampleFill (.fill 1) boughtRow.intent) :=
  afterUpdate_sample tx boughtRow_quantity rfl (by rw [boughtRow_delta]; exact one_ne_zero) _

end IrlEngine
