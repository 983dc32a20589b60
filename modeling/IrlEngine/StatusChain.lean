import IrlEngine.Admin

/-!
# Overlapping changes of an agent's status

`update_status` of `registry.rs` reads the old status and writes the new one in a single statement.
Under `READ COMMITTED` the `SELECT` of its first part sees the snapshot that was taken when the
statement began, whereas the `UPDATE` of its second part waits for the lock of the row and then
writes whatever was committed meanwhile.  Here the two are separate events, and calls of
`update_agent_status` overlap in any way.

* `statusStep` — an event of one of the calls;
* `statusStep_alone` — a call that nobody interrupts is the handler;
* `Chained` — every row of the audit log begins with the status that the one before it left;
* `NotOutdated` — when the `UPDATE` takes effect, the status that was read is still the current one.
-/

namespace IrlEngine

/-! ## Calls and their events -/

/-- A call of `agent_update_status`, past the check of its token. -/
structure StatusCall where
  op : Operator
  agentId : Uuid
  status : String

/-- The details that the call writes into the audit log. -/
def StatusCall.details (c : StatusCall) (oldStatus : String) : Json :=
  Json.normalize (.obj [("old_status", .str oldStatus), ("new_status", .str c.status)])

/-- The document that answers the call. -/
def StatusCall.response (c : StatusCall) : Json :=
  Json.normalize (.obj [("agent_id", .str c.agentId.toText), ("status", .str c.status)])

/-- The row that the call writes into the audit log. -/
def StatusCall.auditRow (c : StatusCall) (oldStatus : String) : AuditRow :=
  ⟨c.op.operatorId, (statusAction c.status).asStr, (statusAction c.status).targetType,
    some c.agentId.toText, some (c.details oldStatus), c.op.clientIp⟩

/-- `SELECT status FROM irl.agent_registry WHERE agent_id = $1`. -/
def statusOf (agents : List AgentRow) (agentId : Uuid) : Option String :=
  (agents.find? fun r => r.profile.agentId = agentId).map fun r => r.profile.status

/-- `UPDATE irl.agent_registry SET status = $2, updated_at = now() WHERE agent_id = $1`. -/
def writeStatus (agentId : Uuid) (status : String) (now : ℤ) (agents : List AgentRow) :
    List AgentRow :=
  Table.updateWhere (fun r => r.profile.agentId = agentId)
    (fun r => ⟨{ r.profile with status := status }, now⟩) agents

/-- How far a call has come. -/
inductive StatusPhase where
  /-- The statement has begun, when `seen` updates had taken effect: its snapshot has this
  status. -/
  | started (oldStatus : Option String) (seen : ℕ)
  /-- The statement has returned this status; the insert into the audit log is still to come. -/
  | updated (oldStatus : String)
  | done (result : Except AppError Json)

/-- The tables, the calls that have begun, and the updates in the order in which they took effect,
each with the status that its statement returned. -/
structure StatusSystem where
  admin : AdminState
  calls : List (StatusCall × StatusPhase)
  updates : List (StatusCall × String)

/-- No call has begun. -/
def StatusSystem.start (admin : AdminState) : StatusSystem := ⟨admin, [], []⟩

/-- A call begins, or takes its next step. -/
inductive StatusEvent where
  /-- A new call: the check of the status, and the snapshot of its statement. -/
  | begin (call : StatusCall)
  /-- The `UPDATE` of the `k`-th call takes effect. -/
  | update (k : ℕ) (now : ℤ)
  /-- The statement of the `k`-th call fails. -/
  | fail (k : ℕ) (reason : String)
  /-- The insert into the audit log, and the response. -/
  | audit (k : ℕ)

/-- What a call has done once its statement has begun. -/
def StatusSystem.beginCall (s : StatusSystem) (call : StatusCall) : StatusPhase :=
  if call.status ∈ validStatuses then
    .started (statusOf s.admin.agents call.agentId) s.updates.length
  else .done (.error (.serialization "status must be one of: Active, Suspended, Deregistered"))

/-- One event; a step of a call that is not that far does not happen. -/
def statusStep (s : StatusSystem) : StatusEvent → Option StatusSystem
  | .begin call => some { s with calls := s.calls ++ [(call, s.beginCall call)] }
  | .update k now =>
    match s.calls[k]? with
    | some (call, .started none _) =>
      -- no row in the snapshot, hence none to update
      some { s with calls := s.calls.set k (call, .done (.error (.policy .agentNotFound))) }
    | some (call, .started (some oldStatus) _) =>
      some {
        admin := { s.admin with
          agents := writeStatus call.agentId call.status now s.admin.agents }
        calls := s.calls.set k (call, .updated oldStatus)
        updates := s.updates ++ [(call, oldStatus)] }
    | _ => none
  | .fail k reason =>
    match s.calls[k]? with
    | some (call, .started _ _) =>
      some { s with calls := s.calls.set k (call, .done (.error (.database reason))) }
    | _ => none
  | .audit k =>
    match s.calls[k]? with
    | some (call, .updated oldStatus) =>
      let (admin, result) := respond s.admin call.op (statusAction call.status)
        (some call.agentId.toText) (call.details oldStatus) call.response
      some { s with admin := admin, calls := s.calls.set k (call, .done result) }
    | _ => none

/-- A call that nobody interrupts is the handler. -/
theorem statusStep_alone (s : AdminState) (call : StatusCall) (now : ℤ) :
    ∃ es updates, Run.run statusStep (.start s) es = some
      ⟨(updateAgentStatus s call.op call.agentId call.status now none).1,
        [(call, .done (updateAgentStatus s call.op call.agentId call.status now none).2)],
        updates⟩ := by
  by_cases hvalid : call.status ∈ validStatuses
  · cases hfind : s.agents.find? fun r => r.profile.agentId = call.agentId with
    | none =>
      refine ⟨[.begin call, .update 0 now], [], ?_⟩
      simp [Run.run, statusStep, StatusSystem.start, StatusSystem.beginCall, hvalid, statusOf,
        updateAgentStatus, updateStatus, hfind]
    | some r =>
      refine ⟨[.begin call, .update 0 now, .audit 0], [(call, r.profile.status)], ?_⟩
      simp [Run.run, statusStep, StatusSystem.start, StatusSystem.beginCall, hvalid, statusOf,
        updateAgentStatus, updateStatus, hfind, writeStatus, StatusCall.details,
        StatusCall.response]
  · refine ⟨[.begin call], [], ?_⟩
    simp [Run.run, statusStep, StatusSystem.start, StatusSystem.beginCall, hvalid,
      updateAgentStatus]

/-- Everything a step can do. -/
inductive StatusMove (s : StatusSystem) : StatusEvent → StatusSystem → Prop where
  | begin (call : StatusCall) :
    StatusMove s (.begin call) { s with calls := s.calls ++ [(call, s.beginCall call)] }
  | absent {k now call seen} (h : s.calls[k]? = some (call, .started none seen)) :
    StatusMove s (.update k now)
      { s with calls := s.calls.set k (call, .done (.error (.policy .agentNotFound))) }
  | update {k now call oldStatus seen}
      (h : s.calls[k]? = some (call, .started (some oldStatus) seen)) :
    StatusMove s (.update k now)
      { admin := { s.admin with agents := writeStatus call.agentId call.status now s.admin.agents }
        calls := s.calls.set k (call, .updated oldStatus)
        updates := s.updates ++ [(call, oldStatus)] }
  | fail {k reason call oldStatus seen} (h : s.calls[k]? = some (call, .started oldStatus seen)) :
    StatusMove s (.fail k reason)
      { s with calls := s.calls.set k (call, .done (.error (.database reason))) }
  | audit {k call oldStatus} (h : s.calls[k]? = some (call, .updated oldStatus)) {admin result}
      (hadmin : admin = s.admin ∨
        admin = { s.admin with auditLog := s.admin.auditLog ++ [call.auditRow oldStatus] }) :
    StatusMove s (.audit k)
      { s with admin := admin, calls := s.calls.set k (call, .done result) }

theorem statusStep_cases {s t : StatusSystem} {e : StatusEvent} (h : statusStep s e = some t) :
    StatusMove s e t := by
  cases e with
  | «begin» call =>
    obtain rfl := Option.some.inj h
    exact .begin call
  | update k now =>
    simp only [statusStep] at h
    split at h
    next call seen hk =>
      obtain rfl := Option.some.inj h
      exact .absent hk
    next call oldStatus seen hk =>
      obtain rfl := Option.some.inj h
      exact .update hk
    next => cases h
  | fail k reason =>
    simp only [statusStep] at h
    split at h
    next call oldStatus seen hk =>
      obtain rfl := Option.some.inj h
      exact .fail hk
    next => cases h
  | audit k =>
    simp only [statusStep] at h
    split at h
    next call oldStatus hk =>
      obtain rfl := Option.some.inj h
      refine .audit hk ?_
      unfold respond insertAuditLog
      cases call.op.audit with
      | none => exact Or.inr rfl
      | some reason => exact Or.inl rfl
    next => cases h

/-! ## The chain of statuses -/

/-- The status that the row gives as the old one. -/
def AuditRow.oldStatus (row : AuditRow) : Option Json :=
  row.detailsJson.bind (Json.get? "old_status")

/-- The status that the row gives as the new one. -/
def AuditRow.newStatus (row : AuditRow) : Option Json :=
  row.detailsJson.bind (Json.get? "new_status")

theorem StatusCall.nodup_details (c : StatusCall) (oldStatus : String) :
    (([("old_status", .str oldStatus), ("new_status", .str c.status)] :
      List (String × Json)).map Prod.fst).Nodup := by
  simp

@[simp] theorem StatusCall.oldStatus_auditRow (c : StatusCall) (oldStatus : String) :
    (c.auditRow oldStatus).oldStatus = some (.str oldStatus) :=
  Json.get?_normalize (c.nodup_details oldStatus) List.mem_cons_self

@[simp] theorem StatusCall.newStatus_auditRow (c : StatusCall) (oldStatus : String) :
    (c.auditRow oldStatus).newStatus = some (.str c.status) :=
  Json.get?_normalize (c.nodup_details oldStatus) (List.mem_cons_of_mem _ List.mem_cons_self)

/-- Each row begins with the status that the row before it ends with, the first one with
`status`. -/
def AuditChain : Option Json → List AuditRow → Prop
  | _, [] => True
  | status, row :: rows => row.oldStatus = status ∧ AuditChain row.newStatus rows

/-- The status after the rows. -/
def lastStatus (status : Option Json) (rows : List AuditRow) : Option Json :=
  (rows.getLast?.map AuditRow.newStatus).getD status

theorem lastStatus_cons (status : Option Json) (row : AuditRow) (rows : List AuditRow) :
    lastStatus status (row :: rows) = lastStatus row.newStatus rows := by
  unfold lastStatus
  rw [List.getLast?_cons]
  cases rows.getLast? <;> rfl

theorem lastStatus_append (status : Option Json) (rows more : List AuditRow) :
    lastStatus status (rows ++ more) = lastStatus (lastStatus status rows) more := by
  induction rows generalizing status with
  | nil => rfl
  | cons row rows ih => rw [List.cons_append, lastStatus_cons, lastStatus_cons, ih]

theorem auditChain_concat {status : Option Json} {rows : List AuditRow} {row : AuditRow} :
    AuditChain status (rows ++ [row]) ↔
      AuditChain status rows ∧ row.oldStatus = lastStatus status rows := by
  induction rows generalizing status with
  | nil => simp [AuditChain, lastStatus]
  | cons first rows ih =>
    rw [List.cons_append, AuditChain, AuditChain, ih, lastStatus_cons, and_assoc]

/-- The audit rows of the updates of an agent. -/
def auditRowsOf (agentId : Uuid) (updates : List (StatusCall × String)) : List AuditRow :=
  (updates.filter fun u => u.1.agentId = agentId).map fun u => u.1.auditRow u.2

theorem auditRowsOf_append (agentId : Uuid) (updates more : List (StatusCall × String)) :
    auditRowsOf agentId (updates ++ more) = auditRowsOf agentId updates
      ++ auditRowsOf agentId more := by
  unfold auditRowsOf
  rw [List.filter_append, List.map_append]

theorem auditRowsOf_singleton (agentId : Uuid) (u : StatusCall × String) :
    auditRowsOf agentId [u] = if u.1.agentId = agentId then [u.1.auditRow u.2] else [] := by
  unfold auditRowsOf
  by_cases h : u.1.agentId = agentId
  · simp [h]
  · simp [h]

/-- The status after some updates of an agent is that of the last one. -/
theorem lastStatus_auditRowsOf (status : Option Json) (agentId : Uuid)
    (updates : List (StatusCall × String)) :
    lastStatus status (auditRowsOf agentId updates) =
      ((updates.filter fun u => u.1.agentId = agentId).getLast?.map
        fun u => some (Json.str u.1.status)).getD status := by
  unfold lastStatus auditRowsOf
  rw [List.getLast?_map, Option.map_map]
  simp only [Function.comp_def, StatusCall.newStatus_auditRow]

/-- The status of an agent at the beginning, as it would be audited. -/
def AdminState.initialStatus (admin : AdminState) (agentId : Uuid) : Option Json :=
  (statusOf admin.agents agentId).map Json.str

/-- The audit rows of every agent form a chain, in the order in which the updates took effect. -/
def StatusSystem.Chained (admin : AdminState) (s : StatusSystem) : Prop :=
  ∀ agentId, AuditChain (admin.initialStatus agentId) (auditRowsOf agentId s.updates)

/-- Since the statement began, no other update of the agent has taken effect, or the last one of
them led back to the status that was read. -/
def NotOutdated (s : StatusSystem) : StatusEvent → Prop
  | .update k _ => ∀ call oldStatus seen,
      s.calls[k]? = some (call, .started (some oldStatus) seen) →
        ∀ u, ((s.updates.drop seen).filter fun u => u.1.agentId = call.agentId).getLast? = some u →
          u.1.status = oldStatus
  | _ => True

/-! ## The snapshots -/

theorem statusOf_writeStatus (agentId other : Uuid) (status : String) (now : ℤ)
    (agents : List AgentRow) :
    statusOf (writeStatus agentId status now agents) other =
      if other = agentId then (statusOf agents other).map fun _ => status
      else statusOf agents other := by
  unfold statusOf writeStatus
  induction agents with
  | nil => simp
  | cons r agents ih =>
    rw [Table.updateWhere_cons]
    by_cases hr : r.profile.agentId = agentId
    · by_cases hother : other = agentId
      · subst hother
        simp [hr]
      · have hne : r.profile.agentId ≠ other := fun h => hother (h.symm.trans hr)
        simpa [hr, hother, hne, Ne.symm hother] using ih
    · by_cases hsame : r.profile.agentId = other
      · have hother : other ≠ agentId := fun h => hr (hsame.trans h)
        simp [hsame, hother]
      · simpa [hr, hsame] using ih

/-- The table has the status that the last update left, and so did every snapshot. -/
structure SnapshotInv (admin : AdminState) (s : StatusSystem) : Prop where
  current : ∀ agentId, (statusOf s.admin.agents agentId).map Json.str =
    lastStatus (admin.initialStatus agentId) (auditRowsOf agentId s.updates)
  seen_le : ∀ call oldStatus seen, (call, .started oldStatus seen) ∈ s.calls →
    seen ≤ s.updates.length
  snapshot : ∀ call oldStatus seen, (call, .started oldStatus seen) ∈ s.calls →
    oldStatus.map Json.str =
      lastStatus (admin.initialStatus call.agentId) (auditRowsOf call.agentId (s.updates.take seen))

theorem SnapshotInv.start (admin : AdminState) : SnapshotInv admin (.start admin) where
  current _ := rfl
  seen_le _ _ _ h := absurd h List.not_mem_nil
  snapshot _ _ _ h := absurd h List.not_mem_nil

section Steps

variable {admin : AdminState} {s t : StatusSystem}

/-- A step without an update, after which no statement is under way that was not before. -/
theorem SnapshotInv.of_calls (hs : SnapshotInv admin s) (hagents : t.admin.agents = s.admin.agents)
    (hupdates : t.updates = s.updates)
    (hcalls : ∀ call oldStatus seen, (call, .started oldStatus seen) ∈ t.calls →
      (call, .started oldStatus seen) ∈ s.calls) : SnapshotInv admin t where
  current agentId := by rw [hagents, hupdates, hs.current]
  seen_le call oldStatus seen h := hupdates ▸ hs.seen_le call oldStatus seen (hcalls _ _ _ h)
  snapshot call oldStatus seen h := hupdates ▸ hs.snapshot call oldStatus seen (hcalls _ _ _ h)

/-- The statement of a call is over. -/
theorem mem_of_mem_set_of_not_started {call c : StatusCall} {phase : StatusPhase} {k : ℕ}
    {oldStatus : Option String} {seen : ℕ} (hphase : ∀ old n, phase ≠ .started old n)
    (h : (c, .started oldStatus seen) ∈ s.calls.set k (call, phase)) :
    (c, .started oldStatus seen) ∈ s.calls := by
  rcases List.mem_or_eq_of_mem_set h with h | h
  · exact h
  · exact absurd (Prod.mk.inj h).2.symm (hphase oldStatus seen)

theorem SnapshotInv.beginCall (hs : SnapshotInv admin s) (call : StatusCall) :
    SnapshotInv admin { s with calls := s.calls ++ [(call, s.beginCall call)] } := by
  have hnew : ∀ oldStatus seen, s.beginCall call = .started oldStatus seen →
      statusOf s.admin.agents call.agentId = oldStatus ∧ s.updates.length = seen := by
    intro oldStatus seen h
    unfold StatusSystem.beginCall at h
    split at h
    · exact StatusPhase.started.inj h
    · cases h
  refine ⟨hs.current, fun c oldStatus seen h => ?_, fun c oldStatus seen h => ?_⟩
  all_goals rcases List.mem_append.1 h with h | h
  · exact hs.seen_le c oldStatus seen h
  · obtain ⟨rfl, hphase⟩ := Prod.mk.inj (List.mem_singleton.1 h)
    exact (hnew oldStatus seen hphase.symm).2.ge
  · exact hs.snapshot c oldStatus seen h
  · obtain ⟨rfl, hphase⟩ := Prod.mk.inj (List.mem_singleton.1 h)
    obtain ⟨rfl, rfl⟩ := hnew oldStatus seen hphase.symm
    rw [List.take_length]
    exact hs.current c.agentId

/-- The status that a statement read, moved on by the updates that have taken effect since. -/
theorem SnapshotInv.current_of_started (hs : SnapshotInv admin s) {call : StatusCall}
    {oldStatus : String} {seen : ℕ} (hk : (call, .started (some oldStatus) seen) ∈ s.calls) :
    lastStatus (admin.initialStatus call.agentId) (auditRowsOf call.agentId s.updates) =
      lastStatus (some (.str oldStatus)) (auditRowsOf call.agentId (s.updates.drop seen)) := by
  have hread := hs.snapshot call (some oldStatus) seen hk
  rw [← List.take_append_drop seen s.updates, auditRowsOf_append, lastStatus_append, ← hread,
    List.take_append_drop]
  rfl

theorem SnapshotInv.status_of_started (hs : SnapshotInv admin s) {call : StatusCall}
    {oldStatus : String} {seen : ℕ} (hk : (call, .started (some oldStatus) seen) ∈ s.calls) :
    ∃ status, statusOf s.admin.agents call.agentId = some status := by
  have hcurrent := hs.current call.agentId
  rw [hs.current_of_started hk, lastStatus_auditRowsOf] at hcurrent
  cases hstatus : statusOf s.admin.agents call.agentId with
  | some status => exact ⟨status, rfl⟩
  | none =>
    rw [hstatus] at hcurrent
    cases hlast : ((s.updates.drop seen).filter fun u => u.1.agentId = call.agentId).getLast? with
    | none => rw [hlast] at hcurrent; cases hcurrent
    | some u => rw [hlast] at hcurrent; cases hcurrent

theorem SnapshotInv.update (hs : SnapshotInv admin s) {call : StatusCall} {oldStatus : String}
    {seen k : ℕ} (now : ℤ) (hk : (call, .started (some oldStatus) seen) ∈ s.calls) :
    SnapshotInv admin
      { admin := { s.admin with agents := writeStatus call.agentId call.status now s.admin.agents }
        calls := s.calls.set k (call, .updated oldStatus)
        updates := s.updates ++ [(call, oldStatus)] } := by
  have hcalls : ∀ c old n, (c, .started old n) ∈ s.calls.set k (call, .updated oldStatus) →
      (c, .started old n) ∈ s.calls :=
    fun c old n h => mem_of_mem_set_of_not_started (fun _ _ h => by cases h) h
  refine ⟨fun agentId => ?_, fun c old n h => ?_, fun c old n h => ?_⟩
  · show (statusOf (writeStatus _ _ _ _) agentId).map Json.str = _
    rw [statusOf_writeStatus, auditRowsOf_append, lastStatus_append, ← hs.current]
    rw [auditRowsOf_singleton]
    by_cases hagent : agentId = call.agentId
    · subst hagent
      obtain ⟨status, hstatus⟩ := hs.status_of_started hk
      rw [if_pos rfl, if_pos rfl, hstatus]
      exact (call.newStatus_auditRow oldStatus).symm
    · rw [if_neg hagent, if_neg (Ne.symm hagent)]
      rfl
  · have hle := hs.seen_le c old n (hcalls c old n h)
    rw [List.length_append]
    exact hle.trans (Nat.le_add_right _ _)
  · have hle := hs.seen_le c old n (hcalls c old n h)
    rw [hs.snapshot c old n (hcalls c old n h), List.take_append_of_le_length hle]

theorem SnapshotInv.step {e : StatusEvent} (hs : SnapshotInv admin s)
    (h : statusStep s e = some t) : SnapshotInv admin t := by
  cases statusStep_cases h with
  | «begin» call => exact hs.beginCall call
  | absent hk =>
    exact hs.of_calls rfl rfl fun c old n h => mem_of_mem_set_of_not_started
      (fun _ _ h => by cases h) h
  | update hk => exact hs.update _ (List.mem_of_getElem? hk)
  | fail hk =>
    exact hs.of_calls rfl rfl fun c old n h => mem_of_mem_set_of_not_started
      (fun _ _ h => by cases h) h
  | audit hk hadmin =>
    refine hs.of_calls ?_ rfl fun c old n h => mem_of_mem_set_of_not_started
      (fun _ _ h => by cases h) h
    rcases hadmin with rfl | rfl
    · rfl
    · rfl

/-! ## The chain -/

/-- One more update continues the chain exactly if it read the status that the last one left. -/
theorem chained_append_iff (hchained : s.Chained admin) (call : StatusCall) (oldStatus : String)
    (ht : t.updates = s.updates ++ [(call, oldStatus)]) :
    t.Chained admin ↔ some (Json.str oldStatus) =
      lastStatus (admin.initialStatus call.agentId) (auditRowsOf call.agentId s.updates) := by
  unfold StatusSystem.Chained
  rw [ht]
  refine ⟨fun hall => ?_, fun hlast agentId => ?_⟩
  · have hagent := hall call.agentId
    rw [auditRowsOf_append, auditRowsOf_singleton, if_pos rfl, auditChain_concat,
      StatusCall.oldStatus_auditRow] at hagent
    exact hagent.2
  · rw [auditRowsOf_append, auditRowsOf_singleton]
    split
    next hagent =>
      subst hagent
      rw [auditChain_concat, StatusCall.oldStatus_auditRow]
      exact ⟨hchained call.agentId, hlast⟩
    next =>
      rw [List.append_nil]
      exact hchained agentId

/-- The condition on an update: the status that was read is still the current one. -/
theorem notOutdated_update_iff (hs : SnapshotInv admin s) {k : ℕ} {call : StatusCall}
    {oldStatus : String} {seen : ℕ} (now : ℤ)
    (hk : s.calls[k]? = some (call, .started (some oldStatus) seen)) :
    NotOutdated s (.update k now) ↔ some (Json.str oldStatus) =
      lastStatus (admin.initialStatus call.agentId) (auditRowsOf call.agentId s.updates) := by
  rw [hs.current_of_started (List.mem_of_getElem? hk), lastStatus_auditRowsOf]
  calc
    _ ↔ ∀ u, ((s.updates.drop seen).filter fun u => u.1.agentId = call.agentId).getLast? = some u →
        u.1.status = oldStatus := by
      refine ⟨fun hP => hP call oldStatus seen hk, fun hu c old n hc => ?_⟩
      rw [hk] at hc
      cases hc
      exact hu
    _ ↔ _ := by
      cases ((s.updates.drop seen).filter fun u => u.1.agentId = call.agentId).getLast? with
      | none => simp
      | some u => simp [eq_comm]

/-- A step keeps the chain exactly if the status that was read is still the current one. -/
theorem chained_step_iff {e : StatusEvent} (hs : SnapshotInv admin s) (hchained : s.Chained admin)
    (h : statusStep s e = some t) : t.Chained admin ↔ NotOutdated s e := by
  cases statusStep_cases h with
  | «begin» call => exact iff_of_true hchained trivial
  | fail hk => exact iff_of_true hchained trivial
  | audit hk hadmin => exact iff_of_true hchained trivial
  | absent hk =>
    refine iff_of_true hchained fun call oldStatus seen h => ?_
    rw [hk] at h
    cases h
  | @update k now call oldStatus seen hk =>
    rw [chained_append_iff hchained call oldStatus rfl, notOutdated_update_iff hs now hk]

end Steps

/-- The rows that the calls have written into the audit log are those of the updates. -/
structure AuditedInv (admin : AdminState) (s : StatusSystem) : Prop where
  updated : ∀ call oldStatus, (call, .updated oldStatus) ∈ s.calls → (call, oldStatus) ∈ s.updates
  audited : ∀ row ∈ s.admin.auditLog, row ∈ admin.auditLog ∨
    ∃ u ∈ s.updates, row = u.1.auditRow u.2

theorem AuditedInv.step {admin : AdminState} {s t : StatusSystem} {e : StatusEvent}
    (hs : AuditedInv admin s) (h : statusStep s e = some t) : AuditedInv admin t := by
  have hset : ∀ {k call phase}, (∀ old, phase ≠ .updated old) → ∀ c oldStatus,
      (c, .updated oldStatus) ∈ s.calls.set k (call, phase) → (c, oldStatus) ∈ s.updates := by
    intro k call phase hphase c oldStatus hc
    rcases List.mem_or_eq_of_mem_set hc with hc | hc
    · exact hs.updated c oldStatus hc
    · exact absurd (Prod.mk.inj hc).2.symm (hphase oldStatus)
  cases statusStep_cases h with
  | «begin» call =>
    refine ⟨fun c oldStatus hc => ?_, hs.audited⟩
    rcases List.mem_append.1 hc with hc | hc
    · exact hs.updated c oldStatus hc
    · have hphase := (Prod.mk.inj (List.mem_singleton.1 hc)).2
      unfold StatusSystem.beginCall at hphase
      split at hphase
      · cases hphase
      · cases hphase
  | absent hk => exact ⟨hset (fun _ h => by cases h), hs.audited⟩
  | fail hk => exact ⟨hset (fun _ h => by cases h), hs.audited⟩
  | @update k now call oldStatus seen hk =>
    refine ⟨fun c old hc => ?_, fun row hrow => ?_⟩
    · rcases List.mem_or_eq_of_mem_set hc with hc | hc
      · exact List.mem_append_left _ (hs.updated c old hc)
      · obtain ⟨rfl, hphase⟩ := Prod.mk.inj hc
        rw [StatusPhase.updated.inj hphase]
        exact List.mem_append_right _ (List.mem_singleton_self _)
    · rcases hs.audited row hrow with hrow | ⟨u, hu, hrow⟩
      · exact Or.inl hrow
      · exact Or.inr ⟨u, List.mem_append_left _ hu, hrow⟩
  | @audit k call oldStatus hk log result hadmin =>
    refine ⟨hset (fun _ h => by cases h), fun row hrow => ?_⟩
    rcases hadmin with rfl | rfl
    · exact hs.audited row hrow
    · rcases List.mem_append.1 hrow with hrow | hrow
      · exact hs.audited row hrow
      · exact Or.inr ⟨(call, oldStatus), hs.updated call oldStatus (List.mem_of_getElem? hk),
          List.mem_singleton.1 hrow⟩

theorem audited_of_run {admin : AdminState} {es : List StatusEvent} {t : StatusSystem}
    (hrun : Run.run statusStep (.start admin) es = some t) {row : AuditRow}
    (hrow : row ∈ t.admin.auditLog) :
    row ∈ admin.auditLog ∨ ∃ u ∈ t.updates, row = u.1.auditRow u.2 := by
  have hinit : AuditedInv admin (.start admin) :=
    ⟨fun _ _ h => absurd h List.not_mem_nil, fun _ h => Or.inl h⟩
  exact (Run.run_invariant (fun s e t hs h => hs.step h) hrun hinit).audited row hrow

/-- All along a run the audit rows of every agent form a chain, in the order in which the updates
took effect, exactly if none of them takes effect on a status other than the one it read. -/
theorem status_rows_chain_iff (admin : AdminState) {es : List StatusEvent} {u : StatusSystem}
    (hrun : Run.run statusStep (.start admin) es = some u) :
    (∀ fs t, fs <+: es → Run.run statusStep (.start admin) fs = some t → t.Chained admin) ↔
      Run.Along statusStep NotOutdated (.start admin) es := by
  rw [← Run.forall_prefix_iff_along (I := fun s => SnapshotInv admin s ∧ s.Chained admin)
    (fun s e _ t hs h => ?_) hrun ⟨.start admin, fun _ => trivial⟩]
  · refine ⟨fun hall fs t hpre ht => ⟨?_, hall fs t hpre ht⟩,
      fun hall fs t hpre ht => (hall fs t hpre ht).2⟩
    exact Run.run_invariant (fun s e t hs h => hs.step h) ht (.start admin)
  · rw [and_iff_right (hs.1.step h)]
    exact chained_step_iff hs.1 hs.2 h

/-! Two calls for an active agent. -/

/-- A registry with one active agent. -/
def statusAdmin : AdminState where
  agents := [⟨.sample (.fill 1) F64.million, 0⟩]
  tokens := []
  shadowRow := none
  sys := .init
  auditLog := []
  tokenCache := []
  shadowMode := false

/-- A call for that agent. -/
def statusCall (status : String) : StatusCall := ⟨⟨"ops", none, none⟩, .fill 1, status⟩

/-- Both calls read `Active`, and the second one to take effect replaces `Suspended`. -/
theorem status_rows_broken : ∃ t,
    Run.run statusStep (.start statusAdmin)
      [.begin (statusCall "Suspended"), .begin (statusCall "Deregistered"),
        .update 0 1, .update 1 2, .audit 0, .audit 1] = some t ∧
      t.admin.auditLog = [(statusCall "Suspended").auditRow "Active",
        (statusCall "Deregistered").auditRow "Active"] ∧ ¬ t.Chained statusAdmin := by
  refine ⟨_, rfl, rfl, fun h => ?_⟩
  have hrows : AuditChain _ [(statusCall "Suspended").auditRow "Active",
    (statusCall "Deregistered").auditRow "Active"] := h (.fill 1)
  have hsecond := hrows.2.1
  rw [StatusCall.oldStatus_auditRow, StatusCall.newStatus_auditRow] at hsecond
  exact absurd hsecond (by simp [statusCall])

/-- One call after the other. -/
theorem status_rows_chain_iff_sample :
    (∀ fs t, fs <+: [.begin (statusCall "Suspended"), .update 0 1, .begin (statusCall "Active"),
        .update 1 2, .audit 1, .audit 0] →
      Run.run statusStep (.start statusAdmin) fs = some t → t.Chained statusAdmin) ↔
      Run.Along statusStep NotOutdated (.start statusAdmin)
        [.begin (statusCall "Suspended"), .update 0 1, .begin (statusCall "Active"), .update 1 2,
          .audit 1, .audit 0] :=
  status_rows_chain_iff statusAdmin (u := _) rfl

end IrlEngine
