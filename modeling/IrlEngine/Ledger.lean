import IrlEngine.Verdicts

/-!
# The position ledger

The verdict of a bind and its ledger write are separate statements, guarded by the
status that the request read before both.  The net quantity of a position is always
the sum of what the answered requests have added to it (`netQuantity_eq_sum`); it is
the sum over the `MATCHED` traces of one request each when overlapping requests do not
get in each other's way (`ledger_exactly_once`).

* `Moves` — the reports that lead to a ledger write;
* `Booked` — the invariant: of the requests for one trace at most one moves the
  position, and then the trace is `MATCHED` for good.
-/

namespace IrlEngine

/-! ## Reports that move a position -/

/-- The filled quantity, signed by the side of the intent. -/
def signedQuantity (req : BindExecutionRequest) (intent : BindIntent) : ℚ :=
  quantityDelta intent.action ((req.executedQuantity.map F64.toRat).getD 0)

/-- The position that a fill of the intent belongs to. -/
def BindIntent.position (intent : BindIntent) : Option PositionKey :=
  intent.agentId.map fun aid => ⟨aid, intent.asset, intent.venueId, intent.currency⟩

/-- The report agrees with the intent of an agent, and its fill is not zero. -/
structure Moves (D : Deployment) (req : BindExecutionRequest) (intent : BindIntent) : Prop where
  agrees : Agrees D.cfg D.aliases req intent
  position : intent.position ≠ none
  quantity : signedQuantity req intent ≠ 0

theorem TraceRow.position_pendingIntent (r : TraceRow) :
    r.pendingIntent.position = r.intent.position := rfl

theorem TraceRow.signedQuantity_pendingIntent (r : TraceRow) (req : BindExecutionRequest) :
    signedQuantity req r.pendingIntent = signedQuantity req r.intent := rfl

section BindFill

variable {D : Deployment} {req : BindExecutionRequest} {intent : BindIntent}

theorem bindFill_of_moves (h : Moves D req intent) (now : DateTime) :
    ∃ fill, bindFill req intent (reconcile D.cfg D.aliases req intent now) = some fill ∧
      intent.position = some fill.key ∧ fill.quantityDelta = signedQuantity req intent := by
  have hstatus := (reconcile_matched_iff now).2 h.agrees
  have hposition := h.position
  unfold bindFill
  rw [hstatus]
  cases hagent : intent.agentId with
  | none => exact absurd (by simp [BindIntent.position, hagent]) hposition
  | some aid =>
    refine ⟨_, if_pos h.quantity, ?_, rfl⟩
    simp [BindIntent.position, hagent]

theorem bindFill_of_not_moves (h : ¬ Moves D req intent) (now : DateTime) :
    bindFill req intent (reconcile D.cfg D.aliases req intent now) = none := by
  unfold bindFill
  cases hagent : intent.agentId with
  | none => cases (reconcile D.cfg D.aliases req intent now).verificationStatus <;> rfl
  | some aid =>
    rcases reconcile_status D.cfg D.aliases req intent now with hstatus | hstatus
    · rw [hstatus]
      refine if_neg fun hquantity => h ⟨(reconcile_matched_iff now).1 hstatus, ?_, hquantity⟩
      simp [BindIntent.position, hagent]
    · rw [hstatus]

end BindFill

/-! ## The ledger is the sum of the fills -/

/-- What an answered request has added to a position. -/
def posted (key : PositionKey) (b : Bind) : ℚ :=
  match b.phase with
  | .done _ _ (some fill) => if fill.key = key then fill.quantityDelta else 0
  | _ => 0

/-- A request that has read nothing has added nothing. -/
theorem posted_of_no_intent (key : PositionKey) {b : Bind} (h : b.phase.intent? = none) :
    posted key b = 0 := by
  unfold posted
  cases hphase : b.phase with
  | done intent result fill => rw [hphase] at h; exact absurd h (by simp [BindPhase.intent?])
  | _ => rfl

theorem posted_afterUpdate (key : PositionKey) (req : BindExecutionRequest) (intent : BindIntent)
    (result : BindExecutionResult) : posted key ⟨req, afterUpdate req intent result⟩ = 0 := by
  unfold afterUpdate
  cases bindFill req intent result <;> rfl

theorem netQuantity_of_change {D : Deployment} {s s' : System} {e : Event} (h : Change D s e s')
    {key : PositionKey} (hs : netQuantity s.positions key = (s.binds.map (posted key)).sum) :
    netQuantity s'.positions key = (s'.binds.map (posted key)).sum := by
  cases h with
  | idle => exact hs
  | insert _ _ r _ _ => exact hs
  | expire now => exact hs
  | recode _ p f hf => exact hs
  | refuse req err => simpa [posted] using hs
  | read req r _ _ => simpa [posted] using hs
  | update k now req intent hk =>
    rw [Table.sum_map_set hk, posted_afterUpdate]
    simpa [posted] using hs
  | ledger k req intent result fill hk =>
    rw [Table.sum_map_set hk, netQuantity_upsertPosition, hs]
    simp [posted]

theorem netQuantity_eq_sum {D : Deployment} {s : System} (h : Reachable D s) (key : PositionKey) :
    netQuantity s.positions key = (s.binds.map (posted key)).sum := by
  obtain ⟨es, hrun⟩ := h
  refine Run.run_invariant (fun s e t hs he => netQuantity_of_change (change_of_step he) hs) hrun ?_
  rfl

/-! ## Requests that have written their verdict -/

/-- The intent of a request that has written its verdict. -/
def BindPhase.written? : BindPhase → Option BindIntent
  | .refused _ => none
  | .read _ => none
  | .updated intent _ _ => some intent
  | .done intent _ _ => some intent

theorem written?_afterUpdate (req : BindExecutionRequest) (intent : BindIntent)
    (result : BindExecutionResult) : (afterUpdate req intent result).written? = some intent := by
  unfold afterUpdate
  cases bindFill req intent result <;> rfl

theorem BindPhase.intent?_of_written? {p : BindPhase} {intent : BindIntent}
    (h : p.written? = some intent) : p.intent? = some intent := by
  cases p with
  | refused err => exact absurd h (by simp [written?])
  | read intent' => exact absurd h (by simp [written?])
  | updated intent' result fill => exact h
  | done intent' result fill => exact h

/-- A written verdict was written before the step, or by it. -/
theorem BindChange.written {D : Deployment} {s : System} {e : Event} {b : Bind}
    (h : BindChange D s e b) {intent : BindIntent} (hw : b.phase.written? = some intent) :
    (∃ b₀ ∈ s.binds, b₀.req = b.req ∧ b₀.phase.written? = some intent) ∨
      ∃ k now, e = .bindUpdate k now ∧ s.binds[k]? = some ⟨b.req, .read intent⟩ := by
  cases h with
  | same _ _ hb => exact Or.inl ⟨b, hb, rfl, hw⟩
  | refused req err => exact absurd hw (by simp [BindPhase.written?])
  | read req r _ _ => exact absurd hw (by simp [BindPhase.written?])
  | updated k now req intent' hk =>
    rw [written?_afterUpdate, Option.some.injEq] at hw
    exact Or.inr ⟨k, now, rfl, hw ▸ hk⟩
  | ledger k req intent' result fill hk => exact Or.inl ⟨_, List.mem_of_getElem? hk, rfl, hw⟩

/-- A request that has written its verdict has done so in every later state. -/
theorem written_of_change {D : Deployment} {s s' : System} {e : Event} (h : Change D s e s')
    {b : Bind} (hb : b ∈ s.binds) {intent : BindIntent} (hw : b.phase.written? = some intent) :
    ∃ b' ∈ s'.binds, b'.req = b.req ∧ b'.phase.written? = some intent := by
  obtain ⟨i, hi⟩ := List.mem_iff_getElem?.1 hb
  cases h with
  | idle => exact ⟨b, hb, rfl, hw⟩
  | insert _ _ r _ _ => exact ⟨b, hb, rfl, hw⟩
  | expire now => exact ⟨b, hb, rfl, hw⟩
  | recode _ p f hf => exact ⟨b, hb, rfl, hw⟩
  | refuse req err => exact ⟨b, List.mem_append_left _ hb, rfl, hw⟩
  | read req r _ _ => exact ⟨b, List.mem_append_left _ hb, rfl, hw⟩
  | update k now req intent' hk =>
    have hne : k ≠ i := by
      rintro rfl
      rw [hi, Option.some.injEq] at hk
      exact absurd hw (by simp [hk, BindPhase.written?])
    exact ⟨b, List.mem_of_getElem? ((List.getElem?_set_ne hne).trans hi), rfl, hw⟩
  | ledger k req intent' result fill hk =>
    by_cases hne : k = i
    · subst hne
      rw [hi, Option.some.injEq] at hk
      subst hk
      have hlt := (List.getElem?_eq_some_iff.1 hi).1
      exact ⟨_, List.mem_of_getElem? (List.getElem?_set_self hlt), rfl, hw⟩
    · exact ⟨b, List.mem_of_getElem? ((List.getElem?_set_ne hne).trans hi), rfl, hw⟩

/-- The row of the request that a step lets write its verdict. -/
theorem rowOf_of_update {D : Deployment} {s s' : System} {k : ℕ} {now : DateTime}
    {req : BindExecutionRequest} {intent : BindIntent}
    (h : step D s (.bindUpdate k now) = some s') (hk : s.binds[k]? = some ⟨req, .read intent⟩)
    {r : TraceRow} (hrow : Table.rowOf TraceRow.traceId s.traces req.traceId = some r) :
    Table.rowOf TraceRow.traceId s'.traces req.traceId
      = some (r.bindTo (reconcile D.cfg D.aliases req intent now) req) := by
  simp only [step, hk, Option.some.injEq] at h
  subst h
  have hid : r.traceId = (reconcile D.cfg D.aliases req intent now).traceId :=
    Table.key_of_rowOf hrow
  show Table.rowOf TraceRow.traceId (updateBinding s.traces _ req) req.traceId = _
  rw [updateBinding, Table.rowOf_updateWhere fun r => r.bindTo_traceId _ req, hrow, Option.map_some,
    if_pos (decide_eq_true hid)]

/-- The requests of a step, place by place: as before, or appended at the end. -/
theorem getElem?_of_change {D : Deployment} {s s' : System} {e : Event} (h : Change D s e s')
    {i : ℕ} {b : Bind} (hi : s'.binds[i]? = some b) {intent : BindIntent}
    (hintent : b.phase.intent? = some intent) :
    (∃ b₀, s.binds[i]? = some b₀ ∧ b₀.req = b.req ∧ b₀.phase.intent? = some intent) ∨
      e = .bindRead b.req ∧ i = s.binds.length ∧
        ∃ r, Table.rowOf TraceRow.traceId s.traces b.req.traceId = some r ∧
          r.verificationStatus = .pending := by
  cases h with
  | idle => exact Or.inl ⟨b, hi, rfl, hintent⟩
  | insert _ _ r _ _ => exact Or.inl ⟨b, hi, rfl, hintent⟩
  | expire now => exact Or.inl ⟨b, hi, rfl, hintent⟩
  | recode _ p f hf => exact Or.inl ⟨b, hi, rfl, hintent⟩
  | refuse req err =>
    rcases Table.getElem?_of_append hi with hi | ⟨-, rfl⟩
    · exact Or.inl ⟨b, hi, rfl, hintent⟩
    · exact absurd hintent (by simp [BindPhase.intent?])
  | read req r hrow hpending =>
    rcases Table.getElem?_of_append hi with hi | ⟨hlen, rfl⟩
    · exact Or.inl ⟨b, hi, rfl, hintent⟩
    · exact Or.inr ⟨rfl, hlen, r, hrow, hpending⟩
  | update k now req intent' hk =>
    rcases Table.getElem?_of_set hi with ⟨-, hi⟩ | ⟨rfl, rfl⟩
    · exact Or.inl ⟨b, hi, rfl, hintent⟩
    · rw [intent?_afterUpdate] at hintent
      exact Or.inl ⟨_, hk, rfl, hintent⟩
  | ledger k req intent' result fill hk =>
    rcases Table.getElem?_of_set hi with ⟨-, hi⟩ | ⟨rfl, rfl⟩
    · exact Or.inl ⟨b, hi, rfl, hintent⟩
    · exact Or.inl ⟨_, hk, rfl, hintent⟩

theorem BindPhase.read_or_written {p : BindPhase} {intent : BindIntent}
    (h : p.intent? = some intent) : p = .read intent ∨ p.written? = some intent := by
  cases p with
  | refused err => exact absurd h (by simp [intent?])
  | read intent' => exact Or.inl (congrArg _ (Option.some.inj h))
  | updated intent' result fill => exact Or.inr h
  | done intent' result fill => exact Or.inr h

/-! ## Overlapping requests -/

/-- Where the first report moves the position, the second agrees as well and does not
move it. -/
def Compatible (D : Deployment) (req req' : BindExecutionRequest) (intent : BindIntent) : Prop :=
  Moves D req intent → Agrees D.cfg D.aliases req' intent ∧ ¬ Moves D req' intent

/-- A request that reads a trace on which another one is in flight is compatible with it. -/
def NoDoubleBooking (D : Deployment) (s : System) : Event → Prop
  | .bindRead req => ∀ r, Table.rowOf TraceRow.traceId s.traces req.traceId = some r →
      r.verificationStatus = .pending →
      ∀ req' intent, InFlight s req.traceId req' intent →
        Compatible D req req' intent ∧ Compatible D req' req intent
  | _ => True

/-- The fill of a request is the one its report states. -/
def Bind.Sound (D : Deployment) (b : Bind) : Prop :=
  match b.phase with
  | .updated intent _ fill =>
    ∃ now, bindFill b.req intent (reconcile D.cfg D.aliases b.req intent now) = some fill
  | .done intent _ fill =>
    ∃ now, bindFill b.req intent (reconcile D.cfg D.aliases b.req intent now) = fill
  | _ => True

/-- The invariant behind `ledger_exactly_once`. -/
structure Booked (D : Deployment) (s : System) : Prop where
  ids : UniqueIds s
  intents : IntentsCurrent s
  sound : ∀ b ∈ s.binds, b.Sound D
  /-- The requests for one trace are compatible. -/
  overlap : ∀ (i j : ℕ) (b b' : Bind) (intent : BindIntent), i ≠ j →
    s.binds[i]? = some b → s.binds[j]? = some b' →
    b'.req.traceId = b.req.traceId → b.phase.intent? = some intent →
    b'.phase.intent? = some intent → Compatible D b.req b'.req intent
  /-- A trace with a verdict is not pending. -/
  written : ∀ b ∈ s.binds, ∀ intent, b.phase.written? = some intent →
    ∀ r, Table.rowOf TraceRow.traceId s.traces b.req.traceId = some r →
      r.verificationStatus ≠ .pending
  /-- A trace with a fill is matched. -/
  moved : ∀ b ∈ s.binds, ∀ intent, b.phase.written? = some intent → Moves D b.req intent →
    ∀ r, Table.rowOf TraceRow.traceId s.traces b.req.traceId = some r →
      r.verificationStatus = .matched
  /-- A matched trace has a report that agrees with it. -/
  matched : ∀ r ∈ s.traces, r.verificationStatus = .matched →
    ∃ b ∈ s.binds, b.req.traceId = r.traceId ∧
      ∃ intent, b.phase.written? = some intent ∧ Agrees D.cfg D.aliases b.req intent

theorem booked_init (D : Deployment) : Booked D .init where
  ids := by simp [UniqueIds, System.init]
  intents b hb := absurd hb (by simp [System.init])
  sound b hb := absurd hb (by simp [System.init])
  overlap i j b b' intent _ hi := absurd hi (by simp [System.init])
  written b hb := absurd hb (by simp [System.init])
  moved b hb := absurd hb (by simp [System.init])
  matched r hr := absurd hr (by simp [System.init])

section Step

variable {D : Deployment} {s s' : System} {e : Event}

theorem Booked.sound_step (hs : Booked D s) {b : Bind} (h : BindChange D s e b) : b.Sound D := by
  cases h with
  | same _ _ hb => exact hs.sound b hb
  | refused req err => trivial
  | read req r _ _ => trivial
  | updated k now req intent hk =>
    unfold afterUpdate Bind.Sound
    cases hfill : bindFill req intent (reconcile D.cfg D.aliases req intent now) with
    | none => exact ⟨now, hfill⟩
    | some fill => exact ⟨now, hfill⟩
  | ledger k req intent result fill hk =>
    obtain ⟨now, hfill⟩ := hs.sound _ (List.mem_of_getElem? hk)
    exact ⟨now, hfill⟩

/-- A request that has just read its trace is compatible with the ones before it. -/
theorem Booked.compatible_read (hs : Booked D s) {req : BindExecutionRequest}
    (hP : NoDoubleBooking D s (.bindRead req)) {r : TraceRow}
    (hrow : Table.rowOf TraceRow.traceId s.traces req.traceId = some r)
    (hpending : r.verificationStatus = .pending) {b : Bind} (hb : b ∈ s.binds)
    (hid : b.req.traceId = req.traceId) {intent : BindIntent}
    (hintent : b.phase.intent? = some intent) :
    Compatible D req b.req intent ∧ Compatible D b.req req intent := by
  rcases BindPhase.read_or_written hintent with hread | hwritten
  · refine hP r hrow hpending b.req intent ⟨?_, hid⟩
    rw [← hread]
    exact hb
  · exact absurd hpending (hs.written b hb intent hwritten r (hid ▸ hrow))

theorem Booked.overlap_step (hs : Booked D s) (hP : NoDoubleBooking D s e) (h : Change D s e s')
    {i j : ℕ} {b b' : Bind} {intent : BindIntent} (hij : i ≠ j) (hi : s'.binds[i]? = some b)
    (hj : s'.binds[j]? = some b') (hid : b'.req.traceId = b.req.traceId)
    (hb : b.phase.intent? = some intent) (hb' : b'.phase.intent? = some intent) :
    Compatible D b.req b'.req intent := by
  rcases getElem?_of_change h hi hb with ⟨b₀, hi₀, hreq, hb₀⟩ | ⟨he, hlen, r, hrow, hpending⟩
  · rcases getElem?_of_change h hj hb' with ⟨b₁, hj₁, hreq', hb₁⟩ | ⟨he, hlen, r, hrow, hpending⟩
    · rw [← hreq, ← hreq']
      refine hs.overlap i j b₀ b₁ intent hij hi₀ hj₁ ?_ hb₀ hb₁
      rw [hreq, hreq', hid]
    · subst he
      rw [← hreq]
      refine (hs.compatible_read hP hrow hpending (List.mem_of_getElem? hi₀) ?_ hb₀).2
      rw [hreq, hid]
  · subst he
    rcases getElem?_of_change h hj hb' with ⟨b₁, hj₁, hreq', hb₁⟩ | ⟨-, hlen', -⟩
    · rw [← hreq']
      refine (hs.compatible_read hP hrow hpending (List.mem_of_getElem? hj₁) ?_ hb₁).1
      rw [hreq', hid]
    · exact absurd (hlen.trans hlen'.symm) hij

/-- What a step makes of the row of a request that had written its verdict. -/
theorem Booked.row_step (hs : Booked D s) {b : Bind} (hb : b ∈ s.binds) {intent : BindIntent}
    (hw : b.phase.written? = some intent) {r r' : TraceRow}
    (hrow : Table.rowOf TraceRow.traceId s.traces b.req.traceId = some r)
    (h : RowChange D s e r r') :
    r'.verificationStatus ≠ .pending ∧
      (Moves D b.req intent → r'.verificationStatus = .matched) := by
  have hnot := hs.written b hb intent hw r hrow
  cases h with
  | same => exact ⟨hnot, fun hm => hs.moved b hb intent hw hm r hrow⟩
  | bound k now req intent₀ hk _ hid =>
    have hstatus := reconcile_status D.cfg D.aliases req intent₀ now
    refine ⟨?_, fun hm => ?_⟩
    · rw [TraceRow.bindTo_verificationStatus]
      rcases hstatus with hstatus | hstatus <;> rw [hstatus] <;> decide
    · -- the request that writes now is compatible with the one that has moved the position
      obtain ⟨i, hi⟩ := List.mem_iff_getElem?.1 hb
      have hik : i ≠ k := by
        rintro rfl
        rw [hi, Option.some.injEq] at hk
        exact absurd hw (by simp [hk, BindPhase.written?])
      have hids : req.traceId = b.req.traceId := hid.symm.trans (Table.key_of_rowOf hrow)
      obtain ⟨q, hq, hintent⟩ := hs.intents b hb intent (BindPhase.intent?_of_written? hw)
      obtain ⟨q', hq', hintent₀⟩ := hs.intents _ (List.mem_of_getElem? hk) intent₀ rfl
      have hqq : q' = q := by
        have hq' : Table.rowOf TraceRow.traceId s.traces b.req.traceId = some q' := hids ▸ hq'
        exact Option.some.inj (hq'.symm.trans hq)
      have heq : intent₀ = intent := by rw [hintent₀, hintent, hqq]
      have hcompatible := hs.overlap i k b _ intent hik hi hk hids
        (BindPhase.intent?_of_written? hw) (congrArg some heq)
      rw [TraceRow.bindTo_verificationStatus, reconcile_matched_iff, heq]
      exact (hcompatible hm).1
  | expired now _ hpending _ => exact absurd hpending hnot
  | recoded _ f hf =>
    rw [hf.verificationStatus]
    exact ⟨hnot, fun hm => hs.moved b hb intent hw hm r hrow⟩

/-- What a step makes of the row of a request that has written its verdict after it. -/
theorem Booked.written_step (hs : Booked D s) (h : step D s e = some s') {b : Bind}
    (hb : b ∈ s'.binds) {intent : BindIntent} (hw : b.phase.written? = some intent) {r' : TraceRow}
    (hrow' : Table.rowOf TraceRow.traceId s'.traces b.req.traceId = some r') :
    r'.verificationStatus ≠ .pending ∧
      (Moves D b.req intent → r'.verificationStatus = .matched) := by
  have hc := change_of_step h
  rcases (bindChange_of_change hc hb).written hw with ⟨b₀, hb₀, hreq, hw₀⟩ | ⟨k, now, rfl, hk⟩
  · obtain ⟨r, hrow, -⟩ := hs.intents b₀ hb₀ intent (BindPhase.intent?_of_written? hw₀)
    obtain ⟨q, hq, hchange⟩ := rowOf_of_change hc hrow
    rw [hreq, hrow', Option.some.injEq] at hq
    subst hq
    exact hreq ▸ hs.row_step hb₀ hw₀ hrow hchange
  · obtain ⟨r, hrow, -⟩ := hs.intents _ (List.mem_of_getElem? hk) intent rfl
    rw [rowOf_of_update h hk hrow, Option.some.injEq] at hrow'
    subst hrow'
    rw [TraceRow.bindTo_verificationStatus]
    refine ⟨?_, fun hm => (reconcile_matched_iff now).2 hm.agrees⟩
    rcases reconcile_status D.cfg D.aliases b.req intent now with hstatus | hstatus <;>
      rw [hstatus] <;> decide

/-- Where the report that agrees with a matched trace comes from. -/
theorem Booked.matched_step (hs : Booked D s) (h : step D s e = some s') {r' : TraceRow}
    (hr' : r' ∈ s'.traces) (hmatched : r'.verificationStatus = .matched) :
    ∃ b ∈ s'.binds, b.req.traceId = r'.traceId ∧
      ∃ intent, b.phase.written? = some intent ∧ Agrees D.cfg D.aliases b.req intent := by
  have hc := change_of_step h
  -- a row that was matched before has its report from before
  have hbefore : ∀ r ∈ s.traces, r.traceId = r'.traceId → r.verificationStatus = .matched →
      ∃ b ∈ s'.binds, b.req.traceId = r'.traceId ∧
        ∃ intent, b.phase.written? = some intent ∧ Agrees D.cfg D.aliases b.req intent := by
    intro r hr hid hm
    obtain ⟨b₀, hb₀, hid₀, intent, hw₀, hagrees⟩ := hs.matched r hr hm
    obtain ⟨b, hb, hreq, hw⟩ := written_of_change hc hb₀ hw₀
    exact ⟨b, hb, by rw [hreq, hid₀, hid], intent, hw, hreq ▸ hagrees⟩
  rcases mem_of_change hc hr' with ⟨-, hnew⟩ | ⟨r, hr, hchange⟩
  · rw [hnew.verificationStatus] at hmatched
    exact absurd hmatched (by decide)
  · cases hchange with
    | same => exact hbefore _ hr rfl hmatched
    | bound k now req intent hk _ hid =>
      simp only [step, hk, Option.some.injEq] at h
      subst h
      have hlt := (List.getElem?_eq_some_iff.1 hk).1
      refine ⟨_, List.mem_of_getElem? (List.getElem?_set_self hlt), hid.symm, intent,
        written?_afterUpdate .., ?_⟩
      exact (reconcile_matched_iff now).1 hmatched
    | expired now _ _ _ => exact absurd hmatched (by simp)
    | recoded _ f hf =>
      exact hbefore r hr (hf.traceId r).symm ((hf.verificationStatus r).symm.trans hmatched)

theorem Booked.step (hs : Booked D s) (hP : NoDoubleBooking D s e) (h : step D s e = some s') :
    Booked D s' := by
  have hc := change_of_step h
  refine ⟨uniqueIds_of_change hc hs.ids, intentsCurrent_of_change hc hs.intents, ?_, ?_, ?_, ?_, ?_⟩
  · exact fun b hb => hs.sound_step (bindChange_of_change hc hb)
  · exact fun i j b b' intent => hs.overlap_step hP hc
  · exact fun b hb intent hw r hrow => (hs.written_step h hb hw hrow).1
  · exact fun b hb intent hw hm r hrow => (hs.written_step h hb hw hrow).2 hm
  · exact fun r hr hm => hs.matched_step h hr hm

end Step

/-! ## Exactly once -/

/-- Every request has been answered. -/
def Quiescent (s : System) : Prop :=
  ∀ b ∈ s.binds, (∃ err, b.phase = .refused err) ∨ ∃ intent result fill,
    b.phase = .done intent result fill

/-- What an answered request has added to a position, by its report. -/
theorem posted_of_moves {D : Deployment} {b : Bind} (hs : b.Sound D) {intent : BindIntent}
    {result : BindExecutionResult} {fill : Option Fill} (hdone : b.phase = .done intent result fill)
    (hm : Moves D b.req intent) (key : PositionKey) :
    posted key b = if intent.position = some key then signedQuantity b.req intent else 0 := by
  unfold Bind.Sound at hs
  rw [hdone] at hs
  obtain ⟨now, hfill⟩ := hs
  obtain ⟨f, hf, hposition, hdelta⟩ := bindFill_of_moves hm now
  obtain rfl : some f = fill := hf.symm.trans hfill
  simp only [posted, hdone, hposition, hdelta, Option.some.injEq]

theorem posted_of_not_moves {D : Deployment} {b : Bind} (hs : b.Sound D) {intent : BindIntent}
    (hintent : b.phase.intent? = some intent) (hm : ¬ Moves D b.req intent) (key : PositionKey) :
    posted key b = 0 := by
  unfold Bind.Sound at hs
  unfold posted
  cases hphase : b.phase with
  | refused err => rfl
  | read intent' => rfl
  | updated intent' result fill => rfl
  | done intent' result fill =>
    rw [hphase] at hs hintent
    obtain rfl := Option.some.inj hintent
    obtain ⟨now, hfill⟩ := hs
    obtain rfl : none = fill := (bindFill_of_not_moves hm now).symm.trans hfill
    rfl

/-- The request that stands for a row in the ledger. -/
def Represents (s : System) (r : TraceRow) (req : BindExecutionRequest) : Prop :=
  req.traceId = r.traceId ∧ (∃ intent result fill, ⟨req, .done intent result fill⟩ ∈ s.binds) ∧
    ∀ key, (s.binds.map fun b => if b.req.traceId = r.traceId then posted key b else 0).sum
      = if r.intent.position = some key then signedQuantity req r.intent else 0

section Represents

variable {D : Deployment} {s : System} {r : TraceRow}

/-- The requests for a row have read its intent. -/
theorem Booked.intent_eq (hs : Booked D s) (hr : r ∈ s.traces) {b : Bind} (hb : b ∈ s.binds)
    (hid : b.req.traceId = r.traceId) {intent : BindIntent} (hi : b.phase.intent? = some intent) :
    intent = r.pendingIntent := by
  obtain ⟨q, hq, rfl⟩ := hs.intents b hb intent hi
  rw [hid, Table.rowOf_of_mem hs.ids hr, Option.some.injEq] at hq
  rw [hq]

/-- Only a request that moves the position of a row adds to it. -/
theorem Booked.posted_eq_zero (hs : Booked D s) (hr : r ∈ s.traces) {b : Bind} (hb : b ∈ s.binds)
    (hid : b.req.traceId = r.traceId)
    (hm : b.phase.intent? ≠ none → ¬ Moves D b.req r.pendingIntent)
    (key : PositionKey) : posted key b = 0 := by
  cases hi : b.phase.intent? with
  | none => exact posted_of_no_intent key hi
  | some intent =>
    obtain rfl := hs.intent_eq hr hb hid hi
    exact posted_of_not_moves (hs.sound b hb) hi (hm (by rw [hi]; simp)) key

/-- A request that moves the position stands for its row, and the row is matched. -/
theorem Booked.represents_of_moves (hs : Booked D s) (hq : Quiescent s) (hr : r ∈ s.traces) {i : ℕ}
    {b : Bind} (hi : s.binds[i]? = some b) (hid : b.req.traceId = r.traceId)
    (hacc : b.phase.intent? ≠ none) (hm : Moves D b.req r.pendingIntent) :
    r.verificationStatus = .matched ∧ Represents s r b.req := by
  have hb := List.mem_of_getElem? hi
  have hrow := Table.rowOf_of_mem hs.ids hr
  obtain ⟨intent, result, fill, hdone⟩ : ∃ intent result fill,
    b.phase = .done intent result fill := by
    refine (hq b hb).resolve_left ?_
    rintro ⟨err, hrefused⟩
    exact hacc (by rw [hrefused]; rfl)
  have hintent : b.phase.intent? = some intent := by rw [hdone]; rfl
  obtain rfl := hs.intent_eq hr hb hid hintent
  have hwritten : b.phase.written? = some r.pendingIntent := by rw [hdone]; rfl
  refine ⟨hs.moved b hb _ hwritten hm r (hid ▸ hrow), hid, ⟨r.pendingIntent, result, fill, ?_⟩,
    fun key => ?_⟩
  · rw [← hdone]
    exact hb
  · rw [Table.sum_map_eq_of_index hi, if_pos hid, posted_of_moves (hs.sound b hb) hdone hm,
      r.position_pendingIntent, r.signedQuantity_pendingIntent]
    -- every other request for the row is compatible with this one, so it adds nothing
    intro j b' hj hb'
    split
    · rename_i hid'
      refine hs.posted_eq_zero hr (List.mem_of_getElem? hb') hid' (fun hacc' => ?_) key
      obtain ⟨intent', hintent'⟩ := Option.ne_none_iff_exists'.1 hacc'
      obtain rfl := hs.intent_eq hr (List.mem_of_getElem? hb') hid' hintent'
      exact (hs.overlap i j b b' _ hj.symm hi hb' (hid'.trans hid.symm) hintent hintent' hm).2
    · rfl

/-- A matched row has a request that stands for it. -/
theorem Booked.exists_represents (hs : Booked D s) (hq : Quiescent s) (hr : r ∈ s.traces)
    (hmatched : r.verificationStatus = .matched) : ∃ req, Represents s r req := by
  by_cases hmoves : ∃ (i : ℕ) (b : Bind), s.binds[i]? = some b ∧ b.req.traceId = r.traceId ∧
      b.phase.intent? ≠ none ∧ Moves D b.req r.pendingIntent
  · obtain ⟨i, b, hi, hid, hacc, hm⟩ := hmoves
    exact ⟨b.req, (hs.represents_of_moves hq hr hi hid hacc hm).2⟩
  · -- nothing is added, and the report that agrees moves nothing either
    have hzero : ∀ key, ∀ b ∈ s.binds, b.req.traceId = r.traceId → posted key b = 0 := by
      intro key b hb hid
      obtain ⟨i, hi⟩ := List.mem_iff_getElem?.1 hb
      exact hs.posted_eq_zero hr hb hid (fun hacc hm => hmoves ⟨i, b, hi, hid, hacc, hm⟩) key
    obtain ⟨b, hb, hid, intent, hw, hagrees⟩ := hs.matched r hr hmatched
    have hintent := BindPhase.intent?_of_written? hw
    obtain rfl := hs.intent_eq hr hb hid hintent
    obtain ⟨i, hi⟩ := List.mem_iff_getElem?.1 hb
    have hstill : ¬ Moves D b.req r.pendingIntent :=
      fun hm => hmoves ⟨i, b, hi, hid, by rw [hintent]; simp, hm⟩
    refine ⟨b.req, hid, ?_, fun key => ?_⟩
    · rcases hq b hb with ⟨err, hrefused⟩ | ⟨intent', result, fill, hdone⟩
      · rw [hrefused] at hw
        exact absurd hw (by simp [BindPhase.written?])
      · exact ⟨intent', result, fill, by rw [← hdone]; exact hb⟩
    · have hsum : ∀ x ∈ s.binds.map
          (fun b => if b.req.traceId = r.traceId then posted key b else 0), x = 0 := by
        intro x hx
        obtain ⟨b', hb', rfl⟩ := List.mem_map.1 hx
        split
        · exact hzero key b' hb' ‹_›
        · rfl
      rw [List.sum_eq_zero hsum]
      symm
      by_cases hposition : r.intent.position = some key
      · rw [if_pos hposition]
        by_contra hquantity
        exact hstill ⟨hagrees, by rw [r.position_pendingIntent, hposition]; simp, hquantity⟩
      · exact if_neg hposition

/-- Nothing is added on behalf of a row that is not matched. -/
theorem Booked.sum_eq_zero (hs : Booked D s) (hq : Quiescent s) (hr : r ∈ s.traces)
    (hunmatched : r.verificationStatus ≠ .matched) (key : PositionKey) :
    (s.binds.map fun b => if b.req.traceId = r.traceId then posted key b else 0).sum = 0 := by
  refine List.sum_eq_zero fun x hx => ?_
  obtain ⟨b, hb, rfl⟩ := List.mem_map.1 hx
  split
  · rename_i hid
    obtain ⟨i, hi⟩ := List.mem_iff_getElem?.1 hb
    refine hs.posted_eq_zero hr hb hid (fun hacc hm => hunmatched ?_) key
    exact (hs.represents_of_moves hq hr hi hid hacc hm).1
  · rfl

end Represents

/-- **The ledger counts every matched trace exactly once**: when all requests are
answered, one answered request can be chosen for every `MATCHED` trace such that the net
quantity of every position is the sum of their signed fills. -/
theorem ledger_exactly_once (D : Deployment) {s : System} {es : List Event}
    (hs : Run.run (step D) .init es = some s)
    (hP : Run.Along (step D) (NoDoubleBooking D) .init es) (hq : Quiescent s) :
    ∃ pick : TraceRow → BindExecutionRequest,
      (∀ r ∈ s.traces, r.verificationStatus = .matched → (pick r).traceId = r.traceId ∧
        ∃ intent result fill, ⟨pick r, .done intent result fill⟩ ∈ s.binds) ∧
      ∀ key, netQuantity s.positions key
        = ((s.traces.filter fun r =>
              r.verificationStatus = .matched ∧ r.intent.position = some key).map
            fun r => signedQuantity (pick r) r.intent).sum := by
  have hinv : Booked D s :=
    Run.run_invariant_along (fun s e t hi hp h => hi.step hp h) hs hP (booked_init D)
  have hchoice : ∀ r : TraceRow, ∃ req, r ∈ s.traces → r.verificationStatus = .matched →
      Represents s r req := by
    intro r
    by_cases h : r ∈ s.traces ∧ r.verificationStatus = .matched
    · obtain ⟨req, hreq⟩ := hinv.exists_represents hq h.1 h.2
      exact ⟨req, fun _ _ => hreq⟩
    · exact ⟨⟨r.traceId, "", .filled, none, none, none, none, none⟩,
        fun hr hm => absurd ⟨hr, hm⟩ h⟩
  choose pick hpick using hchoice
  refine ⟨pick, fun r hr hm => ⟨(hpick r hr hm).1, (hpick r hr hm).2.1⟩, fun key => ?_⟩
  have hkeys : ∀ b ∈ s.binds, posted key b ≠ 0 → b.req.traceId ∈ s.traces.map TraceRow.traceId := by
    intro b hb hne
    cases hi : b.phase.intent? with
    | none => exact absurd (posted_of_no_intent key hi) hne
    | some intent =>
      obtain ⟨r, hrow, -⟩ := hinv.intents b hb intent hi
      exact List.mem_map.2 ⟨r, Table.mem_of_rowOf hrow, Table.key_of_rowOf hrow⟩
  rw [netQuantity_eq_sum ⟨es, hs⟩, Table.sum_map_eq_sum_join hinv.ids hkeys, Table.sum_map_filter]
  refine congrArg List.sum (List.map_congr_left fun r hr => ?_)
  by_cases hm : r.verificationStatus = .matched
  · rw [(hpick r hr hm).2.2 key]
    simp [hm]
  · rw [hinv.sum_eq_zero hq hr hm]
    simp [hm]

/-- The sample request when it is answered. -/
def bookedRequest (tx : String) : Bind :=
  ⟨.sample tx, .done boughtRow.intent (sampleResult tx boughtRow.intent boughtRow.txnTime)
    (some (sampleFill (.fill 1) boughtRow.intent))⟩

theorem signedQuantity_sample (tx : String) {intent : BindIntent} :
    signedQuantity (.sample tx) intent = quantityDelta intent.action 1 := by
  simp [signedQuantity, BindExecutionRequest.sample]

/-- The row of an order that two overlapping reports have bound. -/
def doubleRow : TraceRow :=
  (boundRow "tx-1").bindTo (sampleResult "tx-2" boughtRow.intent boughtRow.txnTime) (.sample "tx-2")

/-- The state after two overlapping reports of the same order. -/
def doubleState : System :=
  ⟨[doubleRow],
    upsertPosition (upsertPosition [] (sampleFill (.fill 1) boughtRow.intent))
      (sampleFill (.fill 1) boughtRow.intent),
    [bookedRequest "tx-1", bookedRequest "tx-2"]⟩

theorem run_sample_double :
    Run.run (step .sample) .init
      [.authorize (.sample "buy"), .bindRead (.sample "tx-1"), .bindRead (.sample "tx-2"),
        .bindUpdate 0 boughtRow.txnTime, .bindUpdate 1 boughtRow.txnTime, .bindLedger 0,
          .bindLedger 1] = some doubleState := by
  refine (Run.run_append_of_eq (run_sample_overlap "tx-1" "tx-2")
    [.bindUpdate 1 boughtRow.txnTime, .bindLedger 0, .bindLedger 1]).trans ?_
  rw [overlapState, Run.run_cons (step_sample_update rfl [] rfl boughtRow.txnTime),
    Run.run_cons (step_sample_ledger _ [] rfl (boundRequest_phase "tx-1")),
    Run.run_cons (step_sample_ledger _ _ rfl (boundRequest_phase "tx-2"))]
  rfl

/-- Two overlapping reports of one order are both booked: the ledger holds two units of
a trace for which every report states one. -/
theorem ledger_counts_twice :
    Run.run (step .sample) .init
      [.authorize (.sample "buy"), .bindRead (.sample "tx-1"), .bindRead (.sample "tx-2"),
        .bindUpdate 0 boughtRow.txnTime, .bindUpdate 1 boughtRow.txnTime, .bindLedger 0,
          .bindLedger 1] = some doubleState ∧ Quiescent doubleState ∧
    ¬ ∃ pick : TraceRow → BindExecutionRequest,
      (∀ r ∈ doubleState.traces, r.verificationStatus = .matched → (pick r).traceId = r.traceId ∧
        ∃ intent result fill, ⟨pick r, .done intent result fill⟩ ∈ doubleState.binds) ∧
      ∀ key, netQuantity doubleState.positions key
        = ((doubleState.traces.filter fun r =>
              r.verificationStatus = .matched ∧ r.intent.position = some key).map
            fun r => signedQuantity (pick r) r.intent).sum := by
  refine ⟨run_sample_double, ?_, ?_⟩
  · intro b hb
    rcases List.mem_pair.1 hb with rfl | rfl
    · exact Or.inr ⟨_, _, _, rfl⟩
    · exact Or.inr ⟨_, _, _, rfl⟩
  · rintro ⟨pick, hpick, hsum⟩
    have hnet : netQuantity doubleState.positions
      (sampleFill (.fill 1) boughtRow.intent).key = 2 := by
      rw [doubleState, netQuantity_upsertPosition, netQuantity_upsertPosition, if_pos rfl]
      show (0 : ℚ) + quantityDelta boughtRow.intent.action 1
        + quantityDelta boughtRow.intent.action 1 = 2
      rw [boughtRow_delta]
      norm_num
    have hmatched : doubleRow.verificationStatus = .matched := by
      rw [doubleRow, TraceRow.bindTo_verificationStatus,
        sampleResult_status "tx-2" boughtRow_quantity]
    have hposition :
        doubleRow.intent.position = some (sampleFill (.fill 1) boughtRow.intent).key := rfl
    have hone : signedQuantity (pick doubleRow) doubleRow.intent = 1 := by
      obtain ⟨-, intent, result, fill, hmem⟩ := hpick doubleRow (List.mem_singleton_self _) hmatched
      have hreq : pick doubleRow = .sample "tx-1" ∨ pick doubleRow = .sample "tx-2" := by
        rcases List.mem_pair.1 hmem with h | h
        · exact Or.inl (congrArg Bind.req h)
        · exact Or.inr (congrArg Bind.req h)
      rcases hreq with h | h <;> rw [h, signedQuantity_sample] <;> exact boughtRow_delta
    have hbooked := hsum (sampleFill (.fill 1) boughtRow.intent).key
    rw [hnet, doubleState, List.filter_cons, if_pos (by simp [hmatched, hposition])] at hbooked
    rw [List.filter_nil, List.map_singleton, List.sum_singleton, hone] at hbooked
    exact absurd hbooked (by norm_num)

/-- One report of one order is booked once. -/
theorem ledger_exactly_once_sample :
    ∃ s, Run.run (step .sample) .init
        [.authorize (.sample "buy"), .bindRead (.sample "tx-1"), .bindUpdate 0 boughtRow.txnTime,
          .bindLedger 0] = some s ∧ s.traces = [boundRow "tx-1"] ∧
      ∃ pick : TraceRow → BindExecutionRequest, ∀ key, netQuantity s.positions key
        = ((s.traces.filter fun r =>
              r.verificationStatus = .matched ∧ r.intent.position = some key).map
            fun r => signedQuantity (pick r) r.intent).sum := by
  have hfirst : [boundRequest "tx-1"][0]? = some (boundRequest "tx-1") := rfl
  have hledger := step_sample_ledger [boundRow "tx-1"] [] hfirst (boundRequest_phase "tx-1")
  have hrun : Run.run (step .sample) .init
      [.authorize (.sample "buy"), .bindRead (.sample "tx-1"), .bindUpdate 0 boughtRow.txnTime,
        .bindLedger 0]
      = some ⟨[boundRow "tx-1"], upsertPosition [] (sampleFill (.fill 1) boughtRow.intent),
          [bookedRequest "tx-1"]⟩ := by
    rw [Run.run_cons step_sample_bought,
      Run.run_cons (step_sample_read (.sample "tx-1") rfl rfl [] []),
      Run.run_cons (step_sample_update rfl [] rfl boughtRow.txnTime)]
    exact Run.run_cons hledger []
  have hP : Run.Along (step .sample) (NoDoubleBooking .sample) .init
      [.authorize (.sample "buy"), .bindRead (.sample "tx-1"), .bindUpdate 0 boughtRow.txnTime,
        .bindLedger 0] := by
    refine Run.along_cons trivial step_sample_bought
      (Run.along_cons ?_ (step_sample_read (.sample "tx-1") rfl rfl [] [])
        (Run.along_cons trivial (step_sample_update rfl [] rfl boughtRow.txnTime)
          (Run.along_cons trivial hledger trivial)))
    rintro r - - req intent ⟨hmem, -⟩
    exact absurd hmem (by simp)
  have hq : Quiescent ⟨[boundRow "tx-1"], upsertPosition [] (sampleFill (.fill 1) boughtRow.intent),
      [bookedRequest "tx-1"]⟩ := by
    intro b hb
    obtain rfl := List.mem_singleton.1 hb
    exact Or.inr ⟨_, _, _, rfl⟩
  obtain ⟨pick, -, hsum⟩ := ledger_exactly_once .sample hrun hP hq
  exact ⟨_, hrun, rfl, pick, hsum⟩

end IrlEngine
