import IrlEngine.Ledger
import Mathlib.Data.Set.Finite.Basic

/-!
# What a bind request leaves behind

`bind_execution` writes the verdict and the ledger in two statements of their own, and
of a verdict it stores the status but not the reason.

* `divergence_never_recorded` — no stored record tells why a bind was `DIVERGENT`:
  reports that diverge for different reasons leave the same tables;
* `bind_atomic_iff` — when one of the three statements of a request may fail, a
  request that answers with an error has changed nothing, except where the ledger
  statement fails after the verdict is written.
-/

namespace IrlEngine

/-! ## The record of a divergence -/

/-- The time at which a report says it was executed. -/
def BindExecutionRequest.executedAt (req : BindExecutionRequest) (now : DateTime) : DateTime :=
  (req.executionTimeMs.bind DateTime.ofMillis).getD now

/-- Two reports on one trace with the same transaction, status, price and time; `now` and
`now'` are the clock readings of the two requests. -/
structure SameExecution (req req' : BindExecutionRequest) (now now' : DateTime) : Prop where
  traceId : req'.traceId = req.traceId
  exchangeTxId : req'.exchangeTxId = req.exchangeTxId
  executionStatus : req'.executionStatus = req.executionStatus
  executionPrice : req'.executionPrice = req.executionPrice
  executedAt : req'.executedAt now' = req.executedAt now

section Divergence

variable {cfg : Config} {aliases : List (String × String)} {req req' : BindExecutionRequest}
  {intent : BindIntent} {now now' : DateTime} {reason reason' : String}

theorem reconcile_divergent (h : divergence cfg aliases req intent = some reason) (now : DateTime) :
    (reconcile cfg aliases req intent now).verificationStatus = .divergent := by
  unfold reconcile
  rw [h]

/-- A divergent bind does not touch the ledger. -/
theorem bindFill_of_divergent (h : divergence cfg aliases req intent = some reason)
    (now : DateTime) : bindFill req intent (reconcile cfg aliases req intent now) = none := by
  unfold bindFill
  rw [reconcile_divergent h now]

/-- Of two divergent reports of one execution, `update_binding` writes the same columns. -/
theorem bindTo_of_divergent (hsame : SameExecution req req' now now')
    (h : divergence cfg aliases req intent = some reason)
    (h' : divergence cfg aliases req' intent = some reason') (r : TraceRow) :
    r.bindTo (reconcile cfg aliases req' intent now') req'
      = r.bindTo (reconcile cfg aliases req intent now) req := by
  have hstatus := (reconcile_divergent h' now').trans (reconcile_divergent h now).symm
  have htime : (reconcile cfg aliases req' intent now').executionTime
      = (reconcile cfg aliases req intent now).executionTime := hsame.executedAt
  unfold TraceRow.bindTo
  rw [hstatus, htime]
  simp only [reconcile, hsame.exchangeTxId, hsame.executionStatus, hsame.executionPrice]

theorem readIntent_congr (h : req'.traceId = req.traceId) (traces : List TraceRow) :
    readIntent traces req' = readIntent traces req := by
  unfold readIntent
  rw [h]

/-- A divergent bind rewrites the row of its trace and nothing else. -/
theorem bindExecution_of_divergent {traces : List TraceRow} (positions : List PositionRow)
    (hread : readIntent traces req = .ok intent)
    (h : divergence cfg aliases req intent = some reason) (now : DateTime) :
    bindExecution cfg aliases traces positions req now
      = (updateBinding traces (reconcile cfg aliases req intent now) req, positions,
        .ok (reconcile cfg aliases req intent now)) := by
  unfold bindExecution
  rw [hread]
  simp only [bindFill_of_divergent h now]

end Divergence

/-- The message of the asset check determines the executed asset. -/
theorem assetMismatch_injective (asset : String) :
    Function.Injective fun executed : String =>
      "Asset mismatch: authorized " ++ asset ++ ", executed " ++ executed := by
  intro a b h
  have hlists := congrArg String.toList h
  simp only [String.toList_append] at hlists
  exact String.toList_inj.1 (List.append_cancel_left hlists)

/-- There is an executed asset that mismatches, and whose message is not the given one. -/
theorem exists_assetMismatch (aliases : List (String × String)) (asset reason : String) :
    ∃ executed, assetsMatch aliases executed asset = false ∧
      "Asset mismatch: authorized " ++ asset ++ ", executed " ++ executed ≠ reason := by
  classical
  -- all but finitely many names are no alias, not the asset, and not named by the message
  let message := fun executed : String => "Asset mismatch: authorized " ++ asset
    ++ ", executed " ++ executed
  have hfin : (Set.preimage message {reason}).Finite :=
    Set.Finite.preimage (assetMismatch_injective asset).injOn (Set.finite_singleton reason)
  let taken : Finset String :=
    hfin.toFinset ∪ (aliases.map Prod.fst).toFinset ∪ {asset, canonicalize aliases asset}
  obtain ⟨executed, hexecuted⟩ := Infinite.exists_notMem_finset taken
  simp only [taken, Finset.mem_union, Finset.mem_insert, Finset.mem_singleton, not_or,
    List.mem_toFinset, Set.Finite.mem_toFinset] at hexecuted
  obtain ⟨⟨hmessage, halias⟩, hasset, hcanonical⟩ := hexecuted
  refine ⟨executed, ?_, hmessage⟩
  have hself : canonicalize aliases executed = executed := by
    have hnone : aliases.lookup executed = none := by
      rw [List.lookup_eq_none_iff]
      intro p hp
      have hne : p.1 ≠ executed := fun heq => halias (heq ▸ List.mem_map_of_mem hp)
      simpa using Ne.symm hne
    rw [canonicalize, hnone]
    rfl
  simp [assetsMatch, hasset, hself, hcanonical]

/-- **The record of a divergence does not tell its reason.**  Whatever the trace table holds,
two divergent reports of one execution leave the same tables; and to every divergent report
there is one that diverges for another reason. -/
theorem divergence_never_recorded (cfg : Config) (aliases : List (String × String))
    (traces : List TraceRow) (positions : List PositionRow) (req : BindExecutionRequest)
    (now : DateTime) (intent : BindIntent) (reason : String)
    (hread : readIntent traces req = .ok intent)
    (hdiv : divergence cfg aliases req intent = some reason) :
    (∀ req' now' reason', SameExecution req req' now now' →
      divergence cfg aliases req' intent = some reason' →
      (bindExecution cfg aliases traces positions req' now').1
          = (bindExecution cfg aliases traces positions req now).1 ∧
        (bindExecution cfg aliases traces positions req' now').2.1
          = (bindExecution cfg aliases traces positions req now).2.1) ∧
    ∃ req' reason', SameExecution req req' now now ∧
      divergence cfg aliases req' intent = some reason' ∧ reason' ≠ reason := by
  constructor
  · intro req' now' reason' hsame hdiv'
    have hread' := (readIntent_congr hsame.traceId traces).trans hread
    rw [bindExecution_of_divergent positions hread hdiv now,
      bindExecution_of_divergent positions hread' hdiv' now']
    refine ⟨?_, rfl⟩
    have hid : (reconcile cfg aliases req' intent now').traceId
        = (reconcile cfg aliases req intent now).traceId := hsame.traceId
    simp only [updateBinding, hid, bindTo_of_divergent hsame hdiv hdiv']
  · obtain ⟨executed, hmismatch, hne⟩ := exists_assetMismatch aliases intent.asset reason
    refine ⟨{ req with asset := some executed }, _, ⟨rfl, rfl, rfl, rfl, rfl⟩, ?_, hne⟩
    simp [divergence, hmismatch]

/-! Two reports on the accepted sample order, of a fill in two other assets. -/

/-- A report of the sample order in another asset. -/
def reportOf (asset : String) : BindExecutionRequest :=
  { BindExecutionRequest.sample "tx-1" with asset := some asset }

theorem sameExecution_reportOf (a b : String) (now : DateTime) :
    SameExecution (reportOf a) (reportOf b) now now := ⟨rfl, rfl, rfl, rfl, rfl⟩

theorem readIntent_reportOf (asset : String) :
    readIntent [boughtRow] (reportOf asset) = .ok boughtRow.intent := rfl

theorem divergence_eth : divergence .sample [] (reportOf "ETH") boughtRow.intent
    = some "Asset mismatch: authorized BTC, executed ETH" := by decide +kernel

theorem divergence_sol : divergence .sample [] (reportOf "SOL") boughtRow.intent
    = some "Asset mismatch: authorized BTC, executed SOL" := by decide +kernel

theorem divergence_never_recorded_sample :
    (bindExecution .sample [] [boughtRow] [] (reportOf "SOL") boughtRow.txnTime).1
      = (bindExecution .sample [] [boughtRow] [] (reportOf "ETH") boughtRow.txnTime).1 :=
  ((divergence_never_recorded .sample [] [boughtRow] [] (reportOf "ETH") boughtRow.txnTime
    boughtRow.intent _ (readIntent_reportOf "ETH") divergence_eth).1 (reportOf "SOL")
    boughtRow.txnTime _ (sameExecution_reportOf _ _ _) divergence_sol).1

/-- The two reports diverge for different reasons, and the stored rows are the same. -/
theorem divergence_ambiguous : ∃ req req' reason reason',
    SameExecution req req' boughtRow.txnTime boughtRow.txnTime ∧ reason' ≠ reason ∧
    readIntent [boughtRow] req = .ok boughtRow.intent ∧
    divergence .sample [] req boughtRow.intent = some reason ∧
    divergence .sample [] req' boughtRow.intent = some reason' ∧
    (bindExecution .sample [] [boughtRow] [] req' boughtRow.txnTime).1
      = (bindExecution .sample [] [boughtRow] [] req boughtRow.txnTime).1 := by
  refine ⟨reportOf "ETH", reportOf "SOL", _, _, sameExecution_reportOf _ _ _, ?_,
    readIntent_reportOf "ETH", divergence_eth, divergence_sol, ?_⟩
  · decide
  · have hsame := sameExecution_reportOf "ETH" "SOL" boughtRow.txnTime
    rw [bindExecution_of_divergent [] (readIntent_reportOf "ETH") divergence_eth,
      bindExecution_of_divergent [] (readIntent_reportOf "SOL") divergence_sol]
    simp only [updateBinding, bindTo_of_divergent hsame divergence_eth divergence_sol]
    rfl

/-! ## Statements that fail -/

/-- Which of the three statements of a bind request fail, and with what message.  A statement
that fails has no effect. -/
structure BindFaults where
  read : Option String
  update : Option String
  ledger : Option String

/-- No statement fails. -/
def BindFaults.none : BindFaults := ⟨.none, .none, .none⟩

/-- `bind_execution` with nothing in between, on a database whose statements may fail. -/
def bindExecutionWith (faults : BindFaults) (cfg : Config) (aliases : List (String × String))
    (traces : List TraceRow) (positions : List PositionRow) (req : BindExecutionRequest)
    (now : DateTime) : List TraceRow × List PositionRow × Except AppError BindExecutionResult :=
  match faults.read with
  | some reason => (traces, positions, .error (.database reason))
  | none =>
    match readIntent traces req with
    | .error e => (traces, positions, .error e)
    | .ok intent =>
      let result := reconcile cfg aliases req intent now
      match faults.update with
      | some reason => (traces, positions, .error (.database reason))
      | none =>
        let traces' := updateBinding traces result req
        match bindFill req intent result with
        | none => (traces', positions, .ok result)
        | some fill =>
          match faults.ledger with
          | some reason => (traces', positions, .error (.database reason))
          | none => (traces', upsertPosition positions fill, .ok result)

/-- Without failures this is the request of before. -/
theorem bindExecutionWith_none (cfg : Config) (aliases : List (String × String))
    (traces : List TraceRow) (positions : List PositionRow) (req : BindExecutionRequest)
    (now : DateTime) : bindExecutionWith .none cfg aliases traces positions req now
      = bindExecution cfg aliases traces positions req now := by
  unfold bindExecutionWith bindExecution
  cases readIntent traces req with
  | error e => rfl
  | ok intent =>
    unfold BindFaults.none
    cases bindFill req intent (reconcile cfg aliases req intent now) with
    | none => rfl
    | some fill => rfl

/-- A bind request as the caller sees it, with the clock and the failures it meets. -/
structure BindCall where
  req : BindExecutionRequest
  now : DateTime
  faults : BindFaults

/-- What a call makes of the two tables, and its answer. -/
def BindCall.exec (c : BindCall) (D : Deployment) (s : System) :
    List TraceRow × List PositionRow × Except AppError BindExecutionResult :=
  bindExecutionWith c.faults D.cfg D.aliases s.traces s.positions c.req c.now

/-- A call that answers with an error has left both tables alone. -/
def BindCall.AllOrNothing (c : BindCall) (D : Deployment) (s : System) : Prop :=
  ∀ e, (c.exec D s).2.2 = .error e →
    (c.exec D s).1 = s.traces ∧ (c.exec D s).2.1 = s.positions

/-- The ledger statement fails, the two before it do not, and the report is of a `PENDING` trace
whose position it moves. -/
structure BindCall.LosesFill (c : BindCall) (D : Deployment) (s : System) : Prop where
  read : c.faults.read = none
  update : c.faults.update = none
  ledger : c.faults.ledger ≠ none
  moves : ∃ r, Table.rowOf TraceRow.traceId s.traces c.req.traceId = some r ∧
    r.verificationStatus = .pending ∧ Moves D c.req r.intent

theorem readIntent_of_row {traces : List TraceRow} {req : BindExecutionRequest} {r : TraceRow}
    (hrow : Table.rowOf TraceRow.traceId traces req.traceId = some r)
    (hpending : r.verificationStatus = .pending) : readIntent traces req = .ok r.intent := by
  have hstatus : r.intent.status = .pending := hpending
  simp [readIntent, getIntentForBinding, hrow, hstatus]

/-- A verdict on a `PENDING` row changes the trace table. -/
theorem updateBinding_ne {traces : List TraceRow} {req : BindExecutionRequest}
    {result : BindExecutionResult} {r : TraceRow}
    (hrow : Table.rowOf TraceRow.traceId traces req.traceId = some r)
    (hpending : r.verificationStatus = .pending) (hid : result.traceId = req.traceId)
    (hverdict : result.verificationStatus ≠ .pending) :
    updateBinding traces result req ≠ traces := by
  intro heq
  have hkeep : ∀ r : TraceRow, (r.bindTo result req).traceId = r.traceId := fun _ => rfl
  have hafter : Table.rowOf TraceRow.traceId (updateBinding traces result req) req.traceId
      = some (r.bindTo result req) := by
    unfold updateBinding
    rw [Table.rowOf_updateWhere hkeep, hrow]
    simp [hid, Table.key_of_rowOf hrow]
  rw [heq, hrow, Option.some.injEq] at hafter
  have hstatus := congrArg TraceRow.verificationStatus hafter
  rw [TraceRow.bindTo_verificationStatus, hpending] at hstatus
  exact hverdict hstatus.symm

/-- What a call that loses its fill does: the verdict stays, the ledger entry is missing. -/
theorem BindCall.LosesFill.exec_eq {c : BindCall} {D : Deployment} {s : System}
    (h : c.LosesFill D s) : ∃ intent reason, readIntent s.traces c.req = .ok intent ∧
      c.exec D s = (updateBinding s.traces (reconcile D.cfg D.aliases c.req intent c.now) c.req,
        s.positions, .error (.database reason)) := by
  obtain ⟨r, hrow, hpending, hmoves⟩ := h.moves
  obtain ⟨reason, hreason⟩ := Option.ne_none_iff_exists'.1 h.ledger
  obtain ⟨fill, hfill, -⟩ := bindFill_of_moves hmoves c.now
  have hread := readIntent_of_row hrow hpending
  refine ⟨r.intent, reason, hread, ?_⟩
  unfold BindCall.exec bindExecutionWith
  simp only [h.read, h.update, hread, hfill, hreason]

theorem BindCall.not_allOrNothing {c : BindCall} {D : Deployment} {s : System}
    (h : c.LosesFill D s) : ¬ c.AllOrNothing D s := by
  intro hall
  obtain ⟨intent, reason, hread, hexec⟩ := h.exec_eq
  obtain ⟨r, hrow, hpending, -⟩ := h.moves
  obtain ⟨htraces, -⟩ := hall (.database reason) (by rw [hexec])
  rw [hexec] at htraces
  refine updateBinding_ne hrow hpending rfl ?_ htraces
  intro hstatus
  rcases reconcile_status D.cfg D.aliases c.req intent c.now with hm | hd
  · exact absurd (hm.symm.trans hstatus) (by decide)
  · exact absurd (hd.symm.trans hstatus) (by decide)

/-- Everywhere else an error comes before the first write. -/
theorem BindCall.allOrNothing_of {c : BindCall} {D : Deployment} {s : System}
    (h : ¬ c.LosesFill D s) : c.AllOrNothing D s := by
  intro e he
  unfold BindCall.exec bindExecutionWith at he ⊢
  cases hfr : c.faults.read with
  | some reason => exact ⟨rfl, rfl⟩
  | none =>
    cases hread : readIntent s.traces c.req with
    | error err => exact ⟨rfl, rfl⟩
    | ok intent =>
      cases hfu : c.faults.update with
      | some reason => exact ⟨rfl, rfl⟩
      | none =>
        simp only [hfr, hread, hfu] at he
        cases hfill : bindFill c.req intent (reconcile D.cfg D.aliases c.req intent c.now) with
        | none =>
          rw [hfill] at he
          exact absurd he (by simp)
        | some fill =>
          cases hfl : c.faults.ledger with
          | none =>
            rw [hfill, hfl] at he
            exact absurd he (by simp)
          | some reason =>
            -- the one branch that answers with an error after a write
            refine absurd ⟨hfr, hfu, by simp [hfl], ?_⟩ h
            obtain ⟨r, hrow, hpending, rfl⟩ := readIntent_ok hread
            refine ⟨r, hrow, hpending, ?_⟩
            by_contra hnot
            rw [bindFill_of_not_moves hnot] at hfill
            exact absurd hfill (by simp)

/-- After a lost fill the request cannot be repeated: the trace is bound. -/
theorem BindCall.LosesFill.retry {c : BindCall} {D : Deployment} {s : System}
    (h : c.LosesFill D s) {req : BindExecutionRequest} (hid : req.traceId = c.req.traceId) :
    readIntent (c.exec D s).1 req
      = .error (.traceAlreadyBound req.traceId.toText "MATCHED") := by
  obtain ⟨r, hrow, hpending, hmoves⟩ := h.moves
  obtain ⟨intent, reason, hread, hexec⟩ := h.exec_eq
  obtain rfl : intent = r.intent :=
    Except.ok.inj (hread.symm.trans (readIntent_of_row hrow hpending))
  have hmatched := (reconcile_matched_iff c.now).2 hmoves.agrees
  have hkeep : ∀ (result : BindExecutionResult) (r : TraceRow),
      (r.bindTo result c.req).traceId = r.traceId := fun _ _ => rfl
  have hkey : r.traceId = c.req.traceId := Table.key_of_rowOf hrow
  have hafter : Table.rowOf TraceRow.traceId (c.exec D s).1 req.traceId
      = some (r.bindTo (reconcile D.cfg D.aliases c.req r.intent c.now) c.req) := by
    rw [hexec, hid]
    unfold updateBinding
    rw [Table.rowOf_updateWhere (hkeep _), hrow]
    simp [hkey, reconcile]
  have hstatus : (r.bindTo (reconcile D.cfg D.aliases c.req r.intent c.now) c.req).intent.status
      = .matched := hmatched
  simp [readIntent, getIntentForBinding, hafter, hstatus, VerificationStatus.display]

/-! ### Runs with such calls -/

/-- A bind request made as a whole, or any other event. -/
inductive CallEvent where
  | bind (c : BindCall)
  | other (e : Event)

/-- The step of an event; a call is one step. -/
def callStep (D : Deployment) (s : System) : CallEvent → Option System
  | .bind c => some { s with traces := (c.exec D s).1, positions := (c.exec D s).2.1 }
  | .other e => step D s e

/-- **A bind request is all or nothing exactly where it loses no fill.**  Along every run from
the empty tables, with any statement of any request failing: each request that answers with an
error has changed nothing if and only if no ledger statement fails after its verdict is written. -/
theorem bind_atomic_iff (D : Deployment) (es : List CallEvent) :
    Run.Along (callStep D) (fun s e => ∀ c, e = .bind c → c.AllOrNothing D s) .init es ↔
      Run.Along (callStep D) (fun s e => ∀ c, e = .bind c → ¬ c.LosesFill D s) .init es := by
  refine Run.along_iff_of_invariant (I := fun _ => True) (fun _ _ _ _ _ => trivial) ?_ trivial es
  intro s e _
  refine forall_congr' fun c => forall_congr' fun _ => ?_
  exact ⟨fun hall hloses => BindCall.not_allOrNothing hloses hall, BindCall.allOrNothing_of⟩

/-! The ledger statement of a sample report fails. -/

/-- A report of the sample order whose ledger statement fails. -/
def lostCall : BindCall :=
  ⟨.sample "tx-1", boughtRow.txnTime, ⟨none, none, some "connection reset"⟩⟩

theorem moves_sample (tx : String) : Moves .sample (.sample tx) boughtRow.intent := by
  have hone : ((BindExecutionRequest.sample tx).executedQuantity.map F64.toRat).getD 0 = 1 :=
    F64.toRat_one
  refine ⟨divergence_eq_none_iff.1 (divergence_sample tx boughtRow_quantity), by decide, ?_⟩
  rw [signedQuantity, hone, boughtRow_delta]
  exact one_ne_zero

theorem losesFill_sample : lostCall.LosesFill .sample ⟨[boughtRow], [], []⟩ :=
  ⟨rfl, rfl, by simp [lostCall], boughtRow, rfl, rfl, moves_sample "tx-1"⟩

/-- After an accepted order, a report of it whose ledger statement fails is answered with an error
and has bound the trace. -/
theorem bind_half_done : ∃ (es : List CallEvent) (s : System) (c : BindCall),
    Run.run (callStep .sample) .init es = some s ∧ ¬ c.AllOrNothing .sample s ∧
    readIntent (c.exec .sample s).1 c.req
      = .error (.traceAlreadyBound c.req.traceId.toText "MATCHED") := by
  refine ⟨[.other (.authorize (.sample "buy"))], ⟨[boughtRow], [], []⟩, lostCall, ?_,
    BindCall.not_allOrNothing losesFill_sample, losesFill_sample.retry rfl⟩
  have hstep : callStep .sample .init (.other (.authorize (.sample "buy")))
      = some ⟨[boughtRow], [], []⟩ := step_sample_bought
  exact Run.run_cons hstep []

end IrlEngine
