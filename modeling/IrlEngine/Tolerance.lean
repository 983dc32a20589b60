import Mathlib.Tactic.Linarith
import IrlEngine.Ledger

/-!
# What a match says about the quantity

`reconcile` compares the executed with the authorized quantity only if the latter is
positive, and `authorize` persists every quantity.  So a report of any size matches a
trace of quantity zero or less, and moves the ledger by that size.

* `MatchedWithin` — every request for a trace that ends `MATCHED`, now or in any
  continuation, reports a quantity within the tolerance and moves the ledger by no more;
* `Bind.Reconciled` — the invariant: what a request has written is what `reconcile` said;
* `matchedWithin_iff` — that is so exactly if the quantity is positive, or the tolerance
  covers every number there is.
-/

namespace IrlEngine

/-! ## The promise -/

/-- The verdict a request has written. -/
def BindPhase.verdict? : BindPhase → Option VerificationStatus
  | .refused _ => none
  | .read _ => none
  | .updated _ result _ => some result.verificationStatus
  | .done _ result _ => some result.verificationStatus

theorem verdict?_afterUpdate (req : BindExecutionRequest) (intent : BindIntent)
    (result : BindExecutionResult) :
    (afterUpdate req intent result).verdict? = some result.verificationStatus := by
  unfold afterUpdate
  cases bindFill req intent result <;> rfl

/-- The request reports a quantity within the tolerance of the authorized one, and has moved
no position by more than the authorized size plus the tolerance. -/
structure WithinTolerance (cfg : Config) (r : TraceRow) (b : Bind) : Prop where
  reported : ∀ executed, b.req.executedQuantity = some executed →
    |r.executionQuantity - executed.toRat| ≤ |r.executionQuantity| * cfg.bindSizeTolerance.toRat
  ledger : ∀ key, |posted key b|
    ≤ |r.executionQuantity| + |r.executionQuantity| * cfg.bindSizeTolerance.toRat

/-- Whatever happens from this state on, a request for the trace that ends `MATCHED` is within
the tolerance. -/
def MatchedWithin (D : Deployment) (s : System) (r : TraceRow) : Prop :=
  ∀ es s', Run.run (step D) s es = some s' → ∀ b ∈ s'.binds, b.req.traceId = r.traceId →
    b.phase.verdict? = some .matched → WithinTolerance D.cfg r b

/-- The authorized quantity is one that `reconcile` checks, or the tolerance is so wide that
no report could be outside. -/
def ToleranceApplies (cfg : Config) (r : TraceRow) : Prop :=
  0 < r.executionQuantity ∨
    |r.executionQuantity| + F64.largest.toRat
      ≤ |r.executionQuantity| * cfg.bindSizeTolerance.toRat

/-! ## What a request has written -/

/-- The verdict and the fill of a request are those of its report. -/
def Bind.Reconciled (D : Deployment) (b : Bind) : Prop :=
  match b.phase with
  | .updated intent result fill =>
    (∃ now, result = reconcile D.cfg D.aliases b.req intent now) ∧
      bindFill b.req intent result = some fill
  | .done intent result fill =>
    (∃ now, result = reconcile D.cfg D.aliases b.req intent now) ∧
      bindFill b.req intent result = fill
  | _ => True

section Reconciled

variable {D : Deployment} {s s' : System}

theorem reconciled_of_bindChange {e : Event} (hs : ∀ b ∈ s.binds, b.Reconciled D) {b : Bind}
    (h : BindChange D s e b) : b.Reconciled D := by
  cases h with
  | same _ _ hb => exact hs b hb
  | refused req err => trivial
  | read req r _ _ => trivial
  | updated k now req intent hk =>
    unfold afterUpdate Bind.Reconciled
    cases hfill : bindFill req intent (reconcile D.cfg D.aliases req intent now) with
    | none => exact ⟨⟨now, rfl⟩, hfill⟩
    | some fill => exact ⟨⟨now, rfl⟩, hfill⟩
  | ledger k req intent result fill hk =>
    have hupdated : Bind.Reconciled D ⟨req, .updated intent result fill⟩ :=
      hs _ (List.mem_of_getElem? hk)
    exact hupdated

/-- What is true of the requests of every reachable state. -/
structure Requests (D : Deployment) (s : System) : Prop where
  intents : IntentsCurrent s
  reconciled : ∀ b ∈ s.binds, b.Reconciled D

theorem Requests.step {e : Event} (hs : Requests D s) (h : step D s e = some s') :
    Requests D s' where
  intents := intentsCurrent_of_change (change_of_step h) hs.intents
  reconciled _ hb := reconciled_of_bindChange hs.reconciled
    (bindChange_of_change (change_of_step h) hb)

theorem requests_of_reachable (h : Reachable D s) : Requests D s := by
  obtain ⟨es, hrun⟩ := h
  refine Run.run_invariant (fun _ _ _ hs he => hs.step he) hrun ⟨?_, ?_⟩
  · intro b hb
    exact absurd hb (by simp [System.init])
  · intro b hb
    exact absurd hb (by simp [System.init])

theorem Requests.run {es : List Event} (hs : Requests D s)
    (h : Run.run (IrlEngine.step D) s es = some s') : Requests D s' :=
  Run.run_invariant (fun _ _ _ hs he => hs.step he) h hs

/-- A request that ended `MATCHED` agrees with the intent it has read. -/
theorem Bind.Reconciled.agrees {b : Bind} (h : b.Reconciled D)
    (hmatched : b.phase.verdict? = some .matched) :
    ∃ intent, b.phase.intent? = some intent ∧ Agrees D.cfg D.aliases b.req intent := by
  unfold Bind.Reconciled at h
  cases hphase : b.phase with
  | refused err => rw [hphase] at hmatched; exact absurd hmatched (by simp [BindPhase.verdict?])
  | read intent => rw [hphase] at hmatched; exact absurd hmatched (by simp [BindPhase.verdict?])
  | updated intent result fill =>
    rw [hphase] at h hmatched
    obtain ⟨⟨now, rfl⟩, -⟩ := h
    exact ⟨intent, rfl, (reconcile_matched_iff now).1 (Option.some.inj hmatched)⟩
  | done intent result fill =>
    rw [hphase] at h hmatched
    obtain ⟨⟨now, rfl⟩, -⟩ := h
    exact ⟨intent, rfl, (reconcile_matched_iff now).1 (Option.some.inj hmatched)⟩

theorem abs_quantityDelta_le (action : String) (fill : ℚ) :
    |quantityDelta action fill| ≤ |fill| := by
  unfold quantityDelta
  dsimp only
  split
  · exact le_rfl
  · split
    · exact (abs_neg fill).le
    · rw [abs_zero]
      exact abs_nonneg fill

theorem abs_bindFill_le {req : BindExecutionRequest} {intent : BindIntent}
    {result : BindExecutionResult} {fill : Fill} (h : bindFill req intent result = some fill) :
    |fill.quantityDelta| ≤ |(req.executedQuantity.map F64.toRat).getD 0| := by
  unfold bindFill at h
  split at h
  · dsimp only at h
    split at h
    · rw [← Option.some.inj h]
      exact abs_quantityDelta_le _ _
    · exact absurd h (by simp)
  · exact absurd h (by simp)

/-- A request moves a position by no more than it reports. -/
theorem Bind.Reconciled.abs_posted_le {b : Bind} (h : b.Reconciled D) (key : PositionKey) :
    |posted key b| ≤ |(b.req.executedQuantity.map F64.toRat).getD 0| := by
  have hzero : |(0 : ℚ)| ≤ |(b.req.executedQuantity.map F64.toRat).getD 0| := by
    rw [abs_zero]
    exact abs_nonneg _
  unfold Bind.Reconciled at h
  unfold posted
  cases hphase : b.phase with
  | refused err => exact hzero
  | read intent => exact hzero
  | updated intent result fill => exact hzero
  | done intent result fill =>
    rw [hphase] at h
    cases fill with
    | none => exact hzero
    | some fill =>
      dsimp only
      split
      · exact abs_bindFill_le h.2
      · exact hzero

end Reconciled

/-! ## Reports of any size -/

section Within

variable {D : Deployment} {s : System} {r : TraceRow}

/-- Every request for a trace has read its quantity. -/
theorem quantity_of_intent {s' : System} {es : List Event} (hs : Requests D s)
    (hrow : Table.rowOf TraceRow.traceId s.traces r.traceId = some r)
    (hrun : Run.run (step D) s es = some s') {b : Bind} (hb : b ∈ s'.binds)
    (hid : b.req.traceId = r.traceId) {intent : BindIntent}
    (hintent : b.phase.intent? = some intent) : intent.quantity = r.executionQuantity := by
  obtain ⟨r', hrow', hsame⟩ := rowOf_of_run hrun hrow
  obtain ⟨r'', hrow'', rfl⟩ := (hs.run hrun).intents b hb intent hintent
  rw [hid, hrow', Option.some.injEq] at hrow''
  subst hrow''
  exact congrArg BindIntent.quantity hsame.intent

theorem withinTolerance_of_applies (htol : 0 ≤ D.cfg.bindSizeTolerance.toRat)
    (happlies : ToleranceApplies D.cfg r) {b : Bind} (hb : b.Reconciled D) {intent : BindIntent}
    (hquantity : intent.quantity = r.executionQuantity)
    (hagrees : Agrees D.cfg D.aliases b.req intent) : WithinTolerance D.cfg r b := by
  have hreported : ∀ executed, b.req.executedQuantity = some executed →
      |r.executionQuantity - executed.toRat|
        ≤ |r.executionQuantity| * D.cfg.bindSizeTolerance.toRat := by
    intro executed hexecuted
    rcases happlies with hpos | hwide
    · have hchecked := hagrees.quantity executed hexecuted (by rwa [hquantity])
      rw [abs_of_pos hpos]
      rwa [hquantity] at hchecked
    · calc |r.executionQuantity - executed.toRat|
          ≤ |r.executionQuantity| + |executed.toRat| := abs_sub _ _
        _ ≤ |r.executionQuantity| + F64.largest.toRat := by
            gcongr
            exact executed.abs_toRat_le_largest
        _ ≤ _ := hwide
  refine ⟨hreported, fun key => (hb.abs_posted_le key).trans ?_⟩
  cases hexecuted : b.req.executedQuantity with
  | none =>
    have hnonneg : 0 ≤ |r.executionQuantity| * D.cfg.bindSizeTolerance.toRat :=
      mul_nonneg (abs_nonneg _) htol
    simpa using add_nonneg (abs_nonneg r.executionQuantity) hnonneg
  | some executed =>
    have hclose := hreported executed hexecuted
    have htriangle : |executed.toRat| - |r.executionQuantity|
        ≤ |executed.toRat - r.executionQuantity| := abs_sub_abs_le_abs_sub _ _
    rw [abs_sub_comm] at htriangle
    simp only [Option.map_some, Option.getD_some]
    linarith

/-- A report of nothing but a quantity. -/
def BindExecutionRequest.reporting (traceId : Uuid) (executed : F64) : BindExecutionRequest where
  traceId := traceId
  exchangeTxId := "tx"
  executionStatus := .filled
  asset := none
  executedQuantity := some executed
  executionPrice := none
  executedSide := none
  executionTimeMs := none

/-- **An unchecked quantity matches any report.** -/
theorem exists_matched_of_unchecked
    (hrow : Table.rowOf TraceRow.traceId s.traces r.traceId = some r)
    (hpending : r.verificationStatus = .pending) (hunchecked : r.executionQuantity ≤ 0)
    (executed : F64) :
    ∃ es s', Run.run (step D) s es = some s' ∧ ∃ b ∈ s'.binds,
      b.req = .reporting r.traceId executed ∧ b.phase.verdict? = some .matched := by
  let req := BindExecutionRequest.reporting r.traceId executed
  let result := reconcile D.cfg D.aliases req r.intent r.txnTime
  have hagrees : Agrees D.cfg D.aliases req r.intent := by
    refine ⟨fun _ h => absurd h (by simp [req, BindExecutionRequest.reporting]),
      fun _ h => absurd h (by simp [req, BindExecutionRequest.reporting]), ?_⟩
    intro _ _ hpos
    exact absurd hpos (not_lt.2 hunchecked)
  have hmatched : result.verificationStatus = .matched := (reconcile_matched_iff _).2 hagrees
  have hread : step D s (.bindRead req)
      = some { s with binds := s.binds ++ [⟨req, .read r.intent⟩] } := by
    have hstatus : r.intent.status = .pending := hpending
    have hrow' : Table.rowOf TraceRow.traceId s.traces req.traceId = some r := hrow
    have hok : readIntent s.traces req = .ok r.intent := by
      simp [readIntent, getIntentForBinding, hrow', hstatus]
    simp only [step, hok]
  have hupdate : step D { s with binds := s.binds ++ [⟨req, .read r.intent⟩] }
      (.bindUpdate s.binds.length r.txnTime) = some { s with
        traces := updateBinding s.traces result req
        binds := s.binds ++ [⟨req, afterUpdate req r.intent result⟩] } := by
    have hlast : (s.binds ++ [(⟨req, .read r.intent⟩ : Bind)])[s.binds.length]?
        = some ⟨req, .read r.intent⟩ := List.getElem?_concat_length
    simp only [step, hlast]
    simp [result]
  refine ⟨[.bindRead req, .bindUpdate s.binds.length r.txnTime], _,
    (Run.run_cons hread _).trans ((Run.run_cons hupdate _).trans (Run.run_nil _)),
    ⟨req, afterUpdate req r.intent result⟩, ?_, rfl, ?_⟩
  · exact List.mem_append_right _ (List.mem_singleton.2 rfl)
  · rw [verdict?_afterUpdate, hmatched]

end Within

/-- **A match is within the tolerance for exactly the traces whose quantity is checked**, or
whose tolerance covers every number. -/
theorem matchedWithin_iff (D : Deployment) (htol : 0 ≤ D.cfg.bindSizeTolerance.toRat) {s : System}
    (hs : Reachable D s) {r : TraceRow} (hr : r ∈ s.traces)
    (hpending : r.verificationStatus = .pending) :
    MatchedWithin D s r ↔ ToleranceApplies D.cfg r := by
  have hrequests := requests_of_reachable hs
  have hrow : Table.rowOf TraceRow.traceId s.traces r.traceId = some r :=
    Table.rowOf_of_mem (uniqueIds_of_reachable hs) hr
  constructor
  · intro hwithin
    by_contra hnot
    rw [ToleranceApplies, not_or, not_lt, not_le] at hnot
    obtain ⟨hunchecked, hnarrow⟩ := hnot
    obtain ⟨es, s', hrun, b, hb, hreq, hmatched⟩ :=
      exists_matched_of_unchecked (D := D) hrow hpending hunchecked F64.largest
    have hreported := (hwithin es s' hrun b hb (by rw [hreq]; rfl) hmatched).reported F64.largest
      (by rw [hreq]; rfl)
    have hlargest : 0 ≤ F64.largest.toRat := (abs_nonneg _).trans F64.largest.abs_toRat_le_largest
    have hdistance : |r.executionQuantity - F64.largest.toRat|
        = |r.executionQuantity| + F64.largest.toRat := by
      rw [abs_of_nonpos hunchecked, abs_of_nonpos (by linarith), neg_sub, sub_eq_neg_add]
    linarith
  · intro happlies es s' hrun b hb hid hmatched
    have hreconciled := (hrequests.run hrun).reconciled b hb
    obtain ⟨intent, hintent, hagrees⟩ := hreconciled.agrees hmatched
    exact withinTolerance_of_applies htol happlies hreconciled
      (quantity_of_intent hrequests hrow hrun hb hid hintent) hagrees

/-- The accepted order of one unit is matched within the tolerance only. -/
theorem matchedWithin_bought : MatchedWithin .sample ⟨[boughtRow], [], []⟩ boughtRow := by
  have hreach : Reachable .sample ⟨[boughtRow], [], []⟩ :=
    ⟨[.authorize (.sample "buy")], by rw [Run.run_cons step_sample_bought, Run.run_nil]⟩
  have htol : 0 ≤ Deployment.sample.cfg.bindSizeTolerance.toRat := F64.toRat_zero.ge
  have hquantity : boughtRow.executionQuantity = 1 := boughtRow_quantity
  refine (matchedWithin_iff .sample htol hreach (List.mem_singleton.2 rfl) rfl).2 (Or.inl ?_)
  rw [hquantity]
  exact one_pos

/-! An order of quantity zero, filled with one unit. -/

/-- The sample order, for no units at all. -/
def AuthorizeCall.empty : AuthorizeCall :=
  { AuthorizeCall.sample "buy" with
    req := { AuthorizeRequest.sample (.fill 1) (.custom "buy") F64.one with quantity := F64.zero } }

/-- The row of an order for a quantity of 0. -/
def emptyRow : TraceRow := sampleRow .sample (.fill 2) AuthorizeCall.empty.req sampleDecision

theorem step_empty : step .sample .init (.authorize .empty) = some ⟨[emptyRow], [], []⟩ := by
  have hbuys : BuysWithin AuthorizeCall.empty.req F64.two :=
    ⟨rfl, rfl, rfl, rfl, F64.toRat_one_le_two⟩
  exact step_first hbuys

/-- The fill of one unit matches the order of none. -/
theorem one_unit_matches_none :
    ∃ s b, Run.run (step .sample) .init
        [.authorize .empty, .bindRead (.sample "tx-1"), .bindUpdate 0 emptyRow.txnTime] = some s ∧
      b ∈ s.binds ∧ b.req = .sample "tx-1" ∧ b.phase.verdict? = some .matched ∧
      emptyRow.executionQuantity = 0 ∧ b.req.executedQuantity = some F64.one ∧
      Deployment.sample.cfg.bindSizeTolerance.toRat = 0 ∧
      ¬ WithinTolerance Deployment.sample.cfg emptyRow b := by
  have hquantity : emptyRow.executionQuantity = 0 := F64.toRat_zero
  have htol : Deployment.sample.cfg.bindSizeTolerance.toRat = 0 := F64.toRat_zero
  have hagrees : Agrees .sample [] (.sample "tx-1") emptyRow.intent := by
    refine ⟨fun _ h => absurd h (by simp [BindExecutionRequest.sample]),
      fun _ h => absurd h (by simp [BindExecutionRequest.sample]), ?_⟩
    intro _ _ hpos
    exact absurd hpos (by rw [show emptyRow.intent.quantity = 0 from hquantity]; exact lt_irrefl 0)
  have hmatched := (reconcile_matched_iff emptyRow.txnTime).2 hagrees
  have hupdate : step .sample ⟨[emptyRow], [], [⟨.sample "tx-1", .read emptyRow.intent⟩]⟩
      (.bindUpdate 0 emptyRow.txnTime) = some _ :=
    step_sample_update rfl [] rfl emptyRow.txnTime
  have hrun := (Run.run_cons step_empty _).trans
    ((Run.run_cons (step_sample_read (.sample "tx-1") rfl rfl [] []) _).trans
      (Run.run_cons hupdate []))
  refine ⟨_, ⟨.sample "tx-1", _⟩, hrun, List.mem_singleton.2 rfl, rfl, ?_, hquantity, rfl, htol, ?_⟩
  · rw [verdict?_afterUpdate]
    exact congrArg some hmatched
  · intro hwithin
    have hreported := hwithin.reported F64.one rfl
    rw [hquantity, F64.toRat_one, abs_zero, zero_mul, zero_sub, abs_neg, abs_one] at hreported
    exact absurd hreported (not_le.2 one_pos)

end IrlEngine
