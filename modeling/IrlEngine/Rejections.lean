import IrlEngine.Directions
import IrlEngine.BindRecord
import Mathlib.Tactic.Linarith

/-!
# Reports of rejected orders

The integration guide binds an order that was not executed with status `Rejected` and a quantity
of zero, the original quantity, or none at all.  Neither `reconcile` nor the ledger looks at the
status: a quantity of zero is outside the tolerance, and the original quantity is booked.

* `RejectionReport` — a report as the guide prescribes it;
* `rejection_harmless_iff` — the reports among these that match without moving a position.
-/

namespace IrlEngine

/-! ## What the guide asks for -/

/-- A rejection that agrees on asset and side, and reports no quantity, zero or the original one. -/
structure RejectionReport (aliases : List (String × String)) (intent : BindIntent)
    (req : BindExecutionRequest) : Prop where
  status : req.executionStatus = .rejected
  asset : ∀ executed, req.asset = some executed → assetsMatch aliases executed intent.asset = true
  side : ∀ executed, req.executedSide = some executed →
    Text.eqIgnoreAsciiCase executed (resolveDirection intent.action) = true
  quantity : ∀ executed, req.executedQuantity = some executed →
    executed.toRat = 0 ∨ executed.toRat = intent.quantity

/-- The report is answered `MATCHED`, and the ledger stays as it is. -/
def RejectionHarmless (cfg : Config) (aliases : List (String × String)) (traces : List TraceRow)
    (positions : List PositionRow) (req : BindExecutionRequest) (now : DateTime) : Prop :=
  ∃ result, (bindExecution cfg aliases traces positions req now).2.2 = .ok result ∧
    result.verificationStatus = .matched ∧
    (bindExecution cfg aliases traces positions req now).2.1 = positions

/-- No quantity is reported; or zero, of an order for nothing or within a tolerance of everything;
or the original quantity, of an order that the ledger does not book. -/
def RejectionUnbooked (cfg : Config) (intent : BindIntent) (req : BindExecutionRequest) : Prop :=
  ∀ executed, req.executedQuantity = some executed →
    (executed.toRat = 0 ∧ (intent.quantity ≤ 0 ∨ 1 ≤ cfg.bindSizeTolerance.toRat)) ∨
    (executed.toRat = intent.quantity ∧
      (intent.quantity ≤ 0 ∨ 0 ≤ cfg.bindSizeTolerance.toRat) ∧
      (intent.agentId = none ∨ storedDirection intent.action = .neutral))

/-! ## The two halves -/

/-- A fill that moves its position changes the ledger. -/
theorem upsertPosition_ne {positions : List PositionRow} {f : Fill} (hd : f.quantityDelta ≠ 0) :
    upsertPosition positions f ≠ positions := by
  intro heq
  have hnet := netQuantity_upsertPosition positions f f.key
  rw [heq, if_pos rfl, left_eq_add] at hnet
  exact hd hnet

/-- What the ledger would be moved by. -/
def reportedDelta (intent : BindIntent) (req : BindExecutionRequest) : ℚ :=
  quantityDelta intent.action ((req.executedQuantity.map F64.toRat).getD 0)

theorem bindFill_of_matched (req : BindExecutionRequest) (intent : BindIntent)
    {result : BindExecutionResult} (h : result.verificationStatus = .matched) :
    (bindFill req intent result = none ↔ intent.agentId = none ∨ reportedDelta intent req = 0) ∧
      ∀ fill, bindFill req intent result = some fill → fill.quantityDelta ≠ 0 := by
  unfold bindFill reportedDelta
  rw [h]
  cases intent.agentId with
  | none => simp
  | some aid =>
    by_cases hd : quantityDelta intent.action ((req.executedQuantity.map F64.toRat).getD 0) = 0
    · simp [hd]
    · refine ⟨by simp [hd], fun fill hfill => ?_⟩
      simp only [ne_eq, hd, not_false_eq_true, if_true, Option.some.injEq] at hfill
      rw [← hfill]
      exact hd

/-- An admitted report is answered with its reconciliation, and its fill is booked. -/
theorem bindExecution_eq (cfg : Config) (aliases : List (String × String)) {traces : List TraceRow}
    (positions : List PositionRow) {req : BindExecutionRequest} {intent : BindIntent}
    (now : DateTime) (hread : readIntent traces req = .ok intent) :
    (bindExecution cfg aliases traces positions req now).2
      = (((bindFill req intent (reconcile cfg aliases req intent now)).map
          (upsertPosition positions)).getD positions,
          .ok (reconcile cfg aliases req intent now)) := by
  unfold bindExecution
  rw [hread]
  dsimp only
  cases bindFill req intent (reconcile cfg aliases req intent now) <;> rfl

theorem rejectionHarmless_iff_agrees {cfg : Config} {aliases : List (String × String)}
    {traces : List TraceRow} {positions : List PositionRow} {req : BindExecutionRequest}
    {intent : BindIntent} (now : DateTime) (hread : readIntent traces req = .ok intent) :
    RejectionHarmless cfg aliases traces positions req now ↔
      Agrees cfg aliases req intent ∧
        (intent.agentId = none ∨ reportedDelta intent req = 0) := by
  unfold RejectionHarmless
  have hmatched_iff : _ ↔ Agrees cfg aliases req intent := reconcile_matched_iff now
  rw [bindExecution_eq cfg aliases positions now hread, ← hmatched_iff]
  constructor
  · rintro ⟨result, hresult, hmatched, hsame⟩
    obtain rfl := Except.ok.inj hresult
    obtain ⟨hnone, hmoves⟩ := bindFill_of_matched req intent hmatched
    refine ⟨hmatched, hnone.1 ?_⟩
    cases hfill : bindFill req intent (reconcile cfg aliases req intent now) with
    | none => rfl
    | some fill =>
      rw [hfill] at hsame
      exact absurd hsame (upsertPosition_ne (hmoves fill hfill))
  · rintro ⟨hmatched, hdelta⟩
    obtain ⟨hnone, -⟩ := bindFill_of_matched req intent hmatched
    refine ⟨_, rfl, hmatched, ?_⟩
    rw [hnone.2 hdelta]
    rfl

/-- Among the prescribed reports only the quantity decides. -/
theorem RejectionReport.agrees_iff {cfg : Config} {aliases : List (String × String)}
    {intent : BindIntent} {req : BindExecutionRequest} (h : RejectionReport aliases intent req) :
    Agrees cfg aliases req intent ↔
      ∀ executed, req.executedQuantity = some executed → 0 < intent.quantity →
        |intent.quantity - executed.toRat| ≤ intent.quantity * cfg.bindSizeTolerance.toRat :=
  ⟨fun hagrees => hagrees.quantity, fun hquantity => ⟨h.asset, h.side, hquantity⟩⟩

theorem storedDirection_sign_eq_zero_iff (action : String) :
    (storedDirection action).sign = 0 ↔ storedDirection action = .neutral := by
  unfold storedDirection
  dsimp only
  split
  · simp [Direction.sign]
  · split
    · simp [Direction.sign]
    · simp [Direction.sign]

theorem within_zero_iff {q tol : ℚ} : (0 < q → |q - 0| ≤ q * tol) ↔ q ≤ 0 ∨ 1 ≤ tol := by
  by_cases hq : 0 < q
  · have hmul : q ≤ q * tol ↔ 1 ≤ tol := le_mul_iff_one_le_right hq
    simp [hq, not_le.2 hq, abs_of_pos hq, hmul]
  · simp [hq, not_lt.1 hq]

theorem within_self_iff {q tol : ℚ} : (0 < q → |q - q| ≤ q * tol) ↔ q ≤ 0 ∨ 0 ≤ tol := by
  by_cases hq : 0 < q
  · have hmul : 0 ≤ q * tol ↔ 0 ≤ tol := mul_nonneg_iff_of_pos_left hq
    simp [hq, not_le.2 hq, hmul]
  · simp [hq, not_lt.1 hq]

/-- **When a rejection is harmless.**  A report of a rejected order for a `PENDING` trace, with a
quantity the guide prescribes, matches and leaves the ledger alone exactly if it names no quantity,
or a quantity that is neither outside the tolerance nor booked. -/
theorem rejection_harmless_iff (cfg : Config) (aliases : List (String × String))
    {traces : List TraceRow} (positions : List PositionRow) {req : BindExecutionRequest}
    {r : TraceRow} (now : DateTime)
    (hrow : Table.rowOf TraceRow.traceId traces req.traceId = some r)
    (hpending : r.verificationStatus = .pending) (hreport : RejectionReport aliases r.intent req) :
    RejectionHarmless cfg aliases traces positions req now ↔
      RejectionUnbooked cfg r.intent req := by
  rw [rejectionHarmless_iff_agrees now (readIntent_of_row hrow hpending), hreport.agrees_iff]
  unfold RejectionUnbooked reportedDelta
  cases hquantity : req.executedQuantity with
  | none => simp [quantityDelta_eq]
  | some executed =>
    simp only [Option.some.injEq, forall_eq', Option.map_some, Option.getD_some, quantityDelta_eq,
      mul_eq_zero, storedDirection_sign_eq_zero_iff]
    by_cases hzero : executed.toRat = 0
    · rw [hzero, within_zero_iff]
      constructor
      · rintro ⟨hwithin, -⟩
        exact Or.inl ⟨rfl, hwithin⟩
      · rintro (⟨-, hwithin⟩ | ⟨hnothing, -⟩)
        · exact ⟨hwithin, Or.inr (Or.inr rfl)⟩
        · exact ⟨Or.inl hnothing.ge, Or.inr (Or.inr rfl)⟩
    · have horiginal : executed.toRat = r.intent.quantity :=
        (hreport.quantity executed hquantity).resolve_left hzero
      rw [horiginal] at hzero ⊢
      rw [within_self_iff]
      constructor
      · rintro ⟨hwithin, hagent | hneutral | hnothing⟩
        · exact Or.inr ⟨rfl, hwithin, Or.inl hagent⟩
        · exact Or.inr ⟨rfl, hwithin, Or.inr hneutral⟩
        · exact absurd hnothing hzero
      · rintro (⟨hnothing, -⟩ | ⟨-, hwithin, hagent | hneutral⟩)
        · exact absurd hnothing hzero
        · exact ⟨hwithin, Or.inl hagent⟩
        · exact ⟨hwithin, Or.inr (Or.inl hneutral)⟩

/-! An order that the exchange has rejected, reported with its original quantity and with zero. -/

/-- The report of a rejected sample order. -/
def BindExecutionRequest.rejection (executed : Option F64) : BindExecutionRequest :=
  { BindExecutionRequest.sample "tx-1" with
    executionStatus := .rejected, executedQuantity := executed }

theorem rejectionReport_sample {executed : Option F64}
    (h : ∀ e, executed = some e → e.toRat = 0 ∨ e.toRat = 1) :
    RejectionReport [] boughtRow.intent (.rejection executed) := by
  refine ⟨rfl, fun _ hnone => absurd hnone (by simp [BindExecutionRequest.rejection,
    BindExecutionRequest.sample]),
    fun _ hnone => absurd hnone (by simp [BindExecutionRequest.rejection,
    BindExecutionRequest.sample]), fun e he => ?_⟩
  rw [boughtRow_quantity]
  exact h e he

/-- No quantity is reported. -/
theorem rejection_without_quantity :
    RejectionHarmless .sample [] [boughtRow] [] (.rejection none) boughtRow.txnTime := by
  refine (rejection_harmless_iff .sample [] [] boughtRow.txnTime rfl rfl
    (rejectionReport_sample (by simp))).2 ?_
  intro executed hnone
  cases hnone

/-- The original quantity is booked as if it had been filled, and zero diverges. -/
theorem rejection_booked :
    (RejectionReport [] boughtRow.intent (.rejection (some F64.one)) ∧
      (bindExecution .sample [] [boughtRow] [] (.rejection (some F64.one)) boughtRow.txnTime).2.1
        ≠ []) ∧
    RejectionReport [] boughtRow.intent (.rejection (some F64.zero)) ∧
      ∃ result, (bindExecution .sample [] [boughtRow] [] (.rejection (some F64.zero))
        boughtRow.txnTime).2.2 = .ok result ∧ result.verificationStatus = .divergent := by
  have htol : Config.sample.bindSizeTolerance.toRat = 0 := F64.toRat_zero
  have hone : RejectionReport [] boughtRow.intent (.rejection (some F64.one)) :=
    rejectionReport_sample (by simp)
  have hzero : RejectionReport [] boughtRow.intent (.rejection (some F64.zero)) :=
    rejectionReport_sample (by simp)
  refine ⟨⟨hone, fun hsame => ?_⟩, hzero, ?_⟩
  · have hread : readIntent [boughtRow] (.rejection (some F64.one)) = .ok boughtRow.intent :=
      readIntent_of_row rfl rfl
    have hagrees : Agrees .sample [] (.rejection (some F64.one)) boughtRow.intent := by
      refine hone.agrees_iff.2 fun executed hexecuted _ => ?_
      obtain rfl := Option.some.inj hexecuted
      rw [boughtRow_quantity, F64.toRat_one, htol, sub_self, abs_zero, mul_zero]
    have hmatched := (reconcile_matched_iff boughtRow.txnTime).2 hagrees
    have hanswer := congrArg Prod.snd (bindExecution_eq .sample [] [] boughtRow.txnTime hread)
    rcases ((rejectionHarmless_iff_agrees boughtRow.txnTime hread).1
      ⟨_, hanswer, hmatched, hsame⟩).2 with hagent | hdelta
    · cases hagent
    · have hbooked : reportedDelta boughtRow.intent (.rejection (some F64.one)) = 1 := by
        show quantityDelta boughtRow.intent.action F64.one.toRat = 1
        rw [F64.toRat_one, boughtRow_delta]
      rw [hbooked] at hdelta
      exact one_ne_zero hdelta
  · have hread : readIntent [boughtRow] (.rejection (some F64.zero)) = .ok boughtRow.intent :=
      readIntent_of_row rfl rfl
    refine ⟨_, congrArg Prod.snd (bindExecution_eq .sample [] [] boughtRow.txnTime hread), ?_⟩
    refine (reconcile_status _ _ _ _ _).resolve_left fun hmatched => ?_
    have hwithin := ((reconcile_matched_iff boughtRow.txnTime).1 hmatched).quantity F64.zero rfl
    rw [boughtRow_quantity, F64.toRat_zero, htol, sub_zero, abs_one, mul_zero] at hwithin
    exact absurd (hwithin one_pos) (not_le.2 one_pos)

end IrlEngine
