import IrlEngine.Store
import IrlEngine.Heartbeat

/-!
# Binding an execution

`asset.rs`, `binding.rs` and `routes/bind.rs`, with the statements of `db.rs` they
run: the intent read, `update_binding` and `upsert_position`.  `bindExecution` is
the whole request when nothing comes in between; its three database accesses are
separate functions, so that they can also be interleaved with other writers.
-/

namespace IrlEngine

/-! ## Assets and directions -/

/-- `asset::canonicalize` under the alias map of the deployment. -/
def canonicalize (aliases : List (String × String)) (asset : String) : String :=
  (aliases.lookup asset).getD asset

/-- `assets_match`: equal as they are, or by their aliases. -/
def assetsMatch (aliases : List (String × String)) (a b : String) : Bool :=
  a = b || canonicalize aliases a = canonicalize aliases b

/-- The keywords of a long action in a stored action text. -/
def isLongText (lower : List Char) : Bool :=
  Text.startsWith lower "long" || Text.startsWith lower "buy" || Text.contains lower "open_long"
    || Text.isText lower "open"

/-- The keywords of a short action in a stored action text. -/
def isShortText (lower : List Char) : Bool :=
  Text.startsWith lower "short" || Text.startsWith lower "sell" || Text.contains lower "close_short"
    || Text.isText lower "close" || Text.isText lower "exit" || Text.isText lower "reverse"

/-- `binding::resolve_direction`. -/
def resolveDirection (action : String) : String :=
  let lower := Text.trim (Text.toAsciiLowercase action.toList)
  if isLongText lower then "long" else if isShortText lower then "short" else "neutral"

/-- The signed fill of `bind_execution`, by the same keywords. -/
def quantityDelta (action : String) (fill : ℚ) : ℚ :=
  let lower := Text.trim (Text.toAsciiLowercase action.toList)
  if isLongText lower then fill else if isShortText lower then -fill else 0

/-! ## Requests, intents and reconciliation -/

/-- `ExecutionStatus`, as the exchange reports it. -/
inductive ExecutionStatus where
  | filled
  | rejected
  | partialFill
  deriving DecidableEq, Repr

/-- The text of a status in the store and in the answer. -/
def ExecutionStatus.display : ExecutionStatus → String
  | .filled => "FILLED"
  | .rejected => "REJECTED"
  | .partialFill => "PARTIAL"

/-- The body of `bind_execution`. -/
structure BindExecutionRequest where
  traceId : Uuid
  exchangeTxId : String
  executionStatus : ExecutionStatus
  asset : Option String
  executedQuantity : Option F64
  executionPrice : Option F64
  executedSide : Option String
  executionTimeMs : Option Int64
  deriving DecidableEq, Repr

/-- What `reconcile` returns. -/
structure BindExecutionResult where
  traceId : Uuid
  finalProof : String
  verificationStatus : VerificationStatus
  executionStatus : String
  executionTime : DateTime
  divergenceReason : Option String

/-- The columns that `get_intent_for_binding` returns. -/
structure BindIntent where
  reasoningHash : String
  asset : String
  action : String
  quantity : ℚ
  status : VerificationStatus
  agentId : Option Uuid
  venueId : String
  currency : String
  multiplier : ℚ

/-- The columns of a row that a bind compares the report with. -/
def TraceRow.intent (r : TraceRow) : BindIntent where
  reasoningHash := r.reasoningHash
  asset := r.executionAsset
  action := r.executionAction
  quantity := r.executionQuantity
  status := r.verificationStatus
  agentId := r.agentId
  venueId := r.executionVenueId.getD "UNKNOWN"
  currency := r.executionNotionalCurrency.getD "USD"
  multiplier := r.executionMultiplier.getD 1

/-- The intent as a request that is admitted reads it. -/
def TraceRow.pendingIntent (r : TraceRow) : BindIntent := { r.intent with status := .pending }

theorem TraceRow.pendingIntent_eq {r : TraceRow} (h : r.verificationStatus = .pending) :
    r.pendingIntent = r.intent := by
  unfold pendingIntent
  rw [← h]
  rfl

/-- `get_intent_for_binding`. -/
def getIntentForBinding (traces : List TraceRow) (traceId : Uuid) : Except AppError BindIntent :=
  match Table.rowOf TraceRow.traceId traces traceId with
  | some r => .ok r.intent
  | none => .error (.traceNotFound traceId.toText)

/-- The read step of a bind: the intent, refused unless the trace is `PENDING`. -/
def readIntent (traces : List TraceRow) (req : BindExecutionRequest) : Except AppError BindIntent :=
  match getIntentForBinding traces req.traceId with
  | .error e => .error e
  | .ok intent =>
    if intent.status ≠ .pending then
      .error (.traceAlreadyBound req.traceId.toText intent.status.display)
    else .ok intent

/-- A rational with four decimals, as `{:.4}` prints it. -/
def fixed4 (q : ℚ) : String :=
  let n := F64.roundHalfEven (|q| * 10000)
  let digits := Nat.toDigits 10 (n % 10000)
  (if q < 0 then "-" else "") ++ toString (n / 10000) ++ "."
    ++ String.ofList (List.replicate (4 - digits.length) '0' ++ digits)

/-- The first check of `reconcile` that fails, by its message. -/
def divergence (cfg : Config) (aliases : List (String × String)) (req : BindExecutionRequest)
    (intent : BindIntent) : Option String :=
  let assetCheck := req.asset.bind fun executed =>
    if assetsMatch aliases executed intent.asset then none
    else some ("Asset mismatch: authorized " ++ intent.asset ++ ", executed " ++ executed)
  let sideCheck := req.executedSide.bind fun executed =>
    if Text.eqIgnoreAsciiCase executed (resolveDirection intent.action) then none
    else some ("Side mismatch: authorized " ++ resolveDirection intent.action ++ ", executed "
      ++ executed)
  let quantityCheck := req.executedQuantity.bind fun executed =>
    let delta := |intent.quantity - executed.toRat|
    if 0 < intent.quantity ∧ intent.quantity * cfg.bindSizeTolerance.toRat < delta then
      some ("Quantity outside tolerance: authorized " ++ fixed4 intent.quantity ++ ", executed "
        ++ fixed4 executed.toRat ++ ", delta " ++ fixed4 delta)
    else none
  assetCheck.or (sideCheck.or quantityCheck)

/-- `binding::reconcile`; `now` is the wall clock. -/
def reconcile (cfg : Config) (aliases : List (String × String)) (req : BindExecutionRequest)
    (intent : BindIntent) (now : DateTime) : BindExecutionResult where
  traceId := req.traceId
  finalProof := computeFinalProof intent.reasoningHash req.exchangeTxId
  verificationStatus :=
    match divergence cfg aliases req intent with
    | some _ => .divergent
    | none => .matched
  executionStatus := req.executionStatus.display
  executionTime := (req.executionTimeMs.bind DateTime.ofMillis).getD now
  divergenceReason := divergence cfg aliases req intent

/-- A reconciled bind is `MATCHED` or `DIVERGENT`. -/
theorem reconcile_status (cfg : Config) (aliases : List (String × String))
    (req : BindExecutionRequest) (intent : BindIntent) (now : DateTime) :
    (reconcile cfg aliases req intent now).verificationStatus = .matched ∨
      (reconcile cfg aliases req intent now).verificationStatus = .divergent := by
  unfold reconcile
  cases divergence cfg aliases req intent with
  | none => exact Or.inl rfl
  | some reason => exact Or.inr rfl

/-- The report agrees with the intent in the asset, the side and the quantity it names. -/
structure Agrees (cfg : Config) (aliases : List (String × String)) (req : BindExecutionRequest)
    (intent : BindIntent) : Prop where
  asset : ∀ executed, req.asset = some executed → assetsMatch aliases executed intent.asset = true
  side : ∀ executed, req.executedSide = some executed →
    Text.eqIgnoreAsciiCase executed (resolveDirection intent.action) = true
  quantity : ∀ executed, req.executedQuantity = some executed → 0 < intent.quantity →
    |intent.quantity - executed.toRat| ≤ intent.quantity * cfg.bindSizeTolerance.toRat

theorem divergence_eq_none_iff {cfg : Config} {aliases : List (String × String)}
    {req : BindExecutionRequest} {intent : BindIntent} :
    divergence cfg aliases req intent = none ↔ Agrees cfg aliases req intent := by
  simp only [divergence, Option.or_eq_none_iff, Option.bind_eq_none_iff]
  constructor
  · rintro ⟨hasset, hside, hquantity⟩
    refine ⟨fun a ha => ?_, fun a ha => ?_, fun a ha hpos => ?_⟩
    · by_contra hne
      exact absurd (hasset a ha) (by simp [hne])
    · by_contra hne
      exact absurd (hside a ha) (by simp [hne])
    · by_contra hlt
      exact absurd (hquantity a ha) (by simp [hpos, not_le.1 hlt])
  · rintro ⟨hasset, hside, hquantity⟩
    refine ⟨fun a ha => by simp [hasset a ha], fun a ha => by simp [hside a ha], fun a ha => ?_⟩
    refine if_neg ?_
    rintro ⟨hpos, hlt⟩
    exact absurd (hquantity a ha hpos) (not_le.2 hlt)

theorem reconcile_matched_iff {cfg : Config} {aliases : List (String × String)}
    {req : BindExecutionRequest} {intent : BindIntent} (now : DateTime) :
    (reconcile cfg aliases req intent now).verificationStatus = .matched
      ↔ Agrees cfg aliases req intent := by
  rw [← divergence_eq_none_iff]
  unfold reconcile
  cases divergence cfg aliases req intent with
  | none => simp
  | some reason => simp

/-! ## The binding update -/

/-- The columns `update_binding` writes. -/
def TraceRow.bindTo (r : TraceRow) (result : BindExecutionResult) (req : BindExecutionRequest) :
    TraceRow :=
  { r with
    exchangeTxId := some req.exchangeTxId
    verificationStatus := result.verificationStatus
    executionStatus := some result.executionStatus
    executionPrice := req.executionPrice.map F64.toRat
    executionTime := some result.executionTime
    finalProof := some result.finalProof }

section BindTo

variable (r : TraceRow) (result : BindExecutionResult) (req : BindExecutionRequest)

@[simp] theorem TraceRow.bindTo_traceId : (r.bindTo result req).traceId = r.traceId := rfl

@[simp] theorem TraceRow.bindTo_verificationStatus :
    (r.bindTo result req).verificationStatus = result.verificationStatus := rfl

@[simp] theorem TraceRow.bindTo_exchangeTxId :
    (r.bindTo result req).exchangeTxId = some req.exchangeTxId := rfl

end BindTo

/-- `update_binding`: the statement is keyed by the trace id alone. -/
def updateBinding (traces : List TraceRow) (result : BindExecutionResult)
    (req : BindExecutionRequest) : List TraceRow :=
  Table.updateWhere (fun r => r.traceId = result.traceId) (fun r => r.bindTo result req) traces

/-! ## The position ledger -/

/-- The unique key of `irl.agent_positions`. -/
structure PositionKey where
  agentId : Uuid
  asset : String
  venueId : String
  currency : String
  deriving DecidableEq, Repr

/-- A row of `irl.agent_positions`. -/
structure PositionRow where
  key : PositionKey
  netQuantity : ℚ
  notional : ℚ
  averagePrice : Option ℚ
  multiplier : ℚ
  lastTraceId : Uuid
  deriving DecidableEq

/-- A fill to be added to a position. -/
structure Fill where
  key : PositionKey
  quantityDelta : ℚ
  fillPrice : Option ℚ
  multiplier : ℚ
  traceId : Uuid

/-- The notional of a fill, zero without a price. -/
def Fill.notional (f : Fill) : ℚ :=
  match f.fillPrice with
  | some p => |f.quantityDelta| * p * f.multiplier
  | none => 0

/-- The row that a first fill inserts. -/
def Fill.row (f : Fill) : PositionRow where
  key := f.key
  netQuantity := f.quantityDelta
  notional := f.notional
  averagePrice := if f.quantityDelta ≠ 0 then f.fillPrice else none
  multiplier := f.multiplier
  lastTraceId := f.traceId

/-- What a further fill makes of a row. -/
def PositionRow.add (p : PositionRow) (f : Fill) : PositionRow where
  key := p.key
  netQuantity := p.netQuantity + f.quantityDelta
  notional := p.notional + f.notional
  averagePrice :=
    match f.fillPrice with
    | some price =>
      if p.netQuantity + f.quantityDelta ≠ 0 then
        some ((p.averagePrice.getD 0 * |p.netQuantity| + price * |f.quantityDelta|)
          / |p.netQuantity + f.quantityDelta|)
      else p.averagePrice
    | none => p.averagePrice
  multiplier := f.multiplier
  lastTraceId := f.traceId

/-- `upsert_position`: add to the row with the key, or insert one. -/
def upsertPosition (positions : List PositionRow) (f : Fill) : List PositionRow :=
  if positions.any fun p => p.key = f.key then
    Table.updateWhere (fun p => p.key = f.key) (fun p => p.add f) positions
  else positions ++ [f.row]

/-- The row of the key of a fill, after it. -/
def Fill.applyTo (f : Fill) : Option PositionRow → PositionRow
  | none => f.row
  | some p => p.add f

/-- A fill changes the row of its key, and no other. -/
theorem rowOf_upsertPosition (positions : List PositionRow) (f : Fill) (key : PositionKey) :
    Table.rowOf PositionRow.key (upsertPosition positions f) key
      = if f.key = key then some (f.applyTo (Table.rowOf PositionRow.key positions key))
        else Table.rowOf PositionRow.key positions key := by
  unfold upsertPosition
  split
  · rename_i hany
    have hkeep : ∀ p : PositionRow, (p.add f).key = p.key := fun _ => rfl
    rw [Table.rowOf_updateWhere hkeep]
    cases hrow : Table.rowOf PositionRow.key positions key with
    | none =>
      -- the key has no row, so it is not the key of the fill
      have hne : f.key ≠ key := by
        rintro rfl
        simp only [List.any_eq_true, decide_eq_true_eq] at hany
        obtain ⟨p, hp, hk⟩ := hany
        have hnone := List.find?_eq_none.1 hrow p hp
        simp [hk] at hnone
      rw [if_neg hne]
      rfl
    | some p =>
      have hpkey := Table.key_of_rowOf hrow
      by_cases hk : f.key = key
      · simp [hk, hpkey, Fill.applyTo]
      · have hne : p.key ≠ f.key := fun he => hk (he.symm.trans hpkey)
        simp [hk, hne]
  · rename_i hany
    have hfresh : f.row.key ∉ positions.map PositionRow.key := by
      intro hmem
      obtain ⟨p, hp, hk⟩ := List.mem_map.1 hmem
      exact hany (List.any_eq_true.2 ⟨p, hp, decide_eq_true hk⟩)
    rw [Table.rowOf_append_singleton hfresh]
    by_cases hk : f.row.key = key
    · have hnone : Table.rowOf PositionRow.key positions key = none :=
        Table.rowOf_eq_none (hk ▸ hfresh)
      rw [if_pos hk, if_pos (show f.key = key from hk), hnone]
      rfl
    · rw [if_neg hk, if_neg (show f.key ≠ key from hk)]

/-- The net quantity of a key; a key without a row is flat. -/
def netQuantity (positions : List PositionRow) (key : PositionKey) : ℚ :=
  ((Table.rowOf PositionRow.key positions key).map PositionRow.netQuantity).getD 0

/-- A fill changes the net quantity of its key by its delta, and no other. -/
theorem netQuantity_upsertPosition (positions : List PositionRow) (f : Fill) (key : PositionKey) :
    netQuantity (upsertPosition positions f) key
      = netQuantity positions key + if f.key = key then f.quantityDelta else 0 := by
  unfold netQuantity
  rw [rowOf_upsertPosition]
  by_cases hk : f.key = key
  · rw [if_pos hk, if_pos hk]
    cases Table.rowOf PositionRow.key positions key with
    | none => exact (zero_add _).symm
    | some p => rfl
  · rw [if_neg hk, if_neg hk, add_zero]

/-- The ledger write of a bind: a `MATCHED` fill of an agent's trace, unless it does
not move the position. -/
def bindFill (req : BindExecutionRequest) (intent : BindIntent) (result : BindExecutionResult) :
    Option Fill :=
  match result.verificationStatus, intent.agentId with
  | .matched, some aid =>
    let delta := quantityDelta intent.action ((req.executedQuantity.map F64.toRat).getD 0)
    if delta ≠ 0 then
      some ⟨⟨aid, intent.asset, intent.venueId, intent.currency⟩, delta,
        req.executionPrice.map F64.toRat, intent.multiplier, req.traceId⟩
    else none
  | _, _ => none

/-! ## The whole request -/

/-- `bind_execution` with nothing in between. -/
def bindExecution (cfg : Config) (aliases : List (String × String)) (traces : List TraceRow)
    (positions : List PositionRow) (req : BindExecutionRequest) (now : DateTime) :
    List TraceRow × List PositionRow × Except AppError BindExecutionResult :=
  match readIntent traces req with
  | .error e => (traces, positions, .error e)
  | .ok intent =>
    let result := reconcile cfg aliases req intent now
    let traces' := updateBinding traces result req
    match bindFill req intent result with
    | none => (traces', positions, .ok result)
    | some fill => (traces', upsertPosition positions fill, .ok result)

end IrlEngine
