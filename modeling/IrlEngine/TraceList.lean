import IrlEngine.Gateway

/-!
# The trace list

`GET /irl/traces`: the query of `routes/traces.rs`, and `list_traces` of `db.rs`.  `LIMIT` cuts a
list that is sorted by time; a bound that chrono cannot represent is dropped, and with it the
filter; `SHADOW_HALTED`, which the route names as a status, is never one.

* `rows_newest` — what the limit cuts off is no newer than what it leaves;
* `trace_list_exact_iff` — when the list is what the query asks for.
-/

namespace IrlEngine

/-- `TraceListQuery`. -/
structure TraceListQuery where
  agentId : Option Uuid
  fromMs : Option Int64
  toMs : Option Int64
  status : Option String
  limit : Option Int64

namespace TraceListQuery

variable (q : TraceListQuery)

/-- The limit that `list_traces` hands on. -/
def limitValue : Int64 := min (q.limit.getD 500) 5000

/-- The `WHERE` clause. -/
def selects (r : TraceRow) : Bool :=
  q.agentId.all (fun id => decide (r.agentId = some id)) &&
    (q.fromMs.bind DateTime.ofMillis).all (fun t => decide (t.millis ≤ r.txnTime.millis)) &&
    (q.toMs.bind DateTime.ofMillis).all (fun t => decide (r.txnTime.millis ≤ t.millis)) &&
    q.status.all (fun s => decide (r.verificationStatus.display = s))

/-- The rows, when the table is scanned in the order of `scan`. -/
def rows (scan : List TraceRow) : List TraceRow :=
  ((scan.filter q.selects).mergeSort fun a b => txnLe b a).take q.limitValue.toInt.toNat

end TraceListQuery

/-- A row as the list shows it; `float8` is the cast of the database. -/
def TraceRow.listed (K : Crates) (float8 : ℚ → F64) (r : TraceRow) : Json :=
  Json.normalize (.obj [("trace_id", .str r.traceId.toText),
    ("agent_id", jsonOption (fun id => .str id.toText) r.agentId),
    ("txn_time", .str (K.rfc3339 r.txnTime)), ("policy_result", .str r.policyResult.display),
    ("verification_status", .str r.verificationStatus.display), ("asset", .str r.executionAsset),
    ("notional", jsonF64 (float8 r.executionNotional)), ("reasoning_hash", .str r.reasoningHash)])

/-- `list_traces`, when the table is scanned in the order of `scan`. -/
def listTraces (K : Crates) (float8 : ℚ → F64) (q : TraceListQuery) (scan : List TraceRow) :
    Except AppError (List Json) :=
  if q.limitValue < 0 then .error (.database "LIMIT must not be negative")
  else .ok ((q.rows scan).map (TraceRow.listed K float8))

/-- The route; the database scans the table in an order of its own. -/
def Route.traceList (K : Crates) (float8 : ℚ → F64) (scan : List TraceRow → List TraceRow)
    (q : TraceListQuery) : Route :=
  .read false fun s => (listTraces K float8 q (scan s.sys.traces)).map fun traces =>
    .obj [("count", jsonU64 (UInt64.ofNat traces.length)), ("traces", .arr traces)]

/-! ## What a query asks for -/

namespace TraceListQuery

/-- The parameters as the route describes them. -/
structure Asks (q : TraceListQuery) (r : TraceRow) : Prop where
  agentId : ∀ id ∈ q.agentId, r.agentId = some id
  fromMs : ∀ ms ∈ q.fromMs, ms ≤ r.txnTime.millis
  toMs : ∀ ms ∈ q.toMs, r.txnTime.millis ≤ ms
  status : ∀ s ∈ q.status, r.verificationStatus.display = s ∨
    s = "SHADOW_HALTED" ∧ r.policyResult = .shadowHalted

/-- A bound that no timestamp can meet, and that chrono does not represent. -/
def Beyond (q : TraceListQuery) : Prop :=
  (∃ ms ∈ q.fromMs, 8210266876799999 < ms.toInt) ∨ ∃ ms ∈ q.toMs, ms.toInt < -8334601228800000

variable {q : TraceListQuery} {r : TraceRow} {scan : List TraceRow}

theorem not_asks_of_beyond (h : q.Beyond) : ¬ q.Asks r := by
  rintro hasks
  rcases h with ⟨ms, hms, hlt⟩ | ⟨ms, hms, hlt⟩
  · have hle := Int64.le_iff_toInt_le.1 (hasks.fromMs ms hms)
    exact absurd (hle.trans r.txnTime.inRange.2) (not_le.2 hlt)
  · have hle := Int64.le_iff_toInt_le.1 (hasks.toMs ms hms)
    exact absurd (r.txnTime.inRange.1.trans hle) (not_le.2 hlt)

/-- A bound that can be met is kept, or is met by every timestamp. -/
theorem all_ofMillis_iff {o : Option Int64} {P : Int64 → Prop} [DecidablePred P]
    (h : ∀ ms ∈ o, DateTime.ofMillis ms = none → P ms) :
    (o.bind DateTime.ofMillis).all (fun t => decide (P t.millis)) = true ↔ ∀ ms ∈ o, P ms := by
  cases o with
  | none => simp
  | some ms =>
    cases ht : DateTime.ofMillis ms with
    | none =>
      simp only [Option.bind_some, ht, Option.all_none, true_iff]
      intro l hl
      exact h l hl (Option.some.inj hl ▸ ht)
    | some t =>
      simp [ht, DateTime.ofMillis_eq_some ht]

/-- Off the bounds that cannot be met, a row is selected if it is asked for by its status. -/
theorem selects_iff (h : ¬ q.Beyond) :
    q.selects r = true ↔ q.Asks r ∧ ∀ s ∈ q.status, r.verificationStatus.display = s := by
  have hrange := r.txnTime.inRange
  have hfrom : ∀ ms ∈ q.fromMs, DateTime.ofMillis ms = none → ms ≤ r.txnTime.millis := by
    intro ms hms hnone
    have hout : ¬ (-8334601228800000 ≤ ms.toInt ∧ ms.toInt ≤ 8210266876799999) := by
      intro hin
      rw [DateTime.ofMillis, dif_pos hin] at hnone
      exact absurd hnone (by simp)
    have hle : ms.toInt ≤ 8210266876799999 := not_lt.1 fun hlt => h (Or.inl ⟨ms, hms, hlt⟩)
    rw [Int64.le_iff_toInt_le]
    omega
  have hto : ∀ ms ∈ q.toMs, DateTime.ofMillis ms = none → r.txnTime.millis ≤ ms := by
    intro ms hms hnone
    have hout : ¬ (-8334601228800000 ≤ ms.toInt ∧ ms.toInt ≤ 8210266876799999) := by
      intro hin
      rw [DateTime.ofMillis, dif_pos hin] at hnone
      exact absurd hnone (by simp)
    have hle : -8334601228800000 ≤ ms.toInt := not_lt.1 fun hlt => h (Or.inr ⟨ms, hms, hlt⟩)
    rw [Int64.le_iff_toInt_le]
    omega
  have hagent : q.agentId.all (fun id => decide (r.agentId = some id)) = true
      ↔ ∀ id ∈ q.agentId, r.agentId = some id := by simp [Option.all_eq_true]
  have hstatus : q.status.all (fun s => decide (r.verificationStatus.display = s)) = true
      ↔ ∀ s ∈ q.status, r.verificationStatus.display = s := by simp [Option.all_eq_true]
  rw [selects, Bool.and_eq_true, Bool.and_eq_true, Bool.and_eq_true, hagent, hstatus,
    all_ofMillis_iff (P := fun ms => ms ≤ r.txnTime.millis) hfrom,
    all_ofMillis_iff (P := fun ms => r.txnTime.millis ≤ ms) hto]
  constructor
  · rintro ⟨⟨⟨hid, hlow⟩, hhigh⟩, hs⟩
    exact ⟨⟨hid, hlow, hhigh, fun s h => Or.inl (hs s h)⟩, hs⟩
  · rintro ⟨hasks, hs⟩
    exact ⟨⟨⟨hasks.agentId, hasks.fromMs⟩, hasks.toMs⟩, hs⟩

theorem mem_rows (h : r ∈ q.rows scan) : r ∈ scan ∧ q.selects r = true := by
  have hsorted := (List.mergeSort_perm _ _).mem_iff.1 (List.mem_of_mem_take h)
  exact List.mem_filter.1 hsorted

/-- The answer is sorted, newest first, and what the limit cuts off is no newer. -/
theorem rows_newest (q : TraceListQuery) (scan : List TraceRow) :
    (q.rows scan).Pairwise (fun a b => b.txnMicros ≤ a.txnMicros) ∧
      ∀ a ∈ q.rows scan, ∀ b ∈ scan, q.selects b = true → b ∉ q.rows scan →
        b.txnMicros ≤ a.txnMicros := by
  have hsorted : ((scan.filter q.selects).mergeSort fun a b => txnLe b a).Pairwise
      (fun a b => b.txnMicros ≤ a.txnMicros) := by
    refine (List.pairwise_mergeSort ?_ ?_ _).imp fun h => of_decide_eq_true h
    · intro a b c hab hbc
      exact decide_eq_true ((of_decide_eq_true hbc).trans (of_decide_eq_true hab))
    · intro a b
      simpa [txnLe] using le_total b.txnMicros a.txnMicros
  refine ⟨hsorted.sublist (List.take_sublist _ _), fun a ha b hb hselects hout => ?_⟩
  have hmem : b ∈ (scan.filter q.selects).mergeSort fun a b => txnLe b a :=
    (List.mergeSort_perm _ _).mem_iff.2 (List.mem_filter.2 ⟨hb, hselects⟩)
  rw [← List.take_append_drop q.limitValue.toInt.toNat
    ((scan.filter q.selects).mergeSort fun a b => txnLe b a)] at hsorted hmem
  rcases List.mem_append.1 hmem with hin | hdropped
  · exact absurd hin hout
  · exact (List.pairwise_append.1 hsorted).2.2 a ha b hdropped

/-- Everything that is selected is in the answer if the limit leaves room for it. -/
theorem mem_rows_of_le (hle : scan.countP q.selects ≤ q.limitValue.toInt.toNat) (hr : r ∈ scan)
    (hselects : q.selects r = true) : r ∈ q.rows scan := by
  have hall : q.rows scan = (scan.filter q.selects).mergeSort fun a b => txnLe b a := by
    rw [rows, List.take_of_length_le]
    rwa [List.length_mergeSort, ← List.countP_eq_length_filter]
  rw [hall]
  exact (List.mergeSort_perm _ _).mem_iff.2 (List.mem_filter.2 ⟨hr, hselects⟩)

/-- Otherwise something is left out. -/
theorem exists_left_out (hnodup : scan.Nodup)
    (hlt : q.limitValue.toInt.toNat < scan.countP q.selects) :
    ∃ b ∈ scan, q.selects b = true ∧ b ∉ q.rows scan := by
  have hperm := List.mergeSort_perm (scan.filter q.selects) fun a b => txnLe b a
  have hsorted : ((scan.filter q.selects).mergeSort fun a b => txnLe b a).Nodup :=
    hperm.nodup_iff.2 (hnodup.filter _)
  have hlength : q.limitValue.toInt.toNat
      < ((scan.filter q.selects).mergeSort fun a b => txnLe b a).length := by
    rwa [hperm.length_eq, ← List.countP_eq_length_filter]
  have hmem := List.getElem_mem hlength
  refine ⟨_, (List.mem_filter.1 (hperm.mem_iff.1 hmem)).1,
    (List.mem_filter.1 (hperm.mem_iff.1 hmem)).2, fun hin => ?_⟩
  -- the first row behind the limit is not in front of it as well
  obtain ⟨i, hi, heq⟩ := List.mem_take_iff_getElem.1 hin
  have hsame := (hsorted.getElem_inj_iff).1 heq
  omega

/-- No status of a trace is `SHADOW_HALTED`. -/
theorem display_ne_shadowHalted (v : VerificationStatus) : v.display ≠ "SHADOW_HALTED" := by
  cases v <;> decide

/-- When the answer has exactly the rows that are asked for. -/
theorem rows_exact_iff (hnodup : scan.Nodup) :
    (∀ r ∈ scan, r ∈ q.rows scan ↔ q.Asks r) ↔
      (q.Beyond → q.rows scan = []) ∧ (¬ q.Beyond →
        scan.countP q.selects ≤ q.limitValue.toInt.toNat ∧
          ∀ r ∈ scan, q.Asks r → q.status ≠ some "SHADOW_HALTED") := by
  by_cases hbeyond : q.Beyond
  · simp only [hbeyond, forall_const, not_true_eq_false, false_implies, and_true]
    constructor
    · intro hexact
      rw [List.eq_nil_iff_forall_not_mem]
      intro r hr
      exact not_asks_of_beyond hbeyond ((hexact r (mem_rows hr).1).1 hr)
    · intro hnil r _
      rw [hnil]
      exact iff_of_false List.not_mem_nil (not_asks_of_beyond hbeyond)
  · simp only [hbeyond, false_implies, not_false_eq_true, forall_const, true_and]
    constructor
    · intro hexact
      refine ⟨?_, fun r hr hasks hstatus => ?_⟩
      · by_contra hgt
        obtain ⟨b, hb, hselects, hout⟩ := exists_left_out hnodup (not_le.1 hgt)
        exact hout ((hexact b hb).2 ((selects_iff hbeyond).1 hselects).1)
      · have hselects := (mem_rows ((hexact r hr).2 hasks)).2
        exact display_ne_shadowHalted _ (((selects_iff hbeyond).1 hselects).2 _ hstatus)
    · rintro ⟨hle, hshadow⟩ r hr
      constructor
      · intro hin
        exact ((selects_iff hbeyond).1 (mem_rows hin).2).1
      · intro hasks
        refine mem_rows_of_le hle hr ((selects_iff hbeyond).2 ⟨hasks, fun s hs => ?_⟩)
        rcases hasks.status s hs with h | ⟨rfl, -⟩
        · exact h
        · exact absurd hs (hshadow r hr hasks)

end TraceListQuery

/-! ## The answer -/

variable {K : Crates} {float8 : ℚ → F64}

/-- A row is recognised by what the list shows of it. -/
theorem listed_traceId {a b : TraceRow} (h : a.listed K float8 = b.listed K float8) :
    a.traceId = b.traceId := by
  have hget : ∀ r : TraceRow, (r.listed K float8).get? "trace_id"
    = some (.str r.traceId.toText) := by
    intro r
    exact Json.get?_normalize (by simp) List.mem_cons_self
  have hid := (hget a).symm.trans ((congrArg (Json.get? "trace_id") h).trans (hget b))
  exact Uuid.toText_injective (Json.str.inj (Option.some.inj hid))

theorem listTraces_ok {q : TraceListQuery} {scan : List TraceRow} {js : List Json}
    (h : listTraces K float8 q scan = .ok js) :
    js = (q.rows scan).map (TraceRow.listed K float8) := by
  unfold listTraces at h
  split_ifs at h
  exact (Except.ok.inj h).symm

/-- **When the list is what the query asks for**: in every reachable state, and in whatever order
the database scans the table, exactly the traces that are asked for are listed if and only if the
limit leaves room for all of them and none is asked for as `SHADOW_HALTED`.  A bound that no
timestamp can meet is dropped, so that then nothing may be listed; a bound that every timestamp
meets is dropped harmlessly. -/
theorem trace_list_exact_iff {D : Deployment} {s : System} (hreach : Reachable D s)
    {scan : List TraceRow} (hscan : scan.Perm s.traces) {q : TraceListQuery} {js : List Json}
    (h : listTraces K float8 q scan = .ok js) :
    (∀ r ∈ s.traces, r.listed K float8 ∈ js ↔ q.Asks r) ↔
      (q.Beyond → js = []) ∧ (¬ q.Beyond →
        s.traces.countP q.selects ≤ q.limitValue.toInt.toNat ∧
          ∀ r ∈ s.traces, q.Asks r → q.status ≠ some "SHADOW_HALTED") := by
  obtain rfl := listTraces_ok h
  have hids : (scan.map TraceRow.traceId).Nodup :=
    (hscan.map TraceRow.traceId).nodup_iff.2 (uniqueIds_of_reachable hreach)
  have hlisted : ∀ r ∈ s.traces, r.listed K float8 ∈ (q.rows scan).map (TraceRow.listed K float8) ↔
      r ∈ q.rows scan := by
    intro r hr
    refine ⟨fun hin => ?_, fun hin => List.mem_map_of_mem hin⟩
    obtain ⟨r', hr', heq⟩ := List.mem_map.1 hin
    have hscanned := (TraceListQuery.mem_rows hr').1
    have hsame := Table.rowOf_of_mem hids hscanned
    rw [listed_traceId heq, Table.rowOf_of_mem hids (hscan.mem_iff.2 hr)] at hsame
    exact Option.some.inj hsame ▸ hr'
  rw [List.map_eq_nil_iff, ← hscan.countP_eq]
  have hexact := TraceListQuery.rows_exact_iff (q := q) (List.Nodup.of_map _ hids)
  constructor
  · intro hall
    obtain ⟨hbeyond, hwithin⟩ := hexact.1 fun r hr =>
      (hlisted r (hscan.mem_iff.1 hr)).symm.trans (hall r (hscan.mem_iff.1 hr))
    exact ⟨hbeyond, fun hb => ⟨(hwithin hb).1, fun r hr => (hwithin hb).2 r (hscan.mem_iff.2 hr)⟩⟩
  · rintro ⟨hbeyond, hwithin⟩ r hr
    refine (hlisted r hr).trans (hexact.2 ⟨hbeyond, fun hb => ?_⟩ r (hscan.mem_iff.2 hr))
    exact ⟨(hwithin hb).1, fun r hr => (hwithin hb).2 r (hscan.mem_iff.1 hr)⟩

/-- The expired traces of a table with one. -/
theorem trace_list_exact_iff_expired :
    (∀ r ∈ [expiredRow], r.listed .parsing (fun _ => F64.one)
        ∈ [expiredRow.listed .parsing fun _ => F64.one] ↔
      TraceListQuery.Asks ⟨none, none, none, some "EXPIRED", none⟩ r) ↔
      (TraceListQuery.Beyond ⟨none, none, none, some "EXPIRED", none⟩ →
        [expiredRow.listed .parsing fun _ => F64.one] = []) ∧
      (¬ TraceListQuery.Beyond ⟨none, none, none, some "EXPIRED", none⟩ →
        [expiredRow].countP (TraceListQuery.selects ⟨none, none, none, some "EXPIRED", none⟩)
            ≤ (TraceListQuery.limitValue ⟨none, none, none, some "EXPIRED", none⟩).toInt.toNat ∧
          ∀ r ∈ [expiredRow], TraceListQuery.Asks ⟨none, none, none, some "EXPIRED", none⟩ r →
            some "EXPIRED" ≠ some "SHADOW_HALTED") := by
  have hselects : TraceListQuery.selects ⟨none, none, none, some "EXPIRED", none⟩
    expiredRow = true :=
    rfl
  have hlist : listTraces .parsing (fun _ => F64.one) ⟨none, none, none, some "EXPIRED", none⟩
      [expiredRow] = .ok [expiredRow.listed .parsing fun _ => F64.one] := by
    rw [listTraces, if_neg (by decide), TraceListQuery.rows,
      List.filter_cons_of_pos hselects, List.filter_nil, List.mergeSort_singleton]
    rfl
  exact trace_list_exact_iff (D := VaultSetup.sample.D) (reachable_of_run run_orphan)
    (List.Perm.refl _) hlist

end IrlEngine
