import IrlEngine.Lifecycle

/-!
# Concurrent portfolio checks

`insert_trace_atomic` as the four steps of its transaction: take the advisory lock of
the agent, read the pending sum and compare it with the cap, insert the row, commit.
A `Pool` interleaves any number of such transactions with each other and with
statements of other connections.  Of the database it is assumed that an advisory lock
is held by at most one transaction until that one ends, and that a statement sees the
rows committed before it.

The transactions behave like calls of the atomic function `insertTraceAtomic`, each
made when its transaction reads the pending sum (`portfolio_serializable`).  Until it
commits, a row counts for the check but cannot be seen by a sweep; this is why no
placement of the calls among the other statements alone explains every run
(`portfolio_not_placeable`).
-/

namespace IrlEngine

/-! ## Transactions -/

/-- The number with the given bytes, the least significant one first. -/
def leNat : List UInt8 → ℕ
  | [] => 0
  | b :: bs => b.toNat + 256 * leNat bs

/-- `i64::from_le_bytes` of the first eight bytes of an agent id. -/
def advisoryKey (agentId : Uuid) : Int64 := (UInt64.ofNat (leNat (agentId.bytes.take 8))).toInt64

/-- How far a transaction has come. -/
inductive TxnPhase where
  /-- Begun, waiting for the lock. -/
  | begun
  | locked
  /-- The portfolio check is passed. -/
  | checked
  /-- The row is inserted and not yet committed. -/
  | inserted (row : TraceRow)
  | committed
  | rolledBack (e : AppError)

/-- A call of `insert_trace_atomic`. -/
structure Call where
  args : InsertArgs
  check : Option (ℚ × String)

/-- The id of the row that the call inserts. -/
def Call.traceId (c : Call) : Uuid := c.args.snapshot.traceId

/-- The advisory lock a call takes. -/
def Call.lockKey (c : Call) : Option Int64 := c.args.agentId.map advisoryKey

/-- A call in its transaction. -/
structure Txn where
  call : Call
  phase : TxnPhase

/-- Is the advisory lock held in this phase? -/
def TxnPhase.holds : TxnPhase → Bool
  | .locked => true
  | .checked => true
  | .inserted _ => true
  | _ => false

/-- Is the check passed and the row, if there is one, not yet committed? -/
def TxnPhase.isUncommitted : TxnPhase → Bool
  | .checked => true
  | .inserted _ => true
  | _ => false

/-- The transaction has committed or rolled back. -/
def TxnPhase.isOver : TxnPhase → Bool
  | .committed => true
  | .rolledBack _ => true
  | _ => false

/-- A statement of another connection, which commits at once. -/
inductive Statement where
  | updateBinding (result : BindExecutionResult) (req : BindExecutionRequest)
  | expirePending (nowMicros : ℤ)
  | insertTrace (a : InsertArgs)

/-- The rows after a statement that sees all of them. -/
def Statement.apply (K : Crates) (cfg : Config) : Statement → List TraceRow → List TraceRow
  | .updateBinding result req, t => IrlEngine.updateBinding t result req
  | .expirePending nowMicros, t => IrlEngine.expirePending cfg nowMicros t
  | .insertTrace a, t =>
    match IrlEngine.insertTrace K t a with
    | .ok t' => t'
    | .error _ => t

/-! ## The pool -/

/-- The committed rows and the transactions; `granted` records in which order they got
their locks. -/
structure Pool where
  table : List TraceRow
  txns : List Txn
  granted : List ℕ

/-- The pool before its first access. -/
def Pool.start (table : List TraceRow) (calls : List Call) : Pool :=
  ⟨table, calls.map fun c => ⟨c, .begun⟩, []⟩

/-- The accesses of the transactions, each named by its place, and the statements of others. -/
inductive PoolEvent where
  /-- `pg_advisory_xact_lock`. -/
  | lock (i : ℕ)
  /-- The pending sum and the comparison with the cap. -/
  | check (i : ℕ)
  | insert (i : ℕ)
  | commit (i : ℕ)
  | statement (st : Statement)

/-- Nobody holds the lock. -/
def Pool.isFree (s : Pool) (key : Int64) : Bool :=
  s.txns.all fun t => !t.phase.holds || t.call.lockKey ≠ some key

/-- The pool with one transaction in another phase. -/
def Pool.setPhase (s : Pool) (i : ℕ) (t : Txn) (p : TxnPhase) : Pool :=
  { s with txns := s.txns.set i { t with phase := p } }

@[simp] theorem Pool.setPhase_granted (s : Pool) (i : ℕ) (t : Txn) (p : TxnPhase) :
    (s.setPhase i t p).granted = s.granted := rfl

/-- Trace ids are fresh: an inserted row has the id of no other one. -/
def Statement.isFresh (s : Pool) : Statement → Bool
  | .insertTrace a => decide (a.snapshot.traceId ∉ s.table.map TraceRow.traceId ++
      s.txns.map fun t => t.call.traceId)
  | _ => true

/-- The step of an access. -/
def poolStep (K : Crates) (cfg : Config) (s : Pool) : PoolEvent → Option Pool
  | .lock i =>
    match s.txns[i]? with
    | some ⟨c, .begun⟩ =>
      if c.lockKey.all s.isFree then
        some { s.setPhase i ⟨c, .begun⟩ .locked with granted := s.granted ++ [i] }
      else none
    | _ => none
  | .check i =>
    match s.txns[i]? with
    | some ⟨c, .locked⟩ =>
      match capCheck s.table c.args c.check with
      | .ok () => some (s.setPhase i ⟨c, .locked⟩ .checked)
      | .error e => some (s.setPhase i ⟨c, .locked⟩ (.rolledBack e))
    | _ => none
  | .insert i =>
    match s.txns[i]? with
    | some ⟨c, .checked⟩ =>
      match traceRow K c.args with
      | .ok r => some (s.setPhase i ⟨c, .checked⟩ (.inserted r))
      | .error e => some (s.setPhase i ⟨c, .checked⟩ (.rolledBack e))
    | _ => none
  | .commit i =>
    match s.txns[i]? with
    | some ⟨c, .inserted r⟩ =>
      some { s.setPhase i ⟨c, .inserted r⟩ .committed with table := s.table ++ [r] }
    | _ => none
  | .statement st =>
    if st.isFresh s then some { s with table := st.apply K cfg s.table } else none

/-- Everything a step of the pool can do. -/
inductive PoolChange (K : Crates) (cfg : Config) (s : Pool) : PoolEvent → Pool → Prop where
  | lock (i : ℕ) (c : Call) (ht : s.txns[i]? = some ⟨c, .begun⟩)
      (hfree : ∀ k, c.lockKey = some k → s.isFree k = true) :
      PoolChange K cfg s (.lock i)
        { s.setPhase i ⟨c, .begun⟩ .locked with granted := s.granted ++ [i] }
  | pass (i : ℕ) (c : Call) (ht : s.txns[i]? = some ⟨c, .locked⟩)
      (hcheck : capCheck s.table c.args c.check = .ok ()) :
      PoolChange K cfg s (.check i) (s.setPhase i ⟨c, .locked⟩ .checked)
  | reject (i : ℕ) (c : Call) (ht : s.txns[i]? = some ⟨c, .locked⟩) (e : AppError)
      (hcheck : capCheck s.table c.args c.check = .error e) :
      PoolChange K cfg s (.check i) (s.setPhase i ⟨c, .locked⟩ (.rolledBack e))
  | insert (i : ℕ) (c : Call) (ht : s.txns[i]? = some ⟨c, .checked⟩) (r : TraceRow)
      (hrow : traceRow K c.args = .ok r) :
      PoolChange K cfg s (.insert i) (s.setPhase i ⟨c, .checked⟩ (.inserted r))
  | fail (i : ℕ) (c : Call) (ht : s.txns[i]? = some ⟨c, .checked⟩) (e : AppError)
      (hrow : traceRow K c.args = .error e) :
      PoolChange K cfg s (.insert i) (s.setPhase i ⟨c, .checked⟩ (.rolledBack e))
  | commit (i : ℕ) (c : Call) (r : TraceRow) (ht : s.txns[i]? = some ⟨c, .inserted r⟩) :
      PoolChange K cfg s (.commit i)
        { s.setPhase i ⟨c, .inserted r⟩ .committed with table := s.table ++ [r] }
  | statement (st : Statement) (hfresh : st.isFresh s = true) :
      PoolChange K cfg s (.statement st) { s with table := st.apply K cfg s.table }

theorem poolChange_of_step {K : Crates} {cfg : Config} {s s' : Pool} {e : PoolEvent}
    (h : poolStep K cfg s e = some s') : PoolChange K cfg s e s' := by
  cases e with
  | lock i =>
    simp only [poolStep] at h
    split at h
    · rename_i c ht
      split at h
      · rename_i hfree
        rw [← Option.some.inj h]
        refine .lock i c ht fun k hk => ?_
        rw [hk] at hfree
        exact hfree
      · exact absurd h (by simp)
    · exact absurd h (by simp)
  | check i =>
    simp only [poolStep] at h
    split at h
    · rename_i c ht
      split at h
      · rename_i hcheck
        rw [← Option.some.inj h]
        exact .pass i c ht hcheck
      · rename_i e hcheck
        rw [← Option.some.inj h]
        exact .reject i c ht e hcheck
    · exact absurd h (by simp)
  | insert i =>
    simp only [poolStep] at h
    split at h
    · rename_i c ht
      split at h
      · rename_i r hrow
        rw [← Option.some.inj h]
        exact .insert i c ht r hrow
      · rename_i e hrow
        rw [← Option.some.inj h]
        exact .fail i c ht e hrow
    · exact absurd h (by simp)
  | commit i =>
    simp only [poolStep] at h
    split at h
    · rename_i c r ht
      rw [← Option.some.inj h]
      exact .commit i c r ht
    · exact absurd h (by simp)
  | statement st =>
    simp only [poolStep] at h
    split at h
    · rename_i hfresh
      rw [← Option.some.inj h]
      exact .statement st hfresh
    · exact absurd h (by simp)

/-! ## One call at a time -/

/-- A table and the decisions of the calls made so far. -/
structure Serial where
  table : List TraceRow
  decisions : List (ℕ × Except AppError Unit)

/-- A call with nothing in between, or a statement. -/
inductive SerialOp where
  | call (i : ℕ) (c : Call)
  /-- A statement that cannot see the rows with the given ids. -/
  | statement (hidden : List Uuid) (st : Statement)

/-- The rows after a statement that does not see those with the given ids. -/
def Statement.applyVisible (K : Crates) (cfg : Config) (hidden : List Uuid) (st : Statement)
    (t : List TraceRow) : List TraceRow :=
  st.apply K cfg (t.filter fun r => r.traceId ∉ hidden) ++ t.filter fun r => r.traceId ∈ hidden

/-- What an operation does. -/
def serialStep (K : Crates) (cfg : Config) (S : Serial) : SerialOp → Serial
  | .call i c =>
    match insertTraceAtomic K S.table c.args c.check with
    | .ok t => ⟨t, S.decisions ++ [(i, .ok ())]⟩
    | .error e => ⟨S.table, S.decisions ++ [(i, .error e)]⟩
  | .statement hidden st => { S with table := st.applyVisible K cfg hidden S.table }

/-- Operations one after the other. -/
def serialRun (K : Crates) (cfg : Config) (S : Serial) (ops : List SerialOp) : Serial :=
  ops.foldl (serialStep K cfg) S

/-- The ids of the rows that are not yet committed. -/
def Pool.uncommitted (s : Pool) : List Uuid :=
  (s.txns.filter fun t => t.phase.isUncommitted).map fun t => t.call.traceId

/-- What a step of the pool is in the serial run: a transaction makes its call when it
checks, and a statement stays where it is. -/
def Pool.ops (s : Pool) : PoolEvent → List SerialOp
  | .check i => (s.txns[i]?.map fun t => SerialOp.call i t.call).toList
  | .statement st => [.statement s.uncommitted st]
  | _ => []

/-- The serial run of a list of pool steps. -/
def serialOps (K : Crates) (cfg : Config) : Pool → List PoolEvent → List SerialOp
  | _, [] => []
  | s, e :: es =>
    s.ops e ++
      match poolStep K cfg s e with
      | some t => serialOps K cfg t es
      | none => []

/-! ## Locks -/

/-- A lock is held by one transaction at a time. -/
def Exclusive (s : Pool) : Prop :=
  ∀ (i j : ℕ) (t u : Txn) (k : Int64), s.txns[i]? = some t → s.txns[j]? = some u →
    t.phase.holds = true → u.phase.holds = true → t.call.lockKey = some k →
    u.call.lockKey = some k → i = j

theorem not_isFree {s : Pool} {j : ℕ} {u : Txn} (hu : s.txns[j]? = some u)
    (hholds : u.phase.holds = true) {k : Int64} (hk : u.call.lockKey = some k) :
    s.isFree k ≠ true := by
  intro hfree
  have := List.all_eq_true.1 hfree u (List.mem_of_getElem? hu)
  simp [hholds, hk] at this

/-- A transaction may take a lock that is free, and keep the one it has. -/
theorem exclusive_setPhase {s : Pool} (hs : Exclusive s) {i : ℕ} {t : Txn} {p : TxnPhase}
    (ht : s.txns[i]? = some t)
    (hp : p.holds = true → t.phase.holds = true ∨ ∀ k, t.call.lockKey = some k →
      s.isFree k = true) :
    Exclusive (s.setPhase i t p) := by
  -- the changed transaction against an old one
  have hnew : ∀ (j : ℕ) (u : Txn) (k : Int64), s.txns[j]? = some u → p.holds = true →
      u.phase.holds = true → t.call.lockKey = some k → u.call.lockKey = some k → i = j := by
    intro j u k hu hholds hu' hk hku
    rcases hp hholds with hold | hfree
    · exact hs i j t u k ht hu hold hu' hk hku
    · exact absurd (hfree k hk) (not_isFree hu hu' hku)
  intro a b u v k ha hb hu hv hku hkv
  rcases Table.getElem?_of_set ha with ⟨-, ha'⟩ | ⟨rfl, rfl⟩
  · rcases Table.getElem?_of_set hb with ⟨-, hb'⟩ | ⟨rfl, rfl⟩
    · exact hs a b u v k ha' hb' hu hv hku hkv
    · exact (hnew a u k ha' hv hu hkv hku).symm
  · rcases Table.getElem?_of_set hb with ⟨-, hb'⟩ | ⟨rfl, -⟩
    · exact hnew b v k hb' hu hv hku hkv
    · rfl

theorem exclusive_of_change {K : Crates} {cfg : Config} {s s' : Pool} {e : PoolEvent}
    (h : PoolChange K cfg s e s') (hs : Exclusive s) : Exclusive s' := by
  cases h with
  | lock i c ht hfree => exact exclusive_setPhase hs ht fun _ => Or.inr hfree
  | pass i c ht _ => exact exclusive_setPhase hs ht fun _ => Or.inl rfl
  | reject i c ht e _ => exact exclusive_setPhase hs ht fun h => absurd h (by simp [TxnPhase.holds])
  | insert i c ht r _ => exact exclusive_setPhase hs ht fun _ => Or.inl rfl
  | fail i c ht e _ => exact exclusive_setPhase hs ht fun h => absurd h (by simp [TxnPhase.holds])
  | commit i c r ht => exact exclusive_setPhase hs ht fun h => absurd h (by simp [TxnPhase.holds])
  | statement st _ => exact hs

/-! ## Rows that are not yet committed -/

/-- The row that a transaction is going to commit. -/
def Txn.pendingRow (K : Crates) (t : Txn) : Option TraceRow :=
  match t.phase with
  | .checked => (traceRow K t.call.args).toOption
  | .inserted r => some r
  | _ => none

/-- The rows that transactions have inserted and not committed. -/
def Pool.pendingRows (K : Crates) (s : Pool) : List TraceRow := s.txns.filterMap (Txn.pendingRow K)

/-- An inserted row is the one that its call builds. -/
def RowsBuilt (K : Crates) (s : Pool) : Prop :=
  ∀ t ∈ s.txns, ∀ r, t.phase = .inserted r → traceRow K t.call.args = .ok r

theorem rowsBuilt_of_change {K : Crates} {cfg : Config} {s s' : Pool} {e : PoolEvent}
    (h : PoolChange K cfg s e s') (hs : RowsBuilt K s) : RowsBuilt K s' := by
  have hset : ∀ (i : ℕ) (t : Txn) (p : TxnPhase),
      (∀ r, p = .inserted r → traceRow K t.call.args = .ok r) → RowsBuilt K (s.setPhase i t p) := by
    intro i t p hp u hu r hr
    rcases List.mem_or_eq_of_mem_set hu with hu | rfl
    · exact hs u hu r hr
    · exact hp r hr
  cases h with
  | lock i c _ _ => exact hset i _ _ fun r hr => absurd hr (by simp)
  | pass i c _ _ => exact hset i _ _ fun r hr => absurd hr (by simp)
  | reject i c _ e _ => exact hset i _ _ fun r hr => absurd hr (by simp)
  | insert i c _ q hrow =>
    refine hset i _ _ fun r hr => ?_
    rw [TxnPhase.inserted.inj hr] at hrow
    exact hrow
  | fail i c _ e _ => exact hset i _ _ fun r hr => absurd hr (by simp)
  | commit i c q _ => exact hset i _ _ fun r hr => absurd hr (by simp)
  | statement st _ => exact hs

theorem mem_pendingRows {K : Crates} {s : Pool} (hs : RowsBuilt K s) {r : TraceRow}
    (hr : r ∈ s.pendingRows K) :
    ∃ t ∈ s.txns, t.phase.isUncommitted = true ∧ traceRow K t.call.args = .ok r := by
  obtain ⟨t, ht, hrow⟩ := List.mem_filterMap.1 hr
  refine ⟨t, ht, ?_⟩
  unfold Txn.pendingRow at hrow
  cases hphase : t.phase with
  | checked =>
    rw [hphase] at hrow
    cases hbuilt : traceRow K t.call.args with
    | error e => rw [hbuilt] at hrow; exact absurd hrow (by simp [Except.toOption])
    | ok q =>
      rw [hbuilt] at hrow
      exact ⟨rfl, congrArg _ (Option.some.inj hrow)⟩
  | inserted q =>
    rw [hphase] at hrow
    obtain rfl := Option.some.inj hrow
    exact ⟨rfl, hs t ht q hphase⟩
  | begun => rw [hphase] at hrow; exact absurd hrow (by simp)
  | locked => rw [hphase] at hrow; exact absurd hrow (by simp)
  | committed => rw [hphase] at hrow; exact absurd hrow (by simp)
  | rolledBack e => rw [hphase] at hrow; exact absurd hrow (by simp)

theorem holds_of_isUncommitted {p : TxnPhase} (h : p.isUncommitted = true) : p.holds = true := by
  cases p with
  | checked => rfl
  | inserted r => rfl
  | _ => exact absurd h (by simp [TxnPhase.isUncommitted])

/-- The transactions keep their calls, and a trace id is committed by its own
transaction only. -/
structure Distinct (calls : List Call) (s : Pool) : Prop where
  calls_eq : s.txns.map Txn.call = calls
  nodup : (calls.map Call.traceId).Nodup
  fresh : ∀ t ∈ s.txns, t.phase ≠ .committed → t.call.traceId ∉ s.table.map TraceRow.traceId

/-- A trace id names its transaction. -/
theorem Distinct.index_eq {calls : List Call} {s : Pool} (hs : Distinct calls s)
    {i j : ℕ} {t u : Txn} (ht : s.txns[i]? = some t) (hu : s.txns[j]? = some u)
    (hid : t.call.traceId = u.call.traceId) : i = j := by
  have hids : ∀ (k : ℕ) (t : Txn), s.txns[k]? = some t →
      (calls.map Call.traceId)[k]? = some t.call.traceId := by
    intro k t ht
    rw [← hs.calls_eq, List.getElem?_map, List.getElem?_map, ht]
    rfl
  refine (List.getElem?_inj (List.getElem?_eq_some_iff.1 (hids i t ht)).1 hs.nodup).1 ?_
  rw [hids i t ht, hids j u hu, hid]

theorem Statement.mem_apply {K : Crates} {cfg : Config} {st : Statement} {t : List TraceRow}
    {r : TraceRow} (hr : r ∈ st.apply K cfg t) :
    r.traceId ∈ t.map TraceRow.traceId ∨ ∃ a, st = .insertTrace a ∧
      r.traceId = a.snapshot.traceId := by
  have hkeep : ∀ {p : TraceRow → Bool} {f : TraceRow → TraceRow}, (∀ r, (f r).traceId = r.traceId) →
      r ∈ Table.updateWhere p f t → r.traceId ∈ t.map TraceRow.traceId := by
    intro p f hf hr
    rw [← Table.map_updateWhere (p := p) hf]
    exact List.mem_map_of_mem hr
  cases st with
  | updateBinding result req =>
    have hr : r ∈ IrlEngine.updateBinding t result req := hr
    exact Or.inl (hkeep (fun r => r.bindTo_traceId result req) hr)
  | expirePending now =>
    have hr : r ∈ IrlEngine.expirePending cfg now t := hr
    unfold IrlEngine.expirePending at hr
    exact Or.inl (hkeep (fun _ => by rfl) hr)
  | insertTrace a =>
    simp only [Statement.apply] at hr
    split at hr
    · rename_i t' ht'
      obtain ⟨q, hq, rfl⟩ := insertTrace_ok ht'
      rcases List.mem_append.1 hr with hr | hr
      · exact Or.inl (List.mem_map_of_mem hr)
      · rw [List.mem_singleton.1 hr]
        exact Or.inr ⟨a, rfl, traceRow_traceId hq⟩
    · exact Or.inl (List.mem_map_of_mem hr)

theorem distinct_of_change {K : Crates} {cfg : Config} {calls : List Call} {s s' : Pool}
    {e : PoolEvent} (h : PoolChange K cfg s e s') (hbuilt : RowsBuilt K s) (hs : Distinct calls s) :
    Distinct calls s' := by
  have hcalls : ∀ (i : ℕ) (t : Txn) (p : TxnPhase), s.txns[i]? = some t →
      (s.txns.set i { t with phase := p }).map Txn.call = calls := by
    intro i t p ht
    rw [← hs.calls_eq]
    exact Table.map_set_of_eq ht rfl
  have hset : ∀ (i : ℕ) (t : Txn) (p : TxnPhase), s.txns[i]? = some t → t.phase ≠ .committed →
      Distinct calls (s.setPhase i t p) := by
    intro i t p ht hphase
    refine ⟨hcalls i t p ht, hs.nodup, ?_⟩
    intro u hu hne
    rcases List.mem_or_eq_of_mem_set hu with hu | rfl
    · exact hs.fresh u hu hne
    · exact hs.fresh t (List.mem_of_getElem? ht) hphase
  cases h with
  | lock i c ht _ =>
    have := hset i _ .locked ht (by simp)
    exact ⟨this.calls_eq, this.nodup, this.fresh⟩
  | pass i c ht _ => exact hset i _ _ ht (by simp)
  | reject i c ht e _ => exact hset i _ _ ht (by simp)
  | insert i c ht r _ => exact hset i _ _ ht (by simp)
  | fail i c ht e _ => exact hset i _ _ ht (by simp)
  | commit i c r ht =>
    refine ⟨hcalls i _ _ ht, hs.nodup, ?_⟩
    have hrow := traceRow_traceId (hbuilt _ (List.mem_of_getElem? ht) r rfl)
    intro u hu hne
    show u.call.traceId ∉ (s.table ++ [r]).map TraceRow.traceId
    rw [List.map_append, List.map_singleton, List.mem_append, List.mem_singleton, hrow]
    obtain ⟨j, hj⟩ := List.mem_iff_getElem?.1 hu
    rcases Table.getElem?_of_set hj with ⟨hij, hj'⟩ | ⟨rfl, rfl⟩
    · rintro (hmem | heq)
      · exact hs.fresh u (List.mem_of_getElem? hj') hne hmem
      · exact hij (hs.index_eq hj' ht heq)
    · exact absurd rfl hne
  | statement st hfresh =>
    refine ⟨hs.calls_eq, hs.nodup, ?_⟩
    intro u hu hne hmem
    obtain ⟨r, hr, hid⟩ := List.mem_map.1 hmem
    rcases Statement.mem_apply hr with hold | ⟨a, rfl, ha⟩
    · exact hs.fresh u hu hne (hid ▸ hold)
    · simp only [Statement.isFresh, decide_eq_true_eq, List.mem_append, not_or] at hfresh
      exact hfresh.2 (List.mem_map.2 ⟨u, hu, by rw [← hid, ha]⟩)

/-! ## The pool follows its serial run -/

theorem Statement.apply_perm (K : Crates) (cfg : Config) (st : Statement) {t u : List TraceRow}
    (h : t.Perm u) : (st.apply K cfg t).Perm (st.apply K cfg u) := by
  cases st with
  | updateBinding result req => exact h.map _
  | expirePending now => exact h.map _
  | insertTrace a =>
    simp only [Statement.apply, IrlEngine.insertTrace]
    cases traceRow K a with
    | error e => exact h
    | ok r => exact h.append_right [r]

/-- The serial table holds the committed rows and those that are about to be. -/
def RowsAgree (K : Crates) (s : Pool) (S : Serial) : Prop :=
  S.table.Perm (s.table ++ s.pendingRows K)

/-- The step of a transaction that has the same row to commit before and after. -/
theorem pendingRows_setPhase {K : Crates} {s : Pool} {i : ℕ} {t : Txn} {p : TxnPhase}
    (ht : s.txns[i]? = some t) (hp : Txn.pendingRow K { t with phase := p } = t.pendingRow K) :
    ((s.setPhase i t p).pendingRows K).Perm (s.pendingRows K) := by
  have hperm := Table.filterMap_set_perm ht { t with phase := p } (Txn.pendingRow K)
  rw [hp] at hperm
  exact (List.perm_append_right_iff _).1 hperm

/-- No other transaction of the agent has a row to commit while one checks. -/
theorem pendingSum_pendingRows {K : Crates} {s : Pool} (hbuilt : RowsBuilt K s) (hs : Exclusive s)
    {i : ℕ} {c : Call} (ht : s.txns[i]? = some ⟨c, .locked⟩) {aid : Uuid}
    (haid : c.args.agentId = some aid) : pendingSum (s.pendingRows K) aid = 0 := by
  refine pendingSum_eq_zero fun r hr hagent => ?_
  obtain ⟨u, hu, hun, hrow⟩ := mem_pendingRows hbuilt hr
  obtain ⟨j, hj⟩ := List.mem_iff_getElem?.1 hu
  have hkey : c.lockKey = some (advisoryKey aid) := by rw [Call.lockKey, haid]; rfl
  have hkey' : u.call.lockKey = some (advisoryKey aid) := by
    rw [Call.lockKey, ← traceRow_agentId hrow, hagent]
    rfl
  obtain rfl := hs i j _ u _ ht hj rfl (holds_of_isUncommitted hun) hkey hkey'
  rw [ht, Option.some.injEq] at hj
  rw [← hj] at hun
  exact absurd hun (by simp [TxnPhase.isUncommitted])

/-- A transaction decides as the atomic call does. -/
theorem capCheck_serial {K : Crates} {s : Pool} {S : Serial} (hbuilt : RowsBuilt K s)
    (hs : Exclusive s) (hrows : RowsAgree K s S) {i : ℕ} {c : Call}
    (ht : s.txns[i]? = some ⟨c, .locked⟩) :
    capCheck S.table c.args c.check = capCheck s.table c.args c.check := by
  refine capCheck_congr (fun aid haid => ?_) c.check
  rw [pendingSum_perm hrows, pendingSum_append, pendingSum_pendingRows hbuilt hs ht haid, add_zero]

/-- The call that a transaction makes when it checks. -/
theorem serialRun_check {K : Crates} {cfg : Config} {s : Pool} {S : Serial} {i : ℕ} {c : Call}
    {p : TxnPhase} (ht : s.txns[i]? = some ⟨c, p⟩) :
    serialRun K cfg S (s.ops (.check i)) = serialStep K cfg S (.call i c) := by
  simp only [Pool.ops, ht]
  rfl

theorem rowsAgree_of_change {K : Crates} {cfg : Config} {calls : List Call}
    {s s' : Pool} {S : Serial}
    {e : PoolEvent} (h : PoolChange K cfg s e s') (hbuilt : RowsBuilt K s)
    (hdistinct : Distinct calls s) (hexcl : Exclusive s) (hrows : RowsAgree K s S) :
    RowsAgree K s' (serialRun K cfg S (s.ops e)) := by
  have hsame : ∀ {i : ℕ} {t : Txn} {p : TxnPhase}, s.txns[i]? = some t →
      Txn.pendingRow K { t with phase := p } = t.pendingRow K →
        RowsAgree K (s.setPhase i t p) S := by
    intro i t p ht hp
    exact hrows.trans ((pendingRows_setPhase ht hp).symm.append_left _)
  cases h with
  | lock i c ht _ => exact hsame ht rfl
  | reject i c ht e hcheck =>
    rw [serialRun_check ht]
    simp only [serialStep, insertTraceAtomic, capCheck_serial hbuilt hexcl hrows ht, hcheck]
    exact hsame ht rfl
  | pass i c ht hcheck =>
    rw [serialRun_check ht]
    simp only [serialStep, insertTraceAtomic, capCheck_serial hbuilt hexcl hrows ht,
      hcheck, insertTrace]
    cases hrow : traceRow K c.args with
    | error e => exact hsame ht (by simp [Txn.pendingRow, hrow, Except.toOption])
    | ok r =>
      -- the serial run has the row now, the pool when the transaction commits
      have hperm := Table.filterMap_set_perm ht ⟨c, .checked⟩ (Txn.pendingRow K)
      rw [show Txn.pendingRow K ⟨c, .locked⟩ = none from rfl,
        show Txn.pendingRow K ⟨c, .checked⟩ = some r by simp [Txn.pendingRow, hrow,
        Except.toOption], Option.toList_none, List.append_nil] at hperm
      refine (hrows.append_right [r]).trans ?_
      rw [List.append_assoc]
      exact hperm.symm.append_left _
  | insert i c ht r hrow => exact hsame ht (by simp [Txn.pendingRow, hrow, Except.toOption])
  | fail i c ht e hrow => exact hsame ht (by simp [Txn.pendingRow, hrow, Except.toOption])
  | commit i c r ht =>
    have hperm := Table.filterMap_set_perm ht ⟨c, .committed⟩ (Txn.pendingRow K)
    rw [show Txn.pendingRow K ⟨c, .committed⟩ = none from rfl, Option.toList_none,
      List.append_nil] at hperm
    refine hrows.trans ((hperm.symm.append_left s.table).trans ?_)
    show (s.table ++ (_ ++ [r])).Perm ((s.table ++ [r]) ++ _)
    rw [List.append_assoc]
    exact List.perm_append_comm.append_left _
  | statement st hfresh =>
    have htable : ∀ r ∈ s.table, r.traceId ∉ s.uncommitted := by
      intro r hr hmem
      obtain ⟨t, ht, hid⟩ := List.mem_map.1 hmem
      obtain ⟨ht, hun⟩ := List.mem_filter.1 ht
      refine hdistinct.fresh t ht ?_ (hid ▸ List.mem_map_of_mem hr)
      intro hcommitted
      rw [hcommitted] at hun
      exact absurd hun (by simp [TxnPhase.isUncommitted])
    have hpending : ∀ r ∈ s.pendingRows K, r.traceId ∈ s.uncommitted := by
      intro r hr
      obtain ⟨t, ht, hun, hrow⟩ := mem_pendingRows hbuilt hr
      exact List.mem_map.2 ⟨t, List.mem_filter.2 ⟨ht, hun⟩, (traceRow_traceId hrow).symm⟩
    -- the statement sees the committed rows and no others
    have hseen : (S.table.filter fun r => r.traceId ∉ s.uncommitted).Perm s.table := by
      refine (hrows.filter _).trans ?_
      rw [List.filter_append, List.filter_eq_self.2 (by simpa using htable),
        List.filter_eq_nil_iff.2 (by simpa using hpending), List.append_nil]
    have hhidden : (S.table.filter fun r => r.traceId ∈ s.uncommitted).Perm (s.pendingRows K) := by
      refine (hrows.filter _).trans ?_
      rw [List.filter_append, List.filter_eq_nil_iff.2 (by simpa using htable),
        List.filter_eq_self.2 (by simpa using hpending), List.nil_append]
    exact (st.apply_perm K cfg hseen).append hhidden

/-! ## Decisions and their order -/

/-- What a transaction has decided. -/
def Txn.decision (K : Crates) (t : Txn) : Option (Except AppError Unit) :=
  match t.phase with
  | .begun => none
  | .locked => none
  | .checked => some ((traceRow K t.call.args).map fun _ => ())
  | .inserted _ => some (.ok ())
  | .committed => some (.ok ())
  | .rolledBack e => some (.error e)

/-- The serial run has made the decisions of the transactions, one for each. -/
def DecisionsAgree (K : Crates) (s : Pool) (S : Serial) : Prop :=
  ∀ (i : ℕ) (t : Txn), s.txns[i]? = some t →
    (S.decisions.filter fun d => d.1 = i) = ((t.decision K).map fun d => (i, d)).toList

/-- What the atomic call decides when a transaction has passed the check. -/
theorem serialStep_pass {K : Crates} {cfg : Config} {S : Serial} {c : Call}
    (hcheck : capCheck S.table c.args c.check = .ok ()) (i : ℕ) :
    (serialStep K cfg S (.call i c)).decisions
      = S.decisions ++ [(i, (traceRow K c.args).map fun _ => ())] := by
  simp only [serialStep, insertTraceAtomic, hcheck, insertTrace]
  cases traceRow K c.args with
  | error e => rfl
  | ok r => rfl

theorem serialStep_reject {K : Crates} {cfg : Config} {S : Serial} {c : Call} {e : AppError}
    (hcheck : capCheck S.table c.args c.check = .error e) (i : ℕ) :
    (serialStep K cfg S (.call i c)).decisions = S.decisions ++ [(i, .error e)] := by
  simp only [serialStep, insertTraceAtomic, hcheck]

theorem decisionsAgree_of_change {K : Crates} {cfg : Config} {s s' : Pool} {S : Serial}
    {e : PoolEvent} (h : PoolChange K cfg s e s') (hbuilt : RowsBuilt K s) (hexcl : Exclusive s)
    (hrows : RowsAgree K s S) (hs : DecisionsAgree K s S) :
    DecisionsAgree K s' (serialRun K cfg S (s.ops e)) := by
  have hsame : ∀ {i : ℕ} {t : Txn} {p : TxnPhase}, s.txns[i]? = some t →
      Txn.decision K { t with phase := p } = t.decision K →
        DecisionsAgree K (s.setPhase i t p) S := by
    intro i t p ht hp j u hj
    rcases Table.getElem?_of_set hj with ⟨-, hj⟩ | ⟨rfl, rfl⟩
    · exact hs j u hj
    · rw [hp]
      exact hs j t ht
  have hdecide : ∀ {i : ℕ} {c : Call} {p : TxnPhase} {d : Except AppError Unit} {S' : Serial},
      s.txns[i]? = some ⟨c, .locked⟩ → Txn.decision K ⟨c, p⟩ = some d →
      S'.decisions = S.decisions ++ [(i, d)] →
        DecisionsAgree K (s.setPhase i ⟨c, .locked⟩ p) S' := by
    intro i c p d S' ht hp hS' j u hj
    rw [hS', List.filter_append]
    rcases Table.getElem?_of_set hj with ⟨hij, hj⟩ | ⟨rfl, rfl⟩
    · rw [hs j u hj]
      simp [hij.symm]
    · rw [hs j _ ht, hp]
      simp [Txn.decision]
  cases h with
  | lock i c ht _ => exact hsame ht rfl
  | pass i c ht hcheck =>
    rw [serialRun_check ht]
    exact hdecide ht rfl (serialStep_pass ((capCheck_serial hbuilt hexcl hrows ht).trans hcheck) i)
  | reject i c ht e hcheck =>
    rw [serialRun_check ht]
    exact hdecide ht rfl
      (serialStep_reject ((capCheck_serial hbuilt hexcl hrows ht).trans hcheck) i)
  | insert i c ht r hrow => exact hsame ht (by simp [Txn.decision, hrow, Except.map])
  | fail i c ht e hrow => exact hsame ht (by simp [Txn.decision, hrow, Except.map])
  | commit i c r ht => exact hsame ht rfl
  | statement st _ => exact hs

/-- Does the `i`-th call take this lock? -/
def takesLock (calls : List Call) (k : Int64) (i : ℕ) : Bool := calls[i]?.bind Call.lockKey = some k

/-- The transaction that has the lock and has not checked yet. -/
def Pool.Waits (s : Pool) (k : Int64) (i : ℕ) : Prop :=
  ∃ c, s.txns[i]? = some ⟨c, .locked⟩ ∧ c.lockKey = some k

/-- Lock by lock, the calls of the serial run are in the order in which the locks were
granted; at most one transaction is still to come. -/
def OrderAgrees (calls : List Call) (s : Pool) (S : Serial) : Prop :=
  ∀ k, (∃ i, s.Waits k i ∧ s.granted.filter (takesLock calls k)
        = (S.decisions.map Prod.fst).filter (takesLock calls k) ++ [i]) ∨
      (∀ i, ¬ s.Waits k i) ∧ s.granted.filter (takesLock calls k)
        = (S.decisions.map Prod.fst).filter (takesLock calls k)

theorem takesLock_of_txn {calls : List Call} {s : Pool} (hs : Distinct calls s) {i : ℕ} {t : Txn}
    (ht : s.txns[i]? = some t) (k : Int64) :
    takesLock calls k i = decide (t.call.lockKey = some k) := by
  have hcall : calls[i]? = some t.call := by
    rw [← hs.calls_eq, List.getElem?_map, ht]
    rfl
  rw [takesLock, hcall]
  rfl

/-- A transaction that takes another lock, or that neither gets the lock nor checks,
leaves the order as it is. -/
theorem waits_setPhase {s : Pool} {i : ℕ} {t : Txn} {p : TxnPhase} (ht : s.txns[i]? = some t)
    {k : Int64} (h : t.call.lockKey ≠ some k ∨ (t.phase ≠ .locked ∧ p ≠ .locked)) (j : ℕ) :
    (s.setPhase i t p).Waits k j ↔ s.Waits k j := by
  constructor
  · rintro ⟨c, hj, hk⟩
    rcases Table.getElem?_of_set hj with ⟨-, hj⟩ | ⟨rfl, heq⟩
    · exact ⟨c, hj, hk⟩
    · simp only [Txn.mk.injEq] at heq
      rcases h with hne | ⟨-, hne⟩
      · exact absurd (heq.1 ▸ hk) hne
      · exact absurd heq.2.symm hne
  · rintro ⟨c, hj, hk⟩
    have hij : i ≠ j := by
      rintro rfl
      rw [ht, Option.some.injEq] at hj
      subst hj
      rcases h with hne | ⟨hne, -⟩
      · exact hne hk
      · exact hne rfl
    exact ⟨c, (List.getElem?_set_ne hij).trans hj, hk⟩

theorem orderAgrees_of_change {K : Crates} {cfg : Config} {calls : List Call} {s s' : Pool}
    {S : Serial} {e : PoolEvent} (h : PoolChange K cfg s e s') (hdistinct : Distinct calls s)
    (hbuilt : RowsBuilt K s) (hexcl : Exclusive s) (hrows : RowsAgree K s S)
    (hs : OrderAgrees calls s S) : OrderAgrees calls s' (serialRun K cfg S (s.ops e)) := by
  have hkeep : ∀ {i : ℕ} {t : Txn} {p : TxnPhase}, s.txns[i]? = some t → t.phase ≠ .locked →
      p ≠ .locked → OrderAgrees calls (s.setPhase i t p) S := by
    intro i t p ht hphase hp k
    simp only [waits_setPhase ht (Or.inr ⟨hphase, hp⟩)]
    exact hs k
  have hdecide : ∀ {i : ℕ} {c : Call} {p : TxnPhase} {d : Except AppError Unit} {S' : Serial},
      s.txns[i]? = some ⟨c, .locked⟩ → p ≠ .locked → S'.decisions = S.decisions ++ [(i, d)] →
      OrderAgrees calls (s.setPhase i ⟨c, .locked⟩ p) S' := by
    intro i c p d S' ht hp hS' k
    rw [hS', List.map_append, List.filter_append]
    have htakes := takesLock_of_txn hdistinct ht k
    by_cases hk : c.lockKey = some k
    · -- the transaction that checks is the one that was to come
      have honly : ∀ j, s.Waits k j → j = i := by
        rintro j ⟨c', hj, hk'⟩
        exact hexcl j i _ _ k hj ht rfl rfl hk' hk
      refine Or.inr ⟨?_, ?_⟩
      · rintro j ⟨c', hj, hk'⟩
        rcases Table.getElem?_of_set hj with ⟨hij, hj⟩ | ⟨-, heq⟩
        · exact hij (honly j ⟨c', hj, hk'⟩)
        · simp only [Txn.mk.injEq] at heq
          exact hp heq.2.symm
      · rcases hs k with ⟨j, hj, hgranted⟩ | ⟨hnone, -⟩
        · obtain rfl := honly j hj
          rw [Pool.setPhase_granted, hgranted]
          simp [htakes, hk]
        · exact absurd ⟨c, ht, hk⟩ (hnone i)
    · simp only [waits_setPhase ht (p := p) (Or.inl hk)]
      simpa [htakes, hk] using hs k
  cases h with
  | lock i c ht hfree =>
    intro k
    have htakes := takesLock_of_txn hdistinct ht k
    show (∃ j, (s.setPhase i ⟨c, .begun⟩ .locked).Waits k j ∧ (s.granted ++ [i]).filter _ = _) ∨
      (∀ j, ¬ (s.setPhase i ⟨c, .begun⟩ .locked).Waits k j) ∧ (s.granted ++ [i]).filter _ = _
    rw [List.filter_append]
    by_cases hk : c.lockKey = some k
    · -- the lock was free, so nobody was to come
      refine Or.inl ⟨i, ⟨c, List.getElem?_set_self (List.getElem?_eq_some_iff.1 ht).1, hk⟩, ?_⟩
      rcases hs k with ⟨j, ⟨c', hj, hk'⟩, -⟩ | ⟨-, hgranted⟩
      · exact absurd (hfree k hk) (not_isFree hj rfl hk')
      · rw [hgranted]
        simp [htakes, hk, Pool.ops, serialRun]
    · simp only [waits_setPhase ht (p := .locked) (Or.inl hk)]
      simpa [htakes, hk, Pool.ops, serialRun] using hs k
  | pass i c ht hcheck =>
    rw [serialRun_check ht]
    exact hdecide ht (by simp)
      (serialStep_pass ((capCheck_serial hbuilt hexcl hrows ht).trans hcheck) i)
  | reject i c ht e hcheck =>
    rw [serialRun_check ht]
    exact hdecide ht (by simp)
      (serialStep_reject ((capCheck_serial hbuilt hexcl hrows ht).trans hcheck) i)
  | insert i c ht r _ => exact hkeep ht (by simp) (by simp)
  | fail i c ht e _ => exact hkeep ht (by simp) (by simp)
  | commit i c r ht => exact hkeep ht (by simp) (by simp)
  | statement st _ => exact hs

/-! ## Whole runs -/

/-- The relation between a pool and its serial run. -/
structure Follows (K : Crates) (calls : List Call) (s : Pool) (S : Serial) : Prop where
  distinct : Distinct calls s
  built : RowsBuilt K s
  exclusive : Exclusive s
  rows : RowsAgree K s S
  decisions : DecisionsAgree K s S
  order : OrderAgrees calls s S

theorem Follows.step {K : Crates} {cfg : Config} {calls : List Call} {s s' : Pool} {S : Serial}
    {e : PoolEvent} (hf : Follows K calls s S) (h : poolStep K cfg s e = some s') :
    Follows K calls s' (serialRun K cfg S (s.ops e)) := by
  have hc := poolChange_of_step h
  exact ⟨distinct_of_change hc hf.built hf.distinct, rowsBuilt_of_change hc hf.built,
    exclusive_of_change hc hf.exclusive,
    rowsAgree_of_change hc hf.built hf.distinct hf.exclusive hf.rows,
    decisionsAgree_of_change hc hf.built hf.exclusive hf.rows hf.decisions,
    orderAgrees_of_change hc hf.distinct hf.built hf.exclusive hf.rows hf.order⟩

theorem Follows.run {K : Crates} {cfg : Config} {calls : List Call} {s s' : Pool} {S : Serial}
    {es : List PoolEvent} (hf : Follows K calls s S) (h : Run.run (poolStep K cfg) s es = some s') :
    Follows K calls s' (serialRun K cfg S (serialOps K cfg s es)) := by
  induction es generalizing s S with
  | nil =>
    rw [Run.run_nil, Option.some.injEq] at h
    exact h ▸ hf
  | cons e es ih =>
    obtain ⟨t, ht, hrest⟩ := Run.run_cons_eq_some.1 h
    have hops : serialOps K cfg s (e :: es) = s.ops e ++ serialOps K cfg t es := by
      rw [serialOps, ht]
    rw [hops, serialRun, List.foldl_append]
    exact ih (hf.step ht) hrest

theorem follows_start {K : Crates} {table : List TraceRow} {calls : List Call}
    (hids : (table.map TraceRow.traceId ++ calls.map Call.traceId).Nodup) :
    Follows K calls (.start table calls) ⟨table, []⟩ := by
  have hbegun : ∀ (i : ℕ) (t : Txn), (Pool.start table calls).txns[i]? = some t →
    t.phase = .begun := by
    intro i t ht
    obtain ⟨c, -, rfl⟩ := List.mem_map.1 (List.mem_of_getElem? ht)
    rfl
  have hmem : ∀ t ∈ (Pool.start table calls).txns, t.phase = .begun := by
    intro t ht
    obtain ⟨i, hi⟩ := List.mem_iff_getElem?.1 ht
    exact hbegun i t hi
  rw [List.nodup_append] at hids
  refine ⟨⟨?_, hids.2.1, ?_⟩, ?_, ?_, ?_, ?_, ?_⟩
  · show (calls.map fun c => Txn.mk c .begun).map Txn.call = calls
    rw [List.map_map]
    exact List.map_id calls
  · intro t ht _ hcommitted
    obtain ⟨c, hc, rfl⟩ := List.mem_map.1 ht
    exact hids.2.2 _ hcommitted _ (List.mem_map_of_mem hc) rfl
  · intro t ht r hr
    rw [hmem t ht] at hr
    exact absurd hr (by simp)
  · intro i j t u k hi _ ht
    rw [hbegun i t hi] at ht
    exact absurd ht (by simp [TxnPhase.holds])
  · have hnone : (Pool.start table calls).pendingRows K = [] := by
      refine List.filterMap_eq_nil_iff.2 fun t ht => ?_
      rw [Txn.pendingRow, hmem t ht]
    rw [RowsAgree, hnone, List.append_nil]
    exact List.Perm.refl table
  · intro i t hi
    rw [Txn.decision, hbegun i t hi]
    rfl
  · intro k
    refine Or.inr ⟨?_, rfl⟩
    rintro i ⟨c, hi, -⟩
    exact absurd (hbegun i _ hi) (by simp)

/-- **The portfolio check is serializable.**  When all transactions are over, the serial
run, in which every transaction makes its atomic call when it reads the pending sum and
every other statement stays where it was, leaves the same rows, decides every call as
its transaction did, and makes the calls of each lock in the order in which the lock was
granted. -/
theorem portfolio_serializable (K : Crates) (cfg : Config) {table : List TraceRow}
    {calls : List Call}
    (hids : (table.map TraceRow.traceId ++ calls.map Call.traceId).Nodup) {es : List PoolEvent}
    {s : Pool} (hrun : Run.run (poolStep K cfg) (.start table calls) es = some s)
    (hover : ∀ t ∈ s.txns, t.phase.isOver = true) :
    let S := serialRun K cfg ⟨table, []⟩ (serialOps K cfg (.start table calls) es)
    S.table.Perm s.table ∧
    (∀ (i : ℕ) (t : Txn), s.txns[i]? = some t →
      ∃ d, t.decision K = some d ∧ (S.decisions.filter fun d => d.1 = i) = [(i, d)]) ∧
    ∀ k, (S.decisions.map Prod.fst).filter (takesLock calls k) = s.granted.filter
      (takesLock calls k) := by
  intro S
  have hf : Follows K calls s S := (follows_start hids).run hrun
  refine ⟨?_, ?_, ?_⟩
  · have hnone : s.pendingRows K = [] := by
      refine List.filterMap_eq_nil_iff.2 fun t ht => ?_
      have hphase := hover t ht
      unfold Txn.pendingRow
      split
      · rename_i hchecked
        rw [hchecked] at hphase
        exact absurd hphase (by simp [TxnPhase.isOver])
      · rename_i r hinserted
        rw [hinserted] at hphase
        exact absurd hphase (by simp [TxnPhase.isOver])
      · rfl
    have hrows := hf.rows
    rw [RowsAgree, hnone, List.append_nil] at hrows
    exact hrows
  · intro i t ht
    have hdecisions := hf.decisions i t ht
    have := hover t (List.mem_of_getElem? ht)
    cases hphase : t.phase with
    | committed =>
      have hd : t.decision K = some (.ok ()) := by rw [Txn.decision, hphase]
      exact ⟨_, hd, by rw [hdecisions, hd]; rfl⟩
    | rolledBack e =>
      have hd : t.decision K = some (.error e) := by rw [Txn.decision, hphase]
      exact ⟨_, hd, by rw [hdecisions, hd]; rfl⟩
    | _ => rw [hphase] at this; exact absurd this (by simp [TxnPhase.isOver])
  · intro k
    rcases hf.order k with ⟨i, ⟨c, hi, -⟩, -⟩ | ⟨-, hgranted⟩
    · exact absurd (hover _ (List.mem_of_getElem? hi)) (by simp [TxnPhase.isOver])
    · exact hgranted.symm

/-! ## A run that no placement of the calls explains -/

/-- A pending row of the sample agent, written at 1.5 s. -/
def seedRow (traceId : Uuid) (notional : F64) : TraceRow :=
  { sampleRow .sample traceId (.sample (.fill 1) (.custom "buy") notional) sampleDecision with
    txnTime := ⟨1500, by decide⟩ }

/-- A call for two units under a cap of two, with a clock reading of 2 ms. -/
def lateCall : Call :=
  ⟨sampleArgs .sample (.fill 5) (.sample (.fill 1) (.custom "buy") F64.two) sampleDecision,
    some (2, "EXPANSION")⟩

/-- The row of that call. -/
def lateRow : TraceRow :=
  sampleRow .sample (.fill 5) (.sample (.fill 1) (.custom "buy") F64.two) sampleDecision

/-- A report that binds the row with the negative notional. -/
def seedReport : BindExecutionRequest :=
  { BindExecutionRequest.sample "tx-1" with traceId := .fill 3 }

/-- The verdict of that report. -/
def seedResult : BindExecutionResult :=
  reconcile .sample [] seedReport (seedRow (.fill 3) F64.one.neg).intent ⟨1600, by decide⟩

/-- The bind, and a sweep at 2 s with an expiry of 1 s. -/
def seedStatements : List Statement :=
  [.updateBinding seedResult seedReport, .expirePending 2000000]

/-- The table before the call: two pending rows whose notionals add up to zero. -/
def seedTable : List TraceRow := [seedRow (.fill 3) F64.one.neg, seedRow (.fill 4) F64.one]

/-- The bound row. -/
def seedBound : TraceRow := (seedRow (.fill 3) F64.one.neg).bindTo seedResult seedReport

theorem seedBound_status : seedBound.verificationStatus ≠ .pending := by
  rw [seedBound, TraceRow.bindTo_verificationStatus, seedResult]
  rcases reconcile_status .sample [] seedReport (seedRow (.fill 3) F64.one.neg).intent
    ⟨1600, by decide⟩ with h | h <;> rw [h] <;> decide

theorem traceRow_late : traceRow .sample lateCall.args = .ok lateRow := traceRow_sample _ _ _ rfl _

theorem isStale_seedRow (traceId : Uuid) (notional : F64) :
    isStale .sample 2000000 (seedRow traceId notional) = false := by
  show decide ((1500 : Int64).toInt * 1000 < 2000000 - 1000000 * ((1000 : UInt64).toNat / 1000))
    = false
  decide

theorem isStale_lateRow : isStale .sample 2000000 lateRow = true := by
  show decide ((2 : Int64).toInt * 1000 < 2000000 - 1000000 * ((1000 : UInt64).toNat / 1000)) = true
  decide

theorem updateBinding_seed (t : List TraceRow) :
    updateBinding (seedTable ++ t) seedResult seedReport
      = [seedBound, seedRow (.fill 4) F64.one] ++ updateBinding t seedResult seedReport := by
  have hbound : decide ((seedRow (.fill 3) F64.one.neg).traceId = seedResult.traceId) = true :=
    decide_eq_true rfl
  have hother : decide ((seedRow (.fill 4) F64.one).traceId = seedResult.traceId) ≠ true := by
    show decide (Uuid.fill 4 = Uuid.fill 3) ≠ true
    decide
  rw [updateBinding, Table.updateWhere_append, seedTable, Table.updateWhere_cons,
    Table.updateWhere_cons, if_pos hbound, if_neg hother]
  rfl

theorem expirePending_seed (t : List TraceRow) :
    expirePending .sample 2000000 ([seedBound, seedRow (.fill 4) F64.one] ++ t)
      = [seedBound, seedRow (.fill 4) F64.one] ++ expirePending .sample 2000000 t := by
  have hbound : decide (seedBound.verificationStatus = .pending ∧
      isStale .sample 2000000 seedBound = true) ≠ true := by
    simp [seedBound_status]
  have hother : decide ((seedRow (.fill 4) F64.one).verificationStatus = .pending ∧
      isStale .sample 2000000 (seedRow (.fill 4) F64.one) = true) ≠ true := by
    simp [isStale_seedRow]
  rw [expirePending, Table.updateWhere_append, Table.updateWhere_cons, Table.updateWhere_cons,
    if_neg hbound, if_neg hother]
  rfl

/-- The call passes the check before the bind: the pending sum is zero. -/
theorem capCheck_seed : capCheck seedTable lateCall.args lateCall.check = .ok () := by
  have hsum : pendingSum seedTable (.fill 1) + F64.two.toRat = 2 := by
    rw [seedTable, pendingSum_cons, pendingSum_cons, if_pos ⟨rfl, rfl⟩, if_pos ⟨rfl, rfl⟩]
    show F64.one.neg.toRat + (F64.one.toRat + 0) + F64.two.toRat = 2
    simp
  show (if (2 : ℚ) < pendingSum seedTable (.fill 1) + F64.two.toRat then _ else Except.ok ())
    = .ok ()
  rw [hsum, if_neg (lt_irrefl _)]

/-- After the bind it does not: one unit is pending. -/
theorem capCheck_seedBound :
    ∃ e, capCheck [seedBound, seedRow (.fill 4) F64.one] lateCall.args lateCall.check
      = .error e := by
  have hsum : pendingSum [seedBound, seedRow (.fill 4) F64.one] (.fill 1) + F64.two.toRat = 3 := by
    rw [pendingSum_cons, pendingSum_cons, if_neg fun h => seedBound_status h.2, if_pos ⟨rfl, rfl⟩]
    show 0 + (F64.one.toRat + 0) + F64.two.toRat = 3
    simp
    norm_num
  refine ⟨.policy (.notionalExceedsLimit 3 2 "EXPANSION" "IrlConstraintPolicy"), ?_⟩
  show (if (2 : ℚ) < pendingSum [seedBound, seedRow (.fill 4) F64.one] (.fill 1) + F64.two.toRat
    then Except.error (AppError.policy (.notionalExceedsLimit
      (pendingSum [seedBound, seedRow (.fill 4) F64.one] (.fill 1) + F64.two.toRat) 2 "EXPANSION"
      "IrlConstraintPolicy")) else Except.ok ()) = _
  rw [hsum, if_pos (by norm_num)]

/-- The transaction takes the lock and reads the pending sum, then the bind and the sweep
run, then it inserts and commits. -/
def seedEvents : List PoolEvent :=
  [.lock 0, .check 0, .statement (.updateBinding seedResult seedReport),
    .statement (.expirePending 2000000), .insert 0, .commit 0]

/-- The state after that run. -/
def seedFinal : Pool :=
  ⟨[seedBound, seedRow (.fill 4) F64.one, lateRow], [⟨lateCall, .committed⟩], [0]⟩

theorem run_seedEvents :
    Run.run (poolStep .sample .sample) (.start seedTable [lateCall]) seedEvents
      = some seedFinal := by
  have hlock : poolStep .sample .sample (.start seedTable [lateCall]) (.lock 0)
      = some ⟨seedTable, [⟨lateCall, .locked⟩], [0]⟩ := rfl
  have hcheck : poolStep .sample .sample ⟨seedTable, [⟨lateCall, .locked⟩], [0]⟩ (.check 0)
      = some ⟨seedTable, [⟨lateCall, .checked⟩], [0]⟩ := by
    simp only [poolStep, List.getElem?_cons_zero, capCheck_seed]
    rfl
  have hbind : poolStep .sample .sample ⟨seedTable, [⟨lateCall, .checked⟩], [0]⟩
      (.statement (.updateBinding seedResult seedReport))
      = some ⟨[seedBound, seedRow (.fill 4) F64.one], [⟨lateCall, .checked⟩], [0]⟩ := by
    have htable : updateBinding seedTable seedResult seedReport
        = [seedBound, seedRow (.fill 4) F64.one] := updateBinding_seed []
    simp only [poolStep, Statement.isFresh, if_true, Statement.apply, htable]
  have hsweep : poolStep .sample .sample
      ⟨[seedBound, seedRow (.fill 4) F64.one], [⟨lateCall, .checked⟩], [0]⟩
      (.statement (.expirePending 2000000))
      = some ⟨[seedBound, seedRow (.fill 4) F64.one], [⟨lateCall, .checked⟩], [0]⟩ := by
    have htable : expirePending .sample 2000000 [seedBound, seedRow (.fill 4) F64.one]
        = [seedBound, seedRow (.fill 4) F64.one] := expirePending_seed []
    simp only [poolStep, Statement.isFresh, if_true, Statement.apply, htable]
  have hinsert : poolStep .sample .sample
      ⟨[seedBound, seedRow (.fill 4) F64.one], [⟨lateCall, .checked⟩], [0]⟩ (.insert 0)
      = some ⟨[seedBound, seedRow (.fill 4) F64.one], [⟨lateCall, .inserted lateRow⟩], [0]⟩ := by
    simp only [poolStep, List.getElem?_cons_zero, traceRow_late]
    rfl
  rw [seedEvents, Run.run_cons hlock, Run.run_cons hcheck, Run.run_cons hbind, Run.run_cons hsweep,
    Run.run_cons hinsert]
  rfl

theorem Statement.applyVisible_nil (K : Crates) (cfg : Config) (st : Statement)
    (t : List TraceRow) :
    st.applyVisible K cfg [] t = st.apply K cfg t := by
  simp [Statement.applyVisible]

/-- The serial run with the call somewhere among the two statements. -/
def placed (before after : List Statement) : Serial :=
  serialRun .sample .sample ⟨seedTable, []⟩
    (before.map (.statement []) ++ .call 0 lateCall :: after.map (.statement []))

/-- A call after the bind is rejected. -/
theorem placed_after (after : List Statement) {S : Serial}
    (hS : S.table = [seedBound, seedRow (.fill 4) F64.one]) (hnone : S.decisions = []) :
    ∃ e, (serialRun .sample .sample S (.call 0 lateCall :: after.map (.statement []))).decisions
      = [(0, .error e)] := by
  obtain ⟨e, he⟩ := capCheck_seedBound
  refine ⟨e, ?_⟩
  have hcall : (serialStep .sample .sample S (.call 0 lateCall)).decisions = [(0, .error e)] := by
    rw [serialStep_reject (by rw [hS]; exact he), hnone]
    rfl
  rw [serialRun, List.foldl_cons]
  generalize serialStep .sample .sample S (.call 0 lateCall) = T at hcall
  induction after generalizing T with
  | nil => exact hcall
  | cons st after ih => exact ih _ hcall

/-- **No placement explains the run**: the call is rejected after the bind, and before it
the sweep would expire its row. -/
theorem portfolio_not_placeable :
    Run.run (poolStep .sample .sample) (.start seedTable [lateCall]) seedEvents = some seedFinal ∧
    ∀ before after, before ++ after = seedStatements →
      ¬ ((placed before after).table.Perm seedFinal.table ∧
        (placed before after).decisions = [(0, .ok ())]) := by
  refine ⟨run_seedEvents, ?_⟩
  rintro before after hsplit ⟨hperm, hdecisions⟩
  have hbind : serialStep .sample .sample ⟨seedTable, []⟩
      (.statement [] (.updateBinding seedResult seedReport))
      = ⟨[seedBound, seedRow (.fill 4) F64.one], []⟩ := by
    simp only [serialStep, Statement.applyVisible_nil]
    exact congrArg (Serial.mk · []) (updateBinding_seed [])
  have hsweep : serialStep .sample .sample ⟨[seedBound, seedRow (.fill 4) F64.one], []⟩
      (.statement [] (.expirePending 2000000)) = ⟨[seedBound, seedRow (.fill 4) F64.one], []⟩ := by
    simp only [serialStep, Statement.applyVisible_nil]
    exact congrArg (Serial.mk · []) (expirePending_seed [])
  match before, hsplit with
  | [], hsplit =>
    -- the row is there when the sweep comes
    obtain rfl : after = seedStatements := hsplit
    have hcall : serialStep .sample .sample ⟨seedTable, []⟩ (.call 0 lateCall)
        = ⟨seedTable ++ [lateRow], [(0, .ok ())]⟩ := by
      simp only [serialStep, insertTraceAtomic, capCheck_seed, insertTrace, traceRow_late]
      rfl
    have hlate : (placed [] seedStatements).table
        = [seedBound, seedRow (.fill 4) F64.one] ++
          expirePending .sample 2000000 (updateBinding [lateRow] seedResult seedReport) := by
      simp only [placed, serialRun, seedStatements, List.map_nil, List.nil_append, List.map_cons,
        List.foldl_cons, List.foldl_nil]
      rw [hcall]
      simp only [serialStep, Statement.applyVisible_nil, Statement.apply]
      rw [updateBinding_seed, expirePending_seed]
    have hswept : expirePending .sample 2000000 (updateBinding [lateRow] seedResult seedReport)
        = [{ lateRow with verificationStatus := .expired }] := by
      have hother : decide (lateRow.traceId = seedResult.traceId) ≠ true := by
        show decide (Uuid.fill 5 = Uuid.fill 3) ≠ true
        decide
      have hstale : decide (lateRow.verificationStatus = .pending ∧
          isStale .sample 2000000 lateRow = true) = true := decide_eq_true ⟨rfl, isStale_lateRow⟩
      rw [updateBinding, Table.updateWhere_cons, if_neg hother, expirePending,
        Table.updateWhere_cons, if_pos hstale]
      rfl
    have hmem : lateRow ∈ (placed [] seedStatements).table :=
      hperm.mem_iff.2 (by simp [seedFinal])
    rw [hlate, hswept] at hmem
    simp only [List.mem_append, List.mem_cons, List.not_mem_nil, or_false] at hmem
    rcases hmem with (h | h) | h
    · exact absurd (congrArg TraceRow.traceId h) (by show Uuid.fill 5 ≠ Uuid.fill 3; decide)
    · exact absurd (congrArg TraceRow.traceId h) (by show Uuid.fill 5 ≠ Uuid.fill 4; decide)
    · exact absurd (congrArg TraceRow.verificationStatus h)
        (by show VerificationStatus.pending ≠ .expired; decide)
  | [st₁], hsplit =>
    obtain ⟨rfl, rfl⟩ : st₁ = .updateBinding seedResult seedReport ∧
      after = [.expirePending 2000000] := by
      simpa [seedStatements] using hsplit
    obtain ⟨e, he⟩ := placed_after [.expirePending 2000000]
      (S := ⟨[seedBound, seedRow (.fill 4) F64.one], []⟩) rfl rfl
    rw [← hbind] at he
    exact absurd (he.symm.trans hdecisions) (by simp)
  | [st₁, st₂], hsplit =>
    obtain ⟨rfl, rfl, rfl⟩ : st₁ = .updateBinding seedResult seedReport ∧
        st₂ = .expirePending 2000000 ∧ after = [] := by
      simpa [seedStatements] using hsplit
    obtain ⟨e, he⟩ := placed_after [] (S := ⟨[seedBound, seedRow (.fill 4) F64.one], []⟩) rfl rfl
    rw [← hsweep, ← hbind] at he
    exact absurd (he.symm.trans hdecisions) (by simp)
  | st₁ :: st₂ :: st₃ :: rest, hsplit =>
    exact absurd (congrArg List.length hsplit) (by simp [seedStatements])

/-- The serial run that does explain it: the call accepts, and the sweep does not see
its row. -/
theorem portfolio_serializable_sample :
    let S := serialRun .sample .sample ⟨seedTable, []⟩
      (serialOps .sample .sample (.start seedTable [lateCall]) seedEvents)
    S.table.Perm seedFinal.table ∧ (S.decisions.filter fun d => d.1 = 0) = [(0, .ok ())] := by
  intro S
  have hids : (seedTable.map TraceRow.traceId ++ [lateCall].map Call.traceId).Nodup := by
    show [Uuid.fill 3, Uuid.fill 4, Uuid.fill 5].Nodup
    decide
  obtain ⟨hrows, hdecisions, -⟩ := portfolio_serializable .sample .sample hids run_seedEvents
    (by simp [seedFinal, TxnPhase.isOver])
  obtain ⟨d, hd, hfilter⟩ := hdecisions 0 ⟨lateCall, .committed⟩ rfl
  obtain rfl : .ok () = d := Option.some.inj hd
  exact ⟨hrows, hfilter⟩

end IrlEngine
