import IrlEngine.Erasure
import Mathlib.Data.List.Lex

/-!
# The backfill of legacy plaintext traces

`run_backfill` of `backfill.rs`: a worker reads the rows with `encryption_version = 0` in
batches of 500, each batch from the last trace id of the one before, skips the rows that
another transaction has locked, and encrypts the rows of a batch one by one.  Any number of
workers run at once, between the events of the rest of the system.

* `backfillStep` — a step of one worker, or of the rest of the system;
* `WorkerMove`, `backfillStep_cases` — everything a step can do;
* `reachable_of_backfill` — the tables are those of the life cycle of a trace;
* `Aged`, `aged_of_step` — what becomes of the rows: they keep their ids, and no encrypted row
  becomes plaintext.
-/

namespace IrlEngine

/-! ## The order of trace ids -/

/-- UUIDs are compared byte by byte. -/
def Uuid.sortKey (u : Uuid) : List ℕ := u.bytes.map UInt8.toNat

theorem Uuid.sortKey_injective : Function.Injective Uuid.sortKey := by
  intro u v h
  have hbytes : u.bytes = v.bytes := by
    refine List.map_injective_iff.2 (fun a b hab => ?_) h
    exact UInt8.toNat_inj.1 hab
  cases u
  cases v
  simp only at hbytes
  subst hbytes
  rfl

/-! ## The statements -/

/-- `BATCH_SIZE`. -/
def batchSize : ℕ := 500

/-- `$1::uuid IS NULL OR trace_id > $1`. -/
def afterCursor (lastTraceId : Option Uuid) (id : Uuid) : Bool :=
  lastTraceId.all fun last => decide (last.sortKey < id.sortKey)

/-- `WHERE encryption_version = 0 AND ($1::uuid IS NULL OR trace_id > $1)`. -/
def plaintextRows (lastTraceId : Option Uuid) (traces : List TraceRow) : List TraceRow :=
  traces.filter fun r => r.encryptionVersion = 0 ∧ afterCursor lastTraceId r.traceId

/-- `ORDER BY trace_id LIMIT $2 FOR UPDATE SKIP LOCKED`; locked rows do not count against the
limit. -/
def selectBatch (locked : Uuid → Bool) (lastTraceId : Option Uuid) (traces : List TraceRow) :
    List (Uuid × Json) :=
  ((Paging.byKey (fun r : TraceRow => r.traceId.sortKey)
    ((plaintextRows lastTraceId traces).filter fun r => !locked r.traceId)).take batchSize).map
      fun r => (r.traceId, r.traceJson)

/-- A row of `irl.kms_key_metadata`. -/
structure KmsKeyRow where
  keyVersion : Int32
  provider : String
  keyArnOrPath : String
  status : String

/-- `INSERT … ON CONFLICT (key_version, provider) DO NOTHING`. -/
def upsertKmsKeyMetadata (keyVersion : Int32) (provider keyArnOrPath : String)
    (metadata : List KmsKeyRow) : List KmsKeyRow :=
  if metadata.any fun row => row.keyVersion = keyVersion ∧ row.provider = provider then metadata
  else metadata ++ [⟨keyVersion, provider, keyArnOrPath, "active"⟩]

/-! ## One row -/

/-- An `anyhow` error: its contexts, the outermost first, and its cause. -/
abbrev ErrorChain := List String

/-- What `encrypt_one_row` is to write. -/
def prepareRow (K : Crates) (draw : EncryptionDraw) (traceJson : Json) :
    Except ErrorChain StoredJson :=
  match draw.generateDek with
  | .error e => .error ["generate_dek", e]
  | .ok grant =>
    match encryptTrace K (toVec K traceJson) grant.dek draw.nonce with
    | .error e => .error ["encrypt_trace", e]
    | .ok ciphertext => .ok {
        traceJson := wrapCiphertextForJsonb ciphertext
        traceNonce := some draw.nonce
        encryptedDek := some grant.encryptedDek
        keyVersion := some grant.keyVersion
        encryptionVersion := 1 }

/-- The rows that the `UPDATE` of `encrypt_one_row` hits. -/
def rowsAffected (traceId : Uuid) (traces : List TraceRow) : ℕ :=
  traces.countP fun r => r.traceId = traceId ∧ r.encryptionVersion = 0

/-- `encrypt_one_row`: the key version, if the row was still plaintext. -/
def runEncryptOneRow (K : Crates) (draw : EncryptionDraw) (update : Option String)
    (item : Uuid × Json) (traces : List TraceRow) :
    List TraceRow × Except ErrorChain (Option Int32) :=
  match prepareRow K draw item.2 with
  | .error e => (traces, .error e)
  | .ok stored =>
    match update with
    | some reason => (traces, .error ["UPDATE reasoning_traces (encrypt backfill)", reason])
    | none =>
      (encryptOneRow item.1 stored traces,
        .ok (if rowsAffected item.1 traces = 0 then none else stored.keyVersion))

/-! ## A worker -/

/-- Where a call of `run_backfill` stands: before the next batch, at a row of a batch with the
rows before and after it, or returned. -/
inductive BackfillPhase where
  | fetch
  | batch (done : List (Uuid × Json)) (item : Uuid × Json) (rest : List (Uuid × Json))
  | returned (result : Except ErrorChain ℕ)

/-- A worker, with its cursor, its counter and its phase. -/
structure Backfill where
  providerName : String
  keyArnOrPath : String
  total : ℕ
  lastTraceId : Option Uuid
  registeredKeyVersions : List Int32
  phase : BackfillPhase

/-- A worker before its first batch. -/
def Backfill.start (providerName keyArnOrPath : String) : Backfill :=
  ⟨providerName, keyArnOrPath, 0, none, [], .fetch⟩

/-- The step of the batch transaction that fails. -/
inductive FetchFault where
  | beginTxn
  | select
  | commitTxn
  deriving DecidableEq, Repr

/-- What the error of a query is wrapped in. -/
def FetchFault.context : FetchFault → String
  | .beginTxn => "begin batch select txn"
  | .select => "fetch plaintext batch"
  | .commitTxn => "commit batch select txn"

/-- The query of the next batch, which skips locked rows. -/
def Backfill.fetch (w : Backfill) (locked : Uuid → Bool) (fault : Option (FetchFault × String))
    (traces : List TraceRow) : Backfill :=
  match fault with
  | some (f, reason) => { w with phase := .returned (.error [f.context, reason]) }
  | none =>
    match selectBatch locked w.lastTraceId traces with
    | [] => { w with phase := .returned (.ok w.total) }
    | item :: rest => { w with phase := .batch [] item rest }

/-- The key version is registered once per run. -/
def Backfill.register (w : Backfill) (keyVersion : Option Int32) (upsert : Option String)
    (metadata : List KmsKeyRow) : Except ErrorChain (Backfill × List KmsKeyRow) :=
  match keyVersion with
  | none => .ok (w, metadata)
  | some kv =>
    if kv ∈ w.registeredKeyVersions then .ok (w, metadata)
    else
      match upsert with
      | some reason => .error ["upsert_kms_key_metadata key_version=" ++ toString kv, reason]
      | none => .ok ({ w with registeredKeyVersions := kv :: w.registeredKeyVersions },
          upsertKmsKeyMetadata kv w.providerName w.keyArnOrPath metadata)

/-- On to the next row; after the last one the whole batch is counted and the cursor moves. -/
def Backfill.advance (w : Backfill) (done : List (Uuid × Json)) (item : Uuid × Json) :
    List (Uuid × Json) → Backfill
  | next :: rest => { w with phase := .batch (done ++ [item]) next rest }
  | [] => { w with
      total := w.total + (done ++ [item]).length
      lastTraceId := some item.1
      phase := .fetch }

/-! ## The system with its workers -/

/-- The store, the workers, and the key versions that are registered. -/
structure BackfillState where
  sys : System
  workers : List Backfill
  kmsKeyMetadata : List KmsKeyRow

/-- An empty store without a worker. -/
def BackfillState.init : BackfillState := ⟨.init, [], []⟩

/-- The accesses of the workers, each named by its place, and all other events. -/
inductive BackfillEvent where
  | start (providerName keyArnOrPath : String)
  /-- The batch of worker `k`, with the rows that other transactions have locked. -/
  | fetch (k : ℕ) (locked : Uuid → Bool) (fault : Option (FetchFault × String))
  /-- The row of worker `k`, with the errors of its `UPDATE` and of the registration. -/
  | encrypt (k : ℕ) (draw : EncryptionDraw) (update upsert : Option String)
  /-- Any other event in the life of a trace. -/
  | other (e : Event)

/-- The worker whose access it is. -/
def BackfillEvent.worker : BackfillEvent → Option ℕ
  | .fetch k _ _ => some k
  | .encrypt k _ _ _ => some k
  | _ => none

/-- The update of the backfill, which only its workers make. -/
def Event.isBackfill : Event → Bool
  | .encryptOneRow _ _ => true
  | _ => false

/-- The state with one worker replaced. -/
def BackfillState.setWorker (s : BackfillState) (k : ℕ) (w : Backfill) : BackfillState :=
  { s with workers := s.workers.set k w }

/-- The loop body for one row. -/
def BackfillState.encryptRow (K : Crates) (s : BackfillState) (k : ℕ) (w : Backfill)
    (done : List (Uuid × Json)) (item : Uuid × Json) (rest : List (Uuid × Json))
    (draw : EncryptionDraw) (update upsert : Option String) : BackfillState :=
  match runEncryptOneRow K draw update item s.sys.traces with
  | (traces, .error e) =>
    { s with sys := { s.sys with traces := traces } }.setWorker k
      { w with
        phase := .returned (.error (("encrypt_one_row for trace_id=" ++ item.1.toText) :: e)) }
  | (traces, .ok keyVersion) =>
    match w.register keyVersion upsert s.kmsKeyMetadata with
    | .error e =>
      { s with sys := { s.sys with traces := traces } }.setWorker k
        { w with phase := .returned (.error e) }
    | .ok (w', metadata) =>
      { s with sys := { s.sys with traces := traces }, kmsKeyMetadata := metadata }.setWorker k
        (w'.advance done item rest)

/-- The step of an event. -/
def backfillStep (D : Deployment) (s : BackfillState) : BackfillEvent → Option BackfillState
  | .start providerName keyArnOrPath =>
    some { s with workers := s.workers ++ [.start providerName keyArnOrPath] }
  | .fetch k locked fault =>
    match s.workers[k]? with
    | some w =>
      match w.phase with
      | .fetch => some (s.setWorker k (w.fetch locked fault s.sys.traces))
      | _ => none
    | none => none
  | .encrypt k draw update upsert =>
    match s.workers[k]? with
    | some w =>
      match w.phase with
      | .batch done item rest => some (s.encryptRow D.K k w done item rest draw update upsert)
      | _ => none
    | none => none
  | .other e =>
    if e.isBackfill then none else (step D s.sys e).map fun sys => { s with sys := sys }

/-! ## What a step can do -/

/-- The row is encrypted and the `UPDATE` executed. -/
def goesThrough (K : Crates) (draw : EncryptionDraw) (update : Option String) (item : Uuid × Json) :
    Bool :=
  (prepareRow K draw item.2).isOk && update.isNone

/-- Everything a step of a worker can do to the table and to the worker. -/
inductive WorkerMove (K : Crates) (t : List TraceRow) (w : Backfill) :
    BackfillEvent → List TraceRow → Backfill → Prop where
  | fetchFailed (k : ℕ) (locked : Uuid → Bool) (fault : FetchFault × String) (e : ErrorChain)
      (hphase : w.phase = .fetch) :
      WorkerMove K t w (.fetch k locked (some fault)) t { w with phase := .returned (.error e) }
  | finished (k : ℕ) (locked : Uuid → Bool) (hphase : w.phase = .fetch)
      (hbatch : selectBatch locked w.lastTraceId t = []) :
      WorkerMove K t w (.fetch k locked none) t { w with phase := .returned (.ok w.total) }
  | fetched (k : ℕ) (locked : Uuid → Bool) (item : Uuid × Json) (rest : List (Uuid × Json))
      (hphase : w.phase = .fetch) (hbatch : selectBatch locked w.lastTraceId t = item :: rest) :
      WorkerMove K t w (.fetch k locked none) t { w with phase := .batch [] item rest }
  | encryptFailed (k : ℕ) (draw : EncryptionDraw) (update upsert : Option String)
      (done : List (Uuid × Json)) (item : Uuid × Json) (rest : List (Uuid × Json)) (e : ErrorChain)
      (hphase : w.phase = .batch done item rest)
        (hthrough : goesThrough K draw update item = false) :
      WorkerMove K t w (.encrypt k draw update upsert) t { w with phase := .returned (.error e) }
  | unregistered (k : ℕ) (draw : EncryptionDraw) (update : Option String) (upsert : String)
      (done : List (Uuid × Json)) (item : Uuid × Json) (rest : List (Uuid × Json))
      (stored : StoredJson) (e : ErrorChain) (grant : DekGrant)
      (hphase : w.phase = .batch done item rest) (hthrough : goesThrough K draw update item = true)
      (hgrant : draw.generateDek = .ok grant)
      (hunregistered : grant.keyVersion ∉ w.registeredKeyVersions) :
      WorkerMove K t w (.encrypt k draw update (some upsert)) (encryptOneRow item.1 stored t)
        { w with phase := .returned (.error e) }
  | encrypted (k : ℕ) (draw : EncryptionDraw) (update upsert : Option String)
      (done : List (Uuid × Json)) (item : Uuid × Json) (rest : List (Uuid × Json))
      (stored : StoredJson) (registered : List Int32) (hphase : w.phase = .batch done item rest)
      (hthrough : goesThrough K draw update item = true) :
      WorkerMove K t w (.encrypt k draw update upsert) (encryptOneRow item.1 stored t)
        (Backfill.advance { w with registeredKeyVersions := registered } done item rest)

/-- The step is one of worker `k`. -/
structure WorkerStep (D : Deployment) (s : BackfillState) (e : BackfillEvent) (s' : BackfillState)
    (k : ℕ) (w w' : Backfill) : Prop where
  worker : e.worker = some k
  found : s.workers[k]? = some w
  move : WorkerMove D.K s.sys.traces w e s'.sys.traces w'
  sys : s'.sys = { s.sys with traces := s'.sys.traces }
  workers : s'.workers = s.workers.set k w'

theorem register_cases (w : Backfill) (keyVersion : Option Int32) (upsert : Option String)
    (metadata : List KmsKeyRow) :
    (∃ reason kv e, upsert = some reason ∧ keyVersion = some kv ∧ kv ∉ w.registeredKeyVersions ∧
      w.register keyVersion upsert metadata = .error e) ∨
    ∃ registered metadata', w.register keyVersion upsert metadata
      = .ok ({ w with registeredKeyVersions := registered }, metadata') := by
  unfold Backfill.register
  cases keyVersion with
  | none => exact Or.inr ⟨w.registeredKeyVersions, metadata, rfl⟩
  | some kv =>
    by_cases hmem : kv ∈ w.registeredKeyVersions
    · simp only [if_pos hmem]
      exact Or.inr ⟨w.registeredKeyVersions, metadata, rfl⟩
    · simp only [if_neg hmem]
      cases upsert with
      | some reason => exact Or.inl ⟨reason, kv, _, rfl, rfl, hmem, rfl⟩
      | none => exact Or.inr ⟨_, _, rfl⟩

theorem prepareRow_ok {K : Crates} {draw : EncryptionDraw} {traceJson : Json} {stored : StoredJson}
    (h : prepareRow K draw traceJson = .ok stored) :
    ∃ grant, draw.generateDek = .ok grant ∧ stored.keyVersion = some grant.keyVersion := by
  unfold prepareRow at h
  cases hgrant : draw.generateDek with
  | error e =>
    rw [hgrant] at h
    cases h
  | ok grant =>
    rw [hgrant] at h
    simp only at h
    split at h
    · cases h
    · rw [← Except.ok.inj h]
      exact ⟨grant, rfl, rfl⟩

theorem runEncryptOneRow_cases (K : Crates) (draw : EncryptionDraw) (update : Option String)
    (item : Uuid × Json) (t : List TraceRow) :
    (goesThrough K draw update item = false ∧
      ∃ e, runEncryptOneRow K draw update item t = (t, .error e)) ∨
    (goesThrough K draw update item = true ∧ ∃ stored keyVersion,
      runEncryptOneRow K draw update item t = (encryptOneRow item.1 stored t, .ok keyVersion) ∧
      ∀ kv, keyVersion = some kv → ∃ grant, draw.generateDek = .ok grant ∧
        grant.keyVersion = kv) := by
  unfold goesThrough runEncryptOneRow
  cases hprepare : prepareRow K draw item.2 with
  | error e => exact Or.inl ⟨rfl, e, rfl⟩
  | ok stored =>
    cases update with
    | some reason => exact Or.inl ⟨rfl, _, rfl⟩
    | none =>
      refine Or.inr ⟨rfl, stored, _, rfl, fun kv hkv => ?_⟩
      split_ifs at hkv
      obtain ⟨grant, hgrant, hversion⟩ := prepareRow_ok hprepare
      exact ⟨grant, hgrant, Option.some.inj (hversion.symm.trans hkv)⟩

theorem workerStep_fetch {D : Deployment} {s : BackfillState} {k : ℕ} {w : Backfill}
    (hk : s.workers[k]? = some w) (hphase : w.phase = .fetch) (locked : Uuid → Bool)
    (fault : Option (FetchFault × String)) :
    WorkerStep D s (.fetch k locked fault) (s.setWorker k (w.fetch locked fault s.sys.traces)) k w
      (w.fetch locked fault s.sys.traces) := by
  refine ⟨rfl, hk, ?_, rfl, rfl⟩
  cases fault with
  | some fault => exact .fetchFailed k locked fault _ hphase
  | none =>
    show WorkerMove D.K s.sys.traces w _ s.sys.traces _
    simp only [Backfill.fetch]
    split
    · rename_i hbatch
      exact .finished k locked hphase hbatch
    · rename_i hbatch
      exact .fetched k locked _ _ hphase hbatch

theorem workerStep_encrypt {D : Deployment} {s : BackfillState} {k : ℕ} {w : Backfill}
    {done rest : List (Uuid × Json)} {item : Uuid × Json} (hk : s.workers[k]? = some w)
    (hphase : w.phase = .batch done item rest) (draw : EncryptionDraw)
    (update upsert : Option String) :
    ∃ w', WorkerStep D s (.encrypt k draw update upsert)
      (s.encryptRow D.K k w done item rest draw update upsert) k w w' := by
  unfold BackfillState.encryptRow
  rcases runEncryptOneRow_cases D.K draw update item s.sys.traces with
    ⟨hthrough, e, hrun⟩ | ⟨hthrough, stored, keyVersion, hrun, hversion⟩
  · rw [hrun]
    exact ⟨_, rfl, hk, .encryptFailed k draw update upsert done item rest _ hphase
      hthrough, rfl, rfl⟩
  · rw [hrun]
    rcases register_cases w keyVersion upsert s.kmsKeyMetadata with
      ⟨reason, kv, e, rfl, hkv, hmem, hregister⟩ | ⟨registered, metadata, hregister⟩
    · obtain ⟨grant, hgrant, rfl⟩ := hversion kv hkv
      simp only [hregister]
      exact ⟨_, rfl, hk, .unregistered k draw update reason done item rest stored e grant
        hphase hthrough hgrant hmem, rfl, rfl⟩
    · simp only [hregister]
      exact ⟨_, rfl, hk,
        .encrypted k draw update upsert done item rest stored registered hphase hthrough, rfl, rfl⟩

/-- **Everything a step can do.** -/
theorem backfillStep_cases {D : Deployment} {s s' : BackfillState} {e : BackfillEvent}
    (h : backfillStep D s e = some s') :
    (∃ providerName keyArnOrPath, e = .start providerName keyArnOrPath ∧ s'.sys = s.sys ∧
      s'.workers = s.workers ++ [.start providerName keyArnOrPath]) ∨
    (∃ k w w', WorkerStep D s e s' k w w') ∨
    (∃ ev, e = .other ev ∧ ev.isBackfill = false ∧ step D s.sys ev = some s'.sys ∧
      s'.workers = s.workers) := by
  cases e with
  | start providerName keyArnOrPath =>
    rw [← Option.some.inj h]
    exact Or.inl ⟨_, _, rfl, rfl, rfl⟩
  | fetch k locked fault =>
    simp only [backfillStep] at h
    split at h
    · rename_i w hk
      split at h
      · rename_i hphase
        rw [← Option.some.inj h]
        exact Or.inr (Or.inl ⟨k, w, _, workerStep_fetch hk hphase locked fault⟩)
      · cases h
    · cases h
  | encrypt k draw update upsert =>
    simp only [backfillStep] at h
    split at h
    · rename_i w hk
      split at h
      · rename_i done item rest hphase
        rw [← Option.some.inj h]
        obtain ⟨w', hw'⟩ := workerStep_encrypt (D := D) hk hphase draw update upsert
        exact Or.inr (Or.inl ⟨k, w, w', hw'⟩)
      · cases h
    · cases h
  | other ev =>
    simp only [backfillStep] at h
    split_ifs at h with hev
    obtain ⟨sys, hsys, rfl⟩ := Option.map_eq_some_iff.1 h
    exact Or.inr (Or.inr ⟨ev, rfl, by simpa using hev, hsys, rfl⟩)

/-- A step is a step of the life cycle of a trace, or leaves the tables alone. -/
theorem sys_of_backfillStep {D : Deployment} {s s' : BackfillState} {e : BackfillEvent}
    (h : backfillStep D s e = some s') : s'.sys = s.sys ∨ ∃ ev, step D s.sys ev = some s'.sys := by
  rcases backfillStep_cases h with ⟨_, _, -, hsys, -⟩ | ⟨k, w, w', hstep⟩ | ⟨ev, -, -, hstep, -⟩
  · exact Or.inl hsys
  · obtain ⟨-, -, hmove, hsys, -⟩ := hstep
    rw [hsys]
    generalize s'.sys.traces = t' at hmove
    cases hmove with
    | unregistered k draw update upsert done item rest stored =>
      exact Or.inr ⟨.encryptOneRow item.1 stored, rfl⟩
    | encrypted k draw update upsert done item rest stored =>
      exact Or.inr ⟨.encryptOneRow item.1 stored, rfl⟩
    | _ => exact Or.inl rfl
  · exact Or.inr ⟨ev, hstep⟩

/-- With any number of workers the tables are reachable in the life cycle of a trace. -/
theorem reachable_of_backfill {D : Deployment} {es : List BackfillEvent} {s : BackfillState}
    (h : Run.run (backfillStep D) .init es = some s) : Reachable D s.sys := by
  refine Run.run_invariant (I := fun s : BackfillState => Reachable D s.sys) ?_ h ⟨[], rfl⟩
  exact fun s e t hs hstep => hs.next (sys_of_backfillStep hstep)

/-! ## What becomes of the rows -/

/-- Every row keeps its id, and its version unless it becomes encrypted; a new row has a new id. -/
structure Aged (t : List TraceRow) (g : TraceRow → TraceRow) (new t' : List TraceRow) : Prop where
  table : t' = t.map g ++ new
  traceId : ∀ r ∈ t, (g r).traceId = r.traceId
  version : ∀ r ∈ t, (g r).encryptionVersion = r.encryptionVersion ∨ (g r).encryptionVersion = 1
  new : new = [] ∨ ∃ r, new = [r] ∧ r.traceId ∉ t.map TraceRow.traceId

theorem aged_refl (t : List TraceRow) : Aged t id [] t :=
  ⟨by simp, fun _ _ => rfl, fun _ _ => Or.inl rfl, Or.inl rfl⟩

/-- An update that sets `encryption_version = 1`. -/
theorem aged_updateWhere (p : TraceRow → Bool) (f : TraceRow → TraceRow)
    (hid : ∀ r, (f r).traceId = r.traceId) (hversion : ∀ r, (f r).encryptionVersion = 1)
    (t : List TraceRow) :
    Aged t (fun r => if p r then f r else r) [] (Table.updateWhere p f t) := by
  refine ⟨(List.append_nil _).symm, fun r _ => ?_, fun r _ => ?_, Or.inl rfl⟩
  · split_ifs
    · exact hid r
    · rfl
  · split_ifs
    · exact Or.inr (hversion r)
    · exact Or.inl rfl

section Aged

variable {t t' new : List TraceRow} {g : TraceRow → TraceRow}

theorem Aged.rowOf (h : Aged t g new t') {id : Uuid} {r : TraceRow}
    (hr : Table.rowOf TraceRow.traceId t id = some r) :
    Table.rowOf TraceRow.traceId t' id = some (g r) := by
  rw [h.table]
  refine Table.rowOf_append_of_some ?_
  rw [Table.rowOf_map h.traceId, hr]
  rfl

theorem Aged.unique (h : Aged t g new t') (hunique : (t.map TraceRow.traceId).Nodup) :
    (t'.map TraceRow.traceId).Nodup := by
  have hids : (t.map g).map TraceRow.traceId = t.map TraceRow.traceId := by
    rw [List.map_map]
    exact List.map_congr_left h.traceId
  rw [h.table, List.map_append, hids]
  rcases h.new with rfl | ⟨r, rfl, hfresh⟩
  · rwa [List.map_nil, List.append_nil]
  · rw [List.map_singleton, List.nodup_append]
    refine ⟨hunique, List.nodup_singleton _, ?_⟩
    intro a ha b hb hab
    rw [List.mem_singleton.1 hb] at hab
    exact hfresh (hab ▸ ha)

/-- Without new plaintext rows there are no more of them. -/
theorem Aged.length_plaintextRows_le (h : Aged t g new t')
    (hnew : ∀ r ∈ new, r.encryptionVersion ≠ 0) (lastTraceId : Option Uuid) :
    (plaintextRows lastTraceId t').length ≤ (plaintextRows lastTraceId t).length := by
  unfold plaintextRows
  rw [← List.countP_eq_length_filter, ← List.countP_eq_length_filter, h.table, List.countP_append,
    List.countP_map]
  have hzero : new.countP (fun r => decide (r.encryptionVersion = 0 ∧
      afterCursor lastTraceId r.traceId = true)) = 0 := by
    rw [List.countP_eq_zero]
    intro r hr hp
    exact hnew r hr (of_decide_eq_true hp).1
  rw [hzero, Nat.add_zero]
  refine List.countP_mono_left ?_
  intro r hr hp
  obtain ⟨hversion, hcursor⟩ := of_decide_eq_true hp
  rw [h.traceId r hr] at hcursor
  rcases h.version r hr with hsame | hone
  · exact decide_eq_true ⟨hsame ▸ hversion, hcursor⟩
  · rw [hone] at hversion
    cases hversion

/-- The rows that go from version 0 to version 1. -/
def wentToOne (t t' : List TraceRow) : ℕ :=
  t.countP fun r => r.encryptionVersion = 0 ∧
    ∃ r' ∈ Table.rowOf TraceRow.traceId t' r.traceId, r'.encryptionVersion = 1

theorem Aged.wentToOne (h : Aged t g new t') (hunique : (t.map TraceRow.traceId).Nodup) :
    wentToOne t t' = t.countP fun r => r.encryptionVersion = 0 ∧ (g r).encryptionVersion = 1 := by
  refine List.countP_congr ?_
  intro r hr
  have hrow := h.rowOf (Table.rowOf_of_mem hunique hr)
  simp only [decide_eq_true_eq, hrow, Option.mem_def, Option.some.injEq, exists_eq_left']

/-- A table whose rows keep their version. -/
theorem Aged.wentToOne_eq_zero (h : Aged t g new t') (hunique : (t.map TraceRow.traceId).Nodup)
    (hsame : ∀ r ∈ t, r.encryptionVersion = 0 → (g r).encryptionVersion = 0) :
    IrlEngine.wentToOne t t' = 0 := by
  rw [h.wentToOne hunique, List.countP_eq_zero]
  intro r hr hp
  obtain ⟨hzero, hone⟩ := of_decide_eq_true hp
  rw [hsame r hr hzero] at hone
  cases hone

end Aged

theorem aged_encryptOneRow (traceId : Uuid) (stored : StoredJson) (t : List TraceRow) :
    Aged t (fun r => if decide (r.traceId = traceId ∧ r.encryptionVersion = 0) then r.recode stored
      else r) [] (encryptOneRow traceId stored t) :=
  aged_updateWhere _ (fun r => r.recode stored) (fun _ => rfl) (fun _ => rfl) t

/-- The `UPDATE` of a row that is still plaintext takes that row from version 0 to version 1. -/
theorem wentToOne_encryptOneRow {t : List TraceRow} (hunique : (t.map TraceRow.traceId).Nodup)
    {r : TraceRow} (hr : r ∈ t) (hversion : r.encryptionVersion = 0) (stored : StoredJson) :
    wentToOne t (encryptOneRow r.traceId stored t) = 1 := by
  refine ((aged_encryptOneRow r.traceId stored t).wentToOne hunique).trans ?_
  have hone : ∀ x ∈ t, (decide (x.encryptionVersion = 0 ∧ (if decide (x.traceId = r.traceId ∧
      x.encryptionVersion = 0) then x.recode stored else x).encryptionVersion = 1) = true ↔
        (x.traceId == r.traceId) = true) := by
    intro x hx
    rw [decide_eq_true_eq, beq_iff_eq]
    constructor
    · rintro ⟨hzero, hwent⟩
      by_contra hne
      rw [if_neg (by simp [hne]), hzero] at hwent
      cases hwent
    · intro hid
      obtain rfl := List.inj_on_of_nodup_map hunique hx hr hid
      refine ⟨hversion, ?_⟩
      rw [if_pos (decide_eq_true ⟨rfl, hversion⟩)]
      rfl
  rw [List.countP_congr hone]
  have hmap : t.countP (fun x => x.traceId == r.traceId)
      = (t.map TraceRow.traceId).count r.traceId := by
    rw [List.count, List.countP_map]
    rfl
  rw [hmap]
  exact List.count_eq_one_of_mem hunique (List.mem_map_of_mem hr)

/-- The rows whose `UPDATE` the event is, if it is one of an erasure. -/
def Event.erases (e : Event) (r : TraceRow) : Bool :=
  match e with
  | .gdprUpdate traceId txnTime _ _ _ => decide (r.traceId = traceId ∧ r.txnTime = txnTime)
  | _ => false

/-- Events that belong to no worker age the table; only an erasure changes versions. -/
theorem aged_of_other {D : Deployment} {sys sys' : System} {ev : Event}
    (hev : ev.isBackfill = false) (h : step D sys ev = some sys') :
    ∃ g new, Aged sys.traces g new sys'.traces ∧
      ∀ r ∈ sys.traces, ev.erases r = false → (g r).encryptionVersion = r.encryptionVersion := by
  cases hw : ev.isWorker with
  | true =>
    cases ev with
    | encryptOneRow traceId stored => cases hev
    | gdprUpdate traceId txnTime stored erasedAt requestId =>
      rw [← Option.some.inj h]
      refine ⟨_, [], aged_updateWhere _ (fun r => { r.recode stored with
        gdprErasedAt := some erasedAt, gdprRequestId := some requestId }) (fun _ => rfl)
        (fun _ => rfl) sys.traces, fun r _ herases => ?_⟩
      rw [if_neg]
      rw [Event.erases] at herases
      rw [herases]
      exact Bool.false_ne_true
    | _ => cases hw
  | false =>
    have hchange := tableChange_of_step hw h
    generalize sys'.traces = t' at hchange
    cases hchange with
    | rows g hg =>
      have hversion : ∀ r, (g r).encryptionVersion = r.encryptionVersion :=
        fun r => congrArg StoredJson.encryptionVersion (hg r).stored
      refine ⟨g, [], ⟨(List.append_nil _).symm, fun r _ => (hg r).traceId,
        fun r _ => Or.inl (hversion r), Or.inl rfl⟩, fun r _ _ => hversion r⟩
    | insert a r ha hr hfresh =>
      exact ⟨id, [r], ⟨by simp, fun _ _ => rfl, fun _ _ => Or.inl rfl, Or.inr ⟨r, rfl, hfresh⟩⟩,
        fun _ _ _ => rfl⟩

theorem aged_of_move {K : Crates} {t t' : List TraceRow} {w w' : Backfill} {e : BackfillEvent}
    (h : WorkerMove K t w e t' w') : ∃ g, Aged t g [] t' := by
  cases h with
  | unregistered k draw update upsert done item rest stored =>
    exact ⟨_, aged_encryptOneRow item.1 stored t⟩
  | encrypted k draw update upsert done item rest stored =>
    exact ⟨_, aged_encryptOneRow item.1 stored t⟩
  | _ => exact ⟨id, aged_refl t⟩

/-- **Every step ages the table.** -/
theorem aged_of_step {D : Deployment} {s s' : BackfillState} {e : BackfillEvent}
    (h : backfillStep D s e = some s') : ∃ g new, Aged s.sys.traces g new s'.sys.traces := by
  rcases backfillStep_cases h with ⟨_, _, -, hsys, -⟩ | ⟨k, w, w', hstep⟩ | ⟨ev, -, hev, hstep, -⟩
  · rw [hsys]
    exact ⟨id, [], aged_refl s.sys.traces⟩
  · obtain ⟨g, haged⟩ := aged_of_move hstep.move
    exact ⟨g, [], haged⟩
  · obtain ⟨g, new, haged, -⟩ := aged_of_other hev hstep
    exact ⟨g, new, haged⟩

end IrlEngine
