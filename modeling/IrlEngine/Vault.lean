import IrlEngine.Envelope
import IrlEngine.Lifecycle
import IrlEngine.Lib.AesGcm

/-!
# The encrypted trace store and the plaintext store it stands for

The trace table under all its writers, with the two workers that read rows first and
write them later: the backfill of `backfill.rs` and the erasure of `gdpr.rs`.  A worker
keeps what it read while anything else may happen, so that a run is an interleaving of
every insert, bind, expiry, backfill and erasure.  Beside it runs a store of plaintext
traces that knows nothing of encryption.

* `reachable_of_run` — the tables pass through states of the life cycle only;
* `TableChange` — what an insert, a bind or an expiry can make of the trace table;
* `VaultInv` — every row decrypts to its plaintext trace, and what the workers hold is
  still good enough to be written;
* **Encryption is transparent** — `encryption_transparent`: in every run the table shows
  exactly the plaintext store.
-/

namespace IrlEngine

/-! ## The workers -/

/-- What is fixed for a run: the deployment, how ciphertexts are read, and the rows of
`irl.reasoning_traces_legacy`, which no statement writes. -/
structure VaultSetup where
  D : Deployment
  R : ReadSide
  legacy : List TraceRow

/-- What `gdpr_erase_agent` selects of a row. -/
structure ErasureRow where
  traceId : Uuid
  txnTime : DateTime
  stored : StoredJson

/-- What the erasure of an agent reads of a row. -/
def TraceRow.erasureRow (r : TraceRow) : ErasureRow := ⟨r.traceId, r.txnTime, r.stored⟩

/-- A call of `gdpr_erase_agent` with the rows of its page that it has not written yet. -/
structure ErasureJob where
  erasedAt : DateTime
  requestId : Uuid
  rows : List ErasureRow

/-- The tables, the unwritten rows of every batch of the backfill, and the erasures. -/
structure VaultState where
  sys : System
  batches : List (List (Uuid × Json))
  jobs : List ErasureJob

/-- No trace, and no worker that holds any. -/
def VaultState.init : VaultState := ⟨.init, [], []⟩

/-- A step of the store, of the backfill of old rows, or of an erasure. -/
inductive VaultEvent where
  /-- An insert, a bind or an expiry. -/
  | system (e : Event)
  /-- A batch select of the backfill; locks, cursor and limit leave the rows at `picks`. -/
  | backfillRead (picks : List ℕ)
  /-- `encrypt_one_row` of the first unwritten row of the `k`-th batch. -/
  | backfillWrite (k : ℕ) (draw : EncryptionDraw)
  /-- A page select of an erasure, from the unified view if there is one. -/
  | gdprRead (unifiedExists : Bool) (agentId : Uuid) (erasedAt : DateTime) (requestId : Uuid)
      (picks : List ℕ)
  /-- Decryption, erasure and update of the first unwritten row of the `k`-th page. -/
  | gdprWrite (k : ℕ) (draw : EncryptionDraw)

/-- Some rows of a table in some order. -/
def pickRows (picks : List ℕ) (t : List TraceRow) : List TraceRow := picks.filterMap fun i => t[i]?

theorem mem_of_mem_pickRows {picks : List ℕ} {t : List TraceRow} {r : TraceRow}
    (h : r ∈ pickRows picks t) : r ∈ t := by
  obtain ⟨i, -, hi⟩ := List.mem_filterMap.1 h
  exact List.mem_of_getElem? hi

/-- `SELECT trace_id, trace_json … WHERE encryption_version = 0`. -/
def plaintextBatch (picks : List ℕ) (traces : List TraceRow) : List (Uuid × Json) :=
  ((pickRows picks traces).filter fun r => r.encryptionVersion = 0).map
    fun r => (r.traceId, r.traceJson)

/-- `SELECT … FROM source_table WHERE agent_id = $1`. -/
def erasurePage (legacy : List TraceRow) (unifiedExists : Bool) (agentId : Uuid) (picks : List ℕ)
    (traces : List TraceRow) : List ErasureRow :=
  let sourceTable := if unifiedExists then legacy ++ traces else traces
  ((pickRows picks sourceTable).filter fun r => r.agentId = some agentId).map TraceRow.erasureRow

/-- Does the event belong to one of the workers? -/
def Event.isWorker : Event → Bool
  | .encryptOneRow _ _ => true
  | .gdprUpdate _ _ _ _ _ => true
  | _ => false

/-- What an erasure writes for a row it has read. -/
def eraseRow (V : VaultSetup) (draw : EncryptionDraw) (q : ErasureRow) :
    Except AppError StoredJson :=
  match decryptTraceJson V.D.K V.R q.stored with
  | .error e => .error e
  | .ok decrypted => encryptJson V.D.K draw (nullPiiFields decrypted)

/-! ## Steps -/

/-- A worker that meets an error gives up the rows it has left. -/
def vaultStep (V : VaultSetup) (s : VaultState) : VaultEvent → Option VaultState
  | .system e =>
    if e.isWorker then none
    else
      match step V.D s.sys e with
      | none => none
      | some sys =>
        -- trace ids are fresh in the unified view
        if ∀ r ∈ sys.traces, r.traceId ∉ V.legacy.map TraceRow.traceId then
          some { s with sys := sys }
        else none
  | .backfillRead picks =>
    some { s with batches := s.batches ++ [plaintextBatch picks s.sys.traces] }
  | .backfillWrite k draw =>
    match s.batches[k]? with
    | some (item :: rest) =>
      match encryptJson V.D.K draw item.2 with
      | .error _ => some { s with batches := s.batches.set k [] }
      | .ok stored => some { s with
          sys := { s.sys with traces := encryptOneRow item.1 stored s.sys.traces }
          batches := s.batches.set k rest }
    | _ => none
  | .gdprRead unifiedExists agentId erasedAt requestId picks =>
    let page := erasurePage V.legacy unifiedExists agentId picks s.sys.traces
    some { s with jobs := s.jobs ++ [⟨erasedAt, requestId, page⟩] }
  | .gdprWrite k draw =>
    match s.jobs[k]? with
    | some ⟨erasedAt, requestId, q :: rest⟩ =>
      match eraseRow V draw q with
      | .error _ => some { s with jobs := s.jobs.set k ⟨erasedAt, requestId, []⟩ }
      | .ok stored => some { s with
          sys := { s.sys with
            traces := gdprUpdate q.traceId q.txnTime stored erasedAt requestId s.sys.traces }
          jobs := s.jobs.set k ⟨erasedAt, requestId, rest⟩ }
    | _ => none

/-- A step is a step of the life cycle, or leaves the tables alone. -/
theorem sys_of_vaultStep {V : VaultSetup} {s s' : VaultState} {e : VaultEvent}
    (h : vaultStep V s e = some s') : s'.sys = s.sys ∨ ∃ e', step V.D s.sys e' = some s'.sys := by
  cases e with
  | system e =>
    simp only [vaultStep] at h
    split_ifs at h with hw
    cases hstep : step V.D s.sys e with
    | none => rw [hstep] at h; exact absurd h (by simp)
    | some sys =>
      rw [hstep] at h
      simp only at h
      split_ifs at h with hlegacy
      rw [← Option.some.inj h]
      exact Or.inr ⟨e, hstep⟩
  | backfillRead picks => rw [← Option.some.inj h]; exact Or.inl rfl
  | backfillWrite k draw =>
    simp only [vaultStep] at h
    split at h
    · rename_i item rest hk
      split at h
      · rw [← Option.some.inj h]; exact Or.inl rfl
      · rename_i stored hstored
        rw [← Option.some.inj h]
        exact Or.inr ⟨.encryptOneRow item.1 stored, rfl⟩
    · exact absurd h (by simp)
  | gdprRead unifiedExists agentId erasedAt requestId picks =>
    rw [← Option.some.inj h]; exact Or.inl rfl
  | gdprWrite k draw =>
    simp only [vaultStep] at h
    split at h
    · rename_i erasedAt requestId q rest hk
      split at h
      · rw [← Option.some.inj h]; exact Or.inl rfl
      · rename_i stored hstored
        rw [← Option.some.inj h]
        exact Or.inr ⟨.gdprUpdate q.traceId q.txnTime stored erasedAt requestId, rfl⟩
    · exact absurd h (by simp)

/-- The tables of a run are reachable in the life cycle of a trace, so its results hold of them. -/
theorem reachable_of_run {V : VaultSetup} {es : List VaultEvent} {s : VaultState}
    (h : Run.run (vaultStep V) .init es = some s) : Reachable V.D s.sys := by
  refine Run.run_invariant (I := fun s : VaultState => Reachable V.D s.sys) ?_ h ⟨[], rfl⟩
  exact fun s e t hs hstep => hs.next (sys_of_vaultStep hstep)

/-! ## The plaintext store -/

/-- A trace in the plaintext store. -/
structure PlainTrace where
  traceId : Uuid
  json : Json
  erased : Bool

/-- Erase the trace with this id. -/
def PlainTrace.erase (traceId : Uuid) (t : PlainTrace) : PlainTrace :=
  if t.traceId = traceId then { t with json := nullPiiFields t.json, erased := true } else t

/-- The serialized trace of an insert. -/
def InsertArgs.plain (K : Crates) (a : InsertArgs) : PlainTrace :=
  ⟨a.snapshot.traceId, (a.trace.toJson K).normalize, false⟩

/-- What the event means for the plaintext store: an insert that goes through adds its
trace, an erasure that goes through erases one, and everything else does nothing. -/
def plainStep (V : VaultSetup) (s s' : VaultState) (p : List PlainTrace) :
    VaultEvent → List PlainTrace
  | .system e =>
    if s.sys.traces.length < s'.sys.traces.length then
      p ++ ((insertedBy V.D e).map fun a => a.plain V.D.K).toList
    else p
  | .gdprWrite k draw =>
    match s.jobs[k]? with
    | some ⟨_, _, q :: _⟩ =>
      match eraseRow V draw q with
      | .error _ => p
      | .ok _ => p.map (PlainTrace.erase q.traceId)
    | _ => p
  | _ => p

/-- Both stores side by side. -/
def bothStep (V : VaultSetup) :
    VaultState × List PlainTrace → VaultEvent → Option (VaultState × List PlainTrace) :=
  Run.withShadow (vaultStep V) (plainStep V)

/-- The JSON of a row as its readers see it. -/
def VaultSetup.dec (V : VaultSetup) (r : TraceRow) : Except AppError Json :=
  decryptIfNeeded V.D.K (some V.R) r.stored

/-- A row reveals a plaintext trace. -/
structure Reveals (V : VaultSetup) (r : TraceRow) (t : PlainTrace) : Prop where
  traceId : r.traceId = t.traceId
  dec : V.dec r = .ok t.json
  erased : r.gdprErasedAt.isSome = t.erased
  nulled : t.erased = true → nullPiiFields t.json = t.json

/-- The data key that an insert draws unwraps to itself, and the numbers of its trace read back. -/
structure InsertArgs.Honest (V : VaultSetup) (a : InsertArgs) : Prop where
  key : ∀ draw, a.key = some draw → draw.Honest V.R.provider
  numbers : (a.trace.toJson V.D.K).normalize.Numbers V.D.K.ReadsNumber

/-- The same of every data key that the event draws, and of every trace that it inserts. -/
def VaultEvent.Honest (V : VaultSetup) : VaultEvent → Prop
  | .system e => ∀ a, insertedBy V.D e = some a → a.Honest V
  | .backfillWrite _ draw => draw.Honest V.R.provider
  | .gdprWrite _ draw => draw.Honest V.R.provider
  | _ => True

/-! ## What a step can do -/

/-- The row has been neither rewritten nor erased. -/
structure SameJson (r r' : TraceRow) : Prop where
  traceId : r'.traceId = r.traceId
  txnTime : r'.txnTime = r.txnTime
  stored : r'.stored = r.stored
  gdprErasedAt : r'.gdprErasedAt = r.gdprErasedAt

theorem SameJson.refl (r : TraceRow) : SameJson r r := ⟨rfl, rfl, rfl, rfl⟩

/-- What an event that belongs to no worker can make of the trace table: it keeps the stored
JSON of every row, or appends the row of an insert. -/
inductive TableChange (D : Deployment) (t : List TraceRow) (e : Event) : List TraceRow → Prop where
  | rows (g : TraceRow → TraceRow) (hg : ∀ r, SameJson r (g r)) : TableChange D t e (t.map g)
  | insert (a : InsertArgs) (r : TraceRow) (ha : insertedBy D e = some a)
      (hr : traceRow D.K a = .ok r) (hfresh : r.traceId ∉ t.map TraceRow.traceId) :
      TableChange D t e (t ++ [r])

theorem TableChange.refl (D : Deployment) (t : List TraceRow) (e : Event) :
    TableChange D t e t := by
  have h := TableChange.rows (D := D) (t := t) (e := e) id SameJson.refl
  rwa [List.map_id] at h

theorem TableChange.updateWhere (D : Deployment) (t : List TraceRow) (e : Event)
    (p : TraceRow → Bool) {f : TraceRow → TraceRow} (hf : ∀ r, SameJson r (f r)) :
    TableChange D t e (Table.updateWhere p f t) := by
  refine .rows (fun r => if p r then f r else r) fun r => ?_
  split_ifs
  · exact hf r
  · exact SameJson.refl r

theorem tableChange_of_insert {D : Deployment} {s s' : System} {e : Event} (he : e.isInsert = true)
    (h : step D s e = some s') : TableChange D s.traces e s'.traces := by
  rcases insertStep_of_step he h with rfl | ⟨a, r, ha, hins⟩
  · exact .refl D s'.traces e
  · rw [hins.next]
    exact .insert a r ha hins.row hins.fresh

/-- **Inserts, binds and expiries** change the table in these two ways only. -/
theorem tableChange_of_step {D : Deployment} {s s' : System} {e : Event} (hw : e.isWorker = false)
    (h : step D s e = some s') : TableChange D s.traces e s'.traces := by
  cases e with
  | insertTrace a => exact tableChange_of_insert rfl h
  | insertTraceAtomic a check => exact tableChange_of_insert rfl h
  | authorize call => exact tableChange_of_insert rfl h
  | bindRead req =>
    simp only [step] at h
    split at h <;> rw [← Option.some.inj h] <;> exact .refl D s.traces _
  | bindUpdate k now =>
    simp only [step] at h
    split at h
    · rw [← Option.some.inj h]
      exact .updateWhere D s.traces _ _ fun r => ⟨rfl, rfl, rfl, rfl⟩
    · exact absurd h (by simp)
  | bindLedger k =>
    simp only [step] at h
    split at h
    · rw [← Option.some.inj h]
      exact .refl D s.traces _
    · exact absurd h (by simp)
  | expirePending nowMicros =>
    rw [← Option.some.inj h]
    exact .updateWhere D s.traces _ _ fun r => ⟨rfl, rfl, rfl, rfl⟩
  | encryptOneRow traceId stored => exact absurd hw (by simp [Event.isWorker])
  | gdprUpdate traceId txnTime stored erasedAt requestId =>
    exact absurd hw (by simp [Event.isWorker])

/-! ## The invariant -/

/-- A row reveals a plaintext trace that can be read back. -/
structure Holds (V : VaultSetup) (r : TraceRow) (t : PlainTrace) : Prop extends Reveals V r t where
  value : V.D.K.Reads t.json

/-- A row of a batch: while it is plaintext its JSON is the one that was read. -/
structure BatchGood (traces : List TraceRow) (item : Uuid × Json) : Prop where
  known : item.1 ∈ traces.map TraceRow.traceId
  unchanged : ∀ r ∈ traces, r.traceId = item.1 → r.encryptionVersion = 0 → r.traceJson = item.2

/-- A row of a page: what was read and what is there differ in erased fields at most. -/
structure PageGood (V : VaultSetup) (traces : List TraceRow) (q : ErasureRow) : Prop where
  known : q.traceId ∈ V.legacy.map TraceRow.traceId ++ traces.map TraceRow.traceId
  txnTime : ∀ r ∈ traces, r.traceId = q.traceId → r.txnTime = q.txnTime
  nulls : ∀ r ∈ traces, r.traceId = q.traceId → ∀ v w, decryptTraceJson V.D.K V.R q.stored = .ok v →
    V.dec r = .ok w → nullPiiFields v = nullPiiFields w

/-- What every reachable state keeps, along the plain traces `p` that its rows stand for. -/
structure VaultInv (V : VaultSetup) (s : VaultState) (p : List PlainTrace) : Prop where
  unique : (s.sys.traces.map TraceRow.traceId).Nodup
  apart : ∀ r ∈ s.sys.traces, r.traceId ∉ V.legacy.map TraceRow.traceId
  holds : List.Forall₂ (Holds V) s.sys.traces p
  batches : ∀ b ∈ s.batches, ∀ item ∈ b, BatchGood s.sys.traces item
  jobs : ∀ j ∈ s.jobs, ∀ q ∈ j.rows, PageGood V s.sys.traces q

/-- What a row may become while a worker holds what it read of it. -/
structure Evolves (V : VaultSetup) (r r' : TraceRow) : Prop where
  traceId : r'.traceId = r.traceId
  txnTime : r'.txnTime = r.txnTime
  plain : r'.encryptionVersion = 0 → r.encryptionVersion = 0 ∧ r'.traceJson = r.traceJson
  nulls : ∀ w', V.dec r' = .ok w' → ∃ w, V.dec r = .ok w ∧ nullPiiFields w = nullPiiFields w'

theorem Evolves.of_sameJson {V : VaultSetup} {r r' : TraceRow} (h : SameJson r r') :
    Evolves V r r' where
  traceId := h.traceId
  txnTime := h.txnTime
  plain := fun hv => by
    have hversion : r'.encryptionVersion = r.encryptionVersion :=
      congrArg StoredJson.encryptionVersion h.stored
    exact ⟨hversion ▸ hv, congrArg StoredJson.traceJson h.stored⟩
  nulls := fun w' hw' => ⟨w', by rwa [VaultSetup.dec, ← h.stored], rfl⟩

/-- Rows evolve and new ones have new ids. -/
structure Grows (V : VaultSetup) (t u : List TraceRow) : Prop where
  ids : t.map TraceRow.traceId ⊆ u.map TraceRow.traceId
  rows : ∀ r' ∈ u, (∃ r ∈ t, Evolves V r r') ∨
    r'.traceId ∉ V.legacy.map TraceRow.traceId ++ t.map TraceRow.traceId

section Grows

variable {V : VaultSetup} {t u : List TraceRow}

theorem grows_map {g : TraceRow → TraceRow} (h : ∀ r ∈ t, Evolves V r (g r)) :
    Grows V t (t.map g) := by
  constructor
  · intro id hid
    obtain ⟨r, hr, rfl⟩ := List.mem_map.1 hid
    exact List.mem_map.2 ⟨g r, List.mem_map_of_mem hr, (h r hr).traceId⟩
  · intro r' hr'
    obtain ⟨r, hr, rfl⟩ := List.mem_map.1 hr'
    exact Or.inl ⟨r, hr, h r hr⟩

theorem grows_append {r : TraceRow}
    (h : r.traceId ∉ V.legacy.map TraceRow.traceId ++ t.map TraceRow.traceId) :
    Grows V t (t ++ [r]) := by
  constructor
  · rw [List.map_append]
    exact List.subset_append_left _ _
  · intro r' hr'
    rcases List.mem_append.1 hr' with hr' | hr'
    · exact Or.inl ⟨r', hr', .of_sameJson (SameJson.refl r')⟩
    · rw [List.mem_singleton.1 hr']
      exact Or.inr h

/-- What a backfill worker holds stays good: a row that has been rewritten is encrypted. -/
theorem Grows.batchGood (h : Grows V t u) {item : Uuid × Json} (hi : BatchGood t item) :
    BatchGood u item := by
  refine ⟨h.ids hi.known, fun r' hr' hid hv => ?_⟩
  rcases h.rows r' hr' with ⟨r, hr, hev⟩ | hfresh
  · obtain ⟨hv, hjson⟩ := hev.plain hv
    rw [hjson]
    exact hi.unchanged r hr (hev.traceId ▸ hid) hv
  · exact absurd (List.mem_append_right _ hi.known) (hid ▸ hfresh)

/-- What an erasure holds stays good: a row has changed in erased fields at most. -/
theorem Grows.pageGood (h : Grows V t u) {q : ErasureRow} (hq : PageGood V t q) :
    PageGood V u q := by
  have hcases : ∀ r' ∈ u, r'.traceId = q.traceId → ∃ r ∈ t, Evolves V r r' := by
    intro r' hr' hid
    rcases h.rows r' hr' with hev | hfresh
    · exact hev
    · exact absurd hq.known (hid ▸ hfresh)
  refine ⟨?_, fun r' hr' hid => ?_, fun r' hr' hid v w' hv hw' => ?_⟩
  · rcases List.mem_append.1 hq.known with hk | hk
    · exact List.mem_append_left _ hk
    · exact List.mem_append_right _ (h.ids hk)
  · obtain ⟨r, hr, hev⟩ := hcases r' hr' hid
    rw [hev.txnTime]
    exact hq.txnTime r hr (hev.traceId ▸ hid)
  · obtain ⟨r, hr, hev⟩ := hcases r' hr' hid
    obtain ⟨w, hw, hnull⟩ := hev.nulls w' hw'
    rw [← hnull]
    exact hq.nulls r hr (hev.traceId ▸ hid) v w hv hw

end Grows

/-! ## Each event keeps the invariant -/

section Steps

variable {V : VaultSetup} {s s' : VaultState} {p : List PlainTrace}

/-- The rows of the table that a reader may find under an id are one row. -/
theorem VaultInv.row_unique (hi : VaultInv V s p) {r r' : TraceRow} (hr : r ∈ s.sys.traces)
    (hr' : r' ∈ s.sys.traces) (h : r.traceId = r'.traceId) : r = r' :=
  List.inj_on_of_nodup_map hi.unique hr hr' h

theorem batchGood_of_read (hi : VaultInv V s p) {picks : List ℕ} {item : Uuid × Json}
    (h : item ∈ plaintextBatch picks s.sys.traces) : BatchGood s.sys.traces item := by
  obtain ⟨r, hr, rfl⟩ := List.mem_map.1 h
  have hmem : r ∈ s.sys.traces := mem_of_mem_pickRows (List.mem_filter.1 hr).1
  refine ⟨List.mem_map_of_mem hmem, fun r' hr' hid _ => ?_⟩
  rw [hi.row_unique hr' hmem hid]

theorem pageGood_of_read (hi : VaultInv V s p) {unifiedExists : Bool} {agentId : Uuid}
    {picks : List ℕ} {q : ErasureRow}
    (h : q ∈ erasurePage V.legacy unifiedExists agentId picks s.sys.traces) :
    PageGood V s.sys.traces q := by
  obtain ⟨r, hr, rfl⟩ := List.mem_map.1 h
  have hsource : r ∈ V.legacy ++ s.sys.traces := by
    have hpick := mem_of_mem_pickRows (List.mem_filter.1 hr).1
    split_ifs at hpick
    · exact hpick
    · exact List.mem_append_right _ hpick
  -- a row of the legacy table shares its id with no row that can be updated
  have hsame : ∀ r' ∈ s.sys.traces, r'.traceId = r.traceId → r' = r := by
    intro r' hr' hid
    rcases List.mem_append.1 hsource with hl | ht
    · exact absurd (List.mem_map_of_mem hl) (hid ▸ hi.apart r' hr')
    · exact hi.row_unique hr' ht hid
  refine ⟨?_, fun r' hr' hid => ?_, fun r' hr' hid v w hv hw => ?_⟩
  · rw [← List.map_append]
    exact List.mem_map_of_mem hsource
  · rw [hsame r' hr' hid]
    rfl
  · rw [hsame r' hr' hid] at hw
    rw [decryptTraceJson_eq] at hv
    rw [Except.ok.inj (hv.symm.trans hw)]

theorem dec_of_version_zero {r : TraceRow} (h : r.encryptionVersion = 0) :
    V.dec r = .ok r.traceJson := if_pos h

theorem stored_recode {draw : EncryptionDraw} {value : Json} {stored : StoredJson}
    (h : encryptJson V.D.K draw value = .ok stored) (r : TraceRow) :
    (r.recode stored).stored = stored := by
  obtain ⟨grant, ciphertext, -, -, rfl⟩ := encryptJson_ok h
  rfl

/-- A row rewritten with the encryption of a value decrypts to that value. -/
theorem dec_of_stored (hK : V.D.K.RoundTrip) {draw : EncryptionDraw}
    (hdraw : draw.Honest V.R.provider) {value : Json} (hvalue : V.D.K.Reads value)
    {stored : StoredJson} (h : encryptJson V.D.K draw value = .ok stored) {r : TraceRow}
    (hr : r.stored = stored) : V.dec r = .ok value := by
  rw [VaultSetup.dec, hr]
  exact decrypt_encryptJson hK hdraw hvalue h

/-- A plaintext row that the backfill encrypts reveals the same trace as before. -/
theorem holds_recode (hK : V.D.K.RoundTrip) {draw : EncryptionDraw}
    (hdraw : draw.Honest V.R.provider) {r : TraceRow} {t : PlainTrace} (h : Holds V r t)
    (hv : r.encryptionVersion = 0) {stored : StoredJson}
    (hstored : encryptJson V.D.K draw r.traceJson = .ok stored) :
    Holds V (r.recode stored) t ∧ Evolves V r (r.recode stored) := by
  have hjson : r.traceJson = t.json := Except.ok.inj ((dec_of_version_zero hv).symm.trans h.dec)
  rw [hjson] at hstored
  have hdec : V.dec (r.recode stored) = .ok t.json :=
    dec_of_stored hK hdraw h.value hstored (stored_recode hstored r)
  refine ⟨⟨⟨h.traceId, hdec, h.erased, h.nulled⟩, h.value⟩, ⟨rfl, rfl, ?_, ?_⟩⟩
  · intro h0
    exact absurd h0 (show ¬ (1 : Int32) = 0 by decide)
  · intro w' hw'
    exact ⟨t.json, h.dec, congrArg nullPiiFields (Except.ok.inj (hdec.symm.trans hw'))⟩

/-- The columns that an erasure writes. -/
def TraceRow.eraseTo (r : TraceRow) (stored : StoredJson) (erasedAt : DateTime) (requestId : Uuid) :
    TraceRow :=
  { r.recode stored with gdprErasedAt := some erasedAt, gdprRequestId := some requestId }

/-- A row that an erasure rewrites reveals the erased trace, whatever happened to it since it
was read. -/
theorem holds_eraseTo (hK : V.D.K.RoundTrip) {draw : EncryptionDraw}
    (hdraw : draw.Honest V.R.provider) {r : TraceRow} {t : PlainTrace} (h : Holds V r t) {v : Json}
    (hnull : nullPiiFields v = nullPiiFields t.json) {stored : StoredJson}
    (hstored : encryptJson V.D.K draw (nullPiiFields v) = .ok stored) (erasedAt : DateTime)
    (requestId : Uuid) :
    Holds V (r.eraseTo stored erasedAt requestId) (t.erase r.traceId) ∧
      Evolves V r (r.eraseTo stored erasedAt requestId) := by
  rw [hnull] at hstored
  have hvalue := h.value.nullPiiFields
  have hdec : V.dec (r.eraseTo stored erasedAt requestId) = .ok (nullPiiFields t.json) :=
    dec_of_stored hK hdraw hvalue hstored (stored_recode hstored r)
  have hplain : t.erase r.traceId = ⟨t.traceId, nullPiiFields t.json, true⟩ := if_pos h.traceId.symm
  refine ⟨?_, ⟨rfl, rfl, ?_, ?_⟩⟩
  · rw [hplain]
    exact ⟨⟨h.traceId, hdec, rfl, fun _ => nullPiiFields_nullPiiFields t.json⟩, hvalue⟩
  · intro h0
    exact absurd h0 (show ¬ (1 : Int32) = 0 by decide)
  · intro w' hw'
    refine ⟨t.json, h.dec, ?_⟩
    rw [← Except.ok.inj (hdec.symm.trans hw'), nullPiiFields_nullPiiFields]

/-- Rewriting the rows one by one keeps the invariant, when each keeps its part of it. -/
theorem VaultInv.rewrite (hi : VaultInv V s p) (s' : VaultState) {g : TraceRow → TraceRow}
    {h : PlainTrace → PlainTrace}
    (hrows : ∀ r ∈ s.sys.traces, ∀ t, Holds V r t → Holds V (g r) (h t) ∧ Evolves V r (g r))
    (hsys : s'.sys.traces = s.sys.traces.map g)
    (hbatches : ∀ b ∈ s'.batches, ∀ item ∈ b, BatchGood s.sys.traces item)
    (hjobs : ∀ j ∈ s'.jobs, ∀ q ∈ j.rows, PageGood V s.sys.traces q) : VaultInv V s' (p.map h) := by
  have hev : ∀ r ∈ s.sys.traces, Evolves V r (g r) := by
    intro r hr
    obtain ⟨t, -, ht⟩ := Table.exists_of_forall₂ hi.holds hr
    exact (hrows r hr t ht).2
  have hgrows : Grows V s.sys.traces s'.sys.traces := hsys ▸ grows_map hev
  have hids : s'.sys.traces.map TraceRow.traceId = s.sys.traces.map TraceRow.traceId := by
    rw [hsys, List.map_map]
    exact List.map_congr_left fun r hr => (hev r hr).traceId
  refine ⟨by rw [hids]; exact hi.unique, ?_, ?_, ?_, ?_⟩
  · intro r' hr'
    rw [hsys] at hr'
    obtain ⟨r, hr, rfl⟩ := List.mem_map.1 hr'
    rw [(hev r hr).traceId]
    exact hi.apart r hr
  · rw [hsys]
    exact Table.forall₂_map hi.holds fun r hr t ht => (hrows r hr t ht).1
  · exact fun b hb item hitem => hgrows.batchGood (hbatches b hb item hitem)
  · exact fun j hj q hq => hgrows.pageGood (hjobs j hj q hq)

/-- What an insert stores decrypts to the serialized trace. -/
theorem holds_insert (hK : V.D.K.RoundTrip) {a : InsertArgs} {r : TraceRow}
    (hr : traceRow V.D.K a = .ok r) (ha : a.Honest V) : Holds V r (a.plain V.D.K) := by
  obtain ⟨stored, validTime, txnTime, hstored, -, -, rfl⟩ := traceRow_ok hr
  have hvalue : V.D.K.Reads (a.trace.toJson V.D.K).normalize :=
    ⟨isValue_trace V.D.K a.trace, ha.numbers⟩
  refine ⟨⟨rfl, ?_, rfl, fun h => absurd h Bool.false_ne_true⟩, hvalue⟩
  show decryptIfNeeded V.D.K (some V.R) stored = .ok (a.trace.toJson V.D.K).normalize
  cases hk : a.key with
  | none =>
    rw [hk] at hstored
    rw [← Except.ok.inj hstored]
    rfl
  | some draw =>
    rw [hk] at hstored
    exact decrypt_encryptJson hK (ha.key draw hk) hvalue hstored

theorem vaultInv_insert (hK : V.D.K.RoundTrip) (hi : VaultInv V s p) {a : InsertArgs} {r : TraceRow}
    (hr : traceRow V.D.K a = .ok r) (ha : a.Honest V)
    (hfresh : r.traceId ∉ s.sys.traces.map TraceRow.traceId)
    (hlegacy : r.traceId ∉ V.legacy.map TraceRow.traceId) {sys : System}
    (hsys : sys.traces = s.sys.traces ++ [r]) :
    VaultInv V { s with sys := sys } (p ++ [a.plain V.D.K]) := by
  have hgrows : Grows V s.sys.traces sys.traces := by
    rw [hsys]
    refine grows_append fun hmem => ?_
    exact (List.mem_append.1 hmem).elim hlegacy hfresh
  refine ⟨?_, ?_, ?_, ?_, ?_⟩
  · show (sys.traces.map TraceRow.traceId).Nodup
    rw [hsys, List.map_append, List.map_singleton]
    exact List.nodup_append.2 ⟨hi.unique, List.nodup_singleton _, fun x hx y hy hxy => hfresh (by
      rw [List.mem_singleton.1 hy] at hxy; exact hxy ▸ hx)⟩
  · intro r' hr'
    have hmem : r' ∈ s.sys.traces ++ [r] := hsys ▸ hr'
    rcases List.mem_append.1 hmem with hr' | hr'
    · exact hi.apart r' hr'
    · rw [List.mem_singleton.1 hr']
      exact hlegacy
  · show List.Forall₂ (Holds V) sys.traces _
    rw [hsys]
    exact List.rel_append hi.holds (.cons (holds_insert hK hr ha) .nil)
  · exact fun b hb item hitem => hgrows.batchGood (hi.batches b hb item hitem)
  · exact fun j hj q hq => hgrows.pageGood (hi.jobs j hj q hq)

/-- Rows whose stored JSON is kept reveal what they did. -/
theorem holds_sameJson {r r' : TraceRow} {t : PlainTrace} (h : Holds V r t)
    (hsame : SameJson r r') : Holds V r' t :=
  ⟨⟨hsame.traceId.trans h.traceId, by rw [VaultSetup.dec, hsame.stored]; exact h.dec,
    by rw [hsame.gdprErasedAt]; exact h.erased, h.nulled⟩, h.value⟩

theorem vaultInv_system (hK : V.D.K.RoundTrip) (hi : VaultInv V s p) {e : Event}
    (he : (VaultEvent.system e).Honest V) (h : vaultStep V s (.system e) = some s') :
    VaultInv V s' (plainStep V s s' p (.system e)) := by
  simp only [vaultStep] at h
  split_ifs at h with hw
  cases hstep : step V.D s.sys e with
  | none => rw [hstep] at h; exact absurd h (by simp)
  | some sys =>
    rw [hstep] at h
    simp only at h
    split_ifs at h with hlegacy
    obtain rfl := Option.some.inj h
    have hchange := tableChange_of_step (by simpa using hw) hstep
    generalize hsys : sys.traces = traces at hchange
    cases hchange with
    | rows g hg =>
      have hinv := hi.rewrite { s with sys := sys } (h := id)
        (fun r _ t ht => ⟨holds_sameJson ht (hg r), .of_sameJson (hg r)⟩) hsys hi.batches hi.jobs
      rw [List.map_id] at hinv
      rw [plainStep, if_neg (by simp [hsys])]
      exact hinv
    | insert a r ha hr hfresh =>
      rw [plainStep, if_pos (by simp [hsys]), ha]
      refine vaultInv_insert hK hi hr (he a ha) hfresh ?_ hsys
      exact hlegacy r (by rw [hsys]; simp)

theorem vaultInv_backfillWrite (hK : V.D.K.RoundTrip) (hi : VaultInv V s p) {k : ℕ}
    {draw : EncryptionDraw} (hdraw : draw.Honest V.R.provider)
    (h : vaultStep V s (.backfillWrite k draw) = some s') : VaultInv V s' p := by
  simp only [vaultStep] at h
  split at h
  · rename_i item rest hk
    have hbatch : item :: rest ∈ s.batches := List.mem_of_getElem? hk
    have hitems := hi.batches _ hbatch
    have hset : ∀ c, c ⊆ item :: rest → ∀ b ∈ s.batches.set k c, ∀ i ∈ b,
        BatchGood s.sys.traces i := by
      intro c hc b hb i hib
      rcases List.mem_or_eq_of_mem_set hb with hb | rfl
      · exact hi.batches b hb i hib
      · exact hitems i (hc hib)
    cases hstored : encryptJson V.D.K draw item.2 with
    | error e =>
      rw [hstored] at h
      obtain rfl := Option.some.inj h
      exact ⟨hi.unique, hi.apart, hi.holds, hset [] (by simp), hi.jobs⟩
    | ok stored =>
      rw [hstored] at h
      obtain rfl := Option.some.inj h
      have hinv := hi.rewrite { s with
          sys := { s.sys with traces := encryptOneRow item.1 stored s.sys.traces }
          batches := s.batches.set k rest } (h := id) ?_ rfl (hset rest (by simp)) hi.jobs
      · rwa [List.map_id] at hinv
      · intro r hr t ht
        split_ifs with hp
        · obtain ⟨hid, hv⟩ := of_decide_eq_true hp
          have hjson := (hitems item (by simp)).unchanged r hr hid hv
          exact holds_recode hK hdraw ht hv (hjson ▸ hstored)
        · exact ⟨ht, .of_sameJson (SameJson.refl r)⟩
  · exact absurd h (by simp)

theorem eraseRow_ok {draw : EncryptionDraw} {q : ErasureRow} {stored : StoredJson}
    (h : eraseRow V draw q = .ok stored) : ∃ v, decryptTraceJson V.D.K V.R q.stored = .ok v ∧
      encryptJson V.D.K draw (nullPiiFields v) = .ok stored := by
  unfold eraseRow at h
  cases hv : decryptTraceJson V.D.K V.R q.stored with
  | error e => rw [hv] at h; exact absurd h (by simp)
  | ok v => rw [hv] at h; exact ⟨v, rfl, h⟩

theorem vaultInv_gdprWrite (hK : V.D.K.RoundTrip) (hi : VaultInv V s p) {k : ℕ}
    {draw : EncryptionDraw} (hdraw : draw.Honest V.R.provider)
    (h : vaultStep V s (.gdprWrite k draw) = some s') :
    VaultInv V s' (plainStep V s s' p (.gdprWrite k draw)) := by
  simp only [vaultStep] at h
  split at h
  · rename_i erasedAt requestId q rest hk
    have hjob := hi.jobs _ (List.mem_of_getElem? hk)
    have hset : ∀ c, c ⊆ q :: rest → ∀ j ∈ s.jobs.set k ⟨erasedAt, requestId, c⟩, ∀ i ∈ j.rows,
        PageGood V s.sys.traces i := by
      intro c hc j hj i hij
      rcases List.mem_or_eq_of_mem_set hj with hj | rfl
      · exact hi.jobs j hj i hij
      · exact hjob i (hc hij)
    simp only [plainStep, hk]
    cases hstored : eraseRow V draw q with
    | error e =>
      rw [hstored] at h
      obtain rfl := Option.some.inj h
      exact ⟨hi.unique, hi.apart, hi.holds, hi.batches, hset [] (by simp)⟩
    | ok stored =>
      rw [hstored] at h
      obtain rfl := Option.some.inj h
      obtain ⟨v, hv, henc⟩ := eraseRow_ok hstored
      have hq := hjob q (by simp)
      refine hi.rewrite { s with
          sys := { s.sys with
            traces := gdprUpdate q.traceId q.txnTime stored erasedAt requestId s.sys.traces }
          jobs := s.jobs.set k ⟨erasedAt, requestId, rest⟩ } ?_ rfl hi.batches (hset rest (by simp))
      intro r hr t ht
      split_ifs with hp
      · obtain ⟨hid, -⟩ := of_decide_eq_true hp
        rw [← hid]
        exact holds_eraseTo hK hdraw ht (hq.nulls r hr hid v t.json hv ht.dec) henc
          erasedAt requestId
      · have hid : t.traceId ≠ q.traceId := by
          intro hid
          have hrid := ht.traceId.trans hid
          exact hp (decide_eq_true ⟨hrid, hq.txnTime r hr hrid⟩)
        rw [PlainTrace.erase, if_neg hid]
        exact ⟨ht, .of_sameJson (SameJson.refl r)⟩
  · exact absurd h (by simp)

/-- **Every step keeps the invariant**, the plaintext store moving along. -/
theorem vaultInv_step (hK : V.D.K.RoundTrip) (hi : VaultInv V s p) {e : VaultEvent}
    (he : e.Honest V) (h : vaultStep V s e = some s') : VaultInv V s' (plainStep V s s' p e) := by
  cases e with
  | system e => exact vaultInv_system hK hi he h
  | backfillRead picks =>
    obtain rfl := Option.some.inj h
    refine ⟨hi.unique, hi.apart, hi.holds, fun b hb item hitem => ?_, hi.jobs⟩
    rcases List.mem_append.1 hb with hb | hb
    · exact hi.batches b hb item hitem
    · rw [List.mem_singleton.1 hb] at hitem
      exact batchGood_of_read hi hitem
  | backfillWrite k draw => exact vaultInv_backfillWrite hK hi he h
  | gdprRead unifiedExists agentId erasedAt requestId picks =>
    obtain rfl := Option.some.inj h
    refine ⟨hi.unique, hi.apart, hi.holds, hi.batches, fun j hj q hq => ?_⟩
    rcases List.mem_append.1 hj with hj | hj
    · exact hi.jobs j hj q hq
    · rw [List.mem_singleton.1 hj] at hq
      exact pageGood_of_read hi hq
  | gdprWrite k draw => exact vaultInv_gdprWrite hK hi he h

end Steps

/-! ## Transparency -/

/-- The backfill leaves every row alone that is already encrypted. -/
theorem mem_of_backfillWrite {V : VaultSetup} {s s' : VaultState} {k : ℕ} {draw : EncryptionDraw}
    (h : vaultStep V s (.backfillWrite k draw) = some s') {r : TraceRow} (hr : r ∈ s.sys.traces)
    (hv : r.encryptionVersion = 1) : r ∈ s'.sys.traces := by
  simp only [vaultStep] at h
  split at h
  · split at h
    · rw [← Option.some.inj h]
      exact hr
    · rw [← Option.some.inj h]
      refine List.mem_map.2 ⟨r, hr, if_neg ?_⟩
      simp [hv]
  · exact absurd h (by simp)

/-- Along a run of both stores the invariant holds. -/
theorem vaultInv_of_run {V : VaultSetup} (hK : V.D.K.RoundTrip) {es : List VaultEvent}
    (hes : ∀ e ∈ es, e.Honest V) {s : VaultState} {p : List PlainTrace}
    (hrun : Run.run (bothStep V) (.init, []) es = some (s, p)) : VaultInv V s p := by
  have hinit : VaultInv V .init [] := by
    constructor <;> simp [VaultState.init, System.init]
  refine Run.run_invariant_along (I := fun x : VaultState × List PlainTrace => VaultInv V x.1 x.2)
    ?_ hrun (Run.along_of_forall hes _) hinit
  rintro ⟨s, p⟩ e ⟨s', p'⟩ hi he hstep
  obtain ⟨t, ht, heq⟩ := Option.map_eq_some_iff.1 hstep
  obtain ⟨rfl, rfl⟩ := Prod.mk.inj heq
  exact vaultInv_step hK hi he ht

/-- **Encryption is transparent.**  Every run of the encrypted store, whatever the order of its
inserts, binds, expiries, backfills and erasures, is followed by a run of the plaintext store in
which only an insert adds a trace and only an erasure changes one; each row decrypts to its
plaintext trace, an erased trace stays erased, and a backfill that comes late leaves an encrypted
row as it is. -/
theorem encryption_transparent (V : VaultSetup) (hK : V.D.K.RoundTrip) {es : List VaultEvent}
    (hes : ∀ e ∈ es, e.Honest V) {s : VaultState} (hrun : Run.run (vaultStep V) .init es = some s) :
    ∃ p, Run.run (bothStep V) (.init, []) es = some (s, p) ∧
      List.Forall₂ (Reveals V) s.sys.traces p ∧
      ∀ k draw s', vaultStep V s (.backfillWrite k draw) = some s' →
        ∀ r ∈ s.sys.traces, r.encryptionVersion = 1 → r ∈ s'.sys.traces := by
  obtain ⟨p, hboth⟩ := Run.exists_run_withShadow (plainStep V) hrun []
  have hinv := vaultInv_of_run hK hes hboth
  refine ⟨p, hboth, List.Forall₂.imp (fun _ _ h => h.toReveals) hinv.holds, ?_⟩
  intro k draw s' hstep r hr hv
  exact mem_of_backfillWrite hstep hr hv

/-! Two rows, one encrypted when it is inserted and one by the backfill, and the erasure of both. -/

/-- Crates whose parser reads back exactly what is serialized. -/
noncomputable def Crates.parsing : Crates :=
  { Crates.sample with
    fromSlice := fun bytes =>
      open Classical in
      if h : ∃ v, Json.IsValue 127 v ∧ toVec .sample v = bytes then .ok h.choose
      else .error "expected value" }

theorem toVec_injOn {K : Crates} (law : FloatText.Lawful K.floatText) {n : ℕ} {v w : Json}
    (hv : Json.IsValue n v) (hw : Json.IsValue n w) (h : toVec K v = toVec K w) : v = w := by
  have hprint := Text.encode_injective h
  rw [hv.normalize_eq, hw.normalize_eq] at hprint
  exact Json.print_injective law hprint

theorem fromSlice_parsing {v : Json} (hv : Json.IsValue 127 v) :
    Crates.parsing.fromSlice (toVec .parsing v) = .ok v := by
  have hex : ∃ w, Json.IsValue 127 w ∧ toVec .sample w = toVec .sample v := ⟨v, hv, rfl⟩
  have hchoose : hex.choose = v :=
    toVec_injOn sampleFloatText_lawful hex.choose_spec.1 hv hex.choose_spec.2
  exact (dif_pos hex).trans (congrArg Except.ok hchoose)

theorem roundTrip_parsing : Crates.parsing.RoundTrip := by
  refine ⟨?_, fun v hv => fromSlice_parsing hv.value⟩
  intro dek nonce plaintext ciphertext _ _ h
  exact absurd h (by simp [Crates.parsing, Crates.sample])

/-- Its parser reads every number back. -/
theorem reads_parsing {v : Json} (hv : Json.IsValue 127 v) : Crates.parsing.Reads v :=
  ⟨hv, hv.numbers fun x => fromSlice_parsing (.num 127 x)⟩

/-- A store without keys, and with no row from before. -/
noncomputable def VaultSetup.sample : VaultSetup :=
  ⟨⟨.parsing, .sample, []⟩, ⟨⟨fun _ _ => .error "key not found"⟩, fun _ => ""⟩, []⟩

/-- The crates with AES-256-GCM and the same parser. -/
noncomputable def Crates.sealing : Crates :=
  { Crates.parsing with
    aesGcmEncrypt := fun dek nonce plaintext => .ok (AesGcm.encrypt dek nonce plaintext)
    aesGcmDecrypt := fun dek nonce ciphertext =>
      match AesGcm.decrypt dek nonce ciphertext with
      | some plaintext => .ok plaintext
      | none => .error "aead::Error" }

theorem roundTrip_sealing : Crates.sealing.RoundTrip := by
  refine ⟨?_, fun v hv => fromSlice_parsing hv.value⟩
  intro dek nonce plaintext ciphertext _ _ h
  obtain rfl := Except.ok.inj h
  simp only [Crates.sealing, AesGcm.decrypt_encrypt]

theorem reads_sealing {v : Json} (hv : Json.IsValue 127 v) : Crates.sealing.Reads v :=
  ⟨hv, (reads_parsing hv).numbers⟩

/-- A data key of zeros, and its wrapped form. -/
def DekGrant.sample : DekGrant := ⟨List.replicate 32 0, [1], 1, rfl⟩

theorem length_zeroNonce : (List.replicate 12 (0 : UInt8)).length = 12 := rfl

/-- That data key, and a nonce of zeros. -/
def EncryptionDraw.sample : EncryptionDraw := ⟨.ok .sample, List.replicate 12 0, length_zeroNonce⟩

/-- A key provider that knows the one data key. -/
def KeyProvider.sample : KeyProvider :=
  ⟨fun encryptedDek _ =>
    if encryptedDek = [1] then .ok (List.replicate 32 0) else .error "key not found"⟩

theorem honest_sample : EncryptionDraw.sample.Honest .sample := by
  intro grant hgrant
  obtain rfl := Except.ok.inj hgrant
  rfl

/-- A store that encrypts, over these rows from before. -/
noncomputable def VaultSetup.sealing (legacy : List TraceRow) : VaultSetup :=
  ⟨⟨.sealing, .sample, []⟩, ⟨.sample, fun _ => ""⟩, legacy⟩

/-- A store with these crates takes any insert without a key. -/
theorem honest_plain {V : VaultSetup} {a : InsertArgs} (hkey : a.key = none)
    (hreads : ∀ v, Json.IsValue 127 v → V.D.K.Reads v) : a.Honest V where
  key draw hdraw := absurd (hkey.symm.trans hdraw) (by simp)
  numbers := (hreads _ (isValue_trace V.D.K a.trace)).numbers

theorem vaultStep_system {V : VaultSetup} {s : VaultState} {e : Event} {sys : System}
    (hw : e.isWorker = false) (h : step V.D s.sys e = some sys)
    (hlegacy : ∀ r ∈ sys.traces, r.traceId ∉ V.legacy.map TraceRow.traceId) :
    vaultStep V s (.system e) = some { s with sys := sys } := by
  simp only [vaultStep, hw, h, Bool.false_eq_true, if_false]
  exact if_pos hlegacy

/-- An insert whose row can be built. -/
theorem step_insertTrace_of_row {D : Deployment} {s : System} {a : InsertArgs} {r : TraceRow}
    (hseal : a.reasoningHash = a.snapshot.seal D.K) (hrow : traceRow D.K a = .ok r)
    (hfresh : a.snapshot.traceId ∉ s.traces.map TraceRow.traceId) :
    step D s (.insertTrace a) = some { s with traces := s.traces ++ [r] } := by
  have hinsert : insertTrace D.K s.traces a = .ok (s.traces ++ [r]) := by
    rw [insertTrace, hrow]
  show (if a.reasoningHash = a.snapshot.seal D.K then
    s.insertWith a.snapshot.traceId (insertTrace D.K s.traces a) else none) = _
  have hf : s.isFresh a.snapshot.traceId = true := decide_eq_true hfresh
  rw [if_pos hseal, hinsert, System.insertWith, if_pos hf]

/-- The first insert into an empty store. -/
theorem step_insertTrace (K : Crates) (traceId : Uuid) :
    step ⟨K, .sample, []⟩ .init (.insertTrace (sampleArgs K traceId
        (.sample (.fill 1) (.custom "buy") F64.one) sampleDecision))
      = some ⟨[buyRow K traceId F64.one], [], []⟩ :=
  step_insertTrace_of_row rfl (traceRow_sample K _ _ rfl _) List.not_mem_nil

theorem vaultStep_insertTrace (K : Crates) (R : ReadSide) {legacy : List TraceRow} {traceId : Uuid}
    (hlegacy : traceId ∉ legacy.map TraceRow.traceId) :
    vaultStep ⟨⟨K, .sample, []⟩, R, legacy⟩ .init (.system (.insertTrace (sampleArgs K traceId
        (.sample (.fill 1) (.custom "buy") F64.one) sampleDecision)))
      = some ⟨⟨[buyRow K traceId F64.one], [], []⟩, [], []⟩ := by
  refine vaultStep_system rfl (step_insertTrace K traceId) fun r hr => ?_
  rw [List.mem_singleton.1 hr]
  exact hlegacy

/-- With a key provider the same row is stored encrypted. -/
theorem traceRow_withKey {K : Crates} {a : InsertArgs} {r : TraceRow} {draw : EncryptionDraw}
    {stored : StoredJson} (hr : traceRow K a = .ok r)
    (hstored : encryptJson K draw (a.trace.toJson K).normalize = .ok stored) :
    traceRow K { a with key := some draw } = .ok (r.recode stored) := by
  obtain ⟨_, validTime, txnTime, -, hv, ht, rfl⟩ := traceRow_ok hr
  obtain ⟨grant, ciphertext, -, -, hform⟩ := encryptJson_ok hstored
  simp only [traceRow, storeJson, hstored, hv, ht]
  rw [hform]
  rfl

/-- What an erasure writes for a row that it finds encrypted. -/
theorem eraseRow_recode {V : VaultSetup} (hK : V.D.K.RoundTrip) {draw draw' : EncryptionDraw}
    (hdraw : draw.Honest V.R.provider) {value : Json} (hvalue : V.D.K.Reads value)
    {stored : StoredJson} (h : encryptJson V.D.K draw value = .ok stored) (r : TraceRow) :
    eraseRow V draw' (r.recode stored).erasureRow
      = encryptJson V.D.K draw' (nullPiiFields value) := by
  have hdec : decryptTraceJson V.D.K V.R (r.recode stored).erasureRow.stored = .ok value :=
    dec_of_stored hK hdraw hvalue h (stored_recode h r)
  rw [eraseRow, hdec]

/-- Arguments of an insert of an order to buy, without a key provider. -/
noncomputable def vaultArgs (traceId : Uuid) : InsertArgs :=
  sampleArgs .sealing traceId (.sample (.fill 1) (.custom "buy") F64.one) sampleDecision

/-- The trace of that order. -/
noncomputable def vaultJson (traceId : Uuid) : Json :=
  ((vaultArgs traceId).trace.toJson .sealing).normalize

/-- Its row, once it is encrypted. -/
noncomputable def vaultRow (traceId : Uuid) (stored : StoredJson) : TraceRow :=
  (buyRow .sealing traceId F64.one).recode stored

/-- When the samples are erased, right after the epoch. -/
def sampleErasedAt : DateTime := ⟨3, by decide⟩

/-- The first trace is encrypted when it is inserted, the second by the backfill; then both are
erased. -/
noncomputable def vaultEvents : List VaultEvent :=
  [.system (.insertTrace { vaultArgs (.fill 2) with key := some .sample }),
    .system (.insertTrace (vaultArgs (.fill 3))), .backfillRead [1], .backfillWrite 0 .sample,
    .gdprRead false (.fill 1) sampleErasedAt (.fill 9) [0, 1], .gdprWrite 0 .sample,
    .gdprWrite 0 .sample]

theorem vaultEvents_honest : ∀ e ∈ vaultEvents, e.Honest (.sealing []) := by
  intro e he
  simp only [vaultEvents, List.mem_cons, List.not_mem_nil, or_false] at he
  rcases he with rfl | rfl | rfl | rfl | rfl | rfl | rfl
  · intro a ha
    obtain rfl := Option.some.inj ha
    refine ⟨fun draw hdraw => ?_, (reads_sealing (isValue_trace .sealing _)).numbers⟩
    obtain rfl := Option.some.inj hdraw
    exact honest_sample
  · intro a ha
    obtain rfl := Option.some.inj ha
    exact honest_plain rfl fun _ => reads_sealing
  · trivial
  · exact honest_sample
  · trivial
  · exact honest_sample
  · exact honest_sample

/-- Every encryption of the sample draw succeeds. -/
theorem exists_encryptJson (value : Json) :
    ∃ stored, encryptJson .sealing .sample value = .ok stored := ⟨_, rfl⟩

theorem isValue_vaultJson (traceId : Uuid) : Json.IsValue 127 (vaultJson traceId) :=
  isValue_trace .sealing _

theorem traceRow_vaultArgs (traceId : Uuid) :
    traceRow .sealing (vaultArgs traceId) = .ok (buyRow .sealing traceId F64.one) :=
  traceRow_sample .sealing traceId _ rfl _

/-- The inserts: one row is encrypted, and one is not. -/
theorem run_vaultInserts {a : StoredJson}
    (ha : encryptJson .sealing .sample (vaultJson (.fill 2)) = .ok a) :
    Run.run (vaultStep (.sealing [])) .init (vaultEvents.take 2)
      = some ⟨⟨[vaultRow (.fill 2) a, buyRow .sealing (.fill 3) F64.one], [], []⟩, [], []⟩ := by
  have hkeyed : step (VaultSetup.sealing []).D .init
      (.insertTrace { vaultArgs (.fill 2) with key := some .sample })
        = some ⟨[vaultRow (.fill 2) a], [], []⟩ :=
    step_insertTrace_of_row rfl (traceRow_withKey (traceRow_vaultArgs (.fill 2)) ha)
      List.not_mem_nil
  have hplain : step (VaultSetup.sealing []).D ⟨[vaultRow (.fill 2) a], [], []⟩
      (.insertTrace (vaultArgs (.fill 3)))
        = some ⟨[vaultRow (.fill 2) a, buyRow .sealing (.fill 3) F64.one], [], []⟩ := by
    refine step_insertTrace_of_row rfl (traceRow_vaultArgs (.fill 3)) fun hmem => ?_
    have hsame : Uuid.fill 3 = .fill 2 := List.mem_singleton.1 hmem
    exact absurd hsame (by decide)
  have hlegacy : ∀ r : TraceRow, r.traceId ∉ ([] : List TraceRow).map TraceRow.traceId :=
    fun _ => List.not_mem_nil
  have hfirst := vaultStep_system (V := .sealing []) (s := .init) rfl hkeyed fun r _ => hlegacy r
  have hsecond :=
    vaultStep_system (V := .sealing []) (s := ⟨⟨[vaultRow (.fill 2) a], [], []⟩, [], []⟩)
    rfl hplain fun r _ => hlegacy r
  exact (Run.run_cons hfirst _).trans (Run.run_cons hsecond [])

/-- The row that the backfill has read is encrypted. -/
theorem vaultStep_backfillWrite {V : VaultSetup} {s : VaultState} {k : ℕ} {draw : EncryptionDraw}
    {item : Uuid × Json} {rest : List (Uuid × Json)} {stored : StoredJson}
    (hk : s.batches[k]? = some (item :: rest)) (h : encryptJson V.D.K draw item.2 = .ok stored) :
    vaultStep V s (.backfillWrite k draw) = some { s with
      sys := { s.sys with traces := encryptOneRow item.1 stored s.sys.traces }
      batches := s.batches.set k rest } := by
  simp only [vaultStep, hk, h]

/-- The row that an erasure has read is erased. -/
theorem vaultStep_gdprWrite {V : VaultSetup} {s : VaultState} {k : ℕ} {draw : EncryptionDraw}
    {erasedAt : DateTime} {requestId : Uuid} {q : ErasureRow} {rest : List ErasureRow}
    {stored : StoredJson} (hk : s.jobs[k]? = some ⟨erasedAt, requestId, q :: rest⟩)
    (h : eraseRow V draw q = .ok stored) :
    vaultStep V s (.gdprWrite k draw) = some { s with
      sys := { s.sys with
        traces := gdprUpdate q.traceId q.txnTime stored erasedAt requestId s.sys.traces }
      jobs := s.jobs.set k ⟨erasedAt, requestId, rest⟩ } := by
  simp only [vaultStep, hk, h]

/-- The whole run: both rows end up encrypted and erased. -/
theorem run_vaultEvents : ∃ a b c d : StoredJson,
    Run.run (vaultStep (.sealing [])) .init vaultEvents
      = some ⟨⟨[(vaultRow (.fill 2) a).eraseTo c sampleErasedAt (.fill 9),
          (vaultRow (.fill 3) b).eraseTo d sampleErasedAt (.fill 9)], [], []⟩, [[]],
          [⟨sampleErasedAt, .fill 9, []⟩]⟩ := by
  obtain ⟨a, ha⟩ := exists_encryptJson (vaultJson (.fill 2))
  obtain ⟨b, hb⟩ := exists_encryptJson (vaultJson (.fill 3))
  obtain ⟨c, hc⟩ := exists_encryptJson (nullPiiFields (vaultJson (.fill 2)))
  obtain ⟨d, hd⟩ := exists_encryptJson (nullPiiFields (vaultJson (.fill 3)))
  have herase : ∀ {traceId : Uuid} {stored : StoredJson},
      encryptJson .sealing .sample (vaultJson traceId) = .ok stored →
      eraseRow (.sealing []) .sample (vaultRow traceId stored).erasureRow
        = encryptJson .sealing .sample (nullPiiFields (vaultJson traceId)) := fun h =>
    eraseRow_recode (V := .sealing []) roundTrip_sealing honest_sample
      (reads_sealing (isValue_vaultJson _)) h _
  refine ⟨a, b, c, d, ?_⟩
  rw [← List.take_append_drop 2 vaultEvents, Run.run_append_of_eq (run_vaultInserts ha)]
  show Run.run (vaultStep (.sealing [])) _ [.backfillRead [1], .backfillWrite 0 .sample,
    .gdprRead false (.fill 1) sampleErasedAt (.fill 9) [0, 1], .gdprWrite 0 .sample,
    .gdprWrite 0 .sample] = _
  have hwrite : vaultStep (.sealing []) ⟨⟨[vaultRow (.fill 2) a, buyRow .sealing (.fill 3) F64.one],
      [], []⟩, [[(.fill 3, vaultJson (.fill 3))]], []⟩ (.backfillWrite 0 .sample)
        = some ⟨⟨[vaultRow (.fill 2) a, vaultRow (.fill 3) b], [], []⟩, [[]], []⟩ :=
    (vaultStep_backfillWrite rfl hb).trans rfl
  have hfirst : vaultStep (.sealing [])
    ⟨⟨[vaultRow (.fill 2) a, vaultRow (.fill 3) b], [], []⟩, [[]],
      [⟨sampleErasedAt, .fill 9, [(vaultRow (.fill 2) a).erasureRow,
        (vaultRow (.fill 3) b).erasureRow]⟩]⟩ (.gdprWrite 0 .sample)
        = some ⟨⟨[(vaultRow (.fill 2) a).eraseTo c sampleErasedAt (.fill 9), vaultRow (.fill 3) b],
            [], []⟩, [[]], [⟨sampleErasedAt, .fill 9, [(vaultRow (.fill 3) b).erasureRow]⟩]⟩ :=
    (vaultStep_gdprWrite rfl ((herase ha).trans hc)).trans rfl
  have hsecond : vaultStep (.sealing [])
    ⟨⟨[(vaultRow (.fill 2) a).eraseTo c sampleErasedAt (.fill 9),
      vaultRow (.fill 3) b], [], []⟩, [[]],
      [⟨sampleErasedAt, .fill 9, [(vaultRow (.fill 3) b).erasureRow]⟩]⟩ (.gdprWrite 0 .sample)
        = some ⟨⟨[(vaultRow (.fill 2) a).eraseTo c sampleErasedAt (.fill 9),
            (vaultRow (.fill 3) b).eraseTo d sampleErasedAt (.fill 9)], [], []⟩, [[]],
            [⟨sampleErasedAt, .fill 9, []⟩]⟩ :=
    (vaultStep_gdprWrite rfl ((herase hb).trans hd)).trans rfl
  rw [Run.run_cons (t := ⟨⟨[vaultRow (.fill 2) a, buyRow .sealing (.fill 3) F64.one], [], []⟩,
      [[(.fill 3, vaultJson (.fill 3))]], []⟩) rfl, Run.run_cons hwrite,
    Run.run_cons (t := ⟨⟨[vaultRow (.fill 2) a, vaultRow (.fill 3) b], [], []⟩, [[]],
      [⟨sampleErasedAt, .fill 9, [(vaultRow (.fill 2) a).erasureRow,
        (vaultRow (.fill 3) b).erasureRow]⟩]⟩) rfl, Run.run_cons hfirst, Run.run_cons hsecond,
    Run.run_nil]

/-- Both rows still reveal what the plaintext store has of them. -/
theorem encryption_transparent_sample :
    ∃ s p, Run.run (bothStep (.sealing [])) (.init, []) vaultEvents = some (s, p) ∧
      s.sys.traces.length = 2 ∧
      (∀ r ∈ s.sys.traces, r.encryptionVersion = 1 ∧ r.gdprErasedAt.isSome = true) ∧
      List.Forall₂ (Reveals (.sealing [])) s.sys.traces p := by
  obtain ⟨a, b, c, d, hrun⟩ := run_vaultEvents
  obtain ⟨p, hboth, hreveals, -⟩ :=
    encryption_transparent (.sealing []) roundTrip_sealing vaultEvents_honest hrun
  refine ⟨_, p, hboth, rfl, fun r hr => ?_, hreveals⟩
  simp only [List.mem_cons, List.not_mem_nil, or_false] at hr
  rcases hr with rfl | rfl
  · exact ⟨rfl, rfl⟩
  · exact ⟨rfl, rfl⟩

end IrlEngine
