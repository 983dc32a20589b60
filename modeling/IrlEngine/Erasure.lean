import IrlEngine.Vault
import IrlEngine.Anchor
import IrlEngine.Lib.Paging

/-!
# Erasure of an agent, page by page

`gdpr_erase_agent` of `gdpr.rs` as one call: it asks whether the unified view exists, reads
the agent's rows in pages of 100 `ORDER BY txn_time`, and decrypts, erases, encrypts and
updates each of them.  Rows of one `txn_time` come in any order, and in another one for
each page.

* `eraseLoop_ok` — a call that succeeds has read some rows (`Paging.Reads`), counted them,
  erased those of them that are rows of `irl.reasoning_traces`, and left the others alone;
* `exists_eraseLoop` — every such reading is that of a call that succeeds.
-/

namespace IrlEngine

/-! ## The call -/

/-- An order in which the database finds the rows of a query, before it sorts them. -/
structure Scan where
  rows : List TraceRow → List TraceRow
  perm : ∀ t, (rows t).Perm t

/-- What a row meets: the draw of its encryption, and the error of its update. -/
structure RowEnv where
  draw : EncryptionDraw
  update : Option String

/-- What a call of `gdpr_erase_agent` meets: the answer on the view, the clock, the answer to
each page query, after which the connection is lost, and its rows, counted through the call. -/
structure EraseEnv where
  unifiedExists : Except String Bool
  erasedAt : DateTime
  pages : List (Except String Scan)
  row : ℕ → RowEnv

/-- `irl.reasoning_traces_unified`, or `irl.reasoning_traces`. -/
def sourceTable (legacy : List TraceRow) (unified : Bool) (traces : List TraceRow) :
    List TraceRow :=
  if unified then legacy ++ traces else traces

/-- `WHERE agent_id = $1`. -/
def agentRows (agentId : Uuid) (t : List TraceRow) : List TraceRow :=
  t.filter fun r => r.agentId = some agentId

/-- `ORDER BY txn_time ASC LIMIT 100 OFFSET $3`. -/
def erasureQuery (scan : Scan) (offset : ℕ) (t : List TraceRow) : List ErasureRow :=
  (Paging.page 100 offset ((scan.rows t).mergeSort txnLe)).map TraceRow.erasureRow

section Call

variable (V : VaultSetup) (erasedAt : DateTime) (requestId : Uuid) (row : ℕ → RowEnv)

/-- The rows of one page; what is written before an error stays written. -/
def eraseRows : List ErasureRow → ℕ → List TraceRow → List TraceRow × Except AppError ℕ
  | [], totalErased, traces => (traces, .ok totalErased)
  | q :: rest, totalErased, traces =>
    match eraseRow V (row totalErased).draw q with
    | .error e => (traces, .error e)
    | .ok stored =>
      match (row totalErased).update with
      | some reason => (traces, .error (.database reason))
      | none => eraseRows rest (totalErased + 1)
          (gdprUpdate q.traceId q.txnTime stored erasedAt requestId traces)

/-- The loop over the pages. -/
def eraseLoop (unified : Bool) (agentId : Uuid) : List (Except String Scan) → ℕ → ℕ →
    List TraceRow → List TraceRow × Except AppError ℕ
  | [], _, _, traces => (traces, .error (.database "connection closed"))
  | .error reason :: _, _, _, traces => (traces, .error (.database reason))
  | .ok scan :: pages, offset, totalErased, traces =>
    let rows := erasureQuery scan offset (agentRows agentId (sourceTable V.legacy unified traces))
    if rows.isEmpty then (traces, .ok totalErased)
    else
      match eraseRows V erasedAt requestId row rows totalErased traces with
      | (traces', .error e) => (traces', .error e)
      | (traces', .ok totalErased') =>
        if rows.length < 100 then (traces', .ok totalErased')
        else eraseLoop unified agentId pages (offset + rows.length) totalErased' traces'

end Call

/-- `gdpr_erase_agent`, page by page. -/
def gdprEraseAgent (V : VaultSetup) (env : EraseEnv) (agentId requestId : Uuid)
    (traces : List TraceRow) : List TraceRow × Except AppError ℕ :=
  match env.unifiedExists with
  | .error reason => (traces, .error (.database reason))
  | .ok unified =>
    eraseLoop V env.erasedAt requestId env.row unified agentId env.pages 0 0 traces

/-! ## What becomes of a row -/

/-- `PRIMARY KEY (trace_id, txn_time)`. -/
def TraceRow.primaryKey (r : TraceRow) : Uuid × DateTime := (r.traceId, r.txnTime)

/-- The key that the update of a row names. -/
def ErasureRow.primaryKey (q : ErasureRow) : Uuid × DateTime := (q.traceId, q.txnTime)

/-- The column by which pages are sorted. -/
def keyMicros (k : Uuid × DateTime) : ℤ := k.2.millis.toInt * 1000

/-- The row decrypts to a value that can be stored and read back. -/
def Readable (V : VaultSetup) (r : TraceRow) : Prop := ∃ v, V.dec r = .ok v ∧ V.D.K.Reads v

/-- The row with its personal fields nulled in `trace_json`, the columns of the encryption and
the two of the tombstone written, and the other columns as they were. -/
structure ErasedTo (V : VaultSetup) (erasedAt : DateTime) (requestId : Uuid) (r r' : TraceRow) :
    Prop where
  columns : ∃ stored, r' =
    { r.recode stored with gdprErasedAt := some erasedAt, gdprRequestId := some requestId }
  dec : ∀ v, V.dec r = .ok v → V.dec r' = .ok (nullPiiFields v)

/-- What becomes of a row in a call that reads the rows with these keys. -/
structure Outcome (V : VaultSetup) (erasedAt : DateTime) (requestId : Uuid)
    (ks : List (Uuid × DateTime)) (r r' : TraceRow) : Prop where
  read : r.primaryKey ∈ ks → ErasedTo V erasedAt requestId r r'
  missed : r.primaryKey ∉ ks → r' = r

section Outcome

variable {V : VaultSetup} {erasedAt : DateTime} {requestId : Uuid} {ks ls : List (Uuid × DateTime)}
  {r r' r'' : TraceRow} {t t' t'' : List TraceRow}

theorem ErasedTo.primaryKey (h : ErasedTo V erasedAt requestId r r') :
    r'.primaryKey = r.primaryKey := by
  obtain ⟨stored, rfl⟩ := h.columns
  rfl

theorem ErasedTo.agentId (h : ErasedTo V erasedAt requestId r r') : r'.agentId = r.agentId := by
  obtain ⟨stored, rfl⟩ := h.columns
  rfl

theorem ErasedTo.readable (h : ErasedTo V erasedAt requestId r r') (hr : Readable V r) :
    Readable V r' := by
  obtain ⟨v, hv, hvalue⟩ := hr
  exact ⟨_, h.dec v hv, hvalue.nullPiiFields⟩

/-- Erasing a row twice is erasing it once. -/
theorem ErasedTo.trans (h : ErasedTo V erasedAt requestId r r')
    (h' : ErasedTo V erasedAt requestId r' r'') : ErasedTo V erasedAt requestId r r'' := by
  constructor
  · obtain ⟨stored, rfl⟩ := h.columns
    obtain ⟨stored', rfl⟩ := h'.columns
    exact ⟨stored', rfl⟩
  · intro v hv
    rw [h'.dec _ (h.dec v hv), nullPiiFields_nullPiiFields]

theorem Outcome.erased_or_eq (h : Outcome V erasedAt requestId ks r r') :
    ErasedTo V erasedAt requestId r r' ∨ r' = r := by
  by_cases hmem : r.primaryKey ∈ ks
  · exact Or.inl (h.read hmem)
  · exact Or.inr (h.missed hmem)

theorem Outcome.primaryKey (h : Outcome V erasedAt requestId ks r r') :
    r'.primaryKey = r.primaryKey := by
  rcases h.erased_or_eq with he | rfl
  · exact he.primaryKey
  · rfl

theorem Outcome.agentId (h : Outcome V erasedAt requestId ks r r') : r'.agentId = r.agentId := by
  rcases h.erased_or_eq with he | rfl
  · exact he.agentId
  · rfl

theorem Outcome.readable (h : Outcome V erasedAt requestId ks r r') (hr : Readable V r) :
    Readable V r' := by
  rcases h.erased_or_eq with he | rfl
  · exact he.readable hr
  · exact hr

theorem Outcome.nil (V : VaultSetup) (erasedAt : DateTime) (requestId : Uuid) (r : TraceRow) :
    Outcome V erasedAt requestId [] r r := ⟨fun h => absurd h (by simp), fun _ => rfl⟩

theorem Outcome.trans (h : Outcome V erasedAt requestId ks r r')
    (h' : Outcome V erasedAt requestId ls r' r'') :
    Outcome V erasedAt requestId (ks ++ ls) r r'' := by
  have hkey := h.primaryKey
  by_cases hks : r.primaryKey ∈ ks <;> by_cases hls : r'.primaryKey ∈ ls
  · exact ⟨fun _ => (h.read hks).trans (h'.read hls), fun hmem => absurd hks (by simp_all)⟩
  · refine ⟨fun _ => ?_, fun hmem => absurd hks (by simp_all)⟩
    rw [h'.missed hls]
    exact h.read hks
  · refine ⟨fun _ => ?_, fun hmem => absurd hls (by simp_all)⟩
    rw [← h.missed hks]
    exact h'.read hls
  · refine ⟨fun hmem => absurd hmem (by simp_all), fun _ => ?_⟩
    rw [h'.missed hls, h.missed hks]

end Outcome

/-! ## The loop -/

/-- The keys of the rows that a call reads from. -/
def agentKeys (legacy : List TraceRow) (unified : Bool) (agentId : Uuid) (t : List TraceRow) :
    List (Uuid × DateTime) :=
  (agentRows agentId (sourceTable legacy unified t)).map TraceRow.primaryKey

/-- No two rows of the table, and no row of it and one of the legacy table, share a key. -/
structure Keyed (legacy t : List TraceRow) : Prop where
  unique : (t.map TraceRow.primaryKey).Nodup
  apart : ∀ r ∈ t, r.primaryKey ∉ legacy.map TraceRow.primaryKey

section Loop

variable {V : VaultSetup} {erasedAt : DateTime} {requestId agentId : Uuid} {row : ℕ → RowEnv}
  {unified : Bool} {ks : List (Uuid × DateTime)} {t t' : List TraceRow}

theorem map_primaryKey_of_outcome (h : List.Forall₂ (Outcome V erasedAt requestId ks) t t') :
    t'.map TraceRow.primaryKey = t.map TraceRow.primaryKey := by
  induction h with
  | nil => rfl
  | cons hr _ ih => rw [List.map_cons, List.map_cons, hr.primaryKey, ih]

/-- Tables that agree row by row on keys and agents have the same keys for each agent. -/
theorem map_agentRows_of_forall₂ {R : TraceRow → TraceRow → Prop} (agentId : Uuid)
    (hR : ∀ r q, R r q → q.primaryKey = r.primaryKey ∧ q.agentId = r.agentId)
    (h : List.Forall₂ R t t') :
    (agentRows agentId t').map TraceRow.primaryKey = (agentRows agentId t).map
    TraceRow.primaryKey := by
  induction h with
  | nil => rfl
  | @cons r r' t t' hr _ ih =>
    obtain ⟨hkey, hagent⟩ := hR r r' hr
    unfold agentRows at ih ⊢
    rw [List.filter_cons, List.filter_cons, hagent]
    split_ifs
    · rw [List.map_cons, List.map_cons, hkey, ih]
    · exact ih

theorem agentRows_sourceTable (agentId : Uuid) (legacy : List TraceRow) (unified : Bool)
    (t : List TraceRow) : agentRows agentId (sourceTable legacy unified t)
      = (if unified then agentRows agentId legacy else []) ++ agentRows agentId t := by
  cases unified with
  | false => rfl
  | true => exact List.filter_append _ _

theorem agentKeys_of_outcome (h : List.Forall₂ (Outcome V erasedAt requestId ks) t t') :
    agentKeys V.legacy unified agentId t' = agentKeys V.legacy unified agentId t := by
  rw [agentKeys, agentKeys, agentRows_sourceTable, agentRows_sourceTable, List.map_append,
    List.map_append, map_agentRows_of_forall₂ agentId (fun _ _ hr => ⟨hr.primaryKey, hr.agentId⟩) h]

theorem Keyed.of_outcome (hkeyed : Keyed V.legacy t)
    (h : List.Forall₂ (Outcome V erasedAt requestId ks) t t') : Keyed V.legacy t' := by
  have hkeys := map_primaryKey_of_outcome h
  refine ⟨hkeys ▸ hkeyed.unique, fun r' hr' => ?_⟩
  obtain ⟨r, hr, heq⟩ := List.mem_map.1 (hkeys ▸ List.mem_map_of_mem hr')
  rw [← heq]
  exact hkeyed.apart r hr

theorem map_erasureQuery (scan : Scan) (offset : ℕ) (t : List TraceRow) :
    (erasureQuery scan offset t).map ErasureRow.primaryKey
      = Paging.page 100 offset (((scan.rows t).mergeSort txnLe).map TraceRow.primaryKey) := by
  rw [erasureQuery, List.map_map, Paging.page, Paging.page, List.map_take, List.map_drop]
  rfl

/-- The answer to a page query is a page of a sorted answer. -/
theorem erasureQuery_keys (scan : Scan) (offset : ℕ) (t : List TraceRow) : ∃ rows,
    Paging.Ordered keyMicros (t.map TraceRow.primaryKey) rows ∧
      (erasureQuery scan offset t).map ErasureRow.primaryKey = Paging.page 100 offset rows := by
  refine ⟨((scan.rows t).mergeSort txnLe).map TraceRow.primaryKey, ⟨?_, ?_⟩,
    map_erasureQuery scan offset t⟩
  · exact ((List.mergeSort_perm _ _).trans (scan.perm t)).map _
  · rw [List.pairwise_map]
    exact (List.pairwise_mergeSort txnLe_trans txnLe_total _).imp of_decide_eq_true

/-- What a page holds of a row is what the table shows, up to erased fields. -/
def Matches (V : VaultSetup) (t : List TraceRow) (q : ErasureRow) : Prop :=
  ∀ r ∈ t, r.primaryKey = q.primaryKey → ∀ v w, decryptTraceJson V.D.K V.R q.stored = .ok v →
    V.dec r = .ok w → nullPiiFields v = nullPiiFields w

theorem matches_of_query (hkeyed : Keyed V.legacy t) {scan : Scan} {offset : ℕ} {q : ErasureRow}
    (hq : q ∈ erasureQuery scan offset (agentRows agentId (sourceTable V.legacy unified t))) :
    Matches V t q := by
  obtain ⟨r₀, hpage, rfl⟩ := List.mem_map.1 hq
  have hsorted := List.mem_of_mem_drop (List.mem_of_mem_take hpage)
  have hscan := (scan.perm _).mem_iff.1 ((List.mergeSort_perm _ _).mem_iff.1 hsorted)
  have hsource := (List.mem_filter.1 hscan).1
  intro r hr hkey v w hv hw
  -- a legacy row shares its key with no row of the table
  have hmem : r₀ ∈ t := by
    unfold sourceTable at hsource
    split_ifs at hsource
    · rcases List.mem_append.1 hsource with hlegacy | ht
      · refine absurd ?_ (hkeyed.apart r hr)
        rw [hkey]
        exact List.mem_map.2 ⟨r₀, hlegacy, rfl⟩
      · exact ht
    · exact hsource
  obtain rfl : r = r₀ := List.inj_on_of_nodup_map hkeyed.unique hr hmem hkey
  rw [Except.ok.inj (hv.symm.trans hw)]

/-- One update. -/
theorem outcome_gdprUpdate (hK : V.D.K.RoundTrip) (erasedAt : DateTime) (requestId : Uuid)
    {draw : EncryptionDraw} (hdraw : draw.Honest V.R.provider) (hread : ∀ r ∈ t, Readable V r)
    {q : ErasureRow}
    (hmatch : Matches V t q) {stored : StoredJson} (h : eraseRow V draw q = .ok stored) :
    List.Forall₂ (Outcome V erasedAt requestId [q.primaryKey]) t
      (gdprUpdate q.traceId q.txnTime stored erasedAt requestId t) := by
  obtain ⟨v, hv, henc⟩ := eraseRow_ok h
  unfold gdprUpdate Table.updateWhere
  rw [List.forall₂_map_right_iff, List.forall₂_same]
  intro r hr
  have hkey : r.primaryKey = q.primaryKey ↔ r.traceId = q.traceId ∧
    r.txnTime = q.txnTime := Prod.mk_inj
  constructor
  · intro hmem
    have heq := List.mem_singleton.1 hmem
    rw [if_pos (decide_eq_true (hkey.1 heq))]
    refine ⟨⟨stored, rfl⟩, fun w hw => ?_⟩
    obtain ⟨w', hw', hvalue⟩ := hread r hr
    obtain rfl := Except.ok.inj (hw.symm.trans hw')
    rw [hmatch r hr heq v w hv hw] at henc
    exact dec_of_stored hK hdraw (hvalue.nullPiiFields) henc (stored_recode henc r)
  · intro hmem
    rw [if_neg]
    intro hp
    exact hmem (List.mem_singleton.2 (hkey.2 (of_decide_eq_true hp)))

theorem Matches.of_outcome {q : ErasureRow} (hread : ∀ r ∈ t, Readable V r) (hmatch : Matches V t q)
    (h : List.Forall₂ (Outcome V erasedAt requestId ks) t t') : Matches V t' q := by
  intro r' hr' hkey v w' hv hw'
  obtain ⟨r, hr, hout⟩ := Table.exists_of_forall₂ h.flip hr'
  rw [hout.primaryKey] at hkey
  obtain ⟨w, hw, -⟩ := hread r hr
  rw [hmatch r hr hkey v w hv hw]
  rcases hout.erased_or_eq with he | rfl
  · obtain rfl := Except.ok.inj ((he.dec w hw).symm.trans hw')
    exact (nullPiiFields_nullPiiFields w).symm
  · rw [Except.ok.inj (hw.symm.trans hw')]

theorem readable_of_outcome (hread : ∀ r ∈ t, Readable V r)
    (h : List.Forall₂ (Outcome V erasedAt requestId ks) t t') : ∀ r ∈ t', Readable V r := by
  intro r' hr'
  obtain ⟨r, hr, hout⟩ := Table.exists_of_forall₂ h.flip hr'
  exact hout.readable (hread r hr)

/-- A page that goes through. -/
theorem eraseRows_ok (hK : V.D.K.RoundTrip) (hrow : ∀ i, (row i).draw.Honest V.R.provider)
    {qs : List ErasureRow} {total total' : ℕ} (hread : ∀ r ∈ t, Readable V r)
    (hmatch : ∀ q ∈ qs, Matches V t q)
    (h : eraseRows V erasedAt requestId row qs total t = (t', .ok total')) :
    total' = total + qs.length ∧
      List.Forall₂ (Outcome V erasedAt requestId (qs.map ErasureRow.primaryKey)) t t' := by
  induction qs generalizing total t with
  | nil =>
    obtain ⟨rfl, htotal⟩ := Prod.mk.inj h
    exact ⟨(Except.ok.inj htotal).symm, List.forall₂_same.2 fun r _ => .nil V erasedAt requestId r⟩
  | cons q qs ih =>
    simp only [eraseRows] at h
    split at h
    · exact absurd (Prod.mk.inj h).2 (by simp)
    · rename_i stored hstored
      split at h
      · exact absurd (Prod.mk.inj h).2 (by simp)
      · have hstep := outcome_gdprUpdate hK erasedAt requestId (hrow total) hread
          (hmatch q (by simp))
          hstored
        obtain ⟨htotal, hrest⟩ := ih (readable_of_outcome hread hstep)
          (fun q' hq' => (hmatch q' (by simp [hq'])).of_outcome hread hstep) h
        refine ⟨by rw [htotal, List.length_cons]; omega, ?_⟩
        exact Table.forall₂_trans (fun _ _ _ h₁ h₂ => h₁.trans h₂) hstep hrest

/-- **A call that succeeds** has read some rows in pages, has counted them, and has erased those
of them that are rows of the table. -/
theorem eraseLoop_ok (hK : V.D.K.RoundTrip) (hrow : ∀ i, (row i).draw.Honest V.R.provider)
    {pages : List (Except String Scan)} {offset total total' : ℕ} (hkeyed : Keyed V.legacy t)
    (hread : ∀ r ∈ t, Readable V r)
    (h : eraseLoop V erasedAt requestId row unified agentId pages offset total t
      = (t', .ok total')) :
    ∃ ks, Paging.Reads keyMicros 100 (agentKeys V.legacy unified agentId t) offset ks ∧
      total' = total + ks.length ∧ List.Forall₂ (Outcome V erasedAt requestId ks) t t' := by
  induction pages generalizing offset total t with
  | nil => exact absurd (Prod.mk.inj h).2 (by simp)
  | cons answer pages ih =>
    cases answer with
    | error reason => exact absurd (Prod.mk.inj h).2 (by simp)
    | ok scan =>
      obtain ⟨rows, hordered, hpage⟩ :=
        erasureQuery_keys scan offset (agentRows agentId (sourceTable V.legacy unified t))
      simp only [eraseLoop] at h
      generalize hq : erasureQuery scan offset (agentRows agentId (sourceTable V.legacy unified t))
        = qs at h hpage
      have hlen : (Paging.page 100 offset rows).length = qs.length := by
        rw [← hpage, List.length_map]
      split at h
      · -- an empty page
        rename_i hempty
        obtain rfl := List.isEmpty_iff.1 hempty
        obtain ⟨rfl, htotal⟩ := Prod.mk.inj h
        refine ⟨_, .last hordered (by rw [hlen]; simp), ?_, ?_⟩
        · rw [hlen]
          exact (Except.ok.inj htotal).symm
        · rw [← hpage]
          exact List.forall₂_same.2 fun r _ => .nil V erasedAt requestId r
      · split at h
        · exact absurd (Prod.mk.inj h).2 (by simp)
        · rename_i t₁ total₁ hrows
          have hmatch : ∀ q ∈ qs, Matches V t q := fun q hmem => matches_of_query hkeyed (hq ▸ hmem)
          obtain ⟨htotal₁, hout⟩ := eraseRows_ok hK hrow hread hmatch hrows
          rw [hpage] at hout
          split at h
          · -- a page that is not full is the last one
            rename_i hshort
            obtain ⟨rfl, htotal⟩ := Prod.mk.inj h
            refine ⟨_, .last hordered (by rw [hlen]; exact hshort), ?_, hout⟩
            rw [← Except.ok.inj htotal, htotal₁, hlen]
          · rename_i hfull
            have hpageFull : (Paging.page 100 offset rows).length = 100 :=
              le_antisymm (List.length_take_le 100 _) (by rw [hlen]; exact not_lt.1 hfull)
            obtain ⟨ks, hreads, htotal, hrest⟩ :=
              ih (hkeyed.of_outcome hout) (readable_of_outcome hread hout) h
            rw [agentKeys_of_outcome hout, ← hlen, hpageFull] at hreads
            refine ⟨_, .more hordered hpageFull hreads, ?_, ?_⟩
            · rw [htotal, htotal₁, List.length_append, hlen]
              omega
            · exact Table.forall₂_trans (fun _ _ _ h₁ h₂ => h₁.trans h₂) hout hrest

theorem gdprEraseAgent_ok (hK : V.D.K.RoundTrip) {env : EraseEnv}
    (henv : ∀ i, (env.row i).draw.Honest V.R.provider) (hunified : env.unifiedExists = .ok unified)
    (hkeyed : Keyed V.legacy t) (hread : ∀ r ∈ t, Readable V r) {n : ℕ}
    (h : gdprEraseAgent V env agentId requestId t = (t', .ok n)) :
    ∃ ks, Paging.Reads keyMicros 100 (agentKeys V.legacy unified agentId t) 0 ks ∧
      n = ks.length ∧ List.Forall₂ (Outcome V env.erasedAt requestId ks) t t' := by
  simp only [gdprEraseAgent, hunified] at h
  obtain ⟨ks, hreads, hn, hout⟩ := eraseLoop_ok hK henv hkeyed hread h
  exact ⟨ks, hreads, by rw [hn, Nat.zero_add], hout⟩

end Loop

/-! ## Calls that succeed -/

/-- A draw with which every value can be encrypted, and decrypted again. -/
structure EncryptionDraw.Works (V : VaultSetup) (draw : EncryptionDraw) : Prop where
  honest : draw.Honest V.R.provider
  encrypts : ∀ value, ∃ stored, encryptJson V.D.K draw value = .ok stored

/-- The rows that a call reads from can all be decrypted. -/
structure AllReadable (V : VaultSetup) (unified : Bool) (agentId : Uuid) (t : List TraceRow) :
    Prop where
  table : ∀ r ∈ t, Readable V r
  legacy : unified = true → ∀ r ∈ V.legacy, r.agentId = some agentId → Readable V r

open Classical in
/-- The scan that finds the rows with these keys in this order, if it can. -/
noncomputable def Scan.ofKeys (ks : List (Uuid × DateTime)) : Scan where
  rows := fun t =>
    if h : ∃ rows : List TraceRow, rows.Perm t ∧ rows.map TraceRow.primaryKey = ks then h.choose
    else t
  perm := fun t => by
    split
    · rename_i h
      exact h.choose_spec.1
    · exact .refl t

section Succeeds

variable {V : VaultSetup} {erasedAt : DateTime} {requestId agentId : Uuid} {draw : EncryptionDraw}
  {unified : Bool} {ks : List (Uuid × DateTime)} {t t' : List TraceRow}

theorem AllReadable.source (h : AllReadable V unified agentId t) {r : TraceRow}
    (hr : r ∈ agentRows agentId (sourceTable V.legacy unified t)) : Readable V r := by
  obtain ⟨hsource, hagent⟩ := List.mem_filter.1 hr
  unfold sourceTable at hsource
  split_ifs at hsource with hunified
  · rcases List.mem_append.1 hsource with hlegacy | ht
    · exact h.legacy hunified r hlegacy (of_decide_eq_true hagent)
    · exact h.table r ht
  · exact h.table r hsource

theorem AllReadable.of_outcome (h : AllReadable V unified agentId t)
    (hout : List.Forall₂ (Outcome V erasedAt requestId ks) t t') :
    AllReadable V unified agentId t' := ⟨readable_of_outcome h.table hout, h.legacy⟩

/-- Every sorted answer is that of some scan. -/
theorem erasureQuery_ofKeys {rows : List (Uuid × DateTime)}
    (h : Paging.Ordered keyMicros (t.map TraceRow.primaryKey) rows) (offset : ℕ) :
    (erasureQuery (.ofKeys rows) offset t).map ErasureRow.primaryKey
    = Paging.page 100 offset rows := by
  have hexists := Paging.exists_perm_of_map h.perm
  have hrows : ((Scan.ofKeys rows).rows t).map TraceRow.primaryKey = rows := by
    rw [Scan.ofKeys]
    simp only [dif_pos hexists]
    exact hexists.choose_spec.2
  have hsorted : ((Scan.ofKeys rows).rows t).mergeSort txnLe = (Scan.ofKeys rows).rows t := by
    refine List.mergeSort_of_pairwise ?_
    have hpairs := h.sorted
    rw [← hrows, List.pairwise_map] at hpairs
    exact hpairs.imp decide_eq_true
  rw [map_erasureQuery, hsorted, hrows]

/-- With a draw that works and no failing update, a page goes through. -/
theorem exists_eraseRows (erasedAt : DateTime) (requestId : Uuid) (hdraw : draw.Works V)
    {qs : List ErasureRow} (hqs : ∀ q ∈ qs, ∃ v, decryptTraceJson V.D.K V.R q.stored
      = .ok v) (total : ℕ)
    (t : List TraceRow) : ∃ t', eraseRows V erasedAt requestId (fun _ => ⟨draw, none⟩) qs total t
      = (t', .ok (total + qs.length)) := by
  induction qs generalizing total t with
  | nil => exact ⟨t, rfl⟩
  | cons q qs ih =>
    obtain ⟨v, hv⟩ := hqs q (by simp)
    obtain ⟨stored, hstored⟩ := hdraw.encrypts (nullPiiFields v)
    have herase : eraseRow V draw q = .ok stored := by
      rw [eraseRow, hv]
      exact hstored
    obtain ⟨t', ht'⟩ := ih (fun q' hq' => hqs q' (by simp [hq'])) (total + 1)
      (gdprUpdate q.traceId q.txnTime stored erasedAt requestId t)
    refine ⟨t', ?_⟩
    simp only [eraseRows, herase]
    rw [ht', List.length_cons, Nat.add_right_comm, Nat.add_assoc]

theorem AllReadable.query (h : AllReadable V unified agentId t) {scan : Scan} {offset : ℕ}
    {q : ErasureRow}
    (hq : q ∈ erasureQuery scan offset (agentRows agentId (sourceTable V.legacy unified t))) :
    ∃ v, decryptTraceJson V.D.K V.R q.stored = .ok v := by
  obtain ⟨r, hpage, rfl⟩ := List.mem_map.1 hq
  have hsorted := List.mem_of_mem_drop (List.mem_of_mem_take hpage)
  have hscan := (scan.perm _).mem_iff.1 ((List.mergeSort_perm _ _).mem_iff.1 hsorted)
  obtain ⟨v, hv, -⟩ := h.source hscan
  exact ⟨v, hv⟩

/-- A page with this answer goes through. -/
theorem exists_page (hK : V.D.K.RoundTrip) (erasedAt : DateTime) (requestId : Uuid)
    (hdraw : draw.Works V) (hkeyed : Keyed V.legacy t) (hread : AllReadable V unified agentId t)
    {rows : List (Uuid × DateTime)}
    (h : Paging.Ordered keyMicros (agentKeys V.legacy unified agentId t) rows) (offset total : ℕ) :
    let qs :=
      erasureQuery (.ofKeys rows) offset (agentRows agentId (sourceTable V.legacy unified t))
    qs.length = (Paging.page 100 offset rows).length ∧ ∃ t',
      eraseRows V erasedAt requestId (fun _ => ⟨draw, none⟩) qs total t
        = (t', .ok (total + qs.length)) ∧
      List.Forall₂ (Outcome V erasedAt requestId (Paging.page 100 offset rows)) t t' := by
  intro qs
  have hpage := erasureQuery_ofKeys h offset
  obtain ⟨t', ht'⟩ := exists_eraseRows erasedAt requestId hdraw
    (fun q (hq : q ∈ qs) => hread.query hq) total t
  have hmatch : ∀ q ∈ qs, Matches V t q := fun q hq => matches_of_query hkeyed hq
  have hout := (eraseRows_ok hK (fun _ => hdraw.honest) hread.table hmatch ht').2
  rw [hpage] at hout
  exact ⟨by rw [← hpage, List.length_map], t', ht', hout⟩

/-- **Every reading in pages is that of a call that succeeds.** -/
theorem exists_eraseLoop (hK : V.D.K.RoundTrip) (erasedAt : DateTime) (requestId : Uuid)
    (hdraw : draw.Works V) (hkeyed : Keyed V.legacy t) (hread : AllReadable V unified agentId t)
    {offset : ℕ} (h : Paging.Reads keyMicros 100 (agentKeys V.legacy unified agentId t) offset ks)
    (total : ℕ) :
    ∃ pages t', eraseLoop V erasedAt requestId (fun _ => ⟨draw, none⟩) unified agentId pages offset
        total t = (t', .ok (total + ks.length)) ∧
      List.Forall₂ (Outcome V erasedAt requestId ks) t t' := by
  generalize hT : agentKeys V.legacy unified agentId t = T at h
  induction h generalizing total t with
  | @last offset rows hordered hshort =>
    obtain ⟨hlen, t', ht', hout⟩ :=
      exists_page hK erasedAt requestId hdraw hkeyed hread (hT ▸ hordered) offset total
    refine ⟨[.ok (.ofKeys rows)], t', ?_, hout⟩
    simp only [eraseLoop]
    split
    · rename_i hempty
      rw [List.isEmpty_iff] at hempty
      rw [hempty] at ht' hlen
      rw [← hlen]
      exact ht'
    · simp only [ht', hlen]
      exact if_pos hshort
  | @more offset rows out hordered hfull hrest ih =>
    obtain ⟨hlen, t₁, ht₁, hout⟩ :=
      exists_page hK erasedAt requestId hdraw hkeyed hread (hT ▸ hordered) offset total
    obtain ⟨pages, t', ht', hrestOut⟩ := ih (hkeyed.of_outcome hout) (hread.of_outcome hout)
      (total + 100) ((agentKeys_of_outcome hout).trans hT)
    refine ⟨.ok (.ofKeys rows) :: pages, t', ?_,
      Table.forall₂_trans (fun _ _ _ h₁ h₂ => h₁.trans h₂) hout hrestOut⟩
    rw [hfull] at hlen
    simp only [eraseLoop]
    rw [if_neg]
    · simp only [ht₁, hlen, lt_irrefl, if_false]
      rw [ht', List.length_append, hfull, Nat.add_assoc]
    · intro hempty
      rw [List.isEmpty_iff.1 hempty] at hlen
      exact absurd hlen (by simp)

theorem exists_gdprEraseAgent (hK : V.D.K.RoundTrip) (erasedAt : DateTime) (requestId : Uuid)
    (hdraw : draw.Works V) (hkeyed : Keyed V.legacy t) (hread : AllReadable V unified agentId t)
    (h : Paging.Reads keyMicros 100 (agentKeys V.legacy unified agentId t) 0 ks) :
    ∃ pages t', gdprEraseAgent V ⟨.ok unified, erasedAt, pages, fun _ => ⟨draw, none⟩⟩ agentId
        requestId t = (t', .ok ks.length) ∧
      List.Forall₂ (Outcome V erasedAt requestId ks) t t' := by
  obtain ⟨pages, t', ht', hout⟩ := exists_eraseLoop hK erasedAt requestId hdraw hkeyed hread h 0
  rw [Nat.zero_add] at ht'
  exact ⟨pages, t', ht', hout⟩

end Succeeds

/-! ## Completeness and the count -/

/-- Every call that returns `n` leaves every trace of the agent erased, and has updated `n` rows. -/
def ErasesAll (V : VaultSetup) (agentId requestId : Uuid) (unified : Bool) (t : List TraceRow) :
    Prop :=
  ∀ env : EraseEnv, (∀ i, (env.row i).draw.Honest V.R.provider) → env.unifiedExists = .ok unified →
    ∀ t' n, gdprEraseAgent V env agentId requestId t = (t', .ok n) →
      (∀ r ∈ agentRows agentId (sourceTable V.legacy unified t'),
        r.gdprErasedAt.isSome = true ∧ ∃ v, V.dec r = .ok v ∧ nullPiiFields v = v) ∧
      n = t'.countP fun r => r.gdprRequestId = some requestId

/-- The agent has no rows in the legacy table that the call reads from. -/
def NoLegacy (V : VaultSetup) (agentId : Uuid) (unified : Bool) : Prop :=
  unified = true → ∀ r ∈ V.legacy, r.agentId ≠ some agentId

/-- No `txn_time` of a row of the agent goes on behind the end of a page. -/
def NoneStraddles (V : VaultSetup) (agentId : Uuid) (unified : Bool) (t : List TraceRow) : Prop :=
  ∀ r ∈ agentRows agentId t,
    ¬ Paging.Straddles keyMicros 100 (agentKeys V.legacy unified agentId t) r.primaryKey

section Complete

variable {V : VaultSetup} {erasedAt : DateTime} {requestId agentId : Uuid} {draw : EncryptionDraw}
  {unified : Bool} {ks : List (Uuid × DateTime)} {t t' : List TraceRow}

theorem NoLegacy.agentRows_eq (h : NoLegacy V agentId unified) (t : List TraceRow) :
    agentRows agentId (sourceTable V.legacy unified t) = agentRows agentId t := by
  rw [agentRows_sourceTable]
  split_ifs with hunified
  · have hnil : agentRows agentId V.legacy = [] := by
      rw [agentRows, List.filter_eq_nil_iff]
      intro r hr hagent
      exact h hunified r hr (of_decide_eq_true hagent)
    rw [hnil, List.nil_append]
  · rfl

theorem noLegacy_iff : NoLegacy V agentId unified ↔
    (if unified then agentRows agentId V.legacy else []) = [] := by
  unfold NoLegacy agentRows
  cases unified with
  | false => simp
  | true => simp [List.filter_eq_nil_iff]

/-- The rows that carry a new request id afterwards are the rows that were read. -/
theorem countP_of_outcome (h : List.Forall₂ (Outcome V erasedAt requestId ks) t t')
    (hfresh : ∀ r ∈ t, r.gdprRequestId ≠ some requestId) :
    t'.countP (fun r => r.gdprRequestId = some requestId) = t.countP fun r =>
      r.primaryKey ∈ ks := by
  induction h with
  | nil => rfl
  | @cons r r' t t' hr _ ih =>
    rw [List.countP_cons, List.countP_cons, ih fun x hx => hfresh x (by simp [hx])]
    by_cases hmem : r.primaryKey ∈ ks
    · obtain ⟨stored, rfl⟩ := (hr.read hmem).columns
      simp [hmem]
    · rw [hr.missed hmem]
      simp [hmem, hfresh r (by simp)]

/-- A row of the table that is read is a row of the agent. -/
theorem mem_agentRows (hkeyed : Keyed V.legacy t) {r : TraceRow} (hr : r ∈ t)
    (h : r.primaryKey ∈ agentKeys V.legacy unified agentId t) : r ∈ agentRows agentId t := by
  obtain ⟨r₀, hr₀, hkey⟩ := List.mem_map.1 h
  rw [agentRows_sourceTable] at hr₀
  rcases List.mem_append.1 hr₀ with hlegacy | ht
  · split_ifs at hlegacy
    · refine absurd ?_ (hkeyed.apart r hr)
      exact List.mem_map.2 ⟨r₀, (List.mem_filter.1 hlegacy).1, hkey⟩
    · exact absurd hlegacy (by simp)
  · rwa [List.inj_on_of_nodup_map hkeyed.unique (List.mem_filter.1 ht).1 hr hkey] at ht

theorem countP_agentRows (hkeyed : Keyed V.legacy t)
    (hks : ks ⊆ agentKeys V.legacy unified agentId t) :
    t.countP (fun r => r.primaryKey ∈ ks) = (agentRows agentId t).countP fun r =>
      r.primaryKey ∈ ks := by
  rw [agentRows, List.countP_filter]
  refine List.countP_congr fun r hr => ?_
  rw [Bool.and_eq_true, decide_eq_true_eq]
  refine ⟨fun hmem => ⟨hmem, ?_⟩, And.left⟩
  exact (List.mem_filter.1 (mem_agentRows hkeyed hr (hks hmem))).2

/-- The count is right only if there is no legacy row, and every row is read. -/
theorem of_count (hkeyed : Keyed V.legacy t)
    (h : Paging.Reads keyMicros 100 (agentKeys V.legacy unified agentId t) 0 ks)
    (hcount : ks.length = t.countP fun r => r.primaryKey ∈ ks) :
    NoLegacy V agentId unified ∧ ∀ r ∈ agentRows agentId t, r.primaryKey ∈ ks := by
  have hlen := h.length_eq
  rw [agentKeys, List.length_map, agentRows_sourceTable, List.length_append] at hlen
  rw [countP_agentRows hkeyed h.subset] at hcount
  have hle := List.countP_le_length (p := fun r : TraceRow => decide (r.primaryKey ∈ ks))
    (l := agentRows agentId t)
  constructor
  · rw [noLegacy_iff, ← List.length_eq_zero_iff]
    omega
  · have hall : (agentRows agentId t).countP (fun r => r.primaryKey ∈ ks)
        = (agentRows agentId t).length := by omega
    intro r hr
    exact of_decide_eq_true (List.countP_eq_length.1 hall r hr)

theorem mem_of_noneStraddles (hnone : NoneStraddles V agentId unified t)
    (h : Paging.Reads keyMicros 100 (agentKeys V.legacy unified agentId t) 0 ks) {r : TraceRow}
    (hr : r ∈ agentRows agentId t) : r.primaryKey ∈ ks := by
  have hmem : r.primaryKey ∈ agentKeys V.legacy unified agentId t := by
    rw [agentKeys, agentRows_sourceTable, List.map_append]
    exact List.mem_append_right _ (List.mem_map_of_mem hr)
  exact h.mem_of_not_straddles hmem (hnone r hr) ⟨0, rfl⟩ (Nat.zero_le _)

theorem erasesAll_of (hK : V.D.K.RoundTrip) (hkeyed : Keyed V.legacy t)
    (hread : ∀ r ∈ t, Readable V r) (hfresh : ∀ r ∈ t, r.gdprRequestId ≠ some requestId)
    (hlegacy : NoLegacy V agentId unified) (hnone : NoneStraddles V agentId unified t) :
    ErasesAll V agentId requestId unified t := by
  intro env henv hunified t' n h
  obtain ⟨ks, hreads, hn, hout⟩ := gdprEraseAgent_ok hK henv hunified hkeyed hread h
  have hall : ∀ r ∈ agentRows agentId t, r.primaryKey ∈ ks :=
    fun r hr => mem_of_noneStraddles hnone hreads hr
  constructor
  · intro r' hr'
    rw [hlegacy.agentRows_eq] at hr'
    obtain ⟨hmem, hagent⟩ := List.mem_filter.1 hr'
    obtain ⟨r, hr, hrow⟩ := Table.exists_of_forall₂ hout.flip hmem
    rw [hrow.agentId] at hagent
    have herased := hrow.read (hall r (List.mem_filter.2 ⟨hr, hagent⟩))
    obtain ⟨v, hv, -⟩ := hread r hr
    obtain ⟨stored, rfl⟩ := herased.columns
    exact ⟨rfl, _, herased.dec v hv, nullPiiFields_nullPiiFields v⟩
  · rw [countP_of_outcome hout hfresh, countP_agentRows hkeyed hreads.subset, hn, hreads.length_eq,
      List.countP_eq_length.2 fun r hr => decide_eq_true (hall r hr), agentKeys,
      hlegacy.agentRows_eq, List.length_map]
    omega

theorem of_erasesAll (hK : V.D.K.RoundTrip) (hdraw : draw.Works V) (erasedAt : DateTime)
    (hkeyed : Keyed V.legacy t) (hread : AllReadable V unified agentId t)
    (hfresh : ∀ r ∈ t, r.gdprRequestId ≠ some requestId)
    (h : ErasesAll V agentId requestId unified t) :
    NoLegacy V agentId unified ∧ NoneStraddles V agentId unified t := by
  -- every reading counts the rows right
  have hcount : ∀ ks, Paging.Reads keyMicros 100 (agentKeys V.legacy unified agentId t) 0 ks →
      ks.length = t.countP fun r => r.primaryKey ∈ ks := by
    intro ks hreads
    obtain ⟨pages, t', ht', hout⟩ :=
      exists_gdprEraseAgent hK erasedAt requestId hdraw hkeyed hread hreads
    rw [← countP_of_outcome hout hfresh]
    exact (h ⟨.ok unified, erasedAt, pages, fun _ => ⟨draw, none⟩⟩ (fun _ => hdraw.honest)
      rfl t' _ ht').2
  have hbyKey := (Paging.ordered_byKey keyMicros (agentKeys V.legacy unified agentId t)).reads_drop
    (by decide : 0 < 100) 0
  have hlegacy := (of_count hkeyed hbyKey (hcount _ hbyKey)).1
  refine ⟨hlegacy, fun r hr hstraddles => ?_⟩
  have hkeys : agentKeys V.legacy unified agentId t = (agentRows agentId t).map
    TraceRow.primaryKey := by
    rw [agentKeys, hlegacy.agentRows_eq]
  have hnodup : (agentKeys V.legacy unified agentId t).Nodup := by
    rw [hkeys]
    exact hkeyed.unique.sublist (List.filter_sublist.map _)
  obtain ⟨ks, hreads, hmissed⟩ := Paging.exists_reads_missing (by decide) hnodup
    (hkeys ▸ List.mem_map_of_mem hr) hstraddles
  exact hmissed ((of_count hkeyed hreads (hcount ks hreads)).2 r hr)

end Complete

/-- The tables of a run have keys, and their rows can be read. -/
theorem keyed_of_run {V : VaultSetup} (hK : V.D.K.RoundTrip) {es : List VaultEvent}
    (hes : ∀ e ∈ es, e.Honest V) {s : VaultState} (hrun : Run.run (vaultStep V) .init es = some s) :
    Keyed V.legacy s.sys.traces ∧ ∀ r ∈ s.sys.traces, Readable V r := by
  obtain ⟨p, hboth⟩ := Run.exists_run_withShadow (plainStep V) hrun []
  have hinv := vaultInv_of_run hK hes hboth
  refine ⟨⟨?_, fun r hr hmem => ?_⟩, fun r hr => ?_⟩
  · refine List.Nodup.of_map Prod.fst ?_
    rw [List.map_map]
    exact hinv.unique
  · obtain ⟨q, hq, hkey⟩ := List.mem_map.1 hmem
    exact hinv.apart r hr (List.mem_map.2 ⟨q, hq, congrArg Prod.fst hkey⟩)
  · obtain ⟨plain, -, hholds⟩ := Table.exists_of_forall₂ hinv.holds hr
    exact ⟨plain.json, hholds.dec, hholds.value⟩

/-- **Which erasures are complete.**  Where decryption and encryption work, every successful call
erases all traces of the agent and returns the number of rows it updated, whatever the order of
rows of one `txn_time` on each page, if and only if the agent has no rows in a legacy table that
the call reads, and no `txn_time` of its rows goes on behind the end of a page. -/
theorem erasure_complete_iff (V : VaultSetup) (hK : V.D.K.RoundTrip) {draw : EncryptionDraw}
    (hdraw : draw.Works V) {es : List VaultEvent} (hes : ∀ e ∈ es, e.Honest V) {s : VaultState}
    (hrun : Run.run (vaultStep V) .init es = some s) (agentId requestId : Uuid) (unified : Bool)
    (hfresh : ∀ r ∈ s.sys.traces, r.gdprRequestId ≠ some requestId)
    (hlegacy : unified = true → ∀ r ∈ V.legacy, r.agentId = some agentId → Readable V r) :
    ErasesAll V agentId requestId unified s.sys.traces ↔
      NoLegacy V agentId unified ∧ NoneStraddles V agentId unified s.sys.traces := by
  obtain ⟨hkeyed, hread⟩ := keyed_of_run hK hes hrun
  constructor
  · exact of_erasesAll hK hdraw ⟨0, by decide⟩ hkeyed ⟨hread, hlegacy⟩ hfresh
  · rintro ⟨hnoLegacy, hnone⟩
    exact erasesAll_of hK hkeyed hread hfresh hnoLegacy hnone

/-! One row in the table, and one in the legacy table. -/

theorem works_sample (legacy : List TraceRow) : EncryptionDraw.sample.Works (.sealing legacy) :=
  ⟨honest_sample, exists_encryptJson⟩

theorem run_sealing :
    Run.run (vaultStep (.sealing [])) .init [.system (.insertTrace (sampleArgs .sealing
      (.fill 2) (.sample (.fill 1) (.custom "buy") F64.one) sampleDecision))]
      = some ⟨⟨[buyRow .sealing (.fill 2) F64.one], [], []⟩, [], []⟩ :=
  Run.run_cons (vaultStep_insertTrace .sealing _ (by simp)) []

/-- The row of the table is erased. -/
theorem erasure_complete_sample :
    ErasesAll (.sealing []) (.fill 1) (.fill 9) false [buyRow .sealing (.fill 2) F64.one] := by
  have hes : ∀ e ∈ ([.system (.insertTrace (sampleArgs .sealing (.fill 2)
      (.sample (.fill 1) (.custom "buy") F64.one) sampleDecision))] : List VaultEvent),
      e.Honest (.sealing []) := by
    intro e he
    rw [List.mem_singleton.1 he]
    intro a ha
    obtain rfl := Option.some.inj ha
    exact honest_plain rfl fun _ => reads_sealing
  refine (erasure_complete_iff (.sealing []) roundTrip_sealing (works_sample []) hes run_sealing
    (.fill 1) (.fill 9) false ?_ (by simp)).2 ⟨by simp [NoLegacy], ?_⟩
  · intro r hr
    rw [List.mem_singleton.1 hr]
    exact fun h => by cases h
  · intro r hr
    refine Paging.not_straddles_of_length_le _ ?_ _
    rw [agentKeys, List.length_map]
    exact (List.length_filter_le _ _).trans (by simp [sourceTable])

/-- What a call meets that finds the view, reads one page, and updates every row. -/
def EraseEnv.sample : EraseEnv :=
  ⟨.ok true, sampleErasedAt, [.ok ⟨id, fun _ => .refl _⟩], fun _ => ⟨.sample, none⟩⟩

/-- The row of the legacy table is counted and not erased. -/
theorem erasure_incomplete : ∃ t' n,
    gdprEraseAgent (.sealing [buyRow .sealing (.fill 2) F64.one]) .sample (.fill 1) (.fill 9) []
      = (t', .ok n) ∧
    (∃ r ∈ agentRows (.fill 1) (sourceTable [buyRow .sealing (.fill 2) F64.one] true t'),
      r.gdprErasedAt = none) ∧
    n = 1 ∧ (t'.countP fun r => r.gdprRequestId = some (.fill 9)) = 0 := by
  have hrows : agentRows (.fill 1) [buyRow .sealing (.fill 2) F64.one]
      = [buyRow .sealing (.fill 2) F64.one] := by
    have hagent : (buyRow .sealing (.fill 2) F64.one).agentId = some (.fill 1) := rfl
    simp [agentRows, hagent]
  have hquery : erasureQuery ⟨id, fun _ => .refl _⟩ 0 [buyRow .sealing (.fill 2) F64.one]
      = [(buyRow .sealing (.fill 2) F64.one).erasureRow] := by
    simp only [erasureQuery, id_eq, List.mergeSort_singleton]
    rfl
  refine ⟨[], 1, ?_, ⟨buyRow .sealing (.fill 2) F64.one, ?_, rfl⟩, rfl, rfl⟩
  · simp only [gdprEraseAgent, EraseEnv.sample, eraseLoop, VaultSetup.sealing, sourceTable, if_true,
      List.append_nil, hrows, hquery]
    rfl
  · rw [sourceTable, if_pos rfl, List.append_nil, hrows]
    exact List.mem_singleton_self _

end IrlEngine
