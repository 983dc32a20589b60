import IrlEngine.Erasure

/-!
# What an erasure leaves behind

The personal values of an order stand twice in a row: in `trace_json`, and in the columns
`latent_fingerprint`, `feature_schema_id`, `client_order_id` and `execution_venue_id` that
`insert_trace_atomic` of `db.rs` writes.  `gdpr_erase_agent` rewrites `trace_json` only.

* `DiffersInPii` — two rows that differ only in these values;
* `sameRow_of_erased` — once erased they differ in the four columns at most.
-/

namespace IrlEngine

/-! ## Rows that differ in personal values -/

/-- The columns other than those that hold the encrypted `trace_json`. -/
def TraceRow.outsideEnvelope (r : TraceRow) : TraceRow :=
  { r with traceJson := .null, traceNonce := none, encryptedDek := none, keyVersion := none }

/-- These without the four columns that hold personal values. -/
def TraceRow.withoutPii (r : TraceRow) : TraceRow :=
  { r.outsideEnvelope with
    latentFingerprint := "", featureSchemaId := "", clientOrderId := "", executionVenueId := none }

/-- The four personal values in `trace_json`, overwritten. -/
def maskPii (json : Json) : Json :=
  (json.modify "agent" (Json.setNull ["latent_fingerprint", "feature_schema_id"])).modify
    "execution" (Json.setNull ["client_order_id", "venue_id"])

/-- Two rows that differ only in personal values, and only if they are the agent's. -/
structure DiffersInPii (V : VaultSetup) (agentId : Uuid) (r q : TraceRow) : Prop where
  other : r.agentId ≠ some agentId → q = r
  columns : q.withoutPii = r.withoutPii
  json : ∀ v w, V.dec r = .ok v → V.dec q = .ok w → maskPii v = maskPii w

/-- The four columns agree. -/
structure SamePiiColumns (r q : TraceRow) : Prop where
  latentFingerprint : q.latentFingerprint = r.latentFingerprint
  featureSchemaId : q.featureSchemaId = r.featureSchemaId
  clientOrderId : q.clientOrderId = r.clientOrderId
  executionVenueId : q.executionVenueId = r.executionVenueId

/-- All columns agree, `trace_json` after decryption. -/
structure SameRow (V : VaultSetup) (r q : TraceRow) : Prop where
  columns : q.outsideEnvelope = r.outsideEnvelope
  dec : V.dec q = V.dec r

section Rows

variable {V : VaultSetup} {agentId requestId : Uuid} {erasedAt : DateTime} {r q r' q' : TraceRow}

theorem nullPiiFields_eq_maskPii (v : Json) :
    nullPiiFields v = (maskPii v).modify "agent" (Json.setNull ["agent_id"]) := by
  have hkeys : "agent" ≠ "execution" := by decide
  have hfields : "agent_id" ∉ ["latent_fingerprint", "feature_schema_id"] := by decide
  have hsplit : Json.setNull ["agent_id", "latent_fingerprint", "feature_schema_id"]
      = fun v => Json.setNull ["agent_id"]
        (Json.setNull ["latent_fingerprint", "feature_schema_id"] v) :=
    funext (Json.setNull_cons hfields)
  rw [maskPii, Json.modify_comm hkeys, Json.modify_comp, nullPiiFields, hsplit]

theorem DiffersInPii.keyed (h : DiffersInPii V agentId r q) :
    q.primaryKey = r.primaryKey ∧ q.agentId = r.agentId := by
  have hkey := congrArg TraceRow.primaryKey h.columns
  have hagent := congrArg TraceRow.agentId h.columns
  exact ⟨hkey, hagent⟩

theorem outsideEnvelope_eq (h : q.withoutPii = r.withoutPii) (hcolumns : SamePiiColumns r q) :
    q.outsideEnvelope = r.outsideEnvelope := by
  have hrow := congrArg (fun x : TraceRow => { x with
    latentFingerprint := r.latentFingerprint, featureSchemaId := r.featureSchemaId,
    clientOrderId := r.clientOrderId, executionVenueId := r.executionVenueId }) h
  have hq : q.outsideEnvelope = { q.withoutPii with
      latentFingerprint := r.latentFingerprint, featureSchemaId := r.featureSchemaId,
      clientOrderId := r.clientOrderId, executionVenueId := r.executionVenueId } := by
    rw [← hcolumns.latentFingerprint, ← hcolumns.featureSchemaId, ← hcolumns.clientOrderId,
      ← hcolumns.executionVenueId]
    rfl
  exact hq.trans hrow

theorem ErasedTo.outsideEnvelope (h : ErasedTo V erasedAt requestId r r') :
    r'.outsideEnvelope = { r.outsideEnvelope with
      encryptionVersion := 1, gdprErasedAt := some erasedAt, gdprRequestId := some requestId } := by
  obtain ⟨stored, rfl⟩ := h.columns
  rfl

/-- Rows that agree in the four columns are the same once they are erased. -/
theorem sameRow_of_erased (h : DiffersInPii V agentId r q) (hcolumns : SamePiiColumns r q)
    (hr : Readable V r) (hq : Readable V q) (he : ErasedTo V erasedAt requestId r r')
    (he' : ErasedTo V erasedAt requestId q q') : SameRow V r' q' := by
  constructor
  · rw [he.outsideEnvelope, he'.outsideEnvelope, outsideEnvelope_eq h.columns hcolumns]
  · obtain ⟨v, hv, -⟩ := hr
    obtain ⟨w, hw, -⟩ := hq
    rw [he.dec v hv, he'.dec w hw, nullPiiFields_eq_maskPii, nullPiiFields_eq_maskPii,
      h.json v w hv hw]

/-- Whether erased or not, a row keeps the four columns. -/
theorem Outcome.samePiiColumns {ks : List (Uuid × DateTime)}
    (h : Outcome V erasedAt requestId ks r r') : SamePiiColumns r r' := by
  rcases h.erased_or_eq with he | rfl
  · obtain ⟨stored, rfl⟩ := he.columns
    exact ⟨rfl, rfl, rfl, rfl⟩
  · exact ⟨rfl, rfl, rfl, rfl⟩

theorem SameRow.samePiiColumns (h : SameRow V r q) : SamePiiColumns r q := by
  have hlatent := congrArg TraceRow.latentFingerprint h.columns
  have hschema := congrArg TraceRow.featureSchemaId h.columns
  have horder := congrArg TraceRow.clientOrderId h.columns
  have hvenue := congrArg TraceRow.executionVenueId h.columns
  exact ⟨hlatent, hschema, horder, hvenue⟩

end Rows

/-! ## Two databases -/

/-- Whenever the call succeeds on both databases at the same time of the clock, the rows of
`irl.reasoning_traces` are the same afterwards. -/
def LeavesNoPii (V : VaultSetup) (legacy' : List TraceRow) (agentId requestId : Uuid)
    (unified : Bool) (t u : List TraceRow) : Prop :=
  ∀ env env' : EraseEnv, (∀ i, (env.row i).draw.Honest V.R.provider) →
    (∀ i, (env'.row i).draw.Honest V.R.provider) → env.unifiedExists = .ok unified →
    env'.unifiedExists = .ok unified → env'.erasedAt = env.erasedAt →
    ∀ t' n u' m, gdprEraseAgent V env agentId requestId t = (t', .ok n) →
      gdprEraseAgent { V with legacy := legacy' } env' agentId requestId u = (u', .ok m) →
      List.Forall₂ (SameRow V) t' u'

/-- Two databases that differ only in personal values of the agent; their rows have keys and can
be read, and none carries the id of the request yet. -/
structure PiiPair (V : VaultSetup) (legacy' : List TraceRow) (agentId requestId : Uuid)
    (unified : Bool) (t u : List TraceRow) : Prop where
  legacy : List.Forall₂ (DiffersInPii V agentId) V.legacy legacy'
  table : List.Forall₂ (DiffersInPii V agentId) t u
  keyed : Keyed V.legacy t
  legacyKeys : (V.legacy.map TraceRow.primaryKey).Nodup
  readable : AllReadable V unified agentId t
  readable' : AllReadable { V with legacy := legacy' } unified agentId u
  fresh : ∀ r ∈ t, r.gdprRequestId ≠ some requestId

section Pair

variable {V : VaultSetup} {legacy' : List TraceRow} {agentId requestId : Uuid} {unified : Bool}
  {t u t' u' : List TraceRow} {erasedAt : DateTime} {ks ls : List (Uuid × DateTime)}

theorem map_primaryKey_of_differs (h : List.Forall₂ (DiffersInPii V agentId) t u) :
    u.map TraceRow.primaryKey = t.map TraceRow.primaryKey := by
  induction h with
  | nil => rfl
  | cons hr _ ih => rw [List.map_cons, List.map_cons, hr.keyed.1, ih]

theorem PiiPair.keyed' (h : PiiPair V legacy' agentId requestId unified t u) : Keyed legacy' u := by
  have hkeys := map_primaryKey_of_differs h.table
  have hlegacy := map_primaryKey_of_differs h.legacy
  refine ⟨hkeys ▸ h.keyed.unique, fun q hq => ?_⟩
  obtain ⟨r, hr, heq⟩ := List.mem_map.1 (hkeys ▸ List.mem_map_of_mem hq)
  rw [hlegacy, ← heq]
  exact h.keyed.apart r hr

theorem PiiPair.agentKeys_eq (h : PiiPair V legacy' agentId requestId unified t u) :
    agentKeys legacy' unified agentId u = agentKeys V.legacy unified agentId t := by
  have htable := map_agentRows_of_forall₂ agentId (fun _ _ hr => hr.keyed) h.table
  have hlegacy := map_agentRows_of_forall₂ agentId (fun _ _ hr => hr.keyed) h.legacy
  rw [agentKeys, agentKeys, agentRows_sourceTable, agentRows_sourceTable, List.map_append,
    List.map_append, htable]
  cases unified with
  | false => rfl
  | true => rw [if_pos rfl, if_pos rfl, hlegacy]

theorem Outcome.withLegacy {r r' : TraceRow}
    (h : Outcome { V with legacy := legacy' } erasedAt requestId ks r r') :
    Outcome V erasedAt requestId ks r r' :=
  ⟨fun hmem => ⟨(h.read hmem).columns, (h.read hmem).dec⟩, h.missed⟩

/-- Where the columns agree and every row of the agent is read, the calls leave the same rows. -/
theorem sameRow_of_outcome (hpair : PiiPair V legacy' agentId requestId unified t u)
    {r q r' q' : TraceRow} (hr : r ∈ t) (hq : q ∈ u) (hd : DiffersInPii V agentId r q)
    (hcolumns : r.agentId = some agentId → SamePiiColumns r q)
    (hks : r.primaryKey ∈ ks ↔ r.agentId = some agentId)
    (hls : q.primaryKey ∈ ls ↔ q.agentId = some agentId)
    (hout : Outcome V erasedAt requestId ks r r') (hout' : Outcome V erasedAt requestId ls q q') :
    SameRow V r' q' := by
  by_cases hagent : r.agentId = some agentId
  · have hagent' : q.agentId = some agentId := hd.keyed.2.trans hagent
    exact sameRow_of_erased hd (hcolumns hagent) (hpair.readable.table r hr)
      (hpair.readable'.table q hq) (hout.read (hks.2 hagent)) (hout'.read (hls.2 hagent'))
  · have hagent' : q.agentId ≠ some agentId := fun h => hagent (hd.keyed.2.symm.trans h)
    rw [hout.missed (mt hks.1 hagent), hout'.missed (mt hls.1 hagent'), hd.other hagent]
    exact ⟨rfl, rfl⟩

/-- A row is read if and only if it is the agent's. -/
theorem read_iff (hkeyed : Keyed V.legacy t) (hnone : NoneStraddles V agentId unified t)
    (h : Paging.Reads keyMicros 100 (agentKeys V.legacy unified agentId t) 0 ks) {r : TraceRow}
    (hr : r ∈ t) : r.primaryKey ∈ ks ↔ r.agentId = some agentId := by
  constructor
  · intro hmem
    exact of_decide_eq_true (List.mem_filter.1 (mem_agentRows hkeyed hr (h.subset hmem))).2
  · intro hagent
    exact mem_of_noneStraddles hnone h (List.mem_filter.2 ⟨hr, decide_eq_true hagent⟩)

theorem PiiPair.noneStraddles' (hpair : PiiPair V legacy' agentId requestId unified t u)
    (h : NoneStraddles V agentId unified t) :
    NoneStraddles { V with legacy := legacy' } agentId unified u := by
  intro q hq
  have hkeys := map_agentRows_of_forall₂ agentId (fun _ _ hr => hr.keyed) hpair.table
  obtain ⟨r, hr, heq⟩ := List.mem_map.1 (hkeys ▸ List.mem_map_of_mem hq)
  rw [← heq, hpair.agentKeys_eq]
  exact h r hr

theorem leavesNoPii_of (hK : V.D.K.RoundTrip)
    (hpair : PiiPair V legacy' agentId requestId unified t u)
    (hcolumns : List.Forall₂ (fun r q => r.agentId = some agentId → SamePiiColumns r q) t u)
    (hnone : NoneStraddles V agentId unified t) :
    LeavesNoPii V legacy' agentId requestId unified t u := by
  intro env env' henv henv' hunified hunified' htime t' n u' m h h'
  obtain ⟨ks, hks, -, hout⟩ := gdprEraseAgent_ok hK henv hunified hpair.keyed hpair.readable.table h
  obtain ⟨ls, hls, -, hout'⟩ :=
    gdprEraseAgent_ok (V := { V with legacy := legacy' }) hK henv' hunified'
    hpair.keyed' hpair.readable'.table h'
  rw [htime] at hout'
  have hpairs := Table.forall₂_mem (Table.forall₂_and hpair.table hcolumns)
  have hleft : List.Forall₂ (fun r' q => ∃ r, Outcome V env.erasedAt requestId ks r r' ∧
      (r ∈ t ∧ q ∈ u) ∧ DiffersInPii V agentId r q ∧
        (r.agentId = some agentId → SamePiiColumns r q)) t' u :=
    Table.forall₂_trans (fun r' r q hr hq => ⟨r, hr, hq⟩) hout.flip hpairs
  refine Table.forall₂_trans (fun r' q q' hr hq => ?_) hleft hout'
  obtain ⟨r, hout, ⟨hmem, hmem'⟩, hd, hcols⟩ := hr
  exact sameRow_of_outcome hpair hmem hmem' hd hcols (read_iff hpair.keyed hnone hks hmem)
    (read_iff (V := { V with legacy := legacy' }) hpair.keyed'
      (hpair.noneStraddles' hnone) hls hmem')
    hout hq.withLegacy

/-- Two calls that read these rows leave the same ones, if every two calls do. -/
theorem outcomes_of_leavesNoPii (hK : V.D.K.RoundTrip) {draw : EncryptionDraw}
    (hdraw : draw.Works V) (hpair : PiiPair V legacy' agentId requestId unified t u)
    (h : LeavesNoPii V legacy' agentId requestId unified t u) (erasedAt : DateTime)
    (hks : Paging.Reads keyMicros 100 (agentKeys V.legacy unified agentId t) 0 ks)
    (hls : Paging.Reads keyMicros 100 (agentKeys V.legacy unified agentId t) 0 ls) :
    List.Forall₂ (fun r q => ∃ r' q', Outcome V erasedAt requestId ks r r' ∧ SameRow V r' q' ∧
      Outcome V erasedAt requestId ls q q') t u := by
  obtain ⟨pages, t', ht', hout⟩ :=
    exists_gdprEraseAgent hK erasedAt requestId hdraw hpair.keyed hpair.readable hks
  have hworks : draw.Works { V with legacy := legacy' } := ⟨hdraw.honest, hdraw.encrypts⟩
  obtain ⟨pages', u', hu', hout'⟩ := exists_gdprEraseAgent (V := { V with legacy := legacy' }) hK
    erasedAt requestId hworks hpair.keyed' hpair.readable' (hpair.agentKeys_eq ▸ hls)
  have hsame := h ⟨.ok unified, erasedAt, pages, fun _ => ⟨draw, none⟩⟩
    ⟨.ok unified, erasedAt, pages', fun _ => ⟨draw, none⟩⟩ (fun _ => hdraw.honest)
    (fun _ => hdraw.honest) rfl rfl rfl t' _ u' _ ht' hu'
  have hleft : List.Forall₂ (fun r q' => ∃ r', Outcome V erasedAt requestId ks r r' ∧
    SameRow V r' q')
      t u' := Table.forall₂_trans (fun r r' q' hr hq => ⟨r', hr, hq⟩) hout hsame
  refine Table.forall₂_trans (fun r q' q hr hq => ?_) hleft hout'.flip
  obtain ⟨r', hr', hrow⟩ := hr
  exact ⟨r', q', hr', hrow, hq.withLegacy⟩

theorem SamePiiColumns.trans {r q s : TraceRow} (h : SamePiiColumns r q) (h' : SamePiiColumns q s) :
    SamePiiColumns r s :=
  ⟨h'.latentFingerprint.trans h.latentFingerprint, h'.featureSchemaId.trans h.featureSchemaId,
    h'.clientOrderId.trans h.clientOrderId, h'.executionVenueId.trans h.executionVenueId⟩

theorem SamePiiColumns.symm {r q : TraceRow} (h : SamePiiColumns r q) : SamePiiColumns q r :=
  ⟨h.latentFingerprint.symm, h.featureSchemaId.symm, h.clientOrderId.symm, h.executionVenueId.symm⟩

theorem PiiPair.nodup_agentKeys (hpair : PiiPair V legacy' agentId requestId unified t u) :
    (agentKeys V.legacy unified agentId t).Nodup := by
  have htable : ((agentRows agentId t).map TraceRow.primaryKey).Nodup :=
    hpair.keyed.unique.sublist (List.filter_sublist.map _)
  rw [agentKeys, agentRows_sourceTable]
  cases unified with
  | false => exact htable
  | true =>
    rw [if_pos rfl, List.map_append, List.nodup_append]
    refine ⟨hpair.legacyKeys.sublist (List.filter_sublist.map _), htable, ?_⟩
    rintro k hk l hl rfl
    obtain ⟨r, hr, rfl⟩ := List.mem_map.1 hl
    obtain ⟨q, hq, hkey⟩ := List.mem_map.1 hk
    exact hpair.keyed.apart r (List.mem_filter.1 hr).1
      (List.mem_map.2 ⟨q, (List.mem_filter.1 hq).1, hkey⟩)

theorem of_leavesNoPii (hK : V.D.K.RoundTrip) {draw : EncryptionDraw} (hdraw : draw.Works V)
    (hpair : PiiPair V legacy' agentId requestId unified t u)
    (h : LeavesNoPii V legacy' agentId requestId unified t u) :
    List.Forall₂ (fun r q => r.agentId = some agentId → SamePiiColumns r q) t u ∧
      NoneStraddles V agentId unified t := by
  have hall := (Paging.ordered_byKey keyMicros (agentKeys V.legacy unified agentId t)).reads_drop
    (by decide : 0 < 100) 0
  constructor
  · refine (outcomes_of_leavesNoPii hK hdraw hpair h ⟨0, by decide⟩ hall hall).imp ?_
    rintro r q ⟨r', q', hr, hrow, hq⟩ -
    exact (hr.samePiiColumns.trans hrow.samePiiColumns).trans hq.samePiiColumns.symm
  · intro r hr hstraddles
    -- the row is missed in one database and read in the other
    have hmem : r.primaryKey ∈ agentKeys V.legacy unified agentId t := by
      rw [agentKeys, agentRows_sourceTable, List.map_append]
      exact List.mem_append_right _ (List.mem_map_of_mem hr)
    obtain ⟨ks, hks, hmissed⟩ :=
      Paging.exists_reads_missing (by decide) hpair.nodup_agentKeys hmem hstraddles
    have hpairs := Table.forall₂_and hpair.table
      (outcomes_of_leavesNoPii hK hdraw hpair h ⟨0, by decide⟩ hks hall)
    obtain ⟨q, hq, hd, r', q', hr', hrow, hq'⟩ :=
      Table.exists_of_forall₂ hpairs (List.mem_filter.1 hr).1
    have hread : q.primaryKey ∈
        (Paging.byKey keyMicros (agentKeys V.legacy unified agentId t)).drop 0 := by
      rw [List.drop_zero, (Paging.ordered_byKey _ _).perm.mem_iff, hd.keyed.1]
      exact hmem
    obtain ⟨stored, rfl⟩ := (hq'.read hread).columns
    obtain rfl := hr'.missed hmissed
    have hrequest := congrArg TraceRow.gdprRequestId hrow.columns
    exact hpair.fresh _ (List.mem_filter.1 hr).1 hrequest.symm

end Pair

/-- **When an erasure leaves no personal value behind.**  Of two databases that differ only in an
agent's fingerprints, schema ids, client order ids and venues, the call leaves the same rows, in
every order of rows of one `txn_time`, if and only if the two agree in the four plaintext columns
of the agent's rows, and no `txn_time` of these goes on behind the end of a page. -/
theorem erasure_leaves_no_pii_iff (V : VaultSetup) (hK : V.D.K.RoundTrip) {draw : EncryptionDraw}
    (hdraw : draw.Works V) {legacy' : List TraceRow} {agentId requestId : Uuid} {unified : Bool}
    {t u : List TraceRow} (hpair : PiiPair V legacy' agentId requestId unified t u) :
    LeavesNoPii V legacy' agentId requestId unified t u ↔
      List.Forall₂ (fun r q => r.agentId = some agentId → SamePiiColumns r q) t u ∧
        NoneStraddles V agentId unified t :=
  ⟨of_leavesNoPii hK hdraw hpair, fun h => leavesNoPii_of hK hpair h.1 h.2⟩

/-! Two databases of one row each, with different fingerprints. -/

/-- A row with these fingerprints in its column and in `trace_json`. -/
noncomputable def fingerprintRow (column fingerprint : String) : TraceRow :=
  { buyRow .sealing (.fill 2) F64.one with
    latentFingerprint := column
    traceJson := .obj [("agent", .obj [("latent_fingerprint", .str fingerprint)])] }

theorem maskPii_fingerprint (a b : String) :
    maskPii (.obj [("agent", .obj [("latent_fingerprint", .str a)])])
      = maskPii (.obj [("agent", .obj [("latent_fingerprint", .str b)])]) := by
  simp [maskPii, Json.modify, Json.modifyMember, Json.setNull, Json.insertNulls, Json.insertMember]

theorem readable_fingerprint (legacy : List TraceRow) (column fingerprint : String) :
    Readable (.sealing legacy) (fingerprintRow column fingerprint) := by
  refine ⟨_, dec_of_version_zero rfl, reads_sealing ?_⟩
  refine .obj (List.pairwise_singleton _ _) fun m hm => ?_
  rw [List.mem_singleton.1 hm]
  refine .obj (List.pairwise_singleton _ _) fun m hm => ?_
  rw [List.mem_singleton.1 hm]
  exact .str _ _

theorem piiPair_fingerprint (column : String) : PiiPair (.sealing []) [] (.fill 1) (.fill 9) false
    [fingerprintRow "a" "a"] [fingerprintRow column "b"] := by
  constructor
  · exact .nil
  · refine .cons ⟨fun h => absurd rfl h, rfl, fun v w hv hw => ?_⟩ .nil
    rw [← Except.ok.inj hv, ← Except.ok.inj hw]
    exact maskPii_fingerprint "a" "b"
  · exact ⟨List.nodup_singleton _, fun r _ => by simp [VaultSetup.sealing]⟩
  · exact List.nodup_nil
  · refine ⟨fun r hr => ?_, fun h => absurd h Bool.false_ne_true⟩
    rw [List.mem_singleton.1 hr]
    exact readable_fingerprint [] "a" "a"
  · refine ⟨fun r hr => ?_, fun h => absurd h Bool.false_ne_true⟩
    rw [List.mem_singleton.1 hr]
    exact readable_fingerprint [] column "b"
  · intro r hr
    rw [List.mem_singleton.1 hr]
    exact fun h => by cases h

/-- The fingerprint in `trace_json` is gone. -/
theorem erasure_leaves_no_pii_sample : LeavesNoPii (.sealing []) [] (.fill 1) (.fill 9) false
    [fingerprintRow "a" "a"] [fingerprintRow "a" "b"] := by
  refine (erasure_leaves_no_pii_iff (.sealing []) roundTrip_sealing (works_sample [])
    (piiPair_fingerprint _)).2 ⟨.cons (fun _ => ⟨rfl, rfl, rfl, rfl⟩) .nil, fun r _ => ?_⟩
  refine Paging.not_straddles_of_length_le _ ?_ _
  rw [agentKeys, List.length_map]
  exact (List.length_filter_le _ _).trans (by simp [sourceTable])

/-- The one in the column is not. -/
theorem erasure_leaves_pii :
    PiiPair (.sealing []) [] (.fill 1) (.fill 9) false [fingerprintRow "a" "a"]
      [fingerprintRow "b" "b"] ∧
    ¬ LeavesNoPii (.sealing []) [] (.fill 1) (.fill 9) false [fingerprintRow "a" "a"]
      [fingerprintRow "b" "b"] := by
  refine ⟨piiPair_fingerprint "b", fun h => ?_⟩
  have hcolumns :=
    (of_leavesNoPii roundTrip_sealing (works_sample []) (piiPair_fingerprint "b") h).1
  cases hcolumns with
  | cons hrow _ =>
    have hlatent : "b" = "a" := (hrow rfl).latentFingerprint
    exact absurd hlatent (by decide)

end IrlEngine
