import IrlEngine.Erasure

/-!
# The partitioning of the trace table

Migrations 013 and 015 under the statements that go on around them.  The first renames
`irl.reasoning_traces` to `reasoning_traces_legacy`, puts an empty partitioned table in its
place and a view over both beside it; the second copies the legacy rows whose primary key
the new table lacks, and drops the view.  Between them every statement reaches the
partitioned table only.

* `Tables.visible` — what the table, or the view while there is one, shows;
* `TablesInv` — trace ids are unique in it, and after the cutover no legacy row is missing;
* **No trace is lost** — `migrations_keep_traces`: each visible row is there once after any
  run, with the columns it keeps for good, and nothing but an insert of that run adds one.

The retention job, which detaches old partitions, is not part of the runs.
-/

namespace IrlEngine

/-! ## The tables -/

/-- How far the migrations have come. -/
inductive TraceSchema where
  /-- `irl.reasoning_traces` is the heap of migration 001. -/
  | heap
  /-- After migration 013: the legacy table, with the view over both tables. -/
  | dualWrite (legacy : List TraceRow)
  /-- After migration 015: the legacy table is still there. -/
  | cutover (legacy : List TraceRow)

/-- The schema, and the tables that statements reach; its traces are `irl.reasoning_traces`. -/
structure Tables where
  schema : TraceSchema
  sys : System

/-- An empty database before the migrations. -/
def Tables.init : Tables := ⟨.heap, .init⟩

/-- The rows of `irl.reasoning_traces_unified` while it exists, else of `irl.reasoning_traces`. -/
def Tables.visible (s : Tables) : List TraceRow :=
  match s.schema with
  | .heap => s.sys.traces
  | .dualWrite legacy => legacy ++ s.sys.traces
  | .cutover _ => s.sys.traces

/-- Step 1 of migration 015. -/
def backfillLegacy (legacy traces : List TraceRow) : List TraceRow :=
  Table.insertMissing TraceRow.primaryKey legacy traces

/-- A statement of the engine, or a migration. -/
inductive TablesEvent where
  | statement (e : Event)
  /-- Migration 013. -/
  | partition
  /-- Migration 015, one transaction. -/
  | cutover
  /-- Step 1 of migration 015 once more. -/
  | backfillAgain

/-- The event is a migration. -/
def TablesEvent.isMigration : TablesEvent → Bool
  | .statement _ => false
  | _ => true

/-- The step of an event. -/
def tablesStep (D : Deployment) (s : Tables) : TablesEvent → Option Tables
  | .statement e =>
    match step D s.sys e with
    | none => none
    | some sys =>
      match s.schema with
      | .dualWrite legacy =>
        -- trace ids are fresh in the unified view
        if ∀ r ∈ sys.traces, r.traceId ∉ legacy.map TraceRow.traceId then some { s with sys := sys }
        else none
      | _ => some { s with sys := sys }
  | .partition =>
    match s.schema with
    | .heap => some ⟨.dualWrite s.sys.traces, { s.sys with traces := [] }⟩
    | _ => none
  | .cutover =>
    match s.schema with
    | .dualWrite legacy =>
      some ⟨.cutover legacy, { s.sys with traces := backfillLegacy legacy s.sys.traces }⟩
    | _ => none
  | .backfillAgain =>
    match s.schema with
    | .cutover legacy =>
      some ⟨.cutover legacy, { s.sys with traces := backfillLegacy legacy s.sys.traces }⟩
    | _ => none

/-- Before the migrations a statement is one of the store. -/
theorem tablesStep_heap {D : Deployment} {sys sys' : System} {e : Event}
    (h : step D sys e = some sys') :
    tablesStep D ⟨.heap, sys⟩ (.statement e) = some ⟨.heap, sys'⟩ := by
  simp only [tablesStep, h]

/-- Everything a step can do. -/
inductive TablesChange (D : Deployment) (s : Tables) : TablesEvent → Tables → Prop where
  | statement (e : Event) (sys : System) (hstep : step D s.sys e = some sys)
      (hfresh : ∀ legacy, s.schema = .dualWrite legacy →
        ∀ r ∈ sys.traces, r.traceId ∉ legacy.map TraceRow.traceId) :
      TablesChange D s (.statement e) { s with sys := sys }
  | partition (hschema : s.schema = .heap) :
      TablesChange D s .partition ⟨.dualWrite s.sys.traces, { s.sys with traces := [] }⟩
  | copy (e : TablesEvent) (he : e.isMigration = true) (legacy : List TraceRow)
      (hschema : s.schema = .dualWrite legacy ∨ s.schema = .cutover legacy) :
      TablesChange D s e
        ⟨.cutover legacy, { s.sys with traces := backfillLegacy legacy s.sys.traces }⟩

theorem tablesChange_of_step {D : Deployment} {s t : Tables} {e : TablesEvent}
    (h : tablesStep D s e = some t) : TablesChange D s e t := by
  rcases s with ⟨schema, sys⟩
  cases e with
  | statement e =>
    simp only [tablesStep] at h
    cases hstep : step D sys e with
    | none => rw [hstep] at h; exact absurd h (by simp)
    | some sys' =>
      rw [hstep] at h
      cases schema with
      | heap =>
        obtain rfl := Option.some.inj h
        exact .statement e sys' hstep (by simp)
      | dualWrite legacy =>
        simp only at h
        split_ifs at h with hfresh
        obtain rfl := Option.some.inj h
        refine .statement e sys' hstep fun l hl => ?_
        obtain rfl := TraceSchema.dualWrite.inj hl
        exact hfresh
      | cutover legacy =>
        obtain rfl := Option.some.inj h
        exact .statement e sys' hstep (by simp)
  | partition =>
    cases schema with
    | heap => obtain rfl := Option.some.inj h; exact .partition rfl
    | _ => exact absurd h (by simp [tablesStep])
  | cutover =>
    cases schema with
    | dualWrite legacy => obtain rfl := Option.some.inj h; exact .copy _ rfl legacy (Or.inl rfl)
    | _ => exact absurd h (by simp [tablesStep])
  | backfillAgain =>
    cases schema with
    | cutover legacy => obtain rfl := Option.some.inj h; exact .copy _ rfl legacy (Or.inr rfl)
    | _ => exact absurd h (by simp [tablesStep])

/-! ## What a step keeps -/

/-- What holds of the tables in every run. -/
structure TablesInv (s : Tables) : Prop where
  unique : (s.visible.map TraceRow.traceId).Nodup
  /-- No legacy row is missing after the cutover. -/
  copied : ∀ legacy, s.schema = .cutover legacy →
    ∀ r ∈ legacy, r.primaryKey ∈ s.sys.traces.map TraceRow.primaryKey

/-- The event is an insert whose arguments make this row. -/
def Inserts (D : Deployment) (n : TraceRow) (s : Tables) (e : TablesEvent) : Prop :=
  ∃ insert a sys, e = .statement insert ∧ insertedBy D insert = some a ∧
    step D s.sys insert = some sys ∧ InsertStep D s.sys sys a n

/-- Where the visible rows of the second state come from, if `Inserted` tells of the inserts in
between. -/
structure Descends (Inserted : TraceRow → Prop) (s t : Tables) : Prop where
  kept : ∀ r ∈ s.visible, ∃ r' ∈ t.visible, SameTerms r r'
  origin : ∀ r' ∈ t.visible, (∃ r ∈ s.visible, SameTerms r r') ∨
    ∃ n, Inserted n ∧ n.traceId ∉ s.visible.map TraceRow.traceId ∧ SameTerms n r'

section Descends

variable {Inserted : TraceRow → Prop} {s t u : Tables}

theorem Descends.of_perm (h : t.visible.Perm s.visible) : Descends Inserted s t :=
  ⟨fun r hr => ⟨r, h.mem_iff.2 hr, .refl r⟩, fun r hr => Or.inl ⟨r, h.mem_iff.1 hr, .refl r⟩⟩

theorem Descends.mono {Inserted' : TraceRow → Prop} (h : Descends Inserted s t)
    (hmono : ∀ n, Inserted n → Inserted' n) : Descends Inserted' s t :=
  ⟨h.kept, fun r' hr' => (h.origin r' hr').imp_right fun ⟨n, hn, hrest⟩ => ⟨n, hmono n hn, hrest⟩⟩

theorem Descends.trans (h : Descends Inserted s t) (h' : Descends Inserted t u) :
    Descends Inserted s u := by
  constructor
  · intro r hr
    obtain ⟨r', hr', hsame⟩ := h.kept r hr
    obtain ⟨r'', hr'', hsame'⟩ := h'.kept r' hr'
    exact ⟨r'', hr'', hsame.trans hsame'⟩
  · intro r'' hr''
    rcases h'.origin r'' hr'' with ⟨r', hr', hsame'⟩ | ⟨n, hn, hfresh, hsame'⟩
    · rcases h.origin r' hr' with ⟨r, hr, hsame⟩ | ⟨n, hn, hfresh, hsame⟩
      · exact Or.inl ⟨r, hr, hsame.trans hsame'⟩
      · exact Or.inr ⟨n, hn, hfresh, hsame.trans hsame'⟩
    · refine Or.inr ⟨n, hn, fun hmem => hfresh ?_, hsame'⟩
      obtain ⟨r, hr, hid⟩ := List.mem_map.1 hmem
      obtain ⟨r', hr', hsame⟩ := h.kept r hr
      rw [← hid, ← hsame.traceId]
      exact List.mem_map_of_mem hr'

end Descends

theorem SameTerms.primaryKey {r r' : TraceRow} (h : SameTerms r r') :
    r'.primaryKey = r.primaryKey :=
  Prod.ext h.traceId h.txnTime

/-- Before the cutover the two tables have no primary key in common. -/
theorem disjoint_of_unique {legacy traces : List TraceRow}
    (h : ((legacy ++ traces).map TraceRow.traceId).Nodup) :
    ∀ r ∈ legacy, r.primaryKey ∉ traces.map TraceRow.primaryKey := by
  intro r hr hmem
  obtain ⟨r', hr', hkey⟩ := List.mem_map.1 hmem
  rw [List.map_append, List.nodup_append] at h
  exact h.2.2 _ (List.mem_map_of_mem hr) _ (List.mem_map_of_mem hr') (congrArg Prod.fst hkey).symm

section Steps

variable {D : Deployment} {s t : Tables}

/-- **A migration shows the same rows afterwards.** -/
theorem perm_of_migration (hi : TablesInv s) {e : TablesEvent} (he : e.isMigration = true)
    (h : tablesStep D s e = some t) : t.visible.Perm s.visible := by
  cases tablesChange_of_step h with
  | statement e sys hstep hfresh => exact absurd he Bool.false_ne_true
  | partition hschema =>
    simp only [Tables.visible, hschema, List.append_nil]
    exact .refl _
  | copy _ _ legacy hschema =>
    have hunique := hi.unique
    rcases hschema with hschema | hschema
    · simp only [Tables.visible, hschema] at hunique ⊢
      rw [backfillLegacy, Table.insertMissing_of_disjoint (disjoint_of_unique hunique)]
      exact List.perm_append_comm
    · simp only [Tables.visible, hschema]
      rw [backfillLegacy, Table.insertMissing_of_subset (hi.copied legacy hschema)]

/-- A statement rewrites the rows of its table one by one, keeping their terms, and inserts at most
one. -/
theorem traces_of_statement {e : Event} {sys : System} (hstep : step D s.sys e = some sys) :
    ∃ rows new, sys.traces = rows ++ new ∧ List.Forall₂ SameTerms s.sys.traces rows ∧
      (new = [] ∨ ∃ n, new = [n] ∧ n.traceId ∉ s.sys.traces.map TraceRow.traceId ∧
        Inserts D n s (.statement e)) := by
  have hrefl : List.Forall₂ SameTerms s.sys.traces s.sys.traces :=
    List.forall₂_same.2 fun r _ => .refl r
  cases hinsert : e.isInsert with
  | true =>
    rcases insertStep_of_step hinsert hstep with rfl | ⟨a, n, ha, hins⟩
    · exact ⟨s.sys.traces, [], (List.append_nil _).symm, hrefl, Or.inl rfl⟩
    · refine ⟨s.sys.traces, [n], by rw [hins.next], hrefl, Or.inr ⟨n, rfl, hins.fresh, ?_⟩⟩
      exact ⟨e, a, sys, rfl, ha, hstep, hins⟩
  | false =>
    obtain ⟨g, new, htraces, hg, hnew⟩ := traces_of_change (change_of_step hstep)
    have hnone : new = [] := hnew.resolve_right fun h => by simp [hinsert] at h
    refine ⟨s.sys.traces.map g, [], by rw [htraces, hnone], ?_, Or.inl rfl⟩
    exact List.forall₂_map_right_iff.2 (List.forall₂_same.2 fun r hr => (hg r hr).sameTerms)

/-- So it does with the visible rows, and what it inserts is new to the view. -/
theorem visible_of_statement {e : Event} {sys : System} (hstep : step D s.sys e = some sys)
    (hfresh : ∀ legacy, s.schema = .dualWrite legacy →
      ∀ r ∈ sys.traces, r.traceId ∉ legacy.map TraceRow.traceId) :
    ∃ rows new, ({ s with sys := sys } : Tables).visible = rows ++ new ∧
      List.Forall₂ SameTerms s.visible rows ∧
      (new = [] ∨ ∃ n, new = [n] ∧ n.traceId ∉ s.visible.map TraceRow.traceId ∧
        Inserts D n s (.statement e)) := by
  obtain ⟨rows, new, htraces, hsame, hnew⟩ := traces_of_statement hstep
  cases hschema : s.schema with
  | dualWrite legacy =>
    have hmem : ∀ n ∈ new, n.traceId ∉ legacy.map TraceRow.traceId := fun n hn =>
      hfresh legacy hschema n (htraces ▸ List.mem_append_right _ hn)
    simp only [Tables.visible, hschema, htraces]
    refine ⟨legacy ++ rows, new, (List.append_assoc ..).symm, ?_, hnew.imp_right ?_⟩
    · exact List.rel_append (List.forall₂_same.2 fun r _ => .refl r) hsame
    · rintro ⟨n, rfl, hn, hinserts⟩
      refine ⟨n, rfl, ?_, hinserts⟩
      rw [List.map_append, List.mem_append]
      exact fun h => h.elim (hmem n (List.mem_singleton_self n)) hn
  | heap =>
    simp only [Tables.visible, hschema, htraces]
    exact ⟨rows, new, rfl, hsame, hnew⟩
  | cutover legacy =>
    simp only [Tables.visible, hschema, htraces]
    exact ⟨rows, new, rfl, hsame, hnew⟩

theorem map_traceId_of_sameTerms {rows rows' : List TraceRow}
    (h : List.Forall₂ SameTerms rows rows') :
    rows'.map TraceRow.traceId = rows.map TraceRow.traceId := by
  induction h with
  | nil => rfl
  | cons hr _ ih => rw [List.map_cons, List.map_cons, hr.traceId, ih]

theorem descends_of_statement {e : Event} {sys : System} (hstep : step D s.sys e = some sys)
    (hfresh : ∀ legacy, s.schema = .dualWrite legacy →
      ∀ r ∈ sys.traces, r.traceId ∉ legacy.map TraceRow.traceId) :
    Descends (fun n => Inserts D n s (.statement e)) s { s with sys := sys } := by
  obtain ⟨rows, new, hvisible, hsame, hnew⟩ := visible_of_statement hstep hfresh
  constructor
  · intro r hr
    obtain ⟨r', hr', hterms⟩ := Table.exists_of_forall₂ hsame hr
    exact ⟨r', hvisible ▸ List.mem_append_left _ hr', hterms⟩
  · intro r' hr'
    rw [hvisible] at hr'
    rcases List.mem_append.1 hr' with hr' | hr'
    · obtain ⟨r, hr, hterms⟩ := Table.exists_of_forall₂ hsame.flip hr'
      exact Or.inl ⟨r, hr, hterms⟩
    · rcases hnew with rfl | ⟨n, rfl, hn, hinserts⟩
      · exact absurd hr' List.not_mem_nil
      · rw [List.mem_singleton.1 hr']
        exact Or.inr ⟨n, hinserts, hn, .refl n⟩

theorem unique_of_statement (hi : TablesInv s) {e : Event} {sys : System}
    (hstep : step D s.sys e = some sys)
    (hfresh : ∀ legacy, s.schema = .dualWrite legacy →
      ∀ r ∈ sys.traces, r.traceId ∉ legacy.map TraceRow.traceId) :
    (({ s with sys := sys } : Tables).visible.map TraceRow.traceId).Nodup := by
  obtain ⟨rows, new, hvisible, hsame, hnew⟩ := visible_of_statement hstep hfresh
  rw [hvisible, List.map_append, map_traceId_of_sameTerms hsame]
  rcases hnew with rfl | ⟨n, rfl, hn, -⟩
  · rw [List.map_nil, List.append_nil]
    exact hi.unique
  · refine List.nodup_append.2 ⟨hi.unique, List.nodup_singleton _, fun a ha b hb hab => hn ?_⟩
    rw [List.map_singleton, List.mem_singleton] at hb
    exact hb ▸ hab ▸ ha

/-- Legacy rows that have been copied stay there. -/
theorem copied_of_statement {e : Event} {sys : System} (hstep : step D s.sys e = some sys)
    {r : TraceRow} (h : r.primaryKey ∈ s.sys.traces.map TraceRow.primaryKey) :
    r.primaryKey ∈ sys.traces.map TraceRow.primaryKey := by
  obtain ⟨g, new, htraces, hg, -⟩ := traces_of_change (change_of_step hstep)
  obtain ⟨r', hr', hkey⟩ := List.mem_map.1 h
  rw [htraces, ← hkey, ← (hg r' hr').sameTerms.primaryKey]
  exact List.mem_map_of_mem (List.mem_append_left _ (List.mem_map_of_mem hr'))

/-- **Each step keeps the invariant, and every visible row descends from what was visible.** -/
theorem tablesInv_step (hi : TablesInv s) {e : TablesEvent} (h : tablesStep D s e = some t) :
    TablesInv t ∧ Descends (fun n => Inserts D n s e) s t := by
  have hmigration : e.isMigration = true → (t.visible.map TraceRow.traceId).Nodup ∧
      Descends (fun n => Inserts D n s e) s t := by
    intro he
    have hperm := perm_of_migration hi he h
    exact ⟨(hperm.map _).nodup_iff.2 hi.unique, .of_perm hperm⟩
  cases tablesChange_of_step h with
  | statement e sys hstep hfresh =>
    refine ⟨⟨unique_of_statement hi hstep hfresh, fun legacy hschema r hr => ?_⟩,
      descends_of_statement hstep hfresh⟩
    exact copied_of_statement hstep (hi.copied legacy hschema r hr)
  | partition hschema =>
    obtain ⟨hunique, hdescends⟩ := hmigration rfl
    exact ⟨⟨hunique, fun legacy hl => by simp at hl⟩, hdescends⟩
  | copy _ he legacy hschema =>
    obtain ⟨hunique, hdescends⟩ := hmigration he
    refine ⟨⟨hunique, fun l hl r hr => ?_⟩, hdescends⟩
    obtain rfl := TraceSchema.cutover.inj hl
    exact Table.mem_map_insertMissing.2 (Or.inr (List.mem_map_of_mem hr))

end Steps

/-! ## Whole runs -/

theorem tablesInv_init : TablesInv .init := by
  constructor <;> simp [Tables.init, Tables.visible, System.init]

/-- **Along a run**: what becomes visible has been inserted by one of its statements. -/
theorem descends_of_run {D : Deployment} {es : List TablesEvent} {s t : Tables} (hi : TablesInv s)
    (h : Run.run (tablesStep D) s es = some t) :
    TablesInv t ∧ Descends (fun n => Run.Happens (tablesStep D) (Inserts D n) s es) s t := by
  induction es generalizing s with
  | nil =>
    rw [Run.run_nil, Option.some.injEq] at h
    exact ⟨h ▸ hi, .of_perm (h ▸ .refl _)⟩
  | cons e es ih =>
    obtain ⟨u, hstep, hrest⟩ := Run.run_cons_eq_some.1 h
    obtain ⟨hu, hfirst⟩ := tablesInv_step hi hstep
    obtain ⟨ht, hlater⟩ := ih hu hrest
    refine ⟨ht, (hfirst.mono fun n hn => ?_).trans (hlater.mono fun n hn => ?_)⟩
    · exact Run.happens_head hn es
    · exact Run.happens_tail hstep hn

/-- **No trace is lost.**  Whatever happens between two states of a database that is migrated
while the statements of the engine go on, no two rows visible in the second have one id, and each
row visible in the first is among them exactly once, under its id, times, seal, verdict and intent;
every other row there was inserted by a statement in between; and a migration that follows leaves
all columns of all visible rows as they are. -/
theorem migrations_keep_traces (D : Deployment) {es fs : List TablesEvent} {s t : Tables}
    (hs : Run.run (tablesStep D) .init es = some s) (ht : Run.run (tablesStep D) s fs = some t) :
    (t.visible.map TraceRow.traceId).Nodup ∧
    (∀ r ∈ s.visible, ∃! r', r' ∈ t.visible ∧ SameTerms r r') ∧
    (∀ r' ∈ t.visible, (∃ r ∈ s.visible, SameTerms r r') ∨
      ∃ n, Run.Happens (tablesStep D) (Inserts D n) s fs ∧
        n.traceId ∉ s.visible.map TraceRow.traceId ∧ SameTerms n r') ∧
    ∀ e u, e.isMigration = true → tablesStep D t e = some u → u.visible.Perm t.visible := by
  obtain ⟨his, -⟩ := descends_of_run tablesInv_init hs
  obtain ⟨hit, hdescends⟩ := descends_of_run his ht
  refine ⟨hit.unique, fun r hr => ?_, hdescends.origin,
    fun e u he hstep => perm_of_migration hit he hstep⟩
  obtain ⟨r', hr', hsame⟩ := hdescends.kept r hr
  refine ⟨r', ⟨hr', hsame⟩, fun r'' hr'' => ?_⟩
  exact List.inj_on_of_nodup_map hit.unique hr''.1 hr' (hr''.2.traceId.trans hsame.traceId.symm)

/-! One trace written before the first migration. -/

/-- Both migrations, and the copy once more. -/
def tablesEvents : List TablesEvent := [.partition, .cutover, .backfillAgain]

theorem run_heap : Run.run (tablesStep ⟨.sample, .sample, []⟩) .init [.statement (.insertTrace
    (sampleArgs .sample (.fill 2) (.sample (.fill 1) (.custom "buy") F64.one) sampleDecision))]
      = some ⟨.heap, ⟨[boughtRow], [], []⟩⟩ :=
  (Run.run_cons (tablesStep_heap (step_insertTrace .sample (.fill 2))) []).trans (Run.run_nil _)

theorem run_tables : Run.run (tablesStep ⟨.sample, .sample, []⟩) ⟨.heap, ⟨[boughtRow], [], []⟩⟩
    tablesEvents = some ⟨.cutover [boughtRow], ⟨[boughtRow], [], []⟩⟩ := by
  have hself : backfillLegacy [boughtRow] [boughtRow] = [boughtRow] :=
    Table.insertMissing_of_subset fun r hr => List.mem_map_of_mem hr
  have hempty : backfillLegacy [boughtRow] [] = [boughtRow] :=
    Table.insertMissing_of_disjoint (by simp)
  simp only [tablesEvents, Run.run, tablesStep, Option.bind_some, hempty, hself]

/-- The trace is in the partitioned table. -/
theorem migrations_keep_traces_sample : ∃! r', r' ∈ [boughtRow] ∧ SameTerms boughtRow r' :=
  (migrations_keep_traces ⟨.sample, .sample, []⟩ run_heap run_tables).2.1 boughtRow
    (List.mem_singleton_self _)

end IrlEngine
