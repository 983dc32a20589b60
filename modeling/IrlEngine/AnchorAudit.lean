import IrlEngine.AnchorCoverage

/-!
# Recomputing a stored root

An auditor reads the rows of the period of an anchor, later and with the table as it then is, and
compares their root with the stored one.

* `anchor_auditable` — **an honest table always passes**: whatever binds, expiries, encryptions and
  erasures come after an anchor, its root is the root of the rows of its period, in runs in which no
  trace commits into a period that is already read.
-/

namespace IrlEngine

/-- The rows of a period have these leaves, in an order that the leaf query may give. -/
def Backed (traces : List TraceRow) (start stop : ℤ) (hashes : List String) : Prop :=
  ∃ rows, LeafOrder traces start stop rows ∧ hashesOf rows = hashes

/-- Rows that keep their times stay in their periods. -/
theorem filter_inPeriod_map {traces : List TraceRow} {g : TraceRow → TraceRow}
    (h : ∀ r ∈ traces, SameTerms r (g r)) (start stop : ℤ) :
    (traces.map g).filter (inPeriod start stop) = (traces.filter (inPeriod start stop)).map g := by
  rw [List.filter_map]
  refine congrArg (List.map g) (List.filter_congr fun r hr => ?_)
  show inPeriod start stop (g r) = inPeriod start stop r
  rw [inPeriod, inPeriod, TraceRow.txnMicros, TraceRow.txnMicros, (h r hr).txnTime]

theorem LeafOrder.map {traces rows : List TraceRow} {start stop : ℤ} {g : TraceRow → TraceRow}
    (horder : LeafOrder traces start stop rows) (h : ∀ r ∈ traces, SameTerms r (g r)) :
    LeafOrder (traces.map g) start stop (rows.map g) := by
  have hrows : ∀ r ∈ rows, SameTerms r (g r) := by
    intro r hr
    exact h r (List.mem_of_mem_filter (horder.perm.mem_iff.1 hr))
  have htime : ∀ r ∈ rows, (g r).txnMicros = r.txnMicros := by
    intro r hr
    rw [TraceRow.txnMicros, TraceRow.txnMicros, (hrows r hr).txnTime]
  refine ⟨?_, ?_⟩
  · rw [filter_inPeriod_map h]
    exact horder.perm.map g
  · refine List.pairwise_map.2 (horder.sorted.imp_of_mem ?_)
    intro a b ha hb hab
    rw [htime a ha, htime b hb]
    exact hab

/-- A period keeps its leaves through a step, unless a row of it becomes visible. -/
theorem Backed.of_change {D : Deployment} {s t : System} {e : Event} {start stop : ℤ}
    {hashes : List String} (h : Backed s.traces start stop hashes) (hc : Change D s e t)
    (hnew : ∀ r ∈ t.traces, r.traceId ∉ s.traces.map TraceRow.traceId → stop < r.txnMicros) :
    Backed t.traces start stop hashes := by
  obtain ⟨rows, horder, hhashes⟩ := h
  obtain ⟨g, new, htraces, hg, hcases⟩ := traces_of_change hc
  have hterms : ∀ r ∈ s.traces, SameTerms r (g r) := fun r hr => (hg r hr).sameTerms
  have hmapped := horder.map hterms
  have hkept : hashesOf (rows.map g) = hashes := by
    rw [← hhashes, hashesOf, hashesOf, List.map_map]
    refine List.map_congr_left fun r hr => ?_
    exact (hterms r (List.mem_of_mem_filter (horder.perm.mem_iff.1 hr))).reasoningHash
  refine ⟨rows.map g, ?_, hkept⟩
  rcases hcases with rfl | ⟨-, r, rfl, hfresh, -⟩
  · rw [htraces, List.append_nil]
    exact hmapped
  · have hout : inPeriod start stop r = false := by
      have := hnew r (by rw [htraces]; simp) hfresh
      exact decide_eq_false (by omega)
    refine ⟨?_, hmapped.sorted⟩
    rw [htraces, List.filter_append, List.filter_singleton, hout]
    simpa using hmapped.perm

/-! ## Runs -/

/-- No row becomes visible in a period that a cycle has already read. -/
def CommitsInTime (D : Deployment) (s : AnchorSystem) : AnchorEvent → Prop
  | .trace e => ∀ t, step D s.system e = some t → ∀ r ∈ t.traces,
      r.traceId ∉ s.system.traces.map TraceRow.traceId →
      (∀ a ∈ s.anchors, a.row.periodEnd < r.txnMicros) ∧
      ∀ start stop rows seen, .collected start stop rows seen ∈ s.cycles →
        leafCount (hashesOf rows) ≠ 0 → stop < r.txnMicros
  | _ => True

theorem InTime.commitsInTime {D : Deployment} {s : AnchorSystem} {e : AnchorEvent}
    (h : InTime D s e) : CommitsInTime D s e := by
  cases e with
  | trace e => exact fun t ht r hr hfresh => (h t ht r hr hfresh).2
  | readLastEnd => trivial
  | takeNow k now => trivial
  | readRows k order => trivial
  | insertAnchor k otsNow ots => trivial

/-- What a cycle has collected is what the table holds. -/
def CycleBacked (traces : List TraceRow) : CyclePhase → Prop
  | .collected start stop rows _ =>
    leafCount (hashesOf rows) ≠ 0 → Backed traces start stop (hashesOf rows)
  | _ => True

/-- Anchors and cycles rest on rows that the table still has. -/
structure BackedInv (s : AnchorSystem) : Prop where
  backed : ∀ a ∈ s.anchors,
    Backed s.system.traces a.row.periodStart a.row.periodEnd (hashesOf a.leaves)
  root : ∀ a ∈ s.anchors, a.row.merkleRoot = (merkleRoot (hashesOf a.leaves)).toHex
  cycles : ∀ c ∈ s.cycles, CycleBacked s.system.traces c

theorem BackedInv.setCycle {s : AnchorSystem} (hs : BackedInv s) {k : ℕ} {c : CyclePhase}
    (hc : CycleBacked s.system.traces c) : BackedInv { s with cycles := s.cycles.set k c } := by
  refine ⟨hs.backed, hs.root, fun d hd => ?_⟩
  rcases List.mem_or_eq_of_mem_set hd with hd | rfl
  · exact hs.cycles d hd
  · exact hc

/-- A writer of the trace table. -/
theorem BackedInv.trace {D : Deployment} {s : AnchorSystem} {t : System} {e : Event}
    (hs : BackedInv s) (hP : CommitsInTime D s (.trace e)) (h : step D s.system e = some t) :
    BackedInv { s with system := t } := by
  have hc := change_of_step h
  refine ⟨fun a ha => ?_, hs.root, fun c hmem => ?_⟩
  · exact (hs.backed a ha).of_change hc fun r hr hfresh => (hP t h r hr hfresh).1 a ha
  · cases c with
    | started start seen => trivial
    | timed start stop seen => trivial
    | collected start stop rows seen =>
      intro hcount
      exact (hs.cycles _ hmem hcount).of_change hc fun r hr hfresh =>
        (hP t h r hr hfresh).2 start stop rows seen hmem hcount
    | done => trivial

theorem BackedInv.step {D : Deployment} {s t : AnchorSystem} {e : AnchorEvent} (hs : BackedInv s)
    (hP : CommitsInTime D s e) (h : anchorStep D s e = some t) : BackedInv t := by
  cases e with
  | trace e =>
    obtain ⟨u, hu, rfl⟩ := Option.map_eq_some_iff.1 h
    exact hs.trace hP hu
  | readLastEnd =>
    obtain rfl := Option.some.inj h
    refine ⟨hs.backed, hs.root, fun c hc => ?_⟩
    rcases List.mem_append.1 hc with hc | hc
    · exact hs.cycles c hc
    · rw [List.mem_singleton.1 hc]
      trivial
  | takeNow k now =>
    simp only [anchorStep] at h
    split at h
    · obtain rfl := Option.some.inj h
      exact hs.setCycle trivial
    · exact absurd h (by simp)
  | readRows k order =>
    simp only [anchorStep] at h
    split at h
    · split at h
      · rename_i start stop seen hk horder
        obtain rfl := Option.some.inj h
        exact hs.setCycle fun _ => ⟨_, leafQuery_order (scanned_perm horder) start stop, rfl⟩
      · exact absurd h (by simp)
    · exact absurd h (by simp)
  | insertAnchor k otsNow ots =>
    simp only [anchorStep] at h
    split at h
    · rename_i start stop rows seen hk
      split at h
      · obtain rfl := Option.some.inj h
        exact hs.setCycle trivial
      · rename_i hcount
        obtain rfl := Option.some.inj h
        have hrows : Backed s.system.traces start stop (hashesOf rows) :=
          hs.cycles _ (List.mem_of_getElem? hk) hcount
        refine ⟨fun a ha => ?_, fun a ha => ?_, (hs.setCycle (c := .done) trivial).cycles⟩
        · rcases List.mem_append.1 ha with ha | ha
          · exact hs.backed a ha
          · rw [List.mem_singleton.1 ha]
            exact hrows
        · rcases List.mem_append.1 ha with ha | ha
          · exact hs.root a ha
          · rw [List.mem_singleton.1 ha]
            rfl
    · exact absurd h (by simp)

theorem backedInv_init : BackedInv .init := by
  refine ⟨fun a ha => absurd ha (by simp [AnchorSystem.init]),
    fun a ha => absurd ha (by simp [AnchorSystem.init]), fun c hc => ?_⟩
  exact absurd hc (by simp [AnchorSystem.init])

/-- What an auditor recomputes from the table is the stored root. -/
theorem BackedInv.recompute {s : AnchorSystem} (hs : BackedInv s) {a : Anchored}
    (ha : a ∈ s.anchors) {rows : List TraceRow}
    (hrows : LeafOrder s.system.traces a.row.periodStart a.row.periodEnd rows)
    (hties : TiesAgree s.system.traces a.row.periodStart a.row.periodEnd) :
    merkleRoot (hashesOf rows) = merkleRoot (hashesOf a.leaves) := by
  obtain ⟨rows₀, horder, hhashes⟩ := hs.backed a ha
  have hroots : computeMerkleRoot (hashesOf rows) = computeMerkleRoot (hashesOf a.leaves) := by
    rw [← hhashes]
    exact computeMerkleRoot_congr (nodes_eq_of_ties hties hrows horder)
  simp only [merkleRoot, hroots]

/-- **An honest table always passes.**  Whatever happened to the traces since an anchor was stored,
its root is the root of the rows of its period, in any order that the query may give them, as long
as rows of one time have one leaf. -/
theorem anchor_auditable (D : Deployment) {es : List AnchorEvent} {s : AnchorSystem}
    (hrun : Run.run (anchorStep D) .init es = some s)
    (hP : Run.Along (anchorStep D) (CommitsInTime D) .init es) {a : Anchored} (ha : a ∈ s.anchors)
    {rows : List TraceRow}
    (hrows : LeafOrder s.system.traces a.row.periodStart a.row.periodEnd rows)
    (hties : TiesAgree s.system.traces a.row.periodStart a.row.periodEnd) :
    (merkleRoot (hashesOf rows)).toHex = a.row.merkleRoot := by
  have hinv := Run.run_invariant_along (fun s e t hs hP h => BackedInv.step hs hP h) hrun hP
    backedInv_init
  rw [hinv.root a ha, hinv.recompute ha hrows hties]

/-- The anchored order, recomputed. -/
theorem anchor_auditable_sample : (merkleRoot (hashesOf [haltedRow])).toHex
    = haltedAnchor.row.merkleRoot := by
  have hin : inPeriod 0 2000 haltedRow = true := by decide
  have hfilter : [haltedRow].filter (inPeriod 0 2000) = [haltedRow] := by simp [hin]
  refine anchor_auditable .sample run_anchoring ?_ (List.mem_singleton_self haltedAnchor)
    ⟨List.Perm.of_eq hfilter.symm, List.pairwise_singleton _ _⟩ ?_
  · exact Run.along_mono (fun s e h => h.commitsInTime) inTime_anchoring
  · intro r hr q hq _ _ _
    rw [List.mem_singleton.1 hr, List.mem_singleton.1 hq]

end IrlEngine
