import IrlEngine.Anchor

/-!
# Which traces are anchored

The trace table and its writers, together with any number of anchor cycles, each split
into its four accesses: read the last `period_end`, take the time, read the rows, store
the anchor.  A call of `authorize` chooses the transaction time of its row when it
starts, and the row is visible from its commit on; the two are not ordered in any way.

* `anchored_once` — a trace whose time is covered is a leaf of exactly one anchor, in
  runs in which no trace commits into a period that is already read and no cycle is
  overtaken by another one;
* `trace_escapes` — a trace that commits late is in no anchor.
-/

namespace IrlEngine

/-! ## Cycles in flight -/

/-- How far a cycle has come.  `seen` is the number of anchors that were stored when it
read the last one. -/
inductive CyclePhase where
  | started (start : ℤ) (seen : ℕ)
  | timed (start stop : ℤ) (seen : ℕ)
  | collected (start stop : ℤ) (rows : List TraceRow) (seen : ℕ)
  | done

/-- A stored anchor, with the rows whose hashes are its leaves. -/
structure Anchored where
  row : AnchorRow
  leaves : List TraceRow

/-- The store, its anchors, and the cycles under way. -/
structure AnchorSystem where
  system : System
  anchors : List Anchored
  cycles : List CyclePhase

/-- An empty store without an anchor. -/
def AnchorSystem.init : AnchorSystem := ⟨.init, [], []⟩

/-- The accesses of the anchor cycles, each named by its place, and of the writers of the traces.
-/
inductive AnchorEvent where
  /-- A writer of the trace table; an `authorize` is here at its commit. -/
  | trace (e : Event)
  | readLastEnd
  | takeNow (k : ℕ) (now : ℤ)
  /-- The leaf query, which scans the table in the given order. -/
  | readRows (k : ℕ) (order : List ℕ)
  | insertAnchor (k : ℕ) (otsNow : ℤ) (ots : Except String (List UInt8))

/-- The start of the period of a cycle that begins now. -/
def AnchorSystem.nextStart (s : AnchorSystem) : ℤ :=
  IrlEngine.nextStart (s.anchors.map Anchored.row)

/-- The rows in the given order of their places. -/
def scanned (traces : List TraceRow) (order : List ℕ) : List TraceRow :=
  order.filterMap fun i => traces[i]?

/-- The step of an access. -/
def anchorStep (D : Deployment) (s : AnchorSystem) : AnchorEvent → Option AnchorSystem
  | .trace e => (step D s.system e).map fun t => { s with system := t }
  | .readLastEnd => some { s with cycles := s.cycles ++ [.started s.nextStart s.anchors.length] }
  | .takeNow k now =>
    match s.cycles[k]? with
    | some (.started start seen) => some { s with cycles := s.cycles.set k (.timed start now seen) }
    | _ => none
  | .readRows k order =>
    match s.cycles[k]? with
    | some (.timed start stop seen) =>
      let rows := leafQuery (scanned s.system.traces order) start stop
      if order.isPerm (List.range s.system.traces.length) then
        some { s with cycles := s.cycles.set k (.collected start stop rows seen) }
      else none
    | _ => none
  | .insertAnchor k otsNow ots =>
    match s.cycles[k]? with
    | some (.collected start stop rows _) =>
      if leafCount (hashesOf rows) = 0 then some { s with cycles := s.cycles.set k .done }
      else some { s with
        anchors := s.anchors ++ [⟨anchorRow start stop (hashesOf rows) otsNow ots, rows⟩]
        cycles := s.cycles.set k .done }
    | _ => none

/-- The trace ids of all leaves. -/
def AnchorSystem.leafIds (s : AnchorSystem) : List Uuid :=
  s.anchors.flatMap fun a => a.leaves.map TraceRow.traceId

/-- A row becomes visible before the leaf query of its period, and no other anchor is
stored between the first and the last access of a cycle. -/
def InTime (D : Deployment) (s : AnchorSystem) : AnchorEvent → Prop
  | .trace e => ∀ t, step D s.system e = some t → ∀ r ∈ t.traces,
      r.traceId ∉ s.system.traces.map TraceRow.traceId →
      0 < r.txnMicros ∧ (∀ a ∈ s.anchors, a.row.periodEnd < r.txnMicros) ∧
      ∀ start stop rows seen, .collected start stop rows seen ∈ s.cycles →
        leafCount (hashesOf rows) ≠ 0 → stop < r.txnMicros
  | .insertAnchor k _ _ => ∀ start stop rows seen,
      s.cycles[k]? = some (.collected start stop rows seen) → leafCount (hashesOf rows) ≠ 0 →
      seen = s.anchors.length
  | _ => True

/-- The accesses of a cycle that runs alone, as the `k`-th one. -/
def cycleEvents (k : ℕ) (now : ℤ) (order : List ℕ) (otsNow : ℤ)
    (ots : Except String (List UInt8)) : List AnchorEvent :=
  [.readLastEnd, .takeNow k now, .readRows k order, .insertAnchor k otsNow ots]

/-- Four accesses in a row are one `run_anchor_cycle`. -/
theorem cycle_alone (D : Deployment) (s : AnchorSystem) {order : List ℕ}
    (horder : order.isPerm (List.range s.system.traces.length) = true) (now otsNow : ℤ)
    (client : Except String Unit) (answer : String → Except String (List UInt8)) :
    ∃ t, Run.run (anchorStep D) s (cycleEvents s.cycles.length now order otsNow
        (postToOpentimestamps client answer)) = some t ∧
      t.anchors.map Anchored.row = (runAnchorCycle (s.anchors.map Anchored.row)
        ⟨.ok (), now, .ok (scanned s.system.traces order), otsNow, client, answer, .stored⟩).1 := by
  have hget : ∀ c : CyclePhase, (s.cycles ++ [c])[s.cycles.length]? = some c := by simp
  have hset : ∀ c d : CyclePhase, (s.cycles ++ [c]).set s.cycles.length d = s.cycles ++ [d] := by
    intro c d
    rw [List.set_append_right _ _ le_rfl, Nat.sub_self]
    rfl
  simp only [cycleEvents, Run.run, anchorStep, Option.bind_some, hget, hset, horder, if_true,
    runAnchorCycle, AnchorSystem.nextStart]
  by_cases hcount : leafCount (hashesOf (leafQuery (scanned s.system.traces order)
      (nextStart (s.anchors.map Anchored.row)) now)) = 0
  · refine ⟨_, by rw [if_pos hcount]; rfl, ?_⟩
    rw [if_pos hcount]
  · refine ⟨_, by rw [if_neg hcount]; rfl, ?_⟩
    rw [if_neg hcount, List.map_append]
    rfl

/-! ## Rows of a period -/

/-- The ids of the rows of a period. -/
def periodIds (traces : List TraceRow) (start stop : ℤ) : List Uuid :=
  (traces.filter (inPeriod start stop)).map TraceRow.traceId

theorem scanned_perm {traces : List TraceRow} {order : List ℕ}
    (h : order.isPerm (List.range traces.length) = true) : (scanned traces order).Perm traces := by
  have hall : (List.range traces.length).filterMap (fun i => traces[i]?) = traces := by
    clear h
    induction traces with
    | nil => rfl
    | cons r traces ih =>
      rw [List.length_cons, List.range_succ_eq_map, List.filterMap_cons, List.filterMap_map]
      exact congrArg (List.cons r) ih
  exact ((List.isPerm_iff.1 h).filterMap _).trans (by rw [hall])

/-- Rows that keep their ids and times stay in their periods. -/
theorem periodIds_map {traces : List TraceRow} {g : TraceRow → TraceRow}
    (h : ∀ r ∈ traces, SameTerms r (g r)) (start stop : ℤ) :
    periodIds (traces.map g) start stop = periodIds traces start stop := by
  induction traces with
  | nil => rfl
  | cons r traces ih =>
    have hr := h r (by simp)
    have hin : inPeriod start stop (g r) = inPeriod start stop r := by
      rw [inPeriod, inPeriod, TraceRow.txnMicros, TraceRow.txnMicros, hr.txnTime]
    have hrest := ih fun q hq => h q (by simp [hq])
    unfold periodIds at hrest ⊢
    rw [List.map_cons, List.filter_cons, List.filter_cons, hin]
    split
    · rw [List.map_cons, List.map_cons, hrest, hr.traceId]
    · exact hrest

/-- A period and the one after it. -/
theorem periodIds_split (traces : List TraceRow) {start mid stop : ℤ} (h₁ : start ≤ mid)
    (h₂ : mid ≤ stop) :
    (periodIds traces start mid ++ periodIds traces mid stop).Perm
    (periodIds traces start stop) := by
  have hsplit := List.filter_append_perm (inPeriod start mid) (traces.filter (inPeriod start stop))
  rw [List.filter_filter, List.filter_filter] at hsplit
  have hlow : ∀ r, (inPeriod start mid r && inPeriod start stop r) = inPeriod start mid r := by
    intro r
    unfold inPeriod
    rw [← Bool.decide_and, decide_eq_decide]
    omega
  have hhigh : ∀ r, (!inPeriod start mid r && inPeriod start stop r) = inPeriod mid stop r := by
    intro r
    unfold inPeriod
    rw [← decide_not, ← Bool.decide_and, decide_eq_decide]
    omega
  simp only [hlow, hhigh] at hsplit
  unfold periodIds
  rw [← List.map_append]
  exact hsplit.map _

/-- A step leaves a period alone unless a row of it becomes visible. -/
theorem periodIds_of_change {D : Deployment} {s t : System} {e : Event} (h : Change D s e t)
    {start stop : ℤ}
    (hnew : ∀ r ∈ t.traces, r.traceId ∉ s.traces.map TraceRow.traceId → stop < r.txnMicros) :
    periodIds t.traces start stop = periodIds s.traces start stop := by
  obtain ⟨g, new, htraces, hg, hcases⟩ := traces_of_change h
  have hkept := periodIds_map (fun r hr => (hg r hr).sameTerms) start stop
  rcases hcases with rfl | ⟨-, r, rfl, hfresh, -⟩
  · rw [htraces, List.append_nil, hkept]
  · have hout : inPeriod start stop r = false := by
      have := hnew r (by rw [htraces]; simp) hfresh
      exact decide_eq_false (by omega)
    rw [htraces, ← hkept, periodIds, periodIds, List.filter_append, List.filter_singleton, hout]
    simp

/-! ## The invariant -/

/-- A cycle that saw all stored anchors starts the next period. -/
def StartsNext (anchors : List Anchored) (start : ℤ) (seen : ℕ) : Prop :=
  seen ≤ anchors.length ∧ (seen = anchors.length → start = nextStart (anchors.map Anchored.row))

/-- What a cycle in flight knows: it starts the next period unless it was overtaken, and
it has collected the rows of its period. -/
def CycleSound (traces : List TraceRow) (anchors : List Anchored) : CyclePhase → Prop
  | .started start seen => StartsNext anchors start seen
  | .timed start _ seen => StartsNext anchors start seen
  | .collected start stop rows seen => StartsNext anchors start seen ∧
      (leafCount (hashesOf rows) ≠ 0 →
        start < stop ∧ (rows.map TraceRow.traceId).Perm (periodIds traces start stop))
  | .done => True

/-- Periods follow one another, and their leaves are the rows in them. -/
structure CoverageInv (s : AnchorSystem) : Prop where
  ids : UniqueIds s.system
  positive : ∀ r ∈ s.system.traces, 0 < r.txnMicros
  tiled : Tiled 0 (s.anchors.map Anchored.row) s.nextStart
  leaves : s.leafIds.Perm (periodIds s.system.traces 0 s.nextStart)
  cycles : ∀ c ∈ s.cycles, CycleSound s.system.traces s.anchors c

/-- A later anchor overtakes the cycles in flight. -/
theorem StartsNext.overtaken {anchors : List Anchored} {start : ℤ} {seen : ℕ}
    (h : StartsNext anchors start seen) (a : Anchored) :
    StartsNext (anchors ++ [a]) start seen := by
  have hlen : (anchors ++ [a]).length = anchors.length + 1 := by simp
  refine ⟨by have := h.1; omega, fun hseen => ?_⟩
  have := h.1
  omega

theorem CycleSound.overtaken {traces : List TraceRow} {anchors : List Anchored} {c : CyclePhase}
    (h : CycleSound traces anchors c) (a : Anchored) : CycleSound traces (anchors ++ [a]) c := by
  cases c with
  | started start seen => exact StartsNext.overtaken h a
  | timed start stop seen => exact StartsNext.overtaken h a
  | collected start stop rows seen => exact ⟨StartsNext.overtaken h.1 a, h.2⟩
  | done => trivial

/-- Replacing one cycle of a sound state by a sound one. -/
theorem CoverageInv.setCycle {s : AnchorSystem} (hs : CoverageInv s) {k : ℕ} {c : CyclePhase}
    (hc : CycleSound s.system.traces s.anchors c) :
    CoverageInv { s with cycles := s.cycles.set k c } := by
  refine ⟨hs.ids, hs.positive, hs.tiled, hs.leaves, ?_⟩
  intro d hd
  rcases List.mem_or_eq_of_mem_set hd with hd | rfl
  · exact hs.cycles d hd
  · exact hc

/-- A visible row is later than everything that is anchored. -/
theorem CoverageInv.nextStart_lt {s : AnchorSystem} (hs : CoverageInv s) {t : ℤ} (hpos : 0 < t)
    (hlater : ∀ a ∈ s.anchors, a.row.periodEnd < t) : s.nextStart < t := by
  by_cases hnil : s.anchors = []
  · rw [AnchorSystem.nextStart, hnil]
    exact hpos
  · obtain ⟨a, ha, hstop⟩ := hs.tiled.last (by simpa using hnil)
    obtain ⟨b, hb, rfl⟩ := List.mem_map.1 ha
    rw [← hstop]
    exact hlater b hb

/-- A writer of the trace table. -/
theorem CoverageInv.trace {D : Deployment} {s : AnchorSystem} {t : System} {e : Event}
    (hs : CoverageInv s) (hP : InTime D s (.trace e)) (h : step D s.system e = some t) :
    CoverageInv { s with system := t } := by
  have hc := change_of_step h
  have hvisible := hP t h
  have hcovered : periodIds t.traces 0 s.nextStart = periodIds s.system.traces 0 s.nextStart :=
    periodIds_of_change hc fun r hr hfresh =>
      hs.nextStart_lt (hvisible r hr hfresh).1 (hvisible r hr hfresh).2.1
  refine ⟨uniqueIds_of_change hc hs.ids, ?_, hs.tiled, ?_, ?_⟩
  · intro r hr
    rcases mem_of_change hc hr with ⟨hfresh, -⟩ | ⟨q, hq, hchange⟩
    · exact (hvisible r hr hfresh).1
    · rw [TraceRow.txnMicros, hchange.sameTerms.txnTime]
      exact hs.positive q hq
  · show s.leafIds.Perm (periodIds t.traces 0 s.nextStart)
    rw [hcovered]
    exact hs.leaves
  · intro c hmem
    have hsound := hs.cycles c hmem
    cases c with
    | started start seen => exact hsound
    | timed start stop seen => exact hsound
    | collected start stop rows seen =>
      refine ⟨hsound.1, fun hcount => ?_⟩
      rw [periodIds_of_change hc fun r hr hfresh =>
        (hvisible r hr hfresh).2.2 start stop rows seen hmem hcount]
      exact hsound.2 hcount
    | done => trivial

/-- The store of an anchor whose cycle was not overtaken. -/
theorem CoverageInv.insertAnchor {s : AnchorSystem} (hs : CoverageInv s) {k : ℕ} {start stop : ℤ}
    {rows : List TraceRow} {seen : ℕ} (hk : s.cycles[k]? = some (.collected start stop rows seen))
    (hcount : leafCount (hashesOf rows) ≠ 0) (hseen : seen = s.anchors.length) {row : AnchorRow}
    (hstart : row.periodStart = start) (hstop : row.periodEnd = stop) :
    CoverageInv
      { s with anchors := s.anchors ++ [⟨row, rows⟩], cycles := s.cycles.set k .done } := by
  obtain ⟨⟨-, hnext⟩, hrows⟩ := hs.cycles _ (List.mem_of_getElem? hk)
  obtain ⟨hlt, hperm⟩ := hrows hcount
  have hnext' : start = s.nextStart := hnext hseen
  have htiled : Tiled 0 ((s.anchors ++ [Anchored.mk row rows]).map Anchored.row) stop := by
    rw [List.map_append, List.map_singleton, ← hstop]
    refine hs.tiled.append (hstart.trans hnext') ?_
    rw [hstart, hstop]
    exact hlt
  have hend : nextStart ((s.anchors ++ [Anchored.mk row rows]).map Anchored.row) = stop :=
    htiled.nextStart
  refine ⟨hs.ids, hs.positive, ?_, ?_, ?_⟩
  · show Tiled 0 _ (nextStart _)
    rw [hend]
    exact htiled
  · show (List.flatMap _ (s.anchors ++ [⟨row, rows⟩])).Perm (periodIds _ 0 (nextStart _))
    rw [hend, List.flatMap_append, List.flatMap_singleton]
    have hsplit :=
      periodIds_split s.system.traces hs.tiled.le (hnext' ▸ hlt.le : s.nextStart ≤ stop)
    refine List.Perm.trans ?_ hsplit
    rw [← hnext'] at hsplit ⊢
    exact List.Perm.append (hnext' ▸ hs.leaves) hperm
  · intro c hc
    rcases List.mem_or_eq_of_mem_set hc with hc | rfl
    · exact (hs.cycles c hc).overtaken _
    · trivial

theorem CoverageInv.step {D : Deployment} {s t : AnchorSystem} {e : AnchorEvent}
    (hs : CoverageInv s) (hP : InTime D s e) (h : anchorStep D s e = some t) : CoverageInv t := by
  cases e with
  | trace e =>
    obtain ⟨u, hu, rfl⟩ := Option.map_eq_some_iff.1 h
    exact hs.trace hP hu
  | readLastEnd =>
    obtain rfl := Option.some.inj h
    refine ⟨hs.ids, hs.positive, hs.tiled, hs.leaves, ?_⟩
    intro c hc
    rcases List.mem_append.1 hc with hc | hc
    · exact hs.cycles c hc
    · rw [List.mem_singleton.1 hc]
      exact ⟨le_rfl, fun _ => rfl⟩
  | takeNow k now =>
    simp only [anchorStep] at h
    split at h
    · rename_i start seen hk
      obtain rfl := Option.some.inj h
      have hstarts : StartsNext s.anchors start seen := hs.cycles _ (List.mem_of_getElem? hk)
      exact hs.setCycle hstarts
    · exact absurd h (by simp)
  | readRows k order =>
    simp only [anchorStep] at h
    split at h
    · rename_i start stop seen hk
      split at h
      · rename_i horder
        obtain rfl := Option.some.inj h
        have hstarts : StartsNext s.anchors start seen := hs.cycles _ (List.mem_of_getElem? hk)
        refine hs.setCycle ⟨hstarts, fun hcount => ⟨lt_of_leafCount hcount, ?_⟩⟩
        exact (leafQuery_order (scanned_perm horder) start stop).perm.map _
      · exact absurd h (by simp)
    · exact absurd h (by simp)
  | insertAnchor k otsNow ots =>
    simp only [anchorStep] at h
    split at h
    · rename_i start stop rows seen hk
      split at h
      · obtain rfl := Option.some.inj h
        exact hs.setCycle trivial
      · rename_i hcount
        obtain rfl := Option.some.inj h
        exact hs.insertAnchor hk hcount (hP start stop rows seen hk hcount) rfl rfl
    · exact absurd h (by simp)

theorem coverageInv_init : CoverageInv .init := by
  refine ⟨by simp [UniqueIds, AnchorSystem.init, System.init], ?_, rfl, .nil, ?_⟩
  · intro r hr
    exact absurd hr (by simp [AnchorSystem.init, System.init])
  · intro c hc
    exact absurd hc (by simp [AnchorSystem.init])

/-- **No trace escapes.**  In a run in which rows become visible in time and no cycle is
overtaken, a trace whose time is not after the end of every period is a leaf of exactly
one anchor. -/
theorem anchored_once (D : Deployment) {es : List AnchorEvent} {s : AnchorSystem}
    (hrun : Run.run (anchorStep D) .init es = some s)
    (hP : Run.Along (anchorStep D) (InTime D) .init es) :
    ∀ r ∈ s.system.traces, ∀ a ∈ s.anchors, r.txnMicros ≤ a.row.periodEnd →
      s.leafIds.count r.traceId = 1 := by
  have hinv := Run.run_invariant_along (fun s e t hs hP h => CoverageInv.step hs hP h) hrun hP
    coverageInv_init
  intro r hr a ha hle
  have hend : a.row.periodEnd ≤ s.nextStart := (hinv.tiled.bounds (List.mem_map_of_mem ha)).2.2
  have hin : inPeriod 0 s.nextStart r = true :=
    decide_eq_true ⟨hinv.positive r hr, hle.trans hend⟩
  have hmem : r.traceId ∈ periodIds s.system.traces 0 s.nextStart :=
    List.mem_map_of_mem (List.mem_filter.2 ⟨hr, hin⟩)
  have hnodup : (periodIds s.system.traces 0 s.nextStart).Nodup :=
    hinv.ids.sublist (List.filter_sublist.map _)
  rw [hinv.leaves.count_eq, List.count_eq_one_of_mem hnodup hmem]

/-! ## A trace in time, and a late one

One order is stored and anchored; the clock of the cycle shows the time of the order. -/

/-- The order is stored, and a cycle is in the given phase. -/
def cycleState (c : CyclePhase) : AnchorSystem := ⟨⟨[haltedRow], [], []⟩, [], [c]⟩

/-- The anchor of the order. -/
def haltedAnchor : Anchored :=
  ⟨anchorRow 0 2000 (hashesOf [haltedRow]) 2000 (.error "offline"), [haltedRow]⟩

/-- The store after that cycle. -/
def anchoredState : AnchorSystem := ⟨⟨[haltedRow], [], []⟩, [haltedAnchor], [.done]⟩

theorem haltedRow_txnMicros : haltedRow.txnMicros = 2000 := by decide

theorem anchorStep_halted : anchorStep .sample .init (.trace (.authorize (.sample "sell")))
    = some ⟨⟨[haltedRow], [], []⟩, [], []⟩ :=
  congrArg (Option.map fun t => AnchorSystem.mk t [] []) step_sample_halted

theorem anchorStep_readLastEnd : anchorStep .sample ⟨⟨[haltedRow], [], []⟩, [], []⟩ .readLastEnd
    = some (cycleState (.started 0 0)) := rfl

theorem anchorStep_takeNow : anchorStep .sample (cycleState (.started 0 0)) (.takeNow 0 2000)
    = some (cycleState (.timed 0 2000 0)) := rfl

theorem anchorStep_readRows : anchorStep .sample (cycleState (.timed 0 2000 0)) (.readRows 0 [0])
    = some (cycleState (.collected 0 2000 [haltedRow] 0)) := by
  have hquery : leafQuery (scanned [haltedRow] [0]) 0 2000 = [haltedRow] := by
    have hin : inPeriod 0 2000 haltedRow = true := by decide
    simp [leafQuery, scanned, hin]
  show some (cycleState (.collected 0 2000 (leafQuery (scanned [haltedRow] [0]) 0 2000) 0)) = _
  rw [hquery]

theorem anchorStep_insert :
    anchorStep .sample (cycleState (.collected 0 2000 [haltedRow] 0))
      (.insertAnchor 0 2000 (.error "offline")) = some anchoredState := by
  have hcount : leafCount (hashesOf [haltedRow]) ≠ 0 := by decide
  show (if leafCount (hashesOf [haltedRow]) = 0 then some (cycleState .done)
    else some anchoredState) = _
  rw [if_neg hcount]

/-- The order, and a cycle that runs alone. -/
def anchoringRun : List AnchorEvent :=
  [.trace (.authorize (.sample "sell")), .readLastEnd, .takeNow 0 2000, .readRows 0 [0],
    .insertAnchor 0 2000 (.error "offline")]

theorem run_anchoring : Run.run (anchorStep .sample) .init anchoringRun = some anchoredState := by
  rw [anchoringRun, Run.run_cons anchorStep_halted, Run.run_cons anchorStep_readLastEnd,
    Run.run_cons anchorStep_takeNow, Run.run_cons anchorStep_readRows,
    Run.run_cons anchorStep_insert]
  rfl

theorem inTime_anchoring : Run.Along (anchorStep .sample) (InTime .sample) .init anchoringRun := by
  refine Run.along_cons ?_ anchorStep_halted (Run.along_cons trivial anchorStep_readLastEnd
    (Run.along_cons trivial anchorStep_takeNow (Run.along_cons trivial anchorStep_readRows
      (Run.along_cons ?_ anchorStep_insert trivial))))
  · intro t ht r hr _
    obtain rfl := Option.some.inj (step_sample_halted.symm.trans ht)
    rw [List.mem_singleton.1 hr, haltedRow_txnMicros]
    exact ⟨by decide, by simp [AnchorSystem.init], by simp [AnchorSystem.init]⟩
  · intro start stop rows seen hk _
    have hphase := Option.some.inj hk
    simp only [CyclePhase.collected.injEq] at hphase
    exact hphase.2.2.2.symm

/-- The order is a leaf of one anchor. -/
theorem anchored_once_sample : anchoredState.leafIds.count haltedRow.traceId = 1 :=
  anchored_once .sample run_anchoring inTime_anchoring haltedRow (List.mem_singleton_self _)
    haltedAnchor (List.mem_singleton_self _) (by rw [haltedRow_txnMicros]; decide)

/-- The row of a second order of the same time. -/
def escapedRow : TraceRow := sellRow .sample (.fill 3) F64.one

/-- The second order has its time from before the anchor, and commits after it. -/
theorem trace_escapes : ∃ es s, Run.run (anchorStep .sample) .init es = some s ∧
    escapedRow ∈ s.system.traces ∧ (∃ a ∈ s.anchors, escapedRow.txnMicros ≤ a.row.periodEnd) ∧
    s.leafIds.count escapedRow.traceId = 0 := by
  have hsell : step .sample ⟨[haltedRow], [], []⟩
      (.authorize (.order (.fill 3) "sell" F64.one F64.two))
      = some ⟨[haltedRow, escapedRow], [], []⟩ := step_sell ⟨[haltedRow], [], []⟩ (by decide)
  have hstep : anchorStep .sample anchoredState
      (.trace (.authorize (.order (.fill 3) "sell" F64.one F64.two)))
      = some ⟨⟨[haltedRow, escapedRow], [], []⟩, [haltedAnchor], [.done]⟩ :=
    congrArg (Option.map fun t => AnchorSystem.mk t [haltedAnchor] [.done]) hsell
  refine ⟨anchoringRun ++ [.trace (.authorize (.order (.fill 3) "sell" F64.one F64.two))], _,
    (Run.run_append_of_eq run_anchoring _).trans (Run.run_cons hstep []), ?_, ?_, ?_⟩
  · simp
  · exact ⟨haltedAnchor, List.mem_singleton_self _, by decide⟩
  · decide

end IrlEngine
