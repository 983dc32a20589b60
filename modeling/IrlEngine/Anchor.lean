import IrlEngine.Lifecycle
import IrlEngine.Merkle

/-!
# Anchoring the traces

`run_anchor_cycle` of `merkle.rs`: read the end of the last period, take the time,
collect the reasoning hashes of the new period in the order of their transaction
times, and store their root.

* `periods_tile` — whatever the clock shows and whatever fails, the periods of one
  worker follow each other without a gap or an overlap, from the epoch on;
* `recomputable_iff` — a period has one root exactly when no two of its rows have one
  transaction time and different leaves.
-/

namespace IrlEngine

open MerkleTree

/-! ## OpenTimestamps -/

/-- `OTS_ENDPOINTS`, in the order in which they are tried. -/
def otsEndpoints : List String :=
  ["https://a.pool.opentimestamps.org/digest", "https://b.pool.opentimestamps.org/digest",
    "https://finney.calendar.eternitywall.com/digest"]

/-- The first receipt, with the answer of each endpoint. -/
def tryEndpoints (answer : String → Except String (List UInt8)) (lastError : String) :
    List String → Except String (List UInt8)
  | [] => .error ("all " ++ toString otsEndpoints.length ++ " OTS endpoints failed; last error: "
      ++ lastError)
  | endpoint :: rest =>
    match answer endpoint with
    | .ok bytes => .ok bytes
    | .error e => tryEndpoints answer e rest

/-- `post_to_opentimestamps`, with the outcome of building the client. -/
def postToOpentimestamps (client : Except String Unit)
    (answer : String → Except String (List UInt8)) : Except String (List UInt8) :=
  match client with
  | .error e => .error ("failed to build HTTP client: " ++ e)
  | .ok () => tryEndpoints answer "" otsEndpoints

/-! ## Periods

Times are in microseconds since the epoch, as the database keeps them. -/

/-- A row of `irl.merkle_anchors`. -/
structure AnchorRow where
  periodStart : ℤ
  periodEnd : ℤ
  leafCount : Int32
  merkleRoot : String
  otsReceipt : Option (List UInt8)
  otsError : Option String
  otsUpgradedAt : Option ℤ

/-- The column `txn_time`, in microseconds. -/
def TraceRow.txnMicros (r : TraceRow) : ℤ := r.txnTime.millis.toInt * 1000

/-- Start of a new period: the last `period_end`, or the epoch. -/
def nextStart (anchors : List AnchorRow) : ℤ :=
  ((anchors.map AnchorRow.periodEnd).max?).getD 0

/-- `txn_time > $1 AND txn_time <= $2`. -/
def inPeriod (start stop : ℤ) (r : TraceRow) : Bool :=
  decide (start < r.txnMicros ∧ r.txnMicros ≤ stop)

/-- `ORDER BY txn_time ASC`. -/
def txnLe (a b : TraceRow) : Bool := decide (a.txnMicros ≤ b.txnMicros)

/-- The rows of a period `ORDER BY txn_time ASC`.  Rows of one time stay in the order
in which the database scans them, which is any order. -/
def leafQuery (scan : List TraceRow) (start stop : ℤ) : List TraceRow :=
  (scan.filter (inPeriod start stop)).mergeSort txnLe

/-- The `reasoning_hash` column of an answer. -/
def hashesOf (rows : List TraceRow) : List String := rows.map TraceRow.reasoningHash

/-- The root, which `compute_merkle_root` always returns. -/
def merkleRoot (hashes : List String) : Digest :=
  (computeMerkleRoot hashes).get (by
    obtain ⟨d, hd⟩ := root_isSome hashes
    rw [hd]
    rfl)

/-- The row of a period with these leaves. -/
def anchorRow (start stop : ℤ) (hashes : List String) (otsNow : ℤ)
    (ots : Except String (List UInt8)) : AnchorRow where
  periodStart := start
  periodEnd := stop
  leafCount := leafCount hashes
  merkleRoot := (merkleRoot hashes).toHex
  otsReceipt := match ots with
    | .ok bytes => some bytes
    | .error _ => none
  otsError := match ots with
    | .ok _ => none
    | .error e => some e
  otsUpgradedAt := match ots with
    | .ok _ => some otsNow
    | .error _ => none

/-! ## The cycle -/

/-- What becomes of the insert of an anchor. -/
inductive InsertOutcome where
  | stored
  | failed (e : String)
  /-- Stored, but the answer of the database is lost. -/
  | unconfirmed (e : String)

/-- What a cycle observes: the outcome of each of its statements, the clock readings
and the answers of the calendars. -/
structure CycleEnv where
  lastEnd : Except String Unit
  now : ℤ
  /-- The trace table as the leaf query scans it. -/
  scan : Except String (List TraceRow)
  otsNow : ℤ
  client : Except String Unit
  answer : String → Except String (List UInt8)
  insert : InsertOutcome

/-- One anchoring cycle. -/
def runAnchorCycle (anchors : List AnchorRow) (env : CycleEnv) :
    List AnchorRow × Except String Unit :=
  match env.lastEnd with
  | .error e => (anchors, .error ("DB error fetching last anchor: " ++ e))
  | .ok () =>
    match env.scan with
    | .error e => (anchors, .error ("DB error fetching hashes: " ++ e))
    | .ok scan =>
      let start := nextStart anchors
      let hashes := hashesOf (leafQuery scan start env.now)
      if leafCount hashes = 0 then (anchors, .ok ())
      else
        let row :=
          anchorRow start env.now hashes env.otsNow (postToOpentimestamps env.client env.answer)
        match env.insert with
        | .stored => (anchors ++ [row], .ok ())
        | .failed e => (anchors, .error ("DB error storing anchor: " ++ e))
        | .unconfirmed e => (anchors ++ [row], .error ("DB error storing anchor: " ++ e))

/-- The anchors after some cycles of one worker. -/
def anchorsAfter (envs : List CycleEnv) : List AnchorRow :=
  envs.foldl (fun anchors env => (runAnchorCycle anchors env).1) []

/-! ### What a query returns -/

theorem txnLe_trans (a b c : TraceRow) (hab : txnLe a b = true) (hbc : txnLe b c = true) :
    txnLe a c = true := by
  simp only [txnLe, decide_eq_true_eq] at *
  omega

theorem txnLe_total (a b : TraceRow) : (txnLe a b || txnLe b a) = true := by
  simp only [txnLe, Bool.or_eq_true, decide_eq_true_eq]
  omega

theorem mergeSort_sorted (rows : List TraceRow) :
    (rows.mergeSort txnLe).Pairwise fun a b => a.txnMicros ≤ b.txnMicros :=
  (List.pairwise_mergeSort txnLe_trans txnLe_total rows).imp of_decide_eq_true

theorem leafQuery_perm (scan : List TraceRow) (start stop : ℤ) :
    (leafQuery scan start stop).Perm (scan.filter (inPeriod start stop)) :=
  List.mergeSort_perm _ _

/-- An answer that the leaf query may give: the rows of the period, in the order of
their times. -/
structure LeafOrder (traces : List TraceRow) (start stop : ℤ) (rows : List TraceRow) : Prop where
  perm : rows.Perm (traces.filter (inPeriod start stop))
  sorted : rows.Pairwise fun a b => a.txnMicros ≤ b.txnMicros

/-- What the query returns, in whatever order it scans the table. -/
theorem leafQuery_order {traces scan : List TraceRow} (h : scan.Perm traces) (start stop : ℤ) :
    LeafOrder traces start stop (leafQuery scan start stop) :=
  ⟨(leafQuery_perm scan start stop).trans (h.filter _), mergeSort_sorted _⟩

/-- Every such answer is returned for some order of the scan. -/
theorem leafQuery_of_order {traces rows : List TraceRow} {start stop : ℤ}
    (h : LeafOrder traces start stop rows) :
    ∃ scan, scan.Perm traces ∧ leafQuery scan start stop = rows := by
  have hin : rows.filter (inPeriod start stop) = rows :=
    List.filter_eq_self.2 fun r hr => (List.mem_filter.1 (h.perm.mem_iff.1 hr)).2
  have hout : (traces.filter fun r => !inPeriod start stop r).filter
    (inPeriod start stop) = [] := by
    rw [List.filter_filter]
    simp
  refine ⟨rows ++ traces.filter (fun r => !inPeriod start stop r), ?_, ?_⟩
  · exact (h.perm.append_right _).trans (List.filter_append_perm _ _)
  · rw [leafQuery, List.filter_append, hin, hout, List.append_nil]
    exact List.mergeSort_of_pairwise (h.sorted.imp decide_eq_true)

/-- A period with a leaf is not empty. -/
theorem lt_of_leafCount {scan : List TraceRow} {start stop : ℤ}
    (h : leafCount (hashesOf (leafQuery scan start stop)) ≠ 0) : start < stop := by
  cases hrows : leafQuery scan start stop with
  | nil => rw [hrows] at h; exact absurd rfl h
  | cons r rows =>
    have hmem : r ∈ scan.filter (inPeriod start stop) :=
      (leafQuery_perm scan start stop).mem_iff.1 (by rw [hrows]; exact List.mem_cons_self)
    have hin := of_decide_eq_true (List.mem_filter.1 hmem).2
    omega

/-! ## Periods tile time -/

/-- The periods follow each other from `start` to `stop`. -/
def Tiled (start : ℤ) : List AnchorRow → ℤ → Prop
  | [], stop => start = stop
  | a :: anchors, stop =>
    a.periodStart = start ∧ a.periodStart < a.periodEnd ∧ Tiled a.periodEnd anchors stop

theorem Tiled.append {start stop : ℤ} {anchors : List AnchorRow} (h : Tiled start anchors stop)
    {a : AnchorRow} (hstart : a.periodStart = stop) (hlt : a.periodStart < a.periodEnd) :
    Tiled start (anchors ++ [a]) a.periodEnd := by
  induction anchors generalizing start with
  | nil => exact ⟨hstart.trans h.symm, hlt, rfl⟩
  | cons b anchors ih => exact ⟨h.1, h.2.1, ih h.2.2⟩

theorem Tiled.le {start stop : ℤ} {anchors : List AnchorRow} (h : Tiled start anchors stop) :
    start ≤ stop := by
  induction anchors generalizing start with
  | nil => exact le_of_eq h
  | cons b anchors ih =>
    obtain ⟨hstart, hlt, hrest⟩ := h
    have := ih hrest
    omega

/-- Every period lies between the two ends. -/
theorem Tiled.bounds {start stop : ℤ} {anchors : List AnchorRow} (h : Tiled start anchors stop)
    {a : AnchorRow} (ha : a ∈ anchors) :
    start ≤ a.periodStart ∧ a.periodStart < a.periodEnd ∧ a.periodEnd ≤ stop := by
  induction anchors generalizing start with
  | nil => exact absurd ha (by simp)
  | cons b anchors ih =>
    obtain ⟨hstart, hlt, hrest⟩ := h
    have hle := hrest.le
    rcases List.mem_cons.1 ha with rfl | ha
    · exact ⟨hstart.ge, hlt, hle⟩
    · have := ih hrest ha
      omega

/-- The last period ends where the tiling does. -/
theorem Tiled.last {start stop : ℤ} {anchors : List AnchorRow} (h : Tiled start anchors stop)
    (hne : anchors ≠ []) : ∃ a ∈ anchors, a.periodEnd = stop := by
  induction anchors generalizing start with
  | nil => exact absurd rfl hne
  | cons b anchors ih =>
    obtain ⟨-, -, hrest⟩ := h
    cases anchors with
    | nil => exact ⟨b, by simp, hrest⟩
    | cons c anchors =>
      obtain ⟨a, ha, hstop⟩ := ih hrest (by simp)
      exact ⟨a, List.mem_cons_of_mem b ha, hstop⟩

/-- The next period starts where the tiling ends. -/
theorem Tiled.nextStart {stop : ℤ} {anchors : List AnchorRow} (h : Tiled 0 anchors stop) :
    nextStart anchors = stop := by
  unfold IrlEngine.nextStart
  cases anchors with
  | nil => exact h
  | cons b anchors =>
    obtain ⟨a, ha, hstop⟩ := h.last (by simp)
    have hmax : ((b :: anchors).map AnchorRow.periodEnd).max? = some stop := by
      refine List.max?_eq_some_iff.2 ⟨hstop ▸ List.mem_map_of_mem ha, ?_⟩
      intro t ht
      obtain ⟨c, hc, rfl⟩ := List.mem_map.1 ht
      exact (h.bounds hc).2.2
    rw [hmax]
    rfl

/-- What one cycle does to the stored anchors. -/
theorem runAnchorCycle_cases (anchors : List AnchorRow) (env : CycleEnv) :
    (runAnchorCycle anchors env).1 = anchors ∨
    ∃ row, (runAnchorCycle anchors env).1 = anchors ++ [row] ∧
      row.periodStart = nextStart anchors ∧ row.periodStart < row.periodEnd := by
  unfold runAnchorCycle
  cases env.lastEnd with
  | error e => exact Or.inl rfl
  | ok u =>
    cases env.scan with
    | error e => exact Or.inl rfl
    | ok scan =>
      simp only
      split
      · exact Or.inl rfl
      · rename_i hcount
        have hlt := lt_of_leafCount hcount
        cases env.insert with
        | stored => exact Or.inr ⟨_, rfl, rfl, hlt⟩
        | failed e => exact Or.inl rfl
        | unconfirmed e => exact Or.inr ⟨_, rfl, rfl, hlt⟩

theorem tiled_after (envs : List CycleEnv) : ∃ stop, Tiled 0 (anchorsAfter envs) stop := by
  induction envs using List.reverseRecOn with
  | nil => exact ⟨0, rfl⟩
  | append_singleton envs env ih =>
    obtain ⟨stop, htiled⟩ := ih
    rw [anchorsAfter, List.foldl_append, ← anchorsAfter]
    show ∃ stop, Tiled 0 (runAnchorCycle (anchorsAfter envs) env).1 stop
    rcases runAnchorCycle_cases (anchorsAfter envs) env with hsame | ⟨row, happ, hstart, hlt⟩
    · rw [hsame]
      exact ⟨stop, htiled⟩
    · rw [happ]
      exact ⟨row.periodEnd, htiled.append (hstart.trans htiled.nextStart) hlt⟩

theorem Tiled.isChain {start stop : ℤ} {anchors : List AnchorRow} (h : Tiled start anchors stop) :
    anchors.IsChain fun a b => b.periodStart = a.periodEnd := by
  induction anchors generalizing start with
  | nil => exact .nil
  | cons a anchors ih =>
    obtain ⟨-, -, hrest⟩ := h
    cases anchors with
    | nil => exact .singleton a
    | cons b anchors => exact .cons_cons hrest.1 (ih hrest)

theorem Tiled.disjoint {start stop : ℤ} {anchors : List AnchorRow} (h : Tiled start anchors stop) :
    anchors.Pairwise fun a b => ∀ t, ¬ ((a.periodStart < t ∧ t ≤ a.periodEnd) ∧
      (b.periodStart < t ∧ t ≤ b.periodEnd)) := by
  induction anchors generalizing start with
  | nil => exact .nil
  | cons a anchors ih =>
    obtain ⟨-, -, hrest⟩ := h
    refine .cons ?_ (ih hrest)
    intro b hb t ht
    have := (hrest.bounds hb).1
    omega

/-- **Periods tile time.**  After any sequence of cycles of one worker the first period
starts at the epoch, each later one where the one before it ends, none is empty, and no
time lies in two of them. -/
theorem periods_tile (envs : List CycleEnv) :
    (∀ a, (anchorsAfter envs).head? = some a → a.periodStart = 0) ∧
    ((anchorsAfter envs).IsChain fun a b => b.periodStart = a.periodEnd) ∧
    (∀ a ∈ anchorsAfter envs, a.periodStart < a.periodEnd) ∧
    ((anchorsAfter envs).Pairwise fun a b => ∀ t, ¬ ((a.periodStart < t ∧ t ≤ a.periodEnd) ∧
      (b.periodStart < t ∧ t ≤ b.periodEnd))) := by
  obtain ⟨stop, htiled⟩ := tiled_after envs
  refine ⟨?_, htiled.isChain, fun a ha => (htiled.bounds ha).2.1, htiled.disjoint⟩
  intro a ha
  cases hanchors : anchorsAfter envs with
  | nil => rw [hanchors] at ha; exact absurd ha (by simp)
  | cons b anchors =>
    rw [hanchors] at ha htiled
    obtain rfl : b = a := Option.some.inj ha
    exact htiled.1

/-! ## Recomputing a root -/

/-- Rows of one time have one leaf. -/
def TiesAgree (traces : List TraceRow) (start stop : ℤ) : Prop :=
  ∀ r ∈ traces, ∀ q ∈ traces, inPeriod start stop r = true → inPeriod start stop q = true →
    r.txnMicros = q.txnMicros → leafNode r.reasoningHash = leafNode q.reasoningHash

/-- A root depends on the nodes of the leaves only. -/
theorem computeMerkleRoot_congr {xs ys : List String} (h : xs.map leafNode = ys.map leafNode) :
    computeMerkleRoot xs = computeMerkleRoot ys := by
  have hlen : xs.length = ys.length := by simpa using congrArg List.length h
  cases xs with
  | nil => rw [List.length_eq_zero_iff.1 hlen.symm]
  | cons x xs =>
    have hne : ys ≠ [] := by
      rintro rfl
      exact absurd hlen (by simp)
    rw [computeMerkleRoot_eq, computeMerkleRoot_eq, leafNodes_of_ne_nil (by simp),
      leafNodes_of_ne_nil hne, h]

/-- When ties agree, two answers have the same nodes in the same places. -/
theorem nodes_eq_of_ties {traces rows₁ rows₂ : List TraceRow} {start stop : ℤ}
    (h : TiesAgree traces start stop) (h₁ : LeafOrder traces start stop rows₁)
    (h₂ : LeafOrder traces start stop rows₂) :
    (hashesOf rows₁).map leafNode = (hashesOf rows₂).map leafNode := by
  -- sort by time the pairs of time and node, which the order determines
  let key : TraceRow → ℤ × Digest := fun r => (r.txnMicros, leafNode r.reasoningHash)
  have hsorted : ∀ {rows : List TraceRow}, LeafOrder traces start stop rows →
      (rows.map key).Pairwise fun a b => a.1 ≤ b.1 :=
    fun hrows => List.pairwise_map.2 hrows.sorted
  have hmem : ∀ {rows : List TraceRow}, LeafOrder traces start stop rows → ∀ a ∈ rows.map key,
      ∃ r ∈ traces, inPeriod start stop r = true ∧ key r = a := by
    intro rows hrows a ha
    obtain ⟨r, hr, rfl⟩ := List.mem_map.1 ha
    obtain ⟨hr, hin⟩ := List.mem_filter.1 (hrows.perm.mem_iff.1 hr)
    exact ⟨r, hr, hin, rfl⟩
  have hkeys : rows₁.map key = rows₂.map key := by
    refine List.Perm.eq_of_pairwise ?_ (hsorted h₁) (hsorted h₂)
      ((h₁.perm.trans h₂.perm.symm).map key)
    intro a b ha hb hab hba
    obtain ⟨r, hr, hrin, rfl⟩ := hmem h₁ a ha
    obtain ⟨q, hq, hqin, rfl⟩ := hmem h₂ b hb
    have htime : r.txnMicros = q.txnMicros := le_antisymm hab hba
    exact Prod.ext htime (h r hr q hq hrin hqin htime)
  have hnodes := congrArg (List.map Prod.snd) hkeys
  simpa [hashesOf, key, Function.comp_def] using hnodes

/-- Two rows of one time are in order, next to each other, after the earlier rows. -/
theorem sorted_between {rest : List TraceRow} {r q : TraceRow} (htime : r.txnMicros = q.txnMicros)
    (hrest : rest.Pairwise fun a b => a.txnMicros ≤ b.txnMicros) :
    (rest.filter (fun x => decide (x.txnMicros < r.txnMicros))
      ++ r :: q :: rest.filter (fun x => !decide (x.txnMicros < r.txnMicros))).Pairwise
        fun a b => a.txnMicros ≤ b.txnMicros := by
  have hafter : ∀ x ∈ rest.filter (fun x => !decide (x.txnMicros < r.txnMicros)),
      r.txnMicros ≤ x.txnMicros := by
    intro x hx
    simpa using (List.mem_filter.1 hx).2
  refine List.pairwise_append.2 ⟨hrest.sublist List.filter_sublist, ?_, ?_⟩
  · refine .cons ?_ (.cons ?_ (hrest.sublist List.filter_sublist))
    · intro x hx
      rcases List.mem_cons.1 hx with rfl | hx
      · exact htime.le
      · exact hafter x hx
    · intro x hx
      exact htime ▸ hafter x hx
  · intro x hx y hy
    have hlt : x.txnMicros < r.txnMicros := by simpa using (List.mem_filter.1 hx).2
    have hle : r.txnMicros ≤ y.txnMicros := by
      rcases List.mem_cons.1 hy with rfl | hy
      · exact le_rfl
      · rcases List.mem_cons.1 hy with rfl | hy
        · exact htime.le
        · exact hafter y hy
    omega

/-- Two rows of one time may be returned in either order, next to each other. -/
theorem exists_swapped {traces : List TraceRow} {start stop : ℤ} {r q : TraceRow} (hr : r ∈ traces)
    (hq : q ∈ traces) (hrin : inPeriod start stop r = true) (hqin : inPeriod start stop q = true)
    (htime : r.txnMicros = q.txnMicros) (hne : r ≠ q) : ∃ before after,
      LeafOrder traces start stop (before ++ r :: q :: after) ∧
      LeafOrder traces start stop (before ++ q :: r :: after) := by
  obtain ⟨s, t, hst⟩ := List.append_of_mem (List.mem_filter.2 ⟨hr, hrin⟩)
  have hqst : q ∈ s ++ t := by
    have hmem : q ∈ s ++ r :: t := hst ▸ List.mem_filter.2 ⟨hq, hqin⟩
    simpa [hne.symm] using hmem
  obtain ⟨u, v, huv⟩ := List.append_of_mem hqst
  -- the other rows of the period, sorted, and cut where the two rows belong
  have hrest := mergeSort_sorted (u ++ v)
  have hsplit := (List.filter_append_perm (fun x => decide (x.txnMicros < r.txnMicros)) _).trans
    (List.mergeSort_perm (u ++ v) txnLe)
  have hsorted₁ := sorted_between htime hrest
  have hsorted₂ := sorted_between htime.symm hrest
  rw [← htime] at hsorted₂
  generalize ((u ++ v).mergeSort txnLe).filter (fun x => decide (x.txnMicros < r.txnMicros))
    = before at hsplit hsorted₁ hsorted₂
  generalize ((u ++ v).mergeSort txnLe).filter (fun x => !decide (x.txnMicros < r.txnMicros))
    = after at hsplit hsorted₁ hsorted₂
  have hperm : (before ++ r :: q :: after).Perm (traces.filter (inPeriod start stop)) := by
    have hpull : (before ++ r :: q :: after).Perm (r :: q :: (before ++ after)) :=
      List.perm_middle.trans (List.perm_middle.cons r)
    have hpush : (r :: q :: (u ++ v)).Perm (s ++ r :: t) := by
      have hback : (r :: q :: (u ++ v)).Perm (r :: (u ++ q :: v)) := List.perm_middle.symm.cons r
      rw [← huv] at hback
      exact hback.trans List.perm_middle.symm
    rw [hst]
    exact hpull.trans (((hsplit.cons q).cons r).trans hpush)
  refine ⟨before, after, ⟨hperm, hsorted₁⟩, ⟨?_, hsorted₂⟩⟩
  exact ((List.Perm.swap r q after).append_left before).trans hperm

/-- **Recomputing a root.**  The orders that the leaf query may return for a period all
have one root exactly when no two rows of the period have one transaction time and
different leaves. -/
theorem recomputable_iff (traces : List TraceRow) (start stop : ℤ)
    (hcf : ∀ rows₁ rows₂, LeafOrder traces start stop rows₁ → LeafOrder traces start stop rows₂ →
      NoCollision (hashesOf rows₁) (hashesOf rows₂)) :
    (∀ rows₁ rows₂, LeafOrder traces start stop rows₁ → LeafOrder traces start stop rows₂ →
      computeMerkleRoot (hashesOf rows₁) = computeMerkleRoot (hashesOf rows₂)) ↔
    TiesAgree traces start stop := by
  constructor
  · intro h r hr q hq hrin hqin htime
    by_cases hne : r = q
    · rw [hne]
    obtain ⟨before, after, h₁, h₂⟩ := exists_swapped hr hq hrin hqin htime hne
    have hconf := (root_eq_iff_confusable (hcf _ _ h₁ h₂)).1 (h _ _ h₁ h₂)
    rw [leafNodes_of_ne_nil (by simp [hashesOf]), leafNodes_of_ne_nil (by simp [hashesOf])] at hconf
    have hnodes := hconf.eq_of_length (by simp [hashesOf])
    simp only [hashesOf, List.map_append, List.map_cons] at hnodes
    exact (List.cons.inj (List.append_cancel_left hnodes)).1
  · intro h rows₁ rows₂ h₁ h₂
    exact computeMerkleRoot_congr (nodes_eq_of_ties h h₁ h₂)

/-! ### Two traces of one time -/

/-- A row with the given leaf. -/
def leafRow (d : Digest) : TraceRow := { boughtRow with reasoningHash := d.toHex }

/-- Two rows of one instant. -/
def tiedRows : List TraceRow := [leafRow (.fill 1), leafRow (.fill 2)]

theorem leafOrder_tied : LeafOrder tiedRows 0 2000 tiedRows ∧
    LeafOrder tiedRows 0 2000 tiedRows.reverse := by
  have hfilter : tiedRows.filter (inPeriod 0 2000) = tiedRows := by
    rw [List.filter_eq_self]
    intro r hr
    rcases List.mem_pair.1 hr with rfl | rfl <;> decide
  refine ⟨⟨by rw [hfilter], ?_⟩, ⟨by rw [hfilter]; exact List.reverse_perm _, ?_⟩⟩
  · simp [tiedRows, leafRow, TraceRow.txnMicros]
  · simp [tiedRows, leafRow, TraceRow.txnMicros]

theorem root_pair (a b : Digest) :
    computeMerkleRoot [a.toHex, b.toHex] = some (hashNodes a b) := by
  have hnodes : leafNodes ([a, b].map Digest.toHex) = [a, b] := leafNodes_toHex (by simp)
  show computeMerkleRoot ([a, b].map Digest.toHex) = _
  rw [computeMerkleRoot_eq, hnodes]
  rfl

theorem nodeMessages_pair (a b : Digest) :
    nodeMessages [a.toHex, b.toHex] = [nodeMessage (a, b)] := by
  have hnodes : leafNodes ([a, b].map Digest.toHex) = [a, b] := leafNodes_toHex (by simp)
  show nodeMessages ([a, b].map Digest.toHex) = _
  rw [nodeMessages, hnodes]
  rfl

/-- The messages of two leaves, in any order. -/
def tiedMessages : List (List UInt8) :=
  [(Digest.fill 1, .fill 2), (.fill 2, .fill 1), (.fill 1, .fill 1), (.fill 2, .fill 2)].map
    nodeMessage

theorem tiedMessages_nodup : (tiedMessages.map Sha256.hash).Nodup := by decide +kernel

/-- The two orders of these rows have different roots. -/
theorem recompute_differs : LeafOrder tiedRows 0 2000 tiedRows ∧
    LeafOrder tiedRows 0 2000 tiedRows.reverse ∧
    computeMerkleRoot (hashesOf tiedRows) ≠ computeMerkleRoot (hashesOf tiedRows.reverse) := by
  refine ⟨leafOrder_tied.1, leafOrder_tied.2, ?_⟩
  show computeMerkleRoot [(Digest.fill 1).toHex, (Digest.fill 2).toHex]
    ≠ computeMerkleRoot [(Digest.fill 2).toHex, (Digest.fill 1).toHex]
  rw [root_pair, root_pair]
  intro h
  have hne := (List.nodup_cons.1 tiedMessages_nodup).1
  exact hne (List.mem_cons.2 (Or.inl (congrArg Digest.bytes (Option.some.inj h))))

/-- Whatever order these rows are returned in, their messages are among the four. -/
theorem nodeMessages_tied {rows : List TraceRow} (h : LeafOrder tiedRows 0 2000 rows)
    {m : List UInt8} (hm : m ∈ nodeMessages (hashesOf rows)) : m ∈ tiedMessages := by
  have hmem : ∀ r ∈ rows, r ∈ tiedRows := fun r hr =>
    (List.mem_filter.1 (h.perm.mem_iff.1 hr)).1
  have hlen : rows.length = 2 := (h.perm.trans leafOrder_tied.1.perm.symm).length_eq
  obtain ⟨a, b, rfl⟩ := List.length_eq_two.1 hlen
  rcases List.mem_pair.1 (hmem a (by simp)) with rfl | rfl <;>
    rcases List.mem_pair.1 (hmem b (by simp)) with rfl | rfl
  all_goals
    simp only [hashesOf, List.map_cons, List.map_nil, leafRow, nodeMessages_pair,
      List.mem_singleton] at hm
    simp [tiedMessages, hm]

/-- The criterion at these rows. -/
theorem recomputable_iff_sample :
    (∀ rows₁ rows₂, LeafOrder tiedRows 0 2000 rows₁ → LeafOrder tiedRows 0 2000 rows₂ →
      computeMerkleRoot (hashesOf rows₁) = computeMerkleRoot (hashesOf rows₂)) ↔
    TiesAgree tiedRows 0 2000 := by
  refine recomputable_iff tiedRows 0 2000 fun rows₁ rows₂ h₁ h₂ => ?_
  refine (Sha256.CollisionFree.of_nodup tiedMessages_nodup).mono ?_
  rintro m (hm | hm)
  · exact nodeMessages_tied h₁ hm
  · exact nodeMessages_tied h₂ hm

end IrlEngine
