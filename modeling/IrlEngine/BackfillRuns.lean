import IrlEngine.Backfill

/-!
# What a backfill has done when it returns

A worker reads only forward, so a row that is locked when its batch is read is passed over for
good; and it counts the rows of its batches, also those that another worker has encrypted
meanwhile.

* `Covers` — what a worker has yet to read of the rows it found, and `covers_of_step`;
* `Backfill.encrypted` — what a worker has counted, and `encrypted_of_step`;
* `Backfill.remaining` — the steps a worker has left, and `remaining_of_step`;
* **What a backfill has done when it returns** — `backfill_complete_and_counts`.
-/

namespace IrlEngine

/-! ## Rows that a worker has yet to read -/

/-- The last id of the batch from this row on. -/
def lastId (item : Uuid × Json) (rest : List (Uuid × Json)) : Uuid := (rest.getLastD item).1

theorem lastId_cons (item next : Uuid × Json) (rest : List (Uuid × Json)) :
    lastId item (next :: rest) = lastId next rest := by
  rw [lastId, lastId, List.getLastD_cons]

theorem getLast?_batch (item : Uuid × Json) (rest : List (Uuid × Json)) :
    (item :: rest).getLast? = some (rest.getLastD item) := by
  rw [List.getLast?_cons, List.getLastD_eq_getLast?]

/-- The worker is to come to a plaintext row with this id; once it has failed, nothing is asked
of it. -/
def Backfill.ahead (w : Backfill) (id : Uuid) : Prop :=
  match w.phase with
  | .fetch => afterCursor w.lastTraceId id = true
  | .batch _ item rest =>
    id ∈ (item :: rest).map Prod.fst ∨ afterCursor (some (lastId item rest)) id = true
  | .returned (.ok _) => False
  | .returned (.error _) => True

/-- No locked plaintext row lies between the cursor and the last row of the batch, or after the
cursor if the batch is empty. -/
def PassesNone (locked : Uuid → Bool) (lastTraceId : Option Uuid) (t : List TraceRow) : Prop :=
  ∀ r ∈ plaintextRows lastTraceId t, locked r.traceId = true →
    ∃ last ∈ (selectBatch locked lastTraceId t).getLast?, last.1.sortKey < r.traceId.sortKey

/-- The batches of worker `k` pass over no locked row. -/
def PassesNoneAt (k : ℕ) (s : BackfillState) : BackfillEvent → Prop
  | .fetch j locked none =>
    j = k → ∀ w, s.workers[k]? = some w → PassesNone locked w.lastTraceId s.sys.traces
  | _ => True

section Select

variable {locked : Uuid → Bool} {lastTraceId : Option Uuid} {t : List TraceRow} {r : TraceRow}

theorem mem_plaintextRows : r ∈ plaintextRows lastTraceId t ↔
    r ∈ t ∧ r.encryptionVersion = 0 ∧ afterCursor lastTraceId r.traceId = true := by
  rw [plaintextRows, List.mem_filter, decide_eq_true_eq]

/-- An empty batch that passes over no row has left none. -/
theorem not_mem_of_selectBatch_nil (hbatch : selectBatch locked lastTraceId t = [])
    (hpasses : PassesNone locked lastTraceId t) : r ∉ plaintextRows lastTraceId t := by
  intro hr
  cases hlocked : locked r.traceId with
  | true =>
    obtain ⟨last, hlast, -⟩ := hpasses r hr hlocked
    rw [hbatch] at hlast
    cases hlast
  | false =>
    have hmem : r ∈ (plaintextRows lastTraceId t).filter fun r => !locked r.traceId :=
      List.mem_filter.2 ⟨hr, by rw [hlocked]; rfl⟩
    have hempty := congrArg List.length hbatch
    rw [selectBatch, List.length_map, List.length_take, Paging.length_byKey] at hempty
    have hpos := List.length_pos_of_mem hmem
    simp only [batchSize, List.length_nil] at hempty
    omega

/-- A plaintext row is in the batch or after it. -/
theorem mem_or_afterCursor {item : Uuid × Json} {rest : List (Uuid × Json)}
    (hbatch : selectBatch locked lastTraceId t = item :: rest)
    (hpasses : PassesNone locked lastTraceId t) (hr : r ∈ plaintextRows lastTraceId t) :
    r.traceId ∈ (item :: rest).map Prod.fst ∨
      afterCursor (some (lastId item rest)) r.traceId = true := by
  have hlast := getLast?_batch item rest
  cases hlocked : locked r.traceId with
  | true =>
    obtain ⟨last, hmem, hlt⟩ := hpasses r hr hlocked
    rw [hbatch, hlast, Option.mem_def, Option.some.injEq] at hmem
    rw [← hmem] at hlt
    exact Or.inr (decide_eq_true hlt)
  | false =>
    have hfree : r ∈ (plaintextRows lastTraceId t).filter fun r => !locked r.traceId :=
      List.mem_filter.2 ⟨hr, by rw [hlocked]; rfl⟩
    have hordered := Paging.ordered_byKey (fun r : TraceRow => r.traceId.sortKey)
      ((plaintextRows lastTraceId t).filter fun r => !locked r.traceId)
    rw [selectBatch] at hbatch
    by_cases htake : r ∈ (Paging.byKey (fun r : TraceRow => r.traceId.sortKey)
        ((plaintextRows lastTraceId t).filter fun r => !locked r.traceId)).take batchSize
    · rw [← hbatch, List.map_map]
      exact Or.inl (List.mem_map_of_mem (f := Prod.fst ∘ fun r => (r.traceId, r.traceJson)) htake)
    · -- the last row of the batch has no greater id than the row that is left out
      have hmem := List.mem_of_getLast? hlast
      rw [← hbatch] at hmem
      obtain ⟨y, hy, heq⟩ := List.mem_map.1 hmem
      have hle := hordered.le_of_not_mem_take hfree htake hy
      have hid : y.traceId = lastId item rest := congrArg Prod.fst heq
      rcases hle.lt_or_eq with hlt | hsame
      · exact Or.inr (decide_eq_true (hid ▸ hlt))
      · left
        rw [← Uuid.sortKey_injective hsame, hid]
        exact List.mem_map_of_mem (List.mem_of_getLast? hlast)

end Select

/-- Rows with these ids are in the table; those that are plaintext lie ahead of worker `k`. -/
structure Covers (ids : List Uuid) (k : ℕ) (s : BackfillState) : Prop where
  unique : (s.sys.traces.map TraceRow.traceId).Nodup
  worker : ∃ w, s.workers[k]? = some w ∧ ∀ id ∈ ids,
    ∃ r, Table.rowOf TraceRow.traceId s.sys.traces id = some r ∧
      (r.encryptionVersion = 1 ∨ r.encryptionVersion = 0 ∧ w.ahead id)

/-- A worker comes to the rows ahead of it: after a step each is encrypted or still ahead. -/
theorem ahead_of_move {K : Crates} {t t' : List TraceRow} {w w' : Backfill} {e : BackfillEvent}
    (h : WorkerMove K t w e t' w')
    (hpasses : ∀ k locked, e = .fetch k locked none → PassesNone locked w.lastTraceId t)
    {r r' : TraceRow} (hr : Table.rowOf TraceRow.traceId t r.traceId = some r)
    (hr' : Table.rowOf TraceRow.traceId t' r.traceId = some r') (hversion : r.encryptionVersion = 0)
    (hahead : w.ahead r.traceId) : r'.encryptionVersion = 1 ∨ w'.ahead r.traceId := by
  have hmem := Table.mem_of_rowOf hr
  cases h with
  | fetchFailed => exact Or.inr trivial
  | encryptFailed => exact Or.inr trivial
  | unregistered => exact Or.inr trivial
  | finished k locked hphase hbatch =>
    rw [Backfill.ahead, hphase] at hahead
    have hrow := mem_plaintextRows.2 ⟨hmem, hversion, hahead⟩
    exact absurd hrow (not_mem_of_selectBatch_nil hbatch (hpasses k locked rfl))
  | fetched k locked item rest hphase hbatch =>
    rw [Backfill.ahead, hphase] at hahead
    have hrow := mem_plaintextRows.2 ⟨hmem, hversion, hahead⟩
    exact Or.inr (mem_or_afterCursor hbatch (hpasses k locked rfl) hrow)
  | encrypted k draw update upsert done item rest stored registered hphase hthrough =>
    by_cases hid : r.traceId = item.1
    · left
      have hrow := (aged_encryptOneRow item.1 stored t).rowOf hr
      rw [if_pos (decide_eq_true ⟨hid, hversion⟩)] at hrow
      rw [Option.some.inj (hr'.symm.trans hrow)]
      rfl
    · right
      rw [Backfill.ahead, hphase] at hahead
      have hrest : r.traceId ∈ rest.map Prod.fst ∨
          afterCursor (some (lastId item rest)) r.traceId = true := by
        refine hahead.imp (fun hin => ?_) id
        rw [List.map_cons] at hin
        exact (List.mem_cons.1 hin).resolve_left hid
      cases rest with
      | nil => exact hrest.resolve_left (fun hin => by cases hin)
      | cons next rest =>
        rw [lastId_cons] at hrest
        exact hrest

theorem covers_of_step {D : Deployment} {ids : List Uuid} {k : ℕ} {s s' : BackfillState}
    {e : BackfillEvent} (hs : Covers ids k s) (hpasses : PassesNoneAt k s e)
    (h : backfillStep D s e = some s') : Covers ids k s' := by
  obtain ⟨w, hw, hrows⟩ := hs.worker
  obtain ⟨g, new, haged⟩ := aged_of_step h
  refine ⟨haged.unique hs.unique, ?_⟩
  -- what the worker has ahead stays ahead if the worker stays as it is
  have hsame : s'.workers[k]? = some w → ∃ w, s'.workers[k]? = some w ∧ ∀ id ∈ ids,
      ∃ r, Table.rowOf TraceRow.traceId s'.sys.traces id = some r ∧
        (r.encryptionVersion = 1 ∨ r.encryptionVersion = 0 ∧ w.ahead id) := by
    intro hw'
    refine ⟨w, hw', fun id hid => ?_⟩
    obtain ⟨r, hr, hcases⟩ := hrows id hid
    refine ⟨g r, haged.rowOf hr, ?_⟩
    rcases haged.version r (Table.mem_of_rowOf hr) with hkeep | hone
    · rw [hkeep]
      exact hcases
    · exact Or.inl hone
  rcases backfillStep_cases h with ⟨_, _, -, -, hworkers⟩ | ⟨j, v, v', hstep⟩ |
    ⟨_, -, -, -, hworkers⟩
  · refine hsame ?_
    rw [hworkers, List.getElem?_append_left (List.getElem?_eq_some_iff.1 hw).1]
    exact hw
  · by_cases hj : j = k
    · subst hj
      obtain rfl := Option.some.inj (hw.symm.trans hstep.found)
      refine ⟨v', ?_, fun id hid => ?_⟩
      · rw [hstep.workers, List.getElem?_set_self (List.getElem?_eq_some_iff.1 hw).1]
      · obtain ⟨r, hr, hcases⟩ := hrows id hid
        obtain rfl := Table.key_of_rowOf hr
        refine ⟨g r, haged.rowOf hr, ?_⟩
        rcases hcases with hone | ⟨hzero, hahead⟩
        · have hversion := haged.version r (Table.mem_of_rowOf hr)
          exact Or.inl (hversion.elim (fun hkeep => hkeep.trans hone) id)
        · have hmove := ahead_of_move hstep.move ?_ hr (haged.rowOf hr) hzero hahead
          · rcases haged.version r (Table.mem_of_rowOf hr) with hkeep | hone
            · exact hmove.imp id fun hahead' => ⟨hkeep.trans hzero, hahead'⟩
            · exact Or.inl hone
          · rintro i locked rfl
            obtain rfl := Option.some.inj hstep.worker
            exact hpasses rfl w hw
    · refine hsame ?_
      rw [hstep.workers, List.getElem?_set_ne hj]
      exact hw
  · refine hsame ?_
    rw [hworkers]
    exact hw

/-! ## What the workers count -/

/-- The rows a worker has counted, or is to count with its batch. -/
def Backfill.encrypted (w : Backfill) : ℕ :=
  match w.phase with
  | .fetch => w.total
  | .batch done _ _ => w.total + done.length
  | .returned (.ok n) => n
  | .returned (.error _) => 0

/-- The number that a call has returned. -/
def Backfill.returnedCount (w : Backfill) : ℕ :=
  match w.phase with
  | .returned (.ok n) => n
  | _ => 0

/-- The worker has come to its end. -/
def Backfill.hasReturned (w : Backfill) : Bool :=
  match w.phase with
  | .returned _ => true
  | _ => false

/-- A worker fails only while it has encrypted nothing, its `UPDATE` hits a row that is still
plaintext and the key version is then registered, and no erasure encrypts a plaintext row. -/
def Counted (K : Crates) (s : BackfillState) : BackfillEvent → Prop
  | .fetch k _ (some _) => ∀ w, s.workers[k]? = some w → w.encrypted = 0
  | .encrypt k draw update upsert => ∀ w done item rest, s.workers[k]? = some w →
    w.phase = .batch done item rest →
      if goesThrough K draw update item then
        (∃ r ∈ s.sys.traces, r.traceId = item.1 ∧ r.encryptionVersion = 0) ∧
        (∀ grant, draw.generateDek = .ok grant → grant.keyVersion ∉ w.registeredKeyVersions →
          upsert = none)
      else w.encrypted = 0
  | .other ev => ∀ r ∈ s.sys.traces, ev.erases r = true → r.encryptionVersion ≠ 0
  | _ => True

theorem wentToOne_self {t : List TraceRow} (hunique : (t.map TraceRow.traceId).Nodup) :
    wentToOne t t = 0 :=
  (aged_refl t).wentToOne_eq_zero hunique fun _ _ h => h

theorem encrypted_advance (w : Backfill) (done : List (Uuid × Json)) (item : Uuid × Json)
    (rest : List (Uuid × Json)) :
    (w.advance done item rest).encrypted = w.total + done.length + 1 := by
  cases rest with
  | nil =>
    show w.total + (done ++ [item]).length = _
    rw [List.length_append, List.length_singleton, Nat.add_assoc]
  | cons next rest =>
    show w.total + (done ++ [item]).length = _
    rw [List.length_append, List.length_singleton, Nat.add_assoc]

/-- A worker counts what it takes from version 0 to version 1. -/
theorem encrypted_of_step {D : Deployment} {s s' : BackfillState} {e : BackfillEvent} {k : ℕ}
    {w w' : Backfill} (hunique : (s.sys.traces.map TraceRow.traceId).Nodup)
    (hcounted : Counted D.K s e) (h : WorkerStep D s e s' k w w') :
    w'.encrypted = w.encrypted + wentToOne s.sys.traces s'.sys.traces := by
  obtain ⟨hworker, hfound, hmove, -⟩ := h
  generalize s'.sys.traces = t' at hmove
  cases hmove with
  | fetchFailed j locked fault e hphase =>
    obtain rfl := Option.some.inj hworker
    rw [wentToOne_self hunique, hcounted w hfound]
    rfl
  | finished j locked hphase hbatch =>
    rw [wentToOne_self hunique, Backfill.encrypted, Backfill.encrypted, hphase]
    rfl
  | fetched j locked item rest hphase hbatch =>
    rw [wentToOne_self hunique, Backfill.encrypted, Backfill.encrypted, hphase]
    rfl
  | encryptFailed j draw update upsert done item rest e hphase hthrough =>
    obtain rfl := Option.some.inj hworker
    have hzero := hcounted w done item rest hfound hphase
    rw [hthrough, if_neg Bool.false_ne_true] at hzero
    rw [wentToOne_self hunique, hzero]
    rfl
  | unregistered j draw update upsert done item rest stored e grant hphase hthrough hgrant hnew =>
    obtain rfl := Option.some.inj hworker
    have hnone := hcounted w done item rest hfound hphase
    rw [hthrough, if_pos rfl] at hnone
    cases hnone.2 grant hgrant hnew
  | encrypted j draw update upsert done item rest stored registered hphase hthrough =>
    obtain rfl := Option.some.inj hworker
    have hplain := hcounted w done item rest hfound hphase
    rw [hthrough, if_pos rfl] at hplain
    obtain ⟨⟨r, hr, hid, hversion⟩, -⟩ := hplain
    rw [← hid, wentToOne_encryptOneRow hunique hr hversion, encrypted_advance,
      Backfill.encrypted, hphase]

/-- **The workers together count the rows that go from version 0 to version 1.** -/
theorem sum_encrypted_of_step {D : Deployment} {s s' : BackfillState} {e : BackfillEvent}
    (hunique : (s.sys.traces.map TraceRow.traceId).Nodup) (hcounted : Counted D.K s e)
    (h : backfillStep D s e = some s') :
    (s'.workers.map Backfill.encrypted).sum
      = (s.workers.map Backfill.encrypted).sum + wentToOne s.sys.traces s'.sys.traces := by
  rcases backfillStep_cases h with
    ⟨_, _, -, hsys, hworkers⟩ | ⟨k, w, w', hstep⟩ | ⟨ev, rfl, hev, hsys, hworkers⟩
  · rw [hsys, hworkers, wentToOne_self hunique, List.map_append, List.sum_append]
    rfl
  · have hworker := encrypted_of_step hunique hcounted hstep
    have hsum := Table.sum_map_set_add (f := Backfill.encrypted) hstep.found w'
    rw [hstep.workers]
    omega
  · obtain ⟨g, new, haged, hsame⟩ := aged_of_other hev hsys
    rw [hworkers, haged.wentToOne_eq_zero hunique, Nat.add_zero]
    intro r hr hzero
    rw [hsame r hr, hzero]
    cases herases : ev.erases r with
    | false => rfl
    | true => exact absurd hzero (hcounted r hr herases)

/-! ## Termination -/

/-- A bound on the steps that a worker has left, if no plaintext rows arrive. -/
def Backfill.remaining (w : Backfill) (t : List TraceRow) : ℕ :=
  match w.phase with
  | .fetch => 2 * (plaintextRows w.lastTraceId t).length + 1
  | .batch _ item rest => 2 * (plaintextRows (some (lastId item rest)) t).length + (rest.length + 2)
  | .returned _ => 0

/-- No row arrives in plaintext. -/
def ArrivesEncrypted (D : Deployment) (s : BackfillState) (e : BackfillEvent) : Prop :=
  ∀ s', backfillStep D s e = some s' → ∀ r ∈ s'.sys.traces, r.encryptionVersion = 0 →
    r.traceId ∈ s.sys.traces.map TraceRow.traceId

theorem remaining_mono {w : Backfill} {t t' : List TraceRow}
    (h : ∀ lastTraceId, (plaintextRows lastTraceId t').length
      ≤ (plaintextRows lastTraceId t).length) :
    w.remaining t' ≤ w.remaining t := by
  unfold Backfill.remaining
  split
  · have := h w.lastTraceId
    omega
  · rename_i item rest hphase
    have := h (some (lastId item rest))
    omega
  · exact Nat.le_refl 0

/-- The rows of a batch lie between the old and the new cursor. -/
theorem length_batch_add_le {locked : Uuid → Bool} {lastTraceId : Option Uuid} {t : List TraceRow}
    {item : Uuid × Json} {rest : List (Uuid × Json)}
    (hbatch : selectBatch locked lastTraceId t = item :: rest) :
    (rest.length + 1) + (plaintextRows (some (lastId item rest)) t).length
      ≤ (plaintextRows lastTraceId t).length := by
  have hordered := Paging.ordered_byKey (fun r : TraceRow => r.traceId.sortKey)
    ((plaintextRows lastTraceId t).filter fun r => !locked r.traceId)
  have hlength := congrArg List.length hbatch
  rw [selectBatch, List.length_map, List.length_cons] at hlength
  have hlast := getLast?_batch item rest
  rw [← hbatch, selectBatch, List.getLast?_map, Option.map_eq_some_iff] at hlast
  obtain ⟨y, hy, heq⟩ := hlast
  have hid : y.traceId = lastId item rest := congrArg Prod.fst heq
  have hle := hordered.length_take_add_countP_le List.filter_sublist.subperm hy
  -- the last row of the batch is itself after the old cursor
  have hyrow := (List.mem_filter.1 (hordered.perm.mem_iff.1
    (List.mem_of_mem_take (List.mem_of_getLast? hy)))).1
  have hafter : ∀ id, afterCursor (some (lastId item rest)) id = true →
      afterCursor lastTraceId id = true := by
    intro id hcursor
    have hycursor := (mem_plaintextRows.1 hyrow).2.2
    cases lastTraceId with
    | none => rfl
    | some last =>
      simp only [afterCursor, Option.all_some, decide_eq_true_eq] at hycursor hcursor ⊢
      rw [hid] at hycursor
      exact hycursor.trans hcursor
  refine le_trans ?_ hle
  rw [hlength, plaintextRows, plaintextRows, ← List.countP_eq_length_filter,
    List.countP_filter, hid]
  refine Nat.add_le_add_left (List.countP_mono_left fun r _ hp => ?_) _
  obtain ⟨hversion, hcursor⟩ := of_decide_eq_true hp
  have hlt : (lastId item rest).sortKey < r.traceId.sortKey := of_decide_eq_true hcursor
  simp only [Bool.and_eq_true, decide_eq_true_eq]
  exact ⟨hlt, hversion, hafter r.traceId hcursor⟩

theorem remaining_of_move {K : Crates} {t t' : List TraceRow} {w w' : Backfill} {e : BackfillEvent}
    (h : WorkerMove K t w e t' w') : 1 + w'.remaining t' ≤ w.remaining t := by
  cases h with
  | fetchFailed k locked fault e hphase =>
    rw [Backfill.remaining, Backfill.remaining, hphase]
    simp only
    omega
  | finished k locked hphase hbatch =>
    rw [Backfill.remaining, Backfill.remaining, hphase]
    simp only
    omega
  | fetched k locked item rest hphase hbatch =>
    have hle := length_batch_add_le hbatch
    rw [Backfill.remaining, Backfill.remaining, hphase]
    simp only
    omega
  | encryptFailed k draw update upsert done item rest e hphase hthrough =>
    rw [Backfill.remaining, Backfill.remaining, hphase]
    simp only
    omega
  | unregistered k draw update upsert done item rest stored e grant hphase hthrough hgrant hnew =>
    rw [Backfill.remaining, Backfill.remaining, hphase]
    simp only
    omega
  | encrypted k draw update upsert done item rest stored registered hphase hthrough =>
    have hle := (aged_encryptOneRow item.1 stored t).length_plaintextRows_le (by simp)
      (some (lastId item rest))
    rw [Backfill.remaining, Backfill.remaining, hphase]
    cases rest with
    | nil =>
      simp only [Backfill.advance, List.length_nil]
      rw [lastId, List.getLastD_nil] at hle ⊢
      omega
    | cons next rest =>
      simp only [Backfill.advance, List.length_cons]
      rw [lastId_cons] at hle ⊢
      omega

/-- Workers add no rows. -/
theorem arrivesEncrypted_of_worker {D : Deployment} {e : BackfillEvent} (he : ∀ ev, e ≠ .other ev)
    (s : BackfillState) : ArrivesEncrypted D s e := by
  intro s' h r hr _
  rcases backfillStep_cases h with ⟨_, _, -, hsys, -⟩ | ⟨k, w, w', hstep⟩ | ⟨ev, hother, -⟩
  · exact List.mem_map_of_mem (hsys ▸ hr)
  · obtain ⟨g, haged⟩ := aged_of_move hstep.move
    rw [haged.table, List.append_nil] at hr
    obtain ⟨r₀, hr₀, rfl⟩ := List.mem_map.1 hr
    rw [haged.traceId r₀ hr₀]
    exact List.mem_map_of_mem hr₀
  · exact absurd hother (he ev)

/-- The steps that worker `k` has left. -/
def BackfillState.remaining (s : BackfillState) (k : ℕ) : ℕ :=
  match s.workers[k]? with
  | some w => w.remaining s.sys.traces
  | none => 0

/-- **A step of the worker takes one of the steps it has left**, and no other step adds one. -/
theorem remaining_of_step {D : Deployment} {s s' : BackfillState} {e : BackfillEvent} {k : ℕ}
    (hk : k < s.workers.length) (harrives : ArrivesEncrypted D s e)
    (h : backfillStep D s e = some s') :
    (if e.worker = some k then 1 else 0) + s'.remaining k ≤ s.remaining k ∧
    k < s'.workers.length := by
  obtain ⟨w, hw⟩ : ∃ w, s.workers[k]? = some w := ⟨_, List.getElem?_eq_getElem hk⟩
  have hrows : ∀ lastTraceId, (plaintextRows lastTraceId s'.sys.traces).length
      ≤ (plaintextRows lastTraceId s.sys.traces).length := by
    obtain ⟨g, new, haged⟩ := aged_of_step h
    refine haged.length_plaintextRows_le fun r hr hzero => ?_
    rcases haged.new with rfl | ⟨r', rfl, hfresh⟩
    · cases hr
    · obtain rfl := List.mem_singleton.1 hr
      exact hfresh (harrives s' h r (by rw [haged.table]; simp) hzero)
  have hsame : s'.workers[k]? = some w → s'.remaining k ≤ s.remaining k := by
    intro hw'
    rw [BackfillState.remaining, BackfillState.remaining, hw, hw']
    exact remaining_mono hrows
  rcases backfillStep_cases h with
    ⟨_, _, rfl, -, hworkers⟩ | ⟨j, v, v', hstep⟩ | ⟨ev, rfl, -, -, hworkers⟩
  · rw [if_neg (by simp [BackfillEvent.worker]), Nat.zero_add]
    refine ⟨hsame ?_, by rw [hworkers, List.length_append]; omega⟩
    rw [hworkers, List.getElem?_append_left hk]
    exact hw
  · refine ⟨?_, by rw [hstep.workers, List.length_set]; exact hk⟩
    by_cases hj : j = k
    · subst hj
      have hw' : s'.workers[j]? = some v' := by rw [hstep.workers, List.getElem?_set_self hk]
      rw [if_pos hstep.worker, BackfillState.remaining, BackfillState.remaining, hstep.found, hw']
      exact remaining_of_move hstep.move
    · rw [if_neg (fun hworker => hj (Option.some.inj (hstep.worker.symm.trans hworker))),
        Nat.zero_add]
      refine hsame ?_
      rw [hstep.workers, List.getElem?_set_ne hj]
      exact hw
  · rw [if_neg (by simp [BackfillEvent.worker]), Nat.zero_add]
    exact ⟨hsame (by rw [hworkers]; exact hw), by rw [hworkers]; exact hk⟩

/-! ## Whole runs -/

/-- A worker that starts has every plaintext row ahead of it. -/
theorem covers_start {s s' : BackfillState} {providerName keyArnOrPath : String}
    (hunique : (s.sys.traces.map TraceRow.traceId).Nodup) (hsys : s'.sys = s.sys)
    (hworkers : s'.workers = s.workers ++ [.start providerName keyArnOrPath]) :
    Covers ((plaintextRows none s.sys.traces).map TraceRow.traceId) s.workers.length s' := by
  refine ⟨hsys ▸ hunique, .start providerName keyArnOrPath, ?_, fun id hid => ?_⟩
  · rw [hworkers, List.getElem?_concat_length]
  · obtain ⟨r, hr, rfl⟩ := List.mem_map.1 hid
    obtain ⟨hmem, hversion, -⟩ := mem_plaintextRows.1 hr
    exact ⟨r, hsys ▸ Table.rowOf_of_mem hunique hmem, Or.inr ⟨hversion, rfl⟩⟩

/-- **Completeness**: a worker whose batches pass over no locked row has encrypted, when it
returns, every row that was plaintext when it started. -/
theorem complete_of_run {D : Deployment} {s s' : BackfillState} {es : List BackfillEvent}
    {providerName keyArnOrPath : String} {w : Backfill} {n : ℕ}
    (hunique : (s.sys.traces.map TraceRow.traceId).Nodup)
    (hrun : Run.run (backfillStep D) s (.start providerName keyArnOrPath :: es) = some s')
    (hpasses : Run.Along (backfillStep D) (PassesNoneAt s.workers.length) s
      (.start providerName keyArnOrPath :: es))
    (hw : s'.workers[s.workers.length]? = some w) (hphase : w.phase = .returned (.ok n))
    {r : TraceRow} (hr : r ∈ s.sys.traces) (hversion : r.encryptionVersion = 0) :
    ∃ r' ∈ s'.sys.traces, r'.traceId = r.traceId ∧ r'.encryptionVersion = 1 := by
  obtain ⟨s₁, hstart, hrest⟩ := Run.run_cons_eq_some.1 hrun
  have hs₁ := Option.some.inj hstart
  have hcovers := Run.run_invariant_along (fun _ _ _ => covers_of_step) hrest (hpasses.2 s₁ hstart)
    (covers_start hunique (by rw [← hs₁]) (by rw [← hs₁]))
  obtain ⟨w', hw', hrows⟩ := hcovers.worker
  obtain rfl := Option.some.inj (hw.symm.trans hw')
  obtain ⟨r', hr', hcases⟩ := hrows r.traceId
    (List.mem_map_of_mem (mem_plaintextRows.2 ⟨hr, hversion, rfl⟩))
  refine ⟨r', Table.mem_of_rowOf hr', Table.key_of_rowOf hr', hcases.resolve_right fun hahead => ?_⟩
  have hnone := hahead.2
  rw [Backfill.ahead, hphase] at hnone
  exact hnone

theorem returnedCount_of_hasReturned {w : Backfill} (h : w.hasReturned = true) :
    w.returnedCount = w.encrypted := by
  unfold Backfill.hasReturned at h
  unfold Backfill.returnedCount Backfill.encrypted
  cases hphase : w.phase with
  | returned result => cases result <;> rfl
  | fetch =>
    rw [hphase] at h
    cases h
  | batch done item rest =>
    rw [hphase] at h
    cases h

/-- **The count**: once all workers have returned, their numbers add up to the rows that went from
version 0 to version 1. -/
theorem counts_of_run {D : Deployment} {es : List BackfillEvent} {s : BackfillState}
    (hrun : Run.run (backfillStep D) .init es = some s)
    (hcounted : Run.Along (backfillStep D) (Counted D.K) .init es)
    (hreturned : ∀ w ∈ s.workers, w.hasReturned = true) :
    (s.workers.map Backfill.returnedCount).sum
      = Run.total (backfillStep D) (fun s s' => wentToOne s.sys.traces s'.sys.traces) .init es := by
  have htotal := Run.run_total_along (I := fun s : BackfillState => Reachable D s.sys)
    (m := fun s => (s.workers.map Backfill.encrypted).sum)
    (fun s e t hs _ hstep => hs.next (sys_of_backfillStep hstep))
    (fun s e t hs hP hstep => sum_encrypted_of_step (uniqueIds_of_reachable hs) hP hstep)
    hrun hcounted ⟨[], rfl⟩
  have hcount : s.workers.map Backfill.returnedCount = s.workers.map Backfill.encrypted :=
    List.map_congr_left fun w hw => returnedCount_of_hasReturned (hreturned w hw)
  rw [hcount, htotal]
  exact Nat.zero_add _

/-- **Termination**: while no row arrives in plaintext, a worker takes at most two steps for each
row that was plaintext when it started, and one more. -/
theorem steps_le_of_run {D : Deployment} {s s' : BackfillState} {es : List BackfillEvent}
    {providerName keyArnOrPath : String}
    (hrun : Run.run (backfillStep D) s (.start providerName keyArnOrPath :: es) = some s')
    (harrives : Run.Along (backfillStep D) (ArrivesEncrypted D) s
      (.start providerName keyArnOrPath :: es)) :
    es.countP (fun e => e.worker = some s.workers.length)
      ≤ 2 * (s.sys.traces.countP fun r => r.encryptionVersion = 0) + 1 := by
  obtain ⟨s₁, hstart, hrest⟩ := Run.run_cons_eq_some.1 hrun
  have hs₁ := Option.some.inj hstart
  have hcount := Run.run_countP_along (p := fun e => decide (e.worker = some s.workers.length))
    (I := fun t => s.workers.length < t.workers.length) (m := fun t => t.remaining s.workers.length)
    (fun t e u ht hP hstep => (remaining_of_step ht hP hstep).2)
    (fun t e u ht hP hstep => by simpa using (remaining_of_step ht hP hstep).1)
    hrest (harrives.2 s₁ hstart) (by rw [← hs₁]; simp)
  have hfirst : s₁.remaining s.workers.length
      = 2 * (s.sys.traces.countP fun r => r.encryptionVersion = 0) + 1 := by
    rw [← hs₁, BackfillState.remaining, List.getElem?_concat_length, List.countP_eq_length_filter]
    show 2 * (plaintextRows none s.sys.traces).length + 1 = _
    simp [plaintextRows, afterCursor]
  omega

/-- **Progress**: whatever is locked, a worker that has not returned can take a step. -/
theorem enabled_of_not_returned {s : BackfillState} {k : ℕ} {w : Backfill} (D : Deployment)
    (hw : s.workers[k]? = some w) (hreturned : w.hasReturned = false) (locked : Uuid → Bool)
    (draw : EncryptionDraw) :
    (backfillStep D s (.fetch k locked none)).isSome = true ∨
      (backfillStep D s (.encrypt k draw none none)).isSome = true := by
  cases hphase : w.phase with
  | fetch =>
    left
    simp only [backfillStep, hw, hphase]
    rfl
  | batch done item rest =>
    right
    simp only [backfillStep, hw, hphase]
    rfl
  | returned result =>
    rw [Backfill.hasReturned, hphase] at hreturned
    cases hreturned

/-- **What a backfill has done when it returns.**  A worker whose batches pass over no locked row
has then encrypted every row that was plaintext when it started.  Once all workers have returned,
in a run whose steps are all counted, the numbers they returned add up to the rows that went from
version 0 to version 1.  And while no row arrives in plaintext a worker takes a bounded number of
steps, and can take one until it returns. -/
theorem backfill_complete_and_counts (D : Deployment) :
    (∀ es₀ s₀ providerName keyArnOrPath es s w n,
      Run.run (backfillStep D) .init es₀ = some s₀ →
      Run.run (backfillStep D) s₀ (.start providerName keyArnOrPath :: es) = some s →
      Run.Along (backfillStep D) (PassesNoneAt s₀.workers.length) s₀
        (.start providerName keyArnOrPath :: es) →
      s.workers[s₀.workers.length]? = some w → w.phase = .returned (.ok n) →
      ∀ r ∈ s₀.sys.traces, r.encryptionVersion = 0 →
        ∃ r' ∈ s.sys.traces, r'.traceId = r.traceId ∧ r'.encryptionVersion = 1) ∧
    (∀ es s, Run.run (backfillStep D) .init es = some s →
      Run.Along (backfillStep D) (Counted D.K) .init es →
      (∀ w ∈ s.workers, w.hasReturned = true) →
      (s.workers.map Backfill.returnedCount).sum
        = Run.total (backfillStep D) (fun s s' => wentToOne s.sys.traces s'.sys.traces) .init es) ∧
    (∀ s₀ providerName keyArnOrPath es s,
      Run.run (backfillStep D) s₀ (.start providerName keyArnOrPath :: es) = some s →
      Run.Along (backfillStep D) (ArrivesEncrypted D) s₀ (.start providerName keyArnOrPath :: es) →
      es.countP (fun e => e.worker = some s₀.workers.length)
        ≤ 2 * (s₀.sys.traces.countP fun r => r.encryptionVersion = 0) + 1) ∧
    (∀ s k w, s.workers[k]? = some w → w.hasReturned = false → ∀ locked draw,
      (backfillStep D s (.fetch k locked none)).isSome = true ∨
        (backfillStep D s (.encrypt k draw none none)).isSome = true) := by
  refine ⟨?_, ?_, ?_, ?_⟩
  · intro es₀ s₀ providerName keyArnOrPath es s w n hrun₀ hrun hpasses hw hphase r hr hversion
    have hunique := uniqueIds_of_reachable (reachable_of_backfill hrun₀)
    exact complete_of_run hunique hrun hpasses hw hphase hr hversion
  · intro es s hrun hcounted hreturned
    exact counts_of_run hrun hcounted hreturned
  · intro s₀ providerName keyArnOrPath es s hrun harrives
    exact steps_le_of_run hrun harrives
  · intro s k w hw hreturned locked draw
    exact enabled_of_not_returned D hw hreturned locked draw

/-! ## One row and its workers -/

section Samples

theorem backfillStep_fetch (D : Deployment) {s : BackfillState} {k : ℕ} {w : Backfill}
    (hw : s.workers[k]? = some w) (hphase : w.phase = .fetch) (locked : Uuid → Bool)
    (fault : Option (FetchFault × String)) :
    backfillStep D s (.fetch k locked fault)
      = some (s.setWorker k (w.fetch locked fault s.sys.traces)) := by
  simp only [backfillStep, hw, hphase]

theorem backfillStep_encrypt (D : Deployment) {s : BackfillState} {k : ℕ} {w : Backfill}
    {done rest : List (Uuid × Json)} {item : Uuid × Json} (hw : s.workers[k]? = some w)
    (hphase : w.phase = .batch done item rest) (draw : EncryptionDraw)
    (update upsert : Option String) :
    backfillStep D s (.encrypt k draw update upsert)
      = some (s.encryptRow D.K k w done item rest draw update upsert) := by
  simp only [backfillStep, hw, hphase]

theorem selectBatch_plaintext {locked : Uuid → Bool} {r : TraceRow}
    (hversion : r.encryptionVersion = 0)
    (hfree : locked r.traceId = false) :
    selectBatch locked none [r] = [(r.traceId, r.traceJson)] := by
  simp [selectBatch, plaintextRows, afterCursor, hversion, hfree, Paging.byKey, batchSize]

theorem selectBatch_locked {locked : Uuid → Bool} {r : TraceRow} (hlocked : locked r.traceId = true)
    (lastTraceId : Option Uuid) : selectBatch locked lastTraceId [r] = [] := by
  by_cases hversion : r.encryptionVersion = 0 ∧ afterCursor lastTraceId r.traceId = true
  · simp [selectBatch, plaintextRows, hversion, hlocked, Paging.byKey]
  · simp [selectBatch, plaintextRows, hversion, Paging.byKey]

theorem selectBatch_encrypted {r : TraceRow} (hversion : r.encryptionVersion = 1)
    (locked : Uuid → Bool) (lastTraceId : Option Uuid) :
    selectBatch locked lastTraceId [r] = [] := by
  simp [selectBatch, plaintextRows, hversion, Paging.byKey]

theorem runEncryptOneRow_plaintext {K : Crates} {draw : EncryptionDraw} {r : TraceRow}
    {stored : StoredJson} (hversion : r.encryptionVersion = 0)
    (hprepare : prepareRow K draw r.traceJson = .ok stored) :
    runEncryptOneRow K draw none (r.traceId, r.traceJson) [r]
      = ([r.recode stored], .ok stored.keyVersion) := by
  simp [runEncryptOneRow, hprepare, encryptOneRow, Table.updateWhere, rowsAffected, hversion]

theorem runEncryptOneRow_encrypted {K : Crates} {draw : EncryptionDraw} {r : TraceRow} {json : Json}
    {stored : StoredJson} (hversion : r.encryptionVersion = 1)
    (hprepare : prepareRow K draw json = .ok stored) :
    runEncryptOneRow K draw none (r.traceId, json) [r] = ([r], .ok none) := by
  simp [runEncryptOneRow, hprepare, encryptOneRow, Table.updateWhere, rowsAffected, hversion]

theorem encryptRow_ok {K : Crates} {s : BackfillState} {w w' : Backfill} {item : Uuid × Json}
    {draw : EncryptionDraw} {update upsert : Option String} {traces : List TraceRow}
    {keyVersion : Option Int32} {metadata : List KmsKeyRow} (k : ℕ) (done rest : List (Uuid × Json))
    (hrun : runEncryptOneRow K draw update item s.sys.traces = (traces, .ok keyVersion))
    (hregister : w.register keyVersion upsert s.kmsKeyMetadata = .ok (w', metadata)) :
    s.encryptRow K k w done item rest draw update upsert
      = { s with sys := { s.sys with traces := traces }, kmsKeyMetadata := metadata }.setWorker k
        (w'.advance done item rest) := by
  rw [BackfillState.encryptRow, hrun]
  simp only [hregister]

theorem fetch_encrypted {r : TraceRow} (hversion : r.encryptionVersion = 1) (w : Backfill)
    (locked : Uuid → Bool) :
    w.fetch locked none [r] = { w with phase := .returned (.ok w.total) } := by
  rw [Backfill.fetch, selectBatch_encrypted hversion]

/-- A deployment whose provider grants keys. -/
noncomputable def sealingDeployment : Deployment := ⟨.sealing, .sample, []⟩

/-- A row that is stored in plaintext. -/
noncomputable def plainRow : TraceRow := buyRow .sealing (.fill 2) F64.one

/-- The store after the row has been written, with these workers. -/
noncomputable def storeWith (r : TraceRow) (workers : List Backfill) (metadata : List KmsKeyRow) :
    BackfillState := ⟨⟨[r], [], []⟩, workers, metadata⟩

/-- The insert of that row. -/
noncomputable def sampleInsert : BackfillEvent :=
  .other (.insertTrace (sampleArgs .sealing (.fill 2)
    (.sample (.fill 1) (.custom "buy") F64.one) sampleDecision))

theorem backfillStep_insert :
    backfillStep sealingDeployment .init sampleInsert = some (storeWith plainRow [] []) := by
  have hstep := step_insertTrace .sealing (.fill 2)
  rw [sampleInsert, backfillStep, if_neg (by simp [Event.isBackfill])]
  exact congrArg (Option.map fun sys => (⟨sys, [], []⟩ : BackfillState)) hstep

theorem exists_prepareRow : ∃ stored, prepareRow .sealing .sample plainRow.traceJson = .ok stored ∧
    stored.keyVersion = some 1 := ⟨_, rfl, rfl⟩

/-- A worker that has read the row, and one that is done with it. -/
noncomputable def Backfill.holding : Backfill :=
  { Backfill.start "local" "local" with
    phase := .batch [] (plainRow.traceId, plainRow.traceJson) [] }

/-- The worker when it has encrypted the row. -/
noncomputable def Backfill.counted (registered : List Int32) (phase : BackfillPhase) : Backfill :=
  ⟨"local", "local", 1, some plainRow.traceId, registered, phase⟩

theorem fetch_start : (Backfill.start "local" "local").fetch (fun _ => false) none [plainRow]
    = .holding := by
  rw [Backfill.fetch, Backfill.start, selectBatch_plaintext rfl rfl]
  rfl

/-- The one row, read, encrypted and left by the worker at place `k`. -/
theorem step_read {workers : List Backfill} {k : ℕ}
    (hk : workers[k]? = some (.start "local" "local")) (metadata : List KmsKeyRow) :
    backfillStep sealingDeployment (storeWith plainRow workers metadata)
      (.fetch k (fun _ => false) none)
      = some (storeWith plainRow (workers.set k .holding) metadata) := by
  rw [backfillStep_fetch _ hk rfl]
  exact congrArg (fun w => some (storeWith plainRow (workers.set k w) metadata)) fetch_start

theorem step_encrypt {stored : StoredJson}
    (hprepare : prepareRow .sealing .sample plainRow.traceJson = .ok stored)
    (hversion : stored.keyVersion = some 1) {workers : List Backfill} {k : ℕ}
    (hk : workers[k]? = some .holding) :
    backfillStep sealingDeployment (storeWith plainRow workers []) (.encrypt k .sample none none)
      = some (storeWith (plainRow.recode stored) (workers.set k (.counted [1] .fetch))
        [⟨1, "local", "local", "active"⟩]) := by
  have hrow := runEncryptOneRow_plaintext (K := .sealing) (r := plainRow) rfl hprepare
  rw [hversion] at hrow
  have hregister : Backfill.holding.register (some 1) none [] = .ok ({ Backfill.holding with
      registeredKeyVersions := [1] }, [⟨1, "local", "local", "active"⟩]) := rfl
  rw [backfillStep_encrypt _ hk rfl]
  have hnext := encryptRow_ok (s := storeWith plainRow workers []) k [] [] hrow hregister
  exact (congrArg some hnext).trans rfl

/-- The `UPDATE` of a second worker hits no row. -/
theorem step_encryptAgain {stored : StoredJson}
    (hprepare : prepareRow .sealing .sample plainRow.traceJson = .ok stored)
    {workers : List Backfill}
    {k : ℕ} (hk : workers[k]? = some .holding) (metadata : List KmsKeyRow) :
    backfillStep sealingDeployment (storeWith (plainRow.recode stored) workers metadata)
        (.encrypt k .sample none none)
      = some (storeWith (plainRow.recode stored) (workers.set k (.counted [] .fetch))
        metadata) := by
  have hrow := runEncryptOneRow_encrypted (K := .sealing) (r := plainRow.recode stored) rfl hprepare
  have hregister : Backfill.holding.register none none metadata = .ok (.holding, metadata) := rfl
  rw [backfillStep_encrypt _ hk rfl]
  have hnext :=
    encryptRow_ok (s := storeWith (plainRow.recode stored) workers metadata) k [] [] hrow
    hregister
  exact (congrArg some hnext).trans rfl

theorem step_return (stored : StoredJson) {workers : List Backfill} {k : ℕ}
    {registered : List Int32}
    (hk : workers[k]? = some (.counted registered .fetch)) (metadata : List KmsKeyRow) :
    backfillStep sealingDeployment (storeWith (plainRow.recode stored) workers metadata)
        (.fetch k (fun _ => false) none)
      = some (storeWith (plainRow.recode stored)
        (workers.set k (.counted registered (.returned (.ok 1)))) metadata) := by
  rw [backfillStep_fetch _ hk rfl]
  exact congrArg (fun w => some (storeWith (plainRow.recode stored) (workers.set k w) metadata))
    (fetch_encrypted rfl _ _)

/-- One worker, alone with the row. -/
def aloneEvents : List BackfillEvent :=
  [.fetch 0 (fun _ => false) none, .encrypt 0 .sample none none, .fetch 0 (fun _ => false) none]

theorem run_alone {stored : StoredJson}
    (hprepare : prepareRow .sealing .sample plainRow.traceJson = .ok stored)
    (hversion : stored.keyVersion = some 1) :
    Run.run (backfillStep sealingDeployment) (storeWith plainRow [] [])
      (.start "local" "local" :: aloneEvents)
        = some (storeWith (plainRow.recode stored) [.counted [1] (.returned (.ok 1))]
          [⟨1, "local", "local", "active"⟩]) := by
  have hstart : backfillStep sealingDeployment (storeWith plainRow [] []) (.start "local" "local")
      = some (storeWith plainRow [.start "local" "local"] []) := rfl
  rw [Run.run_cons hstart, aloneEvents, Run.run_cons (step_read rfl []),
    Run.run_cons (step_encrypt hprepare hversion rfl), Run.run_cons (step_return stored rfl _)]
  rfl

theorem counted_alone {stored : StoredJson}
    (hprepare : prepareRow .sealing .sample plainRow.traceJson = .ok stored)
    (hversion : stored.keyVersion = some 1) :
    Run.Along (backfillStep sealingDeployment) (Counted sealingDeployment.K) .init
      (sampleInsert :: .start "local" "local" :: aloneEvents) := by
  have hstart : backfillStep sealingDeployment (storeWith plainRow [] []) (.start "local" "local")
      = some (storeWith plainRow [.start "local" "local"] []) := rfl
  refine Run.along_cons (fun r hr => by cases hr) backfillStep_insert ?_
  refine Run.along_cons trivial hstart ?_
  refine Run.along_cons trivial (step_read rfl []) ?_
  refine Run.along_cons ?_ (step_encrypt hprepare hversion rfl) ⟨trivial, fun _ _ => trivial⟩
  intro w done item rest hw hphase
  obtain rfl := Option.some.inj hw
  obtain ⟨-, rfl, -⟩ := BackfillPhase.batch.inj hphase
  have hthrough : goesThrough sealingDeployment.K .sample none (plainRow.traceId,
    plainRow.traceJson)
      = true := by
    show (prepareRow .sealing .sample plainRow.traceJson).isOk && true = true
    rw [hprepare]
    rfl
  rw [if_pos hthrough]
  exact ⟨⟨plainRow, List.mem_singleton_self _, rfl, rfl⟩, fun _ _ _ => rfl⟩

theorem backfill_complete_and_counts_sample : ∃ s,
    Run.run (backfillStep sealingDeployment) (storeWith plainRow [] [])
      (.start "local" "local" :: aloneEvents) = some s ∧
    (∃ r ∈ s.sys.traces, r.traceId = plainRow.traceId ∧ r.encryptionVersion = 1) ∧
    (s.workers.map Backfill.returnedCount).sum = Run.total (backfillStep sealingDeployment)
      (fun s s' => wentToOne s.sys.traces s'.sys.traces) .init
        (sampleInsert :: .start "local" "local" :: aloneEvents) ∧
    aloneEvents.countP (fun e => e.worker = some 0) ≤ 3 := by
  obtain ⟨stored, hprepare, hversion⟩ := exists_prepareRow
  have hrun := run_alone hprepare hversion
  have hwhole := (Run.run_cons backfillStep_insert _).trans hrun
  obtain ⟨hcomplete, hcounts, hsteps, -⟩ := backfill_complete_and_counts sealingDeployment
  refine ⟨_, hrun, ?_, hcounts _ _ hwhole (counted_alone hprepare hversion) ?_, ?_⟩
  · refine hcomplete [sampleInsert] _ _ _ _ _ _ 1 (Run.run_cons backfillStep_insert []) hrun
      (Run.along_of_forall_state (fun e he s => ?_) _) rfl rfl plainRow
        (List.mem_singleton_self _) rfl
    simp only [aloneEvents, List.mem_cons, List.not_mem_nil, or_false] at he
    rcases he with rfl | rfl | rfl | rfl
    · trivial
    · exact fun _ _ _ _ _ h => by cases h
    · trivial
    · exact fun _ _ _ _ _ h => by cases h
  · intro w hw
    rw [List.mem_singleton.1 hw]
    rfl
  · refine (hsteps _ _ _ _ _ hrun (Run.along_of_forall_state (fun e he s => ?_) _)).trans ?_
    · refine arrivesEncrypted_of_worker (fun ev hev => ?_) s
      subst hev
      simp [aloneEvents] at he
    · decide

theorem wentToOne_storeWith (r : TraceRow) (workers workers' : List Backfill)
    (metadata metadata' : List KmsKeyRow) :
    wentToOne (storeWith r workers metadata).sys.traces
      (storeWith r workers' metadata').sys.traces = 0 :=
  wentToOne_self (List.nodup_singleton _)

theorem wentToOne_recode (stored : StoredJson) (workers workers' : List Backfill)
    (metadata metadata' : List KmsKeyRow) :
    wentToOne (storeWith plainRow workers metadata).sys.traces
      (storeWith (plainRow.recode stored) workers' metadata').sys.traces = 1 := by
  have hone := wentToOne_encryptOneRow (t := [plainRow]) (List.nodup_singleton _)
    (List.mem_singleton_self plainRow) rfl stored
  have htable : encryptOneRow plainRow.traceId stored [plainRow] = [plainRow.recode stored] := by
    have hversion : plainRow.encryptionVersion = 0 := rfl
    simp [encryptOneRow, Table.updateWhere, hversion]
  rw [htable] at hone
  exact hone

/-- Two workers that read the row before either has encrypted it. -/
def raceEvents : List BackfillEvent :=
  [.start "local" "local", .start "local" "local", .fetch 0 (fun _ => false) none,
    .fetch 1 (fun _ => false) none, .encrypt 0 .sample none none, .encrypt 1 .sample none none,
    .fetch 0 (fun _ => false) none, .fetch 1 (fun _ => false) none]

theorem run_race {stored : StoredJson}
    (hprepare : prepareRow .sealing .sample plainRow.traceJson = .ok stored)
    (hversion : stored.keyVersion = some 1) :
    Run.run (backfillStep sealingDeployment) (storeWith plainRow [] []) raceEvents
      = some (storeWith (plainRow.recode stored)
        [.counted [1] (.returned (.ok 1)), .counted [] (.returned (.ok 1))]
        [⟨1, "local", "local", "active"⟩]) ∧
    Run.total (backfillStep sealingDeployment) (fun s s' => wentToOne s.sys.traces s'.sys.traces)
      (storeWith plainRow [] []) raceEvents = 1 := by
  have hstart : ∀ workers, backfillStep sealingDeployment (storeWith plainRow workers [])
      (.start "local" "local")
        = some (storeWith plainRow (workers ++ [.start "local" "local"]) []) :=
    fun _ => rfl
  constructor
  · rw [raceEvents, Run.run_cons (hstart []), Run.run_cons (hstart _),
      Run.run_cons (step_read rfl []), Run.run_cons (step_read rfl []),
      Run.run_cons (step_encrypt hprepare hversion rfl),
      Run.run_cons (step_encryptAgain hprepare rfl _), Run.run_cons (step_return stored rfl _),
      Run.run_cons (step_return stored rfl _)]
    rfl
  · rw [raceEvents, Run.total_cons (hstart []), Run.total_cons (hstart _),
      Run.total_cons (step_read rfl []), Run.total_cons (step_read rfl []),
      Run.total_cons (step_encrypt hprepare hversion rfl),
      Run.total_cons (step_encryptAgain hprepare rfl _), Run.total_cons (step_return stored rfl _),
      Run.total_cons (step_return stored rfl _)]
    simp only [wentToOne_storeWith, wentToOne_recode]
    rfl

/-- A locked row is left in plaintext; and a row that two workers have read is counted twice. -/
theorem backfill_incomplete_and_overcounts :
    (∃ s w, Run.run (backfillStep sealingDeployment) .init [sampleInsert, .start "local" "local",
        .fetch 0 (fun _ => true) none] = some s ∧
      s.workers = [w] ∧ w.phase = .returned (.ok 0) ∧ ∃ r ∈ s.sys.traces, r.encryptionVersion = 0) ∧
    (∃ es s, Run.run (backfillStep sealingDeployment) .init es = some s ∧
      (∀ w ∈ s.workers, w.hasReturned = true) ∧
      (s.workers.map Backfill.returnedCount).sum = 2 ∧
      Run.total (backfillStep sealingDeployment)
        (fun s s' => wentToOne s.sys.traces s'.sys.traces) .init es = 1) := by
  constructor
  · have hstart : backfillStep sealingDeployment (storeWith plainRow [] []) (.start "local" "local")
        = some (storeWith plainRow [.start "local" "local"] []) := rfl
    have hfetch : (Backfill.start "local" "local").fetch (fun _ => true) none [plainRow]
        = { Backfill.start "local" "local" with phase := .returned (.ok 0) } := by
      rw [Backfill.fetch, selectBatch_locked rfl]
      rfl
    refine ⟨storeWith plainRow [{ Backfill.start "local" "local" with phase := .returned (.ok 0) }]
      [], _, ?_, rfl, rfl, plainRow, List.mem_singleton_self _, rfl⟩
    rw [Run.run_cons backfillStep_insert, Run.run_cons hstart,
      Run.run_cons (backfillStep_fetch _ rfl rfl _ _)]
    exact congrArg (fun w => some (storeWith plainRow [w] [])) hfetch
  · obtain ⟨stored, hprepare, hversion⟩ := exists_prepareRow
    obtain ⟨hrun, htotal⟩ := run_race hprepare hversion
    refine ⟨sampleInsert :: raceEvents, _,
      (Run.run_cons backfillStep_insert _).trans hrun, ?_, rfl, ?_⟩
    · intro w hw
      rcases List.mem_pair.1 hw with rfl | rfl <;> rfl
    · rw [Run.total_cons backfillStep_insert, htotal]
      rfl

end Samples

end IrlEngine
