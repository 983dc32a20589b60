import IrlEngine.Admin
import IrlEngine.Backfill
import IrlEngine.Lib.Keyset
import Mathlib.Data.Set.Finite.List

/-!
# Reading the audit log page by page

`audit_log_query` of `routes/admin.rs` over `irl.admin_audit_log` of migration 012: the rows that
pass the filters, in descending order of their ids, with the id of the last one as the cursor of
the next page.  A client passes `next_cursor` back as `before_id` until there is none, while other
operators write to the log.

* `auditLogQuery`, `auditLogQuery_entries`, `auditLogQuery_nextCursor` — a page, as a keyset page;
* `LogStatement.run` — the log is append-only, and its ids are distinct;
* `followCursor`, `followCursor_eq` — the client.
-/

namespace IrlEngine

/-! ## The table -/

/-- A row of `irl.admin_audit_log` as it is stored; the time is in microseconds since the epoch. -/
structure StoredAuditRow extends AuditRow where
  id : Uuid
  createdAt : ℤ

/-- What is tried on the table. -/
inductive LogStatement where
  | insert (row : StoredAuditRow)
  | update (id : Uuid) (row : StoredAuditRow)
  | delete (id : Uuid)

/-- `id` is the primary key; the trigger `trg_admin_audit_log_immutable` raises an exception for
every row that is to be updated or deleted. -/
def LogStatement.run (log : List StoredAuditRow) : LogStatement → List StoredAuditRow
  | .insert row => if row.id ∈ log.map StoredAuditRow.id then log else log ++ [row]
  | .update _ _ => log
  | .delete _ => log

/-- The log at the `k`-th request, after the statements between the requests before. -/
def logAt (initial : List StoredAuditRow) (between : ℕ → List LogStatement) :
    ℕ → List StoredAuditRow
  | 0 => initial
  | k + 1 => (between k).foldl LogStatement.run (logAt initial between k)

theorem LogStatement.prefix_run (log : List StoredAuditRow) (st : LogStatement) :
    log <+: st.run log := by
  cases st with
  | insert row =>
    rw [LogStatement.run]
    split
    · exact List.prefix_rfl
    · exact List.prefix_append _ _
  | update id row => exact List.prefix_rfl
  | delete id => exact List.prefix_rfl

theorem LogStatement.nodup_run {log : List StoredAuditRow} (st : LogStatement)
    (h : (log.map StoredAuditRow.id).Nodup) : ((st.run log).map StoredAuditRow.id).Nodup := by
  cases st with
  | insert row =>
    rw [LogStatement.run]
    split
    · exact h
    next hnew =>
      rw [List.map_append, List.map_singleton]
      refine List.nodup_append.2 ⟨h, List.nodup_singleton _, fun a ha b hb => ?_⟩
      rw [List.mem_singleton.1 hb]
      rintro rfl
      exact hnew ha
  | update id row => exact h
  | delete id => exact h

/-- The log is append-only. -/
theorem logAt_grows (initial : List StoredAuditRow) (between : ℕ → List LogStatement) (k : ℕ) :
    logAt initial between k <+: logAt initial between (k + 1) := by
  rw [logAt]
  induction between k using List.reverseRecOn with
  | nil => exact List.prefix_rfl
  | append_singleton sts st ih =>
    rw [List.foldl_append]
    exact ih.trans (st.prefix_run _)

/-- Its ids stay distinct. -/
theorem nodup_logAt {initial : List StoredAuditRow} (hids : (initial.map StoredAuditRow.id).Nodup)
    (between : ℕ → List LogStatement) (k : ℕ) :
    ((logAt initial between k).map StoredAuditRow.id).Nodup := by
  induction k with
  | zero => exact hids
  | succ k ih =>
    rw [logAt]
    induction between k using List.reverseRecOn with
    | nil => exact ih
    | append_singleton sts st hsts =>
      rw [List.foldl_append]
      exact st.nodup_run hsts

/-! ## A page -/

/-- The query parameters; the times of `from` and `to` in microseconds, as they are bound. -/
structure AuditLogQuery where
  action : Option String
  targetId : Option String
  fromTime : Option ℤ
  toTime : Option ℤ
  beforeId : Option Uuid
  limit : Option Int64

/-- `params.limit.unwrap_or(50).clamp(1, 500)`. -/
def AuditLogQuery.pageSize (params : AuditLogQuery) : ℤ :=
  max 1 (min 500 ((params.limit.map Int64.toInt).getD 50))

/-- The conditions on `$1` to `$4`. -/
def AuditLogQuery.filters (params : AuditLogQuery) (r : StoredAuditRow) : Bool :=
  params.action.all (fun a => r.action = a) &&
    params.targetId.all (fun t => r.targetId = some t) &&
    params.fromTime.all (fun t => decide (t ≤ r.createdAt)) &&
    params.toTime.all (fun t => decide (r.createdAt ≤ t))

/-- `$5::uuid IS NULL OR id < $5`. -/
def AuditLogQuery.beforeCursor (params : AuditLogQuery) (r : StoredAuditRow) : Bool :=
  params.beforeId.all fun id => decide (r.id.sortKey < id.sortKey)

/-- `ORDER BY id DESC`. -/
def descendingId (r : StoredAuditRow) : (List ℕ)ᵒᵈ := OrderDual.toDual r.id.sortKey

/-- A page of the audit log, as `audit_log_query` returns it. -/
structure AuditLogPage where
  count : ℕ
  entries : List StoredAuditRow
  nextCursor : Option String

/-- `audit_log_query`. -/
def auditLogQuery (params : AuditLogQuery) (log : List StoredAuditRow) : AuditLogPage :=
  let limit := params.pageSize
  -- one extra row tells whether there are more pages
  let rows := (Paging.byKey descendingId
    (log.filter fun r => params.filters r && params.beforeCursor r)).take (limit + 1).toNat
  let hasMore := decide (limit < rows.length)
  let entries := rows.take limit.toNat
  { count := entries.length
    entries := entries
    nextCursor := if hasMore then entries.getLast?.map fun r => r.id.toText else none }

/-! ## Pages are keyset pages -/

/-- The key of the cursor. -/
def AuditLogQuery.cursor (params : AuditLogQuery) : Option (List ℕ)ᵒᵈ :=
  params.beforeId.map fun id => OrderDual.toDual id.sortKey

theorem AuditLogQuery.pageSize_pos (params : AuditLogQuery) : 1 ≤ params.pageSize := le_max_left _ _

theorem AuditLogQuery.beforeCursor_eq (params : AuditLogQuery) (r : StoredAuditRow) :
    params.beforeCursor r = decide (Keyset.Behind params.cursor (descendingId r)) := by
  unfold AuditLogQuery.beforeCursor AuditLogQuery.cursor
  cases params.beforeId with
  | none => exact (decide_eq_true fun _ h => by cases h).symm
  | some id =>
    refine decide_eq_decide.2 ⟨fun h c hc => ?_, fun h => ?_⟩
    · rw [← Option.some.inj hc]
      exact OrderDual.toDual_lt_toDual.2 h
    · exact OrderDual.toDual_lt_toDual.1 (h _ rfl)

/-- The answer of the query without limit. -/
theorem selected_eq_behind (params : AuditLogQuery) (log : List StoredAuditRow) :
    Paging.byKey descendingId (log.filter fun r => params.filters r && params.beforeCursor r) =
      Keyset.behind descendingId params.cursor (log.filter params.filters) := by
  unfold Keyset.behind
  rw [List.filter_filter]
  simp only [AuditLogQuery.beforeCursor_eq, Bool.and_comm]

theorem auditLogQuery_entries (params : AuditLogQuery) (log : List StoredAuditRow) :
    (auditLogQuery params log).entries = (Keyset.page descendingId params.pageSize.toNat
      params.cursor (log.filter params.filters)).entries := by
  have hsize := params.pageSize_pos
  have hsucc : (params.pageSize + 1).toNat = params.pageSize.toNat + 1 := by omega
  dsimp only [auditLogQuery, Keyset.page]
  rw [selected_eq_behind, hsucc]

/-- The next cursor is the text of an id with the key of the next cursor. -/
theorem auditLogQuery_nextCursor (params : AuditLogQuery) (log : List StoredAuditRow) :
    ∃ next : Option Uuid,
      (auditLogQuery params log).nextCursor = next.map Uuid.toText ∧
        (Keyset.page descendingId params.pageSize.toNat params.cursor
          (log.filter params.filters)).next =
            next.map fun id => OrderDual.toDual id.sortKey := by
  have hsize := params.pageSize_pos
  have hsucc : (params.pageSize + 1).toNat = params.pageSize.toNat + 1 := by omega
  dsimp only [auditLogQuery, Keyset.page]
  rw [selected_eq_behind, hsucc]
  generalize (Keyset.behind descendingId params.cursor (log.filter params.filters)).take
    (params.pageSize.toNat + 1) = rows
  have hmore : params.pageSize < rows.length ↔ params.pageSize.toNat < rows.length := by omega
  by_cases h : params.pageSize.toNat < rows.length
  · refine ⟨(rows.take params.pageSize.toNat).getLast?.map StoredAuditRow.id, ?_, ?_⟩
    · rw [if_pos (decide_eq_true (hmore.2 h)), Option.map_map]
      rfl
    · rw [if_pos h, Option.map_map]
      rfl
  · refine ⟨none, ?_, ?_⟩
    · rw [if_neg (fun hd => h (hmore.1 (of_decide_eq_true hd)))]
      rfl
    · rw [if_neg h]
      rfl

/-! ## The client -/

section Client

variable (parseUuid : String → Option Uuid)

/-- From its `k`-th request on the client collects the entries and passes `next_cursor` back as
`before_id`; `parseUuid` is how the server reads a query parameter. -/
def followCursor (logs : ℕ → List StoredAuditRow) :
    ℕ → ℕ → AuditLogQuery → Option (List StoredAuditRow)
  | 0, _, _ => none
  | fuel + 1, k, params =>
    match (auditLogQuery params (logs k)).nextCursor with
    | none => some (auditLogQuery params (logs k)).entries
    | some text =>
      match parseUuid text with
      | none => none
      | some id => (followCursor logs fuel (k + 1) { params with beforeId := some id }).map
          ((auditLogQuery params (logs k)).entries ++ ·)

variable {parseUuid}

/-- The client is a reader of the rows that pass the filters. -/
theorem followCursor_eq (hparse : ∀ u : Uuid, parseUuid u.toText = some u)
    (logs : ℕ → List StoredAuditRow) (fuel k : ℕ) (params : AuditLogQuery) :
    followCursor parseUuid logs fuel k params =
      Keyset.follow (Keyset.reader descendingId params.pageSize.toNat fun k =>
        (logs k).filter params.filters) fuel k params.cursor := by
  induction fuel generalizing k params with
  | zero => rfl
  | succ fuel ih =>
    obtain ⟨next, htext, hkey⟩ := auditLogQuery_nextCursor params (logs k)
    unfold followCursor Keyset.follow
    rw [Keyset.reader, htext, hkey, ← auditLogQuery_entries]
    cases next with
    | none => rfl
    | some id =>
      simp only [Option.map_some, hparse]
      rw [ih]
      rfl

end Client

/-! ## Nothing is lost, nothing comes twice -/

/-- There are finitely many ids, so that a client comes to an end whatever is inserted. -/
theorem Uuid.finite_sortKey : (Set.range fun u : Uuid => OrderDual.toDual u.sortKey).Finite := by
  have hfinite : Finite UInt8 := Finite.of_injective UInt8.toFin fun a b h => UInt8.toFin_inj.1 h
  have hbytes : {l : List UInt8 | l.length = 16}.Finite := List.finite_length_eq UInt8 16
  refine (hbytes.image fun l => OrderDual.toDual (l.map UInt8.toNat)).subset ?_
  rintro _ ⟨u, rfl⟩
  exact ⟨u.bytes, u.length_eq, rfl⟩

theorem descendingId_eq_iff {r s : StoredAuditRow} :
    descendingId r = descendingId s ↔ r.id = s.id :=
  (OrderDual.toDual.injective.comp Uuid.sortKey_injective).eq_iff

theorem nodup_descendingId {rows : List StoredAuditRow}
    (h : (rows.map StoredAuditRow.id).Nodup) : (rows.map descendingId).Nodup := by
  refine List.pairwise_map.2 ((List.pairwise_map.1 h).imp fun hne hsame => ?_)
  exact hne (descendingId_eq_iff.1 hsame)

/-- In strict order of ids a row stands alone. -/
theorem filter_id_eq_singleton {rows : List StoredAuditRow}
    (h : rows.Pairwise fun a b => descendingId a < descendingId b) {r : StoredAuditRow}
    (hr : r ∈ rows) : rows.filter (fun x => x.id = r.id) = [r] := by
  obtain ⟨before, after, rfl⟩ := List.append_of_mem hr
  obtain ⟨-, hafter, hbetween⟩ := List.pairwise_append.1 h
  have hne : ∀ x ∈ before ++ after, x.id ≠ r.id := by
    intro x hx hid
    have hsame := descendingId_eq_iff.2 hid
    rcases List.mem_append.1 hx with hx | hx
    · exact (hbetween x hx r List.mem_cons_self).ne hsame
    · exact ((List.pairwise_cons.1 hafter).1 x hx).ne' hsame
  rw [List.filter_append, List.filter_cons_of_pos (by simp),
    List.filter_eq_nil_iff.2 fun x hx => ?_, List.filter_eq_nil_iff.2 fun x hx => ?_,
    List.nil_append]
  · simpa using hne x (List.mem_append_right _ hx)
  · simpa using hne x (List.mem_append_left _ hx)

/-- A client that starts without a cursor comes to an end.  It has then read every row that passed
the filters at its first request, once, and otherwise only rows of the log that pass them. -/
theorem audit_log_pages_complete (parseUuid : String → Option Uuid)
    (hparse : ∀ u : Uuid, parseUuid u.toText = some u) (initial : List StoredAuditRow)
    (hids : (initial.map StoredAuditRow.id).Nodup) (between : ℕ → List LogStatement)
    (params : AuditLogQuery) (hfirst : params.beforeId = none) :
    ∃ rows, (∃ enough, ∀ fuel, enough ≤ fuel →
        followCursor parseUuid (logAt initial between) fuel 0 params = some rows) ∧
      (∀ r ∈ initial, params.filters r = true → rows.filter (fun x => x.id = r.id) = [r]) ∧
      (rows.map StoredAuditRow.id).Nodup ∧
      ∀ r ∈ rows, params.filters r = true ∧ ∃ k, r ∈ logAt initial between k := by
  set tables := fun k => (logAt initial between k).filter params.filters
  set enough := (Uuid.finite_sortKey.toFinset.filter (Keyset.Behind none)).card + 1
  have hgrow : ∀ k, tables k ⊆ tables (k + 1) := fun k =>
    ((logAt_grows initial between k).sublist.filter _).subset
  have hkeys : ∀ k, ((tables k).map descendingId).Nodup := fun k =>
    (nodup_descendingId (nodup_logAt hids between k)).sublist (List.filter_sublist.map _)
  have hcursor : params.cursor = none := by rw [AuditLogQuery.cursor, hfirst, Option.map_none]
  have hsize : 0 < params.pageSize.toNat := by
    have := params.pageSize_pos
    omega
  have hS : ∀ k, ∀ r ∈ tables k, descendingId r ∈ Uuid.finite_sortKey.toFinset :=
    fun k r hr => Uuid.finite_sortKey.mem_toFinset.2 ⟨r.id, rfl⟩
  obtain ⟨rows, hrows⟩ := Option.isSome_iff_exists.1
    (Keyset.follow_isSome (n := params.pageSize.toNat) (k := 0) hS hkeys
      (show _ < enough from Nat.lt_succ_self _))
  obtain ⟨hpairwise, hmem, hall⟩ := Keyset.follow_spec hgrow hkeys hsize hrows
  refine ⟨rows, ⟨enough, fun fuel hfuel => ?_⟩, ?_, ?_, ?_⟩
  · rw [followCursor_eq hparse, hcursor]
    exact Keyset.follow_mono hrows hfuel
  · intro r hr hpass
    refine filter_id_eq_singleton hpairwise (hall r (List.mem_filter.2 ⟨hr, hpass⟩) ?_)
    intro c hc
    cases hc
  · refine List.pairwise_map.2 (hpairwise.imp fun hlt hid => ?_)
    exact hlt.ne (descendingId_eq_iff.2 hid)
  · intro r hr
    obtain ⟨k, hk⟩ := (hmem r hr).2
    obtain ⟨hlog, hpass⟩ := List.mem_filter.1 hk
    exact ⟨hpass, k, hlog⟩

/-- The hyphenated form, as `Uuid` prints it. -/
def Uuid.readHyphenated (s : String) : Option Uuid :=
  (Encoding.hexDecode (s.toList.filter (· ≠ '-'))).bind fun bytes =>
    if h : bytes.length = 16 then some ⟨bytes, h⟩ else none

theorem Uuid.readHyphenated_toText (u : Uuid) : Uuid.readHyphenated u.toText = some u := by
  rw [Uuid.readHyphenated, Uuid.toText_filter, Encoding.hexDecode_hexEncode, Option.bind_some,
    dif_pos u.length_eq]

/-- A row of the first instant, with the given id. -/
def sampleAuditRow (b : UInt8) : StoredAuditRow :=
  { operatorId := "ops", action := "TOKEN_ISSUE", targetType := "TOKEN", targetId := none
    detailsJson := none, ipAddress := none, id := .fill b, createdAt := 0 }

/-- Two rows, read one by one, while a third one is inserted below the cursor. -/
theorem audit_log_pages_complete_sample :
    ∃ rows, (∃ enough, ∀ fuel, enough ≤ fuel →
        followCursor Uuid.readHyphenated
          (logAt [sampleAuditRow 3, sampleAuditRow 9] fun _ => [.insert (sampleAuditRow 5)])
          fuel 0 ⟨none, none, none, none, none, some 1⟩ = some rows) ∧
      (∀ r ∈ [sampleAuditRow 3, sampleAuditRow 9],
        AuditLogQuery.filters ⟨none, none, none, none, none, some 1⟩ r = true →
          rows.filter (fun x => x.id = r.id) = [r]) ∧
      (rows.map StoredAuditRow.id).Nodup ∧
      ∀ r ∈ rows, AuditLogQuery.filters ⟨none, none, none, none, none, some 1⟩ r = true ∧
        ∃ k, r ∈ logAt [sampleAuditRow 3, sampleAuditRow 9]
          (fun _ => [.insert (sampleAuditRow 5)]) k :=
  audit_log_pages_complete Uuid.readHyphenated Uuid.readHyphenated_toText _ (by decide) _ _ rfl

end IrlEngine
