import IrlEngine.AuditPages

/-!
# The evidence export

`bin/evidence_export.rs`: the rows of the audit log, and the numbers of policy decisions, between
two dates.  `parse_args` makes the first instant of `--from` and the instant 23:59:59 of `--to` out
of them, and the queries compare with `BETWEEN`, up to the microsecond.

* `parseArgs`, `parseArgs_dates` — the two instants;
* `auditLogRows`, `policyDecisions` — what is selected;
* `Splits` — consecutive ranges of whole days;
* `Late` — an instant behind 23:59:59, in the last second of a day.
-/

namespace IrlEngine

/-! ## Arguments -/

/-- Instants are in microseconds since the epoch. -/
structure EvidenceArgs where
  fromTime : ℤ
  toTime : ℤ
  out : String
  databaseUrl : String
  deriving DecidableEq

/-- Dates are numbers of days since the epoch. -/
def midnight (date : ℤ) : ℤ := date * 86400000000

/-- `and_hms_opt(23, 59, 59)`. -/
def lastSecond (date : ℤ) : ℤ := midnight date + 86399000000

/-- The arguments for the days from one date to another. -/
def EvidenceArgs.ofDates (out databaseUrl : String) (dates : ℤ × ℤ) : EvidenceArgs :=
  ⟨midnight dates.1, lastSecond dates.2, out, databaseUrl⟩

/-- The options that `parse_args` has collected. -/
structure RawArgs where
  fromStr : String
  toStr : String
  out : String

/-- The loop over the arguments; the last one of each kind counts. -/
def scanArgs : List String → RawArgs → Except String RawArgs
  | [], raw => .ok raw
  | arg :: rest, raw =>
    if arg = "--from" then
      match rest with
      | [] => .error "--from requires a date argument"
      | value :: rest => scanArgs rest { raw with fromStr := value }
    else if arg = "--to" then
      match rest with
      | [] => .error "--to requires a date argument"
      | value :: rest => scanArgs rest { raw with toStr := value }
    else if arg = "--out" then
      match rest with
      | [] => .error "--out requires a path argument"
      | value :: rest => scanArgs rest { raw with out := value }
    else scanArgs rest raw

/-- `parse_args`, where `parseDate` is `NaiveDate::parse_from_str` with `%Y-%m-%d`; the arguments
are those behind the name of the program. -/
def parseArgs (parseDate : String → Option ℤ) (args : List String) (databaseUrl : Option String) :
    Except String EvidenceArgs :=
  match scanArgs args ⟨"", "", "evidence.zip"⟩ with
  | .error e => .error e
  | .ok raw =>
    if raw.fromStr = "" then .error "--from DATE is required"
    else if raw.toStr = "" then .error "--to DATE is required"
    else
      match parseDate raw.fromStr, parseDate raw.toStr, databaseUrl with
      | none, _, _ => .error ("--from must be YYYY-MM-DD, got '" ++ raw.fromStr ++ "'")
      | some _, none, _ => .error ("--to must be YYYY-MM-DD, got '" ++ raw.toStr ++ "'")
      | some _, some _, none => .error "DATABASE_URL environment variable not set"
      | some fromDate, some toDate, some url =>
        .ok (.ofDates raw.out url (fromDate, toDate))

/-- The export of the days from one date to another. -/
theorem parseArgs_dates (parseDate : String → Option ℤ) {fromStr toStr : String}
    {fromDate toDate : ℤ}
    (hfrom : parseDate fromStr = some fromDate) (hto : parseDate toStr = some toDate)
    (hempty : parseDate "" = none) (databaseUrl : String) :
    parseArgs parseDate ["--from", fromStr, "--to", toStr] (some databaseUrl) =
      .ok (.ofDates "evidence.zip" databaseUrl (fromDate, toDate)) := by
  have hfromStr : fromStr ≠ "" := by
    rintro rfl
    rw [hempty] at hfrom
    cases hfrom
  have htoStr : toStr ≠ "" := by
    rintro rfl
    rw [hempty] at hto
    cases hto
  simp [parseArgs, scanArgs, hfromStr, htoStr, hfrom, hto]

/-! ## Queries -/

/-- `BETWEEN $1 AND $2`. -/
def EvidenceArgs.selects (args : EvidenceArgs) (time : ℤ) : Bool :=
  decide (args.fromTime ≤ time) && decide (time ≤ args.toTime)

/-- The answer of the query of `export_audit_log`. -/
def auditLogRows (args : EvidenceArgs) (log : List StoredAuditRow) : List StoredAuditRow :=
  Paging.byKey StoredAuditRow.createdAt (log.filter fun r => args.selects r.createdAt)

/-- A line of `audit_log.csv`, where `timestampText` is the cast of a `timestamptz` to text. -/
def auditCsvLine (timestampText : ℤ → String) (r : StoredAuditRow) : String :=
  timestampText r.createdAt ++ "," ++ r.operatorId ++ "," ++ r.action ++ ","
    ++ r.targetType ++ "," ++
    r.targetId.getD "" ++ "," ++ r.ipAddress.getD "" ++ "\n"

/-- `export_audit_log`. -/
def exportAuditLog (timestampText : ℤ → String) (args : EvidenceArgs) (log : List StoredAuditRow) :
    String :=
  "created_at,operator_id,action,target_type,target_id,ip_address\n" ++
    String.join ((auditLogRows args log).map (auditCsvLine timestampText))

/-- `COUNT(*)` of one group of `export_policy_decisions`. -/
def policyDecisions (args : EvidenceArgs) (mtaVersion : String) (policyResult : PolicyResult)
    (traces : List TraceRow) : ℕ :=
  traces.countP fun r => args.selects (r.txnTime.millis.toInt * 1000) &&
    decide (r.mtaVersion = mtaVersion ∧ r.policyResult = policyResult)

/-! ## Ranges of days -/

/-- An instant of the days from one date to another. -/
def InDays (dates : ℤ × ℤ) (time : ℤ) : Prop :=
  midnight dates.1 ≤ time ∧ time < midnight (dates.2 + 1)

/-- An instant behind 23:59:59, in the last second of a day. -/
def Late (date time : ℤ) : Prop := lastSecond date < time ∧ time < midnight (date + 1)

/-- A range of days in consecutive ranges. -/
inductive Splits : ℤ → ℤ → List (ℤ × ℤ) → Prop where
  | last {first last : ℤ} (h : first ≤ last) : Splits first last [(first, last)]
  | cons {first cut last : ℤ} {parts : List (ℤ × ℤ)} (h : first ≤ cut)
      (hparts : Splits (cut + 1) last parts) : Splits first last ((first, cut) :: parts)

variable {first last : ℤ} {parts : List (ℤ × ℤ)} {time : ℤ}

/-- The rows of some days are exported, but for those of the last second. -/
theorem selects_ofDates_iff {out databaseUrl : String} {dates : ℤ × ℤ} :
    (EvidenceArgs.ofDates out databaseUrl dates).selects time = true ↔
      InDays dates time ∧ ¬ Late dates.2 time := by
  rw [EvidenceArgs.selects, Bool.and_eq_true, decide_eq_true_iff, decide_eq_true_iff]
  simp only [EvidenceArgs.ofDates, InDays, Late, lastSecond, midnight]
  omega

theorem Splits.le (h : Splits first last parts) : first ≤ last := by
  induction h with
  | last h => exact h
  | cons h hparts ih => omega

/-- The days of the parts are days of the range. -/
theorem Splits.bounds (h : Splits first last parts) {p : ℤ × ℤ} (hp : p ∈ parts) :
    first ≤ p.1 ∧ p.1 ≤ p.2 ∧ p.2 ≤ last := by
  induction h with
  | last h =>
    rw [List.mem_singleton.1 hp]
    exact ⟨le_refl _, h, le_refl _⟩
  | cons h hparts ih =>
    rcases List.mem_cons.1 hp with rfl | hp
    · have hle := hparts.le
      exact ⟨le_refl _, h, by omega⟩
    · obtain ⟨hfirst, hrest⟩ := ih hp
      exact ⟨by omega, hrest⟩

/-- The last day of the range is the last day of a part. -/
theorem Splits.exists_last (h : Splits first last parts) : ∃ p ∈ parts, p.2 = last := by
  induction h with
  | last h => exact ⟨_, List.mem_singleton_self _, rfl⟩
  | cons h hparts ih =>
    obtain ⟨p, hp, hlast⟩ := ih
    exact ⟨p, List.mem_cons_of_mem _ hp, hlast⟩

/-- Every instant of the range lies in exactly one part. -/
theorem Splits.existsUnique (h : Splits first last parts) (htime : InDays (first, last) time) :
    ∃! i : ℕ, ∃ p, parts[i]? = some p ∧ InDays p time := by
  induction h with
  | last h =>
    refine ⟨0, ⟨_, rfl, htime⟩, ?_⟩
    rintro i ⟨p, hp, -⟩
    exact Nat.lt_one_iff.1 (List.getElem?_eq_some_iff.1 hp).1
  | @cons first cut last parts h hparts ih =>
    by_cases hcut : time < midnight (cut + 1)
    · refine ⟨0, ⟨_, rfl, htime.1, hcut⟩, ?_⟩
      rintro i ⟨p, hp, hin⟩
      cases i with
      | zero => rfl
      | succ i =>
        have hbounds := hparts.bounds (List.mem_of_getElem? hp)
        simp only [InDays, midnight] at hin hcut
        omega
    · obtain ⟨i, ⟨p, hp, hin⟩, hunique⟩ := ih ⟨not_lt.1 hcut, htime.2⟩
      refine ⟨i + 1, ⟨p, hp, hin⟩, ?_⟩
      rintro j ⟨q, hq, hinq⟩
      cases j with
      | zero =>
        cases hq
        exact absurd hinq.2 hcut
      | succ j => rw [hunique j ⟨q, hq, hinq⟩]

/-! ## The exports of the parts -/

section Tiling

variable (out databaseUrl : String)

theorem mem_auditLogRows {args : EvidenceArgs} {log : List StoredAuditRow} {r : StoredAuditRow} :
    r ∈ auditLogRows args log ↔ r ∈ log ∧ args.selects r.createdAt = true := by
  rw [auditLogRows, (Paging.ordered_byKey _ _).perm.mem_iff, List.mem_filter]

/-- The row is in the export of exactly one part, and in the export of the whole range. -/
def ExportedOnce (log : List StoredAuditRow) (first last : ℤ) (parts : List (ℤ × ℤ))
    (r : StoredAuditRow) : Prop :=
  (∃! i : ℕ, ∃ p, parts[i]? = some p ∧ r ∈ auditLogRows (.ofDates out databaseUrl p) log) ∧
    r ∈ auditLogRows (.ofDates out databaseUrl (first, last)) log

/-- A split tiles the rows of its range exactly if none of them was created in the last second of
the last day of a part. -/
theorem evidence_tiles_iff (log : List StoredAuditRow) (h : Splits first last parts) :
    (∀ r ∈ log, InDays (first, last) r.createdAt →
        ExportedOnce out databaseUrl log first last parts r) ↔
      ∀ r ∈ log, ∀ p ∈ parts, ¬ Late p.2 r.createdAt := by
  constructor
  · intro hall r hr p hp hlate
    obtain ⟨hfirst, hle, hlast⟩ := h.bounds hp
    have hinp : InDays p r.createdAt := by
      simp only [InDays, Late, lastSecond, midnight] at hlate ⊢
      omega
    have hin : InDays (first, last) r.createdAt := by
      simp only [InDays, midnight] at hinp ⊢
      omega
    -- the part that exports the row is the one it lies in
    obtain ⟨⟨j, ⟨q, hq, hexported⟩, -⟩, -⟩ := hall r hr hin
    obtain ⟨hinq, hnot⟩ := selects_ofDates_iff.1 (mem_auditLogRows.1 hexported).2
    obtain ⟨i, hi⟩ := List.mem_iff_getElem?.1 hp
    have hij := (h.existsUnique hin).unique ⟨p, hi, hinp⟩ ⟨q, hq, hinq⟩
    rw [hij, hq] at hi
    exact hnot (Option.some.inj hi ▸ hlate)
  · intro hnone r hr hin
    obtain ⟨i, ⟨p, hp, hinp⟩, hunique⟩ := h.existsUnique hin
    have hexported : r ∈ auditLogRows (.ofDates out databaseUrl p) log :=
      mem_auditLogRows.2 ⟨hr, selects_ofDates_iff.2 ⟨hinp, hnone r hr p (List.mem_of_getElem? hp)⟩⟩
    obtain ⟨q, hq, hlast⟩ := h.exists_last
    refine ⟨⟨i, ⟨p, hp, hexported⟩, ?_⟩, mem_auditLogRows.2 ⟨hr, selects_ofDates_iff.2 ⟨hin, ?_⟩⟩⟩
    · rintro j ⟨p', hp', hr'⟩
      exact hunique j ⟨p', hp', (selects_ofDates_iff.1 (mem_auditLogRows.1 hr').2).1⟩
    · exact hlast ▸ hnone r hr q hq

/-- Two ranges of days, one behind the other. -/
theorem selects_cut {first cut last : ℤ} (hfirst : first ≤ cut) (hlast : cut < last)
    (hlate : ¬ Late cut time) :
    (EvidenceArgs.ofDates out databaseUrl (first, last)).selects time =
        ((EvidenceArgs.ofDates out databaseUrl (first, cut)).selects time ||
          (EvidenceArgs.ofDates out databaseUrl (cut + 1, last)).selects time) ∧
      ((EvidenceArgs.ofDates out databaseUrl (first, cut)).selects time &&
        (EvidenceArgs.ofDates out databaseUrl (cut + 1, last)).selects time) = false := by
  rw [Bool.eq_iff_iff, Bool.or_eq_true, Bool.and_eq_false_iff]
  simp only [← Bool.not_eq_true, selects_ofDates_iff]
  simp only [InDays, Late, lastSecond, midnight] at hlate ⊢
  omega

/-- The decisions of a range are those of its parts, if none was made in the last second of the last
day of a part. -/
theorem sum_policyDecisions (traces : List TraceRow) (mtaVersion : String)
    (policyResult : PolicyResult) (h : Splits first last parts)
    (hnone : ∀ r ∈ traces, ∀ p ∈ parts, ¬ Late p.2 (r.txnTime.millis.toInt * 1000)) :
    (parts.map fun p =>
        policyDecisions (.ofDates out databaseUrl p) mtaVersion policyResult traces).sum =
      policyDecisions (.ofDates out databaseUrl (first, last)) mtaVersion policyResult traces := by
  induction h with
  | last h => simp
  | @cons first cut last parts h hparts ih =>
    rw [List.map_cons, List.sum_cons, ih fun r hr p hp => hnone r hr p (List.mem_cons_of_mem _ hp)]
    have hcut : ∀ r ∈ traces, _ := fun r hr =>
      selects_cut out databaseUrl h (Int.lt_of_add_one_le hparts.le)
        (hnone r hr _ List.mem_cons_self)
    refine Table.countP_add_countP (fun r hr => ?_) fun r hr => ?_
    · rw [(hcut r hr).1, Bool.and_or_distrib_right]
    · have hdisjoint := (hcut r hr).2
      rw [Bool.and_eq_false_iff] at hdisjoint
      rcases hdisjoint with hfalse | hfalse
      · simp [hfalse]
      · simp [hfalse]

end Tiling

/-! A row of half a second before midnight, and its day exported alone. -/

/-- The row of half a second before midnight. -/
def halfSecondRow : StoredAuditRow := { sampleAuditRow 1 with createdAt := 86399500000 }

/-- Two days exported one by one: the row of the first one is in no export. -/
theorem late_row_missed : Splits 0 1 [(0, 0), (1, 1)] ∧ InDays (0, 1) halfSecondRow.createdAt ∧
    ¬ ExportedOnce "evidence.zip" "postgres" [halfSecondRow] 0 1 [(0, 0),
      (1, 1)] halfSecondRow := by
  refine ⟨.cons (le_refl 0) (.last (le_refl 1)), ⟨by decide, by decide⟩, ?_⟩
  rintro ⟨⟨i, ⟨p, hp, hexported⟩, -⟩, -⟩
  have hselects := (mem_auditLogRows.1 hexported).2
  rcases List.mem_cons.1 (List.mem_of_getElem? hp) with rfl | hp
  · exact absurd hselects (by decide)
  · rw [List.mem_singleton.1 hp] at hselects
    exact absurd hselects (by decide)

/-- A row of noon on the second day. -/
def noonRow : StoredAuditRow := { sampleAuditRow 2 with createdAt := 129600000000 }

/-- With a row of midnight and one of noon the two exports tile the two days. -/
theorem evidence_tiles_iff_sample :
    ExportedOnce "evidence.zip" "postgres" [sampleAuditRow 1, noonRow] 0 1 [(0, 0), (1, 1)]
        (sampleAuditRow 1) ∧
      ExportedOnce "evidence.zip" "postgres" [sampleAuditRow 1, noonRow] 0 1 [(0, 0), (1, 1)]
        noonRow := by
  have htiles := evidence_tiles_iff "evidence.zip" "postgres" [sampleAuditRow 1, noonRow]
    (.cons (le_refl 0) (.last (le_refl 1)))
  have hlate : ∀ r ∈ [sampleAuditRow 1, noonRow], ∀ p ∈ [((0, 0) : ℤ × ℤ), (1, 1)],
      ¬ Late p.2 r.createdAt := by
    simp only [List.forall_mem_cons, List.not_mem_nil, false_implies, implies_true, and_true]
    refine ⟨⟨fun h => absurd h.1 (by decide), fun h => absurd h.1 (by decide)⟩,
      fun h => absurd h.2 (by decide), fun h => absurd h.1 (by decide)⟩
  exact ⟨htiles.2 hlate _ (by simp) ⟨by decide, by decide⟩,
    htiles.2 hlate _ (by simp) ⟨by decide, by decide⟩⟩

end IrlEngine
