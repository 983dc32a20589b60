import IrlEngine.AdminAudit
import IrlEngine.EvidenceExport
import IrlEngine.Lib.Csv

/-!
# Reading the evidence back

The two tables of the evidence archive that `bin/evidence_export.rs` writes without quoting:
`audit_log.csv` and `policy_decisions.csv`.

* `CsvClean` — texts without a comma and without a line feed;
* **The audit log reads back** — `audit_csv_reads_back`: all that operators can bring into
  `irl.admin_audit_log` is clean, so an auditor reads the exported rows off the file;
* **The decisions add up** — `policy_decisions_account`: every trace of the period is counted
  once, and the file reads back exactly if the versions of the MTA are clean.
-/

namespace IrlEngine

/-! ## Clean texts -/

/-- Neither a comma nor a line feed. -/
def CsvClean (s : String) : Prop := ',' ∉ s.toList ∧ '\n' ∉ s.toList

instance (s : String) : Decidable (CsvClean s) := inferInstanceAs (Decidable (_ ∧ _))

/-- What an auditor reads off the text of a file. -/
def readCsv (text : String) : List (List String) :=
  (Csv.parse ',' '\n' text.toList).map fun row => row.map String.ofList

theorem csvClean_of_forall {s : String} {p : Char → Bool} (h : ∀ c ∈ s.toList, p c = true)
    (hcomma : p ',' = false) (hnewline : p '\n' = false) : CsvClean s :=
  ⟨fun hc => Bool.false_ne_true (hcomma.symm.trans (h _ hc)),
    fun hc => Bool.false_ne_true (hnewline.symm.trans (h _ hc))⟩

theorem csvClean_tokenIdOf (message : List UInt8) : CsvClean (tokenIdOf (sha256Hex message)) := by
  refine csvClean_of_forall (p := Encoding.isLowerHex) (fun c hc => ?_) (by decide) (by decide)
  rw [tokenIdOf, sha256Hex, String.toList_ofList, String.toList_ofList] at hc
  exact Encoding.isLowerHex_of_mem_hexEncode (List.mem_of_mem_take hc)

theorem csvClean_empty : CsvClean "" := by decide

theorem csvClean_toText (id : Uuid) : CsvClean id.toText := by
  have hhex : ∀ {c : Char}, c ∈ Encoding.hexEncode id.bytes →
      (Encoding.isLowerHex c || decide (c = '-')) = true := by
    intro c hc
    rw [Encoding.isLowerHex_of_mem_hexEncode hc, Bool.true_or]
  refine csvClean_of_forall (p := fun c => Encoding.isLowerHex c || decide (c = '-'))
    (fun c hc => ?_)
    (by decide) (by decide)
  simp only [Uuid.toText, String.toList_ofList, List.mem_append, List.mem_cons] at hc
  rcases hc with (((hc | rfl | hc) | rfl | hc) | rfl | hc) | rfl | hc
  · exact hhex (List.mem_of_mem_take hc)
  · rfl
  · exact hhex (List.mem_of_mem_drop (List.mem_of_mem_take hc))
  · rfl
  · exact hhex (List.mem_of_mem_drop (List.mem_of_mem_take hc))
  · rfl
  · exact hhex (List.mem_of_mem_drop (List.mem_of_mem_take hc))
  · rfl
  · exact hhex (List.mem_of_mem_drop hc)

theorem csvClean_asStr (action : AuditAction) : CsvClean action.asStr := by cases action <;> decide

theorem csvClean_targetType (action : AuditAction) : CsvClean action.targetType := by
  cases action <;> decide

theorem csvClean_toString (n : ℕ) : CsvClean (toString n) := by
  refine csvClean_of_forall (p := Char.isDigit) (fun c hc => ?_) (by decide) (by decide)
  rw [Nat.toString_eq_ofList_toDigits, String.toList_ofList] at hc
  exact Nat.isDigit_of_mem_toDigits (by decide) (by decide) hc

/-! ## Rows of texts -/

section Rows

/-- One line of a file. -/
def csvLine (fields : List String) : String := ",".intercalate fields ++ "\n"

/-- A file of these rows. -/
def csvText (rows : List (List String)) : String := String.join (rows.map csvLine)

theorem toList_csvText (rows : List (List String)) :
    (csvText rows).toList = Csv.render ',' '\n' (rows.map fun row => row.map String.toList) := by
  rw [csvText, String.toList_join, Csv.render, List.flatMap_map, List.flatMap_map]
  refine List.flatMap_congr fun row _ => ?_
  rw [csvLine, String.toList_append, String.toList_intercalate]
  rfl

theorem cleanRow_iff {row : List String} (hne : row ≠ []) :
    Csv.CleanRow ',' '\n' (row.map String.toList) ↔ ∀ field ∈ row, CsvClean field := by
  constructor
  · intro h field hf
    exact ⟨h.sep _ (List.mem_map_of_mem hf), h.nl _ (List.mem_map_of_mem hf)⟩
  · refine fun h => ⟨fun hnil => hne (List.map_eq_nil_iff.1 hnil), ?_, ?_⟩
    all_goals
      intro cs hcs
      obtain ⟨field, hf, rfl⟩ := List.mem_map.1 hcs
    · exact (h field hf).1
    · exact (h field hf).2

theorem readCsv_eq_iff {text : String} {rows : List (List String)} :
    readCsv text = rows ↔
      Csv.parse ',' '\n' text.toList = rows.map fun row => row.map String.toList := by
  have hto : ∀ row : List (List Char), (row.map String.ofList).map String.toList
    = row := fun row => by
    simp [Function.comp_def]
  have hof : ∀ row : List String, (row.map String.toList).map String.ofList = row := fun row => by
    simp [Function.comp_def]
  unfold readCsv
  generalize Csv.parse ',' '\n' text.toList = parsed
  constructor
  · rintro rfl
    simp only [List.map_map, Function.comp_def, hto, List.map_id']
  · rintro rfl
    simp only [List.map_map, Function.comp_def, hof, List.map_id']

/-- **A file reads back exactly if every field of it is clean.** -/
theorem readCsv_csvText_iff {rows : List (List String)} (hne : ∀ row ∈ rows, row ≠ []) :
    readCsv (csvText rows) = rows ↔ ∀ row ∈ rows, ∀ field ∈ row, CsvClean field := by
  rw [readCsv_eq_iff, toList_csvText, Csv.parse_render_iff (by decide), List.forall_mem_map]
  exact forall₂_congr fun row hrow => cleanRow_iff (hne row hrow)

end Rows

/-! ## The audit log -/

/-- The columns of `audit_log.csv`. -/
def auditHeader : List String :=
  ["created_at", "operator_id", "action", "target_type", "target_id", "ip_address"]

/-- The fields of a line of `audit_log.csv`. -/
def StoredAuditRow.csvFields (timestampText : ℤ → String) (r : StoredAuditRow) : List String :=
  [timestampText r.createdAt, r.operatorId, r.action, r.targetType, r.targetId.getD "",
    r.ipAddress.getD ""]

theorem csvLine_cons (field : String) {fields : List String} (h : fields ≠ []) :
    csvLine (field :: fields) = field ++ "," ++ csvLine fields := by
  rw [csvLine, String.intercalate_cons_of_ne_nil h, String.append_assoc, csvLine]

theorem auditCsvLine_eq (timestampText : ℤ → String) (r : StoredAuditRow) :
    auditCsvLine timestampText r = csvLine (r.csvFields timestampText) := by
  have hlast : ∀ field : String, csvLine [field] = field ++ "\n" := fun field => by
    rw [csvLine, String.intercalate_singleton]
  rw [StoredAuditRow.csvFields, csvLine_cons _ (by simp), csvLine_cons _ (by simp),
    csvLine_cons _ (by simp), csvLine_cons _ (by simp), csvLine_cons _ (by simp),
    hlast, auditCsvLine]
  simp only [String.append_assoc]

theorem csvLine_auditHeader :
    csvLine auditHeader = "created_at,operator_id,action,target_type,target_id,ip_address\n" := by
  decide

theorem exportAuditLog_eq (timestampText : ℤ → String) (args : EvidenceArgs)
    (log : List StoredAuditRow) : exportAuditLog timestampText args log =
      csvText (auditHeader :: (auditLogRows args log).map fun r => r.csvFields timestampText) := by
  have hlines : (auditLogRows args log).map (auditCsvLine timestampText)
      = ((auditLogRows args log).map fun r => r.csvFields timestampText).map csvLine := by
    rw [List.map_map]
    exact List.map_congr_left fun r _ => auditCsvLine_eq timestampText r
  have htext : csvText (auditHeader :: (auditLogRows args log).map fun r =>
        r.csvFields timestampText)
      = csvLine auditHeader ++ String.join
        (((auditLogRows args log).map fun r => r.csvFields timestampText).map csvLine) :=
    String.join_cons
  rw [htext, csvLine_auditHeader, ← hlines]
  exact Eq.refl (exportAuditLog timestampText args log)

/-- What an operator brings along, as `require_bearer` and the client's address have it. -/
structure Operator.Bearer (op : Operator) : Prop where
  operatorId : ∃ token, op.operatorId = tokenIdOf (sha256Hex (Text.utf8 token))
  clientIp : ∀ ip, op.clientIp = some ip → CsvClean ip

/-- A call is made with the id of a token. -/
def AdminEvent.ByBearer : AdminEvent → Prop
  | .call op _ => op.Bearer
  | .trace _ => True

/-- Everything that stands in a line but its time is clean. -/
structure AuditRow.CsvClean (row : AuditRow) : Prop where
  operatorId : IrlEngine.CsvClean row.operatorId
  action : IrlEngine.CsvClean row.action
  targetType : IrlEngine.CsvClean row.targetType
  targetId : IrlEngine.CsvClean (row.targetId.getD "")
  ipAddress : IrlEngine.CsvClean (row.ipAddress.getD "")

/-- The audit rows are clean, and token hashes are digests. -/
structure AuditClean (s : AdminState) : Prop where
  log : ∀ row ∈ s.auditLog, row.CsvClean
  tokens : ∀ t ∈ s.tokens, ∃ message, t.tokenHash = sha256Hex message

section Audit

variable {V : VaultSetup} {s s' : AdminState} {op : Operator} {call : AdminCall}

/-- The end of a handler adds a clean row or none. -/
theorem AuditClean.respond (h : AuditClean s) (hop : op.Bearer) (action : AuditAction)
    {targetId : Option String} (htarget : ∀ id, targetId = some id → IrlEngine.CsvClean id)
    (details response : Json) : AuditClean (respond s op action targetId details response).1 := by
  unfold IrlEngine.respond insertAuditLog
  cases haudit : op.audit with
  | some reason => exact h
  | none =>
    refine ⟨fun row hrow => ?_, h.tokens⟩
    rcases List.mem_append.1 hrow with hrow | hrow
    · exact h.log row hrow
    · rw [List.mem_singleton.1 hrow]
      obtain ⟨token, htoken⟩ := hop.operatorId
      refine ⟨?_, csvClean_asStr action, csvClean_targetType action, ?_, ?_⟩
      · show IrlEngine.CsvClean op.operatorId
        rw [htoken]
        exact csvClean_tokenIdOf _
      · cases targetId with
        | none => exact csvClean_empty
        | some id => exact htarget id rfl
      · show IrlEngine.CsvClean (op.clientIp.getD "")
        cases hip : op.clientIp with
        | none => exact csvClean_empty
        | some ip => exact hop.clientIp ip hip

/-- Other tables do not matter. -/
theorem AuditClean.congr (h : AuditClean s) (hlog : s'.auditLog = s.auditLog)
    (htokens : s'.tokens = s.tokens) : AuditClean s' :=
  ⟨hlog ▸ h.log, htokens ▸ h.tokens⟩

theorem auditClean_registerAgent (h : AuditClean s) (hop : op.Bearer) (req : RegisterAgentRequest)
    (agentId : Uuid) (now : ℤ) (insert : Option String) :
    AuditClean (registerAgent s op req agentId now insert).1 := by
  unfold registerAgent
  split
  · cases insert with
    | some reason => exact h
    | none =>
      simp only
      split
      · exact h
      · have hregistered : AuditClean { s with agents := s.agents ++ [req.row agentId now] } :=
          h.congr rfl rfl
        refine hregistered.respond hop _ (fun id hid => ?_) _ _
        exact Option.some.inj hid ▸ csvClean_toText agentId
  · exact h

theorem auditClean_updateAgentStatus (h : AuditClean s) (hop : op.Bearer) (agentId : Uuid)
    (status : String) (now : ℤ) (update : Option String) :
    AuditClean (updateAgentStatus s op agentId status now update).1 := by
  unfold updateAgentStatus
  split
  · cases update with
    | some reason => exact h
    | none =>
      simp only
      split
      · exact h
      · rename_i agents oldStatus _
        have hupdated : AuditClean { s with agents := agents } := h.congr rfl rfl
        refine hupdated.respond hop _ (fun id hid => ?_) _ _
        exact Option.some.inj hid ▸ csvClean_toText agentId
  · exact h

/-- The caches do not matter either. -/
theorem AuditClean.refreshCache (h : AuditClean s) (refresh : Option String) :
    AuditClean (refreshCache s refresh).1 := by
  cases refresh with
  | some reason => exact h
  | none => exact h.congr rfl rfl

theorem auditClean_tokenIssue (h : AuditClean s) (hop : op.Bearer) (clientName : String)
    (rawBytes : List UInt8) (insert refresh : Option String) :
    AuditClean (tokenIssue s op clientName rawBytes insert refresh).1 := by
  unfold tokenIssue
  split
  · exact h
  · cases insert with
    | some reason => exact h
    | none =>
      simp only
      split
      · exact h
      · have hissued : AuditClean { s with tokens :=
            s.tokens ++ [⟨tokenHashOf rawBytes, clientName, "api", .active, .client⟩] } := by
          refine ⟨h.log, fun t ht => ?_⟩
          rcases List.mem_append.1 ht with ht | ht
          · exact h.tokens t ht
          · rw [List.mem_singleton.1 ht]
            exact ⟨_, rfl⟩
        cases refresh with
        | some reason => exact hissued
        | none =>
          refine (hissued.refreshCache none).respond hop _ (fun id hid => ?_) _ _
          exact Option.some.inj hid ▸ csvClean_tokenIdOf _

theorem auditClean_tokenRevoke (h : AuditClean s) (hop : op.Bearer) (tokenId : String) (pick : ℕ)
    (select update refresh : Option String) :
    AuditClean (tokenRevoke s op tokenId pick select update refresh).1 := by
  unfold tokenRevoke
  split
  · exact h
  · cases select with
    | some reason => exact h
    | none =>
      simp only
      split
      · exact h
      · rename_i token hfound
        cases update with
        | some reason => exact h
        | none =>
          have hrevoked : AuditClean { s with
              tokens := Table.updateWhere (fun t => t.tokenHash = token.tokenHash)
                (fun t => { t with status := .revoked }) s.tokens } := by
            refine ⟨h.log, fun t ht => ?_⟩
            obtain ⟨t', ht', rfl⟩ := List.mem_map.1 ht
            split
            · exact h.tokens t' ht'
            · exact h.tokens t' ht'
          cases refresh with
          | some reason => exact hrevoked
          | none =>
            refine (hrevoked.refreshCache none).respond hop _ (fun id hid => ?_) _ _
            -- the id is the prefix of the hash that was found under it
            obtain ⟨hmem, hactive⟩ := List.mem_filter.1 (List.mem_of_getElem? hfound)
            rw [Bool.and_eq_true, decide_eq_true_eq] at hactive
            obtain ⟨message, hhash⟩ := h.tokens token hmem
            rw [← Option.some.inj hid, ← hactive.1, hhash]
            exact csvClean_tokenIdOf message

theorem auditClean_shadowModeSet (h : AuditClean s) (hop : op.Bearer) (enabled : Bool)
    (reason : Option String) (now : ℤ) (update : Option String) :
    AuditClean (shadowModeSet s op enabled reason now update).1 := by
  cases update with
  | some reason => exact h
  | none =>
    have hswitched : AuditClean { s with
        shadowRow := s.shadowRow.map fun _ => .written enabled now op.operatorId
        shadowMode := enabled } := h.congr rfl rfl
    refine hswitched.respond hop _ (fun id hid => ?_) _ _
    cases hid

theorem auditClean_gdprEraseHandler (h : AuditClean s) (hop : op.Bearer) (agentId requestId : Uuid)
    (keyProvider : Bool) (env : EraseEnv) :
    AuditClean (gdprEraseHandler V s op agentId requestId keyProvider env).1 := by
  unfold gdprEraseHandler
  split
  · obtain ⟨traces, answer⟩ := gdprEraseAgent V env agentId requestId s.sys.traces
    have herased : AuditClean { s with sys := { s.sys with traces := traces } } := h.congr rfl rfl
    cases answer with
    | error e => exact herased
    | ok n =>
      refine herased.respond hop _ (fun id hid => ?_) _ _
      exact Option.some.inj hid ▸ csvClean_toText agentId
  · exact h

theorem auditClean_handle (h : AuditClean s) (hop : op.Bearer) (call : AdminCall) :
    AuditClean (call.handle V s op).1 := by
  cases call with
  | registerAgent req agentId now insert =>
    exact auditClean_registerAgent h hop req agentId now insert
  | updateAgentStatus agentId status now update =>
    exact auditClean_updateAgentStatus h hop agentId status now update
  | tokenIssue clientName rawBytes insert refresh =>
    exact auditClean_tokenIssue h hop clientName rawBytes insert refresh
  | tokenRevoke tokenId pick select update refresh =>
    exact auditClean_tokenRevoke h hop tokenId pick select update refresh
  | shadowModeSet enabled reason now update =>
    exact auditClean_shadowModeSet h hop enabled reason now update
  | gdprEraseHandler agentId requestId keyProvider env =>
    exact auditClean_gdprEraseHandler h hop agentId requestId keyProvider env

theorem auditClean_step (h : AuditClean s) {e : AdminEvent} (he : e.ByBearer)
    (hstep : adminStep V s e = some s') : AuditClean s' := by
  cases e with
  | call op call =>
    simp only [adminStep] at hstep
    split_ifs at hstep
    rw [← Option.some.inj hstep]
    exact auditClean_handle h he call
  | trace e =>
    simp only [adminStep] at hstep
    split_ifs at hstep
    obtain ⟨sys, -, rfl⟩ := Option.map_eq_some_iff.1 hstep
    exact h.congr rfl rfl

end Audit

/-- **The audit log reads back.**  Whatever operators do, and whatever names, reasons and statuses
they send, the rows that `audit_log.csv` holds for a period are read off it field by field. -/
theorem audit_csv_reads_back (V : VaultSetup) {es : List AdminEvent} (hes : ∀ e ∈ es, e.ByBearer)
    {s : AdminState} (hrun : Run.run (adminStep V) .init es = some s) {log : List StoredAuditRow}
    (hlog : log.map StoredAuditRow.toAuditRow = s.auditLog) {timestampText : ℤ → String}
    (htime : ∀ t, CsvClean (timestampText t)) (args : EvidenceArgs) :
    readCsv (exportAuditLog timestampText args log)
      = auditHeader :: (auditLogRows args log).map fun r => r.csvFields timestampText := by
  have hinit : AuditClean .init := by
    constructor <;> simp [AdminState.init]
  have hclean : AuditClean s :=
    Run.run_invariant_along (fun _ _ _ hi he hstep => auditClean_step hi he hstep) hrun
      (Run.along_of_forall hes _) hinit
  rw [exportAuditLog_eq, readCsv_csvText_iff]
  · intro fields hfields field hfield
    rcases List.mem_cons.1 hfields with rfl | hfields
    · revert field
      decide
    · obtain ⟨r, hr, rfl⟩ := List.mem_map.1 hfields
      have hrow : r.toAuditRow.CsvClean := by
        refine hclean.log _ (hlog ▸ List.mem_map_of_mem ?_)
        exact (List.mem_filter.1 (List.mem_mergeSort.1 hr)).1
      simp only [StoredAuditRow.csvFields, List.mem_cons, List.not_mem_nil, or_false] at hfield
      rcases hfield with rfl | rfl | rfl | rfl | rfl | rfl
      · exact htime _
      · exact hrow.operatorId
      · exact hrow.action
      · exact hrow.targetType
      · exact hrow.targetId
      · exact hrow.ipAddress
  · intro fields hfields
    rcases List.mem_cons.1 hfields with rfl | hfields
    · simp [auditHeader]
    · obtain ⟨r, -, rfl⟩ := List.mem_map.1 hfields
      simp [StoredAuditRow.csvFields]

/-! One row of an operator who gives a reason with commas. -/

/-- An operator with the id of a token. -/
def Operator.bearer : Operator :=
  ⟨tokenIdOf (sha256Hex (Text.utf8 "irl-owner")), some "10.0.0.1/32", none⟩

/-- The row that the switch of the shadow mode leaves. -/
def shadowAuditRow : StoredAuditRow where
  operatorId := Operator.bearer.operatorId
  action := "SHADOW_MODE_CHANGE"
  targetType := "SHADOW_MODE"
  targetId := none
  detailsJson := some (Json.normalize (.obj [("old_value", .bool false), ("new_value", .bool true),
    ("reason", .str "audit, then\nenforce")]))
  ipAddress := some "10.0.0.1/32"
  id := .fill 7
  createdAt := 5

/-- A switch whose reason has a comma and a line break. -/
def shadowCall : AdminCall := .shadowModeSet true (some "audit, then\nenforce") 0 none

/-- The cast of a timestamp at the epoch. -/
def epochText (_ : ℤ) : String := "1970-01-01 00:00:00+00"

theorem audit_csv_reads_back_sample :
    readCsv (exportAuditLog epochText (.ofDates "" "" (0, 0)) [shadowAuditRow])
      = [auditHeader, ["1970-01-01 00:00:00+00", Operator.bearer.operatorId, "SHADOW_MODE_CHANGE",
          "SHADOW_MODE", "", "10.0.0.1/32"]] := by
  have hbearer : Operator.bearer.Bearer := by
    refine ⟨⟨_, rfl⟩, fun ip hip => ?_⟩
    obtain rfl := Option.some.inj hip
    decide
  have hes : ∀ e ∈ [AdminEvent.call .bearer shadowCall], e.ByBearer := by
    intro e he
    rw [List.mem_singleton.1 he]
    exact hbearer
  have hrun : Run.run (adminStep (.sealing [])) .init [.call .bearer shadowCall]
      = some (shadowCall.handle (.sealing []) .init .bearer).1 :=
    Run.run_cons (adminStep_call (.sealing []) .bearer rfl) []
  have hlog : [shadowAuditRow].map StoredAuditRow.toAuditRow
      = (shadowCall.handle (.sealing []) .init .bearer).1.auditLog := rfl
  have htime : ∀ t, CsvClean (epochText t) := fun _ => by
    unfold epochText
    decide
  have hrows : auditLogRows (.ofDates "" "" (0, 0)) [shadowAuditRow] = [shadowAuditRow] := by
    rw [auditLogRows, List.filter_eq_self.2 (by decide), Paging.byKey, List.mergeSort_singleton]
  have hread := audit_csv_reads_back (.sealing []) hes hrun hlog htime (.ofDates "" "" (0, 0))
  rw [hrows] at hread
  exact hread

/-! ## The policy decisions -/

/-- What `export_policy_decisions` groups by. -/
def TraceRow.decision (r : TraceRow) : String × PolicyResult := (r.mtaVersion, r.policyResult)

/-- The traces between the two instants. -/
def decidedIn (args : EvidenceArgs) (traces : List TraceRow) : List TraceRow :=
  traces.filter fun r => args.selects (r.txnTime.millis.toInt * 1000)

/-- The answer of the query, where `le` is the order of the database on the groups. -/
def policyDecisionRows (le : String × PolicyResult → String × PolicyResult → Bool)
    (args : EvidenceArgs) (traces : List TraceRow) : List ((String × PolicyResult) × ℕ) :=
  (((decidedIn args traces).map TraceRow.decision).dedup.mergeSort le).map fun group =>
    (group, policyDecisions args group.1 group.2 traces)

/-- The header of `policy_decisions.csv`. -/
def decisionsHeader : List String := ["mta_version", "policy_result", "count"]

/-- The columns of `policy_decisions.csv`. -/
def decisionFields (row : (String × PolicyResult) × ℕ) : List String :=
  [row.1.1, row.1.2.display, toString row.2]

/-- `export_policy_decisions`, over the order of the database. -/
def exportPolicyDecisions (le : String × PolicyResult → String × PolicyResult → Bool)
    (args : EvidenceArgs) (traces : List TraceRow) : String :=
  "mta_version,policy_result,count\n" ++
    String.join ((policyDecisionRows le args traces).map fun row =>
      row.1.1 ++ "," ++ row.1.2.display ++ "," ++ toString row.2 ++ "\n")

section Decisions

variable {le : String × PolicyResult → String × PolicyResult → Bool} {args : EvidenceArgs}
  {traces : List TraceRow}

theorem csvLine_decisionsHeader :
    csvLine decisionsHeader = "mta_version,policy_result,count\n" := by
  decide

theorem exportPolicyDecisions_eq : exportPolicyDecisions le args traces =
    csvText (decisionsHeader :: (policyDecisionRows le args traces).map decisionFields) := by
  have hline : ∀ row, csvLine (decisionFields row)
      = row.1.1 ++ "," ++ row.1.2.display ++ "," ++ toString row.2 ++ "\n" := by
    intro row
    rw [decisionFields, csvLine_cons _ (by simp), csvLine_cons _ (by simp), csvLine,
      String.intercalate_singleton]
    simp only [String.append_assoc]
  have htext : csvText (decisionsHeader :: (policyDecisionRows le args traces).map decisionFields)
      = csvLine decisionsHeader ++
        String.join (((policyDecisionRows le args traces).map decisionFields).map csvLine) :=
    String.join_cons
  have hlines : ((policyDecisionRows le args traces).map decisionFields).map csvLine
      = (policyDecisionRows le args traces).map fun row =>
          row.1.1 ++ "," ++ row.1.2.display ++ "," ++ toString row.2 ++ "\n" := by
    rw [List.map_map]
    exact List.map_congr_left fun row _ => hline row
  rw [htext, csvLine_decisionsHeader, hlines]
  exact Eq.refl (exportPolicyDecisions le args traces)

theorem policyDecisions_eq_count (args : EvidenceArgs) (group : String × PolicyResult)
    (traces : List TraceRow) : policyDecisions args group.1 group.2 traces
      = ((decidedIn args traces).map TraceRow.decision).count group := by
  rw [List.count_eq_countP, List.countP_map, decidedIn, List.countP_filter, policyDecisions]
  refine List.countP_congr fun r _ => ?_
  simp only [Function.comp_apply, Bool.and_eq_true, decide_eq_true_iff, beq_iff_eq,
    TraceRow.decision, Prod.ext_iff]
  exact and_comm

/-- Each trace is counted once. -/
theorem sum_policyDecisionRows :
    ((policyDecisionRows le args traces).map Prod.snd).sum = (decidedIn args traces).length := by
  have hcount : (policyDecisionRows le args traces).map Prod.snd
      = ((((decidedIn args traces).map TraceRow.decision).dedup.mergeSort le).map fun group =>
          ((decidedIn args traces).map TraceRow.decision).count group) := by
    rw [policyDecisionRows, List.map_map]
    exact List.map_congr_left fun group _ => policyDecisions_eq_count args group traces
  have htotal := List.sum_map_count_dedup_eq_length ((decidedIn args traces).map TraceRow.decision)
  rw [List.length_map] at htotal
  rw [hcount, ((List.mergeSort_perm _ le).map _).sum_eq]
  convert htotal
  rfl

theorem mem_policyDecisionRows {group : String × PolicyResult} :
    group ∈ (policyDecisionRows le args traces).map Prod.fst ↔
      ∃ r ∈ decidedIn args traces, r.decision = group := by
  rw [policyDecisionRows, List.map_map, Function.comp_def, List.map_id', List.mem_mergeSort,
    List.mem_dedup, List.mem_map]

theorem csvClean_display (result : PolicyResult) : CsvClean result.display := by
  cases result <;> decide

/-- The versions are all that need not be clean. -/
theorem csvClean_decisionFields {row : (String × PolicyResult) × ℕ} :
    (∀ field ∈ decisionFields row, CsvClean field) ↔ CsvClean row.1.1 := by
  rw [decisionFields, List.forall_mem_cons, List.forall_mem_cons, List.forall_mem_singleton]
  exact ⟨And.left, fun h => ⟨h, csvClean_display _, csvClean_toString _⟩⟩

end Decisions

/-- **The decisions add up.**  The counts of the file sum up to the number of traces of the period,
and it reads back exactly if no version of the MTA in it has a comma or a line feed. -/
theorem policy_decisions_account (le : String × PolicyResult → String × PolicyResult → Bool)
    (args : EvidenceArgs) (traces : List TraceRow) :
    ((policyDecisionRows le args traces).map Prod.snd).sum = (decidedIn args traces).length ∧
    (readCsv (exportPolicyDecisions le args traces)
        = decisionsHeader :: (policyDecisionRows le args traces).map decisionFields ↔
      ∀ r ∈ decidedIn args traces, CsvClean r.mtaVersion) := by
  refine ⟨sum_policyDecisionRows, ?_⟩
  have hheader : ∀ field ∈ decisionsHeader, CsvClean field := by decide
  have hne : ∀ fields ∈ decisionsHeader :: (policyDecisionRows le args traces).map decisionFields,
      fields ≠ [] := by
    intro fields hfields
    rcases List.mem_cons.1 hfields with rfl | hfields
    · simp [decisionsHeader]
    · obtain ⟨row, -, rfl⟩ := List.mem_map.1 hfields
      simp [decisionFields]
  rw [exportPolicyDecisions_eq, readCsv_csvText_iff hne, List.forall_mem_cons, List.forall_mem_map]
  simp only [csvClean_decisionFields]
  constructor
  · rintro ⟨-, h⟩ r hr
    have hlisted : r.decision ∈ (policyDecisionRows le args traces).map Prod.fst :=
      mem_policyDecisionRows.2 ⟨r, hr, rfl⟩
    obtain ⟨row, hrow, hgroup⟩ := List.mem_map.1 hlisted
    have hversion := h row hrow
    rwa [hgroup] at hversion
  · refine fun h => ⟨hheader, fun row hrow => ?_⟩
    obtain ⟨r, hr, hgroup⟩ := mem_policyDecisionRows.1 (List.mem_map_of_mem hrow)
    rw [← hgroup]
    exact h r hr

end IrlEngine
