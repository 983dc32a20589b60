import IrlEngine.Admin

/-!
# Which operator actions are audited

A call that fails between its first change and its insert into the audit log leaves a change
without an audit row, and one that completes without a change an audit row without one.

* `CallSpec` — what a call writes, and when it leaves an audit row;
* `auditedIff_iff` — when the two come together;
* **Which calls are audited** — `admin_audited_iff`, with the request ids on traces along runs.
-/

namespace IrlEngine

/-! ## Erasures that change nothing -/

/-- Some trace carries the id of the request. -/
def Marked (requestId : Uuid) (t : List TraceRow) : Prop :=
  ∃ r ∈ t, r.gdprRequestId = some requestId

section Marked

variable {V : VaultSetup} {erasedAt : DateTime} {requestId agentId : Uuid} {row : ℕ → RowEnv}
  {unified : Bool} {t : List TraceRow}

theorem marked_gdprUpdate {q : ErasureRow} {stored : StoredJson}
    (h : Marked requestId t ∨ q.primaryKey ∈ t.map TraceRow.primaryKey) :
    Marked requestId (gdprUpdate q.traceId q.txnTime stored erasedAt requestId t) := by
  rcases h with ⟨r, hr, hid⟩ | hmem
  · refine ⟨_, List.mem_map_of_mem hr, ?_⟩
    split_ifs
    · rfl
    · exact hid
  · obtain ⟨r, hr, hkey⟩ := List.mem_map.1 hmem
    refine ⟨_, List.mem_map_of_mem hr, ?_⟩
    rw [if_pos (decide_eq_true (Prod.mk.inj hkey))]

theorem gdprUpdate_eq_self {q : ErasureRow} {stored : StoredJson}
    (h : q.primaryKey ∉ t.map TraceRow.primaryKey) :
    gdprUpdate q.traceId q.txnTime stored erasedAt requestId t = t := by
  by_contra hne
  obtain ⟨r, hr, hp, -⟩ := Table.updateWhere_ne_iff.1 hne
  obtain ⟨hid, htime⟩ := of_decide_eq_true hp
  exact h (List.mem_map.2 ⟨r, hr, Prod.ext hid htime⟩)

theorem marked_eraseRows (V : VaultSetup) (erasedAt : DateTime) (row : ℕ → RowEnv)
    (qs : List ErasureRow) (n : ℕ) (h : Marked requestId t) :
    Marked requestId (eraseRows V erasedAt requestId row qs n t).1 := by
  induction qs generalizing n t with
  | nil => exact h
  | cons q qs ih =>
    simp only [eraseRows]
    split
    · exact h
    · split
      · exact h
      · exact ih (n + 1) (marked_gdprUpdate (Or.inl h))

theorem eraseRows_cons_of_passes (erasedAt : DateTime) (requestId : Uuid) (t : List TraceRow)
    {q : ErasureRow} {n : ℕ} (qs : List ErasureRow) (h : (row n).passes V q = true) :
    ∃ stored, eraseRows V erasedAt requestId row (q :: qs) n t = eraseRows V erasedAt requestId row
      qs (n + 1) (gdprUpdate q.traceId q.txnTime stored erasedAt requestId t) := by
  simp only [RowEnv.passes, Bool.and_eq_true, Option.isNone_iff_eq_none] at h
  obtain ⟨hok, hupdate⟩ := h
  cases herase : eraseRow V (row n).draw q with
  | error e =>
    rw [herase] at hok
    cases hok
  | ok stored => exact ⟨stored, by simp only [eraseRows, herase, hupdate]⟩

theorem eraseRows_cons_of_not_passes (erasedAt : DateTime) (requestId : Uuid) (t : List TraceRow)
    {q : ErasureRow} {n : ℕ} (qs : List ErasureRow) (h : (row n).passes V q = false) :
    ∃ e, eraseRows V erasedAt requestId row (q :: qs) n t = (t, .error e) := by
  simp only [eraseRows]
  split
  · exact ⟨_, rfl⟩
  · rename_i hstored
    split
    · exact ⟨_, rfl⟩
    · rename_i hupdate
      rw [RowEnv.passes, hstored, hupdate] at h
      cases h

/-- The rows of one page go through if every row passes. -/
theorem eraseRows_answer (V : VaultSetup) (erasedAt : DateTime) (requestId : Uuid)
    (row : ℕ → RowEnv) (t : List TraceRow) (qs : List ErasureRow) (n : ℕ) :
    if passesAll V row qs n then (eraseRows V erasedAt requestId row qs n t).2 = .ok (n + qs.length)
    else ∃ e, (eraseRows V erasedAt requestId row qs n t).2 = .error e := by
  induction qs generalizing n t with
  | nil => rfl
  | cons q qs ih =>
    cases hpass : (row n).passes V q with
    | true =>
      obtain ⟨stored, hstep⟩ := eraseRows_cons_of_passes erasedAt requestId t qs hpass
      simp only [hstep, passesAll, hpass, Bool.true_and]
      rw [List.length_cons, Nat.add_comm qs.length 1, ← Nat.add_assoc]
      exact ih _ (n + 1)
    | false =>
      obtain ⟨e, he⟩ := eraseRows_cons_of_not_passes erasedAt requestId t qs hpass
      simp only [he, passesAll, hpass, Bool.false_and]
      exact ⟨e, rfl⟩

/-- The rows of one page: a row of the table is updated, or the table stays as it is. -/
theorem eraseRows_reaches (V : VaultSetup) (erasedAt : DateTime) (requestId : Uuid)
    (row : ℕ → RowEnv) (t : List TraceRow) (qs : List ErasureRow) (n : ℕ) :
    if reachesRow V row t qs n then Marked requestId (eraseRows V erasedAt requestId row qs n t).1
    else (eraseRows V erasedAt requestId row qs n t).1 = t := by
  induction qs generalizing n with
  | nil => rfl
  | cons q qs ih =>
    cases hpass : (row n).passes V q with
    | true =>
      obtain ⟨stored, hstep⟩ := eraseRows_cons_of_passes erasedAt requestId t qs hpass
      simp only [hstep, reachesRow, hpass, Bool.true_and]
      by_cases hmem : q.primaryKey ∈ t.map TraceRow.primaryKey
      · rw [decide_eq_true hmem, Bool.true_or]
        exact marked_eraseRows V erasedAt row qs (n + 1) (marked_gdprUpdate (Or.inr hmem))
      · rw [decide_eq_false hmem, Bool.false_or, gdprUpdate_eq_self hmem]
        exact ih (n + 1)
    | false =>
      obtain ⟨e, he⟩ := eraseRows_cons_of_not_passes erasedAt requestId t qs hpass
      simp only [he, reachesRow, hpass, Bool.false_and]
      trivial

/-- **One page of the loop**: a row of it fails, or it is the last one, or the loop goes on. -/
theorem eraseLoop_page (V : VaultSetup) (erasedAt : DateTime) (requestId : Uuid)
    (row : ℕ → RowEnv) (unified : Bool) (agentId : Uuid) (scan : Scan)
    (pages : List (Except String Scan)) (offset n : ℕ) (t : List TraceRow) {qs : List ErasureRow}
    (hqs : erasureQuery scan offset (agentRows agentId (sourceTable V.legacy unified t)) = qs) :
    (passesAll V row qs n = false ∧ ∃ e,
      eraseLoop V erasedAt requestId row unified agentId (.ok scan :: pages) offset n t
        = ((eraseRows V erasedAt requestId row qs n t).1, .error e)) ∨
    (passesAll V row qs n = true ∧ qs.length < 100 ∧
      eraseLoop V erasedAt requestId row unified agentId (.ok scan :: pages) offset n t
        = ((eraseRows V erasedAt requestId row qs n t).1, .ok (n + qs.length))) ∨
    (passesAll V row qs n = true ∧ ¬ qs.length < 100 ∧
      eraseLoop V erasedAt requestId row unified agentId (.ok scan :: pages) offset n t
        = eraseLoop V erasedAt requestId row unified agentId pages (offset + qs.length)
          (n + qs.length) (eraseRows V erasedAt requestId row qs n t).1) := by
  simp only [eraseLoop, hqs]
  cases qs with
  | nil => exact Or.inr (Or.inl ⟨rfl, by simp, rfl⟩)
  | cons q qs =>
    have hanswer := eraseRows_answer V erasedAt requestId row t (q :: qs) n
    generalize eraseRows V erasedAt requestId row (q :: qs) n t = result at hanswer
    obtain ⟨t₁, answer⟩ := result
    rw [List.isEmpty_cons, if_neg Bool.false_ne_true]
    cases hall : passesAll V row (q :: qs) n with
    | false =>
      rw [hall, if_neg Bool.false_ne_true] at hanswer
      obtain ⟨e, rfl⟩ := hanswer
      exact Or.inl ⟨rfl, e, rfl⟩
    | true =>
      rw [hall, if_pos rfl] at hanswer
      obtain rfl : answer = .ok (n + (q :: qs).length) := hanswer
      by_cases hshort : (q :: qs).length < 100
      · exact Or.inr (Or.inl ⟨rfl, hshort, if_pos hshort⟩)
      · exact Or.inr (Or.inr ⟨rfl, hshort, if_neg hshort⟩)

theorem marked_eraseLoop (pages : List (Except String Scan)) (offset n : ℕ)
    (h : Marked requestId t) :
    Marked requestId (eraseLoop V erasedAt requestId row unified agentId pages offset n t).1 := by
  induction pages generalizing offset n t with
  | nil => exact h
  | cons answer pages ih =>
    cases answer with
    | error reason => exact h
    | ok scan =>
      have hrows := fun qs => marked_eraseRows V erasedAt row qs n h
      rcases eraseLoop_page V erasedAt requestId row unified agentId scan pages offset n t rfl with
        ⟨-, e, heq⟩ | ⟨-, -, heq⟩ | ⟨-, -, heq⟩
      · rw [heq]
        exact hrows _
      · rw [heq]
        exact hrows _
      · rw [heq]
        exact ih _ _ (hrows _)

/-- The loop updates a row of the table, or leaves the table as it is. -/
theorem eraseLoop_reaches (V : VaultSetup) (erasedAt : DateTime) (requestId : Uuid)
    (row : ℕ → RowEnv) (unified : Bool) (agentId : Uuid) (t : List TraceRow)
    (pages : List (Except String Scan)) (offset n : ℕ) :
    (reachesTrace V row unified agentId t pages offset n = true →
      Marked requestId (eraseLoop V erasedAt requestId row unified agentId pages offset n t).1) ∧
    (reachesTrace V row unified agentId t pages offset n = false →
      (eraseLoop V erasedAt requestId row unified agentId pages offset n t).1 = t) := by
  induction pages generalizing offset n with
  | nil => exact ⟨fun h => (by cases h), fun _ => rfl⟩
  | cons answer pages ih =>
    cases answer with
    | error reason => exact ⟨fun h => (by cases h), fun _ => rfl⟩
    | ok scan =>
      simp only [reachesTrace]
      generalize hqs : erasureQuery scan offset
        (agentRows agentId (sourceTable V.legacy unified t)) = qs
      have hpage := eraseLoop_page V erasedAt requestId row unified agentId scan pages
        offset n t hqs
      have hreach := eraseRows_reaches V erasedAt requestId row t qs n
      cases hrow : reachesRow V row t qs n with
      | true =>
        rw [hrow, if_pos rfl] at hreach
        refine ⟨fun _ => ?_, fun h => by cases h⟩
        rcases hpage with ⟨-, e, heq⟩ | ⟨-, -, heq⟩ | ⟨-, -, heq⟩
        · rw [heq]
          exact hreach
        · rw [heq]
          exact hreach
        · rw [heq]
          exact marked_eraseLoop pages _ _ hreach
      | false =>
        rw [hrow, if_neg Bool.false_ne_true] at hreach
        rw [hreach] at hpage
        rw [Bool.false_or]
        rcases hpage with ⟨hall, e, heq⟩ | ⟨hall, hshort, heq⟩ | ⟨hall, hfull, heq⟩
        · rw [hall, heq]
          exact ⟨fun h => (by cases h), fun _ => rfl⟩
        · rw [hall, decide_eq_false (not_le.2 hshort), heq]
          exact ⟨fun h => (by cases h), fun _ => rfl⟩
        · rw [hall, decide_eq_true (not_lt.1 hfull), heq]
          exact ih _ _

/-- The loop ends with a count if every page is read and every row passes. -/
theorem eraseLoop_answer (V : VaultSetup) (erasedAt : DateTime) (requestId : Uuid)
    (row : ℕ → RowEnv) (unified : Bool) (agentId : Uuid) (t : List TraceRow)
    (pages : List (Except String Scan)) (offset n : ℕ) :
    (∃ k, (eraseLoop V erasedAt requestId row unified agentId pages offset n t).2 = .ok k) ↔
      passesPages V erasedAt requestId row unified agentId pages offset n t = true := by
  induction pages generalizing offset n t with
  | nil =>
    refine iff_of_false ?_ Bool.false_ne_true
    rintro ⟨k, hk⟩
    cases hk
  | cons answer pages ih =>
    cases answer with
    | error reason =>
      refine iff_of_false ?_ Bool.false_ne_true
      rintro ⟨k, hk⟩
      cases hk
    | ok scan =>
      simp only [passesPages]
      generalize hqs : erasureQuery scan offset
        (agentRows agentId (sourceTable V.legacy unified t)) = qs
      rcases eraseLoop_page V erasedAt requestId row unified agentId scan pages offset n t hqs with
        ⟨hall, e, heq⟩ | ⟨hall, hshort, heq⟩ | ⟨hall, hfull, heq⟩
      · rw [hall, heq]
        refine iff_of_false ?_ Bool.false_ne_true
        rintro ⟨k, hk⟩
        cases hk
      · rw [hall, decide_eq_true hshort, heq]
        exact iff_of_true ⟨_, rfl⟩ rfl
      · rw [hall, decide_eq_false hfull, heq]
        exact ih _ _ _

end Marked

/-- What a call leaves in the tables and in the audit log. -/
structure CallSpec (V : VaultSetup) (s : AdminState) (op : Operator) (call : AdminCall)
    (s' : AdminState) : Prop where
  changed : s'.data ≠ s.data ↔ call.Effect V s op
  audited : call.Completes V s op → op.audit = none →
    ∃ row, s'.auditLog = s.auditLog ++ [row] ∧ row.Matches op call
  silent : ¬ (call.Completes V s op ∧ op.audit = none) → s'.auditLog = s.auditLog
  traces : call.requestId = none → s'.sys.traces = s.sys.traces

section Spec

variable {V : VaultSetup} {s s' : AdminState} {op : Operator} {call : AdminCall}

/-- A call that fails and has changed nothing. -/
theorem CallSpec.refused (heffect : ¬ call.Effect V s op) (hcompletes : ¬ call.Completes V s op) :
    CallSpec V s op call s :=
  ⟨iff_of_false (fun h => h rfl) heffect, fun h => absurd h hcompletes, fun _ => rfl, fun _ => rfl⟩

/-- A call that fails before the audit row. -/
theorem CallSpec.failed (hchanged : s'.data ≠ s.data ↔ call.Effect V s op)
    (hcompletes : ¬ call.Completes V s op) (hlog : s'.auditLog = s.auditLog)
    (htraces : call.requestId = none → s'.sys.traces = s.sys.traces) : CallSpec V s op call s' :=
  ⟨hchanged, fun h => absurd h hcompletes, fun _ => hlog, htraces⟩

theorem data_respond (s : AdminState) (op : Operator) (action : AuditAction)
    (targetId : Option String)
    (details response : Json) :
    (respond s op action targetId details response).1.data = s.data := by
  unfold respond insertAuditLog
  cases op.audit <;> rfl

theorem sys_respond (s : AdminState) (op : Operator) (action : AuditAction)
    (targetId : Option String)
    (details response : Json) : (respond s op action targetId details response).1.sys = s.sys := by
  unfold respond insertAuditLog
  cases op.audit <;> rfl

/-- A call that comes to its end. -/
theorem CallSpec.responded {details response : Json}
    (hchanged : s'.data ≠ s.data ↔ call.Effect V s op) (hcompletes : call.Completes V s op)
    (hlog : s'.auditLog = s.auditLog)
    (htraces : call.requestId = none → s'.sys.traces = s.sys.traces)
    (hdetails : ∀ id, call.requestId = some id →
      details.get? "gdpr_request_id" = some (.str id.toText)) :
    CallSpec V s op call (respond s' op call.action call.targetId details response).1 := by
  refine ⟨?_, fun _ haudit => ?_, fun h => ?_, fun h => ?_⟩
  · rw [data_respond]
    exact hchanged
  · simp only [respond, insertAuditLog, haudit, hlog]
    exact ⟨_, rfl, rfl, rfl, rfl, rfl, rfl, hdetails⟩
  · obtain ⟨reason, haudit⟩ := Option.ne_none_iff_exists'.1 fun hnone => h ⟨hcompletes, hnone⟩
    simp only [respond, insertAuditLog, haudit, hlog]
  · rw [sys_respond]
    exact htraces h

theorem callSpec_registerAgent (req : RegisterAgentRequest) (agentId : Uuid) (now : ℤ)
    (insert : Option String) : CallSpec V s op (.registerAgent req agentId now insert)
      (registerAgent s op req agentId now insert).1 := by
  unfold registerAgent
  split
  · rename_i hvalid
    cases insert with
    | some reason => exact .refused (fun h => by cases h.2.1) fun h => by cases h.2.1
    | none =>
      simp only
      split
      · rename_i hmem
        exact .refused (fun h => h.2.2 hmem) fun h => h.2.2 hmem
      · rename_i hfresh
        refine .responded (iff_of_true (fun h => ?_) ⟨hvalid, rfl, hfresh⟩)
          ⟨hvalid, rfl, hfresh⟩ rfl
          (fun _ => rfl) fun id h => by cases h
        have hagents := congrArg (fun d => d.agents.length) h
        simp [AdminState.data] at hagents
  · rename_i hinvalid
    exact .refused (fun h => hinvalid h.1) fun h => hinvalid h.1

theorem callSpec_updateAgentStatus (agentId : Uuid) (status : String) (now : ℤ)
    (update : Option String) : CallSpec V s op (.updateAgentStatus agentId status now update)
      (updateAgentStatus s op agentId status now update).1 := by
  unfold updateAgentStatus
  split
  · rename_i hstatus
    cases update with
    | some reason => exact .refused (fun h => by cases h.2.1) fun h => by cases h.2.1
    | none =>
      unfold updateStatus
      cases hfind : s.agents.find? (fun r => r.profile.agentId = agentId) with
      | none =>
        have hnone : ∀ r ∈ s.agents, r.profile.agentId ≠ agentId := by
          simpa using List.find?_eq_none.1 hfind
        refine .refused ?_ ?_
        · rintro ⟨-, -, r, hr, hid, -⟩
          exact hnone r hr hid
        · rintro ⟨-, -, hmem⟩
          obtain ⟨r, hr, hid⟩ := List.mem_map.1 hmem
          exact hnone r hr hid
      | some found =>
        have hid : found.profile.agentId = agentId := by simpa using List.find?_some hfind
        have hmem : agentId ∈ s.agents.map fun r => r.profile.agentId :=
          List.mem_map.2 ⟨found, List.mem_of_find?_eq_some hfind, hid⟩
        refine .responded ?_ ⟨hstatus, rfl, hmem⟩ rfl (fun _ => rfl) fun id h => by cases h
        have hdata : ∀ agents : List AgentRow,
          AdminState.data { s with agents := agents } ≠ s.data ↔
            agents ≠ s.agents := by
          intro agents
          simp [AdminState.data]
        rw [hdata, Table.updateWhere_ne_iff]
        constructor
        · rintro ⟨r, hr, hp, hne⟩
          refine ⟨hstatus, rfl, r, hr, of_decide_eq_true hp, ?_⟩
          by_contra hsame
          rw [not_or, not_not, not_not] at hsame
          obtain ⟨rfl, rfl⟩ := hsame
          exact hne rfl
        · rintro ⟨-, -, r, hr, hrid, hdiff⟩
          refine ⟨r, hr, decide_eq_true hrid, fun heq => ?_⟩
          rcases hdiff with hdiff | hdiff
          · exact hdiff (congrArg (fun r : AgentRow => r.profile.status) heq).symm
          · exact hdiff (congrArg AgentRow.updatedAt heq).symm
  · rename_i hstatus
    exact .refused (fun h => hstatus h.1) fun h => hstatus h.1

theorem callSpec_tokenIssue (clientName : String) (rawBytes : List UInt8)
    (insert refresh : Option String) :
    CallSpec V s op (.tokenIssue clientName rawBytes insert refresh)
      (tokenIssue s op clientName rawBytes insert refresh).1 := by
  unfold tokenIssue
  split
  · rename_i hblank
    exact .refused (fun h => by simp [h.1] at hblank) fun h => by simp [h.1.1] at hblank
  · rename_i hname
    cases insert with
    | some reason => exact .refused (fun h => by cases h.2.1) fun h => by cases h.1.2.1
    | none =>
      simp only
      split
      · rename_i hmem
        exact .refused (fun h => h.2.2 hmem) fun h => h.1.2.2 hmem
      · rename_i hfresh
        have heffect : (AdminCall.tokenIssue clientName rawBytes none refresh).Effect V s op :=
          ⟨by simpa using hname, rfl, hfresh⟩
        have hchanged : ∀ s' : AdminState, s'.tokens = s.tokens ++
            [⟨tokenHashOf rawBytes, clientName, "api", .active, .client⟩] → s'.data ≠ s.data := by
          intro s' htokens h
          have hlength := congrArg (fun d => d.tokens.length) h
          simp [AdminState.data, htokens] at hlength
        cases refresh with
        | some reason =>
          exact .failed (iff_of_true (hchanged _ rfl) heffect) (fun h => by cases h.2)
            rfl fun _ => rfl
        | none =>
          exact .responded (iff_of_true (hchanged _ rfl) heffect) ⟨heffect, rfl⟩ rfl
            (fun _ => rfl) fun id h => by cases h

theorem callSpec_tokenRevoke (tokenId : String) (pick : ℕ) (select update refresh : Option String) :
    CallSpec V s op (.tokenRevoke tokenId pick select update refresh)
      (tokenRevoke s op tokenId pick select update refresh).1 := by
  unfold tokenRevoke
  split
  · rename_i hlength
    exact .refused (fun h => hlength h.1) fun h => hlength h.1.1
  · rename_i hlength
    rw [not_not] at hlength
    cases select with
    | some reason => exact .refused (fun h => by cases h.2.1) fun h => by cases h.1.2.1
    | none =>
      simp only
      split
      · rename_i hnone
        have hempty : activeTokens tokenId s.tokens = [] := by
          rw [List.getElem?_eq_none_iff] at hnone
          by_contra hne
          exact absurd (Nat.mod_lt pick (List.length_pos_iff.2 hne)) (not_lt.2 hnone)
        exact .refused (fun h => h.2.2.1 hempty) fun h => h.1.2.2.1 hempty
      · rename_i token htoken
        have hfound := List.mem_of_getElem? htoken
        have hactive : token ∈ s.tokens ∧ token.status = .active := by
          have h := List.mem_filter.1 hfound
          rw [Bool.and_eq_true, decide_eq_true_eq, decide_eq_true_eq] at h
          exact ⟨h.1, h.2.2⟩
        cases update with
        | some reason => exact .refused (fun h => by cases h.2.2.2) fun h => by cases h.1.2.2.2
        | none =>
          have heffect : (AdminCall.tokenRevoke tokenId pick none none refresh).Effect V s op :=
            ⟨hlength, rfl, List.ne_nil_of_mem hfound, rfl⟩
          have hchanged : ∀ s' : AdminState, s'.tokens = Table.updateWhere
              (fun t => t.tokenHash = token.tokenHash) (fun t => { t with status := .revoked })
                s.tokens → s'.data ≠ s.data := by
            intro s' htokens h
            have htable : s'.tokens = s.tokens := congrArg AdminData.tokens h
            refine absurd (htokens ▸ htable)
              (Table.updateWhere_ne_iff.2 ⟨token, hactive.1, by simp, ?_⟩)
            intro heq
            have hstatus := congrArg ApiToken.status heq
            rw [hactive.2] at hstatus
            cases hstatus
          cases refresh with
          | some reason =>
            exact .failed (iff_of_true (hchanged _ rfl) heffect) (fun h => by cases h.2)
              rfl fun _ => rfl
          | none =>
            exact .responded (iff_of_true (hchanged _ rfl) heffect) ⟨heffect, rfl⟩ rfl
              (fun _ => rfl) fun id h => by cases h

theorem callSpec_shadowModeSet (enabled : Bool) (reason : Option String) (now : ℤ)
    (update : Option String) : CallSpec V s op (.shadowModeSet enabled reason now update)
      (shadowModeSet s op enabled reason now update).1 := by
  unfold shadowModeSet
  cases update with
  | some reason => exact .refused (fun h => by cases h.1) fun h => by cases h
  | none =>
    refine .responded ?_ rfl rfl (fun _ => rfl) fun id h => by cases h
    have hdata : ∀ row : Option ShadowRow, AdminState.data { s with
        shadowRow := row, shadowMode := enabled } ≠ s.data ↔ row ≠ s.shadowRow := by
      intro row
      simp [AdminState.data]
    rw [hdata]
    cases hrow : s.shadowRow with
    | none =>
      refine iff_of_false (fun h => h rfl) ?_
      rintro ⟨-, r, hr, -⟩
      rw [hrow] at hr
      cases hr
    | some r =>
      constructor
      · intro hne
        exact ⟨rfl, r, hrow, fun heq => hne (congrArg some heq.symm)⟩
      · rintro ⟨-, r', hr', hne⟩ heq
        obtain rfl := Option.some.inj (hrow.symm.trans hr')
        exact hne (Option.some.inj heq).symm

/-- An erasure under a new id changes the table if it reaches one of its rows. -/
theorem changed_gdprEraseAgent (V : VaultSetup) (s : AdminState) (op : Operator)
    (agentId requestId : Uuid) (env : EraseEnv)
    (hnew : ∀ r ∈ s.sys.traces, r.gdprRequestId ≠ some requestId) :
    (gdprEraseAgent V env agentId requestId s.sys.traces).1 ≠ s.sys.traces ↔
      (AdminCall.gdprEraseHandler agentId requestId true env).Effect V s op := by
  cases hview : env.unifiedExists with
  | error reason =>
    simp only [gdprEraseAgent, hview]
    refine iff_of_false (fun h => h rfl) ?_
    rintro ⟨-, unified, hview', -⟩
    rw [hview] at hview'
    cases hview'
  | ok unified =>
    simp only [gdprEraseAgent, hview]
    obtain ⟨hreach, hstay⟩ := eraseLoop_reaches V env.erasedAt requestId env.row unified agentId
      s.sys.traces env.pages 0 0
    cases htrace : reachesTrace V env.row unified agentId s.sys.traces env.pages 0 0 with
    | true =>
      refine iff_of_true (fun h => ?_) ⟨rfl, unified, hview, htrace⟩
      obtain ⟨r, hr, hid⟩ := hreach htrace
      rw [h] at hr
      exact hnew r hr hid
    | false =>
      refine iff_of_false (fun h => h (hstay htrace)) ?_
      rintro ⟨-, unified', hview', htrace'⟩
      obtain rfl := Except.ok.inj (hview.symm.trans hview')
      rw [htrace] at htrace'
      cases htrace'

/-- It returns a count if every page and every row goes through. -/
theorem completes_gdprEraseAgent (V : VaultSetup) (s : AdminState) (op : Operator)
    (agentId requestId : Uuid) (env : EraseEnv) :
    (∃ n, (gdprEraseAgent V env agentId requestId s.sys.traces).2 = .ok n) ↔
      (AdminCall.gdprEraseHandler agentId requestId true env).Completes V s op := by
  cases hview : env.unifiedExists with
  | error reason =>
    simp only [gdprEraseAgent, hview]
    refine iff_of_false ?_ ?_
    · rintro ⟨n, hn⟩
      cases hn
    · rintro ⟨-, unified, hview', -⟩
      rw [hview] at hview'
      cases hview'
  | ok unified =>
    simp only [gdprEraseAgent, hview]
    rw [eraseLoop_answer]
    refine ⟨fun h => ⟨rfl, unified, hview, h⟩, ?_⟩
    rintro ⟨-, unified', hview', h⟩
    obtain rfl := Except.ok.inj (hview.symm.trans hview')
    exact h

theorem callSpec_gdprEraseHandler (agentId requestId : Uuid) (keyProvider : Bool) (env : EraseEnv)
    (hfresh : (AdminCall.gdprEraseHandler agentId requestId keyProvider env).isFresh s = true) :
    CallSpec V s op (.gdprEraseHandler agentId requestId keyProvider env)
      (gdprEraseHandler V s op agentId requestId keyProvider env).1 := by
  unfold gdprEraseHandler
  cases keyProvider with
  | false => exact .refused (fun h => by cases h.1) fun h => by cases h.1
  | true =>
    have hnew : ∀ r ∈ s.sys.traces, r.gdprRequestId ≠ some requestId := by
      simpa [AdminCall.isFresh, AdminCall.requestId] using hfresh
    have hdata : ∀ t : List TraceRow, AdminState.data { s with sys := { s.sys with traces := t } }
        ≠ s.data ↔ t ≠ s.sys.traces := by
      intro t
      simp [AdminState.data]
    have hchanged := changed_gdprEraseAgent V s op agentId requestId env hnew
    have hcompletes := completes_gdprEraseAgent V s op agentId requestId env
    rw [if_pos rfl]
    generalize gdprEraseAgent V env agentId requestId s.sys.traces = result at hchanged hcompletes
    obtain ⟨traces, answer⟩ := result
    cases answer with
    | error e =>
      refine .failed ((hdata traces).trans hchanged) ?_ rfl fun h => by cases h
      intro h
      obtain ⟨n, hn⟩ := hcompletes.2 h
      cases hn
    | ok n =>
      refine .responded ((hdata traces).trans hchanged) (hcompletes.1 ⟨n, rfl⟩) rfl
        (fun h => by cases h) fun id hid => ?_
      obtain rfl := Option.some.inj hid
      have hkeys : (([("gdpr_request_id", .str requestId.toText),
          ("traces_erased", jsonU64 (UInt64.ofNat n))] : List (String × Json)).map
          Prod.fst).Nodup := by
        simp
      exact Json.get?_normalize hkeys List.mem_cons_self

/-- **What every call leaves behind.** -/
theorem callSpec_handle (V : VaultSetup) (op : Operator) (hfresh : call.isFresh s = true) :
    CallSpec V s op call (call.handle V s op).1 := by
  cases call with
  | registerAgent req agentId now insert => exact callSpec_registerAgent req agentId now insert
  | updateAgentStatus agentId status now update =>
    exact callSpec_updateAgentStatus agentId status now update
  | tokenIssue clientName rawBytes insert refresh =>
    exact callSpec_tokenIssue clientName rawBytes insert refresh
  | tokenRevoke tokenId pick select update refresh =>
    exact callSpec_tokenRevoke tokenId pick select update refresh
  | shadowModeSet enabled reason now update =>
    exact callSpec_shadowModeSet enabled reason now update
  | gdprEraseHandler agentId requestId keyProvider env =>
    exact callSpec_gdprEraseHandler agentId requestId keyProvider env hfresh

end Spec

/-! ## Audited calls -/

/-- The database has changed if and only if the call has left a row in the audit log. -/
def AdminCall.AuditedIff (V : VaultSetup) (s : AdminState) (op : Operator)
    (call : AdminCall) : Prop :=
  (call.handle V s op).1.data ≠ s.data ↔
    ∃ row, (call.handle V s op).1.auditLog = s.auditLog ++ [row] ∧ row.Matches op call

/-- Once the call has changed a row, none of its steps fails, the insert into the audit log
included; and a call that completes has changed a row. -/
def AdminCall.Uninterrupted (V : VaultSetup) (s : AdminState) (op : Operator) (call : AdminCall) :
    Prop :=
  (call.Effect V s op → call.Completes V s op ∧ op.audit = none) ∧
    (call.Completes V s op ∧ op.audit = none → call.Effect V s op)

theorem auditedIff_iff {V : VaultSetup} {s : AdminState} {op : Operator} {call : AdminCall}
    (hfresh : call.isFresh s = true) : call.AuditedIff V s op ↔ call.Uninterrupted V s op := by
  have hspec := callSpec_handle V op hfresh
  have hrow : (∃ row, (call.handle V s op).1.auditLog = s.auditLog ++ [row] ∧ row.Matches op call) ↔
      call.Completes V s op ∧ op.audit = none := by
    constructor
    · rintro ⟨row, hlog, -⟩
      by_contra hnot
      rw [hspec.silent hnot] at hlog
      have hlength := congrArg List.length hlog
      simp at hlength
    · rintro ⟨hcompletes, haudit⟩
      exact hspec.audited hcompletes haudit
  unfold AdminCall.AuditedIff AdminCall.Uninterrupted
  rw [hrow, hspec.changed]
  exact ⟨fun h => ⟨h.1, h.2⟩, fun h => ⟨h.1, h.2⟩⟩

/-! ## Runs -/

/-- A call of a handler, or an event in the life of a trace. -/
inductive AdminEvent where
  | call (op : Operator) (call : AdminCall)
  /-- An event in the life of a trace, other than the update of an erasure. -/
  | trace (e : Event)

/-- The update of an erasure, which belongs to its handler. -/
def Event.isErasure : Event → Bool
  | .gdprUpdate .. => true
  | _ => false

/-- The database after all migrations, and a process that has read it. -/
def AdminState.init : AdminState where
  agents := []
  tokens := []
  shadowRow := some ⟨some false, 0, "system"⟩
  sys := .init
  auditLog := []
  tokenCache := []
  shadowMode := false

/-- The step of an event. -/
def adminStep (V : VaultSetup) (s : AdminState) : AdminEvent → Option AdminState
  | .call op call => if call.isFresh s then some (call.handle V s op).1 else none
  | .trace e => if e.isErasure then none else (step V.D s.sys e).map fun sys =>
    { s with sys := sys }

theorem adminStep_trace {V : VaultSetup} {s : AdminState} {e : Event} {sys : System}
    (he : e.isErasure = false) (h : step V.D s.sys e = some sys) :
    adminStep V s (.trace e) = some { s with sys := sys } := by
  rw [adminStep, he, h]
  rfl

theorem adminStep_call {s : AdminState} {call : AdminCall} (V : VaultSetup) (op : Operator)
    (hfresh : call.isFresh s = true) :
    adminStep V s (.call op call) = some (call.handle V s op).1 := by
  rw [adminStep, if_pos hfresh]

/-- Every request id on a trace stands in the audit log. -/
def GdprAudited (s : AdminState) : Prop :=
  ∀ r ∈ s.sys.traces, ∀ id, r.gdprRequestId = some id →
    ∃ row ∈ s.auditLog, row.action = AuditAction.gdprErasure.asStr ∧
      row.gdprRequestId = some (.str id.toText)

section Runs

variable {V : VaultSetup} {s s' : AdminState} {op : Operator} {call : AdminCall}

/-- What a row says of an erasure. -/
def TraceRow.erasure (r : TraceRow) : Uuid × Option DateTime × Option Uuid :=
  (r.traceId, r.gdprErasedAt, r.gdprRequestId)

/-- An event in the life of a trace leaves what the rows say of erasures, and a new row says that
there was none. -/
theorem erasures_of_step {D : Deployment} {sys sys' : System} {e : Event}
    (he : e.isErasure = false) (h : step D sys e = some sys') :
    ∃ new, sys'.traces.map TraceRow.erasure = sys.traces.map TraceRow.erasure ++ new ∧
      ∀ erasure ∈ new, erasure.2 = (none, none) := by
  cases hinsert : e.isInsert with
  | true =>
    rcases insertStep_of_step hinsert h with rfl | ⟨a, r, -, hins⟩
    · exact ⟨[], (List.append_nil _).symm, by simp⟩
    · obtain ⟨stored, validTime, txnTime, -, -, -, hrow⟩ := traceRow_ok hins.row
      refine ⟨[r.erasure], by rw [hins.next, List.map_append]; rfl, fun erasure hmem => ?_⟩
      rw [List.mem_singleton.1 hmem, hrow]
      rfl
  | false =>
    suffices hsame : sys'.traces.map TraceRow.erasure = sys.traces.map TraceRow.erasure from
      ⟨[], by rw [hsame, List.append_nil], by simp⟩
    cases e with
    | insertTrace a => cases hinsert
    | insertTraceAtomic a check => cases hinsert
    | authorize call => cases hinsert
    | gdprUpdate traceId txnTime stored erasedAt requestId => cases he
    | bindRead req =>
      simp only [step] at h
      split at h <;> rw [← Option.some.inj h]
    | bindUpdate k now =>
      simp only [step] at h
      split at h
      · rw [← Option.some.inj h]
        refine Table.map_updateWhere ?_ sys.traces
        exact fun _ => rfl
      · exact absurd h (by simp)
    | bindLedger k =>
      simp only [step] at h
      split at h
      · rw [← Option.some.inj h]
      · exact absurd h (by simp)
    | expirePending nowMicros =>
      rw [← Option.some.inj h]
      refine Table.map_updateWhere ?_ sys.traces
      exact fun _ => rfl
    | encryptOneRow traceId stored =>
      rw [← Option.some.inj h]
      refine Table.map_updateWhere ?_ sys.traces
      exact fun _ => rfl

/-- In particular it puts no request id on a row. -/
theorem gdprRequestId_of_step {D : Deployment} {sys sys' : System} {e : Event}
    (he : e.isErasure = false) (h : step D sys e = some sys') {r' : TraceRow}
    (hr' : r' ∈ sys'.traces) :
    r'.gdprRequestId = none ∨ ∃ r ∈ sys.traces, r.gdprRequestId = r'.gdprRequestId := by
  obtain ⟨new, hmap, hnew⟩ := erasures_of_step he h
  have hmem : r'.erasure ∈ sys.traces.map TraceRow.erasure ++ new :=
    hmap ▸ List.mem_map_of_mem hr'
  rcases List.mem_append.1 hmem with hold | hadded
  · obtain ⟨r, hr, heq⟩ := List.mem_map.1 hold
    exact Or.inr ⟨r, hr, congrArg (fun erasure => erasure.2.2) heq⟩
  · exact Or.inl (congrArg Prod.snd (hnew _ hadded))

/-- An erasure puts its own request id on traces, and no other. -/
theorem gdprRequestId_eraseRows {erasedAt : DateTime} {requestId : Uuid} {row : ℕ → RowEnv}
    {t : List TraceRow} (qs : List ErasureRow) (n : ℕ) {r' : TraceRow}
    (hr' : r' ∈ (eraseRows V erasedAt requestId row qs n t).1) :
    r'.gdprRequestId = some requestId ∨ ∃ r ∈ t, r.gdprRequestId = r'.gdprRequestId := by
  induction qs generalizing n t with
  | nil => exact Or.inr ⟨r', hr', rfl⟩
  | cons q qs ih =>
    simp only [eraseRows] at hr'
    split at hr'
    · exact Or.inr ⟨r', hr', rfl⟩
    · split at hr'
      · exact Or.inr ⟨r', hr', rfl⟩
      · rcases ih (n + 1) hr' with hid | ⟨r₁, hr₁, hid⟩
        · exact Or.inl hid
        · obtain ⟨r, hr, rfl⟩ := List.mem_map.1 hr₁
          split_ifs at hid
          · exact Or.inl hid.symm
          · exact Or.inr ⟨r, hr, hid⟩

theorem gdprRequestId_eraseLoop {erasedAt : DateTime} {requestId agentId : Uuid} {row : ℕ → RowEnv}
    {unified : Bool} {t : List TraceRow} (pages : List (Except String Scan)) (offset n : ℕ)
    {r' : TraceRow}
    (hr' : r' ∈ (eraseLoop V erasedAt requestId row unified agentId pages offset n t).1) :
    r'.gdprRequestId = some requestId ∨ ∃ r ∈ t, r.gdprRequestId = r'.gdprRequestId := by
  induction pages generalizing offset n t with
  | nil => exact Or.inr ⟨r', hr', rfl⟩
  | cons answer pages ih =>
    cases answer with
    | error reason => exact Or.inr ⟨r', hr', rfl⟩
    | ok scan =>
      rcases eraseLoop_page V erasedAt requestId row unified agentId scan pages offset n t rfl with
        ⟨-, e, heq⟩ | ⟨-, -, heq⟩ | ⟨-, -, heq⟩
      · rw [heq] at hr'
        exact gdprRequestId_eraseRows _ n hr'
      · rw [heq] at hr'
        exact gdprRequestId_eraseRows _ n hr'
      · rw [heq] at hr'
        rcases ih _ _ hr' with hid | ⟨r₁, hr₁, hid⟩
        · exact Or.inl hid
        · rw [← hid]
          exact gdprRequestId_eraseRows _ n hr₁

theorem traces_gdprEraseHandler (V : VaultSetup) (s : AdminState) (op : Operator)
    (agentId requestId : Uuid) (env : EraseEnv) :
    (gdprEraseHandler V s op agentId requestId true env).1.sys.traces
      = (gdprEraseAgent V env agentId requestId s.sys.traces).1 := by
  unfold gdprEraseHandler
  generalize gdprEraseAgent V env agentId requestId s.sys.traces = result
  obtain ⟨traces, answer⟩ := result
  cases answer with
  | error e => rfl
  | ok n => exact congrArg System.traces (sys_respond ..)

/-- A call puts the id of its request on traces, and no other. -/
theorem gdprRequestId_handle (hfresh : call.isFresh s = true) {r' : TraceRow}
    (hr' : r' ∈ (call.handle V s op).1.sys.traces) :
    (∃ id, call.requestId = some id ∧ r'.gdprRequestId = some id) ∨
      ∃ r ∈ s.sys.traces, r.gdprRequestId = r'.gdprRequestId := by
  have hspec := callSpec_handle V op hfresh
  cases call with
  | gdprEraseHandler agentId requestId keyProvider env =>
    cases keyProvider with
    | false => exact Or.inr ⟨r', hr', rfl⟩
    | true =>
      rw [AdminCall.handle, traces_gdprEraseHandler, gdprEraseAgent] at hr'
      split at hr'
      · exact Or.inr ⟨r', hr', rfl⟩
      · exact (gdprRequestId_eraseLoop env.pages 0 0 hr').imp (fun h => ⟨requestId, rfl, h⟩) id
  | _ =>
    rw [hspec.traces rfl] at hr'
    exact Or.inr ⟨r', hr', rfl⟩

/-- The audit log is only appended to. -/
theorem auditLog_handle (hfresh : call.isFresh s = true) {row : AuditRow} (h : row ∈ s.auditLog) :
    row ∈ (call.handle V s op).1.auditLog := by
  have hspec := callSpec_handle V op hfresh
  by_cases hdone : call.Completes V s op ∧ op.audit = none
  · obtain ⟨row', hlog, -⟩ := hspec.audited hdone.1 hdone.2
    rw [hlog]
    exact List.mem_append_left _ h
  · rw [hspec.silent hdone]
    exact h

/-- A call that is audited if it changes something keeps every request id in the audit log. -/
theorem gdprAudited_handle (hfresh : call.isFresh s = true) (hcall : call.AuditedIff V s op)
    (h : GdprAudited s) : GdprAudited (call.handle V s op).1 := by
  intro r' hr' id hid
  have hkeep : (∃ r ∈ s.sys.traces, r.gdprRequestId = some id) →
    ∃ row ∈ (call.handle V s op).1.auditLog,
      row.action = AuditAction.gdprErasure.asStr ∧ row.gdprRequestId = some (.str id.toText) := by
    rintro ⟨r, hr, hrid⟩
    obtain ⟨row, hrow, hmatch⟩ := h r hr id hrid
    exact ⟨row, auditLog_handle hfresh hrow, hmatch⟩
  rcases gdprRequestId_handle hfresh hr' with ⟨id', hrequest, hid'⟩ | ⟨r, hr, hrid⟩
  · obtain rfl := Option.some.inj (hid.symm.trans hid')
    -- the id is new, so the call has changed a trace
    have hnew : ∀ r ∈ s.sys.traces, r.gdprRequestId ≠ some id := by
      simpa [AdminCall.isFresh, hrequest] using hfresh
    have hchanged : (call.handle V s op).1.data ≠ s.data := by
      intro hdata
      have htraces : (call.handle V s op).1.sys.traces = s.sys.traces :=
        congrArg AdminData.traces hdata
      exact hnew r' (htraces ▸ hr') hid
    obtain ⟨row, hlog, hmatch⟩ := hcall.1 hchanged
    refine ⟨row, by rw [hlog]; simp, ?_, hmatch.requestId id hrequest⟩
    cases call with
    | gdprEraseHandler agentId requestId keyProvider env => exact hmatch.action
    | _ => cases hrequest
  · exact hkeep ⟨r, hr, hrid.trans hid⟩

end Runs

/-- **Which calls are audited.**  A call has changed the database if and only if it has left its
row in the audit log, exactly when none of its steps fails once it has changed a row, and it has
changed one if it completes; and in every run all of whose calls are like that, every request id on
a trace stands in the audit log. -/
theorem admin_audited_iff (V : VaultSetup) :
    (∀ (s : AdminState) (op : Operator) (call : AdminCall), call.isFresh s = true →
      (call.AuditedIff V s op ↔ call.Uninterrupted V s op)) ∧
    ∀ (es : List AdminEvent) (s : AdminState), Run.run (adminStep V) .init es = some s →
      Run.Along (adminStep V) (fun s e => ∀ op call, e = .call op call → call.Uninterrupted V s op)
        .init es → GdprAudited s := by
  refine ⟨fun s op call hfresh => auditedIff_iff hfresh, fun es s hrun halong => ?_⟩
  refine Run.run_invariant_along (I := GdprAudited) ?_ hrun halong fun r hr => by
    simp [AdminState.init, System.init] at hr
  intro s e t hinv huninterrupted hstep
  cases e with
  | call op call =>
    simp only [adminStep] at hstep
    split_ifs at hstep with hfresh
    rw [← Option.some.inj hstep]
    exact gdprAudited_handle hfresh ((auditedIff_iff hfresh).2 (huninterrupted op call rfl)) hinv
  | trace e =>
    simp only [adminStep] at hstep
    split_ifs at hstep with herasure
    obtain ⟨sys, hsys, rfl⟩ := Option.map_eq_some_iff.1 hstep
    intro r' hr' id hid
    rcases gdprRequestId_of_step (by simpa using herasure) hsys hr' with hnone | ⟨r, hr, hrid⟩
    · rw [hnone] at hid
      cases hid
    · exact hinv r hr id (hrid.trans hid)

/-! ## An erasure with and without its audit row -/

section Samples

/-- The registry after one trace of the agent has been written. -/
noncomputable def AdminState.sample : AdminState :=
  { AdminState.init with sys := ⟨[buyRow .sealing (.fill 2) F64.one], [], []⟩ }

/-- An operator whose insert into the audit log may fail. -/
def Operator.sample (audit : Option String) : Operator := ⟨"operator", none, audit⟩

/-- The erasure of the sample agent. -/
def AdminCall.sample : AdminCall := .gdprEraseHandler (.fill 1) (.fill 9) true .sample

theorem adminStep_insertTrace :
    adminStep (.sealing []) .init (.trace (.insertTrace (sampleArgs .sealing
      (.fill 2) (.sample (.fill 1) (.custom "buy") F64.one) sampleDecision))) = some .sample := by
  exact adminStep_trace rfl (step_insertTrace .sealing (.fill 2))

theorem isFresh_sample : AdminCall.sample.isFresh .sample = true := rfl

theorem erasureQuery_sample : erasureQuery ⟨id, fun _ => .refl _⟩ 0 (agentRows (.fill 1)
    (sourceTable [] true [buyRow .sealing (.fill 2) F64.one]))
      = [(buyRow .sealing (.fill 2) F64.one).erasureRow] := by
  have hagent : (buyRow .sealing (.fill 2) F64.one).agentId = some (.fill 1) := rfl
  have hrows : agentRows (.fill 1) (sourceTable [] true [buyRow .sealing (.fill 2) F64.one])
      = [buyRow .sealing (.fill 2) F64.one] := by
    simp [agentRows, sourceTable, hagent]
  rw [hrows]
  simp only [erasureQuery, id_eq, List.mergeSort_singleton]
  rfl

theorem passes_sample : RowEnv.passes (.sealing []) ⟨.sample, none⟩
    (buyRow .sealing (.fill 2) F64.one).erasureRow = true := by
  unfold RowEnv.passes
  rfl

theorem effect_sample (op : Operator) : AdminCall.sample.Effect (.sealing []) .sample op := by
  refine ⟨rfl, true, rfl, ?_⟩
  have hmem : (buyRow .sealing (.fill 2) F64.one).erasureRow.primaryKey
      ∈ [buyRow .sealing (.fill 2) F64.one].map TraceRow.primaryKey := List.mem_singleton_self _
  have hpass := passes_sample
  simp only [VaultSetup.sealing] at hpass
  simp only [EraseEnv.sample, reachesTrace, AdminState.sample, VaultSetup.sealing,
    erasureQuery_sample, reachesRow, hpass, decide_eq_true hmem, Bool.true_or, Bool.true_and]

theorem completes_sample (op : Operator) : AdminCall.sample.Completes (.sealing []) .sample op := by
  refine ⟨rfl, true, rfl, ?_⟩
  have hpass := passes_sample
  simp only [VaultSetup.sealing] at hpass
  simp only [EraseEnv.sample, passesPages, AdminState.sample, VaultSetup.sealing,
    erasureQuery_sample, passesAll, hpass, Bool.true_and]
  rfl

theorem admin_audited_sample :
    AdminCall.sample.AuditedIff (.sealing []) .sample (.sample none) ∧
    ∃ s, Run.run (adminStep (.sealing [])) .init
        [.trace (.insertTrace (sampleArgs .sealing (.fill 2)
          (.sample (.fill 1) (.custom "buy") F64.one) sampleDecision)),
          .call (.sample none) .sample] = some s ∧
      s.data ≠ AdminState.sample.data ∧ GdprAudited s := by
  have huninterrupted : AdminCall.sample.Uninterrupted (.sealing []) .sample (.sample none) :=
    ⟨fun _ => ⟨completes_sample _, rfl⟩, fun _ => effect_sample _⟩
  have hrun := (Run.run_cons adminStep_insertTrace [_]).trans
    (Run.run_cons (adminStep_call (.sealing []) (.sample none) isFresh_sample) [])
  refine ⟨((admin_audited_iff _).1 _ _ _ isFresh_sample).2 huninterrupted, _, hrun, ?_, ?_⟩
  · exact (callSpec_handle _ _ isFresh_sample).changed.2 (effect_sample _)
  · refine (admin_audited_iff _).2 _ _ hrun ⟨fun op call h => (by cases h), fun t ht => ?_⟩
    obtain rfl := Option.some.inj (adminStep_insertTrace.symm.trans ht)
    refine ⟨fun op call h => ?_, fun t _ => trivial⟩
    obtain ⟨rfl, rfl⟩ := AdminEvent.call.inj h
    exact huninterrupted

/-- The trace is erased, the insert into the audit log fails, and the request id on the trace is in
no audit row. -/
theorem admin_unaudited :
    ¬ AdminCall.sample.AuditedIff (.sealing []) .sample (.sample (some "connection closed")) ∧
    ∃ s, Run.run (adminStep (.sealing [])) .init
        [.trace (.insertTrace (sampleArgs .sealing (.fill 2)
          (.sample (.fill 1) (.custom "buy") F64.one) sampleDecision)),
          .call (.sample (some "connection closed")) .sample] = some s ∧
      ¬ GdprAudited s := by
  have hspec := callSpec_handle (.sealing []) (.sample (some "connection closed")) isFresh_sample
  have hlog := hspec.silent fun h => by cases h.2
  constructor
  · intro haudited
    have hchanged := hspec.changed.2 (effect_sample _)
    obtain ⟨row, hrow, -⟩ := haudited.1 hchanged
    rw [hlog] at hrow
    exact absurd (congrArg List.length hrow) (by simp)
  · refine ⟨_, (Run.run_cons adminStep_insertTrace [_]).trans
      (Run.run_cons (adminStep_call _ _ isFresh_sample) []), fun h => ?_⟩
    obtain ⟨-, unified, hview, hreach⟩ := effect_sample (.sample (some "connection closed"))
    obtain rfl := Except.ok.inj hview
    have hmarked :=
      (eraseLoop_reaches (.sealing []) EraseEnv.sample.erasedAt (.fill 9) EraseEnv.sample.row
        true (.fill 1) AdminState.sample.sys.traces EraseEnv.sample.pages 0 0).1 hreach
    obtain ⟨r, hr, hid⟩ := hmarked
    have htrace : r ∈ (AdminCall.sample.handle (.sealing []) .sample
        (.sample (some "connection closed"))).1.sys.traces := by
      rw [AdminCall.sample, AdminCall.handle, traces_gdprEraseHandler]
      exact hr
    obtain ⟨row, hmem, -⟩ := h r htrace (.fill 9) hid
    rw [hlog] at hmem
    cases hmem

end Samples

end IrlEngine
