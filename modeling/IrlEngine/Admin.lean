import IrlEngine.Erasure

/-!
# Operator actions and their audit rows

The six handlers of `routes/agents.rs`, `routes/tokens.rs` and `routes/admin.rs` that write
something, with `insert_audit_log` of `audit.rs`.  Each of their statements is a transaction
of its own and may fail; what was written before stays written.

* `AdminCall` — a call of one of them, with the answers of its statements;
* `AdminCall.Effect`, `AdminCall.Completes` — when it has changed a row, and when it comes to
  the insert into the audit log.
-/

namespace IrlEngine

/-! ## The audit log -/

/-- All operator actions that must appear in the audit log. -/
inductive AuditAction where
  | agentRegister
  | agentSuspend
  | agentActivate
  | agentStatusChange
  | tokenIssue
  | tokenRevoke
  | shadowModeChange
  | gdprErasure
  deriving DecidableEq, Repr

/-- The text in the column `action`. -/
def AuditAction.asStr : AuditAction → String
  | .agentRegister => "AGENT_REGISTER"
  | .agentSuspend => "AGENT_SUSPEND"
  | .agentActivate => "AGENT_ACTIVATE"
  | .agentStatusChange => "AGENT_STATUS_CHANGE"
  | .tokenIssue => "TOKEN_ISSUE"
  | .tokenRevoke => "TOKEN_REVOKE"
  | .shadowModeChange => "SHADOW_MODE_CHANGE"
  | .gdprErasure => "GDPR_ERASURE"

/-- The text in the column `target_type`. -/
def AuditAction.targetType : AuditAction → String
  | .agentRegister | .agentSuspend | .agentActivate | .agentStatusChange | .gdprErasure => "AGENT"
  | .tokenIssue | .tokenRevoke => "TOKEN"
  | .shadowModeChange => "SHADOW_MODE"

/-- A row of `irl.admin_audit_log`. -/
structure AuditRow where
  operatorId : String
  action : String
  targetType : String
  targetId : Option String
  detailsJson : Option Json
  ipAddress : Option String

/-! ## The tables -/

/-- A row of `irl.agent_registry`; times are in microseconds since the epoch. -/
structure AgentRow where
  profile : AgentProfile
  updatedAt : ℤ

/-- The column `status` of a token. -/
inductive TokenStatus where
  | active
  | revoked
  deriving DecidableEq, Repr

/-- The column `role` of a token, from migration 014. -/
inductive TokenRole where
  | owner
  | client
  deriving DecidableEq, Repr

/-- A row of `irl.api_tokens`. -/
structure ApiToken where
  tokenHash : String
  clientName : String
  source : String
  status : TokenStatus
  role : TokenRole

/-- The row of `irl.system_config` with the key `shadow_mode`. -/
structure ShadowRow where
  valueBool : Option Bool
  updatedAt : ℤ
  updatedBy : String

/-- The tables, and the two caches of the process. -/
structure AdminState where
  agents : List AgentRow
  tokens : List ApiToken
  shadowRow : Option ShadowRow
  sys : System
  auditLog : List AuditRow
  tokenCache : List String
  shadowMode : Bool

/-- What a call may change in the database, besides the audit log. -/
structure AdminData where
  agents : List AgentRow
  tokens : List ApiToken
  shadowRow : Option ShadowRow
  traces : List TraceRow

/-- What is left of a state without the audit log and the caches. -/
def AdminState.data (s : AdminState) : AdminData := ⟨s.agents, s.tokens, s.shadowRow, s.sys.traces⟩

/-- Who calls, and the error of the insert into the audit log. -/
structure Operator where
  operatorId : String
  clientIp : Option String
  audit : Option String

/-- `insert_audit_log`, which may fail. -/
def insertAuditLog (s : AdminState) (op : Operator) (action : AuditAction)
    (targetId : Option String) (detailsJson : Json) : AdminState × Except AppError Unit :=
  match op.audit with
  | some reason => (s, .error (.database reason))
  | none =>
    ({ s with auditLog := s.auditLog ++ [⟨op.operatorId, action.asStr, action.targetType, targetId,
        some detailsJson, op.clientIp⟩] }, .ok ())

/-- The end of every handler: the audit row, then the response. -/
def respond (s : AdminState) (op : Operator) (action : AuditAction) (targetId : Option String)
    (detailsJson response : Json) : AdminState × Except AppError Json :=
  match insertAuditLog s op action targetId detailsJson with
  | (s', .error e) => (s', .error e)
  | (s', .ok ()) => (s', .ok response)

/-! ## Agents -/

/-- The body of `register_agent`. -/
structure RegisterAgentRequest where
  name : String
  modelHashHex : String
  policyModuleId : Option String
  allowedRegimes : Option (List Int16)
  maxNotional : Option F64
  maxLeverage : Option F64
  allowedVenues : Option (List String)
  allowedMtaPubkeys : Option (List String)

/-- 64 hex characters. -/
def RegisterAgentRequest.validHash (req : RegisterAgentRequest) : Bool :=
  (Text.utf8 req.modelHashHex).length = 64 && (hexDecodeText req.modelHashHex).isSome

/-- The row of a new agent. -/
def RegisterAgentRequest.row (req : RegisterAgentRequest) (agentId : Uuid) (now : ℤ) :
    AgentRow where
  profile :=
    { agentId := agentId
      name := req.name
      modelHashHex := req.modelHashHex
      policyModuleId := req.policyModuleId.getD "default"
      allowedRegimes := req.allowedRegimes
      maxNotional := req.maxNotional.getD F64.million
      maxLeverage := req.maxLeverage.getD F64.four
      allowedVenues := req.allowedVenues
      status := "Active"
      allowedMtaPubkeys := req.allowedMtaPubkeys }
  updatedAt := now

/-- `register_agent`; the database draws the id. -/
def registerAgent (s : AdminState) (op : Operator) (req : RegisterAgentRequest) (agentId : Uuid)
    (now : ℤ) (insert : Option String) : AdminState × Except AppError Json :=
  if req.validHash then
    match insert with
    | some reason => (s, .error (.database reason))
    | none =>
      if agentId ∈ s.agents.map fun r => r.profile.agentId then
        (s, .error (.database "duplicate key value violates unique constraint"))
      else
        respond { s with agents := s.agents ++ [req.row agentId now] } op .agentRegister
          (some agentId.toText)
          (Json.normalize (.obj [("name", .str req.name), ("model_hash_hex", .str req.modelHashHex),
            ("policy_module_id", jsonOption .str req.policyModuleId),
            ("max_notional", jsonF64 (req.maxNotional.getD F64.million))]))
          (Json.normalize (.obj [("agent_id", .str agentId.toText),
            ("model_hash_hex", .str req.modelHashHex), ("status", .str "Active")]))
  else
    (s,
      .error (.serialization "model_hash_hex must be a 64-character hex string (32 bytes SHA-256)"))

/-- The statuses that `update_agent_status` accepts. -/
def validStatuses : List String := ["Active", "Suspended", "Deregistered"]

/-- The action that is recorded for a new status. -/
def statusAction (status : String) : AuditAction :=
  if status = "Suspended" then .agentSuspend
  else if status = "Active" then .agentActivate
  else .agentStatusChange

/-- `update_status`, which also returns the old status. -/
def updateStatus (agents : List AgentRow) (agentId : Uuid) (status : String) (now : ℤ) :
    Option (List AgentRow × String) :=
  match agents.find? fun r => r.profile.agentId = agentId with
  | none => none
  | some r =>
    some (Table.updateWhere (fun r => r.profile.agentId = agentId)
      (fun r => ⟨{ r.profile with status := status }, now⟩) agents, r.profile.status)

/-- `update_agent_status`, which records the old status beside the new one. -/
def updateAgentStatus (s : AdminState) (op : Operator) (agentId : Uuid) (status : String) (now : ℤ)
    (update : Option String) : AdminState × Except AppError Json :=
  if status ∈ validStatuses then
    match update with
    | some reason => (s, .error (.database reason))
    | none =>
      match updateStatus s.agents agentId status now with
      | none => (s, .error (.policy .agentNotFound))
      | some (agents, oldStatus) =>
        respond { s with agents := agents } op (statusAction status) (some agentId.toText)
          (Json.normalize (.obj [("old_status", .str oldStatus), ("new_status", .str status)]))
          (Json.normalize (.obj [("agent_id", .str agentId.toText), ("status", .str status)]))
  else (s, .error (.serialization "status must be one of: Active, Suspended, Deregistered"))

/-! ## Tokens -/

/-- `refresh_cache`: the hashes of the active tokens. -/
def refreshCache (s : AdminState) (refresh : Option String) : AdminState × Except AppError Unit :=
  match refresh with
  | some reason => (s, .error (.database reason))
  | none =>
    ({ s with tokenCache := (s.tokens.filter fun t => t.status = .active).map ApiToken.tokenHash },
      .ok ())

/-- The hash of the token that `token_issue` makes of random bytes. -/
def tokenHashOf (rawBytes : List UInt8) : String :=
  sha256Hex (Text.utf8 (String.ofList (Encoding.hexEncode rawBytes)))

/-- The first twelve characters of a hash. -/
def tokenIdOf (hash : String) : String := String.ofList (hash.toList.take 12)

/-- `token_issue`; the raw token is drawn at random. -/
def tokenIssue (s : AdminState) (op : Operator) (clientName : String) (rawBytes : List UInt8)
    (insert refresh : Option String) : AdminState × Except AppError Json :=
  if clientName.toList.all Text.isWhitespace then
    (s, .error (.serialization "client_name must not be empty"))
  else
    match insert with
    | some reason => (s, .error (.database reason))
    | none =>
      let hash := tokenHashOf rawBytes
      if hash ∈ s.tokens.map ApiToken.tokenHash then
        (s, .error (.database "duplicate key value violates unique constraint"))
      else
        let s' := { s with tokens := s.tokens ++ [⟨hash, clientName, "api", .active, .client⟩] }
        match refreshCache s' refresh with
        | (s'', .error e) => (s'', .error e)
        | (s'', .ok ()) =>
          respond s'' op .tokenIssue (some (tokenIdOf hash))
            (.obj [("client_name", .str clientName)])
            (Json.normalize (.obj [("token_id", .str (tokenIdOf hash)),
              ("client_name", .str clientName),
              ("token", .str (String.ofList (Encoding.hexEncode rawBytes)))]))

/-- `WHERE LEFT(token_hash, 12) = $1 AND status = 'active'`. -/
def activeTokens (tokenId : String) (tokens : List ApiToken) : List ApiToken :=
  tokens.filter fun t => tokenIdOf t.tokenHash = tokenId && t.status = .active

/-- `token_revoke`; of several tokens with one prefix the database returns any. -/
def tokenRevoke (s : AdminState) (op : Operator) (tokenId : String) (pick : ℕ)
    (select update refresh : Option String) : AdminState × Except AppError Json :=
  if (Text.utf8 tokenId).length ≠ 12 then
    (s, .error (.serialization "token_id must be exactly 12 characters"))
  else
    match select with
    | some reason => (s, .error (.database reason))
    | none =>
      let found := activeTokens tokenId s.tokens
      match found[pick % found.length]? with
      | none => (s, .error (.serialization ("No active token found with id: " ++ tokenId)))
      | some token =>
        match update with
        | some reason => (s, .error (.database reason))
        | none =>
          let s' := { s with
            tokens := Table.updateWhere (fun t => t.tokenHash = token.tokenHash)
              (fun t => { t with status := .revoked }) s.tokens }
          match refreshCache s' refresh with
          | (s'', .error e) => (s'', .error e)
          | (s'', .ok ()) =>
            respond s'' op .tokenRevoke (some tokenId)
              (.obj [("client_name", .str token.clientName)])
              (Json.normalize (.obj [("token_id", .str tokenId), ("status", .str "revoked")]))

/-! ## Shadow mode and erasure -/

/-- The row that `set` writes. -/
def ShadowRow.written (enabled : Bool) (now : ℤ) (updatedBy : String) : ShadowRow :=
  ⟨some enabled, now, updatedBy⟩

/-- `shadow_mode_set`: the row, the cache of this process, and the audit row. -/
def shadowModeSet (s : AdminState) (op : Operator) (enabled : Bool)
    (reason : Option String) (now : ℤ)
    (update : Option String) : AdminState × Except AppError Json :=
  match update with
  | some reason => (s, .error (.database reason))
  | none =>
    -- the update of an absent row succeeds and writes nothing
    let s' := { s with
      shadowRow := s.shadowRow.map fun _ => .written enabled now op.operatorId
      shadowMode := enabled }
    respond s' op .shadowModeChange none
      (Json.normalize (.obj [("old_value", .bool s.shadowMode), ("new_value", .bool enabled),
        ("reason", jsonOption .str reason)]))
      (Json.normalize (.obj [("shadow_mode", .bool enabled), ("changed_by", .str op.operatorId)]))

/-- `gdpr_erase_handler`, which needs a key provider. -/
def gdprEraseHandler (V : VaultSetup) (s : AdminState) (op : Operator) (agentId requestId : Uuid)
    (keyProvider : Bool) (env : EraseEnv) : AdminState × Except AppError Json :=
  if keyProvider then
    match gdprEraseAgent V env agentId requestId s.sys.traces with
    | (traces, .error e) => ({ s with sys := { s.sys with traces := traces } }, .error e)
    | (traces, .ok erasedCount) =>
      respond { s with sys := { s.sys with traces := traces } } op .gdprErasure
        (some agentId.toText)
        (Json.normalize (.obj [("gdpr_request_id", .str requestId.toText),
          ("traces_erased", jsonU64 (UInt64.ofNat erasedCount))]))
        (Json.normalize (.obj [("agent_id", .str agentId.toText),
          ("gdpr_request_id", .str requestId.toText),
          ("traces_erased", jsonU64 (UInt64.ofNat erasedCount)), ("status", .str "erased")]))
  else
    (s, .error (.encryption "KMS provider required for GDPR erasure — configure KMS_PROVIDER"))

/-! ## Calls -/

/-- A call of one of the six handlers, with what it draws and the errors of its statements. -/
inductive AdminCall where
  | registerAgent (req : RegisterAgentRequest) (agentId : Uuid) (now : ℤ) (insert : Option String)
  | updateAgentStatus (agentId : Uuid) (status : String) (now : ℤ) (update : Option String)
  | tokenIssue (clientName : String) (rawBytes : List UInt8) (insert refresh : Option String)
  | tokenRevoke (tokenId : String) (pick : ℕ) (select update refresh : Option String)
  | shadowModeSet (enabled : Bool) (reason : Option String) (now : ℤ) (update : Option String)
  | gdprEraseHandler (agentId requestId : Uuid) (keyProvider : Bool) (env : EraseEnv)

/-- The handler of a call. -/
def AdminCall.handle (V : VaultSetup) (s : AdminState) (op : Operator) :
    AdminCall → AdminState × Except AppError Json
  | .registerAgent req agentId now insert => IrlEngine.registerAgent s op req agentId now insert
  | .updateAgentStatus agentId status now update =>
    IrlEngine.updateAgentStatus s op agentId status now update
  | .tokenIssue clientName rawBytes insert refresh =>
    IrlEngine.tokenIssue s op clientName rawBytes insert refresh
  | .tokenRevoke tokenId pick select update refresh =>
    IrlEngine.tokenRevoke s op tokenId pick select update refresh
  | .shadowModeSet enabled reason now update =>
    IrlEngine.shadowModeSet s op enabled reason now update
  | .gdprEraseHandler agentId requestId keyProvider env =>
    IrlEngine.gdprEraseHandler V s op agentId requestId keyProvider env

/-- The action under which a call appears in the audit log. -/
def AdminCall.action : AdminCall → AuditAction
  | .registerAgent .. => .agentRegister
  | .updateAgentStatus _ status _ _ => statusAction status
  | .tokenIssue .. => .tokenIssue
  | .tokenRevoke .. => .tokenRevoke
  | .shadowModeSet .. => .shadowModeChange
  | .gdprEraseHandler .. => .gdprErasure

/-- The column `target_id` that the handler of a call writes. -/
def AdminCall.targetId : AdminCall → Option String
  | .registerAgent _ agentId _ _ => some agentId.toText
  | .updateAgentStatus agentId _ _ _ => some agentId.toText
  | .tokenIssue _ rawBytes _ _ => some (tokenIdOf (tokenHashOf rawBytes))
  | .tokenRevoke tokenId _ _ _ _ => some tokenId
  | .shadowModeSet .. => none
  | .gdprEraseHandler agentId _ _ _ => some agentId.toText

/-- The id of an erasure request. -/
def AdminCall.requestId : AdminCall → Option Uuid
  | .gdprEraseHandler _ requestId _ _ => some requestId
  | _ => none

/-- The `gdpr_request_id` in the details of an audit row. -/
def AuditRow.gdprRequestId (row : AuditRow) : Option Json :=
  row.detailsJson.bind (Json.get? "gdpr_request_id")

/-- The row records the call. -/
structure AuditRow.Matches (row : AuditRow) (op : Operator) (call : AdminCall) : Prop where
  operatorId : row.operatorId = op.operatorId
  action : row.action = call.action.asStr
  targetType : row.targetType = call.action.targetType
  targetId : row.targetId = call.targetId
  ipAddress : row.ipAddress = op.clientIp
  requestId : ∀ id, call.requestId = some id → row.gdprRequestId = some (.str id.toText)

/-! ## What a call writes -/

/-- The row passes decryption, encryption and update. -/
def RowEnv.passes (V : VaultSetup) (row : RowEnv) (q : ErasureRow) : Bool :=
  (eraseRow V row.draw q).isOk && row.update.isNone

/-- All rows of a page pass. -/
def passesAll (V : VaultSetup) (row : ℕ → RowEnv) : List ErasureRow → ℕ → Bool
  | [], _ => true
  | q :: rest, n => (row n).passes V q && passesAll V row rest (n + 1)

/-- Of these rows one of the table is updated before a step fails. -/
def reachesRow (V : VaultSetup) (row : ℕ → RowEnv) (t : List TraceRow) : List ErasureRow → ℕ → Bool
  | [], _ => false
  | q :: rest, n =>
    (row n).passes V q &&
      (decide (q.primaryKey ∈ t.map TraceRow.primaryKey) || reachesRow V row t rest (n + 1))

/-- An erasure updates a row of the table before a step fails; until then it reads legacy rows
only, and the table stays as it is. -/
def reachesTrace (V : VaultSetup) (row : ℕ → RowEnv) (unified : Bool) (agentId : Uuid)
    (t : List TraceRow) : List (Except String Scan) → ℕ → ℕ → Bool
  | [], _, _ => false
  | .error _ :: _, _, _ => false
  | .ok scan :: pages, offset, n =>
    let rows := erasureQuery scan offset (agentRows agentId (sourceTable V.legacy unified t))
    reachesRow V row t rows n ||
      (passesAll V row rows n && decide (100 ≤ rows.length) &&
        reachesTrace V row unified agentId t pages (offset + rows.length) (n + rows.length))

/-- Every page is read, and every row of it passes, up to the first page that is not full. -/
def passesPages (V : VaultSetup) (erasedAt : DateTime) (requestId : Uuid) (row : ℕ → RowEnv)
    (unified : Bool) (agentId : Uuid) : List (Except String Scan) → ℕ → ℕ → List TraceRow → Bool
  | [], _, _, _ => false
  | .error _ :: _, _, _, _ => false
  | .ok scan :: pages, offset, n, t =>
    let rows := erasureQuery scan offset (agentRows agentId (sourceTable V.legacy unified t))
    passesAll V row rows n && (decide (rows.length < 100) ||
      passesPages V erasedAt requestId row unified agentId pages (offset + rows.length)
        (n + rows.length) (eraseRows V erasedAt requestId row rows n t).1)

/-- The statements of the call up to the first that changes a row succeed. -/
def AdminCall.Effect (V : VaultSetup) (s : AdminState) (op : Operator) : AdminCall → Prop
  | .registerAgent req agentId _ insert =>
    req.validHash = true ∧ insert = none ∧ agentId ∉ s.agents.map fun r => r.profile.agentId
  | .updateAgentStatus agentId status now update =>
    status ∈ validStatuses ∧ update = none ∧
      ∃ r ∈ s.agents, r.profile.agentId = agentId ∧ (r.profile.status ≠ status ∨ r.updatedAt ≠ now)
  | .tokenIssue clientName rawBytes insert _ =>
    clientName.toList.all Text.isWhitespace = false ∧ insert = none ∧
      tokenHashOf rawBytes ∉ s.tokens.map ApiToken.tokenHash
  | .tokenRevoke tokenId _ select update _ =>
    (Text.utf8 tokenId).length = 12 ∧ select = none ∧ activeTokens tokenId s.tokens ≠ [] ∧
      update = none
  | .shadowModeSet enabled _ now update =>
    update = none ∧ ∃ r, s.shadowRow = some r ∧ r ≠ .written enabled now op.operatorId
  | .gdprEraseHandler agentId _ keyProvider env => keyProvider = true ∧
    ∃ unified, env.unifiedExists = .ok unified ∧
      reachesTrace V env.row unified agentId s.sys.traces env.pages 0 0 = true

/-- Every step of the call before the insert into the audit log succeeds. -/
def AdminCall.Completes (V : VaultSetup) (s : AdminState) (op : Operator) : AdminCall → Prop
  | .registerAgent req agentId now insert =>
    (AdminCall.registerAgent req agentId now insert).Effect V s op
  | .updateAgentStatus agentId status _ update =>
    status ∈ validStatuses ∧ update = none ∧ agentId ∈ s.agents.map fun r => r.profile.agentId
  | .tokenIssue clientName rawBytes insert refresh =>
    (AdminCall.tokenIssue clientName rawBytes insert refresh).Effect V s op ∧ refresh = none
  | .tokenRevoke tokenId pick select update refresh =>
    (AdminCall.tokenRevoke tokenId pick select update refresh).Effect V s op ∧ refresh = none
  | .shadowModeSet _ _ _ update => update = none
  | .gdprEraseHandler agentId requestId keyProvider env => keyProvider = true ∧
    ∃ unified, env.unifiedExists = .ok unified ∧
      passesPages V env.erasedAt requestId env.row unified agentId env.pages 0 0 s.sys.traces = true

/-- The id that an erasure draws is on no trace. -/
def AdminCall.isFresh (s : AdminState) (call : AdminCall) : Bool :=
  call.requestId.all fun id => s.sys.traces.all fun r => r.gdprRequestId ≠ some id

end IrlEngine
