import IrlEngine.Gateway
import IrlEngine.Sdk

/-!
# What the engine answers

`IntoResponse` of `errors.rs`, with the texts of the errors, and the documents that `authorize`,
`bind_execution` and the routes of the agents answer with.  A client sees a status and a text; the
text may be a JSON document.

* `ApiError.answer_code` — an error is counted under the code that it is answered with;
* `ApiError.answer_of_internal` — what went wrong inside the engine is in no answer.
-/

namespace IrlEngine

/-! ## Texts of errors -/

/-- `{:.2}` of a number. -/
def fixed2 (q : ℚ) : String :=
  let n := F64.roundHalfEven (|q| * 100)
  let digits := Nat.toDigits 10 (n % 100)
  (if q < 0 then "-" else "") ++ toString (n / 100) ++ "."
    ++ String.ofList (List.replicate (2 - digits.length) '0' ++ digits)

example : fixed2 (1000000 + 1 / 8) = "1000000.12" ∧ fixed2 (-3 / 2) = "-1.50" := by
  decide +kernel

/-- The texts of the errors in `heartbeat.rs`. -/
def HeartbeatError.display : HeartbeatError → String
  | .staleSequence received last =>
    "Stale sequence: received " ++ toString received.toNat ++ ", last accepted " ++
      toString last.toNat
  | .latencyThresholdExceeded driftMs maxMs =>
    "Heartbeat too old: drift " ++ toString driftMs.toNat ++ "ms exceeds maximum " ++
      toString maxMs.toNat ++ "ms"
  | .invalidSignature => "Heartbeat signature invalid"
  | .missing => "Heartbeat required but not provided (LAYER2_ENABLED=true)"
  | .mtaRefMismatch got expected =>
    "Heartbeat mta_ref '" ++ got ++ "' does not match current MTA hash '" ++ expected ++ "'"

/-- The texts of the errors in `policy.rs`. -/
def PolicyError.display : PolicyError → String
  | .regimeViolation action regime policy version =>
    "Regime violation: action '" ++ action ++ "' is prohibited in regime '" ++ regime ++
      "' by policy '" ++ policy ++ "' v" ++ version
  | .notionalExceedsLimit notional limit regime policy =>
    "Notional " ++ fixed2 notional ++ " exceeds regime '" ++ regime ++ "' limit " ++
      fixed2 limit ++ " (policy '" ++ policy ++ "')"
  | .agentNotFound => "Agent not found in registry"
  | .modelHashMismatch => "Model hash mismatch: running agent does not match registered model hash"
  | .regimeUnauthorized regimeId =>
    "Agent is not permitted to trade in regime " ++ toString regimeId.toNat
  | .agentNotActive => "Agent status is not Active"
  | .mtaPubkeyUnauthorized pubkey =>
    "MTA operator pubkey '" ++ pubkey ++ "' is not in agent's allowed_mta_pubkeys"

/-- An error of `errors.rs`: one of a handler, or one of the two that only the layers return. -/
inductive ApiError where
  | app (e : AppError)
  | unauthorized
  | rateLimitExceeded

namespace ApiError

/-- `to_string`. -/
def display : ApiError → String
  | .app .biTemporalViolation => "Bitemporal violation: valid_time must be strictly before txn_time"
  | .app .mtaSignatureInvalid => "MTA signature invalid: operator response cannot be trusted"
  | .app (.mtaFetchFailed reason) => "MTA fetch failed: " ++ reason
  | .app (.heartbeat e) => "Heartbeat error: " ++ e.display
  | .app (.policy e) => "Policy violation: " ++ e.display
  | .app (.database reason) => "Database error: " ++ reason
  | .app (.serialization reason) => "Serialization error: " ++ reason
  | .app (.traceNotFound traceId) => "Trace not found: " ++ traceId
  | .app (.traceAlreadyBound traceId status) =>
    "Trace " ++ traceId ++ " is already bound (status: " ++ status ++ ")"
  | .app (.encryption _) => "Encryption error"
  | .app .forbidden => "Forbidden"
  | .unauthorized => "Unauthorized"
  | .rateLimitExceeded => "Rate limit exceeded"

/-- `error_code`, under which an error is logged and counted. -/
def errorCode : ApiError → String
  | .app .biTemporalViolation => "BITEMPORAL_VIOLATION"
  | .app .mtaSignatureInvalid => "MTA_SIGNATURE_INVALID"
  | .app (.mtaFetchFailed _) => "MTA_FETCH_FAILED"
  | .app (.heartbeat .missing) => "HEARTBEAT_MISSING"
  | .app (.heartbeat (.staleSequence _ _)) => "HEARTBEAT_STALE_SEQUENCE"
  | .app (.heartbeat (.latencyThresholdExceeded _ _)) => "HEARTBEAT_DRIFT_EXCEEDED"
  | .app (.heartbeat .invalidSignature) => "HEARTBEAT_SIGNATURE_INVALID"
  | .app (.heartbeat (.mtaRefMismatch _ _)) => "HEARTBEAT_MTA_REF_MISMATCH"
  | .app (.policy (.regimeViolation _ _ _ _)) => "REGIME_VIOLATION"
  | .app (.policy (.notionalExceedsLimit _ _ _ _)) => "NOTIONAL_EXCEEDS_LIMIT"
  | .app (.policy .agentNotFound) => "AGENT_NOT_FOUND"
  | .app (.policy .modelHashMismatch) => "MODEL_HASH_MISMATCH"
  | .app (.policy (.regimeUnauthorized _)) => "REGIME_UNAUTHORIZED"
  | .app (.policy .agentNotActive) => "AGENT_NOT_ACTIVE"
  | .app (.policy (.mtaPubkeyUnauthorized _)) => "MTA_PUBKEY_UNAUTHORIZED"
  | .app (.database _) => "DATABASE_ERROR"
  | .app (.serialization _) => "SERIALIZATION_ERROR"
  | .app (.traceNotFound _) => "TRACE_NOT_FOUND"
  | .unauthorized => "UNAUTHORIZED"
  | .rateLimitExceeded => "RATE_LIMIT_EXCEEDED"
  | .app (.traceAlreadyBound _ _) => "TRACE_ALREADY_BOUND"
  | .app (.encryption _) => "ENCRYPTION_ERROR"
  | .app .forbidden => "FORBIDDEN"

/-- The status, the code and the message of `into_response`. -/
def answer (e : ApiError) : ℕ × String × String :=
  match e with
  | .app .biTemporalViolation => (400, "BITEMPORAL_VIOLATION", e.display)
  | .app .mtaSignatureInvalid => (403, "MTA_SIGNATURE_INVALID", e.display)
  | .app (.mtaFetchFailed _) => (502, "MTA_FETCH_FAILED", e.display)
  | .app (.heartbeat .missing) => (400, "HEARTBEAT_MISSING", e.display)
  | .app (.heartbeat (.staleSequence _ _)) => (400, "HEARTBEAT_STALE_SEQUENCE", e.display)
  | .app (.heartbeat (.latencyThresholdExceeded _ _)) =>
    (400, "HEARTBEAT_DRIFT_EXCEEDED", e.display)
  | .app (.heartbeat .invalidSignature) => (403, "HEARTBEAT_SIGNATURE_INVALID", e.display)
  | .app (.heartbeat (.mtaRefMismatch _ _)) => (403, "HEARTBEAT_MTA_REF_MISMATCH", e.display)
  | .app (.policy (.regimeViolation _ _ _ _)) => (403, "REGIME_VIOLATION", e.display)
  | .app (.policy (.notionalExceedsLimit _ _ _ _)) => (403, "NOTIONAL_EXCEEDS_LIMIT", e.display)
  | .app (.policy .agentNotFound) => (404, "AGENT_NOT_FOUND", e.display)
  | .app (.policy .modelHashMismatch) => (403, "MODEL_HASH_MISMATCH", e.display)
  | .app (.policy (.regimeUnauthorized _)) => (403, "REGIME_UNAUTHORIZED", e.display)
  | .app (.policy .agentNotActive) => (403, "AGENT_NOT_ACTIVE", e.display)
  | .app (.policy (.mtaPubkeyUnauthorized _)) => (403, "MTA_PUBKEY_UNAUTHORIZED", e.display)
  | .app (.database _) => (500, "DATABASE_ERROR", "Internal storage error")
  | .app (.serialization _) => (500, "SERIALIZATION_ERROR", "Internal serialization error")
  | .app (.traceNotFound traceId) => (404, "TRACE_NOT_FOUND", "Trace not found: " ++ traceId)
  | .unauthorized => (401, "UNAUTHORIZED", "Invalid or missing bearer token")
  | .rateLimitExceeded => (429, "RATE_LIMIT_EXCEEDED", "Rate limit exceeded")
  | .app (.traceAlreadyBound traceId status) =>
    (409, "TRACE_ALREADY_BOUND", "Trace " ++ traceId ++ " is already bound (status: "
      ++ status ++ ")")
  | .app (.encryption _) => (500, "ENCRYPTION_ERROR", "Internal encryption error")
  | .app .forbidden => (403, "FORBIDDEN", "Forbidden: insufficient permissions")

/-- The status code of the answer. -/
def status (e : ApiError) : ℕ := e.answer.1

/-- The text that goes with the code of the error. -/
def message (e : ApiError) : String := e.answer.2.2

/-- The two tables of codes agree. -/
theorem answer_code (e : ApiError) : e.answer.2.1 = e.errorCode := by
  rcases e with (_ | _ | _ | (_ | _) | (_ | _) | _) | _ | _ <;> rfl

/-- What went wrong inside the engine is in no answer. -/
theorem answer_of_internal {e : ApiError} (h : e.status = 500) :
    e.answer ∈ [(500, "DATABASE_ERROR", "Internal storage error"),
      (500, "SERIALIZATION_ERROR", "Internal serialization error"),
      (500, "ENCRYPTION_ERROR", "Internal encryption error")] := by
  rcases e with (_ | _ | _ | (_ | _) | (_ | _) | _) | _ | _ <;>
    first | (simp [answer]; done) | exact absurd h (by simp [status, answer])

/-- An error is answered as one, and never as a redirect or an information. -/
theorem status_range (e : ApiError) : 400 ≤ e.status ∧ e.status < 600 := by
  rcases e with (_ | _ | _ | (_ | _) | (_ | _) | _) | _ | _ <;> exact of_decide_eq_true rfl

end ApiError

/-! ## Responses -/

/-- A response as a client sees it: the document is that of the text, if it is one. -/
structure HttpResponse where
  status : ℕ
  statusText : String
  text : String
  json : Option Json

section Answers

variable (K : Crates) (phrase : ℕ → String)

/-- A JSON response; `phrase` is the text that goes with a status. -/
def HttpResponse.ofJson (status : ℕ) (v : Json) : HttpResponse :=
  ⟨status, phrase status, String.ofList (v.print K.floatText), some v⟩

/-- The document of an error: its code and its text. -/
def ApiError.document (e : ApiError) : List (String × Json) :=
  [("error", .str e.answer.2.1), ("message", .str e.message)]

/-- `into_response`. -/
def ApiError.intoResponse (e : ApiError) : HttpResponse :=
  .ofJson K phrase e.status (Json.normalize (.obj e.document))

/-- The `Json` extractor of axum refuses a document that is not a request. -/
def unprocessable (reason : String) : HttpResponse :=
  ⟨422, phrase 422, "Failed to deserialize the JSON body into the target type: " ++ reason, none⟩

/-- The members of `AuthorizeResponse`. -/
def AuthorizeResponse.document (r : AuthorizeResponse) : List (String × Json) :=
  [("trace_id", .str r.traceId.toText), ("reasoning_hash", .str r.reasoningHash),
    ("authorized", .bool true), ("shadow_blocked", .bool r.shadowBlocked)]

/-- The documents of `bind_execution`. -/
def BindExecutionResult.document (r : BindExecutionResult) : List (String × Json) :=
  [("trace_id", .str r.traceId.toText), ("final_proof", .str r.finalProof),
    ("verification_status", .str r.verificationStatus.display),
    ("execution_status", .str r.executionStatus),
    ("execution_time", .str (K.rfc3339 r.executionTime))]
    ++ (r.divergenceReason.map fun reason => ("divergence_reason", .str reason)).toList

/-- An answer with status 200. -/
def okResponse (ms : List (String × Json)) : HttpResponse :=
  .ofJson K phrase 200 (Json.normalize (.obj ms))

end Answers

/-- The members of a profile, as serde derives them. -/
def AgentProfile.members (p : AgentProfile) : List (String × Json) :=
  [("agent_id", .str p.agentId.toText), ("name", .str p.name),
    ("model_hash_hex", .str p.modelHashHex), ("policy_module_id", .str p.policyModuleId),
    ("allowed_regimes", jsonOption (fun l => .arr (l.map fun n => jsonI64 n.toInt64))
    p.allowedRegimes),
    ("max_notional", jsonF64 p.maxNotional), ("max_leverage", jsonF64 p.maxLeverage),
    ("allowed_venues", jsonOption (fun l => .arr (l.map .str)) p.allowedVenues),
    ("status", .str p.status),
    ("allowed_mta_pubkeys", jsonOption (fun l => .arr (l.map .str)) p.allowedMtaPubkeys)]

end IrlEngine
