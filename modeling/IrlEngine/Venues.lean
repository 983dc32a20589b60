import IrlEngine.Admin

/-!
# Venue allowlists

`register_agent` stores the venues an agent may trade at, `fetch_profile` reads them back,
and nothing looks at them: neither `authorize_agent` nor the policy has a check like the ones
for regimes and operator keys.

* `authorizePrepare_setVenues` — a call is decided alike whatever the allowlists are;
* `fleetStep` — registry and trace table together; a call of `authorize` may have read any
  earlier state of the registry;
* `venues_respected` — in a run whose calls keep to the lists on their own account, every
  `ALLOWED` row is at a venue of its agent's list.
-/

namespace IrlEngine

/-! ## The lists are not consulted -/

section SetVenues

variable (lists : AgentProfile → Option (List String))

/-- The profile with another allowlist. -/
def AgentProfile.setVenues (p : AgentProfile) : AgentProfile := { p with allowedVenues := lists p }

theorem fetchProfile_setVenues (agents : List AgentProfile) (agentId : Uuid) :
    fetchProfile (agents.map (AgentProfile.setVenues lists)) agentId
      = AgentProfile.setVenues lists <$> fetchProfile agents agentId := by
  have hid : (fun p : AgentProfile => decide (p.agentId = agentId)) ∘ AgentProfile.setVenues lists
      = fun p => decide (p.agentId = agentId) := rfl
  unfold fetchProfile
  rw [List.find?_map, hid]
  cases agents.find? fun p => p.agentId = agentId with
  | none => rfl
  | some p => rfl

theorem authorizeAgent_setVenues (agents : List AgentProfile) (agentId : Uuid)
    (modelHash : List UInt8) (regime : UInt8) (fingerprint : String) :
    authorizeAgent (agents.map (AgentProfile.setVenues lists)) agentId modelHash regime fingerprint
      = AgentProfile.setVenues lists <$>
          authorizeAgent agents agentId modelHash regime fingerprint := by
  unfold authorizeAgent
  rw [fetchProfile_setVenues]
  cases fetchProfile agents agentId with
  | error e => rfl
  | ok p =>
    simp only [map_bind, map_pure]
    rfl

theorem authorizeDecide_setVenues (K : Crates) (cfg : Config) (agents : List AgentProfile)
    (env : AuthorizeEnv) (req : AuthorizeRequest) (hb : SignedHeartbeat) (driftMs : Int64)
    (mta : MtaState) :
    authorizeDecide K cfg (agents.map (AgentProfile.setVenues lists)) env req hb driftMs mta
      = authorizeDecide K cfg agents env req hb driftMs mta := by
  have hpolicy : ∀ p snap,
    enforcePolicy K cfg env req mta (AgentProfile.setVenues lists p) driftMs snap
      = enforcePolicy K cfg env req mta p driftMs snap := fun _ _ => rfl
  unfold authorizeDecide
  simp only [authorizeAgent_setVenues, bind_map_left, hpolicy]

/-- **A call is decided alike whatever the allowlists are.** -/
theorem authorizePrepare_setVenues (K : Crates) (cfg : Config) (agents : List AgentProfile)
    (hs : HeartbeatState) (env : AuthorizeEnv) (req : AuthorizeRequest) :
    authorizePrepare K cfg (agents.map (AgentProfile.setVenues lists)) hs env req
      = authorizePrepare K cfg agents hs env req := by
  unfold authorizePrepare
  simp only [authorizeDecide_setVenues]

end SetVenues

/-! ## The registry beside the traces -/

/-- The registry with every state it has been in, and the traces. -/
structure Fleet where
  agents : List AgentRow
  registries : List (List AgentProfile)
  sys : System

/-- No agent is registered, and nothing is traced. -/
def Fleet.init : Fleet := ⟨[], [[]], .init⟩

/-- The registry after a write. -/
def Fleet.withAgents (s : Fleet) (agents : List AgentRow) : Fleet :=
  { s with agents := agents, registries := agents.map AgentRow.profile :: s.registries }

/-- A write to the registry, or a step of the store. -/
inductive FleetEvent where
  | registerAgent (req : RegisterAgentRequest) (agentId : Uuid) (now : ℤ)
  | updateStatus (agentId : Uuid) (status : String) (now : ℤ)
  | trace (e : Event)

/-- A call of `authorize` has read some state of the registry; nothing else inserts a trace. -/
def Fleet.mayHappen (s : Fleet) : Event → Bool
  | .authorize call => decide (call.agents ∈ s.registries)
  | e => !e.isInsert

/-- One event; a call of `authorize` uses a state that the registry has had. -/
def fleetStep (D : Deployment) (s : Fleet) : FleetEvent → Option Fleet
  | .registerAgent req agentId now =>
    if req.validHash ∧ agentId ∉ s.agents.map fun a => a.profile.agentId then
      some (s.withAgents (s.agents ++ [req.row agentId now]))
    else some s
  | .updateStatus agentId status now =>
    match updateStatus s.agents agentId status now with
    | none => some s
    | some (agents, _) => some (s.withAgents agents)
  | .trace e =>
    if s.mayHappen e then (step D s.sys e).map fun sys => { s with sys := sys } else none

/-- Every `ALLOWED` row is at a venue of its agent's list, if the agent has one. -/
def VenuesRespected (s : Fleet) : Prop :=
  ∀ r ∈ s.sys.traces, r.policyResult = .allowed →
    ∀ a ∈ s.agents, r.agentId = some a.profile.agentId →
      ∀ allowed, a.profile.allowedVenues = some allowed → r.intent.venueId ∈ allowed

/-- A request of an agent with an allowlist names a listed venue, unless the constraints of the
regime forbid it anyway. -/
def NamesListedVenue (call : AuthorizeCall) : Prop :=
  ∀ p mta, fetchProfile call.agents call.req.agentId = .ok p → call.env.mta = .ok mta →
    WithinConstraints mta call.req.effectiveAction call.req.notional p.maxNotional
      call.req.reduceOnly →
    ∀ allowed, p.allowedVenues = some allowed → call.req.venueId ∈ allowed

/-! ## What a step keeps -/

section Steps

variable {D : Deployment}

/-- What a row of `authorize` takes from the call. -/
structure RowOfCall (call : AuthorizeCall) (r : TraceRow) (p : AgentProfile) : Prop where
  profile : fetchProfile call.agents call.req.agentId = .ok p
  agentId : r.agentId = some call.req.agentId
  venueId : r.intent.venueId = call.req.venueId
  within : r.policyResult = .allowed → ∃ mta, call.env.mta = .ok mta ∧
    WithinConstraints mta call.req.effectiveAction call.req.notional p.maxNotional
      call.req.reduceOnly

theorem rowOfCall_of_insert {call : AuthorizeCall} {a : InsertArgs} {r : TraceRow}
    (ha : insertedBy D (.authorize call) = some a) (hr : traceRow D.K a = .ok r) :
    ∃ p, RowOfCall call r p := by
  rcases hprep : authorizePrepare D.K D.cfg call.agents call.hs call.env call.req with ⟨hs', answer⟩
  cases answer with
  | error e => simp [insertedBy, hprep] at ha
  | ok w =>
    simp only [insertedBy, hprep, Option.some.injEq] at ha
    subst ha
    obtain ⟨hb, driftMs, mta, -, -, hmta, hdecide⟩ := authorizePrepare_ok hprep
    obtain ⟨modelHash, p, -, hauth, -, houtcome⟩ := authorizeDecide_ok hdecide
    obtain ⟨stored, validTime, txnTime, -, -, -, rfl⟩ := traceRow_ok hr
    refine ⟨p, hauth.fetched, ?_, ?_, ?_⟩
    · cases houtcome <;> rfl
    · cases houtcome <;> rfl
    · intro hallowed
      cases houtcome with
      | allowed d hresult hwithin => exact ⟨mta, hmta, hwithin⟩
      | shadow d hresult hmode hout => exact absurd (hresult.symm.trans hallowed) (by decide)
      | halted d e hresult hmode hout => exact absurd (hresult.symm.trans hallowed) (by decide)

/-- The invariant: agents are unique and keep their lists, and every trace belongs to one. -/
structure FleetInv (s : Fleet) : Prop where
  ids : (s.agents.map fun a => a.profile.agentId).Nodup
  registries : ∀ A ∈ s.registries, ∀ p ∈ A, ∃ a ∈ s.agents,
    a.profile.agentId = p.agentId ∧ a.profile.allowedVenues = p.allowedVenues
  owners : ∀ r ∈ s.sys.traces, ∀ id, r.agentId = some id →
    id ∈ s.agents.map fun a => a.profile.agentId
  respected : VenuesRespected s

theorem fleetInv_init : FleetInv .init where
  ids := List.nodup_nil
  registries A hA p hp := by
    obtain rfl := List.mem_singleton.1 hA
    exact absurd hp List.not_mem_nil
  owners r hr := absurd hr List.not_mem_nil
  respected r hr := absurd hr List.not_mem_nil

theorem FleetInv.register {s : Fleet} (hs : FleetInv s) (req : RegisterAgentRequest)
    {agentId : Uuid} (now : ℤ) (hfresh : agentId ∉ s.agents.map fun a => a.profile.agentId) :
    FleetInv (s.withAgents (s.agents ++ [req.row agentId now])) where
  ids := by
    simp only [Fleet.withAgents, List.map_append, List.map_singleton]
    refine List.nodup_append.2 ⟨hs.ids, List.nodup_singleton _, ?_⟩
    intro id hid id' hid' heq
    obtain rfl := List.mem_singleton.1 hid'
    exact hfresh (heq ▸ hid)
  registries A hA p hp := by
    rcases List.mem_cons.1 hA with rfl | hA
    · obtain ⟨a, ha, rfl⟩ := List.mem_map.1 hp
      exact ⟨a, ha, rfl, rfl⟩
    · obtain ⟨a, ha, hkeep⟩ := hs.registries A hA p hp
      exact ⟨a, List.mem_append_left _ ha, hkeep⟩
  owners r hr id hid := by
    simp only [Fleet.withAgents, List.map_append]
    exact List.mem_append_left _ (hs.owners r hr id hid)
  respected r hr hallowed a ha hid allowed hlist := by
    rcases List.mem_append.1 ha with ha | ha
    · exact hs.respected r hr hallowed a ha hid allowed hlist
    · -- the new agent has no trace yet
      obtain rfl := List.mem_singleton.1 ha
      exact absurd (hs.owners r hr agentId hid) hfresh

/-- An update that writes neither the id nor the list keeps the invariant. -/
theorem FleetInv.update {s : Fleet} (hs : FleetInv s) (which : AgentRow → Bool)
    {f : AgentRow → AgentRow} (hid : ∀ a, (f a).profile.agentId = a.profile.agentId)
    (hlist : ∀ a, (f a).profile.allowedVenues = a.profile.allowedVenues) :
    FleetInv (s.withAgents (Table.updateWhere which f s.agents)) := by
  have hids : (Table.updateWhere which f s.agents).map (fun a => a.profile.agentId)
      = s.agents.map fun a => a.profile.agentId := Table.map_updateWhere hid s.agents
  have hlists : (Table.updateWhere which f s.agents).map
      (fun a => (a.profile.agentId, a.profile.allowedVenues))
      = s.agents.map fun a => (a.profile.agentId, a.profile.allowedVenues) :=
    Table.map_updateWhere (fun a => by rw [hid, hlist]) s.agents
  refine ⟨?_, ?_, ?_, ?_⟩
  · exact hids.symm ▸ hs.ids
  · intro A hA p hp
    rcases List.mem_cons.1 hA with rfl | hA
    · obtain ⟨a, ha, rfl⟩ := List.mem_map.1 hp
      exact ⟨a, ha, rfl, rfl⟩
    · obtain ⟨a, ha, haid, halist⟩ := hs.registries A hA p hp
      have hmem : (p.agentId, p.allowedVenues) ∈ (Table.updateWhere which f s.agents).map
          (fun a => (a.profile.agentId, a.profile.allowedVenues)) := by
        rw [hlists, ← haid, ← halist]
        exact List.mem_map_of_mem ha
      obtain ⟨a', ha', heq⟩ := List.mem_map.1 hmem
      exact ⟨a', ha', congrArg Prod.fst heq, congrArg Prod.snd heq⟩
  · intro r hr id hrid
    exact hids.symm ▸ hs.owners r hr id hrid
  · intro r hr hallowed a' ha' hrid allowed hallowedVenues
    have hmem : (a'.profile.agentId, a'.profile.allowedVenues)
        ∈ s.agents.map fun a => (a.profile.agentId, a.profile.allowedVenues) := by
      rw [← hlists]
      exact List.mem_map_of_mem ha'
    obtain ⟨a, ha, heq⟩ := List.mem_map.1 hmem
    refine hs.respected r hr hallowed a ha ?_ allowed ?_
    · rw [hrid]
      exact congrArg some (congrArg Prod.fst heq).symm
    · exact (congrArg Prod.snd heq).trans hallowedVenues

/-- A change of rows that keeps their terms keeps the invariant. -/
theorem FleetInv.rows {s : Fleet} (hs : FleetInv s) {sys : System}
    (hrows : ∀ r' ∈ sys.traces, ∃ r ∈ s.sys.traces, SameTerms r r') :
    FleetInv { s with sys := sys } where
  ids := hs.ids
  registries := hs.registries
  owners r' hr' id hid := by
    obtain ⟨r, hr, hsame⟩ := hrows r' hr'
    have hagent : r'.agentId = r.agentId := congrArg BindIntent.agentId hsame.intent
    exact hs.owners r hr id (hagent ▸ hid)
  respected r' hr' hallowed a ha hid allowed hlist := by
    obtain ⟨r, hr, hsame⟩ := hrows r' hr'
    have hagent : r'.agentId = r.agentId := congrArg BindIntent.agentId hsame.intent
    have hvenue : r'.intent.venueId = r.intent.venueId := by
      have hpending : r'.pendingIntent.venueId = r.pendingIntent.venueId := by rw [hsame.intent]
      exact hpending
    rw [hvenue]
    exact hs.respected r hr (hsame.policyResult ▸ hallowed) a ha (hagent ▸ hid) allowed hlist

/-- The insert of a call that names a listed venue keeps the invariant. -/
theorem FleetInv.insert {s : Fleet} (hs : FleetInv s) {call : AuthorizeCall}
    (hread : call.agents ∈ s.registries) (hlisted : NamesListedVenue call) {r : TraceRow}
    {p : AgentProfile} (hrow : RowOfCall call r p) {sys : System}
    (hsys : sys = { s.sys with traces := s.sys.traces ++ [r] }) :
    FleetInv { s with sys := sys } := by
  subst hsys
  obtain ⟨hmem, hpid⟩ := fetchProfile_ok hrow.profile
  obtain ⟨a₀, ha₀, hid₀, hlist₀⟩ := hs.registries _ hread p hmem
  refine ⟨hs.ids, hs.registries, ?_, ?_⟩
  · intro r' hr' id hid
    rcases List.mem_append.1 hr' with hr' | hr'
    · exact hs.owners r' hr' id hid
    · obtain rfl := List.mem_singleton.1 hr'
      obtain rfl := Option.some.inj (hrow.agentId.symm.trans hid)
      exact List.mem_map.2 ⟨a₀, ha₀, hid₀.trans hpid⟩
  · intro r' hr' hallowed a ha hid allowed hlist
    rcases List.mem_append.1 hr' with hr' | hr'
    · exact hs.respected r' hr' hallowed a ha hid allowed hlist
    · obtain rfl := List.mem_singleton.1 hr'
      -- the profile that was read has the list of the agent as registered
      have haid : a.profile.agentId = a₀.profile.agentId := by
        rw [hid₀, hpid]
        exact Option.some.inj (hid.symm.trans hrow.agentId)
      obtain rfl : a = a₀ := List.inj_on_of_nodup_map hs.ids ha ha₀ haid
      obtain ⟨mta, hmta, hwithin⟩ := hrow.within hallowed
      rw [hrow.venueId]
      exact hlisted p mta hrow.profile hmta hwithin allowed (hlist₀ ▸ hlist)

theorem FleetInv.step {s s' : Fleet} {e : FleetEvent} (hs : FleetInv s)
    (hlisted : ∀ call, e = .trace (.authorize call) → NamesListedVenue call)
    (h : fleetStep D s e = some s') : FleetInv s' := by
  cases e with
  | registerAgent req agentId now =>
    simp only [fleetStep] at h
    split_ifs at h with hok
    · rw [← Option.some.inj h]
      exact hs.register req now hok.2
    · rwa [← Option.some.inj h]
  | updateStatus agentId status now =>
    simp only [fleetStep, updateStatus] at h
    cases hfind : s.agents.find? fun a => a.profile.agentId = agentId with
    | none =>
      rw [hfind] at h
      rwa [← Option.some.inj h]
    | some a =>
      rw [hfind] at h
      rw [← Option.some.inj h]
      exact hs.update _ (fun _ => rfl) (fun _ => rfl)
  | trace e =>
    simp only [fleetStep] at h
    split_ifs at h with hmay
    obtain ⟨sys, hsys, rfl⟩ := Option.map_eq_some_iff.1 h
    cases hinsert : e.isInsert with
    | false =>
      refine hs.rows fun r' hr' => ?_
      obtain ⟨g, new, htraces, hg, hnew⟩ := traces_of_change (change_of_step hsys)
      rcases hnew with rfl | ⟨htrue, -⟩
      · rw [htraces, List.append_nil] at hr'
        obtain ⟨r, hr, rfl⟩ := List.mem_map.1 hr'
        exact ⟨r, hr, (hg r hr).sameTerms⟩
      · rw [hinsert] at htrue
        cases htrue
    | true =>
      cases e with
      | authorize call =>
        rcases insertStep_of_step hinsert hsys with rfl | ⟨a, r, ha, hins⟩
        · exact hs
        · obtain ⟨p, hrow⟩ := rowOfCall_of_insert ha hins.row
          exact hs.insert (of_decide_eq_true hmay) (hlisted call rfl) hrow hins.next
      | _ => simp [Fleet.mayHappen, hinsert] at hmay

end Steps

/-- **Runs that keep to the lists on their own account.**  If every call of an agent with an
allowlist names a listed venue, or is outside the constraints of the regime, then in every state
reached the `ALLOWED` rows are at listed venues; the engine does not see to it, since it decides
every call as it would with any other lists. -/
theorem venues_respected (D : Deployment) :
    (∀ (es : List FleetEvent) (s : Fleet), Run.run (fleetStep D) .init es = some s →
      (∀ call, FleetEvent.trace (.authorize call) ∈ es → NamesListedVenue call) →
      VenuesRespected s) ∧
    ∀ (lists : AgentProfile → Option (List String)) (call : AuthorizeCall),
      authorizePrepare D.K D.cfg (call.agents.map (AgentProfile.setVenues lists)) call.hs call.env
          call.req
        = authorizePrepare D.K D.cfg call.agents call.hs call.env call.req := by
  refine ⟨fun es s hrun hlisted => ?_, fun lists call => authorizePrepare_setVenues lists ..⟩
  have halong : Run.Along (fleetStep D)
      (fun _ e => ∀ call, e = .trace (.authorize call) → NamesListedVenue call) .init es := by
    refine Run.along_of_forall_state (fun e he _ call hcall => hlisted call ?_) _
    rwa [← hcall]
  exact (Run.run_invariant_along (fun _ _ _ hs hP h => FleetInv.step hs hP h) hrun halong
    fleetInv_init).respected

/-! ## An order at a listed and at an unlisted venue -/

/-- The sample agent, with an allowlist. -/
def RegisterAgentRequest.sample (venues : List String) : RegisterAgentRequest where
  name := "agent"
  modelHashHex := sampleModelHash
  policyModuleId := some "IrlConstraintPolicy"
  allowedRegimes := none
  maxNotional := some F64.two
  maxLeverage := some F64.one
  allowedVenues := some venues
  allowedMtaPubkeys := none

/-- An agent with this list of venues. -/
def listedAgent (venues : List String) : AgentRow :=
  (RegisterAgentRequest.sample venues).row (.fill 1) 0

/-- The sample order at venue `V`, by that agent. -/
def AuthorizeCall.listed (venues : List String) : AuthorizeCall :=
  { AuthorizeCall.sample "buy" with agents := [(listedAgent venues).profile] }

/-- The agent is registered, and sends the sample order. -/
def listedEvents (venues : List String) : List FleetEvent :=
  [.registerAgent (.sample venues) (.fill 1) 0, .trace (.authorize (.listed venues))]

/-- The agent, and the row of its order. -/
def listedFleet (venues : List String) : Fleet :=
  ⟨[listedAgent venues], [[(listedAgent venues).profile], []], ⟨[boughtRow], [], []⟩⟩

theorem step_listed (venues : List String) :
    step .sample .init (.authorize (.listed venues)) = some ⟨[boughtRow], [], []⟩ := by
  rw [← step_sample_bought]
  have hsame := authorizePrepare_setVenues (fun _ => some venues) Deployment.sample.K
    Deployment.sample.cfg (AuthorizeCall.sample "buy").agents (AuthorizeCall.sample "buy").hs
    (AuthorizeCall.sample "buy").env (AuthorizeCall.sample "buy").req
  have hprep : authorizePrepare Deployment.sample.K Deployment.sample.cfg
      (AuthorizeCall.listed venues).agents (AuthorizeCall.listed venues).hs
      (AuthorizeCall.listed venues).env (AuthorizeCall.listed venues).req
      = authorizePrepare Deployment.sample.K Deployment.sample.cfg
      (AuthorizeCall.sample "buy").agents (AuthorizeCall.sample "buy").hs
      (AuthorizeCall.sample "buy").env (AuthorizeCall.sample "buy").req := hsame
  simp only [step, hprep]

theorem run_listed (venues : List String) :
    Run.run (fleetStep .sample) .init (listedEvents venues) = some (listedFleet venues) := by
  have hvalid : (RegisterAgentRequest.sample venues).validHash = true := by
    have hdecode : hexDecodeText (RegisterAgentRequest.sample venues).modelHashHex
        = some (List.replicate 32 0) := hexDecodeText_sample
    have hutf8 : (Text.utf8 sampleModelHash).length = 64 := by decide +kernel
    have hlength : (Text.utf8 (RegisterAgentRequest.sample venues).modelHashHex).length = 64 :=
      hutf8
    simp [RegisterAgentRequest.validHash, hdecode, hlength]
  have hregister : fleetStep .sample .init (.registerAgent (.sample venues) (.fill 1) 0)
      = some ⟨[listedAgent venues], [[(listedAgent venues).profile], []], .init⟩ := by
    have hfresh : Uuid.fill 1 ∉ Fleet.init.agents.map fun a => a.profile.agentId :=
      List.not_mem_nil
    simp only [fleetStep]
    rw [if_pos ⟨hvalid, hfresh⟩]
    rfl
  have hauthorize : fleetStep .sample
      ⟨[listedAgent venues], [[(listedAgent venues).profile], []], .init⟩
      (.trace (.authorize (.listed venues))) = some (listedFleet venues) := by
    have hread : Fleet.mayHappen ⟨[listedAgent venues], [[(listedAgent venues).profile], []], .init⟩
        (.authorize (.listed venues)) = true := decide_eq_true (List.mem_cons_self ..)
    simp only [fleetStep, hread, if_true, step_listed]
    rfl
  rw [listedEvents, Run.run_cons hregister, Run.run_cons hauthorize, Run.run_nil]

/-- The run of an agent that keeps to its list. -/
theorem venues_respected_listed :
    VenuesRespected (listedFleet ["V"]) ∧ boughtRow.policyResult = .allowed := by
  refine ⟨(venues_respected .sample).1 _ _ (run_listed ["V"]) ?_, rfl⟩
  intro call hcall p mta hfetch _ _ allowed hallowed
  simp only [listedEvents, List.mem_cons, List.not_mem_nil, or_false, reduceCtorEq, false_or,
    FleetEvent.trace.injEq, Event.authorize.injEq] at hcall
  subst hcall
  obtain rfl := List.mem_singleton.1 (fetchProfile_ok hfetch).1
  obtain rfl := Option.some.inj hallowed
  exact List.mem_singleton.2 rfl

/-- An agent that may trade at `X` only has an order at `V` authorized. -/
theorem unlisted_venue_allowed :
    Run.run (fleetStep .sample) .init (listedEvents ["X"]) = some (listedFleet ["X"]) ∧
      (listedAgent ["X"]).profile.allowedVenues = some ["X"] ∧
      (AuthorizeCall.listed ["X"]).req.venueId = "V" ∧ boughtRow.policyResult = .allowed ∧
      ¬ VenuesRespected (listedFleet ["X"]) := by
  refine ⟨run_listed ["X"], rfl, rfl, rfl, ?_⟩
  intro hrespected
  have hvenue : boughtRow.intent.venueId ∈ ["X"] :=
    hrespected boughtRow (List.mem_singleton.2 rfl) rfl (listedAgent ["X"])
      (List.mem_singleton.2 rfl) rfl ["X"] rfl
  have hV : boughtRow.intent.venueId = "V" := rfl
  rw [hV] at hvenue
  exact absurd hvenue (by decide)

end IrlEngine
