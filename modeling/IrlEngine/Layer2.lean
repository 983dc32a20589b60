import IrlEngine.Lifecycle
import IrlEngine.AntiReplay
import Mathlib.Data.List.Forall2

/-!
# Layer 2: the heartbeat of a persisted trace

* `layer2_bound` — with Layer 2 on, every persisted trace was sealed with a heartbeat whose
  signature verified under the configured key and whose `mta_ref` is empty or the hash of
  the sealed MTA state.

The columns of a row do not hold the heartbeat, so a run is taken together with the
snapshots that it sealed.
-/

namespace IrlEngine

/-- The snapshots behind the rows that an event appends. -/
def sealedBy (D : Deployment) (s : System) : Event → List CognitiveSnapshot
  | .authorize call =>
    match (authorizePrepare D.K D.cfg call.agents call.hs call.env call.req).2 with
    | .error _ => []
    | .ok w =>
      ((authorizeCommit D.K s.traces w).1.drop s.traces.length).map fun _ => w.args.snapshot
  | _ => []

/-- A step that also records which snapshots were sealed. -/
def sealStep (D : Deployment) (x : System × List CognitiveSnapshot) (e : Event) :
    Option (System × List CognitiveSnapshot) :=
  (step D x.1 e).map fun t => (t, x.2 ++ sealedBy D x.1 e)

/-- Rows come from calls of `authorize`. -/
def Routed : Event → Prop
  | .insertTrace _ => False
  | .insertTraceAtomic _ _ => False
  | _ => True

/-- The heartbeat of a sealed snapshot was checked: its signature, and the broadcast it names
if it names one. -/
structure HeartbeatBound (K : Crates) (cfg : Config) (snap : CognitiveSnapshot) : Prop where
  signature : verifySignature K cfg snap.heartbeat = .ok ()
  mtaRef : snap.heartbeat.mtaRef = "" ∨ snap.heartbeat.mtaRef = snap.mtaHash

/-- A row and the snapshot it was made of. -/
structure SealedWith (K : Crates) (cfg : Config) (r : TraceRow) (snap : CognitiveSnapshot) :
    Prop where
  traceId : r.traceId = snap.traceId
  reasoningHash : r.reasoningHash = snap.seal K
  bound : HeartbeatBound K cfg snap

section Layer2

variable {D : Deployment} {s s' : System} {e : Event} {snaps : List CognitiveSnapshot}

theorem checkMtaRef_ok {cfg : Config} {hb : SignedHeartbeat} {mta : MtaState}
    (hlayer : cfg.layer2Enabled = true) (h : checkMtaRef cfg hb mta = .ok ()) :
    hb.mtaRef = "" ∨ hb.mtaRef = mta.hash := by
  unfold checkMtaRef at h
  by_cases hempty : hb.mtaRef = ""
  · exact Or.inl hempty
  · by_cases hhash : hb.mtaRef = mta.hash
    · exact Or.inr hhash
    · rw [if_pos ⟨hlayer, hempty, hhash⟩] at h
      exact absurd h (by simp)

/-- What a prepared call has checked of its heartbeat. -/
theorem heartbeatBound_of_prepare {K : Crates} {cfg : Config} {agents : List AgentProfile}
    {hs hs' : HeartbeatState} {env : AuthorizeEnv} {req : AuthorizeRequest} {w : AuthorizeWrite}
    (hlayer : cfg.layer2Enabled = true)
    (h : authorizePrepare K cfg agents hs env req = (hs', .ok w)) :
    HeartbeatBound K cfg w.args.snapshot := by
  obtain ⟨hb, driftMs, mta, -, hval, -, hdecide⟩ := authorizePrepare_ok h
  obtain ⟨_, href, -⟩ := bind_eq_ok.1 hdecide
  obtain ⟨_, _, -, -, -, houtcome⟩ := authorizeDecide_ok hdecide
  rw [validateHeartbeat, if_pos hlayer] at hval
  have hbound : HeartbeatBound K cfg (req.snapshot env mta hb) :=
    ⟨(validate_checks hval).1, checkMtaRef_ok hlayer href⟩
  cases houtcome with
  | allowed d hresult hwithin => exact hbound
  | shadow d hresult hmode hout => exact hbound
  | halted d e hresult hmode hout => exact hbound

/-- A call appends rows that are sealed with the recorded snapshots. -/
theorem sealed_of_authorize {call : AuthorizeCall} (hlayer : D.cfg.layer2Enabled = true)
    (h : step D s (.authorize call) = some s') :
    ∃ new, s'.traces = s.traces ++ new ∧
      List.Forall₂ (SealedWith D.K D.cfg) new (sealedBy D s (.authorize call)) := by
  simp only [step] at h
  simp only [sealedBy]
  rcases hprep : authorizePrepare D.K D.cfg call.agents call.hs call.env call.req with ⟨hs', res⟩
  rw [hprep] at h
  cases res with
  | error e =>
    obtain rfl := Option.some.inj h
    exact ⟨[], (List.append_nil _).symm, List.Forall₂.nil⟩
  | ok w =>
    simp only [System.insertWith] at h
    split at h
    · obtain rfl := Option.some.inj h
      rcases authorizeCommit_cases D.K s.traces w with ⟨hsame, -⟩ | ⟨r, hrow, happ, -⟩
      · refine ⟨[], ?_, ?_⟩
        · show (authorizeCommit D.K s.traces w).1 = _
          rw [hsame, List.append_nil]
        · show List.Forall₂ _ [] (((authorizeCommit D.K s.traces w).1.drop s.traces.length).map _)
          rw [hsame, List.drop_length, List.map_nil]
          exact List.Forall₂.nil
      · refine ⟨[r], happ, ?_⟩
        show List.Forall₂ _ [r] (((authorizeCommit D.K s.traces w).1.drop s.traces.length).map _)
        rw [happ, List.drop_left]
        refine List.Forall₂.cons ⟨traceRow_traceId hrow, ?_, heartbeatBound_of_prepare hlayer hprep⟩
          List.Forall₂.nil
        obtain ⟨stored, validTime, txnTime, -, -, -, rfl⟩ := traceRow_ok hrow
        exact reasoningHash_of_prepare hprep
    · exact absurd h (by simp)

theorem sealed_step (hlayer : D.cfg.layer2Enabled = true) (he : Routed e)
    (hs : List.Forall₂ (SealedWith D.K D.cfg) s.traces snaps) (h : step D s e = some s') :
    List.Forall₂ (SealedWith D.K D.cfg) s'.traces (snaps ++ sealedBy D s e) := by
  by_cases hinsert : e.isInsert = true
  · cases e with
    | authorize call =>
      obtain ⟨new, htraces, hnew⟩ := sealed_of_authorize hlayer h
      rw [htraces]
      exact List.rel_append hs hnew
    | insertTrace a => exact absurd he id
    | insertTraceAtomic a check => exact absurd he id
    | _ => exact absurd hinsert (by simp [Event.isInsert])
  · have hnone : sealedBy D s e = [] := by
      cases e with
      | authorize call => exact absurd rfl hinsert
      | _ => rfl
    obtain ⟨g, new, htraces, hg, hnew⟩ := traces_of_change (change_of_step h)
    rcases hnew with rfl | ⟨hins, -⟩
    · -- the rows keep their ids and hashes
      rw [hnone, List.append_nil, htraces, List.append_nil, List.forall₂_map_left_iff]
      have hboth := (List.forall₂_and_left _ _).2 ⟨hg, hs⟩
      refine List.Forall₂.imp ?_ hboth
      rintro r snap ⟨hchange, hr⟩
      exact ⟨hchange.sameTerms.traceId.trans hr.traceId,
        hchange.sameTerms.reasoningHash.trans hr.reasoningHash, hr.bound⟩
    · exact absurd hins hinsert

end Layer2

/-- **Layer 2 binds every persisted trace to a checked heartbeat.** -/
theorem layer2_bound (D : Deployment) (hlayer : D.cfg.layer2Enabled = true) {es : List Event}
    {s : System} {snaps : List CognitiveSnapshot}
    (hrun : Run.run (sealStep D) (.init, []) es = some (s, snaps)) (hes : ∀ e ∈ es, Routed e) :
    List.Forall₂ (SealedWith D.K D.cfg) s.traces snaps := by
  have hP : Run.Along (sealStep D) (fun _ e => Routed e) (.init, []) es := Run.along_of_forall hes _
  refine Run.run_invariant_along
    (I := fun x : System × List CognitiveSnapshot => List.Forall₂ (SealedWith D.K D.cfg)
      x.1.traces x.2)
    ?_ hrun hP List.Forall₂.nil
  rintro ⟨s, snaps⟩ e ⟨s', snaps'⟩ hs he hstep
  obtain ⟨t, ht, heq⟩ := Option.map_eq_some_iff.1 hstep
  obtain ⟨rfl, rfl⟩ := Prod.mk.inj heq
  exact sealed_step hlayer he hs ht

/-! A Layer 2 deployment, and an order of notional 1 under a cap of 2 with a heartbeat that
names no broadcast. -/

/-- A deployment with Layer 2 on, whose operator signs. -/
def Deployment.layer2 : Deployment := ⟨.signing, .layer2, []⟩

/-- The sample order with a heartbeat. -/
def AuthorizeRequest.pulsed : AuthorizeRequest :=
  { AuthorizeRequest.sample (.fill 1) (.custom "buy") F64.one with
    heartbeat := some (SignedHeartbeat.sample 1) }

/-- The call that makes it. -/
def AuthorizeCall.pulsed : AuthorizeCall :=
  ⟨[.sample (.fill 1) F64.two], .init, .sample (.fill 2), .pulsed⟩

/-- The snapshot that this order seals. -/
def pulsedSnapshot : CognitiveSnapshot :=
  AuthorizeRequest.pulsed.snapshot (.sample (.fill 2)) .sample (.sample 1)

/-- The row of that order. -/
def pulsedRow : TraceRow := sampleRow .signing (.fill 2) .pulsed sampleDecision

theorem prepare_pulsed :
    authorizePrepare .signing .layer2 [.sample (.fill 1) F64.two] .init (.sample (.fill 2)) .pulsed
      = (HeartbeatState.init.accept (.fill 1) 1 true,
        .ok (.commit (sampleArgs .signing (.fill 2) .pulsed sampleDecision)
          (some (F64.two.toRat, MtaState.sample.regimeLabel)) false)) := by
  have hval : validateHeartbeat .signing .layer2 .init (.sample (.fill 2)) .pulsed (.sample 1)
      = (HeartbeatState.init.accept (.fill 1) 1 true, .ok 0) := by
    have hlt : (HeartbeatState.init.sequences (.fill 1)).getD 0 < 1 := by decide
    exact (if_pos rfl).trans (validate_sample hlt)
  have hreq : requestHeartbeat .layer2 .pulsed = .ok (.sample 1) := rfl
  have hagent : authorizeAgent [.sample (.fill 1) F64.two] AuthorizeRequest.pulsed.agentId
      (List.replicate 32 0) MtaState.sample.regimeId MtaState.sample.pubkeyFingerprint
      = .ok (.sample (.fill 1) F64.two) := authorizeAgent_sample ..
  have hhash : decodeModelHash .pulsed = .ok (List.replicate 32 0) := by
    rw [decodeModelHash, show AuthorizeRequest.pulsed.modelHashHex = sampleModelHash from rfl,
      hexDecodeText_sample]
    rfl
  have hwithin : WithinConstraints .sample AuthorizeRequest.pulsed.effectiveAction
      AuthorizeRequest.pulsed.notional (AgentProfile.sample (.fill 1) F64.two).maxNotional
      AuthorizeRequest.pulsed.reduceOnly := by
    refine ⟨Or.inr (by decide), ?_⟩
    show F64.one.toRat ≤ effectiveCap .sample F64.two
    rw [effectiveCap_sample]
    exact F64.toRat_one_le_two
  rw [authorizePrepare_eq rfl hreq hval rfl rfl hhash hagent rfl, enforcePolicy_allowed 0 _ hwithin,
    show (AgentProfile.sample (Uuid.fill 1) F64.two).maxNotional = F64.two from rfl,
    effectiveCap_sample]
  rfl

theorem step_pulsed : sealStep .layer2 (.init, []) (.authorize .pulsed)
    = some (⟨[pulsedRow], [], []⟩, [pulsedSnapshot]) := by
  have hcap : ¬ F64.two.toRat < pendingSum [] (Uuid.fill 1) + F64.one.toRat := by
    rw [pendingSum_nil, zero_add, not_lt]
    exact F64.toRat_one_le_two
  have hcommit : (authorizeCommit .signing [] (.commit (sampleArgs .signing (.fill 2) .pulsed
      sampleDecision) (some (F64.two.toRat, MtaState.sample.regimeLabel)) false)).1 = [pulsedRow] :=
    (authorizeCommit_sample .signing (.fill 2) .pulsed rfl [] F64.two.toRat
      MtaState.sample.regimeLabel false).trans (if_neg hcap)
  have hprep : (authorizePrepare Deployment.layer2.K Deployment.layer2.cfg
    AuthorizeCall.pulsed.agents
      AuthorizeCall.pulsed.hs AuthorizeCall.pulsed.env AuthorizeCall.pulsed.req).2 = _ :=
    congrArg Prod.snd prepare_pulsed
  have hstep := step_authorize .layer2 .init .pulsed hprep (by simp [System.init])
  have hsnaps : sealedBy .layer2 .init (.authorize .pulsed) = [pulsedSnapshot] := by
    rw [sealedBy, hprep]
    show ((authorizeCommit .signing [] _).1.drop 0).map _ = _
    rw [hcommit]
    rfl
  rw [sealStep, hstep, hsnaps]
  show some (System.mk (authorizeCommit .signing [] _).1 [] [], _) = _
  rw [hcommit]
  rfl

/-- The row of that order is bound to its heartbeat. -/
theorem layer2_bound_sample :
    List.Forall₂ (SealedWith .signing .layer2) [pulsedRow] [pulsedSnapshot] :=
  layer2_bound .layer2 rfl (Run.run_cons step_pulsed []) fun e he => by
    rw [List.mem_singleton.1 he]
    trivial

/-- The heartbeat of that order names no broadcast, and another regime than the MTA state. -/
theorem layer2_unbound : ∃ es s snap, Run.run (sealStep .layer2) (.init, []) es = some (s, [snap]) ∧
    s.traces.map TraceRow.traceId = [snap.traceId] ∧ snap.heartbeat.mtaRef ≠ snap.mtaHash ∧
    snap.heartbeat.regimeId ≠ snap.mtaRegimeId := by
  refine ⟨[.authorize .pulsed], _, _, Run.run_cons step_pulsed [], rfl, ?_, ?_⟩
  · decide
  · decide

end IrlEngine
