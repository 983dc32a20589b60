import IrlEngine.Authorize
import IrlEngine.Lib.Run

/-!
# Anti-replay

What the sequence check of `HeartbeatValidator` is worth over whole runs, with calls
that overlap and with restarts of the process.

* `accepted_once` — while no call is overtaken between its lookup and its insert, no
  sequence of an agent is accepted twice and the last sequence of an agent never
  decreases.  `validate` does the lookup and the insert as two operations on the map, so
  overtaking is possible.
* `replay_rejected` — while no sequence from `2 ^ 63` on is accepted after a smaller one
  has been stored, an accepted sequence stays rejected across restarts.  The table holds a
  signed `BIGINT`, and the upsert compares signed.
-/

namespace IrlEngine

/-! ## Overlapping calls -/

/-- A call of `validate`, with what it reads of the clock. -/
structure ValidateCall where
  agentId : Uuid
  heartbeat : SignedHeartbeat
  now : Int64

/-- How far a validation has come. -/
inductive ValidatePhase where
  /-- All checks passed against the sequence `last`, which was read when `seen` sequences
  had been accepted; the insert is still to come. -/
  | checked (last : UInt64) (seen : ℕ) (drift : Int64)
  | rejected (e : AppError)
  | accepted (drift : Int64)

/-- The map of a running validator, the calls that have begun, and the sequences that
were accepted, in order. -/
structure Validator where
  sequences : Uuid → Option UInt64
  calls : List (ValidateCall × ValidatePhase)
  accepted : List (Uuid × UInt64)

/-- A validator that has served no call yet. -/
def Validator.start (sequences : Uuid → Option UInt64) : Validator := ⟨sequences, [], []⟩

/-- `sequences.get(&agent_id).unwrap_or(0)`. -/
def Validator.last (s : Validator) (agentId : Uuid) : UInt64 := (s.sequences agentId).getD 0

/-- The two accesses of a call to the map. -/
inductive ValidateEvent where
  /-- A new call: the signature, the lookup, and the checks against what it read. -/
  | lookup (call : ValidateCall)
  /-- The insert of the `k`-th call. -/
  | insert (k : ℕ)

/-- The signature, sequence and drift checks of a call that reads the map now. -/
def Validator.check (K : Crates) (cfg : Config) (s : Validator) (call : ValidateCall) :
    ValidatePhase :=
  match verifySignature K cfg call.heartbeat with
  | .error e => .rejected e
  | .ok () =>
    match checkFreshness cfg (s.last call.agentId) call.now call.heartbeat with
    | .error e => .rejected e
    | .ok drift => .checked (s.last call.agentId) s.accepted.length drift

/-- The step of an event. -/
def validateStep (K : Crates) (cfg : Config) (s : Validator) : ValidateEvent → Option Validator
  | .lookup call => some { s with calls := s.calls ++ [(call, s.check K cfg call)] }
  | .insert k =>
    match s.calls[k]? with
    | some (call, .checked _ _ drift) =>
      some {
        sequences := Function.update s.sequences call.agentId (some call.heartbeat.sequenceId)
        calls := s.calls.set k (call, .accepted drift)
        accepted := s.accepted ++ [(call.agentId, call.heartbeat.sequenceId)] }
    | _ => none

/-- Since the call looked up, no other call has inserted an equal or higher sequence of the
same agent. -/
def NotOvertaken (s : Validator) : ValidateEvent → Prop
  | .lookup _ => True
  | .insert k => ∀ call last seen drift, s.calls[k]? = some (call, .checked last seen drift) →
      ∀ p ∈ s.accepted.drop seen, p.1 = call.agentId → p.2 < call.heartbeat.sequenceId

section Overlap

variable {K : Crates} {cfg : Config} {s t : Validator} {call : ValidateCall}

theorem checkFreshness_ok {last : UInt64} {now drift : Int64} {h : SignedHeartbeat}
    (hok : checkFreshness cfg last now h = .ok drift) : last < h.sequenceId := by
  unfold checkFreshness at hok
  by_cases hstale : h.sequenceId ≤ last
  · rw [if_pos hstale] at hok
    exact absurd hok (by simp)
  · exact UInt64.not_le.1 hstale

theorem check_checked {last : UInt64} {seen : ℕ} {drift : Int64}
    (h : s.check K cfg call = .checked last seen drift) :
    last = s.last call.agentId ∧ seen = s.accepted.length ∧ last < call.heartbeat.sequenceId := by
  unfold Validator.check at h
  cases hsig : verifySignature K cfg call.heartbeat with
  | error e => simp [hsig] at h
  | ok u =>
    cases hfresh : checkFreshness cfg (s.last call.agentId) call.now call.heartbeat with
    | error e => simp [hsig, hfresh] at h
    | ok d =>
      simp only [hsig, hfresh, ValidatePhase.checked.injEq] at h
      obtain ⟨rfl, rfl, -⟩ := h
      exact ⟨rfl, rfl, checkFreshness_ok hfresh⟩

/-- A lookup with the insert right after it is a call of `validate`. -/
theorem validate_eq_check (hs : HeartbeatState) (persisted : Bool)
    (hmap : hs.sequences = s.sequences) :
    (hs.validate K cfg call.heartbeat call.agentId call.now persisted).2
      = match s.check K cfg call with
        | .checked _ _ drift => .ok drift
        | .rejected e => .error e
        | .accepted drift => .ok drift := by
  have hlast : (hs.sequences call.agentId).getD 0 = s.last call.agentId := by
    rw [hmap]
    rfl
  unfold HeartbeatState.validate Validator.check
  rw [hlast]
  cases verifySignature K cfg call.heartbeat with
  | error e => rfl
  | ok u =>
    cases checkFreshness cfg (s.last call.agentId) call.now call.heartbeat with
    | error e => rfl
    | ok d => rfl

/-- What a call that is about to insert knows of the map: it is as the call read it, or it
holds a sequence that was accepted since. -/
def CheckedSound (s : Validator) (call : ValidateCall) : ValidatePhase → Prop
  | .checked last seen _ => last < call.heartbeat.sequenceId ∧ seen ≤ s.accepted.length ∧
      (s.last call.agentId = last ∨ (call.agentId, s.last call.agentId) ∈ s.accepted.drop seen)
  | _ => True

/-- The invariant behind `accepted_once`. -/
structure OnceInv (s : Validator) : Prop where
  checked : ∀ c ∈ s.calls, CheckedSound s c.1 c.2
  below : ∀ p ∈ s.accepted, p.2 ≤ s.last p.1
  nodup : s.accepted.Nodup

theorem last_update (agentId other : Uuid) (seq : UInt64)
    (calls : List (ValidateCall × ValidatePhase)) (accepted : List (Uuid × UInt64)) :
    Validator.last ⟨Function.update s.sequences agentId (some seq), calls, accepted⟩ other
      = if other = agentId then seq else s.last other := by
  show (Function.update s.sequences agentId (some seq) other).getD 0 = _
  by_cases h : other = agentId
  · rw [if_pos h, h, Function.update_self, Option.getD_some]
  · rw [if_neg h, Function.update_of_ne h]
    rfl

/-- Recording a higher sequence lowers the last sequence of no agent. -/
theorem last_le_update {agentId : Uuid} {seq : UInt64} (h : s.last agentId < seq)
    (calls : List (ValidateCall × ValidatePhase)) (accepted : List (Uuid × UInt64)) (other : Uuid) :
    s.last other
      ≤ Validator.last ⟨Function.update s.sequences agentId (some seq), calls, accepted⟩ other := by
  rw [last_update]
  by_cases hother : other = agentId
  · rw [if_pos hother, hother]
    exact UInt64.le_of_lt h
  · rw [if_neg hother]
    exact UInt64.le_refl _

/-- The sequence that a call inserts is above the last one, unless the call was overtaken. -/
theorem last_lt_of_checked {last : UInt64} {seen : ℕ} {drift : Int64}
    (hc : CheckedSound s call (.checked last seen drift))
    (hP : ∀ p ∈ s.accepted.drop seen, p.1 = call.agentId → p.2 < call.heartbeat.sequenceId) :
    s.last call.agentId < call.heartbeat.sequenceId := by
  obtain ⟨hlt, -, hlast | hmem⟩ := hc
  · rw [hlast]
    exact hlt
  · exact hP _ hmem rfl

/-- The insert of one call leaves the others sound. -/
theorem CheckedSound.insert {agentId : Uuid} {seq : UInt64} {c : ValidateCall × ValidatePhase}
    (hc : CheckedSound s c.1 c.2) (calls : List (ValidateCall × ValidatePhase)) :
    CheckedSound ⟨Function.update s.sequences agentId (some seq), calls,
      s.accepted ++ [(agentId, seq)]⟩ c.1 c.2 := by
  obtain ⟨call, phase⟩ := c
  cases phase with
  | checked last seen drift =>
    obtain ⟨hlt, hseen, hlast⟩ := hc
    refine ⟨hlt, ?_, ?_⟩
    · show seen ≤ (s.accepted ++ [(agentId, seq)]).length
      rw [List.length_append]
      omega
    · show Validator.last _ call.agentId = last ∨
        (call.agentId, Validator.last _ call.agentId) ∈ (s.accepted ++ [(agentId, seq)]).drop seen
      rw [last_update, List.drop_append_of_le_length hseen, List.mem_append]
      by_cases h : call.agentId = agentId
      · rw [if_pos h, h]
        exact Or.inr (Or.inr (List.mem_singleton.2 rfl))
      · rw [if_neg h]
        exact hlast.imp id Or.inl
  | rejected e => trivial
  | accepted d => trivial

/-- What the insert of the `k`-th call does. -/
theorem validateStep_insert {k : ℕ} (h : validateStep K cfg s (.insert k) = some t) :
    ∃ call last seen drift, s.calls[k]? = some (call, .checked last seen drift) ∧
      t = ⟨Function.update s.sequences call.agentId (some call.heartbeat.sequenceId),
        s.calls.set k (call, .accepted drift),
        s.accepted ++ [(call.agentId, call.heartbeat.sequenceId)]⟩ := by
  simp only [validateStep] at h
  split at h
  · rename_i call last seen drift hk
    exact ⟨call, last, seen, drift, hk, (Option.some.inj h).symm⟩
  · exact absurd h (by simp)

theorem OnceInv.step {e : ValidateEvent} (hs : OnceInv s) (hP : NotOvertaken s e)
    (h : validateStep K cfg s e = some t) :
    OnceInv t ∧ ∀ agentId, s.last agentId ≤ t.last agentId := by
  cases e with
  | lookup call =>
    obtain rfl := Option.some.inj h
    refine ⟨⟨?_, hs.below, hs.nodup⟩, fun agentId => UInt64.le_refl _⟩
    intro c hc
    rcases List.mem_append.1 hc with hc | hc
    · exact hs.checked c hc
    · rw [List.mem_singleton.1 hc]
      show CheckedSound s call (s.check K cfg call)
      cases hcheck : s.check K cfg call with
      | checked last seen drift =>
        obtain ⟨rfl, rfl, hlt⟩ := check_checked hcheck
        exact ⟨hlt, le_refl _, Or.inl rfl⟩
      | rejected e => trivial
      | accepted d => trivial
  | insert k =>
    obtain ⟨call, last, seen, drift, hk, rfl⟩ := validateStep_insert h
    have hlt := last_lt_of_checked (hs.checked _ (List.mem_of_getElem? hk))
      (hP call last seen drift hk)
    refine ⟨⟨?_, ?_, ?_⟩, last_le_update hlt _ _⟩
    · intro c hc
      rcases List.mem_or_eq_of_mem_set hc with hc | rfl
      · exact (hs.checked c hc).insert _
      · trivial
    · intro p hp
      rcases List.mem_append.1 hp with hp | hp
      · exact UInt64.le_trans (hs.below p hp) (last_le_update hlt _ _ p.1)
      · show p.2 ≤ Validator.last _ p.1
        rw [List.mem_singleton.1 hp, last_update, if_pos rfl]
        exact UInt64.le_refl _
    · -- the new pair is above all accepted sequences of its agent
      rw [List.nodup_append]
      refine ⟨hs.nodup, List.nodup_singleton _, ?_⟩
      intro p hp q hq hpq
      rw [hpq, List.mem_singleton.1 hq] at hp
      exact absurd (hs.below _ hp) (UInt64.not_le.2 hlt)

end Overlap

/-- **No sequence is accepted twice** by overlapping calls none of which is overtaken, and
the last sequence of an agent never decreases. -/
theorem accepted_once (K : Crates) (cfg : Config) (sequences : Uuid → Option UInt64)
    {s t : Validator} {es fs : List ValidateEvent}
    (hs : Run.run (validateStep K cfg) (.start sequences) es = some s)
    (ht : Run.run (validateStep K cfg) s fs = some t)
    (hP : Run.Along (validateStep K cfg) NotOvertaken (.start sequences) (es ++ fs)) :
    t.accepted.Nodup ∧ ∀ agentId, s.last agentId ≤ t.last agentId := by
  have hinit : OnceInv (.start sequences) :=
    ⟨fun c hc => absurd hc (by simp [Validator.start]),
      fun p hp => absurd hp (by simp [Validator.start]), List.nodup_nil⟩
  obtain ⟨hPes, hPfs⟩ := Run.along_append hP hs
  have hinv : OnceInv s :=
    Run.run_invariant_along (fun s e t hs hP h => (hs.step hP h).1) hs hPes hinit
  refine ⟨(Run.run_invariant_along (fun s e t hs hP h => (hs.step hP h).1) ht hPfs hinv).nodup, ?_⟩
  refine Run.run_relates_along (R := fun s t => ∀ agentId, s.last agentId ≤ t.last agentId)
    (fun s agentId => UInt64.le_refl _)
    (fun s t u hst htu agentId => UInt64.le_trans (hst agentId) (htu agentId))
    (fun s e t hs hP h => (hs.step hP h).1) (fun s e t hs hP h => (hs.step hP h).2) ht hPfs hinv

/-! A sample run: one agent, and heartbeats that all verify. -/

/-- The sample crates, with an operator key under which the presented signatures verify. -/
def Crates.signing : Crates := { Crates.sample with ed25519Verify := fun _ _ _ => true }

/-- Layer 2 is on. -/
def Config.layer2 : Config := { Config.sample with layer2Enabled := true }

/-- A heartbeat that was sent at time 2 and names no broadcast. -/
def SignedHeartbeat.sample (sequenceId : UInt64) : SignedHeartbeat :=
  ⟨sequenceId, 2, 0, "", List.replicate 64 0⟩

/-- A heartbeat of the sample agent. -/
def ValidateCall.sample (sequenceId : UInt64) : ValidateCall := ⟨.fill 1, .sample sequenceId, 2⟩

theorem verifySignature_signing (sequenceId : UInt64) :
    verifySignature .signing .layer2 (.sample sequenceId) = .ok () := rfl

theorem checkFreshness_sample {last sequenceId : UInt64} (h : last < sequenceId) :
    checkFreshness .layer2 last 2 (.sample sequenceId) = .ok 0 := by
  have hfresh : ¬ (SignedHeartbeat.sample sequenceId).sequenceId ≤ last := UInt64.not_le.2 h
  have hdrift : ¬ ((2 : Int64) - (SignedHeartbeat.sample sequenceId).timestampMs.toInt64 < 0 ∨
      Config.layer2.maxHeartbeatDriftMs
        < ((2 : Int64) - (SignedHeartbeat.sample sequenceId).timestampMs.toInt64).toUInt64) := by
    show ¬ ((2 : Int64) - (2 : UInt64).toInt64 < 0 ∨
      200 < ((2 : Int64) - (2 : UInt64).toInt64).toUInt64)
    decide
  rw [checkFreshness, if_neg hfresh]
  refine (if_neg hdrift).trans (congrArg Except.ok ?_)
  show (2 : Int64) - (2 : UInt64).toInt64 = 0
  decide

theorem check_sample {s : Validator} {sequenceId : UInt64} (h : s.last (.fill 1) < sequenceId) :
    s.check .signing .layer2 (.sample sequenceId)
      = .checked (s.last (.fill 1)) s.accepted.length 0 := by
  have hfresh : checkFreshness .layer2 (s.last (ValidateCall.sample sequenceId).agentId)
      (ValidateCall.sample sequenceId).now (ValidateCall.sample sequenceId).heartbeat = .ok 0 :=
    checkFreshness_sample h
  rw [Validator.check, hfresh]
  rfl

/-- Two calls that have both looked up, and neither has inserted. -/
def racing (p q : UInt64) : Validator :=
  ⟨fun _ => none, [(.sample p, .checked 0 0 0), (.sample q, .checked 0 0 0)], []⟩

theorem run_racing {p q : UInt64} (hp : 0 < p) (hq : 0 < q) :
    Run.run (validateStep .signing .layer2) (.start fun _ => none)
      [.lookup (.sample p), .lookup (.sample q)] = some (racing p q) := by
  have hp' : (Validator.start fun _ => none).check .signing .layer2 (.sample p) = .checked 0 0 0 :=
    check_sample hp
  have hq' : (Validator.mk (fun _ => none) [(.sample p, .checked 0 0 0)] []).check .signing .layer2
      (.sample q) = .checked 0 0 0 := check_sample hq
  have hfirst : validateStep .signing .layer2 (.start fun _ => none) (.lookup (.sample p))
      = some ⟨fun _ => none, [(.sample p, .checked 0 0 0)], []⟩ := by
    rw [validateStep, hp']
    rfl
  have hsecond : validateStep .signing .layer2 ⟨fun _ => none, [(.sample p, .checked 0 0 0)], []⟩
      (.lookup (.sample q)) = some (racing p q) := by
    rw [validateStep, hq']
    rfl
  rw [Run.run_cons hfirst, Run.run_cons hsecond, Run.run_nil]

/-- Two overlapping calls accept one sequence twice, and two others make the last sequence
of the agent drop from 2 to 1. -/
theorem accepted_twice_or_dropped :
    (∃ es s, Run.run (validateStep .signing .layer2) (.start fun _ => none) es = some s ∧
      ¬ s.accepted.Nodup) ∧
    ∃ es fs s t, Run.run (validateStep .signing .layer2) (.start fun _ => none) es = some s ∧
      Run.run (validateStep .signing .layer2) s fs = some t ∧
        t.last (.fill 1) < s.last (.fill 1) := by
  have htwice := Run.run_append_of_eq (run_racing (p := 1) (q := 1) (by decide) (by decide))
    [.insert 0, .insert 1]
  have hdrop :=
    Run.run_append_of_eq (run_racing (p := 1) (q := 2) (by decide) (by decide)) [.insert 1]
  refine ⟨⟨_, _, htwice.trans rfl, ?_⟩, _, [.insert 0], _, _, hdrop.trans rfl, rfl, ?_⟩
  · decide
  · decide

/-- One call of an agent, alone. -/
theorem accepted_once_sample :
    [(Uuid.fill 1, (1 : UInt64))].Nodup ∧ ∀ agentId, (Validator.start fun _ => none).last agentId
      ≤ Validator.last ⟨Function.update (fun _ => none) (.fill 1) (some 1),
          [(.sample 1, .accepted 0)], [(.fill 1, 1)]⟩ agentId := by
  have hcheck : (Validator.start fun _ => none).check .signing .layer2 (.sample 1)
    = .checked 0 0 0 :=
    check_sample (by decide)
  have hlookup : validateStep .signing .layer2 (.start fun _ => none) (.lookup (.sample 1))
      = some ⟨fun _ => none, [(.sample 1, .checked 0 0 0)], []⟩ := by
    rw [validateStep, hcheck]
    rfl
  have hstart : Run.run (validateStep .signing .layer2) (.start fun _ => none) []
      = some (.start fun _ => none) := rfl
  refine accepted_once .signing .layer2 (fun _ => none) hstart
    ((Run.run_cons hlookup [.insert 0]).trans rfl) (Run.along_cons trivial hlookup ?_)
  refine ⟨?_, fun _ _ => trivial⟩
  intro call last seen drift hk p hp
  exact absurd (List.mem_of_mem_drop hp) (by simp)

/-! ## Restarts -/

/-- `HeartbeatValidator::new`: the map as the table has it. -/
def HeartbeatState.hydrate (stored : Uuid → Option Int64) : HeartbeatState :=
  ⟨fun agentId => (stored agentId).map Int64.toUInt64, stored⟩

/-- A call of `validate`, or a restart of the engine. -/
inductive ServeEvent where
  /-- A call of `validate` whose upsert succeeds. -/
  | validate (agentId : Uuid) (heartbeat : SignedHeartbeat) (now : Int64)
  | restart

/-- The heartbeat state and the sequences accepted so far, after an event. -/
def serveStep (K : Crates) (cfg : Config) (x : HeartbeatState × List (Uuid × UInt64)) :
    ServeEvent → Option (HeartbeatState × List (Uuid × UInt64))
  | .validate agentId h now =>
    match x.1.validate K cfg h agentId now true with
    | (s, .ok _) => some (s, x.2 ++ [(agentId, h.sequenceId)])
    | (s, .error _) => some (s, x.2)
  | .restart => some (.hydrate x.1.stored, x.2)

/-- A heartbeat that passes the checks has a sequence below `2 ^ 63`, or the row of its agent
holds none below `2 ^ 63`: read as signed numbers, the new sequence is the greater one. -/
def SignedOrder (K : Crates) (cfg : Config) (x : HeartbeatState × List (Uuid × UInt64)) :
    ServeEvent → Prop
  | .validate agentId h now => ∀ drift, verifySignature K cfg h = .ok () →
      checkFreshness cfg ((x.1.sequences agentId).getD 0) now h = .ok drift →
      2 ^ 63 ≤ h.sequenceId.toNat → ∀ old, x.1.stored agentId = some old → old < 0
  | .restart => True

section Restart

variable {K : Crates} {cfg : Config} {s : HeartbeatState} {log : List (Uuid × UInt64)}

theorem toInt_toInt64 (n : UInt64) :
    n.toInt64.toInt = if n.toNat < 2 ^ 63 then (n.toNat : ℤ) else (n.toNat : ℤ) - 2 ^ 64 := by
  show n.toBitVec.toInt = _
  rw [BitVec.toInt_eq_toNat_cond]
  show (if 2 * n.toNat < 2 ^ 64 then (n.toNat : ℤ) else (n.toNat : ℤ) - (2 ^ 64 : ℕ)) = _
  by_cases h : n.toNat < 2 ^ 63
  · rw [if_pos h, if_pos (by omega)]
  · rw [if_neg h, if_neg (by omega)]
    rfl

/-- On one side of `2 ^ 63` the signed order is the unsigned one. -/
theorem toInt64_lt (old seq : UInt64) (hlt : old < seq)
    (hside : 2 ^ 63 ≤ seq.toNat → old.toInt64 < 0) : old.toInt64 < seq.toInt64 := by
  have hnat : old.toNat < seq.toNat := UInt64.lt_iff_toNat_lt.1 hlt
  rw [Int64.lt_iff_toInt_lt, toInt_toInt64, toInt_toInt64]
  by_cases hseq : seq.toNat < 2 ^ 63
  · rw [if_pos hseq, if_pos (by omega)]
    exact_mod_cast hnat
  · have hneg := Int64.lt_iff_toInt_lt.1 (hside (by omega))
    rw [toInt_toInt64] at hneg
    by_cases hold : old.toNat < 2 ^ 63
    · rw [if_pos hold] at hneg
      exact absurd hneg (by simp)
    · rw [if_neg hold, if_neg hseq]
      omega

/-- The invariant behind `replay_rejected`: the map is what a restart would make of the
table, and no accepted sequence is above it. -/
structure ReplayInv (x : HeartbeatState × List (Uuid × UInt64)) : Prop where
  hydrated : x.1.sequences = fun agentId => (x.1.stored agentId).map Int64.toUInt64
  below : ∀ p ∈ x.2, p.2 ≤ (x.1.sequences p.1).getD 0

/-- The upsert stores a sequence that is the greater one as a signed number. -/
theorem accept_stored {agentId : Uuid} {seq : UInt64}
    (hgreater : ∀ old, s.stored agentId = some old → old < seq.toInt64) :
    (s.accept agentId seq true).stored = Function.update s.stored agentId (some seq.toInt64) := by
  unfold HeartbeatState.accept
  cases hrow : s.stored agentId with
  | none => simp
  | some old => simp [hgreater old hrow]

theorem ReplayInv.accept (hs : ReplayInv (s, log)) {agentId : Uuid} {seq : UInt64}
    (hfresh : ¬ seq ≤ (s.sequences agentId).getD 0)
    (hside : 2 ^ 63 ≤ seq.toNat → ∀ old, s.stored agentId = some old → old < 0) :
    ReplayInv (s.accept agentId seq true, log ++ [(agentId, seq)]) := by
  have hlt := UInt64.not_le.1 hfresh
  have hgreater : ∀ old, s.stored agentId = some old → old < seq.toInt64 := by
    intro old hold
    have hlast : (s.sequences agentId).getD 0 = old.toUInt64 := by
      rw [hs.hydrated]
      show ((s.stored agentId).map Int64.toUInt64).getD 0 = _
      rw [hold]
      rfl
    rw [hlast] at hlt
    exact toInt64_lt old.toUInt64 seq hlt fun h => hside h old hold
  refine ⟨?_, ?_⟩
  · show Function.update s.sequences agentId (some seq) = fun other =>
      ((s.accept agentId seq true).stored other).map Int64.toUInt64
    rw [accept_stored hgreater]
    funext other
    by_cases hother : other = agentId
    · rw [hother, Function.update_self, Function.update_self]
      rfl
    · rw [Function.update_of_ne hother, Function.update_of_ne hother, hs.hydrated]
  · intro p hp
    show p.2 ≤ (Function.update s.sequences agentId (some seq) p.1).getD 0
    by_cases hp1 : p.1 = agentId
    · rw [hp1, Function.update_self, Option.getD_some]
      rcases List.mem_append.1 hp with hp | hp
      · exact UInt64.le_trans (hp1 ▸ hs.below p hp) (UInt64.le_of_lt hlt)
      · rw [List.mem_singleton.1 hp]
        exact UInt64.le_refl _
    · rw [Function.update_of_ne hp1]
      rcases List.mem_append.1 hp with hp | hp
      · exact hs.below p hp
      · exact absurd (congrArg Prod.fst (List.mem_singleton.1 hp)) hp1

theorem ReplayInv.step {x y : HeartbeatState × List (Uuid × UInt64)} {e : ServeEvent}
    (hs : ReplayInv x) (hP : SignedOrder K cfg x e) (h : serveStep K cfg x e = some y) :
    ReplayInv y := by
  obtain ⟨s, log⟩ := x
  cases e with
  | validate agentId hb now =>
    simp only [serveStep] at h
    rcases hval : s.validate K cfg hb agentId now true with ⟨s', res⟩
    rw [hval] at h
    cases res with
    | error e =>
      obtain rfl : s' = s := validate_error hval
      rw [← Option.some.inj h]
      exact hs
    | ok drift =>
      obtain ⟨hfresh, rfl⟩ := validate_ok hval
      rw [← Option.some.inj h]
      obtain ⟨hsig, hcheck⟩ := validate_checks hval
      exact hs.accept hfresh (hP drift hsig hcheck)
  | restart =>
    rw [← Option.some.inj h]
    refine ⟨rfl, ?_⟩
    intro p hp
    show p.2 ≤ ((s.stored p.1).map Int64.toUInt64).getD 0
    have hbelow := hs.below p hp
    rw [hs.hydrated] at hbelow
    exact hbelow

end Restart

/-- **Anti-replay survives restarts**: while the signed order of the table agrees with the
order of the accepted sequences, an accepted sequence is stale for its agent ever after. -/
theorem replay_rejected (K : Crates) (cfg : Config) (stored : Uuid → Option Int64)
    {es : List ServeEvent} {s : HeartbeatState} {log : List (Uuid × UInt64)}
    (hrun : Run.run (serveStep K cfg) (.hydrate stored, []) es = some (s, log))
    (hP : Run.Along (serveStep K cfg) (SignedOrder K cfg) (.hydrate stored, []) es) :
    ∀ p ∈ log, ∀ (h : SignedHeartbeat) (now : Int64) (persisted : Bool), h.sequenceId = p.2 →
      verifySignature K cfg h = .ok () →
      (s.validate K cfg h p.1 now persisted).2
        = .error (.heartbeat (.staleSequence p.2 ((s.sequences p.1).getD 0))) := by
  have hinit : ReplayInv (.hydrate stored, []) := ⟨rfl, fun p hp => absurd hp (by simp)⟩
  have hinv := Run.run_invariant_along (fun x e y hx hP h => hx.step hP h) hrun hP hinit
  intro p hp h now persisted hseq hsig
  have hstale : h.sequenceId ≤ (s.sequences p.1).getD 0 := hseq ▸ hinv.below p hp
  have hcheck : checkFreshness cfg ((s.sequences p.1).getD 0) now h
      = .error (.heartbeat (.staleSequence p.2 ((s.sequences p.1).getD 0))) := by
    rw [checkFreshness, if_pos hstale, hseq]
  simp only [HeartbeatState.validate, hsig, hcheck]

theorem validate_sample {s : HeartbeatState} {seq : UInt64}
    (h : (s.sequences (.fill 1)).getD 0 < seq) :
    s.validate .signing .layer2 (.sample seq) (.fill 1) 2 true
      = (s.accept (.fill 1) seq true, .ok 0) := by
  simp only [HeartbeatState.validate, verifySignature_signing, checkFreshness_sample h]
  rfl

/-- An accepted sample heartbeat. -/
theorem serveStep_sample (s : HeartbeatState) (log : List (Uuid × UInt64)) (seq : UInt64)
    (h : (s.sequences (.fill 1)).getD 0 < seq) :
    serveStep .signing .layer2 (s, log) (.validate (.fill 1) (.sample seq) 2)
      = some (s.accept (.fill 1) seq true, log ++ [(.fill 1, seq)]) := by
  simp only [serveStep, validate_sample h]
  rfl

/-- A heartbeat is accepted, the process restarts, and the heartbeat is rejected. -/
theorem replay_rejected_sample :
    ((HeartbeatState.hydrate (HeartbeatState.init.accept (.fill 1) 1 true).stored).validate .signing
        .layer2 (.sample 1) (.fill 1) 2 true).2 = .error (.heartbeat (.staleSequence 1 1)) := by
  have hstep := serveStep_sample (.hydrate fun _ => none) [] 1 (by decide)
  have hrun : Run.run (serveStep .signing .layer2) (.hydrate fun _ => none, [])
      [.validate (.fill 1) (.sample 1) 2, .restart]
      = some (.hydrate (HeartbeatState.init.accept (.fill 1) 1 true).stored, [(.fill 1, 1)]) :=
    (Run.run_cons hstep _).trans rfl
  refine replay_rejected .signing .layer2 (fun _ => none) hrun (Run.along_cons ?_ hstep ?_)
    (.fill 1, 1) (List.mem_singleton.2 rfl) (.sample 1) 2 true rfl (verifySignature_signing 1)
  · intro _ _ _ hlarge
    exact absurd hlarge (by decide)
  · exact ⟨trivial, fun _ _ => trivial⟩

/-- The sequence `2 ^ 63` is accepted after 1, and again after a restart. -/
theorem replay_accepted : ∃ es s log,
    Run.run (serveStep .signing .layer2) (.hydrate fun _ => none, []) (es ++ [.restart])
      = some (s, log) ∧ (Uuid.fill 1, 0x8000000000000000) ∈ log ∧
      (s.validate .signing .layer2 (.sample 0x8000000000000000) (.fill 1) 2 true).2 = .ok 0 := by
  have hfirst := serveStep_sample (.hydrate fun _ => none) [] 1 (by decide)
  have hsecond := serveStep_sample ((HeartbeatState.hydrate fun _ => none).accept (.fill 1) 1 true)
    [(.fill 1, 1)] 0x8000000000000000 (by decide)
  have hlast : ((HeartbeatState.hydrate (((HeartbeatState.hydrate fun _ => none).accept (.fill 1) 1
      true).accept (.fill 1) 0x8000000000000000 true).stored).sequences (.fill 1)).getD 0
        < 0x8000000000000000 := by decide
  refine ⟨[.validate (.fill 1) (.sample 1) 2, .validate (.fill 1) (.sample 0x8000000000000000) 2],
    _, _, (Run.run_cons hfirst _).trans ((Run.run_cons hsecond _).trans rfl), by simp, ?_⟩
  exact congrArg Prod.snd (validate_sample hlast)

end IrlEngine
