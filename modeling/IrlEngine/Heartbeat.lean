import IrlEngine.Policy
import Mathlib.Logic.Function.Basic

/-!
# Heartbeat validation

`heartbeat.rs`: the signed payload, the three checks in their order (signature,
sequence, drift) and the sequence map with its copy in `irl.heartbeat_sequences`.
Drift is computed in wrapping 64-bit arithmetic, as a release build does.
-/

namespace IrlEngine

/-- `TimeSource`, which the settings choose. -/
inductive TimeSource where
  | system
  | ntpSynced
  deriving DecidableEq, Repr

/-- The `Debug` text, which the trace records. -/
def TimeSource.debug : TimeSource → String
  | .system => "System"
  | .ntpSynced => "NtpSynced"

/-- The settings that the modelled functions read. -/
structure Config where
  mtaPubkey : List UInt8
  timeSource : TimeSource
  maxHeartbeatDriftMs : UInt64
  layer2Enabled : Bool
  bindSizeTolerance : F64
  traceExpiryMs : UInt64

/-- The eight big-endian bytes of a 64-bit word. -/
def beBytes (n : UInt64) : List UInt8 :=
  (List.range 8).map fun i => UInt8.ofNat (n.toNat >>> (8 * (7 - i)))

/-- `seq_id || timestamp_ms || regime_id || mta_ref`. -/
def SignedHeartbeat.signedPayload (h : SignedHeartbeat) : List UInt8 :=
  beBytes h.sequenceId ++ beBytes h.timestampMs ++ [h.regimeId] ++ Text.utf8 h.mtaRef

/-- The last accepted sequence of each agent, in memory and in the database. -/
structure HeartbeatState where
  sequences : Uuid → Option UInt64
  stored : Uuid → Option Int64

/-- No agent has been heard of. -/
def HeartbeatState.init : HeartbeatState := ⟨fun _ => none, fun _ => none⟩

/-- The signature check of `validate`. -/
def verifySignature (K : Crates) (cfg : Config) (h : SignedHeartbeat) : Except AppError Unit :=
  if h.signature.length = 64 ∧
      K.ed25519Verify cfg.mtaPubkey h.signedPayload h.signature = true then .ok ()
  else .error (.heartbeat .invalidSignature)

/-- The sequence check against the last accepted sequence, then the drift check;
the drift is returned. -/
def checkFreshness (cfg : Config) (last : UInt64) (now : Int64) (h : SignedHeartbeat) :
    Except AppError Int64 :=
  if h.sequenceId ≤ last then .error (.heartbeat (.staleSequence h.sequenceId last))
  else
    let drift := now - h.timestampMs.toInt64
    if drift < 0 ∨ cfg.maxHeartbeatDriftMs < drift.toUInt64 then
      .error (.heartbeat (.latencyThresholdExceeded (UInt64.ofNat drift.toInt.natAbs)
        cfg.maxHeartbeatDriftMs))
    else .ok drift

/-- Record an accepted sequence; the database keeps the greater one, and keeps what
it has when the write fails. -/
def HeartbeatState.accept (s : HeartbeatState) (agentId : Uuid) (sequenceId : UInt64)
    (persisted : Bool) : HeartbeatState where
  sequences := Function.update s.sequences agentId (some sequenceId)
  stored :=
    let seq := sequenceId.toInt64
    match s.stored agentId with
    | some old => if persisted ∧ old < seq then Function.update s.stored agentId (some seq)
        else s.stored
    | none => if persisted then Function.update s.stored agentId (some seq) else s.stored

/-- `HeartbeatValidator::validate`. -/
def HeartbeatState.validate (K : Crates) (cfg : Config) (s : HeartbeatState) (h : SignedHeartbeat)
    (agentId : Uuid) (now : Int64) (persisted : Bool) : HeartbeatState × Except AppError Int64 :=
  match verifySignature K cfg h with
  | .error e => (s, .error e)
  | .ok () =>
    match checkFreshness cfg ((s.sequences agentId).getD 0) now h with
    | .error e => (s, .error e)
    | .ok drift => (s.accept agentId h.sequenceId persisted, .ok drift)

/-- What an accepted heartbeat leaves behind. -/
theorem validate_ok {K : Crates} {cfg : Config} {s s' : HeartbeatState} {h : SignedHeartbeat}
    {agentId : Uuid} {now drift : Int64} {persisted : Bool}
    (hval : s.validate K cfg h agentId now persisted = (s', .ok drift)) :
    ¬ h.sequenceId ≤ (s.sequences agentId).getD 0 ∧
      s' = s.accept agentId h.sequenceId persisted := by
  unfold HeartbeatState.validate at hval
  cases hsig : verifySignature K cfg h with
  | error e => simp [hsig] at hval
  | ok u =>
    cases hfresh : checkFreshness cfg ((s.sequences agentId).getD 0) now h with
    | error e => simp [hsig, hfresh] at hval
    | ok d =>
      simp only [hsig, hfresh, Prod.mk.injEq] at hval
      refine ⟨fun hstale => ?_, hval.1.symm⟩
      rw [checkFreshness, if_pos hstale] at hfresh
      exact absurd hfresh (by simp)

/-- The checks that an accepted heartbeat has passed. -/
theorem validate_checks {K : Crates} {cfg : Config} {s s' : HeartbeatState} {h : SignedHeartbeat}
    {agentId : Uuid} {now drift : Int64} {persisted : Bool}
    (hval : s.validate K cfg h agentId now persisted = (s', .ok drift)) :
    verifySignature K cfg h = .ok () ∧
      checkFreshness cfg ((s.sequences agentId).getD 0) now h = .ok drift := by
  unfold HeartbeatState.validate at hval
  cases hsig : verifySignature K cfg h with
  | error e => simp [hsig] at hval
  | ok u =>
    cases hfresh : checkFreshness cfg ((s.sequences agentId).getD 0) now h with
    | error e => simp [hsig, hfresh] at hval
    | ok d =>
      simp only [hsig, hfresh, Prod.mk.injEq] at hval
      exact ⟨rfl, hval.2⟩

/-- A rejected heartbeat leaves nothing behind. -/
theorem validate_error {K : Crates} {cfg : Config} {s s' : HeartbeatState} {h : SignedHeartbeat}
    {agentId : Uuid} {now : Int64} {persisted : Bool} {e : AppError}
    (hval : s.validate K cfg h agentId now persisted = (s', .error e)) : s' = s := by
  unfold HeartbeatState.validate at hval
  cases hsig : verifySignature K cfg h with
  | error e => simp only [hsig, Prod.mk.injEq] at hval; exact hval.1.symm
  | ok u =>
    cases hfresh : checkFreshness cfg ((s.sequences agentId).getD 0) now h with
    | error e => simp only [hsig, hfresh, Prod.mk.injEq] at hval; exact hval.1.symm
    | ok d => simp [hsig, hfresh] at hval

/-! ## States that differ in old sequences only -/

/-- The same sequences after `seq` are stale for the agent in both states. -/
def HeartbeatState.AgreeAfter (seq : UInt64) (agentId : Uuid) (s t : HeartbeatState) : Prop :=
  ∀ q, seq < q → (q ≤ (s.sequences agentId).getD 0 ↔ q ≤ (t.sequences agentId).getD 0)

theorem agreeAfter_of_eq {seq : UInt64} {agentId : Uuid} {s t : HeartbeatState}
    (h : s.sequences agentId = t.sequences agentId) : s.AgreeAfter seq agentId t := by
  intro q _
  rw [h]

@[simp] theorem accept_sequences (s : HeartbeatState) (agentId : Uuid) (seq : UInt64)
    (persisted : Bool) : (s.accept agentId seq persisted).sequences agentId = some seq :=
  Function.update_self ..

/-- Accepting a heartbeat makes no newer one stale. -/
theorem agreeAfter_accept {seq : UInt64} {agentId : Uuid} {s : HeartbeatState}
    (h : ¬ seq ≤ (s.sequences agentId).getD 0) (persisted : Bool) :
    s.AgreeAfter seq agentId (s.accept agentId seq persisted) := by
  intro q hq
  rw [accept_sequences, Option.getD_some]
  refine iff_of_false (fun hle => h ?_) (UInt64.not_le.2 hq)
  exact UInt64.le_trans (UInt64.le_of_lt hq) hle

/-- A newer heartbeat is answered alike in both states, and they still agree afterwards. -/
theorem validate_agreeAfter (K : Crates) (cfg : Config) {seq : UInt64} {agentId : Uuid}
    {s t : HeartbeatState} (hst : s.AgreeAfter seq agentId t) {h : SignedHeartbeat}
    (hnew : seq < h.sequenceId) (now : Int64) (persisted : Bool) :
    (s.validate K cfg h agentId now persisted).1.AgreeAfter seq agentId
        (t.validate K cfg h agentId now persisted).1 ∧
      (s.validate K cfg h agentId now persisted).2.toOption
        = (t.validate K cfg h agentId now persisted).2.toOption := by
  unfold HeartbeatState.validate
  cases verifySignature K cfg h with
  | error e => exact ⟨hst, rfl⟩
  | ok u =>
    unfold checkFreshness
    by_cases hstale : h.sequenceId ≤ (s.sequences agentId).getD 0
    · rw [if_pos hstale, if_pos ((hst _ hnew).1 hstale)]
      exact ⟨hst, rfl⟩
    · rw [if_neg hstale, if_neg (mt (hst _ hnew).2 hstale)]
      dsimp only
      split
      · exact ⟨hst, rfl⟩
      · refine ⟨agreeAfter_of_eq ?_, rfl⟩
        rw [accept_sequences, accept_sequences]

end IrlEngine
