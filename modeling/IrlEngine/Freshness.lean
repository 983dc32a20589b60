import IrlEngine.AntiReplay
import IrlEngine.Lib.Framing

/-!
# What a heartbeat is checked for

The payload of a heartbeat is a concatenation of two words, a byte and a text; its age is computed
by casting an unsigned word to a signed one and subtracting, in arithmetic that wraps.

* `signedPayload_inj` — the payload determines the four signed fields;
* `drift_iff` — within the range of the clock, wrapping does not let anything through;
* `validate_exact` — `validate` in the terms of integers, with what it changes.
-/

namespace IrlEngine

/-! ## The signed payload -/

theorem beBytes_eq (n : UInt64) : beBytes n = (Framing.little 8 n.toNat).reverse := rfl

@[simp] theorem length_beBytes (n : UInt64) : (beBytes n).length = 8 := by
  simp [beBytes]

theorem beBytes_injective : Function.Injective beBytes := by
  intro m n h
  rw [beBytes_eq, beBytes_eq] at h
  exact Framing.little_toNat_inj (List.reverse_injective h)

/-- The fields that are signed agree. -/
structure SameSigned (h₁ h₂ : SignedHeartbeat) : Prop where
  sequenceId : h₁.sequenceId = h₂.sequenceId
  timestampMs : h₁.timestampMs = h₂.timestampMs
  regimeId : h₁.regimeId = h₂.regimeId
  mtaRef : h₁.mtaRef = h₂.mtaRef

theorem signedPayload_inj {h₁ h₂ : SignedHeartbeat} (h : h₁.signedPayload = h₂.signedPayload) :
    SameSigned h₁ h₂ := by
  simp only [SignedHeartbeat.signedPayload, List.append_assoc, List.singleton_append] at h
  obtain ⟨hseq, h⟩ := List.append_inj h (by simp)
  obtain ⟨htime, h⟩ := List.append_inj h (by simp)
  obtain ⟨hregime, href⟩ := List.cons.inj h
  exact ⟨beBytes_injective hseq, beBytes_injective htime, hregime, Text.utf8_injective href⟩

theorem verifySignature_ok_iff {K : Crates} {cfg : Config} {h : SignedHeartbeat} :
    verifySignature K cfg h = .ok () ↔
      h.signature.length = 64 ∧ K.ed25519Verify cfg.mtaPubkey h.signedPayload
        h.signature = true := by
  unfold verifySignature
  split
  · next hvalid => exact iff_of_true rfl hvalid
  · next hinvalid => exact iff_of_false (by simp) hinvalid

/-- **The payload is unambiguous.**  Heartbeats with the same payload agree in all that is signed;
so if no signature verifies for both of two different payloads, a signature for one heartbeat is
never one for the other. -/
theorem payload_unambiguous (h₁ h₂ : SignedHeartbeat) :
    (h₁.signedPayload = h₂.signedPayload → SameSigned h₁ h₂) ∧
    ∀ (K : Crates) (cfg : Config),
      (∀ sig, K.ed25519Verify cfg.mtaPubkey h₁.signedPayload sig = true →
        K.ed25519Verify cfg.mtaPubkey h₂.signedPayload sig = true →
          h₁.signedPayload = h₂.signedPayload) →
      h₁.signature = h₂.signature → verifySignature K cfg h₁ = .ok () →
      verifySignature K cfg h₂ = .ok () → SameSigned h₁ h₂ := by
  refine ⟨signedPayload_inj, fun K cfg hbinding hsame hfirst hsecond => ?_⟩
  have hverify := (verifySignature_ok_iff.1 hfirst).2
  rw [hsame] at hverify
  exact signedPayload_inj (hbinding _ hverify (verifySignature_ok_iff.1 hsecond).2)

/-- The operator has signed this message only. -/
def Crates.signedOnce (message : List UInt8) : Crates :=
  { Crates.sample with ed25519Verify := fun _ m _ => decide (m = message) }

theorem payload_unambiguous_sample :
    SameSigned (.sample 1) { SignedHeartbeat.sample 1 with signature := [] } ∧
      SameSigned (.sample 1) (.sample 1) := by
  refine ⟨(payload_unambiguous _ _).1 rfl, (payload_unambiguous _ _).2
    (.signedOnce (SignedHeartbeat.sample 1).signedPayload) .layer2 (fun _ _ _ => rfl) rfl ?_ ?_⟩
  · exact verifySignature_ok_iff.2 ⟨rfl, by simp [Crates.signedOnce]⟩
  · exact verifySignature_ok_iff.2 ⟨rfl, by simp [Crates.signedOnce]⟩

/-! ## The drift -/

section Drift

variable {now : Int64} {ts max : UInt64}

/-- A timestamp that is not cast to a negative number: nothing wraps. -/
theorem toInt_drift_of_lt (hnow : 0 ≤ now.toInt) (hts : ts.toNat < 2 ^ 63) :
    (now - ts.toInt64).toInt = now.toInt - ts.toNat := by
  have hlt := now.toInt_lt
  rw [Int64.toInt_sub, toInt_toInt64, if_pos hts]
  exact Int.bmod_eq_of_le (by omega) (by omega)

/-- Otherwise the drift is negative or exceeds the clock. -/
theorem toInt_drift_of_ge (hnow : 0 ≤ now.toInt) (hts : 2 ^ 63 ≤ ts.toNat) :
    (now - ts.toInt64).toInt < 0 ∨ now.toInt < (now - ts.toInt64).toInt := by
  have hlt := now.toInt_lt
  have hbound := ts.toNat_lt
  rw [Int64.toInt_sub, toInt_toInt64, if_neg (by omega), Int.bmod_def]
  -- the difference lies between the clock and the clock plus `2 ^ 63`
  split
  · right
    omega
  · left
    omega

/-- The test of the drift, in integers. -/
theorem drift_iff (hnow : 0 ≤ now.toInt) (hmax : (max.toNat : ℤ) ≤ now.toInt) :
    ¬ (now - ts.toInt64 < 0 ∨ max < (now - ts.toInt64).toUInt64) ↔
      0 ≤ now.toInt - ts.toNat ∧ now.toInt - ts.toNat ≤ max.toNat := by
  have hword : 0 ≤ (now - ts.toInt64).toInt →
      ((now - ts.toInt64).toUInt64.toNat : ℤ) = (now - ts.toInt64).toInt := by
    intro hnonneg
    rw [Int64.toNat_toUInt64_of_le (Int64.le_iff_toInt_le.2 hnonneg), ← Int64.toNat_toInt]
    exact Int.toNat_of_nonneg hnonneg
  have htest : ¬ (now - ts.toInt64 < 0 ∨ max < (now - ts.toInt64).toUInt64) ↔
      0 ≤ (now - ts.toInt64).toInt ∧ (now - ts.toInt64).toInt ≤ max.toNat := by
    rw [not_or, Int64.not_lt, UInt64.not_lt, Int64.le_iff_toInt_le, UInt64.le_iff_toNat_le]
    refine and_congr_right fun hnonneg => ?_
    rw [← hword hnonneg]
    exact Int.ofNat_le.symm
  rw [htest]
  by_cases hts : ts.toNat < 2 ^ 63
  · rw [toInt_drift_of_lt hnow hts]
  · have hbound := now.toInt_lt
    rcases toInt_drift_of_ge hnow (not_lt.1 hts) with hneg | hlarge
    · exact iff_of_false (by omega) (by omega)
    · exact iff_of_false (by omega) (by omega)

end Drift

/-! ## Validation -/

section Validate

variable {K : Crates} {cfg : Config} {h : SignedHeartbeat} {now : Int64}

theorem checkFreshness_eq_ok_iff {last : UInt64} {drift : Int64} :
    checkFreshness cfg last now h = .ok drift ↔ last < h.sequenceId ∧
      ¬ (now - h.timestampMs.toInt64 < 0 ∨
        cfg.maxHeartbeatDriftMs < (now - h.timestampMs.toInt64).toUInt64) ∧
      drift = now - h.timestampMs.toInt64 := by
  unfold checkFreshness
  by_cases hstale : h.sequenceId ≤ last
  · rw [if_pos hstale]
    exact iff_of_false (by simp) fun hok => absurd hok.1 (UInt64.not_lt.2 hstale)
  · rw [if_neg hstale]
    have hnew : last < h.sequenceId := UInt64.not_le.1 hstale
    by_cases hold : now - h.timestampMs.toInt64 < 0 ∨
        cfg.maxHeartbeatDriftMs < (now - h.timestampMs.toInt64).toUInt64
    · simp only [if_pos hold]
      exact iff_of_false (by simp) fun hok => hok.2.1 hold
    · simp only [if_neg hold, Except.ok.injEq]
      exact ⟨fun heq => ⟨hnew, hold, heq.symm⟩, fun hok => hok.2.2.symm⟩

theorem validate_eq_ok_iff {s s' : HeartbeatState} {agentId : Uuid} {persisted : Bool}
    {drift : Int64} :
    s.validate K cfg h agentId now persisted = (s', .ok drift) ↔
      verifySignature K cfg h = .ok () ∧
        checkFreshness cfg ((s.sequences agentId).getD 0) now h = .ok drift ∧
        s' = s.accept agentId h.sequenceId persisted := by
  constructor
  · intro hval
    obtain ⟨hsig, hfresh⟩ := validate_checks hval
    exact ⟨hsig, hfresh, (validate_ok hval).2⟩
  · rintro ⟨hsig, hfresh, rfl⟩
    simp only [HeartbeatState.validate, hsig, hfresh]

/-- Accepting a heartbeat of one agent leaves the stored sequences of the others. -/
theorem accept_stored_of_ne (s : HeartbeatState) {agentId other : Uuid} (hne : other ≠ agentId)
    (seq : UInt64) (persisted : Bool) :
    (s.accept agentId seq persisted).stored other = s.stored other := by
  unfold HeartbeatState.accept
  cases hstored : s.stored agentId with
  | none =>
    by_cases hp : persisted = true
    · simp [hp, Function.update_of_ne hne]
    · simp [hp]
  | some old =>
    by_cases hp : persisted = true ∧ old < seq.toInt64
    · simp [hp, Function.update_of_ne hne]
    · simp [hp]

end Validate

/-- **Validation is exact.**  For a clock that is not negative and at least as large as the allowed
drift: a heartbeat is accepted exactly if its signature verifies, its sequence is new and its age,
as a difference of integers, is between zero and the allowed drift; the age is returned, and only
the agent's own entry changes.  A heartbeat that is refused changes nothing. -/
theorem validate_exact (K : Crates) (cfg : Config) (s : HeartbeatState) (h : SignedHeartbeat)
    (agentId : Uuid) {now : Int64} (persisted : Bool) (hnow : 0 ≤ now.toInt)
    (hmax : (cfg.maxHeartbeatDriftMs.toNat : ℤ) ≤ now.toInt) :
    ((∃ drift, (s.validate K cfg h agentId now persisted).2 = .ok drift) ↔
      (h.signature.length = 64 ∧
        K.ed25519Verify cfg.mtaPubkey h.signedPayload h.signature = true) ∧
      (s.sequences agentId).getD 0 < h.sequenceId ∧
      0 ≤ now.toInt - h.timestampMs.toNat ∧
      now.toInt - h.timestampMs.toNat ≤ cfg.maxHeartbeatDriftMs.toNat) ∧
    (∀ drift, (s.validate K cfg h agentId now persisted).2 = .ok drift →
      drift.toInt = now.toInt - h.timestampMs.toNat ∧
      (s.validate K cfg h agentId now persisted).1.sequences
        = Function.update s.sequences agentId (some h.sequenceId) ∧
      ∀ other ≠ agentId, (s.validate K cfg h agentId now persisted).1.stored other
        = s.stored other) ∧
    ∀ e, (s.validate K cfg h agentId now persisted).2 = .error e →
      (s.validate K cfg h agentId now persisted).1 = s := by
  have hiff := @drift_iff now h.timestampMs cfg.maxHeartbeatDriftMs hnow hmax
  cases hval : s.validate K cfg h agentId now persisted with
  | mk s' answer =>
    dsimp only
    refine ⟨⟨?_, ?_⟩, ?_, ?_⟩
    · rintro ⟨drift, rfl⟩
      obtain ⟨hsig, hfresh, -⟩ := validate_eq_ok_iff.1 hval
      obtain ⟨hnew, hdrift, -⟩ := checkFreshness_eq_ok_iff.1 hfresh
      exact ⟨verifySignature_ok_iff.1 hsig, hnew, hiff.1 hdrift⟩
    · rintro ⟨hsig, hnew, hage⟩
      have hfresh := checkFreshness_eq_ok_iff.2 ⟨hnew, hiff.2 hage, rfl⟩
      have hok : s.validate K cfg h agentId now persisted = (_, .ok _) :=
        validate_eq_ok_iff.2 ⟨verifySignature_ok_iff.2 hsig, hfresh, rfl⟩
      exact ⟨_, congrArg Prod.snd (hval.symm.trans hok)⟩
    · rintro drift rfl
      obtain ⟨-, hfresh, rfl⟩ := validate_eq_ok_iff.1 hval
      obtain ⟨-, hdrift, rfl⟩ := checkFreshness_eq_ok_iff.1 hfresh
      refine ⟨?_, rfl, fun other hne => accept_stored_of_ne s hne _ _⟩
      have hage := (hiff.1 hdrift).1
      have hclock := now.toInt_lt
      exact toInt_drift_of_lt hnow (by omega)
    · rintro e rfl
      exact validate_error hval

/-- A heartbeat of 100 ms ago, with 200 ms allowed. -/
theorem validate_exact_sample :
    ∃ drift, (HeartbeatState.init.validate .signing .layer2
      ⟨1, 900, 0, "", List.replicate 64 0⟩ (.fill 1) 1000 true).2 = .ok drift :=
  (validate_exact .signing .layer2 .init ⟨1, 900, 0, "", List.replicate 64 0⟩ (.fill 1) true
    (by decide) (by decide)).1.2 ⟨⟨rfl, rfl⟩, by decide, by decide, by decide⟩

end IrlEngine
