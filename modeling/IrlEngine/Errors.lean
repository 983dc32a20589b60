import IrlEngine.Prelude

/-!
# Errors

The error values of `errors.rs` that the modelled functions return, with the data
they carry.  Numbers in them are exact rationals.
-/

namespace IrlEngine

/-- `HeartbeatError`. -/
inductive HeartbeatError where
  | staleSequence (received last : UInt64)
  | latencyThresholdExceeded (driftMs maxMs : UInt64)
  | invalidSignature
  | missing
  | mtaRefMismatch (got expected : String)
  deriving DecidableEq, Repr

/-- `PolicyError`. -/
inductive PolicyError where
  | regimeViolation (action regime policy version : String)
  | notionalExceedsLimit (notional limit : ℚ) (regime policy : String)
  | agentNotFound
  | modelHashMismatch
  | regimeUnauthorized (regimeId : UInt8)
  | agentNotActive
  | mtaPubkeyUnauthorized (pubkey : String)
  deriving DecidableEq, Repr

/-- `AppError`, with the texts that its answers carry. -/
inductive AppError where
  | biTemporalViolation
  | mtaSignatureInvalid
  | mtaFetchFailed (reason : String)
  | heartbeat (e : HeartbeatError)
  | policy (e : PolicyError)
  | database (reason : String)
  | serialization (reason : String)
  | traceNotFound (traceId : String)
  | traceAlreadyBound (traceId status : String)
  | encryption (reason : String)
  | forbidden
  deriving DecidableEq, Repr

/-- A computation that succeeds has succeeded at each of its steps. -/
theorem bind_eq_ok {ε α β : Type} {x : Except ε α} {f : α → Except ε β} {b : β} :
    (x >>= f) = .ok b ↔ ∃ a, x = .ok a ∧ f a = .ok b := by
  cases x with
  | error e =>
    exact ⟨fun h => absurd h (by simp [bind, Except.bind]), fun ⟨a, h, _⟩ => by simp at h⟩
  | ok a =>
    refine ⟨fun h => ⟨a, rfl, h⟩, ?_⟩
    rintro ⟨a', h, hf⟩
    rw [Except.ok.inj h]
    exact hf

end IrlEngine
