import IrlEngine.Snapshot

/-!
# The constraint policy engine and the agent registry

`policy.rs`, `registry.rs` and the MTA state they read.  `checkConstraints` makes
two checks, direction and notional; `evaluate` and `enforce` are two wrappers of
it, which `enforce_ok`, `enforce_error` and `evaluate_halted` reduce to one
predicate, `WithinConstraints`.  `authorizeAgent` is the registry lookup with its
four checks in order.
-/

namespace IrlEngine

/-- The verified regime state of a Market Truth Anchor. -/
structure MtaState where
  regimeId : UInt8
  regimeLabel : String
  riskLevel : F64
  maxNotionalScale : F64
  allowedSides : List String
  version : String
  hash : String
  broadcastTime : Int64
  pubkeyFingerprint : String
  signalMode : String
  deriving DecidableEq, Repr

/-! ## Decisions -/

/-- `PolicyResult`. -/
inductive PolicyResult where
  | allowed
  | halted
  | shadowHalted
  deriving DecidableEq, Repr

/-- The text in the column `policy_result`. -/
def PolicyResult.display : PolicyResult → String
  | .allowed => "ALLOWED"
  | .halted => "HALTED"
  | .shadowHalted => "SHADOW_HALTED"

/-- `PolicyDecision`. -/
structure PolicyDecision where
  result : PolicyResult
  policyId : String
  policyVersion : String
  policyHash : String
  deriving DecidableEq, Repr

/-- `POLICY_ID`. -/
def policyIdText : String := "IrlConstraintPolicy"

/-- `POLICY_VERSION`. -/
def policyVersionText : String := "1.0.0"

/-- The eight little-endian bytes of a 64-bit word. -/
def leBytes (n : UInt64) : List UInt8 :=
  (List.range 8).map fun i => UInt8.ofNat (n.toNat >>> (8 * i))

/-- Digest of the active MTA constraints. -/
def constraintHash (mta : MtaState) : String :=
  sha256Hex (mta.regimeId :: Text.utf8 "|" ++ Text.utf8 mta.version ++ Text.utf8 "|"
    ++ leBytes mta.riskLevel.toBits ++ Text.utf8 "|" ++ leBytes mta.maxNotionalScale.toBits
    ++ Text.utf8 "|" ++ mta.allowedSides.flatMap (fun side => Text.utf8 side ++ Text.utf8 ","))

/-- The cap in force: the agent's cap scaled by the regime. -/
def effectiveCap (mta : MtaState) (agentNotionalCap : F64) : ℚ :=
  agentNotionalCap.toRat * mta.maxNotionalScale.toRat

/-- Is the direction of the action one of the permitted sides? -/
def sideAllowed (mta : MtaState) (action : TradeAction) : Bool :=
  mta.allowedSides.any fun s => Text.eqIgnoreAsciiCase s action.direction.text

/-- Direction check (skipped for `reduce_only`), then notional check. -/
def checkConstraints (mta : MtaState) (action : TradeAction) (notional agentNotionalCap : F64)
    (reduceOnly : Bool) : Except AppError Unit :=
  if !reduceOnly && !sideAllowed mta action then
    .error
      (.policy (.regimeViolation action.display mta.regimeLabel policyIdText policyVersionText))
  else if effectiveCap mta agentNotionalCap < notional.toRat then
    .error (.policy (.notionalExceedsLimit notional.toRat (effectiveCap mta agentNotionalCap)
      mta.regimeLabel policyIdText))
  else .ok ()

/-- The decision on an action, recorded whether it is allowed or halted. -/
def evaluate (mta : MtaState) (action : TradeAction) (notional agentNotionalCap : F64)
    (reduceOnly : Bool) : PolicyDecision :=
  let base : PolicyDecision := ⟨.allowed, policyIdText, policyVersionText, constraintHash mta⟩
  match checkConstraints mta action notional agentNotionalCap reduceOnly with
  | .ok () => base
  | .error _ => { base with result := .halted }

/-- The same decision, as an error when the action is halted. -/
def enforce (mta : MtaState) (action : TradeAction) (notional agentNotionalCap : F64)
    (reduceOnly : Bool) : Except AppError PolicyDecision := do
  checkConstraints mta action notional agentNotionalCap reduceOnly
  return ⟨.allowed, policyIdText, policyVersionText, constraintHash mta⟩

/-- What both checks together require of an order. -/
def WithinConstraints (mta : MtaState) (action : TradeAction) (notional agentNotionalCap : F64)
    (reduceOnly : Bool) : Prop :=
  (reduceOnly = true ∨ sideAllowed mta action = true) ∧
    notional.toRat ≤ effectiveCap mta agentNotionalCap

instance (mta : MtaState) (action : TradeAction) (n c : F64) (ro : Bool) :
    Decidable (WithinConstraints mta action n c ro) :=
  inferInstanceAs (Decidable (_ ∧ _))

theorem checkConstraints_ok_iff {mta : MtaState} {action : TradeAction} {n c : F64} {ro : Bool} :
    checkConstraints mta action n c ro = .ok () ↔ WithinConstraints mta action n c ro := by
  unfold checkConstraints WithinConstraints
  cases ro <;> cases sideAllowed mta action <;> by_cases h : effectiveCap mta c < n.toRat <;>
    simp [h, not_lt.1, not_le.2]

theorem enforce_ok {mta : MtaState} {action : TradeAction} {n c : F64} {ro : Bool}
    {d : PolicyDecision} (h : enforce mta action n c ro = .ok d) :
    WithinConstraints mta action n c ro ∧
      d = ⟨.allowed, policyIdText, policyVersionText, constraintHash mta⟩ := by
  obtain ⟨u, hc, hd⟩ := bind_eq_ok.1 h
  exact ⟨checkConstraints_ok_iff.1 hc, (Except.ok.inj hd).symm⟩

theorem enforce_error {mta : MtaState} {action : TradeAction} {n c : F64} {ro : Bool}
    {e : AppError} (h : enforce mta action n c ro = .error e) :
    ¬ WithinConstraints mta action n c ro := by
  intro hw
  rw [enforce, checkConstraints_ok_iff.2 hw] at h
  exact absurd h (by simp [bind, Except.bind, pure, Except.pure])

/-- `evaluate` reports a halt exactly where the checks fail. -/
theorem evaluate_halted {mta : MtaState} {action : TradeAction} {n c : F64} {ro : Bool}
    (h : ¬ WithinConstraints mta action n c ro) :
    (evaluate mta action n c ro).result = .halted := by
  unfold evaluate
  cases hc : checkConstraints mta action n c ro with
  | error e => rfl
  | ok u => cases u; exact absurd (checkConstraints_ok_iff.1 hc) h

/-! ## The agent registry -/

/-- `AgentProfile`: the row of an agent, as `authorize` reads it. -/
structure AgentProfile where
  agentId : Uuid
  name : String
  modelHashHex : String
  policyModuleId : String
  allowedRegimes : Option (List Int16)
  maxNotional : F64
  maxLeverage : F64
  allowedVenues : Option (List String)
  status : String
  allowedMtaPubkeys : Option (List String)
  deriving DecidableEq, Repr

/-- `hex::decode`. -/
def hexDecodeText (s : String) : Option (List UInt8) := Encoding.hexDecode s.toList

/-- The registry row of an agent. -/
def fetchProfile (agents : List AgentProfile) (agentId : Uuid) : Except AppError AgentProfile :=
  match agents.find? fun p => p.agentId = agentId with
  | none => .error (.policy .agentNotFound)
  | some p => .ok p

/-- Is the regime on the agent's list?  No list permits every regime. -/
def regimeAllowed (p : AgentProfile) (regime : UInt8) : Bool :=
  match p.allowedRegimes with
  | none => true
  | some allowed => allowed.contains (Int16.ofNat regime.toNat)

/-- Is the MTA key on the agent's list?  No list trusts every operator. -/
def pubkeyAllowed (p : AgentProfile) (fingerprint : String) : Bool :=
  match p.allowedMtaPubkeys with
  | none => true
  | some keys => keys.any fun k => k = fingerprint

/-- `throw` unless a condition holds. -/
def ensure (ok : Bool) (e : AppError) : Except AppError Unit := if ok then .ok () else .error e

theorem ensure_ok {ok : Bool} {e : AppError} {u : Unit} (h : ensure ok e = .ok u) : ok = true := by
  cases ok with
  | true => rfl
  | false => exact absurd h (by simp [ensure])

/-- The registered model hash, as bytes. -/
def registeredHash (profile : AgentProfile) : Except AppError (List UInt8) :=
  match hexDecodeText profile.modelHashHex with
  | none => .error (.serialization "Corrupted model_hash_hex in agent registry")
  | some bytes => .ok bytes

/-- Identity and regime authorization of an agent: active, model hash, regime, MTA key. -/
def authorizeAgent (agents : List AgentProfile) (agentId : Uuid) (observedModelHash : List UInt8)
    (currentRegime : UInt8) (mtaPubkeyFingerprint : String) : Except AppError AgentProfile := do
  let profile ← fetchProfile agents agentId
  ensure (profile.status = "Active") (.policy .agentNotActive)
  let registered ← registeredHash profile
  ensure (registered = observedModelHash) (.policy .modelHashMismatch)
  ensure (regimeAllowed profile currentRegime) (.policy (.regimeUnauthorized currentRegime))
  ensure (pubkeyAllowed profile mtaPubkeyFingerprint)
    (.policy (.mtaPubkeyUnauthorized mtaPubkeyFingerprint))
  return profile

/-- What an authorized agent's profile satisfies. -/
structure AgentAuthorized (agents : List AgentProfile) (agentId : Uuid) (modelHash : List UInt8)
    (regime : UInt8) (fingerprint : String) (p : AgentProfile) : Prop where
  fetched : fetchProfile agents agentId = .ok p
  registered : p ∈ agents
  identity : p.agentId = agentId
  active : p.status = "Active"
  model : hexDecodeText p.modelHashHex = some modelHash
  regime : regimeAllowed p regime = true
  pubkey : pubkeyAllowed p fingerprint = true

theorem fetchProfile_ok {agents : List AgentProfile} {agentId : Uuid} {p : AgentProfile}
    (h : fetchProfile agents agentId = .ok p) : p ∈ agents ∧ p.agentId = agentId := by
  unfold fetchProfile at h
  cases hf : agents.find? (fun p => p.agentId = agentId) with
  | none => rw [hf] at h; exact absurd h (by simp)
  | some q =>
    rw [hf] at h
    obtain rfl : q = p := Except.ok.inj h
    have hid : q.agentId = agentId := by simpa using List.find?_some hf
    exact ⟨List.mem_of_find?_eq_some hf, hid⟩

theorem registeredHash_ok {p : AgentProfile} {bytes : List UInt8}
    (h : registeredHash p = .ok bytes) : hexDecodeText p.modelHashHex = some bytes := by
  unfold registeredHash at h
  cases hd : hexDecodeText p.modelHashHex with
  | none => rw [hd] at h; exact absurd h (by simp)
  | some b => rw [hd] at h; rw [Except.ok.inj h]

theorem authorizeAgent_ok {agents : List AgentProfile} {agentId : Uuid} {hash : List UInt8}
    {regime : UInt8} {fp : String} {p : AgentProfile}
    (h : authorizeAgent agents agentId hash regime fp = .ok p) :
    AgentAuthorized agents agentId hash regime fp p := by
  obtain ⟨q, hfetch, h⟩ := bind_eq_ok.1 h
  obtain ⟨_, hactive, h⟩ := bind_eq_ok.1 h
  obtain ⟨bytes, hbytes, h⟩ := bind_eq_ok.1 h
  obtain ⟨_, hmodel, h⟩ := bind_eq_ok.1 h
  obtain ⟨_, hregime, h⟩ := bind_eq_ok.1 h
  obtain ⟨_, hpubkey, h⟩ := bind_eq_ok.1 h
  obtain rfl : q = p := Except.ok.inj h
  obtain ⟨hmem, hid⟩ := fetchProfile_ok hfetch
  have hhash : bytes = hash := by simpa using ensure_ok hmodel
  exact ⟨hfetch, hmem, hid, by simpa using ensure_ok hactive, hhash ▸ registeredHash_ok hbytes,
    ensure_ok hregime, ensure_ok hpubkey⟩

end IrlEngine
