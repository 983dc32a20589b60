import IrlEngine.Vault

/-!
# The Market Truth Anchor client

`MacroPulseMtaClient::fetch_and_verify` of `mta.rs`: decode the response, verify its
signature over the canonical JSON, and adapt it to an `MtaState`.  The decoder keeps five
members of the response; the three constraint fields are looked up by regime id in a
table of the adapter.

* `SpecBody` — a response as the operator specification describes it;
* `signed_enforced_iff` — what the operator has signed is carried and enforced exactly when
  the signed fields are the table's entry for the signed regime id.
-/

namespace IrlEngine

/-! ## The response -/

/-- The members of a response that the client decodes. -/
structure RawMtaResponse where
  regimeId : UInt8
  macroRegime : String
  version : Option String
  broadcastTime : Int64
  signature : String
  deriving DecidableEq, Repr

/-- The object without the member under a key. -/
def removeMember (k : String) : Json → Json
  | .obj ms => .obj (ms.filter fun m => m.1 ≠ k)
  | v => v

/-- `canonical_json`: members sorted by key, no white space. -/
def canonicalJson (K : Crates) (value : Json) : List Char := Json.print K.floatText value.normalize

/-- `verify_signature`: Ed25519 over the canonical JSON of the body without its signature. -/
def verifyMtaSignature (K : Crates) (pubkey body : List UInt8) (raw : RawMtaResponse) :
    Except AppError Unit :=
  match Encoding.base64Decode raw.signature.toList with
  | none => .error .mtaSignatureInvalid
  | some sig =>
    if sig.length ≠ 64 then .error .mtaSignatureInvalid
    else
      match K.fromSlice body with
      | .error _ => .error .mtaSignatureInvalid
      | .ok value =>
        if K.ed25519Verify pubkey
          (Text.encode (canonicalJson K (removeMember "signature" value))) sig
        then .ok ()
        else .error .mtaSignatureInvalid

/-! ## The adapter -/

/-- The three fields that the policy engine reads. -/
structure Constraints where
  riskLevel : F64
  maxNotionalScale : F64
  allowedSides : List String
  deriving DecidableEq, Repr

/-- The limits of a state. -/
def MtaState.constraints (mta : MtaState) : Constraints :=
  ⟨mta.riskLevel, mta.maxNotionalScale, mta.allowedSides⟩

/-- The table of the adapter: expansion, recovery, tightening, risk-off, and the conservative
default of every other id. -/
def regimeConstraints (regimeId : UInt8) : Constraints :=
  if regimeId = 0 then ⟨F64.one, F64.one, ["long", "short", "neutral"]⟩
  else if regimeId = 1 then ⟨F64.threeQuarters, F64.threeQuarters, ["long", "short", "neutral"]⟩
  else if regimeId = 2 then ⟨F64.threeTenths, F64.quarter, ["short", "neutral"]⟩
  else ⟨F64.zero, F64.zero, ["neutral"]⟩

/-- The state that the client makes of a verified response. -/
def RawMtaResponse.adapt (raw : RawMtaResponse) (pubkey body : List UInt8) : MtaState where
  regimeId := raw.regimeId
  regimeLabel := raw.macroRegime
  riskLevel := (regimeConstraints raw.regimeId).riskLevel
  maxNotionalScale := (regimeConstraints raw.regimeId).maxNotionalScale
  allowedSides := (regimeConstraints raw.regimeId).allowedSides
  version := raw.version.getD "unknown"
  hash := sha256Hex body
  broadcastTime := raw.broadcastTime
  pubkeyFingerprint := String.ofList (Encoding.hexEncode pubkey)
  signalMode := "live"

/-- `fetch_and_verify`: `response` is what the endpoint answers, and `wire` the derived decoder
`serde_json::from_slice::<RawMtaResponse>`. -/
def fetchAndVerify (K : Crates) (wire : List UInt8 → Except String RawMtaResponse)
    (pubkey : List UInt8) (response : Except String (List UInt8)) : Except AppError MtaState :=
  match response with
  | .error e => .error (.mtaFetchFailed e)
  | .ok body =>
    match wire body with
    | .error e => .error (.mtaFetchFailed ("Invalid MTA JSON: " ++ e))
    | .ok raw =>
      match verifyMtaSignature K pubkey body raw with
      | .error e => .error e
      | .ok () => .ok (raw.adapt pubkey body)

theorem fetchAndVerify_ok {K : Crates} {wire : List UInt8 → Except String RawMtaResponse}
    {pubkey : List UInt8} {response : Except String (List UInt8)} {mta : MtaState}
    (h : fetchAndVerify K wire pubkey response = .ok mta) :
    ∃ body raw, response = .ok body ∧ wire body = .ok raw ∧
      verifyMtaSignature K pubkey body raw = .ok () ∧ mta = raw.adapt pubkey body := by
  unfold fetchAndVerify at h
  cases response with
  | error e => exact absurd h (by simp)
  | ok body =>
    cases hwire : wire body with
    | error e => simp [hwire] at h
    | ok raw =>
      cases hverify : verifyMtaSignature K pubkey body raw with
      | error e => simp [hwire, hverify] at h
      | ok u =>
        simp only [hwire, hverify, Except.ok.injEq] at h
        exact ⟨body, raw, rfl, hwire, hverify, h.symm⟩

/-! ## What the operator specification says of a response -/

/-- A number of the interval from 0 to 1. -/
def unitFloat : Json → Option F64
  | .num (.float f) => if 0 ≤ f.toRat ∧ f.toRat ≤ 1 then some f else none
  | .num (.posInt n) => if n = 0 then some F64.zero else if n = 1 then some F64.one else none
  | _ => none

/-- One of the three directions. -/
def sideText : Json → Option String
  | .str s => if s ∈ ["long", "short", "neutral"] then some s else none
  | _ => none

/-- The texts of an array of sides. -/
def sideTexts : Json → Option (List String)
  | .arr xs => xs.mapM sideText
  | _ => none

/-- A number that fits into a byte. -/
def asU8 : Json → Option UInt8
  | .num (.posInt n) => if n.toNat < 256 then some n.toUInt8 else none
  | _ => none

/-- A response as the specification describes it. -/
structure SpecBody where
  regimeId : UInt8
  macroRegime : String
  modelVersion : Option String
  broadcastTime : Int64
  constraints : Constraints
  signature : String

/-- An optional string member. -/
def optionalText (k : String) (value : Json) : Option (Option String) :=
  match value.get? k with
  | none => some none
  | some v => v.asStr.map some

/-- The response that a value is, if it conforms to the specification. -/
def specBody (value : Json) : Option SpecBody := do
  let regimeId ← (value.get? "regime_id").bind asU8
  let macroRegime ← (value.get? "macro_regime").bind Json.asStr
  let modelVersion ← optionalText "model_version" value
  let broadcastTime ← (value.get? "broadcast_time").bind Json.asI64
  let riskLevel ← (value.get? "risk_level").bind unitFloat
  let maxNotionalScale ← (value.get? "max_notional_scale").bind unitFloat
  let allowedSides ← (value.get? "allowed_sides").bind sideTexts
  let signature ← (value.get? "signature").bind Json.asStr
  return ⟨regimeId, macroRegime, modelVersion, broadcastTime,
    ⟨riskLevel, maxNotionalScale, allowedSides⟩, signature⟩

theorem specBody_regimeId {value : Json} {b : SpecBody} (h : specBody value = some b) :
    (value.get? "regime_id").bind asU8 = some b.regimeId := by
  unfold specBody at h
  simp only [bind, pure, Option.bind_eq_some_iff] at h
  obtain ⟨regimeId, hid, _, -, _, -, _, -, _, -, _, -, _, -, _, -, hb⟩ := h
  obtain rfl := Option.some.inj hb
  exact Option.bind_eq_some_iff.2 hid

/-- What is relied on of the derived decoder: the regime id it decodes is the member of that name
in the same body read as a value. -/
def DecodesRegime (K : Crates) (wire : List UInt8 → Except String RawMtaResponse) : Prop :=
  ∀ body value raw, K.fromSlice body = .ok value → wire body = .ok raw →
    ∀ id, (value.get? "regime_id").bind asU8 = some id → raw.regimeId = id

/-! ## What is enforced -/

/-- An order in this direction is open under the constraints. -/
def Constraints.opens (c : Constraints) (d : Direction) : Bool :=
  c.allowedSides.any fun s => Text.eqIgnoreAsciiCase s d.text

/-- What the specification makes of signed constraints: which orders they permit. -/
def Constraints.Permits (c : Constraints) (action : TradeAction) (notional cap : F64)
    (reduceOnly : Bool) : Prop :=
  (reduceOnly = true ∨ c.opens action.direction = true) ∧
    notional.toRat ≤ cap.toRat * c.maxNotionalScale.toRat

/-- `check_constraints` lets through exactly the orders that the constraints permit. -/
def Constraints.EnforcedBy (c : Constraints) (mta : MtaState) : Prop :=
  ∀ action notional cap reduceOnly,
    checkConstraints mta action notional cap reduceOnly = .ok () ↔
      c.Permits action notional cap reduceOnly

/-- The same scale of the cap, and the same open directions. -/
structure Constraints.SameLimits (c c' : Constraints) : Prop where
  scale : c.maxNotionalScale.toRat = c'.maxNotionalScale.toRat
  opens : ∀ d, c.opens d = c'.opens d

/-- A state enforces its own constraints. -/
theorem enforcedBy_constraints (mta : MtaState) : mta.constraints.EnforcedBy mta := by
  intro action notional cap reduceOnly
  exact checkConstraints_ok_iff

/-- Every direction is that of some action. -/
theorem exists_direction (d : Direction) : ∃ action : TradeAction, action.direction = d := by
  cases d with
  | long => exact ⟨.long F64.one, rfl⟩
  | short => exact ⟨.short F64.one, rfl⟩
  | neutral => exact ⟨.neutral, rfl⟩
  | unknown => exact ⟨.custom "hedge", by decide⟩

/-- Constraints that permit the same orders have the same limits. -/
theorem sameLimits_of_permits {c c' : Constraints}
    (h : ∀ action notional cap reduceOnly,
      c.Permits action notional cap reduceOnly ↔ c'.Permits action notional cap reduceOnly) :
    c.SameLimits c' where
  scale := by
    -- the largest order under a cap of one, which only reduces
    have hle : ∀ {a b : Constraints},
        (a.Permits .neutral a.maxNotionalScale F64.one true →
          b.Permits .neutral a.maxNotionalScale F64.one true) →
        a.maxNotionalScale.toRat ≤ b.maxNotionalScale.toRat := by
      intro a b hab
      have hcap := (hab ⟨Or.inl rfl, by rw [F64.toRat_one, one_mul]⟩).2
      rwa [F64.toRat_one, one_mul] at hcap
    exact le_antisymm (hle (h _ _ _ _).1) (hle (h _ _ _ _).2)
  opens d := by
    -- an order over nothing, which no cap forbids
    obtain ⟨action, rfl⟩ := exists_direction d
    have hopen : ∀ a : Constraints,
        a.Permits action F64.zero F64.zero false ↔ a.opens action.direction = true := by
      intro a
      simp [Constraints.Permits]
    rw [Bool.eq_iff_iff, ← hopen, ← hopen]
    exact h _ _ _ _

/-- Signed constraints are enforced exactly if the state has the same limits. -/
theorem enforcedBy_iff {c : Constraints} {mta : MtaState} :
    c.EnforcedBy mta ↔ mta.constraints.SameLimits c := by
  constructor
  · intro h
    refine sameLimits_of_permits fun action notional cap reduceOnly => ?_
    rw [← enforcedBy_constraints mta]
    exact h action notional cap reduceOnly
  · intro h action notional cap reduceOnly
    rw [enforcedBy_constraints mta, Constraints.Permits, Constraints.Permits, h.scale, h.opens]

/-- The constraints of a verified response are looked up by its regime id. -/
theorem constraints_of_fetch {K : Crates} {wire : List UInt8 → Except String RawMtaResponse}
    (hwire : DecodesRegime K wire) {pubkey body : List UInt8} {value : Json} {b : SpecBody}
    (hvalue : K.fromSlice body = .ok value) (hspec : specBody value = some b) {mta : MtaState}
    (hfetch : fetchAndVerify K wire pubkey (.ok body) = .ok mta) :
    mta.constraints = regimeConstraints b.regimeId := by
  obtain ⟨body', raw, hbody, hraw, -, rfl⟩ := fetchAndVerify_ok hfetch
  obtain rfl : body' = body := (Except.ok.inj hbody).symm
  rw [← hwire body' value raw hvalue hraw b.regimeId (specBody_regimeId hspec)]
  rfl

/-- **When the signed constraints are the enforced ones.**  A verified response leads to a state
with the constraints that the operator has signed, and `check_constraints` enforces them, exactly
if they are the table's entry for the signed regime id; and short of that, what is enforced is what
was signed exactly if the entry has the same scale and opens the same directions. -/
theorem signed_enforced_iff (K : Crates) (wire : List UInt8 → Except String RawMtaResponse)
    (hwire : DecodesRegime K wire) (pubkey body : List UInt8) (value : Json) (b : SpecBody)
    (hvalue : K.fromSlice body = .ok value) (hspec : specBody value = some b) (mta : MtaState)
    (hfetch : fetchAndVerify K wire pubkey (.ok body) = .ok mta) :
    (mta.constraints = b.constraints ∧ b.constraints.EnforcedBy mta ↔
      b.constraints = regimeConstraints b.regimeId) ∧
    (b.constraints.EnforcedBy mta ↔ (regimeConstraints b.regimeId).SameLimits b.constraints) := by
  have hentry := constraints_of_fetch hwire hvalue hspec hfetch
  constructor
  · constructor
    · rintro ⟨hcarried, -⟩
      rw [← hcarried, hentry]
    · intro hsigned
      have hcarried : mta.constraints = b.constraints := hentry.trans hsigned.symm
      exact ⟨hcarried, hcarried ▸ enforcedBy_constraints mta⟩
  · rw [enforcedBy_iff, hentry]

/-! Two signed responses for regime 0, which the table knows as expansion. -/

/-- Parsing as before, and every signature verifies. -/
noncomputable def Crates.broadcast : Crates :=
  { Crates.parsing with ed25519Verify := fun _ _ _ => true }

/-- The decoder, on a body that parses. -/
def decodeRaw (value : Json) : Option RawMtaResponse := do
  let regimeId ← (value.get? "regime_id").bind asU8
  let macroRegime ← (value.get? "macro_regime").bind Json.asStr
  let version ← optionalText "model_version" value
  let broadcastTime ← (value.get? "broadcast_time").bind Json.asI64
  let signature ← (value.get? "signature").bind Json.asStr
  return ⟨regimeId, macroRegime, version, broadcastTime, signature⟩

/-- A reader that knows the sample body only. -/
noncomputable def sampleWire (body : List UInt8) : Except String RawMtaResponse :=
  match Crates.broadcast.fromSlice body with
  | .error e => .error e
  | .ok value =>
    match decodeRaw value with
    | none => .error "missing field"
    | some raw => .ok raw

theorem decodesRegime_sampleWire : DecodesRegime .broadcast sampleWire := by
  intro body value raw hvalue hraw id hid
  unfold sampleWire at hraw
  rw [hvalue] at hraw
  cases hdecode : decodeRaw value with
  | none => simp [hdecode] at hraw
  | some raw' =>
    simp only [hdecode, Except.ok.injEq] at hraw
    subst hraw
    unfold decodeRaw at hdecode
    simp only [bind, pure, hid, Option.bind_some] at hdecode
    simp only [Option.bind_eq_some_iff] at hdecode
    obtain ⟨_, -, _, -, _, -, _, -, hraw⟩ := hdecode
    rw [← Option.some.inj hraw]

/-- A signature of zeros in base64. -/
def sampleSignature : String := String.ofList (Encoding.base64Encode (List.replicate 64 0))

/-- A response for regime 0 with these constraints. -/
def sampleResponse (f : F64) (sides : List String) : Json :=
  .obj [("allowed_sides", .arr (sides.map .str)), ("broadcast_time", .num (.posInt 1)),
    ("macro_regime", .str "expansion"), ("max_notional_scale", .num (.float f)),
    ("regime_id", .num (.posInt 0)), ("risk_level", .num (.float f)),
    ("signature", .str sampleSignature)]

theorem isValue_sampleResponse (f : F64) (sides : List String) :
    Json.IsValue 127 (sampleResponse f sides) := by
  have hsorted : Json.SortedKeys [("allowed_sides", Json.arr (sides.map .str)),
      ("broadcast_time", .num (.posInt 1)), ("macro_regime", .str "expansion"),
      ("max_notional_scale", .num (.float f)), ("regime_id", .num (.posInt 0)),
      ("risk_level", .num (.float f)), ("signature", .str sampleSignature)] := by
    simp only [Json.SortedKeys, List.pairwise_cons, List.mem_cons, List.not_mem_nil, or_false,
      forall_eq_or_imp, forall_eq, IsEmpty.forall_iff, implies_true, List.Pairwise.nil, and_true]
    decide
  refine .obj hsorted ?_
  intro m hm
  simp only [List.mem_cons, List.not_mem_nil, or_false] at hm
  rcases hm with rfl | rfl | rfl | rfl | rfl | rfl | rfl
  · refine .arr fun v hv => ?_
    obtain ⟨s, -, rfl⟩ := List.mem_map.1 hv
    exact .str _ s
  · exact .num _ _
  · exact .str _ _
  · exact .num _ _
  · exact .num _ _
  · exact .num _ _
  · exact .str _ _

/-- The bytes of the response. -/
def sampleBody (f : F64) (sides : List String) : List UInt8 :=
  toVec .sample (sampleResponse f sides)

theorem fromSlice_sampleBody (f : F64) (sides : List String) :
    Crates.broadcast.fromSlice (sampleBody f sides) = .ok (sampleResponse f sides) :=
  fromSlice_parsing (isValue_sampleResponse f sides)

/-- The sample response, as it is read. -/
def sampleRaw : RawMtaResponse := ⟨0, "expansion", none, 1, sampleSignature⟩

theorem base64Decode_sampleRaw :
    Encoding.base64Decode sampleRaw.signature.toList = some (List.replicate 64 0) := by
  show Encoding.base64Decode sampleSignature.toList = _
  rw [sampleSignature, String.toList_ofList, Encoding.base64Decode_base64Encode]

theorem fetch_sampleRaw {K : Crates} {wire : List UInt8 → Except String RawMtaResponse}
    {body : List UInt8} {value : Json} (hvalue : K.fromSlice body = .ok value)
    (hwire : wire body = .ok sampleRaw) (hsigned : ∀ payload sig,
      K.ed25519Verify [] payload sig = true) :
    fetchAndVerify K wire [] (.ok body) = .ok (sampleRaw.adapt [] body) := by
  have hverify : verifyMtaSignature K [] body sampleRaw = .ok () := by
    unfold verifyMtaSignature
    simp [base64Decode_sampleRaw, hvalue, hsigned]
  unfold fetchAndVerify
  simp only [hwire, hverify]

theorem sampleWire_sampleBody (f : F64) (sides : List String) :
    sampleWire (sampleBody f sides) = .ok sampleRaw := by
  unfold sampleWire
  rw [fromSlice_sampleBody]
  rfl

theorem fetch_sampleBody (f : F64) (sides : List String) :
    fetchAndVerify .broadcast sampleWire [] (.ok (sampleBody f sides))
      = .ok (sampleRaw.adapt [] (sampleBody f sides)) :=
  fetch_sampleRaw (fromSlice_sampleBody f sides) (sampleWire_sampleBody f sides) fun _ _ => rfl

theorem specBody_sampleResponse {f : F64} (hf : 0 ≤ f.toRat ∧ f.toRat ≤ 1) {sides : List String}
    (hsides : (sides.map Json.str).mapM sideText = some sides) :
    specBody (sampleResponse f sides)
      = some ⟨0, "expansion", none, 1, ⟨f, f, sides⟩, sampleSignature⟩ := by
  have hunit : unitFloat (.num (.float f)) = some f := if_pos hf
  have hlist : sideTexts (.arr (sides.map Json.str)) = some sides := hsides
  simp [specBody, sampleResponse, Json.get?, hunit, hlist, asU8, Json.asStr, Json.asI64,
    optionalText]

/-- The operator signs what the table says. -/
theorem signed_enforced_iff_sample :
    Constraints.EnforcedBy ⟨F64.one, F64.one, ["long", "short", "neutral"]⟩
      (sampleRaw.adapt [] (sampleBody F64.one ["long", "short", "neutral"])) := by
  have hunit : 0 ≤ F64.one.toRat ∧ F64.one.toRat ≤ 1 := by
    rw [F64.toRat_one]
    norm_num
  exact ((signed_enforced_iff .broadcast sampleWire decodesRegime_sampleWire [] _ _ _
    (fromSlice_sampleBody _ _) (specBody_sampleResponse hunit (by rfl)) _
    (fetch_sampleBody _ _)).1.2 rfl).2

/-- The operator signs a full kill-switch, and every direction is open at the full cap. -/
theorem killSwitch_ignored : ∃ body value b mta,
    Crates.broadcast.fromSlice body = .ok value ∧ specBody value = some b ∧
    fetchAndVerify .broadcast sampleWire [] (.ok body) = .ok mta ∧
    b.constraints = ⟨F64.zero, F64.zero, []⟩ ∧ mta.constraints ≠ b.constraints ∧
    ¬ b.constraints.EnforcedBy mta ∧
    checkConstraints mta (.custom "buy") F64.one F64.one false = .ok () := by
  have hunit : 0 ≤ F64.zero.toRat ∧ F64.zero.toRat ≤ 1 := by
    rw [F64.toRat_zero]
    norm_num
  have hpasses : checkConstraints (sampleRaw.adapt [] (sampleBody F64.zero []))
    (.custom "buy") F64.one
      F64.one false = .ok () := by
    rw [checkConstraints_ok_iff]
    refine ⟨Or.inr ?_, ?_⟩
    · show ["long", "short", "neutral"].any _ = true
      decide
    · show F64.one.toRat ≤ F64.one.toRat * F64.one.toRat
      rw [F64.toRat_one]
      norm_num
  refine ⟨_, _, _, _, fromSlice_sampleBody F64.zero [], specBody_sampleResponse hunit (by rfl),
    fetch_sampleBody F64.zero [], rfl, ?_, ?_, hpasses⟩
  · intro h
    exact absurd (congrArg Constraints.allowedSides h) (by simp [MtaState.constraints,
      RawMtaResponse.adapt, sampleRaw, regimeConstraints])
  · intro henforced
    -- no direction is open under the signed constraints
    exact absurd ((henforced _ _ _ _).1 hpasses).1 (by simp [Constraints.opens])

end IrlEngine
