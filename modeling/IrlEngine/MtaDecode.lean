import IrlEngine.Mta
import IrlEngine.Lib.JsonDocument

/-!
# What the signature of a broadcast covers

`fetch_and_verify` decodes the body twice: into `RawMtaResponse`, whose fields are used, and into a
`Value`, whose canonical text without `signature` is what was signed.  The first decoder refuses a
repeated field and ignores fields it does not know, the second keeps the last of repeated members.

* `decodeDocument` — the derived decoder on a document, for objects and for arrays;
* `signature_covers_state` — bodies with the same signed payload lead to the same state, up to the
  hash of the body.
-/

namespace IrlEngine

/-! ## The derived decoder -/

/-- `Option<String>`: a missing field and `null` are both absent. -/
def asOptionalStr : Option Json → Option (Option String)
  | none => some none
  | some .null => some none
  | some (.str s) => some (some s)
  | some _ => none

/-- `RawMtaResponse` of a document: the fields of an object in any order, or the elements of an
array in the order of the declaration. -/
def decodeDocument : Json → Option RawMtaResponse
  | .obj ms => do
    let regimeId ← (← Json.unique? "regime_id" ms).bind asU8
    let macroRegime ← (← Json.unique? "macro_regime" ms).bind Json.asStr
    let version ← asOptionalStr (← Json.unique? "model_version" ms)
    let broadcastTime ← (← Json.unique? "broadcast_time" ms).bind Json.asI64
    let signature ← (← Json.unique? "signature" ms).bind Json.asStr
    return ⟨regimeId, macroRegime, version, broadcastTime, signature⟩
  | .arr [regimeId, macroRegime, version, broadcastTime, signature] => do
    let regimeId ← asU8 regimeId
    let macroRegime ← macroRegime.asStr
    let version ← asOptionalStr (some version)
    let broadcastTime ← broadcastTime.asI64
    let signature ← signature.asStr
    return ⟨regimeId, macroRegime, version, broadcastTime, signature⟩
  | _ => none

/-- What is relied on of `serde_json`: when both decoders accept a body, they have read the same
document, the one as a map of its last members, the other as a record. -/
def ReadsOneDocument (K : Crates) (wire : List UInt8 → Except String RawMtaResponse) : Prop :=
  ∀ body value raw, K.fromSlice body = .ok value → wire body = .ok raw →
    ∃ doc, value = Json.toValue doc ∧ decodeDocument doc = some raw

/-! ## What is signed -/

/-- The bytes that the signature of a body is verified against. -/
def signedPayload (K : Crates) (body : List UInt8) : Option (List UInt8) :=
  match K.fromSlice body with
  | .error _ => none
  | .ok value => some (Text.encode (canonicalJson K (removeMember "signature" value)))

theorem verifyMtaSignature_ok {K : Crates} {pubkey body : List UInt8} {raw : RawMtaResponse}
    (h : verifyMtaSignature K pubkey body raw = .ok ()) :
    ∃ value, K.fromSlice body = .ok value := by
  unfold verifyMtaSignature at h
  split at h
  · cases h
  · split at h
    · cases h
    · split at h
      · cases h
      · next value hvalue => exact ⟨value, hvalue⟩

/-- The fields of the state that come from the body. -/
structure SignedFields where
  regimeId : UInt8
  macroRegime : String
  version : Option String
  broadcastTime : Int64
  deriving DecidableEq, Repr

/-- The fields that are signed. -/
def RawMtaResponse.signedFields (raw : RawMtaResponse) : SignedFields :=
  ⟨raw.regimeId, raw.macroRegime, raw.version, raw.broadcastTime⟩

theorem adapt_of_signedFields {raw₁ raw₂ : RawMtaResponse}
    (h : raw₁.signedFields = raw₂.signedFields) (pubkey body₁ body₂ : List UInt8) :
    raw₁.adapt pubkey body₁
      = { raw₂.adapt pubkey body₂ with hash := (raw₁.adapt pubkey body₁).hash } := by
  simp only [RawMtaResponse.signedFields, SignedFields.mk.injEq] at h
  obtain ⟨hid, hlabel, hversion, htime⟩ := h
  simp only [RawMtaResponse.adapt, hid, hlabel, hversion, htime]

/-- The fields, read from the value that was signed. -/
def fieldsOfPayload : Json → Option SignedFields
  | .obj ms => do
    let regimeId ← (Json.get? "regime_id" (.obj ms)).bind asU8
    let macroRegime ← (Json.get? "macro_regime" (.obj ms)).bind Json.asStr
    let version ← asOptionalStr (Json.get? "model_version" (.obj ms))
    let broadcastTime ← (Json.get? "broadcast_time" (.obj ms)).bind Json.asI64
    return ⟨regimeId, macroRegime, version, broadcastTime⟩
  | .arr (regimeId :: macroRegime :: version :: broadcastTime :: _) => do
    let regimeId ← asU8 regimeId
    let macroRegime ← macroRegime.asStr
    let version ← asOptionalStr (some version)
    let broadcastTime ← broadcastTime.asI64
    return ⟨regimeId, macroRegime, version, broadcastTime⟩
  | _ => none

section Scalars

/-! Scalars are the same in a document, in its value and in the normal form. -/

variable (v : Json)

theorem asU8_value : asU8 v.toValue.normalize = asU8 v := by
  cases v <;> rfl

theorem asStr_value : v.toValue.normalize.asStr = v.asStr := by
  cases v <;> rfl

theorem asI64_value : v.toValue.normalize.asI64 = v.asI64 := by
  cases v <;> rfl

theorem asOptionalStr_value (found : Option Json) :
    asOptionalStr (found.map fun v => v.toValue.normalize) = asOptionalStr found := by
  cases found with
  | none => rfl
  | some v => cases v <;> rfl

end Scalars

theorem get?_removeMember {k k' : String} (hk : k ≠ k') (v : Json) :
    (removeMember k' v).get? k = v.get? k := by
  cases v with
  | obj ms =>
    simp only [removeMember, Json.get?, List.find?_filter]
    congr 2
    funext m
    by_cases hm : m.1 = k
    · simp [hm, hk]
    · simp [hm]
  | _ => rfl

/-- A field other than the signature, read from what was signed. -/
theorem get?_payload {k : String} (hk : k ≠ "signature") {ms : List (String × Json)}
    {found : Option Json} (h : Json.unique? k ms = some found) :
    (removeMember "signature" (Json.toValue (.obj ms))).normalize.get? k
      = found.map fun v => v.toValue.normalize := by
  have hsorted : Json.SortedKeys (Json.toValueMembers ms []) :=
    Json.SortedKeys.toValueMembers List.Pairwise.nil
  have hkeys : (((Json.toValueMembers ms []).filter fun m => m.1 ≠ "signature").map
      Prod.fst).Nodup := Json.SortedKeys.nodup (hsorted.filter _)
  have hnormal := Json.get?_normalize_obj hkeys k
  have hremove := get?_removeMember hk (Json.toValue (.obj ms))
  rw [Json.get?_toValue_of_unique h] at hremove
  rw [Json.toValue, removeMember] at hremove ⊢
  rw [hnormal, hremove, Option.map_map]
  rfl

/-- The decoder reads its fields, except the signature, from what was signed. -/
theorem fieldsOfPayload_of_decode {doc : Json} {raw : RawMtaResponse}
    (h : decodeDocument doc = some raw) :
    fieldsOfPayload (removeMember "signature" doc.toValue).normalize = some raw.signedFields := by
  unfold decodeDocument at h
  split at h
  · next ms =>
    simp only [bind, pure, Option.bind_eq_some_iff] at h
    obtain ⟨_, hid?, regimeId, ⟨idValue, rfl, hid⟩, _, hlabel?, macroRegime, ⟨label, rfl, hlabel⟩,
      version?, hversion?, version, hversion, _, htime?, broadcastTime,
      ⟨time, rfl, htime⟩, _, -, _, -, hraw⟩ := h
    obtain rfl := Option.some.inj hraw
    obtain ⟨ns, hns⟩ : ∃ ns,
      (removeMember "signature" (Json.toValue (.obj ms))).normalize = .obj ns :=
      ⟨_, rfl⟩
    have hget : ∀ {k : String} {found : Option Json}, k ≠ "signature" →
        Json.unique? k ms = some found →
        Json.get? k (.obj ns) = found.map fun v => v.toValue.normalize := by
      intro k found hk hfound
      rw [← hns]
      exact get?_payload hk hfound
    rw [hns]
    simp only [fieldsOfPayload, hget (by decide) hid?, hget (by decide) hlabel?,
      hget (by decide) hversion?, hget (by decide) htime?, Option.map_some, asU8_value, asStr_value,
      asI64_value, asOptionalStr_value, bind, pure, hid, hlabel, hversion, htime, Option.bind_some]
    rfl
  · next regimeId macroRegime version broadcastTime signature =>
    simp only [bind, pure, Option.bind_eq_some_iff] at h
    obtain ⟨id, hid, label, hlabel, version', hversion, time, htime, _, -, hraw⟩ := h
    obtain rfl := Option.some.inj hraw
    have hvalue := asOptionalStr_value (some version)
    simp only [Option.map_some] at hvalue
    simp only [Json.toValue, Json.toValueAll, removeMember, Json.normalize, Json.normalizeAll,
      fieldsOfPayload, asU8_value, asStr_value, asI64_value, hvalue, bind, pure, hid, hlabel,
      hversion, htime, Option.bind_some]
    rfl
  · cases h

/-- **The signature covers everything used.**  Two accepted bodies with the same signed payload lead
to the same state, except for the hash of the body. -/
theorem signature_covers_state {K : Crates} {wire : List UInt8 → Except String RawMtaResponse}
    (law : FloatText.Lawful K.floatText) (hserde : ReadsOneDocument K wire)
    {pubkey body₁ body₂ : List UInt8} {mta₁ mta₂ : MtaState}
    (h₁ : fetchAndVerify K wire pubkey (.ok body₁) = .ok mta₁)
    (h₂ : fetchAndVerify K wire pubkey (.ok body₂) = .ok mta₂)
    (hpayload : signedPayload K body₁ = signedPayload K body₂) :
    mta₁ = { mta₂ with hash := mta₁.hash } := by
  obtain ⟨_, raw₁, hbody₁, hwire₁, hverify₁, rfl⟩ := fetchAndVerify_ok h₁
  obtain ⟨_, raw₂, hbody₂, hwire₂, hverify₂, rfl⟩ := fetchAndVerify_ok h₂
  obtain rfl := Except.ok.inj hbody₁
  obtain rfl := Except.ok.inj hbody₂
  obtain ⟨value₁, hvalue₁⟩ := verifyMtaSignature_ok hverify₁
  obtain ⟨value₂, hvalue₂⟩ := verifyMtaSignature_ok hverify₂
  obtain ⟨doc₁, rfl, hdecode₁⟩ := hserde _ _ _ hvalue₁ hwire₁
  obtain ⟨doc₂, rfl, hdecode₂⟩ := hserde _ _ _ hvalue₂ hwire₂
  have hsigned : (removeMember "signature" doc₁.toValue).normalize
      = (removeMember "signature" doc₂.toValue).normalize := by
    simp only [signedPayload, hvalue₁, hvalue₂, Option.some.injEq] at hpayload
    exact Json.print_injective law (Text.encode_injective hpayload)
  have hfields : raw₁.signedFields = raw₂.signedFields := by
    have hread := fieldsOfPayload_of_decode hdecode₁
    rw [hsigned, fieldsOfPayload_of_decode hdecode₂] at hread
    exact (Option.some.inj hread).symm
  exact adapt_of_signedFields hfields pubkey _ _

/-! A response, and the same response after a blank. -/

/-- The parser of `Crates.broadcast`, after blanks. -/
noncomputable def Crates.blankSkipping : Crates :=
  { Crates.broadcast with
    fromSlice := fun bytes => Crates.broadcast.fromSlice (bytes.dropWhile (· = 0x20)) }

/-- A reader of whole documents. -/
noncomputable def documentWire (body : List UInt8) : Except String RawMtaResponse :=
  match Crates.blankSkipping.fromSlice body with
  | .error e => .error e
  | .ok value =>
    match decodeDocument value with
    | none => .error "invalid type"
    | some raw => .ok raw

theorem isValue_of_fromSlice {bytes : List UInt8} {value : Json}
    (h : Crates.parsing.fromSlice bytes = .ok value) : Json.IsValue 127 value := by
  by_cases hex : ∃ v, Json.IsValue 127 v ∧ toVec .sample v = bytes
  · have hvalue : Except.ok hex.choose = Except.ok value := (dif_pos hex).symm.trans h
    obtain rfl := Except.ok.inj hvalue
    exact hex.choose_spec.1
  · have herror : Except.error "expected value" = Except.ok value := (dif_neg hex).symm.trans h
    cases herror

theorem readsOneDocument_documentWire : ReadsOneDocument .blankSkipping documentWire := by
  intro body value raw hvalue hwire
  have hself : value.toValue = value := (isValue_of_fromSlice hvalue).toValue_eq
  refine ⟨value, hself.symm, ?_⟩
  unfold documentWire at hwire
  rw [hvalue] at hwire
  cases hdecode : decodeDocument value with
  | none => simp [hdecode] at hwire
  | some raw' =>
    simp only [hdecode, Except.ok.injEq] at hwire
    rw [hwire]

/-- A body that parses to the sample response is accepted. -/
theorem fetch_blankSkipping {body : List UInt8} {f : F64} {sides : List String}
    (hvalue : Crates.blankSkipping.fromSlice body = .ok (sampleResponse f sides)) :
    fetchAndVerify .blankSkipping documentWire [] (.ok body) = .ok (sampleRaw.adapt [] body) := by
  refine fetch_sampleRaw hvalue ?_ fun _ _ => rfl
  unfold documentWire
  rw [hvalue]
  rfl

/-- The sample response starts with a brace. -/
theorem head_sampleBody (f : F64) (sides : List String) :
    ∃ rest, sampleBody f sides = 0x7b :: rest := by
  unfold sampleBody toVec
  rw [(isValue_sampleResponse f sides).normalize_eq]
  exact ⟨_, rfl⟩

/-- The two bodies have different hashes and otherwise the same state. -/
theorem blank_covered :
    (sampleRaw.adapt [] (sampleBody F64.one ["long"])) =
      { sampleRaw.adapt [] (0x20 :: sampleBody F64.one ["long"]) with
        hash := (sampleRaw.adapt [] (sampleBody F64.one ["long"])).hash } := by
  obtain ⟨rest, hrest⟩ := head_sampleBody F64.one ["long"]
  have hplain : Crates.blankSkipping.fromSlice (sampleBody F64.one ["long"])
      = .ok (sampleResponse F64.one ["long"]) := by
    have hdrop : (sampleBody F64.one ["long"]).dropWhile (· = 0x20)
        = sampleBody F64.one ["long"] := by
      rw [hrest]
      rfl
    exact (congrArg Crates.broadcast.fromSlice hdrop).trans (fromSlice_sampleBody _ _)
  have hblank : Crates.blankSkipping.fromSlice (0x20 :: sampleBody F64.one ["long"])
      = .ok (sampleResponse F64.one ["long"]) := hplain
  refine signature_covers_state sampleFloatText_lawful readsOneDocument_documentWire
    (fetch_blankSkipping hplain) (fetch_blankSkipping hblank) ?_
  unfold signedPayload
  rw [hplain, hblank]

end IrlEngine
