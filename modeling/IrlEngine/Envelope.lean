import IrlEngine.Store
import IrlEngine.Lib.JsonPath

/-!
# Reading a stored trace back

The read half of envelope encryption (`encryption.rs`), its two callers
`decrypt_if_needed` of `db.rs` and `decrypt_trace_json` of `gdpr.rs`, and
`null_pii_fields` of `gdpr.rs`.

* **Round trip** — `decrypt_encryptJson`: what `encryptJson` stores under an honest data
  key decrypts to the value it was given.
* `isValue_trace` — the serialized trace is a value that `serde_json` reads back.
* `nullPiiFields_nullPiiFields`, `isValue_nullPiiFields` — erasing is idempotent and
  keeps values values;
* `sameOutside_nullPiiFields` — it changes nothing but the five fields.
-/

namespace IrlEngine

/-! ## Decryption -/

/-- The side of a key provider that unwraps data keys. -/
structure KeyProvider where
  decryptDek : List UInt8 → Int32 → Except String (List UInt8)

/-- What decryption takes from outside besides the crates: the key provider, and the text
of the error with which base64 decoding fails. -/
structure ReadSide where
  provider : KeyProvider
  base64Error : String → String

/-- `extract_ciphertext_from_jsonb`. -/
def extractCiphertextFromJsonb (base64Error : String → String) (value : Json) :
    Except String (List UInt8) :=
  match (value.get? "v").bind Json.asI64 with
  | none => .error "JSONB wrapper missing 'v' field"
  | some v =>
    if v ≠ 1 then .error ("Unsupported JSONB wrapper version: " ++ toString v)
    else
      match (value.get? "data").bind Json.asStr with
      | none => .error "JSONB wrapper missing 'data' string field"
      | some data =>
        match Encoding.base64Decode data.toList with
        | none => .error ("JSONB wrapper 'data' is not valid base64: " ++ base64Error data)
        | some bytes => .ok bytes

/-- `decrypt_trace`; its assertion on the length of the key fails with an error as well. -/
def decryptTrace (K : Crates) (ciphertext nonce dek : List UInt8) : Except String (List UInt8) :=
  if dek.length ≠ 32 then .error "DEK must be exactly 32 bytes for AES-256-GCM"
  else if nonce.length ≠ 12 then
    .error ("Nonce must be exactly 12 bytes, got " ++ toString nonce.length)
  else
    match K.aesGcmDecrypt dek nonce ciphertext with
    | .ok plaintext => .ok plaintext
    | .error _ => .error "AES-GCM decryption failed: authentication tag mismatch"

/-- The branch of `encryption_version = 1`, once there is a key provider. -/
def decryptStored (K : Crates) (R : ReadSide) (stored : StoredJson) : Except AppError Json :=
  match stored.encryptedDek with
  | none => .error (.encryption "encrypted_dek is NULL for encryption_version=1")
  | some encDek =>
    match stored.traceNonce with
    | none => .error (.encryption "trace_nonce is NULL for encryption_version=1")
    | some nonce =>
      match R.provider.decryptDek encDek (stored.keyVersion.getD 1) with
      | .error e => .error (.encryption e)
      | .ok dek =>
        match extractCiphertextFromJsonb R.base64Error stored.traceJson with
        | .error e => .error (.encryption e)
        | .ok ciphertext =>
          match decryptTrace K ciphertext nonce dek with
          | .error e => .error (.encryption e)
          | .ok plaintext =>
            match K.fromSlice plaintext with
            | .error e => .error (.serialization e)
            | .ok value => .ok value

/-- `decrypt_if_needed`; without a key provider only plaintext rows can be read. -/
def decryptIfNeeded (K : Crates) (R : Option ReadSide) (stored : StoredJson) :
    Except AppError Json :=
  if stored.encryptionVersion = 0 then .ok stored.traceJson
  else if stored.encryptionVersion = 1 then
    match R with
    | none => .error (.encryption "encryption_version=1 but no key_provider configured")
    | some R => decryptStored K R stored
  else .error (.encryption ("unknown encryption_version: " ++ toString stored.encryptionVersion))

/-- `decrypt_trace_json` of the erasure, which always has a key provider. -/
def decryptTraceJson (K : Crates) (R : ReadSide) (stored : StoredJson) : Except AppError Json :=
  if stored.encryptionVersion = 0 then .ok stored.traceJson
  else if stored.encryptionVersion = 1 then decryptStored K R stored
  else .error (.encryption ("unknown encryption_version: " ++ toString stored.encryptionVersion))

theorem decryptTraceJson_eq (K : Crates) (R : ReadSide) (stored : StoredJson) :
    decryptTraceJson K R stored = decryptIfNeeded K (some R) stored := rfl

/-- The columns of a row that hold its trace. -/
def TraceRow.stored (r : TraceRow) : StoredJson :=
  ⟨r.traceJson, r.traceNonce, r.encryptedDek, r.keyVersion, r.encryptionVersion⟩

/-! ## The round trip -/

/-- The data key of a draw, if there is one, unwraps to itself. -/
def EncryptionDraw.Honest (P : KeyProvider) (draw : EncryptionDraw) : Prop :=
  ∀ grant, draw.generateDek = .ok grant →
    P.decryptDek grant.encryptedDek grant.keyVersion = .ok grant.dek

/-- The parser reads the text of this number back as the number; it rounds the text of some floats
to a neighbour. -/
def Crates.ReadsNumber (K : Crates) (x : Number) : Prop :=
  K.fromSlice (toVec K (.num x)) = .ok (.num x)

/-- A value that can be read back: the parser stops at a nesting of 128, and reads its numbers. -/
structure Crates.Reads (K : Crates) (json : Json) : Prop where
  value : Json.IsValue 127 json
  numbers : Json.Numbers K.ReadsNumber json

/-- What is relied on of the crates: decryption undoes encryption, and the parser reads a value back
if it reads its numbers back. -/
structure Crates.RoundTrip (K : Crates) : Prop where
  aesGcm : ∀ dek nonce plaintext ciphertext, dek.length = 32 → nonce.length = 12 →
    K.aesGcmEncrypt dek nonce plaintext = .ok ciphertext →
      K.aesGcmDecrypt dek nonce ciphertext = .ok plaintext
  fromSlice : ∀ value, K.Reads value → K.fromSlice (toVec K value) = .ok value

theorem wrapCiphertextForJsonb_eq (ciphertext : List UInt8) : wrapCiphertextForJsonb ciphertext
    = .obj [("data", .str (String.ofList (Encoding.base64Encode ciphertext))),
        ("v", .num (.posInt 1))] := by
  have hle : ¬ "v" ≤ "data" := by decide
  simp [wrapCiphertextForJsonb, Json.normalize, Json.normalizeMembers, Json.sortByKey, Json.keyLe,
    hle]

theorem extract_wrapCiphertext (base64Error : String → String) (ciphertext : List UInt8) :
    extractCiphertextFromJsonb base64Error (wrapCiphertextForJsonb ciphertext)
      = .ok ciphertext := by
  have hv : ((wrapCiphertextForJsonb ciphertext).get? "v").bind Json.asI64 = some 1 := by
    rw [wrapCiphertextForJsonb_eq]
    rfl
  have hdata : ((wrapCiphertextForJsonb ciphertext).get? "data").bind Json.asStr
      = some (String.ofList (Encoding.base64Encode ciphertext)) := by
    rw [wrapCiphertextForJsonb_eq]
    rfl
  rw [extractCiphertextFromJsonb, hv, hdata]
  simp only [ne_eq, not_true_eq_false, if_false, String.toList_ofList,
    Encoding.base64Decode_base64Encode]

theorem encryptJson_ok {K : Crates} {draw : EncryptionDraw} {value : Json} {stored : StoredJson}
    (h : encryptJson K draw value = .ok stored) : ∃ grant ciphertext,
      draw.generateDek = .ok grant ∧
      K.aesGcmEncrypt grant.dek draw.nonce (toVec K value) = .ok ciphertext ∧
      stored = ⟨wrapCiphertextForJsonb ciphertext, some draw.nonce, some grant.encryptedDek,
        some grant.keyVersion, 1⟩ := by
  unfold encryptJson encryptTrace at h
  cases hg : draw.generateDek with
  | error e => rw [hg] at h; exact absurd h (by simp)
  | ok grant =>
    rw [hg] at h
    simp only at h
    cases hc : K.aesGcmEncrypt grant.dek draw.nonce (toVec K value) with
    | error e => rw [hc] at h; exact absurd h (by simp)
    | ok ciphertext =>
      rw [hc] at h
      exact ⟨grant, ciphertext, rfl, hc, (Except.ok.inj h).symm⟩

/-- **What is encrypted under an honest data key decrypts to itself.** -/
theorem decrypt_encryptJson {K : Crates} {R : ReadSide} (hK : K.RoundTrip) {draw : EncryptionDraw}
    (hdraw : draw.Honest R.provider) {value : Json} (hvalue : K.Reads value)
    {stored : StoredJson} (h : encryptJson K draw value = .ok stored) :
    decryptIfNeeded K (some R) stored = .ok value := by
  obtain ⟨grant, ciphertext, hgrant, henc, rfl⟩ := encryptJson_ok h
  have hdec : K.aesGcmDecrypt grant.dek draw.nonce ciphertext = .ok (toVec K value) :=
    hK.aesGcm _ _ _ _ grant.dek_length draw.nonce_length henc
  have hone : ¬ (1 : Int32) = 0 := by decide
  simp only [decryptIfNeeded, decryptStored, decryptTrace, if_neg hone, if_true, Option.getD_some,
    hdraw grant hgrant, extract_wrapCiphertext, grant.dek_length, draw.nonce_length, ne_eq,
    not_true_eq_false, if_false, hdec, hK.fromSlice value hvalue]

/-! ## The serialized trace -/

theorem jsonSkipped_keys (key : String) (o : Option String) :
    ((jsonSkipped key o).map Prod.fst).Sublist [key] := by
  cases o with
  | none => exact List.nil_sublist _
  | some s => exact List.Sublist.refl _

theorem distinctKeys_jsonSkipped {n : ℕ} {key : String} {o : Option String} {m : String × Json}
    (h : m ∈ jsonSkipped key o) : Json.DistinctKeys n m.2 := by
  cases o with
  | none => exact absurd h (by simp [jsonSkipped])
  | some s =>
    rw [List.mem_singleton.1 h]
    exact .str n s

/-- Of the optional members those that are there have different keys. -/
theorem distinctKeys_regulatory (n : ℕ) (r : RegulatoryBlock) :
    Json.DistinctKeys (n + 1) r.toJson := by
  refine .obj ?_ ?_
  · have hsub := (((((jsonSkipped_keys "mifid_algo_id" r.mifidAlgoId).append
      (jsonSkipped_keys "mifid_decision_maker" r.mifidDecisionMaker)).append
      (jsonSkipped_keys "cftc_cti_code" r.cftcCtiCode)).append
      (jsonSkipped_keys "cftc_account_type" r.cftcAccountType)).append
      (jsonSkipped_keys "cat_order_id" r.catOrderId)).append
      (jsonSkipped_keys "jurisdiction" r.jurisdiction)
    simp only [← List.map_append] at hsub
    exact List.Nodup.sublist hsub (by decide)
  · intro m hm
    simp only [List.mem_append] at hm
    rcases hm with ((((hm | hm) | hm) | hm) | hm) | hm <;> exact distinctKeys_jsonSkipped hm

@[simp] theorem distinctKeys_jsonF64 (n : ℕ) (f : F64) : Json.DistinctKeys n (jsonF64 f) :=
  .num n (.float f)

@[simp] theorem distinctKeys_jsonOption {α : Type*} {n : ℕ} {f : α → Json} (o : Option α)
    (h : ∀ a, Json.DistinctKeys n (f a)) : Json.DistinctKeys n (jsonOption f o) := by
  cases o with
  | none => exact .null n
  | some a => exact h a

theorem distinctKeys_mta (n : ℕ) (b : MtaBlock) : Json.DistinctKeys (n + 2) b.toJson := by
  simp [MtaBlock.toJson, jsonU8]

theorem distinctKeys_execution (n : ℕ) (b : ExecutionBlock) :
    Json.DistinctKeys (n + 1) b.toJson := by
  simp [ExecutionBlock.toJson]

theorem distinctKeys_integrity (n : ℕ) (b : IntegrityBlock) :
    Json.DistinctKeys (n + 1) b.toJson := by
  simp [IntegrityBlock.toJson]

/-- No object of a serialized trace repeats a key; the regime's `allowed_sides` are nested
deepest. -/
theorem distinctKeys_trace (n : ℕ) (K : Crates) (t : ReasoningTrace) :
    Json.DistinctKeys (n + 3) (t.toJson K) := by
  have hblocks : Json.DistinctKeys (n + 2) (t.bitemporal.toJson K) ∧
      Json.DistinctKeys (n + 2) t.agent.toJson ∧ Json.DistinctKeys (n + 2) t.heartbeat.toJson ∧
      Json.DistinctKeys (n + 2) t.policy.toJson := by
    simp [BiTemporalBlock.toJson, AgentBlock.toJson, HeartbeatBlock.toJson, PolicyBlock.toJson,
      jsonU64, jsonI64]
  obtain ⟨hbitemporal, hagent, hheartbeat, hpolicy⟩ := hblocks
  unfold ReasoningTrace.toJson
  cases t.regulatory with
  | none =>
    simp [hbitemporal, hagent, hheartbeat, hpolicy, distinctKeys_mta, distinctKeys_execution,
      distinctKeys_integrity]
  | some r =>
    simp [hbitemporal, hagent, hheartbeat, hpolicy, distinctKeys_mta, distinctKeys_execution,
      distinctKeys_integrity, distinctKeys_regulatory]

/-- **The serialized trace is a value the parser reads back.** -/
theorem isValue_trace (K : Crates) (t : ReasoningTrace) :
    Json.IsValue 127 (t.toJson K).normalize :=
  Json.isValue_normalize (distinctKeys_trace 124 K t)

/-! ## Erasure of the personal fields -/

/-- `null_pii_fields`. -/
def nullPiiFields (json : Json) : Json :=
  (json.modify "agent"
    (Json.setNull ["agent_id", "latent_fingerprint", "feature_schema_id"])).modify
    "execution" (Json.setNull ["client_order_id", "venue_id"])

theorem nullPiiFields_nullPiiFields (json : Json) :
    nullPiiFields (nullPiiFields json) = nullPiiFields json := by
  have hkeys : "agent" ≠ "execution" := by decide
  unfold nullPiiFields
  rw [Json.modify_comm hkeys, Json.modify_comp, Json.modify_comp]
  simp only [Json.setNull_setNull (by decide : ["agent_id", "latent_fingerprint",
    "feature_schema_id"].Nodup), Json.setNull_setNull (by decide : ["client_order_id",
    "venue_id"].Nodup)]

theorem isValue_nullPiiFields {n : ℕ} {json : Json} (h : Json.IsValue n json) :
    Json.IsValue n (nullPiiFields json) :=
  (h.modify "agent" fun _ _ hv => hv.setNull _).modify "execution" fun _ _ hv => hv.setNull _

theorem Crates.Reads.nullPiiFields {K : Crates} {json : Json} (h : K.Reads json) :
    K.Reads (nullPiiFields json) where
  value := isValue_nullPiiFields h.value
  numbers := (h.numbers.modify "agent" fun _ hv => hv.setNull _).modify "execution"
    fun _ hv => hv.setNull _

/-- `agent.{agent_id, latent_fingerprint, feature_schema_id}` and
`execution.{client_order_id, venue_id}`. -/
def piiPaths : List (List Json.PathStep) :=
  [[.key "agent", .key "agent_id"], [.key "agent", .key "latent_fingerprint"],
    [.key "agent", .key "feature_schema_id"], [.key "execution", .key "client_order_id"],
    [.key "execution", .key "venue_id"]]

theorem sameOutside_nullPiiFields (json : Json) :
    Json.SameOutside piiPaths json (nullPiiFields json) := by
  have hagent := Json.SameOutside.modify (by simp) (fun v => Json.SameOutside.setNull
    (List.cons_ne_nil "agent_id" ["latent_fingerprint", "feature_schema_id"]) v) "agent" json
  have hexecution := Json.SameOutside.modify (by simp) (fun v => Json.SameOutside.setNull
    (List.cons_ne_nil "client_order_id" ["venue_id"]) v) "execution"
    (json.modify "agent" (Json.setNull ["agent_id", "latent_fingerprint", "feature_schema_id"]))
  exact hagent.append hexecution

/-- The fields of the agent. -/
theorem get?_agent_nullPiiFields (json : Json) :
    (nullPiiFields json).get? "agent" = (json.get? "agent").map
      (Json.setNull ["agent_id", "latent_fingerprint", "feature_schema_id"]) := by
  have hkeys : "execution" ≠ "agent" := by decide
  rw [nullPiiFields, Json.get?_modify_of_ne hkeys, Json.get?_modify]

/-- The fields of the execution. -/
theorem get?_execution_nullPiiFields (json : Json) :
    (nullPiiFields json).get? "execution" = (json.get? "execution").map
      (Json.setNull ["client_order_id", "venue_id"]) := by
  have hkeys : "agent" ≠ "execution" := by decide
  rw [nullPiiFields, Json.get?_modify, Json.get?_modify_of_ne hkeys]

/-- **Erasing the personal fields** is idempotent and touches nothing else.  Off the five fields and
what is inside them every path leads to the same node as before, and to the same value unless it
contains one of the fields; and the fields of an object `agent` or `execution` are `null`. -/
theorem pii_nulling_exact (json : Json) :
    nullPiiFields (nullPiiFields json) = nullPiiFields json ∧
      (∀ p, (∀ q ∈ piiPaths, ¬ q <+: p) →
        ((nullPiiFields json).at? p).map Json.node = (json.at? p).map Json.node) ∧
      (∀ p, (∀ q ∈ piiPaths, ¬ q <+: p ∧ ¬ p <+: q) → (nullPiiFields json).at? p = json.at? p) ∧
      (∀ ms, json.get? "agent" = some (.obj ms) →
        ∀ k ∈ ["agent_id", "latent_fingerprint", "feature_schema_id"],
          (nullPiiFields json).at? [.key "agent", .key k] = some .null) ∧
      ∀ ms, json.get? "execution" = some (.obj ms) →
        ∀ k ∈ ["client_order_id", "venue_id"],
          (nullPiiFields json).at? [.key "execution", .key k] = some .null := by
  have hsame := sameOutside_nullPiiFields json
  refine ⟨nullPiiFields_nullPiiFields json, hsame.node, hsame.value, ?_, ?_⟩
  · intro ms hobj k hk
    exact Json.at?_of_get?_setNull (get?_agent_nullPiiFields json) hk hobj
  · intro ms hobj k hk
    exact Json.at?_of_get?_setNull (get?_execution_nullPiiFields json) hk hobj

/-- An agent whose id is itself an object, and an execution that is none. -/
def piiDocument : Json :=
  .obj [("agent", .obj [("agent_id", .obj [("name", .str "a")]), ("model_id", .str "m")]),
    ("execution", .arr [.str "c"])]

theorem pii_nulling_exact_sample :
    (nullPiiFields piiDocument).at? [.key "agent", .key "agent_id"] = some .null ∧
      (nullPiiFields piiDocument).at? [.key "agent", .key "model_id"] = some (.str "m") ∧
      (nullPiiFields piiDocument).at? [.key "execution", .index 0] = some (.str "c") := by
  obtain ⟨-, -, hvalue, hagent, -⟩ := pii_nulling_exact piiDocument
  refine ⟨hagent _ rfl "agent_id" (by simp), ?_, ?_⟩
  · rw [hvalue _ (by simp [piiPaths])]
    rfl
  · rw [hvalue _ (by simp [piiPaths])]
    rfl

end IrlEngine
