import IrlEngine.Erasure

/-!
# The key providers and the restarts of the engine

The three providers of `kms.rs`, how `build_key_provider` makes one of the environment,
and the trace store under an engine that is stopped and started again with other
settings.  AWS KMS and Vault are parameters: what they answer, and which wrapped keys
they have handed out.

* `WrappingKey` — what a provider wraps under, whatever its key version;
* **Unwrapping** — `unwrap_generated`: each provider unwraps what any provider of the same
  wrapping key has wrapped, under every version;
* `kmsStep` — inserts, backfills and erasures between restarts;
* **Restarts** — `traces_survive_restarts`: as long as the wrapping key stays, every
  engine started since reads every trace.
-/

namespace IrlEngine

/-! ## The environment -/

/-- What `std::env::var` finds under a name. -/
abbrev Environment := String → Option String

/-- `str::to_lowercase` compared with an ASCII word without a `k`; only the Kelvin sign has
an ASCII lower case that is not its own. -/
def lowercaseIs (s word : String) : Bool := Text.toAsciiLowercase s.toList = word.toList

/-- `i32::from_str`. -/
def parseI32 (s : String) : Option Int32 :=
  let value (negative : Bool) (digits : List Char) : Option Int32 :=
    if digits ≠ [] ∧ digits.all Char.isDigit then
      let n : ℤ := Nat.ofDigitChars 10 digits 0
      let m := if negative then -n else n
      if -2 ^ 31 ≤ m ∧ m < 2 ^ 31 then some (Int32.ofInt m) else none
    else none
  match s.toList with
  | '+' :: digits => value false digits
  | '-' :: digits => value true digits
  | digits => value false digits

/-- `KmsProvider`. -/
inductive KmsProvider where
  | none
  | local
  | aws
  | vault
  deriving DecidableEq, Repr

/-- The fields of `Config` that concern the keys. -/
structure KmsConfig where
  kmsProvider : KmsProvider
  kmsKeyId : Option String
  kmsKeyVersion : Int32

/-- What `Config::from_env` makes of them. -/
def KmsConfig.fromEnv (env : Environment) : Except String KmsConfig :=
  let provider := match env "KMS_PROVIDER" with
    | some "local" => KmsProvider.local
    | some "aws" => KmsProvider.aws
    | some "vault" => KmsProvider.vault
    | _ => KmsProvider.none
  match parseI32 ((env "KMS_KEY_VERSION").getD "1") with
  | none => .error "KMS_KEY_VERSION must be an integer"
  | some version => .ok ⟨provider, env "KMS_KEY_ID", version⟩

/-! ## The providers -/

/-- AWS KMS and Vault: their clients, what they answer, and which wrapped keys they have
handed out for which data keys. -/
structure KeyServices where
  AwsClient : Type
  VaultClient : Type
  loadDefaults : Environment → AwsClient
  /-- A client of the Vault at an address, with a token. -/
  vaultClient : String → String → Except String VaultClient
  /-- The plaintext in the answer of `Decrypt` under a key, if it holds one. -/
  awsDecrypt : AwsClient → String → List UInt8 → Except String (Option (List UInt8))
  /-- The answer of `transit/decrypt` under a mount and a key name. -/
  transitDecrypt : VaultClient → String → String → String → Except String String
  /-- `GenerateDataKey` has answered with this data key and this blob. -/
  dataKey : AwsClient → String → List UInt8 → List UInt8 → Prop
  /-- `transit/encrypt` has answered for this plaintext with this ciphertext. -/
  sealed : VaultClient → String → String → String → String → Prop

/-- Each service decrypts what it has handed out. -/
structure KeyServices.Lawful (S : KeyServices) : Prop where
  aws : ∀ client keyId dek blob, S.dataKey client keyId dek blob →
    S.awsDecrypt client keyId blob = .ok (some dek)
  transit : ∀ client mount keyName plaintext ciphertext,
    S.sealed client mount keyName plaintext ciphertext →
      S.transitDecrypt client mount keyName ciphertext = .ok plaintext

/-- What one `generate_dek` draws from outside: 32 bytes and a nonce from the system, and
the answers of the two services. -/
structure DekDraw where
  bytes : List UInt8
  nonce : List UInt8
  generateDataKey : Except String (Option (List UInt8) × Option (List UInt8))
  transitEncrypt : Except String String
  length_bytes : bytes.length = 32
  length_nonce : nonce.length = 12

/-- A data key, its wrapped form and the version of the wrapping key. -/
abbrev Dek := List UInt8 × List UInt8 × Int32

/-- What `generate_dek` returns for a grant. -/
def DekGrant.parts (g : DekGrant) : Dek := (g.dek, g.encryptedDek, g.keyVersion)

/-- `AwsKmsProvider`. -/
structure AwsKmsProvider (S : KeyServices) where
  client : S.AwsClient
  keyId : String
  keyVersion : Int32

/-- `GenerateDataKey` of AWS. -/
def AwsKmsProvider.generateDek {S : KeyServices} (p : AwsKmsProvider S) (x : DekDraw) :
    Except String Dek :=
  match x.generateDataKey with
  | .error _ => .error "AWS KMS GenerateDataKey failed"
  | .ok (none, _) => .error "AWS KMS: GenerateDataKey returned no plaintext"
  | .ok (some _, none) => .error "AWS KMS: GenerateDataKey returned no ciphertext_blob"
  | .ok (some plaintext, some blob) => .ok (plaintext, blob, p.keyVersion)

/-- `Decrypt` of AWS, which finds the version in the blob. -/
def AwsKmsProvider.decryptDek {S : KeyServices} (p : AwsKmsProvider S) (encryptedDek : List UInt8)
    (_keyVersion : Int32) : Except String (List UInt8) :=
  match S.awsDecrypt p.client p.keyId encryptedDek with
  | .error _ => .error "AWS KMS Decrypt failed"
  | .ok none => .error "AWS KMS: Decrypt returned no plaintext"
  | .ok (some plaintext) => .ok plaintext

/-- `VaultTransitProvider`. -/
structure VaultTransitProvider (S : KeyServices) where
  client : S.VaultClient
  mount : String
  keyName : String
  keyVersion : Int32

/-- `VaultTransitProvider::new`, from the environment. -/
def VaultTransitProvider.new (S : KeyServices) (env : Environment) (keyVersion : Int32) :
    Except String (VaultTransitProvider S) :=
  match env "VAULT_ADDR" with
  | none => .error "VAULT_ADDR missing"
  | some addr =>
    match env "VAULT_TOKEN" with
    | none => .error "VAULT_TOKEN missing"
    | some token =>
      match env "VAULT_TRANSIT_KEY" with
      | none => .error "VAULT_TRANSIT_KEY missing"
      | some keyName =>
        match S.vaultClient addr token with
        | .error e => .error e
        | .ok client =>
          .ok ⟨client, (env "VAULT_TRANSIT_MOUNT").getD "transit", keyName, keyVersion⟩

/-- The wrapped key is the text of the transit engine. -/
def VaultTransitProvider.generateDek {S : KeyServices} (p : VaultTransitProvider S) (x : DekDraw) :
    Except String Dek :=
  match x.transitEncrypt with
  | .error _ => .error "Vault transit encrypt failed"
  | .ok ciphertext => .ok (x.bytes, Text.utf8 ciphertext, p.keyVersion)

/-- The plaintext that `generate_dek` has the transit engine encrypt. -/
def DekDraw.plaintextB64 (x : DekDraw) : String := String.ofList (Encoding.base64Encode x.bytes)

/-- The transit engine finds the version in that text. -/
def VaultTransitProvider.decryptDek {S : KeyServices} (p : VaultTransitProvider S)
    (encryptedDek : List UInt8) (_keyVersion : Int32) : Except String (List UInt8) :=
  match Text.fromUtf8 encryptedDek with
  | none => .error "Vault ciphertext stored in BYTEA is not valid UTF-8"
  | some ciphertext =>
    match S.transitDecrypt p.client p.mount p.keyName ciphertext with
    | .error _ => .error "Vault transit decrypt failed"
    | .ok plaintext =>
      match Encoding.base64Decode plaintext.toList with
      | none => .error "Vault response plaintext is not valid base64"
      | some dek => .ok dek

/-- The provider of development and CI, with its own wrapping key. -/
structure LocalDevProvider where
  wrappingKey : List UInt8
  keyVersion : Int32
  length_wrappingKey : wrappingKey.length = 32

/-- `LocalDevProvider::new`, which refuses to run in production. -/
def LocalDevProvider.new (env : Environment) (keyVersion : Int32) :
    Except String LocalDevProvider :=
  if lowercaseIs ((env "ENVIRONMENT").getD "") "production" then
    .error "LocalDevProvider cannot be used in ENVIRONMENT=production"
  else
    match env "LOCAL_KMS_KEY" with
    | none => .error "LOCAL_KMS_KEY must be set when KMS_PROVIDER=local"
    | some keyHex =>
      match Encoding.hexDecode keyHex.toList with
      | none => .error "LOCAL_KMS_KEY is not valid hex"
      | some keyBytes =>
        if h : keyBytes.length = 32 then .ok ⟨keyBytes, keyVersion, h⟩
        else .error ("LOCAL_KMS_KEY must be exactly 32 bytes (64 hex chars), got "
          ++ toString keyBytes.length)

/-- The wrapped key is the nonce and then the ciphertext with its tag. -/
def LocalDevProvider.generateDek (K : Crates) (p : LocalDevProvider) (x : DekDraw) :
    Except String Dek :=
  match encryptTrace K x.bytes p.wrappingKey x.nonce with
  | .error _ => .error "LocalDevProvider: DEK wrapping failed"
  | .ok ciphertext => .ok (x.bytes, x.nonce ++ ciphertext, p.keyVersion)

/-- The nonce and the ciphertext taken apart again. -/
def LocalDevProvider.decryptDek (K : Crates) (p : LocalDevProvider) (encryptedDek : List UInt8)
    (_keyVersion : Int32) : Except String (List UInt8) :=
  if encryptedDek.length < 12 then
    .error "LocalDevProvider: encrypted_dek too short to contain nonce"
  else
    match decryptTrace K (encryptedDek.drop 12) (encryptedDek.take 12) p.wrappingKey with
    | .error _ => .error "LocalDevProvider: DEK unwrapping failed"
    | .ok dek => .ok dek

/-- The `Arc<dyn KeyProvider>` of the engine. -/
inductive ActiveProvider (S : KeyServices) where
  | aws (p : AwsKmsProvider S)
  | vault (p : VaultTransitProvider S)
  | localDev (p : LocalDevProvider)

namespace ActiveProvider

variable {S : KeyServices}

/-- `generate_dek`. -/
def generateDek (K : Crates) (x : DekDraw) : ActiveProvider S → Except String Dek
  | aws p => p.generateDek x
  | vault p => p.generateDek x
  | localDev p => p.generateDek K x

/-- `decrypt_dek`. -/
def decryptDek (K : Crates) (encryptedDek : List UInt8) (keyVersion : Int32) :
    ActiveProvider S → Except String (List UInt8)
  | aws p => p.decryptDek encryptedDek keyVersion
  | vault p => p.decryptDek encryptedDek keyVersion
  | localDev p => p.decryptDek K encryptedDek keyVersion

end ActiveProvider

/-- `build_key_provider`. -/
def buildKeyProvider (S : KeyServices) (env : Environment) (config : KmsConfig) :
    Except String (Option (ActiveProvider S)) :=
  match config.kmsProvider with
  | .none => .ok none
  | .local =>
    match LocalDevProvider.new env config.kmsKeyVersion with
    | .error e => .error e
    | .ok p => .ok (some (.localDev p))
  | .aws =>
    match config.kmsKeyId with
    | none => .error "KMS_KEY_ID is required when KMS_PROVIDER=aws"
    | some keyId => .ok (some (.aws ⟨S.loadDefaults env, keyId, config.kmsKeyVersion⟩))
  | .vault =>
    match VaultTransitProvider.new S env config.kmsKeyVersion with
    | .error e => .error e
    | .ok p => .ok (some (.vault p))

/-- The key provider that an engine started in this environment has. -/
def startProvider (S : KeyServices) (env : Environment) :
    Except String (Option (ActiveProvider S)) :=
  match KmsConfig.fromEnv env with
  | .error e => .error e
  | .ok config => buildKeyProvider S env config

/-! ## Unwrapping -/

/-- What a provider wraps data keys under. -/
inductive WrappingKey (S : KeyServices) where
  | aws (client : S.AwsClient) (keyId : String)
  | vault (client : S.VaultClient) (mount keyName : String)
  | localDev (bytes : List UInt8) (length_bytes : bytes.length = 32)

/-- The key of a provider, without the version that it puts on new data keys. -/
def ActiveProvider.wrappingKey {S : KeyServices} : ActiveProvider S → WrappingKey S
  | .aws p => .aws p.client p.keyId
  | .vault p => .vault p.client p.mount p.keyName
  | .localDev p => .localDev p.wrappingKey p.length_wrappingKey

/-- A provider of the key, at the first version. -/
def WrappingKey.provider {S : KeyServices} : WrappingKey S → ActiveProvider S
  | .aws client keyId => .aws ⟨client, keyId, 1⟩
  | .vault client mount keyName => .vault ⟨client, mount, keyName, 1⟩
  | .localDev bytes h => .localDev ⟨bytes, 1, h⟩

/-- The service asked for this draw has recorded its answer. -/
def DekDraw.Recorded {S : KeyServices} (x : DekDraw) : WrappingKey S → Prop
  | .aws client keyId => ∀ dek blob, x.generateDataKey = .ok (some dek, some blob) →
      S.dataKey client keyId dek blob
  | .vault client mount keyName => ∀ ciphertext, x.transitEncrypt = .ok ciphertext →
      S.sealed client mount keyName x.plaintextB64 ciphertext
  | .localDev _ _ => True

section Unwrap

variable {S : KeyServices} {K : Crates}

/-- No provider looks at the key version. -/
theorem decryptDek_eq (p : ActiveProvider S) (encryptedDek : List UInt8) (keyVersion : Int32) :
    p.decryptDek K encryptedDek keyVersion = p.wrappingKey.provider.decryptDek K
      encryptedDek 1 := by
  cases p <;> rfl

theorem aws_unwraps (hS : S.Lawful) {p : AwsKmsProvider S} {x : DekDraw}
    (hx : x.Recorded (.aws p.client p.keyId)) {dek encryptedDek : List UInt8} {version : Int32}
    (h : p.generateDek x = .ok (dek, encryptedDek, version)) (keyVersion : Int32) :
    p.decryptDek encryptedDek keyVersion = .ok dek := by
  unfold AwsKmsProvider.generateDek at h
  split at h
  · exact absurd h (by simp)
  · exact absurd h (by simp)
  · exact absurd h (by simp)
  · rename_i plaintext blob hanswer
    obtain ⟨rfl, rfl, -⟩ : plaintext = dek ∧ blob = encryptedDek ∧ p.keyVersion = version := by
      simpa using h
    rw [AwsKmsProvider.decryptDek, hS.aws _ _ _ _ (hx _ _ hanswer)]

theorem vault_unwraps (hS : S.Lawful) {p : VaultTransitProvider S} {x : DekDraw}
    (hx : x.Recorded (.vault p.client p.mount p.keyName)) {dek encryptedDek : List UInt8}
    {version : Int32} (h : p.generateDek x = .ok (dek, encryptedDek, version))
    (keyVersion : Int32) : p.decryptDek encryptedDek keyVersion = .ok dek := by
  unfold VaultTransitProvider.generateDek at h
  split at h
  · exact absurd h (by simp)
  · rename_i ciphertext hanswer
    obtain ⟨rfl, rfl, -⟩ : x.bytes = dek ∧ Text.utf8 ciphertext = encryptedDek ∧
        p.keyVersion = version := by simpa using h
    have hdecrypt := hS.transit _ _ _ _ _ (hx ciphertext hanswer)
    simp only [VaultTransitProvider.decryptDek, Text.fromUtf8_utf8, hdecrypt, DekDraw.plaintextB64,
      String.toList_ofList, Encoding.base64Decode_base64Encode]

theorem localDev_unwraps (hK : K.RoundTrip) {p : LocalDevProvider} {x : DekDraw}
    {dek encryptedDek : List UInt8} {version : Int32}
    (h : p.generateDek K x = .ok (dek, encryptedDek, version)) (keyVersion : Int32) :
    p.decryptDek K encryptedDek keyVersion = .ok dek := by
  unfold LocalDevProvider.generateDek encryptTrace at h
  cases hc : K.aesGcmEncrypt p.wrappingKey x.nonce x.bytes with
  | error e => rw [hc] at h; exact absurd h (by simp)
  | ok ciphertext =>
    rw [hc] at h
    obtain ⟨rfl, rfl, -⟩ : x.bytes = dek ∧ x.nonce ++ ciphertext = encryptedDek ∧
        p.keyVersion = version := by simpa using h
    have hlen : ¬ (x.nonce ++ ciphertext).length < 12 := by
      rw [List.length_append, x.length_nonce]
      omega
    have hnonce : (x.nonce ++ ciphertext).take 12 = x.nonce := by
      rw [← x.length_nonce, List.take_left]
    have hcipher : (x.nonce ++ ciphertext).drop 12 = ciphertext := by
      rw [← x.length_nonce, List.drop_left]
    have hdec := hK.aesGcm _ _ _ _ p.length_wrappingKey x.length_nonce hc
    simp only [LocalDevProvider.decryptDek, if_neg hlen, hnonce, hcipher, decryptTrace,
      p.length_wrappingKey, x.length_nonce, ne_eq, not_true_eq_false, if_false, hdec]

/-- **A wrapped data key comes back** under any provider of the same wrapping key, whatever
the versions with which it was wrapped and is unwrapped. -/
theorem unwrap_generated (hK : K.RoundTrip) (hS : S.Lawful) {p q : ActiveProvider S}
    (hkey : q.wrappingKey = p.wrappingKey) {x : DekDraw} (hx : x.Recorded p.wrappingKey)
    {dek encryptedDek : List UInt8} {version : Int32}
    (h : p.generateDek K x = .ok (dek, encryptedDek, version)) (keyVersion : Int32) :
    q.decryptDek K encryptedDek keyVersion = .ok dek := by
  rw [decryptDek_eq, hkey, ← decryptDek_eq p encryptedDek keyVersion]
  cases p with
  | aws p => exact aws_unwraps hS hx h keyVersion
  | vault p => exact vault_unwraps hS hx h keyVersion
  | localDev p => exact localDev_unwraps hK h keyVersion

end Unwrap

/-! ## Restarts -/

/-- What is fixed for all the engines that run on one database. -/
structure KmsSetup where
  S : KeyServices
  D : Deployment
  base64Error : String → String
  legacy : List TraceRow

/-- The store as an engine with this provider sees it; without a provider nothing unwraps. -/
def KmsSetup.store (U : KmsSetup) : Option (ActiveProvider U.S) → VaultSetup
  | none => ⟨U.D, ⟨⟨fun _ _ => .error "no key provider"⟩, U.base64Error⟩, U.legacy⟩
  | some p => ⟨U.D, ⟨⟨fun encryptedDek keyVersion => p.decryptDek U.D.K encryptedDek keyVersion⟩,
      U.base64Error⟩, U.legacy⟩

/-- The running engine's provider and the store. -/
structure KmsState (U : KmsSetup) where
  provider : Option (ActiveProvider U.S)
  vault : VaultState

/-- Empty tables and no engine. -/
def KmsState.init (U : KmsSetup) : KmsState U := ⟨none, .init⟩

/-- A start of the engine, or an event of its store. -/
inductive KmsEvent where
  /-- The engine stops, whatever it is doing, and one is started in this environment. -/
  | start (env : Environment)
  | store (e : VaultEvent)

/-- Does the event belong to a worker?  The backfill and the erasure refuse to run without
a key provider. -/
def VaultEvent.isWorker : VaultEvent → Bool
  | .system _ => false
  | _ => true

/-- A start that fails leaves no engine behind, so nothing follows it; one that succeeds
finds the tables as they are, and none of the rows that a worker had read. -/
def kmsStep (U : KmsSetup) (s : KmsState U) : KmsEvent → Option (KmsState U)
  | .start env =>
    match startProvider U.S env with
    | .error _ => none
    | .ok provider => some ⟨provider, ⟨s.vault.sys, [], []⟩⟩
  | .store e =>
    if e.isWorker && s.provider.isNone then none
    else (vaultStep (U.store s.provider) s.vault e).map fun vault => ⟨s.provider, vault⟩

/-- The plaintext store beside it. -/
def kmsPlainStep (U : KmsSetup) (s s' : KmsState U) (p : List PlainTrace) :
    KmsEvent → List PlainTrace
  | .start _ => p
  | .store e => plainStep (U.store s.provider) s.vault s'.vault p e

/-- The event encrypts with this draw. -/
def VaultEvent.Draws (D : Deployment) : VaultEvent → EncryptionDraw → Prop
  | .system e, draw => ∃ a, insertedBy D e = some a ∧ a.key = some draw
  | .backfillWrite _ d, draw => draw = d
  | .gdprWrite _ d, draw => draw = d
  | _, _ => False

/-- The draw comes from this provider. -/
def ActiveProvider.Makes {S : KeyServices} (K : Crates) (p : ActiveProvider S)
    (draw : EncryptionDraw) : Prop :=
  ∃ x : DekDraw, x.Recorded p.wrappingKey ∧
    draw.generateDek.map DekGrant.parts = p.generateDek K x

/-- The numbers of a trace that the event inserts read back. -/
def VaultEvent.ReadsBack (D : Deployment) : VaultEvent → Prop
  | .system e => ∀ a, insertedBy D e = some a →
    (a.trace.toJson D.K).normalize.Numbers D.K.ReadsNumber
  | _ => True

/-- Whoever encrypts asks the running engine's provider, and every engine that is started
with a provider wraps under `key`. -/
def KmsEvent.Keeps (U : KmsSetup) (key : WrappingKey U.S) (s : KmsState U) : KmsEvent → Prop
  | .start env => ∀ p, startProvider U.S env = .ok (some p) → p.wrappingKey = key
  | .store e => e.ReadsBack U.D ∧
    ∀ draw, e.Draws U.D draw → ∃ p, s.provider = some p ∧ p.Makes U.D.K draw

section Runs

variable {U : KmsSetup} {key : WrappingKey U.S}

/-- The store looks the same to all providers of one wrapping key. -/
theorem store_eq {p : ActiveProvider U.S} (h : p.wrappingKey = key) :
    U.store (some p) = U.store (some key.provider) := by
  have hdecrypt : (fun encryptedDek keyVersion => p.decryptDek U.D.K encryptedDek keyVersion)
      = fun encryptedDek keyVersion => key.provider.decryptDek U.D.K encryptedDek keyVersion := by
    funext encryptedDek keyVersion
    rw [decryptDek_eq, decryptDek_eq key.provider, h]
    cases key <;> rfl
  simp only [KmsSetup.store, hdecrypt]

/-- What a provider of the key draws is honest to the store. -/
theorem honest_of_makes (hK : U.D.K.RoundTrip) (hS : U.S.Lawful) {p : ActiveProvider U.S}
    (h : p.wrappingKey = key) {draw : EncryptionDraw} (hdraw : p.Makes U.D.K draw) :
    draw.Honest (U.store (some key.provider)).R.provider := by
  obtain ⟨x, hx, hmakes⟩ := hdraw
  intro grant hgrant
  rw [hgrant] at hmakes
  rw [← store_eq h]
  exact unwrap_generated hK hS rfl hx hmakes.symm grant.keyVersion

theorem honest_of_draws {V : VaultSetup} {e : VaultEvent} (hreads : e.ReadsBack V.D)
    (h : ∀ draw, e.Draws V.D draw → draw.Honest V.R.provider) : e.Honest V := by
  cases e with
  | system e => exact fun a ha => ⟨fun draw hdraw => h draw ⟨a, ha, hdraw⟩, hreads a ha⟩
  | backfillWrite k draw => exact h draw rfl
  | gdprWrite k draw => exact h draw rfl
  | backfillRead picks => trivial
  | gdprRead unifiedExists agentId erasedAt requestId picks => trivial

/-- The engine's provider, if it has one, is of the key, and the store is intact under it. -/
structure KmsInv (U : KmsSetup) (key : WrappingKey U.S) (s : KmsState U) (p : List PlainTrace) :
    Prop where
  provider : ∀ q, s.provider = some q → q.wrappingKey = key
  vault : VaultInv (U.store (some key.provider)) s.vault p

/-- A restart forgets what the workers have read, and keeps the rest. -/
theorem VaultInv.restart {V : VaultSetup} {s : VaultState} {p : List PlainTrace}
    (h : VaultInv V s p) : VaultInv V ⟨s.sys, [], []⟩ p :=
  ⟨h.unique, h.apart, h.holds, fun _ hb => absurd hb (by simp), fun _ hj => absurd hj (by simp)⟩

theorem kmsInv_step (hK : U.D.K.RoundTrip) (hS : U.S.Lawful) {s s' : KmsState U}
    {p : List PlainTrace} (hi : KmsInv U key s p) {e : KmsEvent} (he : e.Keeps U key s)
    (h : kmsStep U s e = some s') : KmsInv U key s' (kmsPlainStep U s s' p e) := by
  cases e with
  | start env =>
    simp only [kmsStep] at h
    cases hp : startProvider U.S env with
    | error err => rw [hp] at h; exact absurd h (by simp)
    | ok provider =>
      rw [hp] at h
      obtain rfl := Option.some.inj h
      exact ⟨fun q hq => he q (by rw [hp, show provider = some q from hq]), hi.vault.restart⟩
  | store e =>
    simp only [kmsStep] at h
    split_ifs at h with hrefused
    obtain ⟨vault, hstep, rfl⟩ := Option.map_eq_some_iff.1 h
    refine ⟨hi.provider, ?_⟩
    have hhonest : e.Honest (U.store (some key.provider)) := by
      refine honest_of_draws he.1 fun draw hdraw => ?_
      obtain ⟨q, hq, hmakes⟩ := he.2 draw hdraw
      exact honest_of_makes hK hS (hi.provider q hq) hmakes
    show VaultInv _ vault (plainStep (U.store s.provider) s.vault vault p e)
    cases hq : s.provider with
    | some q =>
      rw [hq, store_eq (hi.provider q hq)] at hstep
      rw [store_eq (hi.provider q hq)]
      exact vaultInv_step hK hi.vault hhonest hstep
    | none =>
      rw [hq] at hstep hrefused
      cases e with
      | system e => exact vaultInv_step hK hi.vault hhonest hstep
      | backfillRead picks => exact absurd rfl hrefused
      | backfillWrite k draw => exact absurd rfl hrefused
      | gdprRead unifiedExists agentId erasedAt requestId picks => exact absurd rfl hrefused
      | gdprWrite k draw => exact absurd rfl hrefused

/-- **Traces survive restarts.**  In a run in which the engine is stopped and started any
number of times, with a key provider or without, under any `KMS_KEY_VERSION`, each row that was
ever written reveals its plaintext trace to every engine of the same wrapping key. -/
theorem traces_survive_restarts (U : KmsSetup) (hK : U.D.K.RoundTrip) (hS : U.S.Lawful)
    (key : WrappingKey U.S) {es : List KmsEvent}
    (hes : Run.Along (kmsStep U) (fun s e => e.Keeps U key s) (.init U) es) {s : KmsState U}
    (hrun : Run.run (kmsStep U) (.init U) es = some s) :
    ∃ p, Run.run (Run.withShadow (kmsStep U) (kmsPlainStep U)) (.init U, []) es = some (s, p) ∧
      ∀ q : ActiveProvider U.S, q.wrappingKey = key →
        List.Forall₂ (Reveals (U.store (some q))) s.vault.sys.traces p := by
  obtain ⟨p, hboth⟩ := Run.exists_run_withShadow (kmsPlainStep U) hrun []
  refine ⟨p, hboth, fun q hq => ?_⟩
  have hinit : KmsInv U key (.init U) [] := by
    refine ⟨fun q hq => absurd hq (by simp [KmsState.init]), ?_⟩
    constructor <;> simp [KmsState.init, VaultState.init, System.init]
  have hinv : KmsInv U key s p := by
    refine Run.run_invariant_along
      (I := fun x : KmsState U × List PlainTrace => KmsInv U key x.1 x.2)
      ?_ hboth (Run.along_withShadow (kmsPlainStep U) hes []) hinit
    rintro ⟨s, p⟩ e ⟨s', p'⟩ hi he hstep
    obtain ⟨t, ht, heq⟩ := Option.map_eq_some_iff.1 hstep
    obtain ⟨rfl, rfl⟩ := Prod.mk.inj heq
    exact kmsInv_step hK hS hi he ht
  rw [store_eq hq]
  exact List.Forall₂.imp (fun _ _ h => h.toReveals) hinv.vault.holds

end Runs

/-! A row written without a key provider, encrypted by an engine with a local key and read by
the next one, whose key version differs. -/

/-- Services that wrap by putting something in front. -/
def KeyServices.sample : KeyServices where
  AwsClient := Unit
  VaultClient := String
  loadDefaults := fun _ => ()
  vaultClient := fun addr _ => .ok addr
  awsDecrypt := fun _ _ blob => .ok blob.tail
  transitDecrypt := fun _ _ _ ciphertext => .ok (String.ofList (ciphertext.toList.drop 9))
  dataKey := fun _ _ dek blob => blob = 0 :: dek
  sealed := fun _ _ _ plaintext ciphertext => ciphertext = "vault:v1:" ++ plaintext

theorem KeyServices.lawful_sample : KeyServices.sample.Lawful := by
  constructor
  · rintro client keyId dek blob rfl
    rfl
  · rintro client mount keyName plaintext ciphertext rfl
    show Except.ok (String.ofList (("vault:v1:" ++ plaintext).toList.drop 9)) = _
    rw [String.toList_append]
    exact congrArg Except.ok String.ofList_toList

/-- The sample services over the sealing store. -/
noncomputable def KmsSetup.sample : KmsSetup := ⟨.sample, ⟨.sealing, .sample, []⟩, fun _ => "", []⟩

/-- A local key, and an environment with it. -/
def localKey : List UInt8 := (List.range 32).map fun i => UInt8.ofNat (i + 1)

/-- The environment, with a text for the key version. -/
def Environment.sample (version : String) : Environment := fun name =>
  if name = "KMS_PROVIDER" then some "local"
  else if name = "LOCAL_KMS_KEY" then some (String.ofList (Encoding.hexEncode localKey))
  else if name = "KMS_KEY_VERSION" then some version
  else none

/-- The provider of that key. -/
def LocalDevProvider.sample (version : Int32) : LocalDevProvider := ⟨localKey, version, rfl⟩

theorem startProvider_sample {version : String} {v : Int32} (h : parseI32 version = some v) :
    startProvider .sample (.sample version) = .ok (some (.localDev (.sample v))) := by
  have hnew : LocalDevProvider.new (.sample version) v = .ok (.sample v) := by
    have hlen : localKey.length = 32 := rfl
    simp [LocalDevProvider.new, Environment.sample, lowercaseIs, Text.toAsciiLowercase,
      Encoding.hexDecode_hexEncode, hlen, LocalDevProvider.sample]
  simp [startProvider, KmsConfig.fromEnv, Environment.sample, h, buildKeyProvider, hnew]

theorem length_sampleBytes : (List.replicate 32 7 : List UInt8).length = 32 := rfl

/-- A draw of the local provider with key version 1. -/
def DekDraw.sample : DekDraw where
  bytes := List.replicate 32 7
  nonce := List.replicate 12 0
  generateDataKey := .error ""
  transitEncrypt := .error ""
  length_bytes := length_sampleBytes
  length_nonce := length_zeroNonce

/-- The draw of an encryption with that data key. -/
noncomputable def EncryptionDraw.wrapped : EncryptionDraw :=
  ⟨.ok ⟨List.replicate 32 7, List.replicate 12 0 ++ AesGcm.encrypt localKey (List.replicate 12 0)
      (List.replicate 32 7), 1, rfl⟩, List.replicate 12 1, rfl⟩

theorem makes_wrapped :
    (ActiveProvider.localDev (S := .sample) (.sample 1)).Makes .sealing .wrapped :=
  ⟨.sample, trivial, rfl⟩

theorem kmsStep_start {U : KmsSetup} {s : KmsState U} {env : Environment}
    {provider : Option (ActiveProvider U.S)} (h : startProvider U.S env = .ok provider) :
    kmsStep U s (.start env) = some ⟨provider, ⟨s.vault.sys, [], []⟩⟩ := by
  rw [kmsStep, h]

theorem kmsStep_store {U : KmsSetup} {s : KmsState U} {e : VaultEvent} {vault : VaultState}
    (hworker : e.isWorker = false ∨ s.provider.isNone = false)
    (h : vaultStep (U.store s.provider) s.vault e = some vault) :
    kmsStep U s (.store e) = some ⟨s.provider, vault⟩ := by
  have hgo : ¬ (e.isWorker && s.provider.isNone) = true := by
    rcases hworker with hw | hw <;> simp [hw]
  rw [kmsStep, if_neg hgo, h]
  rfl

/-- The insert, the backfill under version 1, and a restart under version 2. -/
noncomputable def restartEvents : List KmsEvent :=
  [.store (.system (.insertTrace (sampleArgs .sealing (.fill 2)
      (.sample (.fill 1) (.custom "buy") F64.one) sampleDecision))),
    .start (.sample "1"), .store (.backfillRead [0]), .store (.backfillWrite 0 .wrapped),
    .start (.sample "+2")]

/-- The row after the backfill. -/
noncomputable def wrappedRow (stored : StoredJson) : TraceRow :=
  (buyRow .sealing (.fill 2) F64.one).recode stored

theorem insert_restart : kmsStep .sample (.init .sample) (.store (.system (.insertTrace (sampleArgs
    .sealing (.fill 2) (.sample (.fill 1) (.custom "buy") F64.one) sampleDecision))))
      = some ⟨none, ⟨⟨[buyRow .sealing (.fill 2) F64.one], [], []⟩, [], []⟩⟩ := by
  have habsent : (Uuid.fill 2) ∉ ([] : List TraceRow).map TraceRow.traceId := List.not_mem_nil
  exact kmsStep_store (s := .init .sample) (Or.inl rfl)
    (vaultStep_insertTrace .sealing (KmsSetup.sample.store none).R habsent)

theorem run_restart : ∃ stored,
    encryptJson .sealing .wrapped (buyRow .sealing (.fill 2) F64.one).traceJson = .ok stored ∧
    Run.run (kmsStep .sample) (.init .sample) restartEvents
      = some ⟨some (.localDev (.sample 2)), ⟨⟨[wrappedRow stored], [], []⟩, [], []⟩⟩ := by
  refine ⟨_, rfl, ?_⟩
  rw [restartEvents, Run.run_cons insert_restart,
    Run.run_cons (kmsStep_start (startProvider_sample (v := 1) (by decide))),
    Run.run_cons (kmsStep_store (Or.inr rfl) rfl), Run.run_cons (kmsStep_store (Or.inr rfl) rfl),
    Run.run_cons (kmsStep_start (startProvider_sample (v := 2) (by decide)))]
  rfl

/-- Every start of the run wraps under the local key, and the one draw is of its provider. -/
theorem keeps_restart : Run.Along (kmsStep .sample)
    (fun s e => e.Keeps .sample (ActiveProvider.localDev (.sample 1)).wrappingKey s) (.init .sample)
    restartEvents := by
  have hstart : ∀ {version : String} {v : Int32}, parseI32 version = some v → ∀ s,
      (KmsEvent.start (.sample version)).Keeps .sample
        (ActiveProvider.localDev (.sample 1)).wrappingKey s := by
    intro version v hv s p hp
    obtain rfl := Option.some.inj (Except.ok.inj ((startProvider_sample hv).symm.trans hp))
    rfl
  refine Run.along_cons ?_ insert_restart (Run.along_cons (hstart (v := 1) (by decide) _)
    (kmsStep_start (startProvider_sample (v := 1) (by decide))) (Run.along_cons ?_
      (kmsStep_store (Or.inr rfl) rfl) (Run.along_cons ?_ (kmsStep_store (Or.inr rfl) rfl)
        (Run.along_cons (hstart (v := 2) (by decide) _)
          (kmsStep_start (startProvider_sample (v := 2) (by decide))) trivial))))
  · refine ⟨fun a _ => (reads_sealing (isValue_trace .sealing a.trace)).numbers, ?_⟩
    rintro draw ⟨a, ha, hdraw⟩
    obtain rfl := Option.some.inj ha
    exact absurd hdraw (by simp [sampleArgs, insertArgs, AuthorizeEnv.sample])
  · exact ⟨trivial, fun draw hdraw => hdraw.elim⟩
  · refine ⟨trivial, ?_⟩
    rintro draw rfl
    exact ⟨_, rfl, makes_wrapped⟩

/-- The backfilled row reads the same under the key's next version. -/
theorem traces_survive_restarts_sample : ∃ stored p, List.Forall₂
    (Reveals (KmsSetup.sample.store (some (.localDev (.sample 2))))) [wrappedRow stored] p := by
  obtain ⟨stored, -, hrun⟩ := run_restart
  obtain ⟨p, -, hreveals⟩ :=
    traces_survive_restarts .sample roundTrip_sealing KeyServices.lawful_sample
    (ActiveProvider.localDev (.sample 1)).wrappingKey keeps_restart hrun
  exact ⟨stored, p, hreveals _ rfl⟩

end IrlEngine
