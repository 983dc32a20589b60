import IrlEngine.Admin

/-!
# The token table

Every writer of `irl.api_tokens`: the startup sync of `token_manager.rs`, the handlers of
`routes/tokens.rs`, the update of `last_used_at` and migration 014, which adds the roles.

* `TokenStatement` — the statements one by one, so that a list of them is an interleaving of
  startups, requests and background updates;
* `tokens_kept` — what no list of them can do: a row keeps its role, and a revoked row stays
  revoked;
* `TokenServer` — one server after another on a new database, with the middleware of `auth.rs`;
* `env_owners_iff` — the env tokens of such a run are owners only if there are none, and no
  token ever passes `require_owner`.
-/

namespace IrlEngine

/-! ## Statements -/

/-- A row of `irl.api_tokens`, with the column that `bump_last_used` writes. -/
structure TokenRow extends ApiToken where
  lastUsedAt : Option ℤ

/-- `token_manager::sha256_hex`. -/
def tokenHash (raw : String) : String := sha256Hex (Text.utf8 raw)

/-- The row that the startup sync inserts; the role is the default of the column. -/
def TokenRow.env (raw : String) : TokenRow :=
  ⟨⟨tokenHash raw, "env-loaded", "env", .active, .client⟩, none⟩

/-- The row that `token_issue` inserts. -/
def TokenRow.api (clientName : String) (rawBytes : List UInt8) : TokenRow :=
  ⟨⟨tokenHashOf rawBytes, clientName, "api", .active, .client⟩, none⟩

/-- `token_hash` is unique: the insert of a hash that is there does nothing or fails. -/
def insertToken (t : List TokenRow) (r : TokenRow) : List TokenRow :=
  if r.tokenHash ∈ t.map fun r => r.tokenHash then t else t ++ [r]

/-- `SET status = 'revoked'`. -/
def TokenRow.revoke (r : TokenRow) : TokenRow := { r with status := .revoked }

/-- `SET last_used_at = now()`. -/
def TokenRow.bump (now : ℤ) (r : TokenRow) : TokenRow := { r with lastUsedAt := some now }

/-- The update of `TokenManager::revoke`. -/
def revokeToken (t : List TokenRow) (hash : String) : List TokenRow :=
  Table.updateWhere (fun r => r.tokenHash = hash) TokenRow.revoke t

/-- The update of `bump_last_used`. -/
def bumpToken (t : List TokenRow) (hash : String) (now : ℤ) : List TokenRow :=
  Table.updateWhere (fun r => r.tokenHash = hash) (TokenRow.bump now) t

/-- The statements that write the table; a startup makes one `syncEnv` for each env token. -/
inductive TokenStatement where
  | syncEnv (raw : String)
  | issue (clientName : String) (rawBytes : List UInt8)
  | revoke (hash : String)
  | bumpLastUsed (hash : String) (now : ℤ)

/-- The table after the statement. -/
def TokenStatement.exec (t : List TokenRow) : TokenStatement → List TokenRow
  | .syncEnv raw => insertToken t (.env raw)
  | .issue clientName rawBytes => insertToken t (.api clientName rawBytes)
  | .revoke hash => revokeToken t hash
  | .bumpLastUsed hash now => bumpToken t hash now

/-- The statements as steps of a run. -/
def tokenStep (t : List TokenRow) (e : TokenStatement) : Option (List TokenRow) := some (e.exec t)

/-! ## What a row keeps -/

/-- The row is for the same token, has the same role, and is revoked if it was. -/
structure Kept (r r' : TokenRow) : Prop where
  tokenHash : r'.tokenHash = r.tokenHash
  role : r'.role = r.role
  revoked : r.status = .revoked → r'.status = .revoked

/-- Every row of the first table is at the same place in the second. -/
def TableKept (t t' : List TokenRow) : Prop :=
  ∀ (i : ℕ) (r : TokenRow), t[i]? = some r → ∃ r', t'[i]? = some r' ∧ Kept r r'

theorem Kept.refl (r : TokenRow) : Kept r r := ⟨rfl, rfl, id⟩

theorem Kept.trans {a b c : TokenRow} (h : Kept a b) (h' : Kept b c) : Kept a c :=
  ⟨h'.tokenHash.trans h.tokenHash, h'.role.trans h.role, fun ha => h'.revoked (h.revoked ha)⟩

theorem kept_revoke (r : TokenRow) : Kept r r.revoke := ⟨rfl, rfl, fun _ => rfl⟩

theorem kept_bump (now : ℤ) (r : TokenRow) : Kept r (r.bump now) := ⟨rfl, rfl, id⟩

theorem TableKept.refl (t : List TokenRow) : TableKept t t := fun _ r hr => ⟨r, hr, .refl r⟩

theorem TableKept.trans {t u v : List TokenRow} (h : TableKept t u) (h' : TableKept u v) :
    TableKept t v := by
  intro i r hr
  obtain ⟨r₁, hr₁, hkept₁⟩ := h i r hr
  obtain ⟨r₂, hr₂, hkept₂⟩ := h' i r₁ hr₁
  exact ⟨r₂, hr₂, hkept₁.trans hkept₂⟩

theorem tableKept_insertToken (t : List TokenRow) (r : TokenRow) :
    TableKept t (insertToken t r) := by
  unfold insertToken
  split
  · exact .refl t
  · intro i r' hr'
    have hlt : i < t.length := (List.getElem?_eq_some_iff.1 hr').1
    exact ⟨r', by rw [List.getElem?_append_left hlt, hr'], .refl r'⟩

theorem tableKept_updateWhere (which : TokenRow → Bool) {f : TokenRow → TokenRow}
    (hf : ∀ r, Kept r (f r)) (t : List TokenRow) : TableKept t (Table.updateWhere which f t) := by
  intro i r hr
  refine ⟨if which r then f r else r, ?_, ?_⟩
  · rw [Table.updateWhere, List.getElem?_map, hr]
    rfl
  · split
    · exact hf r
    · exact .refl r

/-- **One statement.** -/
theorem tableKept_exec (t : List TokenRow) (e : TokenStatement) : TableKept t (e.exec t) := by
  cases e with
  | syncEnv raw => exact tableKept_insertToken t _
  | issue clientName rawBytes => exact tableKept_insertToken t _
  | revoke hash => exact tableKept_updateWhere _ kept_revoke t
  | bumpLastUsed hash now => exact tableKept_updateWhere _ (kept_bump now) t

/-- **No list of statements brings a token back or raises its role.** -/
theorem tokens_kept {t t' : List TokenRow} {es : List TokenStatement}
    (h : Run.run tokenStep t es = some t') (i : ℕ) (r : TokenRow) (hr : t[i]? = some r) :
    ∃ r', t'[i]? = some r' ∧ r'.tokenHash = r.tokenHash ∧
      (r.status = .revoked → r'.status ≠ .active) ∧
      ¬ (r.role = .client ∧ r'.role = .owner) := by
  have hkept : TableKept t t' := by
    refine Run.run_relates_along (P := fun _ _ => True) (I := fun _ => True) TableKept.refl
      (fun _ _ _ => .trans) (fun _ _ _ _ _ _ => trivial) ?_ h (Run.along_true t es) trivial
    intro t e u _ _ hstep
    rw [← Option.some.inj hstep]
    exact tableKept_exec t e
  obtain ⟨r', hr', hk⟩ := hkept i r hr
  refine ⟨r', hr', hk.tokenHash, ?_, ?_⟩
  · intro hrevoked hactive
    rw [hk.revoked hrevoked] at hactive
    cases hactive
  · rintro ⟨hclient, howner⟩
    rw [hk.role, hclient] at howner
    cases howner

/-- A revoked env token, used once more and still in the list of the next startup. -/
theorem tokens_kept_sync :
    ∃ r', ((Run.run tokenStep [(TokenRow.env "t").revoke]
        [.bumpLastUsed (tokenHash "t") 5, .syncEnv "t"]).bind fun t => t[0]?) = some r' ∧
      r'.lastUsedAt = some 5 ∧ r'.status ≠ .active := by
  have hbump : bumpToken [(TokenRow.env "t").revoke] (tokenHash "t") 5
      = [(TokenRow.env "t").revoke.bump 5] := by
    simp [bumpToken, TokenRow.revoke, TokenRow.env]
  have hsync : insertToken [(TokenRow.env "t").revoke.bump 5] (.env "t")
      = [(TokenRow.env "t").revoke.bump 5] := if_pos (List.mem_singleton.2 rfl)
  have hrun : Run.run tokenStep [(TokenRow.env "t").revoke]
      [.bumpLastUsed (tokenHash "t") 5, .syncEnv "t"]
        = some [(TokenRow.env "t").revoke.bump 5] := by
    rw [Run.run_cons (t := [(TokenRow.env "t").revoke.bump 5]) (congrArg some hbump),
      Run.run_cons (t := [(TokenRow.env "t").revoke.bump 5]) (congrArg some hsync), Run.run_nil]
  obtain ⟨r', hr', -, hrevoked, -⟩ := tokens_kept hrun 0 _ rfl
  refine ⟨r', by rw [hrun]; exact hr', ?_, hrevoked rfl⟩
  rw [← Option.some.inj hr']
  rfl

/-! ## Migrations -/

/-- A row of the table as migration 008 creates it, before there are roles. -/
structure LegacyToken where
  tokenHash : String
  clientName : String
  source : String
  status : TokenStatus
  lastUsedAt : Option ℤ

/-- `ADD COLUMN role TEXT NOT NULL DEFAULT 'client'`. -/
def LegacyToken.addRole (r : LegacyToken) : TokenRow :=
  ⟨⟨r.tokenHash, r.clientName, r.source, r.status, .client⟩, r.lastUsedAt⟩

/-- Migration 014: the new column, then `SET role = 'owner' WHERE source = 'env'`. -/
def migrate014 (t : List LegacyToken) : List TokenRow :=
  Table.updateWhere (fun r => r.source = "env") (fun r => { r with role := .owner })
    (t.map LegacyToken.addRole)

/-! ## Servers on a new database -/

/-- The table, and the hashes that the running server has in its cache. -/
structure TokenServer where
  tokens : List TokenRow
  cache : List String

/-- An empty database after all migrations: nothing has been inserted between 008 and 014. -/
def TokenServer.init : TokenServer := ⟨migrate014 [], []⟩

/-- `SELECT token_hash ... WHERE status = 'active'`. -/
def activeHashes (t : List TokenRow) : List String :=
  (t.filter fun r => r.status = .active).map fun r => r.tokenHash

/-- `refresh_cache` with nothing in between. -/
def TokenServer.refresh (tokens : List TokenRow) : TokenServer := ⟨tokens, activeHashes tokens⟩

/-- The startup sync of `TokenManager::new`. -/
def syncEnvTokens (t : List TokenRow) (env : List String) : List TokenRow :=
  env.foldl (fun t raw => insertToken t (.env raw)) t

/-- `get_token_role`. -/
def getTokenRole (t : List TokenRow) (raw : String) : Option TokenRole :=
  (t.find? fun r => r.tokenHash = tokenHash raw && r.status = .active).map fun r => r.role

/-- The check of `require_bearer` that the token is in the cache. -/
def requireBearer (s : TokenServer) (raw : String) : Bool := s.cache.contains (tokenHash raw)

/-- The check of `require_owner`. -/
def requireOwner (s : TokenServer) (raw : String) : Bool :=
  match getTokenRole s.tokens raw with
  | some .owner => true
  | _ => false

/-- A request behind the middleware. -/
inductive ApiCall where
  /-- A route that is open to every valid token. -/
  | client
  | tokenIssue (clientName : String) (rawBytes : List UInt8)
  | tokenRevoke (tokenId : String) (pick : ℕ)
  /-- Another owner-only route; it does not write tokens. -/
  | owner

/-- The route is open to owners only. -/
def ApiCall.ownerOnly : ApiCall → Bool
  | .client => false
  | _ => true

/-- The handler of a call, as far as tokens go. -/
def ApiCall.handle (s : TokenServer) : ApiCall → TokenServer
  | .client => s
  | .owner => s
  | .tokenIssue clientName rawBytes =>
    if clientName.toList.all Text.isWhitespace then s
    else .refresh (insertToken s.tokens (.api clientName rawBytes))
  | .tokenRevoke tokenId pick =>
    if (Text.utf8 tokenId).length ≠ 12 then s
    else
      let found := activeTokens tokenId (s.tokens.map TokenRow.toApiToken)
      match found[pick % found.length]? with
      | none => s
      | some token => .refresh (revokeToken s.tokens token.tokenHash)

/-- A start of the server, or a request. -/
inductive ServerEvent where
  /-- A start of the server; migrations that are applied are not applied again. -/
  | startup (env : List String)
  | request (bearer : String) (call : ApiCall) (now : ℤ)

/-- One event: a valid token is bumped before its request is handled. -/
def serverStep (s : TokenServer) : ServerEvent → Option TokenServer
  | .startup env => some (.refresh (syncEnvTokens s.tokens env))
  | .request bearer call now =>
    if requireBearer s bearer then
      let s' := { s with tokens := bumpToken s.tokens (tokenHash bearer) now }
      if call.ownerOnly && !requireOwner s' bearer then some s' else some (call.handle s')
    else some s

/-! ## Roles of the env tokens -/

/-- Every active token of the environment is an owner. -/
def EnvOwners (s : TokenServer) : Prop :=
  ∀ r ∈ s.tokens, r.source = "env" → r.status = .active → r.role = .owner

/-- The invariant: all tokens are from the environment, active, and clients. -/
def AllEnvClients (t : List TokenRow) : Prop :=
  ∀ r ∈ t, r.source = "env" ∧ r.status = .active ∧ r.role = .client

section Roles

variable {t : List TokenRow}

theorem getTokenRole_ne_owner (h : AllEnvClients t) (raw : String) :
    getTokenRole t raw ≠ some .owner := by
  intro howner
  obtain ⟨r, hr, hrole⟩ := Option.map_eq_some_iff.1 howner
  rw [(h r (List.mem_of_find?_eq_some hr)).2.2] at hrole
  cases hrole

theorem requireOwner_eq_false {s : TokenServer} (h : AllEnvClients s.tokens) (raw : String) :
    requireOwner s raw = false := by
  unfold requireOwner
  split
  · rename_i howner
    exact absurd howner (getTokenRole_ne_owner h raw)
  · rfl

theorem allEnvClients_insertEnv (h : AllEnvClients t) (raw : String) :
    AllEnvClients (insertToken t (.env raw)) := by
  unfold insertToken
  split
  · exact h
  · intro r hr
    rcases List.mem_append.1 hr with hr | hr
    · exact h r hr
    · obtain rfl := List.mem_singleton.1 hr
      exact ⟨rfl, rfl, rfl⟩

theorem allEnvClients_sync (h : AllEnvClients t) (env : List String) :
    AllEnvClients (syncEnvTokens t env) := by
  unfold syncEnvTokens
  induction env generalizing t with
  | nil => exact h
  | cons raw env ih => exact ih (allEnvClients_insertEnv h raw)

theorem allEnvClients_bump (h : AllEnvClients t) (hash : String) (now : ℤ) :
    AllEnvClients (bumpToken t hash now) := by
  intro r' hr'
  obtain ⟨r, hr, rfl⟩ := List.mem_map.1 hr'
  split
  · exact h r hr
  · exact h r hr

theorem insertToken_ne_nil (t : List TokenRow) (r : TokenRow) : insertToken t r ≠ [] := by
  unfold insertToken
  split
  · rename_i hmem
    exact fun hnil => List.not_mem_nil (by rwa [hnil] at hmem)
  · simp

theorem syncEnvTokens_eq_nil_iff (env : List String) :
    syncEnvTokens t env = [] ↔ t = [] ∧ env = [] := by
  induction env generalizing t with
  | nil => exact ⟨fun h => ⟨h, rfl⟩, And.left⟩
  | cons raw env ih =>
    have hcons : syncEnvTokens t (raw :: env) = syncEnvTokens (insertToken t (.env raw)) env := rfl
    rw [hcons, ih]
    refine ⟨fun h => absurd h.1 (insertToken_ne_nil _ _), fun h => absurd h.2 (by simp)⟩

/-- What a step makes of the table, as long as there is no owner. -/
theorem serverStep_cases {s s' : TokenServer} {e : ServerEvent} (hs : AllEnvClients s.tokens)
    (h : serverStep s e = some s') :
    (∃ env, e = .startup env ∧ s'.tokens = syncEnvTokens s.tokens env) ∨
      (∃ bearer call now, e = .request bearer call now) ∧
        (s'.tokens = s.tokens ∨ ∃ hash now, s'.tokens = bumpToken s.tokens hash now) := by
  cases e with
  | startup env =>
    rw [← Option.some.inj h]
    exact Or.inl ⟨env, rfl, rfl⟩
  | request bearer call now =>
    refine Or.inr ⟨⟨bearer, call, now, rfl⟩, ?_⟩
    simp only [serverStep] at h
    split at h
    · refine Or.inr ⟨tokenHash bearer, now, ?_⟩
      have hnone : requireOwner
        { s with tokens := bumpToken s.tokens (tokenHash bearer) now } bearer
          = false := requireOwner_eq_false (allEnvClients_bump hs _ _) bearer
      rw [hnone] at h
      cases call with
      | client => rw [← Option.some.inj h]; rfl
      | tokenIssue clientName rawBytes => rw [← Option.some.inj h]
      | tokenRevoke tokenId pick => rw [← Option.some.inj h]
      | owner => rw [← Option.some.inj h]
    · rw [← Option.some.inj h]
      exact Or.inl rfl

theorem allEnvClients_step {s s' : TokenServer} {e : ServerEvent} (hs : AllEnvClients s.tokens)
    (h : serverStep s e = some s') : AllEnvClients s'.tokens := by
  obtain ⟨env, -, ht⟩ | ⟨-, ht | ⟨hash, now, ht⟩⟩ := serverStep_cases hs h
  · exact ht ▸ allEnvClients_sync hs env
  · exact ht ▸ hs
  · exact ht ▸ allEnvClients_bump hs hash now

theorem tokens_eq_nil_step {s s' : TokenServer} {e : ServerEvent} (hs : AllEnvClients s.tokens)
    (h : serverStep s e = some s') :
    s'.tokens = [] ↔ s.tokens = [] ∧ ∀ env, e = .startup env → env = [] := by
  obtain ⟨env, rfl, ht⟩ | ⟨⟨bearer, call, now, rfl⟩, ht⟩ := serverStep_cases hs h
  · rw [ht, syncEnvTokens_eq_nil_iff]
    simp
  · have hsame : s'.tokens = [] ↔ s.tokens = [] := by
      obtain ht | ⟨hash, now, ht⟩ := ht
      · rw [ht]
      · rw [ht, bumpToken, Table.updateWhere, List.map_eq_nil_iff]
    simpa using hsame

/-- The table stays empty as long as no startup has an env token. -/
theorem tokens_eq_nil_run {s s' : TokenServer} {es : List ServerEvent}
    (hs : AllEnvClients s.tokens) (h : Run.run serverStep s es = some s') :
    s'.tokens = [] ↔ s.tokens = [] ∧ ∀ env, .startup env ∈ es → env = [] := by
  induction es generalizing s with
  | nil =>
    rw [Run.run_nil, Option.some.injEq] at h
    simp [h]
  | cons e es ih =>
    obtain ⟨u, hu, hrest⟩ := Run.run_cons_eq_some.1 h
    rw [ih (allEnvClients_step hs hu) hrest, tokens_eq_nil_step hs hu]
    simp only [List.mem_cons, and_assoc]
    refine and_congr_right fun _ => ⟨?_, ?_⟩
    · rintro ⟨hfirst, hlater⟩ env (rfl | henv)
      · exact hfirst env rfl
      · exact hlater env henv
    · exact fun hall => ⟨fun env he => hall env (Or.inl he.symm),
        fun env he => hall env (Or.inr he)⟩

end Roles

/-- **The env tokens of a new database are owners only if there are none**, and no token of such
a run passes `require_owner`. -/
theorem env_owners_iff {s : TokenServer} {es : List ServerEvent}
    (h : Run.run serverStep .init es = some s) :
    (EnvOwners s ↔ ∀ env, .startup env ∈ es → env = []) ∧
      ∀ raw, requireOwner s raw = false := by
  have hinit : AllEnvClients TokenServer.init.tokens := fun _ hr => absurd hr List.not_mem_nil
  have hclients : AllEnvClients s.tokens :=
    Run.run_invariant (I := fun s => AllEnvClients s.tokens)
      (fun _ _ _ hs hstep => allEnvClients_step hs hstep) h hinit
  refine ⟨?_, requireOwner_eq_false hclients⟩
  have hnil := tokens_eq_nil_run hinit h
  constructor
  · intro howners
    refine (hnil.1 ?_).2
    rw [List.eq_nil_iff_forall_not_mem]
    intro r hr
    obtain ⟨hsource, hactive, hclient⟩ := hclients r hr
    have howner := howners r hr hsource hactive
    rw [hclient] at howner
    cases howner
  · intro hempty r hr
    rw [hnil.2 ⟨rfl, hempty⟩] at hr
    exact absurd hr List.not_mem_nil

/-- The state after the first start with one env token. -/
def TokenServer.started (raw : String) : TokenServer := .refresh [.env raw]

theorem run_started (raw : String) :
    Run.run serverStep .init [.startup [raw]] = some (.started raw) := by
  rw [Run.run_cons (t := TokenServer.started raw) rfl, Run.run_nil]

/-- Without env tokens there is nothing to be an owner. -/
theorem env_owners_none :
    EnvOwners (.refresh []) ∧ ∀ raw, requireOwner (.refresh []) raw = false := by
  have hrun : Run.run serverStep .init [.startup []] = some (.refresh []) := rfl
  refine ⟨(env_owners_iff hrun).1.2 ?_, (env_owners_iff hrun).2⟩
  intro env henv
  simpa using henv

/-- The first env token of a deployment is valid, and a client. -/
theorem env_token_is_client :
    Run.run serverStep .init [.startup ["t"]] = some (.started "t") ∧
      requireBearer (.started "t") "t" = true ∧ requireOwner (.started "t") "t" = false ∧
      ¬ EnvOwners (.started "t") := by
  have hactive : activeHashes [TokenRow.env "t"] = [tokenHash "t"] := rfl
  have hclients : AllEnvClients (TokenServer.started "t").tokens := by
    intro r hr
    obtain rfl := List.mem_singleton.1 hr
    exact ⟨rfl, rfl, rfl⟩
  refine ⟨run_started "t", ?_, requireOwner_eq_false hclients "t", ?_⟩
  · unfold requireBearer
    rw [show (TokenServer.started "t").cache = [tokenHash "t"] from hactive]
    simp
  · intro howners
    have howner := howners (.env "t") (List.mem_singleton.2 rfl) rfl rfl
    cases howner

end IrlEngine
