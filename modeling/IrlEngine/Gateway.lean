import IrlEngine.AdminAudit
import IrlEngine.Lib.Interference
import IrlEngine.RateLimit
import IrlEngine.Reads
import IrlEngine.Router
import IrlEngine.Shadow

/-!
# The gateway

All routes of `build_router` behind `require_bearer`, six of them behind `require_owner` too, over
the tables, the caches of the process and the counters of its rate limiter.  A list of events is an
interleaving of requests with the workers: the refreshes of both caches, the updates of
`last_used_at`, the steps of binds under way, the expiry of traces, the backfill, and restarts.

* `requireBearerLayer_eq_checkBearer` — the gateway admits what the layer of the router lets
  through;
* `tokenRows_written` — an update of `last_used_at` is the one of the token table;
* `Entered` — everything a step can make of the tables and the caches, and `entered_of_step`.
-/

namespace IrlEngine

/-! ## Routes -/

/-- The routes behind `require_owner`. -/
def AdminCall.ownerOnly : AdminCall → Bool
  | .registerAgent .. | .updateAgentStatus .. => false
  | .tokenIssue .. | .tokenRevoke .. | .shadowModeSet .. | .gdprEraseHandler .. => true

/-- What a handler answers with success. -/
inductive Reply where
  | json (body : Json)
  | authorized (response : AuthorizeResponse)
  /-- The intent of a bind request is read; the reply comes with its last step. -/
  | binding

/-- A route with what its extractors make of the request. -/
inductive Route where
  /-- A handler that writes and audits, with the error of its insert into the audit log. -/
  | admin (call : AdminCall) (audit : Option String)
  | authorize (call : AuthorizeCall)
  | bindExecution (req : BindExecutionRequest)
  /-- A handler that only reads. -/
  | read (ownerOnly : Bool) (query : AdminState → Except AppError Json)
  /-- An extractor refuses the request. -/
  | malformed (ownerOnly : Bool) (reason : String)

namespace Route

/-- `get_trace`. -/
def getTrace (V : VaultSetup) (traceId : Uuid) : Route :=
  .read false fun s => getTraceJson V.D.K (some V.R) s.sys.traces traceId

/-- `get_pending`, `get_orphans` and `get_shadow_violations`. -/
def listing (V : VaultSetup) (l : Listing) : Route :=
  .read false fun s => (l.read V.D.K (some V.R) s.sys.traces).map fun traces =>
    .obj [("count", jsonU64 (UInt64.ofNat traces.length)), ("traces", .arr traces)]

/-- `shadow_mode_get`; a `NULL` in the column does not decode. -/
def shadowModeGet (timestamp : ℤ → Json) : Route :=
  .read true fun s =>
    match s.shadowRow with
    | none =>
      .ok (.obj [("shadow_mode", .bool false), ("updated_at", .null), ("updated_by", .null)])
    | some row =>
      match row.valueBool with
      | none => .error (.database "unexpected null; try decoding as an Option")
      | some enabled => .ok (.obj [("shadow_mode", .bool enabled),
          ("updated_at", timestamp row.updatedAt), ("updated_by", .str row.updatedBy)])

/-- The route is behind `require_owner`. -/
def ownerOnly : Route → Bool
  | .admin call _ => call.ownerOnly
  | .authorize _ => false
  | .bindExecution _ => false
  | .read ownerOnly _ => ownerOnly
  | .malformed ownerOnly _ => ownerOnly

/-- The route writes nothing. -/
def isRead : Route → Bool
  | .read _ _ => true
  | .malformed _ _ => true
  | _ => false

/-- The handler of a route, with what `require_bearer` leaves for it. -/
def handle (V : VaultSetup) (s : AdminState) (operatorId : String) (clientIp : Option String) :
    Route → Option (AdminState × Except Rejection Reply)
  | .admin call audit =>
    if call.isFresh s then
      let result := call.handle V s ⟨operatorId, clientIp, audit⟩
      some (result.1, (result.2.map Reply.json).mapError .app)
    else none
  | .authorize call =>
    (step V.D s.sys (.authorize call)).map fun sys =>
      ({ s with sys := sys },
        ((IrlEngine.authorize V.D.K V.D.cfg call.agents s.sys.traces call.hs call.env
          call.req).2.2.map Reply.authorized).mapError .app)
  | .bindExecution req =>
    (step V.D s.sys (.bindRead req)).map fun sys =>
      ({ s with sys := sys },
        ((readIntent s.sys.traces req).map fun _ => Reply.binding).mapError .app)
  | .read _ query => some (s, ((query s).map Reply.json).mapError .app)
  | .malformed _ reason => some (s, .error (.json reason))

end Route

/-! ## The use of tokens -/

/-- What the process and the table know of the use of tokens, by their hashes. -/
structure TokenUse where
  /-- The column `last_used_at`, which no statement reads. -/
  lastUsedAt : String → Option ℤ
  /-- The debounce of `TokenManager`: instants of the monotonic clock, in nanoseconds. -/
  lastBumped : String → Option ℕ
  /-- The updates that are spawned and have not come to their end. -/
  spawned : List String

namespace TokenUse

/-- No token has been used yet. -/
def init : TokenUse := ⟨fun _ => none, fun _ => none, []⟩

/-- `bump_last_used`: at most one update of a token every 60 seconds. -/
def bumpLastUsed (u : TokenUse) (instant : ℕ) (raw : String) : TokenUse :=
  let hash := tokenHash raw
  let shouldBump := ((u.lastBumped hash).map fun t => decide (60000000000 ≤ instant - t)).getD true
  if shouldBump then
    { u with
      lastBumped := fun h => if h = hash then some instant else u.lastBumped h
      spawned := u.spawned ++ [hash] }
  else u

/-- `require_bearer` records the use of the token of a request that it hands on. -/
def after (u : TokenUse) (instant : ℕ) : Except Rejection String → TokenUse
  | .error _ => u
  | .ok token => u.bumpLastUsed instant token

/-- The end of a spawned update: the time of the database, or a failure that nobody sees. -/
def written (u : TokenUse) (tokens : List ApiToken) (hash : String) (now : Option ℤ) :
    Option TokenUse :=
  if hash ∈ u.spawned then
    some { u with
      lastUsedAt := fun h =>
        if h = hash ∧ hash ∈ tokens.map ApiToken.tokenHash then now.or (u.lastUsedAt h)
        else u.lastUsedAt h
      spawned := u.spawned.erase hash }
  else none

/-- A new process has bumped nothing; the column stays. -/
def restart (u : TokenUse) : TokenUse := { init with lastUsedAt := u.lastUsedAt }

/-- The rows of `irl.api_tokens`, with the column. -/
def tokenRows (u : TokenUse) (tokens : List ApiToken) : List TokenRow :=
  tokens.map fun token => ⟨token, u.lastUsedAt token.tokenHash⟩

/-- The update is that of the token table; one that fails changes nothing. -/
theorem tokenRows_written {u u' : TokenUse} {tokens : List ApiToken} {hash : String}
    {now : Option ℤ} (h : u.written tokens hash now = some u') :
    u'.tokenRows tokens = now.elim (u.tokenRows tokens) (bumpToken (u.tokenRows tokens) hash) := by
  rw [written] at h
  split_ifs at h with hspawned
  rw [← Option.some.inj h]
  cases now with
  | none => simp [tokenRows]
  | some now =>
    rw [Option.elim_some, bumpToken, Table.updateWhere, tokenRows, tokenRows, List.map_map]
    refine List.map_congr_left fun token htoken => ?_
    by_cases heq : token.tokenHash = hash
    · have hmem : hash ∈ tokens.map ApiToken.tokenHash := heq ▸ List.mem_map_of_mem htoken
      simp [heq, hmem, TokenRow.bump]
    · simp [heq]

end TokenUse

/-! ## Requests -/

/-- A request for a route behind `require_bearer`. -/
structure ApiRequest where
  /-- The bytes of the `Authorization` header. -/
  authorization : Option (List UInt8)
  /-- The address from `ConnectInfo`, which the listener of `main` does not provide. -/
  peer : Option String
  nowSec : ℕ
  /-- The monotonic clock, in nanoseconds. -/
  instant : ℕ
  /-- The query of `get_token_role` fails. -/
  roleFails : Bool
  route : Route

/-- The tables and the caches, the counters of the rate limiter, and the use of tokens. -/
structure GatewayState where
  admin : AdminState
  limiter : RateLimiter
  use : TokenUse

/-- `require_bearer` up to the check of the rate: the token of the request. -/
def checkBearer (cache : List String) (limiter : RateLimiter) (nowSec : ℕ)
    (authorization : Option (List UInt8)) : RateLimiter × Except Rejection String :=
  match extractBearer authorization with
  | .error e => (limiter, .error e)
  | .ok token =>
    if cache.contains (tokenHash token) then
      match limiter.check token nowSec with
      | (limiter', .error e) => (limiter', .error e)
      | (limiter', .ok ()) => (limiter', .ok token)
    else (limiter, .error .unauthorized)

/-- It is the layer of the router. -/
theorem requireBearerLayer_eq_checkBearer {α : Type} (next : Service α) (auth : AuthState)
    (req : HttpRequest) :
    requireBearerLayer next auth req =
      match checkBearer auth.cache auth.limiter auth.nowSec req.authorization with
      | (limiter, .error e) => ({ auth with limiter := limiter }, .error e)
      | (limiter, .ok token) => next { auth with limiter := limiter }
          { req with extensions :=
            { req.extensions with
              operatorId := some (tokenIdOf (tokenHash token))
              clientIp := some req.extensions.connectInfo } } := by
  unfold requireBearerLayer checkBearer
  cases extractBearer req.authorization with
  | error e => rfl
  | ok token =>
    dsimp only
    split
    · rcases auth.limiter.check token auth.nowSec with ⟨limiter, e | u⟩
      · rfl
      · rfl
    · rfl

/-- `get_token_role`. -/
def tokenRole (tokens : List ApiToken) (raw : String) : Option TokenRole :=
  (tokens.find? fun t => t.tokenHash = tokenHash raw && t.status = .active).map ApiToken.role

/-- `require_owner`: a query that fails is a role that is not found. -/
def ApiRequest.passesOwner (r : ApiRequest) (tokens : List ApiToken) (token : String) : Bool :=
  !r.roleFails && decide (tokenRole tokens token = some .owner)

/-- What stands behind `require_bearer`, once that has refused the request or found its token. -/
def ApiRequest.serve (V : VaultSetup) (s : AdminState) (r : ApiRequest) :
    Except Rejection String → Option (AdminState × Except Rejection Reply)
  | .error e => some (s, .error e)
  | .ok token =>
    if r.route.ownerOnly && !r.passesOwner s.tokens token then some (s, .error (.app .forbidden))
    else r.route.handle V s (tokenIdOf (tokenHash token)) r.peer

/-- A request for a route. -/
def ApiRequest.exec (V : VaultSetup) (s : GatewayState) (r : ApiRequest) :
    Option (GatewayState × Except Rejection Reply) :=
  let admission := checkBearer s.admin.tokenCache s.limiter r.nowSec r.authorization
  (r.serve V s.admin admission.2).map fun x =>
    (⟨x.1, admission.1, s.use.after r.instant admission.2⟩, x.2)

/-! ## Runs -/

/-- A step that no request takes: of a bind under way, or of a worker. -/
def Event.isWork : Event → Bool
  | .bindUpdate .. | .bindLedger .. | .expirePending .. | .encryptOneRow .. => true
  | _ => false

/-- What can happen to a server. -/
inductive GatewayEvent where
  | request (r : ApiRequest)
  /-- A spawned update of `last_used_at` ends. -/
  | lastUsed (hash : String) (now : Option ℤ)
  /-- The refresh of the token cache, every minute. -/
  | refreshTokens (refresh : Option String)
  /-- The refresh of the shadow mode, every 30 seconds. -/
  | refreshShadow
  | work (e : Event)
  /-- A new process, with the tokens of its environment. -/
  | restart (env : List String) (envDefault : Bool) (now : ℤ) (maxPerSecond : UInt32)

/-- The startup sync of `TokenManager::new`. -/
def syncTokens (tokens : List ApiToken) (env : List String) : List ApiToken :=
  env.foldl (fun t raw => Table.insertMissing ApiToken.tokenHash [(TokenRow.env raw).toApiToken] t)
    tokens

/-- The start of a process on the tables; binds that were under way are gone. -/
def AdminState.restart (s : AdminState) (env : List String) (envDefault : Bool) (now : ℤ) :
    AdminState :=
  let shadow := ShadowState.new s.shadowRow envDefault now
  (refreshCache { s with
    tokens := syncTokens s.tokens env
    shadowRow := shadow.row
    shadowMode := shadow.isEnabled
    sys := { s.sys with binds := [] } } none).1

/-- The step of an event, with the answer if it is a request. -/
def gatewayStep (V : VaultSetup) (s : GatewayState) :
    GatewayEvent → Option (GatewayState × Option (Except Rejection Reply))
  | .request r => (r.exec V s).map fun x => (x.1, some x.2)
  | .lastUsed hash now =>
    (s.use.written s.admin.tokens hash now).map fun use => ({ s with use := use }, none)
  | .refreshTokens refresh => some ({ s with admin := (refreshCache s.admin refresh).1 }, none)
  | .refreshShadow =>
    some ({ s with admin := { s.admin with
      shadowMode := (s.admin.shadowRow.bind ShadowRow.valueBool).getD s.admin.shadowMode } }, none)
  | .work e =>
    if e.isWork then
      (step V.D s.admin.sys e).map fun sys =>
      ({ s with admin := { s.admin with sys := sys } }, none) else none
  | .restart env envDefault now maxPerSecond =>
    some (⟨s.admin.restart env envDefault now, .new maxPerSecond, s.use.restart⟩, none)

/-- A run of the gateway, without the answers. -/
def GatewayRun (V : VaultSetup) (s : GatewayState) (es : List GatewayEvent) (t : GatewayState) :
    Prop :=
  Run.run (Interference.states (gatewayStep V)) s es = some t

/-! ## What a step can do -/

/-- The request bears this token, and the token is in the cache. -/
structure Admitted (s : GatewayState) (r : ApiRequest) (token : String) : Prop where
  bearer : extractBearer r.authorization = .ok token
  cached : tokenHash token ∈ s.admin.tokenCache

/-- The token is an active one of an owner. -/
def OwnerToken (tokens : List ApiToken) (token : String) : Prop :=
  ∃ row ∈ tokens, row.tokenHash = tokenHash token ∧ row.status = .active ∧ row.role = .owner

/-- The request calls the handler with a token that may do so. -/
structure Calls (s : GatewayState) (r : ApiRequest) (token : String) (call : AdminCall) : Prop where
  route : ∃ audit, r.route = .admin call audit
  admitted : Admitted s r token
  owner : call.ownerOnly = true → OwnerToken s.admin.tokens token
  fresh : call.isFresh s.admin = true

/-- The event in the life of a trace that a request is. -/
def Route.event : Route → Option Event
  | .authorize call => some (.authorize call)
  | .bindExecution req => some (.bindRead req)
  | _ => none

/-- What a step can make of the tables and the caches. -/
inductive Entered (V : VaultSetup) (s : GatewayState) : GatewayEvent → AdminState → Prop where
  | idle (e : GatewayEvent) : Entered V s e s.admin
  | called (r : ApiRequest) (token : String) (call : AdminCall) (audit : Option String)
      (hcalls : Calls s r token call) :
      Entered V s (.request r)
        (call.handle V s.admin ⟨tokenIdOf (tokenHash token), r.peer, audit⟩).1
  | traded (r : ApiRequest) (token : String) (hadmitted : Admitted s r token) (e : Event)
      (he : r.route.event = some e) (sys : System) (hsys : step V.D s.admin.sys e = some sys) :
      Entered V s (.request r) { s.admin with sys := sys }
  | worked (e : Event) (he : e.isWork = true) (sys : System)
      (hsys : step V.D s.admin.sys e = some sys) :
      Entered V s (.work e) { s.admin with sys := sys }
  | refreshed (e : GatewayEvent) (cache : List String) (shadowMode : Bool) :
      Entered V s e { s.admin with tokenCache := cache, shadowMode := shadowMode }
  | restarted (env : List String) (envDefault : Bool) (now : ℤ) (maxPerSecond : UInt32) :
      Entered V s (.restart env envDefault now maxPerSecond) (s.admin.restart env envDefault now)

theorem checkBearer_ok {cache : List String} {limiter : RateLimiter} {nowSec : ℕ}
    {authorization : Option (List UInt8)} {token : String}
    (h : (checkBearer cache limiter nowSec authorization).2 = .ok token) :
    extractBearer authorization = .ok token ∧ tokenHash token ∈ cache := by
  unfold checkBearer at h
  cases hbearer : extractBearer authorization with
  | error e => simp [hbearer] at h
  | ok raw =>
    simp only [hbearer] at h
    split at h
    · rename_i hcached
      split at h
      · cases h
      · obtain rfl := Except.ok.inj h
        exact ⟨rfl, List.contains_iff_mem.1 hcached⟩
    · cases h

theorem ownerToken_of_passesOwner {r : ApiRequest} {tokens : List ApiToken} {token : String}
    (h : r.passesOwner tokens token = true) : OwnerToken tokens token := by
  rw [ApiRequest.passesOwner, Bool.and_eq_true, decide_eq_true_eq] at h
  obtain ⟨row, hfind, hrole⟩ := Option.map_eq_some_iff.1 h.2
  have hrow := List.find?_some hfind
  rw [Bool.and_eq_true, decide_eq_true_eq, decide_eq_true_eq] at hrow
  exact ⟨row, List.mem_of_find?_eq_some hfind, hrow.1, hrow.2, hrole⟩

section Steps

variable {V : VaultSetup} {s t : GatewayState} {e : GatewayEvent}

theorem entered_of_exec {r : ApiRequest} {answer : Except Rejection Reply}
    (h : r.exec V s = some (t, answer)) : Entered V s (.request r) t.admin := by
  obtain ⟨⟨admin, reply⟩, hserve, heq⟩ := Option.map_eq_some_iff.1 h
  rw [← (Prod.mk.inj heq).1]
  cases hchecked : (checkBearer s.admin.tokenCache s.limiter r.nowSec r.authorization).2 with
  | error e =>
    rw [hchecked, ApiRequest.serve] at hserve
    rw [← (Prod.mk.inj (Option.some.inj hserve)).1]
    exact .idle _
  | ok token =>
    have hadmitted : Admitted s r token :=
      ⟨(checkBearer_ok hchecked).1, (checkBearer_ok hchecked).2⟩
    rw [hchecked, ApiRequest.serve] at hserve
    split at hserve
    · rw [← (Prod.mk.inj (Option.some.inj hserve)).1]
      exact .idle _
    · rename_i hpasses
      cases hroute : r.route with
      | admin call audit =>
        rw [hroute, Route.handle] at hserve
        split_ifs at hserve with hfresh
        rw [← (Prod.mk.inj (Option.some.inj hserve)).1]
        refine .called r token call audit ⟨⟨audit, hroute⟩, hadmitted, fun howner => ?_, hfresh⟩
        rw [hroute, Route.ownerOnly, howner, Bool.true_and, Bool.not_eq_true,
          Bool.not_eq_false'] at hpasses
        exact ownerToken_of_passesOwner hpasses
      | authorize call =>
        rw [hroute, Route.handle] at hserve
        obtain ⟨sys, hsys, hstep⟩ := Option.map_eq_some_iff.1 hserve
        rw [← (Prod.mk.inj hstep).1]
        exact .traded r token hadmitted _ (by rw [hroute]; rfl) sys hsys
      | bindExecution req =>
        rw [hroute, Route.handle] at hserve
        obtain ⟨sys, hsys, hstep⟩ := Option.map_eq_some_iff.1 hserve
        rw [← (Prod.mk.inj hstep).1]
        exact .traded r token hadmitted _ (by rw [hroute]; rfl) sys hsys
      | read ownerOnly query =>
        rw [hroute, Route.handle] at hserve
        rw [← (Prod.mk.inj (Option.some.inj hserve)).1]
        exact .idle _
      | malformed ownerOnly reason =>
        rw [hroute, Route.handle] at hserve
        rw [← (Prod.mk.inj (Option.some.inj hserve)).1]
        exact .idle _

theorem entered_of_step (h : Interference.states (gatewayStep V) s e = some t) :
    Entered V s e t.admin := by
  obtain ⟨⟨u, answer⟩, hstep, rfl⟩ := Option.map_eq_some_iff.1 h
  cases e with
  | request r =>
    obtain ⟨x, hx, heq⟩ := Option.map_eq_some_iff.1 hstep
    rw [← (Prod.mk.inj heq).1]
    exact entered_of_exec hx
  | lastUsed hash now =>
    obtain ⟨use, -, heq⟩ := Option.map_eq_some_iff.1 hstep
    rw [← (Prod.mk.inj heq).1]
    exact .idle _
  | refreshTokens refresh =>
    rw [← (Prod.mk.inj (Option.some.inj hstep)).1]
    cases refresh with
    | some reason => exact .idle _
    | none => exact .refreshed _ _ _
  | refreshShadow =>
    rw [← (Prod.mk.inj (Option.some.inj hstep)).1]
    exact .refreshed _ _ _
  | work e =>
    rw [gatewayStep] at hstep
    split_ifs at hstep with hwork
    obtain ⟨sys, hsys, heq⟩ := Option.map_eq_some_iff.1 hstep
    rw [← (Prod.mk.inj heq).1]
    exact .worked e hwork sys hsys
  | restart env envDefault now maxPerSecond =>
    rw [← (Prod.mk.inj (Option.some.inj hstep)).1]
    exact .restarted env envDefault now maxPerSecond

end Steps

/-! The requests of one token, with either role. -/

/-- A database with one active token, which the process has read. -/
def GatewayState.serving (role : TokenRole) : GatewayState where
  admin := { AdminState.init with
    tokens := [⟨tokenHash "t", "env-loaded", "env", .active, role⟩]
    tokenCache := [tokenHash "t"] }
  limiter := .new 0
  use := .init

/-- A request for the route with that token. -/
def ApiRequest.bearing (route : Route) : ApiRequest :=
  ⟨some (Text.utf8 "Bearer t"), none, 0, 0, false, route⟩

/-- The use of the token after such a request. -/
def TokenUse.once : TokenUse := TokenUse.init.bumpLastUsed 0 "t"

theorem bearer_bearing (route : Route) :
    extractBearer (ApiRequest.bearing route).authorization = .ok "t" := by
  have hbearer : extractBearer (some (Text.utf8 "Bearer t")) = .ok "t" := by decide
  exact hbearer

/-- The token passes the bearer layer wherever it is cached. -/
theorem checkBearer_bearing {cache : List String} (hcached : tokenHash "t" ∈ cache)
    (route : Route) :
    checkBearer cache (.new 0) (ApiRequest.bearing route).nowSec
      (ApiRequest.bearing route).authorization = (.new 0, .ok "t") := by
  rw [checkBearer, bearer_bearing]
  dsimp only
  rw [if_pos (List.contains_iff_mem.2 hcached)]
  rfl

/-- A request that `require_owner` lets through comes to its handler. -/
theorem exec_bearing (V : VaultSetup) (role : TokenRole) (route : Route)
    (h : route.ownerOnly = false ∨ role = .owner) :
    (ApiRequest.bearing route).exec V (.serving role)
      = (route.handle V (GatewayState.serving role).admin (tokenIdOf (tokenHash "t")) none).map
          fun x => (⟨x.1, .new 0, .once⟩, x.2) := by
  have hchecked : checkBearer (GatewayState.serving role).admin.tokenCache
      (GatewayState.serving role).limiter (ApiRequest.bearing route).nowSec
      (ApiRequest.bearing route).authorization = (.new 0, .ok "t") :=
    checkBearer_bearing (List.mem_singleton_self _) route
  have hrole : tokenRole (GatewayState.serving role).admin.tokens "t" = some role := by
    simp [tokenRole, GatewayState.serving]
  have hpasses : ¬ (((ApiRequest.bearing route).route.ownerOnly && !(ApiRequest.bearing
      route).passesOwner (GatewayState.serving role).admin.tokens "t") = true) := by
    rcases h with hopen | rfl
    · simp [ApiRequest.bearing, hopen]
    · simp [ApiRequest.passesOwner, hrole, ApiRequest.bearing]
  rw [ApiRequest.exec, hchecked, ApiRequest.serve, if_neg hpasses]
  rfl

/-- One that `require_owner` refuses has used its token nevertheless. -/
theorem exec_bearing_refused (V : VaultSetup) {s : GatewayState} {route : Route}
    (hcached : tokenHash "t" ∈ s.admin.tokenCache) (hlimiter : s.limiter = .new 0)
    (hrole : tokenRole s.admin.tokens "t" = some .client) (h : route.ownerOnly = true) :
    (ApiRequest.bearing route).exec V s
      = some (⟨s.admin, .new 0, s.use.bumpLastUsed 0 "t"⟩, .error (.app .forbidden)) := by
  have hfails : ((ApiRequest.bearing route).route.ownerOnly && !(ApiRequest.bearing
      route).passesOwner s.admin.tokens "t") = true := by
    simp [ApiRequest.passesOwner, hrole, ApiRequest.bearing, h]
  rw [ApiRequest.exec, hlimiter, checkBearer_bearing hcached, ApiRequest.serve, if_pos hfails]
  rfl

/-- The owner switches the shadow mode on. -/
def Route.shadowOn : Route := .admin (.shadowModeSet true none 0 none) none

/-- The state after that request. -/
def GatewayState.switched : GatewayState where
  admin := (shadowModeSet (GatewayState.serving .owner).admin
    ⟨tokenIdOf (tokenHash "t"), none, none⟩ true none 0 none).1
  limiter := .new 0
  use := .once

theorem run_switched (V : VaultSetup) :
    GatewayRun V (.serving .owner) [.request (.bearing .shadowOn)] .switched := by
  have hexec := exec_bearing V .owner .shadowOn (Or.inr rfl)
  have hstep : Interference.states (gatewayStep V) (.serving .owner) (.request (.bearing .shadowOn))
      = some .switched := by
    rw [Interference.states, gatewayStep, hexec]
    rfl
  exact (Run.run_cons hstep []).trans (Run.run_nil _)

end IrlEngine
