import IrlEngine.Authorize
import IrlEngine.Tokens

/-!
# The layers around `authorize`

`build_router` of `lib.rs`, as far as a request for `POST /irl/authorize` goes: a service answers a
request, a layer wraps a service, and the layer that is added last sees the request first.  The
client certificate travels in the extensions of the request: `client_cert_middleware` reads
`PeerCertDer` and leaves `ClientCertInfo` for the handler.

* `buildRouter_eq` — the layer that supplies an empty `PeerCertDer` replaces the one of the
  connection before the middleware reads it;
* `client_cert_binds_iff` — for which requests a certificate binds the agent.
-/

namespace IrlEngine

/-! ## Requests -/

/-- A parsed certificate, as far as `parse_client_cert` looks at it. -/
structure X509Certificate where
  /-- `subject().iter_common_name()`, each with the answer of `as_str`. -/
  commonNames : List (Except String String)
  /-- The end of the validity, in seconds since the epoch. -/
  notAfter : ℤ
  deriving Repr

/-- `ClientCertInfo`: what the middleware keeps of a certificate. -/
structure ClientCertInfo where
  cn : String
  notAfter : ℤ
  deriving DecidableEq, Repr

/-- The typed values that layers and handlers leave in a request. -/
structure Extensions where
  peerCertDer : Option (List UInt8)
  clientCertInfo : Option ClientCertInfo
  /-- `ConnectInfo`, the address of the peer. -/
  connectInfo : Option String
  operatorId : Option String
  clientIp : Option (Option String)
  bodyLimit : Option ℕ
  deriving DecidableEq, Repr

/-- A request inside the router. -/
structure HttpRequest where
  /-- The bytes of the `Authorization` header. -/
  authorization : Option (List UInt8)
  extensions : Extensions
  bodyLength : ℕ
  /-- What the `Json` extractor makes of the body. -/
  body : Except String AuthorizeRequest

/-- A request as it comes from a connection. -/
structure IncomingRequest where
  authorization : Option (List UInt8)
  /-- The DER bytes that the TLS acceptor leaves, empty if the peer has presented no certificate. -/
  peerCert : List UInt8
  peer : Option String
  bodyLength : ℕ
  body : Except String AuthorizeRequest

/-- The request as the server hands it to the router. -/
def IncomingRequest.http (r : IncomingRequest) : HttpRequest where
  authorization := r.authorization
  extensions := ⟨some r.peerCert, none, r.peer, none, none, none⟩
  bodyLength := r.bodyLength
  body := r.body

/-- Why a request is answered before its handler is done. -/
inductive Rejection where
  | unauthorized
  | rateLimitExceeded
  | missingExtension
  | json (reason : String)
  | app (e : AppError)
  deriving DecidableEq, Repr

/-! ## Rate limits and bearer tokens -/

/-- `rate_limit.rs`: a counter for each token and second. -/
structure RateLimiter where
  counters : String → Option (ℕ × ℕ)
  maxPerSecond : ℕ

/-- The counters after a call for this token. -/
def RateLimiter.record (l : RateLimiter) (token : String) (entry : ℕ × ℕ) : RateLimiter :=
  { l with counters := fun t => if t = token then some entry else l.counters t }

/-- `RateLimiter::check`; a bound of 0 means no limit. -/
def RateLimiter.check (l : RateLimiter) (token : String) (nowSec : ℕ) :
    RateLimiter × Except Rejection Unit :=
  if l.maxPerSecond = 0 then (l, .ok ())
  else
    let entry := (l.counters token).getD (nowSec, 0)
    if entry.1 ≠ nowSec then (l.record token (nowSec, 1), .ok ())
    else if entry.2 < l.maxPerSecond then (l.record token (nowSec, entry.2 + 1), .ok ())
    else (l.record token entry, .error .rateLimitExceeded)

/-- What the middleware of `auth.rs` shares between requests, and the second it reads. -/
structure AuthState where
  /-- The hashes in the token cache. -/
  cache : List String
  limiter : RateLimiter
  nowSec : ℕ

/-- `HeaderValue::to_str`: visible ASCII and tabs. -/
def headerText (value : List UInt8) : Option (List Char) :=
  if value.all fun b => (32 ≤ b && b < 127) || b = 9 then
    some (value.map fun b => Char.ofNat b.toNat)
  else none

/-- `extract_bearer`. -/
def extractBearer (authorization : Option (List UInt8)) : Except Rejection String :=
  match authorization with
  | none => .error .unauthorized
  | some value =>
    match headerText value with
    | none => .error .unauthorized
    | some text =>
      if "Bearer ".toList.isPrefixOf text then
        .ok (String.ofList (text.drop "Bearer ".toList.length))
      else .error .unauthorized

/-! ## Services and layers -/

/-- A service answers a request, and may change the shared state. -/
def Service (α : Type) : Type := AuthState → HttpRequest → AuthState × Except Rejection α

variable {α : Type}

/-- `require_bearer`. -/
def requireBearerLayer (next : Service α) : Service α := fun auth req =>
  match extractBearer req.authorization with
  | .error e => (auth, .error e)
  | .ok token =>
    if auth.cache.contains (tokenHash token) then
      match auth.limiter.check token auth.nowSec with
      | (limiter, .error e) => ({ auth with limiter := limiter }, .error e)
      | (limiter, .ok ()) =>
        let operatorId := String.ofList ((tokenHash token).toList.take 12)
        next { auth with limiter := limiter }
          { req with extensions :=
            { req.extensions with
              operatorId := some operatorId, clientIp := some req.extensions.connectInfo } }
    else (auth, .error .unauthorized)

/-- `parse_client_cert`, over `X509Certificate::from_der`. -/
def parseClientCert (fromDer : List UInt8 → Except String X509Certificate) (der : List UInt8) :
    Except String ClientCertInfo :=
  match fromDer der with
  | .error e => .error ("Failed to parse client cert: " ++ e)
  | .ok cert =>
    match cert.commonNames.head? with
    | some (.ok cn) => .ok ⟨cn, cert.notAfter⟩
    | _ => .error "Client cert has no CommonName"

/-- `client_cert_middleware`: a certificate that does not parse is only warned about. -/
def clientCertMiddleware (fromDer : List UInt8 → Except String X509Certificate)
    (next : Service α) : Service α := fun auth req =>
  match req.extensions.peerCertDer with
  | none => (auth, .error .missingExtension)
  | some der =>
    if der = [] then next auth req
    else
      match parseClientCert fromDer der with
      | .ok info =>
        next auth { req with extensions := { req.extensions with clientCertInfo := some info } }
      | .error _ => next auth req

/-- `Extension(PeerCertDer(der))` as a layer. -/
def peerCertLayer (der : List UInt8) (next : Service α) : Service α := fun auth req =>
  next auth { req with extensions := { req.extensions with peerCertDer := some der } }

/-- `DefaultBodyLimit::max`. -/
def bodyLimitLayer (maxBody : ℕ) (next : Service α) : Service α := fun auth req =>
  next auth { req with extensions := { req.extensions with bodyLimit := some maxBody } }

/-- The layers of `build_router` around a route behind `require_bearer`, in the order in which they
are added. -/
def buildRouter (fromDer : List UInt8 → Except String X509Certificate) (maxBody : ℕ)
    (handler : Service α) : Service α :=
  handler
    |> requireBearerLayer
    |> clientCertMiddleware fromDer
    |> peerCertLayer []
    |> bodyLimitLayer maxBody

/-! ## The handler -/

/-- The `Json` extractor, under the body limit. -/
def extractJson (limit : Option ℕ) (bodyLength : ℕ) (body : Except String AuthorizeRequest) :
    Except Rejection AuthorizeRequest :=
  match limit with
  | some max =>
    if max < bodyLength then .error (.json "length limit exceeded") else body.mapError .json
  | none => body.mapError .json

/-- A handler of an authorize request and the CN of its certificate. -/
def authorizeRoute (handle : Option String → AuthorizeRequest → Except AppError α) : Service α :=
  fun auth req =>
    match extractJson req.extensions.bodyLimit req.bodyLength req.body with
    | .error e => (auth, .error e)
    | .ok body =>
      (auth, (handle (req.extensions.clientCertInfo.map ClientCertInfo.cn) body).mapError .app)

/-- `authorize` up to the end of its first check. -/
def authorizeCertCheck (env : AuthorizeEnv) (cn : Option String) (req : AuthorizeRequest) :
    Except AppError AuthorizeRequest :=
  (checkClientCert { env with certCn := cn } req).map fun _ => req

/-! ## What reaches the handler -/

variable {fromDer : List UInt8 → Except String X509Certificate} {maxBody : ℕ} {auth : AuthState}

/-- The certificate of the connection is gone before anything has read it. -/
theorem buildRouter_eq (handler : Service α) (req : HttpRequest) :
    buildRouter fromDer maxBody handler auth req
      = requireBearerLayer handler auth
          { req with extensions :=
            { req.extensions with peerCertDer := some [], bodyLimit := some maxBody } } := rfl

/-- The token of the request is in the cache and within its rate. -/
def BearerAdmits (auth : AuthState) (authorization : Option (List UInt8)) : Prop :=
  ∃ token, extractBearer authorization = .ok token ∧ tokenHash token ∈ auth.cache ∧
    (auth.limiter.check token auth.nowSec).2 = .ok ()

theorem authorizeRoute_ok {handle : Option String → AuthorizeRequest → Except AppError α}
    {req : HttpRequest} {a : α} :
    (authorizeRoute handle auth req).2 = .ok a ↔
      ∃ body, extractJson req.extensions.bodyLimit req.bodyLength req.body = .ok body ∧
        handle (req.extensions.clientCertInfo.map ClientCertInfo.cn) body = .ok a := by
  unfold authorizeRoute
  cases extractJson req.extensions.bodyLimit req.bodyLength req.body with
  | error e => simp
  | ok body =>
    cases hanswer : handle (req.extensions.clientCertInfo.map ClientCertInfo.cn) body with
    | error e => simp [hanswer, Except.mapError]
    | ok a' => simp [hanswer, Except.mapError]

/-- Behind `require_bearer` the route finds the certificate as it was before. -/
theorem requireBearerLayer_ok {handle : Option String → AuthorizeRequest → Except AppError α}
    {req : HttpRequest} {a : α} :
    (requireBearerLayer (authorizeRoute handle) auth req).2 = .ok a ↔
      BearerAdmits auth req.authorization ∧
        ∃ body, extractJson req.extensions.bodyLimit req.bodyLength req.body = .ok body ∧
          handle (req.extensions.clientCertInfo.map ClientCertInfo.cn) body = .ok a := by
  unfold requireBearerLayer BearerAdmits
  cases htoken : extractBearer req.authorization with
  | error e => simp
  | ok token =>
    by_cases hcache : tokenHash token ∈ auth.cache
    · rcases hcheck : auth.limiter.check token auth.nowSec with ⟨limiter, answer⟩
      cases answer with
      | error e => simp [hcache, hcheck]
      | ok u =>
        simp only [List.contains_iff_mem, hcache, if_true, hcheck, authorizeRoute_ok]
        simp [hcache, hcheck]
    · simp [hcache]

/-- Whatever the certificate of the connection, the route is run without one. -/
theorem buildRouter_ok {handle : Option String → AuthorizeRequest → Except AppError α}
    {r : IncomingRequest} {a : α} :
    (buildRouter fromDer maxBody (authorizeRoute handle) auth r.http).2 = .ok a ↔
      BearerAdmits auth r.authorization ∧
        ∃ body, extractJson (some maxBody) r.bodyLength r.body = .ok body ∧
          handle none body = .ok a := by
  rw [buildRouter_eq, requireBearerLayer_ok]
  rfl

/-- The whole call, too, is the one of a peer without a certificate. -/
theorem authorize_without_cert (K : Crates) (cfg : Config) (agents : List AgentProfile)
    (traces : List TraceRow) (hs : HeartbeatState) (env : AuthorizeEnv) {r : IncomingRequest}
    {req : AuthorizeRequest} (hbearer : BearerAdmits auth r.authorization)
    (hbody : extractJson (some maxBody) r.bodyLength r.body = .ok req) :
    (buildRouter fromDer maxBody (authorizeRoute fun cn req =>
        .ok (authorize K cfg agents traces hs { env with certCn := cn } req)) auth r.http).2
      = .ok (authorize K cfg agents traces hs { env with certCn := none } req) :=
  buildRouter_ok.2 ⟨hbearer, req, hbody, rfl⟩

/-! ## The binding of agents -/

/-- The request goes past the first check of `authorize`, with this body. -/
def ProceedsPastCheck (fromDer : List UInt8 → Except String X509Certificate) (maxBody : ℕ)
    (env : AuthorizeEnv) (auth : AuthState) (r : IncomingRequest) (req : AuthorizeRequest) : Prop :=
  (buildRouter fromDer maxBody (authorizeRoute (authorizeCertCheck env)) auth r.http).2 = .ok req

/-- The certificate parses, and its first common name is the agent. -/
def CertNames (fromDer : List UInt8 → Except String X509Certificate) (der : List UInt8)
    (agentId : Uuid) : Prop :=
  ∃ info, parseClientCert fromDer der = .ok info ∧ info.cn = agentId.toText

theorem proceedsPastCheck_iff {env : AuthorizeEnv} {r : IncomingRequest} {req : AuthorizeRequest} :
    ProceedsPastCheck fromDer maxBody env auth r req ↔
      BearerAdmits auth r.authorization ∧
        extractJson (some maxBody) r.bodyLength r.body = .ok req := by
  unfold ProceedsPastCheck
  rw [buildRouter_ok]
  -- without a certificate the check lets every request through
  have hcheck : ∀ body, authorizeCertCheck env none body = .ok body := fun _ => rfl
  simp [hcheck]

/-- **When a client certificate binds the agent.**  A request with a peer certificate goes past the
first check only in the name of that certificate, exactly if it does not get there (the bearer token
or the body is refused) or its certificate happens to name the agent: the router never looks at
it. -/
theorem client_cert_binds_iff (fromDer : List UInt8 → Except String X509Certificate) (maxBody : ℕ)
    (env : AuthorizeEnv) (auth : AuthState) (r : IncomingRequest) :
    (∀ req, ProceedsPastCheck fromDer maxBody env auth r req →
        CertNames fromDer r.peerCert req.agentId) ↔
      ¬ BearerAdmits auth r.authorization ∨
        ∀ req, extractJson (some maxBody) r.bodyLength r.body = .ok req →
          CertNames fromDer r.peerCert req.agentId := by
  constructor
  · intro h
    by_cases hbearer : BearerAdmits auth r.authorization
    · exact Or.inr fun req hbody => h req (proceedsPastCheck_iff.2 ⟨hbearer, hbody⟩)
    · exact Or.inl hbearer
  · rintro (hrefused | hnames) req hproceeds
    · exact absurd (proceedsPastCheck_iff.1 hproceeds).1 hrefused
    · exact hnames req (proceedsPastCheck_iff.1 hproceeds).2

/-! A connection whose certificate is a single zero byte. -/

/-- What the parser answers for a byte that starts no certificate. -/
def sampleFromDer (_der : List UInt8) : Except String X509Certificate := .error "incomplete"

/-- A cache with one token, and no limit on the rate. -/
def AuthState.sample : AuthState := ⟨[tokenHash "t"], ⟨fun _ => none, 0⟩, 0⟩

/-- An order with that token, from a peer with a certificate. -/
def IncomingRequest.sample : IncomingRequest where
  authorization := some (Text.utf8 "Bearer t")
  peerCert := [0]
  peer := none
  bodyLength := 500
  body := .ok (.sample (.fill 1) (.custom "buy") F64.one)

theorem bearerAdmits_sample : BearerAdmits .sample IncomingRequest.sample.authorization := by
  refine ⟨"t", by decide, ?_, rfl⟩
  exact List.mem_singleton_self _

/-- It goes past the check. -/
theorem unparsed_cert_proceeds :
    IncomingRequest.sample.peerCert ≠ [] ∧
    ∃ req, ProceedsPastCheck sampleFromDer 1048576 (.sample (.fill 2)) .sample .sample req ∧
      ¬ CertNames sampleFromDer IncomingRequest.sample.peerCert req.agentId := by
  refine ⟨by decide, _, proceedsPastCheck_iff.2 ⟨bearerAdmits_sample, rfl⟩, ?_⟩
  rintro ⟨info, hinfo, -⟩
  cases hinfo

end IrlEngine
