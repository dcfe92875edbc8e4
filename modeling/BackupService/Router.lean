import BackupService.Extract
import BackupService.RateLimit

/-!
The router: what a request to a protected route goes through before its
handler runs, and on the way back.

A `Service` turns a request into a response and acts on a `Server` while it
does so: one process of the service with the stores behind it. A middleware
is a function between services, and `Router::layer` puts one around what is
there, so that the layer added last runs first. `createRouter` adds them in
the order of the source. The layers that only look on, compression and
tracing, are left out, and so is the timeout, which cuts a request off at
any of its operations.

What a request meets can be different at each of its steps, since others are
served at the same time: the configuration, the clocks, and whether the
stores answer. The steps of a request are numbered, and its `Host` says what
surrounds each of them.
-/

namespace BackupService

open Lib

/-! ### Responses -/

inductive HttpBody
  /-- The answer of a handler, or an error in its form. -/
  | service (body : Body)
  | rateLimitExceeded (status : ℕ) (retryAfterSecs : UInt64)
  /-- A text of the framework. -/
  | text
  deriving DecidableEq, Repr

structure HttpResponse where
  status : ℕ
  headers : List (String × String) := []
  body : HttpBody
  deriving DecidableEq, Repr

def HttpResponse.of (r : Response) : HttpResponse where
  status := r.status
  body := .service r.body

def Rejection.intoResponse (e : Rejection) : HttpResponse where
  status := e.status
  body := .text

/-! ### Servers -/

/-- What surrounds one step of a request. -/
structure Moment where
  env : Env
  config : AppConfig
  /-- The monotonic clock. -/
  clock : ℕ
  /-- The wall clock. -/
  utc : Timestamp

/-- What is fixed while a request is served. The function `decode` of the
`jsonwebtoken` crate takes a token, a secret and the time of day. -/
structure Host where
  state : AppState
  uuid : UuidParser
  decode : String → String → Timestamp → Except JwtError Claims
  oracle : Oracle
  moment : ℕ → Moment

/-- A process of the service and the stores behind it. -/
structure Server where
  store : Store
  counters : Counters
  /-- The number of steps the request has made. -/
  steps : ℕ
  /-- The claims that handlers have been run with. -/
  handled : List Claims

/-- One step further. -/
def Server.next (s : Server) : Server := { s with steps := s.steps + 1 }

abbrev Service := HttpRequest → Server → HttpResponse × Server

section Layers

variable (host : Host)

/-! ### Authentication -/

/-- `HeaderValue::to_str`: visible characters, blanks and tabs only. -/
def headerText (value : List UInt8) : Option String :=
  if value.all fun b => 32 ≤ b && b < 127 || b = 9 then
    some (String.ofList (value.map fun b => Char.ofNat b.toNat))
  else none

/-- `str::strip_prefix` -/
def stripPrefix (pre s : String) : Option String :=
  if pre.toList <+: s.toList then some (String.ofList (s.toList.drop pre.length)) else none

def HttpRequest.bearerToken (r : HttpRequest) : Option String :=
  (r.authorization.bind headerText).bind (stripPrefix "Bearer ")

def verifyToken (token secret : String) (utc : Timestamp) : Except AppError Claims :=
  match host.decode token secret utc with
  | .ok claims => .ok claims
  | .error e => .error (.jwt e)

def authMiddleware (next : Service) : Service := fun request s =>
  let moment := host.moment s.steps
  let secret := moment.config.jwtSecret
  match request.bearerToken with
  | none =>
      (.of (AppError.unauthorized "missing or invalid Authorization header").intoResponse, s.next)
  | some token =>
      match verifyToken host token secret moment.utc with
      | .error e => (.of e.intoResponse, s.next)
      | .ok claims => next { request with claims := some claims } s.next

/-! ### The rate limiter -/

def rateLimitHeaders (info : RateLimitInfo) : List (String × String) :=
  [("X-RateLimit-Limit", toString info.limit.toNat),
    ("X-RateLimit-Remaining", toString info.remaining.toNat),
    ("X-RateLimit-Reset", toString info.resetSecs.toNat)]

def tooManyRequests (config : RateLimitConfig) : HttpResponse where
  status := 429
  headers :=
    [("Retry-After", toString config.windowSecs.toNat),
      ("X-RateLimit-Limit", toString config.maxRequests.toNat),
      ("X-RateLimit-Remaining", "0")]
  body := .rateLimitExceeded 429 config.windowSecs

/-- What the limiter's `check` leads to. -/
def limited (check : Counters → Except Unit RateLimitInfo × Counters) (config : RateLimitConfig)
    (next : Server → HttpResponse × Server) (s : Server) : HttpResponse × Server :=
  match check s.counters with
  | (.ok info, counters) =>
      let (response, s') := next { s with counters }
      ({ response with headers := response.headers ++ rateLimitHeaders info }, s')
  | (.error (), counters) => (tooManyRequests config, { s with counters })

def rateLimitMiddleware (next : Service) : Service := fun request s =>
  let moment := host.moment s.steps
  let config := moment.config.rateLimit
  match request.claims.map Claims.tenantId with
  | none => next request s.next
  | some tenantId =>
      limited (checkAndIncrement · tenantId config moment.clock) config (next request) s.next

/-! ### The handlers -/

/-- A handler's operation, as the next step of its request. -/
def Host.exec (o : Op) (s : Store × ℕ) : o.Answer × (Store × ℕ) :=
  let moment := host.moment s.2
  let (answer, store) := o.exec moment.env host.oracle moment.config moment.clock s.1
  (answer, store, s.2 + 1)

/-- Run the handler of the request. -/
def runHandler (claims : Claims) (request : Request) (s : Server) : Response × Server :=
  let (response, store, steps) :=
    (handle host.state claims request).run host.exec (s.store, s.steps)
  (response, { s with store, steps, handled := s.handled ++ [claims] })

/-- The routes: the handler is run when all its extractors have succeeded,
`Extension<Claims>` first. -/
def backupRoutes : Service := fun request s =>
  match request.extract host.uuid, request.claims with
  | .error .methodNotAllowed, _ => (Rejection.methodNotAllowed.intoResponse, s)
  | _, none => (Rejection.missingExtension.intoResponse, s)
  | .error e, some _ => (e.intoResponse, s)
  | .ok req, some claims =>
      let (response, s') := runHandler host claims req s
      (.of response, s')

/-! ### The layers -/

/-- `Router::layer` -/
abbrev Service.layer (service : Service) (middleware : Service → Service) : Service :=
  middleware service

/-- `RequestBodyLimitLayer`: a body that announces itself as too long is
refused. -/
def requestBodyLimit (limit : ℕ) (next : Service) : Service := fun request s =>
  if request.contentLength.any (limit < ·) then (Rejection.bodyTooLarge.intoResponse, s)
  else next request s

/-- `CorsLayer::permissive`: a preflight request is answered here. -/
def corsPermissive (next : Service) : Service := fun request s =>
  if request.method = .options then ({ status := 200, body := .text }, s)
  else next request s

def createRouter : Service :=
  (backupRoutes host)
    |>.layer (rateLimitMiddleware host)
    |>.layer (authMiddleware host)
    |>.layer (requestBodyLimit (10 * 1024 * 1024))
    |>.layer corsPermissive

end Layers

end BackupService
