import BackupService.Apollo
import BackupService.Router

/-!
Logins and tokens.

A login trades a name and a password for a token, and a protected route wants
that token in the header `Authorization`. In between is the crate
`jsonwebtoken` (`Jwt`), of which is used that it reads back what it has signed
with the same secret, until the token has expired, and that a token is
visible text. `login_opens_session` puts the two sides together: what the
token of a login is good for, and for how long.
-/

namespace BackupService

open Lib Lib.Json

/-! ### Tokens -/

/-- `DateTime::timestamp`: whole seconds. -/
def timestamp (utc : Timestamp) : ℕ := utc / secs 1

theorem timestamp_add_secs (utc : Timestamp) (n : ℕ) : timestamp (utc + secs n) = timestamp utc + n := by
  have hsecs : secs n = secs 1 * n := by
    unfold secs
    omega
  rw [timestamp, hsecs, Nat.add_mul_div_left _ _ (by decide), timestamp]

/-- `encode` and `decode` of the `jsonwebtoken` crate, with the header and the
validation that are the default: a signature with the secret, and an expiry
that is checked with a leeway of one minute. -/
structure Jwt where
  encode : Claims → String → Except JwtError String
  decode : String → String → Timestamp → Except JwtError Claims
  decode_encode : ∀ {claims secret token}, encode claims secret = .ok token → ∀ utc,
    decode token secret utc = if timestamp utc ≤ claims.exp + 60 then .ok claims else .error .invalid
  /-- A token consists of digits, letters, `-`, `_` and dots. -/
  visible : ∀ {claims secret token}, encode claims secret = .ok token →
    ∀ c ∈ token.toList, 32 ≤ c.toNat ∧ c.toNat < 127

/-- `Duration::hours(24)`, in seconds. -/
def sessionSecs : ℕ := 86400

/-- The claims of a token that is made at the instant `now`. -/
def tokenClaims (userId : String) (tenantId : Uuid) (roles : List String) (now : Timestamp) :
    Claims where
  sub := userId
  tenantId := tenantId
  roles := roles
  exp := timestamp (now + secs sessionSecs)
  iat := timestamp now

theorem tokenClaims_exp (userId : String) (tenantId : Uuid) (roles : List String) (now : Timestamp) :
    (tokenClaims userId tenantId roles now).exp = timestamp now + sessionSecs :=
  timestamp_add_secs now sessionSecs

section Login

variable (jwt : Jwt)

def createToken (userId : String) (tenantId : Uuid) (roles : List String) (secret : String)
    (now : Timestamp) : Except AppError String :=
  match jwt.encode (tokenClaims userId tenantId roles now) secret with
  | .ok token => .ok token
  | .error e => .error (.jwt e)

/-! ### Logins -/

structure LoginRequest where
  username : String
  password : String
  deriving DecidableEq, Repr

structure LoginResponse where
  token : String
  tokenType : String
  expiresIn : UInt64
  deriving DecidableEq, Repr

def LoginRequest.deserialize : Decoder LoginRequest := fun j => do
  let m ← j.members ["username", "password"]
  let username ← m.required "username" asString
  let password ← m.required "password" asString
  return { username, password }

def LoginRequest.objection : Json → Category :=
  recordObjection [("username", scalarObjection asString), ("password", scalarObjection asString)]

/-- The tenant of everybody who can log in. -/
def demoTenant : Uuid := ⟨1⟩

/-- It is the one that is written down in the source. -/
theorem parse_demoTenant (uuid : UuidParser) :
    uuid.parse "00000000-0000-0000-0000-000000000001" = .ok demoTenant := by
  have htext : demoTenant.toString = "00000000-0000-0000-0000-000000000001" := by decide
  rw [← htext]
  exact uuid.parse_toString demoTenant

/-- Who can log in, and the roles they have. -/
def LoginRequest.roles (req : LoginRequest) : Option (List String) :=
  if req.username = "admin" ∧ req.password = "admin" then some ["admin", "user"]
  else if req.username = "user" ∧ req.password = "user" then some ["user"]
  else none

def login (config : AppConfig) (now : Timestamp) (req : LoginRequest) : Except AppError LoginResponse :=
  match req.roles with
  | none => .error (.unauthorized "invalid credentials")
  | some roles =>
      match createToken jwt req.username demoTenant roles config.jwtSecret now with
      | .error e => .error e
      | .ok token => .ok { token, tokenType := "Bearer", expiresIn := 86400 }

variable {jwt}

/-- **What a login gives out.** -/
theorem login_eq_ok {config : AppConfig} {now : Timestamp} {req : LoginRequest} {res : LoginResponse} :
    login jwt config now req = .ok res ↔ ∃ roles, req.roles = some roles ∧
      jwt.encode (tokenClaims req.username demoTenant roles now) config.jwtSecret = .ok res.token ∧
        res.tokenType = "Bearer" ∧ res.expiresIn = 86400 := by
  obtain ⟨token, tokenType, expiresIn⟩ := res
  unfold login createToken
  cases hroles : req.roles with
  | none => simp
  | some roles =>
      simp only [Option.some.injEq, exists_eq_left']
      cases hencode : jwt.encode (tokenClaims req.username demoTenant roles now) config.jwtSecret with
      | error e => simp
      | ok token' => simp [eq_comm]

end Login

/-! ### The header -/

/-- A text of visible characters as the value of a header. -/
def headerValue (text : String) : List UInt8 := text.toList.map fun c => UInt8.ofNat c.toNat

theorem headerText_headerValue {text : String}
    (h : ∀ c ∈ text.toList, 32 ≤ c.toNat ∧ c.toNat < 127) :
    headerText (headerValue text) = some text := by
  have hbyte : ∀ c ∈ text.toList, (UInt8.ofNat c.toNat).toNat = c.toNat := by
    intro c hc
    have := h c hc
    rw [UInt8.toNat_ofNat']
    omega
  have hall : ((headerValue text).all fun b => 32 ≤ b && b < 127 || b = 9) = true := by
    rw [List.all_eq_true]
    intro b hb
    obtain ⟨c, hc, rfl⟩ := List.mem_map.mp hb
    have hlow := h c hc
    have hnat := hbyte c hc
    have hle : (32 : UInt8) ≤ UInt8.ofNat c.toNat := by
      rw [UInt8.le_iff_toNat_le, hnat]
      exact hlow.1
    have hlt : UInt8.ofNat c.toNat < 127 := by
      rw [UInt8.lt_iff_toNat_lt, hnat]
      exact hlow.2
    simp [hle, hlt]
  have hchars : ((headerValue text).map fun b => Char.ofNat b.toNat) = text.toList := by
    rw [headerValue, List.map_map]
    conv_rhs => rw [← List.map_id text.toList]
    apply List.map_congr_left
    intro c hc
    show Char.ofNat (UInt8.ofNat c.toNat).toNat = c
    rw [hbyte c hc, Char.ofNat_toNat]
  rw [headerText, if_pos hall, hchars, String.ofList_toList]

theorem stripPrefix_append (pre s : String) : stripPrefix pre (pre ++ s) = some s := by
  rw [stripPrefix, String.toList_append, if_pos (List.prefix_append _ _), ← String.length_toList,
    List.drop_left, String.ofList_toList]

/-- What a client makes of the answer to its login. -/
def LoginResponse.authorization (res : LoginResponse) : List UInt8 :=
  headerValue (res.tokenType ++ " " ++ res.token)

theorem bearerToken_authorization {res : LoginResponse} (htype : res.tokenType = "Bearer")
    (hvisible : ∀ c ∈ res.token.toList, 32 ≤ c.toNat ∧ c.toNat < 127) {request : HttpRequest}
    (h : request.authorization = some res.authorization) : request.bearerToken = some res.token := by
  have htext : ∀ c ∈ ("Bearer " ++ res.token).toList, 32 ≤ c.toNat ∧ c.toNat < 127 := by
    have hscheme : ∀ c ∈ "Bearer ".toList, 32 ≤ c.toNat ∧ c.toNat < 127 := by simp
    intro c hc
    rw [String.toList_append] at hc
    rcases List.mem_append.mp hc with hc | hc
    · exact hscheme c hc
    · exact hvisible c hc
  have hpre : res.tokenType ++ " " ++ res.token = "Bearer " ++ res.token := by
    rw [htype]
    rfl
  rw [HttpRequest.bearerToken, h, LoginResponse.authorization, hpre, Option.bind_some,
    headerText_headerValue htext, Option.bind_some, stripPrefix_append]

/-! ### Verifying -/

/-- What `auth_middleware` does before it passes the request on. -/
def authenticate (decode : String → String → Timestamp → Except JwtError Claims) (config : AppConfig)
    (utc : Timestamp) (request : HttpRequest) : Except HttpResponse HttpRequest :=
  match request.bearerToken with
  | none =>
      .error (.of (AppError.unauthorized "missing or invalid Authorization header").intoResponse)
  | some token =>
      match decode token config.jwtSecret utc with
      | .error e => .error (.of (AppError.jwt e).intoResponse)
      | .ok claims => .ok { request with claims := some claims }

section Verifying

variable {decode : String → String → Timestamp → Except JwtError Claims} {config : AppConfig}
  {utc : Timestamp} {request request' : HttpRequest}

theorem authenticate_eq_ok : authenticate decode config utc request = .ok request' ↔
    ∃ token claims, request.bearerToken = some token ∧
      decode token config.jwtSecret utc = .ok claims ∧
        request' = { request with claims := some claims } := by
  unfold authenticate
  cases htoken : request.bearerToken with
  | none => simp
  | some token =>
      cases hdecode : decode token config.jwtSecret utc with
      | error e => simp [hdecode]
      | ok claims => simp [hdecode, eq_comm]

theorem authMiddleware_eq (host : Host) (next : Service) (request : HttpRequest) (s : Server) :
    authMiddleware host next request s =
      match authenticate host.decode (host.moment s.steps).config (host.moment s.steps).utc request with
      | .error response => (response, s.next)
      | .ok request' => next request' s.next := by
  unfold authMiddleware authenticate verifyToken
  cases request.bearerToken with
  | none => rfl
  | some token =>
      dsimp only
      cases host.decode token (host.moment s.steps).config.jwtSecret (host.moment s.steps).utc <;> rfl

end Verifying

/-- The updater leaves the secret alone. -/
theorem runUpdaterLoop_jwtSecret (replies : List FetchReply) (config : AppConfig) :
    (runUpdaterLoop replies config).jwtSecret = config.jwtSecret := by
  rw [runUpdaterLoop_frame]

/-- **A login opens a session of a day.** A client that has logged in, with
the password of one of the two users, and puts what it has got into the
header, is let through to the limiter as that user of the demo tenant, and as
nobody else, for 24 hours and the minute of leeway, whatever configurations
are fetched meanwhile; after that it is told that its token is invalid. -/
theorem login_opens_session (jwt : Jwt) {config : AppConfig} {now : Timestamp} {req : LoginRequest}
    {res : LoginResponse} (hlogin : login jwt config now req = .ok res) (replies : List FetchReply)
    {host : Host} (hdecode : host.decode = jwt.decode) {request : HttpRequest}
    (hheader : request.authorization = some res.authorization) (hmethod : request.method ≠ .options)
    (hlength : ∀ n, request.contentLength = some n → n ≤ 10 * 1024 * 1024) (s : Server)
    (hconfig : (host.moment s.steps).config = runUpdaterLoop replies config) :
    ∃ roles, req.roles = some roles ∧ createRouter host request s =
      if timestamp (host.moment s.steps).utc ≤ timestamp now + 24 * 60 * 60 + 60 then
        rateLimitMiddleware host (backupRoutes host)
          { request with claims := some (tokenClaims req.username demoTenant roles now) } s.next
      else (.of ⟨401, .error "invalid token" 401⟩, s.next) := by
  obtain ⟨roles, hroles, hencode, htype, -⟩ := login_eq_ok.mp hlogin
  refine ⟨roles, hroles, ?_⟩
  have htoken := bearerToken_authorization htype (jwt.visible hencode) hheader
  have hverified := jwt.decode_encode hencode (host.moment s.steps).utc
  rw [tokenClaims_exp, sessionSecs, ← runUpdaterLoop_jwtSecret replies config, ← hconfig,
    ← hdecode] at hverified
  have hshort : ¬ request.contentLength.any (10 * 1024 * 1024 < ·) := by
    cases hn : request.contentLength with
    | none => simp
    | some n => simpa using hlength n hn
  show corsPermissive (requestBodyLimit (10 * 1024 * 1024)
    (authMiddleware host (rateLimitMiddleware host (backupRoutes host)))) request s = _
  rw [corsPermissive, if_neg hmethod, requestBodyLimit, if_neg hshort, authMiddleware_eq, authenticate,
    htoken]
  dsimp only
  rw [hverified]
  by_cases hvalid : timestamp (host.moment s.steps).utc ≤ timestamp now + 24 * 60 * 60 + 60
  · rw [if_pos hvalid, if_pos hvalid]
  · rw [if_neg hvalid, if_neg hvalid]
    rfl

section Admin

def adminClaims : Claims := tokenClaims "admin" demoTenant ["admin", "user"] 0

/-- The token of a login as `admin` in the first second of the epoch. -/
def adminToken : String :=
  "eyJ0eXAiOiJKV1QiLCJhbGciOiJIUzI1NiJ9." ++
  "eyJzdWIiOiJhZG1pbiIsInRlbmFudF9pZCI6IjAwMDAwMDAwLTAwMDAtMDAwMC0wMDAwLTAwMDAwMDAwMDAwMSIs" ++
  "InJvbGVzIjpbImFkbWluIiwidXNlciJdLCJleHAiOjg2NDAwLCJpYXQiOjB9." ++
  "qwuq4-M7hWASVPLIx14OHb5RdP92TlBvW_m0GSpAoJw"

/-- Nothing but visible characters of the ASCII table. -/
def visible (s : String) : Bool := s.toList.all fun c => 32 ≤ c.toNat && c.toNat < 127

theorem visible_append {s t : String} (hs : visible s = true) (ht : visible t = true) :
    visible (s ++ t) = true := by
  rw [visible, String.toList_append, List.all_append, Bool.and_eq_true]
  exact ⟨hs, ht⟩

theorem mem_of_visible {s : String} (h : visible s = true) :
    ∀ c ∈ s.toList, 32 ≤ c.toNat ∧ c.toNat < 127 := by
  simpa [visible] using h

-- part by part: the whole text is too long for the kernel
theorem adminToken_visible : visible adminToken = true :=
  visible_append (visible_append (visible_append (by decide +kernel) (by decide +kernel))
    (by decide +kernel)) (by decide +kernel)

/-- What the crate does with this one token and the secret that is the
default. -/
def Jwt.admin : Jwt where
  encode claims secret :=
    if claims = adminClaims ∧ secret = AppConfig.default.jwtSecret then .ok adminToken
    else .error .invalid
  decode token secret utc :=
    if token = adminToken ∧ secret = AppConfig.default.jwtSecret ∧
      timestamp utc ≤ adminClaims.exp + 60 then .ok adminClaims else .error .invalid
  decode_encode := by
    intro claims secret token h utc
    split at h
    · next heq =>
        obtain ⟨rfl, rfl⟩ := heq
        obtain rfl := Except.ok.inj h
        simp only [true_and]
    · cases h
  visible := by
    intro claims secret token h
    split at h
    · obtain rfl := Except.ok.inj h
      exact mem_of_visible adminToken_visible
    · cases h

def adminLogin : LoginResponse := ⟨adminToken, "Bearer", 86400⟩

/-- `GET /api/v1/backups` with the token. -/
def adminRequest : HttpRequest where
  method := .get
  path := .backups
  authorization := some adminLogin.authorization
  query := []
  contentLength := none
  jsonContentType := false
  body := .notJson .badSyntax
  claims := none

def adminHost (utc : Timestamp) : Host where
  state := ⟨.noop, false⟩
  uuid := .hyphenated
  decode := Jwt.admin.decode
  oracle := ⟨⟨0⟩, 0⟩
  moment _ := ⟨{}, .default, 0, utc⟩

theorem login_admin : login Jwt.admin .default 0 ⟨"admin", "admin"⟩ = .ok adminLogin :=
  login_eq_ok.mpr ⟨_, rfl, rfl, rfl, rfl⟩

/-- A request in the last second of the session. -/
theorem login_opens_session_admin : ∃ roles, (⟨"admin", "admin"⟩ : LoginRequest).roles = some roles ∧
    createRouter (adminHost (secs 86460)) adminRequest ⟨⟨.empty, .empty, []⟩, .empty, 0, []⟩ =
      if timestamp (secs 86460) ≤ timestamp 0 + 24 * 60 * 60 + 60 then
        rateLimitMiddleware (adminHost (secs 86460)) (backupRoutes (adminHost (secs 86460)))
          { adminRequest with claims := some (tokenClaims "admin" demoTenant roles 0) }
          ⟨⟨.empty, .empty, []⟩, .empty, 1, []⟩
      else (.of ⟨401, .error "invalid token" 401⟩, ⟨⟨.empty, .empty, []⟩, .empty, 1, []⟩) :=
  login_opens_session Jwt.admin login_admin [] rfl rfl (by decide) (fun n hn => by cases hn) _ rfl

end Admin

end BackupService
