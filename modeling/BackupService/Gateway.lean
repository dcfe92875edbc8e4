import BackupService.Auth
import BackupService.Linearization
import BackupService.Writes

/-!
The service as its HTTP clients meet it.

A `Gateway` is the running system with its front door: the limiters of the
replicas, and the requests that are on their way through the layers. A request
is numbered when it arrives. It is authenticated, counted, and dispatched to
its handler in three events, between which anything else can happen, and the
handler is then a thread of the system. A login is one event, and the tokens
that logins have given out are written down.

For the part inside, the gateway is the system: its runs are runs of the
system, in which no name of a request is used twice (`gateway_run`). What is
new is where the claims come from, with which the system starts handlers. The
gateway does not know how tokens are signed. What is asked for is only that
nobody makes up a token (`Unforged`): one that can be decoded with the secret
of a replica is one that a login has given out.
-/

namespace BackupService

open Lib

/-! ### Requests on their way -/

/-- How far a request has come. -/
inductive Passage
  | arrived
  | authenticated
  /-- The limiter has let it through. -/
  | admitted (info : Option RateLimitInfo)
  /-- Its handler has been started. -/
  | dispatched (info : Option RateLimitInfo)

structure HttpVisit where
  replica : ℕ
  request : HttpRequest
  progress : Passage

/-- A token that has been given out, for which login, and when. -/
structure Issue where
  token : String
  secret : String
  login : LoginRequest
  now : Timestamp

structure Gateway where
  api : State
  /-- `InMemoryRateLimiter`, one for each replica. -/
  counters : ℕ → Counters
  visits : ℕ → Option HttpVisit
  /-- The number of the next request. -/
  arrivals : ℕ
  /-- The tokens that have been given out; nothing depends on them. -/
  issued : List Issue

/-- What arrives at the route of the login. -/
structure LoginHttp where
  contentLength : Option ℕ
  jsonContentType : Bool
  body : RequestBody

inductive GatewayEvent
  | login (replica : ℕ) (request : LoginHttp) (utc : Timestamp)
  | arrive (replica : ℕ) (request : HttpRequest)
  | authenticate (n : ℕ) (utc : Timestamp)
  | count (n : ℕ) (clock : ℕ)
  | dispatch (n : ℕ) (oracle : Oracle)
  /-- The timeout layer, or a client that has gone. -/
  | abandon (n : ℕ)
  /-- Whatever else happens inside. -/
  | inside (e : Event)

inductive GatewayObs
  | loggedIn (response : LoginResponse)
  | refused (response : HttpResponse)
  | answered (n : ℕ) (response : HttpResponse)
  | inside (o : Obs)

/-- The limit of `RequestBodyLimitLayer`. -/
def announcesTooMuch (contentLength : Option ℕ) : Bool := contentLength.any (10 * 1024 * 1024 < ·)

/-- What the limiter's middleware does before it passes the request on. -/
def count (counters : Counters) (config : RateLimitConfig) (clock : ℕ) (request : HttpRequest) :
    Except HttpResponse (Option RateLimitInfo) × Counters :=
  match request.claims.map Claims.tenantId with
  | none => (.ok none, counters)
  | some tenantId =>
      match checkAndIncrement counters tenantId config clock with
      | (.ok info, counters) => (.ok (some info), counters)
      | (.error (), counters) => (.error (tooManyRequests config), counters)

/-- What the routes do before a handler runs. -/
def route (uuid : UuidParser) (request : HttpRequest) : Except HttpResponse (Claims × Request) :=
  match request.extract uuid, request.claims with
  | .error .methodNotAllowed, _ => .error Rejection.methodNotAllowed.intoResponse
  | _, none => .error Rejection.missingExtension.intoResponse
  | .error e, some _ => .error e.intoResponse
  | .ok req, some claims => .ok (claims, req)

/-- The response of a handler, on its way out through the limiter. -/
def withRateLimit (info : Option RateLimitInfo) (response : HttpResponse) : HttpResponse :=
  { response with headers := response.headers ++ (info.map rateLimitHeaders).getD [] }

/-- Handlers are started, and dropped, by the gateway. -/
def Event.ofRequest : Event → Bool
  | start .. => true
  | drop _ => true
  | _ => false

/-- The thread that hands out its response. -/
def Obs.finishes : Obs → Option (ℕ × Response)
  | responded id _ response => some (id.seq, response)
  | _ => none

namespace Gateway

variable (s : Gateway)

def setVisit (n : ℕ) (v : Option HttpVisit) : Gateway :=
  { s with visits := Function.update s.visits n v }

/-- The request is answered on its way in. -/
def answer (n : ℕ) (response : HttpResponse) : Gateway × List GatewayObs :=
  (s.setVisit n none, [.answered n response])

def config (replica : ℕ) : AppConfig := (s.api.replicas replica).config

/-- What becomes of the observations of the system: a response goes out with
the headers of the limiter. -/
def shows (s : Gateway) (o : Obs) : List GatewayObs :=
  match o.finishes with
  | none => [.inside o]
  | some (n, response) =>
      match s.visits n with
      | some ⟨_, _, .dispatched info⟩ =>
          [.inside o, .answered n (withRateLimit info (.of response))]
      | _ => [.inside o]

/-- The request of a thread that has responded is done with. -/
def close (s : Gateway) (o : Obs) : Gateway :=
  match o.finishes with
  | none => s
  | some (n, _) => s.setVisit n none

end Gateway

/-! ### The machine -/

section Gateway

variable (jwt : Jwt) (uuid : UuidParser)

/-- `POST /api/v1/auth/login` -/
def Gateway.login (s : Gateway) (replica : ℕ) (request : LoginHttp) (utc : Timestamp) :
    Gateway × List GatewayObs :=
  if announcesTooMuch request.contentLength then (s, [.refused Rejection.bodyTooLarge.intoResponse])
  else
    match readJson LoginRequest.deserialize LoginRequest.objection request.jsonContentType request.body with
    | .error e => (s, [.refused e.intoResponse])
    | .ok req =>
        match BackupService.login jwt (s.config replica) utc req with
        | .ok response =>
            ({ s with issued := s.issued ++
                [⟨response.token, (s.config replica).jwtSecret, req, utc⟩] }, [.loggedIn response])
        | .error e => (s, [.refused (.of e.intoResponse)])

/-- A request arrives, without extensions. -/
def Gateway.arrive (s : Gateway) (replica : ℕ) (request : HttpRequest) : Gateway × List GatewayObs :=
  if request.method = .options then (s, [.refused { status := 200, body := .text }])
  else if announcesTooMuch request.contentLength then
    (s, [.refused Rejection.bodyTooLarge.intoResponse])
  else
    ({ s with
        visits := Function.update s.visits s.arrivals
          (some ⟨replica, { request with claims := none }, .arrived⟩)
        arrivals := s.arrivals + 1 }, [])

def Gateway.authenticate (s : Gateway) (n : ℕ) (utc : Timestamp) : Gateway × List GatewayObs :=
  match s.visits n with
  | some ⟨replica, request, .arrived⟩ =>
      match BackupService.authenticate jwt.decode (s.config replica) utc request with
      | .error response => s.answer n response
      | .ok request => (s.setVisit n (some ⟨replica, request, .authenticated⟩), [])
  | _ => (s, [])

def Gateway.count (s : Gateway) (n clock : ℕ) : Gateway × List GatewayObs :=
  match s.visits n with
  | some ⟨replica, request, .authenticated⟩ =>
      match BackupService.count (s.counters replica) (s.config replica).rateLimit clock request with
      | (.error response, counters) =>
          ({ s with counters := Function.update s.counters replica counters }).answer n response
      | (.ok info, counters) =>
          ({ s with counters := Function.update s.counters replica counters }.setVisit n
            (some ⟨replica, request, .admitted info⟩), [])
  | _ => (s, [])

def Gateway.dispatch (s : Gateway) (n : ℕ) (oracle : Oracle) : Gateway × List GatewayObs :=
  match s.visits n with
  | some ⟨replica, request, .admitted info⟩ =>
      match route uuid request with
      | .error response => s.answer n (withRateLimit info response)
      | .ok (claims, req) =>
          ({ s with api := s.api.start replica n claims req oracle }.setVisit n
            (some ⟨replica, request, .dispatched info⟩), [])
  | _ => (s, [])

/-- A request that is given up takes its handler with it. -/
def Gateway.abandon (s : Gateway) (n : ℕ) : Gateway × List GatewayObs :=
  match s.visits n with
  | some ⟨_, request, .dispatched _⟩ =>
      match request.claims with
      | some claims =>
          ({ s with api := s.api.setThread ⟨claims.tenantId, n⟩ none }.setVisit n none, [])
      | none => (s.setVisit n none, [])
  | _ => (s.setVisit n none, [])

def Gateway.inside (s : Gateway) (e : Event) : Gateway × List GatewayObs :=
  if e.ofRequest then (s, [])
  else
    let (api, obs) := (system uuid).step s.api e
    ((obs.foldl Gateway.close { s with api }), obs.flatMap s.shows)

def gateway : Machine Gateway GatewayEvent GatewayObs where
  step s
    | .login replica request utc => s.login jwt replica request utc
    | .arrive replica request => s.arrive replica request
    | .authenticate n utc => s.authenticate jwt n utc
    | .count n clock => s.count n clock
    | .dispatch n oracle => s.dispatch uuid n oracle
    | .abandon n => s.abandon n
    | .inside e => s.inside uuid e

end Gateway

/-- Nobody has logged in, and no request has arrived. -/
def Gateway.initial (db : Table) (replicas : ℕ → Replica) : Gateway where
  api := .initial db replicas
  counters _ := .empty
  visits _ := none
  arrivals := 0
  issued := []

/-! ### What an event does -/

section Calls

variable (uuid : UuidParser) (s : Gateway)

def Gateway.dispatchCalls (n : ℕ) (oracle : Oracle) : List Event :=
  match s.visits n with
  | some ⟨replica, request, .admitted _⟩ =>
      match route uuid request with
      | .error _ => []
      | .ok (claims, req) => [.start replica n claims req oracle]
  | _ => []

def Gateway.abandonCalls (n : ℕ) : List Event :=
  match s.visits n with
  | some ⟨_, request, .dispatched _⟩ =>
      match request.claims with
      | some claims => [.drop ⟨claims.tenantId, n⟩]
      | none => []
  | _ => []

/-- What an event does to the system inside. -/
def GatewayEvent.calls : GatewayEvent → List Event
  | dispatch n oracle => s.dispatchCalls uuid n oracle
  | abandon n => s.abandonCalls n
  | inside e => if e.ofRequest then [] else [e]
  | _ => []

end Calls

/-- The moves of the gateway, observations apart. -/
inductive Gateway.Move (jwt : Jwt) (uuid : UuidParser) (s : Gateway) : GatewayEvent → Gateway → Prop
  | nothing {e : GatewayEvent} (hcalls : e.calls uuid s = []) : Move jwt uuid s e s
  | issued {replica : ℕ} {request : LoginHttp} {utc : Timestamp} {req : LoginRequest}
      {response : LoginResponse}
      (hreq : readJson LoginRequest.deserialize LoginRequest.objection request.jsonContentType request.body = .ok req)
      (hlogin : BackupService.login jwt (s.config replica) utc req = .ok response)
      (hshown : (s.login jwt replica request utc).2 = [.loggedIn response]) :
      Move jwt uuid s (.login replica request utc) { s with issued := s.issued ++
        [⟨response.token, (s.config replica).jwtSecret, req, utc⟩] }
  | arrived {replica : ℕ} {request : HttpRequest} :
      Move jwt uuid s (.arrive replica request) { s with
        visits := Function.update s.visits s.arrivals
          (some ⟨replica, { request with claims := none }, .arrived⟩)
        arrivals := s.arrivals + 1 }
  | authenticated {n replica : ℕ} {request request' : HttpRequest} {utc : Timestamp}
      (hvisit : s.visits n = some ⟨replica, request, .arrived⟩)
      (hok : BackupService.authenticate jwt.decode (s.config replica) utc request = .ok request') :
      Move jwt uuid s (.authenticate n utc) (s.setVisit n (some ⟨replica, request', .authenticated⟩))
  | admitted {n replica clock : ℕ} {request : HttpRequest} {info : Option RateLimitInfo}
      {counters : ℕ → Counters} (hvisit : s.visits n = some ⟨replica, request, .authenticated⟩) :
      Move jwt uuid s (.count n clock)
        ({ s with counters }.setVisit n (some ⟨replica, request, .admitted info⟩))
  | dispatched {n replica : ℕ} {request : HttpRequest} {info : Option RateLimitInfo}
      {oracle : Oracle} {claims : Claims} {req : Request}
      (hvisit : s.visits n = some ⟨replica, request, .admitted info⟩)
      (hroute : route uuid request = .ok (claims, req)) :
      Move jwt uuid s (.dispatch n oracle)
        ({ s with api := s.api.start replica n claims req oracle }.setVisit n
          (some ⟨replica, request, .dispatched info⟩))
  | gone {e : GatewayEvent} {n : ℕ} {counters : ℕ → Counters} (hcalls : e.calls uuid s = []) :
      Move jwt uuid s e ({ s with counters }.setVisit n none)
  | abandoned {n : ℕ} {claims : Claims} (hcalls : s.abandonCalls n = [.drop ⟨claims.tenantId, n⟩]) :
      Move jwt uuid s (.abandon n)
        ({ s with api := s.api.setThread ⟨claims.tenantId, n⟩ none }.setVisit n none)
  | inside {e : Event} {visits : ℕ → Option HttpVisit} (he : e.ofRequest = false)
      (hvisits : ∀ n v, visits n = some v → s.visits n = some v) :
      Move jwt uuid s (.inside e) { s with api := ((system uuid).step s.api e).1, visits }

section Steps

variable {jwt : Jwt} {uuid : UuidParser} {s s' : Gateway} {e : GatewayEvent}

theorem Gateway.setVisit_some {n m : ℕ} {v : Option HttpVisit} {v' : HttpVisit}
    (h : (s.setVisit n v).visits m = some v') :
    m = n ∧ v = some v' ∨ m ≠ n ∧ s.visits m = some v' := by
  by_cases hm : m = n
  · subst hm
    have hself : (s.setVisit m v).visits m = v := Function.update_self ..
    rw [hself] at h
    exact .inl ⟨rfl, h⟩
  · have hother : (s.setVisit n v).visits m = s.visits m := Function.update_of_ne hm _ _
    rw [hother] at h
    exact .inr ⟨hm, h⟩

/-- Closing requests does nothing else. -/
theorem Gateway.foldl_close (obs : List Obs) : ∃ visits, obs.foldl close s = { s with visits } ∧
    ∀ n v, visits n = some v → s.visits n = some v := by
  induction obs generalizing s with
  | nil => exact ⟨s.visits, rfl, fun _ _ h => h⟩
  | cons o obs ih =>
      have hclose : ∃ visits, s.close o = { s with visits } ∧
          ∀ n v, visits n = some v → s.visits n = some v := by
        unfold close
        split
        · exact ⟨s.visits, rfl, fun _ _ h => h⟩
        · refine ⟨_, rfl, fun n v h => ?_⟩
          rcases setVisit_some h with ⟨-, hnone⟩ | ⟨-, hold⟩
          · cases hnone
          · exact hold
      obtain ⟨visits, hclosed, hvisits⟩ := hclose
      obtain ⟨visits', hrest, hvisits'⟩ := ih (s := s.close o)
      refine ⟨visits', ?_, fun n v h => ?_⟩
      · rw [List.foldl_cons, hrest, hclosed]
      · have := hvisits' n v h
        rw [hclosed] at this
        exact hvisits n v this

variable (jwt uuid s e) in
/-- **What an event does.** -/
theorem gateway_move : s.Move jwt uuid e ((gateway jwt uuid).step s e).1 := by
  cases e with
  | login replica request utc =>
      show s.Move jwt uuid _ (s.login jwt replica request utc).1
      unfold Gateway.login
      split
      · exact .nothing rfl
      · next hlength =>
          split
          · exact .nothing rfl
          · next hreq =>
              split
              · next hlogin =>
                  refine .issued hreq hlogin ?_
                  simp only [Gateway.login, if_neg hlength, hreq, hlogin]
              · exact .nothing rfl
  | arrive replica request =>
      show s.Move jwt uuid _ (s.arrive replica request).1
      unfold Gateway.arrive
      split
      · exact .nothing rfl
      · split
        · exact .nothing rfl
        · exact .arrived
  | authenticate n utc =>
      show s.Move jwt uuid _ (s.authenticate jwt n utc).1
      unfold Gateway.authenticate
      split
      · next hvisit =>
          split
          · exact .gone rfl
          · next hok => exact .authenticated hvisit hok
      · exact .nothing rfl
  | count n clock =>
      show s.Move jwt uuid _ (s.count n clock).1
      unfold Gateway.count
      split
      · next hvisit =>
          split
          · exact .gone rfl
          · exact .admitted hvisit
      · exact .nothing rfl
  | dispatch n oracle =>
      show s.Move jwt uuid _ (s.dispatch uuid n oracle).1
      unfold Gateway.dispatch
      split
      · next hvisit =>
          split
          · next hroute =>
              refine .gone ?_
              show s.dispatchCalls uuid n oracle = []
              simp only [Gateway.dispatchCalls, hvisit, hroute]
          · next hroute => exact .dispatched hvisit hroute
      · next hvisit =>
          refine .nothing ?_
          show s.dispatchCalls uuid n oracle = []
          unfold Gateway.dispatchCalls
          split
          · next h => exact (hvisit _ _ _ h).elim
          · rfl
  | abandon n =>
      show s.Move jwt uuid _ (s.abandon n).1
      unfold Gateway.abandon
      split
      · next hvisit =>
          split
          · next hclaims =>
              refine .abandoned ?_
              simp only [Gateway.abandonCalls, hvisit, hclaims]
          · next hclaims =>
              refine .gone ?_
              show s.abandonCalls n = []
              simp only [Gateway.abandonCalls, hvisit, hclaims]
      · next hvisit =>
          refine .gone ?_
          show s.abandonCalls n = []
          unfold Gateway.abandonCalls
          split
          · next h => exact (hvisit _ _ _ h).elim
          · rfl
  | inside e =>
      show s.Move jwt uuid _ (s.inside uuid e).1
      unfold Gateway.inside
      split
      · next he => exact .nothing (if_pos he)
      · next he =>
          obtain ⟨visits, hclosed, hvisits⟩ := Gateway.foldl_close (s :=
            { s with api := ((system uuid).step s.api e).1 }) ((system uuid).step s.api e).2
          show s.Move jwt uuid _ (List.foldl Gateway.close
            { s with api := ((system uuid).step s.api e).1 } ((system uuid).step s.api e).2)
          rw [hclosed]
          exact .inside (by simpa using he) hvisits

/-- A request that all layers let through, with nothing in between, starts its
handler. -/
theorem run_passes {n replica clock : ℕ} {request request' : HttpRequest} {utc : Timestamp}
    {info : Option RateLimitInfo} {counters : Counters} {claims : Claims} {req : Request}
    (hvisit : s.visits n = some ⟨replica, request, .arrived⟩)
    (hauthenticated : authenticate jwt.decode (s.config replica) utc request = .ok request')
    (hadmitted : count (s.counters replica) (s.config replica).rateLimit clock request' =
      (.ok info, counters))
    (hroute : route uuid request' = .ok (claims, req)) (oracle : Oracle) :
    ((gateway jwt uuid).run s [.authenticate n utc, .count n clock, .dispatch n oracle]).api =
      s.api.start replica n claims req oracle := by
  have hself : ∀ (s : Gateway) (v : Option HttpVisit), (s.setVisit n v).visits n = v :=
    fun s v => Function.update_self ..
  have hfirst : (gateway jwt uuid).step s (.authenticate n utc) =
      (s.setVisit n (some ⟨replica, request', .authenticated⟩), []) := by
    show s.authenticate jwt n utc = _
    simp only [Gateway.authenticate, hvisit, hauthenticated]
  rw [Machine.run_cons, hfirst]
  generalize hs : s.setVisit n (some ⟨replica, request', .authenticated⟩) = s'
  have hapi : s'.api = s.api := hs ▸ rfl
  have hsecond : (gateway jwt uuid).step s' (.count n clock) =
      ({ s' with counters := Function.update s'.counters replica counters }.setVisit n
        (some ⟨replica, request', .admitted info⟩), []) := by
    have hvisit' : s'.visits n = some ⟨replica, request', .authenticated⟩ := hs ▸ hself ..
    have hcounters : s'.counters = s.counters := hs ▸ rfl
    have hconfig : s'.config = s.config := hs ▸ rfl
    rw [← hcounters, ← hconfig] at hadmitted
    show s'.count n clock = _
    simp only [Gateway.count, hvisit', hadmitted]
  rw [Machine.run_cons, hsecond]
  generalize ht : { s' with counters := Function.update s'.counters replica counters }.setVisit n
    (some ⟨replica, request', .admitted info⟩) = s''
  have hapi' : s''.api = s.api := ht ▸ hapi
  have hvisit'' : s''.visits n = some ⟨replica, request', .admitted info⟩ := ht ▸ hself ..
  rw [Machine.run_cons, Machine.run_nil]
  show (s''.dispatch uuid n oracle).1.api = _
  simp only [Gateway.dispatch, hvisit'', hroute, hapi']
  rfl

/-- The system makes the moves that the gateway asks it for. -/
theorem Gateway.Move.api (h : s.Move jwt uuid e s') :
    s'.api = (system uuid).run s.api (e.calls uuid s) := by
  cases h with
  | nothing hcalls => rw [hcalls]; rfl
  | gone hcalls => rw [hcalls]; rfl
  | issued | arrived | authenticated | admitted => rfl
  | @dispatched n replica request info oracle claims req hvisit hroute =>
      have hcalls : s.dispatchCalls uuid n oracle = [.start replica n claims req oracle] := by
        simp only [Gateway.dispatchCalls, hvisit, hroute]
      show _ = (system uuid).run s.api (s.dispatchCalls uuid n oracle)
      rw [hcalls]
      rfl
  | @abandoned n claims hcalls =>
      show _ = (system uuid).run s.api (s.abandonCalls n)
      rw [hcalls]
      rfl
  | @inside e visits he hvisits =>
      show _ = (system uuid).run s.api (if e.ofRequest then [] else [e])
      rw [if_neg (by simp [he])]
      rfl

end Steps

/-! ### Runs of the system inside -/

section Inside

variable {jwt : Jwt} {uuid : UuidParser}

/-- What neither starts nor drops a handler happens inside as it does
without the gateway. -/
theorem run_inside (s : Gateway) {es : List Event} (hes : ∀ e ∈ es, e.ofRequest = false) :
    ((gateway jwt uuid).run s (es.map .inside)).api = (system uuid).run s.api es := by
  induction es generalizing s with
  | nil => rfl
  | cons e es ih =>
      obtain ⟨he, hes⟩ := List.forall_mem_cons.mp hes
      have hcalls : (GatewayEvent.inside e).calls uuid s = [e] := if_neg (by simp [he])
      rw [List.map_cons, Machine.run_cons, ih _ hes, (gateway_move jwt uuid s (.inside e)).api, hcalls]
      rfl

/-- The handler of the request has not been started. -/
def Passage.waits : Passage → Bool
  | dispatched _ => false
  | _ => true

/-- The names of the requests that handlers have been started for. -/
structure Gateway.Named (s : Gateway) (names : List ReqId) : Prop where
  nodup : names.Nodup
  below : ∀ id ∈ names, id.seq < s.arrivals
  visits : ∀ n v, s.visits n = some v → n < s.arrivals
  waiting : ∀ n v, s.visits n = some v → v.progress.waits = true → ∀ id ∈ names, id.seq ≠ n

section Step

variable {s s' : Gateway} {e : GatewayEvent} {names : List ReqId}

/-- A request that is further on has kept its number. -/
theorem Gateway.Named.setVisit (h : s.Named names) {n : ℕ} {v v' : HttpVisit}
    (hvisit : s.visits n = some v) (hwaits : v.progress.waits = true) :
    (s.setVisit n (some v')).Named names where
  nodup := h.nodup
  below := h.below
  visits m w hw := by
    rcases Gateway.setVisit_some hw with ⟨rfl, -⟩ | ⟨-, hold⟩
    · exact h.visits m v hvisit
    · exact h.visits m w hold
  waiting m w hw hwaits' := by
    rcases Gateway.setVisit_some hw with ⟨rfl, -⟩ | ⟨-, hold⟩
    · exact h.waiting m v hvisit hwaits
    · exact h.waiting m w hold hwaits'

/-- Requests may go. -/
theorem Gateway.Named.fewer (h : s.Named names) (harrivals : s'.arrivals = s.arrivals)
    (hvisits : ∀ n v, s'.visits n = some v → s.visits n = some v) : s'.Named names where
  nodup := h.nodup
  below id hid := harrivals ▸ h.below id hid
  visits n v hv := harrivals ▸ h.visits n v (hvisits n v hv)
  waiting n v hv := h.waiting n v (hvisits n v hv)

/-- No handler is started. -/
theorem Gateway.Named.silent (h : s'.Named names)
    (hcalls : (e.calls uuid s).filterMap Event.name = []) :
    s'.Named (names ++ (e.calls uuid s).filterMap Event.name) := by
  rw [hcalls, List.append_nil]
  exact h

theorem name_of_not_ofRequest {e : Event} (h : e.ofRequest = false) : e.name = none := by
  cases e with
  | start => cases h
  | step | drop | rpc | configUpdate | expire | advance => rfl

theorem Gateway.Named.step (h : s.Named names) (hmove : s.Move jwt uuid e s') :
    s'.Named (names ++ (e.calls uuid s).filterMap Event.name) := by
  have hgone : ∀ (n m : ℕ) (v : HttpVisit),
      (s.setVisit n none).visits m = some v → s.visits m = some v := by
    intro n m v hv
    rcases Gateway.setVisit_some hv with ⟨-, hnone⟩ | ⟨-, hold⟩
    · cases hnone
    · exact hold
  cases hmove with
  | nothing hcalls => exact h.silent (by rw [hcalls]; rfl)
  | gone hcalls =>
      refine Gateway.Named.silent ?_ (by rw [hcalls]; rfl)
      exact h.fewer rfl (hgone _)
  | issued hreq hlogin =>
      refine Gateway.Named.silent ?_ rfl
      exact h.fewer rfl fun _ _ hv => hv
  | authenticated hvisit hok => exact (h.setVisit hvisit rfl).silent rfl
  | admitted hvisit =>
      refine Gateway.Named.silent (Gateway.Named.setVisit ?_ hvisit rfl) rfl
      exact h.fewer rfl fun _ _ hv => hv
  | abandoned hcalls =>
      refine Gateway.Named.silent ?_ (congrArg (List.filterMap Event.name) hcalls)
      exact h.fewer rfl (hgone _)
  | @inside e visits he hvisits =>
      refine Gateway.Named.silent ?_ ?_
      · exact h.fewer rfl hvisits
      · show List.filterMap Event.name (if e.ofRequest then [] else [e]) = []
        rw [if_neg (by simp [he]), List.filterMap_cons_none (name_of_not_ofRequest he)]
        rfl
  | @arrived replica request =>
      refine Gateway.Named.silent ⟨h.nodup, fun id hid => Nat.lt_succ_of_lt (h.below id hid),
        fun n v hv => ?_, fun n v hv hwaits id hid => ?_⟩ rfl
      · rcases Gateway.setVisit_some (s := s) hv with ⟨rfl, -⟩ | ⟨-, hold⟩
        · exact Nat.lt_succ_self _
        · exact Nat.lt_succ_of_lt (h.visits n v hold)
      · rcases Gateway.setVisit_some (s := s) hv with ⟨rfl, -⟩ | ⟨-, hold⟩
        · exact Nat.ne_of_lt (h.below id hid)
        · exact h.waiting n v hold hwaits id hid
  | @dispatched n replica request info oracle claims req hvisit hroute =>
      have hcalls : s.dispatchCalls uuid n oracle = [.start replica n claims req oracle] := by
        simp only [Gateway.dispatchCalls, hvisit, hroute]
      rw [show ((GatewayEvent.dispatch n oracle).calls uuid s).filterMap Event.name =
        [⟨claims.tenantId, n⟩] from congrArg (List.filterMap Event.name) hcalls]
      refine ⟨?_, fun id hid => ?_, fun m v hv => ?_, fun m v hv hwaits id hid => ?_⟩
      · refine List.nodup_append.mpr ⟨h.nodup, List.nodup_singleton _, fun id hid id' hid' heq => ?_⟩
        obtain rfl := List.mem_singleton.mp hid'
        exact h.waiting n _ hvisit rfl id hid (congrArg ReqId.seq heq)
      · rcases List.mem_append.mp hid with hid | hid
        · exact h.below id hid
        · rw [List.mem_singleton.mp hid]
          exact h.visits n _ hvisit
      · rcases Gateway.setVisit_some hv with ⟨rfl, -⟩ | ⟨-, hold⟩
        · exact h.visits m _ hvisit
        · exact h.visits m v hold
      · rcases Gateway.setVisit_some hv with ⟨-, hnew⟩ | ⟨hm, hold⟩
        · -- The request has just been dispatched, so it does not wait.
          obtain rfl := Option.some.inj hnew
          cases hwaits
        · rcases List.mem_append.mp hid with hid | hid
          · exact h.waiting m v hold hwaits id hid
          · rw [List.mem_singleton.mp hid]
            exact Ne.symm hm

end Step

variable (jwt uuid) in
/-- The events of the system in a run of the gateway. -/
def Gateway.calls (s : Gateway) (es : List GatewayEvent) : List Event :=
  (gateway jwt uuid).gather (GatewayEvent.calls uuid) s es

/-- **The gateway runs the system**, and gives no two requests one name. -/
theorem gateway_run (db : Table) (replicas : ℕ → Replica) (es : List GatewayEvent) :
    ((gateway jwt uuid).run (.initial db replicas) es).api =
        (system uuid).run (.initial db replicas)
          ((Gateway.initial db replicas).calls jwt uuid es) ∧
      (((Gateway.initial db replicas).calls jwt uuid es).filterMap Event.name).Nodup := by
  have hrun : ((gateway jwt uuid).run (.initial db replicas) es).api =
        (system uuid).run (.initial db replicas) ((Gateway.initial db replicas).calls jwt uuid es) ∧
      ((gateway jwt uuid).run (.initial db replicas) es).Named
        (((Gateway.initial db replicas).calls jwt uuid es).filterMap Event.name) := by
    induction es using List.reverseRecOn with
    | nil =>
        refine ⟨rfl, List.nodup_nil, fun id hid => absurd hid List.not_mem_nil, fun n v hv => ?_,
          fun n v hv => ?_⟩
        · cases hv
        · cases hv
    | append_singleton es e ih =>
        obtain ⟨hapi, hnamed⟩ := ih
        have hmove := gateway_move jwt uuid ((gateway jwt uuid).run (.initial db replicas) es) e
        rw [Gateway.calls, Machine.gather_concat, ← Gateway.calls, Machine.run_concat,
          List.filterMap_append]
        refine ⟨?_, hnamed.step hmove⟩
        rw [hmove.api, hapi, Machine.run_append]
  exact ⟨hrun.1, hrun.2.nodup⟩

end Inside

/-! ### Where claims come from -/

section Claims

variable (jwt : Jwt)

/-- A token that is presented, and that can be decoded, has been given out. -/
def Unforged (s : Gateway) : GatewayEvent → Prop
  | .authenticate n utc => ∀ v token claims, s.visits n = some v → v.request.bearerToken = some token →
      jwt.decode token (s.config v.replica).jwtSecret utc = .ok claims →
        ∃ i ∈ s.issued, i.token = token ∧ i.secret = (s.config v.replica).jwtSecret
  | _ => True

/-- A login that is answered with a token for these claims. -/
def Gateway.LogsIn (s : Gateway) (claims : Claims) : GatewayEvent → Prop
  | .login replica request now => ∃ req roles response,
      readJson LoginRequest.deserialize LoginRequest.objection request.jsonContentType request.body = .ok req ∧
        req.roles = some roles ∧ claims = tokenClaims req.username demoTenant roles now ∧
        (s.login jwt replica request now).2 = [.loggedIn response] ∧
        jwt.encode claims (s.config replica).jwtSecret = .ok response.token
  | _ => False

/-- In the run from `s₀`, the request `n` has been authenticated after such a
login, in time. -/
def Vouched (uuid : UuidParser) (s₀ : Gateway) (es : List GatewayEvent) (n : ℕ) (claims : Claims) :
    Prop :=
  ∃ before login between utc after, es = before ++ login :: (between ++ .authenticate n utc :: after) ∧
    ((gateway jwt uuid).run s₀ before).LogsIn jwt claims login ∧ timestamp utc ≤ claims.exp + 60

variable {jwt} {uuid : UuidParser} {s₀ s s' : Gateway} {e : GatewayEvent} {es : List GatewayEvent}

theorem Vouched.concat {n : ℕ} {claims : Claims} (h : Vouched jwt uuid s₀ es n claims) :
    Vouched jwt uuid s₀ (es ++ [e]) n claims := by
  obtain ⟨before, login, between, utc, after, rfl, hlogin, htime⟩ := h
  refine ⟨before, login, between, utc, after ++ [e], ?_, hlogin, htime⟩
  simp only [List.append_assoc, List.cons_append]

theorem Vouched.tenant {n : ℕ} {claims : Claims} (h : Vouched jwt uuid s₀ es n claims) :
    claims.tenantId = demoTenant := by
  obtain ⟨before, login, between, utc, after, -, hlogin, -⟩ := h
  cases login with
  | login replica request now =>
      obtain ⟨req, roles, response, -, -, rfl, -⟩ := hlogin
      rfl
  | arrive | authenticate | count | dispatch | abandon | inside => exact hlogin.elim

/-- What has been seen to by the events so far. -/
structure Gateway.Sound (jwt : Jwt) (uuid : UuidParser) (s s₀ : Gateway) (es : List GatewayEvent) :
    Prop where
  run : s = (gateway jwt uuid).run s₀ es
  issued : ∀ i ∈ s.issued, ∃ claims, jwt.encode claims i.secret = .ok i.token ∧
    ∃ before login after, es = before ++ login :: after ∧
      ((gateway jwt uuid).run s₀ before).LogsIn jwt claims login
  visits : ∀ n v, s.visits n = some v → v.progress = .arrived ∨
    ∃ claims, v.request.claims = some claims ∧ Vouched jwt uuid s₀ es n claims
  threads : ∀ id th, s.api.inflight id = some th → Vouched jwt uuid s₀ es id.seq th.claims

/-- Who is authenticated has logged in. -/
theorem Gateway.Sound.vouched (h : s.Sound jwt uuid s₀ es) {n replica : ℕ} {request request' : HttpRequest}
    {utc : Timestamp} (hunforged : Unforged jwt s (.authenticate n utc))
    (hvisit : s.visits n = some ⟨replica, request, .arrived⟩)
    (hok : BackupService.authenticate jwt.decode (s.config replica) utc request = .ok request') :
    ∃ claims, request'.claims = some claims ∧ Vouched jwt uuid s₀ (es ++ [.authenticate n utc]) n claims := by
  obtain ⟨token, claims, htoken, hdecode, rfl⟩ := authenticate_eq_ok.mp hok
  obtain ⟨i, hi, rfl, hsecret⟩ := hunforged _ token claims hvisit htoken hdecode
  obtain ⟨claims', hencode, before, login, between, rfl, hlogs⟩ := h.issued i hi
  have hread := jwt.decode_encode hencode utc
  rw [hsecret] at hread
  rw [hread] at hdecode
  split at hdecode
  · next htime =>
      obtain rfl := Except.ok.inj hdecode
      refine ⟨_, rfl, before, login, between, utc, [], ?_, hlogs, htime⟩
      simp only [List.append_assoc, List.cons_append]
  · cases hdecode

/-- The threads of the system, after an event that is not the start of one. -/
theorem Gateway.Sound.threads_step (h : s.Sound jwt uuid s₀ es) (e : Event)
    {e' : GatewayEvent} (he : ∀ replica seq claims request oracle, e = .start replica seq claims request oracle →
      Vouched jwt uuid s₀ (es ++ [e']) seq claims) :
    ∀ id th, ((system uuid).step s.api e).1.inflight id = some th →
      Vouched jwt uuid s₀ (es ++ [e']) id.seq th.claims := by
  intro id th hth
  obtain hold | ⟨replica, seq, claims, request, oracle, rfl, rfl, rfl⟩ |
    ⟨env, th₀, o, k, -, hold, -, rfl⟩ := step_inflight hth
  · exact (h.threads id th hold).concat
  · exact he _ _ _ _ _ rfl
  · exact (h.threads id th₀ hold).concat

theorem Gateway.Sound.step (h : s.Sound jwt uuid s₀ es) (hunforged : Unforged jwt s e) :
    ((gateway jwt uuid).step s e).1.Sound jwt uuid s₀ (es ++ [e]) := by
  have hmove := gateway_move jwt uuid s e
  have hrun : ((gateway jwt uuid).step s e).1 = (gateway jwt uuid).run s₀ (es ++ [e]) := by
    rw [Machine.run_concat, ← h.run]
  generalize ((gateway jwt uuid).step s e).1 = s' at hmove hrun
  have hissued : ∀ i ∈ s.issued, ∃ claims, jwt.encode claims i.secret = .ok i.token ∧
      ∃ before login after, es ++ [e] = before ++ login :: after ∧
        ((gateway jwt uuid).run s₀ before).LogsIn jwt claims login := by
    intro i hi
    obtain ⟨claims, hencode, before, login, after, rfl, hlogs⟩ := h.issued i hi
    exact ⟨claims, hencode, before, login, after ++ [e], by simp, hlogs⟩
  have hkept : ∀ n v, s.visits n = some v → v.progress = .arrived ∨
      ∃ claims, v.request.claims = some claims ∧ Vouched jwt uuid s₀ (es ++ [e]) n claims := by
    intro n v hv
    refine (h.visits n v hv).imp id ?_
    rintro ⟨claims, hclaims, hvouched⟩
    exact ⟨claims, hclaims, hvouched.concat⟩
  have hthreads : ∀ id th, s.api.inflight id = some th → Vouched jwt uuid s₀ (es ++ [e]) id.seq th.claims :=
    fun id th hth => (h.threads id th hth).concat
  -- A request that is set to something new, among those that are kept.
  have hset : ∀ (n : ℕ) (v : HttpVisit), (v.progress = .arrived ∨
      ∃ claims, v.request.claims = some claims ∧ Vouched jwt uuid s₀ (es ++ [e]) n claims) →
      ∀ m w, (s.setVisit n (some v)).visits m = some w → w.progress = .arrived ∨
        ∃ claims, w.request.claims = some claims ∧ Vouched jwt uuid s₀ (es ++ [e]) m claims := by
    intro n v hv m w hw
    rcases Gateway.setVisit_some hw with ⟨rfl, hnew⟩ | ⟨-, hold⟩
    · obtain rfl := Option.some.inj hnew
      exact hv
    · exact hkept m w hold
  have hgone : ∀ n m w, (s.setVisit n none).visits m = some w → w.progress = .arrived ∨
      ∃ claims, w.request.claims = some claims ∧ Vouched jwt uuid s₀ (es ++ [e]) m claims := by
    intro n m w hw
    rcases Gateway.setVisit_some hw with ⟨-, hnone⟩ | ⟨-, hold⟩
    · cases hnone
    · exact hkept m w hold
  cases hmove with
  | nothing hcalls => exact ⟨hrun, hissued, hkept, hthreads⟩
  | gone hcalls => exact ⟨hrun, hissued, hgone _, hthreads⟩
  | issued hreq hlogin hshown =>
      refine ⟨hrun, fun i hi => ?_, hkept, hthreads⟩
      rcases List.mem_append.mp hi with hi | hi
      · exact hissued i hi
      · obtain rfl := List.mem_singleton.mp hi
        obtain ⟨roles, hroles, hencode, -, -⟩ := login_eq_ok.mp hlogin
        refine ⟨_, hencode, es, _, [], rfl, ?_⟩
        rw [← h.run]
        exact ⟨_, roles, _, hreq, hroles, rfl, hshown, hencode⟩
  | arrived => exact ⟨hrun, hissued, hset s.arrivals _ (.inl rfl), hthreads⟩
  | authenticated hvisit hok =>
      exact ⟨hrun, hissued, hset _ _ (.inr (h.vouched hunforged hvisit hok)), hthreads⟩
  | admitted hvisit =>
      refine ⟨hrun, hissued, hset _ _ (.inr ?_), hthreads⟩
      exact (hkept _ _ hvisit).resolve_left fun hprogress => by cases hprogress
  | @dispatched n replica request info oracle claims req hvisit hroute =>
      obtain ⟨claims', hclaims, hvouched⟩ :=
        (hkept _ _ hvisit).resolve_left fun hprogress => by cases hprogress
      refine ⟨hrun, hissued, hset _ _ (.inr ⟨claims', hclaims, hvouched⟩), ?_⟩
      have hroutes : claims' = claims := by
        change request.claims = some claims' at hclaims
        unfold route at hroute
        split at hroute
        · cases hroute
        · cases hroute
        · cases hroute
        · next hsome =>
            rw [hclaims] at hsome
            rw [Option.some.inj hsome]
            exact (Prod.mk.inj (Except.ok.inj hroute)).1
      subst hroutes
      exact h.threads_step (.start replica n claims' req oracle)
        fun _ _ _ _ _ heq => by
          cases heq
          exact hvouched
  | @abandoned n claims hcalls =>
      refine ⟨hrun, hissued, hgone n, ?_⟩
      exact h.threads_step (.drop ⟨claims.tenantId, n⟩) fun _ _ _ _ _ heq => by
        cases heq
  | @inside e visits he hvisits =>
      refine ⟨hrun, hissued, fun n v hv => hkept n v (hvisits n v hv), h.threads_step e ?_⟩
      rintro _ _ _ _ _ rfl
      cases he

theorem gateway_sound {db : Table} {replicas : ℕ → Replica}
    (hes : (gateway jwt uuid).Along (Unforged jwt) (.initial db replicas) es) :
    ((gateway jwt uuid).run (.initial db replicas) es).Sound jwt uuid (.initial db replicas) es := by
  induction es using List.reverseRecOn with
  | nil =>
      refine ⟨rfl, fun i hi => absurd hi List.not_mem_nil, fun n v hv => ?_, fun id th hth => ?_⟩
      · cases hv
      · cases hth
  | append_singleton es e ih =>
      obtain ⟨hes, he⟩ := Machine.along_append.mp hes
      rw [Machine.run_concat]
      exact (ih hes).step he.1

/-- **Nobody is served who has not logged in.** If no token is made up, then
the claims of every handler that is run, at any time, on any replica, are
those of one of the two users who can log in: one who has sent its password,
and was answered with a token for these claims, at most 24 hours and a minute
before the request of that handler was authenticated. -/
theorem handlers_vouched {db : Table} {replicas : ℕ → Replica}
    (hes : (gateway jwt uuid).Along (Unforged jwt) (.initial db replicas) es) {id : ReqId} {th : Thread}
    (hth : ((gateway jwt uuid).run (.initial db replicas) es).api.inflight id = some th) :
    ∃ before replica request now between utc after user roles,
      es = before ++ .login replica request now :: (between ++ .authenticate id.seq utc :: after) ∧
      readJson LoginRequest.deserialize LoginRequest.objection request.jsonContentType request.body = .ok ⟨user, user⟩ ∧
      (user, roles) ∈ [("admin", ["admin", "user"]), ("user", ["user"])] ∧
      th.claims = tokenClaims user demoTenant roles now ∧
      (∃ response, ((gateway jwt uuid).step ((gateway jwt uuid).run (.initial db replicas) before)
          (.login replica request now)).2 = [.loggedIn response] ∧
        jwt.encode th.claims (((gateway jwt uuid).run (.initial db replicas) before).config
          replica).jwtSecret = .ok response.token) ∧
      timestamp utc ≤ timestamp now + 24 * 60 * 60 + 60 := by
  obtain ⟨before, login, between, utc, after, rfl, hlogin, htime⟩ := (gateway_sound hes).threads id th hth
  cases login with
  | login replica request now =>
      obtain ⟨⟨username, password⟩, roles, response, hreq, hroles, hclaims, hshown, hencode⟩ := hlogin
      rw [hclaims, tokenClaims_exp] at htime
      unfold LoginRequest.roles at hroles
      split at hroles
      · next hadmin =>
          obtain ⟨rfl, rfl⟩ := hadmin
          obtain rfl := Option.some.inj hroles
          exact ⟨before, replica, request, now, between, utc, after, _, _, rfl, hreq,
            List.mem_cons_self, hclaims,
            ⟨response, hshown, hencode⟩, htime⟩
      · split at hroles
        · next huser =>
            obtain ⟨rfl, rfl⟩ := huser
            obtain rfl := Option.some.inj hroles
            exact ⟨before, replica, request, now, between, utc, after, _, _, rfl, hreq,
              List.mem_cons_of_mem _ List.mem_cons_self, hclaims,
              ⟨response, hshown, hencode⟩, htime⟩
        · cases hroles
  | arrive | authenticate | count | dispatch | abandon | inside => exact hlogin.elim

end Claims

/-! ### The rows of other tenants -/

section Others

variable {uuid : UuidParser} {id : Uuid}

/-- A row of a tenant whose users cannot log in. -/
def Table.foreign (t : Table) (id : Uuid) : Option Backup :=
  (t.find id).filter fun r => r.tenantId ≠ demoTenant

theorem foreign_congr {t t' : Table} (h : t'.find id = t.find id) : t'.foreign id = t.foreign id := by
  rw [Table.foreign, h, Table.foreign]

/-- The identifier a callback writes to is the one it names. -/
theorem written_statement {call : Rpc} {id' : Uuid}
    {r : Except SqlError (call.statement id').Answer} (h : (call.statement id').written r = some id) :
    id' = id := by
  have hif : ∀ n : ℕ, (if n = 0 then none else some id') = some id → id' = id := by
    intro n hn
    split at hn
    · cases hn
    · exact Option.some.inj hn
  cases call with
  | updateStatus msg =>
      cases r with
      | error e => cases h
      | ok n => exact hif n h
  | reportResult result =>
      by_cases hs : result.status = "completed"
      · have hstatement : (Rpc.reportResult result).statement id' = .setCompleted id' result.sizeBytes :=
          if_pos hs
        revert r
        rw [hstatement]
        intro r h
        cases r with
        | error e => cases h
        | ok n => exact hif n h
      · have hstatement : (Rpc.reportResult result).statement id' = .setFailed id' := if_neg hs
        revert r
        rw [hstatement]
        intro r h
        cases r with
        | error e => cases h
        | ok n => exact hif n h

/-- A write of a user that can log in leaves foreign rows alone, and a
callback leaves them with their tenants. -/
theorem foreign_takes {w : Write} {t t' : Table} (h : w.Takes id (t.find id) (t'.find id))
    (hw : ∀ claims request oracle, w = .request claims request oracle →
      claims.tenantId = demoTenant) :
    (t'.foreign id).map Backup.tenantId = (t.foreign id).map Backup.tenantId ∧
      ((∃ claims request oracle, w = .request claims request oracle) →
        t'.foreign id = t.foreign id) := by
  unfold Table.foreign
  generalize t.find id = row at h
  generalize t'.find id = row' at h
  cases h with
  | created hpath hid => simp [newBackup, hw _ _ _ rfl]
  | patched htenant =>
      have hdemo := htenant.trans (hw _ _ _ rfl)
      simp [Option.filter_some, hdemo]
  | deleted htenant =>
      have hdemo := htenant.trans (hw _ _ _ rfl)
      simp [Option.filter_some, hdemo]
  | @called call now r =>
      refine ⟨?_, by rintro ⟨_, _, _, hrequest⟩; cases hrequest⟩
      by_cases hdemo : r.tenantId = demoTenant <;> simp [Option.filter_some, hdemo]

/-- **What an event of the system does to foreign rows**, when all threads are
those of users that can log in. -/
theorem foreign_step (uuid : UuidParser) {s : State} (hissuing : s.Issuing)
    (hthreads : ∀ id th, s.inflight id = some th → th.claims.tenantId = demoTenant) (e : Event)
    (id : Uuid) : (((system uuid).step s e).1.store.db.foreign id).map Backup.tenantId =
        (s.store.db.foreign id).map Backup.tenantId ∧
      ((∀ rpc oracle env, e = .rpc rpc oracle env → uuid.parse rpc.backupId ≠ .ok id) →
        ((system uuid).step s e).1.store.db.foreign id = s.store.db.foreign id) := by
  rcases step_find uuid hissuing e id with ⟨w, hcommitted, htakes⟩ | ⟨-, hsame⟩
  · cases e with
    | step rid env =>
        have hw : ∃ th, s.inflight rid = some th ∧ w = .request th.claims th.request th.oracle := by
          simp only [State.committed] at hcommitted
          split at hcommitted
          · cases hcommitted
          · next th hth =>
              split at hcommitted
              · obtain ⟨id', -, heq⟩ := Option.map_eq_some_iff.mp hcommitted
                exact ⟨th, hth, (Prod.mk.inj heq).2.symm⟩
              · cases hcommitted
        obtain ⟨th, hth, rfl⟩ := hw
        obtain ⟨htenant, hsame⟩ := foreign_takes htakes fun claims request oracle heq => by
          cases heq
          exact hthreads rid th hth
        exact ⟨htenant, fun _ => hsame ⟨_, _, _, rfl⟩⟩
    | rpc call oracle env =>
        have hw : w = .callback call ∧ uuid.parse call.backupId = .ok id := by
          simp only [State.committed] at hcommitted
          split at hcommitted
          · cases hcommitted
          · next id' hparse =>
              obtain ⟨id'', hwritten, heq⟩ := Option.map_eq_some_iff.mp hcommitted
              obtain ⟨rfl, rfl⟩ := Prod.mk.inj heq
              refine ⟨rfl, ?_⟩
              rw [hparse]
              unfold Env.committed at hwritten
              split at hwritten
              · cases hwritten
              · exact congrArg _ (written_statement hwritten)
              · exact congrArg _ (written_statement hwritten)
        obtain ⟨rfl, hparse⟩ := hw
        obtain ⟨htenant, -⟩ := foreign_takes htakes fun claims request oracle heq => by cases heq
        exact ⟨htenant, fun hnot => absurd hparse (hnot _ _ _ rfl)⟩
    | start | drop | configUpdate | expire | advance => cases hcommitted
  · rw [foreign_congr hsame]
    exact ⟨rfl, fun _ => rfl⟩

/-- The system makes at most one step at a time. -/
theorem Gateway.Move.api_step {jwt : Jwt} {s s' : Gateway} {e : GatewayEvent}
    (h : s.Move jwt uuid e s') : s'.api = s.api ∨
      ∃ e', s'.api = ((system uuid).step s.api e').1 ∧
        ∀ rpc oracle env, e' = .rpc rpc oracle env → e = .inside (.rpc rpc oracle env) := by
  cases h with
  | nothing | gone | issued | arrived | authenticated | admitted => exact .inl rfl
  | @dispatched n replica request info oracle claims req hvisit hroute =>
      exact .inr ⟨.start replica n claims req oracle, rfl, fun _ _ _ heq => by cases heq⟩
  | @abandoned n claims hcalls =>
      exact .inr ⟨.drop ⟨claims.tenantId, n⟩, rfl, fun _ _ _ heq => by cases heq⟩
  | @inside e visits he hvisits =>
      exact .inr ⟨e, rfl, fun _ _ _ heq => congrArg _ heq⟩

/-- **Other tenants are left alone.** If no token is made up, then whatever
requests are made, no row comes into being for a tenant other than that of
the users who can log in, none of theirs goes, and what becomes of one is the
work of callbacks that name it. -/
theorem others_kept {jwt : Jwt} {db : Table} {replicas : ℕ → Replica} {es : List GatewayEvent}
    (hes : (gateway jwt uuid).Along (Unforged jwt) (.initial db replicas) es) (id : Uuid) :
    (((gateway jwt uuid).run (.initial db replicas) es).api.store.db.foreign id).map Backup.tenantId =
        (db.foreign id).map Backup.tenantId ∧
      ((∀ rpc oracle env, .inside (.rpc rpc oracle env) ∈ es → uuid.parse rpc.backupId ≠ .ok id) →
        ((gateway jwt uuid).run (.initial db replicas) es).api.store.db.foreign id = db.foreign id) := by
  have hrun : ((gateway jwt uuid).run (.initial db replicas) es).api.Issuing ∧
      (((gateway jwt uuid).run (.initial db replicas) es).api.store.db.foreign id).map
          Backup.tenantId = (db.foreign id).map Backup.tenantId ∧
        ((∀ rpc oracle env, .inside (.rpc rpc oracle env) ∈ es → uuid.parse rpc.backupId ≠ .ok id) →
          ((gateway jwt uuid).run (.initial db replicas) es).api.store.db.foreign id =
            db.foreign id) := by
    induction es using List.reverseRecOn with
    | nil => exact ⟨issuing_initial db replicas, rfl, fun _ => rfl⟩
    | append_singleton es e ih =>
        obtain ⟨hes, he⟩ := Machine.along_append.mp hes
        obtain ⟨hissuing, htenant, hsame⟩ := ih hes
        have hthreads : ∀ rid th,
            ((gateway jwt uuid).run (.initial db replicas) es).api.inflight rid = some th →
              th.claims.tenantId = demoTenant :=
          fun rid th hth => ((gateway_sound hes).threads rid th hth).tenant
        have hbefore : (∀ rpc oracle env, .inside (.rpc rpc oracle env) ∈ es ++ [e] →
            uuid.parse rpc.backupId ≠ .ok id) → ∀ rpc oracle env,
              .inside (.rpc rpc oracle env) ∈ es → uuid.parse rpc.backupId ≠ .ok id :=
          fun hnot rpc oracle env hmem => hnot rpc oracle env (List.mem_append_left _ hmem)
        rw [Machine.run_concat]
        rcases (gateway_move jwt uuid ((gateway jwt uuid).run (.initial db replicas) es) e).api_step
          with hapi | ⟨e', hapi, hrpc⟩
        · rw [hapi]
          exact ⟨hissuing, htenant, fun hnot => hsame (hbefore hnot)⟩
        · obtain ⟨htenant', hsame'⟩ := foreign_step uuid hissuing hthreads e' id
          rw [hapi]
          refine ⟨issuing_step hissuing e', htenant'.trans htenant, fun hnot => ?_⟩
          rw [hsame' fun rpc oracle env heq => hnot rpc oracle env (List.mem_append_right _ ?_)]
          · exact hsame (hbefore hnot)
          · rw [hrpc rpc oracle env heq]
            exact List.mem_singleton_self _
  exact hrun.2

end Others

section AdminVisit

/-- `admin` logs in and makes a request. -/
def adminEvents (request : HttpRequest) : List GatewayEvent :=
  [.login 0 ⟨none, true,
      .json (.object [("username", .string "admin"), ("password", .string "admin")])⟩ 0,
    .arrive 0 request, .authenticate 0 (secs 5), .count 0 0, .dispatch 0 ⟨⟨8⟩, 0⟩]

/-- `POST /api/v1/backups` with the token. -/
def adminPost : HttpRequest :=
  { adminRequest with
    method := .post
    jsonContentType := true
    body := .json (.object [("source_path", .string "/data")]) }

/-- The list of the backups is asked for. -/
def adminVisit : List GatewayEvent := adminEvents adminRequest

/-- A backup is created. -/
def adminCreates : List GatewayEvent :=
  adminEvents adminPost ++ (List.replicate 3 (.step ⟨demoTenant, 0⟩ {})).map .inside

section Admin

variable {db : Table} {request : HttpRequest}

theorem bearerToken_admin (hauthorization : request.authorization = some adminLogin.authorization) :
    request.bearerToken = some adminToken :=
  bearerToken_authorization (show adminLogin.tokenType = "Bearer" from rfl)
    (@Jwt.visible Jwt.admin adminClaims AppConfig.default.jwtSecret adminToken rfl) hauthorization

theorem authenticate_admin (hauthorization : request.authorization = some adminLogin.authorization) :
    authenticate Jwt.admin.decode .default (secs 5) { request with claims := none } =
      .ok { request with claims := some adminClaims } := by
  have hencode : Jwt.admin.encode adminClaims AppConfig.default.jwtSecret = .ok adminToken := rfl
  have hdecode := Jwt.admin.decode_encode hencode (secs 5)
  rw [if_pos (by decide)] at hdecode
  exact authenticate_eq_ok.mpr
    ⟨adminToken, adminClaims, bearerToken_admin hauthorization, hdecode, rfl⟩

/-- The token has been given out, and the request has arrived. -/
theorem arrived_admin (hmethod : request.method ≠ .options) (hlength : request.contentLength = none) :
    ∃ s : Gateway, (gateway Jwt.admin .hyphenated).run (.initial db aloneReplicas)
        ((adminEvents request).take 2) = s ∧
      s.visits 0 = some ⟨0, { request with claims := none }, .arrived⟩ ∧
      s.issued = [⟨adminToken, AppConfig.default.jwtSecret, ⟨"admin", "admin"⟩, 0⟩] ∧
      s.api = .initial db aloneReplicas ∧ s.counters 0 = .empty := by
  have hsmall : ¬ announcesTooMuch request.contentLength = true := by
    rw [hlength]
    decide
  refine ⟨_, rfl, ?_⟩
  simp only [adminEvents, List.take_succ_cons, List.take_zero, Machine.run_cons, Machine.run_nil]
  have harrive : ∀ s : Gateway, ((gateway Jwt.admin .hyphenated).step s (.arrive 0 request)).1 =
      { s with
        visits := Function.update s.visits s.arrivals
          (some ⟨0, { request with claims := none }, .arrived⟩)
        arrivals := s.arrivals + 1 } := by
    intro s
    show (s.arrive 0 request).1 = _
    rw [Gateway.arrive, if_neg hmethod, if_neg hsmall]
  rw [harrive]
  exact ⟨rfl, rfl, rfl, rfl⟩

theorem unforged_admin (hauthorization : request.authorization = some adminLogin.authorization)
    (hmethod : request.method ≠ .options) (hlength : request.contentLength = none) :
    (gateway Jwt.admin .hyphenated).Along (Unforged Jwt.admin) (.initial db aloneReplicas)
      (adminEvents request) := by
  obtain ⟨s, hs, hvisit, hissued, hapi, -⟩ := @arrived_admin db request hmethod hlength
  refine ⟨trivial, trivial, fun v token claims hv hbearer hdecode => ?_, trivial, trivial, trivial⟩
  change ((gateway Jwt.admin .hyphenated).run (.initial db aloneReplicas)
    ((adminEvents request).take 2)).visits 0 = some v at hv
  rw [hs, hvisit] at hv
  obtain rfl := Option.some.inj hv
  refine ⟨⟨adminToken, AppConfig.default.jwtSecret, ⟨"admin", "admin"⟩, 0⟩, ?_, ?_, ?_⟩
  · change _ ∈ ((gateway Jwt.admin .hyphenated).run (.initial db aloneReplicas)
      ((adminEvents request).take 2)).issued
    rw [hs, hissued]
    exact List.mem_singleton_self _
  · exact Option.some.inj ((bearerToken_admin hauthorization).symm.trans hbearer)
  · change _ = (((gateway Jwt.admin .hyphenated).run (.initial db aloneReplicas)
      ((adminEvents request).take 2)).config 0).jwtSecret
    rw [hs, Gateway.config, hapi]
    rfl

/-- The handler of the request has been started. -/
theorem run_admin (hauthorization : request.authorization = some adminLogin.authorization)
    (hmethod : request.method ≠ .options) (hlength : request.contentLength = none) {req : Request}
    (hroute : route .hyphenated { request with claims := some adminClaims } = .ok (adminClaims, req)) :
    ((gateway Jwt.admin .hyphenated).run (.initial db aloneReplicas) (adminEvents request)).api =
      (State.initial db aloneReplicas).start 0 0 adminClaims req ⟨⟨8⟩, 0⟩ := by
  obtain ⟨s, hs, hvisit, -, hapi, hcounters⟩ := @arrived_admin db request hmethod hlength
  have hsplit : adminEvents request = (adminEvents request).take 2 ++
    [.authenticate 0 (secs 5), .count 0 0, .dispatch 0 ⟨⟨8⟩, 0⟩] := rfl
  have hconfig : s.config 0 = .default := by
    rw [Gateway.config, hapi]
    rfl
  have hadmitted : ∃ info counters, count (s.counters 0) (s.config 0).rateLimit 0
      { request with claims := some adminClaims } = (.ok info, counters) := by
    rw [hcounters, hconfig]
    exact ⟨_, _, rfl⟩
  obtain ⟨info, counters, hadmitted⟩ := hadmitted
  rw [hsplit, Machine.run_append, hs, run_passes hvisit (hconfig ▸ authenticate_admin hauthorization)
    hadmitted hroute ⟨⟨8⟩, 0⟩, hapi]

end Admin

theorem handlers_vouched_adminVisit : ∃ th,
    ((gateway Jwt.admin .hyphenated).run (.initial .empty aloneReplicas) adminVisit).api.inflight
        ⟨adminClaims.tenantId, 0⟩ = some th ∧
      ∃ before replica request now between utc after user roles,
        adminVisit =
          before ++ .login replica request now :: (between ++ .authenticate 0 utc :: after) ∧
        readJson LoginRequest.deserialize LoginRequest.objection request.jsonContentType request.body = .ok ⟨user, user⟩ ∧
        (user, roles) ∈ [("admin", ["admin", "user"]), ("user", ["user"])] ∧
        th.claims = tokenClaims user demoTenant roles now ∧
        (∃ response, ((gateway Jwt.admin .hyphenated).step ((gateway Jwt.admin .hyphenated).run
            (.initial .empty aloneReplicas) before) (.login replica request now)).2 =
              [.loggedIn response] ∧
          Jwt.admin.encode th.claims (((gateway Jwt.admin .hyphenated).run
            (.initial .empty aloneReplicas) before).config replica).jwtSecret = .ok response.token) ∧
        timestamp utc ≤ timestamp now + 24 * 60 * 60 + 60 := by
  have hth : ∃ th, ((gateway Jwt.admin .hyphenated).run (.initial .empty aloneReplicas)
      adminVisit).api.inflight ⟨adminClaims.tenantId, 0⟩ = some th := by
    rw [adminVisit, run_admin rfl (by decide) rfl rfl]
    exact ⟨_, rfl⟩
  have hunforged : (gateway Jwt.admin .hyphenated).Along (Unforged Jwt.admin)
      (.initial .empty aloneReplicas) adminVisit := unforged_admin rfl (by decide) rfl
  obtain ⟨th, hth⟩ := hth
  exact ⟨th, hth, handlers_vouched hunforged hth⟩

/-- The row of another tenant. -/
def othersRow : Table where
  rows := [⟨⟨7⟩, ⟨2⟩, "/data", 0, "pending", false, 0, 0⟩]
  primaryKey := by decide
  statusCheck := by decide

theorem others_kept_adminCreates :
    ((gateway Jwt.admin .hyphenated).run (.initial othersRow aloneReplicas) adminCreates
      ).api.store.db.rows.map Backup.tenantId = [⟨2⟩, demoTenant] ∧
    ((gateway Jwt.admin .hyphenated).run (.initial othersRow aloneReplicas) adminCreates
      ).api.store.db.foreign ⟨7⟩ = some ⟨⟨7⟩, ⟨2⟩, "/data", 0, "pending", false, 0, 0⟩ := by
  have hunforged : (gateway Jwt.admin .hyphenated).Along (Unforged Jwt.admin)
      (.initial othersRow aloneReplicas) adminCreates :=
    Machine.along_append.mpr ⟨unforged_admin rfl (by decide) rfl, trivial, trivial, trivial, trivial⟩
  have hroute : route .hyphenated { adminPost with claims := some adminClaims } =
      .ok (adminClaims, .create ⟨"/data", false⟩) := rfl
  have hinside : ∀ e ∈ List.replicate 3 (.step ⟨demoTenant, 0⟩ {}), Event.ofRequest e = false :=
    fun e he => by rw [List.eq_of_mem_replicate he]; rfl
  constructor
  · rw [adminCreates, Machine.run_append, run_inside _ hinside, run_admin rfl (by decide) rfl hroute]
    decide +kernel
  · refine ((others_kept hunforged ⟨7⟩).2 fun rpc oracle env hmem => ?_).trans rfl
    simp [adminCreates, adminEvents] at hmem

end AdminVisit

end BackupService
