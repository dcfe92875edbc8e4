import BackupService.Gateway
import BackupService.Lib.Attainment

/-!
Requests on their way, and the threads that work for them.

A request that has been dispatched has one thread, on its own replica, and
every thread works for a request that has been dispatched
(`Gateway.Attended`). So no request is ever forgotten: it goes on until it is
answered or given up (`Gateway.Attended.faresOn`), and it can be brought to its
answer from wherever it is (`Gateway.Attended.attains_answer`).
-/

namespace BackupService

open Lib

theorem reqId_eq {id id' : ReqId} (htenant : id.tenant = id'.tenant) (hseq : id.seq = id'.seq) :
    id = id' := by
  obtain ⟨tenant, seq⟩ := id
  obtain rfl : tenant = id'.tenant := htenant
  obtain rfl : seq = id'.seq := hseq
  rfl

/-- The thread `id` is the handler of the request. -/
def HttpVisit.worksAs (v : HttpVisit) (id : ReqId) : Bool :=
  match v.progress, v.request.claims with
  | .dispatched _, some claims => claims.tenantId = id.tenant
  | _, _ => false

theorem worksAs_of_waits {v : HttpVisit} (h : v.progress.waits = true) (id : ReqId) :
    v.worksAs id = false := by
  obtain ⟨replica, request, progress⟩ := v
  cases progress with
  | dispatched info => cases h
  | arrived | authenticated | admitted => rfl

/-- What can be done for a request. -/
inductive VisitMove
  | authenticate
  | count
  | dispatch
  /-- The next operation of its handler, or its response. -/
  | work (tenant : Uuid)
  deriving DecidableEq, Repr

/-- The events that can come of doing it for request `n`. -/
def VisitMove.outcome (n : ℕ) : VisitMove → GatewayEvent → Prop
  | authenticate, e => ∃ utc, e = .authenticate n utc
  | count, e => ∃ clock, e = .count n clock
  | dispatch, e => ∃ oracle, e = .dispatch n oracle
  | work tenant, e => ∃ env, e = .inside (.step ⟨tenant, n⟩ env)

theorem VisitMove.exists_outcome (n : ℕ) (m : VisitMove) : ∃ e, m.outcome n e := by
  cases m with
  | authenticate => exact ⟨_, 0, rfl⟩
  | count => exact ⟨_, 0, rfl⟩
  | dispatch => exact ⟨_, ⟨⟨0⟩, 0⟩, rfl⟩
  | work tenant => exact ⟨_, {}, rfl⟩

namespace Gateway

variable (s : Gateway)

/-- The replica on which a handler is due to run as the thread `id`. -/
def handler (id : ReqId) : Option ℕ :=
  ((s.visits id.seq).filter fun v => v.worksAs id).map HttpVisit.replica

/-- Threads and requests that have been dispatched belong together. -/
structure Attended : Prop where
  numbered : ∀ n v, s.visits n = some v → n < s.arrivals
  claimed : ∀ n v info, s.visits n = some v → v.progress = .dispatched info →
    ∃ claims, v.request.claims = some claims
  handlers : ∀ id, (s.api.inflight id).map Thread.replica = s.handler id

variable {s} {id : ReqId} {n : ℕ} {v : HttpVisit}

theorem handler_of_visit (h : s.visits id.seq = some v) :
    s.handler id = if v.worksAs id then some v.replica else none := by
  rw [handler, h, Option.filter_some]
  split <;> rfl

theorem handler_of_no_visit (h : s.visits id.seq = none) : s.handler id = none := by
  rw [handler, h]
  rfl

theorem Attended.no_thread (h : s.Attended) (hno : s.handler id = none) :
    s.api.inflight id = none :=
  Option.map_eq_none_iff.mp ((h.handlers id).trans hno)

variable (id) in
/-- A request that waits has no thread yet. -/
theorem Attended.waiting (h : s.Attended) (hvisit : s.visits id.seq = some v)
    (hwaits : v.progress.waits = true) : s.api.inflight id = none := by
  refine h.no_thread ?_
  rw [handler_of_visit hvisit, worksAs_of_waits hwaits]
  rfl

/-- The request of a thread. -/
theorem Attended.request (h : s.Attended) {th : Thread} (hth : s.api.inflight id = some th) :
    ∃ v, s.visits id.seq = some v ∧ v.worksAs id = true ∧ v.replica = th.replica := by
  have hhandler : some th.replica = s.handler id := by rw [← h.handlers id, hth]; rfl
  cases hvisit : s.visits id.seq with
  | none => rw [handler_of_no_visit hvisit] at hhandler; cases hhandler
  | some v =>
      rw [handler_of_visit hvisit] at hhandler
      split at hhandler
      · next hworks => exact ⟨v, rfl, hworks, (Option.some.inj hhandler).symm⟩
      · cases hhandler

variable (id) in
/-- The thread of a request. -/
theorem Attended.thread (h : s.Attended) (hvisit : s.visits id.seq = some v)
    (hworks : v.worksAs id = true) : ∃ th, s.api.inflight id = some th ∧ th.replica = v.replica := by
  have hhandler := h.handlers id
  rw [handler_of_visit hvisit, if_pos hworks] at hhandler
  obtain ⟨th, hth, hreplica⟩ := Option.map_eq_some_iff.mp hhandler
  exact ⟨th, hth, hreplica⟩

/-- Who works for a request that has been dispatched. -/
theorem Attended.dispatched (h : s.Attended) {info : Option RateLimitInfo}
    (hvisit : s.visits n = some v) (hprogress : v.progress = .dispatched info) :
    ∃ claims, v.request.claims = some claims ∧ v.worksAs ⟨claims.tenantId, n⟩ = true := by
  obtain ⟨claims, hclaims⟩ := h.claimed n v info hvisit hprogress
  refine ⟨claims, hclaims, ?_⟩
  simp [HttpVisit.worksAs, hprogress, hclaims]

/-- One request has one handler. -/
theorem worksAs_tenant {id' : ReqId} (h : v.worksAs id = true) (h' : v.worksAs id' = true) :
    id.tenant = id'.tenant := by
  obtain ⟨replica, request, progress⟩ := v
  cases progress with
  | dispatched info =>
      cases hclaims : request.claims with
      | none => simp [HttpVisit.worksAs, hclaims] at h
      | some claims =>
          simp only [HttpVisit.worksAs, hclaims, decide_eq_true_eq] at h h'
          rw [← h, ← h']
  | arrived | authenticated | admitted => cases h

/-! ### Steps -/

/-- The handlers of the other requests. -/
theorem handler_setVisit_of_ne {v : Option HttpVisit} (h : id.seq ≠ n) :
    (s.setVisit n v).handler id = s.handler id := by
  have hvisit : (s.setVisit n v).visits id.seq = s.visits id.seq := Function.update_of_ne h ..
  rw [handler, handler, hvisit]

theorem setVisit_self (v : Option HttpVisit) : (s.setVisit n v).visits n = v :=
  Function.update_self ..

/-- A request that waits goes on waiting, or leaves. -/
theorem Attended.wait (h : s.Attended) (hvisit : s.visits n = some v)
    (hwaits : v.progress.waits = true) {v' : Option HttpVisit}
    (hv' : ∀ w, v' = some w → w.progress.waits = true) : (s.setVisit n v').Attended where
  numbered m w hw := by
    rcases setVisit_some hw with ⟨rfl, -⟩ | ⟨-, hold⟩
    · exact h.numbered m v hvisit
    · exact h.numbered m w hold
  claimed m w info hw hprogress := by
    rcases setVisit_some hw with ⟨-, hnew⟩ | ⟨-, hold⟩
    · have := hv' w hnew
      rw [hprogress] at this
      cases this
    · exact h.claimed m w info hold hprogress
  handlers id := by
    by_cases hid : id.seq = n
    · have hnone : s.api.inflight id = none := h.waiting id (hid ▸ hvisit) hwaits
      have hself : (s.setVisit n v').visits id.seq = v' := by rw [hid]; exact setVisit_self v'
      show (s.api.inflight id).map Thread.replica = _
      rw [hnone]
      cases v' with
      | none => rw [handler_of_no_visit hself]; rfl
      | some w => rw [handler_of_visit hself, worksAs_of_waits (hv' w rfl)]; rfl
    · rw [handler_setVisit_of_ne hid]
      exact h.handlers id

theorem Attended.dismiss (h : s.Attended) (hvisit : s.visits n = some v)
    (hwaits : v.progress.waits = true) : (s.setVisit n none).Attended :=
  h.wait hvisit hwaits fun _ hw => nomatch hw

theorem Attended.proceed (h : s.Attended) (hvisit : s.visits n = some v)
    (hwaits : v.progress.waits = true) {v' : HttpVisit} (hwaits' : v'.progress.waits = true) :
    (s.setVisit n (some v')).Attended :=
  h.wait hvisit hwaits fun _ hw => Option.some.inj hw ▸ hwaits'

/-- A request that arrives has a new number. -/
theorem Attended.arrive (h : s.Attended) (replica : ℕ) (request : HttpRequest) :
    { s with
      visits := Function.update s.visits s.arrivals
        (some ⟨replica, { request with claims := none }, .arrived⟩)
      arrivals := s.arrivals + 1 : Gateway }.Attended where
  numbered m w hw := by
    rcases setVisit_some (s := s) hw with ⟨rfl, -⟩ | ⟨-, hold⟩
    · exact Nat.lt_succ_self _
    · exact Nat.lt_succ_of_lt (h.numbered m w hold)
  claimed m w info hw hprogress := by
    rcases setVisit_some (s := s) hw with ⟨-, hnew⟩ | ⟨-, hold⟩
    · obtain rfl := Option.some.inj hnew
      cases hprogress
    · exact h.claimed m w info hold hprogress
  handlers id := by
    show (s.api.inflight id).map Thread.replica = (s.setVisit s.arrivals _).handler id
    by_cases hid : id.seq = s.arrivals
    · have hnone : s.visits id.seq = none := by
        refine Option.eq_none_iff_forall_ne_some.mpr fun v hv => ?_
        exact absurd (h.numbered _ v hv) (by omega)
      rw [h.handlers id, handler_of_no_visit hnone,
        handler_of_visit (v := ⟨replica, { request with claims := none }, .arrived⟩)
          (by rw [hid]; exact setVisit_self _)]
      rfl
    · rw [handler_setVisit_of_ne hid]
      exact h.handlers id

/-- The limiter, the tokens and what the threads have to do are of no
importance. -/
theorem Attended.aside (h : s.Attended) {s' : Gateway} (harrivals : s'.arrivals = s.arrivals)
    (hvisits : s'.visits = s.visits)
    (hthreads : ∀ id, (s'.api.inflight id).map Thread.replica = (s.api.inflight id).map Thread.replica) :
    s'.Attended where
  numbered n v hv := harrivals ▸ h.numbered n v (hvisits ▸ hv)
  claimed n v info hv := h.claimed n v info (hvisits ▸ hv)
  handlers id := by
    rw [hthreads id, h.handlers id, handler, handler, hvisits]

theorem Attended.counters (h : s.Attended) (counters : ℕ → Counters) :
    { s with counters }.Attended := h.aside rfl rfl fun _ => rfl

variable (id) in
/-- A request leaves together with its handler. -/
theorem Attended.leave (h : s.Attended) (hvisit : s.visits id.seq = some v)
    (hworks : v.worksAs id = true) :
    ({ s with api := s.api.setThread id none }.setVisit id.seq none).Attended where
  numbered m w hw := by
    rcases setVisit_some hw with ⟨-, hnone⟩ | ⟨-, hold⟩
    · cases hnone
    · exact h.numbered m w hold
  claimed m w info hw := by
    rcases setVisit_some hw with ⟨-, hnone⟩ | ⟨-, hold⟩
    · cases hnone
    · exact h.claimed m w info hold
  handlers id' := by
    show ((s.api.setThread id none).inflight id').map Thread.replica = _
    by_cases hid : id'.seq = id.seq
    · have hself : ({ s with api := s.api.setThread id none }.setVisit id.seq none).visits id'.seq =
          none := by rw [hid]; exact setVisit_self none
      rw [handler_of_no_visit hself, Option.map_eq_none_iff]
      by_cases heq : id' = id
      · rw [heq, State.setThread_inflight_self]
      · rw [State.setThread_inflight_of_ne _ _ heq]
        refine h.no_thread ?_
        rw [handler_of_visit (hid ▸ hvisit), if_neg]
        exact fun hworks' => heq (reqId_eq (worksAs_tenant hworks' hworks) hid)
    · rw [State.setThread_inflight_of_ne _ _ (fun heq => hid (congrArg ReqId.seq heq)),
        handler_setVisit_of_ne hid]
      exact h.handlers id'

/-- A request is given up, wherever it is. -/
theorem Attended.abandon (h : s.Attended) (n : ℕ) : (s.abandon n).1.Attended := by
  cases hvisit : s.visits n with
  | none =>
      have hsame : (s.setVisit n none).visits = s.visits := by
        rw [setVisit, ← hvisit]
        exact Function.update_eq_self ..
      simp only [Gateway.abandon, hvisit]
      exact h.aside rfl hsame fun _ => rfl
  | some v =>
      by_cases hwaits : v.progress.waits = true
      · have habandon : s.abandon n = (s.setVisit n none, []) := by
          obtain ⟨replica, request, progress⟩ := v
          cases progress with
          | dispatched info => cases hwaits
          | arrived | authenticated | admitted => simp only [Gateway.abandon, hvisit]
        rw [habandon]
        exact h.dismiss hvisit hwaits
      · obtain ⟨replica, request, progress⟩ := v
        cases progress with
        | dispatched info =>
            obtain ⟨claims, hclaims, hworks⟩ := h.dispatched hvisit rfl
            simp only at hclaims
            simp only [Gateway.abandon, hvisit, hclaims]
            exact h.leave ⟨claims.tenantId, n⟩ hvisit hworks
        | arrived | authenticated | admitted => exact absurd rfl hwaits

/-- A handler is started. -/
theorem Attended.start (h : s.Attended) {replica : ℕ} {request : HttpRequest}
    {info : Option RateLimitInfo} {claims : Claims} {req : Request}
    (hvisit : s.visits n = some ⟨replica, request, .admitted info⟩)
    (hclaims : request.claims = some claims) (oracle : Oracle) :
    ({ s with api := s.api.start replica n claims req oracle }.setVisit n
      (some ⟨replica, request, .dispatched info⟩)).Attended where
  numbered m w hw := by
    rcases setVisit_some hw with ⟨rfl, -⟩ | ⟨-, hold⟩
    · exact h.numbered m _ hvisit
    · exact h.numbered m w hold
  claimed m w info' hw hprogress := by
    rcases setVisit_some hw with ⟨-, hnew⟩ | ⟨-, hold⟩
    · obtain rfl := Option.some.inj hnew
      exact ⟨claims, hclaims⟩
    · exact h.claimed m w info' hold hprogress
  handlers id := by
    have hfree : s.api.inflight ⟨claims.tenantId, n⟩ = none :=
      h.waiting ⟨claims.tenantId, n⟩ hvisit rfl
    have hstart : s.api.start replica n claims req oracle =
        s.api.setThread ⟨claims.tenantId, n⟩ (some (s.api.newThread replica claims req oracle)) := by
      simp only [State.start, hfree]
    show ((s.api.start replica n claims req oracle).inflight id).map Thread.replica = _
    rw [hstart]
    by_cases hid : id.seq = n
    · rw [handler_of_visit (v := ⟨replica, request, .dispatched info⟩) (by rw [hid]; exact setVisit_self _)]
      by_cases heq : id = ⟨claims.tenantId, n⟩
      · rw [heq, State.setThread_inflight_self, if_pos (by simp [HttpVisit.worksAs, hclaims])]
        rfl
      · have htenant : claims.tenantId ≠ id.tenant := fun htenant =>
          heq (reqId_eq htenant.symm hid)
        rw [State.setThread_inflight_of_ne _ _ heq, h.waiting id (hid ▸ hvisit) rfl,
          if_neg (by simp [HttpVisit.worksAs, hclaims, htenant])]
        rfl
    · rw [State.setThread_inflight_of_ne _ _ (fun heq => hid (congrArg ReqId.seq heq)),
        handler_setVisit_of_ne hid]
      exact h.handlers id

/-! ### What happens inside -/

section Inside

variable {uuid : UuidParser} {th : Thread} {env : Env}

theorem inside_idle (hth : s.api.inflight id = none) : s.inside uuid (.step id env) = (s, []) := by
  simp only [Gateway.inside, Event.ofRequest, step_step, State.stepThread_none hth,
    List.foldl_nil, List.flatMap_nil]
  rfl

theorem inside_op {o : Op} {k : o.Answer → Action Response} (hth : s.api.inflight id = some th)
    (hprog : th.prog = .op o k) : s.inside uuid (.step id env) =
      ({ s with api := ((s.api.setStore (s.api.exec th env o).2).setThread id
          (some { th with prog := k (s.api.exec th env o).1 })) },
        [.inside (.performed id o (s.api.exec th env o).1)]) := by
  simp only [Gateway.inside, Event.ofRequest, step_step, State.stepThread_op hth hprog,
    List.foldl_cons, List.foldl_nil, List.flatMap_cons, List.flatMap_nil]
  rfl

theorem inside_ret {response : Response} (hth : s.api.inflight id = some th)
    (hprog : th.prog = .ret response) : s.inside uuid (.step id env) =
      ({ s with api := s.api.setThread id none }.setVisit id.seq none,
        s.shows (.responded id th.request response)) := by
  simp only [Gateway.inside, Event.ofRequest, step_step, State.stepThread_ret hth hprog,
    List.foldl_cons, List.foldl_nil, List.flatMap_cons, List.flatMap_nil, List.append_nil]
  rfl

variable (s uuid) in
/-- What is not a step of a thread leaves the threads as they are. -/
theorem inside_other {e : Event} (he : e.ofRequest = false) (hstep : ∀ id env, e ≠ .step id env) :
    ∃ api obs, s.inside uuid e = ({ s with api }, obs) ∧ api.inflight = s.api.inflight := by
  cases e with
  | start | drop => cases he
  | step id env => exact absurd rfl (hstep id env)
  | rpc call oracle env => exact ⟨_, _, rfl, rfl⟩
  | configUpdate replica update => exact ⟨_, _, rfl, rfl⟩
  | expire key => exact ⟨_, _, rfl, rfl⟩
  | advance clock => exact ⟨_, _, rfl, rfl⟩

/-- The response of a handler goes out. -/
theorem Attended.shows_response (h : s.Attended) (hth : s.api.inflight id = some th)
    (request : Request) (response : Response) : ∃ info,
    s.shows (.responded id request response) =
      [.inside (.responded id request response), .answered id.seq (withRateLimit info (.of response))] := by
  obtain ⟨⟨replica, request', progress⟩, hvisit, hworks, -⟩ := h.request hth
  cases progress with
  | dispatched info =>
      refine ⟨info, ?_⟩
      simp only [shows, Obs.finishes, hvisit]
  | arrived | authenticated | admitted => cases hworks

end Inside

/-! ### Steps of the gateway -/

section Steps

variable {jwt : Jwt} {uuid : UuidParser}

theorem route_ok {request : HttpRequest} {claims : Claims} {req : Request}
    (h : route uuid request = .ok (claims, req)) : request.claims = some claims := by
  unfold route at h
  split at h
  · cases h
  · cases h
  · cases h
  · next hclaims =>
      cases h
      exact hclaims

theorem Attended.inside (h : s.Attended) (e : Event) : (s.inside uuid e).1.Attended := by
  by_cases he : e.ofRequest = true
  · rw [Gateway.inside, if_pos he]
    exact h
  by_cases hstep : ∃ id env, e = .step id env
  · obtain ⟨id, env, rfl⟩ := hstep
    cases hth : s.api.inflight id with
    | none =>
        rw [inside_idle hth]
        exact h
    | some th =>
        cases hprog : th.prog with
        | op o k =>
            rw [inside_op hth hprog]
            refine h.aside rfl rfl fun id' => ?_
            by_cases heq : id' = id
            · rw [heq, State.setThread_inflight_self, hth]
              rfl
            · rw [State.setThread_inflight_of_ne _ _ heq]
              rfl
        | ret response =>
            obtain ⟨v, hvisit, hworks, -⟩ := h.request hth
            rw [inside_ret hth hprog]
            exact h.leave id hvisit hworks
  · obtain ⟨api, obs, hinside, hinflight⟩ := inside_other s uuid (by simpa using he)
      fun id env heq => hstep ⟨id, env, heq⟩
    rw [hinside]
    exact h.aside rfl rfl fun id => by rw [hinflight]

variable (jwt uuid) in
/-- **Threads and requests stay together.** -/
theorem Attended.step (h : s.Attended) (e : GatewayEvent) :
    ((gateway jwt uuid).step s e).1.Attended := by
  cases e with
  | login replica request utc =>
      show (s.login jwt replica request utc).1.Attended
      unfold Gateway.login
      split
      · exact h
      · split
        · exact h
        · split
          · exact h.aside rfl rfl fun _ => rfl
          · exact h
  | arrive replica request =>
      show (s.arrive replica request).1.Attended
      unfold Gateway.arrive
      split
      · exact h
      · split
        · exact h
        · exact h.arrive replica request
  | authenticate n utc =>
      show (s.authenticate jwt n utc).1.Attended
      unfold Gateway.authenticate
      split
      · next hvisit =>
          split
          · exact h.dismiss hvisit rfl
          · exact h.proceed hvisit rfl rfl
      · exact h
  | count n clock =>
      show (s.count n clock).1.Attended
      unfold Gateway.count
      split
      · next hvisit =>
          split
          · exact (h.dismiss hvisit rfl).counters _
          · refine Attended.counters (h.proceed hvisit rfl ?_) _
            rfl
      · exact h
  | dispatch n oracle =>
      show (s.dispatch uuid n oracle).1.Attended
      unfold Gateway.dispatch
      split
      · next hvisit =>
          split
          · exact h.dismiss hvisit rfl
          · next hroute => exact h.start hvisit (route_ok hroute) oracle
      · exact h
  | abandon n =>
      show (s.abandon n).1.Attended
      exact h.abandon n
  | inside e => exact h.inside e

/-- The request is still on its way, or it has been answered, or given up. -/
def FaresOn (n replica : ℕ) (e : GatewayEvent) (out : Gateway × List GatewayObs) : Prop :=
  (∃ v, out.1.visits n = some v ∧ v.replica = replica) ∨
    out.1.visits n = none ∧ ((∃ response, .answered n response ∈ out.2) ∨ e = .abandon n)

section FaresOn

variable {e : GatewayEvent} {m : ℕ}

theorem faresOn_untouched (hvisit : s.visits n = some v) {out : Gateway × List GatewayObs}
    (hout : out.1.visits n = s.visits n) : FaresOn n v.replica e out :=
  .inl ⟨v, hout.trans hvisit, rfl⟩

theorem faresOn_answer (hvisit : s.visits n = some v) (response : HttpResponse)
    (counters : ℕ → Counters) :
    FaresOn n v.replica e ({ s with counters }.answer m response) := by
  by_cases hm : n = m
  · subst hm
    exact .inr ⟨setVisit_self none, .inl ⟨response, List.mem_singleton_self _⟩⟩
  · exact faresOn_untouched hvisit (Function.update_of_ne hm ..)

/-- A request goes on to the next layer. -/
theorem faresOn_proceed (hvisit : s.visits n = some v) {w w' : HttpVisit}
    (hw : s.visits m = some w) {out : Gateway × List GatewayObs}
    (hout : out.1.visits = Function.update s.visits m (some w'))
    (hreplica : w'.replica = w.replica) : FaresOn n v.replica e out := by
  by_cases hm : n = m
  · subst hm
    obtain rfl := Option.some.inj (hvisit.symm.trans hw)
    exact .inl ⟨w', by rw [hout, Function.update_self], hreplica⟩
  · exact faresOn_untouched hvisit (by rw [hout, Function.update_of_ne hm])

variable (uuid) in
theorem Attended.faresOn_inside (h : s.Attended) (hvisit : s.visits n = some v) (e : Event) :
    FaresOn n v.replica (.inside e) (s.inside uuid e) := by
  by_cases he : e.ofRequest = true
  · rw [Gateway.inside, if_pos he]
    exact faresOn_untouched hvisit rfl
  by_cases hstep : ∃ id env, e = .step id env
  · obtain ⟨id, env, rfl⟩ := hstep
    cases hth : s.api.inflight id with
    | none =>
        rw [inside_idle hth]
        exact faresOn_untouched hvisit rfl
    | some th =>
        cases hprog : th.prog with
        | op o k =>
            rw [inside_op hth hprog]
            exact faresOn_untouched hvisit rfl
        | ret response =>
            rw [inside_ret hth hprog]
            by_cases hn : n = id.seq
            · obtain ⟨info, hshows⟩ := h.shows_response hth th.request response
              rw [hshows, hn]
              exact .inr ⟨setVisit_self none, .inl ⟨_, List.mem_cons_of_mem _ (List.mem_singleton_self _)⟩⟩
            · exact faresOn_untouched hvisit (Function.update_of_ne hn ..)
  · obtain ⟨api, obs, hinside, -⟩ := inside_other s uuid (by simpa using he)
      fun id env heq => hstep ⟨id, env, heq⟩
    rw [hinside]
    exact faresOn_untouched hvisit rfl

variable (jwt uuid) in
/-- **What becomes of a request in a step.** Whatever happens, it is not
forgotten. -/
theorem Attended.faresOn (h : s.Attended) (hvisit : s.visits n = some v) (e : GatewayEvent) :
    FaresOn n v.replica e ((gateway jwt uuid).step s e) := by
  cases e with
  | login replica request utc =>
      show FaresOn _ _ _ (s.login jwt replica request utc)
      unfold Gateway.login
      split
      · exact faresOn_untouched hvisit rfl
      · split
        · exact faresOn_untouched hvisit rfl
        · split <;> exact faresOn_untouched hvisit rfl
  | arrive replica request =>
      show FaresOn _ _ _ (s.arrive replica request)
      unfold Gateway.arrive
      split
      · exact faresOn_untouched hvisit rfl
      · split
        · exact faresOn_untouched hvisit rfl
        · have hn : n ≠ s.arrivals := (h.numbered n v hvisit).ne
          exact faresOn_untouched hvisit (Function.update_of_ne hn ..)
  | authenticate m utc =>
      show FaresOn _ _ _ (s.authenticate jwt m utc)
      unfold Gateway.authenticate
      split
      · next hw =>
          split
          · exact faresOn_answer hvisit _ s.counters
          · exact faresOn_proceed hvisit hw rfl rfl
      · exact faresOn_untouched hvisit rfl
  | count m clock =>
      show FaresOn _ _ _ (s.count m clock)
      unfold Gateway.count
      split
      · next hw =>
          split
          · exact faresOn_answer hvisit _ _
          · exact faresOn_proceed hvisit hw rfl rfl
      · exact faresOn_untouched hvisit rfl
  | dispatch m oracle =>
      show FaresOn _ _ _ (s.dispatch uuid m oracle)
      unfold Gateway.dispatch
      split
      · next hw =>
          split
          · exact faresOn_answer hvisit _ s.counters
          · exact faresOn_proceed hvisit hw rfl rfl
      · exact faresOn_untouched hvisit rfl
  | abandon m =>
      show FaresOn _ _ _ (s.abandon m)
      have hother : n ≠ m → (s.abandon m).1.visits n = s.visits n := by
        intro hm
        unfold Gateway.abandon
        split
        · split <;> exact Function.update_of_ne hm ..
        · exact Function.update_of_ne hm ..
      by_cases hm : n = m
      · subst hm
        refine .inr ⟨?_, .inr rfl⟩
        unfold Gateway.abandon
        split
        · split <;> exact setVisit_self none
        · exact setVisit_self none
      · exact faresOn_untouched hvisit (hother hm)
  | inside e => exact h.faresOn_inside uuid hvisit e

end FaresOn

/-! ### Who takes part in a step -/

variable (jwt uuid) in
/-- Requests stay on their replica, and new ones arrive. -/
theorem replica_of_step {e : GatewayEvent} (hvisit : ((gateway jwt uuid).step s e).1.visits n = some v) :
    (∃ w, s.visits n = some w ∧ w.replica = v.replica) ∨ ∃ request, e = .arrive v.replica request := by
  have hmoved : ∀ {m : ℕ} {w w' : HttpVisit}, s.visits m = some w →
      Function.update s.visits m (some w') n = some v → w'.replica = w.replica →
      ∃ w, s.visits n = some w ∧ w.replica = v.replica := by
    intro m w w' hw hv hreplica
    rcases setVisit_some (s := s) hv with ⟨rfl, hnew⟩ | ⟨-, hold⟩
    · exact ⟨w, hw, by rw [← Option.some.inj hnew, hreplica]⟩
    · exact ⟨v, hold, rfl⟩
  have hgone : ∀ {m : ℕ}, (s.setVisit m none).visits n = some v →
      ∃ w, s.visits n = some w ∧ w.replica = v.replica := by
    intro m hv
    rcases setVisit_some hv with ⟨-, hnone⟩ | ⟨-, hold⟩
    · cases hnone
    · exact ⟨v, hold, rfl⟩
  have hmove := gateway_move jwt uuid s e
  generalize ((gateway jwt uuid).step s e).1 = s' at hmove hvisit
  cases hmove with
  | nothing => exact .inl ⟨v, hvisit, rfl⟩
  | issued => exact .inl ⟨v, hvisit, rfl⟩
  | gone => exact .inl (hgone hvisit)
  | abandoned => exact .inl (hgone hvisit)
  | authenticated hw => exact .inl (hmoved hw hvisit rfl)
  | admitted hw => exact .inl (hmoved hw hvisit rfl)
  | dispatched hw => exact .inl (hmoved hw hvisit rfl)
  | @arrived replica request =>
      rcases setVisit_some (s := s) hvisit with ⟨-, hnew⟩ | ⟨-, hold⟩
      · obtain rfl := Option.some.inj hnew
        exact .inr ⟨request, rfl⟩
      · exact .inl ⟨v, hold, rfl⟩
  | inside he hvisits => exact .inl ⟨v, hvisits n v hvisit, rfl⟩

/-- What can be seen of a step comes from a request, or from a callback. -/
theorem Attended.shown_by (h : s.Attended) {e : GatewayEvent} {o : GatewayObs}
    (ho : o ∈ ((gateway jwt uuid).step s e).2) :
    (∃ n v, s.visits n = some v) ∨ (∃ i request utc, e = .login i request utc) ∨
      (∃ i request, e = .arrive i request) ∨ ∃ rpc oracle env, e = .inside (.rpc rpc oracle env) := by
  have hempty : ∀ {n : ℕ} {out : Gateway × List GatewayObs}, (s.visits n = none → out = (s, [])) →
      o ∈ out.2 → ∃ n v, s.visits n = some v := by
    intro n out hnone hout
    cases hvisit : s.visits n with
    | some v => exact ⟨n, v, hvisit⟩
    | none => rw [hnone hvisit] at hout; cases hout
  cases e with
  | login i request utc => exact .inr (.inl ⟨i, request, utc, rfl⟩)
  | arrive i request => exact .inr (.inr (.inl ⟨i, request, rfl⟩))
  | authenticate n utc =>
      exact .inl (hempty (n := n) (fun hvisit => by simp only [gateway, Gateway.authenticate, hvisit]) ho)
  | count n clock =>
      exact .inl (hempty (n := n) (fun hvisit => by simp only [gateway, Gateway.count, hvisit]) ho)
  | dispatch n oracle =>
      exact .inl (hempty (n := n) (fun hvisit => by simp only [gateway, Gateway.dispatch, hvisit]) ho)
  | abandon n =>
      have hshows : (s.abandon n).2 = [] := by
        unfold Gateway.abandon
        split
        · split <;> rfl
        · rfl
      rw [show ((gateway jwt uuid).step s (.abandon n)).2 = [] from hshows] at ho
      cases ho
  | inside e =>
      cases e with
      | rpc rpc oracle env => exact .inr (.inr (.inr ⟨rpc, oracle, env, rfl⟩))
      | step id env =>
          cases hth : s.api.inflight id with
          | none =>
              change o ∈ (s.inside uuid (.step id env)).2 at ho
              rw [inside_idle hth] at ho
              cases ho
          | some th =>
              obtain ⟨v, hvisit, -⟩ := h.request hth
              exact .inl ⟨id.seq, v, hvisit⟩
      | start | drop | configUpdate | expire | advance => cases ho

/-! ### A replica that goes -/

/-- The requests that a process is working on. -/
def visitsOf (s : Gateway) (i : ℕ) : List ℕ :=
  (List.range s.arrivals).filter fun n => (s.visits n).any fun v => v.replica = i

theorem Attended.mem_visitsOf (h : s.Attended) {i : ℕ} :
    n ∈ s.visitsOf i ↔ ∃ v, s.visits n = some v ∧ v.replica = i := by
  simp only [visitsOf, List.mem_filter, List.mem_range, Option.any_eq_true, decide_eq_true_eq]
  constructor
  · exact fun hn => hn.2
  · rintro ⟨v, hvisit, hreplica⟩
    exact ⟨h.numbered n v hvisit, v, hvisit, hreplica⟩

theorem abandon_visits (m : ℕ) :
    (s.abandon m).1.visits = Function.update s.visits m none := by
  unfold Gateway.abandon
  split
  · split <;> rfl
  · rfl

variable (jwt uuid) in
theorem visits_abandoned (ns : List ℕ) :
    ((gateway jwt uuid).run s (ns.map .abandon)).visits n = if n ∈ ns then none else s.visits n := by
  induction ns generalizing s with
  | nil => rfl
  | cons m ns ih =>
      have hstep : ((gateway jwt uuid).step s (.abandon m)).1.visits n =
          if n = m then none else s.visits n := by
        show (s.abandon m).1.visits n = _
        rw [abandon_visits, Function.update_apply]
      rw [List.map_cons, Machine.run_cons, ih, hstep]
      by_cases hm : n = m
      · simp [hm]
      · simp [hm]

variable (jwt uuid) in
theorem Attended.run (h : s.Attended) (es : List GatewayEvent) :
    ((gateway jwt uuid).run s es).Attended :=
  Machine.run_invariant _ (fun _ e hs => hs.step jwt uuid e) h es

/-! ### To the answer -/

section Answer

variable {m : ℕ} {move : VisitMove} {e : GatewayEvent}

/-- What is done for a request leaves the others alone. -/
theorem visits_of_outcome (he : move.outcome n e) (hm : m ≠ n) :
    ((gateway jwt uuid).step s e).1.visits m = s.visits m := by
  cases move with
  | authenticate =>
      obtain ⟨utc, rfl⟩ := he
      show (s.authenticate jwt n utc).1.visits m = _
      unfold Gateway.authenticate
      split
      · split <;> exact Function.update_of_ne hm ..
      · rfl
  | count =>
      obtain ⟨clock, rfl⟩ := he
      show (s.count n clock).1.visits m = _
      unfold Gateway.count
      split
      · split <;> exact Function.update_of_ne hm ..
      · rfl
  | dispatch =>
      obtain ⟨oracle, rfl⟩ := he
      show (s.dispatch uuid n oracle).1.visits m = _
      unfold Gateway.dispatch
      split
      · split <;> exact Function.update_of_ne hm ..
      · rfl
  | work tenant =>
      obtain ⟨env, rfl⟩ := he
      show (s.inside uuid (.step ⟨tenant, n⟩ env)).1.visits m = _
      cases hth : s.api.inflight ⟨tenant, n⟩ with
      | none => rw [inside_idle hth]
      | some th =>
          cases hprog : th.prog with
          | op o k => rw [inside_op hth hprog]
          | ret response =>
              rw [inside_ret hth hprog]
              exact Function.update_of_ne hm ..

theorem arrivals_of_outcome (he : move.outcome n e) :
    ((gateway jwt uuid).step s e).1.arrivals = s.arrivals := by
  cases move with
  | authenticate =>
      obtain ⟨utc, rfl⟩ := he
      show (s.authenticate jwt n utc).1.arrivals = _
      unfold Gateway.authenticate
      split
      · split <;> rfl
      · rfl
  | count =>
      obtain ⟨clock, rfl⟩ := he
      show (s.count n clock).1.arrivals = _
      unfold Gateway.count
      split
      · split <;> rfl
      · rfl
  | dispatch =>
      obtain ⟨oracle, rfl⟩ := he
      show (s.dispatch uuid n oracle).1.arrivals = _
      unfold Gateway.dispatch
      split
      · split <;> rfl
      · rfl
  | work tenant =>
      obtain ⟨env, rfl⟩ := he
      show (s.inside uuid (.step ⟨tenant, n⟩ env)).1.arrivals = _
      cases hth : s.api.inflight ⟨tenant, n⟩ with
      | none => rw [inside_idle hth]
      | some th =>
          cases hprog : th.prog with
          | op o k => rw [inside_op hth hprog]
          | ret response => rw [inside_ret hth hprog]; rfl

/-- A handler can be brought to its response. -/
theorem attains_response (id : ReqId) (p : Action Response) (th : Thread)
    (hth : s.api.inflight id = some th) (hprog : th.prog = p) :
    (gateway jwt uuid).Attains (VisitMove.outcome id.seq) (fun s => s.visits id.seq = none) s := by
  induction p generalizing s th with
  | ret response =>
      refine .move (.work id.tenant) ?_
      rintro _ ⟨env, rfl⟩
      refine .done ?_
      show (s.inside uuid (.step id env)).1.visits id.seq = none
      rw [inside_ret hth hprog]
      exact setVisit_self none
  | op o k ih =>
      refine .move (.work id.tenant) ?_
      rintro _ ⟨env, rfl⟩
      refine ih (s.api.exec th env o).1 { th with prog := k (s.api.exec th env o).1 } ?_ rfl
      show (s.inside uuid (.step id env)).1.api.inflight id = _
      rw [inside_op hth hprog]
      exact State.setThread_inflight_self ..

theorem Attended.attains_of_admitted (h : s.Attended) {replica : ℕ} {request : HttpRequest}
    {info : Option RateLimitInfo} (hvisit : s.visits n = some ⟨replica, request, .admitted info⟩) :
    (gateway jwt uuid).Attains (VisitMove.outcome n) (fun s => s.visits n = none) s := by
  refine .move .dispatch ?_
  rintro _ ⟨oracle, rfl⟩
  show Machine.Attains _ _ _ (s.dispatch uuid n oracle).1
  simp only [Gateway.dispatch, hvisit]
  split
  · exact .done (setVisit_self none)
  · next claims req hroute =>
      have hfree : s.api.inflight ⟨claims.tenantId, n⟩ = none :=
        h.waiting ⟨claims.tenantId, n⟩ hvisit rfl
      refine attains_response ⟨claims.tenantId, n⟩ _
        (s.api.newThread replica claims req oracle) ?_ rfl
      show (s.api.start replica n claims req oracle).inflight _ = _
      simp only [State.start, hfree]
      exact State.setThread_inflight_self ..

theorem Attended.attains_of_authenticated (h : s.Attended) {replica : ℕ} {request : HttpRequest}
    (hvisit : s.visits n = some ⟨replica, request, .authenticated⟩) :
    (gateway jwt uuid).Attains (VisitMove.outcome n) (fun s => s.visits n = none) s := by
  refine .move .count ?_
  rintro _ ⟨clock, rfl⟩
  have hattended := h.step jwt uuid (.count n clock)
  revert hattended
  show Attended (s.count n clock).1 → Machine.Attains _ _ _ (s.count n clock).1
  simp only [Gateway.count, hvisit]
  split
  · exact fun _ => .done (setVisit_self none)
  · exact fun hattended => hattended.attains_of_admitted (setVisit_self _)

variable (jwt uuid) in
/-- **Every request can be brought to its answer**, from wherever it is and
whatever comes of the steps on the way. -/
theorem Attended.attains_answer (h : s.Attended) (hvisit : s.visits n = some v) :
    (gateway jwt uuid).Attains (VisitMove.outcome n) (fun s => s.visits n = none) s := by
  obtain ⟨replica, request, progress⟩ := v
  cases progress with
  | arrived =>
      refine .move .authenticate ?_
      rintro _ ⟨utc, rfl⟩
      have hattended := h.step jwt uuid (.authenticate n utc)
      revert hattended
      show Attended (s.authenticate jwt n utc).1 →
        Machine.Attains _ _ _ (s.authenticate jwt n utc).1
      simp only [Gateway.authenticate, hvisit]
      split
      · exact fun _ => .done (setVisit_self none)
      · exact fun hattended => hattended.attains_of_authenticated (setVisit_self _)
  | authenticated => exact h.attains_of_authenticated hvisit
  | admitted info => exact h.attains_of_admitted hvisit
  | dispatched info =>
      obtain ⟨claims, -, hworks⟩ := h.dispatched hvisit rfl
      obtain ⟨th, hth, -⟩ := h.thread ⟨claims.tenantId, n⟩ hvisit hworks
      exact attains_response ⟨claims.tenantId, n⟩ th.prog th hth rfl

end Answer

end Steps

end Gateway

end BackupService
