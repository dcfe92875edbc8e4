import BackupService.Router
import BackupService.Statements

/-!
Client errors change nothing.

A handler answers 400 before its first operation, and 404 after a statement
that has touched no row: a `SELECT`, or an `UPDATE` or a `DELETE` whose
condition no row satisfies. So its answers are of two kinds (`Settled`):
the client errors, with the stores as they were found, and all others. What
the layers add, `401` and `429`, is answered before a handler runs.
-/

namespace BackupService

open Lib Program

/-! ### The operations of a handler -/

section Operations

variable {host : Host} {s : Store × ℕ} {α : Type} {post : α → Store × ℕ → Prop}

/-- A statement that has been answered has been executed. -/
theorem Host.exec_sql {q : Sql} {answer : q.Answer} (h : (host.exec (.sql q) s).1 = .ok answer) :
    (q.exec (host.moment s.2).env.order host.oracle s.1.db).1 = .ok answer ∧
      (host.exec (.sql q) s).2.1 =
        { s.1 with db := (q.exec (host.moment s.2).env.order host.oracle s.1.db).2 } := by
  simp only [Host.exec, Op.exec] at h ⊢
  cases hsql : (host.moment s.2).env.sql with
  | none =>
      simp only [hsql] at h ⊢
      exact ⟨h, trivial⟩
  | before | after =>
      simp only [hsql] at h
      cases h

theorem Host.exec_get (key : Key) : (host.exec (.redis (.get key)) s).2.1 = s.1 := by
  simp only [Host.exec, Op.exec]
  cases (host.moment s.2).env.redis <;> rfl

theorem Host.exec_selectBackup (id tenantId : Uuid) :
    (host.exec (.sql (.selectBackup id tenantId)) s).2.1 = s.1 := by
  simp only [Host.exec, Op.exec]
  cases (host.moment s.2).env.sql <;> rfl

theorem Host.ensures_query {q : Sql} {f : Except SqlError q.Answer → Action α}
    (h : ∀ r s', (host.exec (.sql q) s).1 = r → (host.exec (.sql q) s).2 = s' →
      Ensures host.exec (f r) s' post) : Ensures host.exec (query q >>= f) s post :=
  h _ _ rfl rfl

/-- Looking into the cache leaves the stores alone. -/
theorem Host.getBackup_keeps (cache : CacheLayer) (id : Uuid) :
    Ensures host.exec (cache.getBackup id) s fun _ s' => s'.1 = s.1 := by
  cases hr : cache.redis with
  | false =>
      rw [CacheLayer.getBackup, if_neg (by simp [hr])]
      exact rfl
  | true =>
      rw [← bind_pure (cache.getBackup id), CacheLayer.getBackup_bind hr]
      exact Host.exec_get _

end Operations

/-! ### The answers of a handler -/

/-- A handler that has found the stores as `st` either refuses with a client
error and leaves them so, or its answer is none. -/
def Settled (st : Store) (r : Response) (s : Store × ℕ) : Prop :=
  r.status ∈ [400, 404] ∧ s.1 = st ∨ r.status ∈ [200, 201, 202, 204, 500]

section Handlers

variable {host : Host} {st : Store} {s : Store × ℕ} {state : AppState} {claims : Claims}

theorem validateSourcePath_error {path : String} {e : AppError}
    (h : validateSourcePath path = .error e) : e.intoResponse.status = 400 := by
  unfold validateSourcePath at h
  split at h
  · cases h; rfl
  · split at h
    · cases h; rfl
    · split at h
      · cases h; rfl
      · cases h

/-- Whatever is done on the way to it, the response is the same. -/
theorem settled_after {α : Type} {p : Action α} {f : α → Action Response}
    (h : ∀ a s', Ensures host.exec (f a) s' (Settled st)) :
    Ensures host.exec (p >>= f) s (Settled st) :=
  ensures_bind.mpr (h _ _)

theorem settled_answer {r : Response} (h : r.status ∈ [200, 201, 202, 204, 500]) :
    Ensures host.exec (pure r : Action Response) s (Settled st) := .inr h

theorem settled_not_found {id : Uuid} (h : s.1 = st) :
    Ensures host.exec (pure (notFoundResponse id) : Action Response) s (Settled st) :=
  .inl ⟨by simp [notFoundResponse, AppError.intoResponse], h⟩

theorem settled_database {e : SqlError} :
    Ensures host.exec (pure (databaseResponse e) : Action Response) s (Settled st) :=
  .inr (by simp [databaseResponse, AppError.intoResponse])

theorem settled_getAfterLookup (h : s.1 = st) (id : Uuid) (cached : Option Backup) :
    Ensures host.exec (getAfterLookup state claims id cached) s (Settled st) := by
  cases cached with
  | some b => exact settled_answer (by simp)
  | none =>
      refine Host.ensures_query fun r s' hr hs' => ?_
      have hst : s'.1 = st := by rw [← hs', Host.exec_selectBackup, h]
      rcases r with e | (_ | b)
      · exact settled_database
      · exact settled_not_found hst
      · exact settled_after fun _ _ => settled_answer (by simp)

theorem settled_listAfterLookup (params : ListParams) (cfg : AppConfig)
    (cached : Option (List Backup × ℤ)) :
    Ensures host.exec (listAfterLookup state claims params cfg cached) s (Settled st) := by
  rcases cached with _ | ⟨items, total⟩
  · refine settled_after fun r s' => ?_
    rcases r with e | items
    · exact settled_database
    · refine settled_after fun r s' => ?_
      rcases r with e | total
      · exact settled_database
      · dsimp only
        split
        · exact settled_after fun _ _ => settled_answer (by simp [listResponse])
        · exact settled_answer (by simp [listResponse])
  · exact settled_answer (by simp [listResponse])

/-- **Every handler settles.** -/
theorem handle_settled (request : Request) :
    Ensures host.exec (handle state claims request) s (Settled s.1) := by
  cases request with
  | create req =>
      rw [handle_create]
      cases hvalid : validateSourcePath req.sourcePath with
      | error e => exact .inl ⟨by simp [validateSourcePath_error hvalid], rfl⟩
      | ok _ =>
          refine settled_after fun r s' => ?_
          cases r with
          | error e => exact settled_database
          | ok b => exact settled_after fun _ _ => settled_answer (by simp)
  | get id =>
      rw [handle_get]
      refine (Host.getBackup_keeps state.cache id).bind fun cached s' hs' => ?_
      exact settled_getAfterLookup hs' id _
  | list params =>
      rw [handle_list]
      refine settled_after fun cfg s' => ?_
      split
      · exact settled_after fun cached _ => settled_listAfterLookup params cfg cached
      · exact settled_listAfterLookup params cfg none
  | update id req =>
      rw [handle_update]
      refine Host.ensures_query fun r s' hr hs' => ?_
      rcases r with e | (_ | b)
      · exact settled_database
      · obtain ⟨hnone, hstore⟩ := Host.exec_sql hr
        refine settled_not_found ?_
        rw [← hs', hstore, exec_updateBackup_none _ _ hnone]
      · exact settled_after fun _ _ => settled_after fun _ _ => settled_answer (by simp)
  | delete id =>
      rw [handle_delete]
      refine Host.ensures_query fun r s' hr hs' => ?_
      rcases r with e | (rows : ℕ)
      · exact settled_database
      · by_cases hrows : rows = 0
        · obtain ⟨hzero, hstore⟩ := Host.exec_sql hr
          simp only [hrows, if_true]
          refine settled_not_found ?_
          rw [hrows] at hzero
          rw [← hs', hstore, exec_deleteBackup_zero _ _ hzero]
        · simp only [hrows, if_false]
          exact settled_after fun _ _ => settled_after fun _ _ => settled_answer (by simp)
  | analyze id =>
      rw [handle_analyze]
      refine Host.ensures_query fun r s' hr hs' => ?_
      have hst : s'.1 = s.1 := by rw [← hs', Host.exec_selectBackup]
      rcases r with e | (_ | b)
      · exact settled_database
      · exact settled_not_found hst
      · refine settled_after fun r _ => ?_
        cases r with
        | ok _ => exact settled_answer (by simp [entropyResponse])
        | error _ => exact settled_answer (by simp [joinResponse, AppError.intoResponse])
  | enqueue id =>
      rw [handle_enqueue]
      refine Host.ensures_query fun r s' hr hs' => ?_
      have hst : s'.1 = s.1 := by rw [← hs', Host.exec_selectBackup]
      rcases r with e | (_ | b)
      · exact settled_database
      · exact settled_not_found hst
      · dsimp only
        split
        · refine settled_after fun r _ => ?_
          cases r with
          | ok _ => exact settled_answer (by simp)
          | error _ => exact settled_answer (by simp [AppError.intoResponse])
        · exact settled_answer (by simp [AppError.intoResponse])

end Handlers

/-! ### The layers -/

section Layers

variable {host : Host} {request : HttpRequest} {claims : Claims} {s s' : Server} {r : HttpResponse}

/-- What the routes do with a request that carries `claims`. -/
structure Answered (claims : Claims) (s : Server) (r : HttpResponse) (s' : Server) : Prop where
  counters : s'.counters = s.counters
  no401 : r.status ≠ 401
  no429 : r.status ≠ 429
  store : r.status ∈ [400, 404] → s'.store = s.store
  handled : s'.handled = s.handled ∨ s'.handled = s.handled ++ [claims]

theorem Rejection.status_ne (e : Rejection) : e.status ≠ 401 ∧ e.status ≠ 429 := by
  cases e <;> decide

theorem answered_rejection (e : Rejection) : Answered claims s e.intoResponse s where
  counters := rfl
  no401 := e.status_ne.1
  no429 := e.status_ne.2
  store _ := rfl
  handled := .inl rfl

theorem answered_runHandler (req : Request) :
    Answered claims s (.of (runHandler host claims req s).1) (runHandler host claims req s).2 := by
  have hsettled : Settled s.store (runHandler host claims req s).1 _ := handle_settled req
  rcases hsettled with ⟨hstatus, hstore⟩ | hstatus
  · have hcases : (runHandler host claims req s).1.status = 400 ∨
        (runHandler host claims req s).1.status = 404 := by simpa using hstatus
    refine ⟨rfl, ?_, ?_, fun _ => hstore, .inr rfl⟩
    · show (runHandler host claims req s).1.status ≠ 401
      omega
    · show (runHandler host claims req s).1.status ≠ 429
      omega
  · have hcases : ∀ n ∈ [400, 401, 404, 429], (runHandler host claims req s).1.status ≠ n := by
      intro n hn heq
      rw [heq] at hstatus
      simp only [List.mem_cons, List.not_mem_nil, or_false] at hn hstatus
      omega
    refine ⟨rfl, hcases 401 (by simp), hcases 429 (by simp), fun h => ?_, .inr rfl⟩
    have h' : (runHandler host claims req s).1.status ∈ [400, 404] := h
    simp only [List.mem_cons, List.not_mem_nil, or_false] at h'
    rcases h' with h' | h'
    · exact absurd h' (hcases 400 (by simp))
    · exact absurd h' (hcases 404 (by simp))

theorem backupRoutes_answered (h : request.claims = some claims) :
    Answered claims s (backupRoutes host request s).1 (backupRoutes host request s).2 := by
  unfold backupRoutes
  rw [h]
  cases request.extract host.uuid with
  | ok req => exact answered_runHandler req
  | error e => cases e <;> exact answered_rejection _

/-- What the limiter lets through goes on with its counters; the rest is
answered 429. -/
theorem limited_cases (check : Counters → Except Unit RateLimitInfo × Counters)
    (verdict : Except Unit RateLimitInfo × Counters) (config : RateLimitConfig)
    (next : Server → HttpResponse × Server) (hcheck : check s.counters = verdict) :
    (∃ info headers, verdict.1 = .ok info ∧ limited check config next s =
        ({ (next { s with counters := verdict.2 }).1 with headers },
          (next { s with counters := verdict.2 }).2)) ∨
      limited check config next s = (tooManyRequests config, { s with counters := verdict.2 }) := by
  unfold limited
  rw [hcheck]
  rcases verdict with ⟨e | info, counters⟩
  · exact .inr rfl
  · exact .inl ⟨info, _, rfl, rfl⟩

end Layers

/-! ### Requests -/

section Requests

variable (host : Host) (request : HttpRequest) (s : Server)

/-- `verify_token` returns the claims for the request's Bearer token, under
the secret in force when the request comes in. -/
def Host.Verifies (claims : Claims) : Prop :=
  ∃ token, request.bearerToken = some token ∧
    verifyToken host token (host.moment s.steps).config.jwtSecret (host.moment s.steps).utc =
      .ok claims

/-- What the limiter makes of a request of the tenant, once its claims have
been verified. -/
def Host.check (tenantId : Uuid) : Except Unit RateLimitInfo × Counters :=
  let moment := host.moment (s.steps + 1)
  checkAndIncrement s.counters tenantId moment.config.rateLimit moment.clock

/-- The limiter lets the tenant of the claims through. -/
def Host.Admits (claims : Claims) : Prop := ∃ info, (host.check s claims.tenantId).1 = .ok info

/-- The request is refused with 401, or goes on to `next` with the claims of
its token. -/
theorem authMiddleware_cases (next : Service) :
    (∃ e : AppError, e.intoResponse.status = 401 ∧
        authMiddleware host next request s = (.of e.intoResponse, s.next)) ∨
      ∃ claims, host.Verifies request s claims ∧ authMiddleware host next request s =
        next { request with claims := some claims } s.next := by
  unfold authMiddleware
  cases htoken : request.bearerToken with
  | none => exact .inl ⟨_, rfl, rfl⟩
  | some token =>
      dsimp only
      cases hverify : verifyToken host token (host.moment s.steps).config.jwtSecret
          (host.moment s.steps).utc with
      | ok claims => exact .inr ⟨claims, ⟨token, htoken, hverify⟩, rfl⟩
      | error e =>
          refine .inl ⟨e, ?_, rfl⟩
          unfold verifyToken at hverify
          split at hverify
          · cases hverify
          · cases hverify
            rfl

/-- The server after the limiter has counted a request of the tenant. -/
def Host.counted (tenantId : Uuid) : Server :=
  { s.next.next with counters := (host.check s tenantId).2 }

/-- What becomes of a request: a layer refuses it before anything is looked
up, or the limiter refuses it, or the routes answer it. -/
inductive Course : HttpResponse × Server → Prop
  | refused {r s'} (hstatus : r.status ≠ 429) (hs : s' = s ∨ s' = s.next) : Course (r, s')
  | exceeded {claims config} (hverifies : host.Verifies request s claims) :
      Course (tooManyRequests config, host.counted s claims.tenantId)
  | answered {claims r s'} (hverifies : host.Verifies request s claims)
      (hadmits : host.Admits s claims)
      (h : Answered claims (host.counted s claims.tenantId) r s') : Course (r, s')

theorem createRouter_course : Course host request s (createRouter host request s) := by
  show Course host request s (corsPermissive (requestBodyLimit (10 * 1024 * 1024)
    (authMiddleware host (rateLimitMiddleware host (backupRoutes host)))) request s)
  unfold corsPermissive
  split
  · exact .refused (by decide) (.inl rfl)
  unfold requestBodyLimit
  split
  · exact .refused (by decide) (.inl rfl)
  obtain ⟨e, hstatus, hrun⟩ | ⟨claims, hverifies, hrun⟩ := authMiddleware_cases host request s
    (rateLimitMiddleware host (backupRoutes host))
  · rw [hrun]
    refine .refused ?_ (.inr rfl)
    show e.intoResponse.status ≠ 429
    omega
  rw [hrun]
  unfold rateLimitMiddleware
  dsimp only [Option.map_some]
  obtain ⟨info, headers, hok, hrun⟩ | hrun := limited_cases
    (checkAndIncrement · claims.tenantId (host.moment s.next.steps).config.rateLimit
      (host.moment s.next.steps).clock) (host.check s claims.tenantId)
    (host.moment s.next.steps).config.rateLimit
    (backupRoutes host { request with claims := some claims }) (s := s.next.next) rfl
  · rw [hrun]
    have h := @backupRoutes_answered host { request with claims := some claims } claims
      (host.counted s claims.tenantId) rfl
    exact .answered hverifies ⟨info, hok⟩ { h with }
  · rw [hrun]
    exact .exceeded hverifies

/-- **Client errors change nothing.** A request that is answered 400, 401,
404 or 429 leaves the database, Redis and the queue as they were, with 401
also the counters, and with 429 all counters but that of the tenant in its
token. No handler runs with claims other than those of the request's token,
or without the limiter's consent. -/
theorem client_errors_change_nothing :
    ((createRouter host request s).1.status ∈ [400, 401, 404, 429] →
      (createRouter host request s).2.store.db = s.store.db ∧
        (createRouter host request s).2.store.redis = s.store.redis ∧
        (createRouter host request s).2.store.queue = s.store.queue) ∧
    ((createRouter host request s).1.status = 401 →
      (createRouter host request s).2.counters = s.counters) ∧
    ((createRouter host request s).1.status = 429 → ∃ claims, host.Verifies request s claims ∧
      ∀ tenantId ≠ claims.tenantId,
        (createRouter host request s).2.counters tenantId = s.counters tenantId) ∧
    ((createRouter host request s).2.handled = s.handled ∨
      ∃ claims, host.Verifies request s claims ∧ host.Admits s claims ∧
        (createRouter host request s).2.handled = s.handled ++ [claims]) := by
  have hcourse := createRouter_course host request s
  generalize createRouter host request s = out at hcourse ⊢
  cases hcourse with
  | refused hstatus hs =>
      obtain rfl | rfl := hs
      · exact ⟨fun _ => ⟨rfl, rfl, rfl⟩, fun _ => rfl, fun h => absurd h hstatus, .inl rfl⟩
      · exact ⟨fun _ => ⟨rfl, rfl, rfl⟩, fun _ => rfl, fun h => absurd h hstatus, .inl rfl⟩
  | exceeded hverifies =>
      have h401 : (429 : ℕ) ≠ 401 := by decide
      refine ⟨fun _ => ⟨rfl, rfl, rfl⟩, fun h => absurd h h401, fun _ => ?_, .inl rfl⟩
      exact ⟨_, hverifies, fun tenantId hne => Function.update_of_ne hne ..⟩
  | answered hverifies hadmits h =>
      refine ⟨fun hstatus => ?_, fun h401 => absurd h401 h.no401, fun h429 => absurd h429 h.no429, ?_⟩
      · have hstore := h.store (by simpa [h.no401, h.no429] using hstatus)
        rw [hstore]
        exact ⟨rfl, rfl, rfl⟩
      · exact h.handled.imp id fun hhandled => ⟨_, hverifies, hadmits, hhandled⟩

end Requests

end BackupService
