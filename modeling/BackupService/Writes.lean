import BackupService.Provenance
import BackupService.Rows

/-!
Who writes to a row.

A handler issues the statements of its request and no others
(`Request.statements`, `handle_issuing`), so a statement that a thread
executes is known by the request and the claims of the thread. A write is
committed when the database says so, whoever gets to see the answer
(`State.committed`), and `step_find` says what becomes of a row: it is what
its committed write makes of it, and the same if there is none.
-/

namespace BackupService

open Lib

/-! ### The statements of a request -/

/-- The statements a request may issue. -/
def Request.statements (claims : Claims) : Request → List Sql
  | create req =>
      match validateSourcePath req.sourcePath with
      | .ok () => [.insertBackup claims.tenantId req.sourcePath req.encryptionEnabled]
      | .error _ => []
  | get id => [.selectBackup id claims.tenantId]
  | list params =>
      [.selectBackups claims.tenantId params.status (clamp params.limit 1 100) (max params.offset 0),
        .countBackups claims.tenantId params.status]
  | update id req =>
      [.updateBackup id claims.tenantId (req.status.map BackupStatus.toString) req.sizeBytes]
  | delete id => [.deleteBackup id claims.tenantId]
  | analyze id => [.selectBackup id claims.tenantId]
  | enqueue id => [.selectBackup id claims.tenantId]

/-- A handler issues statements of its request only. -/
def issuing (claims : Claims) (request : Request) : Program.Protocol Op Op.Answer Unit where
  allow _
    | .sql q => q ∈ request.statements claims
    | _ => True
  rely _ _ _ := True
  next _ _ _ := ()

section Handlers

open Program

variable {state : AppState} {claims : Claims} {request : Request}

/-- Whatever the handler answers. -/
abbrev Issues (claims : Claims) (request : Request) {α : Type} (p : Action α) : Prop :=
  Obeys (issuing claims request) (fun _ _ => True) () p

theorem pure_issuing {α : Type} (a : α) : Issues claims request (pure a) := trivial

section Cache

variable {α : Type} {f : Unit → Action α} (h : ∀ u, Issues claims request (f u))

include h

theorem setBackup_issuing (b : Backup) : Issues claims request (state.cache.setBackup b >>= f) :=
  obeys_bind.mpr (state.cache.obeys_setBackup
    (fun _ => ⟨trivial, fun _ _ => ⟨trivial, fun _ _ => h _⟩⟩) fun _ => h _)

theorem setTenantBackups_issuing (tenantId : Uuid) (items : List Backup) (total : ℤ) :
    Issues claims request (state.cache.setTenantBackups tenantId items total >>= f) :=
  obeys_bind.mpr (state.cache.obeys_setTenantBackups
    (fun _ => ⟨trivial, fun _ _ => ⟨trivial, fun _ _ => h _⟩⟩) fun _ => h _)

theorem invalidateBackup_issuing (id : Uuid) :
    Issues claims request (state.cache.invalidateBackup id >>= f) :=
  obeys_bind.mpr (state.cache.obeys_invalidateBackup (fun _ => ⟨trivial, fun _ _ => h _⟩) fun _ => h _)

theorem invalidateTenantBackups_issuing (tenantId : Uuid) :
    Issues claims request (state.cache.invalidateTenantBackups tenantId >>= f) :=
  obeys_bind.mpr (state.cache.obeys_invalidateTenantBackups
    (fun _ => ⟨trivial, fun _ _ => h _⟩) fun _ => h _)

end Cache

theorem getAfterLookup_issuing (id : Uuid) (copy : Option Backup) :
    Issues claims (.get id) (getAfterLookup state claims id copy) := by
  cases copy with
  | some b => exact pure_issuing _
  | none =>
      refine obeys_query.mpr ⟨List.mem_cons_self, fun r _ => ?_⟩
      rcases r with e | (_ | b)
      · exact pure_issuing _
      · exact pure_issuing _
      · exact setBackup_issuing (fun _ => pure_issuing _) b

theorem listAfterLookup_issuing (params : ListParams) (cfg : AppConfig)
    (copy : Option (List Backup × ℤ)) :
    Issues claims (.list params) (listAfterLookup state claims params cfg copy) := by
  cases copy with
  | some page => exact pure_issuing _
  | none =>
      refine obeys_query.mpr ⟨List.mem_cons_self, fun r _ => ?_⟩
      cases r with
      | error e => exact pure_issuing _
      | ok items =>
          refine obeys_query.mpr ⟨List.mem_cons_of_mem _ List.mem_cons_self, fun r _ => ?_⟩
          cases r with
          | error e => exact pure_issuing _
          | ok total =>
              dsimp only
              split
              · exact setTenantBackups_issuing (fun _ => pure_issuing _) ..
              · exact pure_issuing _

theorem handle_issuing (state : AppState) (claims : Claims) (request : Request) :
    Issues claims request (handle state claims request) := by
  cases request with
  | create req =>
      rw [handle_create]
      cases hpath : validateSourcePath req.sourcePath with
      | error e => exact pure_issuing _
      | ok _ =>
          refine obeys_query.mpr ⟨?_, fun r _ => ?_⟩
          · -- The INSERT is issued only where the path has passed the check.
            show _ ∈ Request.statements claims (.create req)
            rw [Request.statements, hpath]
            exact List.mem_cons_self
          · cases r with
            | error e => exact pure_issuing _
            | ok b => exact invalidateTenantBackups_issuing (fun _ => pure_issuing _) _
  | get id =>
      rw [handle_get]
      exact obeys_bind.mpr (state.cache.obeys_getBackup
        (fun _ => ⟨trivial, fun _ _ => getAfterLookup_issuing ..⟩)
        fun _ => getAfterLookup_issuing ..)
  | list params =>
      rw [handle_list]
      refine obeys_readConfig.mpr ⟨trivial, fun cfg _ => ?_⟩
      split
      · exact obeys_bind.mpr (state.cache.obeys_getTenantBackups
          (fun _ => ⟨trivial, fun _ _ => listAfterLookup_issuing ..⟩)
          fun _ => listAfterLookup_issuing ..)
      · exact listAfterLookup_issuing ..
  | update id req =>
      rw [handle_update]
      refine obeys_query.mpr ⟨List.mem_cons_self, fun r _ => ?_⟩
      rcases r with e | (_ | b)
      · exact pure_issuing _
      · exact pure_issuing _
      · exact invalidateBackup_issuing (fun _ =>
          invalidateTenantBackups_issuing (fun _ => pure_issuing _) _) _
  | delete id =>
      rw [handle_delete]
      refine obeys_query.mpr ⟨List.mem_cons_self, fun r _ => ?_⟩
      rcases r with e | n
      · exact pure_issuing _
      · dsimp only
        split
        · exact pure_issuing _
        · exact invalidateBackup_issuing (fun _ =>
          invalidateTenantBackups_issuing (fun _ => pure_issuing _) _) _
  | analyze id =>
      rw [handle_analyze]
      refine obeys_query.mpr ⟨List.mem_cons_self, fun r _ => ?_⟩
      rcases r with e | (_ | b)
      · exact pure_issuing _
      · exact pure_issuing _
      · refine obeys_spawnEntropy.mpr ⟨trivial, fun r _ => ?_⟩
        cases r <;> exact pure_issuing _
  | enqueue id =>
      rw [handle_enqueue]
      refine obeys_query.mpr ⟨List.mem_cons_self, fun r _ => ?_⟩
      rcases r with e | (_ | b)
      · exact pure_issuing _
      · exact pure_issuing _
      · dsimp only
        split
        · refine obeys_publish.mpr ⟨trivial, fun r _ => ?_⟩
          cases r <;> exact pure_issuing _
        · exact pure_issuing _

end Handlers

/-! ### Threads -/

/-- Every request in flight issues its own statements. -/
def State.Issuing (s : State) : Prop :=
  ∀ id th, s.inflight id = some th → Issues th.claims th.request th.prog

section Runs

variable {uuid : UuidParser} {s : State}

theorem issuing_initial (db : Table) (replicas : ℕ → Replica) : (State.initial db replicas).Issuing :=
  fun _ _ hth => nomatch hth

theorem issuing_step (h : s.Issuing) (e : Event) : ((system uuid).step s e).1.Issuing := by
  intro id th hth
  obtain hold | ⟨replica, seq, claims, request, oracle, -, -, rfl⟩ |
    ⟨env, th₀, o, k, -, hold, hprog, rfl⟩ := step_inflight hth
  · exact h id th hold
  · exact handle_issuing ..
  · have hobeys := h id th₀ hold
    rw [hprog] at hobeys
    exact hobeys.2 _ trivial

/-- The statement a thread executes is one of its request's. -/
theorem State.Issuing.mem (h : s.Issuing) {id : ReqId} {th : Thread} {q : Sql}
    {k : Except SqlError q.Answer → Action Response} (hth : s.inflight id = some th)
    (hprog : th.prog = .op (.sql q) k) : q ∈ th.request.statements th.claims := by
  have hobeys := h id th hth
  rw [hprog] at hobeys
  exact hobeys.1

end Runs

/-! ### Committed writes -/

/-- A write to a row: by a request of a user, or by a callback. -/
inductive Write
  | request (claims : Claims) (request : Request) (oracle : Oracle)
  | callback (call : Rpc)
  deriving DecidableEq

/-- The columns a write names. -/
def Write.named : Write → Assignments
  | request _ (.update _ req) _ =>
      { status := req.status.map BackupStatus.toString, sizeBytes := req.sizeBytes }
  | request _ _ _ => {}
  | callback (.updateStatus msg) => { status := some msg.status }
  | callback (.reportResult result) =>
      if result.status = "completed" then
        { status := some "completed", sizeBytes := some result.sizeBytes }
      else { status := some "failed" }

/-- The row a statement of a thread or of a callback has written, unless it
has not reached the database. -/
def Env.committed (env : Env) (oracle : Oracle) (t : Table) (q : Sql) : Option Uuid :=
  match env.sql with
  | .before => none
  | .none => q.written (q.exec env.order oracle t).1
  | .after => q.written (q.exec env.order oracle t).1

/-- The write an event commits, and the row it has written. -/
def State.committed (uuid : UuidParser) (s : State) : Event → Option (Uuid × Write)
  | .step id env =>
      match s.inflight id with
      | none => none
      | some th =>
          match th.prog with
          | .op (.sql q) _ => (env.committed th.oracle s.store.db q).map
              (·, .request th.claims th.request th.oracle)
          | _ => none
  | .rpc call oracle env =>
      match uuid.parse call.backupId with
      | .error _ => none
      | .ok id => (env.committed oracle s.store.db (call.statement id)).map (·, .callback call)
  | _ => none

/-- What a committed write makes of the row. -/
inductive Write.Takes (id : Uuid) : Write → Option Backup → Option Backup → Prop
  | created {claims req oracle} (hpath : validateSourcePath req.sourcePath = .ok ())
      (hid : oracle.newId = id) : Takes id (.request claims (.create req) oracle) none
        (some (newBackup oracle claims.tenantId req.sourcePath req.encryptionEnabled))
  | patched {claims req oracle r} (htenant : r.tenantId = claims.tenantId) :
      Takes id (.request claims (.update id req) oracle) (some r)
        (some ((Write.request claims (.update id req) oracle).named.apply oracle.now r))
  | deleted {claims oracle r} (htenant : r.tenantId = claims.tenantId) :
      Takes id (.request claims (.delete id) oracle) (some r) none
  | called {call now r} :
      Takes id (.callback call) (some r) (some ((Write.callback call).named.apply now r))

section Committed

variable {uuid : UuidParser} {s : State} {e : Event} {id : Uuid}

/-- A statement that has written to the row is a write of its request. -/
theorem takes_request {claims : Claims} {request : Request} {oracle : Oracle} {q : Sql}
    {row row' : Option Backup} (hq : q ∈ request.statements claims) (h : q.Writes oracle id row row') :
    Write.Takes id (.request claims request oracle) row row' := by
  cases request with
  | create req =>
      rw [Request.statements] at hq
      cases hpath : validateSourcePath req.sourcePath with
      | error e =>
          rw [hpath] at hq
          cases hq
      | ok _ =>
          rw [hpath] at hq
          obtain rfl := List.mem_singleton.mp hq
          cases h with
          | inserted hid => exact .created hpath hid
  | update id' req =>
      obtain rfl := List.mem_singleton.mp hq
      cases h with
      | updated htenant => exact .patched htenant
  | delete id' =>
      obtain rfl := List.mem_singleton.mp hq
      cases h with
      | deleted htenant => exact .deleted htenant
  | get id' | analyze id' | enqueue id' =>
      obtain rfl := List.mem_singleton.mp hq
      cases h
  | list params =>
      rcases List.mem_cons.mp hq with rfl | hq
      · cases h
      · obtain rfl := List.mem_singleton.mp hq
        cases h

theorem takes_callback {call : Rpc} {oracle : Oracle} {id' : Uuid} {row row' : Option Backup}
    (h : (call.statement id').Writes oracle id row row') :
    Write.Takes id (.callback call) row row' := by
  cases call with
  | updateStatus msg =>
      rw [Rpc.statement] at h
      cases h with
      | statusSet => exact .called
  | reportResult result =>
      rw [Rpc.statement] at h
      by_cases hs : result.status = "completed"
      · rw [if_pos hs] at h
        cases h with
        | completed =>
            have hnamed : (Write.callback (.reportResult result)).named =
                { status := some "completed", sizeBytes := some result.sizeBytes } := if_pos hs
            rw [← hnamed]
            exact .called
      · rw [if_neg hs] at h
        cases h with
        | failed =>
            have hnamed : (Write.callback (.reportResult result)).named =
                { status := some "failed" } := if_neg hs
            rw [← hnamed]
            exact .called

/-- The row, after a statement that may have reached the database. -/
theorem committed_cases (env : Env) (oracle : Oracle) (config : AppConfig) (clock : ℕ) (st : Store)
    (id : Uuid) (q : Sql) :
    env.committed oracle st.db q = some id ∧ q.Writes oracle id (st.db.find id)
        (((Op.sql q).exec env oracle config clock st).2.db.find id) ∨
      env.committed oracle st.db q ≠ some id ∧
        ((Op.sql q).exec env oracle config clock st).2.db.find id = st.db.find id := by
  simp only [Env.committed, Op.exec]
  cases env.sql with
  | before => exact .inr ⟨by simp, rfl⟩
  | none => exact written_cases ..
  | after => exact written_cases ..

variable (uuid) in
/-- **The row after an event** is what the committed write makes of it, and
without one it is the same. -/
theorem step_find (h : s.Issuing) (e : Event) (id : Uuid) :
    (∃ w, s.committed uuid e = some (id, w) ∧
        w.Takes id (s.store.db.find id) (((system uuid).step s e).1.store.db.find id)) ∨
      (∀ w, s.committed uuid e ≠ some (id, w)) ∧
        ((system uuid).step s e).1.store.db.find id = s.store.db.find id := by
  -- Most events commit nothing and leave the table alone.
  have hsilent : s.committed uuid e = none →
      ((system uuid).step s e).1.store.db = s.store.db →
      (∃ w, s.committed uuid e = some (id, w) ∧
        w.Takes id (s.store.db.find id) (((system uuid).step s e).1.store.db.find id)) ∨
      (∀ w, s.committed uuid e ≠ some (id, w)) ∧
        ((system uuid).step s e).1.store.db.find id = s.store.db.find id := by
    intro hnone hdb
    exact .inr ⟨fun w hw => by simp [hnone] at hw, by rw [hdb]⟩
  cases e with
  | step rid env =>
      cases hth : s.inflight rid with
      | none =>
          refine hsilent (by simp only [State.committed, hth]) ?_
          rw [step_step, State.stepThread_none hth]
      | some th =>
          cases hprog : th.prog with
          | ret response =>
              refine hsilent (by simp only [State.committed, hth, hprog]) ?_
              rw [step_step, State.stepThread_ret hth hprog, State.setThread_store]
          | op o k =>
              cases o with
              | sql q =>
                  simp only [step_step, State.stepThread_op hth hprog, State.setThread_store,
                    State.setStore_store, State.exec, State.committed, hth, hprog]
                  rcases committed_cases env th.oracle (s.replicas th.replica).config s.clock s.store
                    id q with ⟨hcommitted, hwrites⟩ | ⟨hcommitted, hsame⟩
                  · exact .inl ⟨_, by rw [hcommitted, Option.map_some],
                      takes_request (h.mem hth hprog) hwrites⟩
                  · refine .inr ⟨fun w hw => hcommitted ?_, hsame⟩
                    obtain ⟨id', hid', heq⟩ := Option.map_eq_some_iff.mp hw
                    rw [hid', (Prod.mk.inj heq).1]
              | redis | config | publish | entropy =>
                  refine hsilent (by simp only [State.committed, hth, hprog]) ?_
                  rw [step_step, State.stepThread_op hth hprog, State.setThread_store,
                    State.setStore_store, State.exec]
                  simp only [Op.exec]
                  try split
                  all_goals rfl
  | rpc call oracle env =>
      rcases s.call_store uuid call oracle env with ⟨e, hparse, hstore⟩ | ⟨id', hparse, hstore⟩
      · refine hsilent (by simp only [State.committed, hparse]) ?_
        rw [step_rpc, State.setStore_store, hstore]
      · simp only [step_rpc, State.setStore_store, hstore, State.committed, hparse]
        rcases committed_cases env oracle (s.replicas 0).config s.clock s.store id
          (call.statement id') with ⟨hcommitted, hwrites⟩ | ⟨hcommitted, hsame⟩
        · exact .inl ⟨_, by rw [hcommitted, Option.map_some], takes_callback hwrites⟩
        · refine .inr ⟨fun w hw => hcommitted ?_, hsame⟩
          obtain ⟨id'', hid', heq⟩ := Option.map_eq_some_iff.mp hw
          rw [hid', (Prod.mk.inj heq).1]
  | start replica seq claims request oracle =>
      refine hsilent rfl ?_
      rw [step_start, State.start]
      split <;> rfl
  | drop | configUpdate | expire | advance => exact hsilent rfl rfl

end Committed

end BackupService
