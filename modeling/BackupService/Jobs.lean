import BackupService.Provenance

/-!
Which jobs the handlers publish.

A job is made from the row that the handler has just selected, and a
response of 202 is given by nobody but an enqueue request whose job has
been published. The bookkeeping of `posting` keeps the row, and then the
job, so both facts are read off the tree of a handler, and hold for
whatever is left of it.
-/

namespace BackupService

open Lib

/-- How far a handler has come with its job. -/
inductive Post
  | nothing
  /-- The row the last operation has selected. -/
  | selected (b : Backup)
  | posted (job : BackupJob)
  deriving DecidableEq, Repr

/-- A path that is written to the database is not empty. -/
def Sql.Named : Sql → Prop
  | insertBackup _ sourcePath _ => sourcePath ≠ ""
  | _ => True

def Post.after : (o : Op) → o.Answer → Post
  | .sql (.selectBackup _ _), .ok answer =>
      match (show Option Backup from answer) with
      | some b => selected b
      | none => nothing
  | .publish job, .ok () => posted job
  | _, _ => nothing

/-- How a handler comes to its job. -/
def posting (claims : Claims) : Program.Protocol Op Op.Answer Post where
  allow g
    | .sql q => q.OnBehalfOf claims.tenantId ∧ q.Named
    | .redis _ => True
    | .config => True
    | .entropy _ => True
    | .publish job => ∃ b, g = .selected b ∧ job = b.job
  rely _
    | .sql (.selectBackup id _), r => ∀ b,
        (show Except SqlError (Option Backup) from r) = .ok (some b) → b.id = id
    | _, _ => True
  next _ o r := Post.after o r

/-- Only an enqueue request that has published its job is accepted. -/
structure Post.Final (request : Request) (g : Post) (r : Response) : Prop where
  posted : r.status = 202 → ∃ job, request = .enqueue job.backupId ∧ g = .posted job

/-! ### Every handler -/

section Handlers

open Program

variable {state : AppState} {claims : Claims} {request : Request} {g : Post}

theorem pure_posting {r : Response} (h : r.status ≠ 202) :
    Obeys (posting claims) (Post.Final request) g (pure r) :=
  ⟨fun h' => (h h').elim⟩

theorem error_posting (e : AppError) :
    Obeys (posting claims) (Post.Final request) g (pure e.intoResponse) :=
  pure_posting (by cases e <;> exact Nat.ne_of_beq_eq_false rfl)

section Cache

variable {α : Type} {Q : Post → α → Prop} {f : Unit → Action α}
  (h : ∀ g, Obeys (posting claims) Q g (f ()))

include h

theorem setBackup_posting (b : Backup) :
    Obeys (posting claims) Q g (state.cache.setBackup b >>= f) :=
  obeys_bind.mpr (state.cache.obeys_setBackup
    (fun _ => ⟨trivial, fun _ _ => ⟨trivial, fun _ _ => h _⟩⟩) fun _ => h _)

theorem setTenantBackups_posting (tenantId : Uuid) (items : List Backup) (total : ℤ) :
    Obeys (posting claims) Q g (state.cache.setTenantBackups tenantId items total >>= f) :=
  obeys_bind.mpr (state.cache.obeys_setTenantBackups
    (fun _ => ⟨trivial, fun _ _ => ⟨trivial, fun _ _ => h _⟩⟩) fun _ => h _)

theorem invalidateBackup_posting (id : Uuid) :
    Obeys (posting claims) Q g (state.cache.invalidateBackup id >>= f) :=
  obeys_bind.mpr (state.cache.obeys_invalidateBackup
    (fun _ => ⟨trivial, fun _ _ => h _⟩) fun _ => h _)

theorem invalidateTenantBackups_posting (tenantId : Uuid) :
    Obeys (posting claims) Q g (state.cache.invalidateTenantBackups tenantId >>= f) :=
  obeys_bind.mpr (state.cache.obeys_invalidateTenantBackups
    (fun _ => ⟨trivial, fun _ _ => h _⟩) fun _ => h _)

end Cache

theorem getAfterLookup_posting (id : Uuid) (copy : Option Backup) :
    Obeys (posting claims) (Post.Final (.get id)) g (getAfterLookup state claims id copy) := by
  cases copy with
  | some b => exact pure_posting (by simp)
  | none =>
      refine obeys_query.mpr ⟨⟨rfl, trivial⟩, fun r _ => ?_⟩
      rcases r with e | (_ | b)
      · exact error_posting _
      · exact error_posting _
      · exact setBackup_posting (fun _ => pure_posting (by simp)) b

theorem listAfterLookup_posting (params : ListParams) (cfg : AppConfig)
    (copy : Option (List Backup × ℤ)) :
    Obeys (posting claims) (Post.Final (.list params)) g
      (listAfterLookup state claims params cfg copy) := by
  cases copy with
  | some page => exact pure_posting (by simp [listResponse])
  | none =>
      refine obeys_query.mpr ⟨⟨rfl, trivial⟩, fun r _ => ?_⟩
      cases r with
      | error e => exact error_posting _
      | ok items =>
          refine obeys_query.mpr ⟨⟨rfl, trivial⟩, fun r _ => ?_⟩
          cases r with
          | error e => exact error_posting _
          | ok total =>
              have hfinal : ∀ g : Post, Obeys (posting claims) (Post.Final (.list params)) g
                  (pure (listResponse params items total)) :=
                fun _ => pure_posting (by simp [listResponse])
              dsimp only
              split
              · exact setTenantBackups_posting (fun _ => hfinal _) ..
              · exact hfinal _

theorem handle_posting (state : AppState) (claims : Claims) (request : Request) :
    Obeys (posting claims) (Post.Final request) .nothing (handle state claims request) := by
  cases request with
  | create req =>
      rw [handle_create]
      cases hpath : validateSourcePath req.sourcePath with
      | error e => exact error_posting _
      | ok _ =>
          have hnamed : req.sourcePath ≠ "" := by
            intro hempty
            rw [validateSourcePath, hempty] at hpath
            cases hpath
          refine obeys_query.mpr ⟨⟨rfl, hnamed⟩, fun r _ => ?_⟩
          cases r with
          | error e => exact error_posting _
          | ok b => exact invalidateTenantBackups_posting (fun _ => pure_posting (by simp)) _
  | get id =>
      rw [handle_get]
      exact obeys_bind.mpr (state.cache.obeys_getBackup
        (fun _ => ⟨trivial, fun _ _ => getAfterLookup_posting ..⟩)
        fun _ => getAfterLookup_posting ..)
  | list params =>
      rw [handle_list]
      refine obeys_readConfig.mpr ⟨trivial, fun cfg _ => ?_⟩
      split
      · exact obeys_bind.mpr (state.cache.obeys_getTenantBackups
          (fun _ => ⟨trivial, fun _ _ => listAfterLookup_posting ..⟩)
          fun _ => listAfterLookup_posting ..)
      · exact listAfterLookup_posting ..
  | update id req =>
      rw [handle_update]
      refine obeys_query.mpr ⟨⟨rfl, trivial⟩, fun r _ => ?_⟩
      rcases r with e | (_ | b)
      · exact error_posting _
      · exact error_posting _
      · exact invalidateBackup_posting (fun _ =>
          invalidateTenantBackups_posting (fun _ => pure_posting (by simp)) _) _
  | delete id =>
      rw [handle_delete]
      refine obeys_query.mpr ⟨⟨rfl, trivial⟩, fun r _ => ?_⟩
      rcases r with e | n
      · exact error_posting _
      · dsimp only
        split
        · exact error_posting _
        · exact invalidateBackup_posting (fun _ =>
            invalidateTenantBackups_posting (fun _ => pure_posting (by simp)) _) _
  | analyze id =>
      rw [handle_analyze]
      refine obeys_query.mpr ⟨⟨rfl, trivial⟩, fun r _ => ?_⟩
      rcases r with e | (_ | b)
      · exact error_posting _
      · exact error_posting _
      · refine obeys_spawnEntropy.mpr ⟨trivial, fun r _ => ?_⟩
        cases r with
        | error e => exact error_posting _
        | ok entropy => exact pure_posting (by simp [entropyResponse])
  | enqueue id =>
      rw [handle_enqueue]
      refine obeys_query.mpr ⟨⟨rfl, trivial⟩, fun r hr => ?_⟩
      rcases r with e | (_ | b)
      · exact error_posting _
      · exact error_posting _
      · obtain rfl : b.id = id := hr b rfl
        dsimp only
        split
        · refine obeys_publish.mpr ⟨⟨b, rfl, rfl⟩, fun r _ => ?_⟩
          cases r with
          | error e => exact error_posting _
          | ok _ => exact ⟨fun _ => ⟨b.job, rfl, rfl⟩⟩
        · exact error_posting _

end Handlers

/-! ### Threads -/

/-- The thread has come as far as `g`. -/
def Thread.Posting (g : Post) (th : Thread) : Prop :=
  Program.Obeys (posting th.claims) (Post.Final th.request) g th.prog

theorem newThread_posting (s : State) (replica : ℕ) (claims : Claims) (request : Request)
    (oracle : Oracle) : (s.newThread replica claims request oracle).Posting .nothing :=
  handle_posting ..

namespace Thread.Posting

variable {g : Post} {th : Thread}

theorem allow (h : th.Posting g) {o : Op} {k : o.Answer → Action Response}
    (hprog : th.prog = .op o k) : (posting th.claims).allow g o := by
  rw [Thread.Posting, hprog] at h
  exact h.1

theorem next (h : th.Posting g) {o : Op} {k : o.Answer → Action Response}
    (hprog : th.prog = .op o k) {r : o.Answer} (hr : (posting th.claims).rely g o r) :
    Thread.Posting (Post.after o r) { th with prog := k r } := by
  rw [Thread.Posting, hprog] at h
  exact h.2 r hr

theorem final (h : th.Posting g) {r : Response} (hprog : th.prog = .ret r) :
    g.Final th.request r := by
  rw [Thread.Posting, hprog] at h
  exact h

end Thread.Posting

section Exec

variable {env : Env} {oracle : Oracle} {config : AppConfig} {clock : ℕ} {st : Store}

theorem exec_rely_posting {claims : Claims} (g : Post) (o : Op) :
    (posting claims).rely g o (o.exec env oracle config clock st).1 := by
  cases o with
  | sql s =>
      cases s with
      | selectBackup id tenantId =>
          intro b hb
          obtain ⟨hfind, -⟩ := exec_selectBackup_ok _ _ _ _ (exec_sql_ok hb).1
          exact (Table.find_eq_some.mp hfind).2
      | insertBackup | selectBackups | countBackups | updateBackup | deleteBackup | setStatus
      | setCompleted | setFailed => trivial
  | redis c => trivial
  | config | entropy => trivial
  | publish job => trivial

/-- A selected row is a row of the table, which stays as it is. -/
theorem after_exec_selected {o : Op} {b : Backup}
    (h : Post.after o (o.exec env oracle config clock st).1 = .selected b) :
    st.db.find b.id = some b ∧ (o.exec env oracle config clock st).2.db = st.db := by
  cases o with
  | sql s =>
      cases s with
      | selectBackup id tenantId =>
          rcases hr : ((Op.sql (.selectBackup id tenantId)).exec env oracle config clock st).1 with
            e | answer
          · rw [hr] at h
            cases h
          · obtain ⟨hok, hdb⟩ := exec_sql_ok hr
            rw [hr] at h
            rcases answer with _ | b'
            · cases h
            · obtain rfl := Post.selected.inj h
              obtain ⟨hfind, -⟩ := exec_selectBackup_ok _ _ _ _ hok
              rw [(Table.find_eq_some.mp hfind).2]
              exact ⟨hfind, hdb⟩
      | insertBackup | selectBackups | countBackups | updateBackup | deleteBackup | setStatus
      | setCompleted | setFailed =>
          simp [Post.after] at h
  | redis c => cases h
  | config | entropy => cases h
  | publish job =>
      rcases hr : ((Op.publish job).exec env oracle config clock st).1 with e | ⟨⟩
      · rw [hr] at h
        cases h
      · rw [hr] at h
        cases h

end Exec

/-! ### Runs -/

/-- Every request in flight keeps to the protocol. -/
def State.Posts (s : State) : Prop := ∀ id th, s.inflight id = some th → ∃ g, th.Posting g

section Runs

variable {uuid : UuidParser} {s : State} {e : Event}

theorem step_posts (h : s.Posts) : ((system uuid).step s e).1.Posts := by
  intro id th hth
  obtain hold | ⟨replica, seq, claims, request, oracle, -, -, rfl⟩ |
    ⟨env, th₀, o, k, -, hold, hprog, rfl⟩ := step_inflight hth
  · exact h id th hold
  · exact ⟨.nothing, newThread_posting ..⟩
  · obtain ⟨g, hg⟩ := h id th₀ hold
    exact ⟨_, hg.next hprog (exec_rely_posting g o)⟩

/-- A thread that is about to publish a job has been so before, or it has
just selected the row the job is made from. -/
theorem step_publishing (h : s.Posts) {id : ReqId} {th : Thread} {job : BackupJob}
    {k : Except LapinError Unit → Action Response}
    (hth : ((system uuid).step s e).1.inflight id = some th) (hprog : th.prog = .op (.publish job) k) :
    s.inflight id = some th ∨ ∃ b, s.store.db.find b.id = some b ∧ job = b.job ∧
      ((system uuid).step s e).1.store.db = s.store.db := by
  obtain hold | ⟨replica, seq, claims, request, oracle, -, -, rfl⟩ |
    ⟨env, th₀, o, k₀, rfl, hold, hprog₀, rfl⟩ := step_inflight hth
  · exact .inl hold
  · obtain ⟨b, hb, -⟩ := (newThread_posting s replica claims request oracle).allow hprog
    cases hb
  · obtain ⟨g, hg⟩ := h id th₀ hold
    obtain ⟨b, hb, hjob⟩ := (hg.next hprog₀ (exec_rely_posting g o)).allow hprog
    obtain ⟨hfind, hdb⟩ := after_exec_selected hb
    refine .inr ⟨b, hfind, hjob, ?_⟩
    rw [step_step, State.stepThread_op hold hprog₀]
    exact hdb

end Runs

end BackupService
