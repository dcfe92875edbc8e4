import BackupService.Quiescence
import BackupService.Rows
import Mathlib.Data.List.Chain

/-!
The status of a row whose job may be delivered more than once.

A row is created as `pending`, a worker sets it to `running` when it takes
the job, and to `completed` when it reports. Both writes are unconditional,
so a second delivery of the job takes a completed row back to `running`.
That is all that can happen to a row that is neither patched nor deleted,
whoever makes the calls: a worker that has the delivery in its hand, with or
without its channel, or one that has given the call up (`Pipeline.Makes`).
-/

namespace BackupService

open Lib Program

/-- The status of a row. -/
def State.statusOf (s : State) (id : Uuid) : Option String :=
  (s.store.db.find id).map Backup.status

theorem statusOf_of_db {s s' : State} (h : s'.store.db = s.store.db) (id : Uuid) :
    s'.statusOf id = s.statusOf id := by
  rw [State.statusOf, h, State.statusOf]

/-! ### What a step does to the status -/

/-- The event executes the call for the job, which a worker makes at `g` or
has given up. -/
inductive Pipeline.Makes (s : Pipeline) (g : Progress) (job : BackupJob) (call : Rpc) :
    PipelineEvent → List PipelineObs → Prop
  | worker {w env hand r obs} (hin : (s.consumers w).inHand = some hand) (hat : hand.At g)
      (hjob : hand.message = .job job) :
      Makes s g job call (.work w env) (.worked w (.rpc call) r :: obs)
  | late {i oracle sql obs} (hi : s.late[i]? = some call) :
      Makes s g job call (.late i oracle sql) (.late call :: obs)

/-- The status of the row before and after a step that shows `obs`. -/
inductive StatusStep (s s' : Pipeline) (id : Uuid) : PipelineEvent → List PipelineObs → Prop
  | same {e obs} (h : s'.api.statusOf id = s.api.statusOf id) : StatusStep s s' id e obs
  | created {e obs} (hnone : s.api.statusOf id = none) (h : s'.api.statusOf id = some "pending") :
      StatusStep s s' id e obs
  /-- A worker has just taken the job. -/
  | running {e obs job} (hmakes : s.Makes .start job (.updateStatus job.runningUpdate) e obs)
      (hid : job.backupId = id) (h : s'.api.statusOf id = (s.api.statusOf id).map fun _ => "running") :
      StatusStep s s' id e obs
  /-- A worker reports the job. -/
  | completed {e obs job result} (hmakes : s.Makes .running job (.reportResult result) e obs)
      (hby : job.ReportedBy result) (hid : job.backupId = id)
      (h : s'.api.statusOf id = (s.api.statusOf id).map fun _ => "completed") :
      StatusStep s s' id e obs

/-- A request that neither patches nor deletes the row can have created it. -/
theorem statusOf_request {s s' : State} {id tenantId : Uuid} (order : RowOrder) (oracle : Oracle)
    {q : Sql} (hq : q.OnBehalfOf tenantId) (hdb : s'.store.db = (q.exec order oracle s.store.db).2)
    (hun : Untouched (q.effects s.store.db s'.store.db) id) :
    s'.statusOf id = s.statusOf id ∨ s.statusOf id = none ∧ s'.statusOf id = some "pending" := by
  rw [State.statusOf, State.statusOf, hdb]
  rw [hdb] at hun
  obtain hnone | hsame | hpatch | hdelete := effects_find order oracle (t := s.store.db) hq id
  · rw [find_exec, hnone]
    cases q with
    | insertBackup tenantId' sourcePath encryptionEnabled =>
        simp only [Sql.rewrite, Option.none_or]
        split
        · exact .inr ⟨rfl, rfl⟩
        · exact .inl rfl
    | selectBackup | selectBackups | countBackups | updateBackup | deleteBackup | setStatus
      | setCompleted | setFailed => exact .inl rfl
  · exact .inl (congrArg _ hsame)
  · exact (hun.1 hpatch).elim
  · exact (hun.2 hdelete).elim

section Step

variable {uuid : UuidParser} {broker : Broker} {s s' : Pipeline} {id : Uuid} {w : ℕ}
  {env : WorkerEnv}

variable (env) in
/-- A call about the backup writes its status, or fails. -/
theorem statusOf_call (desk : Desk) {call : Rpc} {status : String}
    (hid : uuid.parse call.backupId = .ok id) (hstatus : call.assignments.status = some status) :
    ((WorkerOp.rpc call).exec uuid env desk).2.api.statusOf id = desk.api.statusOf id ∨
      ((WorkerOp.rpc call).exec uuid env desk).2.api.statusOf id =
        (desk.api.statusOf id).map fun _ => status := by
  rw [State.statusOf, State.statusOf]
  rcases exec_rpc uuid env desk hid with hdb | ⟨hdb, -⟩
  · rw [hdb]
    rcases @find_statement .stable env.oracle desk.api.store.db call id id with
      hsame | ⟨-, -, hfind⟩
    · exact .inl (congrArg _ hsame)
    · refine .inr ?_
      rw [hfind, Option.map_map, Option.map_map]
      refine congrArg (Option.map · _) (funext fun r => ?_)
      show call.assignments.status.getD r.status = status
      rw [hstatus, Option.getD_some]
  · exact .inl (by rw [hdb])

/-- A call about one backup leaves the status of the others alone. -/
theorem statusOf_call_of_ne (desk : Desk) {call : Rpc} {id' : Uuid}
    (hid : uuid.parse call.backupId = .ok id') (hne : id ≠ id') :
    ((WorkerOp.rpc call).exec uuid env desk).2.api.statusOf id = desk.api.statusOf id := by
  rw [State.statusOf, State.statusOf]
  rcases exec_rpc uuid env desk hid with hdb | ⟨hdb, -⟩
  · rw [hdb]
    rcases @find_statement .stable env.oracle desk.api.store.db call id' id with
      hsame | ⟨heq, -⟩
    · exact congrArg _ hsame
    · exact (hne heq).elim
  · rw [hdb]

/-- A call for a job sets the row to what it says, or does nothing. -/
theorem statusOf_calls (env : WorkerEnv) (desk : Desk) (job : BackupJob) {call : Rpc}
    {e : PipelineEvent} {obs : List PipelineObs} (hdesk : desk.api = s.api)
    (hs' : s'.api = ((WorkerOp.rpc call).exec uuid env desk).2.api)
    (hcall : call = .updateStatus job.runningUpdate ∧ s.Makes .start job call e obs ∨
      ∃ result, call = .reportResult result ∧ job.ReportedBy result ∧
        s.Makes .running job call e obs) : StatusStep s s' id e obs := by
  have hcalls : job.Calls call :=
    hcall.imp And.left fun ⟨result, hreport, hby, _⟩ => ⟨result, hreport, hby⟩
  by_cases hne : id = job.backupId
  · subst hne
    obtain ⟨rfl, hmakes⟩ | ⟨result, rfl, hby, hmakes⟩ := hcall
    · rcases statusOf_call env desk (hcalls.parse uuid) rfl with hsame | hset
      · exact .same (by rw [hs', hsame, hdesk])
      · refine .running hmakes rfl ?_
        rw [hs', hset, hdesk]
        rfl
    · have hstatus : (Rpc.reportResult result).assignments.status = some "completed" := by
        rw [Rpc.assignments, if_pos hby.status]
      rcases statusOf_call env desk (hcalls.parse uuid) hstatus with hsame | hset
      · exact .same (by rw [hs', hsame, hdesk])
      · exact .completed hmakes hby rfl (by rw [hs', hset, hdesk])
  · exact .same (by rw [hs', statusOf_call_of_ne desk (hcalls.parse uuid) hne, hdesk])

theorem works_statusOf (h : s.Sound) {obs : List PipelineObs} (hw : Works uuid s w env s' obs) :
    StatusStep s s' id (.work w env) obs := by
  cases hw with
  | idle => exact .same rfl
  | take => exact .same rfl
  | ret => exact .same rfl
  | @op hand o k env' hin hprog =>
      obtain ⟨g, hat⟩ := h.hands w hand hin
      cases o with
      | rpc call =>
          obtain ⟨job, hjob, hallow⟩ := hat.allow hprog
          refine statusOf_calls env' ⟨s.api, hand.decision⟩ job rfl rfl (hallow.imp ?_ ?_)
          · rintro ⟨rfl, hcall⟩
            exact ⟨hcall, .worker hin hat hjob⟩
          · rintro ⟨rfl, result, hcall, hby⟩
            exact ⟨result, hcall, hby, .worker hin hat hjob⟩
      | analyze data => exact .same rfl
      | settle d =>
          have ho : ∀ call, WorkerOp.settle d ≠ .rpc call := by
            intro call ho
            cases ho
          exact .same (statusOf_of_db (exec_worker_db uuid env' ⟨s.api, hand.decision⟩ ho) id)

theorem late_statusOf (h : s.Sound) (i : ℕ) (oracle : Oracle) (sql : Fault) :
    StatusStep s (s.executeLate uuid i oracle sql).1 id (.late i oracle sql)
      (s.executeLate uuid i oracle sql).2 := by
  obtain hnone | ⟨call, hi, hapi, hobs⟩ := executes_late s uuid i oracle sql
  · rw [hnone]
    exact .same rfl
  · obtain ⟨job, hcall⟩ := h.late call (List.mem_of_getElem? hi)
    rw [hobs]
    exact statusOf_calls _ _ job (by rfl) hapi (hcall.imp (fun hcall => ⟨hcall, .late hi⟩)
      fun ⟨result, hcall, hby⟩ => ⟨result, hcall, hby, .late hi⟩)

variable (uuid broker) in
theorem step_statusOf (h : s.Sound) (e : PipelineEvent)
    (hun : Untouched ((pipeline uuid broker).step s e).2 id) :
    StatusStep s ((pipeline uuid broker).step s e).1 id e ((pipeline uuid broker).step s e).2 := by
  cases e with
  | work w env => exact works_statusOf h (works uuid s w env)
  | late i oracle sql => exact late_statusOf h i oracle sql
  | api | publishMalformed | deliver | stop | settle | disconnect | close =>
      obtain hdb | ⟨order, oracle, tenantId, q, hq, -, hdb, hobs⟩ |
        ⟨_, _, _, ⟨_, _, he⟩ | ⟨_, _, he⟩, -⟩ := step_db uuid broker h _
      · exact .same (statusOf_of_db hdb id)
      · rw [hobs] at hun
        rcases statusOf_request order oracle hq hdb hun with hsame | ⟨hnone, hpending⟩
        · exact .same hsame
        · exact .created hnone hpending
      · cases he
      · cases he

/-- Of the ways in which a step changes a status only one begins at
`completed` and leaves it. -/
theorem StatusStep.leaves_completed {s s' : Pipeline} {e : PipelineEvent} {obs : List PipelineObs}
    (h : StatusStep s s' id e obs) (hcompleted : s.api.statusOf id = some "completed")
    (hset : s'.api.statusOf id ≠ some "completed") :
    s'.api.statusOf id = some "running" ∧ ∃ job : BackupJob, job.backupId = id ∧
      ((∃ w r, .worked w (.rpc (.updateStatus job.runningUpdate)) r ∈ obs) ∨
        .late (.updateStatus job.runningUpdate) ∈ obs) := by
  cases h with
  | same h => exact (hset (h.trans hcompleted)).elim
  | created hnone =>
      rw [hcompleted] at hnone
      cases hnone
  | running hmakes hid h =>
      rw [hcompleted] at h
      refine ⟨h, _, hid, ?_⟩
      cases hmakes with
      | worker => exact .inl ⟨_, _, List.mem_cons_self⟩
      | late => exact .inr List.mem_cons_self
  | completed _ _ _ h =>
      rw [hcompleted] at h
      exact (hset h).elim

end Step

/-! ### A job in hand and its row -/

/-- Who is told that the status has been updated finds it updated. -/
theorem statusOf_updateStatus {uuid : UuidParser} {env : WorkerEnv} {desk : Desk} {job : BackupJob}
    {ack : Ack} (h : ((WorkerOp.rpc (.updateStatus job.runningUpdate)).exec uuid env desk).1 = .ok ack) :
    ((WorkerOp.rpc (.updateStatus job.runningUpdate)).exec uuid env desk).2.api.statusOf
      job.backupId = some "running" := by
  have hid : uuid.parse (Rpc.updateStatus job.runningUpdate).backupId = .ok job.backupId :=
    uuid.parse_toString _
  rcases exec_rpc uuid env desk hid with hdb | ⟨-, e, herr⟩
  · rw [State.statusOf, hdb, find_exec]
    cases hfind : desk.api.store.db.find job.backupId with
    | none =>
        obtain ⟨e, herr⟩ := exec_updateStatus_none uuid env desk hid hfind
        cases h.symm.trans herr
    | some r =>
        have hr : r.id = job.backupId := (Table.find_eq_some.mp hfind).2
        show some (Backup.assign _ _ _ r).status = _
        rw [Backup.assign, if_pos ⟨decide_eq_true hr, by simp [Assignments.apply,
          BackupJob.runningUpdate, statuses]⟩]
        rfl
  · cases h.symm.trans herr

/-- Somebody has begun to work on the job: a worker is about to report it, or
its report is still under way. -/
def Pipeline.Begun (s : Pipeline) (id : Uuid) : Prop :=
  (∃ w h, (s.consumers w).inHand = some h ∧ h.At .running ∧ h.message.For id) ∨
    ∃ (job : BackupJob) (result : ProcessingResult), .reportResult result ∈ s.late ∧
      job.ReportedBy result ∧ job.backupId = id

/-- The row of such a job is `running`, or another delivery of the job has
completed it. -/
def Pipeline.Marked (s : Pipeline) (id : Uuid) : Prop :=
  s.Begun id → s.api.statusOf id = some "running" ∨ s.api.statusOf id = some "completed"

section Marked

variable {uuid : UuidParser} {broker : Broker} {s s' : Pipeline} {id : Uuid} {e : PipelineEvent}

theorem StatusStep.begun {obs : List PipelineObs} (h : StatusStep s s' id e obs)
    (hs : s.api.statusOf id = some "running" ∨ s.api.statusOf id = some "completed") :
    s'.api.statusOf id = some "running" ∨ s'.api.statusOf id = some "completed" := by
  have hsome : ∀ x : String, (s.api.statusOf id).map (fun _ => x) = some x := by
    intro x
    rcases hs with hs | hs <;> rw [hs] <;> rfl
  cases h with
  | same h => rwa [h]
  | created hnone =>
      rw [hnone] at hs
      rcases hs with hs | hs <;> cases hs
  | running _ _ h => exact .inl (h.trans (hsome _))
  | completed _ _ _ h => exact .inr (h.trans (hsome _))

/-- Whoever begins to work on the job has been told that the row is
`running`. -/
theorem begun_step (hsound : s.Sound) (h : ((pipeline uuid broker).step s e).1.Begun id) :
    s.Begun id ∨ ((pipeline uuid broker).step s e).1.api.statusOf id = some "running" := by
  obtain ⟨w, hand, hin, hat, hfor⟩ | ⟨job, result, hlate, hby, hid⟩ := h
  · obtain hold | ⟨m, -, rfl⟩ | ⟨env, h₀, o, k, hold, hprog, hobs, rfl⟩ := step_inHand hin
    · exact .inl (.inl ⟨w, hand, hold, hat, hfor⟩)
    · cases (InHand.At.fresh m).eq hat fun d => by simp
    · obtain ⟨g, hat₀⟩ := hsound.hands w h₀ hold
      have hnext := hat.eq (hat₀.next hprog uuid env s.api) fun d => by simp
      have hallow := hat₀.allow hprog
      cases o with
      | rpc call =>
          rcases hr : ((WorkerOp.rpc call).exec uuid env ⟨s.api, h₀.decision⟩).1 with err | ack
          · rw [hr, after_error] at hnext
            cases hnext
          · rw [hr] at hnext hobs
            obtain ⟨job, hjob, ⟨rfl, rfl⟩ | ⟨rfl, result, rfl, -⟩⟩ := hallow
            · obtain ⟨job', hjob', rfl⟩ := hfor
              obtain rfl := Message.job.inj (hjob.symm.trans hjob')
              obtain ⟨env', decision, hok, hapi⟩ := step_worked hobs
              rw [hapi]
              exact .inr (statusOf_updateStatus hok)
            · cases hnext
      | analyze data =>
          obtain rfl : g = .running := hallow
          exact .inl (.inl ⟨w, h₀, hold, hat₀, hfor⟩)
      | settle d => cases hnext
  · obtain hold | ⟨w, h₀, k, hin, hprog⟩ := mem_late_step hlate
    · exact .inl (.inr ⟨job, result, hold, hby, hid⟩)
    · -- The worker has given the report up just now.
      obtain ⟨g, hat⟩ := hsound.hands w h₀ hin
      obtain ⟨job', hjob', ⟨-, hcall⟩ | ⟨rfl, _, hcall, hby'⟩⟩ := hat.allow hprog
      · cases hcall
      · obtain rfl := Rpc.reportResult.inj hcall
        exact .inl (.inl ⟨w, h₀, hin, hat, job', hjob', (BackupJob.Calls.eq (.inr ⟨_, rfl, hby⟩) (.inr ⟨_, rfl, hby'⟩)).trans hid⟩)

theorem marked_step (h : s.Marked id) (hsound : s.Sound)
    (hun : Untouched ((pipeline uuid broker).step s e).2 id) :
    ((pipeline uuid broker).step s e).1.Marked id := by
  intro hbegun
  obtain hold | hrunning := begun_step hsound hbegun
  · exact (step_statusOf uuid broker hsound e hun).begun (h hold)
  · exact .inl hrunning

theorem Pipeline.Makes.begun {job : BackupJob} {result : ProcessingResult} {obs : List PipelineObs}
    (h : s.Makes .running job (.reportResult result) e obs) (hby : job.ReportedBy result) :
    s.Begun job.backupId := by
  cases h with
  | worker hin hat hjob => exact .inl ⟨_, _, hin, hat, job, hjob, rfl⟩
  | late hi => exact .inr ⟨job, result, List.mem_of_getElem? hi, hby, rfl⟩

end Marked

/-! ### Successive statuses -/

/-- The statuses of the row in the states a run goes through. -/
def Pipeline.statuses (uuid : UuidParser) (broker : Broker) (id : Uuid) (s : Pipeline)
    (es : List PipelineEvent) : List String :=
  ((pipeline uuid broker).states s es).filterMap fun s => s.api.statusOf id

/-- How the status of a row that is only worked on changes. -/
def StatusMoves (x y : String) : Prop :=
  x = y ∨ x = "pending" ∧ y = "running" ∨ x = "running" ∧ y = "completed" ∨
    x = "completed" ∧ y = "running"

/-- A row that starts as `pending` is one of three things. -/
theorem StatusMoves.known {x y : String} (h : StatusMoves x y)
    (hx : x ∈ ["pending", "running", "completed"]) : y ∈ ["pending", "running", "completed"] := by
  rcases h with rfl | ⟨-, rfl⟩ | ⟨-, rfl⟩ | ⟨-, rfl⟩
  · exact hx
  all_goals simp

section Runs

variable {uuid : UuidParser} {broker : Broker} {db : Table} {replicas : ℕ → Replica} {id : Uuid}

theorem run_marked (es : List PipelineEvent)
    (hun : Untouched ((pipeline uuid broker).trace (.initial db replicas) es) id) :
    ((pipeline uuid broker).run (.initial db replicas) es).Marked id := by
  induction es using Machine.run_induction with
  | hnil =>
      rintro (⟨_, _, hin, -⟩ | ⟨_, _, hlate, -⟩)
      · cases hin
      · cases hlate
  | hsnoc es e ih =>
      rw [Machine.trace_concat] at hun
      rw [Machine.run_concat]
      exact marked_step (ih hun.of_append.1) (run_sound es) hun.of_append.2

/-- The step relation on statuses, for a row that was known before. -/
theorem StatusStep.moves {s s' : Pipeline} {e : PipelineEvent} {obs : List PipelineObs}
    (h : StatusStep s s' id e obs) (hmarked : s.Marked id) {x y : String}
    (hx : s.api.statusOf id = some x) (hknown : x ∈ ["pending", "running", "completed"])
    (hy : s'.api.statusOf id = some y) : StatusMoves x y := by
  cases h with
  | same h =>
      rw [h, hx] at hy
      exact .inl (Option.some.inj hy)
  | created hnone =>
      rw [hnone] at hx
      cases hx
  | running _ _ h =>
      rw [h, hx] at hy
      obtain rfl := Option.some.inj hy
      simp only [List.mem_cons, List.not_mem_nil, or_false] at hknown
      rcases hknown with rfl | rfl | rfl
      · exact .inr (.inl ⟨rfl, rfl⟩)
      · exact .inl rfl
      · exact .inr (.inr (.inr ⟨rfl, rfl⟩))
  | completed hmakes hby hid h =>
      rw [h, hx] at hy
      obtain rfl := Option.some.inj hy
      rcases hmarked (hid ▸ hmakes.begun hby) with hrow | hrow
      · obtain rfl := Option.some.inj (hx.symm.trans hrow)
        exact .inr (.inr (.inl ⟨rfl, rfl⟩))
      · exact .inl (Option.some.inj (hx.symm.trans hrow))

/-- A row that is not deleted stays. -/
theorem StatusStep.isSome {s s' : Pipeline} {e : PipelineEvent} {obs : List PipelineObs}
    (h : StatusStep s s' id e obs) (hs : (s.api.statusOf id).isSome) :
    (s'.api.statusOf id).isSome := by
  cases h with
  | same h => rwa [h]
  | created _ h => rw [h]; rfl
  | running _ _ h => rwa [h, Option.isSome_map]
  | completed _ _ _ h => rwa [h, Option.isSome_map]

theorem statuses_concat (s : Pipeline) (es : List PipelineEvent) (e : PipelineEvent) :
    s.statuses uuid broker id (es ++ [e]) = s.statuses uuid broker id es ++
      (((pipeline uuid broker).run s (es ++ [e])).api.statusOf id).toList := by
  rw [Pipeline.statuses, Machine.states_concat, List.filterMap_append, Pipeline.statuses]
  congr 1

/-- The statuses begin with `pending`, each one follows from the one before,
and the last one is that of the row now. -/
structure History (R : String → String → Prop) (l : List String) (now : Option String) : Prop where
  head : ∀ x ∈ l.head?, x = "pending"
  chain : l.IsChain R
  known : ∀ x ∈ l, x ∈ ["pending", "running", "completed"]
  last : l.getLast? = now

theorem History.concat {R : String → String → Prop} {l : List String} {s s' : Pipeline}
    {e : PipelineEvent} {obs : List PipelineObs} (h : History R l (s.api.statusOf id))
    (hstep : StatusStep s s' id e obs) (hmarked : s.Marked id)
    (hR : ∀ x y, s.api.statusOf id = some x → s'.api.statusOf id = some y → StatusMoves x y → R x y) :
    History R (l ++ (s'.api.statusOf id).toList) (s'.api.statusOf id) := by
  cases hy : s'.api.statusOf id with
  | none =>
      cases hx : s.api.statusOf id with
      | none => simpa [hx] using h
      | some x =>
          -- No step of the kinds at hand removes the row.
          have hsome := hstep.isSome (by rw [hx]; rfl)
          rw [hy] at hsome
          cases hsome
  | some y =>
      show History R (l ++ [y]) (some y)
      rcases List.eq_nil_or_concat l with rfl | ⟨init, x, rfl⟩
      · have hnone : s.api.statusOf id = none := h.last.symm
        -- There was no row: whatever changes a status needs one, so it has been inserted.
        have hpending : y = "pending" := by
          cases hstep with
          | same h =>
              rw [h, hnone] at hy
              cases hy
          | created _ h => exact (Option.some.inj (h.symm.trans hy)).symm
          | running _ _ h =>
              rw [h, hnone] at hy
              cases hy
          | completed _ _ _ h =>
              rw [h, hnone] at hy
              cases hy
        subst hpending
        exact ⟨by simp, List.IsChain.singleton _, by simp, rfl⟩
      · rw [List.concat_eq_append] at h ⊢
        have hx : s.api.statusOf id = some x := by
          rw [← h.last, List.getLast?_concat]
        have hknown := h.known x (by simp)
        have hmoves := hstep.moves hmarked hx hknown hy
        refine ⟨?_, ?_, ?_, List.getLast?_concat⟩
        · intro z hz
          refine h.head z ?_
          cases init <;> simpa using hz
        · refine h.chain.append (List.IsChain.singleton _) ?_
          intro z hz y' hy'
          rw [List.getLast?_concat] at hz
          obtain rfl := Option.some.inj hz
          obtain rfl := Option.some.inj hy'
          exact hR _ _ hx hy hmoves
        · intro z hz
          rcases List.mem_append.mp hz with hz | hz
          · exact h.known z hz
          · rw [List.mem_singleton.mp hz]
            exact hmoves.known hknown

/-- The history of a row, when whatever a step does to its status is in `R`. -/
theorem run_history {R : String → String → Prop}
    (hdb : ∀ r, db.find id = some r → r.status = "pending") (es : List PipelineEvent)
    (hun : Untouched ((pipeline uuid broker).trace (.initial db replicas) es) id)
    (hR : ∀ pre e x y, pre ++ [e] <+: es →
      ((pipeline uuid broker).run (.initial db replicas) pre).api.statusOf id = some x →
      ((pipeline uuid broker).run (.initial db replicas) (pre ++ [e])).api.statusOf id = some y →
      StatusMoves x y → R x y) :
    History R (Pipeline.statuses uuid broker id (.initial db replicas) es)
      (((pipeline uuid broker).run (.initial db replicas) es).api.statusOf id) := by
  induction es using Machine.run_induction with
  | hnil =>
      have hfind : (Pipeline.initial db replicas).api.statusOf id = (db.find id).map Backup.status :=
        rfl
      rw [Machine.run_nil, hfind, Pipeline.statuses, Machine.states]
      cases hrow : db.find id with
      | none =>
          simp only [List.filterMap_cons, hfind, hrow, Option.map_none, List.filterMap_nil]
          exact ⟨by simp, .nil, by simp, rfl⟩
      | some r =>
          have hr := hdb r hrow
          simp only [List.filterMap_cons, hfind, hrow, Option.map_some, hr, List.filterMap_nil]
          exact ⟨by simp, List.IsChain.singleton _, by simp, rfl⟩
  | hsnoc es e ih =>
      rw [Machine.trace_concat] at hun
      have hold := ih hun.of_append.1 fun pre e' x y hpre =>
        hR pre e' x y (hpre.trans (List.prefix_append es [e]))
      have hstep := step_statusOf uuid broker (run_sound es) e hun.of_append.2
      rw [statuses_concat, Machine.run_concat]
      refine hold.concat hstep (run_marked es hun.of_append.1) fun x y hx hy => ?_
      refine hR es e x y List.prefix_rfl hx ?_
      rwa [Machine.run_concat]

end Runs

/-! ### Forms of histories -/

/-- Nothing leads back to `pending`. -/
theorem begun_of_chain {x : String} {l : List String} (h : (x :: l).IsChain StatusMoves)
    (hx : x = "running" ∨ x = "completed") : ∀ y ∈ x :: l, y = "running" ∨ y = "completed" := by
  induction l generalizing x with
  | nil =>
      intro y hy
      rwa [List.mem_singleton.mp hy]
  | cons z l ih =>
      obtain ⟨hmoves, hchain⟩ := List.isChain_cons_cons.mp h
      have hz : z = "running" ∨ z = "completed" := by
        rcases hmoves with rfl | ⟨rfl, -⟩ | ⟨-, rfl⟩ | ⟨-, rfl⟩
        · exact hx
        · simp at hx
        · exact .inr rfl
        · exact .inl rfl
      intro y hy
      rcases List.mem_cons.mp hy with rfl | hy
      · exact hx
      · exact ih hchain hz y hy

theorem pending_of_chain {l : List String} (h : ("pending" :: l).IsChain StatusMoves) :
    ∃ n rest, "pending" :: l = List.replicate n "pending" ++ rest ∧
      (∀ x ∈ rest, x = "running" ∨ x = "completed") ∧ rest.head? ≠ some "completed" := by
  induction l with
  | nil => exact ⟨1, [], rfl, by simp, by simp⟩
  | cons y l ih =>
      obtain ⟨hmoves, hchain⟩ := List.isChain_cons_cons.mp h
      rcases hmoves with rfl | ⟨-, rfl⟩ | ⟨hfalse, -⟩ | ⟨hfalse, -⟩
      · obtain ⟨n, rest, heq, hrest⟩ := ih hchain
        exact ⟨n + 1, rest, by rw [heq, List.replicate_succ, List.cons_append], hrest⟩
      · exact ⟨1, "running" :: l, rfl, begun_of_chain hchain (.inl rfl), by simp⟩
      · exact absurd hfalse (by simp)
      · exact absurd hfalse (by simp)

/-- How the status changes when nobody goes back. -/
def StatusAdvances (x y : String) : Prop :=
  x = y ∨ x = "pending" ∧ y = "running" ∨ x = "running" ∧ y = "completed"

theorem completed_of_chain {l : List String} (h : ("completed" :: l).IsChain StatusAdvances) :
    ∃ c, "completed" :: l = List.replicate c "completed" := by
  induction l with
  | nil => exact ⟨1, rfl⟩
  | cons y l ih =>
      obtain ⟨hmoves, hchain⟩ := List.isChain_cons_cons.mp h
      rcases hmoves with rfl | ⟨hfalse, -⟩ | ⟨hfalse, -⟩
      · obtain ⟨c, heq⟩ := ih hchain
        exact ⟨c + 1, by rw [heq, List.replicate_succ]⟩
      · exact absurd hfalse (by simp)
      · exact absurd hfalse (by simp)

theorem running_of_chain {l : List String} (h : ("running" :: l).IsChain StatusAdvances) :
    ∃ b c, "running" :: l = List.replicate b "running" ++ List.replicate c "completed" := by
  induction l with
  | nil => exact ⟨1, 0, rfl⟩
  | cons y l ih =>
      obtain ⟨hmoves, hchain⟩ := List.isChain_cons_cons.mp h
      rcases hmoves with rfl | ⟨hfalse, -⟩ | ⟨-, rfl⟩
      · obtain ⟨b, c, heq⟩ := ih hchain
        exact ⟨b + 1, c, by rw [heq, List.replicate_succ, List.cons_append]⟩
      · exact absurd hfalse (by simp)
      · obtain ⟨c, heq⟩ := completed_of_chain hchain
        exact ⟨1, c, by rw [heq]; rfl⟩

theorem lifecycle_of_chain {l : List String} (h : ("pending" :: l).IsChain StatusAdvances) :
    ∃ a b c, "pending" :: l =
      List.replicate a "pending" ++ List.replicate b "running" ++ List.replicate c "completed" := by
  induction l with
  | nil => exact ⟨1, 0, 0, rfl⟩
  | cons y l ih =>
      obtain ⟨hmoves, hchain⟩ := List.isChain_cons_cons.mp h
      rcases hmoves with rfl | ⟨-, rfl⟩ | ⟨hfalse, -⟩
      · obtain ⟨a, b, c, heq⟩ := ih hchain
        exact ⟨a + 1, b, c, by rw [heq, List.replicate_succ, List.cons_append, List.cons_append]⟩
      · obtain ⟨b, c, heq⟩ := running_of_chain hchain
        exact ⟨1, b, c, by rw [heq]; rfl⟩
      · exact absurd hfalse (by simp)

end BackupService
