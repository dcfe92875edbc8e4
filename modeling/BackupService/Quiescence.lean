import BackupService.Custody

/-!
The pipeline at rest.

For a row whose job has been published, two things can be true: its result
is recorded, or somebody still has to record it (`Pipeline.Owed`). The
second one is what a worker that writes `running` falls back on: it has the
message in its hand, and it cannot get rid of it before the service has
answered that the result is recorded. When the broker has nothing left,
only the first one remains.

A worker whose channel has been closed falls back on nothing. It may write
`running` to a row long after another worker has had the message and
recorded the result, and nobody is left to record it again
(`not_quiescent_processed`).
-/

namespace BackupService

open Lib Program

/-! ### Rows and jobs have paths -/

structure Pipeline.Sourced (s : Pipeline) : Prop where
  rows : ∀ r ∈ s.api.store.db.rows, r.sourcePath ≠ ""
  jobs : ∀ job, s.Pending job → job.sourcePath ≠ ""
  deliveries : ∀ w job, .job job ∈ (s.consumers w).deliveries → job.sourcePath ≠ ""
  late : ∀ result, .reportResult result ∈ s.late → result.sizeBytes = 8192 * 128

section Sourced

variable {uuid : UuidParser} {broker : Broker} {s : Pipeline}

variable (uuid broker) in
/-- Who changes the table: a request by one of its statements, or a call of a
worker. -/
theorem step_db (h : s.Sound) (e : PipelineEvent) :
    ((pipeline uuid broker).step s e).1.api.store.db = s.api.store.db ∨
      (∃ (order : RowOrder) (oracle : Oracle) (tenantId : Uuid) (q : Sql),
        q.OnBehalfOf tenantId ∧ q.Named ∧
        ((pipeline uuid broker).step s e).1.api.store.db =
          (q.exec order oracle s.api.store.db).2 ∧
        ((pipeline uuid broker).step s e).2 =
          q.effects s.api.store.db ((pipeline uuid broker).step s e).1.api.store.db) ∨
      ∃ (oracle : Oracle) (call : Rpc) (id : Uuid),
        ((∃ w env, e = .work w env) ∨ ∃ i sql, e = .late i oracle sql) ∧
        ((pipeline uuid broker).step s e).1.api.store.db =
          ((call.statement id).exec .stable oracle s.api.store.db).2 := by
  cases e with
  | api e =>
      have hserves := serves s uuid e
      simp only [pipeline]
      generalize (s.serve uuid e).1 = s', (s.serve uuid e).2 = obs at hserves
      cases hserves with
      | same hdb _ => exact .inl hdb
      | statement order hth hprog hdb _ =>
          obtain ⟨g, hg⟩ := h.threads _ _ hth
          obtain ⟨hbehalf, hnamed⟩ := hg.allow hprog
          exact .inr (.inl ⟨order, _, _, _, hbehalf, hnamed, hdb, rfl⟩)
      | publish _ _ hdb _ => exact .inl hdb
  | publishMalformed error => exact .inl rfl
  | deliver w =>
      simp only [pipeline, Pipeline.deliver]
      split <;> exact .inl rfl
  | work w env =>
      have hworks := works uuid s w env
      simp only [pipeline]
      generalize (s.work uuid w env).1 = s', (s.work uuid w env).2 = obs at hworks
      cases hworks with
      | idle => exact .inl rfl
      | take => exact .inl rfl
      | ret => exact .inl rfl
      | @op hand o k env' hin hprog =>
          cases o with
          | rpc call =>
              obtain ⟨g, hg⟩ := h.hands w _ hin
              obtain ⟨job, -, hcall⟩ := hg.calls hprog
              rcases exec_rpc uuid env' ⟨s.api, hand.decision⟩ (hcall.parse uuid) with hdb | ⟨hdb, -⟩
              · exact .inr (.inr ⟨env'.oracle, _, _, .inl ⟨w, env, rfl⟩, hdb⟩)
              · exact .inl hdb
          | analyze data => exact .inl rfl
          | settle d =>
              refine .inl (exec_worker_db _ _ _ fun call ho => ?_)
              cases ho
  | stop w =>
      simp only [pipeline, Pipeline.stop]
      split <;> exact .inl rfl
  | settle w i =>
      simp only [pipeline, Pipeline.settle]
      split <;> exact .inl rfl
  | disconnect w => exact .inl rfl
  | close w => exact .inl rfl
  | late i oracle sql =>
      simp only [pipeline]
      obtain hnone | ⟨call, hi, hapi, -⟩ := executes_late s uuid i oracle sql
      · rw [hnone]
        exact .inl rfl
      · obtain ⟨job, hjob⟩ := h.late call (List.mem_of_getElem? hi)
        rw [hapi]
        rcases exec_rpc uuid { oracle, sql, rpc := .after } ⟨s.api, none⟩ (hjob.parse uuid) with
          hdb | ⟨hdb, -⟩
        · exact .inr (.inr ⟨oracle, _, _, .inr ⟨i, sql, rfl⟩, hdb⟩)
        · exact .inl hdb

theorem sourced_initial {db : Table} (hdb : ∀ r ∈ db.rows, r.sourcePath ≠ "")
    (replicas : ℕ → Replica) : (Pipeline.initial db replicas).Sourced where
  rows := hdb
  jobs job hjob := by
    rcases hjob with (hqueue | ⟨w, hw⟩) | ⟨_, _, _, hth, -⟩
    · cases hqueue
    · cases hw
    · cases hth
  deliveries _ _ hjob := nomatch hjob
  late _ hresult := nomatch hresult

theorem sourced_step (h : s.Sourced) (hsound : s.Sound) (e : PipelineEvent) :
    ((pipeline uuid broker).step s e).1.Sourced where
  rows := by
    intro r hr
    obtain hdb | ⟨order, oracle, tenantId, q, -, hnamed, hdb, -⟩ | ⟨oracle, call, id, -, hdb⟩ :=
      step_db uuid broker hsound e
    · exact h.rows r (hdb ▸ hr)
    · rw [hdb] at hr
      rcases mem_rows_exec order oracle hr with ⟨r', hr', hpath⟩ | ⟨_, _, rfl⟩
      · rw [hpath]
        exact h.rows r' hr'
      · exact hnamed
    · rw [hdb, exec_statement_snd] at hr
      obtain ⟨r', hr', hpath⟩ := mem_rows_update hr
      rw [hpath]
      exact h.rows r' hr'
  jobs job hjob := by
    obtain hold | ⟨b, hfind, rfl, -⟩ := pending_step hsound hjob
    · exact h.jobs job hold
    · exact h.rows b (Table.find_eq_some.mp hfind).1
  deliveries w job hjob := by
    obtain ⟨hqueue, -⟩ | ⟨hold, -⟩ := mem_deliveries_step hjob
    · exact h.jobs job (.inl (.inl hqueue))
    · exact h.deliveries w job hold
  late result hresult := by
    obtain hold | ⟨w, hand, k, hin, hprog⟩ := mem_late_step hresult
    · exact h.late result hold
    · obtain ⟨g, hg⟩ := hsound.hands w hand hin
      obtain ⟨job, hjob, hcall | ⟨_, hcall, hby⟩⟩ := hg.calls hprog
      · cases hcall
      · obtain rfl := Rpc.reportResult.inj hcall
        rw [hby.sizeBytes]
        refine simulatedSize_eq (h.deliveries w job ?_)
        exact Consumer.mem_deliveries.mpr (.inr (.inl ⟨hand, hin, hjob⟩))

end Sourced

/-! ### What is owed to a row -/

/-- Nobody has seen a PATCH modify the row or a request delete it. -/
def Untouched (tr : List PipelineObs) (id : Uuid) : Prop := .patched id ∉ tr ∧ .deleted id ∉ tr

theorem Untouched.of_append {tr obs : List PipelineObs} {id : Uuid} (h : Untouched (tr ++ obs) id) :
    Untouched tr id ∧ Untouched obs id := by
  simp only [Untouched, List.mem_append, not_or] at h
  exact ⟨⟨h.1.1, h.2.1⟩, h.1.2, h.2.2⟩

/-- The result of a job of this size is recorded. -/
structure Backup.Processed (r : Backup) : Prop where
  status : r.status = "completed"
  sizeBytes : r.sizeBytes = 8192 * 128

/-- The result of the backup is recorded, or a message that is still in
custody makes somebody record it. While there is no row, no worker has got
beyond asking for it. -/
def Pipeline.Owed (s : Pipeline) (id : Uuid) : Prop :=
  match s.api.store.db.find id with
  | none => s.Holds Progress.Unmarked (Message.For id)
  | some r => r.Processed ∨ s.Holds Progress.Open (Message.For id)

section Owed

variable {uuid : UuidParser} {broker : Broker} {s s' : Pipeline} {id : Uuid}

theorem Pipeline.Holds.mono {P P' : Progress → Prop} {p : Message → Prop}
    (h : s.Holds P p) (hP : ∀ g, P g → P' g) : s.Holds P' p := by
  refine h.imp_right fun ⟨w, hc, h⟩ => ⟨w, hc, h.imp_right (.imp_left ?_)⟩
  rintro ⟨h, g, hin, hat, hg, hp⟩
  exact ⟨h, g, hin, hat, hP g hg, hp⟩

theorem owed_of_some {r : Backup} (hfind : s.api.store.db.find id = some r)
    (h : r.Processed ∨ s.Holds Progress.Open (Message.For id)) : s.Owed id := by
  rw [Pipeline.Owed, hfind]
  exact h

theorem owed_of_holds (h : s.Holds Progress.Unmarked (Message.For id)) : s.Owed id := by
  rw [Pipeline.Owed]
  split
  · exact h
  · exact .inr (h.mono fun _ hg => hg.1)

/-- A row that stays as it is, and messages that are not lost. -/
theorem Pipeline.Owed.frame (h : s.Owed id)
    (hfind : s.api.store.db.find id = none ∨ s'.api.store.db.find id = s.api.store.db.find id)
    (hunmarked : s.Holds Progress.Unmarked (Message.For id) →
      s'.Holds Progress.Unmarked (Message.For id))
    (hopen : s.Holds Progress.Open (Message.For id) → s'.Holds Progress.Open (Message.For id)) :
    s'.Owed id := by
  cases hr : s.api.store.db.find id with
  | none =>
      rw [Pipeline.Owed, hr] at h
      exact owed_of_holds (hunmarked h)
  | some r =>
      rw [Pipeline.Owed, hr] at h
      rcases hfind with hnone | hsame
      · rw [hr] at hnone
        cases hnone
      · exact owed_of_some (hsame.trans hr) (h.imp_right hopen)

/-- The row, after a request has done something: it is new, or the same, or
somebody can tell what has happened. -/
theorem effects_find (order : RowOrder) (oracle : Oracle) {t : Table} {tenantId : Uuid} {q : Sql}
    (hq : q.OnBehalfOf tenantId) (id : Uuid) :
    t.find id = none ∨ (q.exec order oracle t).2.find id = t.find id ∨
      .patched id ∈ q.effects t (q.exec order oracle t).2 ∨
      .deleted id ∈ q.effects t (q.exec order oracle t).2 := by
  cases hfind : t.find id with
  | none => exact .inl rfl
  | some b =>
      refine .inr ?_
      by_cases htouch : q.Touches t (.backup id)
      · cases q with
        | insertBackup => cases htouch
        | selectBackup | selectBackups | countBackups => exact htouch.elim
        | setStatus | setCompleted | setFailed => exact hq.elim
        | updateBackup id' tenantId' status sizeBytes =>
            obtain rfl : id = id' := htouch.1.1
            simp only [Sql.effects]
            split
            · rename_i hsame
              exact .inl (hsame.trans hfind)
            · exact .inr (.inl List.mem_cons_self)
        | deleteBackup id' tenantId' =>
            obtain rfl : id = id' := htouch.1.1
            simp only [Sql.effects]
            split
            · rename_i hsame
              exact .inl (hsame.trans hfind)
            · exact .inr (.inr List.mem_cons_self)
      · exact .inl (exec_find order oracle hfind htouch)

/-- Operations that are not calls leave a message as open as it is. -/
theorem open_after {h : InHand} {g : Progress} {o : WorkerOp}
    {k : o.Answer → WorkerAction (Except LapinError Unit)} (hat : h.At g)
    (hprog : h.prog = .op o k) (ho : ∀ call, o ≠ .rpc call) (hfor : Message.For id h.message)
    (hg : g.Open) (r : o.Answer) : (g.after o r).Open ∧ (g.Unmarked → (g.after o r).Unmarked) := by
  have hallow := hat.allow hprog
  obtain ⟨job, hjob, -⟩ := hfor
  cases o with
  | rpc call => exact (ho call rfl).elim
  | analyze data =>
      obtain rfl : g = .running := hallow
      refine ⟨?_, fun hg => (hg.2 rfl).elim⟩
      rcases r with e | entropy <;> trivial
  | settle d =>
      rw [hjob] at hallow
      obtain ⟨rfl, -⟩ | ⟨-, rfl⟩ := hallow
      · exact hg.elim
      · exact ⟨rfl, fun _ => ⟨rfl, by simp [Progress.after]⟩⟩

theorem settled_of_open {d : Decision} (h : (Progress.settled d).Open) : d.removes = false := h

/-- What becomes of the messages when a worker performs an operation is up
to the one in its hand. -/
theorem holds_op {w : ℕ} {env : WorkerEnv} {h : InHand} {o : WorkerOp}
    {k : o.Answer → WorkerAction (Except LapinError Unit)} {obs : List PipelineObs}
    {P : Progress → Prop} (hw : Works uuid s w env s' obs)
    (hin : (s.consumers w).inHand = some h) (hprog : h.prog = .op o k)
    (hP : P = Progress.Open ∨ P = Progress.Unmarked)
    (hop : ∀ g, h.At g → P g → Message.For id h.message →
      P (g.after o (o.exec uuid ((s.consumers w).env env) ⟨s.api, h.decision⟩).1))
    (hhold : s.Holds P (Message.For id)) : s'.Holds P (Message.For id) := by
  refine hhold.works hw ?_ ?_ fun h' g o' k' hin' hprog' hat hg hfor => ?_
  · obtain rfl | rfl := hP
    · trivial
    · exact ⟨trivial, by simp⟩
  · obtain rfl | rfl := hP
    · exact fun d hd => settled_of_open hd
    · exact fun d hd => settled_of_open hd.1
  · obtain rfl := Option.some.inj (hin.symm.trans hin')
    have heq := hprog.symm.trans hprog'
    cases heq
    exact hop g hat hg hfor

theorem after_error (g : Progress) (call : Rpc) (e : ProcessError) :
    g.after (.rpc call) (.error e) = .failed := by
  cases call <;> rfl

/-- A call that has not been answered with success leaves the job open. -/
theorem after_of_error {P : Progress → Prop} (hP : P = Progress.Open ∨ P = Progress.Unmarked)
    {g : Progress} {call : Rpc} {r : Except ProcessError Ack} (hr : ∃ e, r = .error e) :
    P (g.after (.rpc call) r) := by
  obtain ⟨e, rfl⟩ := hr
  rw [after_error]
  obtain rfl | rfl := hP
  · trivial
  · exact ⟨trivial, by simp⟩

/-- A call about one backup means nothing to the others. -/
theorem find_call_of_ne (env : WorkerEnv) (desk : Desk) {call : Rpc} {id' : Uuid}
    (hcall : uuid.parse call.backupId = .ok id') (hne : id ≠ id') :
    ((WorkerOp.rpc call).exec uuid env desk).2.api.store.db.find id = desk.api.store.db.find id := by
  rcases exec_rpc uuid env desk hcall with hdb | ⟨hdb, -⟩
  · rw [hdb]
    rcases @find_statement .stable env.oracle desk.api.store.db call id' id with hsame | ⟨hid, -⟩
    · exact hsame
    · exact (hne hid).elim
  · rw [hdb]

/-- A report is executed as one statement, or it fails. -/
theorem exec_report (env : WorkerEnv) (desk : Desk) {job : BackupJob} {result : ProcessingResult}
    (hby : job.ReportedBy result) (hsize : result.sizeBytes = 8192 * 128) :
    ((WorkerOp.rpc (.reportResult result)).exec uuid env desk).2.api.store.db =
        ((Sql.setCompleted job.backupId (8192 * 128)).exec .stable env.oracle desk.api.store.db).2 ∨
      ((WorkerOp.rpc (.reportResult result)).exec uuid env desk).2.api.store.db =
          desk.api.store.db ∧
        ∃ e, ((WorkerOp.rpc (.reportResult result)).exec uuid env desk).1 = .error e := by
  have hcall : job.Calls (.reportResult result) := .inr ⟨result, rfl, hby⟩
  have hstatement : (Rpc.reportResult result).statement job.backupId =
      .setCompleted job.backupId (8192 * 128) := by
    rw [← hsize]
    exact if_pos hby.status
  rw [← hstatement]
  exact exec_rpc uuid env desk (hcall.parse uuid)

/-- The statement completes the row, if it is there. -/
theorem processed_setCompleted (oracle : Oracle) {t : Table} {r : Backup} (hr : t.find id = some r) :
    ∃ r' : Backup, ((Sql.setCompleted id (8192 * 128)).exec .stable oracle t).2.find id = some r' ∧
      r'.Processed := by
  have hfind : ((Sql.setCompleted id (8192 * 128)).exec .stable oracle t).2.find id = (t.find id).map
      ({ status := some "completed", sizeBytes := some (8192 * 128) : Assignments }.apply oracle.now) :=
    find_setCompleted ..
  rw [hr] at hfind
  exact ⟨_, hfind, rfl, rfl⟩

/-- A call that is executed without a delivery behind it: it records the
result, or it is seen to modify the row, or it does nothing to it. -/
theorem Pipeline.Owed.stray {env : WorkerEnv} {desk : Desk} {call : Rpc} {job : BackupJob}
    (howed : s.Owed id) (hdesk : desk.api = s.api) (hcall : job.Calls call)
    (hsize : ∀ result, call = .reportResult result → result.sizeBytes = 8192 * 128)
    (hs' : s'.api.store.db = ((WorkerOp.rpc call).exec uuid env desk).2.api.store.db)
    (hstray : .strayed id ∉ call.strays uuid s.api.store.db s'.api.store.db)
    (hunmarked : s.Holds Progress.Unmarked (Message.For id) →
      s'.Holds Progress.Unmarked (Message.For id))
    (hopen : s.Holds Progress.Open (Message.For id) → s'.Holds Progress.Open (Message.For id)) :
    s'.Owed id := by
  by_cases hne : id = job.backupId
  · subst hne
    obtain rfl | ⟨result, rfl, hby⟩ := hcall
    · have hid : uuid.parse job.runningUpdate.backupId = .ok job.backupId := uuid.parse_toString _
      refine howed.frame (.inr ?_) hunmarked hopen
      by_contra hmodified
      refine hstray ?_
      simp only [Rpc.strays, hid, if_neg hmodified]
      exact List.mem_cons_self
    · rcases exec_report env desk hby (hsize result rfl) with hdb | ⟨hdb, -⟩
      · rw [hdesk, ← hs'] at hdb
        cases hr : s.api.store.db.find job.backupId with
        | none => exact howed.frame (.inl hr) hunmarked hopen
        | some r =>
            obtain ⟨r', hr', hprocessed⟩ := processed_setCompleted env.oracle hr
            exact owed_of_some (hdb ▸ hr') (.inl hprocessed)
      · rw [hdesk, ← hs'] at hdb
        exact howed.frame (.inr (congrArg (Table.find · job.backupId) hdb)) hunmarked hopen
  · refine howed.frame (.inr ?_) hunmarked hopen
    rw [hs', find_call_of_ne env desk (hcall.parse uuid) hne, hdesk]

section Calls

variable {w : ℕ} {env : WorkerEnv} {h : InHand} {g : Progress} {job : BackupJob}
  {obs : List PipelineObs}

/-- A call about one backup means nothing to the others. -/
theorem owed_call_of_ne {call : Rpc} {k : Except ProcessError Ack → WorkerAction (Except LapinError Unit)}
    (hw : Works uuid s w env s' obs) (hin : (s.consumers w).inHand = some h)
    (hprog : h.prog = .op (.rpc call) k) (hjob : h.message = .job job)
    (hcall : uuid.parse call.backupId = .ok job.backupId) (hne : id ≠ job.backupId)
    (hs' : s'.api = ((WorkerOp.rpc call).exec uuid ((s.consumers w).env env) ⟨s.api, h.decision⟩).2.api)
    (howed : s.Owed id) : s'.Owed id := by
  have hother : ¬ Message.For id h.message := by
    rintro ⟨job', hjob', rfl⟩
    rw [hjob] at hjob'
    exact hne (congrArg BackupJob.backupId (Message.job.inj hjob')).symm
  refine howed.frame (.inr ?_)
    (holds_op hw hin hprog (.inr rfl) fun g _ _ hfor => (hother hfor).elim)
    (holds_op hw hin hprog (.inl rfl) fun g _ _ hfor => (hother hfor).elim)
  rw [hs', find_call_of_ne _ _ hcall hne]

/-- Before it reports, the worker has the message in its hand. -/
theorem owed_updateStatus {k : Except ProcessError Ack → WorkerAction (Except LapinError Unit)}
    (hw : Works uuid s w env s' obs) (hin : (s.consumers w).inHand = some h)
    (hprog : h.prog = .op (.rpc (.updateStatus job.runningUpdate)) k)
    (hjob : h.message = .job job)
    (hs' : s'.api = ((WorkerOp.rpc (.updateStatus job.runningUpdate)).exec uuid
      ((s.consumers w).env env) ⟨s.api, h.decision⟩).2.api)
    (hin' : (s'.consumers w).connected = true ∧ ∃ h', (s'.consumers w).inHand = some h' ∧
      h'.message = h.message ∧ h'.At (g.after (.rpc (.updateStatus job.runningUpdate))
      ((WorkerOp.rpc (.updateStatus job.runningUpdate)).exec uuid ((s.consumers w).env env)
        ⟨s.api, h.decision⟩).1))
    (howed : s.Owed job.backupId) : s'.Owed job.backupId := by
  have hid : uuid.parse (Rpc.updateStatus job.runningUpdate).backupId = .ok job.backupId :=
    uuid.parse_toString _
  have hfind : s'.api.store.db.find job.backupId = s.api.store.db.find job.backupId ∨
      ∃ f : Backup → Backup, s'.api.store.db.find job.backupId =
        (s.api.store.db.find job.backupId).map f := by
    rw [hs']
    rcases exec_rpc uuid ((s.consumers w).env env) ⟨s.api, h.decision⟩ hid with hdb | ⟨hdb, -⟩
    · rw [hdb]
      exact (find_statement .stable _ _).imp_right fun ⟨_, _, heq⟩ => ⟨_, heq⟩
    · exact .inl (congrArg (Table.find · job.backupId) hdb)
  cases hr : s.api.store.db.find job.backupId with
  | none =>
      have herr := exec_updateStatus_none uuid ((s.consumers w).env env) ⟨s.api, h.decision⟩ hid hr
      exact howed.frame (.inl hr)
        (holds_op hw hin hprog (.inr rfl) fun g _ _ _ => after_of_error (.inr rfl) herr)
        (holds_op hw hin hprog (.inl rfl) fun g _ _ _ => after_of_error (.inl rfl) herr)
  | some r =>
      obtain ⟨r', hr'⟩ : ∃ r', s'.api.store.db.find job.backupId = some r' := by
        rw [hr] at hfind
        rcases hfind with hsame | ⟨f, hmap⟩
        · exact ⟨r, hsame⟩
        · exact ⟨f r, hmap⟩
      obtain ⟨hc, h', hin', hmessage, hat'⟩ := hin'
      refine owed_of_some hr' (.inr (.inr ⟨w, hc, .inr (.inl ⟨h', _, hin', hat', ?_, ?_⟩)⟩))
      · rcases ((WorkerOp.rpc (.updateStatus job.runningUpdate)).exec uuid
          ((s.consumers w).env env) ⟨s.api, h.decision⟩).1 with e | ack <;> trivial
      · exact ⟨job, hmessage.trans hjob, rfl⟩

/-- A report that is executed settles what is owed. -/
theorem owed_reportResult {result : ProcessingResult}
    {k : Except ProcessError Ack → WorkerAction (Except LapinError Unit)}
    (hw : Works uuid s w env s' obs) (hin : (s.consumers w).inHand = some h)
    (hprog : h.prog = .op (.rpc (.reportResult result)) k) (hby : job.ReportedBy result)
    (hsize : result.sizeBytes = 8192 * 128)
    (hs' : s'.api = ((WorkerOp.rpc (.reportResult result)).exec uuid ((s.consumers w).env env)
      ⟨s.api, h.decision⟩).2.api)
    (howed : s.Owed job.backupId) : s'.Owed job.backupId := by
  rcases exec_report ((s.consumers w).env env) ⟨s.api, h.decision⟩ hby hsize with hdb | ⟨hdb, herr⟩
  · rw [← hs'] at hdb
    cases hr : s.api.store.db.find job.backupId with
    | none =>
        -- The call has not changed anything. Whoever makes up for it is not this worker.
        rw [Pipeline.Owed, hr] at howed
        refine owed_of_holds (holds_op hw hin hprog (.inr rfl) (fun g hat hg _ => ?_) howed)
        obtain ⟨_, -, ⟨-, hcall⟩ | ⟨hrunning, -⟩⟩ := hat.allow hprog
        · cases hcall
        · exact (hg.2 hrunning).elim
    | some r =>
        obtain ⟨r', hr', hprocessed⟩ := processed_setCompleted _ hr
        exact owed_of_some (hdb ▸ hr') (.inl hprocessed)
  · refine howed.frame (.inr (hs' ▸ congrArg (Table.find · job.backupId) hdb)) ?_ ?_
    · exact holds_op hw hin hprog (.inr rfl) fun g _ _ _ => after_of_error (.inr rfl) herr
    · exact holds_op hw hin hprog (.inl rfl) fun g _ _ _ => after_of_error (.inl rfl) herr

end Calls

/-- A worker writes `running` with the message in its hand, and it has the
result recorded before it lets go of it; without a channel it is seen to
write it. -/
theorem owed_works {w : ℕ} {env : WorkerEnv} {obs : List PipelineObs} (hsound : s.Sound)
    (hsourced : s.Sourced) (hw : Works uuid s w env s' obs) (hstray : .strayed id ∉ obs)
    (howed : s.Owed id) : s'.Owed id := by
  have hw' := hw
  cases hw with
  | idle => exact howed
  | take hin hbuffer =>
      refine howed.frame (.inr rfl) (fun h => h.works hw' ⟨trivial, by simp⟩
        (fun d hd => settled_of_open hd.1) ?_) (fun h => h.works hw' trivial
          (fun d hd => settled_of_open hd) ?_)
      all_goals
        intro h g o k hin'
        rw [hin] at hin'
        cases hin'
  | ret hin hprog =>
      refine howed.frame (.inr rfl) (fun h => h.works hw' ⟨trivial, by simp⟩
        (fun d hd => settled_of_open hd.1) ?_) (fun h => h.works hw' trivial
          (fun d hd => settled_of_open hd) ?_)
      all_goals
        intro h g o k hin' hprog'
        obtain rfl := Option.some.inj (hin.symm.trans hin')
        rw [hprog] at hprog'
        cases hprog'
  | @op h o k _ hin hprog henv =>
      subst henv
      obtain ⟨g, hat⟩ := hsound.hands w h hin
      by_cases ho : ∀ call, o ≠ .rpc call
      · refine howed.frame (.inr (congrArg (Table.find · id) (exec_worker_db _ _ _ ho))) ?_ ?_
        · exact holds_op hw' hin hprog (.inr rfl) fun g hat hg hfor =>
            (open_after hat hprog ho hfor hg.1 _).2 hg
        · exact holds_op hw' hin hprog (.inl rfl) fun g hat hg hfor =>
            (open_after hat hprog ho hfor hg _).1
      · obtain ⟨call, rfl⟩ : ∃ call, o = .rpc call := by simpa using ho
        obtain ⟨job, hjob, hcall⟩ := hat.calls hprog
        have hsize : ∀ result, call = .reportResult result → result.sizeBytes = 8192 * 128 := by
          rintro result rfl
          obtain hcall | ⟨_, hcall, hby⟩ := hcall
          · cases hcall
          · obtain rfl := Rpc.reportResult.inj hcall
            rw [hby.sizeBytes]
            refine simulatedSize_eq (hsourced.deliveries w job ?_)
            exact Consumer.mem_deliveries.mpr (.inr (.inl ⟨h, hin, hjob⟩))
        cases hc : (s.consumers w).connected with
        | false =>
            refine howed.stray rfl hcall hsize rfl (fun hmem => hstray ?_)
              (fun h => h.works_orphan hw' hc) fun h => h.works_orphan hw' hc
            rw [hc]
            exact List.mem_cons_of_mem _ hmem
        | true =>
            by_cases hne : id = job.backupId
            · subst hne
              obtain rfl | ⟨result, rfl, hby⟩ := hcall
              · refine owed_updateStatus hw' hin hprog hjob rfl ⟨?_, ⟨_,
                  congrArg Consumer.inHand setConsumer_self, rfl, hat.next hprog uuid _ s.api⟩⟩ howed
                exact (congrArg Consumer.connected setConsumer_self).trans hc
              · exact owed_reportResult hw' hin hprog hby (hsize result rfl) rfl howed
            · exact owed_call_of_ne hw' hin hprog hjob (hcall.parse uuid) hne rfl howed

/-- A step that nobody sees as a PATCH or a deletion of the row, or as a
stray update of it, keeps what is owed to it. -/
theorem owed_step (hsound : s.Sound) (hsourced : s.Sourced) {e : PipelineEvent}
    (hkept : Untouched ((pipeline uuid broker).step s e).2 id)
    (hstray : .strayed id ∉ ((pipeline uuid broker).step s e).2) (howed : s.Owed id) :
    ((pipeline uuid broker).step s e).1.Owed id := by
  cases e with
  | api e =>
      refine howed.frame ?_ (fun h => h.serve) fun h => h.serve
      obtain hdb | ⟨order, oracle, tenantId, q, hq, -, hdb, hobs⟩ |
        ⟨_, _, _, ⟨_, _, he⟩ | ⟨_, _, he⟩, -⟩ := step_db uuid broker hsound (.api e)
      · exact .inr (congrArg (Table.find · id) hdb)
      · rw [hobs, hdb] at hkept
        rw [hdb]
        obtain h | h | h | h := effects_find order oracle hq id
        · exact .inl h
        · exact .inr h
        · exact (hkept.1 h).elim
        · exact (hkept.2 h).elim
      · cases he
      · cases he
  | publishMalformed error =>
      refine howed.frame (.inr rfl) ?_ ?_
      all_goals
        rintro (⟨m, hm, hp⟩ | h)
        · exact .inl ⟨m, List.mem_append_left _ hm, hp⟩
        · exact .inr h
  | deliver w =>
      refine howed.frame (.inr ?_) (fun h => h.deliver) fun h => h.deliver
      simp only [pipeline, Pipeline.deliver]
      split <;> rfl
  | work w env => exact owed_works hsound hsourced (works uuid s w env) hstray howed
  | stop w =>
      refine howed.frame (.inr ?_) (fun h => h.stop) fun h => h.stop
      simp only [pipeline, Pipeline.stop]
      split <;> rfl
  | settle w i =>
      refine howed.frame (.inr ?_) (fun h => h.settle) fun h => h.settle
      simp only [pipeline, Pipeline.settle]
      split <;> rfl
  | disconnect w => exact howed.frame (.inr rfl) (fun h => h.requeue) fun h => h.requeue
  | close w => exact howed.frame (.inr rfl) (fun h => h.requeue) fun h => h.requeue
  | late i oracle sql =>
      simp only [pipeline] at hstray ⊢
      obtain hnone | ⟨call, hi, hapi, hobs⟩ := executes_late s uuid i oracle sql
      · rwa [hnone]
      · obtain ⟨job, hjob⟩ := hsound.late call (List.mem_of_getElem? hi)
        rw [hobs] at hstray
        refine howed.stray ?_ hjob ?_ (congrArg (·.store.db) hapi)
          (fun hmem => hstray (List.mem_cons_of_mem _ hmem)) (fun h => h.late) fun h => h.late
        · rfl
        · rintro result rfl
          exact hsourced.late result (List.mem_of_getElem? hi)

end Owed

/-! ### Recorded results -/

/-- The service has answered that the result of the job is recorded. -/
def Reported (tr : List PipelineObs) (job : BackupJob) : Prop :=
  ∃ w result ack, .worked w (.rpc (.reportResult result)) (.ok ack) ∈ tr ∧ job.ReportedBy result

theorem Reported.append {tr : List PipelineObs} {job : BackupJob} (h : Reported tr job)
    (obs : List PipelineObs) : Reported (tr ++ obs) job := by
  obtain ⟨w, result, ack, hmem, hby⟩ := h
  exact ⟨w, result, ack, List.mem_append_left _ hmem, hby⟩

/-- A job that is not open any more has been reported. -/
structure Pipeline.Recorded (s : Pipeline) (tr : List PipelineObs) : Prop where
  hands : ∀ w h, (s.consumers w).inHand = some h → ∃ g, h.At g ∧
    ∀ job, h.message = .job job → ¬ g.Open → Reported tr job
  handled : ∀ w job d, (.job job, some d) ∈ (s.consumers w).handled → d.removes = true →
    Reported tr job

section Recorded

variable {uuid : UuidParser} {broker : Broker} {s : Pipeline} {tr : List PipelineObs}

/-- Where a delivery comes from that a worker is through with. -/
theorem step_handled {e : PipelineEvent} {w : ℕ} {x : Message × Option Decision}
    (hx : x ∈ (((pipeline uuid broker).step s e).1.consumers w).handled) :
    x ∈ (s.consumers w).handled ∨
      ∃ h r, (s.consumers w).inHand = some h ∧ h.prog = .ret r ∧ x = (h.message, h.decision) := by
  have hmoves := moves uuid broker s e w
  generalize ((pipeline uuid broker).step s e).1.consumers w = c at hmoves hx
  generalize ((pipeline uuid broker).step s e).2 = obs at hmoves
  cases hmoves with
  | same | delivered | took | worked | stopped | disconnected => exact .inl hx
  | returned hin hprog =>
      rcases List.mem_cons.mp hx with rfl | hold
      · exact .inr ⟨_, _, hin, hprog, rfl⟩
      · exact .inl hold
  | settled => exact .inl (List.mem_of_mem_eraseIdx hx)
  | closed => cases hx

/-- Only the answer of the service closes a job. -/
theorem reported_of_after {h : InHand} {g : Progress} {o : WorkerOp}
    {k : o.Answer → WorkerAction (Except LapinError Unit)} (hat : h.At g)
    (hprog : h.prog = .op o k) {job : BackupJob} (hjob : h.message = .job job)
    (hrec : ¬ g.Open → Reported tr job) {w : ℕ} {r : o.Answer} {obs : List PipelineObs}
    (hobs : .worked w o r ∈ obs) (hclosed : ¬ (g.after o r).Open) : Reported (tr ++ obs) job := by
  have hallow := hat.allow hprog
  cases o with
  | rpc call =>
      rcases r with e | ack
      · rw [after_error] at hclosed
        exact (hclosed trivial).elim
      · obtain ⟨job', hjob', ⟨-, rfl⟩ | ⟨-, result, rfl, hby⟩⟩ := hallow
        · exact (hclosed trivial).elim
        · obtain rfl := Message.job.inj (hjob.symm.trans hjob')
          exact ⟨w, result, ack, List.mem_append_right _ hobs, hby⟩
  | analyze data =>
      obtain rfl : g = .running := hallow
      rcases r with e | entropy
      · exact (hclosed trivial).elim
      · exact (hclosed trivial).elim
  | settle d =>
      rw [hjob] at hallow
      obtain ⟨rfl, rfl⟩ | ⟨-, rfl⟩ := hallow
      · exact (hrec not_false).append _
      · exact (hclosed rfl).elim

theorem recorded_step (h : s.Recorded tr) (e : PipelineEvent) :
    ((pipeline uuid broker).step s e).1.Recorded (tr ++ ((pipeline uuid broker).step s e).2) where
  hands w hand hin := by
    obtain hold | ⟨m, -, rfl⟩ | ⟨env, h₀, o, k, hold, hprog, hobs, rfl⟩ := step_inHand hin
    · obtain ⟨g, hat, hrec⟩ := h.hands w hand hold
      exact ⟨g, hat, fun job hjob hclosed => (hrec job hjob hclosed).append _⟩
    · exact ⟨.start, .fresh m, fun _ _ hclosed => (hclosed trivial).elim⟩
    · obtain ⟨g, hat, hrec⟩ := h.hands w h₀ hold
      exact ⟨_, hat.next hprog uuid env s.api, fun job hjob hclosed =>
        reported_of_after hat hprog hjob (hrec job hjob) hobs hclosed⟩
  handled w job d hx hd := by
    obtain hold | ⟨hand, r, hin, hprog, heq⟩ := step_handled hx
    · exact (h.handled w job d hold hd).append _
    · obtain ⟨g, hat, hrec⟩ := h.hands w hand hin
      obtain ⟨hjob, hdecision⟩ := Prod.mk.inj heq
      obtain rfl := hat.decision d hdecision.symm
      refine (hrec job hjob.symm fun hopen => ?_).append _
      rw [settled_of_open hopen] at hd
      cases hd

/-- A message that leaves the broker has been decided about. -/
theorem step_removed {e : PipelineEvent} {m : Message}
    (h : .removed m ∈ ((pipeline uuid broker).step s e).2) :
    ∃ w d, (m, some d) ∈ (s.consumers w).handled ∧ d.removes = true := by
  cases step_shown h with
  | removed hhandled hd => exact ⟨_, _, hhandled, hd⟩

end Recorded

/-- The operation of a worker that has been seen was executed just now. -/
theorem step_worked {uuid : UuidParser} {broker : Broker} {s : Pipeline} {e : PipelineEvent} {w : ℕ}
    {o : WorkerOp} {r : o.Answer} (h : .worked w o r ∈ ((pipeline uuid broker).step s e).2) :
    ∃ (env : WorkerEnv) (decision : Option Decision), (o.exec uuid env ⟨s.api, decision⟩).1 = r ∧
      ((pipeline uuid broker).step s e).1.api = (o.exec uuid env ⟨s.api, decision⟩).2.api := by
  cases step_shown h with
  | worked hin hapi => exact ⟨_, _, rfl, hapi⟩

/-! ### Runs -/

section Awaited

variable (uuid : UuidParser) (broker : Broker)

/-- The last event has published a job of the backup. -/
def PublishedLast (s : Pipeline) (es : List PipelineEvent) (id : Uuid) : Prop :=
  ∃ pre e job, es = pre ++ [e] ∧ job.backupId = id ∧
    .published job ∈ ((pipeline uuid broker).step ((pipeline uuid broker).run s pre) e).2

/-- A job of the backup was published, or its result was recorded, and since
then nobody has seen a PATCH modify the row, a request delete it, or an
UpdateStatus stray to it. -/
def Awaited (s : Pipeline) (es : List PipelineEvent) (id : Uuid) : Prop :=
  ∃ before after, es = before ++ after ∧
    (PublishedLast uuid broker s before id ∨
      ∃ r, ((pipeline uuid broker).run s before).api.store.db.find id = some r ∧ r.Processed) ∧
    Untouched ((pipeline uuid broker).trace ((pipeline uuid broker).run s before) after) id ∧
    .strayed id ∉ (pipeline uuid broker).trace ((pipeline uuid broker).run s before) after

end Awaited

/-- Nothing is on the queue, and there is nothing to be settled. -/
structure Pipeline.Quiescent (s : Pipeline) : Prop where
  queue : s.api.store.queue = []
  unacked : ∀ w, (s.consumers w).unacked = []

theorem Pipeline.Quiescent.not_holds {s : Pipeline} (h : s.Quiescent) {P : Progress → Prop}
    {p : Message → Prop} : ¬ s.Holds P p := by
  rintro (⟨m, hm, -⟩ | ⟨w, hw⟩)
  · rw [h.queue] at hm
    cases hm
  · obtain ⟨m, hm, -⟩ := hw.exists_unacked
    rw [h.unacked w] at hm
    cases hm

/-- A job that has just been published is owed to its row. -/
theorem owed_of_published {uuid : UuidParser} {broker : Broker} {s : Pipeline} {e : PipelineEvent}
    {job : BackupJob} (h : .published job ∈ ((pipeline uuid broker).step s e).2) :
    ((pipeline uuid broker).step s e).1.Owed job.backupId := by
  cases step_shown h with
  | published hqueue =>
      refine owed_of_holds (.inl ⟨_, ?_, _, rfl, rfl⟩)
      rw [hqueue]
      exact List.mem_append_right _ List.mem_cons_self

section Runs

variable {uuid : UuidParser} {broker : Broker} {db : Table} {replicas : ℕ → Replica}

theorem run_sound (es : List PipelineEvent) :
    ((pipeline uuid broker).run (.initial db replicas) es).Sound := by
  induction es using Machine.run_induction with
  | hnil => exact sound_initial db replicas
  | hsnoc es e ih =>
      rw [Machine.run_concat]
      exact sound_step ih e

theorem run_sourced (hdb : ∀ r ∈ db.rows, r.sourcePath ≠ "") (es : List PipelineEvent) :
    ((pipeline uuid broker).run (.initial db replicas) es).Sourced := by
  induction es using Machine.run_induction with
  | hnil => exact sourced_initial hdb replicas
  | hsnoc es e ih =>
      rw [Machine.run_concat]
      exact sourced_step ih (run_sound es) e

theorem run_recorded (es : List PipelineEvent) :
    ((pipeline uuid broker).run (.initial db replicas) es).Recorded
      ((pipeline uuid broker).trace (.initial db replicas) es) := by
  induction es using Machine.run_induction with
  | hnil => exact ⟨fun _ _ h => (nomatch h), fun _ _ _ h => (nomatch h)⟩
  | hsnoc es e ih =>
      rw [Machine.run_concat, Machine.trace_concat]
      exact recorded_step ih e

/-- What is owed stays owed as long as nobody touches the row from outside. -/
theorem owed_run {s : Pipeline} (hsound : s.Sound) (hsourced : s.Sourced) {id : Uuid}
    (howed : s.Owed id) (es : List PipelineEvent)
    (hkept : Untouched ((pipeline uuid broker).trace s es) id)
    (hstray : .strayed id ∉ (pipeline uuid broker).trace s es) :
    ((pipeline uuid broker).run s es).Owed id := by
  induction es generalizing s with
  | nil => exact howed
  | cons e es ih =>
      rw [Machine.trace_cons] at hkept hstray
      rw [List.mem_append, not_or] at hstray
      exact ih (sound_step hsound e) (sourced_step hsourced hsound e)
        (owed_step hsound hsourced hkept.of_append.1 hstray.1 howed) hkept.of_append.2 hstray.2

theorem run_owed (hdb : ∀ r ∈ db.rows, r.sourcePath ≠ "") {es : List PipelineEvent} {id : Uuid}
    (h : Awaited uuid broker (.initial db replicas) es id) :
    ((pipeline uuid broker).run (.initial db replicas) es).Owed id := by
  obtain ⟨before, after, rfl, hstart, hkept, hstray⟩ := h
  rw [Machine.run_append]
  refine owed_run (run_sound before) (run_sourced hdb before) ?_ after hkept hstray
  obtain ⟨pre, e, job, rfl, rfl, hpublished⟩ | ⟨r, hr, hprocessed⟩ := hstart
  · rw [Machine.run_concat]
    exact owed_of_published hpublished
  · exact owed_of_some hr (.inl hprocessed)

/-- The event has executed the UPDATE of a report for the job, and the
service has answered it. -/
structure Records (s s' : Pipeline) (obs : List PipelineObs) (job : BackupJob) : Prop where
  answered : ∃ w result ack, .worked w (.rpc (.reportResult result)) (.ok ack) ∈ obs ∧
    result.backupId = job.backupId.toString ∧ result.status = "completed" ∧
      result.sizeBytes = 8192 * 128
  executed : ∃ oracle, s'.api.store.db =
    ((Sql.setCompleted job.backupId (8192 * 128)).exec .stable oracle s.api.store.db).2
  completed : ∀ r, s.api.store.db.find job.backupId = some r →
    ∃ r', s'.api.store.db.find job.backupId = some r' ∧
      r'.status = "completed" ∧ r'.sizeBytes = 8192 * 128

/-- What has been answered has been executed. -/
theorem records_of_worked {s : Pipeline} {e : PipelineEvent} {w : ℕ} {job : BackupJob}
    {result : ProcessingResult} {ack : Ack} (hby : job.ReportedBy result) (hpath : job.sourcePath ≠ "")
    (h : .worked w (.rpc (.reportResult result)) (.ok ack) ∈ ((pipeline uuid broker).step s e).2) :
    Records s ((pipeline uuid broker).step s e).1 ((pipeline uuid broker).step s e).2 job := by
  have hsize : result.sizeBytes = 8192 * 128 := hby.sizeBytes.trans (simulatedSize_eq hpath)
  obtain ⟨env, decision, hanswer, hapi⟩ := step_worked h
  have hdb : ((pipeline uuid broker).step s e).1.api.store.db =
      ((Sql.setCompleted job.backupId (8192 * 128)).exec .stable env.oracle s.api.store.db).2 := by
    rw [hapi]
    refine (exec_report env ⟨s.api, decision⟩ hby hsize).resolve_right ?_
    rintro ⟨-, err, herr⟩
    cases hanswer.symm.trans herr
  refine ⟨⟨w, result, ack, h, hby.backupId, hby.status, hsize⟩, ⟨env.oracle, hdb⟩, fun r hr => ?_⟩
  obtain ⟨r', hr', hprocessed⟩ := processed_setCompleted env.oracle hr
  exact ⟨r', hdb ▸ hr', hprocessed.status, hprocessed.sizeBytes⟩

/-- A job that leaves the broker for good has been recorded before. -/
theorem records_of_removed (hdb : ∀ r ∈ db.rows, r.sourcePath ≠ "") {es : List PipelineEvent}
    {e : PipelineEvent} {job : BackupJob}
    (h : .removed (.job job) ∈ ((pipeline uuid broker).step
      ((pipeline uuid broker).run (.initial db replicas) es) e).2) :
    ∃ pre e', pre ++ [e'] <+: es ∧ Records ((pipeline uuid broker).run (.initial db replicas) pre)
      ((pipeline uuid broker).run (.initial db replicas) (pre ++ [e']))
      ((pipeline uuid broker).step ((pipeline uuid broker).run (.initial db replicas) pre) e').2
      job := by
  obtain ⟨w, d, hhandled, hd⟩ := step_removed h
  have hpath : job.sourcePath ≠ "" := (run_sourced hdb es).deliveries w job
    (Consumer.mem_deliveries.mpr (.inl ⟨_, hhandled, rfl⟩))
  obtain ⟨w', result, ack, hmem, hby⟩ := (run_recorded es).handled w job d hhandled hd
  obtain ⟨pre, e', post, rfl, hworked⟩ := (pipeline uuid broker).exists_of_mem_trace hmem
  refine ⟨pre, e', ⟨post, by simp⟩, ?_⟩
  rw [Machine.run_concat]
  exact records_of_worked hby hpath hworked

end Runs

/-- **Quiescent correctness of the job pipeline.** When the broker has
nothing left, the result is recorded of every row that is still there, for
which a job has been published, or which has been recorded, and which since
then no PATCH has modified and no worker has updated that went on without its
channel. And at no time has a job left the broker before its result was
recorded. -/
theorem quiescent_processed (uuid : UuidParser) (broker : Broker) (replicas : ℕ → Replica)
    {db : Table} (hdb : ∀ r ∈ db.rows, r.sourcePath ≠ "") (es : List PipelineEvent) :
    (((pipeline uuid broker).run (.initial db replicas) es).Quiescent →
      ∀ r ∈ ((pipeline uuid broker).run (.initial db replicas) es).api.store.db.rows,
        Awaited uuid broker (.initial db replicas) es r.id →
          r.status = "completed" ∧ r.sizeBytes = 8192 * 128) ∧
      ∀ before e job, before ++ [e] <+: es →
        .removed (.job job) ∈ ((pipeline uuid broker).step
          ((pipeline uuid broker).run (.initial db replicas) before) e).2 →
        ∃ pre e', pre ++ [e'] <+: before ∧
          Records ((pipeline uuid broker).run (.initial db replicas) pre)
            ((pipeline uuid broker).run (.initial db replicas) (pre ++ [e']))
            ((pipeline uuid broker).step
              ((pipeline uuid broker).run (.initial db replicas) pre) e').2 job := by
  refine ⟨fun hquiet r hr hawaited => ?_, fun before e job _ hremoved => records_of_removed hdb hremoved⟩
  have howed := run_owed hdb hawaited
  rw [Pipeline.Owed, Table.find_eq_some.mpr ⟨hr, rfl⟩] at howed
  rcases howed with hprocessed | hholds
  · exact ⟨hprocessed.status, hprocessed.sizeBytes⟩
  · exact (hquiet.not_holds hholds).elim

/-! ### A worker without a channel -/

section Orphan

/-- The observation is that of a PATCH, a deletion or a stray update of the
row. -/
def PipelineObs.changes (id : Uuid) : PipelineObs → Bool
  | patched id' => id' = id
  | deleted id' => id' = id
  | strayed id' => id' = id
  | _ => false

theorem untouched_of_changes {tr : List PipelineObs} {id : Uuid}
    (h : tr.any (PipelineObs.changes id) = false) : Untouched tr id ∧ .strayed id ∉ tr := by
  have hnot := List.any_eq_false.mp h
  refine ⟨⟨fun hmem => hnot _ hmem ?_, fun hmem => hnot _ hmem ?_⟩, fun hmem => hnot _ hmem ?_⟩
  all_goals simp [PipelineObs.changes]

/-- The job of backup `7` is published. -/
def publishEvents : List PipelineEvent :=
  let step : PipelineEvent := .api (.step ⟨⟨1⟩, 0⟩ {})
  [.api (.start 0 0 ⟨"user", ⟨1⟩, [], 0, 0⟩ (.enqueue ⟨7⟩) ⟨⟨0⟩, 0⟩), step, step, step]

/-- Worker `w` takes a delivery and does everything it has to. -/
def handleEvents (w : ℕ) : List PipelineEvent :=
  .deliver w :: List.replicate 6 (.work w (.faultFree ⟨⟨0⟩, 1⟩)) ++ [.settle w 0]

/-- The job of backup `7` is published, delivered, processed and acked. -/
def processEvents : List PipelineEvent := publishEvents ++ handleEvents 0

/-- One row, and a channel in every replica. -/
def oneRowPipeline : Pipeline := .initial oneRow fun _ => ⟨⟨.connected, true⟩, .default⟩

theorem publishedLast_publishEvents :
    PublishedLast .hyphenated .head oneRowPipeline (publishEvents.take 3) ⟨7⟩ :=
  ⟨publishEvents.take 2, _, ⟨⟨7⟩, ⟨1⟩, "/data", false⟩, rfl, rfl, List.mem_of_getElem? (i := 0) rfl⟩

theorem quiescent_processed_processEvents :
    ∃ r ∈ ((pipeline .hyphenated .head).run oneRowPipeline processEvents).api.store.db.rows,
      r.status = "completed" ∧ r.sizeBytes = 8192 * 128 := by
  have hquiet : ((pipeline .hyphenated .head).run oneRowPipeline processEvents).Quiescent :=
    ⟨rfl, fun | 0 => rfl | _ + 1 => rfl⟩
  have hawaited : Awaited .hyphenated .head oneRowPipeline processEvents ⟨7⟩ :=
    ⟨publishEvents.take 3, publishEvents.drop 3 ++ handleEvents 0, rfl,
      .inl publishedLast_publishEvents, untouched_of_changes rfl⟩
  exact ⟨_, List.mem_cons_self, (quiescent_processed .hyphenated .head _ (by decide) _).1 hquiet _
    List.mem_cons_self hawaited⟩

/-- Worker `0` has taken the job when its channel is closed. Worker `1` gets
the message and processes it; then worker `0` goes on. -/
def orphanEvents : List PipelineEvent :=
  publishEvents ++ [.deliver 0, .work 0 (.faultFree ⟨⟨0⟩, 1⟩), .disconnect 0] ++ handleEvents 1 ++
    [.work 0 (.faultFree ⟨⟨0⟩, 2⟩)]

/-- The job has been published and nobody has patched or deleted the row; the
broker has nothing left, and the row is `running`. -/
theorem not_quiescent_processed :
    PublishedLast .hyphenated .head oneRowPipeline (orphanEvents.take 3) ⟨7⟩ ∧
    Untouched ((pipeline .hyphenated .head).trace oneRowPipeline orphanEvents) ⟨7⟩ ∧
    ((pipeline .hyphenated .head).run oneRowPipeline orphanEvents).Quiescent ∧
    ((pipeline .hyphenated .head).run oneRowPipeline orphanEvents).api.store.db.rows.map
      Backup.status = ["running"] := by
  refine ⟨publishedLast_publishEvents,
    ?_, ⟨rfl, fun | 0 => rfl | 1 => rfl | _ + 2 => rfl⟩, by decide +kernel⟩
  have hnot : ((pipeline .hyphenated .head).trace oneRowPipeline orphanEvents).all
      (fun o => match o with
        | .patched _ => false
        | .deleted _ => false
        | _ => true) = true := by decide +kernel
  have hall := List.all_eq_true.mp hnot
  exact ⟨fun hmem => Bool.noConfusion (hall _ hmem), fun hmem => Bool.noConfusion (hall _ hmem)⟩

end Orphan

end BackupService
