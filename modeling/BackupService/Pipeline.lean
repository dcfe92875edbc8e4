import BackupService.Jobs
import BackupService.Worker

/-!
The job pipeline: the service, the broker, and any number of workers.

The queue `backup_jobs` is the one that `enqueue_backup` publishes to. The
broker hands its head to some consumer and keeps the message as unacked
until it sees an ack or a nack, and it requeues whatever a consumer has not
settled when its channel is closed or its process has died. Where a
message goes that is requeued is left open (`Broker`).

A worker takes the deliveries it has been sent one after the other. Its
operations are steps of their own, so the writes of several workers
interleave in every way with each other and with the requests. An ack that
a worker has sent may arrive later than its answer, or never.

`run_worker` does not look at its channel between two acks. When the channel
alone is closed, the worker goes on with the deliveries it has, although the
broker gives them to others (`Pipeline.disconnect`). And a call that has not
been answered may still be under way, even if nobody waits for it any more
(`Pipeline.late`).
-/

namespace BackupService

open Lib

/-- What the broker is free to decide. -/
structure Broker where
  requeue : Message → List Message → List Message
  perm : ∀ m q, (requeue m q).Perm (m :: q)

/-- A requeued message goes back to where it came from. -/
def Broker.head : Broker := ⟨List.cons, fun _ _ => .refl _⟩

/-- The queue after the broker has seen what a consumer decided. -/
def Decision.settle (broker : Broker) (m : Message) : Decision → List Message → List Message
  | nack true, q => broker.requeue m q
  | nack false, q => q
  | ack, q => q

/-- The message leaves the broker. -/
def Decision.removes : Decision → Bool
  | nack true => false
  | nack false => true
  | ack => true

/-! ### The operations of a worker -/

/-- The surroundings of one operation of a worker: what happens to a call
on the way to its statement, how its statement fares, and what becomes of
an ack or a nack. -/
structure WorkerEnv where
  oracle : Oracle
  rpc : Fault := .none
  sql : Fault := .none
  join : Bool := true
  sent : Bool := true
  confirmed : Bool := true

/-- Nothing goes wrong. -/
def WorkerEnv.faultFree (oracle : Oracle) : WorkerEnv := { oracle }

/-- What a worker acts on: the service, and the delivery in its hand. -/
structure Desk where
  api : State
  decision : Option Decision

def WorkerOp.exec (uuid : UuidParser) (env : WorkerEnv) : (o : WorkerOp) → Desk → o.Answer × Desk
  | .rpc call, desk =>
      let (result, store) := desk.api.call uuid call env.oracle { sql := env.sql }
      match env.rpc with
      | .none => (result.mapError .status, { desk with api := desk.api.setStore store })
      | .before => (.error .transport, desk)
      | .after => (.error .transport, { desk with api := desk.api.setStore store })
  | .analyze data, desk => (if env.join then .ok (shannonEntropy data) else .error .join, desk)
  | .settle d, desk =>
      (if env.confirmed then .ok () else .error .failed,
        if env.sent then { desk with decision := some d } else desk)

/-- The calls that are under way after an operation: one that has failed
before it was executed may be executed yet. -/
def WorkerOp.underWay (env : WorkerEnv) : WorkerOp → List Rpc
  | .rpc call => match env.rpc with
      | .before => [call]
      | .none => []
      | .after => []
  | .analyze _ => []
  | .settle _ => []

/-! ### The parties -/

/-- The delivery a worker is busy with, and what it still has to do. -/
structure InHand where
  message : Message
  decision : Option Decision
  prog : WorkerAction (Except LapinError Unit)

/-- A consumer of the queue: the worker, and what the broker has in its
books about it. -/
structure Consumer where
  /-- The loop of `run_worker` has not ended. -/
  running : Bool := true
  /-- The channel is open. -/
  connected : Bool := true
  /-- Delivered, and not yet taken by the loop. -/
  buffer : List Message := []
  inHand : Option InHand := none
  /-- The worker is through with these; the broker has yet to see what has
  been decided about them, if it ever will. -/
  handled : List (Message × Option Decision) := []

namespace Consumer

variable (c : Consumer)

/-- What the worker has been sent. -/
def deliveries : List Message :=
  c.handled.map Prod.fst ++ c.inHand.toList.map InHand.message ++ c.buffer

/-- The messages the broker waits to see settled. -/
def unacked : List Message := if c.connected then c.deliveries else []

/-- Over a closed channel the broker hears nothing. -/
def env (e : WorkerEnv) : WorkerEnv := { e with sent := e.sent && c.connected }

end Consumer

structure Pipeline where
  api : State
  consumers : ℕ → Consumer
  /-- Calls whose workers have given them up, and that may be executed yet. -/
  late : List Rpc := []

inductive PipelineEvent
  /-- The service does something by itself. -/
  | api (e : Event)
  /-- Somebody else publishes what is not a job. -/
  | publishMalformed (error : String)
  | deliver (w : ℕ)
  | work (w : ℕ) (env : WorkerEnv)
  /-- Between two deliveries the loop ends: shutdown, or no more deliveries. -/
  | stop (w : ℕ)
  /-- The broker sees what has been decided about a delivery. -/
  | settle (w i : ℕ)
  /-- The channel is closed, and nothing else. -/
  | disconnect (w : ℕ)
  /-- The process has died; another one takes its place. -/
  | close (w : ℕ)
  /-- A call is executed that nobody waits for any more. -/
  | late (i : ℕ) (oracle : Oracle) (sql : Fault)

/-- What can be observed of the pipeline. -/
inductive PipelineObs
  /-- The job of an enqueue request is on the queue. -/
  | published (job : BackupJob)
  /-- A PATCH has modified the row. -/
  | patched (id : Uuid)
  | deleted (id : Uuid)
  | worked (w : ℕ) (o : WorkerOp) (answer : o.Answer)
  | late (call : Rpc)
  /-- An UpdateStatus has modified the row whose worker had lost its channel,
  or had given the call up. -/
  | strayed (id : Uuid)
  | removed (m : Message)

/-- What a statement of the service means to the pipeline. -/
def Sql.effects (t t' : Table) : Sql → List PipelineObs
  | .updateBackup id _ _ _ => if t'.find id = t.find id then [] else [.patched id]
  | .deleteBackup id _ => if t'.find id = t.find id then [] else [.deleted id]
  | _ => []

/-- What a call means to the pipeline that is executed without a delivery
behind it. -/
def Rpc.strays (uuid : UuidParser) (t t' : Table) : Rpc → List PipelineObs
  | .updateStatus msg => match uuid.parse msg.backupId with
      | .ok id => if t'.find id = t.find id then [] else [.strayed id]
      | .error _ => []
  | .reportResult _ => []

def WorkerOp.strays (uuid : UuidParser) (t t' : Table) : WorkerOp → List PipelineObs
  | .rpc call => call.strays uuid t t'
  | .analyze _ => []
  | .settle _ => []

def Obs.effects (s s' : State) : Obs → List PipelineObs
  | .performed _ (.sql q) _ => q.effects s.store.db s'.store.db
  | .performed _ (.publish job) _ =>
      if s'.store.queue = s.store.queue then [] else [.published job]
  | _ => []

def State.setQueue (s : State) (queue : List Message) : State :=
  s.setStore { s.store with queue }

namespace Pipeline

def setConsumer (s : Pipeline) (w : ℕ) (c : Consumer) : Pipeline :=
  { s with consumers := Function.update s.consumers w c }

def setQueue (s : Pipeline) (queue : List Message) : Pipeline :=
  { s with api := s.api.setQueue queue }

/-- The service moves. Calls of the gRPC service come from the workers. -/
def serve (s : Pipeline) (uuid : UuidParser) : Event → Pipeline × List PipelineObs
  | .rpc _ _ _ => (s, [])
  | e =>
      let (api, obs) := (system uuid).step s.api e
      ({ s with api }, obs.flatMap (Obs.effects s.api api))

/-- The head of the queue goes to a consumer. -/
def deliver (s : Pipeline) (w : ℕ) : Pipeline :=
  let c := s.consumers w
  match c.connected, s.api.store.queue with
  | true, m :: queue => (s.setQueue queue).setConsumer w { c with buffer := c.buffer ++ [m] }
  | _, _ => s

/-- The worker takes a delivery, performs the next operation for the one in
its hand, or goes on to the next iteration. -/
def work (s : Pipeline) (uuid : UuidParser) (w : ℕ) (env : WorkerEnv) :
    Pipeline × List PipelineObs :=
  let c := s.consumers w
  match c.inHand with
  | none =>
      match c.running, c.buffer with
      | true, m :: buffer =>
          (s.setConsumer w { c with buffer, inHand := some ⟨m, none, handleDelivery m⟩ }, [])
      | _, _ => (s, [])
  | some h =>
      match h.prog with
      | .ret r =>
          (s.setConsumer w { c with
            running := c.running && r.isOk
            inHand := none
            handled := (h.message, h.decision) :: c.handled }, [])
      | .op o k =>
          let (answer, desk) := o.exec uuid (c.env env) ⟨s.api, h.decision⟩
          ({ s with api := desk.api, late := o.underWay env ++ s.late }.setConsumer w
            { c with inHand := some ⟨h.message, desk.decision, k answer⟩ },
            .worked w o answer ::
              if c.connected then [] else o.strays uuid s.api.store.db desk.api.store.db)

def stop (s : Pipeline) (w : ℕ) : Pipeline :=
  match (s.consumers w).inHand with
  | none => s.setConsumer w { s.consumers w with running := false }
  | some _ => s

def settle (s : Pipeline) (broker : Broker) (w i : ℕ) : Pipeline × List PipelineObs :=
  let c := s.consumers w
  match c.connected, c.handled[i]? with
  | true, some (m, some d) =>
      ((s.setQueue (d.settle broker m s.api.store.queue)).setConsumer w
        { c with handled := c.handled.eraseIdx i },
        if d.removes then [.removed m] else [])
  | _, _ => (s, [])

/-- What has not been settled goes back to the queue. -/
def requeue (s : Pipeline) (broker : Broker) (w : ℕ) : Pipeline :=
  s.setQueue ((s.consumers w).unacked.foldr broker.requeue s.api.store.queue)

/-- The worker keeps what it has, and the broker does not wait for it. -/
def disconnect (s : Pipeline) (broker : Broker) (w : ℕ) : Pipeline :=
  (s.requeue broker w).setConsumer w { s.consumers w with connected := false }

def close (s : Pipeline) (broker : Broker) (w : ℕ) : Pipeline :=
  (s.requeue broker w).setConsumer w {}

def executeLate (s : Pipeline) (uuid : UuidParser) (i : ℕ) (oracle : Oracle) (sql : Fault) :
    Pipeline × List PipelineObs :=
  match s.late[i]? with
  | some call =>
      let (_, store) := s.api.call uuid call oracle { sql }
      ({ s with api := s.api.setStore store, late := s.late.eraseIdx i },
        .late call :: call.strays uuid s.api.store.db store.db)
  | none => (s, [])

end Pipeline

/-- The pipeline as a machine. -/
def pipeline (uuid : UuidParser) (broker : Broker) : Machine Pipeline PipelineEvent PipelineObs where
  step s
    | .api e => s.serve uuid e
    | .publishMalformed error =>
        (s.setQueue (s.api.store.queue ++ [.malformed error]), [])
    | .deliver w => (s.deliver w, [])
    | .work w env => s.work uuid w env
    | .stop w => (s.stop w, [])
    | .settle w i => s.settle broker w i
    | .disconnect w => (s.disconnect broker w, [])
    | .close w => (s.close broker w, [])
    | .late i oracle sql => s.executeLate uuid i oracle sql

/-- Nothing has happened yet, and no worker is connected. -/
def Pipeline.initial (db : Table) (replicas : ℕ → Replica) : Pipeline where
  api := .initial db replicas
  consumers := fun _ => {}

/-! ### What the service does -/

section Exec

variable (env : Env) (oracle : Oracle) (config : AppConfig) (clock : ℕ) (st : Store)

theorem exec_sql_queue (q : Sql) :
    ((Op.sql q).exec env oracle config clock st).2.queue = st.queue := by
  simp only [Op.exec]
  split <;> rfl

/-- A statement is executed, or the table stays as it is. -/
theorem exec_statement_db (q : Sql) : ((Op.sql q).exec env oracle config clock st).2.db = st.db ∨
    ((Op.sql q).exec env oracle config clock st).2.db = (q.exec env.order oracle st.db).2 := by
  cases hfault : env.sql with
  | none => exact .inr (by simp only [Op.exec, hfault])
  | before => exact .inl (by simp only [Op.exec, hfault])
  | after => exact .inr (by simp only [Op.exec, hfault])

end Exec

theorem effects_self (q : Sql) (t : Table) : q.effects t t = [] := by
  cases q <;> simp [Sql.effects]

/-- The table and the queue, before and after a move of the service. -/
inductive Serves (s s' : Pipeline) : List PipelineObs → Prop
  | same (hdb : s'.api.store.db = s.api.store.db) (hqueue : s'.api.store.queue = s.api.store.queue) :
      Serves s s' []
  /-- A thread executes a statement. -/
  | statement {id : ReqId} {th : Thread} {q : Sql} {k : Except SqlError q.Answer → Action Response}
      (order : RowOrder) (hth : s.api.inflight id = some th) (hprog : th.prog = .op (.sql q) k)
      (hdb : s'.api.store.db = (q.exec order th.oracle s.api.store.db).2)
      (hqueue : s'.api.store.queue = s.api.store.queue) :
      Serves s s' (q.effects s.api.store.db s'.api.store.db)
  /-- A thread publishes its job. -/
  | publish {id : ReqId} {th : Thread} {job : BackupJob}
      {k : Except LapinError Unit → Action Response}
      (hth : s.api.inflight id = some th) (hprog : th.prog = .op (.publish job) k)
      (hdb : s'.api.store.db = s.api.store.db)
      (hqueue : s'.api.store.queue = s.api.store.queue ++ [.job job]) :
      Serves s s' [.published job]

theorem serves_step (s : Pipeline) (uuid : UuidParser) (id : ReqId) (env : Env) :
    Serves s (s.serve uuid (.step id env)).1 (s.serve uuid (.step id env)).2 := by
  simp only [Pipeline.serve, step_step]
  cases hth : s.api.inflight id with
  | none =>
      rw [State.stepThread_none hth]
      exact .same rfl rfl
  | some th =>
      cases hprog : th.prog with
      | ret response =>
          rw [State.stepThread_ret hth hprog]
          exact .same rfl rfl
      | op o k =>
          rw [State.stepThread_op hth hprog]
          simp only [List.flatMap_cons, List.flatMap_nil, List.append_nil]
          cases o with
          | sql q =>
              rcases exec_statement_db env th.oracle (s.api.replicas th.replica).config s.api.clock
                s.api.store q with hdb | hdb
              · have hnone : q.effects s.api.store.db (s.api.exec th env (.sql q)).2.db = [] := by
                  rw [State.exec, hdb, effects_self]
                simp only [Obs.effects, State.setThread_store, State.setStore_store, hnone]
                exact .same hdb (exec_sql_queue ..)
              · exact .statement env.order hth hprog hdb (exec_sql_queue ..)
          | redis c =>
              refine .same ?_ ?_ <;>
                simp only [State.setThread_store, State.setStore_store, State.exec, Op.exec] <;>
                split <;> rfl
          | config | entropy => exact .same rfl rfl
          | publish job =>
              cases hstored : env.publish.stored with
              | false =>
                  simp only [Obs.effects, State.setThread_store, State.setStore_store, State.exec,
                    Op.exec, hstored, Bool.false_eq_true, if_false, if_true]
                  exact .same rfl rfl
              | true =>
                  simp only [Obs.effects, State.setThread_store, State.setStore_store, State.exec,
                    Op.exec, hstored, if_true, List.append_right_eq_self, List.cons_ne_nil, if_false]
                  exact .publish hth hprog rfl rfl

theorem serves (s : Pipeline) (uuid : UuidParser) (e : Event) :
    Serves s (s.serve uuid e).1 (s.serve uuid e).2 := by
  cases e with
  | start replica seq claims request oracle =>
      simp only [Pipeline.serve, step_start, List.flatMap_nil]
      rw [State.start]
      split <;> exact .same rfl rfl
  | step id env => exact serves_step ..
  | drop | rpc | configUpdate | expire | advance => exact .same rfl rfl

@[simp] theorem serve_consumers (s : Pipeline) (uuid : UuidParser) (e : Event) :
    (s.serve uuid e).1.consumers = s.consumers := by
  cases e <;> rfl

theorem serve_api (s : Pipeline) (uuid : UuidParser) (e : Event) :
    (s.serve uuid e).1.api = s.api ∨ (s.serve uuid e).1.api = ((system uuid).step s.api e).1 := by
  cases e with
  | rpc call oracle env => exact .inl rfl
  | start | step | drop | configUpdate | expire | advance => exact .inr rfl

/-- The service puts nothing on the queue but the jobs it publishes. -/
theorem Serves.of_mem_queue {s s' : Pipeline} {obs : List PipelineObs} (h : Serves s s' obs)
    {m : Message} (hm : m ∈ s'.api.store.queue) :
    m ∈ s.api.store.queue ∨ ∃ (job : BackupJob) (id : ReqId) (th : Thread)
      (k : Except LapinError Unit → Action Response), m = .job job ∧ .published job ∈ obs ∧
        s.api.inflight id = some th ∧ th.prog = .op (.publish job) k := by
  cases h with
  | same _ hqueue => exact .inl (hqueue ▸ hm)
  | statement _ _ _ _ hqueue => exact .inl (hqueue ▸ hm)
  | publish hth hprog _ hqueue =>
      rw [hqueue] at hm
      rcases List.mem_append.mp hm with hold | hnew
      · exact .inl hold
      · exact .inr ⟨_, _, _, _, List.mem_singleton.mp hnew, List.mem_cons_self, hth, hprog⟩

/-! ### What a worker does -/

/-- What the next step of a worker is. -/
inductive Works (uuid : UuidParser) (s : Pipeline) (w : ℕ) (env : WorkerEnv) :
    Pipeline → List PipelineObs → Prop
  | idle : Works uuid s w env s []
  | take {m : Message} {buffer : List Message} (hin : (s.consumers w).inHand = none)
      (hbuffer : (s.consumers w).buffer = m :: buffer) :
      Works uuid s w env (s.setConsumer w
        { s.consumers w with buffer, inHand := some ⟨m, none, handleDelivery m⟩ }) []
  | ret {h : InHand} {r : Except LapinError Unit} (hin : (s.consumers w).inHand = some h)
      (hprog : h.prog = .ret r) :
      Works uuid s w env (s.setConsumer w { s.consumers w with
        running := (s.consumers w).running && r.isOk
        inHand := none
        handled := (h.message, h.decision) :: (s.consumers w).handled }) []
  | op {h : InHand} {o : WorkerOp} {k : o.Answer → WorkerAction (Except LapinError Unit)}
      {env' : WorkerEnv} (hin : (s.consumers w).inHand = some h) (hprog : h.prog = .op o k)
      (henv : env' = (s.consumers w).env env) :
      Works uuid s w env
        ({ s with
          api := (o.exec uuid env' ⟨s.api, h.decision⟩).2.api
          late := o.underWay env ++ s.late }.setConsumer w
          { s.consumers w with inHand := some ⟨h.message,
            (o.exec uuid env' ⟨s.api, h.decision⟩).2.decision,
            k (o.exec uuid env' ⟨s.api, h.decision⟩).1⟩ })
        (.worked w o (o.exec uuid env' ⟨s.api, h.decision⟩).1 ::
          if (s.consumers w).connected then []
          else o.strays uuid s.api.store.db (o.exec uuid env' ⟨s.api, h.decision⟩).2.api.store.db)

theorem works (uuid : UuidParser) (s : Pipeline) (w : ℕ) (env : WorkerEnv) :
    Works uuid s w env (s.work uuid w env).1 (s.work uuid w env).2 := by
  cases hin : (s.consumers w).inHand with
  | none =>
      simp only [Pipeline.work, hin]
      split
      · exact .take hin ‹_›
      · exact .idle
  | some h =>
      cases hprog : h.prog with
      | ret r =>
          simp only [Pipeline.work, hin, hprog]
          exact .ret hin hprog
      | op o k =>
          simp only [Pipeline.work, hin, hprog]
          exact .op hin hprog rfl

section Desk

variable (uuid : UuidParser) (env : WorkerEnv) (desk : Desk)

theorem call_queue (s : State) (call : Rpc) (oracle : Oracle) (env : Env) :
    (s.call uuid call oracle env).2.queue = s.store.queue := by
  rcases s.call_store uuid call oracle env with ⟨-, -, heq⟩ | ⟨id, -, heq⟩
  · rw [heq]
  · rw [heq, exec_sql_queue]

/-- The operations of a worker reach the table only. -/
theorem exec_worker_queue (o : WorkerOp) :
    (o.exec uuid env desk).2.api.store.queue = desk.api.store.queue := by
  cases o with
  | rpc call =>
      simp only [WorkerOp.exec]
      split
      · exact call_queue ..
      · rfl
      · exact call_queue ..
  | analyze data => rfl
  | settle d =>
      simp only [WorkerOp.exec]
      split <;> rfl

theorem exec_worker_inflight (o : WorkerOp) :
    (o.exec uuid env desk).2.api.inflight = desk.api.inflight := by
  cases o with
  | rpc call =>
      simp only [WorkerOp.exec]
      split <;> rfl
  | analyze data => rfl
  | settle d =>
      simp only [WorkerOp.exec]
      split <;> rfl

theorem exec_worker_decision (o : WorkerOp) :
    (o.exec uuid env desk).2.decision = desk.decision ∨
      ∃ d, o = .settle d ∧ (o.exec uuid env desk).2.decision = some d := by
  cases o with
  | rpc call =>
      simp only [WorkerOp.exec]
      split <;> exact .inl rfl
  | analyze data => exact .inl rfl
  | settle d =>
      simp only [WorkerOp.exec]
      split
      · exact .inr ⟨d, rfl, rfl⟩
      · exact .inl rfl

theorem exec_worker_db {o : WorkerOp} (ho : ∀ call, o ≠ .rpc call) :
    (o.exec uuid env desk).2.api.store.db = desk.api.store.db := by
  cases o with
  | rpc call => exact (ho call rfl).elim
  | analyze data => rfl
  | settle d =>
      simp only [WorkerOp.exec]
      split <;> rfl

/-- A call that is answered has been executed, and one that is not may have
been. -/
theorem exec_rpc {call : Rpc} {id : Uuid} (hid : uuid.parse call.backupId = .ok id) :
    ((WorkerOp.rpc call).exec uuid env desk).2.api.store.db =
        ((call.statement id).exec .stable env.oracle desk.api.store.db).2 ∨
      ((WorkerOp.rpc call).exec uuid env desk).2.api.store.db = desk.api.store.db ∧
        ∃ e, ((WorkerOp.rpc call).exec uuid env desk).1 = .error e := by
  simp only [WorkerOp.exec, desk.api.call_eq uuid call hid, Op.exec]
  cases hrpc : env.rpc with
  | before => exact .inr ⟨rfl, _, rfl⟩
  | after =>
      cases hsql : env.sql with
      | before => exact .inr ⟨rfl, _, rfl⟩
      | none | after => exact .inl rfl
  | none =>
      cases hsql : env.sql with
      | before =>
          dsimp only
          rw [call.answer_error]
          exact .inr ⟨rfl, _, rfl⟩
      | none | after => exact .inl rfl

/-- The service refuses to set the status of a row that is not there. -/
theorem exec_updateStatus_none {msg : StatusUpdate} {id : Uuid}
    (hid : uuid.parse msg.backupId = .ok id) (hnone : desk.api.store.db.find id = none) :
    ∃ e, ((WorkerOp.rpc (.updateStatus msg)).exec uuid env desk).1 = .error e := by
  have hcall : ∃ e, (desk.api.call uuid (.updateStatus msg) env.oracle { sql := env.sql }).1 =
      .error e := by
    rw [State.call, handle_updateStatus uuid hid, run_query_bind]
    rcases hr : ((Op.sql (.setStatus id msg.status)).exec { sql := env.sql } env.oracle
      (desk.api.replicas 0).config desk.api.clock desk.api.store).1 with e | n
    · exact ⟨.internal e, rfl⟩
    · have hn : n = (0 : ℕ) := exec_setStatus_none _ _ hnone (exec_sql_ok hr).1
      subst hn
      exact ⟨.notFound ("backup " ++ id.toString ++ " not found"), rfl⟩
  obtain ⟨e, he⟩ := hcall
  simp only [WorkerOp.exec]
  split
  · rw [he]
    exact ⟨_, rfl⟩
  · exact ⟨_, rfl⟩
  · exact ⟨_, rfl⟩

end Desk

/-- A call that is executed late does what it would have done in time. -/
theorem executes_late (s : Pipeline) (uuid : UuidParser) (i : ℕ) (oracle : Oracle) (sql : Fault) :
    s.executeLate uuid i oracle sql = (s, []) ∨ ∃ call, s.late[i]? = some call ∧
      (s.executeLate uuid i oracle sql).1.api =
        ((WorkerOp.rpc call).exec uuid { oracle, sql, rpc := .after } ⟨s.api, none⟩).2.api ∧
      (s.executeLate uuid i oracle sql).2 = .late call :: call.strays uuid s.api.store.db
        (s.executeLate uuid i oracle sql).1.api.store.db := by
  unfold Pipeline.executeLate
  split
  · exact .inr ⟨_, ‹_›, rfl, rfl⟩
  · exact .inl rfl

/-! ### What is observed -/

/-- Where an observation of the pipeline comes from. -/
inductive Shown (uuid : UuidParser) (s s' : Pipeline) : PipelineObs → Prop
  | patched (id : Uuid) : Shown uuid s s' (.patched id)
  | deleted (id : Uuid) : Shown uuid s s' (.deleted id)
  | published {job : BackupJob} (hqueue : s'.api.store.queue = s.api.store.queue ++ [.job job]) :
      Shown uuid s s' (.published job)
  | worked {w : ℕ} {env : WorkerEnv} {h : InHand} {o : WorkerOp}
      (hin : (s.consumers w).inHand = some h)
      (hapi : s'.api = (o.exec uuid env ⟨s.api, h.decision⟩).2.api) :
      Shown uuid s s' (.worked w o (o.exec uuid env ⟨s.api, h.decision⟩).1)
  | late {call : Rpc} (hlate : call ∈ s.late) : Shown uuid s s' (.late call)
  | strayed (id : Uuid) : Shown uuid s s' (.strayed id)
  | removed {w : ℕ} {m : Message} {d : Decision} (hhandled : (m, some d) ∈ (s.consumers w).handled)
      (hd : d.removes = true) : Shown uuid s s' (.removed m)

theorem shown_of_effects {uuid : UuidParser} {s s' : Pipeline} {q : Sql} {t t' : Table}
    {obs : PipelineObs} (h : obs ∈ q.effects t t') : Shown uuid s s' obs := by
  cases q with
  | updateBackup id tenantId status sizeBytes =>
      simp only [Sql.effects] at h
      split at h
      · cases h
      · obtain rfl := List.mem_singleton.mp h
        exact .patched id
  | deleteBackup id tenantId =>
      simp only [Sql.effects] at h
      split at h
      · cases h
      · obtain rfl := List.mem_singleton.mp h
        exact .deleted id
  | insertBackup | selectBackup | selectBackups | countBackups | setStatus | setCompleted
  | setFailed => cases h

theorem shown_of_strays {uuid : UuidParser} {s s' : Pipeline} {call : Rpc} {t t' : Table}
    {obs : PipelineObs} (h : obs ∈ call.strays uuid t t') : Shown uuid s s' obs := by
  cases call with
  | reportResult result => cases h
  | updateStatus msg =>
      simp only [Rpc.strays] at h
      split at h
      · split at h
        · cases h
        · obtain rfl := List.mem_singleton.mp h
          exact .strayed _
      · cases h

theorem step_shown {uuid : UuidParser} {broker : Broker} {s : Pipeline} {e : PipelineEvent}
    {obs : PipelineObs} (h : obs ∈ ((pipeline uuid broker).step s e).2) :
    Shown uuid s ((pipeline uuid broker).step s e).1 obs := by
  cases e with
  | api e =>
      have hserves := serves s uuid e
      simp only [pipeline] at h ⊢
      generalize (s.serve uuid e).1 = s', (s.serve uuid e).2 = all at hserves h
      cases hserves with
      | same => cases h
      | statement => exact shown_of_effects h
      | publish hth hprog hdb hqueue =>
          obtain rfl := List.mem_singleton.mp h
          exact .published hqueue
  | publishMalformed | deliver | stop | disconnect | close => cases h
  | work w env =>
      have hw := works uuid s w env
      simp only [pipeline] at h ⊢
      generalize (s.work uuid w env).1 = s', (s.work uuid w env).2 = all at hw h
      cases hw with
      | idle | take | ret => cases h
      | @op _ o _ _ hin hprog =>
          rcases List.mem_cons.mp h with rfl | h
          · exact .worked hin rfl
          · split at h
            · cases h
            · cases o with
              | rpc call => exact shown_of_strays h
              | analyze | settle => cases h
  | settle w i =>
      simp only [pipeline, Pipeline.settle] at h
      split at h
      · rename_i m d hi
        dsimp only at h
        split at h
        · obtain rfl := List.mem_singleton.mp h
          exact .removed (List.mem_of_getElem? hi) ‹_›
        · cases h
      · cases h
  | late i oracle sql =>
      simp only [pipeline, Pipeline.executeLate] at h
      split at h
      · rename_i call hi
        rcases List.mem_cons.mp h with rfl | h
        · exact .late (List.mem_of_getElem? hi)
        · exact shown_of_strays h
      · cases h

end BackupService
