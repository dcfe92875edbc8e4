import BackupService.Worker
import BackupService.Lib.Machine

/-!
The process of a worker.

`main` connects, spawns the task of `run_worker`, and waits for a signal.
Only then does it look at the task. So a task that has left its loop before
leaves a process behind that is alive and takes no job, and the loop has four
ways out of it besides the shutdown (`WorkerTask.Fatal`).
-/

namespace BackupService

open Lib

/-! ### The task of `run_worker` -/

inductive WorkerTask
  /-- `basic_consume(..).await?` -/
  | subscribing
  /-- At the `select!` of the loop. -/
  | waiting
  /-- In an iteration, with the rest of it. -/
  | handling (rest : WorkerAction (Except LapinError Unit))
  | finished (result : Except LapinError Unit)

/-- What the task can meet with. -/
inductive TaskEvent
  | subscribed (result : Except LapinError Unit)
  /-- The stream yields a delivery, of a job or of what is no job. -/
  | delivery (m : Message)
  /-- The stream yields an error. -/
  | deliveryError (e : LapinError)
  | streamEnded
  /-- The operation the iteration has come to is answered. -/
  | answered (answer : (o : WorkerOp) → o.Answer)
  /-- `shutdown_rx.changed()` is ready. -/
  | shutdownChanged

namespace WorkerTask

/-- The iteration up to its next operation, or the next one, or the end. -/
def goOn : WorkerAction (Except LapinError Unit) → WorkerTask
  | .op o k => handling (.op o k)
  | .ret (.ok ()) => waiting
  | .ret (.error e) => finished (.error e)

/-- `shutdown` is the value in the channel. -/
def step (shutdown : Bool) : WorkerTask → TaskEvent → WorkerTask
  | subscribing, .subscribed (.ok ()) => waiting
  | subscribing, .subscribed (.error e) => finished (.error e)
  | waiting, .delivery m => goOn (handleDelivery m)
  | waiting, .deliveryError _ => waiting
  | waiting, .streamEnded => finished (.ok ())
  | waiting, .shutdownChanged => if shutdown then finished (.ok ()) else waiting
  | handling (.op o k), .answered answer => goOn (k (answer o))
  | task, _ => task

/-- The task is in its loop, or on its way into it. -/
def InLoop : WorkerTask → Prop
  | finished _ => False
  | _ => True

/-- What the task does not survive: it cannot subscribe, the stream ends, or
an ack or a requeueing nack fails. -/
def Fatal : WorkerTask → TaskEvent → Prop
  | subscribing, .subscribed result => result.isOk = false
  | waiting, .streamEnded => True
  | handling (.op (.settle d) _), .answered answer =>
      d ≠ .nack false ∧ (answer (.settle d)).isOk = false
  | _, _ => False

/-- An iteration ends by settling its delivery, and with what comes of that;
only when a message that is no job is given up does that not matter. -/
def EndsBySettling : WorkerAction (Except LapinError Unit) → Prop
  | .ret _ => False
  | .op (.rpc _) k => ∀ r, EndsBySettling (k r)
  | .op (.analyze _) k => ∀ r, EndsBySettling (k r)
  | .op (.settle d) k =>
      ∀ r : Except LapinError Unit, k r = .ret (if d = .nack false then .ok () else r)

theorem endsBySettling_settle {d : Decision} (hd : d ≠ .nack false) : EndsBySettling (settle d) :=
  fun _ => congrArg Program.ret (if_neg hd).symm

theorem endsBySettling_handleDelivery (m : Message) : EndsBySettling (handleDelivery m) := by
  cases m with
  | malformed error => exact fun _ => rfl
  | job job =>
      have hrequeue : EndsBySettling (settle (.nack true)) := endsBySettling_settle (by decide)
      rw [handleDelivery_job]
      intro r
      cases r with
      | error e => exact hrequeue
      | ok _ =>
          intro r
          cases r with
          | error e => exact hrequeue
          | ok entropy =>
              intro r
              cases r with
              | error e => exact hrequeue
              | ok _ => exact endsBySettling_settle (by decide)

/-- The task is at a place of `run_worker`. -/
def Sound : WorkerTask → Prop
  | handling rest => EndsBySettling rest
  | _ => True

theorem goOn_of_endsBySettling {p : WorkerAction (Except LapinError Unit)} (h : EndsBySettling p) :
    (goOn p).Sound ∧ (goOn p).InLoop := by
  cases p with
  | ret r => exact absurd h id
  | op o k => exact ⟨h, trivial⟩

/-- The end of an iteration. -/
theorem settled_step (d : Decision) (result : Except LapinError Unit) :
    (goOn (.ret (if d = .nack false then .ok () else result))).Sound ∧
      ((goOn (.ret (if d = .nack false then .ok () else result))).InLoop ↔
        ¬ (d ≠ .nack false ∧ result.isOk = false)) := by
  by_cases hd : d = .nack false
  · rw [if_pos hd]
    exact ⟨trivial, iff_of_true trivial fun hfatal => hfatal.1 hd⟩
  · rw [if_neg hd]
    cases result with
    | ok _ => exact ⟨trivial, iff_of_true trivial fun hfatal => Bool.noConfusion hfatal.2⟩
    | error _ => exact ⟨trivial, iff_of_false id fun hfatal => hfatal ⟨hd, rfl⟩⟩

/-- The next operation of an iteration, or the end of it. -/
theorem answered_step {o : WorkerOp} {k : o.Answer → WorkerAction (Except LapinError Unit)}
    (h : EndsBySettling (.op o k)) (answer : (o : WorkerOp) → o.Answer) :
    (goOn (k (answer o))).Sound ∧
      ((goOn (k (answer o))).InLoop ↔ ¬ (handling (.op o k)).Fatal (.answered answer)) := by
  cases o with
  | rpc call => exact (goOn_of_endsBySettling (h _)).imp id fun hin => iff_of_true hin id
  | analyze data => exact (goOn_of_endsBySettling (h _)).imp id fun hin => iff_of_true hin id
  | settle d =>
      rw [show k (answer (.settle d)) = _ from h (answer (.settle d))]
      exact settled_step d (answer (.settle d))

variable {task : WorkerTask} {e : TaskEvent}

/-- While nothing tells the task to shut down, only what is fatal makes it
leave the loop. -/
theorem step_spec (hsound : task.Sound) (hin : task.InLoop) :
    (task.step false e).Sound ∧ ((task.step false e).InLoop ↔ ¬ task.Fatal e) := by
  have hstays : ∀ {t : WorkerTask} {fatal : Prop}, t.Sound ∧ t.InLoop → ¬ fatal →
      t.Sound ∧ (t.InLoop ↔ ¬ fatal) := fun ht hfatal => ht.imp id fun hin => iff_of_true hin hfatal
  cases task with
  | subscribing =>
      cases e with
      | subscribed result =>
          cases result with
          | ok _ => exact hstays ⟨trivial, trivial⟩ Bool.noConfusion
          | error _ => exact ⟨trivial, iff_of_false id fun hfatal => hfatal rfl⟩
      | _ => exact hstays ⟨trivial, trivial⟩ id
  | waiting =>
      cases e with
      | delivery m =>
          exact hstays (goOn_of_endsBySettling (endsBySettling_handleDelivery m)) id
      | streamEnded => exact ⟨trivial, iff_of_false id fun hfatal => hfatal trivial⟩
      | _ => exact hstays ⟨trivial, trivial⟩ id
  | handling rest =>
      cases rest with
      | ret r => exact absurd hsound id
      | op o k =>
          cases e with
          | answered answer => exact answered_step hsound answer
          | _ => exact hstays ⟨hsound, trivial⟩ (by cases o <;> exact id)
  | finished result => exact absurd hin id

end WorkerTask

/-! ### The process -/

inductive MainTask
  /-- `connect_rabbitmq(..).await?` -/
  | connectingRabbitmq
  /-- `create_channel(..).await?` -/
  | creatingChannel
  /-- `BackupProcessorClient::connect(..).await?` -/
  | connectingGrpc
  /-- `shutdown_signal().await` -/
  | awaitingSignal
  /-- `timeout(30 s, worker_handle).await` -/
  | awaitingWorker
  /-- The process has ended. -/
  | returned
  deriving DecidableEq, Repr

structure WorkerProcess where
  main : MainTask
  /-- The task, once it has been spawned. -/
  worker : Option WorkerTask
  /-- The value in the channel: whether a shutdown signal has been received. -/
  shutdown : Bool

inductive ProcessEvent
  /-- A connection that `main` waits for is there, or it fails. -/
  | connected (ok : Bool)
  /-- SIGINT or SIGTERM -/
  | signal
  /-- The task has ended, or the 30 seconds are over. -/
  | awaited
  | task (e : TaskEvent)

namespace WorkerProcess

def start : WorkerProcess := ⟨.connectingRabbitmq, none, false⟩

def connected (s : WorkerProcess) : MainTask → WorkerProcess
  | .connectingRabbitmq => { s with main := .creatingChannel }
  | .creatingChannel => { s with main := .connectingGrpc }
  | .connectingGrpc => { s with main := .awaitingSignal, worker := some .subscribing }
  | _ => s

def step (s : WorkerProcess) (e : ProcessEvent) : WorkerProcess :=
  match s.main, e with
  | .returned, _ => s
  | .awaitingSignal, .signal => { s with main := .awaitingWorker, shutdown := true }
  | .awaitingWorker, .signal => s
  -- nobody listens for signals yet
  | _, .signal => { s with main := .returned }
  | .awaitingWorker, .awaited => { s with main := .returned }
  | _, .awaited => s
  | .awaitingSignal, .connected _ => s
  | .awaitingWorker, .connected _ => s
  | main, .connected ok => if ok then s.connected main else { s with main := .returned }
  | _, .task e => { s with worker := s.worker.map fun task => task.step s.shutdown e }

/-- While the process runs and has received no signal, its task is in the
loop. -/
def Consuming (s : WorkerProcess) : Prop :=
  s.shutdown = false → s.main ≠ .returned → ∀ task, s.worker = some task → task.InLoop

/-- The event is not fatal to the task, or a signal has come before it. -/
def Survives (s : WorkerProcess) (e : ProcessEvent) : Prop :=
  s.shutdown = false → ∀ task te, s.worker = some task → e = .task te → ¬ task.Fatal te

/-- Before a signal comes, `main` waits for it whatever the task does. -/
def Sound (s : WorkerProcess) : Prop :=
  s.shutdown = false → ∀ task, s.worker = some task → s.main = .awaitingSignal ∧ task.Sound

end WorkerProcess

/-- The process as a machine. -/
def workerProcess : Machine WorkerProcess ProcessEvent Empty where
  step s e := (s.step e, [])

namespace WorkerProcess

variable {s : WorkerProcess} {e : ProcessEvent}

/-- Once a signal has been received nothing is promised. -/
theorem signalled_spec (hs : s.shutdown = true) : s.Sound ∧ s.Consuming :=
  ⟨fun h => Bool.noConfusion (hs.symm.trans h), fun h => Bool.noConfusion (hs.symm.trans h)⟩

theorem shutdown_step (hs : s.shutdown = true) : (s.step e).shutdown = true := by
  obtain ⟨main, worker, shutdown⟩ := s
  subst hs
  cases e with
  | connected ok => cases main <;> cases ok <;> rfl
  | signal => cases main <;> rfl
  | awaited => cases main <;> rfl
  | task e => cases main <;> rfl

/-- As long as there is no task, there is none that could have left. -/
theorem step_unspawned {main : MainTask} :
    (step ⟨main, none, false⟩ e).Sound ∧ (step ⟨main, none, false⟩ e).Consuming := by
  have hnone : ∀ main', (⟨main', none, false⟩ : WorkerProcess).Sound ∧
      (⟨main', none, false⟩ : WorkerProcess).Consuming := fun _ =>
    ⟨fun _ _ h => (nomatch h), fun _ _ _ h => (nomatch h)⟩
  have hspawned : (⟨.awaitingSignal, some .subscribing, false⟩ : WorkerProcess).Sound ∧
      (⟨.awaitingSignal, some .subscribing, false⟩ : WorkerProcess).Consuming := by
    refine ⟨fun _ task htask => ?_, fun _ _ task htask => ?_⟩
    · cases htask
      exact ⟨rfl, trivial⟩
    · cases htask
      trivial
  cases e with
  | connected ok =>
      cases main with
      | connectingGrpc =>
          cases ok with
          | true => exact hspawned
          | false => exact hnone _
      | _ => cases ok <;> exact hnone _
  | signal =>
      cases main with
      | awaitingSignal => exact signalled_spec rfl
      | _ => exact hnone _
  | awaited => cases main <;> exact hnone _
  | task e => cases main <;> exact hnone _

theorem step_spec (hsound : s.Sound) (hconsuming : s.Consuming) :
    (s.step e).Sound ∧ ((s.step e).Consuming ↔ s.Survives e) := by
  have hstays : (s.step e).Sound ∧ (s.step e).Consuming → s.Survives e →
      (s.step e).Sound ∧ ((s.step e).Consuming ↔ s.Survives e) := fun hs hsurvives =>
    hs.imp id fun hconsuming => iff_of_true hconsuming hsurvives
  obtain ⟨main, worker, shutdown⟩ := s
  cases shutdown with
  | true => exact hstays (signalled_spec (shutdown_step rfl)) nofun
  | false =>
      cases worker with
      | none => exact hstays step_unspawned fun _ _ _ h => nomatch h
      | some task =>
          obtain ⟨rfl, htask⟩ : main = .awaitingSignal ∧ task.Sound := hsound rfl task rfl
          have hmain : MainTask.awaitingSignal ≠ .returned := by decide
          have hin : task.InLoop := hconsuming rfl hmain task rfl
          cases e with
          | connected ok => exact hstays ⟨hsound, hconsuming⟩ fun _ _ _ _ h => nomatch h
          | signal => exact hstays (signalled_spec rfl) fun _ _ _ _ h => nomatch h
          | awaited => exact hstays ⟨hsound, hconsuming⟩ fun _ _ _ _ h => nomatch h
          | task te =>
              obtain ⟨hsound', hin'⟩ := WorkerTask.step_spec (e := te) htask hin
              refine ⟨fun _ task' h => ?_, ?_⟩
              · cases h
                exact ⟨rfl, hsound'⟩
              · constructor
                · intro h _ task' te' htask' hte
                  cases htask'
                  cases hte
                  exact hin'.mp (h rfl hmain _ rfl)
                · intro h _ _ task' htask'
                  cases htask'
                  exact hin'.mpr (h rfl task te rfl rfl)

end WorkerProcess

/-- **When a worker keeps consuming.** In every state of a run in which no
signal has been received and `main` has not returned the task is in its loop,
exactly if before the signal nothing happens that is fatal to the task. -/
theorem worker_consumes_iff (es : List ProcessEvent) :
    (∀ pre, pre <+: es → (workerProcess.run .start pre).Consuming) ↔
      workerProcess.Along WorkerProcess.Survives .start es :=
  Machine.forall_prefix_iff_along (fun _ _ hI hP => (WorkerProcess.step_spec hI hP).1)
    (fun _ _ hI hP => (WorkerProcess.step_spec hI hP).2) (fun _ _ h => nomatch h)
    (fun _ _ _ h => nomatch h)

/-- The broker closes the consumer, and the process stays. -/
theorem not_worker_consumes :
    ¬ (workerProcess.run .start [.connected true, .connected true, .connected true,
      .task (.subscribed (.ok ())), .task .streamEnded]).Consuming :=
  fun h => h rfl (by decide) _ rfl

end BackupService
