import BackupService.Ffi
import BackupService.Grpc

/-!
The worker: what it does with one delivery.

A worker reaches the world through `WorkerOp`: the two calls of the gRPC
service, the entropy analysis on the blocking pool, and the ack or nack of
the delivery it has in hand. `handleDelivery` is the body of the loop of
`run_worker`, from a delivery to the end of the iteration.

The protocol `handling` says what the rest of the development has to know
about it: the worker writes `running` first, it acks a job only after the
service has answered that the result is recorded, and when anything fails
it gives the job back.
-/

namespace BackupService

open Lib

/-- What the worker tells the broker about a delivery. -/
inductive Decision
  | ack
  | nack (requeue : Bool)
  deriving DecidableEq, Repr

/-- The errors `process_and_report` passes on: a status the service answered
with, a call that got no answer, or a task that did not finish. -/
inductive ProcessError
  | status (s : Status)
  | transport
  | join
  deriving DecidableEq, Repr

inductive WorkerOp
  | rpc (call : Rpc)
  /-- `spawn_blocking(shannon_entropy)` -/
  | analyze (data : List UInt8)
  | settle (d : Decision)
  deriving DecidableEq, Repr

def WorkerOp.Answer : WorkerOp → Type
  | rpc _ => Except ProcessError Ack
  | analyze _ => Except ProcessError Entropy
  | settle _ => Except LapinError Unit

/-- A program of the worker. -/
abbrev WorkerAction (α : Type) := Program WorkerOp WorkerOp.Answer α

def callService (call : Rpc) : ExceptT ProcessError WorkerAction Ack :=
  ExceptT.mk (Program.perform (WorkerOp.rpc call))

def analyze (data : List UInt8) : ExceptT ProcessError WorkerAction Entropy :=
  ExceptT.mk (Program.perform (WorkerOp.analyze data))

def settle (d : Decision) : WorkerAction (Except LapinError Unit) :=
  Program.perform (WorkerOp.settle d)

def processAndReport (job : BackupJob) : ExceptT ProcessError WorkerAction Unit := do
  let _ ← callService (.updateStatus ⟨job.backupId.toString, "running"⟩)
  let syntheticData := cycleTake (utf8Bytes job.sourcePath) 8192
  let simulatedSize : ℤ := syntheticData.length * 128
  let entropy ← analyze syntheticData
  let suspicious := (EntropyLevel.classify entropy).isSuspicious
  let _ ← callService (.reportResult
    { backupId := job.backupId.toString
      status := "completed"
      sizeBytes := simulatedSize
      entropy := entropy
      suspicious := suspicious
      errorMessage := "" })

/-- One iteration of the loop of `run_worker`; an error ends the loop. -/
def handleDelivery : Message → WorkerAction (Except LapinError Unit)
  | .malformed _ => do
      let _ ← settle (.nack false)
      return .ok ()
  | .job job => do
      match ← (processAndReport job).run with
      | .ok () => settle .ack
      | .error _ => settle (.nack true)

/-! ### What a worker keeps to -/

/-- How far a worker has come with the delivery in its hand. -/
inductive Progress
  | start
  /-- The row says `running`. -/
  | running
  /-- The service has answered that the result is recorded. -/
  | reported
  | failed
  | settled (d : Decision)
  deriving DecidableEq, Repr

/-- The size a worker reports. -/
def BackupJob.simulatedSize (job : BackupJob) : ℤ :=
  (cycleTake (utf8Bytes job.sourcePath) 8192).length * 128

theorem simulatedSize_eq {job : BackupJob} (h : job.sourcePath ≠ "") :
    job.simulatedSize = 8192 * 128 := by
  rw [BackupJob.simulatedSize, length_cycleTake (utf8Bytes_ne_nil h)]
  rfl

/-- The message reports the job as completed. -/
structure BackupJob.ReportedBy (job : BackupJob) (result : ProcessingResult) : Prop where
  backupId : result.backupId = job.backupId.toString
  status : result.status = "completed"
  sizeBytes : result.sizeBytes = job.simulatedSize

def BackupJob.runningUpdate (job : BackupJob) : StatusUpdate :=
  ⟨job.backupId.toString, "running"⟩

def Progress.after (g : Progress) : (o : WorkerOp) → o.Answer → Progress
  | .rpc (.updateStatus _), .ok _ => running
  | .rpc (.reportResult _), .ok _ => reported
  | .rpc _, .error _ => failed
  | .analyze _, .ok _ => g
  | .analyze _, .error _ => failed
  | .settle d, _ => settled d

/-- The order of the operations on a delivery. -/
def handling (m : Message) : Program.Protocol WorkerOp WorkerOp.Answer Progress where
  allow g
    | .rpc call => ∃ job, m = .job job ∧ (g = .start ∧ call = .updateStatus job.runningUpdate ∨
        g = .running ∧ ∃ result, call = .reportResult result ∧ job.ReportedBy result)
    | .analyze _ => g = .running
    | .settle d => match m with
        | .malformed _ => g = .start ∧ d = .nack false
        | .job _ => g = .reported ∧ d = .ack ∨ g = .failed ∧ d = .nack true
  rely _ _ _ := True
  next g o r := g.after o r

/-- Whoever is through has settled the delivery. -/
def Progress.Through (g : Progress) (_ : Except LapinError Unit) : Prop := ∃ d, g = .settled d

/-- The operations on a job in turn. -/
theorem handleDelivery_job (job : BackupJob) :
    handleDelivery (.job job) = .op (.rpc (.updateStatus job.runningUpdate)) fun
      | .error _ => settle (.nack true)
      | .ok _ => .op (.analyze (cycleTake (utf8Bytes job.sourcePath) 8192)) fun
        | .error _ => settle (.nack true)
        | .ok entropy => .op (.rpc (.reportResult
            ⟨job.backupId.toString, "completed", job.simulatedSize, entropy,
              (EntropyLevel.classify entropy).isSuspicious, ""⟩)) fun
          | .error _ => settle (.nack true)
          | .ok _ => settle .ack := by
  refine congrArg (Program.op _) (funext fun r => ?_)
  cases r with
  | error e => rfl
  | ok _ =>
      refine congrArg (Program.op _) (funext fun r => ?_)
      cases r with
      | error e => rfl
      | ok entropy =>
          refine congrArg (Program.op _) (funext fun r => ?_)
          cases r <;> rfl

theorem settle_handling {m : Message} {g : Progress} {d : Decision}
    (h : (handling m).allow g (.settle d)) :
    Program.Obeys (handling m) Progress.Through g (settle d) :=
  ⟨h, fun _ _ => ⟨d, rfl⟩⟩

theorem handleDelivery_handling (m : Message) :
    Program.Obeys (handling m) Progress.Through .start (handleDelivery m) := by
  cases m with
  | malformed error => exact ⟨⟨rfl, rfl⟩, fun _ _ => ⟨_, rfl⟩⟩
  | job job =>
      rw [handleDelivery_job]
      refine ⟨⟨job, rfl, .inl ⟨rfl, rfl⟩⟩, fun r _ => ?_⟩
      cases r with
      | error e => exact settle_handling (.inr ⟨rfl, rfl⟩)
      | ok _ =>
          refine ⟨rfl, fun r _ => ?_⟩
          cases r with
          | error e => exact settle_handling (.inr ⟨rfl, rfl⟩)
          | ok entropy =>
              refine ⟨⟨job, rfl, .inr ⟨rfl, _, rfl, ⟨rfl, rfl, rfl⟩⟩⟩, fun r _ => ?_⟩
              cases r with
              | error e => exact settle_handling (.inr ⟨rfl, rfl⟩)
              | ok _ => exact settle_handling (.inl ⟨rfl, rfl⟩)

end BackupService
