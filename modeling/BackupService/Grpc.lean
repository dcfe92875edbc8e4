import BackupService.Operations

/-!
The gRPC service through which a worker reports. It holds the database pool
and nothing else: no cache, no configuration, and no tenant.
-/

namespace BackupService

open Lib

structure StatusUpdate where
  backupId : String
  status : String
  deriving DecidableEq, Repr

structure ProcessingResult where
  backupId : String
  status : String
  sizeBytes : ℤ
  entropy : Entropy
  suspicious : Bool
  errorMessage : String
  deriving DecidableEq, Repr

structure Ack where
  success : Bool
  message : String
  deriving DecidableEq, Repr

/-- `tonic::Status`; the text of `internal` is that of the database error. -/
inductive Status
  | invalidArgument (message : String)
  | notFound (message : String)
  | internal (cause : SqlError)
  deriving DecidableEq, Repr

abbrev RpcHandler := ExceptT Status Action

variable (uuid : UuidParser)

def parseBackupId (text : String) : RpcHandler Uuid :=
  match uuid.parse text with
  | .ok id => return id
  | .error e => throw (.invalidArgument ("invalid backup_id: " ++ e))

/-- `.execute(pool).await.map_err(..)?` -/
def execute (s : Sql) : RpcHandler s.Answer := do
  match ← query s with
  | .ok answer => return answer
  | .error e => throw (.internal e)

def updateStatus (msg : StatusUpdate) : RpcHandler Ack := do
  let backupId ← parseBackupId uuid msg.backupId
  let rowsAffected ← execute (.setStatus backupId msg.status)
  if (show ℕ from rowsAffected) = 0 then
    throw (.notFound ("backup " ++ backupId.toString ++ " not found"))
  return ⟨true, "status updated"⟩

def reportResult (result : ProcessingResult) : RpcHandler Ack := do
  let backupId ← parseBackupId uuid result.backupId
  if result.status = "completed" then
    let _ ← execute (.setCompleted backupId result.sizeBytes)
  else
    let _ ← execute (.setFailed backupId)
  return ⟨true, "result recorded"⟩

/-- The two calls of the service. -/
inductive Rpc
  | updateStatus (msg : StatusUpdate)
  | reportResult (result : ProcessingResult)
  deriving DecidableEq, Repr

def Rpc.handle : Rpc → Action (Except Status Ack)
  | updateStatus msg => (BackupService.updateStatus uuid msg).run
  | reportResult result => (BackupService.reportResult uuid result).run

/-- The `backup_id` of the message. -/
def Rpc.backupId : Rpc → String
  | updateStatus msg => msg.backupId
  | reportResult result => result.backupId

/-! ### The atomic steps of the calls -/

theorem run_execute_bind {α : Type} (s : Sql) (f : s.Answer → RpcHandler α) :
    (execute s >>= f).run = query s >>= fun
      | .ok answer => (f answer).run
      | .error e => pure (.error (.internal e)) := by
  refine congrArg (Program.op _) (funext fun r => ?_)
  cases r <;> rfl

theorem handle_malformed {rpc : Rpc} {e : String} (h : uuid.parse rpc.backupId = .error e) :
    rpc.handle uuid = return .error (.invalidArgument ("invalid backup_id: " ++ e)) := by
  cases rpc <;>
    simp only [Rpc.backupId] at h <;>
    simp [Rpc.handle, updateStatus, reportResult, parseBackupId, h]

theorem handle_updateStatus {msg : StatusUpdate} {id : Uuid}
    (h : uuid.parse msg.backupId = .ok id) :
    (Rpc.updateStatus msg).handle uuid = do
      match ← query (.setStatus id msg.status) with
      | .error e => return .error (.internal e)
      | .ok rowsAffected =>
          if (show ℕ from rowsAffected) = 0 then
            return .error (.notFound ("backup " ++ id.toString ++ " not found"))
          else return .ok ⟨true, "status updated"⟩ := by
  simp only [Rpc.handle, updateStatus, parseBackupId, h, pure_bind, run_execute_bind]
  refine congrArg (query _ >>= ·) (funext fun r => ?_)
  rcases r with e | rowsAffected
  · rfl
  · by_cases h0 : (show ℕ from rowsAffected) = 0
    · simp only [h0, if_true]; rfl
    · simp only [h0, if_false]; rfl

theorem handle_reportResult_completed {result : ProcessingResult} {id : Uuid}
    (h : uuid.parse result.backupId = .ok id) (hs : result.status = "completed") :
    (Rpc.reportResult result).handle uuid = do
      match ← query (.setCompleted id result.sizeBytes) with
      | .error e => return .error (.internal e)
      | .ok _ => return .ok ⟨true, "result recorded"⟩ := by
  simp only [Rpc.handle, reportResult, parseBackupId, h, pure_bind, hs, if_true, run_execute_bind]
  refine congrArg (query _ >>= ·) (funext fun r => ?_)
  cases r <;> rfl

theorem handle_reportResult_failed {result : ProcessingResult} {id : Uuid}
    (h : uuid.parse result.backupId = .ok id) (hs : result.status ≠ "completed") :
    (Rpc.reportResult result).handle uuid = do
      match ← query (.setFailed id) with
      | .error e => return .error (.internal e)
      | .ok _ => return .ok ⟨true, "result recorded"⟩ := by
  simp only [Rpc.handle, reportResult, parseBackupId, h, pure_bind, hs, if_false,
    run_execute_bind]
  refine congrArg (query _ >>= ·) (funext fun r => ?_)
  cases r <;> rfl

/-- The one statement of a call. -/
def Rpc.statement (id : Uuid) : Rpc → Sql
  | updateStatus msg => .setStatus id msg.status
  | reportResult result =>
      if result.status = "completed" then .setCompleted id result.sizeBytes else .setFailed id

/-- The columns a call writes. -/
def Rpc.assignments : Rpc → Assignments
  | updateStatus msg => { status := some msg.status }
  | reportResult result =>
      if result.status = "completed" then
        { status := some "completed", sizeBytes := some result.sizeBytes }
      else { status := some "failed" }

/-- What `report_result` makes of the outcome of its statement. -/
def recordedAnswer {α : Type} : Except SqlError α → Except Status Ack
  | .error e => .error (.internal e)
  | .ok _ => .ok ⟨true, "result recorded"⟩

/-- What a call whose identifier can be read makes of the outcome of its
statement. -/
def Rpc.answer (id : Uuid) :
    (rpc : Rpc) → Except SqlError (rpc.statement id).Answer → Except Status Ack
  | .updateStatus _, .error e => .error (.internal e)
  | .updateStatus _, .ok rowsAffected =>
      if (show ℕ from rowsAffected) = 0 then
        .error (.notFound ("backup " ++ id.toString ++ " not found"))
      else .ok ⟨true, "status updated"⟩
  | .reportResult _, r => recordedAnswer r

@[simp] theorem Rpc.answer_error (id : Uuid) (rpc : Rpc) (e : SqlError) :
    rpc.answer id (.error e) = .error (.internal e) := by
  cases rpc <;> rfl

/-- **The course of a call** whose identifier can be read. -/
theorem handle_eq_answer {rpc : Rpc} {id : Uuid} (hid : uuid.parse rpc.backupId = .ok id) :
    rpc.handle uuid = query (rpc.statement id) >>= fun r => pure (rpc.answer id r) := by
  cases rpc with
  | updateStatus msg =>
      rw [handle_updateStatus uuid hid]
      refine congrArg (query _ >>= ·) (funext fun r => ?_)
      rcases r with e | rowsAffected
      · rfl
      · dsimp only [Rpc.answer]
        split <;> rfl
  | reportResult result =>
      show _ = query ((Rpc.reportResult result).statement id) >>= fun r => pure (recordedAnswer r)
      by_cases hs : result.status = "completed"
      · rw [handle_reportResult_completed uuid hid hs,
          show (Rpc.reportResult result).statement id = .setCompleted id result.sizeBytes from if_pos hs]
        refine congrArg (query _ >>= ·) (funext fun r => ?_)
        cases r <;> rfl
      · rw [handle_reportResult_failed uuid hid hs,
          show (Rpc.reportResult result).statement id = .setFailed id from if_neg hs]
        refine congrArg (query _ >>= ·) (funext fun r => ?_)
        cases r <;> rfl

end BackupService
