import BackupService.Cache
import BackupService.Ffi
import Mathlib.Data.List.Infix

/-!
The backup handlers.

A handler is written in `ExceptT AppError Action`, where `throw` is the
early return of the `?` operator. `handle` is what the router calls: the
handler of a request, with its error turned into a response.
-/

namespace BackupService

open Lib

/-! ### Errors and responses -/

/-- A token that does not decode, or not with this secret, or no longer. -/
inductive JwtError
  | invalid
  deriving DecidableEq, Repr

inductive AppError
  | notFound (message : String)
  | unauthorized (message : String)
  | forbidden (message : String)
  | validation (message : String)
  | conflict (message : String)
  | database (e : SqlError)
  | redis (e : RedisError)
  | jwt (e : JwtError)
  | internal (message : String)
  deriving DecidableEq, Repr

inductive Body
  | empty
  | backup (b : BackupResponse)
  | list (l : ListResponse)
  | enqueued (message : String) (backupId : Uuid)
  | error (message : String) (status : ℕ)
  deriving DecidableEq, Repr

structure Response where
  status : ℕ
  body : Body
  deriving DecidableEq, Repr

def AppError.intoResponse (e : AppError) : Response :=
  let (status, message) : ℕ × String :=
    match e with
    | notFound msg => (404, msg)
    | unauthorized msg => (401, msg)
    | forbidden msg => (403, msg)
    | validation msg => (400, msg)
    | conflict msg => (409, msg)
    | database _ => (500, "internal server error")
    | redis _ => (500, "internal server error")
    | jwt _ => (401, "invalid token")
    | internal _ => (500, "internal server error")
  ⟨status, .error message status⟩

abbrev Handler (α : Type) := ExceptT AppError Action α

/-- An `.await?` on the pool. -/
def fetch (s : Sql) : Handler s.Answer := do
  match ← query s with
  | .ok answer => return answer
  | .error e => throw (.database e)

def okOrNotFound {α : Type} (answer : Option α) (id : Uuid) : Handler α :=
  match answer with
  | some a => return a
  | none => throw (.notFound ("backup " ++ id.toString))

/-! ### Handlers -/

/-- What a handler finds in `AppState` besides the pool and the
configuration, which it reaches through its operations. -/
structure AppState where
  cache : CacheLayer
  amqpChannel : Bool
  deriving DecidableEq, Repr

def validateSourcePath (path : String) : Except AppError Unit :=
  if path.toList = [] then
    .error (.validation "source_path cannot be empty")
  else if path.toList.head? ≠ some '/' then
    .error (.validation "source_path must be absolute")
  else if ['.', '.'] <:+: path.toList then
    .error (.validation "path traversal not allowed")
  else .ok ()

def createBackup (state : AppState) (claims : Claims) (req : CreateBackupRequest) :
    Handler Response := do
  ExceptT.mk (return validateSourcePath req.sourcePath)
  let backup ← fetch (.insertBackup claims.tenantId req.sourcePath req.encryptionEnabled)
  state.cache.invalidateTenantBackups claims.tenantId
  return ⟨201, .backup (.from backup)⟩

def getBackup (state : AppState) (claims : Claims) (id : Uuid) : Handler Response := do
  match (← state.cache.getBackup id).filter (·.tenantId = claims.tenantId) with
  | some cached => return ⟨200, .backup (.from cached)⟩
  | none =>
      let backup ← okOrNotFound (← fetch (.selectBackup id claims.tenantId)) id
      state.cache.setBackup backup
      return ⟨200, .backup (.from backup)⟩

/-- `i64::clamp` -/
def clamp (x lo hi : ℤ) : ℤ := if x < lo then lo else if hi < x then hi else x

/-- `use_list_cache`: the request is for the page that is cached. -/
def useListCache (params : ListParams) (cfg : AppConfig) : Bool :=
  params.status.isNone && max params.offset 0 = cfg.cachedListOffset &&
    clamp params.limit 1 100 = cfg.cachedListLimit

theorem useListCache_iff {params : ListParams} {cfg : AppConfig} :
    useListCache params cfg = true ↔ params.status = none ∧
      max params.offset 0 = cfg.cachedListOffset ∧ clamp params.limit 1 100 = cfg.cachedListLimit := by
  simp [useListCache, and_assoc]

def listBackups (state : AppState) (claims : Claims) (params : ListParams) :
    Handler Response := do
  let limit := clamp params.limit 1 100
  let offset := max params.offset 0
  let cfg ← readConfig
  let cached ←
    if useListCache params cfg then state.cache.getTenantBackups claims.tenantId else pure none
  match cached with
  | some (items, total) => return ⟨200, .list ⟨items.map .from, total, offset, limit⟩⟩
  | none =>
      let backups ← fetch (.selectBackups claims.tenantId params.status limit offset)
      let total ← fetch (.countBackups claims.tenantId params.status)
      if useListCache params cfg then
        state.cache.setTenantBackups claims.tenantId backups total
      return ⟨200, .list ⟨backups.map .from, total, offset, limit⟩⟩

def updateBackup (state : AppState) (claims : Claims) (id : Uuid) (req : UpdateBackupRequest) :
    Handler Response := do
  let status := req.status.map BackupStatus.toString
  let backup ←
    okOrNotFound (← fetch (.updateBackup id claims.tenantId status req.sizeBytes)) id
  state.cache.invalidateBackup id
  state.cache.invalidateTenantBackups claims.tenantId
  return ⟨200, .backup (.from backup)⟩

def deleteBackup (state : AppState) (claims : Claims) (id : Uuid) : Handler Response := do
  let rowsAffected ← fetch (.deleteBackup id claims.tenantId)
  if (show ℕ from rowsAffected) = 0 then
    throw (.notFound ("backup " ++ id.toString))
  state.cache.invalidateBackup id
  state.cache.invalidateTenantBackups claims.tenantId
  return ⟨204, .empty⟩

def analyzeBackup (_state : AppState) (claims : Claims) (id : Uuid) : Handler Response := do
  let backup ← okOrNotFound (← fetch (.selectBackup id claims.tenantId)) id
  let syntheticData := cycleTake (utf8Bytes backup.sourcePath) 4096
  match ← spawnEntropy syntheticData with
  | .ok entropy => return ⟨200, .backup { BackupResponse.from backup with entropy := some entropy }⟩
  | .error e => throw (.internal ("task join error: " ++ e.message))

def enqueueBackup (state : AppState) (claims : Claims) (id : Uuid) : Handler Response := do
  let backup ← okOrNotFound (← fetch (.selectBackup id claims.tenantId)) id
  if !state.amqpChannel then
    throw (.internal "RabbitMQ not configured")
  let job : BackupJob :=
    { backupId := backup.id
      tenantId := backup.tenantId
      sourcePath := backup.sourcePath
      encryptionEnabled := backup.encryptionEnabled }
  match ← publish job with
  | .ok () => return ⟨202, .enqueued "backup job enqueued" id⟩
  | .error _ => throw (.internal "failed to enqueue job")

/-! ### Dispatch -/

/-- A request to a protected route that has passed the extractors. -/
inductive Request
  | create (req : CreateBackupRequest)
  | get (id : Uuid)
  | list (params : ListParams)
  | update (id : Uuid) (req : UpdateBackupRequest)
  | delete (id : Uuid)
  | analyze (id : Uuid)
  | enqueue (id : Uuid)
  deriving DecidableEq, Repr

def Request.handler (state : AppState) (claims : Claims) : Request → Handler Response
  | create req => createBackup state claims req
  | get id => getBackup state claims id
  | list params => listBackups state claims params
  | update id req => updateBackup state claims id req
  | delete id => deleteBackup state claims id
  | analyze id => analyzeBackup state claims id
  | enqueue id => enqueueBackup state claims id

/-- `Result::into_response` -/
def intoResponse : Except AppError Response → Response
  | .ok response => response
  | .error e => e.intoResponse

def handle (state : AppState) (claims : Claims) (req : Request) : Action Response := do
  return intoResponse (← (req.handler state claims).run)

/-! ### The atomic steps of the handlers

The same programs with the error handling carried out: what is left is the
order of the operations and what each answer leads to. -/

section Steps

variable (state : AppState) (claims : Claims)

def notFoundResponse (id : Uuid) : Response :=
  (AppError.notFound ("backup " ++ id.toString)).intoResponse

def databaseResponse (e : SqlError) : Response := (AppError.database e).intoResponse

theorem run_fetch_bind {α : Type} (s : Sql) (f : s.Answer → Handler α) :
    (fetch s >>= f).run = query s >>= fun
      | .ok answer => (f answer).run
      | .error e => pure (.error (.database e)) := by
  refine congrArg (Program.op _) (funext fun r => ?_)
  cases r <;> rfl

theorem run_lift_bind {α β : Type} (p : Action α) (f : α → Handler β) :
    ((liftM p : Handler α) >>= f).run = p >>= fun a => (f a).run := by
  change (p >>= fun a => pure (Except.ok a)) >>= ExceptT.bindCont f = _
  rw [bind_assoc]
  rfl

theorem run_check_bind {α β : Type} (x : Except AppError α) (f : α → Handler β) :
    ((ExceptT.mk (return x) : Handler α) >>= f).run =
      match x with
      | .ok a => (f a).run
      | .error e => pure (.error e) := by
  cases x <;> rfl

theorem handle_create (req : CreateBackupRequest) :
    handle state claims (.create req) =
      match validateSourcePath req.sourcePath with
      | .error e => return e.intoResponse
      | .ok () => do
          match ← query (.insertBackup claims.tenantId req.sourcePath req.encryptionEnabled) with
          | .error e => return databaseResponse e
          | .ok b =>
              state.cache.invalidateTenantBackups claims.tenantId
              return ⟨201, .backup (.from b)⟩ := by
  simp only [handle, Request.handler, createBackup, run_check_bind]
  cases validateSourcePath req.sourcePath with
  | error e => rfl
  | ok _ =>
      simp only [run_fetch_bind, bind_assoc]
      refine congrArg (query _ >>= ·) (funext fun r => ?_)
      cases r with
      | error e => rfl
      | ok b => simp only [run_lift_bind, bind_assoc]; rfl

/-- The rest of a get request, after it has looked for a copy of its own
tenant in the cache. -/
def getAfterLookup (id : Uuid) (cached : Option Backup) : Action Response :=
  match cached with
  | some cached => return ⟨200, .backup (.from cached)⟩
  | none => do
      match ← query (.selectBackup id claims.tenantId) with
      | .error e => return databaseResponse e
      | .ok none => return notFoundResponse id
      | .ok (some b) =>
          state.cache.setBackup b
          return ⟨200, .backup (.from b)⟩

theorem handle_get (id : Uuid) :
    handle state claims (.get id) = state.cache.getBackup id >>= fun cached =>
      getAfterLookup state claims id (cached.filter fun b => b.tenantId = claims.tenantId) := by
  simp only [handle, Request.handler, getBackup, run_lift_bind, bind_assoc]
  refine congrArg (_ >>= ·) (funext fun cached => ?_)
  cases cached.filter (fun b => b.tenantId = claims.tenantId) with
  | some cached => rfl
  | none =>
      simp only [run_fetch_bind, bind_assoc, getAfterLookup]
      refine congrArg (query _ >>= ·) (funext fun r => ?_)
      rcases r with e | (_ | b)
      · rfl
      · rfl
      · simp only [okOrNotFound, pure_bind, run_lift_bind, bind_assoc]; rfl

/-- The answer to a list request, from the cache or from the database. -/
def listResponse (params : ListParams) (items : List Backup) (total : ℤ) : Response :=
  ⟨200, .list ⟨items.map .from, total, max params.offset 0, clamp params.limit 1 100⟩⟩

/-- The rest of a list request, after it has looked into the cache. -/
def listAfterLookup (params : ListParams) (cfg : AppConfig)
    (cached : Option (List Backup × ℤ)) : Action Response :=
  match cached with
  | some (items, total) => return listResponse params items total
  | none => do
      match ← query (.selectBackups claims.tenantId params.status
        (clamp params.limit 1 100) (max params.offset 0)) with
      | .error e => return databaseResponse e
      | .ok items =>
          match ← query (.countBackups claims.tenantId params.status) with
          | .error e => return databaseResponse e
          | .ok total =>
              if useListCache params cfg then
                state.cache.setTenantBackups claims.tenantId items total
              return listResponse params items total

theorem handle_list (params : ListParams) :
    handle state claims (.list params) = readConfig >>= fun cfg =>
      if useListCache params cfg then
        state.cache.getTenantBackups claims.tenantId >>= listAfterLookup state claims params cfg
      else listAfterLookup state claims params cfg none := by
  simp only [handle, Request.handler, listBackups, run_lift_bind, bind_assoc]
  refine congrArg (_ >>= ·) (funext fun cfg => ?_)
  have hmiss : ∀ c : Bool,
      ((do
        let items ← fetch (.selectBackups claims.tenantId params.status
          (clamp params.limit 1 100) (max params.offset 0))
        let total ← fetch (.countBackups claims.tenantId params.status)
        if c then state.cache.setTenantBackups claims.tenantId items total
        return ⟨200, .list ⟨items.map .from, total, max params.offset 0,
          clamp params.limit 1 100⟩⟩ : Handler Response).run >>=
          fun r => pure (intoResponse r)) = do
        match ← query (.selectBackups claims.tenantId params.status
          (clamp params.limit 1 100) (max params.offset 0)) with
        | .error e => return databaseResponse e
        | .ok items =>
            match ← query (.countBackups claims.tenantId params.status) with
            | .error e => return databaseResponse e
            | .ok total =>
                if c then state.cache.setTenantBackups claims.tenantId items total
                return listResponse params items total := by
    intro c
    simp only [run_fetch_bind, bind_assoc]
    refine congrArg (_ >>= ·) (funext fun r => ?_)
    cases r with
    | error e => rfl
    | ok items =>
        simp only [bind_assoc]
        refine congrArg (query _ >>= ·) (funext fun r => ?_)
        cases r with
        | error e => rfl
        | ok total =>
            cases c with
            | false => rfl
            | true => simp only [if_true, run_lift_bind, bind_assoc]; rfl
  cases huse : useListCache params cfg with
  | false =>
      simp only [listAfterLookup, huse]
      exact hmiss false
  | true =>
      simp only [if_true, run_lift_bind, bind_assoc]
      refine congrArg (_ >>= ·) (funext fun cached => ?_)
      cases cached with
      | some cached => rfl
      | none =>
          simp only [listAfterLookup, huse]
          exact hmiss true

theorem handle_update (id : Uuid) (req : UpdateBackupRequest) :
    handle state claims (.update id req) = do
      match ← query (.updateBackup id claims.tenantId (req.status.map BackupStatus.toString)
        req.sizeBytes) with
      | .error e => return databaseResponse e
      | .ok none => return notFoundResponse id
      | .ok (some b) =>
          state.cache.invalidateBackup id
          state.cache.invalidateTenantBackups claims.tenantId
          return ⟨200, .backup (.from b)⟩ := by
  simp only [handle, Request.handler, updateBackup, run_fetch_bind, bind_assoc]
  refine congrArg (query _ >>= ·) (funext fun r => ?_)
  rcases r with e | (_ | b)
  · rfl
  · rfl
  · simp only [okOrNotFound, pure_bind, run_lift_bind, bind_assoc]; rfl

theorem handle_delete (id : Uuid) :
    handle state claims (.delete id) = do
      match ← query (.deleteBackup id claims.tenantId) with
      | .error e => return databaseResponse e
      | .ok rowsAffected =>
          if (show ℕ from rowsAffected) = 0 then return notFoundResponse id
          state.cache.invalidateBackup id
          state.cache.invalidateTenantBackups claims.tenantId
          return ⟨204, .empty⟩ := by
  simp only [handle, Request.handler, deleteBackup, run_fetch_bind, bind_assoc]
  refine congrArg (query _ >>= ·) (funext fun r => ?_)
  rcases r with e | rowsAffected
  · rfl
  · by_cases h : (show ℕ from rowsAffected) = 0
    · simp only [h, if_true]; rfl
    · simp only [h, if_false, run_lift_bind, bind_assoc]; rfl

/-- What `analyze_backup` analyzes. -/
def Backup.analyzedData (b : Backup) : List UInt8 := cycleTake (utf8Bytes b.sourcePath) 4096

def entropyResponse (b : Backup) (entropy : Entropy) : Response :=
  ⟨200, .backup { BackupResponse.from b with entropy := some entropy }⟩

/-- The answer of `analyze_backup`. -/
def analyzeResponse (b : Backup) : Response :=
  ⟨200, .backup { BackupResponse.from b with
    entropy := some (shannonEntropy (cycleTake (utf8Bytes b.sourcePath) 4096)) }⟩

theorem entropyResponse_eq (b : Backup) :
    entropyResponse b (shannonEntropy b.analyzedData) = analyzeResponse b := rfl

def joinResponse (e : JoinError) : Response :=
  (AppError.internal ("task join error: " ++ e.message)).intoResponse

theorem handle_analyze (id : Uuid) :
    handle state claims (.analyze id) = do
      match ← query (.selectBackup id claims.tenantId) with
      | .error e => return databaseResponse e
      | .ok none => return notFoundResponse id
      | .ok (some b) =>
          match ← spawnEntropy b.analyzedData with
          | .error e => return joinResponse e
          | .ok entropy => return entropyResponse b entropy := by
  simp only [handle, Request.handler, analyzeBackup, run_fetch_bind, bind_assoc]
  refine congrArg (_ >>= ·) (funext fun r => ?_)
  rcases r with e | (_ | b)
  · rfl
  · rfl
  · simp only [okOrNotFound, pure_bind, Backup.analyzedData]
    rw [run_lift_bind, bind_assoc]
    generalize cycleTake (utf8Bytes b.sourcePath) 4096 = data
    refine congrArg (spawnEntropy data >>= ·) (funext fun r => ?_)
    rcases r with e | entropy <;> rfl

/-- The message `enqueue_backup` publishes. -/
def Backup.job (b : Backup) : BackupJob where
  backupId := b.id
  tenantId := b.tenantId
  sourcePath := b.sourcePath
  encryptionEnabled := b.encryptionEnabled

theorem handle_enqueue (id : Uuid) :
    handle state claims (.enqueue id) = do
      match ← query (.selectBackup id claims.tenantId) with
      | .error e => return databaseResponse e
      | .ok none => return notFoundResponse id
      | .ok (some b) =>
          if state.amqpChannel then
            match ← publish b.job with
            | .ok () => return ⟨202, .enqueued "backup job enqueued" id⟩
            | .error _ => return (AppError.internal "failed to enqueue job").intoResponse
          else return (AppError.internal "RabbitMQ not configured").intoResponse := by
  simp only [handle, Request.handler, enqueueBackup, run_fetch_bind, bind_assoc]
  refine congrArg (_ >>= ·) (funext fun r => ?_)
  rcases r with e | (_ | b)
  · rfl
  · rfl
  · cases state.amqpChannel with
    | false => rfl
    | true =>
        simp only [okOrNotFound, Bool.not_true, Bool.false_eq_true, if_false, if_true, pure_bind]
        rw [run_lift_bind, bind_assoc]
        refine congrArg (_ >>= ·) (funext fun r => ?_)
        cases r <;> rfl

end Steps

end BackupService
