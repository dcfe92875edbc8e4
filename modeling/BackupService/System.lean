import BackupService.Grpc
import BackupService.Handlers
import BackupService.Lib.Machine

/-!
The running system: any number of replicas of the service over one
database, one Redis and one job queue, with any number of requests in
flight.

A request in flight is a `Thread`: what is left of its handler. An event
lets one thing happen, and carries everything that the code does not
determine. `step` executes the next operation of one thread, or hands out
the response of a thread that has none left; `drop` cuts a handler off, as
the timeout layer does; `rpc` is a callback of a worker, which consists of
one statement; `expire` and `advance` are what Redis does by itself. What
an event shows to the outside is a list of `Obs`.

Everything is a function of the events, so a statement about all
interleavings is a statement about all lists of events.
-/

namespace BackupService

open Lib

/-- A request is named by the tenant of its claims and a number. -/
structure ReqId where
  tenant : Uuid
  seq : ℕ
  deriving DecidableEq, Repr

/-- A request in flight. -/
structure Thread where
  claims : Claims
  request : Request
  replica : ℕ
  oracle : Oracle
  startedAt : ℕ
  prog : Action Response

/-- One process of the service. -/
structure Replica where
  state : AppState
  config : AppConfig

structure State where
  store : Store
  replicas : ℕ → Replica
  clock : ℕ
  inflight : ReqId → Option Thread

inductive Event
  | start (replica seq : ℕ) (claims : Claims) (request : Request) (oracle : Oracle)
  | step (id : ReqId) (env : Env)
  | drop (id : ReqId)
  | rpc (call : Rpc) (oracle : Oracle) (env : Env)
  | configUpdate (replica : ℕ) (update : RemoteConfigUpdate)
  | expire (key : Key)
  | advance (clock : ℕ)

/-- What can be observed of a run. -/
inductive Obs
  | performed (id : ReqId) (o : Op) (answer : o.Answer)
  | responded (id : ReqId) (request : Request) (response : Response)
  | called (call : Rpc) (result : Except Status Ack)

/-- The tenant a response goes to. -/
def Obs.responseTo : Obs → Option Uuid
  | responded id _ _ => some id.tenant
  | _ => none

/-- `SETEX` entries are gone when their time is up. -/
def Redis.advance (r : Redis) (clock : ℕ) : Redis := fun key =>
  (r key).filter fun e => clock < e.expiresAt

namespace State

def setThread (s : State) (id : ReqId) (th : Option Thread) : State :=
  { s with inflight := Function.update s.inflight id th }

def setStore (s : State) (store : Store) : State := { s with store }

section Fields

variable (s : State) (id id' : ReqId) (th : Option Thread) (store : Store)

@[simp] theorem setThread_store : (s.setThread id th).store = s.store := rfl

@[simp] theorem setThread_replicas : (s.setThread id th).replicas = s.replicas := rfl

@[simp] theorem setThread_clock : (s.setThread id th).clock = s.clock := rfl

@[simp] theorem setThread_inflight_self : (s.setThread id th).inflight id = th :=
  Function.update_self ..

theorem setThread_inflight_of_ne {id id' : ReqId} (h : id' ≠ id) :
    (s.setThread id th).inflight id' = s.inflight id' :=
  Function.update_of_ne h ..

@[simp] theorem setStore_store : (s.setStore store).store = store := rfl

@[simp] theorem setStore_replicas : (s.setStore store).replicas = s.replicas := rfl

@[simp] theorem setStore_clock : (s.setStore store).clock = s.clock := rfl

@[simp] theorem setStore_inflight : (s.setStore store).inflight = s.inflight := rfl

end Fields

/-- The effect of an operation that thread `th` performs. -/
def exec (s : State) (th : Thread) (env : Env) (o : Op) : o.Answer × Store :=
  o.exec env th.oracle (s.replicas th.replica).config s.clock s.store

/-- The next move of the thread `id`. -/
def stepThread (s : State) (id : ReqId) (env : Env) : State × List Obs :=
  match s.inflight id with
  | none => (s, [])
  | some th =>
      match th.prog with
      | .ret response => (s.setThread id none, [.responded id th.request response])
      | .op o k =>
          let (answer, store) := s.exec th env o
          ((s.setStore store).setThread id (some { th with prog := k answer }),
            [.performed id o answer])

section Moves

variable {s : State} {id : ReqId} {th : Thread}

theorem stepThread_none (h : s.inflight id = none) (env : Env) : s.stepThread id env = (s, []) := by
  simp only [stepThread, h]

theorem stepThread_ret {response : Response} (h : s.inflight id = some th)
    (hprog : th.prog = .ret response) (env : Env) :
    s.stepThread id env = (s.setThread id none, [.responded id th.request response]) := by
  simp only [stepThread, h, hprog]

theorem stepThread_op {o : Op} {k : o.Answer → Action Response} (h : s.inflight id = some th)
    (hprog : th.prog = .op o k) (env : Env) :
    s.stepThread id env =
      ((s.setStore (s.exec th env o).2).setThread id
        (some { th with prog := k (s.exec th env o).1 }),
        [.performed id o (s.exec th env o).1]) := by
  simp only [stepThread, h, hprog]

end Moves

/-- The thread of a request that has just been accepted. -/
def newThread (s : State) (replica : ℕ) (claims : Claims) (request : Request) (oracle : Oracle) :
    Thread where
  claims := claims
  request := request
  replica := replica
  oracle := oracle
  startedAt := s.clock
  prog := handle (s.replicas replica).state claims request

def start (s : State) (replica seq : ℕ) (claims : Claims) (request : Request) (oracle : Oracle) :
    State :=
  let id : ReqId := ⟨claims.tenantId, seq⟩
  match s.inflight id with
  | some _ => s
  | none => s.setThread id (some (s.newThread replica claims request oracle))

/-- A callback is executed as a whole: it is one statement. -/
def call (s : State) (uuid : UuidParser) (call : Rpc) (oracle : Oracle) (env : Env) :
    Except Status Ack × Store :=
  (call.handle uuid).run (fun o => o.exec env oracle (s.replicas 0).config s.clock) s.store

theorem call_eq (s : State) (uuid : UuidParser) (rpc : Rpc) {oracle : Oracle} {env : Env} {id : Uuid}
    (hid : uuid.parse rpc.backupId = .ok id) : s.call uuid rpc oracle env =
      (rpc.answer id
        ((Op.sql (rpc.statement id)).exec env oracle (s.replicas 0).config s.clock s.store).1,
        ((Op.sql (rpc.statement id)).exec env oracle (s.replicas 0).config s.clock s.store).2) := by
  rw [call, handle_eq_answer uuid hid]
  rfl

theorem call_malformed (s : State) (uuid : UuidParser) (rpc : Rpc) {oracle : Oracle} {env : Env}
    {e : String} (h : uuid.parse rpc.backupId = .error e) : s.call uuid rpc oracle env =
      (.error (.invalidArgument ("invalid backup_id: " ++ e)), s.store) := by
  rw [call, handle_malformed uuid h, Program.run_pure]

/-- The only effect of a callback is that of its statement. -/
theorem call_store (s : State) (uuid : UuidParser) (rpc : Rpc) (oracle : Oracle) (env : Env) :
    (∃ e, uuid.parse rpc.backupId = .error e ∧ (s.call uuid rpc oracle env).2 = s.store) ∨
      ∃ id, uuid.parse rpc.backupId = .ok id ∧ (s.call uuid rpc oracle env).2 =
        ((Op.sql (rpc.statement id)).exec env oracle (s.replicas 0).config s.clock s.store).2 := by
  cases hid : uuid.parse rpc.backupId with
  | error e => exact .inl ⟨e, rfl, congrArg Prod.snd (s.call_malformed uuid rpc hid)⟩
  | ok id => exact .inr ⟨id, rfl, congrArg Prod.snd (s.call_eq uuid rpc hid)⟩

def updateConfig (s : State) (replica : ℕ) (update : RemoteConfigUpdate) : State :=
  let r := s.replicas replica
  { s with
    replicas := Function.update s.replicas replica
      { r with config := applyUpdate r.config update } }

end State

/-- The system as a machine. -/
def system (uuid : UuidParser) : Machine State Event Obs where
  step s
    | .start replica seq claims request oracle => (s.start replica seq claims request oracle, [])
    | .step id env => s.stepThread id env
    | .drop id => (s.setThread id none, [])
    | .rpc call oracle env =>
        let (result, store) := s.call uuid call oracle env
        (s.setStore store, [.called call result])
    | .configUpdate replica update => (s.updateConfig replica update, [])
    | .expire key =>
        (s.setStore { s.store with redis := Function.update s.store.redis key none }, [])
    | .advance clock =>
        ({ s with
            clock := max s.clock clock
            store.redis := s.store.redis.advance (max s.clock clock) }, [])

section Events

variable (uuid : UuidParser) (s : State)

@[simp] theorem step_start (replica seq : ℕ) (claims : Claims) (request : Request)
    (oracle : Oracle) : (system uuid).step s (.start replica seq claims request oracle) =
      (s.start replica seq claims request oracle, []) := rfl

@[simp] theorem step_step (id : ReqId) (env : Env) :
    (system uuid).step s (.step id env) = s.stepThread id env := rfl

@[simp] theorem step_drop (id : ReqId) :
    (system uuid).step s (.drop id) = (s.setThread id none, []) := rfl

@[simp] theorem step_rpc (call : Rpc) (oracle : Oracle) (env : Env) :
    (system uuid).step s (.rpc call oracle env) =
      (s.setStore (s.call uuid call oracle env).2,
        [.called call (s.call uuid call oracle env).1]) := rfl

@[simp] theorem step_configUpdate (replica : ℕ) (update : RemoteConfigUpdate) :
    (system uuid).step s (.configUpdate replica update) = (s.updateConfig replica update, []) := rfl

@[simp] theorem step_expire (key : Key) : (system uuid).step s (.expire key) =
    (s.setStore { s.store with redis := Function.update s.store.redis key none }, []) := rfl

@[simp] theorem step_advance (clock : ℕ) : (system uuid).step s (.advance clock) =
    ({ s with
        clock := max s.clock clock
        store.redis := s.store.redis.advance (max s.clock clock) }, []) := rfl

end Events

/-- Nothing has happened yet: no cached entry, no job, no request. -/
def State.initial (db : Table) (replicas : ℕ → Replica) : State where
  store := ⟨db, .empty, []⟩
  replicas := replicas
  clock := 0
  inflight := fun _ => none

end BackupService
