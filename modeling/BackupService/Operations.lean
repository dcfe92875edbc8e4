import BackupService.Config
import BackupService.Database
import BackupService.Ffi
import BackupService.Lib.Program
import Mathlib.Logic.Function.Basic

/-!
What the service does to the world outside its own memory.

A handler is a `Program` over `Op`: single SQL statements, single Redis
commands, reads of the shared configuration, the publishing of a job, and the
entropy analysis on the blocking pool.
Between two of them a task can be suspended, so they are the atomic steps
of the service. `Op.exec` is their effect on the stores that all replicas
share. Whatever the stores themselves leave open is in `Env`, the
surroundings of one operation: whether the Redis command gets through,
whether the database answers, how rows with equal `created_at` are ordered.
-/

namespace BackupService

open Lib

/-! ### Redis -/

/-- The keys `backup:{id}` and `tenant_backups:{tenant_id}`. -/
inductive Key
  | backup (id : Uuid)
  | tenantBackups (tenantId : Uuid)
  deriving DecidableEq, Repr

/-- What is stored under a key, before it is written as JSON. -/
inductive CacheValue
  | backup (b : Backup)
  | page (items : List Backup) (total : ℤ)
  deriving DecidableEq, Repr

structure Entry where
  value : CacheValue
  expiresAt : ℕ
  deriving DecidableEq, Repr

/-- The live entries. -/
abbrev Redis := Key → Option Entry

def Redis.empty : Redis := fun _ => none

inductive RedisCommand
  | get (key : Key)
  | setEx (key : Key) (value : CacheValue) (ttl : UInt64)
  | del (key : Key)
  deriving DecidableEq, Repr

def RedisCommand.Answer : RedisCommand → Type
  | get _ => Option CacheValue
  | setEx .. => Unit
  | del _ => Unit

/-- A failed command. What has gone wrong is never looked at. -/
inductive RedisError
  | failed
  deriving DecidableEq, Repr

/-- `SETEX` refuses a lifetime of zero, and one that does not fit its
millisecond clock. -/
def validTtl (ttl : UInt64) : Bool := 0 < ttl && ttl ≤ 9223372036854775

def RedisCommand.answer : (c : RedisCommand) → Redis → Except RedisError c.Answer
  | .get key, r => .ok ((r key).map Entry.value)
  | .setEx _ _ ttl, _ => if validTtl ttl then .ok () else .error .failed
  | .del _, _ => .ok ()

/-- The entries after a command that is executed at the instant `clock`. -/
def RedisCommand.effect (clock : ℕ) : RedisCommand → Redis → Redis
  | .get _, r => r
  | .setEx key value ttl, r =>
      if validTtl ttl then Function.update r key (some ⟨value, clock + secs ttl.toNat⟩) else r
  | .del key, r => Function.update r key none

/-! ### Operations -/

/-- `lapin::Error`; its text is not looked at. -/
inductive LapinError
  | failed
  deriving DecidableEq, Repr

/-- `tokio::task::JoinError`: a task on the blocking pool did not finish. -/
structure JoinError where
  message : String
  deriving DecidableEq, Repr

inductive Op
  | sql (s : Sql)
  | redis (c : RedisCommand)
  /-- Taking the read lock of the configuration. -/
  | config
  | publish (job : BackupJob)
  /-- `spawn_blocking(shannon_entropy)` -/
  | entropy (data : List UInt8)
  deriving DecidableEq, Repr

def Op.Answer : Op → Type
  | sql s => Except SqlError s.Answer
  | redis c => Except RedisError c.Answer
  | config => AppConfig
  | publish _ => Except LapinError Unit
  | entropy _ => Except JoinError Entropy

/-- A program of the service. -/
abbrev Action (α : Type) := Program Op Op.Answer α

/-- What all replicas share: the database, Redis, and the messages that are
ready in the queue `backup_jobs`. -/
structure Store where
  db : Table
  redis : Redis
  queue : List Message

/-- How a statement or a command can go wrong for reasons that are not in
it. A failure is seen by the caller in either case; in the second one it has
been executed all the same. -/
inductive Fault
  | none
  | before
  | after
  deriving DecidableEq, Repr

/-- What becomes of a published message, and what its publisher is told. -/
structure PublishOutcome where
  stored : Bool := true
  confirmed : Bool := true
  deriving DecidableEq, Repr

/-- The surroundings of one operation. -/
structure Env where
  order : RowOrder := .stable
  redis : Fault := .none
  sql : Fault := .none
  publish : PublishOutcome := {}
  join : Option JoinError := none

/-- Nothing goes wrong with the stores and the broker. -/
structure Env.FaultFree (env : Env) : Prop where
  redis : env.redis = .none
  sql : env.sql = .none
  publish : env.publish = {}

/-- The effect of one operation. -/
def Op.exec (env : Env) (oracle : Oracle) (config : AppConfig) (clock : ℕ) :
    (o : Op) → Store → o.Answer × Store
  | .sql s, st =>
      match env.sql with
      | .none => ((s.exec env.order oracle st.db).1,
          { st with db := (s.exec env.order oracle st.db).2 })
      | .before => (.error .unavailable, st)
      | .after => (.error .unavailable, { st with db := (s.exec env.order oracle st.db).2 })
  | .redis c, st =>
      match env.redis with
      | .none => (c.answer st.redis, { st with redis := c.effect clock st.redis })
      | .before => (.error .failed, st)
      | .after => (.error .failed, { st with redis := c.effect clock st.redis })
  | .config, st => (config, st)
  | .publish job, st =>
      (if env.publish.confirmed then .ok () else .error .failed,
        if env.publish.stored then { st with queue := st.queue ++ [.job job] } else st)
  | .entropy data, st =>
      (match env.join with
        | none => .ok (shannonEntropy data)
        | some e => .error e, st)

/-- `state.config()` -/
def readConfig : Action AppConfig := Program.perform Op.config

def query (s : Sql) : Action (Except SqlError s.Answer) := Program.perform (Op.sql s)

def command (c : RedisCommand) : Action (Except RedisError c.Answer) :=
  Program.perform (Op.redis c)

def publish (job : BackupJob) : Action (Except LapinError Unit) :=
  Program.perform (Op.publish job)

def spawnEntropy (data : List UInt8) : Action (Except JoinError Entropy) :=
  Program.perform (Op.entropy data)

/-! ### Protocols and single operations -/

section Rules

open Program

variable {α γ : Type} {P : Protocol Op Op.Answer γ} {Q : γ → α → Prop} {g : γ}
  {same : (o : Op) → o.Answer → o.Answer → Prop}

theorem obeys_readConfig {f : AppConfig → Action α} :
    Obeys P Q g (readConfig >>= f) ↔ P.allow g .config ∧
      ∀ config : AppConfig, P.rely g .config config → Obeys P Q (P.next g .config config) (f config) :=
  Iff.rfl

theorem obeys_query {s : Sql} {f : Except SqlError s.Answer → Action α} :
    Obeys P Q g (query s >>= f) ↔ P.allow g (.sql s) ∧
      ∀ r : Except SqlError s.Answer, P.rely g (.sql s) r → Obeys P Q (P.next g (.sql s) r) (f r) :=
  Iff.rfl

theorem obeys_command {c : RedisCommand} {f : Except RedisError c.Answer → Action α} :
    Obeys P Q g (command c >>= f) ↔ P.allow g (.redis c) ∧
      ∀ r : Except RedisError c.Answer, P.rely g (.redis c) r →
        Obeys P Q (P.next g (.redis c) r) (f r) :=
  Iff.rfl

theorem obeys_publish {job : BackupJob} {f : Except LapinError Unit → Action α} :
    Obeys P Q g (publish job >>= f) ↔ P.allow g (.publish job) ∧
      ∀ r : Except LapinError Unit, P.rely g (.publish job) r →
        Obeys P Q (P.next g (.publish job) r) (f r) :=
  Iff.rfl

theorem obeys_spawnEntropy {data : List UInt8} {f : Except JoinError Entropy → Action α} :
    Obeys P Q g (spawnEntropy data >>= f) ↔ P.allow g (.entropy data) ∧
      ∀ r : Except JoinError Entropy, P.rely g (.entropy data) r →
        Obeys P Q (P.next g (.entropy data) r) (f r) :=
  Iff.rfl

theorem blind_readConfig (hsame : ∀ r r', same .config r r' → r = r') :
    Blind same readConfig :=
  ⟨fun r r' h => congrArg _ (hsame r r' h), fun _ => trivial⟩

theorem blind_query {s : Sql} (hsame : ∀ r r', same (.sql s) r r' → r = r') :
    Blind same (query s) :=
  ⟨fun r r' h => congrArg _ (hsame r r' h), fun _ => trivial⟩

theorem blind_command {c : RedisCommand} (hsame : ∀ r r', same (.redis c) r r' → r = r') :
    Blind same (command c) :=
  ⟨fun r r' h => congrArg _ (hsame r r' h), fun _ => trivial⟩

theorem blind_publish {job : BackupJob} (hsame : ∀ r r', same (.publish job) r r' → r = r') :
    Blind same (publish job) :=
  ⟨fun r r' h => congrArg _ (hsame r r' h), fun _ => trivial⟩

theorem blind_spawnEntropy {data : List UInt8}
    (hsame : ∀ r r', same (.entropy data) r r' → r = r') : Blind same (spawnEntropy data) :=
  ⟨fun r r' h => congrArg _ (hsame r r' h), fun _ => trivial⟩

theorem run_query_bind {σ : Type} (exec : (o : Op) → σ → o.Answer × σ) (s : Sql)
    (f : Except SqlError s.Answer → Action α) (st : σ) :
    run exec (query s >>= f) st = run exec (f (exec (.sql s) st).1) (exec (.sql s) st).2 := rfl

end Rules

end BackupService
