import BackupService.Migrations
import BackupService.Settings
import BackupService.Visits

/-!
The processes of the service, from their start to their end.

`main` is the program of a process: it connects to what it needs, runs the
migrations, starts its two servers one after the other, and stops them one
after the other when a signal has come. A `Fleet` is any number of processes
that run it side by side, over one database, with the gateway as what their
HTTP servers do between them.

A request is taken in only by a process whose server accepts, and a callback
only by one whose gRPC server does. A process that ends, in whichever way,
takes with it whatever it was still working on. `Effect` is what a step can do
to the requests and callbacks and to the ends of the processes.
-/

namespace BackupService

open Lib

/-! ### The program -/

inductive MainError
  /-- An address cannot be parsed. -/
  | config
  /-- The database does not answer. -/
  | sqlx
  | migration (e : MigrationError)
  | io
  | panicked (message : String)
  deriving DecidableEq, Repr

structure ApolloUpdaterConfig where
  url : String
  interval : UInt64
  timeout : UInt64
  deriving DecidableEq, Repr

inductive MainOp
  | createPool (databaseUrl : String)
  /-- A statement of `run_migrations`. -/
  | migration (o : MigrationOp)
  /-- `redis::Client::open` and `get_connection_manager` -/
  | connectRedis (redisUrl : String)
  | connectRabbitmq (amqpUrl : String)
  /-- `PrometheusBuilder::install_recorder` -/
  | installRecorder
  /-- `reqwest::Client::builder` -/
  | buildClient (timeout : UInt64)
  | spawnUpdater (config : ApolloUpdaterConfig)
  | spawnGrpc (addr : SocketAddr)
  /-- `TcpListener::bind` -/
  | bindHttp (addr : SocketAddr)
  /-- `axum::serve` is polled for the first time, and so is `shutdown_signal`. -/
  | serve (state : AppState)
  /-- `axum::serve` returns. -/
  | served
  /-- `grpc_shutdown_tx.send(())` -/
  | stopGrpc
  /-- `grpc_handle.await` -/
  | joinGrpc
  /-- `drop(amqp_conn)` -/
  | dropConnection
  deriving DecidableEq, Repr

/-- Most operations succeed or fail; an answer to a statement can be lost. -/
abbrev MainOp.Answer : MainOp → Type
  | createPool _ => Bool
  | migration o => Option o.Answer
  | connectRedis _ => Bool
  | connectRabbitmq _ => Bool
  | installRecorder => Bool
  | buildClient _ => Bool
  | spawnUpdater _ => Unit
  | spawnGrpc _ => Unit
  | bindHttp _ => Bool
  | serve _ => Unit
  | served => Unit
  | stopGrpc => Unit
  | joinGrpc => Unit
  | dropConnection => Unit

abbrev MainProgram := Program MainOp MainOp.Answer (Except MainError Unit)

abbrev Main (α : Type) := ExceptT MainError (Program MainOp MainOp.Answer) α

def mainOp (o : MainOp) : Main o.Answer := ExceptT.lift (Program.perform o)

/-- `?`, or `expect` -/
def orElse (ok : Bool) (e : MainError) : Main Unit := if ok then pure () else throw e

/-- `run_migrations` in a process: a statement that is lost ends the call like
one that fails. -/
def migrate : MigrationCall → MainProgram
  | .ret r => .ret (r.mapError .migration)
  | .op o k => .op (.migration o) fun
      | some r => migrate (k r)
      | none => .ret (.error .sqlx)

/-- `CacheLayer::new`, with or without Redis. -/
def CacheLayer.new (redis : Bool) : CacheLayer := ⟨redis, true, fun _ => rfl⟩

/-- The updater is started where a URL is configured. -/
def startUpdater (config : AppConfig) : Main Unit :=
  match config.apolloConfigUrl.filter fun s => s ≠ "" with
  | some url => do
      orElse (← mainOp (.buildClient config.apolloTimeoutSecs)) (.panicked "reqwest client")
      mainOp (.spawnUpdater ⟨url, config.apolloPollIntervalSecs, config.apolloTimeoutSecs⟩)
  | none => pure ()

def main (parseAddr : String → Option SocketAddr) (env : EnvVars) : Main Unit := do
  let config ← (AppConfig.fromEnv parseAddr env).elim (throw .config) pure
  orElse (← mainOp (.createPool config.databaseUrl)) .sqlx
  ExceptT.mk (migrate runMigrations.run)
  let redis ← mainOp (.connectRedis config.redisUrl)
  let rabbitmq ← mainOp (.connectRabbitmq config.amqpUrl)
  orElse (← mainOp .installRecorder) (.panicked "failed to install Prometheus recorder")
  let state : AppState := ⟨.new redis, rabbitmq⟩
  startUpdater config
  mainOp (.spawnGrpc config.grpcAddr)
  orElse (← mainOp (.bindHttp config.listenAddr)) .io
  mainOp (.serve state)
  mainOp .served
  mainOp .stopGrpc
  mainOp .joinGrpc
  mainOp .dropConnection

/-! ### A process -/

/-- What a process finds where it is started. -/
structure Site where
  env : EnvVars
  redis : Bool
  rabbitmq : Bool

/-- The state of the handlers of a process. -/
def Site.replica (parseAddr : String → Option SocketAddr) (h : Site) : Replica where
  state := ⟨.new h.redis, h.rabbitmq⟩
  config := (AppConfig.fromEnv parseAddr h.env).getD .default

inductive HttpServer
  | closed
  | listening
  | accepting
  /-- A signal has come. -/
  | draining
  | drained
  deriving DecidableEq, Repr

inductive GrpcServer
  | absent
  | binding
  | serving
  | finished
  deriving DecidableEq, Repr

inductive ServiceMain
  | down
  | running (rest : MainProgram)
  /-- `none` if it has been killed. -/
  | ended (result : Option (Except MainError Unit))

structure ServiceProcess where
  main : ServiceMain := .down
  http : HttpServer := .closed
  grpc : GrpcServer := .absent
  /-- The gRPC server has been told to shut down. -/
  told : Bool := false
  /-- The connection to RabbitMQ is held. -/
  connection : Bool := false
  updater : Bool := false
  /-- The callbacks that are being served, by number. -/
  calls : List (ℕ × Rpc) := []

/-! ### The machine -/

structure Deployment where
  jwt : Jwt
  uuid : UuidParser
  parseAddr : String → Option SocketAddr
  protocol : TextProtocol
  sites : ℕ → Site

structure Fleet where
  /-- The schema of the database. -/
  db : Schema
  gateway : Gateway
  services : ℕ → ServiceProcess
  /-- The number of the next callback. -/
  accepted : ℕ

/-- How an operation of `main` turns out. -/
structure MainEnv where
  ok : Bool := true
  fault : Fault := .none
  now : Timestamp := 0

inductive FleetEvent
  | start (i : ℕ)
  | main (i : ℕ) (env : MainEnv)
  /-- SIGINT or SIGTERM -/
  | signal (i : ℕ)
  | kill (i : ℕ)
  | http (e : GatewayEvent)
  | grpcBound (i : ℕ) (ok : Bool)
  | call (i : ℕ) (rpc : Rpc)
  | execute (i k : ℕ) (oracle : Oracle) (env : Env)
  /-- The worker has gone. -/
  | forget (i k : ℕ)
  | grpcReturned (i : ℕ)

inductive FleetObs
  | shown (o : GatewayObs)
  /-- The request has been given up by its client, or by the timeout layer. -/
  | left (n : ℕ)
  | executed (i k : ℕ)
  | forgotten (i k : ℕ)

namespace Fleet

variable (s : Fleet)

def modify (i : ℕ) (f : ServiceProcess → ServiceProcess) : Fleet :=
  { s with services := Function.update s.services i (f (s.services i)) }

/-- Whether what happens to the gateway can happen. -/
def takes : GatewayEvent → Bool
  | .login i _ _ => (s.services i).http = .accepting
  | .arrive i _ => (s.services i).http = .accepting
  | .inside (.rpc ..) => false
  | .inside (.configUpdate i _) => (s.services i).updater
  | _ => true

/-- Requests that are given up while they are on their way. -/
def leaves : GatewayEvent → List FleetObs
  | .abandon n => if (s.gateway.visits n).isSome then [.left n] else []
  | _ => []

section Step

variable (d : Deployment)

/-- The end of a process. -/
def exit (i : ℕ) (result : Option (Except MainError Unit)) : Fleet :=
  { s with
    gateway := (BackupService.gateway d.jwt d.uuid).run s.gateway
      ((s.gateway.visitsOf i).map GatewayEvent.abandon)
    services := Function.update s.services i { main := .ended result } }

/-- An operation of `main`; `none` if it has to wait. -/
def perform (i : ℕ) (env : MainEnv) : (o : MainOp) → Option (o.Answer × Fleet)
  | .createPool _ => some (env.ok, s)
  | .migration o =>
      let (r, db) := o.exec d.protocol env.now s.db
      match env.fault with
      | .none => some (some r, { s with db })
      | .before => some (none, s)
      | .after => some (none, { s with db })
  | .connectRedis _ => some ((d.sites i).redis, s)
  | .connectRabbitmq _ => some ((d.sites i).rabbitmq,
      s.modify i fun v => { v with connection := (d.sites i).rabbitmq })
  | .installRecorder => some (env.ok, s)
  | .buildClient _ => some (env.ok, s)
  | .spawnUpdater _ => some ((), s.modify i fun v => { v with updater := true })
  | .spawnGrpc _ => some ((), s.modify i fun v => { v with grpc := .binding })
  | .bindHttp _ =>
      if env.ok then some (true, s.modify i fun v => { v with http := .listening })
      else some (false, s)
  | .serve _ => some ((), s.modify i fun v => { v with http := .accepting })
  | .served =>
      if (s.services i).http = .draining ∧ s.gateway.visitsOf i = [] then
        some ((), s.modify i fun v => { v with http := .drained })
      else none
  | .stopGrpc => some ((), s.modify i fun v => { v with told := true })
  | .joinGrpc => if (s.services i).grpc = .finished then some ((), s) else none
  | .dropConnection => some ((), s.modify i fun v => { v with connection := false })

def stepMain (i : ℕ) (env : MainEnv) : Fleet :=
  match (s.services i).main with
  | .running (.ret result) => s.exit d i (some result)
  | .running (.op o k) =>
      match s.perform d i env o with
      | some (a, s') => s'.modify i fun v => { v with main := .running (k a) }
      | none => s
  | _ => s

/-- Before the process listens for signals, a signal ends it. -/
def signal (i : ℕ) : Fleet :=
  match (s.services i).main, (s.services i).http with
  | .running _, .closed => s.exit d i none
  | .running _, .listening => s.exit d i none
  | .running _, .accepting => s.modify i fun v => { v with http := .draining }
  | _, _ => s

/-- A callback is executed as a whole. -/
def execute (i k : ℕ) (oracle : Oracle) (env : Env) : Fleet × List FleetObs :=
  match (s.services i).calls.find? fun c => c.1 = k with
  | some (_, rpc) =>
      let (gateway, obs) := s.gateway.inside d.uuid (.rpc rpc oracle env)
      ({ s with gateway }.modify i fun v => { v with calls := v.calls.filter fun c => c.1 ≠ k },
        .executed i k :: obs.map .shown)
  | none => (s, [])

def forget (i k : ℕ) : Fleet × List FleetObs :=
  match (s.services i).calls.find? fun c => c.1 = k with
  | some _ =>
      (s.modify i fun v => { v with calls := v.calls.filter fun c => c.1 ≠ k }, [.forgotten i k])
  | none => (s, [])

end Step

end Fleet

def fleet (d : Deployment) : Machine Fleet FleetEvent FleetObs where
  step s
    | .start i =>
        match (s.services i).main with
        | .down => (s.modify i fun v =>
            { v with main := .running (main d.parseAddr (d.sites i).env).run }, [])
        | _ => (s, [])
    | .main i env => (s.stepMain d i env, [])
    | .signal i => (s.signal d i, [])
    | .kill i =>
        match (s.services i).main with
        | .running _ => (s.exit d i none, [])
        | _ => (s, [])
    | .http e =>
        if s.takes e then
          let (gateway, obs) := (gateway d.jwt d.uuid).step s.gateway e
          ({ s with gateway }, obs.map .shown ++ s.leaves e)
        else (s, [])
    | .grpcBound i ok =>
        if (s.services i).grpc = .binding then
          (s.modify i fun v => { v with grpc := if ok then .serving else .finished }, [])
        else (s, [])
    | .call i rpc =>
        if (s.services i).grpc = .serving ∧ (s.services i).told = false then
          ({ s with accepted := s.accepted + 1 }.modify i fun v =>
            { v with calls := v.calls ++ [(s.accepted, rpc)] }, [])
        else (s, [])
    | .execute i k oracle env => s.execute d i k oracle env
    | .forget i k => s.forget i k
    | .grpcReturned i =>
        let v := s.services i
        if v.grpc = .serving ∧ v.told = true ∧ v.calls = [] then
          (s.modify i fun v => { v with grpc := .finished }, [])
        else (s, [])

/-- No process has been started. -/
def Fleet.initial (d : Deployment) (db : Schema) (table : Table) : Fleet where
  db := db
  gateway := .initial table fun i => (d.sites i).replica d.parseAddr
  services _ := {}
  accepted := 0

/-! ### What a step can do -/

section Effect

variable {d : Deployment} {s s' : Fleet} {i j : ℕ}

namespace Fleet

theorem modify_self (f : ServiceProcess → ServiceProcess) :
    (s.modify i f).services i = f (s.services i) := Function.update_self ..

theorem modify_of_ne {j : ℕ} (h : j ≠ i) (f : ServiceProcess → ServiceProcess) :
    (s.modify i f).services j = s.services j := Function.update_of_ne h ..

theorem modify_modify (f f' : ServiceProcess → ServiceProcess) :
    (s.modify i f).modify i f' = s.modify i fun v => f' (f v) := by
  simp only [modify, Function.update_self, Function.update_idem]

theorem exit_self (result : Option (Except MainError Unit)) :
    (s.exit d i result).services i = { main := .ended result } := Function.update_self ..

theorem exit_of_ne (hj : j ≠ i) (result : Option (Except MainError Unit)) :
    (s.exit d i result).services j = s.services j := Function.update_of_ne hj ..

/-- Requests and callbacks are as they were, and who has ended stays so. -/
structure Quiet (s s' : Fleet) : Prop where
  gateway : s'.gateway = s.gateway
  calls : ∀ i, (s'.services i).calls = (s.services i).calls
  ended : ∀ {i result}, (s.services i).main = .ended result → (s'.services i).main = .ended result

theorem Quiet.refl (s : Fleet) : s.Quiet s := ⟨rfl, fun _ => rfl, id⟩

/-- One process goes on. -/
theorem Quiet.modify (h : s.Quiet s') {f : ServiceProcess → ServiceProcess}
    (hcalls : ∀ v, (f v).calls = v.calls)
    (hmain : (∀ v, (f v).main = v.main) ∨ ∀ result, (s.services j).main ≠ .ended result) :
    s.Quiet (s'.modify j f) where
  gateway := h.gateway
  calls i := by
    by_cases hi : i = j
    · rw [hi, modify_self, hcalls, h.calls]
    · rw [modify_of_ne hi, h.calls]
  ended {i result} hended := by
    by_cases hi : i = j
    · subst hi
      rw [modify_self, hmain.resolve_right fun hno => hno result hended]
      exact h.ended hended
    · rw [modify_of_ne hi]
      exact h.ended hended

/-- A process may change in everything else. -/
theorem quiet_modify {f : ServiceProcess → ServiceProcess} (hcalls : ∀ v, (f v).calls = v.calls)
    (hmain : ∀ v, (f v).main = v.main) : s.Quiet (s.modify i f) :=
  (Quiet.refl s).modify hcalls (.inl hmain)

theorem perform_quiet {env : MainEnv} {o : MainOp} {a : o.Answer}
    (h : s.perform d i env o = some (a, s')) : s.Quiet s' := by
  cases o with
  | createPool | connectRedis | installRecorder | buildClient =>
      cases h
      exact .refl s
  | connectRabbitmq | spawnUpdater | spawnGrpc | serve | stopGrpc | dropConnection =>
      cases h
      exact quiet_modify (by exact fun _ => rfl) (by exact fun _ => rfl)
  | migration o =>
      simp only [perform] at h
      split at h <;> cases h
      · exact ⟨rfl, fun _ => rfl, id⟩
      · exact .refl s
      · exact ⟨rfl, fun _ => rfl, id⟩
  | bindHttp addr =>
      simp only [perform] at h
      split at h <;> cases h
      · exact quiet_modify (by exact fun _ => rfl) (by exact fun _ => rfl)
      · exact .refl s
  | served =>
      simp only [perform] at h
      split at h <;> cases h
      exact quiet_modify (by exact fun _ => rfl) (by exact fun _ => rfl)
  | joinGrpc =>
      simp only [perform] at h
      split at h <;> cases h
      exact .refl s

/-- What can come of a step, as far as requests, callbacks and the ends of
processes are concerned. -/
inductive Effect (d : Deployment) (s : Fleet) : Fleet × List FleetObs → Prop
  | quiet {s' : Fleet} (h : s.Quiet s') : Effect d s (s', [])
  /-- To return `Ok` is the end of `main`. -/
  | exit {i : ℕ} {rest : MainProgram} {result : Option (Except MainError Unit)}
      (hmain : (s.services i).main = .running rest)
      (hresult : result = some (.ok ()) → rest = .ret (.ok ())) :
      Effect d s (s.exit d i result, [])
  | http {e : GatewayEvent} (htakes : s.takes e = true) : Effect d s
      ({ s with gateway := ((BackupService.gateway d.jwt d.uuid).step s.gateway e).1 },
        ((BackupService.gateway d.jwt d.uuid).step s.gateway e).2.map .shown ++ s.leaves e)
  | call {i : ℕ} {rpc : Rpc} (hserving : (s.services i).grpc = .serving ∧ (s.services i).told = false) :
      Effect d s ({ s with accepted := s.accepted + 1 }.modify i fun v =>
        { v with calls := v.calls ++ [(s.accepted, rpc)] }, [])
  | execute {i k : ℕ} {rpc : Rpc} {oracle : Oracle} {env : Env}
      (hcall : (k, rpc) ∈ (s.services i).calls) : Effect d s
      ({ s with gateway := (s.gateway.inside d.uuid (.rpc rpc oracle env)).1 }.modify i fun v =>
          { v with calls := v.calls.filter fun c => c.1 ≠ k },
        .executed i k :: (s.gateway.inside d.uuid (.rpc rpc oracle env)).2.map .shown)
  | forget {i k : ℕ} {rpc : Rpc} (hcall : (k, rpc) ∈ (s.services i).calls) : Effect d s
      (s.modify i fun v => { v with calls := v.calls.filter fun c => c.1 ≠ k }, [.forgotten i k])

variable (d) in
theorem effect_stepMain (s : Fleet) (i : ℕ) (env : MainEnv) : Effect d s (s.stepMain d i env, []) := by
  unfold stepMain
  split
  · next hmain => exact .exit hmain fun hresult => by rw [Option.some.inj hresult]
  · next hmain =>
      split
      · next hperform =>
          refine .quiet ((perform_quiet hperform).modify (by exact fun _ => rfl) (.inr fun _ hended => ?_))
          rw [hmain] at hended
          cases hended
      · exact .quiet (.refl s)
  · exact .quiet (.refl s)

variable (d) in
theorem effect_signal (s : Fleet) (i : ℕ) : Effect d s (s.signal d i, []) := by
  unfold signal
  split
  · next hmain _ => exact .exit hmain fun hresult => by cases hresult
  · next hmain _ => exact .exit hmain fun hresult => by cases hresult
  · exact .quiet (quiet_modify (by exact fun _ => rfl) (by exact fun _ => rfl))
  · exact .quiet (.refl s)

theorem mem_of_find {calls : List (ℕ × Rpc)} {k : ℕ} {c : ℕ × Rpc}
    (h : calls.find? (fun c => c.1 = k) = some c) : (k, c.2) ∈ calls := by
  have hk : c.1 = k := by simpa using List.find?_some h
  exact hk ▸ List.mem_of_find?_eq_some h

variable (d) in
/-- **Every step has one of these effects.** -/
theorem effect_step (s : Fleet) (e : FleetEvent) : Effect d s ((fleet d).step s e) := by
  cases e with
  | start i =>
      simp only [fleet]
      split
      · next hmain =>
          refine .quiet ((Quiet.refl s).modify (by exact fun _ => rfl) (.inr fun _ hended => ?_))
          rw [hmain] at hended
          cases hended
      · exact .quiet (.refl s)
  | main i env => exact effect_stepMain d s i env
  | signal i => exact effect_signal d s i
  | kill i =>
      simp only [fleet]
      split
      · next hmain => exact .exit hmain fun hresult => by cases hresult
      · exact .quiet (.refl s)
  | http e =>
      simp only [fleet]
      split
      · next htakes => exact .http htakes
      · exact .quiet (.refl s)
  | grpcBound i ok =>
      simp only [fleet]
      split
      · exact .quiet (quiet_modify (by exact fun _ => rfl) (by exact fun _ => rfl))
      · exact .quiet (.refl s)
  | call i rpc =>
      simp only [fleet]
      split
      · next hserving => exact .call hserving
      · exact .quiet (.refl s)
  | execute i k oracle env =>
      show Effect d s (s.execute d i k oracle env)
      unfold execute
      split
      · next hfind => exact .execute (mem_of_find hfind)
      · exact .quiet (.refl s)
  | forget i k =>
      show Effect d s (s.forget i k)
      unfold forget
      split
      · next hfind => exact .forget (mem_of_find hfind)
      · exact .quiet (.refl s)
  | grpcReturned i =>
      simp only [fleet]
      split
      · exact .quiet (quiet_modify (by exact fun _ => rfl) (by exact fun _ => rfl))
      · exact .quiet (.refl s)

end Fleet

end Effect

end BackupService
