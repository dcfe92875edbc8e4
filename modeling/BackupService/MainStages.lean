import BackupService.Fleet

/-!
How far a process has come, and what holds from there on.

`MainStage` is what `main` has got done, and `staging` the order in which it
does it. The two servers are only started where the migrations have been run,
and stopped in the opposite order; what is left of a `main` in the middle of a
run still keeps to that (`main_staged`), so the stage tells what the servers
of a process are doing (`ServiceProcess.At`) and that version 1 is recorded
(`Schema.Reached`).
-/

namespace BackupService

open Lib

/-! ### Stages of `main` -/

inductive MainStage
  | unmigrated
  /-- The file of migration 001 has been executed. -/
  | installed
  | migrated
  /-- The connection to RabbitMQ is there, or has been given up. -/
  | linked
  | spawned
  | listening
  | accepting
  | drained
  | told
  | joined
  | released
  deriving DecidableEq, Repr

namespace MainStage

/-- Version 1 is recorded. -/
def Migrated : MainStage → Prop
  | unmigrated => False
  | installed => False
  | _ => True

/-- The HTTP server has not been started. -/
def Starting : MainStage → Prop
  | unmigrated => True
  | installed => True
  | migrated => True
  | linked => True
  | spawned => True
  | _ => False

/-- What an answer says about the stage. -/
def next : MainStage → (o : MainOp) → o.Answer → MainStage
  | unmigrated, .migration .selectApplied, some (.ok applied) =>
      if 1 ∈ (applied : List ℤ) then migrated else unmigrated
  | unmigrated, .migration (.execute _), some (.ok _) => installed
  | installed, .migration (.insertVersion _ _), some (.ok _) => migrated
  | migrated, .connectRabbitmq _, _ => linked
  | linked, .spawnGrpc _, _ => spawned
  | spawned, .bindHttp _, true => listening
  | listening, .serve _, _ => accepting
  | accepting, .served, _ => drained
  | drained, .stopGrpc, _ => told
  | told, .joinGrpc, _ => joined
  | joined, .dropConnection, _ => released
  | g, _, _ => g

end MainStage

section Staging

variable (parseAddr : String → Option SocketAddr) (site : Site)

/-- The stage at which an operation is performed. -/
def MainOp.DueAt : MainOp → MainStage → Prop
  | createPool _, g => g = .unmigrated
  | migration .createVersions, g => g = .unmigrated
  | migration .selectApplied, g => g = .unmigrated
  | migration (.execute text), g => g = .unmigrated ∧ text = migration001
  | migration (.insertVersion version _), g => g = .installed ∧ version = 1
  | connectRedis _, g => g = .migrated
  | connectRabbitmq _, g => g = .migrated
  | installRecorder, g => g = .linked
  | buildClient _, g => g = .linked
  | spawnUpdater _, g => g = .linked
  | spawnGrpc _, g => g = .linked
  | bindHttp _, g => g = .spawned
  | serve state, g => g = .listening ∧ state = (site.replica parseAddr).state
  | served, g => g = .accepting
  | stopGrpc, g => g = .drained
  | joinGrpc, g => g = .told
  | dropConnection, g => g = .joined

/-- The order of `main`, which does nothing without a configuration. -/
def staging : Program.Protocol MainOp MainOp.Answer MainStage where
  allow g o := (AppConfig.fromEnv parseAddr site.env).isSome ∧ o.DueAt parseAddr site g
  rely _
    | .connectRedis _, r => r = site.redis
    | .connectRabbitmq _, r => r = site.rabbitmq
    | _, _ => True
  next := MainStage.next

/-- A `main` that succeeds has done everything, and one that fails has not
started the HTTP server. -/
def Staged (g : MainStage) : Except MainError Unit → Prop
  | .ok () => g = .released
  | .error _ => g.Starting

variable {parseAddr site} {g : MainStage} {α : Type}

open Program

theorem obeys_mainOp_bind {o : MainOp} {f : o.Answer → Main Unit}
    (hallow : (staging parseAddr site).allow g o)
    (hf : ∀ r, (staging parseAddr site).rely g o r →
      Obeys (staging parseAddr site) Staged (g.next o r) (f r).run) :
    Obeys (staging parseAddr site) Staged g (mainOp o >>= f).run :=
  ⟨hallow, hf⟩

theorem obeys_orElse_bind {ok : Bool} {e : MainError} {f : Unit → Main Unit} (hg : g.Starting)
    (hf : ok = true → Obeys (staging parseAddr site) Staged g (f ()).run) :
    Obeys (staging parseAddr site) Staged g (orElse ok e >>= f).run := by
  cases ok with
  | true => exact hf rfl
  | false => exact hg

theorem migrate_step (o : MigrationOp) (f : o.Result → MigrationCall) :
    migrate (MigrationCall.step o f) = .op (.migration o) fun
      | some (.ok a) => migrate (f a)
      | some (.error e) => .ret (.error (.migration e))
      | none => .ret (.error .sqlx) := by
  rw [MigrationCall.step, migrate]
  refine congrArg (Program.op _) (funext fun r => ?_)
  rcases r with _ | (e | a) <;> rfl

/-- A part of `main` that comes before the HTTP server gets to `g'`, or fails. -/
def Gets (g' g : MainStage) : Except MainError Unit → Prop
  | .ok () => g = g'
  | .error _ => g.Starting

/-- One statement of the migrations. -/
theorem obeys_migrate_step {o : MigrationOp} {f : o.Result → MigrationCall}
    (hallow : (staging parseAddr site).allow g (.migration o)) (hg : g.Starting)
    (hfail : ∀ e, g.next (.migration o) (some (.error e)) = g)
    (hlost : g.next (.migration o) none = g)
    (hf : ∀ a, Obeys (staging parseAddr site) (Gets .migrated)
      (g.next (.migration o) (some (.ok a))) (migrate (f a))) :
    Obeys (staging parseAddr site) (Gets .migrated) g (migrate (MigrationCall.step o f)) := by
  rw [migrate_step]
  refine ⟨hallow, fun r _ => ?_⟩
  rcases r with _ | (e | a)
  · show Gets .migrated (g.next (.migration o) none) _
    rw [hlost]
    exact hg
  · show Gets .migrated (g.next (.migration o) (some (.error e))) _
    rw [hfail]
    exact hg
  · exact hf a

theorem obeys_migrate (hconfig : (AppConfig.fromEnv parseAddr site.env).isSome) :
    Obeys (staging parseAddr site) (Gets .migrated) .unmigrated (migrate runMigrations.run) := by
  rw [runMigrations_run]
  refine obeys_migrate_step ⟨hconfig, rfl⟩ trivial (fun _ => rfl) rfl fun _ => ?_
  refine obeys_migrate_step ⟨hconfig, rfl⟩ trivial (fun _ => rfl) rfl fun applied => ?_
  by_cases happlied : (1 : ℤ) ∈ (applied : List ℤ)
  · show Obeys _ _ (if 1 ∈ (applied : List ℤ) then _ else _) (migrate (if _ then _ else _))
    rw [if_pos happlied, if_neg (not_not.mpr happlied)]
    exact rfl
  · show Obeys _ _ (if 1 ∈ (applied : List ℤ) then _ else _) (migrate (if _ then _ else _))
    rw [if_neg happlied, if_pos happlied]
    refine obeys_migrate_step ⟨hconfig, rfl, rfl⟩ trivial (fun _ => rfl) rfl fun _ => ?_
    refine obeys_migrate_step ⟨hconfig, rfl, rfl⟩ trivial (fun _ => rfl) rfl fun _ => ?_
    exact rfl

/-- What comes after such a part. -/
theorem obeys_part_bind {g' : MainStage} {p : MainProgram} {f : Unit → Main Unit}
    (hp : Obeys (staging parseAddr site) (Gets g') g p)
    (hf : Obeys (staging parseAddr site) Staged g' (f ()).run) :
    Obeys (staging parseAddr site) Staged g ((ExceptT.mk p : Main Unit) >>= f).run := by
  show Obeys _ _ g (p >>= ExceptT.bindCont f)
  refine obeys_bind.mpr (hp.mono fun g r hr => ?_)
  cases r with
  | ok _ =>
      obtain rfl : g = g' := hr
      exact hf
  | error e => exact hr

theorem obeys_startUpdater {config : AppConfig}
    (hconfig : (AppConfig.fromEnv parseAddr site.env).isSome) :
    Obeys (staging parseAddr site) (Gets .linked) .linked (startUpdater config).run := by
  unfold startUpdater
  split
  · refine ⟨⟨hconfig, rfl⟩, fun ok _ => ?_⟩
    cases ok with
    | false => exact trivial
    | true => exact ⟨⟨hconfig, rfl⟩, fun _ _ => rfl⟩
  · rfl

variable (parseAddr site) in
/-- **`main` keeps to the order.** -/
theorem main_staged :
    Obeys (staging parseAddr site) Staged .unmigrated (main parseAddr site.env).run := by
  unfold main
  cases hconfig : AppConfig.fromEnv parseAddr site.env with
  | none => trivial
  | some config =>
      have hsome : (AppConfig.fromEnv parseAddr site.env).isSome := by rw [hconfig]; rfl
      refine obeys_mainOp_bind ⟨hsome, rfl⟩ fun ok _ => ?_
      refine obeys_orElse_bind trivial fun _ => ?_
      refine obeys_part_bind (obeys_migrate hsome) ?_
      refine obeys_mainOp_bind ⟨hsome, rfl⟩ fun redis hredis => ?_
      refine obeys_mainOp_bind ⟨hsome, rfl⟩ fun rabbitmq hrabbitmq => ?_
      refine obeys_mainOp_bind ⟨hsome, rfl⟩ fun ok _ => ?_
      refine obeys_orElse_bind trivial fun _ => ?_
      refine obeys_part_bind (obeys_startUpdater hsome) ?_
      refine obeys_mainOp_bind ⟨hsome, rfl⟩ fun _ _ => ?_
      refine obeys_mainOp_bind ⟨hsome, rfl⟩ fun bound _ => ?_
      cases bound with
      | false => exact trivial
      | true =>
          have hstate : (⟨.new redis, rabbitmq⟩ : AppState) = (site.replica parseAddr).state := by
            obtain rfl : redis = site.redis := hredis
            obtain rfl : rabbitmq = site.rabbitmq := hrabbitmq
            rfl
          refine obeys_mainOp_bind ⟨hsome, rfl, hstate⟩ fun _ _ => ?_
          refine obeys_mainOp_bind ⟨hsome, rfl⟩ fun _ _ => ?_
          refine obeys_mainOp_bind ⟨hsome, rfl⟩ fun _ _ => ?_
          refine obeys_mainOp_bind ⟨hsome, rfl⟩ fun _ _ => ?_
          exact ⟨⟨hsome, rfl⟩, fun _ _ => rfl⟩

end Staging

/-! ### What the migrations do to the schema -/

section Schema

variable {protocol : TextProtocol} {now : Timestamp} {db db' : Schema}

theorem exec_create {o : SchemaObject} (h : (Command.create o).exec db = .ok db') :
    db'.versions = db.versions ∧ db'.objects o = true ∧
      ∀ o', db.objects o' = true → db'.objects o' = true := by
  simp only [Command.exec] at h
  split at h
  · next ho =>
      obtain rfl := Except.ok.inj h
      exact ⟨rfl, ho, fun _ ho' => ho'⟩
  · split at h
    · cases h
    · obtain rfl := Except.ok.inj h
      refine ⟨rfl, Function.update_self .., fun o' ho' => ?_⟩
      by_cases heq : o' = o
      · rw [heq]
        exact Function.update_self ..
      · exact (Function.update_of_ne heq ..).trans ho'

/-- A text that is executed creates what it names, and drops nothing. -/
theorem foldlM_create {text : List Command}
    (h : text.foldlM (fun db c => Command.exec c db) db = .ok db') :
    db'.versions = db.versions ∧ (∀ o, .create o ∈ text → db'.objects o = true) ∧
      ∀ o, db.objects o = true → db'.objects o = true := by
  induction text generalizing db with
  | nil =>
      obtain rfl := Except.ok.inj h
      exact ⟨rfl, nofun, fun _ ho => ho⟩
  | cons c text ih =>
      obtain ⟨o⟩ := c
      rw [List.foldlM_cons] at h
      cases hfirst : (Command.create o).exec db with
      | error e => rw [hfirst] at h; cases h
      | ok db₁ =>
          rw [hfirst] at h
          obtain ⟨hversions, hcreated, hkept⟩ := exec_create hfirst
          obtain ⟨hversions', hcreated', hkept'⟩ := ih h
          refine ⟨hversions'.trans hversions, fun o' ho' => ?_, fun o' ho' => hkept' o' (hkept o' ho')⟩
          rcases List.mem_cons.mp ho' with heq | hrest
          · obtain rfl := Command.create.inj heq
            exact hkept' o' hcreated
          · exact hcreated' o' hrest

theorem execText_ok {text : List Command} (h : execText protocol text db = .ok db') :
    (1 < text.length → protocol = .atomic) ∧ db'.versions = db.versions ∧
      (∀ o, .create o ∈ text → db'.objects o = true) ∧
      ∀ o, db.objects o = true → db'.objects o = true := by
  unfold execText at h
  split at h
  · cases h
  · next hprotocol =>
      refine ⟨fun hlength => ?_, foldlM_create h⟩
      cases protocol with
      | extended => exact absurd ⟨rfl, hlength⟩ hprotocol
      | atomic => rfl

theorem insert_ok {t t' : VersionTable} {row : MigrationRow} (h : t.insert row = .ok t') :
    t'.rows = t.rows ++ [row] ∧ ∀ r ∈ t.rows, r.version ≠ row.version := by
  unfold VersionTable.insert at h
  split at h
  · cases h
  · next hfree =>
      obtain rfl := Except.ok.inj h
      exact ⟨rfl, fun r hr heq => hfree (heq ▸ List.mem_map_of_mem hr)⟩

/-- Nothing is dropped, and no row is deleted. -/
structure Schema.Grows (db db' : Schema) : Prop where
  rows : ∀ t, db.versions = some t → ∃ t', db'.versions = some t' ∧ ∀ row ∈ t.rows, row ∈ t'.rows
  objects : ∀ o, db.objects o = true → db'.objects o = true

theorem Schema.Grows.refl (db : Schema) : db.Grows db :=
  ⟨fun t ht => ⟨t, ht, fun _ h => h⟩, fun _ h => h⟩

theorem Schema.Grows.recorded (h : db.Grows db') (hdb : db.Recorded) : db'.Recorded := by
  obtain ⟨t, row, ht, hrow, hversion⟩ := hdb
  obtain ⟨t', ht', hrows⟩ := h.rows t ht
  exact ⟨t', row, ht', hrows row hrow, hversion⟩

theorem Schema.Grows.installed (h : db.Grows db') (hdb : db.Installed) : db'.Installed :=
  fun o ho => h.objects o (hdb o ho)

theorem Schema.Grows.unrecorded (h : db.Grows db') (hdb : db'.Unrecorded) : db.Unrecorded := by
  intro t ht row hrow
  obtain ⟨t', ht', hrows⟩ := h.rows t ht
  exact hdb t' ht' row (hrows row hrow)

variable (protocol now db) in
theorem exec_grows (o : MigrationOp) : db.Grows (o.exec protocol now db).2 := by
  cases o with
  | createVersions =>
      refine ⟨fun t ht => ⟨t, ?_, fun _ h => h⟩, fun _ h => h⟩
      simp [MigrationOp.exec, ht]
  | selectApplied =>
      simp only [MigrationOp.exec]
      split <;> exact .refl db
  | execute text =>
      simp only [MigrationOp.exec]
      split
      · next hexec =>
          obtain ⟨-, hversions, -, hkept⟩ := execText_ok hexec
          exact ⟨fun t ht => ⟨t, hversions.trans ht, fun _ h => h⟩, hkept⟩
      · exact .refl db
  | insertVersion version description =>
      simp only [MigrationOp.exec]
      split
      · exact .refl db
      · next t ht =>
          split
          · next t' ht' =>
              refine ⟨fun t₁ ht₁ => ⟨t', rfl, fun row hrow => ?_⟩, fun _ h => h⟩
              obtain rfl := Option.some.inj (ht.symm.trans ht₁)
              rw [(insert_ok ht').1]
              exact List.mem_append_left _ hrow
          · exact .refl db

/-- Only one statement records version 1, and only where it has no row. -/
theorem recorded_of_exec {o : MigrationOp} (h : (o.exec protocol now db).2.Recorded) :
    db.Recorded ∨ db.Unrecorded ∧ ∃ description, o = .insertVersion 1 description := by
  cases o with
  | createVersions =>
      obtain ⟨t, row, ht, hrow, hversion⟩ := h
      cases hdb : db.versions with
      | none =>
          simp only [MigrationOp.exec, hdb, Option.getD_none, Option.some.injEq] at ht
          rw [← ht] at hrow
          cases hrow
      | some t₀ =>
          simp only [MigrationOp.exec, hdb, Option.getD_some, Option.some.injEq] at ht
          exact .inl ⟨t₀, row, hdb, ht ▸ hrow, hversion⟩
  | selectApplied =>
      simp only [MigrationOp.exec] at h
      split at h <;> exact .inl h
  | execute text =>
      simp only [MigrationOp.exec] at h
      split at h
      · next hexec =>
          obtain ⟨t, row, ht, hrow⟩ := h
          exact .inl ⟨t, row, (execText_ok hexec).2.1.symm.trans ht, hrow⟩
      · exact .inl h
  | insertVersion version description =>
      simp only [MigrationOp.exec] at h
      split at h
      · exact .inl h
      · next t ht =>
          split at h
          · next t' ht' =>
              obtain ⟨hrows, hfree⟩ := insert_ok ht'
              obtain ⟨t₁, row, ht₁, hrow, hversion, hsuccess⟩ := h
              obtain rfl := Option.some.inj ht₁
              rw [hrows] at hrow
              rcases List.mem_append.mp hrow with hrow | hrow
              · exact .inl ⟨t, row, ht, hrow, hversion, hsuccess⟩
              · obtain rfl := List.mem_singleton.mp hrow
                obtain rfl : version = 1 := hversion
                refine .inr ⟨fun t₂ ht₂ row hrow => ?_, description, rfl⟩
                obtain rfl := Option.some.inj (ht.symm.trans ht₂)
                exact hfree row hrow
          · exact .inl h

theorem exec_execute_ok {text : List Command}
    (h : ((MigrationOp.execute text).exec protocol now db).1 = .ok ()) :
    execText protocol text db = .ok ((MigrationOp.execute text).exec protocol now db).2 := by
  simp only [MigrationOp.exec] at h ⊢
  split at h
  · next hexec => rw [hexec]
  · cases h

/-- The file creates what has to be there. -/
theorem exec_migration001_ok
    (h : ((MigrationOp.execute migration001).exec protocol now db).1 = .ok ()) :
    protocol = .atomic ∧ ((MigrationOp.execute migration001).exec protocol now db).2.Installed := by
  obtain ⟨hprotocol, -, hcreated, -⟩ := execText_ok (exec_execute_ok h)
  refine ⟨hprotocol (by decide), fun o ho => hcreated o ?_⟩
  cases o with
  | pgcrypto => exact absurd rfl ho
  | backups | idxBackupsTenant | idxBackupsStatus | idxBackupsCreated | idxBackupsTenantStatus =>
      simp [migration001]

theorem exec_insertVersion_ok {description : String}
    (h : ((MigrationOp.insertVersion 1 description).exec protocol now db).1 = .ok ()) :
    ((MigrationOp.insertVersion 1 description).exec protocol now db).2.Recorded := by
  simp only [MigrationOp.exec] at h ⊢
  split at h
  · cases h
  · split at h
    · next t' ht' =>
        refine ⟨t', ⟨1, description, now, true⟩, rfl, ?_, rfl, rfl⟩
        rw [(insert_ok ht').1]
        exact List.mem_append_right _ (List.mem_singleton_self _)
    · cases h

theorem exec_selectApplied_ok {applied : List ℤ}
    (h : (MigrationOp.selectApplied.exec protocol now db).1 = .ok applied) (happlied : 1 ∈ applied) :
    (MigrationOp.selectApplied.exec protocol now db).2.Recorded := by
  simp only [MigrationOp.exec] at h ⊢
  split at h
  · cases h
  · next t ht =>
      obtain rfl := Except.ok.inj h
      obtain ⟨row, hrow, hversion⟩ := List.mem_map.mp happlied
      obtain ⟨hrow, hsuccess⟩ := List.mem_filter.mp hrow
      exact ⟨t, row, ht, hrow, hversion, hsuccess⟩

end Schema

/-! ### What the stage tells -/

/-- What any number of processes can have made of the database `db₀`. -/
structure Schema.MigratedFrom (db : Schema) (protocol : TextProtocol) (db₀ : Schema) : Prop where
  unrecorded : db.Unrecorded → db₀.Unrecorded
  recorded : db.Recorded → db₀.Recorded ∨ (protocol = .atomic ∧ db₀.Unrecorded) ∧ db.Installed

/-- What a process at a stage can rely on in the database. -/
structure Schema.Reached (db : Schema) (protocol : TextProtocol) (g : MainStage) : Prop where
  installed : g = .installed → protocol = .atomic ∧ db.Installed
  recorded : g.Migrated → db.Recorded

namespace MainStage

def Http : MainStage → HttpServer → Prop
  | listening, x => x = .listening
  | accepting, x => x = .accepting ∨ x = .draining
  | drained, x => x = .drained
  | told, x => x = .drained
  | joined, x => x = .drained
  | released, x => x = .drained
  | _, x => x = .closed

def Grpc : MainStage → GrpcServer → Prop
  | unmigrated, x => x = .absent
  | installed, x => x = .absent
  | migrated, x => x = .absent
  | linked, x => x = .absent
  | joined, x => x = .finished
  | released, x => x = .finished
  | _, x => x ≠ .absent

/-- While the server is up, and not finished, the stage does not say more. -/
theorem Grpc.change {g : MainStage} {x y : GrpcServer} (h : g.Grpc x) (hx : x ≠ .absent)
    (hx' : x ≠ .finished) (hy : y ≠ .absent) : g.Grpc y := by
  cases g with
  | unmigrated | installed | migrated | linked => exact absurd h hx
  | joined | released => exact absurd h hx'
  | spawned | listening | accepting | drained | told => exact hy

def isTold : MainStage → Bool
  | told => true
  | joined => true
  | released => true
  | _ => false

/-- Whether the connection is held, where RabbitMQ is there. -/
def holds : MainStage → Bool
  | unmigrated => false
  | installed => false
  | migrated => false
  | released => false
  | _ => true

end MainStage

/-- The parts of a process at a stage of its `main`. -/
structure ServiceProcess.At (parseAddr : String → Option SocketAddr) (site : Site)
    (v : ServiceProcess) (g : MainStage) : Prop where
  configured : g ≠ .unmigrated → (AppConfig.fromEnv parseAddr site.env).isSome
  http : g.Http v.http
  grpc : g.Grpc v.grpc
  told : v.told = g.isTold
  connection : v.connection = (g.holds && site.rabbitmq)
  calls : v.calls ≠ [] → v.grpc = .serving

/-- A process is at a stage, or there is nothing of it. -/
def ServiceProcess.Sound (d : Deployment) (site : Site) (db : Schema) (v : ServiceProcess) : Prop :=
  match v.main with
  | .running rest => ∃ g, Program.Obeys (staging d.parseAddr site) Staged g rest ∧
      db.Reached d.protocol g ∧ v.At d.parseAddr site g
  | _ => v = { main := v.main }

/-- The invariant of the fleet. -/
structure Fleet.Sound (d : Deployment) (db₀ : Schema) (s : Fleet) : Prop where
  migrated : s.db.MigratedFrom d.protocol db₀
  processes : ∀ i, (s.services i).Sound d (d.sites i) s.db
  visits : ∀ n v, s.gateway.visits n = some v →
    (s.services v.replica).http = .accepting ∨ (s.services v.replica).http = .draining
  attended : s.gateway.Attended

section Sound

variable {d : Deployment} {db₀ db db' : Schema} {s s' : Fleet} {i : ℕ} {g : MainStage}
  {v : ServiceProcess} {site : Site}

theorem Schema.Reached.mono (h : db.Reached d.protocol g) (hgrows : db.Grows db') :
    db'.Reached d.protocol g where
  installed hg := (h.installed hg).imp id hgrows.installed
  recorded hg := hgrows.recorded (h.recorded hg)

theorem ServiceProcess.Sound.mono (h : v.Sound d site db) (hgrows : db.Grows db') :
    v.Sound d site db' := by
  unfold Sound at h ⊢
  split
  · next hmain =>
      rw [hmain] at h
      obtain ⟨g, hobeys, hreached, hat⟩ := h
      exact ⟨g, hobeys, hreached.mono hgrows, hat⟩
  · next hmain =>
      split at h
      · next hmain' => exact absurd hmain' (hmain _)
      · exact h

/-- Once the HTTP server is up, the migrations have been run. -/
theorem ServiceProcess.At.not_starting (h : v.At d.parseAddr site g) (hhttp : v.http ≠ .closed) :
    ¬ g.Starting := by
  intro hg
  have := h.http
  cases g with
  | unmigrated | installed | migrated | linked | spawned => exact hhttp this
  | listening | accepting | drained | told | joined | released => exact hg

theorem MainStage.migrated_of_not_starting (h : ¬ g.Starting) : g.Migrated := by
  cases g with
  | unmigrated | installed => exact h trivial
  | _ => trivial

/-- A process with a server that is up. -/
theorem ServiceProcess.Sound.running (h : v.Sound d site db)
    (hup : v.http ≠ .closed ∨ v.grpc ≠ .absent) : ∃ rest g, v.main = .running rest ∧
      Program.Obeys (staging d.parseAddr site) Staged g rest ∧ db.Reached d.protocol g ∧
      v.At d.parseAddr site g := by
  unfold Sound at h
  split at h
  · next rest hmain =>
      obtain ⟨g, h⟩ := h
      exact ⟨rest, g, hmain, h⟩
  · rw [h] at hup
    rcases hup with hup | hup <;> exact absurd rfl hup

/-- **Where a server is up, version 1 is recorded**, and there is a
configuration. -/
theorem ServiceProcess.Sound.recorded (h : v.Sound d site db)
    (hup : v.http ≠ .closed ∨ v.grpc ≠ .absent) :
    db.Recorded ∧ (AppConfig.fromEnv d.parseAddr site.env).isSome := by
  obtain ⟨rest, g, -, -, hreached, hat⟩ := h.running hup
  have hg : g.Migrated := by
    rcases hup with hhttp | hgrpc
    · exact MainStage.migrated_of_not_starting (hat.not_starting hhttp)
    · have := hat.grpc
      cases g with
      | unmigrated | installed => exact hgrpc this
      | _ => trivial
  refine ⟨hreached.recorded hg, hat.configured ?_⟩
  rintro rfl
  exact hg

/-! ### Steps of the migrations -/

/-- Until RabbitMQ is asked for, a process has nothing but its `main`. -/
theorem ServiceProcess.At.early {g' : MainStage} (h : v.At d.parseAddr site g)
    (hg : g = .unmigrated ∨ g = .installed)
    (hg' : g' = .unmigrated ∨ g' = .installed ∨ g' = .migrated)
    (hconfig : (AppConfig.fromEnv d.parseAddr site.env).isSome) : v.At d.parseAddr site g' := by
  obtain ⟨-, hhttp, hgrpc, htold, hconnection, hcalls⟩ := h
  rcases hg with rfl | rfl <;> rcases hg' with rfl | rfl | rfl <;>
    exact ⟨fun _ => hconfig, hhttp, hgrpc, htold, hconnection, hcalls⟩

theorem next_migration {o : MigrationOp} (hallow : (staging d.parseAddr site).allow g (.migration o))
    (a : (MainOp.migration o).Answer) : (g = .unmigrated ∨ g = .installed) ∧
      (g.next (.migration o) a = .unmigrated ∨ g.next (.migration o) a = .installed ∨
        g.next (.migration o) a = .migrated) := by
  obtain ⟨-, hdue⟩ := hallow
  cases o with
  | createVersions =>
      obtain rfl : g = .unmigrated := hdue
      exact ⟨.inl rfl, .inl rfl⟩
  | selectApplied =>
      obtain rfl : g = .unmigrated := hdue
      refine ⟨.inl rfl, ?_⟩
      rcases a with _ | (e | applied)
      · exact .inl rfl
      · exact .inl rfl
      · simp only [MainStage.next]
        split
        · exact .inr (.inr rfl)
        · exact .inl rfl
  | execute text =>
      obtain ⟨rfl, rfl⟩ := hdue
      refine ⟨.inl rfl, ?_⟩
      rcases a with _ | (e | _)
      · exact .inl rfl
      · exact .inl rfl
      · exact .inr (.inl rfl)
  | insertVersion version description =>
      obtain ⟨rfl, rfl⟩ := hdue
      refine ⟨.inr rfl, ?_⟩
      rcases a with _ | (e | _)
      · exact .inr (.inl rfl)
      · exact .inr (.inl rfl)
      · exact .inr (.inr rfl)

theorem ServiceProcess.At.next_migration {o : MigrationOp} (h : v.At d.parseAddr site g)
    (hallow : (staging d.parseAddr site).allow g (.migration o)) (a : (MainOp.migration o).Answer) :
    v.At d.parseAddr site (g.next (.migration o) a) :=
  h.early (BackupService.next_migration hallow a).1 (BackupService.next_migration hallow a).2 hallow.1

/-- What an answer tells is so. -/
theorem next_reached {o : MigrationOp} {now : Timestamp}
    (hallow : (staging d.parseAddr site).allow g (.migration o))
    (hreached : (o.exec d.protocol now db).2.Reached d.protocol g) {a : (MainOp.migration o).Answer}
    (ha : a = none ∨ a = some (o.exec d.protocol now db).1) :
    (o.exec d.protocol now db).2.Reached d.protocol (g.next (.migration o) a) := by
  obtain ⟨-, hdue⟩ := hallow
  cases o with
  | createVersions =>
      obtain rfl : g = .unmigrated := hdue
      exact hreached
  | selectApplied =>
      obtain rfl : g = .unmigrated := hdue
      rcases a with _ | (e | applied)
      · exact hreached
      · exact hreached
      · have hok := Option.some.inj (ha.resolve_left nofun)
        simp only [MainStage.next]
        split
        · next happlied => exact ⟨nofun, fun _ => exec_selectApplied_ok hok.symm happlied⟩
        · exact hreached
  | execute text =>
      obtain ⟨rfl, rfl⟩ := hdue
      rcases a with _ | (e | _)
      · exact hreached
      · exact hreached
      · have hok := Option.some.inj (ha.resolve_left nofun)
        exact ⟨fun _ => exec_migration001_ok hok.symm, nofun⟩
  | insertVersion version description =>
      obtain ⟨rfl, rfl⟩ := hdue
      rcases a with _ | (e | _)
      · exact hreached
      · exact hreached
      · have hok := Option.some.inj (ha.resolve_left nofun)
        exact ⟨nofun, fun _ => exec_insertVersion_ok hok.symm⟩

/-! ### Steps of the fleet -/

theorem Schema.MigratedFrom.grows (h : db.MigratedFrom d.protocol db₀) (hgrows : db.Grows db')
    (hrecorded : db'.Recorded → db.Recorded ∨ d.protocol = .atomic ∧ db.Unrecorded ∧ db'.Installed) :
    db'.MigratedFrom d.protocol db₀ where
  unrecorded hdb := h.unrecorded (hgrows.unrecorded hdb)
  recorded hdb := by
    rcases hrecorded hdb with hold | ⟨hprotocol, hnew, hinstalled⟩
    · exact (h.recorded hold).imp id (And.imp id hgrows.installed)
    · exact .inr ⟨⟨hprotocol, h.unrecorded hnew⟩, hinstalled⟩

theorem ServiceProcess.At.setMain (h : v.At d.parseAddr site g) (main : ServiceMain) :
    { v with main }.At d.parseAddr site g :=
  ⟨h.configured, h.http, h.grpc, h.told, h.connection, h.calls⟩

namespace Fleet

/-- One process changes, and the database grows. -/
theorem Sound.modify (h : s.Sound d db₀) (hgrows : s.db.Grows db')
    (hmigrated : db'.MigratedFrom d.protocol db₀) {f : ServiceProcess → ServiceProcess}
    (hself : (f (s.services i)).Sound d (d.sites i) db')
    (hhttp : ∀ n v, s.gateway.visits n = some v → v.replica = i →
      (f (s.services i)).http = .accepting ∨ (f (s.services i)).http = .draining) :
    ({ s with db := db' }.modify i f).Sound d db₀ where
  migrated := hmigrated
  processes j := by
    by_cases hj : j = i
    · subst hj
      rw [modify_self]
      exact hself
    · rw [modify_of_ne hj]
      exact (h.processes j).mono hgrows
  visits n v hvisit := by
    by_cases hj : v.replica = i
    · rw [hj, modify_self]
      exact hhttp n v hvisit hj
    · rw [modify_of_ne hj]
      exact h.visits n v hvisit
  attended := h.attended

/-- `main` moves on to a stage. -/
theorem Sound.advance (h : s.Sound d db₀) {rest : MainProgram}
    (hobeys : Program.Obeys (staging d.parseAddr (d.sites i)) Staged g rest)
    (hgrows : s.db.Grows db') (hmigrated : db'.MigratedFrom d.protocol db₀)
    (hreached : db'.Reached d.protocol g) {f : ServiceProcess → ServiceProcess}
    (hat : (f (s.services i)).At d.parseAddr (d.sites i) g)
    (hhttp : ∀ n v, s.gateway.visits n = some v → v.replica = i →
      (f (s.services i)).http = .accepting ∨ (f (s.services i)).http = .draining) :
    ({ s with db := db' }.modify i fun v => { f v with main := .running rest }).Sound d db₀ :=
  h.modify hgrows hmigrated ⟨g, hobeys, hreached, hat.setMain _⟩ hhttp

/-- A process ends. -/
theorem Sound.exit (h : s.Sound d db₀) (i : ℕ) (result : Option (Except MainError Unit)) :
    (s.exit d i result).Sound d db₀ where
  migrated := h.migrated
  processes j := by
    show ServiceProcess.Sound d (d.sites j) s.db (Function.update s.services i _ j)
    by_cases hj : j = i
    · subst hj
      rw [Function.update_self]
      exact rfl
    · rw [Function.update_of_ne hj]
      exact h.processes j
  visits n v hvisit := by
    have hvisits := Gateway.visits_abandoned d.jwt d.uuid (s := s.gateway) (n := n)
      (s.gateway.visitsOf i)
    rw [show (s.exit d i result).gateway.visits n = _ from hvisits] at hvisit
    split at hvisit
    · cases hvisit
    · next hother =>
        have hi : v.replica ≠ i := fun hi => hother (h.attended.mem_visitsOf.mpr ⟨v, hvisit, hi⟩)
        show (Function.update s.services i _ v.replica).http = _ ∨
          (Function.update s.services i _ v.replica).http = _
        rw [Function.update_of_ne hi]
        exact h.visits n v hvisit
  attended := h.attended.run d.jwt d.uuid _

/-- Nothing but the stage changes. -/
theorem Sound.advance_quiet (h : s.Sound d db₀) {rest : MainProgram}
    (hobeys : Program.Obeys (staging d.parseAddr (d.sites i)) Staged g rest)
    (hreached : s.db.Reached d.protocol g)
    (hat : (s.services i).At d.parseAddr (d.sites i) g) :
    (s.modify i fun v => { v with main := .running rest }).Sound d db₀ :=
  h.advance (f := id) hobeys (.refl _) h.migrated hreached hat fun n v hv hi => hi ▸ h.visits n v hv

/-- A statement of the migrations that has been executed, and whose answer
has arrived or has been lost. -/
theorem Sound.advance_migration (h : s.Sound d db₀) {o : MigrationOp}
    {k : (MainOp.migration o).Answer → MainProgram} {now : Timestamp}
    (hallow : (staging d.parseAddr (d.sites i)).allow g (.migration o))
    (hobeys : ∀ r, Program.Obeys (staging d.parseAddr (d.sites i)) Staged
      (g.next (.migration o) r) (k r))
    (hreached : s.db.Reached d.protocol g) (hat : (s.services i).At d.parseAddr (d.sites i) g)
    {a : (MainOp.migration o).Answer}
    (ha : a = none ∨ a = some (o.exec d.protocol now s.db).1) :
    ({ s with db := (o.exec d.protocol now s.db).2 }.modify i fun v =>
      { v with main := .running (k a) }).Sound d db₀ := by
  have hgrows := exec_grows d.protocol now s.db o
  have hinstalled : g = .installed ∨ ∀ description, o ≠ .insertVersion 1 description := by
    by_cases hg : g = .installed
    · exact .inl hg
    · refine .inr ?_
      rintro description rfl
      exact hg hallow.2.1
  have hmigrated : (o.exec d.protocol now s.db).2.MigratedFrom d.protocol db₀ := by
    refine h.migrated.grows hgrows fun hrecorded => ?_
    rcases recorded_of_exec hrecorded with hold | ⟨hnew, description, ho⟩
    · exact .inl hold
    · obtain ⟨hprotocol, hdb⟩ := hreached.installed (hinstalled.resolve_right fun hno => hno _ ho)
      exact .inr ⟨hprotocol, hnew, hgrows.installed hdb⟩
  have hreached' := next_reached hallow (hreached.mono hgrows) ha
  have hat' := hat.next_migration hallow a
  exact h.advance (f := id) (hobeys a) hgrows hmigrated hreached' hat' fun n v hv hi =>
    hi ▸ h.visits n v hv

/-- **An operation of `main`.** -/
theorem Sound.perform (h : s.Sound d db₀) {o : MainOp} {k : o.Answer → MainProgram} {env : MainEnv}
    (hmain : (s.services i).main = .running (.op o k)) {a : o.Answer}
    (hperform : s.perform d i env o = some (a, s')) :
    (s'.modify i fun v => { v with main := .running (k a) }).Sound d db₀ := by
  have hprocess := h.processes i
  rw [ServiceProcess.Sound, hmain] at hprocess
  obtain ⟨g, ⟨hallow, hobeys⟩, hreached, hat⟩ := hprocess
  have hkeep : ∀ n v, s.gateway.visits n = some v → v.replica = i →
      (s.services i).http = .accepting ∨ (s.services i).http = .draining :=
    fun n v hv hi => hi ▸ h.visits n v hv
  have hconfig := hallow.1
  have hdue := hallow.2
  -- What the operation does to the process is added to what `main` goes on with.
  have hchange : ∀ {f : ServiceProcess → ServiceProcess} {g' : MainStage},
      Program.Obeys (staging d.parseAddr (d.sites i)) Staged g' (k a) → g.Migrated → g'.Migrated →
      (f (s.services i)).At d.parseAddr (d.sites i) g' →
      (∀ n v, s.gateway.visits n = some v → v.replica = i →
        (f (s.services i)).http = .accepting ∨ (f (s.services i)).http = .draining) →
      ((s.modify i f).modify i fun v => { v with main := .running (k a) }).Sound d db₀ := by
    intro f g' hrest hg hg' hf hhttp
    rw [modify_modify]
    refine h.advance hrest (.refl _) h.migrated ?_ hf hhttp
    refine ⟨?_, fun _ => hreached.recorded hg⟩
    rintro rfl
    cases hg'
  obtain ⟨hconfigured, hhttp, hgrpc, htold, hconnection, hcalls⟩ := hat
  cases o with
  | createPool url =>
      cases hperform
      obtain rfl : g = .unmigrated := hdue
      exact h.advance_quiet (hobeys _ trivial) hreached ⟨hconfigured, hhttp, hgrpc, htold, hconnection, hcalls⟩
  | migration o =>
      have hat : (s.services i).At d.parseAddr (d.sites i) g :=
        ⟨hconfigured, hhttp, hgrpc, htold, hconnection, hcalls⟩
      have hrest : ∀ r, Program.Obeys (staging d.parseAddr (d.sites i)) Staged
          (g.next (.migration o) r) (k r) := fun r => hobeys r trivial
      simp only [Fleet.perform] at hperform
      split at hperform
      · cases hperform
        exact h.advance_migration hallow hrest hreached hat (.inr rfl)
      · cases hperform
        have hnext : g.next (.migration o) none = g := by cases g <;> cases o <;> rfl
        exact h.advance_quiet (hnext ▸ hrest none) hreached hat
      · cases hperform
        exact h.advance_migration hallow hrest hreached hat (.inl rfl)
  | connectRedis url =>
      cases hperform
      obtain rfl : g = .migrated := hdue
      exact h.advance_quiet (hobeys _ rfl) hreached ⟨hconfigured, hhttp, hgrpc, htold, hconnection, hcalls⟩
  | connectRabbitmq url =>
      cases hperform
      obtain rfl : g = .migrated := hdue
      exact hchange (hobeys _ rfl) trivial trivial ⟨fun _ => hconfig, hhttp, hgrpc, htold, rfl, hcalls⟩ hkeep
  | installRecorder =>
      cases hperform
      obtain rfl : g = .linked := hdue
      exact h.advance_quiet (hobeys _ trivial) hreached ⟨hconfigured, hhttp, hgrpc, htold, hconnection, hcalls⟩
  | buildClient timeout =>
      cases hperform
      obtain rfl : g = .linked := hdue
      exact h.advance_quiet (hobeys _ trivial) hreached ⟨hconfigured, hhttp, hgrpc, htold, hconnection, hcalls⟩
  | spawnUpdater config =>
      cases hperform
      obtain rfl : g = .linked := hdue
      exact hchange (hobeys _ trivial) trivial trivial
        ⟨fun _ => hconfig, hhttp, hgrpc, htold, hconnection, hcalls⟩ hkeep
  | spawnGrpc addr =>
      cases hperform
      obtain rfl : g = .linked := hdue
      refine hchange (hobeys _ trivial) trivial trivial
        ⟨fun _ => hconfig, hhttp, by rintro ⟨⟩, htold, hconnection, fun hne => ?_⟩ hkeep
      rw [show (s.services i).grpc = .absent from hgrpc] at hcalls
      cases hcalls hne
  | bindHttp addr =>
      obtain rfl : g = .spawned := hdue
      simp only [Fleet.perform] at hperform
      split at hperform
      · cases hperform
        refine hchange (hobeys _ trivial) trivial trivial
          ⟨fun _ => hconfig, rfl, hgrpc, htold, hconnection, hcalls⟩ fun n v hv hi => ?_
        -- Where nothing listens there are no requests.
        rw [show (s.services i).http = .closed from hhttp] at hkeep
        rcases hkeep n v hv hi with hno | hno <;> cases hno
      · cases hperform
        exact h.advance_quiet (hobeys _ trivial) hreached ⟨hconfigured, hhttp, hgrpc, htold, hconnection, hcalls⟩
  | serve state =>
      cases hperform
      obtain rfl : g = .listening := hdue.1
      exact hchange (hobeys _ trivial) trivial trivial
        ⟨fun _ => hconfig, .inl rfl, hgrpc, htold, hconnection, hcalls⟩ fun _ _ _ _ => .inl rfl
  | served =>
      obtain rfl : g = .accepting := hdue
      simp only [Fleet.perform] at hperform
      split at hperform
      · next hdrained =>
          cases hperform
          refine hchange (hobeys _ trivial) trivial trivial
            ⟨fun _ => hconfig, rfl, hgrpc, htold, hconnection, hcalls⟩ fun n v hv hi => ?_
          have hmem := h.attended.mem_visitsOf.mpr ⟨v, hv, hi⟩
          rw [hdrained.2] at hmem
          cases hmem
      · cases hperform
  | stopGrpc =>
      cases hperform
      obtain rfl : g = .drained := hdue
      exact hchange (hobeys _ trivial) trivial trivial
        ⟨fun _ => hconfig, hhttp, hgrpc, rfl, hconnection, hcalls⟩ hkeep
  | joinGrpc =>
      obtain rfl : g = .told := hdue
      simp only [Fleet.perform] at hperform
      split at hperform
      · next hfinished =>
          cases hperform
          exact h.advance (f := id) (hobeys _ trivial) (.refl _) h.migrated
            ⟨by rintro ⟨⟩, fun _ => hreached.recorded trivial⟩
            ⟨fun _ => hconfig, hhttp, hfinished, htold, hconnection, hcalls⟩ hkeep
      · cases hperform
  | dropConnection =>
      cases hperform
      obtain rfl : g = .joined := hdue
      exact hchange (hobeys _ trivial) trivial trivial
        ⟨fun _ => hconfig, hhttp, hgrpc, htold, rfl, hcalls⟩ hkeep

theorem Sound.stepMain (h : s.Sound d db₀) (i : ℕ) (env : MainEnv) :
    (s.stepMain d i env).Sound d db₀ := by
  unfold Fleet.stepMain
  split
  · exact h.exit i _
  · next hmain =>
      split
      · next hperform => exact h.perform hmain hperform
      · exact h
  · exact h

/-- A server of a process changes, and the stage does not. -/
theorem Sound.server (h : s.Sound d db₀) (hup : (s.services i).http ≠ .closed ∨
    (s.services i).grpc ≠ .absent) {f : ServiceProcess → ServiceProcess}
    (hmain : (f (s.services i)).main = (s.services i).main)
    (hat : ∀ g, (s.services i).At d.parseAddr (d.sites i) g →
      (f (s.services i)).At d.parseAddr (d.sites i) g)
    (hhttp : (s.services i).http = .accepting ∨ (s.services i).http = .draining →
      (f (s.services i)).http = .accepting ∨ (f (s.services i)).http = .draining) :
    (s.modify i f).Sound d db₀ := by
  refine h.modify (.refl _) h.migrated ?_ fun n v hv hi => hhttp (hi ▸ h.visits n v hv)
  obtain ⟨rest, g, hrunning, hobeys, hreached, hstage⟩ := (h.processes i).running hup
  rw [ServiceProcess.Sound, hmain, hrunning]
  exact ⟨g, hobeys, hreached, hat g hstage⟩

theorem Sound.signal (h : s.Sound d db₀) (i : ℕ) : (s.signal d i).Sound d db₀ := by
  unfold Fleet.signal
  split
  · exact h.exit i none
  · exact h.exit i none
  · next hmain hhttp =>
      have hup : (s.services i).http ≠ .closed := hhttp.trans_ne (by decide)
      refine h.server (.inl hup) rfl ?_ fun _ => .inr rfl
      rintro g ⟨hconfigured, hstage, hgrpc, htold, hconnection, hcalls⟩
      refine ⟨hconfigured, ?_, hgrpc, htold, hconnection, hcalls⟩
      rw [hhttp] at hstage
      cases g with
      | accepting => exact .inr rfl
      | _ => cases hstage
  · exact h

/-- The gateway moves on, with the requests that it is given. -/
theorem Sound.gateway (h : s.Sound d db₀) {e : GatewayEvent}
    (he : ∀ i request, e = .arrive i request → (s.services i).http = .accepting) :
    { s with gateway := ((BackupService.gateway d.jwt d.uuid).step s.gateway e).1 }.Sound d db₀ where
  migrated := h.migrated
  processes := h.processes
  visits n v hvisit := by
    rcases Gateway.replica_of_step d.jwt d.uuid hvisit with ⟨w, hw, hreplica⟩ | ⟨request, hrequest⟩
    · exact hreplica ▸ h.visits n w hw
    · exact .inl (he _ _ hrequest)
  attended := h.attended.step d.jwt d.uuid e

theorem takes_arrive {e : GatewayEvent} (h : s.takes e = true) (i : ℕ) (request : HttpRequest)
    (he : e = .arrive i request) : (s.services i).http = .accepting := by
  subst he
  simpa [takes] using h

/-- The callbacks of a process change. -/
theorem Sound.callbacks (h : s.Sound d db₀) (hserving : (s.services i).grpc = .serving)
    (f : List (ℕ × Rpc) → List (ℕ × Rpc)) :
    (s.modify i fun v => { v with calls := f v.calls }).Sound d db₀ := by
  have hup : (s.services i).grpc ≠ .absent := hserving.trans_ne (by decide)
  refine h.server (.inr hup) rfl ?_ id
  rintro g ⟨hconfigured, hhttp, hgrpc, htold, hconnection, hcalls⟩
  exact ⟨hconfigured, hhttp, hgrpc, htold, hconnection, fun _ => hserving⟩

theorem calls_serving (h : s.Sound d db₀) (hcalls : (s.services i).calls ≠ []) :
    (s.services i).grpc = .serving := by
  have hprocess := h.processes i
  unfold ServiceProcess.Sound at hprocess
  split at hprocess
  · obtain ⟨g, -, -, hat⟩ := hprocess
    exact hat.calls hcalls
  · rw [hprocess] at hcalls
    exact absurd rfl hcalls

theorem Sound.execute (h : s.Sound d db₀) (i k : ℕ) (oracle : Oracle) (env : Env) :
    (s.execute d i k oracle env).1.Sound d db₀ := by
  unfold Fleet.execute
  split
  · next c rpc hfind =>
      have hserving : (s.services i).grpc = .serving :=
        calls_serving h (List.ne_nil_of_mem (List.mem_of_find?_eq_some hfind))
      have hgateway := h.gateway (e := .inside (.rpc rpc oracle env)) fun _ _ he => by cases he
      show (Fleet.modify { s with gateway := (s.gateway.inside d.uuid (.rpc rpc oracle env)).1 } i
        fun v => { v with calls := v.calls.filter fun c => c.1 ≠ k }).Sound d db₀
      exact hgateway.callbacks hserving fun calls => calls.filter fun c => c.1 ≠ k
  · exact h

theorem Sound.forget (h : s.Sound d db₀) (i k : ℕ) : (s.forget i k).1.Sound d db₀ := by
  unfold Fleet.forget
  split
  · next c hfind =>
      have hserving : (s.services i).grpc = .serving :=
        calls_serving h (List.ne_nil_of_mem (List.mem_of_find?_eq_some hfind))
      exact h.callbacks hserving fun calls => calls.filter fun c => c.1 ≠ k
  · exact h

/-- **Every event keeps the invariant.** -/
theorem Sound.step (h : s.Sound d db₀) (e : FleetEvent) : ((fleet d).step s e).1.Sound d db₀ := by
  cases e with
  | start i =>
      simp only [fleet]
      split
      · next hmain =>
          have hprocess := h.processes i
          rw [ServiceProcess.Sound, hmain] at hprocess
          refine h.modify (f := fun v => { v with main := .running (main d.parseAddr (d.sites i).env).run })
            (.refl _) h.migrated ?_ fun n v hv hi => ?_
          · rw [hprocess]
            exact ⟨.unmigrated, main_staged d.parseAddr (d.sites i), ⟨by rintro ⟨⟩, by rintro ⟨⟩⟩,
              ⟨fun hne => absurd rfl hne, rfl, rfl, rfl, rfl, fun hne => absurd rfl hne⟩⟩
          · have hhttp := hi ▸ h.visits n v hv
            rw [hprocess] at hhttp
            rcases hhttp with hno | hno <;> cases hno
      · exact h
  | main i env => exact h.stepMain i env
  | signal i => exact h.signal i
  | kill i =>
      simp only [fleet]
      split
      · exact h.exit i none
      · exact h
  | http e =>
      simp only [fleet]
      split
      · next htakes => exact h.gateway fun i request he => takes_arrive htakes i request he
      · exact h
  | grpcBound i ok =>
      simp only [fleet]
      split
      · next hbinding =>
          have hup : (s.services i).grpc ≠ .absent := hbinding.trans_ne (by decide)
          refine h.server (f := fun v => { v with grpc := if ok then .serving else .finished })
            (.inr hup) rfl ?_ id
          rintro g ⟨hconfigured, hhttp, hgrpc, htold, hconnection, hcalls⟩
          refine ⟨hconfigured, hhttp, ?_, htold, hconnection, fun hne => ?_⟩
          · rw [hbinding] at hgrpc
            exact hgrpc.change (by decide) (by decide) (by cases ok <;> rintro ⟨⟩)
          · have := hcalls hne
            rw [hbinding] at this
            cases this
      · exact h
  | call i rpc =>
      simp only [fleet]
      split
      · next hserving =>
          exact Sound.callbacks (i := i) (s := { s with accepted := s.accepted + 1 })
            ⟨h.migrated, h.processes, h.visits, h.attended⟩ hserving.1 fun calls =>
            calls ++ [(s.accepted, rpc)]
      · exact h
  | execute i k oracle env => exact h.execute i k oracle env
  | forget i k => exact h.forget i k
  | grpcReturned i =>
      simp only [fleet]
      split
      · next hserving =>
          have hup : (s.services i).grpc ≠ .absent := hserving.1.trans_ne (by decide)
          refine h.server (f := fun v => { v with grpc := .finished }) (.inr hup) rfl ?_ id
          rintro g ⟨hconfigured, hhttp, hgrpc, htold, hconnection, hcalls⟩
          refine ⟨hconfigured, hhttp, ?_, htold, hconnection, fun hne => absurd hserving.2.2 hne⟩
          rw [hserving.1] at hgrpc
          exact hgrpc.change (by decide) (by decide) (by rintro ⟨⟩)
      · exact h

end Fleet

end Sound

end BackupService
