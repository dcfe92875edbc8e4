import BackupService.Lib.Machine
import BackupService.Lib.Program
import BackupService.Models
import Mathlib.Data.List.Nodup
import Mathlib.Logic.Function.Basic

/-!
The migrations that a process runs when it starts.

`runMigrations` creates the table of versions, reads which ones have been
applied, and then, for a version that has not, executes its file and records
it, all in statements of their own. `TextProtocol` is how a text with several
commands is executed: the extended protocol, which `sqlx::query` uses, refuses
to prepare it.

Two questions are settled here: from which databases a call reaches its goal
(`migrations_converge_iff`), and when several processes can call it at the
same time (`replicas_start_together`).
-/

namespace BackupService

open Lib

/-! ### The database of the migrations -/

/-- What migration 001 creates. -/
inductive SchemaObject
  | pgcrypto
  | backups
  | idxBackupsTenant
  | idxBackupsStatus
  | idxBackupsCreated
  | idxBackupsTenantStatus
  deriving DecidableEq, Repr

/-- A row of `_sqlx_migrations`. -/
structure MigrationRow where
  version : ℤ
  description : String
  installedOn : Timestamp
  success : Bool
  deriving DecidableEq, Repr

/-- The table `_sqlx_migrations`. -/
structure VersionTable where
  rows : List MigrationRow
  /-- `version BIGINT PRIMARY KEY` -/
  primaryKey : (rows.map MigrationRow.version).Nodup

def VersionTable.empty : VersionTable := ⟨[], List.nodup_nil⟩

structure Schema where
  /-- `none` as long as the table is not there. -/
  versions : Option VersionTable
  objects : SchemaObject → Bool

/-- A database in which nothing has been created. -/
def Schema.fresh : Schema := ⟨none, fun _ => false⟩

inductive MigrationError
  | multipleCommands
  | undefinedTable
  | uniqueViolation
  deriving DecidableEq, Repr

def VersionTable.insert (t : VersionTable) (row : MigrationRow) :
    Except MigrationError VersionTable :=
  if h : row.version ∈ t.rows.map MigrationRow.version then .error .uniqueViolation
  else .ok ⟨t.rows ++ [row], by simpa [List.nodup_append, t.primaryKey] using h⟩

/-! ### Statements -/

/-- `CREATE EXTENSION`, `CREATE TABLE` or `CREATE INDEX`, each with
`IF NOT EXISTS`. -/
inductive Command
  | create (o : SchemaObject)
  deriving DecidableEq, Repr

/-- The indexes are on the table `backups`. -/
def SchemaObject.isIndex : SchemaObject → Bool
  | pgcrypto | backups => false
  | _ => true

def Command.exec : Command → Schema → Except MigrationError Schema
  | create o, db =>
      if db.objects o then .ok db
      else if o.isIndex && !db.objects .backups then .error .undefinedTable
      else .ok { db with objects := Function.update db.objects o true }

/-- The commands of `001_create_backups.sql`. -/
def migration001 : List Command :=
  [.create .pgcrypto, .create .backups, .create .idxBackupsTenant, .create .idxBackupsStatus,
    .create .idxBackupsCreated, .create .idxBackupsTenantStatus]

/-- How a text of several commands is executed. -/
inductive TextProtocol
  /-- It is prepared, which fails. -/
  | extended
  /-- It is one transaction. -/
  | atomic
  deriving DecidableEq, Repr

def execText (protocol : TextProtocol) (text : List Command) (db : Schema) :
    Except MigrationError Schema :=
  if protocol = .extended ∧ 1 < text.length then .error .multipleCommands
  else text.foldlM (fun db c => c.exec db) db

inductive MigrationOp
  /-- `CREATE TABLE IF NOT EXISTS _sqlx_migrations` -/
  | createVersions
  /-- `SELECT version FROM _sqlx_migrations WHERE success = true` -/
  | selectApplied
  | execute (text : List Command)
  /-- `INSERT INTO _sqlx_migrations`, with `success = true` -/
  | insertVersion (version : ℤ) (description : String)
  deriving DecidableEq, Repr

abbrev MigrationOp.Result : MigrationOp → Type
  | createVersions => Unit
  | selectApplied => List ℤ
  | execute _ => Unit
  | insertVersion _ _ => Unit

abbrev MigrationOp.Answer (o : MigrationOp) : Type := Except MigrationError o.Result

/-- A statement that fails changes nothing. -/
def MigrationOp.exec (protocol : TextProtocol) (now : Timestamp) :
    (o : MigrationOp) → Schema → o.Answer × Schema
  | .createVersions, db => (.ok (), { db with versions := some (db.versions.getD .empty) })
  | .selectApplied, db =>
      match db.versions with
      | none => (.error .undefinedTable, db)
      | some t => (.ok ((t.rows.filter MigrationRow.success).map MigrationRow.version), db)
  | .execute text, db =>
      match execText protocol text db with
      | .ok db' => (.ok (), db')
      | .error e => (.error e, db)
  | .insertVersion version description, db =>
      match db.versions with
      | none => (.error .undefinedTable, db)
      | some t =>
          match t.insert ⟨version, description, now, true⟩ with
          | .ok t' => (.ok (), { db with versions := some t' })
          | .error e => (.error e, db)

/-! ### The call -/

abbrev Migration (α : Type) := ExceptT MigrationError (Program MigrationOp MigrationOp.Answer) α

/-- A statement with its `?`. -/
def attempt (o : MigrationOp) : Migration o.Result := ExceptT.mk (Program.perform o)

def runMigrations : Migration Unit := do
  attempt .createVersions
  let applied : List ℤ ← attempt .selectApplied
  if 1 ∉ applied then
    attempt (.execute migration001)
    attempt (.insertVersion 1 "create_backups")

abbrev MigrationCall := Program MigrationOp MigrationOp.Answer (Except MigrationError Unit)

/-- One statement, and what comes after it if it succeeds. -/
def MigrationCall.step (o : MigrationOp) (next : o.Result → MigrationCall) : MigrationCall :=
  .op o fun
    | .ok a => next a
    | .error e => .ret (.error e)

/-- The call, before it records the version. -/
def recordVersion : MigrationCall :=
  MigrationCall.step (.insertVersion 1 "create_backups") fun _ => .ret (.ok ())

/-- The call, before it executes the file. -/
def applyFile : MigrationCall :=
  MigrationCall.step (.execute migration001) fun _ => recordVersion

/-- The call, before it reads the versions. -/
def readVersions : MigrationCall :=
  MigrationCall.step .selectApplied fun (applied : List ℤ) => if 1 ∉ applied then applyFile else .ret (.ok ())

theorem run_attempt_bind {α : Type} (o : MigrationOp) (f : o.Result → Migration α) :
    (attempt o >>= f).run = .op o fun
      | .ok a => (f a).run
      | .error e => .ret (.error e) := by
  refine congrArg (Program.op o) (funext fun r => ?_)
  cases r <;> rfl

theorem runMigrations_run : runMigrations.run = MigrationCall.step .createVersions fun _ => readVersions := by
  rw [runMigrations, run_attempt_bind]
  refine congrArg (Program.op _) (funext fun r => ?_)
  cases r with
  | error e => rfl
  | ok _ =>
      dsimp only
      rw [run_attempt_bind]
      refine congrArg (Program.op _) (funext fun r => ?_)
      rcases r with e | (applied : List ℤ)
      · rfl
      · dsimp only
        split
        · rw [run_attempt_bind]
          refine congrArg (Program.op _) (funext fun r => ?_)
          rcases r with e | _
          · rfl
          · refine congrArg (Program.op _) (funext fun r => ?_)
            cases r <;> rfl
        · rfl

/-! ### One call -/

/-- Version 1 has been recorded. -/
def Schema.Recorded (db : Schema) : Prop :=
  ∃ t row, db.versions = some t ∧ row ∈ t.rows ∧ row.version = 1 ∧ row.success = true

/-- There is one row for version 1, and it says that it succeeded. -/
def Schema.RecordedOnce (db : Schema) : Prop :=
  ∃ t row, db.versions = some t ∧ t.rows.filter (·.version = 1) = [row] ∧ row.success = true

/-- The table `backups` and its four indexes are there. -/
def Schema.Installed (db : Schema) : Prop := ∀ o, o ≠ .pgcrypto → db.objects o = true

/-- The rows of one version. -/
theorem VersionTable.filter_version (t : VersionTable) {row : MigrationRow} (h : row ∈ t.rows) :
    t.rows.filter (·.version = row.version) = [row] := by
  have hkey : ∀ r ∈ t.rows, decide (r.version = row.version) = decide (r = row) := by
    intro r hr
    have hinj : r.version = row.version → r = row := List.inj_on_of_nodup_map t.primaryKey hr h
    exact decide_eq_decide.mpr ⟨hinj, congrArg _⟩
  rw [List.filter_congr hkey, List.filter_eq, List.count_eq_one_of_mem t.primaryKey.of_map h]
  rfl

theorem Schema.Recorded.once {db : Schema} (h : db.Recorded) : db.RecordedOnce := by
  obtain ⟨t, row, ht, hrow, hversion, hsuccess⟩ := h
  refine ⟨t, row, ht, ?_, hsuccess⟩
  rw [← hversion]
  exact t.filter_version hrow

section Call

variable {protocol : TextProtocol} {now : Timestamp} {db : Schema}

/-- Where version 1 is recorded there is nothing to do. -/
theorem run_of_recorded (h : db.Recorded) :
    runMigrations.run.run (MigrationOp.exec protocol now) db = (.ok (), db) := by
  obtain ⟨t, row, ht, hrow, hversion, hsuccess⟩ := h
  have happlied : (1 : ℤ) ∈ (t.rows.filter MigrationRow.success).map MigrationRow.version :=
    List.mem_map.mpr ⟨row, List.mem_filter.mpr ⟨hrow, hsuccess⟩, hversion⟩
  have hdb : (⟨some t, db.objects⟩ : Schema) = db := by rw [← ht]
  rw [runMigrations_run]
  simp only [MigrationCall.step, readVersions, Program.run_op, MigrationOp.exec, ht, Option.getD_some]
  rw [if_neg (not_not.mpr happlied), hdb]
  rfl

/-- Where it is not, the file is refused. -/
theorem run_of_not_recorded (h : ¬ db.Recorded) :
    (runMigrations.run.run (MigrationOp.exec .extended now) db).1 = .error .multipleCommands := by
  have happlied : (1 : ℤ) ∉
      ((db.versions.getD .empty).rows.filter MigrationRow.success).map MigrationRow.version := by
    intro hmem
    obtain ⟨row, hrow, hversion⟩ := List.mem_map.mp hmem
    obtain ⟨hrow, hsuccess⟩ := List.mem_filter.mp hrow
    cases ht : db.versions with
    | none =>
        rw [ht] at hrow
        cases hrow
    | some t =>
        rw [ht] at hrow
        exact h ⟨t, row, ht, hrow, hversion, hsuccess⟩
  rw [runMigrations_run]
  simp only [MigrationCall.step, readVersions, Program.run_op, MigrationOp.exec]
  rw [if_pos happlied]
  rfl

/-- A call from `db` reaches its goal, and a further call changes nothing. -/
def Schema.Converges (now : Timestamp) (db : Schema) : Prop :=
  let out := runMigrations.run.run (MigrationOp.exec .extended now) db
  out.1 = .ok () ∧ out.2.Installed ∧ out.2.RecordedOnce ∧
    ∀ later, runMigrations.run.run (MigrationOp.exec .extended later) out.2 = (.ok (), out.2)

/-- **When the migrations converge.** A call that is not interrupted reaches
its goal exactly from the databases in which version 1 is recorded as applied
and its table and indexes are there; from every other one it fails. -/
theorem migrations_converge_iff (now : Timestamp) (db : Schema) :
    db.Converges now ↔ db.Recorded ∧ db.Installed := by
  unfold Schema.Converges
  by_cases h : db.Recorded
  · rw [run_of_recorded h]
    constructor
    · rintro ⟨-, hinstalled, -⟩
      exact ⟨h, hinstalled⟩
    · rintro ⟨-, hinstalled⟩
      exact ⟨rfl, hinstalled, h.once, fun later => run_of_recorded h⟩
  · constructor
    · rintro ⟨hok, -⟩
      rw [run_of_not_recorded h] at hok
      cases hok
    · rintro ⟨hrecorded, -⟩
      exact absurd hrecorded h

/-- The first start on an empty database fails. -/
theorem not_migrations_converge : ¬ Schema.fresh.Converges 0 := by
  rintro ⟨hok, -⟩
  cases hok

end Call

/-! ### Several calls -/

/-- Processes that start on one database, each with what is left of its
call. -/
structure Rollout where
  db : Schema
  calls : ℕ → Option MigrationCall

inductive RolloutEvent
  | start (i : ℕ)
  | step (i : ℕ) (now : Timestamp)
  deriving DecidableEq, Repr

/-- The call of process `i` has returned. -/
structure Returned where
  process : ℕ
  result : Except MigrationError Unit
  deriving DecidableEq

def Rollout.setCall (s : Rollout) (i : ℕ) (call : Option MigrationCall) : Rollout :=
  { s with calls := Function.update s.calls i call }

/-- The next statement of process `i`, or its return. The text of a migration
is one statement here. -/
def Rollout.advance (s : Rollout) (i : ℕ) (now : Timestamp) : Rollout × List Returned :=
  match s.calls i with
  | none => (s, [])
  | some (.ret result) => (s.setCall i none, [⟨i, result⟩])
  | some (.op o k) =>
      ({ s with db := (o.exec .atomic now s.db).2 }.setCall i
        (some (k (o.exec .atomic now s.db).1)), [])

def rollout : Machine Rollout RolloutEvent Returned where
  step s
    | .start i =>
        match s.calls i with
        | none => (s.setCall i (some runMigrations.run), [])
        | some _ => (s, [])
    | .step i now => s.advance i now

def Rollout.initial (db : Schema) : Rollout := ⟨db, fun _ => none⟩

/-- The process has read that version 1 is missing, and has yet to record
it. -/
def Rollout.Pending (s : Rollout) (i : ℕ) : Prop :=
  s.calls i = some applyFile ∨ s.calls i = some recordVersion

/-- A process reads the versions while another one is about to record
version 1. -/
def Rollout.Overlaps (s : Rollout) (e : RolloutEvent) : Prop :=
  ∃ i now, e = .step i now ∧ s.calls i = some readVersions ∧ ∃ j, s.Pending j

section Rollout

/-- Version 1 has no row. -/
def Schema.Unrecorded (db : Schema) : Prop :=
  ∀ t, db.versions = some t → ∀ row ∈ t.rows, row.version ≠ 1

/-- Where the call of a process can be, as long as no two of them overlap. -/
inductive Rollout.At (db : Schema) : Option MigrationCall → Prop
  | idle : At db none
  | starting : At db (some runMigrations.run)
  | reading (h : db.versions.isSome) : At db (some readVersions)
  | applying (h : db.versions.isSome) (hnew : db.Unrecorded) : At db (some applyFile)
  | recording (h : db.versions.isSome) (hnew : db.Unrecorded) : At db (some recordVersion)
  | done (h : db.Recorded) : At db (some (.ret (.ok ())))

/-- The invariant of a run without overlaps, with what it has shown. -/
structure Rollout.Sound (s : Rollout) (seen : List Returned) : Prop where
  at_call : ∀ i, At s.db (s.calls i)
  alone : ∀ i j, s.Pending i → s.Pending j → i = j
  recorded : s.db.Recorded ∨ s.db.Unrecorded
  returned : ∀ r ∈ seen, r.result = .ok () ∧ s.db.Recorded

variable {s : Rollout} {i j : ℕ} {now : Timestamp} {db db' : Schema} {seen : List Returned}

theorem Rollout.At.mono {call : Option MigrationCall} (h : At db call)
    (hversions : db.versions.isSome → db'.versions.isSome) (hnew : db.Unrecorded → db'.Unrecorded)
    (hrecorded : db.Recorded → db'.Recorded) : At db' call := by
  cases h with
  | idle => exact .idle
  | starting => exact .starting
  | reading h => exact .reading (hversions h)
  | applying h h' => exact .applying (hversions h) (hnew h')
  | recording h h' => exact .recording (hversions h) (hnew h')
  | done h => exact .done (hrecorded h)

theorem Rollout.advance_step {o : MigrationOp} {next : o.Result → MigrationCall} {a : o.Result}
    (h : s.calls i = some (MigrationCall.step o next))
    (hok : o.exec .atomic now s.db = (.ok a, db')) :
    s.advance i now = ({ s with db := db' }.setCall i (some (next a)), []) := by
  unfold advance
  rw [h]
  simp only [MigrationCall.step, hok]

theorem not_applying {call : Option MigrationCall}
    (hcall : ∀ p, call = some p → p ≠ applyFile ∧ p ≠ recordVersion) :
    ¬ (call = some applyFile ∨ call = some recordVersion) := by
  rintro (hp | hp)
  · exact (hcall _ hp).1 rfl
  · exact (hcall _ hp).2 rfl

/-- A process that is not `Pending`. -/
theorem Rollout.not_pending {call : Option MigrationCall} (h : s.calls i = call)
    (hcall : ∀ p, call = some p → p ≠ applyFile ∧ p ≠ recordVersion) : ¬ s.Pending i := by
  subst h
  exact not_applying hcall

theorem readVersions_ne : readVersions ≠ applyFile ∧ readVersions ≠ recordVersion := by
  constructor <;>
  · intro h
    injection h with ho
    cases ho

theorem run_ne : runMigrations.run ≠ applyFile ∧ runMigrations.run ≠ recordVersion := by
  rw [runMigrations_run]
  constructor <;>
  · intro h
    injection h with ho
    cases ho

theorem returned_ne (r : Except MigrationError Unit) (p : MigrationCall) (hp : some (.ret r) = some p) :
    p ≠ applyFile ∧ p ≠ recordVersion := by
  obtain rfl := Option.some.inj hp
  constructor <;>
  · intro h
    cases h

/-- Nothing is in the way of the text of migration 001. -/
theorem execText_migration001 (db : Schema) :
    ∃ db', execText .atomic migration001 db = .ok db' ∧ db'.versions = db.versions := by
  have hcreate : ∀ (o : SchemaObject) (db : Schema), (o.isIndex = true → db.objects .backups = true) →
      ∃ db', (Command.create o).exec db = .ok db' ∧ db'.versions = db.versions ∧
        db'.objects o = true ∧ ∀ o', db.objects o' = true → db'.objects o' = true := by
    intro o db hindex
    simp only [Command.exec]
    split
    · exact ⟨db, rfl, rfl, ‹_›, fun _ h => h⟩
    · rw [if_neg (by simpa using hindex)]
      refine ⟨_, rfl, rfl, Function.update_self .., fun o' ho' => ?_⟩
      by_cases heq : o' = o
      · rw [heq]
        exact Function.update_self ..
      · exact (Function.update_of_ne heq ..).trans ho'
  obtain ⟨db₁, h₁, hv₁, -, -⟩ := hcreate .pgcrypto db nofun
  obtain ⟨db₂, h₂, hv₂, hb₂, -⟩ := hcreate .backups db₁ nofun
  obtain ⟨db₃, h₃, hv₃, -, hk₃⟩ := hcreate .idxBackupsTenant db₂ fun _ => hb₂
  obtain ⟨db₄, h₄, hv₄, -, hk₄⟩ := hcreate .idxBackupsStatus db₃ fun _ => hk₃ _ hb₂
  obtain ⟨db₅, h₅, hv₅, -, hk₅⟩ := hcreate .idxBackupsCreated db₄ fun _ => hk₄ _ (hk₃ _ hb₂)
  obtain ⟨db₆, h₆, hv₆, -, -⟩ :=
    hcreate .idxBackupsTenantStatus db₅ fun _ => hk₅ _ (hk₄ _ (hk₃ _ hb₂))
  refine ⟨db₆, ?_, by rw [hv₆, hv₅, hv₄, hv₃, hv₂, hv₁]⟩
  rw [execText, if_neg (by simp)]
  simp only [migration001, List.foldlM_cons, List.foldlM_nil, bind, Except.bind, pure, Except.pure,
    h₁, h₂, h₃, h₄, h₅, h₆]

/-- Recording a version that has no row succeeds. -/
theorem exec_insertVersion (now : Timestamp) (hversions : db.versions.isSome) (hnew : db.Unrecorded) :
    ∃ db', (MigrationOp.insertVersion 1 "create_backups").exec .atomic now db = (.ok (), db') ∧
      db'.versions.isSome ∧ db'.Recorded := by
  obtain ⟨t, ht⟩ := Option.isSome_iff_exists.mp hversions
  have hfree : (1 : ℤ) ∉ t.rows.map MigrationRow.version := by
    intro hmem
    obtain ⟨row, hrow, hversion⟩ := List.mem_map.mp hmem
    exact hnew t ht row hrow hversion
  have hinsert : ∃ t', t.insert ⟨1, "create_backups", now, true⟩ = .ok t' ∧
      t'.rows = t.rows ++ [⟨1, "create_backups", now, true⟩] := by
    unfold VersionTable.insert
    rw [dif_neg hfree]
    exact ⟨_, rfl, rfl⟩
  obtain ⟨t', ht', hrows⟩ := hinsert
  refine ⟨{ db with versions := some t' }, ?_, rfl, t', ⟨1, "create_backups", now, true⟩, rfl, ?_,
    rfl, rfl⟩
  · simp only [MigrationOp.exec, ht, ht']
  · rw [hrows]
    exact List.mem_append_right _ List.mem_cons_self

/-- What reading the versions tells. -/
theorem exec_selectApplied (now : Timestamp) (hversions : db.versions.isSome) :
    ∃ applied : List ℤ, MigrationOp.selectApplied.exec .atomic now db = (.ok applied, db) ∧
      (1 ∈ applied ↔ db.Recorded) := by
  obtain ⟨t, ht⟩ := Option.isSome_iff_exists.mp hversions
  refine ⟨(t.rows.filter MigrationRow.success).map MigrationRow.version, ?_, ?_⟩
  · simp only [MigrationOp.exec, ht]
  · constructor
    · intro hmem
      obtain ⟨row, hrow, hversion⟩ := List.mem_map.mp hmem
      obtain ⟨hrow, hsuccess⟩ := List.mem_filter.mp hrow
      exact ⟨t, row, ht, hrow, hversion, hsuccess⟩
    · rintro ⟨t', row, ht', hrow, hversion, hsuccess⟩
      obtain rfl := Option.some.inj (ht.symm.trans ht')
      exact List.mem_map.mpr ⟨row, List.mem_filter.mpr ⟨hrow, hsuccess⟩, hversion⟩

/-- Creating the table of versions loses nothing. -/
theorem recorded_ensured (h : db.Recorded) :
    (⟨some (db.versions.getD .empty), db.objects⟩ : Schema).Recorded := by
  obtain ⟨t, row, ht, hrow⟩ := h
  refine ⟨t, row, ?_, hrow⟩
  rw [ht, Option.getD_some]

theorem unrecorded_ensured (h : db.Unrecorded) :
    (⟨some (db.versions.getD .empty), db.objects⟩ : Schema).Unrecorded := by
  intro t ht row hrow
  cases hversions : db.versions with
  | none =>
      rw [hversions, Option.getD_none] at ht
      obtain rfl := Option.some.inj ht
      cases hrow
  | some t' =>
      rw [hversions, Option.getD_some] at ht
      obtain rfl := Option.some.inj ht
      exact h t' hversions row hrow

/-- The invariant after process `i` has moved on to `call` and the database
to `db'`. -/
theorem Rollout.Sound.move (h : s.Sound seen) {call : Option MigrationCall} (hat : At db' call)
    (hothers : ∀ j, j ≠ i → At s.db (s.calls j) → At db' (s.calls j))
    (hpending : call = some applyFile ∨ call = some recordVersion → ∀ j, j ≠ i → ¬ s.Pending j)
    (hrecorded : db'.Recorded ∨ db'.Unrecorded) (hkeep : s.db.Recorded → db'.Recorded)
    {new : List Returned} (hnew : ∀ r ∈ new, r.result = .ok () ∧ db'.Recorded) :
    ({ s with db := db' }.setCall i call).Sound (seen ++ new) := by
  have hself : ({ s with db := db' }.setCall i call).calls i = call := Function.update_self ..
  have hother : ∀ j, j ≠ i → ({ s with db := db' }.setCall i call).calls j = s.calls j :=
    fun j hj => Function.update_of_ne hj ..
  have hpend : ∀ j, j ≠ i → ({ s with db := db' }.setCall i call).Pending j → s.Pending j := by
    intro j hj hp
    rw [Pending, hother j hj] at hp
    exact hp
  refine ⟨fun j => ?_, fun j k hj hk => ?_, hrecorded, fun r hr => ?_⟩
  · by_cases hj : j = i
    · rw [hj, hself]
      exact hat
    · rw [hother j hj]
      exact hothers j hj (h.at_call j)
  · by_cases hji : j = i
    · by_cases hki : k = i
      · rw [hji, hki]
      · rw [hji, Pending, hself] at hj
        exact absurd (hpend k hki hk) (hpending hj k hki)
    · by_cases hki : k = i
      · rw [hki, Pending, hself] at hk
        exact absurd (hpend j hji hj) (hpending hk j hji)
      · exact h.alone j k (hpend j hji hj) (hpend k hki hk)
  · rcases List.mem_append.mp hr with hr | hr
    · exact ⟨(h.returned r hr).1, hkeep (h.returned r hr).2⟩
    · exact hnew r hr

/-- Process `i` moves on without changing the database, and is not about to. -/
theorem Rollout.Sound.move_aside (h : s.Sound seen) {call : Option MigrationCall}
    (hat : At s.db call) (hcall : ∀ p, call = some p → p ≠ applyFile ∧ p ≠ recordVersion)
    {new : List Returned} (hnew : ∀ r ∈ new, r.result = .ok () ∧ s.db.Recorded) :
    (s.setCall i call).Sound (seen ++ new) :=
  h.move hat (fun _ _ hat => hat) (fun hp => absurd hp (not_applying hcall)) h.recorded id hnew

/-- One step without an overlap. -/
theorem Rollout.Sound.step (h : s.Sound seen) (e : RolloutEvent) (he : ¬ s.Overlaps e) :
    (rollout.step s e).1.Sound (seen ++ (rollout.step s e).2) := by
  cases e with
  | start i =>
      simp only [rollout]
      cases hcall : s.calls i with
      | some p =>
          rw [List.append_nil]
          exact h
      | none =>
          exact h.move_aside .starting (fun p hp => Option.some.inj hp ▸ run_ne) nofun
  | step i now =>
      simp only [rollout]
      have hat := h.at_call i
      generalize hcall : s.calls i = call at hat
      cases hat with
      | idle =>
          rw [advance, hcall, List.append_nil]
          exact h
      | starting =>
          rw [runMigrations_run] at hcall
          rw [advance_step hcall rfl]
          exact h.move (.reading rfl)
            (fun j _ hat => hat.mono (fun _ => rfl) unrecorded_ensured recorded_ensured)
            (fun hp => absurd hp (not_applying fun p hp => Option.some.inj hp ▸ readVersions_ne))
            (h.recorded.imp recorded_ensured unrecorded_ensured) recorded_ensured nofun
      | reading hversions =>
          obtain ⟨applied, happlied, hiff⟩ := exec_selectApplied now hversions
          rw [advance_step hcall happlied]
          by_cases hmem : 1 ∈ applied
          · rw [if_neg (not_not.mpr hmem)]
            exact h.move_aside (.done (hiff.mp hmem)) (returned_ne _) nofun
          · rw [if_pos hmem]
            -- The file is about to be applied; nobody else is at it, or the two would overlap.
            have hnew : s.db.Unrecorded :=
              h.recorded.resolve_left fun hrec => hmem (hiff.mpr hrec)
            refine h.move (.applying hversions hnew) (fun _ _ hat => hat) ?_ h.recorded id nofun
            exact fun _ j _ hj => he ⟨i, now, rfl, hcall, j, hj⟩
      | applying hversions hnew =>
          obtain ⟨db', hexec, hdb'⟩ := execText_migration001 s.db
          have hrun : (MigrationOp.execute migration001).exec .atomic now s.db = (.ok (), db') := by
            simp only [MigrationOp.exec, hexec]
          rw [advance_step hcall hrun]
          -- The file does not touch the table of versions.
          have hsame : ∀ t, db'.versions = some t ↔ s.db.versions = some t := fun t => by rw [hdb']
          have hnew' : s.db.Unrecorded → db'.Unrecorded := fun h t ht => h t ((hsame t).mp ht)
          have hrecorded : s.db.Recorded → db'.Recorded := by
            rintro ⟨t, row, ht, hrow⟩
            exact ⟨t, row, (hsame t).mpr ht, hrow⟩
          refine h.move (.recording (hdb' ▸ hversions) (hnew' hnew))
            (fun j _ hat => hat.mono (hdb' ▸ id) hnew' hrecorded) ?_
            (h.recorded.imp hrecorded hnew') hrecorded nofun
          exact fun _ j hj hpj => hj (h.alone j i hpj (.inl hcall))
      | recording hversions hnew =>
          obtain ⟨db', hrun, hversions', hrecorded⟩ := exec_insertVersion now hversions hnew
          rw [advance_step hcall hrun]
          refine h.move (.done hrecorded) (fun j hj hat => ?_)
            (fun hp => absurd hp (not_applying (returned_ne _))) (.inl hrecorded) (fun _ => hrecorded) nofun
          · -- No other process has yet to record the version.
            have hj' : ¬ s.Pending j := fun hpj => hj (h.alone j i hpj (.inr hcall))
            generalize hcj : s.calls j = callj at hat
            cases hat with
            | idle => exact .idle
            | starting => exact .starting
            | reading _ => exact .reading hversions'
            | applying => exact absurd (.inl hcj) hj'
            | recording => exact absurd (.inr hcj) hj'
            | done _ => exact .done hrecorded
      | done hrecorded =>
          rw [advance, hcall]
          refine h.move_aside .idle nofun fun r hr => ?_
          rw [List.mem_singleton.mp hr]
          exact ⟨rfl, hrecorded⟩

/-- **Replicas start together**, as long as none reads the versions while
another is about to record version 1: every call that returns has succeeded,
and from the first one on there is one row for the version. -/
theorem replicas_start_together {db : Schema} (hdb : db.Unrecorded) (es : List RolloutEvent)
    (hes : rollout.Along (fun s e => ¬ s.Overlaps e) (.initial db) es) :
    ∀ r ∈ rollout.trace (.initial db) es,
      r.result = .ok () ∧ (rollout.run (.initial db) es).db.RecordedOnce := by
  have hinitial : (Rollout.initial db).Sound [] := by
    refine ⟨fun i => .idle, fun i j hi => ?_, .inr hdb, nofun⟩
    rcases hi with hi | hi <;> cases hi
  have hsound : (rollout.run (.initial db) es).Sound ([] ++ rollout.trace (.initial db) es) :=
    hes.trace_preserves (fun s seen e hs he => hs.step e he) hinitial
  intro r hr
  obtain ⟨hok, hrecorded⟩ := hsound.returned r hr
  exact ⟨hok, hrecorded.once⟩

/-- A step of one process leaves the others where they are. -/
theorem advance_calls_of_ne {j : ℕ} (hj : j ≠ i) : (s.advance i now).1.calls j = s.calls j := by
  unfold Rollout.advance
  split
  · rfl
  · exact Function.update_of_ne hj ..
  · exact Function.update_of_ne hj ..

theorem calls_alone (hs : ∀ j, j ≠ i → s.calls j = none) (n : ℕ) :
    ∀ j, j ≠ i → (rollout.run s (List.replicate n (.step i now))).calls j = none := by
  induction n generalizing s with
  | zero => exact hs
  | succ n ih => exact ih fun j hj => (advance_calls_of_ne hj).trans (hs j hj)

/-- A process that is alone overlaps with nobody. -/
theorem along_alone (hs : ∀ j, j ≠ i → s.calls j = none) (n : ℕ) :
    rollout.Along (fun s e => ¬ s.Overlaps e) s (List.replicate n (.step i now)) := by
  induction n generalizing s with
  | zero => trivial
  | succ n ih =>
      refine ⟨?_, ih fun j hj => ?_⟩
      · rintro ⟨i', now', he, hreading, j, hj⟩
        obtain ⟨rfl, rfl⟩ := RolloutEvent.step.inj he
        by_cases hji : j = i
        · rw [hji] at hj
          refine Rollout.not_pending hreading (fun p hp => ?_) hj
          rw [← Option.some.inj hp]
          exact readVersions_ne
        · exact Rollout.not_pending (hs j hji) nofun hj
      · exact (advance_calls_of_ne hj).trans (hs j hj)

/-- Two processes on an empty database, the second one when the first one has
returned. -/
def oneAfterTheOther : List RolloutEvent :=
  .start 0 :: List.replicate 5 (.step 0 0) ++ .start 1 :: List.replicate 3 (.step 1 0)

theorem along_oneAfterTheOther :
    rollout.Along (fun s e => ¬ s.Overlaps e) (.initial .fresh) oneAfterTheOther := by
  have hstart : ∀ (s : Rollout) (i : ℕ), ¬ s.Overlaps (.start i) := by
    rintro s i ⟨_, _, he, -⟩
    cases he
  have hfirst : ∀ j, j ≠ 0 → ((Rollout.initial .fresh).setCall 0 (some runMigrations.run)).calls j = none :=
    fun j hj => Function.update_of_ne hj ..
  refine Machine.along_append.mpr ⟨⟨hstart _ 0, along_alone hfirst 5⟩, hstart _ 1, along_alone ?_ 3⟩
  -- The first process is gone, and the second one has just been started.
  intro j hj
  refine (Function.update_of_ne hj ..).trans ?_
  by_cases hj₀ : j = 0
  · subst hj₀
    rfl
  · exact calls_alone hfirst 5 j hj₀

theorem replicas_start_together_oneAfterTheOther :
    rollout.trace (.initial .fresh) oneAfterTheOther = [⟨0, .ok ()⟩, ⟨1, .ok ()⟩] ∧
      (rollout.run (.initial .fresh) oneAfterTheOther).db.RecordedOnce := by
  have htrace : rollout.trace (.initial .fresh) oneAfterTheOther = [⟨0, .ok ()⟩, ⟨1, .ok ()⟩] := by
    decide +kernel
  have hfresh : Schema.fresh.Unrecorded := fun t ht => absurd ht (by simp [Schema.fresh])
  refine ⟨htrace, (replicas_start_together hfresh _ along_oneAfterTheOther ⟨1, .ok ()⟩ ?_).2⟩
  rw [htrace]
  exact List.mem_cons_of_mem _ List.mem_cons_self

/-- Two processes, in step: the second one to record the version fails. -/
theorem not_replicas_start_together :
    rollout.trace (.initial .fresh) [.start 0, .start 1, .step 0 0, .step 1 0, .step 0 0, .step 1 0,
      .step 0 0, .step 1 0, .step 0 0, .step 1 0, .step 0 0, .step 1 0] =
      [⟨0, .ok ()⟩, ⟨1, .error .uniqueViolation⟩] := by
  decide +kernel

end Rollout

end BackupService
