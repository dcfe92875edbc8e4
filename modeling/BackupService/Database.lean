import BackupService.Models
import Mathlib.Data.List.Nodup
import Mathlib.Data.List.Sort

/-!
The table `backups` and the SQL statements that touch it.

A `Table` carries the two constraints of the migration as fields, so a
statement cannot produce a table that PostgreSQL would have refused: the
primary key, and the check on `status`. Every statement the service issues
is a constructor of `Sql`, named after the function that issues it, and
`Sql.exec` is what the server does with it, atomically. Two things are not
determined by the table: the values of the column defaults
(`gen_random_uuid()`, `now()`), which come from an `Oracle`, and the order
of rows with equal `created_at`, which comes from a `RowOrder`.
-/

namespace BackupService

/-- The values of `CHECK (status IN (...))`. -/
def statuses : List String := ["pending", "running", "completed", "failed"]

theorem BackupStatus.toString_mem (s : BackupStatus) : s.toString ∈ statuses := by
  cases s <;> decide

/-- The table `backups`. -/
structure Table where
  rows : List Backup
  /-- `id UUID PRIMARY KEY` -/
  primaryKey : (rows.map Backup.id).Nodup
  /-- `CHECK (status IN (...))` -/
  statusCheck : ∀ r ∈ rows, r.status ∈ statuses
  deriving DecidableEq

@[ext] theorem Table.ext {t t' : Table} (h : t.rows = t'.rows) : t = t' := by
  cases t
  cases t'
  cases h
  rfl

def Table.empty : Table := ⟨[], List.nodup_nil, by simp⟩

/-- The row with the given primary key. -/
def Table.find (t : Table) (id : Uuid) : Option Backup := t.rows.find? fun r => r.id = id

theorem Table.find_eq_some {t : Table} {id : Uuid} {r : Backup} :
    t.find id = some r ↔ r ∈ t.rows ∧ r.id = id := by
  constructor
  · intro h
    exact ⟨List.mem_of_find?_eq_some h, by simpa using List.find?_some h⟩
  · rintro ⟨hr, rfl⟩
    cases hf : t.find r.id with
    | none =>
        have := List.find?_eq_none.mp hf r hr
        simp at this
    | some r' =>
        have hr' : r' ∈ t.rows := List.mem_of_find?_eq_some hf
        have hid : r'.id = r.id := by simpa using List.find?_some hf
        rw [List.inj_on_of_nodup_map t.primaryKey hr' hr hid]

theorem Table.find_eq_none {t : Table} {id : Uuid} :
    t.find id = none ↔ ∀ r ∈ t.rows, r.id ≠ id := by
  simp [Table.find, List.find?_eq_none]

theorem Table.find_isSome {t : Table} {id : Uuid} :
    (t.find id).isSome ↔ id ∈ t.rows.map Backup.id := by
  simp [Table.find, List.find?_isSome]

/-! ### Changing the table -/

/-- The assignments of an `UPDATE`; a column that is not named keeps its
value. Every `UPDATE` of the service also sets `updated_at = now()`. -/
structure Assignments where
  status : Option String := none
  sizeBytes : Option ℤ := none
  deriving DecidableEq, Repr

def Assignments.apply (c : Assignments) (now : Timestamp) (r : Backup) : Backup :=
  { r with
    status := c.status.getD r.status
    sizeBytes := c.sizeBytes.getD r.sizeBytes
    updatedAt := now }

@[simp] theorem Assignments.apply_id (c : Assignments) (now : Timestamp) (r : Backup) :
    (c.apply now r).id = r.id := rfl

@[simp] theorem Assignments.apply_tenantId (c : Assignments) (now : Timestamp) (r : Backup) :
    (c.apply now r).tenantId = r.tenantId := rfl

@[simp] theorem Assignments.apply_sourcePath (c : Assignments) (now : Timestamp) (r : Backup) :
    (c.apply now r).sourcePath = r.sourcePath := rfl

/-- The failures of a statement. Their texts are the server's own. -/
inductive SqlError
  /-- A primary key is already taken. -/
  | uniqueViolation
  /-- A `CHECK` constraint fails. -/
  | checkViolation
  /-- A text parameter contains the character U+0000. -/
  | invalidByteSequence
  /-- No connection, a timeout, a server that is going down. -/
  | unavailable
  deriving DecidableEq, Repr

/-- `INSERT` of one row. -/
def Table.insert (t : Table) (r : Backup) : Except SqlError Table :=
  if hid : r.id ∈ t.rows.map Backup.id then .error .uniqueViolation
  else if hst : r.status ∈ statuses then
    .ok ⟨t.rows ++ [r], by simpa [List.nodup_append, t.primaryKey] using hid, by
      intro r' hr'
      rcases List.mem_append.mp hr' with hr' | hr'
      · exact t.statusCheck r' hr'
      · rw [List.mem_singleton.mp hr']; exact hst⟩
  else .error .checkViolation

/-- `UPDATE` of the rows that satisfy `p`; the answer lists them as they are
afterwards. The check on `status` only looks at rows that are updated. -/
def Table.update (t : Table) (p : Backup → Bool) (c : Assignments) (now : Timestamp) :
    Except SqlError (List Backup) × Table :=
  if hst : ∀ r ∈ t.rows, p r = true → (c.apply now r).status ∈ statuses then
    (.ok ((t.rows.filter p).map (c.apply now)),
      ⟨t.rows.map fun r => if p r then c.apply now r else r, by
        have hids : (t.rows.map fun r => if p r then c.apply now r else r).map Backup.id =
            t.rows.map Backup.id := by
          rw [List.map_map]
          refine List.map_congr_left fun r _ => ?_
          simp only [Function.comp_apply]
          split <;> rfl
        rw [hids]
        exact t.primaryKey, by
        intro r' hr'
        obtain ⟨r, hr, rfl⟩ := List.mem_map.mp hr'
        split
        · exact hst r hr ‹_›
        · exact t.statusCheck r hr⟩)
  else (.error .checkViolation, t)

/-- `DELETE` of the rows that satisfy `p`. -/
def Table.delete (t : Table) (p : Backup → Bool) : Table where
  rows := t.rows.filter fun r => !p r
  primaryKey := t.primaryKey.sublist (List.filter_sublist.map _)
  statusCheck r hr := t.statusCheck r (List.mem_of_mem_filter hr)

/-! ### Reading the table -/

/-- How the server answers `ORDER BY created_at DESC`: some permutation of
the rows in which `created_at` does not increase. -/
structure RowOrder where
  sort : List Backup → List Backup
  perm : ∀ rows, (sort rows).Perm rows
  sorted : ∀ rows, (sort rows).Pairwise fun r r' => r'.createdAt ≤ r.createdAt

/-- The order that keeps rows with equal `created_at` as they come. -/
def RowOrder.stable : RowOrder where
  sort rows := rows.insertionSort fun r r' => r'.createdAt ≤ r.createdAt
  perm := List.perm_insertionSort _
  sorted rows := by
    have : Std.Total fun r r' : Backup => r'.createdAt ≤ r.createdAt :=
      ⟨fun r r' => Nat.le_total _ _⟩
    have : IsTrans Backup fun r r' => r'.createdAt ≤ r.createdAt :=
      ⟨fun _ _ _ h h' => Nat.le_trans h' h⟩
    exact List.pairwise_insertionSort _ _

/-- The condition `tenant_id = $1`, with `AND status = $2` when a status is
asked for. -/
def Backup.matches (tenantId : Uuid) (status : Option String) (r : Backup) : Bool :=
  r.tenantId = tenantId && status.all (r.status = ·)

def Table.matching (t : Table) (tenantId : Uuid) (status : Option String) : List Backup :=
  t.rows.filter (Backup.matches tenantId status)

/-- `LIMIT $1 OFFSET $2`. -/
def window (limit offset : ℤ) (rows : List Backup) : List Backup :=
  (rows.drop offset.toNat).take limit.toNat

/-- One page of the tenant's rows. -/
def Table.page (t : Table) (order : RowOrder) (tenantId : Uuid) (status : Option String)
    (limit offset : ℤ) : List Backup :=
  window limit offset (order.sort (t.matching tenantId status))

def Table.count (t : Table) (tenantId : Uuid) (status : Option String) : ℤ :=
  (t.matching tenantId status).length

theorem mem_of_mem_page {t : Table} {order : RowOrder} {tenantId : Uuid} {status : Option String}
    {limit offset : ℤ} {r : Backup} (h : r ∈ t.page order tenantId status limit offset) :
    r ∈ t.rows ∧ r.tenantId = tenantId := by
  have hsort : r ∈ order.sort (t.matching tenantId status) :=
    List.mem_of_mem_drop (List.mem_of_mem_take h)
  have hmem : r ∈ t.matching tenantId status := (order.perm _).mem_iff.mp hsort
  obtain ⟨hr, hm⟩ := List.mem_filter.mp hmem
  refine ⟨hr, ?_⟩
  simp only [Backup.matches, Bool.and_eq_true, decide_eq_true_eq] at hm
  exact hm.1

/-! ### Statements -/

/-- The statements of the service. -/
inductive Sql
  /-- `create_backup` -/
  | insertBackup (tenantId : Uuid) (sourcePath : String) (encryptionEnabled : Bool)
  /-- `get_backup`, `analyze_backup`, `enqueue_backup` -/
  | selectBackup (id tenantId : Uuid)
  /-- `list_backups`, the page -/
  | selectBackups (tenantId : Uuid) (status : Option String) (limit offset : ℤ)
  /-- `list_backups`, the count -/
  | countBackups (tenantId : Uuid) (status : Option String)
  /-- `update_backup` -/
  | updateBackup (id tenantId : Uuid) (status : Option String) (sizeBytes : Option ℤ)
  /-- `delete_backup` -/
  | deleteBackup (id tenantId : Uuid)
  /-- `update_status` -/
  | setStatus (id : Uuid) (status : String)
  /-- `report_result`, `status = 'completed'` -/
  | setCompleted (id : Uuid) (sizeBytes : ℤ)
  /-- `report_result`, `status = 'failed'` -/
  | setFailed (id : Uuid)
  deriving DecidableEq, Repr

/-- What a statement returns: rows for `RETURNING` and `SELECT`, the number
of affected rows otherwise. -/
def Sql.Answer : Sql → Type
  | insertBackup .. => Backup
  | selectBackup .. => Option Backup
  | selectBackups .. => List Backup
  | countBackups .. => ℤ
  | updateBackup .. => Option Backup
  | deleteBackup .. => ℕ
  | setStatus .. => ℕ
  | setCompleted .. => ℕ
  | setFailed .. => ℕ

/-- The values of the column defaults and of `now()` for one request. -/
structure Oracle where
  newId : Uuid
  now : Timestamp
  deriving DecidableEq, Repr

/-- `TEXT` holds any character but U+0000. -/
def storable (s : String) : Bool := !s.toList.contains '\x00'

/-- The row an `INSERT` of `create_backup` makes. -/
def newBackup (oracle : Oracle) (tenantId : Uuid) (sourcePath : String)
    (encryptionEnabled : Bool) : Backup where
  id := oracle.newId
  tenantId := tenantId
  sourcePath := sourcePath
  sizeBytes := 0
  status := "pending"
  encryptionEnabled := encryptionEnabled
  createdAt := oracle.now
  updatedAt := oracle.now

/-- What the server does with a statement. -/
def Sql.exec (order : RowOrder) (oracle : Oracle) : (s : Sql) → Table → Except SqlError s.Answer × Table
  | .insertBackup tenantId sourcePath encryptionEnabled, t =>
      if storable sourcePath then
        let row := newBackup oracle tenantId sourcePath encryptionEnabled
        let r := t.insert row
        (r.map fun _ => row, r.toOption.getD t)
      else (.error .invalidByteSequence, t)
  | .selectBackup id tenantId, t =>
      (.ok (t.rows.find? fun r => r.id = id && r.tenantId = tenantId), t)
  | .selectBackups tenantId status limit offset, t =>
      if status.all storable then (.ok (t.page order tenantId status limit offset), t)
      else (.error .invalidByteSequence, t)
  | .countBackups tenantId status, t =>
      if status.all storable then (.ok (t.count tenantId status), t)
      else (.error .invalidByteSequence, t)
  | .updateBackup id tenantId status sizeBytes, t =>
      let r := t.update (fun r => r.id = id && r.tenantId = tenantId) { status, sizeBytes } oracle.now
      (r.1.map List.head?, r.2)
  | .deleteBackup id tenantId, t =>
      let p := fun r : Backup => r.id = id && r.tenantId = tenantId
      (.ok (t.rows.countP p), t.delete p)
  | .setStatus id status, t =>
      if storable status then
        let r := t.update (fun r => r.id = id) { status := some status } oracle.now
        (r.1.map List.length, r.2)
      else (.error .invalidByteSequence, t)
  | .setCompleted id sizeBytes, t =>
      let r := t.update (fun r => r.id = id)
        { status := some "completed", sizeBytes := some sizeBytes } oracle.now
      (r.1.map List.length, r.2)
  | .setFailed id, t =>
      let r := t.update (fun r => r.id = id) { status := some "failed" } oracle.now
      (r.1.map List.length, r.2)

end BackupService
