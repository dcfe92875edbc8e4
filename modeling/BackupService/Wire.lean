import BackupService.Extract
import BackupService.Lib.JsonText
import BackupService.Operations

/-!
The texts in Redis and on the queue.

Redis has strings under strings, and the queue has texts: `CacheLayer` forms
the keys and writes backups and pages as JSON, `publish_job` writes the jobs,
and what is read from either is parsed again. What has been written can be
read (`CacheValue.read_text`, `Message.read_text`), as long as the numbers are
64-bit integers, and the keys are different texts (`Key.text_injective`).
-/

namespace BackupService

open Lib Json JsonText

/-! ### Formats -/

/-- What the formats leave to other crates: UUIDs, `chrono`'s text of a
`DateTime<Utc>`, and what `serde_json` says about a text that is no job. -/
structure Wire where
  uuid : UuidParser
  formatTime : Timestamp → String
  parseTime : String → Option Timestamp
  parse_formatTime : ∀ t, parseTime (formatTime t) = some t
  jobError : String → String

variable (w : Wire)

def Wire.asUuid : Decoder Uuid := fun j => (asString j).bind fun s => (w.uuid.parse s).toOption

def Wire.asTime : Decoder Timestamp := fun j => (asString j).bind w.parseTime

/-- `Serialize for Backup` -/
def Backup.serialize (b : Backup) : Json :=
  .object [("id", .string b.id.toString), ("tenant_id", .string b.tenantId.toString),
    ("source_path", .string b.sourcePath), ("size_bytes", .int b.sizeBytes),
    ("status", .string b.status), ("encryption_enabled", .bool b.encryptionEnabled),
    ("created_at", .string (w.formatTime b.createdAt)),
    ("updated_at", .string (w.formatTime b.updatedAt))]

/-- `Deserialize for Backup` -/
def Backup.deserialize : Decoder Backup := fun j => do
  let m ← j.members ["id", "tenant_id", "source_path", "size_bytes", "status",
    "encryption_enabled", "created_at", "updated_at"]
  let id ← m.required "id" w.asUuid
  let tenantId ← m.required "tenant_id" w.asUuid
  let sourcePath ← m.required "source_path" asString
  let sizeBytes ← m.required "size_bytes" asI64
  let status ← m.required "status" asString
  let encryptionEnabled ← m.required "encryption_enabled" asBool
  let createdAt ← m.required "created_at" w.asTime
  let updatedAt ← m.required "updated_at" w.asTime
  return { id, tenantId, sourcePath, sizeBytes, status, encryptionEnabled, createdAt, updatedAt }

/-- `Serialize for BackupJob` -/
def BackupJob.serialize (job : BackupJob) : Json :=
  .object [("backup_id", .string job.backupId.toString), ("tenant_id", .string job.tenantId.toString),
    ("source_path", .string job.sourcePath), ("encryption_enabled", .bool job.encryptionEnabled)]

/-- `Deserialize for BackupJob` -/
def BackupJob.deserialize : Decoder BackupJob := fun j => do
  let m ← j.members ["backup_id", "tenant_id", "source_path", "encryption_enabled"]
  let backupId ← m.required "backup_id" w.asUuid
  let tenantId ← m.required "tenant_id" w.asUuid
  let sourcePath ← m.required "source_path" asString
  let encryptionEnabled ← m.required "encryption_enabled" asBool
  return { backupId, tenantId, sourcePath, encryptionEnabled }

/-- `(Vec<Backup>, i64)` -/
def deserializePage : Decoder (List Backup × ℤ)
  | .array [.array items, total] => do
      let items ← items.mapM (Backup.deserialize w)
      let total ← asI64 total
      return (items, total)
  | _ => none

def CacheValue.serialize : CacheValue → Json
  | .backup b => b.serialize w
  | .page items total => .array [.array (items.map (Backup.serialize w)), .int total]

/-- `serde_json::to_string` -/
def CacheValue.text (v : CacheValue) : String := print (v.serialize w)

/-- `format!("backup:{id}")`, `format!("tenant_backups:{tenant_id}")` -/
def Key.text : Key → String
  | .backup id => "backup:" ++ id.toString
  | .tenantBackups tenantId => "tenant_backups:" ++ tenantId.toString

/-- `serde_json::from_str(..).ok()`, at the type that is asked for. -/
def Key.read : Key → String → Option CacheValue
  | .backup _, s => ((parse s).bind (Backup.deserialize w)).map .backup
  | .tenantBackups _, s => ((parse s).bind (deserializePage w)).map fun p => .page p.1 p.2

/-- `serde_json::to_vec` -/
def BackupJob.text (job : BackupJob) : String := print job.serialize

/-- `serde_json::from_slice::<BackupJob>`. Half of a surrogate pair is refused
here in a field that is skipped too, where `serde_json` does not look at it;
no text of a job has one (`Message.read_text`). -/
def Message.read (s : String) : Message :=
  match (parse s).bind (BackupJob.deserialize w) with
  | some j => .job j
  | none => .malformed (w.jobError s)

/-! ### What is written can be read -/

def FitsI64 (n : ℤ) : Prop := -9223372036854775808 ≤ n ∧ n < 9223372036854775808

def Backup.Fits (b : Backup) : Prop := FitsI64 b.sizeBytes

def CacheValue.Fits : CacheValue → Prop
  | .backup b => b.Fits
  | .page items total => (∀ b ∈ items, b.Fits) ∧ FitsI64 total

/-- What is put under a key has the type that is read from it. -/
def Key.Holds : Key → CacheValue → Prop
  | .backup _, .backup _ => True
  | .tenantBackups _, .page _ _ => True
  | _, _ => False

section RoundTrip

variable {w}

theorem asUuid_toString (u : Uuid) : w.asUuid (.string u.toString) = some u := by
  rw [Wire.asUuid, asString, Option.bind_some, w.uuid.parse_toString]
  rfl

theorem asTime_formatTime (t : Timestamp) : w.asTime (.string (w.formatTime t)) = some t :=
  w.parse_formatTime t

theorem asI64_int {n : ℤ} (h : FitsI64 n) : asI64 (.int n) = some n :=
  asInt_eq_some.mpr ⟨rfl, h⟩

theorem members_object {keys : List String} {ms : List (String × Json)}
    (h : ((ms.map Prod.fst).filter (· ∈ keys)).Nodup) :
    (Json.object ms).members keys = some ⟨(List.lookup · ms), false⟩ := if_pos h

theorem required_bind {α β : Type} {m : Members} {key : String} {decode : Decoder α} {j : Json}
    {a : α} {f : α → Option β} (hj : m.given key = some j) (ha : decode j = some a) :
    (m.required key decode >>= f) = f a := by
  rw [Members.required, hj, Option.bind_some, ha]
  rfl

theorem Backup.deserialize_serialize {b : Backup} (h : b.Fits) :
    Backup.deserialize w (b.serialize w) = some b := by
  rw [Backup.deserialize, Backup.serialize,
    members_object (by simp only [List.map_cons, List.map_nil]; decide)]
  refine (required_bind rfl (asUuid_toString b.id)).trans ?_
  refine (required_bind rfl (asUuid_toString b.tenantId)).trans ?_
  refine (required_bind (a := b.sourcePath) rfl rfl).trans ?_
  refine (required_bind rfl (asI64_int h)).trans ?_
  refine (required_bind (a := b.status) rfl rfl).trans ?_
  refine (required_bind (a := b.encryptionEnabled) rfl rfl).trans ?_
  refine (required_bind rfl (asTime_formatTime b.createdAt)).trans ?_
  exact required_bind rfl (asTime_formatTime b.updatedAt)

theorem BackupJob.deserialize_serialize (job : BackupJob) :
    BackupJob.deserialize w job.serialize = some job := by
  rw [BackupJob.deserialize, BackupJob.serialize,
    members_object (by simp only [List.map_cons, List.map_nil]; decide)]
  refine (required_bind rfl (asUuid_toString job.backupId)).trans ?_
  refine (required_bind rfl (asUuid_toString job.tenantId)).trans ?_
  refine (required_bind (a := job.sourcePath) rfl rfl).trans ?_
  exact required_bind (a := job.encryptionEnabled) rfl rfl

theorem mapM_deserialize {items : List Backup} (h : ∀ b ∈ items, b.Fits) :
    (items.map (Backup.serialize w)).mapM (Backup.deserialize w) = some items := by
  induction items with
  | nil => rfl
  | cons b items ih =>
      obtain ⟨hb, hitems⟩ := List.forall_mem_cons.mp h
      rw [List.map_cons, List.mapM_cons, Backup.deserialize_serialize hb, ih hitems]
      rfl

theorem deserializePage_serialize {items : List Backup} {total : ℤ}
    (h : (CacheValue.page items total).Fits) :
    deserializePage w ((CacheValue.page items total).serialize w) = some (items, total) := by
  rw [CacheValue.serialize, deserializePage, mapM_deserialize h.1, asI64_int h.2]
  rfl

theorem Backup.valid (b : Backup) : Valid (b.serialize w) := by
  refine valid_object.mpr ?_
  simp only [validMembers_cons, valid_string, valid_int, valid_bool, true_and]
  trivial

theorem BackupJob.valid (job : BackupJob) : Valid job.serialize := by
  refine valid_object.mpr ?_
  simp only [validMembers_cons, valid_string, valid_bool, true_and]
  trivial

theorem valid_items (items : List Backup) : ValidItems (items.map (Backup.serialize w)) := by
  induction items with
  | nil => trivial
  | cons b items ih => exact ⟨b.valid, ih⟩

theorem CacheValue.valid (v : CacheValue) : Valid (v.serialize w) := by
  cases v with
  | backup b => exact b.valid
  | page items total => exact ⟨valid_items items, trivial, trivial⟩

/-- What has been cached is read as it was. -/
theorem CacheValue.read_text {key : Key} {v : CacheValue} (hkey : key.Holds v) (h : v.Fits) :
    key.read w (v.text w) = some v := by
  have hparse : parse (v.text w) = some (v.serialize w) := parse_print v.valid
  cases key with
  | backup id =>
      cases v with
      | backup b =>
          have hread : Backup.deserialize w ((CacheValue.backup b).serialize w) = some b :=
            Backup.deserialize_serialize h
          rw [Key.read, hparse, Option.bind_some, hread, Option.map_some]
      | page items total => exact hkey.elim
  | tenantBackups tenantId =>
      cases v with
      | backup b => exact hkey.elim
      | page items total =>
          rw [Key.read, hparse, Option.bind_some, deserializePage_serialize h, Option.map_some]

/-- What has been published is read as a job. -/
theorem Message.read_text (job : BackupJob) : Message.read w job.text = .job job := by
  have hparse : parse job.text = some job.serialize := parse_print job.valid
  rw [Message.read, hparse, Option.bind_some, BackupJob.deserialize_serialize]

end RoundTrip

theorem Uuid.toString_injective : Function.Injective Uuid.toString := by
  intro u u' h
  have hparse := UuidParser.hyphenated.parse_toString u
  rw [h, UuidParser.hyphenated.parse_toString u'] at hparse
  exact (Except.ok.inj hparse).symm

theorem Key.text_injective : Function.Injective Key.text := by
  intro key key' h
  have hlist := congrArg String.toList h
  cases key with
  | backup id =>
      cases key' with
      | backup id' =>
          rw [Key.text, Key.text, String.toList_append, String.toList_append] at hlist
          exact congrArg _ (Uuid.toString_injective
            (String.toList_inj.mp (List.append_cancel_left hlist)))
      | tenantBackups tenantId =>
          rw [Key.text, Key.text, String.toList_append, String.toList_append] at hlist
          cases (List.cons.inj hlist).1
  | tenantBackups tenantId =>
      cases key' with
      | backup id =>
          rw [Key.text, Key.text, String.toList_append, String.toList_append] at hlist
          cases (List.cons.inj hlist).1
      | tenantBackups tenantId' =>
          rw [Key.text, Key.text, String.toList_append, String.toList_append] at hlist
          exact congrArg _ (Uuid.toString_injective
            (String.toList_inj.mp (List.append_cancel_left hlist)))

end BackupService
