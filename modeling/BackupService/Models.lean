import Mathlib.Algebra.Group.Nat.Defs
import Mathlib.Data.Int.Notation
import Mathlib.Data.List.Basic
import Mathlib.Data.Nat.Notation

/-!
The data of the service: identifiers, the row of a backup, and the bodies
of requests and responses.

Signed 64-bit fields are integers and unsigned ones are `UInt64`; nothing
in the handlers adds to the former, so only the latter need their width.
Instants are counted in nanoseconds, which is the resolution of the
monotonic clock, and database timestamps are natural numbers that nothing
but `ORDER BY` looks at.
-/

namespace BackupService

/-- A duration of whole seconds, in nanoseconds. -/
def secs (n : ℕ) : ℕ := n * 1000000000

/-- A `TIMESTAMPTZ` value. -/
abbrev Timestamp := ℕ

/-! ### UUIDs and their text form -/

structure Uuid where
  bits : BitVec 128
  deriving DecidableEq, Repr

/-- The `n` lowest hexadecimal digits of `x`, the most significant first. -/
def hexDigits : ℕ → ℕ → List Char
  | 0, _ => []
  | n + 1, x => hexDigits n (x / 16) ++ [Nat.digitChar (x % 16)]

/-- The hyphenated form `8-4-4-4-12`. -/
def Uuid.toString (u : Uuid) : String :=
  let ds := hexDigits 32 u.bits.toNat
  String.ofList (ds.take 8 ++ '-' :: (ds.drop 8).take 4 ++ '-' :: (ds.drop 12).take 4 ++
    '-' :: (ds.drop 16).take 4 ++ '-' :: ds.drop 20)

/-- `parse::<Uuid>()` of the `uuid` crate. It accepts several text forms;
all that is relied on is that it reads back what `Uuid.toString` writes. -/
structure UuidParser where
  parse : String → Except String Uuid
  parse_toString : ∀ u : Uuid, parse u.toString = .ok u

section Hyphenated

/-- The number a hexadecimal digit stands for. -/
def hexValue (c : Char) : ℕ := if c.toNat < 58 then c.toNat - 48 else c.toNat - 87

def hexNumber (ds : List Char) : ℕ := ds.foldl (fun v c => v * 16 + hexValue c) 0

theorem hexValue_digitChar : ∀ d < 16, hexValue (Nat.digitChar d) = d := by decide

theorem digitChar_ne_hyphen : ∀ d < 16, Nat.digitChar d ≠ '-' := by decide

theorem hexNumber_hexDigits (n x : ℕ) : hexNumber (hexDigits n x) = x % 16 ^ n := by
  induction n generalizing x with
  | zero => simp [hexDigits, hexNumber, Nat.mod_one]
  | succ n ih =>
      have hlast : hexValue (Nat.digitChar (x % 16)) = x % 16 :=
        hexValue_digitChar _ (Nat.mod_lt _ (by decide))
      have hsplit : x / 16 % 16 ^ n * 16 + x % 16 = x % 16 ^ (n + 1) := by
        rw [Nat.pow_succ', Nat.mod_mul]
        omega
      have ih := ih (x / 16)
      rw [hexNumber] at ih
      rw [hexDigits, hexNumber, List.foldl_append, List.foldl_cons, List.foldl_nil, ih, hlast, hsplit]

theorem ne_hyphen_of_mem_hexDigits {n x : ℕ} {c : Char} (hc : c ∈ hexDigits n x) : c ≠ '-' := by
  induction n generalizing x with
  | zero => simp [hexDigits] at hc
  | succ n ih =>
      rw [hexDigits, List.mem_append, List.mem_singleton] at hc
      rcases hc with hc | rfl
      · exact ih hc
      · exact digitChar_ne_hyphen _ (Nat.mod_lt _ (by decide))

theorem filter_toString (u : Uuid) :
    u.toString.toList.filter (· ≠ '-') = hexDigits 32 u.bits.toNat := by
  let ds := hexDigits 32 u.bits.toNat
  have hkeep : ∀ l : List Char, l.Sublist ds → l.filter (· ≠ '-') = l := fun l hl =>
    List.filter_eq_self.mpr fun c hc => by
      simpa using ne_hyphen_of_mem_hexDigits (hl.subset hc)
  have hpart : ∀ m n, ((ds.drop m).take n).filter (· ≠ '-') = (ds.drop m).take n := fun m n =>
    hkeep _ ((List.take_sublist _ _).trans (List.drop_sublist _ _))
  have hcat : ∀ m n, (ds.drop m).take n ++ ds.drop (m + n) = ds.drop m := fun m n => by
    rw [← List.drop_drop, List.take_append_drop]
  calc u.toString.toList.filter (· ≠ '-')
      = ds.take 8 ++ ((ds.drop 8).take 4 ++ ((ds.drop 12).take 4 ++
          ((ds.drop 16).take 4 ++ ds.drop 20))) := by
        rw [Uuid.toString, String.toList_ofList]
        simp only [List.filter_append, List.filter_cons, ne_eq, not_true, decide_false, if_false,
          Bool.false_eq_true]
        rw [hpart 8 4, hpart 12 4, hpart 16 4, hkeep _ (List.take_sublist _ _),
          hkeep _ (List.drop_sublist _ _)]
        simp only [List.append_assoc]
    _ = ds := by
        rw [hcat 16 4, hcat 12 4, hcat 8 4, List.take_append_drop]

/-- A parser for the one form that `Uuid.toString` writes. -/
def UuidParser.hyphenated : UuidParser where
  parse text :=
    let u : Uuid := ⟨BitVec.ofNat 128 (hexNumber (text.toList.filter (· ≠ '-')))⟩
    if u.toString = text then .ok u else .error "invalid UUID"
  parse_toString u := by
    have hu : (⟨BitVec.ofNat 128 (hexNumber (u.toString.toList.filter (· ≠ '-')))⟩ : Uuid) = u := by
      rw [filter_toString, hexNumber_hexDigits, Nat.mod_eq_of_lt (by simpa using u.bits.isLt),
        BitVec.ofNat_toNat, BitVec.setWidth_eq]
    simp only [hu, if_true]

end Hyphenated

/-! ### Backups -/

inductive BackupStatus
  | pending
  | running
  | completed
  | failed
  deriving DecidableEq, Repr

def BackupStatus.toString : BackupStatus → String
  | .pending => "pending"
  | .running => "running"
  | .completed => "completed"
  | .failed => "failed"

/-- A row of the table `backups`. -/
structure Backup where
  id : Uuid
  tenantId : Uuid
  sourcePath : String
  sizeBytes : ℤ
  status : String
  encryptionEnabled : Bool
  createdAt : Timestamp
  updatedAt : Timestamp
  deriving DecidableEq, Repr

/-- A backup job message, as it is put on the queue. -/
structure BackupJob where
  backupId : Uuid
  tenantId : Uuid
  sourcePath : String
  encryptionEnabled : Bool
  deriving DecidableEq, Repr

/-- What is on the queue, as `serde_json::from_slice::<BackupJob>` reads it.
A job that has been written as JSON is read back as it was. -/
inductive Message
  | job (job : BackupJob)
  /-- The data is no job. -/
  | malformed (error : String)
  deriving DecidableEq, Repr

/-! ### Requests and responses -/

structure CreateBackupRequest where
  sourcePath : String
  encryptionEnabled : Bool := false
  deriving DecidableEq, Repr

structure UpdateBackupRequest where
  status : Option BackupStatus
  sizeBytes : Option ℤ
  deriving DecidableEq, Repr

def defaultLimit : ℤ := 20

structure ListParams where
  offset : ℤ := 0
  limit : ℤ := defaultLimit
  status : Option String
  deriving DecidableEq, Repr

/-- The number `compute_shannon_entropy` returns, kept as the sum it is
computed from: one summand `-p log₂ p` for each pair `(freq, len)`, with
`p = freq / len`, in the order of the loop. -/
structure Entropy where
  summands : List (ℕ × ℕ)
  deriving DecidableEq, Repr

structure BackupResponse where
  id : Uuid
  tenantId : Uuid
  sourcePath : String
  sizeBytes : ℤ
  status : String
  encryptionEnabled : Bool
  createdAt : Timestamp
  updatedAt : Timestamp
  entropy : Option Entropy
  deriving DecidableEq, Repr

def BackupResponse.from (b : Backup) : BackupResponse where
  id := b.id
  tenantId := b.tenantId
  sourcePath := b.sourcePath
  sizeBytes := b.sizeBytes
  status := b.status
  encryptionEnabled := b.encryptionEnabled
  createdAt := b.createdAt
  updatedAt := b.updatedAt
  entropy := none

theorem BackupResponse.from_injective : Function.Injective BackupResponse.from := by
  intro b b' h
  cases b
  cases b'
  simpa [BackupResponse.from] using h

structure ListResponse where
  items : List BackupResponse
  total : ℤ
  offset : ℤ
  limit : ℤ
  deriving DecidableEq, Repr

structure Claims where
  sub : String
  tenantId : Uuid
  roles : List String
  exp : ℕ
  iat : ℕ
  deriving DecidableEq, Repr

end BackupService
