import BackupService.History

/-!
The sizes in the table.

A size is the default of the column, or it comes from the body of a PATCH
request, or from a report. None of the three paths looks at its sign, and
neither does the schema. So the sizes stay non-negative exactly as long as no
write with a negative one is committed.
-/

namespace BackupService

open Lib

/-- No row has a negative size. -/
def Table.Sized (t : Table) : Prop := ∀ r ∈ t.rows, 0 ≤ r.sizeBytes

theorem Table.sized_empty : Table.empty.Sized := by simp [Table.Sized, Table.empty]

theorem sized_iff {t : Table} : t.Sized ↔ ∀ id r, t.find id = some r → 0 ≤ r.sizeBytes := by
  constructor
  · intro h id r hr
    exact h r (Table.find_eq_some.mp hr).1
  · intro h r hr
    exact h r.id r (Table.find_eq_some.mpr ⟨hr, rfl⟩)

/-- The event commits no write that names a negative size. -/
def State.CommitsSized (uuid : UuidParser) (s : State) (e : Event) : Prop :=
  ∀ id w n, s.committed uuid e = some (id, w) → w.named.sizeBytes = some n → 0 ≤ n

section Sizes

variable {uuid : UuidParser} {replicas : ℕ → Replica} {s : State} {e : Event} {id : Uuid} {w : Write}

/-- The size of a row that a write has made or changed. -/
theorem Write.Takes.sizeBytes {row : Option Backup} {r : Backup} (h : w.Takes id row (some r)) :
    r.sizeBytes = w.named.sizeBytes.getD ((row.map Backup.sizeBytes).getD 0) := by
  cases h with
  | created => rfl
  | patched => rfl
  | called => rfl

/-- A write that names a size is to a row that is there, and stays. -/
theorem Write.Takes.isSome {row row' : Option Backup} {n : ℤ} (h : w.Takes id row row')
    (hn : w.named.sizeBytes = some n) : ∃ r, row' = some r := by
  cases h with
  | created => cases hn
  | deleted => cases hn
  | patched => exact ⟨_, rfl⟩
  | called => exact ⟨_, rfl⟩

/-- What an event makes of the sizes. -/
theorem step_sized (h : s.Issuing) (hs : s.store.db.Sized) :
    ((system uuid).step s e).1.store.db.Sized ↔ s.CommitsSized uuid e := by
  constructor
  · intro hsized id w n hcommitted hn
    obtain ⟨w', hcommitted', htakes⟩ | ⟨hnone, -⟩ := step_find uuid h e id
    · obtain rfl : w' = w := by
        rw [hcommitted] at hcommitted'
        exact (Prod.mk.inj (Option.some.inj hcommitted')).2.symm
      obtain ⟨r, hr⟩ := htakes.isSome hn
      rw [hr] at htakes
      have hsize := htakes.sizeBytes
      rw [hn, Option.getD_some] at hsize
      rw [← hsize]
      exact sized_iff.mp hsized id r hr
    · exact absurd hcommitted (hnone w)
  · intro hcommits
    refine sized_iff.mpr fun id r hr => ?_
    obtain ⟨w, hcommitted, htakes⟩ | ⟨-, hsame⟩ := step_find uuid h e id
    · rw [hr] at htakes
      rw [htakes.sizeBytes]
      cases hn : w.named.sizeBytes with
      | some n => exact hcommits id w n hcommitted hn
      | none =>
          cases hold : s.store.db.find id with
          | none => exact Int.le_refl 0
          | some r' => exact sized_iff.mp hs id r' hold
    · rw [hsame] at hr
      exact sized_iff.mp hs id r hr

/-- **When sizes are never negative.** Over any run, no row ever has a
negative size exactly if no committed write names one. -/
theorem sizes_never_negative_iff (uuid : UuidParser) (replicas : ℕ → Replica) {db : Table}
    (hdb : db.Sized) (es : List Event) :
    (∀ pre, pre <+: es → ((system uuid).run (.initial db replicas) pre).store.db.Sized) ↔
      (system uuid).Along (State.CommitsSized uuid) (.initial db replicas) es :=
  (system uuid).forall_prefix_iff_along (P := fun s => s.store.db.Sized)
    (fun _ e hs _ => issuing_step hs e) (fun _ _ hs hsized => step_sized hs hsized)
    (issuing_initial db replicas) hdb

end Sizes

/-! ### A negative size -/

section Negative

/-- Backup `7` is created. -/
def created : List Event :=
  let step : Event := .step ⟨⟨1⟩, 0⟩ {}
  [.start 0 0 ⟨"user", ⟨1⟩, [], 0, 0⟩ (.create ⟨"/data", false⟩) ⟨⟨7⟩, 0⟩, step, step]

/-- A worker reports the size of backup `7`. -/
def reported (sizeBytes : ℤ) : Event :=
  .rpc (.reportResult ⟨Uuid.toString ⟨7⟩, "completed", sizeBytes, ⟨[]⟩, false, ""⟩) ⟨⟨0⟩, 1⟩ {}

/-- One process, without a cache. -/
def oneReplica : ℕ → Replica := fun _ => ⟨⟨.noop, false⟩, .default⟩

/-- A PATCH and a report name sizes of backup `7`. -/
def resized : List Event :=
  let step : Event := .step ⟨⟨1⟩, 1⟩ {}
  created ++ [.start 0 1 ⟨"user", ⟨1⟩, [], 0, 0⟩ (.update ⟨7⟩ ⟨none, some 5⟩) ⟨⟨0⟩, 1⟩, step, step,
    reported 10]

theorem sizes_never_negative_iff_resized :
    [created.length + 2, resized.length].map (fun n => ((system .hyphenated).run
      (.initial .empty oneReplica) (resized.take n)).store.db.rows.map Backup.sizeBytes) =
        [[5], [10]] ∧
    ((∀ pre, pre <+: resized → ((system .hyphenated).run (.initial .empty oneReplica)
        pre).store.db.Sized) ↔
      (system .hyphenated).Along (State.CommitsSized .hyphenated) (.initial .empty oneReplica)
        resized) :=
  ⟨by decide +kernel, sizes_never_negative_iff .hyphenated oneReplica Table.sized_empty resized⟩

/-- A report with a negative size is acknowledged, and the row has it. -/
theorem not_sizes_never_negative :
    (((system .hyphenated).run (.initial .empty oneReplica)
      (created ++ [reported (-1)])).store.db.rows.map Backup.sizeBytes) = [-1] := by
  decide +kernel

end Negative

end BackupService
