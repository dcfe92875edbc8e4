import BackupService.Lib.LastWrite
import BackupService.Writes

/-!
The history of a row.

The writes to an identifier, in the order in which the database has
committed them, say everything about the row that is there now: it is the
row of the last create request among them, with the status and the size
that were named last since then. Nobody but its own tenant and the
callbacks is among them.
-/

namespace BackupService

open Lib

/-- The committed writes to the row, in order. -/
def State.writes (uuid : UuidParser) (id : Uuid) (s : State) (es : List Event) : List Write :=
  (system uuid).gather (fun s e =>
    (((s.committed uuid e).filter fun x => x.1 = id).map Prod.snd).toList) s es

/-- The write neither makes a row nor removes one. -/
def Write.modifies : Write → Bool
  | request _ (.update _ _) _ => true
  | callback _ => true
  | _ => false

/-- The row that the create request has inserted, after the writes since. -/
structure WrittenBy (claims : Claims) (req : CreateBackupRequest) (oracle : Oracle)
    (since : List Write) (r : Backup) : Prop where
  id : r.id = oracle.newId
  tenantId : r.tenantId = claims.tenantId
  sourcePath : r.sourcePath = req.sourcePath
  encryptionEnabled : r.encryptionEnabled = req.encryptionEnabled
  createdAt : r.createdAt = oracle.now
  path : validateSourcePath req.sourcePath = .ok ()
  status : r.status = lastWrite (fun w : Write => w.named.status) since "pending"
  sizeBytes : r.sizeBytes = lastWrite (fun w : Write => w.named.sizeBytes) since 0
  modified : ∀ w ∈ since, w.modifies = true
  own : ∀ claims' request' oracle', .request claims' request' oracle' ∈ since →
    claims'.tenantId = r.tenantId

theorem writtenBy_created {claims : Claims} {req : CreateBackupRequest} {oracle : Oracle}
    (hpath : validateSourcePath req.sourcePath = .ok ()) : WrittenBy claims req oracle []
      (newBackup oracle claims.tenantId req.sourcePath req.encryptionEnabled) where
  id := rfl
  tenantId := rfl
  sourcePath := rfl
  encryptionEnabled := rfl
  createdAt := rfl
  path := hpath
  status := rfl
  sizeBytes := rfl
  modified _ hw := nomatch hw
  own _ _ _ hw := nomatch hw

/-- A write that names some columns sets these, and leaves the others alone. -/
theorem WrittenBy.concat {claims : Claims} {req : CreateBackupRequest} {oracle : Oracle}
    {since : List Write} {r : Backup} {w : Write} {now : Timestamp}
    (h : WrittenBy claims req oracle since r) (hmodifies : w.modifies = true)
    (hown : ∀ claims' request' oracle', w = .request claims' request' oracle' →
      claims'.tenantId = r.tenantId) :
    WrittenBy claims req oracle (since ++ [w]) (w.named.apply now r) where
  id := h.id
  tenantId := h.tenantId
  sourcePath := h.sourcePath
  encryptionEnabled := h.encryptionEnabled
  createdAt := h.createdAt
  path := h.path
  status := by
    rw [lastWrite_concat, ← h.status]
    rfl
  sizeBytes := by
    rw [lastWrite_concat, ← h.sizeBytes]
    rfl
  modified w' hw' := by
    rcases List.mem_append.mp hw' with hold | hnew
    · exact h.modified w' hold
    · rw [List.mem_singleton.mp hnew]
      exact hmodifies
  own claims' request' oracle' hw' := by
    rcases List.mem_append.mp hw' with hold | hnew
    · exact h.own claims' request' oracle' hold
    · exact hown _ _ _ (List.mem_singleton.mp hnew).symm

section Runs

variable {uuid : UuidParser} {replicas : ℕ → Replica}

theorem writes_concat (id : Uuid) (s : State) (es : List Event) (e : Event) :
    s.writes uuid id (es ++ [e]) = s.writes uuid id es ++
      ((((((system uuid).run s es).committed uuid e).filter fun x => x.1 = id).map
        Prod.snd)).toList :=
  Machine.gather_concat ..

variable (uuid replicas) in
theorem run_issuing (db : Table) (es : List Event) :
    ((system uuid).run (.initial db replicas) es).Issuing := by
  induction es using Machine.run_induction with
  | hnil => exact issuing_initial db replicas
  | hsnoc es e ih =>
      rw [Machine.run_concat]
      exact issuing_step ih e

/-- The row of an identifier is what its writes say. -/
theorem run_writtenBy (es : List Event) (id : Uuid) (r : Backup)
    (hr : ((system uuid).run (.initial .empty replicas) es).store.db.find id = some r) :
    ∃ before claims req oracle since, State.writes uuid id (.initial .empty replicas) es =
      before ++ .request claims (.create req) oracle :: since ∧
        WrittenBy claims req oracle since r := by
  induction es using Machine.run_induction generalizing r with
  | hnil => cases hr
  | hsnoc es e ih =>
      rw [Machine.run_concat] at hr
      rw [writes_concat]
      have hissuing := run_issuing uuid replicas .empty es
      generalize (system uuid).run (.initial .empty replicas) es = s at hr ih hissuing ⊢
      rcases step_find uuid hissuing e id with ⟨w, hcommitted, htakes⟩ | ⟨hnone, hsame⟩
      · have hnew : (((s.committed uuid e).filter fun x => x.1 = id).map Prod.snd).toList = [w] := by
          rw [hcommitted, Option.filter_some, if_pos (by simp)]
          rfl
        rw [hr] at htakes
        rw [hnew]
        generalize hold : s.store.db.find id = row at htakes
        cases htakes with
        | created hpath hid => exact ⟨_, _, _, _, [], rfl, writtenBy_created hpath⟩
        | patched htenant =>
            obtain ⟨before, claims, req, oracle, since, heq, hwritten⟩ := ih _ hold
            refine ⟨before, claims, req, oracle, since ++ [_],
              by rw [heq, List.append_assoc, List.cons_append],
              hwritten.concat rfl fun claims' request' oracle' hw => ?_⟩
            obtain ⟨rfl, -, -⟩ := Write.request.inj hw
            exact htenant.symm
        | called =>
            obtain ⟨before, claims, req, oracle, since, heq, hwritten⟩ := ih _ hold
            exact ⟨before, claims, req, oracle, since ++ [_],
              by rw [heq, List.append_assoc, List.cons_append],
              hwritten.concat rfl fun _ _ _ hw => nomatch hw⟩
      · -- Whatever the event has committed, it is about another row.
        have hnew : (((s.committed uuid e).filter fun x => x.1 = id).map Prod.snd).toList = [] := by
          cases hcommitted : s.committed uuid e with
          | none => rfl
          | some x =>
              obtain ⟨id', w⟩ := x
              have hid : id' ≠ id := by
                rintro rfl
                exact hnone w hcommitted
              rw [Option.filter_some, if_neg (by simpa using hid)]
              rfl
        rw [hnew, List.append_nil]
        exact ih r (hsame ▸ hr)

end Runs

/-- **The history of a row.** In every state that the service reaches from
an empty table, every row is the one that the last create request among the
writes to its identifier has inserted, with the status and the size that the
writes since then have named last, and these are by requests of its tenant
and by callbacks. No request of another tenant writes to it or deletes it. -/
theorem row_history (uuid : UuidParser) (replicas : ℕ → Replica) (es : List Event) :
    (∀ r ∈ ((system uuid).run (.initial .empty replicas) es).store.db.rows,
      ∃ before claims req oracle since, State.writes uuid r.id (.initial .empty replicas) es =
        before ++ .request claims (.create req) oracle :: since ∧
          WrittenBy claims req oracle since r) ∧
    ∀ pre e, pre ++ [e] <+: es →
      ∀ r ∈ ((system uuid).run (.initial .empty replicas) pre).store.db.rows,
      ∀ claims request oracle, ((system uuid).run (.initial .empty replicas) pre).committed uuid e =
        some (r.id, .request claims request oracle) → claims.tenantId = r.tenantId := by
  refine ⟨fun r hr => run_writtenBy es r.id r (Table.find_eq_some.mpr ⟨hr, rfl⟩), ?_⟩
  intro pre e _ r hr claims request oracle hcommitted
  have hfind := Table.find_eq_some.mpr ⟨hr, rfl⟩
  rcases step_find uuid (run_issuing uuid replicas .empty pre) e r.id with
    ⟨w, hcommitted', htakes⟩ | ⟨hnone, -⟩
  · obtain rfl : w = .request claims request oracle := by
      rw [hcommitted] at hcommitted'
      exact (Prod.mk.inj (Option.some.inj hcommitted')).2.symm
    rw [hfind] at htakes
    generalize ((system uuid).step _ e).1.store.db.find r.id = row at htakes
    cases htakes with
    | patched htenant => exact htenant.symm
    | deleted htenant => exact htenant.symm
  · exact (hnone _ hcommitted).elim

end BackupService
