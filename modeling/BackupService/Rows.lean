import BackupService.Statements

/-!
What a statement does to one row.

Every statement of the service names at most one row, so the row of an
identifier after a statement depends on the row before it and on nothing
else in the table (`find_exec`). What is to be shown of a row over a whole
run is then shown of `Sql.rewrite`, one statement after the other.
-/

namespace BackupService

/-- An `UPDATE ... WHERE p` as one row sees it. A row that would fail the
check on `status` makes the statement fail, and stays as it is. -/
def Backup.assign (p : Backup → Bool) (c : Assignments) (now : Timestamp) (r : Backup) : Backup :=
  if p r = true ∧ (c.apply now r).status ∈ statuses then c.apply now r else r

@[simp] theorem Backup.assign_id (p : Backup → Bool) (c : Assignments) (now : Timestamp)
    (r : Backup) : (r.assign p c now).id = r.id := by
  unfold Backup.assign
  split <;> rfl

@[simp] theorem Backup.assign_tenantId (p : Backup → Bool) (c : Assignments) (now : Timestamp)
    (r : Backup) : (r.assign p c now).tenantId = r.tenantId := by
  unfold Backup.assign
  split <;> rfl

/-- A row as the statement leaves it. -/
def Sql.rewrite (oracle : Oracle) (id : Uuid) (row : Option Backup) : Sql → Option Backup
  | .insertBackup tenantId sourcePath encryptionEnabled =>
      row.or (if oracle.newId = id ∧ storable sourcePath then
        some (newBackup oracle tenantId sourcePath encryptionEnabled) else none)
  | .selectBackup _ _ => row
  | .selectBackups _ _ _ _ => row
  | .countBackups _ _ => row
  | .updateBackup id' tenantId status sizeBytes =>
      row.map (Backup.assign (fun r => r.id = id' && r.tenantId = tenantId) { status, sizeBytes }
        oracle.now)
  | .deleteBackup id' tenantId => row.filter fun r => !(r.id = id' && r.tenantId = tenantId)
  | .setStatus id' status =>
      row.map (Backup.assign (fun r => r.id = id') { status := some status } oracle.now)
  | .setCompleted id' sizeBytes =>
      row.map (Backup.assign (fun r => r.id = id')
        { status := some "completed", sizeBytes := some sizeBytes } oracle.now)
  | .setFailed id' =>
      row.map (Backup.assign (fun r => r.id = id') { status := some "failed" } oracle.now)

section Find

variable {t : Table} {id : Uuid}

/-- An `UPDATE` whose condition holds of one row at most. -/
theorem find_update_assign {p : Backup → Bool} (c : Assignments) (now : Timestamp)
    (hp : ∀ r r', p r = true → p r' = true → r.id = r'.id) :
    (t.update p c now).2.find id = (t.find id).map (Backup.assign p c now) := by
  have hone : ∀ r ∈ t.rows, p r = true → ∀ r' ∈ t.rows, p r' = true → r' = r := fun r hr h r' hr' h' =>
    List.inj_on_of_nodup_map t.primaryKey hr' hr (hp r' r h' h)
  cases hfind : t.find id with
  | none =>
      rcases hu : t.update p c now with ⟨e | rows, t'⟩
      · rw [update_eq_error hu, hfind, Option.map_none]
      · rw [find_update hu, hfind, Option.map_none, Option.map_none]
  | some r =>
      obtain ⟨hr, -⟩ := Table.find_eq_some.mp hfind
      rw [Option.map_some, Backup.assign]
      rcases hu : t.update p c now with ⟨e | rows, t'⟩
      · rw [update_eq_error hu, hfind, if_neg]
        rintro ⟨hpr, hstatus⟩
        have hok := @update_fst t p c now fun r' hr' hpr' => by
          rw [hone r hr hpr r' hr' hpr']
          exact hstatus
        rw [hu] at hok
        cases hok
      · rw [find_update hu, hfind, Option.map_some]
        by_cases hpr : p r = true
        · have hstatus : (c.apply now r).status ∈ statuses := by
            unfold Table.update at hu
            split at hu
            · rename_i hok
              exact hok r hr hpr
            · cases hu
          rw [if_pos hpr, if_pos ⟨hpr, hstatus⟩]
        · rw [if_neg hpr, if_neg fun h => hpr h.1]

/-- A status that cannot be stored is not one that the check lets pass. -/
theorem Backup.assign_unstorable {p : Backup → Bool} {status : String} (now : Timestamp) (r : Backup)
    (h : ¬ storable status = true) : r.assign p { status := some status } now = r := by
  have hall : ∀ s ∈ statuses, storable s = true := by decide
  exact if_neg fun hpr => h (hall _ hpr.2)

/-- The row of an identifier after a statement. -/
theorem find_exec (order : RowOrder) (oracle : Oracle) (q : Sql) :
    (q.exec order oracle t).2.find id = q.rewrite oracle id (t.find id) := by
  have hboth : ∀ (id' tenantId : Uuid) (r r' : Backup),
      (decide (r.id = id') && decide (r.tenantId = tenantId)) = true →
      (decide (r'.id = id') && decide (r'.tenantId = tenantId)) = true → r.id = r'.id := by
    intro id' tenantId r r' h h'
    simp only [Bool.and_eq_true, decide_eq_true_eq] at h h'
    exact h.1.trans h'.1.symm
  have hone : ∀ (id' : Uuid) (r r' : Backup), decide (r.id = id') = true →
      decide (r'.id = id') = true → r.id = r'.id := by
    intro id' r r' h h'
    exact (of_decide_eq_true h).trans (of_decide_eq_true h').symm
  cases q with
  | insertBackup tenantId sourcePath encryptionEnabled =>
      simp only [Sql.exec, Sql.rewrite]
      by_cases hst : storable sourcePath = true
      · rw [if_pos hst]
        dsimp only
        cases hins : t.insert (newBackup oracle tenantId sourcePath encryptionEnabled) with
        | error e =>
            -- The identifier is taken, by this row or by another one.
            have htaken : oracle.newId ∈ t.rows.map Backup.id := by
              by_contra hnew
              rw [Table.insert, dif_neg (show ¬ (newBackup oracle tenantId sourcePath
                encryptionEnabled).id ∈ _ from hnew), dif_pos (by simp [newBackup, statuses])] at hins
              cases hins
            show t.find id = _
            cases hfind : t.find id with
            | some r => rfl
            | none =>
                rw [if_neg, Option.none_or]
                rintro ⟨rfl, -⟩
                have hsome := Table.find_isSome.mpr htaken
                rw [hfind] at hsome
                cases hsome
        | ok t' =>
            show t'.find id = _
            rw [find_insert hins]
            show (if oracle.newId = id then _ else _) = _
            by_cases hid : oracle.newId = id
            · have hnone : t.find id = none := by
                rw [Table.find_eq_none]
                intro r hr heq
                exact (insert_eq_ok hins).1 (List.mem_map.mpr ⟨r, hr, heq.trans hid.symm⟩)
              rw [if_pos hid, if_pos ⟨hid, hst⟩, hnone, Option.none_or]
            · rw [if_neg hid, if_neg fun h => hid h.1, Option.or_none]
      · rw [if_neg hst, if_neg fun h => hst h.2, Option.or_none]
  | selectBackup | countBackups | selectBackups =>
      simp only [Sql.exec, Sql.rewrite] <;> (try split) <;> rfl
  | updateBackup id' tenantId status sizeBytes => exact find_update_assign _ _ (hboth id' tenantId)
  | deleteBackup id' tenantId => exact find_delete
  | setStatus id' status =>
      simp only [Sql.exec, Sql.rewrite]
      by_cases hst : storable status = true
      · rw [if_pos hst]
        exact find_update_assign _ _ (hone id')
      · rw [if_neg hst]
        cases t.find id with
        | none => rfl
        | some r => exact congrArg some (Backup.assign_unstorable _ _ hst).symm
  | setCompleted id' sizeBytes => exact find_update_assign _ _ (hone id')
  | setFailed id' => exact find_update_assign _ _ (hone id')

end Find

/-! ### What the database answers -/

/-- A condition on one identifier selects the row that has it, or nothing. -/
theorem filter_eq_find {id : Uuid} {p : Backup → Bool} (hp : ∀ r, p r = true → r.id = id)
    {rows : List Backup} (hnodup : (rows.map Backup.id).Nodup) :
    rows.filter p = (rows.find? fun r => r.id = id).toList.filter p := by
  induction rows with
  | nil => rfl
  | cons r rows ih =>
      obtain ⟨hnew, hnodup⟩ := List.nodup_cons.mp hnodup
      by_cases hid : r.id = id
      · have hrest : rows.filter p = [] := by
          refine List.filter_eq_nil_iff.mpr fun r' hr' hpr' => hnew ?_
          rw [hid, ← hp r' hpr']
          exact List.mem_map_of_mem hr'
        rw [List.find?_cons_of_pos (by simpa using hid), List.filter_cons, hrest, Option.toList_some,
          List.filter_cons, List.filter_nil]
      · have hpr : ¬ p r = true := fun hpr => hid (hp r hpr)
        rw [List.find?_cons_of_neg (by simpa using hid), List.filter_cons, if_neg hpr]
        exact ih hnodup

/-- The identifier of the row a statement has written, by its answer. -/
def Sql.written : (q : Sql) → Except SqlError q.Answer → Option Uuid
  | .insertBackup _ _ _, .ok (b : Backup) => some b.id
  | .updateBackup id _ _ _, .ok (some (_ : Backup)) => some id
  | .deleteBackup id _, .ok (n : ℕ) => if n = 0 then none else some id
  | .setStatus id _, .ok (n : ℕ) => if n = 0 then none else some id
  | .setCompleted id _, .ok (n : ℕ) => if n = 0 then none else some id
  | .setFailed id, .ok (n : ℕ) => if n = 0 then none else some id
  | _, _ => none

section Written

variable {order : RowOrder} {oracle : Oracle} {t : Table} {id : Uuid}

/-- The rows an `UPDATE` of one row affects. -/
theorem update_fst_of_find {p : Backup → Bool} (hp : ∀ r, p r = true → r.id = id) (c : Assignments)
    (now : Timestamp) : (t.update p c now).1 =
      if ∀ r ∈ (t.find id).toList.filter p, (c.apply now r).status ∈ statuses then
        .ok (((t.find id).toList.filter p).map (c.apply now))
      else .error .checkViolation := by
  have hfilter : t.rows.filter p = (t.find id).toList.filter p := filter_eq_find hp t.primaryKey
  have hiff : (∀ r ∈ t.rows, p r = true → (c.apply now r).status ∈ statuses) ↔
      ∀ r ∈ (t.find id).toList.filter p, (c.apply now r).status ∈ statuses := by
    rw [← hfilter]
    simp only [List.mem_filter, and_imp]
  unfold Table.update
  by_cases hst : ∀ r ∈ t.rows, p r = true → (c.apply now r).status ∈ statuses
  · rw [dif_pos hst, if_pos (hiff.mp hst), hfilter]
  · rw [dif_neg hst, if_neg fun h => hst (hiff.mpr h)]

/-- An `UPDATE` of one row affects it, or it changes nothing. -/
theorem update_cases {p : Backup → Bool} (hp : ∀ r, p r = true → r.id = id) (c : Assignments)
    (now : Timestamp) :
    (∃ r, t.find id = some r ∧ p r = true ∧ (t.update p c now).1 = .ok [c.apply now r] ∧
      (t.update p c now).2.find id = some (c.apply now r) ∧
      ∀ id' ≠ id, (t.update p c now).2.find id' = t.find id') ∨
    ((t.update p c now).1 = .ok [] ∨ ∃ e, (t.update p c now).1 = .error e) ∧
      ∀ id', (t.update p c now).2.find id' = t.find id' := by
  have hone : ∀ r r', p r = true → p r' = true → r.id = r'.id := fun r r' h h' =>
    (hp r h).trans (hp r' h').symm
  have hassign := fun id' => @find_update_assign t id' p c now hone
  have hfst := update_fst_of_find (t := t) hp c now
  have hother : ∀ id' ≠ id, (t.update p c now).2.find id' = t.find id' := by
    intro id' hne
    rw [hassign]
    refine (Option.map_congr fun r hr => ?_).trans Option.map_id'
    -- A row with another identifier does not satisfy the condition.
    refine if_neg fun h => hne ?_
    exact (Table.find_eq_some.mp hr).2.symm.trans (hp r h.1)
  cases hfind : t.find id with
  | none =>
      simp only [hfind, Option.toList_none, List.filter_nil, List.not_mem_nil, false_imp_iff,
        implies_true, if_true, List.map_nil] at hfst
      refine .inr ⟨.inl hfst, fun id' => ?_⟩
      by_cases hid : id' = id
      · rw [hassign, hid, hfind]
        rfl
      · exact hother id' hid
  | some r =>
      rw [hfind, Option.toList_some, List.filter_cons, List.filter_nil] at hfst
      have hself := hassign id
      rw [hfind, Option.map_some] at hself
      by_cases hrow : p r = true ∧ (c.apply now r).status ∈ statuses
      · rw [if_pos hrow.1, if_pos (by simpa using hrow.2)] at hfst
        rw [Backup.assign, if_pos hrow] at hself
        exact .inl ⟨r, rfl, hrow.1, hfst, hself, hother⟩
      · rw [Backup.assign, if_neg hrow] at hself
        refine .inr ⟨?_, fun id' => ?_⟩
        · -- The condition or the check has failed; in either case nothing is affected.
          by_cases hpr : p r = true
          · rw [if_pos hpr, if_neg fun h => hrow ⟨hpr, h r List.mem_cons_self⟩] at hfst
            exact .inr ⟨_, hfst⟩
          · rw [if_neg hpr, if_pos (by simp)] at hfst
            exact .inl hfst
        · by_cases hid : id' = id
          · rw [hid, hself, hfind]
          · exact hother id' hid

/-- A `DELETE` of one row removes it, or it changes nothing. -/
theorem delete_cases {p : Backup → Bool} (hp : ∀ r, p r = true → r.id = id) :
    (∃ r, t.find id = some r ∧ p r = true ∧ t.rows.countP p = 1 ∧ (t.delete p).find id = none ∧
      ∀ id' ≠ id, (t.delete p).find id' = t.find id') ∨
    t.rows.countP p = 0 ∧ ∀ id', (t.delete p).find id' = t.find id' := by
  have hcount : t.rows.countP p = ((t.find id).toList.filter p).length := by
    rw [List.countP_eq_length_filter]
    exact congrArg List.length (filter_eq_find hp t.primaryKey)
  have hsame : ∀ id', (∀ r, t.find id' = some r → p r = false) →
      (t.delete p).find id' = t.find id' := by
    intro id' h
    rw [find_delete]
    cases hfind : t.find id' with
    | none => rfl
    | some r => simp only [Option.filter_some, h r hfind, Bool.not_false, if_true]
  have hother : ∀ id' ≠ id, (t.delete p).find id' = t.find id' := by
    refine fun id' hne => hsame id' fun r hr => ?_
    by_contra h
    rw [Bool.not_eq_false] at h
    exact hne ((Table.find_eq_some.mp hr).2.symm.trans (hp r h))
  by_cases hrow : ∃ r, t.find id = some r ∧ p r = true
  · obtain ⟨r, hfind, hpr⟩ := hrow
    refine .inl ⟨r, hfind, hpr, ?_, ?_, hother⟩
    · rw [hcount, hfind, Option.toList_some, List.filter_cons, if_pos hpr, List.filter_nil]
      rfl
    · rw [find_delete, hfind, Option.filter_some, hpr]
      rfl
  · have hfalse : ∀ r, t.find id = some r → p r = false := fun r hr => by
      by_contra h
      rw [Bool.not_eq_false] at h
      exact hrow ⟨r, hr, h⟩
    refine .inr ⟨?_, fun id' => ?_⟩
    · rw [hcount]
      cases hfind : t.find id with
      | none => rfl
      | some r =>
          rw [Option.toList_some, List.filter_cons, hfalse r hfind]
          rfl
    · by_cases hid : id' = id
      · exact hid ▸ hsame id hfalse
      · exact hother id' hid

/-- What a statement that has written to the row has made of it. -/
inductive Sql.Writes (oracle : Oracle) (id : Uuid) : Sql → Option Backup → Option Backup → Prop
  | inserted {tenantId sourcePath encryptionEnabled} (hid : oracle.newId = id) :
      Writes oracle id (.insertBackup tenantId sourcePath encryptionEnabled) none
        (some (newBackup oracle tenantId sourcePath encryptionEnabled))
  | updated {r tenantId status sizeBytes} (htenant : r.tenantId = tenantId) :
      Writes oracle id (.updateBackup id tenantId status sizeBytes) (some r)
        (some (Assignments.apply { status, sizeBytes } oracle.now r))
  | deleted {r tenantId} (htenant : r.tenantId = tenantId) :
      Writes oracle id (.deleteBackup id tenantId) (some r) none
  | statusSet {r status} : Writes oracle id (.setStatus id status) (some r)
      (some (Assignments.apply { status := some status } oracle.now r))
  | completed {r sizeBytes} : Writes oracle id (.setCompleted id sizeBytes) (some r)
      (some (Assignments.apply { status := some "completed", sizeBytes := some sizeBytes } oracle.now r))
  | failed {r} : Writes oracle id (.setFailed id) (some r)
      (some (Assignments.apply { status := some "failed" } oracle.now r))

/-- A statement about one identifier has written to its row, or to none. -/
theorem written_of_one {t t' : Table} {id : Uuid} {q : Sql} {w : Option Uuid} (id' : Uuid)
    (h : w = some id' ∧ q.Writes oracle id' (t.find id') (t'.find id') ∧
        (∀ id ≠ id', t'.find id = t.find id) ∨ w = none ∧ ∀ id, t'.find id = t.find id) :
    w = some id ∧ q.Writes oracle id (t.find id) (t'.find id) ∨
      w ≠ some id ∧ t'.find id = t.find id := by
  rcases h with ⟨rfl, hwrites, hother⟩ | ⟨rfl, hsame⟩
  · by_cases hid : id = id'
    · subst hid
      exact .inl ⟨rfl, hwrites⟩
    · exact .inr ⟨fun h => hid (Option.some.inj h).symm, hother id hid⟩
  · exact .inr ⟨by simp, hsame id⟩

theorem written_of_update {id' : Uuid} {q : Sql} {p : Backup → Bool} {c : Assignments}
    (hp : ∀ r, p r = true → r.id = id')
    (hsnd : (q.exec order oracle t).2 = (t.update p c oracle.now).2)
    (hok : ∀ b, (t.update p c oracle.now).1 = .ok [b] →
      q.written (q.exec order oracle t).1 = some id')
    (hnone : ((t.update p c oracle.now).1 = .ok [] ∨ ∃ e, (t.update p c oracle.now).1 = .error e) →
      q.written (q.exec order oracle t).1 = none)
    (hwrites : ∀ r, p r = true →
      q.Writes oracle id' (some r) (some (c.apply oracle.now r))) :
    q.written (q.exec order oracle t).1 = some id ∧
        q.Writes oracle id (t.find id) ((q.exec order oracle t).2.find id) ∨
      q.written (q.exec order oracle t).1 ≠ some id ∧
        (q.exec order oracle t).2.find id = t.find id := by
  refine written_of_one id' ?_
  rw [hsnd]
  rcases update_cases (t := t) hp c oracle.now with
    ⟨r, hfind, hpr, hfst, hself, hother⟩ | ⟨hfst, hsame⟩
  · refine .inl ⟨hok _ hfst, ?_, hother⟩
    rw [hfind, hself]
    exact hwrites r hpr
  · exact .inr ⟨hnone hfst, hsame⟩

/-- A statement has written to the row, or the row is the same. -/
theorem written_cases (order : RowOrder) (oracle : Oracle) (t : Table) (id : Uuid) (q : Sql) :
    q.written (q.exec order oracle t).1 = some id ∧
        q.Writes oracle id (t.find id) ((q.exec order oracle t).2.find id) ∨
      q.written (q.exec order oracle t).1 ≠ some id ∧
        (q.exec order oracle t).2.find id = t.find id := by
  have hbyId : ∀ (id' : Uuid) (r : Backup), decide (r.id = id') = true → r.id = id' :=
    fun _ _ h => of_decide_eq_true h
  cases q with
  | insertBackup tenantId sourcePath encryptionEnabled =>
      simp only [Sql.exec]
      by_cases hst : storable sourcePath = true
      · rw [if_pos hst]
        dsimp only
        cases hins : t.insert (newBackup oracle tenantId sourcePath encryptionEnabled) with
        | error e => exact .inr ⟨by simp [Sql.written, Except.map], rfl⟩
        | ok t' =>
            have hfind : t'.find id = if oracle.newId = id then
                some (newBackup oracle tenantId sourcePath encryptionEnabled) else t.find id :=
              find_insert hins
            by_cases hid : oracle.newId = id
            · -- The identifier was free, or the insert would have failed.
              have hnone : t.find id = none := by
                rw [Table.find_eq_none]
                intro r hr heq
                exact (insert_eq_ok hins).1 (List.mem_map.mpr ⟨r, hr, heq.trans hid.symm⟩)
              rw [if_pos hid] at hfind
              refine .inl ⟨congrArg some hid, ?_⟩
              show Sql.Writes _ _ _ _ (t'.find id)
              rw [hfind, hnone]
              exact .inserted hid
            · rw [if_neg hid] at hfind
              exact .inr ⟨fun h => hid (Option.some.inj h), hfind⟩
      · rw [if_neg hst]
        exact .inr ⟨by simp [Sql.written], rfl⟩
  | selectBackup | selectBackups | countBackups =>
      refine .inr ⟨by simp [Sql.written], ?_⟩
      simp only [Sql.exec] <;> (try split) <;> rfl
  | updateBackup id' tenantId status sizeBytes =>
      have hp : ∀ r : Backup, (decide (r.id = id') && decide (r.tenantId = tenantId)) = true →
          r.id = id' ∧ r.tenantId = tenantId := by
        intro r h
        simpa using h
      refine written_of_update (c := { status, sizeBytes }) (fun r h => (hp r h).1) rfl ?_ ?_
        fun r h => .updated (hp r h).2
      · intro b h
        simp only [Sql.exec, h]
        rfl
      · rintro (h | ⟨e, h⟩) <;>
        · simp only [Sql.exec, h]
          rfl
  | deleteBackup id' tenantId =>
      have hp : ∀ r : Backup, (decide (r.id = id') && decide (r.tenantId = tenantId)) = true →
          r.id = id' ∧ r.tenantId = tenantId := by
        intro r h
        simpa using h
      -- The answer is the number of rows that are gone: one or none.
      refine written_of_one id' ?_
      rcases delete_cases (t := t) (fun r h => (hp r h).1) with
        ⟨r, hfind, hpr, hcount, hgone, hother⟩ | ⟨hcount, hsame⟩
      · refine .inl ⟨?_, ?_, hother⟩
        · simp only [Sql.exec, Sql.written, hcount]
          rfl
        · rw [hfind]
          exact hgone ▸ .deleted (hp r hpr).2
      · refine .inr ⟨?_, hsame⟩
        simp only [Sql.exec, Sql.written, hcount, if_true]
  | setStatus id' status =>
      by_cases hst : storable status = true
      · refine written_of_update (c := { status := some status }) (hbyId id') ?_ ?_ ?_
          fun r _ => .statusSet
        · simp only [Sql.exec, if_pos hst]
        · intro b h
          simp only [Sql.exec, if_pos hst, h]
          rfl
        · rintro (h | ⟨e, h⟩) <;>
          · simp only [Sql.exec, if_pos hst, h]
            rfl
      · simp only [Sql.exec, if_neg hst]
        exact .inr ⟨by simp [Sql.written], trivial⟩
  | setCompleted id' sizeBytes =>
      refine written_of_update (c := { status := some "completed", sizeBytes := some sizeBytes })
        (hbyId id') rfl ?_ ?_ fun r _ => .completed
      · intro b h
        simp only [Sql.exec, h]
        rfl
      · rintro (h | ⟨e, h⟩) <;>
        · simp only [Sql.exec, h]
          rfl
  | setFailed id' =>
      refine written_of_update (c := { status := some "failed" }) (hbyId id') rfl ?_ ?_
        fun r _ => .failed
      · intro b h
        simp only [Sql.exec, h]
        rfl
      · rintro (h | ⟨e, h⟩) <;>
        · simp only [Sql.exec, h]
          rfl

end Written

end BackupService
