import BackupService.Grpc
import BackupService.Tenancy

/-!
What a statement leaves as it is.

A statement touches the key of a row that it changes, and the key of that
row's tenant (`Sql.Touches`). The rows of all other identifiers and the
restrictions to all other tenants are the same before and after
(`exec_find`, `exec_restrict_eq`); that is all a cache has to know about
the database.
-/

namespace BackupService

/-! ### Single rows -/

section Rows

variable {t t' : Table} {id : Uuid} {r : Backup}

theorem insert_eq_ok (h : t.insert r = .ok t') : r.id ∉ t.rows.map Backup.id ∧ t'.rows = t.rows ++ [r] := by
  unfold Table.insert at h
  split at h
  · cases h
  · split at h
    · cases h
      exact ⟨‹_›, rfl⟩
    · cases h

theorem find_insert (h : t.insert r = .ok t') :
    t'.find id = if r.id = id then some r else t.find id := by
  obtain ⟨hnew, hrows⟩ := insert_eq_ok h
  rw [Table.find, hrows, List.find?_append]
  by_cases hid : r.id = id
  · have hnone : t.rows.find? (fun r' => r'.id = id) = none :=
      List.find?_eq_none.mpr fun r' hr' heq => hnew (by
        rw [hid, ← of_decide_eq_true heq]
        exact List.mem_map_of_mem hr')
    simp [hnone, hid]
  · simp [hid, Table.find]

theorem find_delete {p : Backup → Bool} : (t.delete p).find id = (t.find id).filter fun r => !p r := by
  ext r
  rw [Option.filter_eq_some_iff, Table.find_eq_some, Table.find_eq_some, Table.delete, List.mem_filter]
  tauto

/-- The rows after an update that does not fail. -/
theorem update_eq_ok {p : Backup → Bool} {c : Assignments} {now : Timestamp} {rows : List Backup}
    (h : t.update p c now = (.ok rows, t')) :
    rows = (t.rows.filter p).map (c.apply now) ∧
      t'.rows = t.rows.map fun r => if p r then c.apply now r else r := by
  unfold Table.update at h
  split at h
  · cases h
    exact ⟨rfl, rfl⟩
  · cases h

/-- An update does not fail if every row it makes passes the check. -/
theorem update_fst {p : Backup → Bool} {c : Assignments} {now : Timestamp}
    (h : ∀ r ∈ t.rows, p r = true → (c.apply now r).status ∈ statuses) :
    (t.update p c now).1 = .ok ((t.rows.filter p).map (c.apply now)) := by
  unfold Table.update
  rw [dif_pos h]

theorem update_eq_error {p : Backup → Bool} {c : Assignments} {now : Timestamp} {e : SqlError}
    (h : t.update p c now = (.error e, t')) : t' = t := by
  unfold Table.update at h
  split at h
  · cases h
  · cases h
    rfl

theorem find_update {p : Backup → Bool} {c : Assignments} {now : Timestamp} {rows : List Backup}
    (h : t.update p c now = (.ok rows, t')) :
    t'.find id = (t.find id).map fun r => if p r then c.apply now r else r := by
  rw [Table.find, (update_eq_ok h).2, List.find?_map]
  congr 1
  refine congrArg (List.find? · t.rows) (funext fun r => ?_)
  simp only [Function.comp_apply]
  split <;> rfl

/-- Where nothing matches, nothing changes. -/
theorem update_of_forall_not {p : Backup → Bool} (hp : ∀ r ∈ t.rows, p r = false)
    (c : Assignments) (now : Timestamp) : t.update p c now = (.ok [], t) := by
  have hrows : t.rows.map (fun r => if p r then c.apply now r else r) = t.rows.map id :=
    List.map_congr_left fun r hr => by simp [hp r hr]
  unfold Table.update
  rw [dif_pos fun r hr h => by simp [hp r hr] at h]
  refine Prod.ext ?_ (Table.ext (hrows.trans (List.map_id _)))
  rw [List.filter_eq_nil_iff.mpr fun r hr => by simp [hp r hr]]
  rfl

theorem delete_of_forall_not {p : Backup → Bool} (hp : ∀ r ∈ t.rows, p r = false) :
    t.delete p = t :=
  Table.ext (List.filter_eq_self.mpr fun r hr => by simp [hp r hr])

theorem find_update_of_not {p : Backup → Bool} {c : Assignments} {now : Timestamp}
    (hp : ∀ r, t.find id = some r → p r = false) : (t.update p c now).2.find id = t.find id := by
  rcases h : t.update p c now with ⟨e | rows, t'⟩
  · rw [update_eq_error h]
  · rw [find_update h]
    cases hfind : t.find id with
    | none => rfl
    | some r => simp [hp r hfind]

/-- An update keeps the identifiers and the paths. -/
theorem mem_rows_update {p : Backup → Bool} {c : Assignments} {now : Timestamp}
    (h : r ∈ (t.update p c now).2.rows) : ∃ r' ∈ t.rows, r.sourcePath = r'.sourcePath := by
  rcases hu : t.update p c now with ⟨e | rows, t'⟩
  · rw [hu, update_eq_error hu] at h
    exact ⟨r, h, rfl⟩
  · rw [hu, (update_eq_ok hu).2] at h
    obtain ⟨r', hr', rfl⟩ := List.mem_map.mp h
    refine ⟨r', hr', ?_⟩
    split <;> rfl

theorem find_update_isSome {p : Backup → Bool} {c : Assignments} {now : Timestamp} :
    ((t.update p c now).2.find id).isSome = (t.find id).isSome := by
  rcases hu : t.update p c now with ⟨e | rows, t'⟩
  · rw [update_eq_error hu]
  · rw [find_update hu, Option.isSome_map]

end Rows

/-! ### Queries -/

section Queries

variable (order : RowOrder) (oracle : Oracle) (t : Table) (tenantId : Uuid) (status : Option String)

@[simp] theorem exec_selectBackup_snd (id : Uuid) :
    ((Sql.selectBackup id tenantId).exec order oracle t).2 = t := rfl

@[simp] theorem exec_selectBackups_snd (limit offset : ℤ) :
    ((Sql.selectBackups tenantId status limit offset).exec order oracle t).2 = t := by
  simp only [Sql.exec]
  split <;> rfl

@[simp] theorem exec_countBackups_snd :
    ((Sql.countBackups tenantId status).exec order oracle t).2 = t := by
  simp only [Sql.exec]
  split <;> rfl

/-- A backup is found under its identifier if the tenant matches. -/
theorem exec_selectBackup_fst (id : Uuid) :
    ((Sql.selectBackup id tenantId).exec order oracle t).1 =
      .ok ((t.find id).filter fun r => r.tenantId = tenantId) := by
  refine congrArg Except.ok (Option.ext fun r => ?_)
  rw [Option.filter_eq_some_iff, Table.find_eq_some, decide_eq_true_eq]
  constructor
  · intro hr
    have hp := List.find?_some hr
    simp only [Bool.and_eq_true, decide_eq_true_eq] at hp
    exact ⟨⟨List.mem_of_find?_eq_some hr, hp.1⟩, hp.2⟩
  · rintro ⟨⟨hr, rfl⟩, htenant⟩
    have hfind : t.find r.id = some r := Table.find_eq_some.mpr ⟨hr, rfl⟩
    cases hf : t.rows.find? fun r' => r'.id = r.id && r'.tenantId = tenantId with
    | none => simpa [htenant] using List.find?_eq_none.mp hf r hr
    | some r' =>
        have hp := List.find?_some hf
        simp only [Bool.and_eq_true, decide_eq_true_eq] at hp
        have hr' : t.find r.id = some r' :=
          Table.find_eq_some.mpr ⟨List.mem_of_find?_eq_some hf, hp.1⟩
        exact hr'.symm.trans hfind

theorem exec_selectBackup_ok {id : Uuid} {b : Backup}
    (h : ((Sql.selectBackup id tenantId).exec order oracle t).1 = .ok (some b)) :
    t.find id = some b ∧ b.tenantId = tenantId := by
  rw [exec_selectBackup_fst] at h
  obtain ⟨hfind, htenant⟩ := Option.filter_eq_some_iff.mp (Except.ok.inj h)
  exact ⟨hfind, of_decide_eq_true htenant⟩

theorem exec_selectBackups_ok {limit offset : ℤ} {items : List Backup}
    (h : ((Sql.selectBackups tenantId status limit offset).exec order oracle t).1 = .ok items) :
    items = t.page order tenantId status limit offset := by
  simp only [Sql.exec] at h
  split at h
  · exact (Except.ok.inj h).symm
  · cases h

theorem exec_countBackups_ok {total : ℤ}
    (h : ((Sql.countBackups tenantId status).exec order oracle t).1 = .ok total) :
    total = t.count tenantId status := by
  simp only [Sql.exec] at h
  split at h
  · exact (Except.ok.inj h).symm
  · cases h

end Queries

/-! ### Rows that are returned -/

section Returning

variable (order : RowOrder) (oracle : Oracle) {t : Table} {tenantId : Uuid} {b : Backup}

theorem exec_insertBackup_ok {sourcePath : String} {encryptionEnabled : Bool}
    (h : ((Sql.insertBackup tenantId sourcePath encryptionEnabled).exec order oracle t).1 = .ok b) :
    b ∈ ((Sql.insertBackup tenantId sourcePath encryptionEnabled).exec order oracle t).2.rows := by
  simp only [Sql.exec] at h ⊢
  split
  · rename_i hst
    rw [if_pos hst] at h
    cases hins : t.insert (newBackup oracle tenantId sourcePath encryptionEnabled) with
    | error e =>
        rw [hins] at h
        cases h
    | ok t' =>
        rw [hins] at h
        obtain rfl := Except.ok.inj h
        have hmem : newBackup oracle tenantId sourcePath encryptionEnabled ∈ t'.rows := by
          rw [(insert_eq_ok hins).2]
          exact List.mem_append_right _ List.mem_cons_self
        exact hmem
  · rename_i hst
    rw [if_neg hst] at h
    cases h

theorem exec_updateBackup_ok {id : Uuid} {status : Option String} {sizeBytes : Option ℤ}
    (h : ((Sql.updateBackup id tenantId status sizeBytes).exec order oracle t).1 = .ok (some b)) :
    b ∈ ((Sql.updateBackup id tenantId status sizeBytes).exec order oracle t).2.rows := by
  simp only [Sql.exec] at h ⊢
  rcases hu : t.update (fun r => decide (r.id = id) && decide (r.tenantId = tenantId))
    { status, sizeBytes } oracle.now with ⟨e | rows, t'⟩
  · rw [hu] at h
    cases h
  · rw [hu] at h
    obtain ⟨hrows, hafter⟩ := update_eq_ok hu
    have hb : b ∈ rows := List.mem_of_mem_head? (Except.ok.inj h)
    rw [hrows] at hb
    obtain ⟨r, hr, rfl⟩ := List.mem_map.mp hb
    obtain ⟨hr, hp⟩ := List.mem_filter.mp hr
    rw [hafter]
    exact List.mem_map.mpr ⟨r, hr, if_pos hp⟩

end Returning

/-! ### Statements without effect -/

section NoEffect

variable (order : RowOrder) (oracle : Oracle) {t : Table}

theorem update_snd_of_error {p : Backup → Bool} {c : Assignments} {now : Timestamp} {e : SqlError}
    {α : Type} {f : List Backup → α} (h : (t.update p c now).1.map f = .error e) :
    (t.update p c now).2 = t := by
  rcases hu : t.update p c now with ⟨e' | rows, t'⟩
  · exact update_eq_error hu
  · rw [hu] at h
    cases h

/-- A statement that the database refuses changes nothing. -/
theorem exec_snd_of_error {s : Sql} {e : SqlError} (h : (s.exec order oracle t).1 = .error e) :
    (s.exec order oracle t).2 = t := by
  cases s with
  | insertBackup tenantId sourcePath encryptionEnabled =>
      simp only [Sql.exec] at h ⊢
      split
      · rename_i hst
        rw [if_pos hst] at h
        cases hins : t.insert (newBackup oracle tenantId sourcePath encryptionEnabled) with
        | error e => rfl
        | ok t' =>
            rw [hins] at h
            cases h
      · rfl
  | selectBackup id tenantId => rfl
  | selectBackups tenantId status limit offset => exact exec_selectBackups_snd ..
  | countBackups tenantId status => exact exec_countBackups_snd ..
  | updateBackup id tenantId status sizeBytes => exact update_snd_of_error h
  | deleteBackup id tenantId => cases h
  | setStatus id status =>
      simp only [Sql.exec] at h ⊢
      split
      · rename_i hst
        rw [if_pos hst] at h
        exact update_snd_of_error h
      · rfl
  | setCompleted id sizeBytes => exact update_snd_of_error h
  | setFailed id => exact update_snd_of_error h

theorem exec_updateBackup_none {id tenantId : Uuid} {status : Option String} {sizeBytes : Option ℤ}
    (h : ((Sql.updateBackup id tenantId status sizeBytes).exec order oracle t).1 = .ok none) :
    ((Sql.updateBackup id tenantId status sizeBytes).exec order oracle t).2 = t := by
  simp only [Sql.exec] at h ⊢
  rcases hu : t.update (fun r => decide (r.id = id) && decide (r.tenantId = tenantId))
    { status, sizeBytes } oracle.now with ⟨e | rows, t'⟩
  · exact update_eq_error hu
  · rw [hu] at h
    have hrows := (update_eq_ok hu).1
    have hnil : rows = [] := List.head?_eq_none_iff.mp (Except.ok.inj h)
    rw [hnil, eq_comm, List.map_eq_nil_iff, List.filter_eq_nil_iff] at hrows
    rw [update_of_forall_not fun r hr => by simpa using hrows r hr] at hu
    exact (Prod.mk.inj hu).2.symm

theorem exec_deleteBackup_zero {id tenantId : Uuid}
    (h : ((Sql.deleteBackup id tenantId).exec order oracle t).1 = .ok (0 : ℕ)) :
    ((Sql.deleteBackup id tenantId).exec order oracle t).2 = t := by
  refine delete_of_forall_not fun r hr => ?_
  have hcount := List.countP_eq_zero.mp (Except.ok.inj h) r hr
  simpa using hcount

/-- No row is affected by setting the status of one that is not there. -/
theorem exec_setStatus_none {id : Uuid} {status : String} {n : ℕ} (hnone : t.find id = none)
    (h : ((Sql.setStatus id status).exec order oracle t).1 = .ok n) : n = 0 := by
  have hrows : ∀ r ∈ t.rows, decide (r.id = id) = false := fun r hr => by
    simpa using Table.find_eq_none.mp hnone r hr
  simp only [Sql.exec, update_of_forall_not hrows] at h
  split at h
  · exact (Except.ok.inj h).symm
  · cases h

end NoEffect

/-! ### Rows that stay -/

section Stay

variable (order : RowOrder) (oracle : Oracle) {t : Table} {q : Sql}

/-- Where the path of a row comes from. -/
theorem mem_rows_exec {r : Backup} (h : r ∈ (q.exec order oracle t).2.rows) :
    (∃ r' ∈ t.rows, r.sourcePath = r'.sourcePath) ∨
      ∃ tenantId encryptionEnabled, q = .insertBackup tenantId r.sourcePath encryptionEnabled := by
  cases q with
  | insertBackup tenantId sourcePath encryptionEnabled =>
      simp only [Sql.exec] at h
      split at h
      · cases hins : t.insert (newBackup oracle tenantId sourcePath encryptionEnabled) with
        | error e =>
            rw [hins] at h
            exact .inl ⟨r, h, rfl⟩
        | ok t' =>
            rw [hins] at h
            have hmem : r ∈ t'.rows := h
            rw [(insert_eq_ok hins).2] at hmem
            rcases List.mem_append.mp hmem with hold | hnew
            · exact .inl ⟨r, hold, rfl⟩
            · obtain rfl := List.mem_singleton.mp hnew
              exact .inr ⟨_, _, rfl⟩
      · exact .inl ⟨r, h, rfl⟩
  | selectBackup id tenantId => exact .inl ⟨r, h, rfl⟩
  | selectBackups tenantId status limit offset =>
      rw [exec_selectBackups_snd] at h
      exact .inl ⟨r, h, rfl⟩
  | countBackups tenantId status =>
      rw [exec_countBackups_snd] at h
      exact .inl ⟨r, h, rfl⟩
  | updateBackup id tenantId status sizeBytes => exact .inl (mem_rows_update h)
  | deleteBackup id tenantId => exact .inl ⟨r, List.mem_of_mem_filter h, rfl⟩
  | setStatus id status =>
      simp only [Sql.exec] at h
      split at h
      · exact .inl (mem_rows_update h)
      · exact .inl ⟨r, h, rfl⟩
  | setCompleted id sizeBytes => exact .inl (mem_rows_update h)
  | setFailed id => exact .inl (mem_rows_update h)

/-- Nothing but a deletion makes a row go away. -/
theorem exec_find_isSome {id : Uuid} (h : (t.find id).isSome)
    (hdelete : ∀ tenantId, q ≠ .deleteBackup id tenantId) :
    ((q.exec order oracle t).2.find id).isSome := by
  cases q with
  | insertBackup tenantId sourcePath encryptionEnabled =>
      simp only [Sql.exec]
      split
      · cases hins : t.insert (newBackup oracle tenantId sourcePath encryptionEnabled) with
        | error e => exact h
        | ok t' =>
            refine (congrArg Option.isSome (@find_insert t t' id _ hins)).trans ?_
            split
            · rfl
            · exact h
      · exact h
  | selectBackup id' tenantId => exact h
  | selectBackups tenantId status limit offset => rwa [exec_selectBackups_snd]
  | countBackups tenantId status => rwa [exec_countBackups_snd]
  | updateBackup id' tenantId status sizeBytes => exact find_update_isSome.trans h
  | deleteBackup id' tenantId =>
      obtain ⟨r, hr⟩ := Option.isSome_iff_exists.mp h
      have hid : r.id = id := (Table.find_eq_some.mp hr).2
      have hne : id ≠ id' := by
        rintro rfl
        exact hdelete tenantId rfl
      refine Option.isSome_iff_exists.mpr ⟨r, find_delete.trans ?_⟩
      simp [hr, hid, hne]
  | setStatus id' status =>
      simp only [Sql.exec]
      split
      · exact find_update_isSome.trans h
      · exact h
  | setCompleted id' sizeBytes => exact find_update_isSome.trans h
  | setFailed id' => exact find_update_isSome.trans h

/-- The row after its result has been recorded. -/
theorem find_setCompleted (id : Uuid) (sizeBytes : ℤ) :
    ((Sql.setCompleted id sizeBytes).exec order oracle t).2.find id = (t.find id).map
      ({ status := some "completed", sizeBytes := some sizeBytes : Assignments }.apply oracle.now) := by
  simp only [Sql.exec]
  rcases hu : t.update (fun r => decide (r.id = id))
    { status := some "completed", sizeBytes := some sizeBytes } oracle.now with ⟨e | rows, t'⟩
  · exfalso
    unfold Table.update at hu
    rw [dif_pos fun r _ _ => by simp [Assignments.apply, statuses]] at hu
    cases hu
  · rw [find_update hu]
    refine Option.map_congr fun r hr => ?_
    rw [if_pos (by simpa using (Table.find_eq_some.mp hr).2)]

/-- Setting a status that the database knows affects the row that is there. -/
theorem exec_setStatus_ok {id : Uuid} {status : String} (hstatus : status ∈ statuses)
    (hid : (t.find id).isSome) : ∃ n : ℕ, n ≠ 0 ∧
      ((Sql.setStatus id status).exec order oracle t).1 = .ok n := by
  have hstorable : storable status = true := by
    have : ∀ s ∈ statuses, storable s = true := by decide
    exact this status hstatus
  obtain ⟨r, hr⟩ := Option.isSome_iff_exists.mp hid
  obtain ⟨hmem, rfl⟩ := Table.find_eq_some.mp hr
  refine ⟨(t.rows.filter fun r' => r'.id = r.id).length, ?_, ?_⟩
  · have hpos : 0 < (t.rows.filter fun r' => r'.id = r.id).length :=
      List.length_pos_of_mem (List.mem_filter.mpr ⟨hmem, by simp⟩)
    omega
  · simp only [Sql.exec, if_pos hstorable]
    rw [update_fst]
    · simp [Except.map]
    · exact fun _ _ _ => hstatus

theorem exec_setCompleted_ok (id : Uuid) (sizeBytes : ℤ) :
    ∃ n : ℕ, ((Sql.setCompleted id sizeBytes).exec order oracle t).1 = .ok n := by
  simp only [Sql.exec]
  rw [update_fst]
  · exact ⟨_, rfl⟩
  · intro r _ _
    simp [Assignments.apply, statuses]

end Stay

/-! ### What a callback does to the table -/

section Effect

variable (order : RowOrder) (oracle : Oracle) {t : Table} {call : Rpc} {id : Uuid} {b : Backup}

theorem exec_statement_snd : ((call.statement id).exec order oracle t).2 =
    (t.update (fun r => r.id = id) call.assignments oracle.now).2 := by
  cases call with
  | updateStatus msg =>
      simp only [Rpc.statement, Rpc.assignments, Sql.exec]
      split
      · rfl
      · rename_i hst
        have hbad : msg.status ∉ statuses := fun hmem => hst (by
          have : ∀ s ∈ statuses, storable s = true := by decide
          exact this _ hmem)
        by_cases hrow : ∀ r ∈ t.rows, decide (r.id = id) = false
        · rw [update_of_forall_not hrow]
        · unfold Table.update
          rw [dif_neg]
          intro h
          refine hrow fun r hr => ?_
          by_contra hid
          exact hbad (h r hr (by simpa using hid))
  | reportResult result =>
      by_cases hs : result.status = "completed"
      · rw [show (Rpc.reportResult result).statement id = .setCompleted id result.sizeBytes from
          if_pos hs, Rpc.assignments, if_pos hs]
        rfl
      · rw [show (Rpc.reportResult result).statement id = .setFailed id from if_neg hs,
          Rpc.assignments, if_neg hs]
        rfl

/-- The database accepts the status the call writes. -/
def Rpc.Accepted (call : Rpc) : Prop := ∀ st, call.assignments.status = some st → st ∈ statuses

/-- A row that is named by the call is assigned to, or nothing happens. -/
theorem find_statement (id' : Uuid) :
    ((call.statement id).exec order oracle t).2.find id' = t.find id' ∨
      id' = id ∧ call.Accepted ∧ ((call.statement id).exec order oracle t).2.find id' =
        (t.find id').map (call.assignments.apply oracle.now) := by
  rw [exec_statement_snd]
  rcases hu : t.update (fun r => decide (r.id = id)) call.assignments oracle.now with ⟨e | rows, t'⟩
  · exact .inl (by rw [update_eq_error hu])
  · rw [find_update hu]
    cases hfind : t.find id' with
    | none => exact .inl rfl
    | some r =>
        obtain ⟨hr, rfl⟩ := Table.find_eq_some.mp hfind
        by_cases hid : r.id = id
        · refine .inr ⟨hid, fun st hst => ?_, by simp [hid]⟩
          unfold Table.update at hu
          split at hu
          · rename_i hok
            have := hok r hr (by simpa using hid)
            rwa [Assignments.apply, hst] at this
          · cases hu
        · exact .inl (by simp [hid])

theorem accepted_reportResult (result : ProcessingResult) : (Rpc.reportResult result).Accepted := by
  intro st hst
  simp only [Rpc.assignments] at hst
  split at hst
  · obtain rfl := Option.some.inj hst
    decide
  · obtain rfl := Option.some.inj hst
    decide

theorem accepted_updateStatus {msg : StatusUpdate} :
    (Rpc.updateStatus msg).Accepted ↔ msg.status ∈ statuses :=
  ⟨fun h => h _ rfl, fun h st hst => by
    obtain rfl := Option.some.inj hst
    exact h⟩

theorem exec_statement_missing (hnone : t.find id = none) :
    ((call.statement id).exec order oracle t).2 = t := by
  have hrows : ∀ r ∈ t.rows, decide (r.id = id) = false := fun r hr => by
    simpa using Table.find_eq_none.mp hnone r hr
  rw [exec_statement_snd, update_of_forall_not hrows]

theorem update_accepted (h : call.Accepted) :
    (t.update (fun r => r.id = id) call.assignments oracle.now).1 =
      .ok ((t.rows.filter fun r => r.id = id).map (call.assignments.apply oracle.now)) := by
  refine update_fst fun r hr _ => ?_
  simp only [Assignments.apply]
  cases hst : call.assignments.status with
  | none => exact t.statusCheck r hr
  | some st => exact h st hst

/-- The rows after a statement that is accepted. -/
theorem rows_exec_statement (h : call.Accepted) : ((call.statement id).exec order oracle t).2.rows =
    t.rows.map fun r => if r.id = id then call.assignments.apply oracle.now r else r := by
  rw [exec_statement_snd]
  rcases hu : t.update (fun r => decide (r.id = id)) call.assignments oracle.now with ⟨e | rows, t'⟩
  · have hok := @update_accepted oracle t call id h
    rw [hu] at hok
    cases hok
  · rw [(update_eq_ok hu).2]
    simp only [decide_eq_true_eq]

theorem exec_statement_found (h : call.Accepted) (hb : t.find id = some b) :
    ((call.statement id).exec order oracle t).2.find id = some (call.assignments.apply oracle.now b) := by
  obtain ⟨hmem, hid⟩ := Table.find_eq_some.mp hb
  refine Table.find_eq_some.mpr ⟨?_, hid⟩
  rw [rows_exec_statement order oracle h]
  refine List.mem_map.mpr ⟨b, hmem, ?_⟩
  rw [if_pos hid]

/-- Only a status can be refused. -/
theorem exec_statement_refused (h : ¬ call.Accepted) (hb : t.find id = some b) :
    ∃ e, ((call.statement id).exec order oracle t).1 = .error e := by
  obtain ⟨hmem, hid⟩ := Table.find_eq_some.mp hb
  cases call with
  | reportResult result => exact (h (accepted_reportResult result)).elim
  | updateStatus msg =>
      rw [accepted_updateStatus] at h
      simp only [Rpc.statement, Sql.exec]
      split
      · refine ⟨.checkViolation, ?_⟩
        unfold Table.update
        rw [dif_neg fun hrows => h (hrows b hmem (decide_eq_true hid))]
        rfl
      · exact ⟨.invalidByteSequence, rfl⟩

/-- The statement makes no difference. -/
theorem exec_statement_eq_self : ((call.statement id).exec order oracle t).2 = t ↔
    ∀ b, t.find id = some b → call.Accepted → call.assignments.apply oracle.now b = b := by
  constructor
  · intro heq b hb haccepted
    have hfound := exec_statement_found order oracle haccepted hb
    rw [heq, hb] at hfound
    exact (Option.some.inj hfound).symm
  · intro h
    cases hfind : t.find id with
    | none => exact exec_statement_missing order oracle hfind
    | some b =>
        by_cases haccepted : call.Accepted
        · apply Table.ext
          rw [rows_exec_statement order oracle haccepted]
          conv_rhs => rw [← List.map_id t.rows]
          apply List.map_congr_left
          intro r hr
          split
          · next hid => exact h r (Table.find_eq_some.mpr ⟨hr, hid⟩) haccepted
          · rfl
        · obtain ⟨e, he⟩ := exec_statement_refused order oracle haccepted hfind
          exact exec_snd_of_error order oracle he

theorem exec_reportResult_answer (result : ProcessingResult) : ∃ n,
    (((Rpc.reportResult result).statement id).exec order oracle t).1 = .ok n := by
  by_cases hs : result.status = "completed"
  · rw [show (Rpc.reportResult result).statement id = .setCompleted id result.sizeBytes from
      if_pos hs]
    exact exec_setCompleted_ok order oracle id result.sizeBytes
  · rw [show (Rpc.reportResult result).statement id = .setFailed id from if_neg hs]
    simp only [Sql.exec]
    rw [update_fst]
    · exact ⟨_, rfl⟩
    · intro r _ _
      simp [Assignments.apply, statuses]

/-- The service acknowledges what it has written. -/
theorem answer_found (h : call.Accepted) (hrow : (t.find id).isSome) : ∃ message,
    call.answer id ((call.statement id).exec order oracle t).1 = .ok ⟨true, message⟩ := by
  cases call with
  | updateStatus msg =>
      obtain ⟨n, hn, hexec⟩ := exec_setStatus_ok order oracle (accepted_updateStatus.mp h) hrow
      refine ⟨"status updated", ?_⟩
      simp only [Rpc.statement]
      rw [hexec]
      exact if_neg hn
  | reportResult result =>
      obtain ⟨n, hexec⟩ := @exec_reportResult_answer order oracle t id result
      rw [hexec]
      exact ⟨_, rfl⟩

/-- No status is set for a row that is missing. -/
theorem answer_updateStatus_missing {msg : StatusUpdate} (hnone : t.find id = none) :
    ∃ e, (Rpc.updateStatus msg).answer id
      (((Rpc.updateStatus msg).statement id).exec order oracle t).1 = .error e := by
  simp only [Rpc.statement]
  rcases hr : ((Sql.setStatus id msg.status).exec order oracle t).1 with e | n
  · exact ⟨.internal e, rfl⟩
  · obtain rfl := exec_setStatus_none order oracle hnone hr
    exact ⟨_, rfl⟩

/-- A result is acknowledged whether the row is there or not. -/
theorem answer_reportResult {result : ProcessingResult} : (Rpc.reportResult result).answer id
    (((Rpc.reportResult result).statement id).exec order oracle t).1 =
      .ok ⟨true, "result recorded"⟩ := by
  obtain ⟨n, hn⟩ := @exec_reportResult_answer order oracle t id result
  rw [hn]
  rfl

end Effect

/-! ### Keys that a statement touches -/

/-- The two keys under which the row with the identifier can be cached. -/
def Table.Caches (t : Table) (id : Uuid) : Key → Prop
  | .backup id' => id' = id ∧ (t.find id).isSome
  | .tenantBackups tenantId => ∃ r, t.find id = some r ∧ r.tenantId = tenantId

/-- The keys whose content a statement may put out of date. -/
def Sql.Touches (t : Table) : Sql → Key → Prop
  | insertBackup tenantId _ _, key => key = .tenantBackups tenantId
  | updateBackup id tenantId _ _, key => t.Caches id key ∧ ∀ r, t.find id = some r → r.tenantId = tenantId
  | deleteBackup id tenantId, key => t.Caches id key ∧ ∀ r, t.find id = some r → r.tenantId = tenantId
  | setStatus id _, key => t.Caches id key
  | setCompleted id _, key => t.Caches id key
  | setFailed id, key => t.Caches id key
  | selectBackup _ _, _ => False
  | selectBackups _ _ _ _, _ => False
  | countBackups _ _, _ => False

theorem Table.Caches.eq_or_eq {t : Table} {id tenantId : Uuid} {key : Key} (h : t.Caches id key)
    (htenant : ∀ r, t.find id = some r → r.tenantId = tenantId) :
    key = .backup id ∨ key = .tenantBackups tenantId := by
  cases key with
  | backup id' => exact .inl (congrArg _ h.1)
  | tenantBackups tenantId' =>
      obtain ⟨r, hr, rfl⟩ := h
      exact .inr (congrArg _ (htenant r hr))

section Frame

variable (order : RowOrder) (oracle : Oracle) {t : Table} {s : Sql}

/-- The condition `id = $1 AND tenant_id = $2` picks no row that is cached
under an untouched key. -/
theorem and_eq_false_of_find {id id' tenantId : Uuid} {b : Backup} (hb : t.find id = some b)
    (h : ¬ (t.Caches id' (.backup id) ∧ ∀ r, t.find id' = some r → r.tenantId = tenantId)) :
    (decide (b.id = id') && decide (b.tenantId = tenantId)) = false := by
  have hid : b.id = id := (Table.find_eq_some.mp hb).2
  by_contra hp
  obtain ⟨heq, htenant⟩ : b.id = id' ∧ b.tenantId = tenantId := by simpa using hp
  have hid' : id = id' := hid.symm.trans heq
  refine h ⟨⟨hid', by rw [← hid', hb]; rfl⟩, fun r hr => ?_⟩
  rw [← hid', hb] at hr
  rw [← Option.some.inj hr]
  exact htenant

theorem id_eq_false_of_find {id id' : Uuid} {b : Backup} (hb : t.find id = some b)
    (h : ¬ t.Caches id' (.backup id)) : decide (b.id = id') = false := by
  have hid : b.id = id := (Table.find_eq_some.mp hb).2
  by_contra hp
  have hid' : id = id' := hid.symm.trans (by simpa using hp)
  exact h ⟨hid', by rw [← hid', hb]; rfl⟩

/-- A row whose key is not touched stays as it is. -/
theorem exec_find {id : Uuid} {b : Backup} (hb : t.find id = some b)
    (h : ¬ s.Touches t (.backup id)) : (s.exec order oracle t).2.find id = some b := by
  cases s with
  | insertBackup tenantId sourcePath encryptionEnabled =>
      simp only [Sql.exec]
      split
      · cases hins : t.insert (newBackup oracle tenantId sourcePath encryptionEnabled) with
        | error e => exact hb
        | ok t' =>
            -- An insert that succeeds has a new identifier, so it is another row.
            have hne : (newBackup oracle tenantId sourcePath encryptionEnabled).id ≠ id := by
              rintro rfl
              obtain ⟨hmem, heq⟩ := Table.find_eq_some.mp hb
              exact (insert_eq_ok hins).1 (heq ▸ List.mem_map_of_mem hmem)
            exact (find_insert hins).trans (by rw [if_neg hne, hb])
      · exact hb
  | selectBackup id' tenantId => exact hb
  | selectBackups tenantId status limit offset =>
      simp only [Sql.exec]
      split <;> exact hb
  | countBackups tenantId status =>
      simp only [Sql.exec]
      split <;> exact hb
  | updateBackup id' tenantId status sizeBytes =>
      refine (find_update_of_not fun r hr => ?_).trans hb
      rw [hb] at hr
      rw [← Option.some.inj hr]
      exact and_eq_false_of_find hb h
  | deleteBackup id' tenantId =>
      refine find_delete.trans ?_
      rw [hb, Option.filter_some, and_eq_false_of_find hb h]
      rfl
  | setStatus id' status =>
      simp only [Sql.exec]
      split
      · refine (find_update_of_not fun r hr => ?_).trans hb
        rw [hb] at hr
        rw [← Option.some.inj hr]
        exact id_eq_false_of_find hb h
      · exact hb
  | setCompleted id' sizeBytes =>
      refine (find_update_of_not fun r hr => ?_).trans hb
      rw [hb] at hr
      rw [← Option.some.inj hr]
      exact id_eq_false_of_find hb h
  | setFailed id' =>
      refine (find_update_of_not fun r hr => ?_).trans hb
      rw [hb] at hr
      rw [← Option.some.inj hr]
      exact id_eq_false_of_find hb h

theorem tenant_ne_of_and {id tenantId tenantId' : Uuid}
    (h : ¬ (t.Caches id (.tenantBackups tenantId) ∧
      ∀ r, t.find id = some r → r.tenantId = tenantId')) :
    ∀ r ∈ t.rows, (decide (r.id = id) && decide (r.tenantId = tenantId')) = true →
      r.tenantId ≠ tenantId := by
  intro r hr hp htenant
  obtain ⟨hid, htenant'⟩ : r.id = id ∧ r.tenantId = tenantId' := by simpa using hp
  have hfind : t.find id = some r := Table.find_eq_some.mpr ⟨hr, hid⟩
  refine h ⟨⟨r, hfind, htenant⟩, fun r' hr' => ?_⟩
  rw [← Option.some.inj (hfind.symm.trans hr')]
  exact htenant'

theorem tenant_ne_of_id {id tenantId : Uuid} (h : ¬ t.Caches id (.tenantBackups tenantId)) :
    ∀ r ∈ t.rows, decide (r.id = id) = true → r.tenantId ≠ tenantId := fun r hr hp htenant =>
  h ⟨r, Table.find_eq_some.mpr ⟨hr, by simpa using hp⟩, htenant⟩

/-- The rows of a tenant whose key is not touched stay as they are. -/
theorem exec_restrict_eq {tenantId : Uuid} (h : ¬ s.Touches t (.tenantBackups tenantId)) :
    (s.exec order oracle t).2.restrict tenantId = t.restrict tenantId := by
  cases s with
  | insertBackup tenantId' sourcePath encryptionEnabled =>
      simp only [Sql.exec]
      split
      · cases hins : t.insert (newBackup oracle tenantId' sourcePath encryptionEnabled) with
        | error e => rfl
        | ok t' => exact insert_restrict_of_ne hins fun heq => h (congrArg Key.tenantBackups heq.symm)
      · rfl
  | selectBackup id tenantId' => rfl
  | selectBackups tenantId' status limit offset =>
      simp only [Sql.exec]
      split <;> rfl
  | countBackups tenantId' status =>
      simp only [Sql.exec]
      split <;> rfl
  | updateBackup id tenantId' status sizeBytes => exact update_restrict_of_ne (tenant_ne_of_and h)
  | deleteBackup id tenantId' => exact delete_restrict_of_ne (tenant_ne_of_and h)
  | setStatus id status =>
      simp only [Sql.exec]
      split
      · exact update_restrict_of_ne (tenant_ne_of_id h)
      · rfl
  | setCompleted id sizeBytes => exact update_restrict_of_ne (tenant_ne_of_id h)
  | setFailed id => exact update_restrict_of_ne (tenant_ne_of_id h)

end Frame

end BackupService
