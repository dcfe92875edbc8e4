import BackupService.Operations

/-!
The part of the database that belongs to one tenant.

`Table.restrict` keeps the rows of a tenant. A statement that stays within
a tenant (`Sql.Within`) cannot tell the restricted table from the whole
one, and it commutes with the restriction (`exec_restrict`); on the rows of
everybody else it has no effect (`exec_restrict_of_ne`). Statements of the
workers name a row and no tenant, so whose rows they touch depends on who
owns the identifier. An `Owner` says that once and for all for a whole run.
-/

namespace BackupService

/-! ### Restricting a table -/

/-- The rows of a tenant. -/
def Table.restrict (t : Table) (tenantId : Uuid) : Table where
  rows := t.rows.filter (·.tenantId = tenantId)
  primaryKey := t.primaryKey.sublist (List.filter_sublist.map _)
  statusCheck r hr := t.statusCheck r (List.mem_of_mem_filter hr)

section Restrict

variable {t t' : Table} {tenantId : Uuid}

theorem mem_restrict {r : Backup} :
    r ∈ (t.restrict tenantId).rows ↔ r ∈ t.rows ∧ r.tenantId = tenantId := by
  simp [Table.restrict]

theorem matching_restrict (status : Option String) :
    (t.restrict tenantId).matching tenantId status = t.matching tenantId status := by
  rw [Table.matching, Table.matching, Table.restrict, List.filter_filter]
  refine List.filter_congr fun r _ => ?_
  by_cases h : r.tenantId = tenantId <;> simp [Backup.matches, h]

theorem page_restrict (order : RowOrder) (status : Option String) (limit offset : ℤ) :
    (t.restrict tenantId).page order tenantId status limit offset =
      t.page order tenantId status limit offset := by
  rw [Table.page, matching_restrict, Table.page]

theorem count_restrict (status : Option String) :
    (t.restrict tenantId).count tenantId status = t.count tenantId status := by
  rw [Table.count, matching_restrict, Table.count]

theorem filter_restrict {p : Backup → Bool}
    (hp : ∀ r ∈ t.rows, p r = true → r.tenantId = tenantId) :
    (t.restrict tenantId).rows.filter p = t.rows.filter p := by
  rw [Table.restrict, List.filter_filter]
  refine List.filter_congr fun r hr => ?_
  cases h : p r with
  | false => simp
  | true => simp [hp r hr h]

theorem find?_restrict {p : Backup → Bool} (hp : ∀ r ∈ t.rows, p r = true → r.tenantId = tenantId) :
    (t.restrict tenantId).rows.find? p = t.rows.find? p := by
  rw [← List.head?_filter, filter_restrict hp, List.head?_filter]

/-! ### Changes within a tenant -/

theorem tenantId_updated (p : Backup → Bool) (c : Assignments) (now : Timestamp) (r : Backup) :
    (if p r then c.apply now r else r).tenantId = r.tenantId := by
  split <;> rfl

theorem insert_restrict {r : Backup} (hr : r.tenantId = tenantId)
    (hid : ∀ r' ∈ t.rows, r'.id = r.id → r'.tenantId = tenantId) :
    (t.restrict tenantId).insert r = (t.insert r).map (·.restrict tenantId) := by
  have hmem : r.id ∈ (t.restrict tenantId).rows.map Backup.id ↔ r.id ∈ t.rows.map Backup.id := by
    simp only [List.mem_map, mem_restrict]
    constructor
    · rintro ⟨r', ⟨hr', -⟩, heq⟩
      exact ⟨r', hr', heq⟩
    · rintro ⟨r', hr', heq⟩
      exact ⟨r', ⟨hr', hid r' hr' heq⟩, heq⟩
  unfold Table.insert
  by_cases hdup : r.id ∈ t.rows.map Backup.id
  · rw [dif_pos hdup, dif_pos (hmem.mpr hdup)]
    rfl
  · rw [dif_neg hdup, dif_neg (mt hmem.mp hdup)]
    split
    · refine congrArg Except.ok (Table.ext ?_)
      simp [Table.restrict, hr]
    · rfl

theorem update_restrict {p : Backup → Bool} {c : Assignments} {now : Timestamp}
    (hp : ∀ r ∈ t.rows, p r = true → r.tenantId = tenantId) :
    (t.restrict tenantId).update p c now =
      ((t.update p c now).1, (t.update p c now).2.restrict tenantId) := by
  have hcheck : (∀ r ∈ (t.restrict tenantId).rows, p r = true → (c.apply now r).status ∈ statuses) ↔
      ∀ r ∈ t.rows, p r = true → (c.apply now r).status ∈ statuses := by
    refine ⟨fun h r hr hpr => h r (mem_restrict.mpr ⟨hr, hp r hr hpr⟩) hpr, fun h r hr hpr => ?_⟩
    exact h r (mem_restrict.mp hr).1 hpr
  unfold Table.update
  by_cases h : ∀ r ∈ t.rows, p r = true → (c.apply now r).status ∈ statuses
  · rw [dif_pos h, dif_pos (hcheck.mpr h), filter_restrict hp]
    refine Prod.ext rfl (Table.ext ?_)
    simp only [Table.restrict, List.filter_map, Function.comp_def, tenantId_updated]
  · rw [dif_neg h, dif_neg (mt hcheck.mp h)]

theorem delete_restrict (p : Backup → Bool) :
    (t.delete p).restrict tenantId = (t.restrict tenantId).delete p := by
  refine Table.ext ?_
  simp only [Table.delete, Table.restrict, List.filter_filter]
  exact List.filter_congr fun _ _ => Bool.and_comm _ _

/-! ### Changes elsewhere -/

theorem insert_restrict_of_ne {r : Backup} (h : t.insert r = .ok t') (hr : r.tenantId ≠ tenantId) :
    t'.restrict tenantId = t.restrict tenantId := by
  unfold Table.insert at h
  split at h
  · cases h
  · split at h
    · cases h
      refine Table.ext ?_
      simp [Table.restrict, hr]
    · cases h

theorem update_restrict_of_ne {p : Backup → Bool} {c : Assignments} {now : Timestamp}
    (hp : ∀ r ∈ t.rows, p r = true → r.tenantId ≠ tenantId) :
    (t.update p c now).2.restrict tenantId = t.restrict tenantId := by
  unfold Table.update
  split
  · refine Table.ext ?_
    simp only [Table.restrict, List.filter_map, Function.comp_def, tenantId_updated]
    have hsame : ∀ r ∈ t.rows.filter (·.tenantId = tenantId),
        (if p r then c.apply now r else r) = id r := by
      intro r hr
      obtain ⟨hr, htenant⟩ := List.mem_filter.mp hr
      rw [if_neg fun h => hp r hr h (by simpa using htenant), id]
    rw [List.map_congr_left hsame, List.map_id]
  · rfl

theorem delete_restrict_of_ne {p : Backup → Bool}
    (hp : ∀ r ∈ t.rows, p r = true → r.tenantId ≠ tenantId) :
    (t.delete p).restrict tenantId = t.restrict tenantId := by
  refine Table.ext ?_
  simp only [Table.delete, Table.restrict, List.filter_filter]
  refine List.filter_congr fun r hr => ?_
  cases h : p r with
  | false => simp
  | true => simp [hp r hr h]

end Restrict

/-! ### Owners -/

/-- To which tenant an identifier belongs, if to any. -/
abbrev Owner := Uuid → Option Uuid

/-- Every row belongs to the owner of its identifier. -/
def Table.OwnedBy (owner : Owner) (t : Table) : Prop := ∀ r ∈ t.rows, owner r.id = some r.tenantId

/-- Nobody but the tenant can own the identifier. -/
def Owner.Admits (owner : Owner) (tenantId id : Uuid) : Prop :=
  ∀ t, owner id = some t → t = tenantId

section Owned

variable {owner : Owner} {t t' : Table} {tenantId : Uuid}

theorem ownedBy_insert {r : Backup} (h : t.OwnedBy owner) (hr : owner r.id = some r.tenantId)
    (hins : t.insert r = .ok t') : t'.OwnedBy owner := by
  unfold Table.insert at hins
  split at hins
  · cases hins
  · split at hins
    · cases hins
      intro r' hr'
      rcases List.mem_append.mp hr' with hr' | hr'
      · exact h r' hr'
      · rw [List.mem_singleton.mp hr']
        exact hr
    · cases hins

theorem ownedBy_update (h : t.OwnedBy owner) (p : Backup → Bool) (c : Assignments)
    (now : Timestamp) : (t.update p c now).2.OwnedBy owner := by
  unfold Table.update
  split
  · intro r' hr'
    obtain ⟨r, hr, rfl⟩ := List.mem_map.mp hr'
    have hown := h r hr
    split <;> exact hown
  · exact h

theorem ownedBy_delete (h : t.OwnedBy owner) (p : Backup → Bool) : (t.delete p).OwnedBy owner :=
  fun r hr => h r (List.mem_of_mem_filter hr)

theorem tenant_of_id (h : t.OwnedBy owner) {id : Uuid} (hid : owner.Admits tenantId id) :
    ∀ r ∈ t.rows, decide (r.id = id) = true → r.tenantId = tenantId := by
  intro r hr heq
  obtain rfl : r.id = id := by simpa using heq
  exact hid _ (h r hr)

end Owned

/-! ### Statements within a tenant -/

/-- The statement names the tenant, or a row that nobody else owns. -/
def Sql.Within (owner : Owner) (oracle : Oracle) (tenantId : Uuid) : Sql → Prop
  | insertBackup t _ _ => t = tenantId ∧ owner oracle.newId = some tenantId
  | selectBackup _ t => t = tenantId
  | selectBackups t _ _ _ => t = tenantId
  | countBackups t _ => t = tenantId
  | updateBackup _ t _ _ => t = tenantId
  | deleteBackup _ t => t = tenantId
  | setStatus id _ => owner.Admits tenantId id
  | setCompleted id _ => owner.Admits tenantId id
  | setFailed id => owner.Admits tenantId id

section Exec

variable {owner : Owner} (order : RowOrder) {oracle : Oracle} {t : Table} {tenantId : Uuid} {s : Sql}

/-- The condition `id = $1 AND tenant_id = $2`. -/
theorem tenant_of_and {id : Uuid} : ∀ r ∈ t.rows,
    (decide (r.id = id) && decide (r.tenantId = tenantId)) = true → r.tenantId = tenantId := by
  intro r _ h
  simpa using (Bool.and_eq_true_iff.mp h).2

/-- What is done to a tenant's rows does not depend on the others. -/
theorem exec_restrict (hs : s.Within owner oracle tenantId) (ht : t.OwnedBy owner) :
    s.exec order oracle (t.restrict tenantId) =
      ((s.exec order oracle t).1, (s.exec order oracle t).2.restrict tenantId) := by
  cases s with
  | insertBackup t' sourcePath encryptionEnabled =>
      obtain ⟨rfl, hid⟩ := hs
      have hins : (t.restrict t').insert (newBackup oracle t' sourcePath encryptionEnabled) =
          (t.insert (newBackup oracle t' sourcePath encryptionEnabled)).map (·.restrict t') :=
        insert_restrict rfl fun r' hr' heq => by
          have hown := ht r' hr'
          rw [heq] at hown
          exact (Option.some.inj (hid.symm.trans hown)).symm
      simp only [Sql.exec, hins]
      split
      · cases t.insert (newBackup oracle t' sourcePath encryptionEnabled) <;> rfl
      · rfl
  | selectBackup id t' =>
      obtain rfl := hs
      simp only [Sql.exec, find?_restrict tenant_of_and]
  | selectBackups t' status limit offset =>
      obtain rfl := hs
      simp only [Sql.exec, page_restrict]
      split <;> rfl
  | countBackups t' status =>
      obtain rfl := hs
      simp only [Sql.exec, count_restrict]
      split <;> rfl
  | updateBackup id t' status sizeBytes =>
      obtain rfl := hs
      simp only [Sql.exec, update_restrict tenant_of_and]
  | deleteBackup id t' =>
      obtain rfl := hs
      simp only [Sql.exec, delete_restrict, List.countP_eq_length_filter,
        filter_restrict tenant_of_and]
  | setStatus id status =>
      simp only [Sql.exec, update_restrict (tenant_of_id ht hs)]
      split <;> rfl
  | setCompleted id sizeBytes => simp only [Sql.exec, update_restrict (tenant_of_id ht hs)]
  | setFailed id => simp only [Sql.exec, update_restrict (tenant_of_id ht hs)]

/-- Nothing happens to the rows of another tenant. -/
theorem exec_restrict_of_ne {other : Uuid} (hs : s.Within owner oracle other) (ht : t.OwnedBy owner)
    (hne : other ≠ tenantId) : (s.exec order oracle t).2.restrict tenantId = t.restrict tenantId := by
  have hand : ∀ id : Uuid, ∀ r ∈ t.rows,
      (decide (r.id = id) && decide (r.tenantId = other)) = true → r.tenantId ≠ tenantId :=
    fun id r hr h => tenant_of_and r hr h ▸ hne
  have hid : ∀ id : Uuid, owner.Admits other id → ∀ r ∈ t.rows,
      decide (r.id = id) = true → r.tenantId ≠ tenantId :=
    fun id hadm r hr h => tenant_of_id ht hadm r hr h ▸ hne
  cases s with
  | insertBackup t' sourcePath encryptionEnabled =>
      obtain ⟨rfl, -⟩ := hs
      simp only [Sql.exec]
      split
      · cases h : t.insert (newBackup oracle t' sourcePath encryptionEnabled) with
        | ok t'' => exact insert_restrict_of_ne h hne
        | error e => rfl
      · rfl
  | selectBackup id t' => rfl
  | selectBackups t' status limit offset =>
      simp only [Sql.exec]
      split <;> rfl
  | countBackups t' status =>
      simp only [Sql.exec]
      split <;> rfl
  | updateBackup id t' status sizeBytes =>
      obtain rfl := hs
      exact update_restrict_of_ne (hand id)
  | deleteBackup id t' =>
      obtain rfl := hs
      exact delete_restrict_of_ne (hand id)
  | setStatus id status =>
      simp only [Sql.exec]
      split
      · exact update_restrict_of_ne (hid id hs)
      · rfl
  | setCompleted id sizeBytes => exact update_restrict_of_ne (hid id hs)
  | setFailed id => exact update_restrict_of_ne (hid id hs)

theorem exec_ownedBy (hs : s.Within owner oracle tenantId) (ht : t.OwnedBy owner) :
    (s.exec order oracle t).2.OwnedBy owner := by
  cases s with
  | insertBackup t' sourcePath encryptionEnabled =>
      obtain ⟨rfl, hid⟩ := hs
      simp only [Sql.exec]
      split
      · cases h : t.insert (newBackup oracle t' sourcePath encryptionEnabled) with
        | ok t'' => exact ownedBy_insert ht hid h
        | error e => exact ht
      · exact ht
  | selectBackup id t' => exact ht
  | selectBackups t' status limit offset =>
      simp only [Sql.exec]
      split <;> exact ht
  | countBackups t' status =>
      simp only [Sql.exec]
      split <;> exact ht
  | updateBackup id t' status sizeBytes => exact ownedBy_update ht _ _ _
  | deleteBackup id t' => exact ownedBy_delete ht _
  | setStatus id status =>
      simp only [Sql.exec]
      split
      · exact ownedBy_update ht _ _ _
      · exact ht
  | setCompleted id sizeBytes => exact ownedBy_update ht _ _ _
  | setFailed id => exact ownedBy_update ht _ _ _

end Exec

end BackupService
