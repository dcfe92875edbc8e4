import BackupService.MainStages

/-!
When the service comes up.

No process serves anything before the migrations have been run
(`served_after_migrations`), so it depends on the database whether any process
ever does. A process that meets with no failure gets as far as to accept
requests if version 1 is recorded, or can be (`Fleet.comesUp`); otherwise none
ever will, however many are started (`serves_iff`).
-/

namespace BackupService

open Lib

section Runs

variable {d : Deployment} {db : Schema} {table : Table} {s : Fleet} {i : ℕ}

theorem Gateway.attended_initial (table : Table) (replicas : ℕ → Replica) :
    (Gateway.initial table replicas).Attended where
  numbered n v h := by
    change none = some v at h
    cases h
  claimed n v info h := by
    change none = some v at h
    cases h
  handlers _ := rfl

variable (d db table) in
theorem fleet_sound (es : List FleetEvent) :
    ((fleet d).run (.initial d db table) es).Sound d db := by
  refine Machine.run_invariant _ (fun _ e hs => hs.step e) ?_ es
  refine ⟨⟨id, .inl⟩, fun _ => rfl, fun n v h => ?_, Gateway.attended_initial ..⟩
  change none = some v at h
  cases h

/-- Whoever shows something has a server that is up. -/
theorem Fleet.Sound.up_of_shown (h : s.Sound d db) {e : FleetEvent} {o : GatewayObs}
    (ho : .shown o ∈ ((fleet d).step s e).2) :
    ∃ i, (s.services i).http ≠ .closed ∨ (s.services i).grpc ≠ .absent := by
  have haccepting : ∀ i, (s.services i).http = .accepting →
      ∃ i, (s.services i).http ≠ .closed ∨ (s.services i).grpc ≠ .absent :=
    fun i hi => ⟨i, .inl (hi.trans_ne (by decide))⟩
  have heffect := Fleet.effect_step d s e
  generalize (fleet d).step s e = out at heffect ho
  cases heffect with
  | quiet | exit | call => cases ho
  | forget => cases List.mem_singleton.mp ho
  | @http e htakes =>
      have ho' : o ∈ ((BackupService.gateway d.jwt d.uuid).step s.gateway e).2 := by
        rcases List.mem_append.mp ho with ho | ho
        · obtain ⟨o', ho', heq⟩ := List.mem_map.mp ho
          exact FleetObs.shown.inj heq ▸ ho'
        · cases e with
          | abandon n =>
              simp only [Fleet.leaves] at ho
              split at ho
              · cases List.mem_singleton.mp ho
              · cases ho
          | _ => cases ho
      rcases h.attended.shown_by ho' with ⟨n, v, hvisit⟩ | ⟨i, request, utc, rfl⟩ |
        ⟨i, request, rfl⟩ | ⟨rpc, oracle, env, rfl⟩
      · rcases h.visits n v hvisit with hhttp | hhttp <;>
          exact ⟨v.replica, .inl (hhttp.trans_ne (by decide))⟩
      · exact haccepting i (by simpa [Fleet.takes] using htakes)
      · exact haccepting i (by simpa [Fleet.takes] using htakes)
      · cases htakes
  | @execute i k rpc oracle env hcall =>
      have hserving : (s.services i).grpc = .serving := Fleet.calls_serving h (List.ne_nil_of_mem hcall)
      exact ⟨i, .inr (hserving.trans_ne (by decide))⟩

variable (d db table) in
/-- **Nothing is served before the migrations have been run.** In every step
that shows something of a request or of a callback, at whichever process,
version 1 is recorded; and unless it was recorded to begin with, the table and
its indexes are there. -/
theorem served_after_migrations (es : List FleetEvent) :
    (fleet d).Along (fun s e => (∃ o, .shown o ∈ ((fleet d).step s e).2) →
      s.db.Recorded ∧ (db.Recorded ∨ s.db.Installed)) (.initial d db table) es := by
  have hany : (fleet d).Along (fun _ _ => True) (.initial d db table) es :=
    Machine.along_of_forall (fun _ _ _ => trivial) _
  refine hany.along (I := Fleet.Sound d db) (fun _ e hs _ => hs.step e) ?_ (fleet_sound d db table [])
  rintro s e hsound - ⟨o, ho⟩
  obtain ⟨i, hup⟩ := hsound.up_of_shown ho
  have hrecorded := ((hsound.processes i).recorded hup).1
  exact ⟨hrecorded, (hsound.migrated.recorded hrecorded).imp id And.right⟩

/-! ### Coming up -/

/-- `main` of process `i` can get to accept requests. -/
def Fleet.ComesUp (d : Deployment) (i : ℕ) (s : Fleet) : Prop :=
  ∃ es, (((fleet d).run s es).services i).http = .accepting

/-- What is left of `main` gets there from the database `db`. -/
def ComesUpFrom (d : Deployment) (i : ℕ) (rest : MainProgram) (db : Schema) : Prop :=
  ∀ s : Fleet, (s.services i).main = .running rest → s.db = db → s.ComesUp d i

/-- One operation that succeeds. -/
theorem comesUpFrom_op {db' : Schema} {o : MainOp} {k : o.Answer → MainProgram} {a : o.Answer}
    (hperform : ∀ s : Fleet, s.db = db → ∃ s', s.perform d i {} o = some (a, s') ∧ s'.db = db')
    (h : ComesUpFrom d i (k a) db') : ComesUpFrom d i (.op o k) db := by
  intro s hmain hdb
  obtain ⟨s', hs', hdb'⟩ := hperform s hdb
  obtain ⟨es, hes⟩ := h (s'.modify i fun v => { v with main := .running (k a) })
    (by rw [Fleet.modify_self]) hdb'
  refine ⟨.main i {} :: es, ?_⟩
  have hstep : ((fleet d).step s (.main i {})).1 =
      s'.modify i fun v => { v with main := .running (k a) } := by
    show s.stepMain d i {} = _
    simp only [Fleet.stepMain, hmain, hs']
  rw [Machine.run_cons, hstep]
  exact hes

/-- An operation that does not concern the database. -/
theorem comesUpFrom_quiet {o : MainOp} {f : o.Answer → Main Unit} {a : o.Answer}
    (hperform : ∀ s : Fleet, ∃ s', s.perform d i {} o = some (a, s') ∧ s'.db = s.db)
    (h : ComesUpFrom d i (f a).run db) : ComesUpFrom d i (mainOp o >>= f).run db :=
  comesUpFrom_op (k := fun r => (f r).run) (fun s hs => (hperform s).imp fun _ => And.imp id (Eq.trans · hs)) h

/-- A statement that succeeds. -/
theorem comesUpFrom_statement {db' : Schema} {o : MigrationOp} {f : o.Result → MigrationCall}
    {g : Except MainError Unit → MainProgram} {a : o.Result}
    (hexec : o.exec d.protocol 0 db = (.ok a, db'))
    (h : ComesUpFrom d i (migrate (f a) >>= g) db') :
    ComesUpFrom d i (migrate (MigrationCall.step o f) >>= g) db := by
  rw [migrate_step, Program.op_bind]
  refine comesUpFrom_op (a := some (.ok a)) (fun s hs => ⟨{ s with db := db' }, ?_, rfl⟩) h
  simp only [Fleet.perform, hs, hexec]

theorem Schema.Unrecorded.not_recorded (h : db.Unrecorded) : ¬ db.Recorded := by
  rintro ⟨t, row, ht, hrow, hversion, -⟩
  exact h t ht row hrow hversion

/-- The migrations, from a database in which version 1 is recorded or can be. -/
theorem comesUpFrom_migrate (hdb : db.Recorded ∨ d.protocol = .atomic ∧ db.Unrecorded)
    {g : Except MainError Unit → MainProgram} (h : ∀ db', ComesUpFrom d i (g (.ok ())) db') :
    ComesUpFrom d i (migrate runMigrations.run >>= g) db := by
  rw [runMigrations_run]
  refine comesUpFrom_statement (a := ()) rfl ?_
  generalize hdb₁ : (⟨some (db.versions.getD .empty), db.objects⟩ : Schema) = db₁
  have hversions : db₁.versions.isSome := by rw [← hdb₁]; rfl
  obtain ⟨applied, hselect, hiff⟩ := exec_selectApplied 0 hversions
  refine comesUpFrom_statement (a := applied) hselect ?_
  show ComesUpFrom d i (migrate (if 1 ∉ applied then _ else _) >>= g) db₁
  rcases hdb with hrecorded | ⟨hprotocol, hunrecorded⟩
  · have happlied : 1 ∈ applied := hiff.mpr (hdb₁ ▸ recorded_ensured hrecorded)
    rw [if_neg (not_not.mpr happlied)]
    exact h db₁
  · have hnew : db₁.Unrecorded := hdb₁ ▸ unrecorded_ensured hunrecorded
    rw [if_pos fun happlied => hnew.not_recorded (hiff.mp happlied)]
    obtain ⟨db₂, hexec, hsame⟩ := execText_migration001 db₁
    have hexecute : (MigrationOp.execute migration001).exec d.protocol 0 db₁ = (.ok (), db₂) := by
      simp only [MigrationOp.exec, hprotocol, hexec]
    refine comesUpFrom_statement (a := ()) hexecute ?_
    have hnew₂ : db₂.Unrecorded := fun t ht => hnew t (hsame ▸ ht)
    obtain ⟨db₃, hinsert, -, -⟩ := exec_insertVersion 0 (hsame ▸ hversions) hnew₂
    exact comesUpFrom_statement (a := ()) hinsert (h db₃)

theorem comesUpFrom_startUpdater {config : AppConfig} {f : Unit → Main Unit}
    (h : ComesUpFrom d i (f ()).run db) : ComesUpFrom d i (startUpdater config >>= f).run db := by
  unfold startUpdater
  split
  · refine comesUpFrom_quiet (a := true) (fun s => ⟨s, rfl, rfl⟩) ?_
    exact comesUpFrom_quiet (a := ()) (fun s => ⟨_, rfl, rfl⟩) h
  · exact h

theorem comesUpFrom_serve {state : AppState} {f : Unit → Main Unit} :
    ComesUpFrom d i (mainOp (.serve state) >>= f).run db := by
  intro s hmain _
  change (s.services i).main = .running (.op (.serve state) fun r => (f r).run) at hmain
  refine ⟨[.main i {}], ?_⟩
  show ((s.stepMain d i {}).services i).http = .accepting
  simp only [Fleet.stepMain, hmain, Fleet.perform, Fleet.modify_self]

/-- A process that meets with no failure. -/
theorem comesUpFrom_main {env : EnvVars} {parseAddr : String → Option SocketAddr}
    (hconfig : (AppConfig.fromEnv parseAddr env).isSome)
    (hdb : db.Recorded ∨ d.protocol = .atomic ∧ db.Unrecorded) :
    ComesUpFrom d i (main parseAddr env).run db := by
  obtain ⟨config, hconfig⟩ := Option.isSome_iff_exists.mp hconfig
  unfold main
  rw [hconfig]
  refine comesUpFrom_quiet (a := true) (fun s => ⟨s, rfl, rfl⟩) ?_
  refine comesUpFrom_migrate hdb fun db' => ?_
  refine comesUpFrom_quiet (fun s => ⟨s, rfl, rfl⟩) ?_
  refine comesUpFrom_quiet (fun s => ⟨_, rfl, rfl⟩) ?_
  refine comesUpFrom_quiet (a := true) (fun s => ⟨s, rfl, rfl⟩) ?_
  refine comesUpFrom_startUpdater ?_
  refine comesUpFrom_quiet (a := ()) (fun s => ⟨_, rfl, rfl⟩) ?_
  refine comesUpFrom_quiet (a := true) (fun s => ⟨_, rfl, rfl⟩) ?_
  exact comesUpFrom_serve

/-- Process `i` can come up, whatever the others are doing. -/
theorem Fleet.comesUp (hdown : s.services i = {}) (hdb : s.db = db)
    (hconfig : (AppConfig.fromEnv d.parseAddr (d.sites i).env).isSome)
    (hgood : db.Recorded ∨ d.protocol = .atomic ∧ db.Unrecorded) : s.ComesUp d i := by
  have hstart : ((fleet d).step s (.start i)).1 = s.modify i fun v =>
      { v with main := .running (main d.parseAddr (d.sites i).env).run } := by
    simp only [fleet, hdown]
  obtain ⟨es, hes⟩ := comesUpFrom_main (d := d) (i := i) hconfig hgood
    ((fleet d).step s (.start i)).1 (by rw [hstart, Fleet.modify_self]) (by rw [hstart]; exact hdb)
  exact ⟨.start i :: es, hes⟩

variable (d db table) in
/-- **When the service can come up.** In some run something is served exactly
if one of the processes has a configuration, and version 1 is recorded from
the start, or has no row and the file of migration 001 can be executed. -/
theorem serves_iff :
    (∃ es o, .shown o ∈ (fleet d).trace (.initial d db table) es) ↔
      (∃ i, (AppConfig.fromEnv d.parseAddr (d.sites i).env).isSome) ∧
        (db.Recorded ∨ d.protocol = .atomic ∧ db.Unrecorded) := by
  constructor
  · rintro ⟨es, o, ho⟩
    obtain ⟨pre, e, post, -, ho⟩ := Machine.exists_of_mem_trace (fleet d) ho
    have hsound := fleet_sound d db table pre
    obtain ⟨i, hup⟩ := hsound.up_of_shown ho
    obtain ⟨hrecorded, hconfig⟩ := (hsound.processes i).recorded hup
    exact ⟨⟨i, hconfig⟩, (hsound.migrated.recorded hrecorded).imp id And.left⟩
  · rintro ⟨⟨i, hconfig⟩, hgood⟩
    obtain ⟨es, hes⟩ := Fleet.comesUp (s := .initial d db table) (i := i) rfl rfl hconfig hgood
    -- A login without a body is refused by whoever accepts requests.
    refine ⟨es ++ [.http (.login i ⟨none, false, .broken⟩ 0)],
      .refused Rejection.missingJsonContentType.intoResponse, ?_⟩
    rw [Machine.trace_concat]
    refine List.mem_append_right _ ?_
    generalize (fleet d).run (.initial d db table) es = s at hes
    have htakes : s.takes (.login i ⟨none, false, .broken⟩ 0) = true := by
      simpa [Fleet.takes] using hes
    simp only [fleet, htakes, if_true]
    exact List.mem_append_left _ (List.mem_singleton_self _)

end Runs

end BackupService
