import BackupService.Refinement

/-!
Callbacks and cached copies.

The service for the workers holds the database pool and no cache, so a
callback changes a row and leaves every cached copy of it in place. A
reader is therefore shown the row as it is exactly as long as no callback
finds a live copy that says something else than what it is about to write
(`NoStaleCopy`).
-/

namespace BackupService

open Lib Program

/-! ### Copies that show the row -/

/-- The copy has the identity, the status and the size of the row. -/
structure Backup.Shows (b r : Backup) : Prop where
  id : b.id = r.id
  tenantId : b.tenantId = r.tenantId
  status : b.status = r.status
  sizeBytes : b.sizeBytes = r.sizeBytes

theorem Backup.Shows.refl (r : Backup) : r.Shows r := ⟨rfl, rfl, rfl, rfl⟩

/-- A value is fresh when every backup in it shows the row it is a copy of. -/
def Freshness.shown (order : RowOrder) (limit offset : ℤ) : Freshness order limit offset where
  fresh
    | t, .backup id, v => ∃ b r, v = .backup b ∧ t.find id = some r ∧ b.Shows r
    | t, .tenantBackups tenantId, v => ∃ items total, v = .page items total ∧
        ∀ b ∈ items, ∃ r, t.find b.id = some r ∧ r.tenantId = tenantId ∧ b.Shows r
  row h := ⟨_, _, rfl, h, .refl _⟩
  page t tenantId := ⟨_, _, rfl, fun b hb => by
    obtain ⟨hmem, htenant⟩ := mem_of_mem_page hb
    exact ⟨b, Table.find_eq_some.mpr ⟨hmem, rfl⟩, htenant, .refl _⟩⟩
  frame_row := by
    rintro t t' id v hfind ⟨b, r, rfl, hr, hshows⟩
    exact ⟨b, r, rfl, hfind r hr, hshows⟩
  frame_page := by
    rintro t t' tenantId v hrestrict ⟨items, total, rfl, hitems⟩
    refine ⟨items, total, rfl, fun b hb => ?_⟩
    obtain ⟨r, hr, htenant, hshows⟩ := hitems b hb
    obtain ⟨hmem, hid⟩ := Table.find_eq_some.mp hr
    have hmem' : r ∈ (t'.restrict tenantId).rows := hrestrict ▸ mem_restrict.mpr ⟨hmem, htenant⟩
    exact ⟨r, Table.find_eq_some.mpr ⟨(mem_restrict.mp hmem').1, hid⟩, htenant, hshows⟩

/-- A live copy of the backup, under its own key or in the page of a tenant. -/
def Redis.HoldsCopy (r : Redis) (id tenantId : Uuid) (b : Backup) : Prop :=
  (∃ e, r (.backup id) = some ⟨.backup b, e⟩) ∨
    ∃ items total e, r (.tenantBackups tenantId) = some ⟨.page items total, e⟩ ∧
      b ∈ items ∧ b.id = id

/-- The copy already says what is about to be written. -/
def Assignments.SaidBy (c : Assignments) (b : Backup) : Prop :=
  (∀ st, c.status = some st → b.status = st) ∧ ∀ n, c.sizeBytes = some n → b.sizeBytes = n

/-- No live copy of the row that the call is about to change has another
status or another size than the call writes. -/
def NoStaleCopy (uuid : UuidParser) (w : Surroundings) (call : Rpc) (s : Session) : Prop :=
  ∀ id r, uuid.parse call.backupId = .ok id → s.store.db.find id = some r → call.Accepted →
    ∀ b, (s.settle w).redis.HoldsCopy id r.tenantId b → call.assignments.SaidBy b

theorem Backup.Shows.assign {b r : Backup} (h : b.Shows r) {c : Assignments} (hc : c.SaidBy b)
    (now : Timestamp) : b.Shows (c.apply now r) := by
  refine ⟨h.id, h.tenantId, ?_, ?_⟩
  · cases hst : c.status with
    | none => simp [Assignments.apply, hst, h.status]
    | some st => simp [Assignments.apply, hst, hc.1 st hst]
  · cases hn : c.sizeBytes with
    | none => simp [Assignments.apply, hn, h.sizeBytes]
    | some n => simp [Assignments.apply, hn, hc.2 n hn]

/-! ### Turns -/

section Turns

variable {uuid : UuidParser} {w : Surroundings} {state : AppState} {s : Session}

/-- The freshness of what the service shows. -/
abbrev shownIn (w : Surroundings) :
    Freshness w.order w.config.cachedListLimit w.config.cachedListOffset :=
  .shown w.order w.config.cachedListLimit w.config.cachedListOffset

theorem rpc_coherent (h : s.Coherent (shownIn w) fun _ => False) (call : Rpc) (oracle : Oracle)
    (hcond : NoStaleCopy uuid w call s) :
    ((service uuid state w).step s (.rpc call oracle)).1.Coherent (shownIn w) fun _ => False := by
  cases hparse : uuid.parse call.backupId with
  | error e =>
      have hstep : ((service uuid state w).step s (.rpc call oracle)).1 = s := by
        simp only [service, handle_malformed uuid hparse, run_pure]
      rw [hstep]
      exact h
  | ok id =>
      have hstep : ((service uuid state w).step s (.rpc call oracle)).1 =
          (Session.exec w oracle (.sql (call.statement id)) s).2 := by
        simp only [service, handle_eq_answer uuid hparse]
        rfl
      rw [hstep]
      intro key e hget _
      have hold := h key e (Redis.of_evict hget) not_false
      rw [exec_sql_db]
      cases key with
      | backup id' =>
          obtain ⟨b, r, hv, hr, hshows⟩ := hold
          have hrow := @find_statement w.order oracle s.store.db call id id'
          rcases hrow with heq | ⟨hid, hacc, heq⟩
          · exact ⟨b, r, hv, heq.trans hr, hshows⟩
          · subst hid
            have hcopy : (s.settle w).redis.HoldsCopy id' r.tenantId b :=
              .inl ⟨e.expiresAt, by rw [← hv]; exact hget⟩
            have hsaid := hcond id' r hparse hr hacc b hcopy
            rw [hr] at heq
            exact ⟨b, _, hv, heq, hshows.assign hsaid _⟩
      | tenantBackups tenantId =>
          obtain ⟨items, total, hv, hitems⟩ := hold
          refine ⟨items, total, hv, fun b hb => ?_⟩
          obtain ⟨r, hr, rfl, hshows⟩ := hitems b hb
          have hrow := @find_statement w.order oracle s.store.db call id b.id
          rcases hrow with heq | ⟨hid, hacc, heq⟩
          · exact ⟨r, heq.trans hr, rfl, hshows⟩
          · have hcopy : (s.settle w).redis.HoldsCopy id r.tenantId b :=
              .inr ⟨items, total, e.expiresAt, by rw [← hv]; exact hget, hb, hid⟩
            have hsaid := hcond id r hparse (hid ▸ hr) hacc b hcopy
            rw [hr] at heq
            exact ⟨_, heq, rfl, hshows.assign hsaid _⟩

/-- For the backup `id`, a get or a list shows the status and the size of
its row. -/
def ShowsRow (id : Uuid) (t : Table) (claims : Claims) : Request → Response → Prop
  | .get id', r => id' = id →
      match (t.find id).filter fun row => row.tenantId = claims.tenantId with
      | some row => ∃ b, r = ⟨200, .backup b⟩ ∧ b.id = id ∧ b.status = row.status ∧
          b.sizeBytes = row.sizeBytes
      | none => r = notFoundResponse id
  | .list _, r => ∀ l, r.body = .list l → ∀ item ∈ l.items, item.id = id →
      ∃ row, t.find id = some row ∧ item.status = row.status ∧ item.sizeBytes = row.sizeBytes
  | _, _ => True

theorem Served.showsRow {claims : Claims} {oracle : Oracle} {req : Request} {t : Table}
    {r : Response} (h : Served w state claims oracle (shownIn w) req t r s) (id : Uuid) :
    ShowsRow id t claims req r := by
  obtain ⟨-, -, h⟩ := h
  cases req with
  | get id' =>
      rintro rfl
      rcases h with h | ⟨b, htenant, ⟨b', row, hb', hrow, hshows⟩, rfl⟩
      · rw [h, directAnswer, exec_selectBackup_fst]
        cases hfind : (t.find id').filter fun row => row.tenantId = claims.tenantId with
        | none => rfl
        | some row =>
            obtain ⟨hfind, -⟩ := Option.filter_eq_some_iff.mp hfind
            exact ⟨_, rfl, (Table.find_eq_some.mp hfind).2, rfl, rfl⟩
      · obtain rfl := CacheValue.backup.inj hb'
        have hown : decide (row.tenantId = claims.tenantId) = true := by
          rw [← hshows.tenantId, htenant, decide_eq_true rfl]
        rw [hrow, Option.filter_some, hown, if_pos rfl]
        exact ⟨_, rfl, hshows.id.trans (Table.find_eq_some.mp hrow).2, hshows.status,
          hshows.sizeBytes⟩
  | list params =>
      rintro l hl item hitem rfl
      have hfrom : ∀ items total, r = listResponse params items total →
          ∃ b ∈ items, BackupResponse.from b = item := by
        rintro items total rfl
        obtain rfl := Body.list.inj hl
        exact List.mem_map.mp hitem
      rcases h with h | ⟨items, total, -, ⟨items', total', hpage, hitems⟩, h⟩
      · have hbody : ∀ e, r = databaseResponse e → False := by
          rintro e rfl
          cases hl
        rw [directAnswer] at h
        rcases hitems : ((Sql.selectBackups claims.tenantId params.status (clamp params.limit 1 100)
          (max params.offset 0)).exec w.order oracle t).1 with e | items
        · rw [hitems] at h
          exact (hbody e h).elim
        rcases htotal : ((Sql.countBackups claims.tenantId params.status).exec w.order oracle t).1
          with e | total
        · rw [hitems, htotal] at h
          exact (hbody e h).elim
        rw [hitems, htotal] at h
        obtain ⟨b, hb, rfl⟩ := hfrom items total h
        rw [exec_selectBackups_ok _ _ _ _ _ hitems] at hb
        exact ⟨b, Table.find_eq_some.mpr ⟨(mem_of_mem_page hb).1, rfl⟩, rfl, rfl⟩
      · obtain ⟨rfl, rfl⟩ := CacheValue.page.inj hpage
        obtain ⟨b, hb, rfl⟩ := hfrom _ _ h
        obtain ⟨row, hrow, -, hshows⟩ := hitems b hb
        exact ⟨row, hrow, hshows.status, hshows.sizeBytes⟩
  | create req => trivial
  | update id req => trivial
  | delete id => trivial
  | analyze id => trivial
  | enqueue id => trivial

end Turns

/-! ### Runs -/

/-- No session yet: nothing is cached and no turn has been taken. -/
def Session.initial (db : Table) : Session := ⟨⟨db, .empty, []⟩, 0⟩

/-- The service with Redis. -/
abbrev cachedService (uuid : UuidParser) (w : Surroundings) (amqpChannel : Bool) :
    Machine Session Turn Reply :=
  service uuid ⟨.connected, amqpChannel⟩ w

/-- No callback of the turns finds a stale copy. -/
def NeverStale (uuid : UuidParser) (w : Surroundings) (amqpChannel : Bool) (db : Table)
    (turns : List Turn) : Prop :=
  ∀ pre call oracle, pre ++ [.rpc call oracle] <+: turns →
    NoStaleCopy uuid w call ((cachedService uuid w amqpChannel).run (.initial db) pre)

section Runs

variable (uuid : UuidParser) (w : Surroundings) (amqpChannel : Bool) (db : Table)

theorem run_coherent (turns : List Turn) (hcond : NeverStale uuid w amqpChannel db turns) :
    ((cachedService uuid w amqpChannel).run (.initial db) turns).Coherent (shownIn w)
      fun _ => False := by
  induction turns using List.reverseRecOn with
  | nil => exact fun key e hget => nomatch (show (none : Option Entry) = some e from hget)
  | append_singleton turns turn ih =>
      have hprev := ih fun pre call oracle hpre => hcond pre call oracle
        (hpre.trans (List.prefix_append _ _))
      rw [Machine.run_append, Machine.run_cons, Machine.run_nil]
      cases turn with
      | http v =>
          have hserved : Ensures (Session.exec w v.oracle)
              (handle ⟨.connected, amqpChannel⟩ v.claims v.request) _ _ :=
            handle_spec rfl hprev v.request
          exact hserved.2.1
      | rpc call oracle => exact rpc_coherent hprev call oracle (hcond turns call oracle
          List.prefix_rfl)

/-- **Callbacks are visible to readers** in every run in which no callback
finds a stale copy: whatever was called before, a get or a list shows the
status and the size that the row has when the request starts. -/
theorem callbacks_visible (turns pre : List Turn) (v : Visit) (r : Response) (id : Uuid)
    (hcond : NeverStale uuid w amqpChannel db turns) (hpre : pre ++ [.http v] <+: turns)
    (hr : ((cachedService uuid w amqpChannel).step
      ((cachedService uuid w amqpChannel).run (.initial db) pre) (.http v)).2 = [.http r]) :
    ShowsRow id ((cachedService uuid w amqpChannel).run (.initial db) pre).store.db v.claims
      v.request r := by
  have hcoh := run_coherent uuid w amqpChannel db pre fun pre' call oracle hpre' =>
    hcond pre' call oracle ((hpre'.trans (List.prefix_append _ _)).trans hpre)
  have hserved : Ensures (Session.exec w v.oracle)
      (handle ⟨.connected, amqpChannel⟩ v.claims v.request) _ _ :=
    handle_spec rfl hcoh v.request
  obtain ⟨rfl⟩ : _ = r := Reply.http.inj (List.singleton_inj.mp hr)
  exact hserved.showsRow id

end Runs

/-! ### A stale copy -/

/-- Rows in insertion order, the default configuration, and a Redis that
never drops an entry. -/
def Surroundings.still : Surroundings := ⟨.stable, .default, fun _ => 0, fun _ _ => false⟩

/-- A turn of a user of tenant `1`. -/
def userTurn (request : Request) : Turn := .http ⟨⟨"user", ⟨1⟩, [], 0, 0⟩, request, ⟨⟨7⟩, 0⟩⟩

/-- The report of a worker that backup `7` is complete. -/
def completedReport : Rpc :=
  .reportResult ⟨Uuid.toString ⟨7⟩, "completed", 1048576, ⟨[]⟩, false, ""⟩

/-- A backup is created, read, and completed by a worker. -/
def staleRun : List Turn :=
  [userTurn (.create ⟨"/data", false⟩), userTurn (.get ⟨7⟩), .rpc completedReport ⟨⟨0⟩, 1⟩]

/-- The same without the get between the creation and the callback. -/
def visibleRun : List Turn :=
  [userTurn (.create ⟨"/data", false⟩), .rpc completedReport ⟨⟨0⟩, 1⟩, userTurn (.get ⟨7⟩)]

theorem neverStale_visibleRun : NeverStale .hyphenated .still true .empty visibleRun := by
  rintro pre call oracle ⟨rest, hpre⟩
  match pre, hpre with
  | [], hpre => cases hpre
  | [turn], hpre =>
      obtain rfl : turn = userTurn (.create ⟨"/data", false⟩) := (List.cons.inj hpre).1
      intro id r _ _ _ b hcopy
      have hnone : ∀ key, (((cachedService .hyphenated .still true).run (.initial .empty)
          [userTurn (.create ⟨"/data", false⟩)]).settle .still).redis key = none := by
        intro key
        by_cases hkey : key = .tenantBackups ⟨1⟩
        · rw [hkey]
          rfl
        · exact Function.update_of_ne hkey ..
      rcases hcopy with ⟨e, he⟩ | ⟨_, _, e, he, -⟩
      · rw [hnone] at he
        cases he
      · rw [hnone] at he
        cases he
  | [_, _], hpre => cases hpre
  | _ :: _ :: _ :: _, hpre => simp [visibleRun] at hpre

theorem callbacks_visible_visibleRun :
    ShowsRow ⟨7⟩ ((cachedService .hyphenated .still true).run (.initial .empty)
        (visibleRun.take 2)).store.db ⟨"user", ⟨1⟩, [], 0, 0⟩ (.get ⟨7⟩)
      ⟨200, .backup (.from ⟨⟨7⟩, ⟨1⟩, "/data", 1048576, "completed", false, 0, 1⟩)⟩ := by
  refine callbacks_visible .hyphenated .still true .empty visibleRun _
    ⟨⟨"user", ⟨1⟩, [], 0, 0⟩, .get ⟨7⟩, ⟨⟨7⟩, 0⟩⟩ _ ⟨7⟩ ?_ ?_ ?_
  · exact neverStale_visibleRun
  · exact List.prefix_rfl
  · rfl

/-- A get after the callback has been acknowledged shows the status and the
size from before it. -/
theorem not_callbacks_visible :
    let M := cachedService .hyphenated .still true
    M.trace (M.run (.initial .empty) (staleRun.take 2)) (staleRun.drop 2) =
        [.rpc (.ok ⟨true, "result recorded"⟩)] ∧
      (M.run (.initial .empty) staleRun).store.db.find ⟨7⟩ =
        some ⟨⟨7⟩, ⟨1⟩, "/data", 1048576, "completed", false, 0, 1⟩ ∧
      (M.step (M.run (.initial .empty) staleRun) (userTurn (.get ⟨7⟩))).2 =
        [.http ⟨200, .backup (.from ⟨⟨7⟩, ⟨1⟩, "/data", 0, "pending", false, 0, 0⟩)⟩] := by
  refine ⟨?_, ?_, ?_⟩
  · rfl
  · decide
  · rfl

end BackupService
