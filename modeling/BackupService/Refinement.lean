import BackupService.Sequential

/-!
The service with a cache refines the service without one.

What the service is for can be said without any cache: every request is
answered from the table, by one statement or two (`directAnswer`). The handlers
with the no-op cache compute exactly that (`handle_noop_spec`). With Redis,
a get or a list may be answered from an entry instead; while the cache is
coherent the entry is fresh, and every handler leaves it coherent
(`handle_spec`). For the exact notion of freshness a fresh entry gives the
very answer the table would have given.
-/

namespace BackupService

open Lib Program

/-! ### What is answered -/

def createResponse : Except SqlError Backup → Response
  | .error e => databaseResponse e
  | .ok b => ⟨201, .backup (.from b)⟩

def rowResponse (id : Uuid) : Except SqlError (Option Backup) → Response
  | .error e => databaseResponse e
  | .ok none => notFoundResponse id
  | .ok (some b) => ⟨200, .backup (.from b)⟩

def pageResponse (params : ListParams) :
    Except SqlError (List Backup) → Except SqlError ℤ → Response
  | .error e, _ => databaseResponse e
  | .ok _, .error e => databaseResponse e
  | .ok items, .ok total => listResponse params items total

def deleteResponse (id : Uuid) : Except SqlError ℕ → Response
  | .error e => databaseResponse e
  | .ok rowsAffected => if rowsAffected = 0 then notFoundResponse id else ⟨204, .empty⟩

def analysisResponse (id : Uuid) : Except SqlError (Option Backup) → Response
  | .error e => databaseResponse e
  | .ok none => notFoundResponse id
  | .ok (some b) => analyzeResponse b

def enqueueResponse (amqpChannel : Bool) (id : Uuid) : Except SqlError (Option Backup) → Response
  | .error e => databaseResponse e
  | .ok none => notFoundResponse id
  | .ok (some _) =>
      if amqpChannel then ⟨202, .enqueued "backup job enqueued" id⟩
      else (AppError.internal "RabbitMQ not configured").intoResponse

/-- The answer to a request, and the table afterwards. -/
def directAnswer (order : RowOrder) (amqpChannel : Bool) (claims : Claims) (oracle : Oracle) :
    Request → Table → Response × Table
  | .create req, t =>
      match validateSourcePath req.sourcePath with
      | .error e => (e.intoResponse, t)
      | .ok () =>
          let r := (Sql.insertBackup claims.tenantId req.sourcePath req.encryptionEnabled).exec
            order oracle t
          (createResponse r.1, r.2)
  | .get id, t => (rowResponse id ((Sql.selectBackup id claims.tenantId).exec order oracle t).1, t)
  | .list params, t =>
      let items := (Sql.selectBackups claims.tenantId params.status
        (clamp params.limit 1 100) (max params.offset 0)).exec order oracle t
      let total := (Sql.countBackups claims.tenantId params.status).exec order oracle t
      (pageResponse params items.1 total.1, t)
  | .update id req, t =>
      let r := (Sql.updateBackup id claims.tenantId (req.status.map BackupStatus.toString)
        req.sizeBytes).exec order oracle t
      (rowResponse id r.1, r.2)
  | .delete id, t =>
      let r := (Sql.deleteBackup id claims.tenantId).exec order oracle t
      (deleteResponse id r.1, r.2)
  | .analyze id, t =>
      (analysisResponse id ((Sql.selectBackup id claims.tenantId).exec order oracle t).1, t)
  | .enqueue id, t =>
      (enqueueResponse amqpChannel id
        ((Sql.selectBackup id claims.tenantId).exec order oracle t).1, t)

/-! ### Without a cache -/

section Direct

variable (w : Surroundings) (amqpChannel : Bool) (claims : Claims) (oracle : Oracle) (s : Session)

theorem listAfterLookup_noop_spec (params : ListParams) (cfg : AppConfig) :
    Ensures (Session.exec w oracle) (listAfterLookup ⟨.noop, amqpChannel⟩ claims params cfg none) s
      fun r s' => (r, s'.store.db) =
        directAnswer w.order amqpChannel claims oracle (.list params) s.store.db := by
  rw [directAnswer]
  refine ensures_query fun r s' hr hs' => ?_
  have hdb : s'.store.db = s.store.db := by rw [← hs', exec_sql_db, exec_selectBackups_snd]
  rw [hr]
  rcases r with e | items
  · exact Prod.ext rfl hdb
  · refine ensures_query fun r s'' hr hs'' => ?_
    have hdb' : s''.store.db = s.store.db := by rw [← hs'', exec_sql_db, exec_countBackups_snd, hdb]
    rw [hdb] at hr
    rw [hr]
    rcases r with e | total
    · exact Prod.ext rfl hdb'
    · dsimp only
      split <;> exact Prod.ext rfl hdb'

/-- Without a cache every answer comes from the table. -/
theorem handle_noop_spec (req : Request) :
    Ensures (Session.exec w oracle) (handle ⟨.noop, amqpChannel⟩ claims req) s fun r s' =>
      (r, s'.store.db) = directAnswer w.order amqpChannel claims oracle req s.store.db := by
  cases req with
  | create req =>
      rw [handle_create, directAnswer]
      cases validateSourcePath req.sourcePath with
      | error e => rfl
      | ok _ =>
          refine ensures_query fun r s' hr hs' => ?_
          dsimp only
          rw [hr, ← exec_sql_db, hs']
          cases r <;> rfl
  | get id =>
      rw [handle_get, directAnswer]
      refine ensures_query fun r s' hr hs' => ?_
      rw [hr, ← exec_selectBackup_snd w.order oracle s.store.db claims.tenantId id, ← exec_sql_db, hs']
      rcases r with e | (_ | b) <;> rfl
  | list params =>
      rw [handle_list]
      refine ensures_readConfig fun s' hs' => ?_
      have hdb : s'.store.db = s.store.db := by rw [← hs']; rfl
      have hspec := listAfterLookup_noop_spec w amqpChannel claims oracle s' params w.config
      rw [hdb] at hspec
      split <;> exact hspec
  | update id req =>
      rw [handle_update, directAnswer]
      refine ensures_query fun r s' hr hs' => ?_
      dsimp only
      rw [hr, ← exec_sql_db, hs']
      rcases r with e | (_ | b) <;> rfl
  | delete id =>
      rw [handle_delete, directAnswer]
      refine ensures_query fun r s' hr hs' => ?_
      dsimp only
      rw [hr, ← exec_sql_db, hs']
      rcases r with e | n
      · rfl
      · dsimp only [deleteResponse]
        split <;> rfl
  | analyze id =>
      rw [handle_analyze, directAnswer]
      refine ensures_query fun r s' hr hs' => ?_
      rw [hr, ← exec_selectBackup_snd w.order oracle s.store.db claims.tenantId id, ← exec_sql_db, hs']
      rcases r with e | (_ | b) <;> rfl
  | enqueue id =>
      rw [handle_enqueue, directAnswer]
      refine ensures_query fun r s' hr hs' => ?_
      rw [hr, ← exec_selectBackup_snd w.order oracle s.store.db claims.tenantId id, ← exec_sql_db, hs']
      rcases r with e | (_ | b)
      · rfl
      · rfl
      · cases amqpChannel <;> rfl

end Direct

/-! ### With a cache -/

/-- The response is the one the table gives, or it shows a fresh entry. -/
def AnswersAs {order : RowOrder} {limit offset : ℤ} (F : Freshness order limit offset)
    (config : AppConfig) (claims : Claims) (t : Table) : Request → Response → Response → Prop
  | .get id, r, r₀ => r = r₀ ∨ ∃ b, b.tenantId = claims.tenantId ∧
      F.fresh t (.backup id) (.backup b) ∧ r = ⟨200, .backup (.from b)⟩
  | .list params, r, r₀ => r = r₀ ∨ ∃ items total, useListCache params config = true ∧
      F.fresh t (.tenantBackups claims.tenantId) (.page items total) ∧
        r = listResponse params items total
  | _, r, r₀ => r = r₀

section Cached

variable {w : Surroundings} {state : AppState} {claims : Claims} {oracle : Oracle} {s : Session}
  {F : Freshness w.order w.config.cachedListLimit w.config.cachedListOffset}

/-- An answer that leaves the table as it is leaves the session coherent. -/
theorem Session.Coherent.query {dirty : Key → Prop} (h : s.Coherent F dirty) {q : Sql}
    (hsame : (q.exec w.order oracle s.store.db).2 = s.store.db) :
    (Session.exec w oracle (.sql q) s).2.Coherent F dirty := by
  intro key e hget hnot
  rw [exec_sql_db, hsame]
  exact h key e (Redis.of_evict hget) hnot

/-- A statement that only reads leaves the table and the coherence to what
follows it. -/
theorem ensures_read (h : s.Coherent F fun _ => False) {q : Sql} {α : Type}
    {f : Except SqlError q.Answer → Action α} {post : α → Session → Prop}
    (hsame : (q.exec w.order oracle s.store.db).2 = s.store.db)
    (hf : ∀ r s', (q.exec w.order oracle s.store.db).1 = r → s'.store.db = s.store.db →
      s'.Coherent F (fun _ => False) → Ensures (Session.exec w oracle) (f r) s' post) :
    Ensures (Session.exec w oracle) (query q >>= f) s post := by
  refine ensures_query fun r s' hr hs' => hf r s' hr ?_ (hs' ▸ h.query hsame)
  rw [← hs', exec_sql_db, hsame]

theorem coherent_of_touched {dirty : Key → Prop} {q : Sql} (h : s.Coherent F fun _ => False)
    (hq : ∀ key, q.Touches s.store.db key → dirty key) :
    (Session.exec w oracle (.sql q) s).2.Coherent F dirty :=
  (coherent_query h q).mono fun key hkey => hkey.elim False.elim (hq key)

/-- What the handlers that change a row do after they have changed it. -/
theorem invalidate_spec (hcache : state.cache.redis = true) {id tenantId : Uuid}
    (h : s.Coherent F fun key => key = .backup id ∨ key = .tenantBackups tenantId)
    (response : Response) :
    Ensures (Session.exec w oracle) (do
      state.cache.invalidateBackup id
      state.cache.invalidateTenantBackups tenantId
      return response) s fun r s' =>
        r = response ∧ s'.store.db = s.store.db ∧ s'.Coherent F fun _ => False := by
  refine (invalidateBackup_spec hcache h id).bind fun _ s₁ h₁ => ?_
  refine (invalidateTenantBackups_spec hcache h₁.2 tenantId).bind fun _ s₂ h₂ => ?_
  refine ⟨rfl, h₂.1.trans h₁.1, h₂.2.mono ?_⟩
  rintro key ⟨⟨rfl | rfl, hne⟩, hne'⟩
  · exact hne rfl
  · exact hne' rfl

/-- What is known after a request: the table is the one it should be, the
session is coherent, and the response is the right one, or fresh. -/
def Served (w : Surroundings) (state : AppState) (claims : Claims) (oracle : Oracle)
    (F : Freshness w.order w.config.cachedListLimit w.config.cachedListOffset) (req : Request)
    (t : Table) (r : Response) (s' : Session) : Prop :=
  s'.store.db = (directAnswer w.order state.amqpChannel claims oracle req t).2 ∧
    s'.Coherent F (fun _ => False) ∧
    AnswersAs F w.config claims t req r
      (directAnswer w.order state.amqpChannel claims oracle req t).1

theorem getAfterLookup_spec (hcache : state.cache.redis = true) (h : s.Coherent F fun _ => False)
    {t : Table} (ht : s.store.db = t) {id : Uuid} {cached : Option Backup}
    (hcached : ∀ b, cached = some b → b.tenantId = claims.tenantId ∧
      F.fresh t (.backup id) (.backup b)) :
    Ensures (Session.exec w oracle) (getAfterLookup state claims id cached) s
      (Served w state claims oracle F (.get id) t) := by
  subst ht
  cases cached with
  | some b => exact ⟨rfl, h, .inr ⟨b, (hcached b rfl).1, (hcached b rfl).2, rfl⟩⟩
  | none =>
      refine ensures_read h (exec_selectBackup_snd ..) fun r s' hr hdb hcoh => ?_
      have hanswer : (directAnswer w.order state.amqpChannel claims oracle (.get id) s.store.db).1 =
          rowResponse id r := congrArg (rowResponse id) hr
      rcases r with e | (_ | b)
      · exact ⟨hdb, hcoh, .inl hanswer.symm⟩
      · exact ⟨hdb, hcoh, .inl hanswer.symm⟩
      · obtain ⟨hfind, -⟩ := exec_selectBackup_ok _ _ _ _ hr
        have hid : b.id = id := (Table.find_eq_some.mp hfind).2
        have hb : s'.store.db.find b.id = some b := by rw [hdb, hid, hfind]
        refine (setBackup_spec hcache hcoh hb).bind fun _ s'' h'' => ?_
        exact ⟨h''.1.trans hdb, h''.2, .inl hanswer.symm⟩

theorem listAfterLookup_spec (hcache : state.cache.redis = true) (h : s.Coherent F fun _ => False)
    {t : Table} (ht : s.store.db = t) {params : ListParams} {cached : Option (List Backup × ℤ)}
    (hcached : ∀ items total, cached = some (items, total) →
      useListCache params w.config = true ∧
        F.fresh t (.tenantBackups claims.tenantId) (.page items total)) :
    Ensures (Session.exec w oracle) (listAfterLookup state claims params w.config cached) s
      (Served w state claims oracle F (.list params) t) := by
  subst ht
  rcases cached with _ | ⟨items, total⟩
  · refine ensures_read h (exec_selectBackups_snd ..) fun r s' hr hdb hcoh => ?_
    rcases r with e | items
    · exact ⟨hdb, hcoh, .inl (congrArg (pageResponse params · _) hr).symm⟩
    · refine ensures_read hcoh (exec_countBackups_snd ..) fun r s'' hr' hdb'' hcoh' => ?_
      have hdb' : s''.store.db = s.store.db := hdb''.trans hdb
      rw [hdb] at hr'
      have hanswer : (directAnswer w.order state.amqpChannel claims oracle (.list params)
          s.store.db).1 = pageResponse params (.ok items) r := congrArg₂ (pageResponse params) hr hr'
      rcases r with e | total
      · exact ⟨hdb', hcoh', .inl hanswer.symm⟩
      · dsimp only
        split
        · rename_i huse
          obtain ⟨hstatus, hoffset, hlimit⟩ := useListCache_iff.mp huse
          have hpage : F.fresh s''.store.db (.tenantBackups claims.tenantId) (.page items total) := by
            rw [exec_selectBackups_ok _ _ _ _ _ hr, exec_countBackups_ok _ _ _ _ _ hr', hstatus,
              hlimit, hoffset, hdb']
            exact F.page _ _
          refine (setTenantBackups_spec hcache hcoh' hpage).bind fun _ s₃ h₃ => ?_
          exact ⟨h₃.1.trans hdb', h₃.2, .inl hanswer.symm⟩
        · exact ⟨hdb', hcoh', .inl hanswer.symm⟩
  · obtain ⟨huse, hfresh⟩ := hcached items total rfl
    exact ⟨rfl, h, .inr ⟨items, total, huse, hfresh, rfl⟩⟩

theorem handle_create_spec (hcache : state.cache.redis = true) (h : s.Coherent F fun _ => False)
    (req : CreateBackupRequest) :
    Ensures (Session.exec w oracle) (handle state claims (.create req)) s
      (Served w state claims oracle F (.create req) s.store.db) := by
  rw [handle_create]
  unfold Served
  rw [directAnswer]
  cases validateSourcePath req.sourcePath with
  | error e => exact ⟨rfl, h, rfl⟩
  | ok _ =>
      refine ensures_query fun r s' hr hs' => ?_
      dsimp only
      rw [hr, ← exec_sql_db, hs']
      cases r with
      | error e =>
          have hsame := exec_snd_of_error w.order oracle hr
          exact ⟨rfl, hs' ▸ h.query hsame, rfl⟩
      | ok b =>
          -- the row is new, so that only the page of its tenant can be stale now
          have hcoh : s'.Coherent F fun key => key = .tenantBackups claims.tenantId :=
            hs' ▸ coherent_of_touched h fun key hkey => hkey
          refine (invalidateTenantBackups_spec hcache hcoh claims.tenantId).bind
            fun _ s'' h'' => ?_
          exact ⟨h''.1, h''.2.mono fun key hkey => hkey.2 hkey.1, rfl⟩

theorem handle_get_spec (hcache : state.cache.redis = true) (h : s.Coherent F fun _ => False)
    (id : Uuid) :
    Ensures (Session.exec w oracle) (handle state claims (.get id)) s
      (Served w state claims oracle F (.get id) s.store.db) := by
  rw [handle_get]
  refine (getBackup_spec hcache h id).bind fun cached s' h' => ?_
  refine getAfterLookup_spec hcache h'.2.1 h'.1 fun b hb => ?_
  obtain ⟨hb, htenant⟩ := Option.filter_eq_some_iff.mp hb
  exact ⟨of_decide_eq_true htenant, h'.2.2 b hb⟩

theorem handle_list_spec (hcache : state.cache.redis = true) (h : s.Coherent F fun _ => False)
    (params : ListParams) :
    Ensures (Session.exec w oracle) (handle state claims (.list params)) s
      (Served w state claims oracle F (.list params) s.store.db) := by
  rw [handle_list]
  refine ensures_readConfig fun s₁ hs₁ => ?_
  have hcoh : s₁.Coherent F fun _ => False := hs₁ ▸ h.settle _
  have hdb : s₁.store.db = s.store.db := by rw [← hs₁]; rfl
  split
  · rename_i huse
    refine (getTenantBackups_spec hcache hcoh claims.tenantId).bind fun cached s' h' => ?_
    refine listAfterLookup_spec hcache h'.2.1 (h'.1.trans hdb) fun items total hpage => ?_
    exact ⟨huse, hdb ▸ h'.2.2 items total hpage⟩
  · exact listAfterLookup_spec hcache hcoh hdb fun items total hpage => nomatch hpage

theorem handle_update_spec (hcache : state.cache.redis = true) (h : s.Coherent F fun _ => False)
    (id : Uuid) (req : UpdateBackupRequest) :
    Ensures (Session.exec w oracle) (handle state claims (.update id req)) s
      (Served w state claims oracle F (.update id req) s.store.db) := by
  rw [handle_update]
  unfold Served
  rw [directAnswer]
  refine ensures_query fun r s' hr hs' => ?_
  dsimp only
  rw [hr, ← exec_sql_db, hs']
  rcases r with e | (_ | b)
  · exact ⟨rfl, hs' ▸ h.query (exec_snd_of_error w.order oracle hr), rfl⟩
  · exact ⟨rfl, hs' ▸ h.query (exec_updateBackup_none w.order oracle hr), rfl⟩
  · -- both entries may be stale now, until both have been deleted
    have hcoh : s'.Coherent F fun key =>
        key = .backup id ∨ key = .tenantBackups claims.tenantId :=
      hs' ▸ coherent_of_touched h fun key hkey => hkey.1.eq_or_eq hkey.2
    refine (invalidate_spec hcache hcoh _).mono fun r s'' h'' => ?_
    exact ⟨h''.2.1, h''.2.2, h''.1⟩

theorem handle_delete_spec (hcache : state.cache.redis = true) (h : s.Coherent F fun _ => False)
    (id : Uuid) :
    Ensures (Session.exec w oracle) (handle state claims (.delete id)) s
      (Served w state claims oracle F (.delete id) s.store.db) := by
  rw [handle_delete]
  unfold Served
  rw [directAnswer]
  refine ensures_query fun r s' hr hs' => ?_
  dsimp only
  rw [hr, ← exec_sql_db, hs']
  rcases r with e | n
  · exact ⟨rfl, hs' ▸ h.query (exec_snd_of_error w.order oracle hr), rfl⟩
  · dsimp only [deleteResponse]
    split
    · rename_i hn
      subst hn
      exact ⟨rfl, hs' ▸ h.query (exec_deleteBackup_zero w.order oracle hr), rfl⟩
    · have hcoh : s'.Coherent F fun key =>
          key = .backup id ∨ key = .tenantBackups claims.tenantId :=
        hs' ▸ coherent_of_touched h fun key hkey => hkey.1.eq_or_eq hkey.2
      refine (invalidate_spec hcache hcoh _).mono fun r s'' h'' => ?_
      exact ⟨h''.2.1, h''.2.2, h''.1⟩

theorem handle_analyze_spec (h : s.Coherent F fun _ => False) (id : Uuid) :
    Ensures (Session.exec w oracle) (handle state claims (.analyze id)) s
      (Served w state claims oracle F (.analyze id) s.store.db) := by
  rw [handle_analyze]
  unfold Served
  rw [directAnswer]
  refine ensures_read h (exec_selectBackup_snd ..) fun r s' hr hdb hcoh => ?_
  rw [hr]
  rcases r with e | (_ | b)
  · exact ⟨hdb, hcoh, rfl⟩
  · exact ⟨hdb, hcoh, rfl⟩
  · refine ensures_spawnEntropy fun s'' hs'' => ?_
    have hdb' : s''.store.db = s'.store.db := by rw [← hs'']; rfl
    have hcoh' : s''.Coherent F fun _ => False := hs'' ▸ hcoh.settle _
    exact ⟨hdb'.trans hdb, hcoh', rfl⟩

theorem handle_enqueue_spec (h : s.Coherent F fun _ => False) (id : Uuid) :
    Ensures (Session.exec w oracle) (handle state claims (.enqueue id)) s
      (Served w state claims oracle F (.enqueue id) s.store.db) := by
  rw [handle_enqueue]
  unfold Served
  rw [directAnswer]
  refine ensures_read h (exec_selectBackup_snd ..) fun r s' hr hdb hcoh => ?_
  rw [hr]
  rcases r with e | (_ | b)
  · exact ⟨hdb, hcoh, rfl⟩
  · exact ⟨hdb, hcoh, rfl⟩
  · dsimp only [enqueueResponse]
    split
    · refine ensures_publish fun s'' hs'' => ?_
      have hdb' : s''.store.db = s'.store.db := by rw [← hs'']; rfl
      have hcoh' : s''.Coherent F fun _ => False := hs'' ▸ coherent_publish hcoh _
      exact ⟨hdb'.trans hdb, hcoh', rfl⟩
    · exact ⟨hdb, hcoh, rfl⟩

/-- **Every handler keeps the cache coherent**, changes the table as it
should, and answers from the table or from a fresh entry. -/
theorem handle_spec (hcache : state.cache.redis = true) (h : s.Coherent F fun _ => False)
    (req : Request) :
    Ensures (Session.exec w oracle) (handle state claims req) s
      (Served w state claims oracle F req s.store.db) := by
  cases req with
  | create req => exact handle_create_spec hcache h req
  | get id => exact handle_get_spec hcache h id
  | list params => exact handle_list_spec hcache h params
  | update id req => exact handle_update_spec hcache h id req
  | delete id => exact handle_delete_spec hcache h id
  | analyze id => exact handle_analyze_spec h id
  | enqueue id => exact handle_enqueue_spec h id

end Cached

/-! ### The refinement -/

/-- A value is fresh when it is what the database would answer now. -/
def Freshness.exact (order : RowOrder) (limit offset : ℤ) : Freshness order limit offset where
  fresh
    | t, .backup id, v => ∃ b, v = .backup b ∧ t.find id = some b
    | t, .tenantBackups tenantId, v =>
        v = .page (t.page order tenantId none limit offset) (t.count tenantId none)
  row h := ⟨_, rfl, h⟩
  page _ _ := rfl
  frame_row := by
    rintro t t' id v hfind ⟨b, rfl, hb⟩
    exact ⟨b, rfl, hfind b hb⟩
  frame_page := by
    rintro t t' tenantId v hrestrict rfl
    rw [← page_restrict, ← count_restrict, ← hrestrict, page_restrict, count_restrict]

/-- An answer from an exact entry is the answer of the table. -/
theorem AnswersAs.eq {w : Surroundings} {amqpChannel : Bool} {claims : Claims} {oracle : Oracle}
    {t : Table} {req : Request} {r : Response}
    (h : AnswersAs (.exact w.order w.config.cachedListLimit w.config.cachedListOffset) w.config
      claims t req r (directAnswer w.order amqpChannel claims oracle req t).1) :
    r = (directAnswer w.order amqpChannel claims oracle req t).1 := by
  cases req with
  | get id =>
      rcases h with h | ⟨b, htenant, ⟨b', hb', hfind⟩, rfl⟩
      · exact h
      · obtain rfl := CacheValue.backup.inj hb'
        have hrow : (t.find id).filter (fun r => r.tenantId = claims.tenantId) = some b := by
          rw [hfind, Option.filter_some, decide_eq_true htenant, if_pos rfl]
        rw [directAnswer, exec_selectBackup_fst, hrow]
        rfl
  | list params =>
      rcases h with h | ⟨items, total, huse, hfresh, rfl⟩
      · exact h
      · obtain ⟨hstatus, hoffset, hlimit⟩ := useListCache_iff.mp huse
        obtain ⟨rfl, rfl⟩ := CacheValue.page.inj hfresh
        rw [directAnswer, hstatus, hoffset, hlimit]
        rfl
  | create req => exact h
  | update id req => exact h
  | delete id => exact h
  | analyze id => exact h
  | enqueue id => exact h

/-- **The cached service refines the uncached one**: for any requests, one
after the other, the responses are the same, whatever Redis drops and
whenever it does. -/
theorem cached_refines_uncached (uuid : UuidParser) (w : Surroundings) (amqpChannel : Bool)
    (db : Table) (visits : List Visit) :
    (service uuid ⟨.connected, amqpChannel⟩ w).trace ⟨⟨db, .empty, []⟩, 0⟩ (visits.map .http) =
      (service uuid ⟨.noop, amqpChannel⟩ w).trace ⟨⟨db, .empty, []⟩, 0⟩ (visits.map .http) := by
  let F := Freshness.exact w.order w.config.cachedListLimit w.config.cachedListOffset
  have hstep : ∀ s s' : Session, ∀ turn : Turn,
      (s.store.db = s'.store.db ∧ s.Coherent F fun _ => False) → (∃ v, turn = .http v) →
        ((((service uuid ⟨.connected, amqpChannel⟩ w).step s turn).1.store.db =
            ((service uuid ⟨.noop, amqpChannel⟩ w).step s' turn).1.store.db ∧
          ((service uuid ⟨.connected, amqpChannel⟩ w).step s turn).1.Coherent F fun _ => False) ∧
        ((service uuid ⟨.connected, amqpChannel⟩ w).step s turn).2 =
          ((service uuid ⟨.noop, amqpChannel⟩ w).step s' turn).2) := by
    rintro s s' _ ⟨hdb, hcoh⟩ ⟨v, rfl⟩
    have hserved : Ensures (Session.exec w v.oracle)
        (handle ⟨.connected, amqpChannel⟩ v.claims v.request) s
        (Served w ⟨.connected, amqpChannel⟩ v.claims v.oracle F v.request s.store.db) :=
      handle_spec rfl hcoh v.request
    obtain ⟨hdb₁, hcoh₁, hanswer⟩ := hserved
    obtain ⟨hresponse, hdb₂⟩ :=
      Prod.mk.inj (handle_noop_spec w amqpChannel v.claims v.oracle s' v.request)
    rw [← hdb] at hresponse hdb₂
    exact ⟨⟨hdb₁.trans hdb₂.symm, hcoh₁⟩,
      congrArg (fun r => [Reply.http r]) (hanswer.eq.trans hresponse.symm)⟩
  have hinit : Session.Coherent F (fun _ => False) ⟨⟨db, .empty, []⟩, 0⟩ := fun key e hget =>
    nomatch (show (none : Option Entry) = some e from hget)
  refine Machine.trace_eq_of_simulation hstep ⟨rfl, hinit⟩ fun turn hturn => ?_
  obtain ⟨v, -, rfl⟩ := List.mem_map.mp hturn
  exact ⟨v, rfl⟩

end BackupService
