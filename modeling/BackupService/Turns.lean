import BackupService.Readers

/-!
Requests that are executed one at a time.

No request starts before the one in flight has come to its answer, or has
been cut off. Redis may fail, a handler may be dropped at any of its
operations, entries may expire and the configuration may change. As long as
no deletion is skipped that a committed change calls for, every live entry
is a picture of the table, up to the keys that the request in flight has
yet to delete; a reader is then answered as the table is, except that a
cached page shows the window for which a page of the tenant was looked for
last (`Windows`).
-/

namespace BackupService

open Lib

/-! ### Pictures of the table -/

/-- The limit and the offset that a list request asks for. -/
def ListParams.range (params : ListParams) : ℤ × ℤ := (clamp params.limit 1 100, max params.offset 0)

/-- For every tenant, the limit and the offset of the cached page. -/
abbrev Windows := Uuid → ℤ × ℤ

/-- The value is what the table says about the key. -/
def Pictures (order : RowOrder) (windows : Windows) (t : Table) : Key → CacheValue → Prop
  | .backup id, v => ∃ b, v = .backup b ∧ t.find id = some b
  | .tenantBackups tenantId, v => v =
      .page (t.page order tenantId none (windows tenantId).1 (windows tenantId).2)
        (t.count tenantId none)

theorem about_pictures (order : RowOrder) (windows : Windows) (key : Key) (v : CacheValue) :
    About order key fun t => Pictures order windows t key v := by
  cases key with
  | backup id => exact about_fresh (.exact order 0 0) (.backup id) v
  | tenantBackups tenantId =>
      exact about_fresh (.exact order (windows tenantId).1 (windows tenantId).2)
        (.tenantBackups tenantId) v

/-- The tenant whose page the operation looks for in the cache, and the
request it is looked for. -/
def Op.looksFor : Op → Request → Option (Uuid × ListParams)
  | .redis (.get (.tenantBackups tenantId)), .list params => some (tenantId, params)
  | _, _ => none

def State.looksFor (s : State) : Event → Option (Uuid × ListParams)
  | .step id _ =>
      match s.inflight id with
      | none => none
      | some th =>
          match th.prog with
          | .ret _ => none
          | .op o _ => o.looksFor th.request
  | _ => none

def Windows.note (windows : Windows) : Option (Uuid × ListParams) → Windows
  | some (tenantId, params) => Function.update windows tenantId params.range
  | none => windows

/-- If a page is found, it holds the very rows that are asked for, although
it may have been cached for another window. -/
def Fits (order : RowOrder) (windows : Windows) (st : Store) (look : Option (Uuid × ListParams)) :
    Prop :=
  ∀ tenantId params, look = some (tenantId, params) → st.redis (.tenantBackups tenantId) ≠ none →
    st.db.page order tenantId none (windows tenantId).1 (windows tenantId).2 =
      st.db.page order tenantId none params.range.1 params.range.2

/-! ### One at a time -/

/-- Requests start one after the other, the database does not fail, and
there are no callbacks. -/
def OneAtATime (order : RowOrder) (s : State) : Event → Prop
  | .start _ _ _ _ _ => ∀ id, s.inflight id = none
  | .step _ env => env.sql = .none ∧ env.order = order
  | .rpc _ _ _ => False
  | _ => True

/-- No handler is cut off that is still bound to delete a live entry, and no
deletion of a live entry fails before it is executed. -/
def NoSkippedDeletion (s : State) : Event → Prop
  | .drop id => ∀ th key, s.inflight id = some th → th.prog.Must (· = .redis (.del key)) →
      s.store.redis key = none
  | .step id env => env.redis = .before → ∀ th key k, s.inflight id = some th →
      th.prog = .op (.redis (.del key)) k → s.store.redis key = none
  | _ => True

/-! ### What a request holds -/

/-- What a handler has read is what the table says. -/
def Copy.Current (order : RowOrder) (t : Table) : Copy → Prop
  | .nothing => True
  | .hit _ _ => True
  | .row b => t.find b.id = some b
  | .items tenantId status limit offset rows => t.page order tenantId status limit offset = rows
  | .page tenantId status limit offset rows total =>
      t.page order tenantId status limit offset = rows ∧ t.count tenantId status = total

/-- What a reader has found is what the table says. -/
def Found.Matches (order : RowOrder) (oracle : Oracle) (claims : Claims) (request : Request)
    (t : Table) : Found → Prop
  | .nothing => True
  | .hit v =>
      (∀ id b, request = .get id → v = .backup b → t.find id = some b) ∧
      ∀ params rows total, request = .list params → v = .page rows total → params.status = none ∧
        t.page order claims.tenantId none params.range.1 params.range.2 = rows ∧
          t.count claims.tenantId none = total
  | .row answer => ∀ id, request = .get id →
      ((Sql.selectBackup id claims.tenantId).exec order oracle t).1 = answer
  | .items answer => ∀ params, request = .list params →
      ((Sql.selectBackups claims.tenantId params.status (clamp params.limit 1 100)
        (max params.offset 0)).exec order oracle t).1 = answer
  | .page rows total => ∀ params, request = .list params →
      ((Sql.selectBackups claims.tenantId params.status (clamp params.limit 1 100)
        (max params.offset 0)).exec order oracle t).1 = .ok rows ∧
      ((Sql.countBackups claims.tenantId params.status).exec order oracle t).1 = total

/-- A reader that has looked for a page has looked for the current window. -/
structure Reading.Matches (order : RowOrder) (windows : Windows) (oracle : Oracle) (claims : Claims)
    (request : Request) (t : Table) (d : Reading) : Prop where
  looked : d.looked = true → ∀ params, request = .list params →
    windows claims.tenantId = params.range
  found : d.found.Matches order oracle claims request t

/-- A reader is answered as the table is. -/
theorem Reading.Matches.answer {order : RowOrder} {windows : Windows} {oracle : Oracle}
    {claims : Claims} {request : Request} {t : Table} {d : Reading} {r : Response}
    (h : d.Matches order windows oracle claims request t) (hreads : request.Reads)
    (hfinal : d.Final claims request r) (amqpChannel : Bool) :
    r = (directAnswer order amqpChannel claims oracle request t).1 := by
  have hfound := h.found
  cases request with
  | get id =>
      rcases hfinal with ⟨b, hhit, htenant, rfl⟩ | ⟨answer, hrow, rfl⟩
      · rw [hhit] at hfound
        have hrow : (t.find id).filter (fun r => r.tenantId = claims.tenantId) = some b := by
          rw [hfound.1 id b rfl rfl, Option.filter_some, decide_eq_true htenant, if_pos rfl]
        rw [directAnswer, exec_selectBackup_fst, hrow]
        rfl
      · rw [hrow] at hfound
        rw [directAnswer, hfound id rfl]
  | list params =>
      rcases hfinal with ⟨items, total, hhit, rfl⟩ | ⟨e, hitems, rfl⟩ | ⟨items, total, hpage, rfl⟩
      · rw [hhit] at hfound
        obtain ⟨hstatus, rfl, rfl⟩ := hfound.2 params items total rfl rfl
        rw [directAnswer, hstatus]
        rfl
      · rw [hitems] at hfound
        rw [directAnswer, hfound params rfl]
        rfl
      · rw [hpage] at hfound
        obtain ⟨hrows, htotal⟩ := hfound params rfl
        rw [directAnswer, hrows, htotal]
        rfl
  | create | update | delete | analyze | enqueue => exact hreads.elim

/-! ### Single operations -/

section Exec

variable {order : RowOrder} {env : Env} {oracle : Oracle} {config : AppConfig} {clock : ℕ} {st : Store}
  {claims : Claims} {request : Request} {R : AppConfig → Prop} {g : Phase} {d : Reading}

theorem exec_sql (henv : env.sql = .none) (q : Sql) :
    (Op.sql q).exec env oracle config clock st = ((q.exec env.order oracle st.db).1,
      { st with db := (q.exec env.order oracle st.db).2 }) := by
  simp only [Op.exec, henv]
  rfl

theorem exec_redis_db (c : RedisCommand) :
    ((Op.redis c).exec env oracle config clock st).2.db = st.db := by
  simp only [Op.exec]
  split <;> rfl

theorem exec_get_redis (key : Key) :
    ((Op.redis (.get key)).exec env oracle config clock st).2.redis = st.redis := by
  simp only [Op.exec]
  split <;> rfl

/-- An entry that is there after a deletion is that of another key, if the
deletion cannot get lost. -/
theorem exec_del_some {key key' : Key} {e : Entry} (hskip : env.redis = .before → st.redis key' = none)
    (he : ((Op.redis (.del key')).exec env oracle config clock st).2.redis key = some e) :
    key ≠ key' ∧ st.redis key = some e := by
  cases hfault : env.redis with
  | before =>
      simp only [Op.exec, hfault] at he
      refine ⟨?_, he⟩
      rintro rfl
      rw [hskip hfault] at he
      cases he
  | none | after =>
      simp only [Op.exec, hfault, RedisCommand.effect] at he
      by_cases heq : key = key'
      · rw [heq, Function.update_self] at he
        cases he
      · rw [Function.update_of_ne heq] at he
        exact ⟨heq, he⟩

theorem Copy.Unread.current (h : g.copy.Unread) (t : Table) : g.copy.Current order t := by
  cases hc : g.copy with
  | nothing => trivial
  | hit key value => trivial
  | row | items | page =>
      rw [hc] at h
      exact h.elim

/-- What a handler has read stays what the table says: the handler itself
reads anew when it has changed it. -/
theorem current_sql {t : Table} (h : g.copy.Current order t) {q : Sql} (hmay : g.MayQuery q)
    (hq : q.OnBehalfOf claims.tenantId) :
    (g.afterSql q (q.exec order oracle t).1).copy.Current order (q.exec order oracle t).2 := by
  obtain ⟨-, hopen⟩ := hmay
  have hrow : ∀ b, b ∈ (q.exec order oracle t).2.rows →
      (Copy.row b).Current order (q.exec order oracle t).2 := fun b hb =>
    Table.find_eq_some.mpr ⟨hb, rfl⟩
  cases q with
  | insertBackup tenantId sourcePath encryptionEnabled =>
      rcases hr : ((Sql.insertBackup tenantId sourcePath encryptionEnabled).exec order oracle t).1 with
        e | b
      · exact Copy.Unread.current hopen _
      · exact hrow b (exec_insertBackup_ok order oracle hr)
  | selectBackup id tenantId =>
      rcases hr : ((Sql.selectBackup id tenantId).exec order oracle t).1 with e | (_ | b)
      · exact Copy.Unread.current hopen _
      · exact Copy.Unread.current hopen _
      · exact hrow b (Table.find_eq_some.mp (exec_selectBackup_ok _ _ _ _ hr).1).1
  | selectBackups tenantId status limit offset =>
      rw [exec_selectBackups_snd]
      rcases hr : ((Sql.selectBackups tenantId status limit offset).exec order oracle t).1 with e | rows
      · exact h
      · exact (exec_selectBackups_ok _ _ _ _ _ hr).symm
  | countBackups tenantId status =>
      rw [exec_countBackups_snd]
      obtain ⟨limit, offset, rows, hcopy⟩ := hopen
      rcases hr : ((Sql.countBackups tenantId status).exec order oracle t).1 with e | total
      · exact h
      · simp only [Phase.afterSql, hcopy, Copy.count]
        rw [hcopy] at h
        exact ⟨h, (exec_countBackups_ok _ _ _ _ _ hr).symm⟩
  | updateBackup id tenantId status sizeBytes =>
      rcases hr : ((Sql.updateBackup id tenantId status sizeBytes).exec order oracle t).1 with
        e | (_ | b)
      · exact Copy.Unread.current hopen _
      · exact Copy.Unread.current hopen _
      · exact hrow b (exec_updateBackup_ok order oracle hr)
  | deleteBackup id tenantId =>
      rcases hr : ((Sql.deleteBackup id tenantId).exec order oracle t).1 with e | n
      · exact Copy.Unread.current hopen _
      · simp only [Phase.afterSql]
        split
        · exact Copy.Unread.current hopen _
        · trivial
  | setStatus | setCompleted | setFailed => exact hq.elim

theorem current_after (henv : env.sql = .none) (h : g.copy.Current env.order st.db) {o : Op}
    (hallow : (tracked claims request R).allow g o) :
    (g.after o (o.exec env oracle config clock st).1).copy.Current env.order
      (o.exec env oracle config clock st).2.db := by
  cases o with
  | sql q =>
      rw [exec_sql henv]
      exact current_sql h hallow.1 hallow.2
  | redis c =>
      rw [exec_redis_db]
      rcases hr : ((Op.redis c).exec env oracle config clock st).1 with e | answer
      · cases c <;> exact h
      · cases c with
        | get key =>
            rcases answer with _ | v
            · exact h
            · trivial
        | setEx key v ttl => exact h
        | del key => exact h
  | config | entropy => exact h
  | publish job =>
      simp only [Op.exec]
      split <;> exact h

/-- A reader owes nothing. -/
theorem owed_of_reading {o : Op} (hallow : (reading claims request R).allow d o) (howed : g.owed = [])
    (r : o.Answer) : (g.after o r).owed = [] := by
  cases o with
  | sql q =>
      cases q with
      | selectBackup id tenantId => rcases r with e | (_ | b) <;> exact howed
      | selectBackups tenantId status limit offset => rcases r with e | rows <;> exact howed
      | countBackups tenantId status => rcases r with e | total <;> exact howed
      | insertBackup | updateBackup | deleteBackup | setStatus | setCompleted | setFailed =>
          exact hallow.elim
  | redis c =>
      cases c with
      | get key => rcases r with e | (_ | v) <;> exact howed
      | setEx key v ttl => exact howed
      | del key => exact hallow.elim
  | config | entropy => exact howed
  | publish job => exact howed

end Exec

/-! ### The request in flight -/

/-- The request in flight, in phase `g`: what it holds is what the table
says, and so is every live entry that it is not about to delete. -/
structure Thread.InTurn (order : RowOrder) (R : AppConfig → Prop) (windows : Windows) (st : Store)
    (g : Phase) (th : Thread) : Prop where
  tracked : th.Tracked (fun _ => True) true g
  current : g.copy.Current order st.db
  reads : th.request.Reads → g.owed = [] ∧ ∃ d,
    Program.Obeys (reading th.claims th.request R) (fun d => d.Final th.claims th.request) d th.prog ∧
      d.Matches order windows th.oracle th.claims th.request st.db
  entries : ∀ key e, st.redis key = some e →
    key ∈ g.owed ∨ Pictures order windows st.db key e.value

section InTurn

variable {order : RowOrder} {env : Env} {config : AppConfig} {clock : ℕ} {st : Store}
  {R : AppConfig → Prop} {windows : Windows} {g : Phase} {th : Thread} {o : Op}
  {k : o.Answer → Action Response}

theorem looksFor_eq_some {request : Request} {tenantId : Uuid} {params : ListParams}
    (h : o.looksFor request = some (tenantId, params)) :
    o = .redis (.get (.tenantBackups tenantId)) ∧ request = .list params := by
  unfold Op.looksFor at h
  split at h
  · obtain ⟨rfl, rfl⟩ := Prod.mk.inj (Option.some.inj h)
    exact ⟨rfl, rfl⟩
  · cases h

theorem looksFor_eq_none {request : Request}
    (h : ∀ tenantId, o ≠ .redis (.get (.tenantBackups tenantId))) : o.looksFor request = none := by
  cases hl : o.looksFor request with
  | none => rfl
  | some look => exact (h _ (looksFor_eq_some hl).1).elim

/-- Looking for a page that fits leaves every picture a picture. -/
theorem Pictures.note {look : Option (Uuid × ListParams)} (hfit : Fits order windows st look) {key : Key}
    {v : CacheValue} (hlive : st.redis key ≠ none) (h : Pictures order windows st.db key v) :
    Pictures order (windows.note look) st.db key v := by
  cases key with
  | backup id => exact h
  | tenantBackups tenantId =>
      rcases look with _ | ⟨tenantId', params⟩
      · exact h
      · by_cases heq : tenantId = tenantId'
        · subst heq
          simp only [Pictures, Windows.note, Function.update_self]
          rw [← hfit tenantId params rfl hlive]
          exact h
        · simpa only [Pictures, Windows.note, Function.update_of_ne heq] using h

/-- The handler is bound to delete what it owes. -/
theorem Thread.Tracked.must (h : th.Tracked (fun _ => True) true g) {key : Key} (hkey : key ∈ g.owed) :
    th.prog.Must (· = .redis (.del key)) := by
  have hsql : ∀ {g : Phase} {q : Sql} {p : Prop}, key ∈ g.owed →
      (tracked th.claims th.request fun _ => True).allow g (.sql q) → p := by
    intro g q p howed hallow
    rw [hallow.1.1] at howed
    cases howed
  have hret : ∀ (g : Phase) (r : Response), key ∈ g.owed → ¬ g.Final th.claims th.request true r := by
    intro g r howed hfinal
    rw [hfinal.1 rfl] at howed
    cases howed
  have hrely : ∀ (g : Phase) (o : Op) (r : o.Answer), key ∈ g.owed →
      (tracked th.claims th.request fun _ => True).allow g o → ¬ o = .redis (.del key) →
        (tracked th.claims th.request fun _ => True).rely g o r := by
    intro g o r howed hallow _
    cases o with
    | sql q => exact hsql howed hallow
    | redis c => trivial
    | config | entropy => trivial
    | publish job => trivial
  refine Program.Obeys.must hret hrely (fun g o r howed hallow hne => ?_) h hkey
  cases o with
  | sql q => exact hsql howed hallow
  | redis c =>
      rcases owed_afterRedis g c r with hsame | ⟨key', rfl, herase⟩
      · exact hsame.symm ▸ howed
      · have hkey : key ≠ key' := by
          rintro rfl
          exact hne rfl
        exact herase.symm ▸ (List.mem_erase_of_ne hkey).mpr howed
  | config | entropy => exact howed
  | publish job => exact howed

/-- What a reader finds with a statement is what the table says. -/
theorem Reading.Matches.afterSql {d : Reading} {q : Sql} (henv : env.sql = .none)
    (h : d.Matches env.order windows th.oracle th.claims th.request st.db)
    (hallow : (reading th.claims th.request R).allow d (.sql q)) :
    (d.after (.sql q) ((Op.sql q).exec env th.oracle config clock st).1).Matches env.order
      (windows.note ((Op.sql q).looksFor th.request)) th.oracle th.claims th.request
      ((Op.sql q).exec env th.oracle config clock st).2.db := by
  rw [exec_sql henv, looksFor_eq_none (o := .sql q) fun _ h => nomatch h]
  cases q with
  | selectBackup id tenantId =>
      obtain ⟨hrequest, rfl⟩ := hallow
      refine ⟨h.looked, fun id' hid' => ?_⟩
      obtain rfl := Request.get.inj (hrequest.symm.trans hid')
      rfl
  | selectBackups tenantId status limit offset =>
      obtain ⟨params, hrequest, rfl, rfl, rfl, rfl⟩ := hallow
      rw [exec_selectBackups_snd]
      refine ⟨h.looked, fun params' hparams' => ?_⟩
      obtain rfl := Request.list.inj (hrequest.symm.trans hparams')
      rfl
  | countBackups tenantId status =>
      obtain ⟨params, items, hrequest, rfl, rfl, hfound⟩ := hallow
      rw [exec_countBackups_snd]
      have hrows := h.found
      rw [hfound] at hrows
      simp only [Reading.after, Reading.afterSql, hfound]
      refine ⟨h.looked, fun params' hparams' => ⟨hrows params' hparams', ?_⟩⟩
      obtain rfl := Request.list.inj (hrequest.symm.trans hparams')
      rfl
  | insertBackup | updateBackup | deleteBackup | setStatus | setCompleted | setFailed =>
      exact hallow.elim

/-- What a reader finds in the cache is what the table says, too. -/
theorem Reading.Matches.afterGet {d : Reading} {key : Key}
    (h : d.Matches env.order windows th.oracle th.claims th.request st.db)
    (hallow : (reading th.claims th.request R).allow d (.redis (.get key)))
    (hfit : Fits env.order windows st ((Op.redis (.get key)).looksFor th.request))
    (hentries : ∀ key e, st.redis key = some e → Pictures env.order windows st.db key e.value) :
    (d.after (.redis (.get key))
      ((Op.redis (.get key)).exec env th.oracle config clock st).1).Matches env.order
      (windows.note ((Op.redis (.get key)).looksFor th.request)) th.oracle th.claims th.request
      st.db := by
  have hlive : ∀ {v : CacheValue},
      ((Op.redis (.get key)).exec env th.oracle config clock st).1 = .ok (some v) →
        st.redis key ≠ none ∧ Pictures env.order windows st.db key v := by
    intro v hr
    obtain ⟨e, he, rfl⟩ := exec_get_ok hr
    exact ⟨by rw [he]; exact Option.some_ne_none _, hentries key e he⟩
  cases key with
  | backup id =>
      rw [looksFor_eq_none (o := .redis (.get (.backup id))) fun _ h => nomatch h]
      rcases hr : ((Op.redis (.get (.backup id))).exec env th.oracle config clock st).1 with
        e | (_ | v)
      · exact h
      · exact h
      · obtain ⟨b, rfl, hfind⟩ := (hlive hr).2
        refine ⟨h.looked, fun id' b' hid' hb' => ?_, fun params _ _ hparams => ?_⟩
        · obtain rfl := Request.get.inj (hallow.symm.trans hid')
          obtain rfl := CacheValue.backup.inj hb'
          exact hfind
        · cases hallow.symm.trans hparams
  | tenantBackups tenantId =>
      obtain ⟨params, cfg, hrequest, rfl, -, huse⟩ := hallow
      have hlook : (Op.redis (.get (.tenantBackups th.claims.tenantId))).looksFor th.request =
          some (th.claims.tenantId, params) := by rw [hrequest]; rfl
      have hlooked : ∀ params', th.request = .list params' →
          Function.update windows th.claims.tenantId params.range th.claims.tenantId =
            params'.range := by
        intro params' hparams'
        obtain rfl := Request.list.inj (hrequest.symm.trans hparams')
        exact Function.update_self ..
      rw [hlook] at hfit ⊢
      rcases hr : ((Op.redis (.get (.tenantBackups th.claims.tenantId))).exec env th.oracle
        config clock st).1 with e | (_ | v)
      · exact ⟨fun _ => hlooked, h.found⟩
      · exact ⟨fun _ => hlooked, h.found⟩
      · refine ⟨fun _ => hlooked, fun id b hid => ?_, fun params' rows total hparams' hv => ?_⟩
        · cases hrequest.symm.trans hid
        · obtain rfl := Request.list.inj (hrequest.symm.trans hparams')
          have hpage := (hlive hr).2.note hfit (hlive hr).1
          simp only [Pictures, Windows.note, Function.update_self] at hpage
          -- The page that was found is the one of the range it was stored for.
          obtain ⟨rfl, rfl⟩ := CacheValue.page.inj (hv.symm.trans hpage)
          exact ⟨(useListCache_iff.mp huse).1, rfl, rfl⟩

/-- What a reader finds is what the table says. -/
theorem Reading.Matches.after {d : Reading} (henv : env.sql = .none) (horder : env.order = order)
    (h : d.Matches order windows th.oracle th.claims th.request st.db)
    (hallow : (reading th.claims th.request R).allow d o)
    (hfit : Fits order windows st (o.looksFor th.request))
    (hentries : ∀ key e, st.redis key = some e → Pictures order windows st.db key e.value) :
    (d.after o (o.exec env th.oracle config clock st).1).Matches order
      (windows.note (o.looksFor th.request)) th.oracle th.claims th.request
      (o.exec env th.oracle config clock st).2.db := by
  subst horder
  cases o with
  | sql q => exact h.afterSql henv hallow
  | redis c =>
      rw [exec_redis_db]
      cases c with
      | get key => exact h.afterGet hallow hfit hentries
      | setEx key v ttl => exact h
      | del key => exact hallow.elim
  | config | entropy => exact h
  | publish job => exact hallow.elim

/-- What the request in flight caches is a picture of the table. -/
theorem Thread.InTurn.pictures_setEx (h : th.InTurn order R windows st g) {key : Key}
    {v : CacheValue} {ttl : UInt64} {k : (Op.redis (.setEx key v ttl)).Answer → Action Response}
    (hprog : th.prog = .op (.redis (.setEx key v ttl)) k) : Pictures order windows st.db key v := by
  obtain ⟨-, cfg, cfg', -, -, -, hcopy⟩ := h.tracked.allow hprog
  have hcurrent := h.current
  cases key with
  | backup id =>
      obtain ⟨b, hrow, rfl, hv⟩ := hcopy
      rw [hrow] at hcurrent
      exact ⟨b, hv, hcurrent⟩
  | tenantBackups tenantId =>
      obtain ⟨params, items, total, hrequest, rfl, huse, hpage, hv⟩ := hcopy
      rw [Copy.Answers] at hpage
      rw [hpage] at hcurrent
      obtain ⟨-, d, hd, hmatches⟩ := h.reads (by rw [hrequest]; trivial)
      rw [hprog] at hd
      -- the page is looked for before it is cached, so the window is its own
      have hrange := hmatches.looked hd.1.2 params hrequest
      obtain ⟨hrows, htotal⟩ := hcurrent
      rw [(useListCache_iff.mp huse).1] at hrows htotal
      rw [hv, ← hrows, ← htotal]
      simp only [Pictures, hrange]
      rfl

/-- After an operation every live entry is a picture of the table, unless
its key is owed. -/
theorem Thread.InTurn.entries_after (h : th.InTurn order R windows st g) (hprog : th.prog = .op o k)
    (henv : env.sql = .none) (horder : env.order = order)
    (hskip : env.redis = .before → ∀ key, o = .redis (.del key) → st.redis key = none)
    (hfit : Fits order windows st (o.looksFor th.request)) (key : Key) (e : Entry)
    (he : (o.exec env th.oracle config clock st).2.redis key = some e) :
    key ∈ (g.after o (o.exec env th.oracle config clock st).1).owed ∨
      Pictures order (windows.note (o.looksFor th.request))
        (o.exec env th.oracle config clock st).2.db key e.value := by
  have hallow := h.tracked.allow hprog
  subst horder
  cases o with
  | sql q =>
      rw [exec_sql henv] at he ⊢
      have hnone : g.owed = [] := hallow.1.1
      have hold : Pictures env.order windows st.db key e.value := by
        refine (h.entries key e he).resolve_left fun howed => ?_
        rw [hnone] at howed
        cases howed
      rw [looksFor_eq_none (o := .sql q) fun _ h => nomatch h]
      rcases owed_of_touches th.oracle g hallow.2 st.db with hsame | hkeys
      · exact .inr (hsame.symm ▸ hold)
      · -- What the statement touches is owed from now on; the rest is still a picture.
        by_cases htouch : q.Touches st.db key
        · exact .inl (hkeys key htouch)
        · exact .inr (about_pictures env.order windows key e.value th.oracle q st.db htouch hold)
  | redis c =>
      rw [exec_redis_db]
      cases c with
      | get key' =>
          rw [exec_get_redis] at he
          have howed : (g.after (.redis (.get key'))
              ((Op.redis (.get key')).exec env th.oracle config clock st).1).owed = g.owed := by
            rcases ((Op.redis (.get key')).exec env th.oracle config clock st).1 with e | (_ | v) <;> rfl
          rw [howed]
          refine (h.entries key e he).imp_right fun hold => hold.note hfit ?_
          rw [he]
          exact Option.some_ne_none _
      | setEx key' v ttl =>
          have hnote : (Op.redis (.setEx key' v ttl)).looksFor th.request = none := rfl
          rw [hnote]
          rcases exec_redis_some he with hold | ⟨ttl', heq, -, -⟩
          · exact h.entries key e hold
          · obtain ⟨rfl, rfl, rfl⟩ := RedisCommand.setEx.inj (Op.redis.inj heq)
            -- The new entry is what the request has read, and nobody has written since.
            exact .inr (h.pictures_setEx hprog)
      | del key' =>
          have hnote : (Op.redis (.del key')).looksFor th.request = none := rfl
          rw [hnote]
          have hne := exec_del_some (fun hfault => hskip hfault key' rfl) he
          exact (h.entries key e hne.2).imp_left (List.mem_erase_of_ne hne.1).mpr
  | config | entropy => exact h.entries key e he
  | publish job =>
      have hsame : ((Op.publish job).exec env th.oracle config clock st).2.redis = st.redis ∧
          ((Op.publish job).exec env th.oracle config clock st).2.db = st.db := by
        simp only [Op.exec]
        split <;> exact ⟨rfl, rfl⟩
      rw [hsame.1] at he
      rw [hsame.2]
      exact h.entries key e he

/-- **The request in flight performs an operation.** -/
theorem Thread.InTurn.step (h : th.InTurn order R windows st g) (hprog : th.prog = .op o k)
    (hconfig : R config) (henv : env.sql = .none) (horder : env.order = order)
    (hskip : env.redis = .before → ∀ key, o = .redis (.del key) → st.redis key = none)
    (hfit : Fits order windows st (o.looksFor th.request)) :
    Thread.InTurn order R (windows.note (o.looksFor th.request))
      (o.exec env th.oracle config clock st).2
      (g.after o (o.exec env th.oracle config clock st).1)
      { th with prog := k (o.exec env th.oracle config clock st).1 } where
  tracked := h.tracked.next hprog (exec_rely_tracked trivial ..)
  current := horder ▸ current_after henv (horder ▸ h.current) (h.tracked.allow hprog)
  entries := h.entries_after hprog henv horder hskip hfit
  reads hreads := by
    obtain ⟨howed, d, hd, hmatches⟩ := h.reads hreads
    rw [hprog] at hd
    refine ⟨owed_of_reading hd.1 howed _, _, hd.2 _ ?_, hmatches.after henv horder hd.1 hfit ?_⟩
    · cases o with
      | config => exact hconfig
      | sql | redis | publish | entropy => trivial
    · intro key e he
      refine (h.entries key e he).resolve_left fun hmem => ?_
      rw [howed] at hmem
      cases hmem

end InTurn

/-! ### Runs -/

/-- At most one request is in flight. What it holds is what the table says,
and when there is none, so is every live entry. -/
structure Turnwise (order : RowOrder) (R : AppConfig → Prop) (windows : Windows) (s : State) : Prop where
  replicas : ∀ replica, R (s.replicas replica).config ∧
    (s.replicas replica).state.cache.redis = true
  alone : ∀ id id' th th', s.inflight id = some th → s.inflight id' = some th' → id = id'
  resting : (∀ id, s.inflight id = none) → ∀ key e, s.store.redis key = some e →
    Pictures order windows s.store.db key e.value
  moving : ∀ id th, s.inflight id = some th → ∃ g, th.InTurn order R windows s.store g

section Runs

variable {uuid : UuidParser} {order : RowOrder} {R : AppConfig → Prop} {windows : Windows} {s : State}
  {e : Event}

theorem Turnwise.initial {db : Table} {replicas : ℕ → Replica}
    (h : ∀ replica, R (replicas replica).config ∧ (replicas replica).state.cache.redis = true) :
    Turnwise order R windows (.initial db replicas) where
  replicas := h
  alone _ _ _ _ hth := nomatch hth
  resting _ _ _ he := nomatch he
  moving _ _ hth := nomatch hth

/-- The request in flight is the only one. -/
theorem Turnwise.others (h : Turnwise order R windows s) {id : ReqId} {th : Thread}
    (hth : s.inflight id = some th) {id' : ReqId} (hne : id' ≠ id) : s.inflight id' = none := by
  cases hth' : s.inflight id' with
  | none => rfl
  | some th' => exact (hne (h.alone id' id th' th hth' hth)).elim

theorem Thread.InTurn.of_redis {st st' : Store} {g : Phase} {th : Thread}
    (h : th.InTurn order R windows st g) (hdb : st'.db = st.db)
    (hredis : ∀ key e, st'.redis key = some e → st.redis key = some e) :
    th.InTurn order R windows st' g where
  tracked := h.tracked
  current := hdb ▸ h.current
  reads hreads := hdb ▸ h.reads hreads
  entries key e he := hdb ▸ h.entries key e (hredis key e he)

/-- Events at which no request moves, and at which entries only go. -/
theorem Turnwise.of_redis {s' : State} (h : Turnwise order R windows s)
    (hreplicas : ∀ replica, R (s'.replicas replica).config ∧
      (s'.replicas replica).state.cache.redis = true)
    (hinflight : s'.inflight = s.inflight) (hdb : s'.store.db = s.store.db)
    (hredis : ∀ key e, s'.store.redis key = some e → s.store.redis key = some e) :
    Turnwise order R windows s' where
  replicas := hreplicas
  alone := hinflight ▸ h.alone
  resting hnone key e he := hdb ▸ h.resting (hinflight ▸ hnone) key e (hredis key e he)
  moving id th hth := by
    rw [hinflight] at hth
    obtain ⟨g, hg⟩ := h.moving id th hth
    exact ⟨g, hg.of_redis hdb hredis⟩

/-- The request in flight is gone, and it has left nothing behind. -/
theorem Turnwise.finish (h : Turnwise order R windows s) {id : ReqId}
    (hentries : ∀ key e, s.store.redis key = some e → Pictures order windows s.store.db key e.value) :
    Turnwise order R windows (s.setThread id none) where
  replicas := h.replicas
  alone id' id'' th' th'' hth' hth'' := by
    by_cases hid : id' = id
    · rw [hid, State.setThread_inflight_self] at hth'
      cases hth'
    · by_cases hid' : id'' = id
      · rw [hid', State.setThread_inflight_self] at hth''
        cases hth''
      · rw [State.setThread_inflight_of_ne _ _ hid] at hth'
        rw [State.setThread_inflight_of_ne _ _ hid'] at hth''
        exact h.alone id' id'' th' th'' hth' hth''
  resting _ := hentries
  moving id' th' hth' := by
    by_cases hid : id' = id
    · rw [hid, State.setThread_inflight_self] at hth'
      cases hth'
    · rw [State.setThread_inflight_of_ne _ _ hid] at hth'
      exact h.moving id' th' hth'

theorem Turnwise.start (h : Turnwise order R windows s) (hidle : ∀ id, s.inflight id = none)
    (replica seq : ℕ) (claims : Claims) (request : Request) (oracle : Oracle) :
    Turnwise order R windows (s.start replica seq claims request oracle) := by
  rw [State.start, hidle]
  have hother : ∀ {id : ReqId} {th : Thread}, (s.setThread ⟨claims.tenantId, seq⟩
      (some (s.newThread replica claims request oracle))).inflight id = some th →
        id = ⟨claims.tenantId, seq⟩ ∧ th = s.newThread replica claims request oracle := by
    intro id th hth
    by_cases hid : id = ⟨claims.tenantId, seq⟩
    · rw [hid, State.setThread_inflight_self] at hth
      exact ⟨hid, (Option.some.inj hth).symm⟩
    · rw [State.setThread_inflight_of_ne _ _ hid, hidle] at hth
      cases hth
  refine ⟨h.replicas, ?_, ?_, ?_⟩
  · intro id id' th th' hth hth'
    exact (hother hth).1.trans (hother hth').1.symm
  · intro hnone
    have hself := hnone ⟨claims.tenantId, seq⟩
    dsimp only at hself
    rw [State.setThread_inflight_self] at hself
    cases hself
  · intro id th hth
    obtain ⟨-, rfl⟩ := hother hth
    refine ⟨.start, newThread_tracked (fun _ => (h.replicas replica).2) claims request oracle, trivial,
      fun hreads => ⟨rfl, .start, handle_reading _ hreads, fun hlooked => ?_, trivial⟩,
      fun key e he => .inr (h.resting hidle key e he)⟩
    cases hlooked

theorem Turnwise.stepThread (h : Turnwise order R windows s) {id : ReqId} {env : Env}
    (henv : env.sql = .none) (horder : env.order = order) (hskip : NoSkippedDeletion s (.step id env))
    (hfit : Fits order windows s.store (s.looksFor (.step id env))) :
    Turnwise order R (windows.note (s.looksFor (.step id env))) (s.stepThread id env).1 := by
  cases hth : s.inflight id with
  | none =>
      simp only [State.looksFor, hth, State.stepThread_none hth]
      exact h
  | some th =>
      obtain ⟨g, hg⟩ := h.moving id th hth
      cases hprog : th.prog with
      | ret response =>
          simp only [State.looksFor, hth, hprog, State.stepThread_ret hth hprog]
          -- A request that owed a deletion could not respond yet.
          refine h.finish fun key e he => (hg.entries key e he).resolve_left fun howed => ?_
          rw [(hg.tracked.final hprog).1 rfl] at howed
          cases howed
      | op o k =>
          have hlook : s.looksFor (.step id env) = o.looksFor th.request := by
            simp only [State.looksFor, hth, hprog]
          rw [hlook] at hfit ⊢
          rw [State.stepThread_op hth hprog]
          have hdel : env.redis = .before → ∀ key, o = .redis (.del key) → s.store.redis key = none := by
            rintro hfault key rfl
            exact hskip hfault th key k hth hprog
          have hstep : Thread.InTurn order R (windows.note (o.looksFor th.request)) (s.exec th env o).2
              (g.after o (s.exec th env o).1) { th with prog := k (s.exec th env o).1 } :=
            hg.step hprog (h.replicas th.replica).1 henv horder hdel hfit
          refine ⟨h.replicas, ?_, ?_, ?_⟩
          · intro id' id'' th' th'' hth' hth''
            -- There is one request in flight, before and after.
            by_cases hid : id' = id <;> by_cases hid' : id'' = id
            · rw [hid, hid']
            · rw [State.setThread_inflight_of_ne _ _ hid', State.setStore_inflight,
                h.others hth hid'] at hth''
              cases hth''
            · rw [State.setThread_inflight_of_ne _ _ hid, State.setStore_inflight,
                h.others hth hid] at hth'
              cases hth'
            · rw [State.setThread_inflight_of_ne _ _ hid, State.setStore_inflight,
                h.others hth hid] at hth'
              cases hth'
          · intro hnone
            have hself := hnone id
            rw [State.setThread_inflight_self] at hself
            cases hself
          · intro id' th' hth'
            by_cases hid : id' = id
            · rw [hid, State.setThread_inflight_self] at hth'
              obtain rfl := Option.some.inj hth'
              exact ⟨_, hstep⟩
            · rw [State.setThread_inflight_of_ne _ _ hid, State.setStore_inflight,
                h.others hth hid] at hth'
              cases hth'

theorem Turnwise.drop (h : Turnwise order R windows s) {id : ReqId}
    (hskip : NoSkippedDeletion s (.drop id)) : Turnwise order R windows (s.setThread id none) := by
  cases hth : s.inflight id with
  | none =>
      refine h.of_redis h.replicas ?_ rfl fun key e he => he
      exact Function.update_eq_self_iff.mpr hth.symm
  | some th =>
      obtain ⟨g, hg⟩ := h.moving id th hth
      refine h.finish fun key e he => (hg.entries key e he).resolve_left fun howed => ?_
      rw [hskip th key hth (hg.tracked.must howed)] at he
      cases he

/-- **One event.** -/
theorem Turnwise.step (h : Turnwise order R windows s) (hone : OneAtATime order s e)
    (hskip : NoSkippedDeletion s e) (hfit : Fits order windows s.store (s.looksFor e))
    (hconfig : ∀ replica update, e = .configUpdate replica update →
      ∀ cfg, R cfg → R (applyUpdate cfg update)) :
    Turnwise order R (windows.note (s.looksFor e)) ((system uuid).step s e).1 := by
  cases e with
  | start replica seq claims request oracle => exact h.start hone replica seq claims request oracle
  | step id env => exact h.stepThread hone.1 hone.2 hskip hfit
  | drop id => exact h.drop hskip
  | rpc call oracle env => exact hone.elim
  | configUpdate replica update =>
      refine h.of_redis (fun replica' => ?_) rfl rfl fun key e he => he
      by_cases heq : replica' = replica
      · subst heq
        simp only [step_configUpdate, State.updateConfig, Function.update_self]
        exact ⟨hconfig _ _ rfl _ (h.replicas replica').1, (h.replicas replica').2⟩
      · simp only [step_configUpdate, State.updateConfig, Function.update_of_ne heq]
        exact h.replicas replica'
  | expire key' =>
      refine h.of_redis h.replicas rfl rfl fun key e he => ?_
      rw [step_expire, State.setStore_store] at he
      by_cases heq : key = key'
      · simp [heq] at he
      · exact (Function.update_of_ne heq ..).symm.trans he
  | advance clock =>
      exact h.of_redis h.replicas rfl rfl fun key e he => (Option.filter_eq_some_iff.mp he).1

/-- A page is looked for in the window of the configuration. -/
theorem Turnwise.range_of_looksFor (h : Turnwise order R windows s) {tenantId : Uuid}
    {params : ListParams} (hlook : s.looksFor e = some (tenantId, params)) :
    ∃ cfg, R cfg ∧ params.range = (cfg.cachedListLimit, cfg.cachedListOffset) := by
  cases e with
  | step id env =>
      cases hth : s.inflight id with
      | none => simp [State.looksFor, hth] at hlook
      | some th =>
          cases hprog : th.prog with
          | ret response => simp [State.looksFor, hth, hprog] at hlook
          | op o k =>
              simp only [State.looksFor, hth, hprog] at hlook
              obtain ⟨rfl, hrequest⟩ := looksFor_eq_some hlook
              obtain ⟨g, hg⟩ := h.moving id th hth
              obtain ⟨-, d, hd, -⟩ := hg.reads (by rw [hrequest]; trivial)
              rw [hprog] at hd
              obtain ⟨params', cfg, hrequest', -, hcfg, huse⟩ := hd.1
              obtain rfl := Request.list.inj (hrequest.symm.trans hrequest')
              obtain ⟨-, hoffset, hlimit⟩ := useListCache_iff.mp huse
              exact ⟨cfg, hcfg, Prod.ext hlimit hoffset⟩
  | start | drop | rpc | configUpdate | expire | advance => cases hlook

/-- **A reader is answered as the table is.** -/
theorem Turnwise.answer (h : Turnwise order R windows s) {id : ReqId} {request : Request}
    {response : Response} (hobs : .responded id request response ∈ ((system uuid).step s e).2)
    (hreads : request.Reads) (amqpChannel : Bool) : ∃ th, s.inflight id = some th ∧
      response = (directAnswer order amqpChannel th.claims th.oracle request s.store.db).1 := by
  obtain ⟨env, th, rfl, hth, rfl, hprog⟩ := step_responded hobs
  obtain ⟨g, hg⟩ := h.moving id th hth
  obtain ⟨-, d, hd, hmatches⟩ := hg.reads hreads
  rw [hprog] at hd
  exact ⟨th, hth, hmatches.answer hreads hd amqpChannel⟩

end Runs

/-- A user of tenant `1` sends a request, and its handler moves `n` times. -/
def oneRequest (seq : ℕ) (request : Request) (n : ℕ) : List Event :=
  .start 0 seq ⟨"user", ⟨1⟩, [], 0, 0⟩ request ⟨⟨0⟩, 1⟩ :: List.replicate n (.step ⟨⟨1⟩, seq⟩ {})

/-- When this request is done, nothing is in flight. -/
theorem idle_oneRequest {uuid : UuidParser} {s : State} {seq n : ℕ} {request : Request}
    (hidle : ∀ id, s.inflight id = none)
    (hdone : ((system uuid).run s (oneRequest seq request n)).inflight ⟨⟨1⟩, seq⟩ = none) (id : ReqId) :
    ((system uuid).run s (oneRequest seq request n)).inflight id = none := by
  by_cases hid : id = ⟨⟨1⟩, seq⟩
  · rw [hid, hdone]
  · refine run_inflight_none (hidle id) fun replica seq' claims request' oracle hmem heq => hid ?_
    rcases List.mem_cons.mp hmem with hstart | hstep
    · obtain ⟨-, rfl, rfl, -, -⟩ := Event.start.inj hstart
      exact heq
    · cases List.eq_of_mem_replicate hstep

theorem along_oneRequest {uuid : UuidParser} {C : State → Event → Prop} {s : State} {seq n : ℕ}
    {request : Request} (hstart : C s (.start 0 seq ⟨"user", ⟨1⟩, [], 0, 0⟩ request ⟨⟨0⟩, 1⟩))
    (hstep : ∀ s, C s (.step ⟨⟨1⟩, seq⟩ {})) :
    (system uuid).Along C s (oneRequest seq request n) := by
  refine ⟨hstart, ?_⟩
  generalize ((system uuid).step s _).1 = t
  induction n generalizing t with
  | zero => trivial
  | succ n ih => exact ⟨hstep t, ih _⟩

end BackupService
