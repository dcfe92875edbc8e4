import BackupService.ClientErrors
import BackupService.Lib.Paging
import BackupService.ListPages

/-!
Walking through the list of a tenant.

A client asks for the list from the offset 0 on, advances the offset by the
limit that it is told, and stops when it has reached the total. Every page is
the answer to a query of its own, or comes from the cache, and every query
puts rows with equal `created_at` in an order of its own. So a walk reads a
page of one order, the next page of another, and so on (`PagesFrom`), and it
gets every row once, whatever these orders are, if and only if no page ends
between rows with equal `created_at` (`pagination_iff`).
-/

namespace BackupService

open Lib Program

/-! ### The walk -/

/-- The table answers every statement, and the configuration stays as it is.
Redis may fail. -/
structure Host.Serves (host : Host) (config : AppConfig) : Prop where
  config : ∀ n, (host.moment n).config = config
  sql : ∀ n, (host.moment n).env.sql = .none

/-- If there is a page of the tenant in the cache, some list request has put
it there, with the table and the configuration as they are. -/
def CachesPage (t : Table) (config : AppConfig) (tenantId : Uuid) (redis : Redis) : Prop :=
  ∀ items total, (redis (.tenantBackups tenantId)).map Entry.value = some (.page items total) →
    (∃ order, items =
      t.page order tenantId none config.cachedListLimit config.cachedListOffset) ∧
    total = t.count tenantId none

/-- At most `fuel` requests, from an offset on. -/
def walk (host : Host) (claims : Claims) (status : Option String) (limit : ℤ) :
    (fuel : ℕ) → (offset : ℤ) → Store × ℕ → Option (List BackupResponse)
  | 0, _, _ => none
  | fuel + 1, offset, s =>
      match (handle host.state claims (.list { offset, limit, status })).run host.exec s with
      | (⟨200, .list list⟩, s) =>
          let next := offset + list.limit
          if list.total ≤ next then some list.items
          else (walk host claims status limit fuel next s).map (list.items ++ ·)
      | _ => none

/-- The walk comes to its end and has returned each matching row of the
tenant exactly once. -/
def CoversOnce (t : Table) (host : Host) (claims : Claims) (status : Option String) (limit : ℤ)
    (s : Store × ℕ) : Prop :=
  ∃ items, walk host claims status limit (t.rows.length + 1) 0 s = some items ∧
    items.Perm ((t.matching claims.tenantId status).map .from)

/-! ### One request -/

section Request

variable {t : Table} {host : Host} {config : AppConfig} {claims : Claims} {status : Option String}
  {limit : ℤ} {s : Store × ℕ}

/-- The table is as it was, and the cache has nothing else. -/
def Unchanged (t : Table) (config : AppConfig) (tenantId : Uuid) (s : Store × ℕ) : Prop :=
  s.1.db = t ∧ CachesPage t config tenantId s.1.redis

theorem Host.exec_sql_of_none (h : (host.moment s.2).env.sql = .none) (q : Sql) :
    host.exec (.sql q) s = ((q.exec (host.moment s.2).env.order host.oracle s.1.db).1,
      ({ s.1 with db := (q.exec (host.moment s.2).env.order host.oracle s.1.db).2 }, s.2 + 1)) := by
  simp only [Host.exec, Op.exec, h]
  rfl

/-- A command of Redis is executed, or nothing happens. -/
theorem Host.exec_redis (c : RedisCommand) :
    (host.exec (.redis c) s).2.1 = s.1 ∨ (host.exec (.redis c) s).2.1 =
      { s.1 with redis := c.effect (host.moment s.2).clock s.1.redis } := by
  simp only [Host.exec, Op.exec]
  cases (host.moment s.2).env.redis with
  | none => exact .inr rfl
  | before => exact .inl rfl
  | after => exact .inr rfl

theorem Host.exec_get_answer {key : Key} {v : Option CacheValue}
    (h : (host.exec (.redis (.get key)) s).1 = .ok v) : v = (s.1.redis key).map Entry.value := by
  simp only [Host.exec, Op.exec] at h
  cases hredis : (host.moment s.2).env.redis with
  | none =>
      simp only [hredis] at h
      exact (Except.ok.inj h).symm
  | before | after =>
      simp only [hredis] at h
      cases h

theorem unchanged_getTenantBackups (hs : Unchanged t config claims.tenantId s) (cache : CacheLayer) :
    Ensures host.exec (cache.getTenantBackups claims.tenantId) s fun cached s' =>
      Unchanged t config claims.tenantId s' ∧ ∀ items total, cached = some (items, total) →
        (∃ order, items =
          t.page order claims.tenantId none config.cachedListLimit config.cachedListOffset) ∧
        total = t.count claims.tenantId none := by
  cases hr : cache.redis with
  | false =>
      rw [CacheLayer.getTenantBackups, if_neg (by simp [hr])]
      refine ⟨hs, fun items total h => ?_⟩
      cases h
  | true =>
      rw [← bind_pure (cache.getTenantBackups claims.tenantId), CacheLayer.getTenantBackups_bind hr]
      refine ⟨?_, fun items total h => ?_⟩
      · show Unchanged _ _ _ (host.exec (.redis (.get (.tenantBackups claims.tenantId))) s).2
        unfold Unchanged
        rw [Host.exec_get]
        exact hs
      · have hcached : cachedPage (host.exec (.redis (.get (.tenantBackups claims.tenantId))) s).1 =
            some (items, total) := h
        cases hanswer : (host.exec (.redis (.get (.tenantBackups claims.tenantId))) s).1 with
        | error e =>
            rw [hanswer] at hcached
            cases hcached
        | ok v =>
            rw [hanswer] at hcached
            have hentry := Host.exec_get_answer hanswer
            exact hs.2 items total (hentry.symm.trans (cachedPage_ok.mp hcached))

theorem unchanged_setTenantBackups (hs : Unchanged t config claims.tenantId s) (cache : CacheLayer)
    {items : List Backup} {total : ℤ}
    (hitems : ∃ order, items =
      t.page order claims.tenantId none config.cachedListLimit config.cachedListOffset)
    (htotal : total = t.count claims.tenantId none) :
    Ensures host.exec (cache.setTenantBackups claims.tenantId items total) s fun _ s' =>
      Unchanged t config claims.tenantId s' := by
  cases hr : cache.redis with
  | false =>
      rw [CacheLayer.setTenantBackups, if_neg (by simp [hr])]
      exact hs
  | true =>
      rw [CacheLayer.setTenantBackups, if_pos hr, CacheLayer.cacheTtlSecs,
        if_pos (cache.configured hr)]
      have hset : ∀ (ttl : UInt64) (s : Store × ℕ), Unchanged t config claims.tenantId s →
          Unchanged t config claims.tenantId
            (host.exec (.redis (.setEx (.tenantBackups claims.tenantId) (.page items total) ttl)) s).2 := by
        intro ttl s hs
        have hcommand := @Host.exec_redis host s
          (.setEx (.tenantBackups claims.tenantId) (.page items total) ttl)
        obtain hstore | hstore := hcommand
        · unfold Unchanged
          rw [hstore]
          exact hs
        · unfold Unchanged
          rw [hstore]
          refine ⟨hs.1, fun items' total' hcached => ?_⟩
          simp only [RedisCommand.effect] at hcached
          split at hcached
          · rw [Function.update_self] at hcached
            cases hcached
            exact ⟨hitems, htotal⟩
          · exact hs.2 items' total' hcached
      exact hset _ _ hs

/-- The two statements of a request that has not found its page in the cache. -/
theorem ensures_listAfterLookup {post : Response → Store × ℕ → Prop} {params : ListParams}
    {cfg : AppConfig} {state : AppState} (hserves : host.Serves config)
    (hstatus : params.status.all storable = true) (hs : s.1.db = t)
    (h : Ensures host.exec (do
      if useListCache params cfg then
        state.cache.setTenantBackups claims.tenantId
          (t.page (host.moment s.2).env.order claims.tenantId params.status
            (clamp params.limit 1 100) (max params.offset 0)) (t.count claims.tenantId params.status)
      return listResponse params
        (t.page (host.moment s.2).env.order claims.tenantId params.status
          (clamp params.limit 1 100) (max params.offset 0))
        (t.count claims.tenantId params.status)) (s.1, s.2 + 2) post) :
    Ensures host.exec (listAfterLookup state claims params cfg none) s post := by
  have hpage : host.exec (.sql (.selectBackups claims.tenantId params.status
      (clamp params.limit 1 100) (max params.offset 0))) s =
        (.ok (t.page (host.moment s.2).env.order claims.tenantId params.status
          (clamp params.limit 1 100) (max params.offset 0)), (s.1, s.2 + 1)) := by
    rw [Host.exec_sql_of_none (hserves.sql _), ← hs]
    simp only [Sql.exec, hstatus, if_true]
    rfl
  have hcount : host.exec (.sql (.countBackups claims.tenantId params.status)) (s.1, s.2 + 1) =
        (.ok (t.count claims.tenantId params.status), (s.1, s.2 + 2)) := by
    rw [Host.exec_sql_of_none (hserves.sql _), ← hs]
    simp only [Sql.exec, hstatus, if_true]
    rfl
  unfold listAfterLookup
  refine Host.ensures_query fun r s₁ hr hs₁ => ?_
  rw [hpage] at hr hs₁
  subst hr hs₁
  refine Host.ensures_query fun r s₂ hr hs₂ => ?_
  rw [hcount] at hr hs₂
  subst hr hs₂
  exact h

theorem unchanged_listAfterLookup (hserves : host.Serves config)
    (hstatus : status.all storable = true) (hs : Unchanged t config claims.tenantId s)
    {params : ListParams} (hparams : params.status = status) (state : AppState) :
    Ensures host.exec (listAfterLookup state claims params config none) s fun r s' =>
      Unchanged t config claims.tenantId s' ∧ ∃ order, r = listResponse params
        (t.page order claims.tenantId status (clamp params.limit 1 100) (max params.offset 0))
        (t.count claims.tenantId status) := by
  subst hparams
  have hs' : Unchanged t config claims.tenantId (s.1, s.2 + 2) := hs
  refine ensures_listAfterLookup hserves hstatus hs.1 ?_
  split
  · next huse =>
      obtain ⟨hnone, hoffset, hlimit⟩ := useListCache_iff.mp huse
      have hset : Ensures host.exec (state.cache.setTenantBackups claims.tenantId
          (t.page (host.moment s.2).env.order claims.tenantId params.status (clamp params.limit 1 100)
            (max params.offset 0)) (t.count claims.tenantId params.status)) (s.1, s.2 + 2)
          fun _ s' => Unchanged t config claims.tenantId s' := by
        rw [hnone, hoffset, hlimit]
        exact unchanged_setTenantBackups hs' state.cache ⟨_, rfl⟩ rfl
      exact hset.bind fun _ s'' hs'' => ⟨hs'', (host.moment s.2).env.order, rfl⟩
  · exact ⟨hs', _, rfl⟩

/-- **One request.** It is answered with a page of some order. -/
theorem list_spec (hserves : host.Serves config) (hstatus : status.all storable = true)
    (hs : Unchanged t config claims.tenantId s) {offset : ℤ} (hoffset : 0 ≤ offset) :
    Ensures host.exec (handle host.state claims (.list { offset, limit, status })) s fun r s' =>
      Unchanged t config claims.tenantId s' ∧ ∃ order, r = listResponse { offset, limit, status }
        (t.page order claims.tenantId status (clamp limit 1 100) offset)
        (t.count claims.tenantId status) := by
  have hmax : max offset 0 = offset := max_eq_left hoffset
  have hread : Ensures host.exec readConfig s fun cfg s' =>
      cfg = config ∧ Unchanged t config claims.tenantId s' := ⟨hserves.config _, hs⟩
  have hmiss : ∀ s', Unchanged t config claims.tenantId s' →
      Ensures host.exec (listAfterLookup host.state claims { offset, limit, status } config none) s'
        fun r s' => Unchanged t config claims.tenantId s' ∧ ∃ order, r =
          listResponse { offset, limit, status }
            (t.page order claims.tenantId status (clamp limit 1 100) offset)
            (t.count claims.tenantId status) := fun s' hs' => by
    have hparams : (⟨offset, limit, status⟩ : ListParams).status = status := rfl
    have hrest := unchanged_listAfterLookup hserves hstatus hs' hparams host.state
    rwa [hmax] at hrest
  rw [handle_list]
  refine hread.bind fun cfg s' hcfg => ?_
  obtain ⟨rfl, hs'⟩ := hcfg
  split
  · next huse =>
      obtain ⟨rfl, hoffset', hlimit⟩ := useListCache_iff.mp huse
      refine (unchanged_getTenantBackups hs' host.state.cache).bind fun cached s'' hcached => ?_
      obtain ⟨hs'', hpage⟩ := hcached
      cases cached with
      | none => exact hmiss s'' hs''
      | some page =>
          obtain ⟨⟨order, hitems⟩, htotal⟩ := hpage page.1 page.2 rfl
          refine ⟨hs'', order, ?_⟩
          show listResponse _ page.1 page.2 = _
          rw [hitems, htotal, ← hlimit, ← hoffset', hmax]
  · exact hmiss s' hs'

end Request

/-! ### All requests -/

/-- The number of entries of a page. -/
def pageSize (limit : ℤ) : ℕ := (clamp limit 1 100).toNat

theorem coe_pageSize (limit : ℤ) : (pageSize limit : ℤ) = clamp limit 1 100 := by
  have := one_le_clamp limit
  unfold pageSize
  omega

theorem page_eq_pageAt (t : Table) (order : RowOrder) (tenantId : Uuid) (status : Option String)
    (limit : ℤ) (i : ℕ) :
    t.page order tenantId status (clamp limit 1 100) ((i * pageSize limit : ℕ) : ℤ) =
      pageAt (pageSize limit) i (order.sort (t.matching tenantId status)) := rfl

/-- Requests that are answered with pages make a walk through pages. -/
theorem walk_pages {host : Host} {claims : Claims} {status : Option String} {limit : ℤ} {n : ℕ}
    {I : ℕ → Store × ℕ → Prop} {cut : ℕ → List Backup → Prop}
    (hstep : ∀ i s, I i s → Ensures host.exec (handle host.state claims
      (.list { offset := ((i * pageSize limit : ℕ) : ℤ), limit, status })) s fun r s' =>
        I (i + 1) s' ∧ ∃ x, cut i x ∧
          r = listResponse { offset := ((i * pageSize limit : ℕ) : ℤ), limit, status }
            (pageAt (pageSize limit) i x) n)
    {fuel i : ℕ} {s : Store × ℕ} (hs : I i s) (hfuel : 0 < fuel)
    (hn : n ≤ (i + fuel) * pageSize limit) :
    ∃ out, walk host claims status limit fuel ((i * pageSize limit : ℕ) : ℤ) s =
        some (out.map .from) ∧ PagesFrom (pageSize limit) n cut i out := by
  induction fuel generalizing i s with
  | zero => omega
  | succ fuel ih =>
      obtain ⟨hs', x, hx, hr⟩ := hstep i s hs
      have hnext : ((i * pageSize limit : ℕ) : ℤ) + clamp limit 1 100 =
          (((i + 1) * pageSize limit : ℕ) : ℤ) := by
        rw [← coe_pageSize, Nat.succ_mul, Nat.cast_add]
      unfold walk
      generalize (handle host.state claims
        (.list { offset := ((i * pageSize limit : ℕ) : ℤ), limit, status })).run host.exec s = answer
        at hs' hr ⊢
      obtain ⟨r, s'⟩ := answer
      subst hr
      simp only [listResponse, hnext, Nat.cast_le]
      by_cases hlast : n ≤ (i + 1) * pageSize limit
      · rw [if_pos hlast]
        exact ⟨_, rfl, .last hx hlast⟩
      · have hmore : 0 < fuel := by
          refine Nat.pos_of_ne_zero fun hzero => hlast ?_
          rwa [hzero] at hn
        obtain ⟨out, hwalk, hpages⟩ := ih hs' hmore (by rwa [Nat.add_assoc, Nat.add_comm 1])
        rw [if_neg hlast, hwalk]
        exact ⟨_, by rw [Option.map_some, List.map_append], .next hx (not_le.mp hlast) hpages⟩

theorem RowOrder.descending (order : RowOrder) (rows : List Backup) :
    Descending Backup.createdAt rows (order.sort rows) := ⟨order.perm rows, order.sorted rows⟩

/-- As long as every walk has to be answered, `t.rows.length + 1` requests are
enough for it. -/
theorem count_le_fuel (t : Table) (tenantId : Uuid) (status : Option String) (limit : ℤ) :
    (t.matching tenantId status).length ≤ (0 + (t.rows.length + 1)) * pageSize limit := by
  have hrows : (t.matching tenantId status).length ≤ t.rows.length := List.length_filter_le ..
  have hpos : 0 < pageSize limit := by
    have := one_le_clamp limit
    unfold pageSize
    omega
  calc (t.matching tenantId status).length ≤ 0 + (t.rows.length + 1) := by omega
    _ ≤ (0 + (t.rows.length + 1)) * pageSize limit := Nat.le_mul_of_pos_right _ hpos

theorem coversOnce_of_not_splits {t : Table} {host : Host} {config : AppConfig} {claims : Claims}
    {status : Option String} {limit : ℤ} {s : Store × ℕ} (hserves : host.Serves config)
    (hs : Unchanged t config claims.tenantId s) (hstatus : status.all storable = true)
    (hk : ∀ i, ¬ Splits Backup.createdAt (t.matching claims.tenantId status) (i * pageSize limit)) :
    CoversOnce t host claims status limit s := by
  have hstep : ∀ (i : ℕ) (s : Store × ℕ), Unchanged t config claims.tenantId s →
      Ensures host.exec (handle host.state claims
        (.list { offset := ((i * pageSize limit : ℕ) : ℤ), limit, status })) s fun r s' =>
          Unchanged t config claims.tenantId s' ∧ ∃ x,
            (∃ order : RowOrder, x = order.sort (t.matching claims.tenantId status)) ∧
            r = listResponse { offset := ((i * pageSize limit : ℕ) : ℤ), limit, status }
              (pageAt (pageSize limit) i x) (t.matching claims.tenantId status).length := by
    intro i s hs
    refine (list_spec hserves hstatus hs (Nat.cast_nonneg _)).mono fun r s' hr => ?_
    obtain ⟨hs', order, rfl⟩ := hr
    exact ⟨hs', _, ⟨order, rfl⟩, rfl⟩
  have hcut : ∀ (_ : ℕ) x, (∃ order : RowOrder, x = order.sort (t.matching claims.tenantId status)) →
      Descending Backup.createdAt (t.matching claims.tenantId status) x := by
    rintro _ x ⟨order, rfl⟩
    exact order.descending _
  obtain ⟨out, hwalk, hpages⟩ := walk_pages hstep hs (Nat.succ_pos _)
    (count_le_fuel t claims.tenantId status limit)
  have hperm := hpages.perm hcut hk
  rw [Nat.zero_mul, filter_reach_zero, List.nil_append] at hperm
  rw [Nat.zero_mul] at hwalk
  exact ⟨_, hwalk, hperm.map _⟩

/-! ### Orders that change on the way -/

/-- An order that lists `rows` as `s`. -/
def RowOrder.placing (rows s : List Backup) (h : Descending Backup.createdAt rows s) : RowOrder where
  sort l := if l = rows then s else RowOrder.stable.sort l
  perm l := by
    split
    · next hl => exact hl ▸ h.perm
    · exact RowOrder.stable.perm l
  sorted l := by
    split
    · exact h.sorted
    · exact RowOrder.stable.sorted l

theorem RowOrder.placing_sort {rows s : List Backup} (h : Descending Backup.createdAt rows s) :
    (RowOrder.placing rows s h).sort rows = s := if_pos rfl

/-- A process without a cache. A list request makes three steps, so
`orderAt i` is the order that request `i` of a walk finds. -/
def uncachedHost (orderAt : ℕ → RowOrder) : Host where
  state := ⟨.noop, false⟩
  uuid := .hyphenated
  decode _ _ _ := .error .invalid
  oracle := ⟨⟨0⟩, 0⟩
  moment n := ⟨{ order := orderAt (n / 3) }, .default, 0, 0⟩

section Uncached

variable {t : Table} {orderAt : ℕ → RowOrder} {claims : Claims} {status : Option String} {limit : ℤ}
  {s : Store × ℕ} {i : ℕ}

theorem uncached_serves : (uncachedHost orderAt).Serves .default := ⟨fun _ => rfl, fun _ => rfl⟩

/-- Without a cache a list request is its two statements. -/
theorem uncached_list {offset : ℤ} {post : Response → Store × ℕ → Prop}
    (h : Ensures (uncachedHost orderAt).exec (listAfterLookup (uncachedHost orderAt).state claims
      { offset, limit, status } .default none) (s.1, s.2 + 1) post) :
    Ensures (uncachedHost orderAt).exec (handle (uncachedHost orderAt).state claims
      (.list { offset, limit, status })) s post := by
  rw [handle_list]
  have hread : Ensures (uncachedHost orderAt).exec readConfig s fun cfg s' =>
      cfg = .default ∧ s' = (s.1, s.2 + 1) := ⟨rfl, rfl⟩
  refine hread.bind fun cfg s' hcfg => ?_
  obtain ⟨rfl, rfl⟩ := hcfg
  split
  · exact h
  · exact h

theorem uncached_page (hstatus : status.all storable = true) (hs : s.1.db = t ∧ s.2 = 3 * i)
    {offset : ℤ} (hoffset : 0 ≤ offset) :
    Ensures (uncachedHost orderAt).exec (handle (uncachedHost orderAt).state claims
      (.list { offset, limit, status })) s fun r s' => (s'.1.db = t ∧ s'.2 = 3 * (i + 1)) ∧
        r = listResponse { offset, limit, status }
          (t.page (orderAt i) claims.tenantId status (clamp limit 1 100) offset)
          (t.count claims.tenantId status) := by
  refine uncached_list (ensures_listAfterLookup uncached_serves hstatus hs.1 ?_)
  have horder : ((uncachedHost orderAt).moment (s.2 + 1)).env.order = orderAt i :=
    congrArg orderAt (by omega)
  rw [max_eq_left hoffset, horder]
  have hend : ((s.1, s.2 + 1 + 2) : Store × ℕ).1.db = t ∧ ((s.1, s.2 + 1 + 2) : Store × ℕ).2 =
      3 * (i + 1) := ⟨hs.1, by show s.2 + 1 + 2 = _; omega⟩
  split
  · exact ⟨hend, rfl⟩
  · exact ⟨hend, rfl⟩

/-- A status that no `TEXT` can hold is an error of the database. -/
theorem uncached_unstorable (hstatus : status.all storable = false) {offset : ℤ} :
    Ensures (uncachedHost orderAt).exec (handle (uncachedHost orderAt).state claims
      (.list { offset, limit, status })) s fun r _ =>
        r = databaseResponse .invalidByteSequence := by
  refine uncached_list ?_
  unfold listAfterLookup
  refine Host.ensures_query fun r s₁ hr _ => ?_
  rw [Host.exec_sql_of_none (uncached_serves.sql _)] at hr
  simp only [Sql.exec, hstatus, Bool.false_eq_true, if_false] at hr
  subst hr
  rfl

end Uncached

theorem nodup_matching_from (t : Table) (tenantId : Uuid) (status : Option String) :
    ((t.matching tenantId status).map BackupResponse.from).Nodup := by
  have hids : ((t.matching tenantId status).map Backup.id).Nodup :=
    t.primaryKey.sublist (List.filter_sublist.map _)
  refine List.Nodup.of_map BackupResponse.id ?_
  rwa [List.map_map]

/-- Two orders of a group that a page splits make a walk return a row twice. -/
theorem not_coversOnce_of_splits {t : Table} {claims : Claims} {status : Option String} {limit : ℤ}
    {j : ℕ} (hstatus : status.all storable = true)
    (hj : Splits Backup.createdAt (t.matching claims.tenantId status) (j * pageSize limit)) :
    ∃ orderAt, ¬ CoversOnce t (uncachedHost orderAt) claims status limit (⟨t, .empty, []⟩, 0) := by
  obtain ⟨pre, a, b, post, hsort, hpre, hswap⟩ :=
    (RowOrder.stable.descending (t.matching claims.tenantId status)).exists_swap hj
  -- from page `j` on the two rows at the cut have changed places
  refine ⟨fun i => if i < j then .stable else .placing _ _ hswap, fun hcovers => ?_⟩
  obtain ⟨items, hitems, hperm⟩ := hcovers
  have hlen : (pre ++ b :: a :: post).length = (t.matching claims.tenantId status).length :=
    hswap.perm.length_eq
  have hstep : ∀ (i : ℕ) (s : Store × ℕ), s.1.db = t ∧ s.2 = 3 * i →
      Ensures (uncachedHost fun i => if i < j then .stable else .placing _ _ hswap).exec
        (handle (uncachedHost fun i => if i < j then .stable else .placing _ _ hswap).state claims
          (.list { offset := ((i * pageSize limit : ℕ) : ℤ), limit, status })) s fun r s' =>
            (s'.1.db = t ∧ s'.2 = 3 * (i + 1)) ∧ ∃ x,
              (x = if i < j then pre ++ a :: b :: post else pre ++ b :: a :: post) ∧
              r = listResponse { offset := ((i * pageSize limit : ℕ) : ℤ), limit, status }
                (pageAt (pageSize limit) i x) (t.matching claims.tenantId status).length := by
    intro i s hs
    refine (uncached_page hstatus hs (Nat.cast_nonneg _)).mono fun r s' hr => ?_
    refine ⟨hr.1, _, rfl, ?_⟩
    rw [hr.2, page_eq_pageAt]
    split
    · rw [hsort]
      rfl
    · rw [RowOrder.placing_sort]
      rfl
  obtain ⟨out, hwalk, hpages⟩ := walk_pages (i := 0) (s := (⟨t, .empty, []⟩, 0)) hstep ⟨rfl, rfl⟩
    (Nat.succ_pos _) (count_le_fuel t claims.tenantId status limit)
  have hwithin : j * pageSize limit < (t.matching claims.tenantId status).length := by
    rw [← hpre, ← hlen]
    simp
  have hout := hpages.eq_of_switch hlen hwithin
  have hj : 0 < j := by
    refine Nat.pos_of_ne_zero fun hzero => ?_
    rw [hzero, Nat.zero_mul] at hpre
    omega
  rw [if_pos hj, Nat.zero_mul, List.drop_zero, ← hpre, List.take_length_add_append,
    ← List.drop_drop, List.drop_left] at hout
  rw [Nat.zero_mul] at hwalk
  obtain rfl : items = out.map .from := Option.some.inj (hitems.symm.trans hwalk)
  have hnodup : out.Nodup :=
    List.Nodup.of_map _ (hperm.nodup_iff.mpr (nodup_matching_from t claims.tenantId status))
  rw [hout] at hnodup
  -- `a` is the last row of one page and the first of the next
  exact (List.nodup_append.mp hnodup).2.2 a (by simp) a (by simp) rfl

/-- **When pagination covers every backup exactly once.** A walk through the
list of a tenant returns each matching row exactly once, whatever order the
rows with equal `created_at` are put in by each of the queries and whatever
page of the list is in the cache, if and only if the status can be asked for
and no page ends inside a group of rows with equal `created_at`. -/
theorem pagination_iff (t : Table) (claims : Claims) (status : Option String) (limit : ℤ) :
    (∀ (host : Host) (config : AppConfig) (s : Store × ℕ), host.Serves config →
      s.1.db = t → CachesPage t config claims.tenantId s.1.redis →
        CoversOnce t host claims status limit s) ↔
      status.all storable = true ∧ ∀ i,
        ¬ Splits Backup.createdAt (t.matching claims.tenantId status) (i * pageSize limit) := by
  have hempty : CachesPage t .default claims.tenantId Redis.empty := fun _ _ h => nomatch h
  constructor
  · intro h
    have hstatus : status.all storable = true := by
      by_contra hunstorable
      rw [Bool.not_eq_true] at hunstorable
      -- the walk ends at its first page, which is an error
      obtain ⟨items, hitems, -⟩ := h (uncachedHost fun _ => .stable) .default (⟨t, .empty, []⟩, 0)
        uncached_serves rfl hempty
      have hfirst : Ensures (uncachedHost fun _ => .stable).exec
          (handle (uncachedHost fun _ => .stable).state claims (.list { offset := 0, limit, status }))
          (⟨t, .empty, []⟩, 0) fun r _ => r = databaseResponse .invalidByteSequence :=
        uncached_unstorable hunstorable
      unfold walk at hitems
      unfold Ensures at hfirst
      generalize (handle (uncachedHost fun _ => .stable).state claims
        (.list { offset := 0, limit, status })).run (uncachedHost fun _ => .stable).exec
          (⟨t, .empty, []⟩, 0) = answer at hitems hfirst
      obtain ⟨r, s'⟩ := answer
      subst hfirst
      cases hitems
    refine ⟨hstatus, fun j hj => ?_⟩
    obtain ⟨orderAt, hnot⟩ := not_coversOnce_of_splits hstatus hj
    exact hnot (h _ .default _ uncached_serves rfl hempty)
  · rintro ⟨hstatus, hk⟩ host config s hserves hdb hcache
    exact coversOnce_of_not_splits hserves ⟨hdb, hcache⟩ hstatus hk

/-! ### Two rows of one instant -/

section Twins

def twin (id : ℕ) : Backup where
  id := ⟨id⟩
  tenantId := ⟨1⟩
  sourcePath := "/data"
  sizeBytes := 0
  status := "pending"
  encryptionEnabled := false
  createdAt := 0
  updatedAt := 0

def twins : Table := ⟨[twin 7, twin 8], by decide, by decide⟩

/-- The second query puts the twins the other way round. -/
def turning : ℕ → RowOrder := fun i =>
  if i < 1 then .stable else .placing [twin 7, twin 8] [twin 8, twin 7] ⟨by decide, by decide⟩

/-- Backup `7` is returned twice, and backup `8` is not. -/
theorem not_pagination :
    (uncachedHost turning).Serves .default ∧
      CachesPage twins .default ⟨1⟩ Redis.empty ∧
      ¬ CoversOnce twins (uncachedHost turning) ⟨"user", ⟨1⟩, [], 0, 0⟩ none 1
        (⟨twins, .empty, []⟩, 0) := by
  refine ⟨uncached_serves, fun _ _ h => (nomatch h), fun hcovers => ?_⟩
  obtain ⟨items, hitems, hperm⟩ := hcovers
  have hwalk : walk (uncachedHost turning) ⟨"user", ⟨1⟩, [], 0, 0⟩ none 1 3 0
      (⟨twins, .empty, []⟩, 0) = some [.from (twin 7), .from (twin 7)] := by
    decide +kernel
  obtain rfl := Option.some.inj (hitems.symm.trans hwalk)
  exact absurd hperm (by decide)

end Twins

end BackupService
