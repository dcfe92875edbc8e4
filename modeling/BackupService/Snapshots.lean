import BackupService.Coherence
import BackupService.ListPages
import BackupService.Staleness

/-!
What a list request makes of its two statements.

`list_backups` selects a page and counts the rows in two statements that are
executed one by one, each on the table as it is at that moment. `Listing`
follows a list request from operation to operation, and the invariant of
whole runs says when the two statements have been executed that its answer
is made of, and that the page it caches is made of.
-/

namespace BackupService

open Lib

abbrev ListParams.selectPage (params : ListParams) (tenantId : Uuid) : Sql :=
  .selectBackups tenantId params.status (clamp params.limit 1 100) (max params.offset 0)

abbrev ListParams.countRows (params : ListParams) (tenantId : Uuid) : Sql :=
  .countBackups tenantId params.status

/-- The items are the page that is asked for, in one of the orders that the
server may give it. -/
def Table.ShowsPage (t : Table) (params : ListParams) (tenantId : Uuid) (items : List Backup) : Prop :=
  ∃ order, items = t.page order tenantId params.status (clamp params.limit 1 100) (max params.offset 0)

/-- The number of rows says how long the page is. -/
theorem Table.ShowsPage.length_eq {t : Table} {params : ListParams} {tenantId : Uuid}
    {items : List Backup} (h : t.ShowsPage params tenantId items) :
    (items.length : ℤ) = min (clamp params.limit 1 100)
      (max 0 (t.count tenantId params.status - max params.offset 0)) := by
  obtain ⟨order, rfl⟩ := h
  have hlimit := one_le_clamp params.limit
  have hcount : t.count tenantId params.status = (t.matching tenantId params.status).length := rfl
  rw [Table.page, window, List.length_take, List.length_drop, (order.perm _).length_eq, hcount]
  omega

/-! ### One request -/

/-- What a list request has come to. -/
inductive Listing
  | start
  /-- It has found a page in the cache. -/
  | hit (rows : List Backup) (total : ℤ)
  | failed (e : SqlError)
  /-- It has selected a page. -/
  | items (rows : List Backup)
  /-- It has selected a page, and counted the rows. -/
  | page (rows : List Backup) (total : ℤ)

namespace Listing

def afterSql (d : Listing) : (q : Sql) → Except SqlError q.Answer → Listing
  | _, .error e => .failed e
  | .selectBackups _ _ _ _, .ok rows => .items rows
  | .countBackups _ _, .ok total =>
      match d with
      | .items rows => .page rows total
      | _ => d
  | _, .ok _ => d

def afterGet (d : Listing) (r : Except RedisError (Option CacheValue)) : Listing :=
  match cachedPage r with
  | some (rows, total) => .hit rows total
  | none => d

def after (d : Listing) : (o : Op) → o.Answer → Listing
  | .sql q, r => d.afterSql q r
  | .redis (.get _), r => d.afterGet r
  | _, _ => d

/-- The response is that of what the request has come to. -/
def Final (params : ListParams) : Listing → Response → Prop
  | hit rows total, r => r = listResponse params rows total
  | failed e, r => r = databaseResponse e
  | page rows total, r => r = listResponse params rows total
  | _, _ => False

end Listing

/-- A list request looks into the cache, selects the page, counts the rows,
and caches what it has read. -/
def listing (tenantId : Uuid) (params : ListParams) : Program.Protocol Op Op.Answer Listing where
  allow d
    | .sql q => d = .start ∧ q = params.selectPage tenantId ∨
        (∃ items, d = .items items) ∧ q = params.countRows tenantId
    | .redis (.get key) => d = .start ∧ key = .tenantBackups tenantId
    | .redis (.setEx key value _) => ∃ items total, d = .page items total ∧
        key = .tenantBackups tenantId ∧ value = .page items total
    | .redis (.del _) => False
    | .config => True
    | .entropy _ => True
    | .publish _ => False
  rely _ _ _ := True
  next d o r := d.after o r

section Handler

open Program

variable {state : AppState} {claims : Claims}

theorem listAfterLookup_listing (params : ListParams) (cfg : AppConfig) :
    Obeys (listing claims.tenantId params) (Listing.Final params) .start
      (listAfterLookup state claims params cfg none) := by
  refine obeys_query.mpr ⟨.inl ⟨rfl, rfl⟩, fun r _ => ?_⟩
  cases r with
  | error e => exact rfl
  | ok items =>
      refine obeys_query.mpr ⟨.inr ⟨⟨items, rfl⟩, rfl⟩, fun r _ => ?_⟩
      cases r with
      | error e => exact rfl
      | ok total =>
          have hfinal : Listing.Final params (.page items total) (listResponse params items total) :=
            rfl
          dsimp only
          split
          · refine obeys_bind.mpr (state.cache.obeys_setTenantBackups (fun _ => ?_) fun _ => hfinal)
            exact ⟨trivial, fun _ _ => ⟨⟨items, total, rfl, rfl, rfl⟩, fun _ _ => hfinal⟩⟩
          · exact hfinal

/-- **Every list request keeps to the protocol.** -/
theorem handle_listing (state : AppState) (claims : Claims) (params : ListParams) :
    Obeys (listing claims.tenantId params) (Listing.Final params) .start
      (handle state claims (.list params)) := by
  rw [handle_list]
  refine obeys_readConfig.mpr ⟨trivial, fun cfg _ => ?_⟩
  split
  · refine obeys_bind.mpr (state.cache.obeys_getTenantBackups (fun _ => ⟨⟨rfl, rfl⟩, fun r _ => ?_⟩)
      fun _ => listAfterLookup_listing params cfg)
    show Obeys _ _ (Listing.start.afterGet r) _
    unfold Listing.afterGet
    cases cachedPage r with
    | none => exact listAfterLookup_listing params cfg
    | some page => exact rfl
  · exact listAfterLookup_listing params cfg

end Handler

/-! ### While a request is in flight -/

section Meanwhile

variable (uuid : UuidParser) (s : State) (es : List Event) (id : ReqId)

/-- After the events `p` the request is in flight that is in flight as `id`
after the events `es`. -/
def Meanwhile (p : List Event) : Prop :=
  ∃ post, es = p ++ post ∧
    (system uuid).Along (fun t _ => (t.inflight id).isSome = true) (stateAfter uuid s p) post

/-- After the events `p` that request has performed the operation, with that
answer. -/
structure Performed (p : List Event) (o : Op) (r : o.Answer) : Prop where
  meanwhile : Meanwhile uuid s es id p
  event : ∃ env, p ++ [.step id env] <+: es ∧
    .performed id o r ∈ ((system uuid).step (stateAfter uuid s p) (.step id env)).2

/-- The pair is a picture of one state of the database during the request. -/
def Snapshot (params : ListParams) (items : List Backup) (total : ℤ) : Prop :=
  ∃ p, Meanwhile uuid s es id p ∧
    (stateAfter uuid s p).store.db.ShowsPage params id.tenant items ∧
    total = (stateAfter uuid s p).store.db.count id.tenant params.status

/-- No event between changes how many rows of the tenant match. -/
def Undisturbed (tenantId : Uuid) (status : Option String) (p q : List Event) : Prop :=
  ∀ m e, p <+: m → m ++ [e] <+: q →
    (stateAfter uuid s (m ++ [e])).store.db.count tenantId status =
      (stateAfter uuid s m).store.db.count tenantId status

/-- The list request in flight as `id` has selected the items after the
events `p`, and has counted the rows later, after the events `q`. It has
cached nothing but the two. -/
structure ReadInTurn (params : ListParams) (items : List Backup) (total : ℤ) (p q : List Event) :
    Prop where
  selected : Performed uuid s es id p (.sql (params.selectPage id.tenant)) (.ok items)
  counted : Performed uuid s es id q (.sql (params.countRows id.tenant)) (.ok total)
  later : p.length < q.length
  page : (stateAfter uuid s p).store.db.ShowsPage params id.tenant items
  count : total = (stateAfter uuid s q).store.db.count id.tenant params.status
  cached : ∀ m key value ttl r, Performed uuid s es id m (.redis (.setEx key value ttl)) r →
    key = .tenantBackups id.tenant ∧ value = .page items total

end Meanwhile

section Events

variable {uuid : UuidParser} {s : State} {es : List Event} {id : ReqId} {p q : List Event} {e : Event}

theorem Meanwhile.concat (h : Meanwhile uuid s es id p)
    (hlive : ((stateAfter uuid s es).inflight id).isSome = true) :
    Meanwhile uuid s (es ++ [e]) id p := by
  obtain ⟨post, rfl, hpost⟩ := h
  refine ⟨post ++ [e], List.append_assoc .., Machine.along_append.mpr ⟨hpost, ?_, trivial⟩⟩
  rw [← Machine.run_append]
  exact hlive

theorem Performed.concat {o : Op} {r : o.Answer} (h : Performed uuid s es id p o r)
    (hlive : ((stateAfter uuid s es).inflight id).isSome = true) :
    Performed uuid s (es ++ [e]) id p o r := by
  obtain ⟨env, hpre, hobs⟩ := h.event
  exact ⟨h.meanwhile.concat hlive, env, hpre.trans (List.prefix_append _ _), hobs⟩

/-- What has been performed has been performed before, or by the last event. -/
theorem Performed.of_concat {o : Op} {r : o.Answer} (h : Performed uuid s (es ++ [e]) id p o r) :
    ((stateAfter uuid s es).inflight id).isSome = true ∧ (Performed uuid s es id p o r ∨
      ∃ env, e = .step id env ∧ .performed id o r ∈ ((system uuid).step (stateAfter uuid s es) e).2) := by
  obtain ⟨⟨post, heq, hpost⟩, env, hpre, hobs⟩ := h
  rcases List.prefix_concat_iff.mp hpre with hlast | hbefore
  · obtain ⟨rfl, hevent⟩ := List.append_inj' hlast rfl
    obtain rfl := (List.cons.inj hevent).1
    obtain rfl := List.append_cancel_left heq
    exact ⟨hpost.1, .inr ⟨env, rfl, hobs⟩⟩
  · obtain ⟨rest, hrest⟩ := (List.prefix_append p [.step id env]).trans hbefore
    rw [← hrest, List.append_assoc] at heq
    obtain rfl := List.append_cancel_left heq
    obtain ⟨hpost, hlive, -⟩ := Machine.along_append.mp hpost
    rw [← Machine.run_append, hrest] at hlive
    exact ⟨hlive, .inl ⟨⟨rest, hrest.symm, hpost⟩, env, hbefore, hobs⟩⟩

theorem performed_now {th : Thread} {env : Env} {o : Op} {k : o.Answer → Action Response}
    (hth : (stateAfter uuid s es).inflight id = some th) (hprog : th.prog = .op o k) :
    Performed uuid s (es ++ [.step id env]) id es o ((stateAfter uuid s es).exec th env o).1 := by
  refine ⟨⟨[.step id env], rfl, ?_, trivial⟩, env, List.prefix_rfl, ?_⟩
  · show ((stateAfter uuid s es).inflight id).isSome = true
    rw [hth]
    rfl
  · rw [step_step, State.stepThread_op hth hprog]
    exact List.mem_singleton.mpr rfl

/-- An operation that has been performed is one of a thread. -/
theorem Performed.exec {o : Op} {r : o.Answer} (h : Performed uuid s es id p o r) :
    ∃ th env, ((stateAfter uuid s p).exec th env o).1 = r := by
  obtain ⟨env, -, hobs⟩ := h.event
  obtain ⟨env, th, -, -, -, -, hr⟩ := step_performed hobs
  exact ⟨th, env, hr.symm⟩

/-- The page is one of the table at the time. -/
theorem Performed.showsPage {params : ListParams} {items : List Backup}
    (h : Performed uuid s es id p (.sql (params.selectPage id.tenant)) (.ok items)) :
    (stateAfter uuid s p).store.db.ShowsPage params id.tenant items := by
  obtain ⟨th, env, hexec⟩ := h.exec
  exact ⟨env.order, exec_selectBackups_ok _ _ _ _ _ (exec_sql_ok hexec).1⟩

theorem Performed.total_eq {params : ListParams} {total : ℤ}
    (h : Performed uuid s es id q (.sql (params.countRows id.tenant)) (.ok total)) :
    total = (stateAfter uuid s q).store.db.count id.tenant params.status := by
  obtain ⟨th, env, hexec⟩ := h.exec
  exact exec_countBackups_ok _ _ _ _ _ (exec_sql_ok hexec).1

theorem Undisturbed.count_eq {tenantId : Uuid} {status : Option String}
    (h : Undisturbed uuid s tenantId status p q) (hpq : p <+: q) :
    (stateAfter uuid s q).store.db.count tenantId status =
      (stateAfter uuid s p).store.db.count tenantId status := by
  obtain ⟨rest, rfl⟩ := hpq
  induction rest using List.reverseRecOn with
  | nil => rw [List.append_nil]
  | append_singleton rest e ih =>
      rw [← List.append_assoc] at h ⊢
      rw [h (p ++ rest) e (List.prefix_append _ _) List.prefix_rfl]
      exact ih fun m e' hm hm' => h m e' hm (hm'.trans (List.prefix_append _ _))

/-- Nothing has happened in between: the pair is a picture of the table from
which the page was selected. -/
theorem ReadInTurn.snapshot {params : ListParams} {items : List Backup} {total : ℤ}
    (h : ReadInTurn uuid s es id params items total p q)
    (hquiet : Undisturbed uuid s id.tenant params.status p q) :
    Snapshot uuid s es id params items total := by
  obtain ⟨env, hp, -⟩ := h.selected.event
  obtain ⟨env', hq, -⟩ := h.counted.event
  have hpq : p <+: q := List.prefix_of_prefix_length_le ((List.prefix_append _ _).trans hp)
    ((List.prefix_append _ _).trans hq) h.later.le
  refine ⟨p, h.selected.meanwhile, h.page, ?_⟩
  rw [h.count]
  exact hquiet.count_eq hpq

end Events

/-! ### List requests in flight -/

section Followed

variable (uuid : UuidParser) (s : State) (es : List Event) (id : ReqId) (params : ListParams)

/-- What a list request has come to, it has come to by what it has
performed. -/
def Listing.Recorded : Listing → Prop
  | start => True
  | hit rows total => ∃ m, Performed uuid s es id m (.redis (.get (.tenantBackups id.tenant)))
      (.ok (some (.page rows total)))
  | failed _ => True
  | items rows => ∃ p, Performed uuid s es id p (.sql (params.selectPage id.tenant)) (.ok rows)
  | page rows total => ∃ p q, p.length < q.length ∧
      Performed uuid s es id p (.sql (params.selectPage id.tenant)) (.ok rows) ∧
        Performed uuid s es id q (.sql (params.countRows id.tenant)) (.ok total)

/-- The thread is a list request that has come to `d`. -/
structure Thread.Listed (th : Thread) (d : Listing) : Prop where
  obeys : Program.Obeys (listing id.tenant params) (Listing.Final params) d th.prog
  recorded : d.Recorded uuid s es id params
  cached : ∀ m key value ttl r, Performed uuid s es id m (.redis (.setEx key value ttl)) r →
    key = .tenantBackups id.tenant ∧ ∃ rows total, d = .page rows total ∧ value = .page rows total

/-- Every list request in flight is followed. -/
def Listed : Prop :=
  ∀ id th params, (stateAfter uuid s es).inflight id = some th → th.request = .list params →
    ∃ d, th.Listed uuid s es id params d

end Followed

section Steps

variable {uuid : UuidParser} {s : State} {es : List Event} {id : ReqId} {params : ListParams}
  {d : Listing} {th : Thread} {env : Env} {e : Event}

namespace Thread.Listed

theorem allow (h : th.Listed uuid s es id params d) {o : Op} {k : o.Answer → Action Response}
    (hprog : th.prog = .op o k) : (listing id.tenant params).allow d o := by
  have hobeys := h.obeys
  rw [hprog] at hobeys
  exact hobeys.1

theorem final (h : th.Listed uuid s es id params d) {r : Response} (hprog : th.prog = .ret r) :
    d.Final params r := by
  have hobeys := h.obeys
  rw [hprog] at hobeys
  exact hobeys

/-- A page that has been read has been read in turn. -/
theorem readInTurn {rows : List Backup} {total : ℤ}
    (h : th.Listed uuid s es id params (.page rows total)) :
    ∃ p q, ReadInTurn uuid s es id params rows total p q := by
  obtain ⟨p, q, hlater, hp, hq⟩ := h.recorded
  refine ⟨p, q, hp, hq, hlater, hp.showsPage, hq.total_eq, fun m key value ttl r hm => ?_⟩
  obtain ⟨hkey, rows', total', hpage, hvalue⟩ := h.cached m key value ttl r hm
  obtain ⟨rfl, rfl⟩ := Listing.page.inj hpage
  exact ⟨hkey, hvalue⟩

end Thread.Listed

theorem Listing.Recorded.concat (h : d.Recorded uuid s es id params)
    (hlive : ((stateAfter uuid s es).inflight id).isSome = true) :
    d.Recorded uuid s (es ++ [e]) id params := by
  cases d with
  | start => trivial
  | hit rows total =>
      obtain ⟨m, hm⟩ := h
      exact ⟨m, hm.concat hlive⟩
  | failed err => trivial
  | items rows =>
      obtain ⟨p, hp⟩ := h
      exact ⟨p, hp.concat hlive⟩
  | page rows total =>
      obtain ⟨p, q, hlater, hp, hq⟩ := h
      exact ⟨p, q, hlater, hp.concat hlive, hq.concat hlive⟩

/-- An event that is no step of the request leaves it alone, or is its
start. -/
theorem inflight_of_not_step (he : ∀ env, e ≠ .step id env)
    (h : ((system uuid).step s e).1.inflight id = some th) : s.inflight id = some th ∨
      s.inflight id = none ∧ ∃ replica seq claims request oracle,
        id = ⟨claims.tenantId, seq⟩ ∧ th = s.newThread replica claims request oracle := by
  rcases step_inflight h with hold | ⟨replica, seq, claims, request, oracle, rfl, rfl, hnew⟩ |
    ⟨env, _, _, _, rfl, -⟩
  · exact .inl hold
  · cases hfree : s.inflight ⟨claims.tenantId, seq⟩ with
    | none => exact .inr ⟨rfl, replica, seq, claims, request, oracle, rfl, hnew⟩
    | some th' =>
        -- the name is taken, and nothing is started
        rw [step_start, State.start] at h
        simp only [hfree] at h
        exact .inl h
  · exact (he env rfl).elim

/-- What the request has come to after an operation. -/
theorem Listing.Recorded.after {o : Op} {k : o.Answer → Action Response}
    (hth : (stateAfter uuid s es).inflight id = some th) (hprog : th.prog = .op o k)
    (hallow : (listing id.tenant params).allow d o) (h : d.Recorded uuid s es id params) :
    (d.after o ((stateAfter uuid s es).exec th env o).1).Recorded uuid s (es ++ [.step id env]) id
      params := by
  have hlive : ((stateAfter uuid s es).inflight id).isSome = true := by
    rw [hth]
    rfl
  have hnow := @performed_now uuid s es id th env o k hth hprog
  have hold := @Listing.Recorded.concat uuid s es id params d (.step id env) h hlive
  cases o with
  | sql q =>
      rcases hallow with ⟨rfl, rfl⟩ | ⟨⟨rows, rfl⟩, rfl⟩
      · rcases hr : ((stateAfter uuid s es).exec th env (.sql (params.selectPage id.tenant))).1 with
          err | rows
        · trivial
        · rw [hr] at hnow
          exact ⟨es, hnow⟩
      · rcases hr : ((stateAfter uuid s es).exec th env (.sql (params.countRows id.tenant))).1 with
          err | total
        · trivial
        · rw [hr] at hnow
          -- the page was selected by an earlier step than this one
          obtain ⟨p, hp⟩ := h
          obtain ⟨env', hpre, -⟩ := hp.event
          have hlength := hpre.length_le
          rw [List.length_append, List.length_singleton] at hlength
          exact ⟨p, es, by omega, hp.concat hlive, hnow⟩
  | redis c =>
      cases c with
      | get key =>
          obtain ⟨rfl, rfl⟩ := hallow
          rcases hr : ((stateAfter uuid s es).exec th env
            (.redis (.get (.tenantBackups id.tenant)))).1 with err | v
          · trivial
          · rw [hr] at hnow
            show (Listing.start.afterGet (.ok v)).Recorded uuid s _ id params
            unfold Listing.afterGet
            cases hpage : cachedPage (.ok v) with
            | none => trivial
            | some page =>
                rw [cachedPage_ok.mp hpage] at hnow
                exact ⟨es, hnow⟩
      | setEx key value ttl => exact hold
      | del key => exact hallow.elim
  | config | entropy => exact hold
  | publish job => exact hallow.elim

/-- A request that has read a page goes on to cache it, and does nothing
else. -/
theorem after_page {rows : List Backup} {total : ℤ} {tenantId : Uuid} {o : Op}
    (hallow : (listing tenantId params).allow (.page rows total) o) (r : o.Answer) :
    (Listing.page rows total).after o r = .page rows total := by
  cases o with
  | sql q => rcases hallow with ⟨hstart, -⟩ | ⟨⟨_, hitems⟩, -⟩ <;> contradiction
  | redis c =>
      cases c with
      | get key => exact nomatch hallow.1
      | setEx key value ttl => rfl
      | del key => exact hallow.elim
  | config | entropy => rfl
  | publish job => exact hallow.elim

/-- A step of the request itself. -/
theorem Thread.Listed.step {o : Op} {k : o.Answer → Action Response}
    (hth : (stateAfter uuid s es).inflight id = some th) (hprog : th.prog = .op o k)
    (h : th.Listed uuid s es id params d) :
    Thread.Listed uuid s (es ++ [.step id env]) id params
      { th with prog := k ((stateAfter uuid s es).exec th env o).1 }
      (d.after o ((stateAfter uuid s es).exec th env o).1) := by
  obtain ⟨hobeys, hrecorded, hcached⟩ := h
  rw [hprog] at hobeys
  obtain ⟨hallow, hrest⟩ := hobeys
  refine ⟨hrest _ trivial, hrecorded.after hth hprog hallow, fun m key value ttl r hm => ?_⟩
  obtain ⟨-, hbefore | ⟨env', hevent, hobs⟩⟩ := hm.of_concat
  · obtain ⟨hkey, rows, total, rfl, hvalue⟩ := hcached m key value ttl r hbefore
    exact ⟨hkey, rows, total, after_page hallow _, hvalue⟩
  · rw [step_step, State.stepThread_op hth hprog, List.mem_singleton] at hobs
    cases hobs
    obtain ⟨rows, total, rfl, hkey, hvalue⟩ := hallow
    exact ⟨hkey, rows, total, rfl, hvalue⟩

/-- Any other event. -/
theorem Thread.Listed.concat (he : ∀ env, e ≠ .step id env)
    (hth : (stateAfter uuid s es).inflight id = some th) (h : th.Listed uuid s es id params d) :
    th.Listed uuid s (es ++ [e]) id params d := by
  have hlive : ((stateAfter uuid s es).inflight id).isSome = true := by
    rw [hth]
    rfl
  refine ⟨h.obeys, h.recorded.concat hlive, fun m key value ttl r hm => ?_⟩
  obtain ⟨-, hbefore | ⟨env, rfl, -⟩⟩ := hm.of_concat
  · exact h.cached m key value ttl r hbefore
  · exact (he env rfl).elim

/-- A request that has just been received has performed nothing. -/
theorem listed_newThread (t : State) (replica seq : ℕ) (claims : Claims) (oracle : Oracle)
    (hfree : (stateAfter uuid s es).inflight ⟨claims.tenantId, seq⟩ = none) :
    (t.newThread replica claims (.list params) oracle).Listed uuid s (es ++ [e])
      ⟨claims.tenantId, seq⟩ params .start := by
  refine ⟨handle_listing _ claims params, trivial, fun m key value ttl r hm => ?_⟩
  have hlive := hm.of_concat.1
  rw [hfree] at hlive
  cases hlive

theorem Listed.step (h : Listed uuid s es) : Listed uuid s (es ++ [e]) := by
  intro id th params hth hrequest
  rw [stateAfter_concat] at hth
  by_cases he : ∃ env, e = .step id env
  · obtain ⟨env, rfl⟩ := he
    rw [step_step] at hth
    cases hold : (stateAfter uuid s es).inflight id with
    | none =>
        rw [State.stepThread_none hold, hold] at hth
        cases hth
    | some th₀ =>
        cases hprog : th₀.prog with
        | ret response =>
            rw [State.stepThread_ret hold hprog, State.setThread_inflight_self] at hth
            cases hth
        | op o k =>
            rw [State.stepThread_op hold hprog, State.setThread_inflight_self] at hth
            obtain rfl := Option.some.inj hth
            obtain ⟨d, hd⟩ := h id th₀ params hold hrequest
            exact ⟨_, hd.step hold hprog⟩
  · have he' : ∀ env, e ≠ .step id env := fun env heq => he ⟨env, heq⟩
    rcases inflight_of_not_step he' hth with hold | ⟨hfree, replica, seq, claims, request, oracle,
      rfl, rfl⟩
    · obtain ⟨d, hd⟩ := h id th params hold hrequest
      exact ⟨d, hd.concat he' hold⟩
    · obtain rfl : request = .list params := hrequest
      exact ⟨.start, listed_newThread _ replica seq claims oracle hfree⟩

end Steps

/-! ### Runs -/

section Runs

variable (uuid : UuidParser) (db : Table) (replicas : ℕ → Replica)

theorem run_listed (es : List Event) : Listed uuid (.initial db replicas) es := by
  induction es using List.reverseRecOn with
  | nil => exact fun _ _ _ h => nomatch h
  | append_singleton es e ih => exact ih.step

/-- **List requests read in turn.** A list response is that of a database
error, or it is the page that the request has found in the cache, or it is
made of the page of one state of the database and of the number of matching
rows in a later one. So is what a list request caches, and that is what it
responds. If the number of matching rows has not changed in between, the
pair is a picture of one state. -/
theorem list_reads_in_turn (es : List Event) (e : Event) (id : ReqId) (params : ListParams) :
    (∀ r, .responded id (.list params) r ∈
        ((system uuid).step (stateAfter uuid (.initial db replicas) es) e).2 →
      (∃ err, r = databaseResponse err) ∨
      (∃ m rows total, r = listResponse params rows total ∧
        Performed uuid (.initial db replicas) es id m
          (.redis (.get (.tenantBackups id.tenant))) (.ok (some (.page rows total)))) ∨
      ∃ p q rows total, r = listResponse params rows total ∧
        ReadInTurn uuid (.initial db replicas) es id params rows total p q ∧
        (Undisturbed uuid (.initial db replicas) id.tenant params.status p q →
          Snapshot uuid (.initial db replicas) es id params rows total)) ∧
    ∀ th key value ttl answer,
      (stateAfter uuid (.initial db replicas) es).inflight id = some th →
      th.request = .list params →
      .performed id (.redis (.setEx key value ttl)) answer ∈
        ((system uuid).step (stateAfter uuid (.initial db replicas) es) e).2 →
      key = .tenantBackups id.tenant ∧ ∃ p q rows total, value = .page rows total ∧
        ReadInTurn uuid (.initial db replicas) es id params rows total p q ∧
        (Undisturbed uuid (.initial db replicas) id.tenant params.status p q →
          Snapshot uuid (.initial db replicas) es id params rows total) := by
  have hlisted := run_listed uuid db replicas es
  constructor
  · intro r hobs
    obtain ⟨env, th, rfl, hth, hrequest, hprog⟩ := step_responded hobs
    obtain ⟨d, hd⟩ := hlisted id th params hth hrequest
    have hfinal := hd.final hprog
    cases d with
    | start => exact hfinal.elim
    | hit rows total =>
        obtain ⟨m, hm⟩ := hd.recorded
        exact .inr (.inl ⟨m, rows, total, hfinal, hm⟩)
    | failed err => exact .inl ⟨err, hfinal⟩
    | items rows => exact hfinal.elim
    | page rows total =>
        obtain ⟨p, q, hread⟩ := hd.readInTurn
        exact .inr (.inr ⟨p, q, rows, total, hfinal, hread, hread.snapshot⟩)
  · intro th key value ttl answer hth hrequest hobs
    obtain ⟨env, th', k, -, hth', hprog, -⟩ := step_performed hobs
    obtain rfl := Option.some.inj (hth'.symm.trans hth)
    obtain ⟨d, hd⟩ := hlisted id th' params hth hrequest
    obtain ⟨rows, total, rfl, hkey, hvalue⟩ := hd.allow hprog
    obtain ⟨p, q, hread⟩ := hd.readInTurn
    exact ⟨hkey, p, q, rows, total, hvalue, hread, hread.snapshot⟩

end Runs

/-! ### A mixture -/

section Mixture

/-- A list request selects its page from the empty table; a row is created;
then it counts the rows, and caches what it has read. -/
def mixedEvents : List Event :=
  begin 0 (.list ⟨0, 20, none⟩) :: steps 0 3 ++ begin 1 (.create ⟨"/data", false⟩) :: steps 1 1 ++
    steps 0 3

def emptyState : State := .initial .empty fun _ => ⟨⟨.connected, true⟩, .default⟩

theorem responded_mixedEvents : .responded ⟨⟨1⟩, 0⟩ (.list ⟨0, 20, none⟩)
    (listResponse ⟨0, 20, none⟩ [] 1) ∈
      ((system .hyphenated).step (stateAfter .hyphenated emptyState mixedEvents)
        (.step ⟨⟨1⟩, 0⟩ {})).2 :=
  List.mem_singleton.mpr rfl

theorem list_reads_in_turn_mixedEvents :
    (∃ err, listResponse ⟨0, 20, none⟩ [] 1 = databaseResponse err) ∨
    (∃ m rows total, listResponse ⟨0, 20, none⟩ [] 1 = listResponse ⟨0, 20, none⟩ rows total ∧
      Performed .hyphenated emptyState mixedEvents ⟨⟨1⟩, 0⟩ m
        (.redis (.get (.tenantBackups ⟨1⟩))) (.ok (some (.page rows total)))) ∨
    ∃ p q rows total, listResponse ⟨0, 20, none⟩ [] 1 = listResponse ⟨0, 20, none⟩ rows total ∧
      ReadInTurn .hyphenated emptyState mixedEvents ⟨⟨1⟩, 0⟩ ⟨0, 20, none⟩ rows total p q ∧
      (Undisturbed .hyphenated emptyState ⟨1⟩ none p q →
        Snapshot .hyphenated emptyState mixedEvents ⟨⟨1⟩, 0⟩ ⟨0, 20, none⟩ rows total) :=
  (list_reads_in_turn .hyphenated .empty (fun _ => ⟨⟨.connected, true⟩, .default⟩) mixedEvents
    (.step ⟨⟨1⟩, 0⟩ {}) ⟨⟨1⟩, 0⟩ ⟨0, 20, none⟩).1 _ responded_mixedEvents

/-- The response shows no row and a total of one, and so does the page that
is cached. No state of the database during the request is like that. -/
theorem not_list_snapshot :
    ((stateAfter .hyphenated emptyState mixedEvents).store.redis (.tenantBackups ⟨1⟩)).map
      Entry.value = some (.page [] 1) ∧
    ¬ ∀ (uuid : UuidParser) (db : Table) (replicas : ℕ → Replica) (es : List Event) (e : Event)
      (id : ReqId) (params : ListParams) (items : List Backup) (total : ℤ) (p q : List Event),
      .responded id (.list params) (listResponse params items total) ∈
        ((system uuid).step (stateAfter uuid (.initial db replicas) es) e).2 →
      Performed uuid (.initial db replicas) es id p (.sql (params.selectPage id.tenant)) (.ok items) →
      Performed uuid (.initial db replicas) es id q (.sql (params.countRows id.tenant)) (.ok total) →
      Snapshot uuid (.initial db replicas) es id params items total := by
  refine ⟨rfl, fun h => ?_⟩
  have hselected : Performed .hyphenated emptyState mixedEvents ⟨⟨1⟩, 0⟩ (mixedEvents.take 3)
      (.sql (ListParams.selectPage ⟨0, 20, none⟩ ⟨1⟩)) (.ok []) := by
    refine ⟨⟨mixedEvents.drop 3, rfl, ?_⟩, {}, ⟨mixedEvents.drop 4, rfl⟩,
      List.mem_singleton.mpr rfl⟩
    exact ⟨rfl, rfl, rfl, rfl, rfl, rfl, trivial⟩
  have hcounted : Performed .hyphenated emptyState mixedEvents ⟨⟨1⟩, 0⟩ (mixedEvents.take 6)
      (.sql (ListParams.countRows ⟨0, 20, none⟩ ⟨1⟩)) (.ok (1 : ℤ)) := by
    refine ⟨⟨mixedEvents.drop 6, rfl, ?_⟩, {}, ⟨mixedEvents.drop 7, rfl⟩,
      List.mem_singleton.mpr rfl⟩
    exact ⟨rfl, rfl, rfl, trivial⟩
  obtain ⟨m, -, hpage, hcount⟩ := h .hyphenated .empty (fun _ => ⟨⟨.connected, true⟩, .default⟩)
    mixedEvents (.step ⟨⟨1⟩, 0⟩ {}) ⟨⟨1⟩, 0⟩ ⟨0, 20, none⟩ [] 1 _ _ responded_mixedEvents hselected
    hcounted
  have hlength := hpage.length_eq
  rw [← hcount] at hlength
  exact absurd hlength (by decide)

end Mixture

end BackupService
