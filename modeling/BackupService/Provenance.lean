import BackupService.Statements
import BackupService.System

/-!
Where the data comes from that a handler caches or shows.

The bookkeeping of `tracked` follows a handler from operation to operation:
what it has in its hands (`Copy`), and which keys it still has to delete
because it has changed what they stand for. The protocol says that nothing
is cached but a row or a page in exactly the form in which the database
returned it, that the handler accesses the database only while it owes no
deletion, and that at the end it owes none and shows what it holds.

Nothing is said here about other handlers. The invariants of whole runs are
built on top: what holds for the copies in all hands, and in Redis.
-/

namespace BackupService

open Lib

/-- What a handler has in its hands. -/
inductive Copy
  | nothing
  /-- A row, as a statement returned it. -/
  | row (b : Backup)
  /-- A page whose rows have not been counted yet. -/
  | items (tenantId : Uuid) (status : Option String) (limit offset : ℤ) (rows : List Backup)
  | page (tenantId : Uuid) (status : Option String) (limit offset : ℤ) (rows : List Backup)
      (total : ℤ)
  /-- A live entry of Redis. -/
  | hit (key : Key) (value : CacheValue)

structure Phase where
  copy : Copy
  /-- The keys that are still to be deleted. -/
  owed : List Key

def Phase.start : Phase := ⟨.nothing, []⟩

def Copy.count (total : ℤ) : Copy → Copy
  | items tenantId status limit offset rows => page tenantId status limit offset rows total
  | c => c

namespace Phase

/-- After a statement. -/
def afterSql (g : Phase) : (s : Sql) → Except SqlError s.Answer → Phase
  | _, .error _ => g
  | .insertBackup tenantId _ _, .ok b => ⟨.row b, [.tenantBackups tenantId]⟩
  | .selectBackup _ _, .ok answer =>
      match (show Option Backup from answer) with
      | some b => ⟨.row b, g.owed⟩
      | none => g
  | .selectBackups tenantId status limit offset, .ok items =>
      ⟨.items tenantId status limit offset items, g.owed⟩
  | .countBackups _ _, .ok total => ⟨g.copy.count total, g.owed⟩
  | .updateBackup id tenantId _ _, .ok answer =>
      match (show Option Backup from answer) with
      | some b => ⟨.row b, [.backup id, .tenantBackups tenantId]⟩
      | none => g
  | .deleteBackup id tenantId, .ok rowsAffected =>
      if (show ℕ from rowsAffected) = 0 then g
      else ⟨.nothing, [.backup id, .tenantBackups tenantId]⟩
  | .setStatus _ _, .ok _ => g
  | .setCompleted _ _, .ok _ => g
  | .setFailed _, .ok _ => g

def afterRedis (g : Phase) : (c : RedisCommand) → Except RedisError c.Answer → Phase
  | .get key, .ok answer =>
      match (show Option CacheValue from answer) with
      | some value => ⟨.hit key value, g.owed⟩
      | none => g
  | .get _, .error _ => g
  | .setEx _ _ _, _ => g
  | .del key, _ => ⟨g.copy, g.owed.erase key⟩

def after (g : Phase) : (o : Op) → o.Answer → Phase
  | .sql s, r => g.afterSql s r
  | .redis c, r => g.afterRedis c r
  | .config, _ => g
  | .publish _, _ => g
  | .entropy _, _ => g

end Phase

/-- What a copy is to a list request: the page it asks for, counted. -/
def Copy.Answers (claims : Claims) (params : ListParams) (c : Copy) (items : List Backup)
    (total : ℤ) : Prop :=
  c = .page claims.tenantId params.status (clamp params.limit 1 100) (max params.offset 0) items total

/-- What a request may cache. -/
def Copy.CachedAs (claims : Claims) (request : Request) (cfg : AppConfig) (c : Copy) :
    Key → CacheValue → Prop
  | .backup id, value => ∃ b, c = .row b ∧ b.id = id ∧ value = .backup b
  | .tenantBackups tenantId, value => ∃ params items total, request = .list params ∧
      tenantId = claims.tenantId ∧ useListCache params cfg = true ∧
        c.Answers claims params items total ∧ value = .page items total

/-- The statement is one of the handlers', in the name of the tenant. -/
def Sql.OnBehalfOf (tenantId : Uuid) : Sql → Prop
  | insertBackup t _ _ => t = tenantId
  | selectBackup _ t => t = tenantId
  | selectBackups t _ _ _ => t = tenantId
  | countBackups t _ => t = tenantId
  | updateBackup _ t _ _ => t = tenantId
  | deleteBackup _ t => t = tenantId
  | setStatus _ _ => False
  | setCompleted _ _ => False
  | setFailed _ => False

/-- The copy is not from the database. -/
def Copy.Unread : Copy → Prop
  | nothing => True
  | hit _ _ => True
  | row _ => False
  | items _ _ _ _ _ => False
  | page _ _ _ _ _ _ => False

/-- The database is asked once, for a page in two statements, and not by a
handler that still owes a deletion. -/
def Phase.MayQuery (g : Phase) (s : Sql) : Prop :=
  g.owed = [] ∧ match s with
    | .countBackups tenantId status => ∃ limit offset rows,
        g.copy = .items tenantId status limit offset rows
    | _ => g.copy.Unread

/-- How a handler treats what it has read. `R` restricts the configurations
it may be given. -/
def tracked (claims : Claims) (request : Request) (R : AppConfig → Prop) :
    Program.Protocol Op Op.Answer Phase where
  allow g
    | .sql s => g.MayQuery s ∧ s.OnBehalfOf claims.tenantId
    | .redis (.get _) => True
    | .redis (.setEx key value ttl) => g.owed = [] ∧ ∃ cfg cfg', R cfg ∧ R cfg' ∧
        ttl = cfg'.cacheTtlSecs ∧ g.copy.CachedAs claims request cfg key value
    | .redis (.del key) => key ∈ g.owed
    | .config => True
    | .entropy _ => True
    | .publish _ => True
  rely _
    | .sql (.selectBackup id tenantId), r => ∀ b,
        (show Except SqlError (Option Backup) from r) = .ok (some b) →
          b.id = id ∧ b.tenantId = tenantId
    | .config, cfg => R cfg
    | _, _ => True
  next g o r := g.after o r

/-- The response is that of an error, or it shows what the handler holds. -/
def Copy.ShownBy (claims : Claims) (c : Copy) : Request → Response → Prop
  | .get id, r => (∃ e : AppError, r = e.intoResponse) ∨ ∃ b, r = ⟨200, .backup (.from b)⟩ ∧
      b.tenantId = claims.tenantId ∧ (c = .row b ∧ b.id = id ∨ c = .hit (.backup id) (.backup b))
  | .list params, r => (∃ e : AppError, r = e.intoResponse) ∨ ∃ items total,
      r = listResponse params items total ∧ (c.Answers claims params items total ∨
        params.status = none ∧ c = .hit (.tenantBackups claims.tenantId) (.page items total))
  | _, r => (∃ e : AppError, r = e.intoResponse) ∨
      ∀ x, r.body = .backup x → ∃ b, c = .row b ∧ { x with entropy := none } = .from b

theorem Copy.shownBy_error (claims : Claims) (c : Copy) (request : Request) (e : AppError) :
    c.ShownBy claims request e.intoResponse := by
  cases request <;> exact .inl ⟨e, rfl⟩

/-- What holds at the end. A handler without a connection deletes nothing. -/
def Phase.Final (claims : Claims) (request : Request) (cached : Bool) (g : Phase) (r : Response) :
    Prop :=
  (cached = true → g.owed = []) ∧ g.copy.ShownBy claims request r

/-! ### Every handler keeps track -/

section Cache

open CacheLayer

variable {claims : Claims} {request : Request} {R : AppConfig → Prop} {g : Phase}
  {Q : Phase → Unit → Prop}

theorem maySet_tracked {key : Key} {value : CacheValue} (howed : g.owed = [])
    (hcopy : ∀ cfg', R cfg' → ∃ cfg, R cfg ∧ g.copy.CachedAs claims request cfg key value)
    (hQ : Q g ()) : MaySet (tracked claims request R) Q g key value := by
  refine ⟨trivial, fun cfg' hcfg' => ⟨⟨howed, ?_⟩, fun _ _ => hQ⟩⟩
  obtain ⟨cfg, hcfg, hcopy⟩ := hcopy cfg' hcfg'
  exact ⟨cfg, cfg', hcfg, hcfg', rfl, hcopy⟩

theorem mayDelete_tracked {key : Key} (hkey : key ∈ g.owed) (hQ : Q ⟨g.copy, g.owed.erase key⟩ ()) :
    MayDelete (tracked claims request R) Q g key :=
  ⟨hkey, fun _ _ => hQ⟩

section Debts

variable {cache : CacheLayer} {cached : Bool} (hcached : cached = true → cache.redis = true)
  {c : Copy} {response : Response} (hshown : c.ShownBy claims request response)

include hcached hshown

/-- Without a connection nothing is owed in the end. -/
theorem final_of_disconnected (hredis : cache.redis = false) (owed : List Key) :
    Phase.Final claims request cached ⟨c, owed⟩ response := by
  refine ⟨fun h => ?_, hshown⟩
  have htrue := hcached h
  rw [hredis] at htrue
  cases htrue

/-- A handler pays what it owes to its tenant's page. -/
theorem invalidateTenantBackups_tracked :
    Program.Obeys (tracked claims request R) (Phase.Final claims request cached)
      ⟨c, [.tenantBackups claims.tenantId]⟩ (do
        cache.invalidateTenantBackups claims.tenantId
        return response) :=
  Program.obeys_bind.mpr (cache.obeys_invalidateTenantBackups
    (fun _ => mayDelete_tracked List.mem_cons_self ⟨fun _ => by simp, hshown⟩)
    fun hredis => final_of_disconnected hcached hshown hredis _)

/-- A handler that has changed a row pays what it owes. -/
theorem invalidate_tracked {id : Uuid} :
    Program.Obeys (tracked claims request R) (Phase.Final claims request cached)
      ⟨c, [.backup id, .tenantBackups claims.tenantId]⟩ (do
        cache.invalidateBackup id
        cache.invalidateTenantBackups claims.tenantId
        return response) := by
  refine Program.obeys_bind.mpr (cache.obeys_invalidateBackup (fun hredis =>
    mayDelete_tracked List.mem_cons_self ?_) fun hredis => ?_)
  · rw [List.erase_cons_head]
    exact invalidateTenantBackups_tracked hcached hshown
  · refine Program.obeys_bind.mpr (cache.obeys_invalidateTenantBackups (fun hredis' => ?_)
      fun _ => final_of_disconnected hcached hshown hredis _)
    rw [hredis] at hredis'
    cases hredis'

end Debts

end Cache

section Handlers

variable {R : AppConfig → Prop} {cached : Bool} {state : AppState} {claims : Claims} {g : Phase}

theorem getAfterLookup_tracked (id : Uuid) (howed : g.owed = []) (hunread : g.copy.Unread) {copy : Option Backup}
    (hcopy : ∀ b, copy = some b →
      b.tenantId = claims.tenantId ∧ g.copy = .hit (.backup id) (.backup b)) :
    Program.Obeys (tracked claims (.get id) R) (Phase.Final claims (.get id) cached) g
      (getAfterLookup state claims id copy) := by
  cases copy with
  | some b =>
      obtain ⟨htenant, hhit⟩ := hcopy b rfl
      exact ⟨fun _ => howed, .inr ⟨b, rfl, htenant, .inr hhit⟩⟩
  | none =>
      refine obeys_query.mpr ⟨⟨⟨howed, hunread⟩, rfl⟩, fun r hr => ?_⟩
      rcases r with e | (_ | b)
      · exact ⟨fun _ => howed, Copy.shownBy_error ..⟩
      · exact ⟨fun _ => howed, Copy.shownBy_error ..⟩
      · obtain ⟨hid, htenant⟩ := hr b rfl
        have hfinal : (Phase.mk (.row b) g.owed).Final claims (.get id) cached
            ⟨200, .backup (.from b)⟩ :=
          ⟨fun _ => howed, .inr ⟨b, rfl, htenant, .inl ⟨rfl, hid⟩⟩⟩
        exact Program.obeys_bind.mpr (state.cache.obeys_setBackup
          (fun _ => maySet_tracked howed (fun cfg' h => ⟨cfg', h, b, rfl, rfl, rfl⟩) hfinal)
          fun _ => hfinal)

theorem listAfterLookup_tracked {cfg : AppConfig} (hcfg : R cfg) (params : ListParams)
    (howed : g.owed = []) (hunread : g.copy.Unread) {copy : Option (List Backup × ℤ)}
    (hcopy : ∀ items total, copy = some (items, total) → params.status = none ∧
      g.copy = .hit (.tenantBackups claims.tenantId) (.page items total)) :
    Program.Obeys (tracked claims (.list params) R) (Phase.Final claims (.list params) cached) g
      (listAfterLookup state claims params cfg copy) := by
  rcases copy with _ | ⟨items, total⟩
  · refine obeys_query.mpr ⟨⟨⟨howed, hunread⟩, rfl⟩, fun r _ => ?_⟩
    cases r with
    | error e => exact ⟨fun _ => howed, Copy.shownBy_error ..⟩
    | ok items =>
        refine obeys_query.mpr ⟨⟨⟨howed, _, _, _, rfl⟩, rfl⟩, fun r _ => ?_⟩
        cases r with
        | error e => exact ⟨fun _ => howed, Copy.shownBy_error ..⟩
        | ok total =>
            have hfinal : (Phase.mk (.page claims.tenantId params.status (clamp params.limit 1 100)
                (max params.offset 0) items total) g.owed).Final claims (.list params) cached
                (listResponse params items total) :=
              ⟨fun _ => howed, .inr ⟨items, total, rfl, .inl rfl⟩⟩
            dsimp only
            split
            · rename_i huse
              exact Program.obeys_bind.mpr (state.cache.obeys_setTenantBackups
                (fun _ => maySet_tracked howed (fun _ _ => ⟨cfg, hcfg, params, items, total, rfl,
                  rfl, huse, rfl, rfl⟩) hfinal) fun _ => hfinal)
            · exact hfinal
  · obtain ⟨hstatus, hhit⟩ := hcopy items total rfl
    exact ⟨fun _ => howed, .inr ⟨items, total, rfl, .inr ⟨hstatus, hhit⟩⟩⟩

theorem handle_create_tracked (hcached : cached = true → state.cache.redis = true)
    (req : CreateBackupRequest) :
    Program.Obeys (tracked claims (.create req) R) (Phase.Final claims (.create req) cached) .start
      (handle state claims (.create req)) := by
  rw [handle_create]
  cases validateSourcePath req.sourcePath with
  | error e => exact ⟨fun _ => rfl, Copy.shownBy_error ..⟩
  | ok _ =>
      refine obeys_query.mpr ⟨⟨⟨rfl, trivial⟩, rfl⟩, fun r _ => ?_⟩
      cases r with
      | error e => exact ⟨fun _ => rfl, Copy.shownBy_error ..⟩
      | ok b =>
          have hshown : (Copy.row b).ShownBy claims (.create req) ⟨201, .backup (.from b)⟩ := by
            refine .inr ?_
            rintro x ⟨⟩
            exact ⟨b, rfl, rfl⟩
          exact invalidateTenantBackups_tracked hcached hshown

theorem handle_get_tracked (id : Uuid) :
    Program.Obeys (tracked claims (.get id) R) (Phase.Final claims (.get id) cached) .start
      (handle state claims (.get id)) := by
  rw [handle_get]
  refine Program.obeys_bind.mpr (state.cache.obeys_getBackup
    (fun _ => ⟨trivial, fun r _ => ?_⟩) fun _ =>
      getAfterLookup_tracked id rfl (by trivial) fun b h => nomatch h)
  rcases r with e | _ | v
  · exact getAfterLookup_tracked id rfl (by trivial) fun b h => nomatch h
  · exact getAfterLookup_tracked id rfl (by trivial) fun b h => nomatch h
  · refine getAfterLookup_tracked id rfl (by trivial) fun b hb => ?_
    obtain ⟨hb, htenant⟩ := Option.filter_eq_some_iff.mp hb
    obtain rfl := Option.some.inj (cachedBackup_ok.mp hb)
    exact ⟨of_decide_eq_true htenant, rfl⟩

theorem handle_list_tracked (params : ListParams) :
    Program.Obeys (tracked claims (.list params) R) (Phase.Final claims (.list params) cached) .start
      (handle state claims (.list params)) := by
  rw [handle_list]
  refine obeys_readConfig.mpr ⟨trivial, fun cfg hcfg => ?_⟩
  split
  · rename_i huse
    have hstatus := (useListCache_iff.mp huse).1
    refine Program.obeys_bind.mpr (state.cache.obeys_getTenantBackups
      (fun _ => ⟨trivial, fun r _ => ?_⟩) fun _ =>
        listAfterLookup_tracked hcfg params rfl (by trivial) fun _ _ h => nomatch h)
    rcases r with e | _ | v
    · exact listAfterLookup_tracked hcfg params rfl (by trivial) fun _ _ h => nomatch h
    · exact listAfterLookup_tracked hcfg params rfl (by trivial) fun _ _ h => nomatch h
    · refine listAfterLookup_tracked hcfg params rfl (by trivial) fun items total h => ?_
      obtain rfl := Option.some.inj (cachedPage_ok.mp h)
      exact ⟨hstatus, rfl⟩
  · exact listAfterLookup_tracked hcfg params rfl (by trivial) fun _ _ h => nomatch h

theorem handle_update_tracked (hcached : cached = true → state.cache.redis = true) (id : Uuid)
    (req : UpdateBackupRequest) :
    Program.Obeys (tracked claims (.update id req) R) (Phase.Final claims (.update id req) cached) .start
      (handle state claims (.update id req)) := by
  rw [handle_update]
  refine obeys_query.mpr ⟨⟨⟨rfl, trivial⟩, rfl⟩, fun r _ => ?_⟩
  rcases r with e | (_ | b)
  · exact ⟨fun _ => rfl, Copy.shownBy_error ..⟩
  · exact ⟨fun _ => rfl, Copy.shownBy_error ..⟩
  · have hshown : (Copy.row b).ShownBy claims (.update id req) ⟨200, .backup (.from b)⟩ := by
      refine .inr ?_
      rintro x ⟨⟩
      exact ⟨b, rfl, rfl⟩
    exact invalidate_tracked hcached hshown

theorem handle_delete_tracked (hcached : cached = true → state.cache.redis = true) (id : Uuid) :
    Program.Obeys (tracked claims (.delete id) R) (Phase.Final claims (.delete id) cached) .start
      (handle state claims (.delete id)) := by
  rw [handle_delete]
  refine obeys_query.mpr ⟨⟨⟨rfl, trivial⟩, rfl⟩, fun r _ => ?_⟩
  rcases r with e | n
  · exact ⟨fun _ => rfl, Copy.shownBy_error ..⟩
  · dsimp only
    split
    · rename_i hn
      have hphase : (tracked claims (.delete id) R).next .start
          (.sql (.deleteBackup id claims.tenantId)) (.ok n) = .start := if_pos hn
      rw [hphase]
      exact ⟨fun _ => rfl, Copy.shownBy_error ..⟩
    · rename_i hn
      have hphase : (tracked claims (.delete id) R).next .start
          (.sql (.deleteBackup id claims.tenantId)) (.ok n) =
            ⟨.nothing, [.backup id, .tenantBackups claims.tenantId]⟩ := if_neg hn
      rw [hphase]
      have hshown : Copy.nothing.ShownBy claims (.delete id) ⟨204, .empty⟩ :=
        .inr fun x h => nomatch h
      exact invalidate_tracked hcached hshown

theorem handle_analyze_tracked (id : Uuid) :
    Program.Obeys (tracked claims (.analyze id) R) (Phase.Final claims (.analyze id) cached) .start
      (handle state claims (.analyze id)) := by
  rw [handle_analyze]
  refine obeys_query.mpr ⟨⟨⟨rfl, trivial⟩, rfl⟩, fun r _ => ?_⟩
  rcases r with e | (_ | b)
  · exact ⟨fun _ => rfl, Copy.shownBy_error ..⟩
  · exact ⟨fun _ => rfl, Copy.shownBy_error ..⟩
  · refine obeys_spawnEntropy.mpr ⟨trivial, fun r _ => ?_⟩
    rcases r with e | entropy
    · exact ⟨fun _ => rfl, Copy.shownBy_error ..⟩
    · refine ⟨fun _ => rfl, .inr ?_⟩
      rintro x ⟨⟩
      exact ⟨b, rfl, rfl⟩

theorem handle_enqueue_tracked (id : Uuid) :
    Program.Obeys (tracked claims (.enqueue id) R) (Phase.Final claims (.enqueue id) cached) .start
      (handle state claims (.enqueue id)) := by
  rw [handle_enqueue]
  refine obeys_query.mpr ⟨⟨⟨rfl, trivial⟩, rfl⟩, fun r _ => ?_⟩
  rcases r with e | (_ | b)
  · exact ⟨fun _ => rfl, Copy.shownBy_error ..⟩
  · exact ⟨fun _ => rfl, Copy.shownBy_error ..⟩
  · dsimp only
    split
    · refine obeys_publish.mpr ⟨trivial, fun r _ => ?_⟩
      cases r with
      | error e => exact ⟨fun _ => rfl, Copy.shownBy_error ..⟩
      | ok _ => exact ⟨fun _ => rfl, .inr fun x h => nomatch h⟩
    · exact ⟨fun _ => rfl, Copy.shownBy_error ..⟩

/-- **Every handler keeps track** of what it caches, owes and shows. -/
theorem handle_tracked (hcached : cached = true → state.cache.redis = true) (request : Request) :
    Program.Obeys (tracked claims request R) (Phase.Final claims request cached) .start
      (handle state claims request) := by
  cases request with
  | create req => exact handle_create_tracked hcached req
  | get id => exact handle_get_tracked id
  | list params => exact handle_list_tracked params
  | update id req => exact handle_update_tracked hcached id req
  | delete id => exact handle_delete_tracked hcached id
  | analyze id => exact handle_analyze_tracked id
  | enqueue id => exact handle_enqueue_tracked id

end Handlers

/-! ### Threads -/

/-- The thread is in phase `g`, and what is left of it keeps track. -/
def Thread.Tracked (R : AppConfig → Prop) (cached : Bool) (g : Phase) (th : Thread) : Prop :=
  Program.Obeys (tracked th.claims th.request R) (Phase.Final th.claims th.request cached) g th.prog

section Threads

variable {R : AppConfig → Prop} {cached : Bool} {g : Phase} {th : Thread}

theorem newThread_tracked {s : State} {replica : ℕ}
    (hcached : cached = true → (s.replicas replica).state.cache.redis = true) (claims : Claims)
    (request : Request) (oracle : Oracle) :
    (s.newThread replica claims request oracle).Tracked R cached .start :=
  handle_tracked hcached request

namespace Thread.Tracked

theorem allow (h : th.Tracked R cached g) {o : Op} {k : o.Answer → Action Response}
    (hprog : th.prog = .op o k) : (tracked th.claims th.request R).allow g o := by
  rw [Thread.Tracked, hprog] at h
  exact h.1

theorem next (h : th.Tracked R cached g) {o : Op} {k : o.Answer → Action Response}
    (hprog : th.prog = .op o k) {r : o.Answer} (hr : (tracked th.claims th.request R).rely g o r) :
    Thread.Tracked R cached (g.after o r) { th with prog := k r } := by
  rw [Thread.Tracked, hprog] at h
  exact h.2 r hr

theorem final (h : th.Tracked R cached g) {r : Response} (hprog : th.prog = .ret r) :
    g.Final th.claims th.request cached r := by
  rw [Thread.Tracked, hprog] at h
  exact h

end Thread.Tracked

/-- The stores answer as the handlers rely on. -/
theorem exec_rely_tracked {claims : Claims} {request : Request} {config : AppConfig}
    (hconfig : R config) (env : Env) (oracle : Oracle) (clock : ℕ) (o : Op) (st : Store) :
    (tracked claims request R).rely g o (o.exec env oracle config clock st).1 := by
  cases o with
  | sql s =>
      cases s with
      | selectBackup id tenantId =>
          intro b hb
          cases hfault : env.sql with
          | none =>
              simp only [Op.exec, hfault] at hb
              obtain ⟨hfind, htenant⟩ := exec_selectBackup_ok _ _ _ _ hb
              exact ⟨(Table.find_eq_some.mp hfind).2, htenant⟩
          | before =>
              simp only [Op.exec, hfault] at hb
              cases hb
          | after =>
              simp only [Op.exec, hfault] at hb
              cases hb
      | insertBackup | selectBackups | countBackups | updateBackup | deleteBackup | setStatus
      | setCompleted | setFailed => trivial
  | redis c => trivial
  | config => exact hconfig
  | entropy data => trivial
  | publish job => trivial

end Threads

/-! ### What an operation does to Redis -/

section Redis

variable {env : Env} {oracle : Oracle} {config : AppConfig} {clock : ℕ} {st : Store}

theorem exec_sql_redis (s : Sql) :
    ((Op.sql s).exec env oracle config clock st).2.redis = st.redis := by
  simp only [Op.exec]
  split <;> rfl

/-- An entry after a command has been there before, or it was put there by
it. -/
theorem effect_some {c : RedisCommand} {r : Redis} {key : Key} {e : Entry}
    (h : c.effect clock r key = some e) : r key = some e ∨
      ∃ ttl, c = .setEx key e.value ttl ∧ 0 < ttl ∧ e.expiresAt = clock + secs ttl.toNat := by
  cases c with
  | get key' => exact .inl h
  | setEx key' value ttl =>
      simp only [RedisCommand.effect] at h
      split at h
      · rename_i httl
        by_cases heq : key = key'
        · subst heq
          rw [Function.update_self] at h
          obtain rfl := Option.some.inj h
          simp only [validTtl, Bool.and_eq_true, decide_eq_true_eq] at httl
          exact .inr ⟨ttl, rfl, httl.1, rfl⟩
        · rw [Function.update_of_ne heq] at h
          exact .inl h
      · exact .inl h
  | del key' =>
      by_cases heq : key = key'
      · simp [RedisCommand.effect, heq] at h
      · rw [RedisCommand.effect, Function.update_of_ne heq] at h
        exact .inl h

theorem exec_redis_some {o : Op} {key : Key} {e : Entry}
    (h : (o.exec env oracle config clock st).2.redis key = some e) : st.redis key = some e ∨
      ∃ ttl, o = .redis (.setEx key e.value ttl) ∧ 0 < ttl ∧ e.expiresAt = clock + secs ttl.toNat := by
  cases o with
  | sql s =>
      rw [exec_sql_redis] at h
      exact .inl h
  | redis c =>
      have hset : c.effect clock st.redis key = some e → st.redis key = some e ∨
          ∃ ttl : UInt64, Op.redis c = .redis (.setEx key e.value ttl) ∧ 0 < ttl ∧
            e.expiresAt = clock + secs ttl.toNat := by
        intro h
        rcases effect_some h with hold | ⟨ttl, rfl, hpos, hexpires⟩
        · exact .inl hold
        · exact .inr ⟨ttl, rfl, hpos, hexpires⟩
      simp only [Op.exec] at h
      split at h
      · exact hset h
      · exact .inl h
      · exact hset h
  | config | entropy => exact .inl h
  | publish job =>
      simp only [Op.exec] at h
      split at h <;> exact .inl h

/-- What is found in Redis is a live entry. -/
theorem exec_get_ok {key : Key} {value : CacheValue}
    (h : ((Op.redis (.get key)).exec env oracle config clock st).1 = .ok (some value)) :
    ∃ e, st.redis key = some e ∧ e.value = value := by
  simp only [Op.exec] at h
  split at h
  · exact Option.map_eq_some_iff.mp (Except.ok.inj h)
  · cases h
  · cases h

/-- A statement that is answered has been executed. -/
theorem exec_sql_ok {s : Sql} {answer : s.Answer}
    (h : ((Op.sql s).exec env oracle config clock st).1 = .ok answer) :
    (s.exec env.order oracle st.db).1 = .ok answer ∧
      ((Op.sql s).exec env oracle config clock st).2.db = (s.exec env.order oracle st.db).2 := by
  cases hfault : env.sql with
  | none =>
      simp only [Op.exec, hfault] at h
      exact ⟨h, by simp only [Op.exec, hfault]⟩
  | before =>
      simp only [Op.exec, hfault] at h
      cases h
  | after =>
      simp only [Op.exec, hfault] at h
      cases h

end Redis

/-! ### What an event does -/

section Events

variable {uuid : UuidParser} {s : State} {e : Event}

/-- A thread is the one that was there before, or a new one, or it has just
performed an operation. -/
theorem step_inflight {id : ReqId} {th : Thread}
    (h : ((system uuid).step s e).1.inflight id = some th) : s.inflight id = some th ∨
      (∃ replica seq claims request oracle, e = .start replica seq claims request oracle ∧
        id = ⟨claims.tenantId, seq⟩ ∧ th = s.newThread replica claims request oracle) ∨
      ∃ env th₀ o k, e = .step id env ∧ s.inflight id = some th₀ ∧ th₀.prog = .op o k ∧
        th = { th₀ with prog := k (s.exec th₀ env o).1 } := by
  cases e with
  | start replica seq claims request oracle =>
      rw [step_start, State.start] at h
      dsimp only at h
      split at h
      · exact .inl h
      · by_cases hid : id = ⟨claims.tenantId, seq⟩
        · subst hid
          rw [State.setThread_inflight_self] at h
          exact .inr (.inl ⟨_, _, _, _, _, rfl, rfl, (Option.some.inj h).symm⟩)
        · rw [State.setThread_inflight_of_ne _ _ hid] at h
          exact .inl h
  | step id' env =>
      rw [step_step] at h
      cases hth : s.inflight id' with
      | none =>
          rw [State.stepThread_none hth] at h
          exact .inl h
      | some th₀ =>
          cases hprog : th₀.prog with
          | ret response =>
              rw [State.stepThread_ret hth hprog] at h
              by_cases hid : id = id'
              · rw [hid, State.setThread_inflight_self] at h
                cases h
              · rw [State.setThread_inflight_of_ne _ _ hid] at h
                exact .inl h
          | op o k =>
              rw [State.stepThread_op hth hprog] at h
              by_cases hid : id = id'
              · subst hid
                rw [State.setThread_inflight_self] at h
                -- The only thread that an operation changes is the one that performs it.
                exact .inr (.inr ⟨env, th₀, o, k, rfl, hth, hprog, (Option.some.inj h).symm⟩)
              · rw [State.setThread_inflight_of_ne _ _ hid] at h
                exact .inl h
  | drop id' =>
      rw [step_drop] at h
      by_cases hid : id = id'
      · rw [hid, State.setThread_inflight_self] at h
        cases h
      · rw [State.setThread_inflight_of_ne _ _ hid] at h
        exact .inl h
  | rpc call oracle env => exact .inl h
  | configUpdate replica update => exact .inl h
  | expire key => exact .inl h
  | advance clock => exact .inl h

/-- A request that is not received is not in flight. -/
theorem run_inflight_none {id : ReqId} {es : List Event} (hs : s.inflight id = none)
    (hes : ∀ replica seq claims request oracle,
      .start replica seq claims request oracle ∈ es → id ≠ ⟨claims.tenantId, seq⟩) :
    ((system uuid).run s es).inflight id = none := by
  induction es generalizing s with
  | nil => exact hs
  | cons e es ih =>
      refine ih ?_ fun replica seq claims request oracle hmem =>
        hes replica seq claims request oracle (List.mem_cons_of_mem _ hmem)
      cases hth : ((system uuid).step s e).1.inflight id with
      | none => rfl
      | some th =>
          rcases step_inflight hth with hold | ⟨replica, seq, claims, request, oracle, rfl, hid, -⟩ |
            ⟨_, th₀, _, _, -, hold, -, -⟩
          · rw [hs] at hold
            cases hold
          · exact (hes replica seq claims request oracle List.mem_cons_self hid).elim
          · rw [hs] at hold
            cases hold

theorem call_redis (call : Rpc) (oracle : Oracle) (env : Env) :
    (s.call uuid call oracle env).2.redis = s.store.redis := by
  rcases s.call_store uuid call oracle env with ⟨-, -, heq⟩ | ⟨id, -, heq⟩
  · rw [heq]
  · rw [heq, exec_sql_redis]

/-- An entry has been there before, and is still alive, or a thread has just
put it there. -/
theorem step_redis_some {key : Key} {entry : Entry}
    (h : ((system uuid).step s e).1.store.redis key = some entry) :
    (s.store.redis key = some entry ∧
      (s.clock < entry.expiresAt → ((system uuid).step s e).1.clock < entry.expiresAt)) ∨
      ∃ id env th ttl k, e = .step id env ∧ s.inflight id = some th ∧
        th.prog = .op (.redis (.setEx key entry.value ttl)) k ∧ 0 < ttl ∧
          entry.expiresAt = s.clock + secs ttl.toNat := by
  cases e with
  | start replica seq claims request oracle =>
      rw [step_start, State.start] at h ⊢
      dsimp only at h ⊢
      split at h <;> exact .inl ⟨h, fun hlive => hlive⟩
  | step id env =>
      rw [step_step] at h ⊢
      cases hth : s.inflight id with
      | none =>
          rw [State.stepThread_none hth] at h ⊢
          exact .inl ⟨h, fun hlive => hlive⟩
      | some th =>
          cases hprog : th.prog with
          | ret response =>
              rw [State.stepThread_ret hth hprog] at h ⊢
              exact .inl ⟨h, fun hlive => hlive⟩
          | op o k =>
              rw [State.stepThread_op hth hprog] at h ⊢
              rcases exec_redis_some h with hold | ⟨ttl, rfl, httl, hexpires⟩
              · exact .inl ⟨hold, fun hlive => hlive⟩
              · exact .inr ⟨id, env, th, ttl, k, rfl, hth, hprog, httl, hexpires⟩
  | drop id => exact .inl ⟨h, fun hlive => hlive⟩
  | rpc call oracle env =>
      rw [step_rpc, State.setStore_store, call_redis] at h
      exact .inl ⟨h, fun hlive => hlive⟩
  | configUpdate replica update => exact .inl ⟨h, fun hlive => hlive⟩
  | expire key' =>
      rw [step_expire, State.setStore_store] at h
      by_cases hkey : key = key'
      · simp [hkey] at h
      · exact .inl ⟨(Function.update_of_ne hkey ..).symm.trans h, fun hlive => hlive⟩
  | advance clock =>
      obtain ⟨hold, hlive⟩ := Option.filter_eq_some_iff.mp h
      exact .inl ⟨hold, fun _ => of_decide_eq_true hlive⟩

/-- A response is that of a thread that has nothing left to do. -/
theorem step_responded {id : ReqId} {request : Request} {response : Response}
    (h : .responded id request response ∈ ((system uuid).step s e).2) :
    ∃ env th, e = .step id env ∧ s.inflight id = some th ∧ th.request = request ∧
      th.prog = .ret response := by
  cases e with
  | step id' env =>
      rw [step_step] at h
      cases hth : s.inflight id' with
      | none =>
          rw [State.stepThread_none hth] at h
          cases h
      | some th =>
          cases hprog : th.prog with
          | ret response' =>
              rw [State.stepThread_ret hth hprog, List.mem_singleton] at h
              obtain ⟨rfl, rfl, rfl⟩ := Obs.responded.inj h
              exact ⟨env, th, rfl, hth, rfl, hprog⟩
          | op o k =>
              rw [State.stepThread_op hth hprog, List.mem_singleton] at h
              cases h
  | rpc call oracle env =>
      rw [step_rpc, List.mem_singleton] at h
      cases h
  | start | drop | configUpdate | expire | advance => cases h

/-- An operation is the next one of a thread. -/
theorem step_performed {id : ReqId} {o : Op} {r : o.Answer}
    (h : .performed id o r ∈ ((system uuid).step s e).2) :
    ∃ env th k, e = .step id env ∧ s.inflight id = some th ∧ th.prog = .op o k ∧
      r = (s.exec th env o).1 := by
  cases e with
  | step id' env =>
      rw [step_step] at h
      cases hth : s.inflight id' with
      | none =>
          rw [State.stepThread_none hth] at h
          cases h
      | some th =>
          cases hprog : th.prog with
          | ret response =>
              rw [State.stepThread_ret hth hprog, List.mem_singleton] at h
              cases h
          | op o' k =>
              rw [State.stepThread_op hth hprog, List.mem_singleton] at h
              cases h
              exact ⟨env, th, k, rfl, hth, hprog, rfl⟩
  | rpc call oracle env =>
      rw [step_rpc, List.mem_singleton] at h
      cases h
  | start | drop | configUpdate | expire | advance => cases h

/-- Only the clock moves the clock, and never back. -/
theorem step_clock : ((system uuid).step s e).1.clock = s.clock ∨
    ∃ clock, e = .advance clock ∧ ((system uuid).step s e).1.clock = max s.clock clock := by
  cases e with
  | start replica seq claims request oracle =>
      rw [step_start, State.start]
      dsimp only
      split <;> exact .inl rfl
  | step id env =>
      rw [step_step]
      cases hth : s.inflight id with
      | none => rw [State.stepThread_none hth]; exact .inl rfl
      | some th =>
          cases hprog : th.prog with
          | ret response => rw [State.stepThread_ret hth hprog]; exact .inl rfl
          | op o k => rw [State.stepThread_op hth hprog]; exact .inl rfl
  | advance clock => exact .inr ⟨clock, rfl, rfl⟩
  | drop | rpc | configUpdate | expire => exact .inl rfl

theorem clock_le_step : s.clock ≤ ((system uuid).step s e).1.clock := by
  rcases @step_clock uuid s e with h | ⟨clock, -, h⟩ <;> omega

/-- Only an update changes a configuration. -/
theorem step_replicas (h : ∀ replica update, e ≠ .configUpdate replica update) :
    ((system uuid).step s e).1.replicas = s.replicas := by
  cases e with
  | start replica seq claims request oracle =>
      rw [step_start, State.start]
      dsimp only
      split <;> rfl
  | step id env =>
      rw [step_step]
      cases hth : s.inflight id with
      | none => rw [State.stepThread_none hth]
      | some th =>
          cases hprog : th.prog with
          | ret response => rw [State.stepThread_ret hth hprog]; rfl
          | op o k => rw [State.stepThread_op hth hprog]; rfl
  | configUpdate replica update => exact (h replica update rfl).elim
  | drop | rpc | expire | advance => rfl

end Events

/-- The table with one row, of tenant `1`. -/
def oneRow : Table where
  rows := [⟨⟨7⟩, ⟨1⟩, "/data", 0, "pending", false, 0, 0⟩]
  primaryKey := by decide
  statusCheck := by decide

end BackupService
