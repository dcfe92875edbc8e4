import BackupService.Grpc
import BackupService.Handlers
import BackupService.Lib.Machine
import BackupService.Statements

/-!
The service when requests and callbacks are executed one at a time.

Each turn runs to its end before the next one starts, and nothing fails.
Redis still drops entries whenever it likes: between any two operations,
inside a turn as well, the schedule may take out any set of keys.

What is in Redis is judged by a `Freshness`: when a cached value is a fair
picture of the database. A session is coherent when all live entries are,
apart from those under keys that are known to be dirty. A statement
dirties the keys it touches, a deletion cleans its key, and the
specifications of the operations of the cache say so.
-/

namespace BackupService

open Lib Program

/-- What is fixed for a sequence of turns: the order of rows, the
configuration, the instant of every moment, and what Redis has dropped by
then. -/
structure Surroundings where
  order : RowOrder
  config : AppConfig
  clock : ℕ → ℕ
  expired : ℕ → Key → Bool

/-- The stores, and the number of operations so far. -/
structure Session where
  store : Store
  moment : ℕ

def Redis.evict (r : Redis) (expired : Key → Bool) : Redis := fun key =>
  if expired key then none else r key

theorem Redis.of_evict {r : Redis} {expired : Key → Bool} {key : Key} {e : Entry}
    (h : r.evict expired key = some e) : r key = some e := by
  unfold Redis.evict at h
  split at h
  · cases h
  · exact h

namespace Session

/-- What is left in the stores when the next operation begins. -/
def settle (w : Surroundings) (s : Session) : Store :=
  { s.store with redis := s.store.redis.evict (w.expired s.moment) }

def exec (w : Surroundings) (oracle : Oracle) (o : Op) (s : Session) : o.Answer × Session :=
  let r := o.exec { order := w.order } oracle w.config (w.clock s.moment) (s.settle w)
  (r.1, ⟨r.2, s.moment + 1⟩)

end Session

/-- A request, with all that is attached to it. -/
structure Visit where
  claims : Claims
  request : Request
  oracle : Oracle
  deriving DecidableEq, Repr

inductive Turn
  | http (visit : Visit)
  | rpc (call : Rpc) (oracle : Oracle)

inductive Reply
  | http (response : Response)
  | rpc (result : Except Status Ack)

/-- The service, one turn at a time. -/
def service (uuid : UuidParser) (state : AppState) (w : Surroundings) :
    Machine Session Turn Reply where
  step s
    | .http v =>
        let r := (handle state v.claims v.request).run (Session.exec w v.oracle) s
        (r.2, [.http r.1])
    | .rpc call oracle =>
        let r := (call.handle uuid).run (Session.exec w oracle) s
        (r.2, [.rpc r.1])

section Rules

variable {α : Type} {w : Surroundings} {oracle : Oracle} {s : Session} {post : α → Session → Prop}

/-- A statement is executed, and the program goes on with its answer. -/
theorem ensures_query {q : Sql} {f : Except SqlError q.Answer → Action α}
    (h : ∀ r s', (q.exec w.order oracle s.store.db).1 = r →
      (Session.exec w oracle (.sql q) s).2 = s' → Ensures (Session.exec w oracle) (f r) s' post) :
    Ensures (Session.exec w oracle) (query q >>= f) s post :=
  h _ _ rfl rfl

theorem ensures_readConfig {f : AppConfig → Action α}
    (h : ∀ s', (Session.exec w oracle .config s).2 = s' →
      Ensures (Session.exec w oracle) (f w.config) s' post) :
    Ensures (Session.exec w oracle) (readConfig >>= f) s post :=
  h _ rfl

theorem ensures_publish {job : BackupJob} {f : Except LapinError Unit → Action α}
    (h : ∀ s', (Session.exec w oracle (.publish job) s).2 = s' →
      Ensures (Session.exec w oracle) (f (.ok ())) s' post) :
    Ensures (Session.exec w oracle) (publish job >>= f) s post :=
  h _ rfl

theorem ensures_spawnEntropy {data : List UInt8} {f : Except JoinError Entropy → Action α}
    (h : ∀ s', (Session.exec w oracle (.entropy data) s).2 = s' →
      Ensures (Session.exec w oracle) (f (.ok (shannonEntropy data))) s' post) :
    Ensures (Session.exec w oracle) (spawnEntropy data >>= f) s post :=
  h _ rfl

theorem exec_sql_db (q : Sql) : (Session.exec w oracle (.sql q) s).2.store.db =
    (q.exec w.order oracle s.store.db).2 := rfl

end Rules

/-! ### When a cached value is fresh -/

/-- A notion of freshness. Data that has just been read is fresh, and it
stays so for as long as what it shows is not changed. -/
structure Freshness (order : RowOrder) (limit offset : ℤ) where
  fresh : Table → Key → CacheValue → Prop
  row : ∀ {t id b}, t.find id = some b → fresh t (.backup id) (.backup b)
  page : ∀ t tenantId, fresh t (.tenantBackups tenantId)
    (.page (t.page order tenantId none limit offset) (t.count tenantId none))
  frame_row : ∀ {t t' : Table} {id v}, (∀ b, t.find id = some b → t'.find id = some b) →
    fresh t (.backup id) v → fresh t' (.backup id) v
  frame_page : ∀ {t t' : Table} {tenantId v}, t'.restrict tenantId = t.restrict tenantId →
    fresh t (.tenantBackups tenantId) v → fresh t' (.tenantBackups tenantId) v

/-- Every live entry is fresh, unless its key is dirty. -/
def Session.Coherent {order : RowOrder} {limit offset : ℤ} (F : Freshness order limit offset)
    (dirty : Key → Prop) (s : Session) : Prop :=
  ∀ key e, s.store.redis key = some e → ¬ dirty key → F.fresh s.store.db key e.value

section Operations

variable {w : Surroundings} {oracle : Oracle}
  {F : Freshness w.order w.config.cachedListLimit w.config.cachedListOffset}
  {dirty dirty' : Key → Prop} {s : Session}

theorem Session.Coherent.mono (h : s.Coherent F dirty) (hd : ∀ key, dirty key → dirty' key) :
    s.Coherent F dirty' := fun key e hget hnot => h key e hget fun hdirty => hnot (hd key hdirty)

theorem Session.Coherent.settle (h : s.Coherent F dirty) (n : ℕ) :
    Session.Coherent F dirty ⟨s.settle w, n⟩ := fun key e hget hnot =>
  h key e (Redis.of_evict hget) hnot

/-- A statement dirties what it touches. -/
theorem coherent_query (h : s.Coherent F dirty) (q : Sql) :
    (Session.exec w oracle (.sql q) s).2.Coherent F
      fun key => dirty key ∨ q.Touches s.store.db key := by
  intro key e hget hnot
  rw [not_or] at hnot
  have hfresh := h key e (Redis.of_evict hget) hnot.1
  cases key with
  | backup id => exact F.frame_row (fun b hb => exec_find w.order oracle hb hnot.2) hfresh
  | tenantBackups tenantId => exact F.frame_page (exec_restrict_eq w.order oracle hnot.2) hfresh

theorem coherent_get (h : s.Coherent F dirty) (key : Key) :
    (Session.exec w oracle (.redis (.get key)) s).2.Coherent F dirty := h.settle _

theorem coherent_publish (h : s.Coherent F dirty) (job : BackupJob) :
    (Session.exec w oracle (.publish job) s).2.Coherent F dirty := fun key e hget hnot =>
  h key e (Redis.of_evict hget) hnot

theorem fresh_of_get (h : s.Coherent F dirty) {key : Key} (hclean : ¬ dirty key) {v : CacheValue}
    (hget : ((s.settle w).redis key).map Entry.value = some v) : F.fresh s.store.db key v := by
  obtain ⟨e, he, rfl⟩ := Option.map_eq_some_iff.mp hget
  exact h key e (Redis.of_evict he) hclean

theorem coherent_setEx (h : s.Coherent F dirty) {key : Key} {v : CacheValue} (ttl : UInt64)
    (hv : F.fresh s.store.db key v) :
    (Session.exec w oracle (.redis (.setEx key v ttl)) s).2.Coherent F dirty := by
  have hset : ∀ key' e, (RedisCommand.setEx key v ttl).effect (w.clock s.moment)
      (s.settle w).redis key' = some e → ¬ dirty key' → F.fresh s.store.db key' e.value := by
    intro key' e hget hnot
    simp only [RedisCommand.effect] at hget
    split at hget
    · by_cases heq : key' = key
      · subst heq
        rw [Function.update_self] at hget
        rw [← Option.some.inj hget]
        exact hv
      · rw [Function.update_of_ne heq] at hget
        exact h key' e (Redis.of_evict hget) hnot
    · exact h key' e (Redis.of_evict hget) hnot
  exact hset

/-- A deletion cleans its key. -/
theorem coherent_del (h : s.Coherent F dirty) (key : Key) :
    (Session.exec w oracle (.redis (.del key)) s).2.Coherent F
      fun key' => dirty key' ∧ key' ≠ key := by
  have hdel : ∀ key' e, (RedisCommand.del key).effect (w.clock s.moment) (s.settle w).redis key' =
      some e → ¬ (dirty key' ∧ key' ≠ key) → F.fresh s.store.db key' e.value := by
    intro key' e hget hnot
    by_cases heq : key' = key
    · rw [heq, RedisCommand.effect, Function.update_self] at hget
      cases hget
    · rw [RedisCommand.effect, Function.update_of_ne heq] at hget
      exact h key' e (Redis.of_evict hget) fun hdirty => hnot ⟨hdirty, heq⟩
  exact hdel

end Operations

/-! ### The operations of the cache -/

section Cache

variable {w : Surroundings} {oracle : Oracle}
  {F : Freshness w.order w.config.cachedListLimit w.config.cachedListOffset}
  {dirty : Key → Prop} {s : Session} {cache : CacheLayer} (hcache : cache.redis = true)

theorem cacheTtlSecs_spec (h : s.Coherent F dirty) :
    Ensures (Session.exec w oracle) cache.cacheTtlSecs s fun _ s' =>
      s'.store.db = s.store.db ∧ s'.Coherent F dirty := by
  rw [CacheLayer.cacheTtlSecs]
  split
  · exact ⟨rfl, h.settle _⟩
  · exact ⟨rfl, h⟩

include hcache

/-- What is found under a clean key is fresh. -/
theorem getBackup_spec (h : s.Coherent F fun _ => False) (id : Uuid) :
    Ensures (Session.exec w oracle) (cache.getBackup id) s fun r s' =>
      s'.store.db = s.store.db ∧ s'.Coherent F (fun _ => False) ∧
        ∀ b, r = some b → F.fresh s.store.db (.backup id) (.backup b) := by
  rw [← bind_pure (cache.getBackup id), CacheLayer.getBackup_bind hcache]
  exact ⟨rfl, coherent_get h _, fun b hb => fresh_of_get (w := w) h not_false (cachedBackup_ok.mp hb)⟩

theorem getTenantBackups_spec (h : s.Coherent F fun _ => False) (tenantId : Uuid) :
    Ensures (Session.exec w oracle) (cache.getTenantBackups tenantId) s fun r s' =>
      s'.store.db = s.store.db ∧ s'.Coherent F (fun _ => False) ∧
        ∀ items total, r = some (items, total) →
          F.fresh s.store.db (.tenantBackups tenantId) (.page items total) := by
  rw [← bind_pure (cache.getTenantBackups tenantId), CacheLayer.getTenantBackups_bind hcache]
  exact ⟨rfl, coherent_get h _, fun items total hb =>
    fresh_of_get (w := w) h not_false (cachedPage_ok.mp hb)⟩

theorem setBackup_spec (h : s.Coherent F dirty) {b : Backup} (hb : s.store.db.find b.id = some b) :
    Ensures (Session.exec w oracle) (cache.setBackup b) s fun _ s' =>
      s'.store.db = s.store.db ∧ s'.Coherent F dirty := by
  rw [CacheLayer.setBackup, if_pos hcache]
  refine (cacheTtlSecs_spec h).bind fun ttl s' hs' => ?_
  refine ⟨hs'.1, coherent_setEx hs'.2 ttl (F.row ?_)⟩
  rw [hs'.1]
  exact hb

theorem setTenantBackups_spec (h : s.Coherent F dirty) {tenantId : Uuid} {items : List Backup}
    {total : ℤ} (hpage : F.fresh s.store.db (.tenantBackups tenantId) (.page items total)) :
    Ensures (Session.exec w oracle) (cache.setTenantBackups tenantId items total) s fun _ s' =>
      s'.store.db = s.store.db ∧ s'.Coherent F dirty := by
  rw [CacheLayer.setTenantBackups, if_pos hcache]
  refine (cacheTtlSecs_spec h).bind fun ttl s' hs' => ?_
  refine ⟨hs'.1, coherent_setEx hs'.2 ttl ?_⟩
  rw [hs'.1]
  exact hpage

theorem invalidateBackup_spec (h : s.Coherent F dirty) (id : Uuid) :
    Ensures (Session.exec w oracle) (cache.invalidateBackup id) s fun _ s' =>
      s'.store.db = s.store.db ∧ s'.Coherent F fun key => dirty key ∧ key ≠ .backup id := by
  rw [CacheLayer.invalidateBackup, if_pos hcache]
  exact ⟨rfl, coherent_del h _⟩

theorem invalidateTenantBackups_spec (h : s.Coherent F dirty) (tenantId : Uuid) :
    Ensures (Session.exec w oracle) (cache.invalidateTenantBackups tenantId) s fun _ s' =>
      s'.store.db = s.store.db ∧ s'.Coherent F fun key => dirty key ∧ key ≠ .tenantBackups tenantId := by
  rw [CacheLayer.invalidateTenantBackups, if_pos hcache]
  exact ⟨rfl, coherent_del h _⟩

end Cache

end BackupService
