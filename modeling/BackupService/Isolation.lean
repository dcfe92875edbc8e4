import BackupService.System
import BackupService.Tenancy

/-!
Tenants cannot observe each other.

The key `backup:{id}` has no tenant in it, so Redis is the one place where
a request of one tenant can meet data of another. What keeps them apart is
a protocol that every handler follows (`confined`): it names its own tenant
in every statement, it writes and deletes only keys that belong to its
tenant, and before it touches the key of a backup it has seen the database
find that backup among the tenant's own rows. In return a handler goes on
in the same way whether a cached backup is foreign or missing (`blind`).

Two runs are compared, one of which lacks what the other tenants do.
-/

namespace BackupService

open Lib

/-! ### Redis -/

/-- The key stands for data of the tenant. -/
def Key.BelongsTo (owner : Owner) (tenantId : Uuid) : Key → Prop
  | backup id => owner id = some tenantId
  | tenantBackups t => t = tenantId

/-- Every cached backup belongs to the owner of its key. -/
def Redis.OwnedBy (owner : Owner) (r : Redis) : Prop :=
  ∀ id b e, r (.backup id) = some ⟨.backup b, e⟩ → owner id = some b.tenantId

/-- Any backup may be looked up, everything else only in the tenant's name. -/
def RedisCommand.Within (owner : Owner) (tenantId : Uuid) : RedisCommand → Prop
  | get key => ∀ t, key = .tenantBackups t → t = tenantId
  | setEx key value _ => key.BelongsTo owner tenantId ∧ ∀ b, value = .backup b → b.tenantId = tenantId
  | del key => key.BelongsTo owner tenantId

/-- What the tenant can see of a cached backup. -/
def ownCopy (tenantId : Uuid) (r : Except RedisError (Option CacheValue)) : Option Backup :=
  (cachedBackup r).filter fun b => b.tenantId = tenantId

/-- The answers to an operation that look the same to the tenant. -/
def sameAnswer (tenantId : Uuid) : (o : Op) → o.Answer → o.Answer → Prop
  | .redis (.get (.backup _)), r, r' => ownCopy tenantId r = ownCopy tenantId r'
  | _, r, r' => r = r'

theorem sameAnswer_refl (tenantId : Uuid) (o : Op) (r : o.Answer) : sameAnswer tenantId o r r := by
  unfold sameAnswer
  split <;> rfl

section Commands

variable {owner : Owner} {tenantId other : Uuid} {clock : ℕ} {c : RedisCommand} {r r' : Redis}

theorem ownedBy_effect (hc : c.Within owner tenantId) (hr : r.OwnedBy owner) :
    (c.effect clock r).OwnedBy owner := by
  cases c with
  | get key => exact hr
  | setEx key value ttl =>
      obtain ⟨hkey, hvalue⟩ := hc
      simp only [RedisCommand.effect]
      split
      · intro id b e hget
        by_cases heq : Key.backup id = key
        · subst heq
          rw [Function.update_self] at hget
          obtain ⟨rfl, -⟩ := Entry.mk.inj (Option.some.inj hget)
          rw [hvalue b rfl]
          exact hkey
        · rw [Function.update_of_ne heq] at hget
          exact hr id b e hget
      · exact hr
  | del key =>
      intro id b e hget
      by_cases heq : Key.backup id = key
      · simp [RedisCommand.effect, heq] at hget
      · rw [RedisCommand.effect, Function.update_of_ne heq] at hget
        exact hr id b e hget

/-- A command of another tenant leaves the tenant's keys alone. -/
theorem effect_of_ne (hc : c.Within owner other) (hne : other ≠ tenantId) {key : Key}
    (hkey : key.BelongsTo owner tenantId) : c.effect clock r key = r key := by
  have hother : ∀ key' : Key, key'.BelongsTo owner other → key ≠ key' := by
    rintro key' hkey' rfl
    cases key with
    | backup id => exact hne (Option.some.inj (hkey'.symm.trans hkey))
    | tenantBackups t => exact hne (hkey'.symm.trans hkey)
  cases c with
  | get key' => rfl
  | setEx key' value ttl =>
      simp only [RedisCommand.effect]
      split
      · exact Function.update_of_ne (hother key' hc.1) _ _
      · rfl
  | del key' => exact Function.update_of_ne (hother key' hc) _ _

/-- A command of the tenant acts in the same way on the tenant's keys. -/
theorem effect_agree (c : RedisCommand)
    (hagree : ∀ key : Key, key.BelongsTo owner tenantId → r key = r' key) {key : Key}
    (hkey : key.BelongsTo owner tenantId) : c.effect clock r key = c.effect clock r' key := by
  cases c with
  | get key' => exact hagree key hkey
  | setEx key' value ttl =>
      simp only [RedisCommand.effect]
      split
      · by_cases heq : key = key'
        · rw [heq, Function.update_self, Function.update_self]
        · rw [Function.update_of_ne heq, Function.update_of_ne heq, hagree key hkey]
      · exact hagree key hkey
  | del key' =>
      by_cases heq : key = key'
      · rw [heq, RedisCommand.effect, RedisCommand.effect, Function.update_self,
          Function.update_self]
      · rw [RedisCommand.effect, RedisCommand.effect, Function.update_of_ne heq,
          Function.update_of_ne heq, hagree key hkey]

/-- Under a foreign key there is nothing for the tenant to see. -/
theorem ownCopy_foreign (hr : r.OwnedBy owner) {id : Uuid} (hid : owner id ≠ some tenantId) :
    ownCopy tenantId (.ok ((r (.backup id)).map Entry.value)) = none := by
  rcases hget : r (.backup id) with _ | ⟨b | ⟨items, total⟩, e⟩
  · rfl
  · have hne : b.tenantId ≠ tenantId := fun h => hid (h ▸ hr id b e hget)
    simp [ownCopy, cachedBackup, hne]
  · rfl

theorem answer_agree (hc : c.Within owner tenantId) (hr : r.OwnedBy owner)
    (hr' : r'.OwnedBy owner)
    (hagree : ∀ key : Key, key.BelongsTo owner tenantId → r key = r' key) :
    sameAnswer tenantId (.redis c) (c.answer r) (c.answer r') := by
  cases c with
  | get key =>
      cases key with
      | backup id =>
          by_cases hid : owner id = some tenantId
          · have heq := hagree (.backup id) hid
            exact congrArg (fun e : Option Entry => ownCopy tenantId (.ok (e.map Entry.value))) heq
          · exact (ownCopy_foreign hr hid).trans (ownCopy_foreign hr' hid).symm
      | tenantBackups t =>
          have heq := hagree (.tenantBackups t) (hc t rfl)
          exact congrArg (fun e : Option Entry => Except.ok (e.map Entry.value)) heq
  | setEx key value ttl => rfl
  | del key => rfl

end Commands

/-! ### The protocol of a handler -/

/-- What a handler for the tenant may do, and what it learns from the
answers: a backup that the database has found is the tenant's. -/
def confined (owner : Owner) (oracle : Oracle) (tenantId : Uuid) :
    Program.Protocol Op Op.Answer Unit where
  allow _
    | .sql s => s.Within owner oracle tenantId
    | .redis c => c.Within owner tenantId
    | .config => True
    | .entropy _ => True
    | .publish _ => True
  rely _
    | .sql (.selectBackup id _), r => ∀ b, (show Except SqlError (Option Backup) from r) = .ok (some b) →
        b.id = id ∧ b.tenantId = tenantId ∧ owner id = some tenantId
    | .sql (.updateBackup id _ _ _), r => ∀ b,
        (show Except SqlError (Option Backup) from r) = .ok (some b) → owner id = some tenantId
    | .sql (.deleteBackup id _), r => ∀ n, (show Except SqlError ℕ from r) = .ok n → n ≠ 0 →
        owner id = some tenantId
    | _, _ => True
  next _ _ _ := ()

section Cache

variable {owner : Owner} {oracle : Oracle} {tenantId : Uuid} {Q : Unit → Unit → Prop}

theorem maySet_confined {key : Key} {value : CacheValue} (hkey : key.BelongsTo owner tenantId)
    (hvalue : ∀ b, value = .backup b → b.tenantId = tenantId) (hQ : Q () ()) :
    CacheLayer.MaySet (confined owner oracle tenantId) Q () key value :=
  ⟨trivial, fun _ _ => ⟨⟨hkey, hvalue⟩, fun _ _ => hQ⟩⟩

theorem mayDelete_confined {key : Key} (hkey : key.BelongsTo owner tenantId) (hQ : Q () ()) :
    CacheLayer.MayDelete (confined owner oracle tenantId) Q () key :=
  ⟨hkey, fun _ _ => hQ⟩

/-- The two deletions of a handler that has changed a row. -/
theorem invalidate_confined {cache : CacheLayer} {id : Uuid} {response : Response}
    (hid : owner id = some tenantId) :
    Program.Obeys (confined owner oracle tenantId) (fun _ _ => True) () (do
      cache.invalidateBackup id
      cache.invalidateTenantBackups tenantId
      return response) := by
  refine Program.obeys_bind.mpr (cache.obeys_invalidateBackup
    (fun _ => mayDelete_confined hid ?_) fun _ => ?_) <;>
  exact Program.obeys_bind.mpr (cache.obeys_invalidateTenantBackups
    (fun _ => mayDelete_confined rfl trivial) fun _ => trivial)

end Cache

theorem getAfterLookup_confined (owner : Owner) (oracle : Oracle) (state : AppState)
    (claims : Claims) (id : Uuid) (cached : Option Backup) :
    Program.Obeys (confined owner oracle claims.tenantId) (fun _ _ => True) ()
      (getAfterLookup state claims id cached) := by
  cases cached with
  | some cached => trivial
  | none =>
      refine obeys_query.mpr ⟨rfl, fun r hr => ?_⟩
      rcases r with e | (_ | b)
      · trivial
      · trivial
      · obtain ⟨rfl, hb, hid⟩ := hr b rfl
        exact Program.obeys_bind.mpr (state.cache.obeys_setBackup
          (fun _ => maySet_confined hid (fun _ h => CacheValue.backup.inj h ▸ hb) trivial)
          fun _ => trivial)

theorem listAfterLookup_confined (owner : Owner) (oracle : Oracle) (state : AppState)
    (claims : Claims) (params : ListParams) (cfg : AppConfig)
    (cached : Option (List Backup × ℤ)) :
    Program.Obeys (confined owner oracle claims.tenantId) (fun _ _ => True) ()
      (listAfterLookup state claims params cfg cached) := by
  rcases cached with _ | ⟨items, total⟩
  · refine obeys_query.mpr ⟨rfl, fun r _ => ?_⟩
    cases r with
    | error e => trivial
    | ok items =>
        refine obeys_query.mpr ⟨rfl, fun r _ => ?_⟩
        cases r with
        | error e => trivial
        | ok total =>
            dsimp only
            split
            · exact Program.obeys_bind.mpr (state.cache.obeys_setTenantBackups
                (fun _ => maySet_confined rfl (fun _ h => nomatch h) trivial) fun _ => trivial)
            · trivial
  · trivial

/-- **Every handler follows the protocol**, given that the identifier a
create request will use is the tenant's. -/
theorem handle_confined (owner : Owner) (oracle : Oracle) (state : AppState) (claims : Claims)
    (req : Request) (hcreate : ∀ r, req = .create r → owner oracle.newId = some claims.tenantId) :
    Program.Obeys (confined owner oracle claims.tenantId) (fun _ _ => True) ()
      (handle state claims req) := by
  cases req with
  | create req =>
      rw [handle_create]
      cases validateSourcePath req.sourcePath with
      | error e => trivial
      | ok _ =>
          refine obeys_query.mpr ⟨⟨rfl, hcreate req rfl⟩, fun r _ => ?_⟩
          cases r with
          | error e => trivial
          | ok b =>
              exact Program.obeys_bind.mpr (state.cache.obeys_invalidateTenantBackups
                (fun _ => mayDelete_confined rfl trivial) fun _ => trivial)
  | get id =>
      rw [handle_get]
      have hrest := getAfterLookup_confined owner oracle state claims id
      exact Program.obeys_bind.mpr (state.cache.obeys_getBackup
        (fun _ => ⟨fun t h => (nomatch h), fun _ _ => hrest _⟩) fun _ => hrest _)
  | list params =>
      rw [handle_list]
      refine obeys_readConfig.mpr ⟨trivial, fun cfg _ => ?_⟩
      have hrest := listAfterLookup_confined owner oracle state claims params cfg
      split
      · exact Program.obeys_bind.mpr (state.cache.obeys_getTenantBackups
          (fun _ => ⟨fun t h => (Key.tenantBackups.inj h).symm, fun _ _ => hrest _⟩)
          fun _ => hrest _)
      · exact hrest none
  | update id req =>
      rw [handle_update]
      refine obeys_query.mpr ⟨rfl, fun r hr => ?_⟩
      rcases r with e | (_ | b)
      · trivial
      · trivial
      · exact invalidate_confined (hr b rfl)
  | delete id =>
      rw [handle_delete]
      refine obeys_query.mpr ⟨rfl, fun r hr => ?_⟩
      rcases r with e | n
      · trivial
      · dsimp only
        split
        · trivial
        · rename_i hn
          exact invalidate_confined (hr n rfl hn)
  | analyze id =>
      rw [handle_analyze]
      refine obeys_query.mpr ⟨rfl, fun r _ => ?_⟩
      rcases r with e | (_ | b)
      · trivial
      · trivial
      · refine obeys_spawnEntropy.mpr ⟨trivial, fun r _ => ?_⟩
        cases r <;> trivial
  | enqueue id =>
      rw [handle_enqueue]
      refine obeys_query.mpr ⟨rfl, fun r _ => ?_⟩
      rcases r with e | (_ | b)
      · trivial
      · trivial
      · dsimp only
        split
        · refine obeys_publish.mpr ⟨trivial, fun r _ => ?_⟩
          cases r <;> trivial
        · trivial

/-! ### What a handler cannot tell apart -/

section Blind

open Program

variable (state : AppState) (claims : Claims) (tenantId : Uuid) (cache : CacheLayer)

theorem blind_cacheTtlSecs : Blind (sameAnswer tenantId) cache.cacheTtlSecs := by
  rw [CacheLayer.cacheTtlSecs]
  split
  · exact (blind_readConfig fun _ _ h => h).bind fun _ => trivial
  · trivial

theorem blind_setBackup (b : Backup) : Blind (sameAnswer tenantId) (cache.setBackup b) := by
  rw [CacheLayer.setBackup]
  split
  · exact (blind_cacheTtlSecs tenantId cache).bind fun ttl =>
      (blind_command fun _ _ h => h).bind fun _ => trivial
  · trivial

theorem blind_setTenantBackups (t : Uuid) (items : List Backup) (total : ℤ) :
    Blind (sameAnswer tenantId) (cache.setTenantBackups t items total) := by
  rw [CacheLayer.setTenantBackups]
  split
  · exact (blind_cacheTtlSecs tenantId cache).bind fun ttl =>
      (blind_command fun _ _ h => h).bind fun _ => trivial
  · trivial

theorem blind_invalidateBackup (id : Uuid) :
    Blind (sameAnswer tenantId) (cache.invalidateBackup id) := by
  rw [CacheLayer.invalidateBackup]
  split
  · exact (blind_command fun _ _ h => h).bind fun _ => trivial
  · trivial

theorem blind_invalidateTenantBackups (t : Uuid) :
    Blind (sameAnswer tenantId) (cache.invalidateTenantBackups t) := by
  rw [CacheLayer.invalidateTenantBackups]
  split
  · exact (blind_command fun _ _ h => h).bind fun _ => trivial
  · trivial

theorem blind_getTenantBackups (t : Uuid) :
    Blind (sameAnswer tenantId) (cache.getTenantBackups t) := by
  rw [CacheLayer.getTenantBackups]
  split
  · refine (blind_command fun _ _ h => h).bind fun r => ?_
    split <;> trivial
  · trivial

/-- A copy of another tenant is as good as none. -/
theorem blind_getBackup_bind {α : Type} {f : Option Backup → Action α} (id : Uuid)
    (hf : ∀ cached, Blind (sameAnswer tenantId) (f cached)) :
    Blind (sameAnswer tenantId)
      (cache.getBackup id >>= fun cached => f (cached.filter fun b => b.tenantId = tenantId)) := by
  cases hredis : cache.redis with
  | true =>
      rw [CacheLayer.getBackup_bind hredis]
      exact ⟨fun r r' h => congrArg f h, fun r => hf _⟩
  | false =>
      rw [CacheLayer.getBackup, hredis, if_neg Bool.false_ne_true]
      exact hf none

theorem getAfterLookup_blind (id : Uuid) (cached : Option Backup) :
    Blind (sameAnswer tenantId) (getAfterLookup state claims id cached) := by
  cases cached with
  | some cached => trivial
  | none =>
      refine (blind_query fun _ _ h => h).bind fun r => ?_
      rcases r with e | (_ | b)
      · trivial
      · trivial
      · exact (blind_setBackup tenantId _ b).bind fun _ => trivial

theorem listAfterLookup_blind (params : ListParams) (cfg : AppConfig)
    (cached : Option (List Backup × ℤ)) :
    Blind (sameAnswer tenantId) (listAfterLookup state claims params cfg cached) := by
  rcases cached with _ | ⟨items, total⟩
  · refine (blind_query fun _ _ h => h).bind fun r => ?_
    cases r with
    | error e => trivial
    | ok items =>
        refine (blind_query fun _ _ h => h).bind fun r => ?_
        cases r with
        | error e => trivial
        | ok total =>
            dsimp only
            split
            · exact (blind_setTenantBackups tenantId _ _ _ _).bind fun _ => trivial
            · trivial
  · trivial

end Blind

theorem handle_blind (state : AppState) (claims : Claims) (req : Request) :
    Program.Blind (sameAnswer claims.tenantId) (handle state claims req) := by
  cases req with
  | create req =>
      rw [handle_create]
      cases validateSourcePath req.sourcePath with
      | error e => trivial
      | ok _ =>
          refine (blind_query fun _ _ h => h).bind fun r => ?_
          cases r with
          | error e => trivial
          | ok b => exact (blind_invalidateTenantBackups _ _ _).bind fun _ => trivial
  | get id =>
      rw [handle_get]
      exact blind_getBackup_bind _ _ id fun cached => getAfterLookup_blind _ _ _ id cached
  | list params =>
      rw [handle_list]
      refine (blind_readConfig fun _ _ h => h).bind fun cfg => ?_
      split
      · exact (blind_getTenantBackups _ _ _).bind fun cached =>
          listAfterLookup_blind _ _ _ params cfg cached
      · exact listAfterLookup_blind _ _ _ params cfg none
  | update id req =>
      rw [handle_update]
      refine (blind_query fun _ _ h => h).bind fun r => ?_
      rcases r with e | (_ | b)
      · trivial
      · trivial
      · exact (blind_invalidateBackup _ _ _).bind fun _ =>
          (blind_invalidateTenantBackups _ _ _).bind fun _ => trivial
  | delete id =>
      rw [handle_delete]
      refine (blind_query fun _ _ h => h).bind fun r => ?_
      rcases r with e | n
      · trivial
      · dsimp only
        split
        · trivial
        · exact (blind_invalidateBackup _ _ _).bind fun _ =>
            (blind_invalidateTenantBackups _ _ _).bind fun _ => trivial
  | analyze id =>
      rw [handle_analyze]
      refine (blind_query fun _ _ h => h).bind fun r => ?_
      rcases r with e | (_ | b)
      · trivial
      · trivial
      · refine (blind_spawnEntropy fun _ _ h => h).bind fun r => ?_
        cases r <;> trivial
  | enqueue id =>
      rw [handle_enqueue]
      refine (blind_query fun _ _ h => h).bind fun r => ?_
      rcases r with e | (_ | b)
      · trivial
      · trivial
      · dsimp only
        split
        · refine (blind_publish fun _ _ h => h).bind fun r => ?_
          cases r <;> trivial
        · trivial

/-! ### One operation -/

structure Store.OwnedBy (owner : Owner) (st : Store) : Prop where
  db : st.db.OwnedBy owner
  redis : st.redis.OwnedBy owner

/-- The two stores are the same as far as the tenant is concerned. -/
structure Store.Agree (owner : Owner) (tenantId : Uuid) (st st' : Store) : Prop where
  db : st.db.restrict tenantId = st'.db.restrict tenantId
  redis : ∀ key : Key, key.BelongsTo owner tenantId → st.redis key = st'.redis key

theorem Store.Agree.refl (owner : Owner) (tenantId : Uuid) (st : Store) :
    st.Agree owner tenantId st := ⟨rfl, fun _ _ => rfl⟩

theorem Store.Agree.trans {owner : Owner} {tenantId : Uuid} {st st' st'' : Store}
    (h : st.Agree owner tenantId st') (h' : st'.Agree owner tenantId st'') :
    st.Agree owner tenantId st'' :=
  ⟨h.db.trans h'.db, fun key hkey => (h.redis key hkey).trans (h'.redis key hkey)⟩

section Operation

variable {owner : Owner} {oracle : Oracle} {tenantId other : Uuid} (env : Env) (config : AppConfig)
  (clock : ℕ) {o : Op} {st st' : Store}

theorem opExec_ownedBy (ho : (confined owner oracle tenantId).allow () o) (h : st.OwnedBy owner) :
    (o.exec env oracle config clock st).2.OwnedBy owner := by
  cases o with
  | sql s =>
      have hdb := exec_ownedBy env.order ho h.db
      simp only [Op.exec]
      split
      · exact ⟨hdb, h.redis⟩
      · exact h
      · exact ⟨hdb, h.redis⟩
  | redis c =>
      simp only [Op.exec]
      split
      · exact ⟨h.db, ownedBy_effect ho h.redis⟩
      · exact h
      · exact ⟨h.db, ownedBy_effect ho h.redis⟩
  | config | entropy => exact h
  | publish job =>
      simp only [Op.exec]
      split
      · exact ⟨h.db, h.redis⟩
      · exact h

theorem owner_of_mem {t : Table} (ht : t.OwnedBy owner) {id : Uuid} {r : Backup} (hr : r ∈ t.rows)
    (hp : (decide (r.id = id) && decide (r.tenantId = tenantId)) = true) :
    r.id = id ∧ r.tenantId = tenantId ∧ owner id = some tenantId := by
  obtain ⟨rfl, rfl⟩ : r.id = id ∧ r.tenantId = tenantId := by simpa using hp
  exact ⟨rfl, rfl, ht r hr⟩

/-- A backup that the database finds is the tenant's. -/
theorem exec_rely {s : Sql} {order : RowOrder} {t : Table} (hs : s.Within owner oracle tenantId)
    (ht : t.OwnedBy owner) :
    (confined owner oracle tenantId).rely () (.sql s) (s.exec order oracle t).1 := by
  cases s with
  | selectBackup id t' =>
      obtain rfl := hs
      intro b hb
      have hfind := Except.ok.inj hb
      exact owner_of_mem ht (List.mem_of_find?_eq_some hfind) (by simpa using List.find?_some hfind)
  | updateBackup id t' status sizeBytes =>
      obtain rfl := hs
      intro b hb
      simp only [Sql.exec, Table.update] at hb
      split at hb
      · have hhead := Except.ok.inj hb
        obtain ⟨r, hr, -⟩ := List.mem_map.mp (List.mem_of_mem_head? hhead)
        obtain ⟨hr, hp⟩ := List.mem_filter.mp hr
        exact (owner_of_mem ht hr hp).2.2
      · cases hb
  | deleteBackup id t' =>
      obtain rfl := hs
      intro n hn hpos
      obtain rfl := Except.ok.inj hn
      obtain ⟨r, hr, hp⟩ := List.countP_pos_iff.mp (Nat.pos_of_ne_zero hpos)
      exact (owner_of_mem ht hr hp).2.2
  | insertBackup t' sourcePath encryptionEnabled => trivial
  | selectBackups t' status limit offset => trivial
  | countBackups t' status => trivial
  | setStatus id status => trivial
  | setCompleted id sizeBytes => trivial
  | setFailed id => trivial

theorem opExec_rely (ho : (confined owner oracle tenantId).allow () o) (h : st.OwnedBy owner) :
    (confined owner oracle tenantId).rely () o (o.exec env oracle config clock st).1 := by
  cases o with
  | sql s =>
      have herror : (confined owner oracle tenantId).rely () (.sql s) (.error .unavailable) := by
        cases s with
        | selectBackup id t' => exact fun b hb => (nomatch hb)
        | updateBackup id t' status sizeBytes => exact fun b hb => (nomatch hb)
        | deleteBackup id t' => exact fun n hn => (nomatch hn)
        | insertBackup t' sourcePath encryptionEnabled => trivial
        | selectBackups t' status limit offset => trivial
        | countBackups t' status => trivial
        | setStatus id status => trivial
        | setCompleted id sizeBytes => trivial
        | setFailed id => trivial
      simp only [Op.exec]
      split
      · exact exec_rely ho h.db
      · exact herror
      · exact herror
  | redis c => trivial
  | config | entropy => trivial
  | publish job => trivial

theorem opExec_agree (ho : (confined owner oracle tenantId).allow () o) (h : st.OwnedBy owner)
    (h' : st'.OwnedBy owner) (hagree : st.Agree owner tenantId st') :
    sameAnswer tenantId o (o.exec env oracle config clock st).1
        (o.exec env oracle config clock st').1 ∧
      (o.exec env oracle config clock st).2.Agree owner tenantId
        (o.exec env oracle config clock st').2 := by
  cases o with
  | sql s =>
      have heq := exec_restrict env.order ho h.db
      rw [hagree.db, exec_restrict env.order ho h'.db, Prod.mk.injEq] at heq
      simp only [Op.exec]
      split
      · exact ⟨heq.1.symm, heq.2.symm, hagree.redis⟩
      · exact ⟨rfl, hagree⟩
      · exact ⟨rfl, heq.2.symm, hagree.redis⟩
  | redis c =>
      simp only [Op.exec]
      split
      · exact ⟨answer_agree ho h.redis h'.redis hagree.redis, hagree.db,
          fun key => effect_agree c hagree.redis⟩
      · exact ⟨sameAnswer_refl _ _ _, hagree⟩
      · exact ⟨sameAnswer_refl _ _ _, hagree.db, fun key => effect_agree c hagree.redis⟩
  | config | entropy => exact ⟨rfl, hagree⟩
  | publish job =>
      refine ⟨rfl, ?_⟩
      simp only [Op.exec]
      split <;> exact ⟨hagree.db, hagree.redis⟩

/-- An operation of another tenant changes nothing that is the tenant's. -/
theorem opExec_of_ne (ho : (confined owner oracle other).allow () o) (h : st.OwnedBy owner)
    (hne : other ≠ tenantId) : (o.exec env oracle config clock st).2.Agree owner tenantId st := by
  cases o with
  | sql s =>
      have hdb := exec_restrict_of_ne env.order ho h.db hne
      simp only [Op.exec]
      split
      · exact ⟨hdb, fun _ _ => rfl⟩
      · exact .refl _ _ _
      · exact ⟨hdb, fun _ _ => rfl⟩
  | redis c =>
      simp only [Op.exec]
      split
      · exact ⟨rfl, fun key hkey => effect_of_ne ho hne hkey⟩
      · exact .refl _ _ _
      · exact ⟨rfl, fun key hkey => effect_of_ne ho hne hkey⟩
  | config | entropy => exact .refl _ _ _
  | publish job =>
      simp only [Op.exec]
      split <;> exact ⟨rfl, fun _ _ => rfl⟩

end Operation

/-! ### Two runs -/

/-- What is known of a request in flight. -/
structure Thread.Confined (owner : Owner) (id : ReqId) (th : Thread) : Prop where
  tenant : th.claims.tenantId = id.tenant
  obeys : Program.Obeys (confined owner th.oracle id.tenant) (fun _ _ => True) () th.prog
  blind : Program.Blind (sameAnswer id.tenant) th.prog

structure State.OwnedBy (owner : Owner) (s : State) : Prop where
  store : s.store.OwnedBy owner
  inflight : ∀ id th, s.inflight id = some th → th.Confined owner id

/-- The two states are the same as far as the tenant is concerned. -/
structure State.Agree (owner : Owner) (tenantId : Uuid) (s s' : State) : Prop where
  owned : s.OwnedBy owner
  owned' : s'.OwnedBy owner
  store : s.store.Agree owner tenantId s'.store
  replicas : s.replicas = s'.replicas
  clock : s.clock = s'.clock
  inflight : ∀ id : ReqId, id.tenant = tenantId → s.inflight id = s'.inflight id

/-- The identifiers that create requests are given are their tenants'. -/
def Event.OwnedBy (owner : Owner) : Event → Prop
  | start _ _ claims (.create _) oracle => owner oracle.newId = some claims.tenantId
  | _ => True

/-- Whether an event is left when everything is deleted that the other
tenants and the callbacks on their rows do. -/
def Event.keptFor (uuid : UuidParser) (owner : Owner) (tenantId : Uuid) : Event → Bool
  | start _ _ claims _ _ => claims.tenantId = tenantId
  | step id _ => id.tenant = tenantId
  | drop id => id.tenant = tenantId
  | rpc call _ _ =>
      match uuid.parse call.backupId with
      | .ok id => (owner id).all (· = tenantId)
      | .error _ => true
  | _ => true

/-- Whether an observation is a response to the tenant. -/
def Obs.isResponseTo (tenantId : Uuid) (o : Obs) : Bool := o.responseTo = some tenantId

section Steps

variable {uuid : UuidParser} {owner : Owner} {tenantId : Uuid} {s s' : State}

theorem Thread.Confined.next {id : ReqId} {th : Thread} {o : Op}
    {k : o.Answer → Action Response} (h : th.Confined owner id) (hprog : th.prog = .op o k)
    {r : o.Answer} (hr : (confined owner th.oracle id.tenant).rely () o r) :
    Thread.Confined owner id { th with prog := k r } := by
  have hobeys := h.obeys
  have hblind := h.blind
  rw [hprog] at hobeys hblind
  exact ⟨h.tenant, hobeys.2 r hr, hblind.2 r⟩

theorem State.OwnedBy.setThread (h : s.OwnedBy owner) {id : ReqId} {th : Option Thread}
    (hth : ∀ th', th = some th' → th'.Confined owner id) : (s.setThread id th).OwnedBy owner := by
  refine ⟨h.store, fun id' th' hth' => ?_⟩
  by_cases heq : id' = id
  · subst heq
    rw [State.setThread_inflight_self] at hth'
    exact hth th' hth'
  · rw [State.setThread_inflight_of_ne _ _ heq] at hth'
    exact h.inflight id' th' hth'

theorem State.OwnedBy.setStore (h : s.OwnedBy owner) {store : Store} (hstore : store.OwnedBy owner) :
    (s.setStore store).OwnedBy owner := ⟨hstore, h.inflight⟩

theorem Thread.Confined.allow {id : ReqId} {th : Thread} {o : Op}
    {k : o.Answer → Action Response} (h : th.Confined owner id) (hprog : th.prog = .op o k) :
    (confined owner th.oracle id.tenant).allow () o := by
  have := h.obeys
  rw [hprog] at this
  exact this.1

/-- A step of a request keeps what is known of the state. -/
theorem stepThread_ownedBy (h : s.OwnedBy owner) (id : ReqId) (env : Env) :
    (s.stepThread id env).1.OwnedBy owner := by
  cases hth : s.inflight id with
  | none => rwa [State.stepThread_none hth]
  | some th =>
      have hconf := h.inflight id th hth
      cases hprog : th.prog with
      | ret response =>
          rw [State.stepThread_ret hth hprog]
          exact h.setThread fun _ h => nomatch h
      | op o k =>
          rw [State.stepThread_op hth hprog]
          have hallow := hconf.allow hprog
          refine (h.setStore (opExec_ownedBy _ _ _ hallow h.store)).setThread fun th' hth' => ?_
          rw [← Option.some.inj hth']
          exact hconf.next hprog (opExec_rely _ _ _ hallow h.store)

theorem start_ownedBy (h : s.OwnedBy owner) (replica seq : ℕ) (claims : Claims) (req : Request)
    (oracle : Oracle) (hcreate : ∀ r, req = .create r → owner oracle.newId = some claims.tenantId) :
    (s.start replica seq claims req oracle).OwnedBy owner := by
  simp only [State.start]
  split
  · exact h
  · refine h.setThread fun th hth => ?_
    rw [← Option.some.inj hth]
    exact ⟨rfl, handle_confined owner oracle _ claims req hcreate, handle_blind _ claims req⟩

theorem statement_within {call : Rpc} {id : Uuid} (oracle : Oracle)
    (hid : owner.Admits tenantId id) : (call.statement id).Within owner oracle tenantId := by
  cases call with
  | updateStatus msg => exact hid
  | reportResult result =>
      rw [Rpc.statement]
      split <;> exact hid

/-- There is always a tenant within which a callback stays. -/
theorem exists_admits (owner : Owner) (id : Uuid) : ∃ t, owner.Admits t id := by
  cases hid : owner id with
  | none => exact ⟨id, fun t ht => by simp [hid] at ht⟩
  | some t => exact ⟨t, fun t' ht' => (Option.some.inj (hid.symm.trans ht')).symm⟩

theorem call_ownedBy (h : s.OwnedBy owner) (call : Rpc) (oracle : Oracle) (env : Env) :
    (s.call uuid call oracle env).2.OwnedBy owner := by
  rcases s.call_store uuid call oracle env with ⟨e, -, heq⟩ | ⟨id, -, heq⟩
  · rw [heq]
    exact h.store
  · obtain ⟨t, ht⟩ := exists_admits owner id
    rw [heq]
    exact opExec_ownedBy _ _ _ (statement_within oracle ht) h.store

theorem Redis.OwnedBy.expire {r : Redis} (h : r.OwnedBy owner) (key : Key) :
    Redis.OwnedBy owner (Function.update r key none) := by
  intro id b e hget
  by_cases heq : Key.backup id = key
  · simp [heq] at hget
  · rw [Function.update_of_ne heq] at hget
    exact h id b e hget

theorem Redis.OwnedBy.advance {r : Redis} (h : r.OwnedBy owner) (clock : ℕ) :
    Redis.OwnedBy owner (r.advance clock) := fun id b e hget =>
  h id b e (Option.eq_some_of_filter_eq_some hget)

/-- Every event keeps what is known of the state. -/
theorem step_ownedBy (uuid : UuidParser) (h : s.OwnedBy owner) {e : Event} (he : e.OwnedBy owner) :
    ((system uuid).step s e).1.OwnedBy owner := by
  cases e with
  | start replica seq claims req oracle =>
      exact start_ownedBy h replica seq claims req oracle fun r hr => by
        subst hr
        exact he
  | step id env => exact stepThread_ownedBy h id env
  | drop id => exact h.setThread fun _ h => nomatch h
  | rpc call oracle env => exact h.setStore (call_ownedBy h call oracle env)
  | configUpdate replica update => exact ⟨h.store, h.inflight⟩
  | expire key => exact h.setStore ⟨h.store.db, h.store.redis.expire key⟩
  | advance clock => exact ⟨⟨h.store.db, h.store.redis.advance _⟩, h.inflight⟩

end Steps

section TwoRuns

variable {uuid : UuidParser} {owner : Owner} {tenantId : Uuid} {s s' : State}

/-- A step of one of the tenant's requests is the same step on both sides. -/
theorem stepThread_agree (h : s.Agree owner tenantId s') {id : ReqId} (hid : id.tenant = tenantId)
    (env : Env) :
    (s.stepThread id env).1.Agree owner tenantId (s'.stepThread id env).1 ∧
      (s.stepThread id env).2.filter (Obs.isResponseTo tenantId) =
        (s'.stepThread id env).2.filter (Obs.isResponseTo tenantId) := by
  have howned := stepThread_ownedBy h.owned id env
  have howned' := stepThread_ownedBy h.owned' id env
  have hsame := h.inflight id hid
  have hset : ∀ (t t' : State) (th : Option Thread), (∀ id', id'.tenant = tenantId →
      t.inflight id' = t'.inflight id') → ∀ id', id'.tenant = tenantId →
        (t.setThread id th).inflight id' = (t'.setThread id th).inflight id' := by
    intro t t' th ht id' hid'
    by_cases heq : id' = id
    · rw [heq, State.setThread_inflight_self, State.setThread_inflight_self]
    · rw [State.setThread_inflight_of_ne _ _ heq, State.setThread_inflight_of_ne _ _ heq]
      exact ht id' hid'
  cases hth : s.inflight id with
  | none =>
      rw [State.stepThread_none hth, State.stepThread_none (hsame ▸ hth)]
      exact ⟨h, rfl⟩
  | some th =>
      have hth' : s'.inflight id = some th := hsame ▸ hth
      cases hprog : th.prog with
      | ret response =>
          rw [State.stepThread_ret hth hprog] at howned ⊢
          rw [State.stepThread_ret hth' hprog] at howned' ⊢
          exact ⟨⟨howned, howned', h.store, h.replicas, h.clock, hset _ _ _ h.inflight⟩, rfl⟩
      | op o k =>
          have hconf := h.owned.inflight id th hth
          have hallow := hconf.allow hprog
          rw [hid] at hallow
          have hblind := hconf.blind
          rw [hprog, hid] at hblind
          obtain ⟨hanswer, hstore⟩ := opExec_agree env (s.replicas th.replica).config s.clock
            hallow h.owned.store h.owned'.store h.store
          have hexec' : s'.exec th env o =
              o.exec env th.oracle (s.replicas th.replica).config s.clock s'.store := by
            rw [State.exec, h.replicas, h.clock]
          rw [State.stepThread_op hth hprog] at howned ⊢
          rw [State.stepThread_op hth' hprog, hexec'] at howned' ⊢
          rw [← hblind.1 _ _ hanswer] at howned' ⊢
          exact ⟨⟨howned, howned', hstore, h.replicas, h.clock, hset _ _ _ h.inflight⟩, rfl⟩

/-- A step of somebody else's request cannot be seen. -/
theorem stepThread_of_ne (h : s.Agree owner tenantId s') {id : ReqId} (hid : id.tenant ≠ tenantId)
    (env : Env) :
    (s.stepThread id env).1.Agree owner tenantId s' ∧
      (s.stepThread id env).2.filter (Obs.isResponseTo tenantId) = [] := by
  have howned := stepThread_ownedBy h.owned id env
  have hset : ∀ (t : State) (th : Option Thread), t.inflight = s.inflight →
      ∀ id', id'.tenant = tenantId → (t.setThread id th).inflight id' = s'.inflight id' := by
    intro t th ht id' hid'
    have hne : id' ≠ id := fun heq => hid (heq ▸ hid')
    rw [State.setThread_inflight_of_ne _ _ hne, ht]
    exact h.inflight id' hid'
  cases hth : s.inflight id with
  | none =>
      rw [State.stepThread_none hth]
      exact ⟨h, rfl⟩
  | some th =>
      cases hprog : th.prog with
      | ret response =>
          rw [State.stepThread_ret hth hprog] at howned ⊢
          refine ⟨⟨howned, h.owned', h.store, h.replicas, h.clock, hset _ _ rfl⟩, ?_⟩
          simp [Obs.isResponseTo, Obs.responseTo, hid]
      | op o k =>
          have hconf := h.owned.inflight id th hth
          have hstore := opExec_of_ne env (s.replicas th.replica).config s.clock
            (hconf.allow hprog) h.owned.store hid
          rw [State.stepThread_op hth hprog] at howned ⊢
          exact ⟨⟨howned, h.owned', hstore.trans h.store, h.replicas, h.clock, hset _ _ rfl⟩, rfl⟩

theorem start_agree (h : s.Agree owner tenantId s') (replica seq : ℕ) {claims : Claims}
    (hid : claims.tenantId = tenantId) (req : Request) (oracle : Oracle)
    (hcreate : ∀ r, req = .create r → owner oracle.newId = some claims.tenantId) :
    (s.start replica seq claims req oracle).Agree owner tenantId
      (s'.start replica seq claims req oracle) := by
  have howned := start_ownedBy h.owned replica seq claims req oracle hcreate
  have howned' := start_ownedBy h.owned' replica seq claims req oracle hcreate
  have hsame := h.inflight ⟨claims.tenantId, seq⟩ hid
  have hnew : s'.newThread replica claims req oracle = s.newThread replica claims req oracle := by
    simp only [State.newThread, h.replicas, h.clock]
  simp only [State.start, ← hsame, hnew] at howned howned' ⊢
  cases hth : s.inflight ⟨claims.tenantId, seq⟩ with
  | some th => exact h
  | none =>
      simp only [hth] at howned howned'
      refine ⟨howned, howned', h.store, h.replicas, h.clock, fun id' hid' => ?_⟩
      by_cases heq : id' = ⟨claims.tenantId, seq⟩
      · rw [heq, State.setThread_inflight_self, State.setThread_inflight_self]
      · rw [State.setThread_inflight_of_ne _ _ heq, State.setThread_inflight_of_ne _ _ heq]
        exact h.inflight id' hid'

theorem start_of_ne (h : s.Agree owner tenantId s') (replica seq : ℕ) {claims : Claims}
    (hid : claims.tenantId ≠ tenantId) (req : Request) (oracle : Oracle)
    (hcreate : ∀ r, req = .create r → owner oracle.newId = some claims.tenantId) :
    (s.start replica seq claims req oracle).Agree owner tenantId s' := by
  have howned := start_ownedBy h.owned replica seq claims req oracle hcreate
  simp only [State.start] at howned ⊢
  cases hth : s.inflight ⟨claims.tenantId, seq⟩ with
  | some th => exact h
  | none =>
      simp only [hth] at howned
      refine ⟨howned, h.owned', h.store, h.replicas, h.clock, fun id' hid' => ?_⟩
      rw [State.setThread_inflight_of_ne _ _ fun heq => hid (by rw [← hid', heq])]
      exact h.inflight id' hid'

/-- A callback on no other tenant's row is the same on both sides. -/
theorem call_agree (h : s.Agree owner tenantId s') (call : Rpc) (oracle : Oracle) (env : Env)
    (hkept : ∀ id, uuid.parse call.backupId = .ok id → owner.Admits tenantId id) :
    (s.call uuid call oracle env).2.Agree owner tenantId (s'.call uuid call oracle env).2 := by
  rcases s.call_store uuid call oracle env with ⟨e, herr, heq⟩ | ⟨id, hid, heq⟩ <;>
    rcases s'.call_store uuid call oracle env with ⟨e', herr', heq'⟩ | ⟨id', hid', heq'⟩
  · rw [heq, heq']
    exact h.store
  · cases herr.symm.trans hid'
  · cases hid.symm.trans herr'
  · obtain rfl := Except.ok.inj (hid.symm.trans hid')
    rw [heq, heq', ← h.replicas, ← h.clock]
    have hallow : (confined owner oracle tenantId).allow () (.sql (call.statement id)) :=
      statement_within oracle (hkept id hid)
    exact (opExec_agree _ _ _ hallow h.owned.store h.owned'.store h.store).2

theorem call_of_ne (h : s.Agree owner tenantId s') (call : Rpc) (oracle : Oracle) (env : Env)
    {id other : Uuid} (hid : uuid.parse call.backupId = .ok id) (hother : owner id = some other)
    (hne : other ≠ tenantId) :
    (s.call uuid call oracle env).2.Agree owner tenantId s'.store := by
  rcases s.call_store uuid call oracle env with ⟨e, herr, -⟩ | ⟨id', hid', heq⟩
  · cases herr.symm.trans hid
  · obtain rfl := Except.ok.inj (hid.symm.trans hid')
    have hallow : (confined owner oracle other).allow () (.sql (call.statement id)) :=
      statement_within oracle fun t ht => Option.some.inj (ht.symm.trans hother)
    rw [heq]
    exact (opExec_of_ne _ _ _ hallow h.owned.store hne).trans h.store

/-- Two states that the tenant cannot tell apart stay so, and show the
tenant the same, under an event that is kept. -/
theorem step_agree (h : s.Agree owner tenantId s') {e : Event} (he : e.OwnedBy owner)
    (hkept : e.keptFor uuid owner tenantId = true) :
    ((system uuid).step s e).1.Agree owner tenantId ((system uuid).step s' e).1 ∧
      ((system uuid).step s e).2.filter (Obs.isResponseTo tenantId) =
        ((system uuid).step s' e).2.filter (Obs.isResponseTo tenantId) := by
  have howned := step_ownedBy uuid h.owned he
  have howned' := step_ownedBy uuid h.owned' he
  cases e with
  | start replica seq claims req oracle =>
      have hid : claims.tenantId = tenantId := by simpa [Event.keptFor] using hkept
      rw [step_start, step_start]
      exact ⟨start_agree h replica seq hid req oracle fun r hr => by subst hr; exact he, rfl⟩
  | step id env =>
      have hid : id.tenant = tenantId := by simpa [Event.keptFor] using hkept
      rw [step_step, step_step]
      exact stepThread_agree h hid env
  | drop id =>
      rw [step_drop] at howned howned'
      rw [step_drop, step_drop]
      refine ⟨⟨howned, howned', h.store, h.replicas, h.clock, fun id' hid' => ?_⟩, rfl⟩
      by_cases heq : id' = id
      · rw [heq, State.setThread_inflight_self, State.setThread_inflight_self]
      · rw [State.setThread_inflight_of_ne _ _ heq, State.setThread_inflight_of_ne _ _ heq]
        exact h.inflight id' hid'
  | rpc call oracle env =>
      rw [step_rpc] at howned howned'
      rw [step_rpc, step_rpc]
      -- A callback is kept if its row belongs to the tenant, or to nobody.
      refine ⟨⟨howned, howned', call_agree h call oracle env fun id hid t ht => ?_, h.replicas,
        h.clock, h.inflight⟩, by simp [Obs.isResponseTo, Obs.responseTo]⟩
      simpa [Event.keptFor, hid, ht] using hkept
  | configUpdate replica update =>
      rw [step_configUpdate] at howned howned'
      rw [step_configUpdate, step_configUpdate]
      refine ⟨⟨howned, howned', h.store, ?_, h.clock, h.inflight⟩, rfl⟩
      simp only [State.updateConfig, h.replicas]
  | expire key =>
      rw [step_expire] at howned howned'
      rw [step_expire, step_expire]
      refine ⟨⟨howned, howned', ⟨h.store.db, fun key' hkey' => ?_⟩, h.replicas, h.clock,
        h.inflight⟩, rfl⟩
      by_cases heq : key' = key
      · simp [heq]
      · simp only [State.setStore_store, Function.update_of_ne heq]
        exact h.store.redis key' hkey'
  | advance clock =>
      rw [step_advance] at howned howned'
      rw [step_advance, step_advance]
      refine ⟨⟨howned, howned', ⟨h.store.db, fun key' hkey' => ?_⟩, h.replicas, ?_, h.inflight⟩, rfl⟩
      · simp only [Redis.advance, h.clock, h.store.redis key' hkey']
      · simp only [h.clock]

/-- A deleted event changes nothing for the tenant, and shows it nothing. -/
theorem step_of_not_kept (h : s.Agree owner tenantId s') {e : Event} (he : e.OwnedBy owner)
    (hkept : e.keptFor uuid owner tenantId = false) :
    ((system uuid).step s e).1.Agree owner tenantId s' ∧
      ((system uuid).step s e).2.filter (Obs.isResponseTo tenantId) = [] := by
  have howned := step_ownedBy uuid h.owned he
  cases e with
  | start replica seq claims req oracle =>
      have hid : claims.tenantId ≠ tenantId := by simpa [Event.keptFor] using hkept
      rw [step_start]
      exact ⟨start_of_ne h replica seq hid req oracle fun r hr => by subst hr; exact he, rfl⟩
  | step id env =>
      have hid : id.tenant ≠ tenantId := by simpa [Event.keptFor] using hkept
      rw [step_step]
      exact stepThread_of_ne h hid env
  | drop id =>
      have hid : id.tenant ≠ tenantId := by simpa [Event.keptFor] using hkept
      rw [step_drop] at howned
      rw [step_drop]
      refine ⟨⟨howned, h.owned', h.store, h.replicas, h.clock, fun id' hid' => ?_⟩, rfl⟩
      have hne : id' ≠ id := fun heq => hid (heq ▸ hid')
      rw [State.setThread_inflight_of_ne _ _ hne]
      exact h.inflight id' hid'
  | rpc call oracle env =>
      rw [step_rpc] at howned
      rw [step_rpc]
      cases hid : uuid.parse call.backupId with
      | error e => simp [Event.keptFor, hid] at hkept
      | ok id =>
          cases hother : owner id with
          | none => simp [Event.keptFor, hid, hother] at hkept
          | some other =>
              have hne : other ≠ tenantId := by simpa [Event.keptFor, hid, hother] using hkept
              exact ⟨⟨howned, h.owned', call_of_ne h call oracle env hid hother hne, h.replicas,
                h.clock, h.inflight⟩, by simp [Obs.isResponseTo, Obs.responseTo]⟩
  | configUpdate replica update => simp [Event.keptFor] at hkept
  | expire key => simp [Event.keptFor] at hkept
  | advance clock => simp [Event.keptFor] at hkept

end TwoRuns

/-! ### Noninterference -/

/-- The identifier of a row that an event will create, and its tenant. -/
def Event.issued : Event → Option (Uuid × Uuid)
  | start _ _ claims (.create _) oracle => some (oracle.newId, claims.tenantId)
  | _ => none

/-- The identifiers of all rows of a run, with their tenants. -/
def issued (db : Table) (es : List Event) : List (Uuid × Uuid) :=
  db.rows.map (fun r => (r.id, r.tenantId)) ++ es.filterMap Event.issued

def ownerIn (db : Table) (es : List Event) : Owner := fun id =>
  ((issued db es).find? (·.1 = id)).map Prod.snd

theorem ownerIn_of_mem {db : Table} {es : List Event} (hfresh : ((issued db es).map Prod.fst).Nodup)
    {id tenantId : Uuid} (h : (id, tenantId) ∈ issued db es) :
    ownerIn db es id = some tenantId := by
  rw [ownerIn]
  cases hf : (issued db es).find? (·.1 = id) with
  | none =>
      have := List.find?_eq_none.mp hf _ h
      simp at this
  | some x =>
      have hx : x.1 = id := by simpa using List.find?_some hf
      rw [List.inj_on_of_nodup_map hfresh (List.mem_of_find?_eq_some hf) h hx]
      rfl

theorem initial_ownedBy {owner : Owner} {db : Table} (hdb : db.OwnedBy owner)
    (replicas : ℕ → Replica) : (State.initial db replicas).OwnedBy owner :=
  ⟨⟨hdb, fun _ _ _ h => nomatch h⟩, fun _ _ h => nomatch h⟩

/-- **Tenant noninterference.** When the identifiers of all rows are
different, a tenant receives the same responses in a run and in what is
left of it after everything has been deleted that the requests of other
tenants do and that the workers do to rows of other tenants. -/
theorem tenant_noninterference (uuid : UuidParser) (db : Table) (replicas : ℕ → Replica)
    (es : List Event) (hfresh : ((issued db es).map Prod.fst).Nodup) (tenantId : Uuid) :
    ((system uuid).trace (.initial db replicas) es).filter (Obs.isResponseTo tenantId) =
      ((system uuid).trace (.initial db replicas)
        (es.filter (Event.keptFor uuid (ownerIn db es) tenantId))).filter
          (Obs.isResponseTo tenantId) := by
  have hdb : db.OwnedBy (ownerIn db es) := fun r hr =>
    ownerIn_of_mem hfresh (List.mem_append_left _ (List.mem_map_of_mem hr))
  have hes : ∀ e ∈ es, e.OwnedBy (ownerIn db es) := by
    intro e he
    cases e with
    | start replica seq claims req oracle =>
        cases req with
        | create req =>
            exact ownerIn_of_mem hfresh (List.mem_append_right _
              (List.mem_filterMap.mpr ⟨_, he, rfl⟩))
        | get | list | update | delete | analyze | enqueue => trivial
    | step | drop | rpc | configUpdate | expire | advance => trivial
  have hinit := initial_ownedBy hdb replicas
  exact (system uuid).trace_filter_eq (R := State.Agree (ownerIn db es) tenantId)
    (fun s s' e h he => step_agree h he) (fun s s' e h he => step_of_not_kept h he)
    ⟨hinit, hinit, .refl _ _ _, rfl, rfl, fun _ _ => rfl⟩ hes

/-- Tenant `2` creates a backup and reads it, so that it is cached, and
tenant `1` asks for it. -/
def crossTenantRun : List Event :=
  let claims (t : Uuid) : Claims := ⟨"user", t, [], 0, 0⟩
  let steps (t : Uuid) (seq : ℕ) : List Event := List.replicate 8 (.step ⟨t, seq⟩ {})
  .start 0 0 (claims ⟨2⟩) (.create ⟨"/data", false⟩) ⟨⟨7⟩, 0⟩ :: steps ⟨2⟩ 0 ++
    .start 0 1 (claims ⟨2⟩) (.get ⟨7⟩) ⟨⟨0⟩, 0⟩ :: steps ⟨2⟩ 1 ++
    .start 0 0 (claims ⟨1⟩) (.get ⟨7⟩) ⟨⟨0⟩, 0⟩ :: steps ⟨1⟩ 0

theorem tenant_noninterference_crossTenantRun :
    ((system .hyphenated).trace (.initial .empty fun _ => ⟨⟨.connected, true⟩, .default⟩)
        crossTenantRun).filter (Obs.isResponseTo ⟨1⟩) =
      ((system .hyphenated).trace (.initial .empty fun _ => ⟨⟨.connected, true⟩, .default⟩)
        (crossTenantRun.filter (Event.keptFor .hyphenated (ownerIn .empty crossTenantRun) ⟨1⟩))).filter
          (Obs.isResponseTo ⟨1⟩) :=
  tenant_noninterference _ _ _ _ (by decide) _

end BackupService
