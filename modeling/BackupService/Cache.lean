import BackupService.Operations

/-!
The Redis-backed cache. Every error of Redis is swallowed here: a read that
fails is a miss, and a write or a deletion that fails is not repeated.
-/

namespace BackupService

open Lib

def defaultCacheTtlSecs : UInt64 := 300

/-- `CacheLayer`: whether it holds a connection, and whether it holds the
shared configuration. Its constructors leave out the latter only together
with the former. -/
structure CacheLayer where
  redis : Bool
  config : Bool
  configured : redis = true → config = true
  deriving DecidableEq, Repr

namespace CacheLayer

/-- `CacheLayer::new`, when Redis is there. -/
def connected : CacheLayer := ⟨true, true, fun _ => rfl⟩

def noop : CacheLayer := ⟨false, false, fun h => h⟩

def cacheTtlSecs (self : CacheLayer) : Action UInt64 :=
  if self.config then do return (← readConfig).cacheTtlSecs
  else return defaultCacheTtlSecs

def getBackup (self : CacheLayer) (id : Uuid) : Action (Option Backup) :=
  if self.redis then do
    match ← command (.get (.backup id)) with
    | .ok (some (.backup b)) => return some b
    | _ => return none
  else return none

def setBackup (self : CacheLayer) (backup : Backup) : Action Unit :=
  if self.redis then do
    let ttl ← self.cacheTtlSecs
    let _ ← command (.setEx (.backup backup.id) (.backup backup) ttl)
  else return

def invalidateBackup (self : CacheLayer) (id : Uuid) : Action Unit :=
  if self.redis then do
    let _ ← command (.del (.backup id))
  else return

def getTenantBackups (self : CacheLayer) (tenantId : Uuid) : Action (Option (List Backup × ℤ)) :=
  if self.redis then do
    match ← command (.get (.tenantBackups tenantId)) with
    | .ok (some (.page items total)) => return some (items, total)
    | _ => return none
  else return none

def setTenantBackups (self : CacheLayer) (tenantId : Uuid) (items : List Backup) (total : ℤ) :
    Action Unit :=
  if self.redis then do
    let ttl ← self.cacheTtlSecs
    let _ ← command (.setEx (.tenantBackups tenantId) (.page items total) ttl)
  else return

def invalidateTenantBackups (self : CacheLayer) (tenantId : Uuid) : Action Unit :=
  if self.redis then do
    let _ ← command (.del (.tenantBackups tenantId))
  else return

end CacheLayer

/-! ### The atomic steps of the cache -/

/-- What `get_backup` makes of an answer: an error is a miss. -/
def cachedBackup : Except RedisError (Option CacheValue) → Option Backup
  | .ok (some (.backup b)) => some b
  | _ => none

/-- What `get_tenant_backups` makes of an answer. -/
def cachedPage : Except RedisError (Option CacheValue) → Option (List Backup × ℤ)
  | .ok (some (.page items total)) => some (items, total)
  | _ => none

theorem cachedBackup_ok {v : Option CacheValue} {b : Backup} :
    cachedBackup (.ok v) = some b ↔ v = some (.backup b) := by
  rcases v with _ | (b' | ⟨items, total⟩) <;> simp [cachedBackup]

theorem cachedPage_ok {v : Option CacheValue} {items : List Backup} {total : ℤ} :
    cachedPage (.ok v) = some (items, total) ↔ v = some (.page items total) := by
  rcases v with _ | (b' | ⟨items', total'⟩) <;> simp [cachedPage]

namespace CacheLayer

section Steps

variable {self : CacheLayer} {α : Type}

theorem getBackup_bind (h : self.redis = true) (id : Uuid) (f : Option Backup → Action α) :
    self.getBackup id >>= f = command (.get (.backup id)) >>= fun r => f (cachedBackup r) := by
  rw [getBackup, if_pos h, bind_assoc]
  refine congrArg (_ >>= ·) (funext fun r => ?_)
  rcases r with e | (_ | (b | ⟨items, total⟩)) <;> rfl

theorem getTenantBackups_bind (h : self.redis = true) (tenantId : Uuid)
    (f : Option (List Backup × ℤ) → Action α) :
    self.getTenantBackups tenantId >>= f =
      command (.get (.tenantBackups tenantId)) >>= fun r => f (cachedPage r) := by
  rw [getTenantBackups, if_pos h, bind_assoc]
  refine congrArg (_ >>= ·) (funext fun r => ?_)
  rcases r with e | (_ | (b | ⟨items, total⟩)) <;> rfl

end Steps

/-! ### Held to a protocol

With a connection an operation of the cache is one command, after a look at
the configuration if it writes; without one it is nothing. -/

section Rules

open Program

variable {γ : Type} {P : Protocol Op Op.Answer γ} {g : γ} (self : CacheLayer)

theorem obeys_getBackup {Q : γ → Option Backup → Prop} {id : Uuid}
    (hredis : self.redis = true → P.allow g (.redis (.get (.backup id))) ∧
      ∀ r : Except RedisError (Option CacheValue), P.rely g (.redis (.get (.backup id))) r →
        Q (P.next g (.redis (.get (.backup id))) r) (cachedBackup r))
    (hnone : self.redis = false → Q g none) : Obeys P Q g (self.getBackup id) := by
  cases hr : self.redis with
  | false =>
      rw [getBackup, if_neg (by simp [hr])]
      exact hnone hr
  | true =>
      rw [← bind_pure (self.getBackup id), getBackup_bind hr]
      exact obeys_command.mpr (hredis hr)

theorem obeys_getTenantBackups {Q : γ → Option (List Backup × ℤ) → Prop} {tenantId : Uuid}
    (hredis : self.redis = true → P.allow g (.redis (.get (.tenantBackups tenantId))) ∧
      ∀ r : Except RedisError (Option CacheValue),
        P.rely g (.redis (.get (.tenantBackups tenantId))) r →
          Q (P.next g (.redis (.get (.tenantBackups tenantId))) r) (cachedPage r))
    (hnone : self.redis = false → Q g none) : Obeys P Q g (self.getTenantBackups tenantId) := by
  cases hr : self.redis with
  | false =>
      rw [getTenantBackups, if_neg (by simp [hr])]
      exact hnone hr
  | true =>
      rw [← bind_pure (self.getTenantBackups tenantId), getTenantBackups_bind hr]
      exact obeys_command.mpr (hredis hr)

variable {Q : γ → Unit → Prop}

/-- What has to be shown for a value that is put under a key. -/
def MaySet (P : Protocol Op Op.Answer γ) (Q : γ → Unit → Prop) (g : γ) (key : Key)
    (value : CacheValue) : Prop :=
  P.allow g .config ∧ ∀ cfg : AppConfig, P.rely g .config cfg →
    P.allow (P.next g .config cfg) (.redis (.setEx key value cfg.cacheTtlSecs)) ∧
      ∀ r : Except RedisError Unit,
        P.rely (P.next g .config cfg) (.redis (.setEx key value cfg.cacheTtlSecs)) r →
          Q (P.next (P.next g .config cfg) (.redis (.setEx key value cfg.cacheTtlSecs)) r) ()

/-- What has to be shown for a key that is deleted. -/
def MayDelete (P : Protocol Op Op.Answer γ) (Q : γ → Unit → Prop) (g : γ) (key : Key) : Prop :=
  P.allow g (.redis (.del key)) ∧ ∀ r : Except RedisError Unit,
    P.rely g (.redis (.del key)) r → Q (P.next g (.redis (.del key)) r) ()

theorem obeys_setBackup {b : Backup}
    (hredis : self.redis = true → MaySet P Q g (.backup b.id) (.backup b))
    (hnone : self.redis = false → Q g ()) : Obeys P Q g (self.setBackup b) := by
  cases hr : self.redis with
  | false =>
      rw [setBackup, if_neg (by simp [hr])]
      exact hnone hr
  | true =>
      rw [setBackup, if_pos hr, cacheTtlSecs, if_pos (self.configured hr)]
      exact hredis hr

theorem obeys_setTenantBackups {tenantId : Uuid} {items : List Backup} {total : ℤ}
    (hredis : self.redis = true → MaySet P Q g (.tenantBackups tenantId) (.page items total))
    (hnone : self.redis = false → Q g ()) :
    Obeys P Q g (self.setTenantBackups tenantId items total) := by
  cases hr : self.redis with
  | false =>
      rw [setTenantBackups, if_neg (by simp [hr])]
      exact hnone hr
  | true =>
      rw [setTenantBackups, if_pos hr, cacheTtlSecs, if_pos (self.configured hr)]
      exact hredis hr

theorem obeys_invalidateBackup {id : Uuid}
    (hredis : self.redis = true → MayDelete P Q g (.backup id))
    (hnone : self.redis = false → Q g ()) : Obeys P Q g (self.invalidateBackup id) := by
  cases hr : self.redis with
  | false =>
      rw [invalidateBackup, if_neg (by simp [hr])]
      exact hnone hr
  | true =>
      rw [invalidateBackup, if_pos hr]
      exact hredis hr

theorem obeys_invalidateTenantBackups {tenantId : Uuid}
    (hredis : self.redis = true → MayDelete P Q g (.tenantBackups tenantId))
    (hnone : self.redis = false → Q g ()) : Obeys P Q g (self.invalidateTenantBackups tenantId) := by
  cases hr : self.redis with
  | false =>
      rw [invalidateTenantBackups, if_neg (by simp [hr])]
      exact hnone hr
  | true =>
      rw [invalidateTenantBackups, if_pos hr]
      exact hredis hr

end Rules

end CacheLayer

end BackupService
