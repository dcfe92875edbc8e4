import BackupService.Provenance
import BackupService.Wire

/-!
The system on texts.

Everywhere else in this development Redis holds values, under keys that are
told apart by their form, and the queue holds messages. In truth both hold
texts (`TextStore`). `text_system` says that this makes no difference: the
system that runs on texts shows the same as the one that runs on values, in
every run, and the texts on its queue are read as the jobs that have been
published.

What has to be shown for it is that every number that gets into a text is a
64-bit integer. The sizes come from requests and reports that can hold no
other, and there are fewer rows than that to be counted. The protocol
`fitting` is what the handlers have to do with it.
-/

namespace BackupService

open Lib Program JsonText

/-! ### The stores -/

structure TextEntry where
  value : String
  expiresAt : ℕ
  deriving DecidableEq

structure TextStore where
  db : Table
  redis : String → Option TextEntry
  queue : List String

section Machine

variable (w : Wire)

/-- What the client makes of the answer of Redis: a text that cannot be read
is a miss. -/
def RedisCommand.answerText : (c : RedisCommand) → (String → Option TextEntry) →
    Except RedisError c.Answer
  | .get key, r => .ok ((r key.text).bind fun e => key.read w e.value)
  | .setEx _ _ ttl, _ => if validTtl ttl then .ok () else .error .failed
  | .del _, _ => .ok ()

def RedisCommand.effectText (clock : ℕ) : RedisCommand → (String → Option TextEntry) →
    String → Option TextEntry
  | .get _, r => r
  | .setEx key value ttl, r =>
      if validTtl ttl then
        Function.update r key.text (some ⟨value.text w, clock + secs ttl.toNat⟩)
      else r
  | .del key, r => Function.update r key.text none

def Op.execText (env : Env) (oracle : Oracle) (config : AppConfig) (clock : ℕ) :
    (o : Op) → TextStore → o.Answer × TextStore
  | .sql s, st =>
      match env.sql with
      | .none => ((s.exec env.order oracle st.db).1,
          { st with db := (s.exec env.order oracle st.db).2 })
      | .before => (.error .unavailable, st)
      | .after => (.error .unavailable, { st with db := (s.exec env.order oracle st.db).2 })
  | .redis c, st =>
      match env.redis with
      | .none => (c.answerText w st.redis, { st with redis := c.effectText w clock st.redis })
      | .before => (.error .failed, st)
      | .after => (.error .failed, { st with redis := c.effectText w clock st.redis })
  | .config, st => (config, st)
  | .publish job, st =>
      (if env.publish.confirmed then .ok () else .error .failed,
        if env.publish.stored then { st with queue := st.queue ++ [job.text] } else st)
  | .entropy data, st =>
      (match env.join with
        | none => .ok (shannonEntropy data)
        | some e => .error e, st)

structure TextState where
  store : TextStore
  replicas : ℕ → Replica
  clock : ℕ
  inflight : ReqId → Option Thread

def TextState.setThread (s : TextState) (id : ReqId) (th : Option Thread) : TextState :=
  { s with inflight := Function.update s.inflight id th }

def TextState.stepThread (s : TextState) (id : ReqId) (env : Env) : TextState × List Obs :=
  match s.inflight id with
  | none => (s, [])
  | some th =>
      match th.prog with
      | .ret response => (s.setThread id none, [.responded id th.request response])
      | .op o k =>
          let (answer, store) :=
            o.execText w env th.oracle (s.replicas th.replica).config s.clock s.store
          ({ s with store }.setThread id (some { th with prog := k answer }),
            [.performed id o answer])

def TextState.start (s : TextState) (replica seq : ℕ) (claims : Claims) (request : Request)
    (oracle : Oracle) : TextState :=
  let id : ReqId := ⟨claims.tenantId, seq⟩
  match s.inflight id with
  | some _ => s
  | none => s.setThread id (some
      { claims, request, replica, oracle
        startedAt := s.clock
        prog := handle (s.replicas replica).state claims request })

def textSystem : Machine TextState Event Obs where
  step s
    | .start replica seq claims request oracle => (s.start replica seq claims request oracle, [])
    | .step id env => s.stepThread w id env
    | .drop id => (s.setThread id none, [])
    | .rpc call oracle env =>
        let (result, store) := (call.handle w.uuid).run
          (fun o => o.execText w env oracle (s.replicas 0).config s.clock) s.store
        ({ s with store }, [.called call result])
    | .configUpdate replica update =>
        let r := s.replicas replica
        ({ s with
            replicas := Function.update s.replicas replica
              { r with config := applyUpdate r.config update } }, [])
    | .expire key =>
        ({ s with store.redis := Function.update s.store.redis key.text none }, [])
    | .advance clock =>
        ({ s with
            clock := max s.clock clock
            store.redis := fun key =>
              (s.store.redis key).filter fun e => max s.clock clock < e.expiresAt }, [])

def TextState.initial (db : Table) (replicas : ℕ → Replica) : TextState where
  store := ⟨db, fun _ => none, []⟩
  replicas := replicas
  clock := 0
  inflight := fun _ => none

end Machine

/-! ### Numbers that fit -/

/-- The size a statement writes. -/
def Sql.sizeBytes : Sql → Option ℤ
  | updateBackup _ _ _ sizeBytes => sizeBytes
  | setCompleted _ sizeBytes => some sizeBytes
  | _ => none

def Sql.Fits (s : Sql) : Prop := ∀ n, s.sizeBytes = some n → FitsI64 n

theorem Sql.fits_of_none {s : Sql} (h : s.sizeBytes = none) : s.Fits := by
  intro n hn
  rw [h] at hn
  cases hn

def Sql.AnswerFits : (s : Sql) → s.Answer → Prop
  | insertBackup .., b => Backup.Fits b
  | selectBackup .., b => ∀ b' : Backup, (show Option Backup from b) = some b' → b'.Fits
  | selectBackups .., items => ∀ b ∈ (show List Backup from items), b.Fits
  | countBackups .., total => FitsI64 total
  | updateBackup .., b => ∀ b' : Backup, (show Option Backup from b) = some b' → b'.Fits
  | _, _ => True

def Op.AnswerFits : (o : Op) → o.Answer → Prop
  | .sql s, r => ∀ answer, (show Except SqlError s.Answer from r) = .ok answer → s.AnswerFits answer
  | .redis (.get key), r => ∀ v : CacheValue,
      (show Except RedisError (Option CacheValue) from r) = .ok (some v) → key.Holds v ∧ v.Fits
  | _, _ => True

def Op.Fits : Op → Prop
  | .sql s => s.Fits
  | .redis (.setEx key value _) => key.Holds value ∧ value.Fits
  | _ => True

/-- A request cannot be made with any other size. -/
def Request.Fits : Request → Prop
  | .update _ req => ∀ n, req.sizeBytes = some n → FitsI64 n
  | _ => True

/-- A report is made with an `int64`. -/
def Event.Fits : Event → Prop
  | .start _ _ _ request _ => request.Fits
  | .rpc (.reportResult result) _ _ => FitsI64 result.sizeBytes
  | _ => True

/-- Nothing goes in but numbers that fit, if nothing else comes out. -/
def fitting : Protocol Op Op.Answer Unit where
  allow _ o := o.Fits
  rely _ o r := o.AnswerFits r
  next _ _ _ := ()

section Handlers

variable {state : AppState} {claims : Claims} {α : Type}

abbrev Fitting (p : Action α) : Prop := Obeys fitting (fun _ _ => True) () p

theorem fitting_get_rest {id : Uuid} {cached : Option Backup} :
    Fitting (getAfterLookup state claims id cached) := by
  cases cached with
  | some b => trivial
  | none =>
      refine obeys_query.mpr ⟨Sql.fits_of_none rfl, fun r hr => ?_⟩
      rcases r with e | _ | b
      · trivial
      · trivial
      · have hb : b.Fits := hr _ rfl b rfl
        exact obeys_bind.mpr (state.cache.obeys_setBackup
          (fun _ => ⟨trivial, fun _ _ => ⟨⟨trivial, hb⟩, fun _ _ => trivial⟩⟩) fun _ => trivial)

theorem fitting_list_rest {params : ListParams} {cfg : AppConfig}
    {cached : Option (List Backup × ℤ)} :
    Fitting (listAfterLookup state claims params cfg cached) := by
  cases cached with
  | some p => trivial
  | none =>
      refine obeys_query.mpr ⟨Sql.fits_of_none rfl, fun r hr => ?_⟩
      cases r with
      | error e => trivial
      | ok items =>
          have hitems : ∀ b ∈ (show List Backup from items), b.Fits := hr _ rfl
          refine obeys_query.mpr ⟨Sql.fits_of_none rfl, fun r hr => ?_⟩
          cases r with
          | error e => trivial
          | ok total =>
              have htotal : FitsI64 total := hr _ rfl
              dsimp only
              split
              · exact obeys_bind.mpr (state.cache.obeys_setTenantBackups
                  (fun _ => ⟨trivial, fun _ _ => ⟨⟨trivial, hitems, htotal⟩, fun _ _ => trivial⟩⟩)
                  fun _ => trivial)
              · trivial

theorem fitting_invalidate {id : Uuid} {response : Response} : Fitting (do
    state.cache.invalidateBackup id
    state.cache.invalidateTenantBackups claims.tenantId
    return response) :=
  obeys_bind.mpr (state.cache.obeys_invalidateBackup
    (fun _ => ⟨trivial, fun _ _ => obeys_bind.mpr (state.cache.obeys_invalidateTenantBackups
      (fun _ => ⟨trivial, fun _ _ => trivial⟩) fun _ => trivial)⟩)
    fun _ => obeys_bind.mpr (state.cache.obeys_invalidateTenantBackups
      (fun _ => ⟨trivial, fun _ _ => trivial⟩) fun _ => trivial))

theorem handle_fitting {request : Request} (h : request.Fits) :
    Fitting (handle state claims request) := by
  cases request with
  | create req =>
      rw [handle_create]
      cases validateSourcePath req.sourcePath with
      | error e => trivial
      | ok _ =>
          refine obeys_query.mpr ⟨Sql.fits_of_none rfl, fun r _ => ?_⟩
          cases r with
          | error e => trivial
          | ok b =>
              exact obeys_bind.mpr (state.cache.obeys_invalidateTenantBackups
                (fun _ => ⟨trivial, fun _ _ => trivial⟩) fun _ => trivial)
  | get id =>
      rw [handle_get]
      exact obeys_bind.mpr (state.cache.obeys_getBackup
        (fun _ => ⟨trivial, fun _ _ => fitting_get_rest⟩) fun _ => fitting_get_rest)
  | list params =>
      rw [handle_list]
      refine obeys_readConfig.mpr ⟨trivial, fun cfg _ => ?_⟩
      split
      · exact obeys_bind.mpr (state.cache.obeys_getTenantBackups
          (fun _ => ⟨trivial, fun _ _ => fitting_list_rest⟩) fun _ => fitting_list_rest)
      · exact fitting_list_rest
  | update id req =>
      rw [handle_update]
      refine obeys_query.mpr ⟨h, fun r _ => ?_⟩
      rcases r with e | _ | b
      · trivial
      · trivial
      · exact fitting_invalidate
  | delete id =>
      rw [handle_delete]
      refine obeys_query.mpr ⟨Sql.fits_of_none rfl, fun r _ => ?_⟩
      rcases r with e | n
      · trivial
      · dsimp only
        split
        · trivial
        · exact fitting_invalidate
  | analyze id =>
      rw [handle_analyze]
      refine obeys_query.mpr ⟨Sql.fits_of_none rfl, fun r _ => ?_⟩
      rcases r with e | _ | b
      · trivial
      · trivial
      · refine obeys_spawnEntropy.mpr ⟨trivial, fun r _ => ?_⟩
        cases r <;> trivial
  | enqueue id =>
      rw [handle_enqueue]
      refine obeys_query.mpr ⟨Sql.fits_of_none rfl, fun r _ => ?_⟩
      rcases r with e | _ | b
      · trivial
      · trivial
      · dsimp only
        split
        · refine obeys_publish.mpr ⟨trivial, fun r _ => ?_⟩
          cases r <;> trivial
        · trivial

end Handlers

/-! ### The stores keep to it -/

/-- At most `n` rows, and nothing but numbers that fit. -/
structure Store.Fits (st : Store) (n : ℕ) : Prop where
  rows : ∀ r ∈ st.db.rows, r.Fits
  length : st.db.rows.length ≤ n
  redis : ∀ key e, st.redis key = some e → key.Holds e.value ∧ e.value.Fits

section Tables

variable {t : Table} {n : ℕ}

theorem Assignments.apply_fits {c : Assignments} {now : Timestamp} {r : Backup}
    (hc : ∀ m, c.sizeBytes = some m → FitsI64 m) (hr : r.Fits) : (c.apply now r).Fits := by
  show FitsI64 (c.sizeBytes.getD r.sizeBytes)
  cases hm : c.sizeBytes with
  | none => exact hr
  | some m => exact hc m hm

theorem Table.update_fits (p : Backup → Bool) {c : Assignments} (now : Timestamp)
    (hc : ∀ m, c.sizeBytes = some m → FitsI64 m) (hrows : ∀ r ∈ t.rows, r.Fits) :
    (∀ l, (t.update p c now).1 = .ok l → ∀ r ∈ l, r.Fits) ∧
      (∀ r ∈ (t.update p c now).2.rows, r.Fits) ∧
      (t.update p c now).2.rows.length = t.rows.length := by
  unfold Table.update
  split
  · refine ⟨?_, fun r hr => ?_, List.length_map _⟩
    · rintro l ⟨⟩ r hr
      obtain ⟨r', hr', rfl⟩ := List.mem_map.mp hr
      exact Assignments.apply_fits hc (hrows r' (List.mem_of_mem_filter hr'))
    · obtain ⟨r', hr', rfl⟩ := List.mem_map.mp hr
      split
      · exact Assignments.apply_fits hc (hrows r' hr')
      · exact hrows r' hr'
  · exact ⟨fun l hl => (by cases hl), hrows, rfl⟩

theorem Table.insert_fits {r : Backup} (hr : r.Fits) (hrows : ∀ r ∈ t.rows, r.Fits) :
    (∀ r' ∈ ((t.insert r).toOption.getD t).rows, r'.Fits) ∧
      ((t.insert r).toOption.getD t).rows.length ≤ t.rows.length + 1 := by
  unfold Table.insert
  split
  · exact ⟨hrows, Nat.le_succ _⟩
  split
  · refine ⟨fun r' hr' => ?_, ?_⟩
    · rcases List.mem_append.mp hr' with hr' | hr'
      · exact hrows r' hr'
      · rw [List.mem_singleton.mp hr']
        exact hr
    · exact (List.length_append ..).le
  · exact ⟨hrows, Nat.le_succ _⟩

theorem Table.count_fits (tenantId : Uuid) (status : Option String) (hlen : t.rows.length ≤ n)
    (hn : n < 2 ^ 63) : FitsI64 (t.count tenantId status) := by
  have hle : (t.matching tenantId status).length ≤ t.rows.length := List.length_filter_le _ _
  show -9223372036854775808 ≤ ((t.matching tenantId status).length : ℤ) ∧
    ((t.matching tenantId status).length : ℤ) < 9223372036854775808
  omega

/-- A statement that writes a number that fits. -/
theorem Sql.exec_fits {s : Sql} (hs : s.Fits) (order : RowOrder) (oracle : Oracle)
    (hrows : ∀ r ∈ t.rows, r.Fits) (hlen : t.rows.length ≤ n) (hn : n < 2 ^ 63) :
    (∀ answer, (s.exec order oracle t).1 = .ok answer → s.AnswerFits answer) ∧
      (∀ r ∈ (s.exec order oracle t).2.rows, r.Fits) ∧
      (s.exec order oracle t).2.rows.length ≤ n + 1 := by
  have hsame : (∀ r ∈ t.rows, r.Fits) ∧ t.rows.length ≤ n + 1 := ⟨hrows, by omega⟩
  cases s with
  | insertBackup tenantId sourcePath encryptionEnabled =>
      have hzero : FitsI64 0 := ⟨by decide, by decide⟩
      have hnew : (newBackup oracle tenantId sourcePath encryptionEnabled).Fits := hzero
      simp only [Sql.exec]
      split
      · obtain ⟨hrows', hlen'⟩ := Table.insert_fits hnew hrows
        refine ⟨fun answer h => ?_, hrows', hlen'.trans (Nat.succ_le_succ hlen)⟩
        cases hinsert : t.insert (newBackup oracle tenantId sourcePath encryptionEnabled) with
        | error e =>
            simp only [hinsert] at h
            cases h
        | ok t' =>
            simp only [hinsert] at h
            cases h
            exact hnew
      · exact ⟨fun answer h => (by cases h), hsame⟩
  | selectBackup id tenantId =>
      refine ⟨?_, hsame⟩
      rintro answer ⟨⟩ b hb
      exact hrows b (List.mem_of_find?_eq_some hb)
  | selectBackups tenantId status limit offset =>
      simp only [Sql.exec]
      split
      · refine ⟨?_, hsame⟩
        rintro answer ⟨⟩ b hb
        exact hrows b (mem_of_mem_page hb).1
      · exact ⟨fun answer h => (by cases h), hsame⟩
  | countBackups tenantId status =>
      simp only [Sql.exec]
      split
      · refine ⟨?_, hsame⟩
        rintro answer ⟨⟩
        exact Table.count_fits tenantId status hlen hn
      · exact ⟨fun answer h => (by cases h), hsame⟩
  | updateBackup id tenantId status sizeBytes =>
      obtain ⟨hanswer, hrows', hlen'⟩ := Table.update_fits
        (fun r => r.id = id && r.tenantId = tenantId) (c := { status, sizeBytes }) oracle.now hs hrows
      refine ⟨fun answer h b hb => ?_, hrows', hlen'.le.trans hsame.2⟩
      simp only [Sql.exec] at h
      cases hupdate : (t.update (fun r => r.id = id && r.tenantId = tenantId) { status, sizeBytes }
          oracle.now).1 with
      | error e =>
          rw [hupdate] at h
          cases h
      | ok l =>
          rw [hupdate] at h
          cases h
          exact hanswer l hupdate b (List.mem_of_head? hb)
  | deleteBackup id tenantId =>
      refine ⟨fun answer h => trivial, fun r hr => hrows r (List.mem_of_mem_filter hr), ?_⟩
      exact (List.length_filter_le _ _).trans (by omega)
  | setStatus id status =>
      simp only [Sql.exec]
      split
      · obtain ⟨-, hrows', hlen'⟩ := Table.update_fits (fun r => r.id = id)
          (c := { status := some status }) oracle.now (fun m hm => by cases hm) hrows
        exact ⟨fun answer h => trivial, hrows', hlen'.le.trans hsame.2⟩
      · exact ⟨fun answer h => trivial, hsame⟩
  | setCompleted id sizeBytes =>
      obtain ⟨-, hrows', hlen'⟩ := Table.update_fits (fun r => r.id = id)
        (c := { status := some "completed", sizeBytes := some sizeBytes }) oracle.now hs hrows
      exact ⟨fun answer h => trivial, hrows', hlen'.le.trans hsame.2⟩
  | setFailed id =>
      obtain ⟨-, hrows', hlen'⟩ := Table.update_fits (fun r => r.id = id)
        (c := { status := some "failed" }) oracle.now (fun m hm => by cases hm) hrows
      exact ⟨fun answer h => trivial, hrows', hlen'.le.trans hsame.2⟩

end Tables

section Operations

variable {o : Op} {st : Store} {n : ℕ}

theorem redis_exec_db (c : RedisCommand) (env : Env) (oracle : Oracle) (config : AppConfig)
    (clock : ℕ) : ((Op.redis c).exec env oracle config clock st).2.db = st.db := by
  simp only [Op.exec]
  split <;> rfl

theorem publish_exec_db (job : BackupJob) (env : Env) (oracle : Oracle) (config : AppConfig)
    (clock : ℕ) : ((Op.publish job).exec env oracle config clock st).2.db = st.db := by
  show (if env.publish.stored then _ else st).db = st.db
  split <;> rfl

theorem Op.exec_fits (ho : o.Fits) (hst : st.Fits n) (hn : n < 2 ^ 63) (env : Env)
    (oracle : Oracle) (config : AppConfig) (clock : ℕ) :
    o.AnswerFits (o.exec env oracle config clock st).1 ∧
      (o.exec env oracle config clock st).2.Fits (n + 1) := by
  have hredis : ∀ key e, (o.exec env oracle config clock st).2.redis key = some e →
      key.Holds e.value ∧ e.value.Fits := by
    intro key e he
    obtain hold | ⟨ttl, rfl, -, -⟩ := exec_redis_some he
    · exact hst.redis key e hold
    · exact ho
  have hlen : st.db.rows.length ≤ n + 1 := hst.length.trans (Nat.le_succ n)
  cases o with
  | sql s =>
      obtain ⟨hanswer, hrows, hlen'⟩ := Sql.exec_fits ho env.order oracle hst.rows hst.length hn
      cases hfault : env.sql with
      | none =>
          simp only [Op.exec, hfault] at hredis ⊢
          exact ⟨hanswer, hrows, hlen', hredis⟩
      | before =>
          simp only [Op.exec, hfault] at hredis ⊢
          exact ⟨fun answer h => (by cases h), hst.rows, hlen, hredis⟩
      | after =>
          simp only [Op.exec, hfault] at hredis ⊢
          exact ⟨fun answer h => (by cases h), hrows, hlen', hredis⟩
  | redis c =>
      refine ⟨?_, ?_, ?_, hredis⟩
      · cases c with
        | get key =>
            intro v hv
            obtain ⟨e, he, rfl⟩ := exec_get_ok hv
            exact hst.redis key e he
        | setEx | del => trivial
      · rw [redis_exec_db]
        exact hst.rows
      · rw [redis_exec_db]
        exact hlen
  | config | entropy => exact ⟨trivial, hst.rows, hlen, hredis⟩
  | publish job =>
      refine ⟨trivial, ?_, ?_, hredis⟩
      · rw [publish_exec_db]
        exact hst.rows
      · rw [publish_exec_db]
        exact hlen

end Operations

/-! ### The two systems side by side -/

section Agreement

variable {w : Wire}

/-- The texts are those of the values. -/
structure TextStore.Agrees (w : Wire) (t : TextStore) (st : Store) : Prop where
  db : t.db = st.db
  redis : ∀ key, t.redis key.text =
    (st.redis key).map fun e => ⟨e.value.text w, e.expiresAt⟩
  queue : t.queue.map (Message.read w) = st.queue

variable {t : TextStore} {st : Store} {n : ℕ}

theorem TextStore.Agrees.update (h : t.Agrees w st) (key : Key) (e : Option Entry) :
    ∀ key' : Key, Function.update t.redis key.text
        (e.map fun e => ⟨e.value.text w, e.expiresAt⟩) key'.text =
      (Function.update st.redis key e key').map fun e => ⟨e.value.text w, e.expiresAt⟩ := by
  intro key'
  by_cases hkey : key' = key
  · rw [hkey, Function.update_self, Function.update_self]
  · rw [Function.update_of_ne hkey, Function.update_of_ne fun h => hkey (Key.text_injective h)]
    exact h.redis key'

/-- What is found under a key is read as the value that was put there. -/
theorem TextStore.Agrees.get (h : t.Agrees w st) (hst : st.Fits n) (key : Key) :
    ((t.redis key.text).bind fun e => key.read w e.value) = (st.redis key).map Entry.value := by
  rw [h.redis]
  cases he : st.redis key with
  | none => rfl
  | some e =>
      obtain ⟨hholds, hfits⟩ := hst.redis key e he
      exact CacheValue.read_text hholds hfits

theorem answerText_eq (h : t.Agrees w st) (hst : st.Fits n) (c : RedisCommand) :
    c.answerText w t.redis = c.answer st.redis := by
  cases c with
  | get key => exact congrArg Except.ok (h.get hst key)
  | setEx | del => rfl

theorem effectText_agrees (h : t.Agrees w st) (c : RedisCommand) (clock : ℕ) :
    TextStore.Agrees w { t with redis := c.effectText w clock t.redis }
      { st with redis := c.effect clock st.redis } := by
  refine ⟨h.db, ?_, h.queue⟩
  cases c with
  | get key => exact h.redis
  | setEx key value ttl =>
      simp only [RedisCommand.effectText, RedisCommand.effect]
      split
      · exact h.update key (some ⟨value, clock + secs ttl.toNat⟩)
      · exact h.redis
  | del key => exact h.update key none

theorem execText_agrees (h : t.Agrees w st) (hst : st.Fits n) (env : Env) (oracle : Oracle)
    (config : AppConfig) (clock : ℕ) (o : Op) :
    (o.execText w env oracle config clock t).1 = (o.exec env oracle config clock st).1 ∧
      (o.execText w env oracle config clock t).2.Agrees w (o.exec env oracle config clock st).2 := by
  cases o with
  | sql s =>
      cases hfault : env.sql with
      | none =>
          simp only [Op.execText, Op.exec, hfault, h.db]
          exact ⟨rfl, rfl, h.redis, h.queue⟩
      | before =>
          simp only [Op.execText, Op.exec, hfault]
          exact ⟨rfl, h⟩
      | after =>
          simp only [Op.execText, Op.exec, hfault, h.db]
          exact ⟨rfl, rfl, h.redis, h.queue⟩
  | redis c =>
      cases hfault : env.redis with
      | none =>
          simp only [Op.execText, Op.exec, hfault]
          exact ⟨answerText_eq h hst c, effectText_agrees h c clock⟩
      | before =>
          simp only [Op.execText, Op.exec, hfault]
          exact ⟨rfl, h⟩
      | after =>
          simp only [Op.execText, Op.exec, hfault]
          exact ⟨rfl, effectText_agrees h c clock⟩
  | config | entropy => exact ⟨rfl, h⟩
  | publish job =>
      refine ⟨rfl, ?_⟩
      cases hstored : env.publish.stored with
      | false =>
          simp only [Op.execText, Op.exec, hstored]
          exact h
      | true =>
          simp only [Op.execText, Op.exec, hstored]
          refine ⟨h.db, h.redis, ?_⟩
          show (t.queue ++ [job.text]).map (Message.read w) = st.queue ++ [.job job]
          rw [List.map_append, h.queue, List.map_singleton, Message.read_text]

/-- The states agree, and everything fits. -/
structure TextState.Agrees (w : Wire) (n : ℕ) (t : TextState) (s : State) : Prop where
  store : t.store.Agrees w s.store
  replicas : t.replicas = s.replicas
  clock : t.clock = s.clock
  inflight : t.inflight = s.inflight
  fits : s.store.Fits n
  threads : ∀ id th, s.inflight id = some th → Fitting th.prog

end Agreement

namespace TextState.Agrees

variable {w : Wire} {n : ℕ} {t : TextState} {s : State}

/-- Only the stores are different. -/
theorem eq (h : t.Agrees w n s) : ∃ store, t = ⟨store, s.replicas, s.clock, s.inflight⟩ := by
  obtain ⟨store, replicas, clock, inflight⟩ := t
  obtain rfl : replicas = s.replicas := h.replicas
  obtain rfl : clock = s.clock := h.clock
  obtain rfl : inflight = s.inflight := h.inflight
  exact ⟨store, rfl⟩

theorem mono (h : t.Agrees w n s) : t.Agrees w (n + 1) s :=
  { h with fits := ⟨h.fits.rows, h.fits.length.trans (Nat.le_succ n), h.fits.redis⟩ }

theorem setThread (h : t.Agrees w n s) (id : ReqId) {th : Option Thread}
    (hth : ∀ th', th = some th' → Fitting th'.prog) :
    (t.setThread id th).Agrees w n (s.setThread id th) where
  store := h.store
  replicas := h.replicas
  clock := h.clock
  inflight := by
    show Function.update t.inflight id th = Function.update s.inflight id th
    rw [h.inflight]
  fits := h.fits
  threads id' th' hid' := by
    by_cases heq : id' = id
    · subst heq
      rw [State.setThread_inflight_self] at hid'
      exact hth th' hid'
    · rw [State.setThread_inflight_of_ne s _ heq] at hid'
      exact h.threads id' th' hid'

theorem setStore {n' : ℕ} (h : t.Agrees w n s) {store : TextStore} {store' : Store}
    (hstore : store.Agrees w store') (hfits : store'.Fits n') :
    TextState.Agrees w n' { t with store } (s.setStore store') where
  store := hstore
  replicas := h.replicas
  clock := h.clock
  inflight := h.inflight
  fits := hfits
  threads := h.threads

theorem stepThread (h : t.Agrees w n s) (hn : n < 2 ^ 63) (id : ReqId) (env : Env) :
    (t.stepThread w id env).1.Agrees w (n + 1) (s.stepThread id env).1 ∧
      (t.stepThread w id env).2 = (s.stepThread id env).2 := by
  obtain ⟨store, rfl⟩ := h.eq
  simp only [TextState.stepThread, State.stepThread, State.exec]
  cases hid : s.inflight id with
  | none => exact ⟨h.mono, rfl⟩
  | some th =>
      have hth := h.threads id th hid
      dsimp only
      cases hprog : th.prog with
      | ret response => exact ⟨(h.setThread id fun th' hnone => by cases hnone).mono, rfl⟩
      | op o k =>
          rw [hprog] at hth
          obtain ⟨hfits, hrest⟩ := hth
          obtain ⟨hsame, hagrees⟩ := execText_agrees h.store h.fits env th.oracle
            (s.replicas th.replica).config s.clock o
          obtain ⟨hanswer, hfits'⟩ := Op.exec_fits hfits h.fits hn env th.oracle
            (s.replicas th.replica).config s.clock
          dsimp only at hsame ⊢
          rw [hsame]
          refine ⟨(h.setStore hagrees hfits').setThread id ?_, rfl⟩
          rintro th' ⟨⟩
          exact hrest _ hanswer

theorem start (h : t.Agrees w n s) (replica seq : ℕ) (claims : Claims) {request : Request}
    (hrequest : request.Fits) (oracle : Oracle) :
    (t.start replica seq claims request oracle).Agrees w n
      (s.start replica seq claims request oracle) := by
  obtain ⟨store, rfl⟩ := h.eq
  simp only [TextState.start, State.start]
  cases s.inflight ⟨claims.tenantId, seq⟩ with
  | some th => exact h
  | none =>
      refine h.setThread _ ?_
      rintro th ⟨⟩
      exact handle_fitting hrequest

theorem call (h : t.Agrees w n s) (hn : n < 2 ^ 63) {rpc : Rpc} {oracle : Oracle} {env : Env}
    (hrpc : (Event.rpc rpc oracle env).Fits) :
    ((textSystem w).step t (.rpc rpc oracle env)).1.Agrees w (n + 1)
        ((system w.uuid).step s (.rpc rpc oracle env)).1 ∧
      ((textSystem w).step t (.rpc rpc oracle env)).2 =
        ((system w.uuid).step s (.rpc rpc oracle env)).2 := by
  obtain ⟨store, rfl⟩ := h.eq
  simp only [textSystem, step_rpc, State.call]
  cases hid : w.uuid.parse rpc.backupId with
  | error e =>
      rw [handle_malformed w.uuid hid, run_pure, run_pure]
      exact ⟨(h.setStore h.store h.fits).mono, rfl⟩
  | ok id =>
      have hfits : (Op.sql (rpc.statement id)).Fits := by
        cases rpc with
        | updateStatus msg => exact Sql.fits_of_none rfl
        | reportResult result =>
            show ((Rpc.reportResult result).statement id).Fits
            rw [Rpc.statement]
            split
            · rintro m ⟨⟩
              exact hrpc
            · exact Sql.fits_of_none rfl
      obtain ⟨hsame, hagrees⟩ := execText_agrees h.store h.fits env oracle
        (s.replicas 0).config s.clock (.sql (rpc.statement id))
      have hfits' := (Op.exec_fits hfits h.fits hn env oracle (s.replicas 0).config s.clock).2
      rw [handle_eq_answer w.uuid hid, run_query_bind, run_query_bind, run_pure, run_pure]
      dsimp only at hsame ⊢
      rw [hsame]
      exact ⟨h.setStore hagrees hfits', rfl⟩

theorem expire (h : t.Agrees w n s) (key : Key) :
    ((textSystem w).step t (.expire key)).1.Agrees w n ((system w.uuid).step s (.expire key)).1 := by
  refine h.setStore ⟨h.store.db, h.store.update key none, h.store.queue⟩
    ⟨h.fits.rows, h.fits.length, fun key' e he => ?_⟩
  by_cases hkey : key' = key
  · rw [hkey] at he
    cases (Function.update_self key none s.store.redis).symm.trans he
  · exact h.fits.redis key' e ((Function.update_of_ne hkey none s.store.redis).symm.trans he)

theorem advance (h : t.Agrees w n s) (clock : ℕ) :
    ((textSystem w).step t (.advance clock)).1.Agrees w n
      ((system w.uuid).step s (.advance clock)).1 where
  store := by
    refine ⟨h.store.db, fun key => ?_, h.store.queue⟩
    show (t.store.redis key.text).filter (fun e => max t.clock clock < e.expiresAt) =
      ((s.store.redis key).filter fun e => max s.clock clock < e.expiresAt).map _
    rw [h.store.redis, h.clock]
    cases s.store.redis key with
    | none => rfl
    | some e =>
        simp only [Option.map_some, Option.filter_some]
        split <;> rfl
  replicas := h.replicas
  clock := congrArg (max · clock) h.clock
  inflight := h.inflight
  fits := by
    refine ⟨h.fits.rows, h.fits.length, fun key e he => ?_⟩
    exact h.fits.redis key e (Option.filter_eq_some_iff.mp he).1
  threads := h.threads

theorem step (h : t.Agrees w n s) (hn : n < 2 ^ 63) {e : Event} (he : e.Fits) :
    ((textSystem w).step t e).1.Agrees w (n + 1) ((system w.uuid).step s e).1 ∧
      ((textSystem w).step t e).2 = ((system w.uuid).step s e).2 := by
  cases e with
  | start replica seq claims request oracle =>
      exact ⟨(h.start replica seq claims he oracle).mono, rfl⟩
  | step id env => exact h.stepThread hn id env
  | drop id => exact ⟨(h.setThread id fun th' hnone => by cases hnone).mono, rfl⟩
  | rpc call oracle env => exact h.call hn he
  | configUpdate replica update =>
      refine ⟨{ h.mono with replicas := ?_ }, rfl⟩
      simp only [textSystem, system, State.updateConfig, h.replicas]
  | expire key => exact ⟨(h.expire key).mono, rfl⟩
  | advance clock => exact ⟨(h.advance clock).mono, rfl⟩

end TextState.Agrees

theorem TextState.agrees_initial (w : Wire) {db : Table} (hdb : ∀ r ∈ db.rows, r.Fits)
    (replicas : ℕ → Replica) :
    (TextState.initial db replicas).Agrees w db.rows.length (.initial db replicas) where
  store := ⟨rfl, fun _ => rfl, rfl⟩
  replicas := rfl
  clock := rfl
  inflight := rfl
  fits := ⟨hdb, Nat.le_refl _, fun _ _ h => by cases h⟩
  threads _ _ h := by cases h

theorem TextState.Agrees.run {w : Wire} {n : ℕ} {t : TextState} {s : State} (h : t.Agrees w n s)
    {es : List Event} (hn : n + es.length < 2 ^ 63) (hes : ∀ e ∈ es, e.Fits) :
    ((textSystem w).run t es).Agrees w (n + es.length) ((system w.uuid).run s es) ∧
      (textSystem w).trace t es = (system w.uuid).trace s es := by
  induction es generalizing n t s with
  | nil => exact ⟨h, rfl⟩
  | cons e es ih =>
      obtain ⟨he, hes⟩ := List.forall_mem_cons.mp hes
      rw [List.length_cons] at hn
      obtain ⟨hstep, hobs⟩ := h.step (by omega) he
      obtain ⟨hrun, htrace⟩ := ih hstep (by omega) hes
      rw [Machine.run_cons, Machine.run_cons, Machine.trace_cons, Machine.trace_cons, hobs, htrace,
        List.length_cons, Nat.add_comm es.length, ← Nat.add_assoc]
      exact ⟨hrun, rfl⟩

/-- **Texts or values, it is the same system.** A run on texts shows what the
same run on values shows and leaves the same table, and what is on its queue
is read as the messages that are on the other's. -/
theorem text_system (w : Wire) (db : Table) (replicas : ℕ → Replica) (es : List Event)
    (hdb : ∀ r ∈ db.rows, r.Fits) (hes : ∀ e ∈ es, e.Fits)
    (hlen : db.rows.length + es.length < 2 ^ 63) :
    (textSystem w).trace (.initial db replicas) es =
        (system w.uuid).trace (.initial db replicas) es ∧
      ((textSystem w).run (.initial db replicas) es).store.db =
        ((system w.uuid).run (.initial db replicas) es).store.db ∧
      ((textSystem w).run (.initial db replicas) es).store.queue.map (Message.read w) =
        ((system w.uuid).run (.initial db replicas) es).store.queue := by
  obtain ⟨hrun, htrace⟩ := (TextState.agrees_initial w hdb replicas).run hlen hes
  exact ⟨htrace, hrun.store.db, hrun.store.queue⟩

section Epoch

/-- A clock that stands still at the beginning of the epoch; other times are
written as the numbers they are. -/
def Wire.epoch : Wire where
  uuid := .hyphenated
  formatTime t := if t = 0 then "1970-01-01T00:00:00Z" else String.ofList (Nat.toDigits 10 t)
  parseTime s := some (if s = "1970-01-01T00:00:00Z" then 0 else Nat.ofDigitChars 10 s.toList 0)
  parse_formatTime t := by
    by_cases ht : t = 0
    · rw [if_pos ht, if_pos rfl, ht]
    · have hne : String.ofList (Nat.toDigits 10 t) ≠ "1970-01-01T00:00:00Z" := by
        intro h
        have hlist := congrArg String.toList h
        rw [String.toList_ofList] at hlist
        have hdigits := isDigit_toDigits t
        rw [hlist] at hdigits
        exact absurd (hdigits 'T' (by decide)) (by decide)
      rw [if_neg ht, if_neg hne, String.toList_ofList, Nat.ofDigitChars_ten_toDigits]
  jobError _ := "expected value at line 1 column 1"

/-- Backup `7` is created, read twice, and given to the workers. -/
def createReadEnqueue : List Event :=
  let request (seq : ℕ) (request : Request) (n : ℕ) : List Event :=
    .start 0 seq ⟨"user", ⟨1⟩, [], 0, 0⟩ request ⟨⟨7⟩, 0⟩ :: List.replicate n (.step ⟨⟨1⟩, seq⟩ {})
  request 0 (.create ⟨"/data", false⟩) 3 ++ request 1 (.get ⟨7⟩) 5 ++ request 2 (.get ⟨7⟩) 2 ++
    request 3 (.enqueue ⟨7⟩) 3

theorem text_system_createReadEnqueue :
    let replicas : ℕ → Replica := fun _ => ⟨⟨.connected, true⟩, .default⟩
    (textSystem .epoch).trace (.initial .empty replicas) createReadEnqueue =
        (system Wire.epoch.uuid).trace (.initial .empty replicas) createReadEnqueue ∧
      ((textSystem .epoch).run (.initial .empty replicas) createReadEnqueue).store.db =
        ((system Wire.epoch.uuid).run (.initial .empty replicas) createReadEnqueue).store.db ∧
      ((textSystem .epoch).run (.initial .empty replicas) createReadEnqueue).store.queue.map
          (Message.read .epoch) =
        ((system Wire.epoch.uuid).run (.initial .empty replicas) createReadEnqueue).store.queue :=
  text_system .epoch .empty _ createReadEnqueue (fun r hr => absurd hr List.not_mem_nil)
    (by simp [createReadEnqueue, Event.Fits, Request.Fits]) (by decide)

end Epoch

end BackupService
