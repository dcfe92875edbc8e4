import BackupService.Ledger

/-!
What is on record in a quiet run.

In a run without faults, timeouts, callbacks and changes of the
configuration, every event keeps the accounts (`Accounted`): what a handler
has in its hands is sound since it has looked at the table, and an entry of
Redis is sound since a moment from which on no change is known whose author
has deleted the key. The one event that can break this is a late fill: the
SETEX of a handler that has looked at the table before such a change.
-/

namespace BackupService

open Lib

/-! ### Runs -/

section Runs

variable (uuid : UuidParser) (order : RowOrder) (config : AppConfig) (s : State)

/-- Everything that is on record after some events. -/
def viewAfter (es : List Event) : View :=
  ⟨((system uuid).run s es).store.db, ledger uuid s es, phases uuid s es⟩

/-- The row was in the table at the moment `n`, or later. -/
def WasRow (es : List Event) (n : ℕ) (b : Backup) : Prop :=
  ∃ q, q <+: es ∧ n ≤ (ledger uuid s q).moment ∧ ((system uuid).run s q).store.db.find b.id = some b

/-- The exact notion of freshness, for the window of the configuration. -/
abbrev exactly : Freshness order config.cachedListLimit config.cachedListOffset :=
  .exact order config.cachedListLimit config.cachedListOffset

structure Accounted (es : List Event) : Prop where
  replicas : ∀ replica, (((system uuid).run s es).replicas replica).config = config ∧
    (((system uuid).run s es).replicas replica).state.cache.redis = true
  seen : ∀ id, (ledger uuid s es).seen id ≤ (ledger uuid s es).moment
  done : ∀ key, (ledger uuid s es).done key ≤ (ledger uuid s es).moment
  idle : ∀ id, ((system uuid).run s es).inflight id = none → phases uuid s es id = .start
  tracked : ∀ id th, ((system uuid).run s es).inflight id = some th →
    th.Tracked (· = config) true (phases uuid s es id)
  copies : ∀ id, (phases uuid s es id).copy.Recorded order (viewAfter uuid s es)
    (WasRow uuid s es) ((ledger uuid s es).seen id)
  entries : ∀ key e, ((system uuid).run s es).store.redis key = some e →
    e.value.Recorded (exactly order config) (viewAfter uuid s es) (WasRow uuid s es) key

end Runs

section Steps

variable {uuid : UuidParser} {order : RowOrder} {config : AppConfig} {s : State} {es : List Event}
  {e : Event}

theorem ledger_concat : ledger uuid s (es ++ [e]) =
    ((system uuid).step ((system uuid).run s es) e).2.foldl Ledger.note (ledger uuid s es) := by
  rw [ledger, Machine.trace_concat, List.foldl_append]
  rfl

theorem phases_concat : phases uuid s (es ++ [e]) =
    ((system uuid).step ((system uuid).run s es) e).2.foldl notePhase (phases uuid s es) := by
  rw [phases, Machine.trace_concat, List.foldl_append]
  rfl

theorem WasRow.concat {n : ℕ} {b : Backup} (h : WasRow uuid s es n b) :
    WasRow uuid s (es ++ [e]) n b := by
  obtain ⟨q, hq, hn, hrow⟩ := h
  exact ⟨q, hq.trans (List.prefix_append _ _), hn, hrow⟩

/-- What a fault-free operation does, as far as the table is concerned. -/
theorem exec_changes {env : Env} (henv : env.FaultFree) (oracle : Oracle) (config : AppConfig)
    (clock : ℕ) (o : Op) (st : Store) :
    o.Changes env.order (o.exec env oracle config clock st).1 st.db
      (o.exec env oracle config clock st).2.db := by
  cases o with
  | sql q =>
      refine ⟨oracle, ?_⟩
      simp only [Op.exec, henv.sql]
      rfl
  | redis c => simp only [Op.Changes, Op.exec, henv.redis]
  | config | entropy => rfl
  | publish job =>
      simp only [Op.Changes, Op.exec]
      split <;> rfl

/-- An event that shows nothing. -/
theorem Accounted.silent (h : Accounted uuid order config s es)
    (hobs : ((system uuid).step ((system uuid).run s es) e).2 = [])
    (hdb : ((system uuid).run s (es ++ [e])).store.db = ((system uuid).run s es).store.db)
    (hreplicas : ((system uuid).run s (es ++ [e])).replicas = ((system uuid).run s es).replicas)
    (hredis : ∀ key entry, ((system uuid).run s (es ++ [e])).store.redis key = some entry →
      ((system uuid).run s es).store.redis key = some entry)
    (hthreads : ∀ id th, ((system uuid).run s (es ++ [e])).inflight id = some th →
      ((system uuid).run s es).inflight id = some th ∨
        ((system uuid).run s es).inflight id = none ∧ th.Tracked (· = config) true .start)
    (hidle : ∀ id, ((system uuid).run s (es ++ [e])).inflight id = none →
      ((system uuid).run s es).inflight id = none) :
    Accounted uuid order config s (es ++ [e]) := by
  have hledger : ledger uuid s (es ++ [e]) = ledger uuid s es := by
    rw [ledger_concat, hobs]
    rfl
  have hphases : phases uuid s (es ++ [e]) = phases uuid s es := by
    rw [phases_concat, hobs]
    rfl
  have hview : viewAfter uuid s (es ++ [e]) = viewAfter uuid s es := by
    rw [viewAfter, viewAfter, hdb, hledger, hphases]
  constructor
  case replicas =>
    rw [hreplicas]
    exact h.replicas
  case seen =>
    rw [hledger]
    exact h.seen
  case done =>
    rw [hledger]
    exact h.done
  case idle =>
    intro id hid
    rw [hphases]
    exact h.idle id (hidle id hid)
  case tracked =>
    intro id th hth
    rw [hphases]
    rcases hthreads id th hth with hold | ⟨hnone, htracked⟩
    · exact h.tracked id th hold
    · rw [h.idle id hnone]
      exact htracked
  case copies =>
    intro id
    rw [hphases, hview, hledger]
    exact (h.copies id).map (fun key p _ hsound => hsound) fun n b => WasRow.concat
  case entries =>
    intro key entry hentry
    rw [hview]
    exact (h.entries key entry (hredis key entry hentry)).map rfl le_rfl
      (fun n p _ _ hsound => hsound) fun n b => WasRow.concat

theorem ledger_responded {id : ReqId} {th : Thread} {env : Env} {response : Response}
    (hth : ((system uuid).run s es).inflight id = some th) (hprog : th.prog = .ret response) :
    ledger uuid s (es ++ [.step id env]) =
      { ledger uuid s es with moment := (ledger uuid s es).moment + 1 } := by
  rw [ledger_concat, step_step, State.stepThread_ret hth hprog]
  rfl

theorem phases_responded {id : ReqId} {th : Thread} {env : Env} {response : Response}
    (hth : ((system uuid).run s es).inflight id = some th) (hprog : th.prog = .ret response) :
    phases uuid s (es ++ [.step id env]) = Function.update (phases uuid s es) id .start := by
  rw [phases_concat, step_step, State.stepThread_ret hth hprog]
  rfl

/-- A request that owes nothing is answered. -/
theorem Accounted.responded (h : Accounted uuid order config s es) {id : ReqId} {th : Thread}
    {response : Response} {env : Env} (hth : ((system uuid).run s es).inflight id = some th)
    (hprog : th.prog = .ret response) :
    Accounted uuid order config s (es ++ [.step id env]) := by
  have hledger := @ledger_responded uuid s es id th env response hth hprog
  have hphases := @phases_responded uuid s es id th env response hth hprog
  have hrun : (system uuid).run s (es ++ [.step id env]) =
      ((system uuid).run s es).setThread id none := by
    rw [Machine.run_concat, step_step, State.stepThread_ret hth hprog]
  have howed : (phases uuid s es id).owed = [] := ((h.tracked id th hth).final hprog).1 rfl
  -- A deletion that makes up for a stale copy is owed by somebody else: this
  -- request owes none.
  have hsound : ∀ key n p, (viewAfter uuid s es).Sound key n p →
      (viewAfter uuid s (es ++ [.step id env])).Sound key n p := by
    intro key n p hsound
    rcases hsound with hnow | ⟨id', hkey, hseen⟩ | hdone
    · exact .inl (by rw [viewAfter, hrun]; exact hnow)
    · refine .inr (.inl ⟨id', ?_, by rw [viewAfter, hledger]; exact hseen⟩)
      have hne : id' ≠ id := by
        rintro rfl
        rw [show (viewAfter uuid s es).phase = phases uuid s es from rfl, howed] at hkey
        cases hkey
      simp only [viewAfter, hphases, Function.update_of_ne hne]
      exact hkey
    · exact .inr (.inr (by rw [viewAfter, hledger]; exact hdone))
  constructor
  case replicas =>
    rw [hrun]
    exact h.replicas
  case seen =>
    intro id'
    rw [hledger]
    exact Nat.le_succ_of_le (h.seen id')
  case done =>
    intro key
    rw [hledger]
    exact Nat.le_succ_of_le (h.done key)
  case idle =>
    intro id' hid'
    rw [hphases]
    by_cases heq : id' = id
    · rw [heq, Function.update_self]
    · rw [hrun, State.setThread_inflight_of_ne _ _ heq] at hid'
      rw [Function.update_of_ne heq]
      exact h.idle id' hid'
  case tracked =>
    intro id' th' hth'
    rw [hrun] at hth'
    by_cases heq : id' = id
    · rw [heq, State.setThread_inflight_self] at hth'
      cases hth'
    · rw [State.setThread_inflight_of_ne _ _ heq] at hth'
      rw [hphases, Function.update_of_ne heq]
      exact h.tracked id' th' hth'
  case copies =>
    intro id'
    rw [hphases, hledger]
    by_cases heq : id' = id
    · rw [heq, Function.update_self]
      trivial
    · rw [Function.update_of_ne heq]
      exact (h.copies id').map (fun key p _ => hsound key _ p) fun n b => WasRow.concat
  case entries =>
    intro key entry hentry
    rw [hrun] at hentry
    exact (h.entries key entry hentry).map (by simp only [viewAfter, hledger])
      (by simp only [viewAfter, hledger]; omega) (fun n p _ _ => hsound key n p)
      fun n b => WasRow.concat

/-- What is cached is on record, unless it comes too late. -/
theorem recorded_of_cachedAs {v : View} {was : ℕ → Backup → Prop} {n : ℕ} {claims : Claims}
    {request : Request} {c : Copy} {key : Key} {value : CacheValue}
    (hc : c.Recorded order v was n) (hcached : c.CachedAs claims request config key value)
    (hlate : v.ledger.done key ≤ n) (hn : n ≤ v.ledger.moment) :
    value.Recorded (exactly order config) v was key := by
  cases key with
  | backup id =>
      obtain ⟨b, rfl, rfl, rfl⟩ := hcached
      refine ⟨n, hlate, hn, hc.1.imp fun t ht => ⟨b, rfl, ht⟩, ?_⟩
      intro b' hb'
      obtain rfl := CacheValue.backup.inj hb'
      exact ⟨rfl, hc.2⟩
  | tenantBackups tenantId =>
      obtain ⟨params, items, total, -, rfl, huse, rfl, rfl⟩ := hcached
      obtain ⟨hstatus, hoffset, hlimit⟩ := useListCache_iff.mp huse
      rw [hstatus, hoffset, hlimit] at hc
      simp only [Copy.Recorded] at hc
      refine ⟨n, hlate, hn, hc.imp fun t ht => ?_, fun b hb => ?_⟩
      · obtain ⟨rfl, rfl⟩ := ht
        rfl
      · cases hb

theorem ledger_performed {id : ReqId} {th : Thread} {env : Env} {o : Op}
    {k : o.Answer → Action Response} (hth : ((system uuid).run s es).inflight id = some th)
    (hprog : th.prog = .op o k) : ledger uuid s (es ++ [.step id env]) =
      (ledger uuid s es).note (.performed id o (((system uuid).run s es).exec th env o).1) := by
  rw [ledger_concat, step_step, State.stepThread_op hth hprog]
  rfl

theorem phases_performed {id : ReqId} {th : Thread} {env : Env} {o : Op}
    {k : o.Answer → Action Response} (hth : ((system uuid).run s es).inflight id = some th)
    (hprog : th.prog = .op o k) : phases uuid s (es ++ [.step id env]) =
      notePhase (phases uuid s es) (.performed id o (((system uuid).run s es).exec th env o).1) := by
  rw [phases_concat, step_step, State.stepThread_op hth hprog]
  rfl

/-- A thread performs an operation that its protocol allows. -/
theorem Accounted.performs (h : Accounted uuid order config s es) {id : ReqId} {th : Thread}
    {env : Env} {o : Op} {k : o.Answer → Action Response} (henv : env.FaultFree)
    (horder : env.order = order) (hth : ((system uuid).run s es).inflight id = some th)
    (hprog : th.prog = .op o k) :
    (viewAfter uuid s es).Performs order id o (((system uuid).run s es).exec th env o).1
      (viewAfter uuid s (es ++ [.step id env])) := by
  refine ⟨⟨_, _, _, (h.tracked id th hth).allow hprog⟩, ?_, ledger_performed hth hprog,
    phases_performed hth hprog⟩
  simp only [viewAfter, Machine.run_concat, step_step, State.stepThread_op hth hprog]
  exact horder ▸ exec_changes henv th.oracle _ _ o _

/-- An entry whose key has just been deleted is not there. -/
theorem exec_del {t : State} {th : Thread} {env : Env} (henv : env.FaultFree) {key : Key} :
    (t.exec th env (.redis (.del key))).2.redis key = none := by
  simp only [State.exec, Op.exec, henv.redis, RedisCommand.effect, Function.update_self]

/-- A request performs its next operation. -/
theorem Accounted.performed (h : Accounted uuid order config s es) {id : ReqId} {th : Thread}
    {env : Env} {o : Op} {k : o.Answer → Action Response} (henv : env.FaultFree)
    (horder : env.order = order) (hth : ((system uuid).run s es).inflight id = some th)
    (hprog : th.prog = .op o k)
    (hlate : ∀ key value ttl, o = .redis (.setEx key value ttl) →
      (ledger uuid s es).done key ≤ (ledger uuid s es).seen id) :
    Accounted uuid order config s (es ++ [.step id env]) := by
  let t := (system uuid).run s es
  let r := (t.exec th env o).1
  have hstep : (system uuid).step t (.step id env) =
      ((t.setStore (t.exec th env o).2).setThread id (some { th with prog := k r }),
        [.performed id o r]) := by
    rw [step_step, State.stepThread_op hth hprog]
  have hrun : (system uuid).run s (es ++ [.step id env]) =
      (t.setStore (t.exec th env o).2).setThread id (some { th with prog := k r }) := by
    rw [Machine.run_concat, hstep]
  have hledger : ledger uuid s (es ++ [.step id env]) =
      (ledger uuid s es).note (.performed id o r) := ledger_performed hth hprog
  have hphases : phases uuid s (es ++ [.step id env]) =
      notePhase (phases uuid s es) (.performed id o r) := phases_performed hth hprog
  have hmoment : (ledger uuid s (es ++ [.step id env])).moment = (ledger uuid s es).moment + 1 := by
    rw [hledger]
    rfl
  have htracked := h.tracked id th hth
  have hperforms := h.performs henv horder hth hprog
  have hwas : ∀ n b, WasRow uuid s es n b → WasRow uuid s (es ++ [.step id env]) n b :=
    fun n b => WasRow.concat
  constructor
  case replicas =>
    rw [hrun]
    exact h.replicas
  case seen =>
    intro id'
    rw [hledger]
    exact note_seen_le (h.seen id') r
  case done =>
    intro key
    rw [hledger]
    exact note_done_le (h.seen id) (h.done key) r
  case idle =>
    intro id' hid'
    rw [hrun] at hid'
    by_cases heq : id' = id
    · rw [heq, State.setThread_inflight_self] at hid'
      cases hid'
    · rw [State.setThread_inflight_of_ne _ _ heq] at hid'
      rw [hphases, notePhase_of_ne _ _ heq]
      exact h.idle id' hid'
  case tracked =>
    intro id' th' hth'
    rw [hrun] at hth'
    by_cases heq : id' = id
    · subst heq
      rw [State.setThread_inflight_self] at hth'
      obtain rfl := Option.some.inj hth'
      rw [hphases, notePhase_self]
      exact htracked.next hprog (exec_rely_tracked (R := (· = config)) (h.replicas th.replica).1
        env th.oracle t.clock o t.store)
    · rw [State.setThread_inflight_of_ne _ _ heq] at hth'
      rw [hphases, notePhase_of_ne _ _ heq]
      exact h.tracked id' th' hth'
  case copies =>
    intro id'
    by_cases heq : id' = id
    · subst heq
      rw [hphases, notePhase_self]
      -- The request may have got a new copy by this operation.
      refine recorded_after (h.copies id') (h.seen id') hperforms hwas fun b hb => ?_
      exact ⟨_, List.prefix_rfl, hmoment.ge, hb⟩
    · -- The others have looked at nothing, and their copies are as sound as before.
      have hseen : (ledger uuid s (es ++ [.step id env])).seen id' = (ledger uuid s es).seen id' := by
        rw [hledger]
        exact look_of_ne heq o
      rw [hphases, notePhase_of_ne _ _ heq, hseen]
      exact (h.copies id').map (fun key p hp hsound => hsound.performs hp (h.seen id') hperforms) hwas
  case entries =>
    intro key entry hentry
    rw [hrun] at hentry
    have hkeep : ∀ n p, n ≤ (ledger uuid s es).moment → About order key p →
        (viewAfter uuid s es).Sound key n p →
          (viewAfter uuid s (es ++ [.step id env])).Sound key n p :=
      fun n p hn hp hsound => hsound.performs hp hn hperforms
    rcases exec_redis_some hentry with hold | ⟨ttl, rfl, -, -⟩
    · -- The entry has been there before, so the operation has not deleted it.
      have hdel : o ≠ .redis (.del key) := by
        rintro rfl
        rw [State.setThread_store, State.setStore_store, exec_del henv] at hentry
        cases hentry
      have hdone : (ledger uuid s (es ++ [.step id env])).done key = (ledger uuid s es).done key := by
        rw [hledger]
        exact note_done_of_ne _ r hdel
      exact (h.entries key entry hold).map hdone (by simp only [viewAfter, hmoment]; omega) hkeep hwas
    · -- The entry is new: the copy of the request, which does not come too late.
      obtain ⟨-, cfg, -, rfl, -, -, hcached⟩ := htracked.allow hprog
      have hrecorded := recorded_of_cachedAs (h.copies id) hcached (hlate key _ _ rfl) (h.seen id)
      exact hrecorded.map (by simp only [viewAfter, hledger]; rfl)
        (by simp only [viewAfter, hmoment]; omega) hkeep hwas

/-- An event that does nothing. -/
theorem Accounted.unchanged (h : Accounted uuid order config s es)
    (hstep : (system uuid).step ((system uuid).run s es) e = ((system uuid).run s es, [])) :
    Accounted uuid order config s (es ++ [e]) := by
  have hsame : (system uuid).run s (es ++ [e]) = (system uuid).run s es := by
    rw [Machine.run_concat, hstep]
  refine h.silent (by rw [hstep]) ?_ ?_ ?_ ?_ ?_ <;> rw [hsame]
  · exact fun key entry hentry => hentry
  · exact fun id th hth => .inl hth
  · exact fun id hid => hid

/-- A request arrives. -/
theorem Accounted.started (h : Accounted uuid order config s es) (replica seq : ℕ)
    (claims : Claims) (request : Request) (oracle : Oracle)
    (hnone : ((system uuid).run s es).inflight ⟨claims.tenantId, seq⟩ = none) :
    Accounted uuid order config s (es ++ [.start replica seq claims request oracle]) := by
  have hrun : (system uuid).run s (es ++ [.start replica seq claims request oracle]) =
      ((system uuid).run s es).setThread ⟨claims.tenantId, seq⟩
        (some (((system uuid).run s es).newThread replica claims request oracle)) := by
    simp only [Machine.run_concat, step_start, State.start, hnone]
  refine h.silent rfl ?_ ?_ ?_ ?_ ?_ <;> rw [hrun]
  · rfl
  · rfl
  · exact fun key entry hentry => hentry
  · intro id th hth
    by_cases heq : id = ⟨claims.tenantId, seq⟩
    · subst heq
      rw [State.setThread_inflight_self] at hth
      obtain rfl := Option.some.inj hth
      exact .inr ⟨hnone, newThread_tracked (fun _ => (h.replicas replica).2) ..⟩
    · rw [State.setThread_inflight_of_ne _ _ heq] at hth
      exact .inl hth
  · intro id hid
    by_cases heq : id = ⟨claims.tenantId, seq⟩
    · rw [heq]
      exact hnone
    · rw [State.setThread_inflight_of_ne _ _ heq] at hid
      exact hid

/-- Every quiet event that is not a late fill keeps everything on record. -/
theorem Accounted.step (h : Accounted uuid order config s es) (he : e.Quiet order)
    (hlate : NoLateFill uuid s (es ++ [e])) : Accounted uuid order config s (es ++ [e]) := by
  cases e with
  | start replica seq claims request oracle =>
      cases hth : ((system uuid).run s es).inflight ⟨claims.tenantId, seq⟩ with
      | none => exact h.started replica seq claims request oracle hth
      | some th => exact h.unchanged (by simp only [step_start, State.start, hth])
  | step id env =>
      cases hth : ((system uuid).run s es).inflight id with
      | none => exact h.unchanged (by rw [step_step, State.stepThread_none hth])
      | some th =>
          cases hprog : th.prog with
          | ret response => exact h.responded hth hprog
          | op o k =>
              refine h.performed he.1 he.2 hth hprog fun key value ttl ho => ?_
              refine hlate es _ (.performed id o (((system uuid).run s es).exec th env o).1) id key
                List.prefix_rfl ?_ (by rw [ho]; rfl)
              rw [step_step, State.stepThread_op hth hprog]
              exact List.mem_singleton.mpr rfl
  | expire key =>
      refine h.silent rfl ?_ ?_ ?_ ?_ ?_ <;> rw [Machine.run_concat]
      · rfl
      · rfl
      · intro key' entry hentry
        rw [step_expire, State.setStore_store] at hentry
        by_cases heq : key' = key
        · simp [heq] at hentry
        · exact (Function.update_of_ne heq ..).symm.trans hentry
      · exact fun id th' hth' => .inl hth'
      · exact fun id hid => hid
  | advance clock =>
      refine h.silent rfl ?_ ?_ ?_ ?_ ?_ <;> rw [Machine.run_concat]
      · rfl
      · rfl
      · exact fun key entry hentry => Option.eq_some_of_filter_eq_some hentry
      · exact fun id th' hth' => .inl hth'
      · exact fun id hid => hid
  | drop | rpc | configUpdate => exact he.elim

theorem NoLateFill.of_prefix {es' : List Event} (h : NoLateFill uuid s es') (hes : es <+: es') :
    NoLateFill uuid s es := fun pre e obs id key hpre =>
  h pre e obs id key (hpre.trans hes)

theorem initial_accounted (db : Table) (amqpChannel : ℕ → Bool) :
    Accounted uuid order config (.connected db config amqpChannel) [] where
  replicas _ := ⟨rfl, rfl⟩
  seen _ := le_rfl
  done _ := le_rfl
  idle _ _ := rfl
  tracked _ _ h := nomatch h
  copies _ := trivial
  entries _ _ h := nomatch h

/-- In a quiet run without late fills everything stays on record. -/
theorem run_accounted {db : Table} {amqpChannel : ℕ → Bool} (hes : ∀ e ∈ es, e.Quiet order)
    (hlate : NoLateFill uuid (.connected db config amqpChannel) es) :
    Accounted uuid order config (.connected db config amqpChannel) es := by
  induction es using List.reverseRecOn with
  | nil => exact initial_accounted db amqpChannel
  | append_singleton es e ih =>
      have hprev := ih (fun e' he' => hes e' (List.mem_append_left _ he'))
        (hlate.of_prefix (List.prefix_append _ _))
      exact hprev.step (hes e (List.mem_append_right _ List.mem_cons_self)) hlate

/-- With nothing in flight every entry is what the database would answer. -/
theorem Accounted.coherent (h : Accounted uuid order config s es)
    (hrest : ∀ id, ((system uuid).run s es).inflight id = none) {key : Key} {e : Entry}
    (he : ((system uuid).run s es).store.redis key = some e) :
    (exactly order config).fresh ((system uuid).run s es).store.db key e.value := by
  obtain ⟨n, hdone, -, hsound, -⟩ := h.entries key e he
  rcases hsound with hnow | ⟨id, howed, -⟩ | hlater
  · exact hnow
  · have hidle := h.idle id (hrest id)
    simp only [viewAfter, hidle] at howed
    cases howed
  · omega

end Steps

end BackupService
