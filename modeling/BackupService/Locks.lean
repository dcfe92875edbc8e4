import BackupService.Lib.Lock
import BackupService.RateLimit

/-!
The two locks of a process.

The configuration is behind an `RwLock`: the updater merges a payload into it
field by field, and a request reads one or two fields of it. The counters of
the limiter are behind a `Mutex`: a call inserts, resets and increments an
entry of the map in several steps, and reads the clock in between.

The rest of the development takes both as single steps. Here this is proved:
`config_linearizable` for the configuration, and `limiter_serialized` for the
counters, where the clock is read while the lock is held, so that the times
the counters see never go back.
-/

namespace BackupService

open Lib Program

/-! ### The configuration -/

/-- An access to one field. -/
inductive ConfigStep
  | redisUrl
  | jwtSecret
  | maxRequests
  | windowSecs
  | cacheTtlSecs
  | cachedListLimit
  | cachedListOffset
  | setMaxRequests (v : UInt64)
  | setWindowSecs (v : UInt64)
  | setCacheTtlSecs (v : UInt64)
  | setCachedListLimit (v : ℤ)
  | setCachedListOffset (v : ℤ)

abbrev ConfigStep.Answer : ConfigStep → Type
  | redisUrl | jwtSecret => String
  | maxRequests | windowSecs | cacheTtlSecs => UInt64
  | cachedListLimit | cachedListOffset => ℤ
  | _ => Unit

def ConfigStep.exec : (o : ConfigStep) → AppConfig → o.Answer × AppConfig
  | redisUrl, cfg => (cfg.redisUrl, cfg)
  | jwtSecret, cfg => (cfg.jwtSecret, cfg)
  | maxRequests, cfg => (cfg.rateLimit.maxRequests, cfg)
  | windowSecs, cfg => (cfg.rateLimit.windowSecs, cfg)
  | cacheTtlSecs, cfg => (cfg.cacheTtlSecs, cfg)
  | cachedListLimit, cfg => (cfg.cachedListLimit, cfg)
  | cachedListOffset, cfg => (cfg.cachedListOffset, cfg)
  | setMaxRequests v, cfg => ((), { cfg with rateLimit := { cfg.rateLimit with maxRequests := v } })
  | setWindowSecs v, cfg => ((), { cfg with rateLimit := { cfg.rateLimit with windowSecs := v } })
  | setCacheTtlSecs v, cfg => ((), { cfg with cacheTtlSecs := v })
  | setCachedListLimit v, cfg => ((), { cfg with cachedListLimit := v })
  | setCachedListOffset v, cfg => ((), { cfg with cachedListOffset := v })

/-- `apply_update` on the configuration behind the guard. -/
def applyUpdateSteps (update : RemoteConfigUpdate) : Program ConfigStep ConfigStep.Answer Unit := do
  if let some rl := update.rateLimit then
    if let some v := rl.maxRequests then perform (ConfigStep.setMaxRequests v)
    if let some v := rl.windowSecs then perform (ConfigStep.setWindowSecs v)
  if let some v := update.cacheTtlSecs then perform (ConfigStep.setCacheTtlSecs v)
  if let some v := update.cachedListLimit then perform (ConfigStep.setCachedListLimit v)
  if let some v := update.cachedListOffset then perform (ConfigStep.setCachedListOffset v)

/-- What the parts of the service do while they hold the guard. -/
inductive ConfigAccess
  /-- `CacheLayer::new` -/
  | redisUrl
  /-- `login`, `auth_middleware` -/
  | jwtSecret
  /-- `rate_limit_middleware` -/
  | rateLimit
  /-- `CacheLayer::cache_ttl_secs` -/
  | cacheTtlSecs
  /-- `list_backups` -/
  | cachedList
  /-- `with_config_mut` -/
  | update (update : RemoteConfigUpdate)

inductive ConfigAnswer
  | text (s : String)
  | rateLimit (config : RateLimitConfig)
  | secs (n : UInt64)
  | cachedList (limit offset : ℤ)
  | updated
  deriving DecidableEq

/-- `read()` or `write()` -/
def ConfigAccess.access : ConfigAccess → Access
  | update _ => .exclusive
  | _ => .shared

def ConfigAccess.body : ConfigAccess → Program ConfigStep ConfigStep.Answer ConfigAnswer
  | redisUrl => do
      let url ← perform .redisUrl
      return .text url
  | jwtSecret => do
      let secret ← perform .jwtSecret
      return .text secret
  | rateLimit => do
      let maxRequests ← perform .maxRequests
      let windowSecs ← perform .windowSecs
      return .rateLimit ⟨maxRequests, windowSecs⟩
  | cacheTtlSecs => do
      let n ← perform .cacheTtlSecs
      return .secs n
  | cachedList => do
      let limit ← perform .cachedListLimit
      let offset ← perform .cachedListOffset
      return .cachedList limit offset
  | update u => do
      applyUpdateSteps u
      return .updated

theorem ConfigAccess.readOnly (access : ConfigAccess) (h : access.access = .shared) :
    access.body.ReadOnly ConfigStep.exec := by
  cases access with
  | update u => cases h
  | redisUrl | jwtSecret | cacheTtlSecs => exact ⟨fun _ => rfl, fun _ => trivial⟩
  | rateLimit | cachedList => exact ⟨fun _ => rfl, fun _ => ⟨fun _ => rfl, fun _ => trivial⟩⟩

/-- `Arc<RwLock<AppConfig>>` -/
def configLock : Guarded AppConfig ConfigAccess ConfigAnswer ConfigStep ConfigStep.Answer where
  exec := ConfigStep.exec
  access := ConfigAccess.access
  body := ConfigAccess.body
  readOnly := ConfigAccess.readOnly

/-- What an access finds in a configuration. -/
def ConfigAccess.answer : ConfigAccess → AppConfig → ConfigAnswer
  | redisUrl, cfg => .text cfg.redisUrl
  | jwtSecret, cfg => .text cfg.jwtSecret
  | rateLimit, cfg => .rateLimit cfg.rateLimit
  | cacheTtlSecs, cfg => .secs cfg.cacheTtlSecs
  | cachedList, cfg => .cachedList cfg.cachedListLimit cfg.cachedListOffset
  | update _, _ => .updated

/-- The payload that an access merges. -/
def ConfigAccess.payload : ConfigAccess → Option RemoteConfigUpdate
  | update u => some u
  | _ => none

/-- A configuration that is read and replaced as a whole. -/
def wholeConfig : Object AppConfig ConfigAccess ConfigAnswer where
  apply access cfg := (access.answer cfg, access.payload.elim cfg (applyUpdate cfg))

section Merge

variable (cfg : AppConfig)

theorem run_applyUpdateSteps (update : RemoteConfigUpdate) :
    (applyUpdateSteps update).run ConfigStep.exec cfg = ((), applyUpdate cfg update) := by
  obtain ⟨rl, ttl, limit, offset⟩ := update
  cases rl with
  | none =>
      cases ttl <;> cases limit <;> cases offset <;> rfl
  | some rl =>
      obtain ⟨maxRequests, windowSecs⟩ := rl
      cases maxRequests <;> cases windowSecs <;> cases ttl <;> cases limit <;> cases offset <;> rfl

theorem run_body (access : ConfigAccess) :
    access.body.run ConfigStep.exec cfg = wholeConfig.apply access cfg := by
  cases access with
  | update u =>
      rw [ConfigAccess.body, run_bind, run_applyUpdateSteps]
      rfl
  | redisUrl | jwtSecret | rateLimit | cacheTtlSecs | cachedList => rfl

theorem configLock_object : configLock.object = wholeConfig :=
  congrArg Object.mk (funext fun access => funext fun cfg => run_body cfg access)

end Merge

/-- The payloads that have been merged, in the order of the accesses. -/
def payloads {ι : Type} (order : List (Applied ι ConfigAccess ConfigAnswer)) :
    List RemoteConfigUpdate :=
  order.filterMap (·.op.payload)

theorem merged_of_admits {ι : Type} {cfg cfg' : AppConfig}
    {order : List (Applied ι ConfigAccess ConfigAnswer)} (h : wholeConfig.Admits cfg order cfg') :
    cfg' = (payloads order).foldl applyUpdate cfg := by
  induction order generalizing cfg with
  | nil => exact Eq.symm h
  | cons x order ih =>
      rw [ih h.2]
      simp only [payloads, wholeConfig, List.filterMap_cons]
      cases x.op.payload with
      | none => rfl
      | some u => rfl

/-- **The configuration is linearizable.** The accesses can be put in an order
that agrees with what came before what, and in which each of them finds the
first configuration with the updates before it merged, one whole payload
after the other. -/
theorem config_linearizable {ι : Type} [DecidableEq ι] (cfg : AppConfig)
    (es : List (LockEvent ι ConfigAccess)) : ∃ order : List (Applied ι ConfigAccess ConfigAnswer),
      wholeConfig.Linearization cfg (configLock.machine.trace (.start cfg) es)
        ((payloads order).foldl applyUpdate cfg) order ∧
      ((configLock.machine.run (.start cfg) es).writer = none →
        (configLock.machine.run (.start cfg) es).memory = (payloads order).foldl applyUpdate cfg) ∧
      ∀ i answer, .returned i answer ∈ configLock.machine.trace (.start cfg) es →
        ∃ before access after, order = before ++ ⟨i, access, answer⟩ :: after ∧
          answer = access.answer ((payloads before).foldl applyUpdate cfg) := by
  obtain ⟨cfg', order, h, hsettled⟩ := configLock.linearizable cfg es
  rw [configLock_object] at h
  obtain rfl := merged_of_admits h.admits
  refine ⟨order, h, hsettled, fun i answer hret => ?_⟩
  obtain ⟨access, hmem⟩ := h.returned i answer hret
  obtain ⟨before, after, rfl⟩ := List.append_of_mem hmem
  obtain ⟨mid, hbefore, hafter⟩ := h.admits.of_append
  refine ⟨before, access, after, rfl, ?_⟩
  rw [← merged_of_admits hbefore]
  exact hafter.1.symm

/-! ### The counters -/

/-- What happens between `lock().await` and the end of the guard. -/
inductive LimiterStep
  /-- `Instant::now()` -/
  | now
  /-- `counters.entry(tenant_id).or_insert(entry)` -/
  | orInsert (tenantId : Uuid) (entry : UInt64 × ℕ)
  | read (tenantId : Uuid)
  | write (tenantId : Uuid) (entry : UInt64 × ℕ)

abbrev LimiterStep.Answer : LimiterStep → Type
  | now => ℕ
  | read _ => UInt64 × ℕ
  | _ => Unit

def LimiterStep.exec (clock : ℕ) : (o : LimiterStep) → Counters → o.Answer × Counters
  | now, counters => (clock, counters)
  | orInsert tenantId entry, counters =>
      ((), Function.update counters tenantId (some ((counters tenantId).getD entry)))
  -- only after `orInsert`
  | read tenantId, counters => ((counters tenantId).getD (0, 0), counters)
  | write tenantId entry, counters => ((), Function.update counters tenantId (some entry))

abbrev Limiting := Program LimiterStep LimiterStep.Answer (Except Unit RateLimitInfo)

/-- The rest of `check_and_increment` once the window is not over. -/
def incrementSteps (tenantId : Uuid) (config : RateLimitConfig) : Limiting := do
  let entry ← perform (LimiterStep.read tenantId)
  perform (LimiterStep.write tenantId (entry.1 + 1, entry.2))
  let entry ← perform (LimiterStep.read tenantId)
  let remaining := saturatingSub config.maxRequests entry.1
  if config.maxRequests < entry.1 then return .error ()
  else return .ok { limit := config.maxRequests, remaining, resetSecs := config.windowSecs }

/-- `check_and_increment` from the reading of the clock on. -/
def checkAt (tenantId : Uuid) (config : RateLimitConfig) (now : ℕ) : Limiting := do
  let window := secs config.windowSecs.toNat
  perform (LimiterStep.orInsert tenantId (0, now))
  let entry ← perform (LimiterStep.read tenantId)
  if window ≤ now - entry.2 then perform (LimiterStep.write tenantId (0, now))
  incrementSteps tenantId config

def checkAndIncrementSteps (tenantId : Uuid) (config : RateLimitConfig) : Limiting := do
  let now ← perform .now
  checkAt tenantId config now

/-- A call of `check_and_increment`. -/
inductive Checking
  | outside
  /-- It waits for the mutex since `entered`. -/
  | waiting (tenantId : Uuid) (config : RateLimitConfig) (entered : ℕ)
  | inside (tenantId : Uuid) (config : RateLimitConfig) (entered : ℕ) (rest : Limiting)
  | left

structure MutexState where
  clock : ℕ
  counters : Counters
  holder : Option ℕ
  calls : ℕ → Checking

inductive MutexEvent
  | enter (n : ℕ) (tenantId : Uuid) (config : RateLimitConfig)
  | lock (n : ℕ)
  /-- The request is dropped at its `await`. -/
  | cancel (n : ℕ)
  | step (n : ℕ)
  | tick (d : ℕ)

/-- A call that has returned. -/
structure Checked where
  name : ℕ
  tenantId : Uuid
  config : RateLimitConfig
  entered : ℕ
  left : ℕ
  answer : Except Unit RateLimitInfo

namespace MutexState

variable (s : MutexState)

def start (clock : ℕ) (counters : Counters) : MutexState :=
  ⟨clock, counters, none, fun _ => .outside⟩

def put (n : ℕ) (c : Checking) : MutexState := { s with calls := Function.update s.calls n c }

@[simp] theorem put_clock (n : ℕ) (c : Checking) : (s.put n c).clock = s.clock := rfl

@[simp] theorem put_counters (n : ℕ) (c : Checking) : (s.put n c).counters = s.counters := rfl

@[simp] theorem put_holder (n : ℕ) (c : Checking) : (s.put n c).holder = s.holder := rfl

@[simp] theorem put_calls_self (n : ℕ) (c : Checking) : (s.put n c).calls n = c :=
  Function.update_self ..

theorem put_calls_of_ne {n m : ℕ} (h : m ≠ n) (c : Checking) : (s.put n c).calls m = s.calls m :=
  Function.update_of_ne h ..

end MutexState

/-- `InMemoryRateLimiter` under concurrent calls. -/
def mutexLimiter : Machine MutexState MutexEvent Checked where
  step s
    | .enter n tenantId config =>
        match s.calls n with
        | .outside => (s.put n (.waiting tenantId config s.clock), [])
        | _ => (s, [])
    | .lock n =>
        match s.calls n, s.holder with
        | .waiting tenantId config entered, none =>
            ({ s with holder := some n }.put n
              (.inside tenantId config entered (checkAndIncrementSteps tenantId config)), [])
        | _, _ => (s, [])
    | .cancel n =>
        match s.calls n with
        | .waiting _ _ _ => (s.put n .left, [])
        | _ => (s, [])
    | .step n =>
        match s.calls n with
        | .inside tenantId config entered (.ret answer) =>
            ({ s with holder := none }.put n .left,
              [⟨n, tenantId, config, entered, s.clock, answer⟩])
        | .inside tenantId config entered (.op o k) =>
            ({ s with counters := (o.exec s.clock s.counters).2 }.put n
              (.inside tenantId config entered (k (o.exec s.clock s.counters).1)), [])
        | _ => (s, [])
    | .tick d => ({ s with clock := s.clock + d }, [])

/-! ### One call after the other -/

/-- The clock is not read any more. -/
def Clockless : Limiting → Prop
  | .ret _ => True
  | .op o k => o ≠ .now ∧ ∀ r, Clockless (k r)

theorem clockless_perform {o : LimiterStep} {f : o.Answer → Limiting} (ho : o ≠ .now)
    (hf : ∀ r, Clockless (f r)) : Clockless (perform o >>= f) := ⟨ho, hf⟩

theorem exec_of_ne_now {o : LimiterStep} (h : o ≠ .now) (clock clock' : ℕ) (counters : Counters) :
    o.exec clock counters = o.exec clock' counters := by
  cases o with
  | now => exact absurd rfl h
  | orInsert | read | write => rfl

section CheckAt

variable (tenantId : Uuid) (config : RateLimitConfig) (now : ℕ)

theorem clockless_incrementSteps : Clockless (incrementSteps tenantId config) := by
  refine clockless_perform LimiterStep.noConfusion fun _ =>
    clockless_perform LimiterStep.noConfusion fun _ =>
    clockless_perform LimiterStep.noConfusion fun entry => ?_
  dsimp only
  split <;> trivial

theorem clockless_checkAt : Clockless (checkAt tenantId config now) := by
  refine clockless_perform LimiterStep.noConfusion fun _ =>
    clockless_perform LimiterStep.noConfusion fun entry => ?_
  dsimp only
  split
  · exact clockless_perform LimiterStep.noConfusion fun _ => clockless_incrementSteps ..
  · exact clockless_incrementSteps ..

theorem run_incrementSteps (clock : ℕ) (counters : Counters) (entry : UInt64 × ℕ) :
    (incrementSteps tenantId config).run (LimiterStep.exec clock)
        (Function.update counters tenantId (some entry)) =
      (answer config (entry.1 + 1),
        Function.update counters tenantId (some (entry.1 + 1, entry.2))) := by
  simp only [incrementSteps, run_bind, run_perform, LimiterStep.exec, Function.update_self,
    Option.getD_some, Function.update_idem, answer]
  split <;> rfl

/-- The steps come to what the call does at once. -/
theorem run_checkAt (clock : ℕ) (counters : Counters) :
    (checkAt tenantId config now).run (LimiterStep.exec clock) counters =
      checkAndIncrement counters tenantId config now := by
  have hfirst : (checkAt tenantId config now).run (LimiterStep.exec clock) counters =
      (if secs config.windowSecs.toNat ≤ now - ((counters tenantId).getD (0, now)).2 then
        perform (LimiterStep.write tenantId (0, now)) >>= fun _ => incrementSteps tenantId config
        else incrementSteps tenantId config).run (LimiterStep.exec clock)
          (Function.update counters tenantId (some ((counters tenantId).getD (0, now)))) := by
    simp only [checkAt, run_bind, run_perform, LimiterStep.exec, Function.update_self,
      Option.getD_some]
  rw [hfirst, checkAndIncrement]
  split
  · rw [run_bind, run_perform, LimiterStep.exec, Function.update_idem, run_incrementSteps]
    rfl
  · rw [run_incrementSteps]
    rfl

end CheckAt

/-- What is left of the call that holds the mutex, where `before` are the
counters that it has found. -/
inductive Pending (before : Counters) (calls : List Call) (s : MutexState) (tenantId : Uuid)
    (config : RateLimitConfig) (entered : ℕ) : Limiting → Prop
  | untimed (hcounters : s.counters = before) (hentered : entered ≤ s.clock) :
      Pending before calls s tenantId config entered (checkAndIncrementSteps tenantId config)
  | timed {rest : Limiting} {now : ℕ} (hentered : entered ≤ now) (hnow : now ≤ s.clock)
      (hcalls : ∀ c ∈ calls, c.now ≤ now) (hclockless : Clockless rest)
      (hrun : rest.run (LimiterStep.exec 0) s.counters =
        checkAndIncrement before tenantId config now) :
      Pending before calls s tenantId config entered rest

/-- The call that has returned is this one of the limiter. -/
def Checked.Agrees (o : Checked) (p : Call × Except Unit RateLimitInfo) : Prop :=
  o.tenantId = p.1.tenantId ∧ o.config = p.1.config ∧
    o.entered ≤ p.1.now ∧ p.1.now ≤ o.left ∧ o.answer = p.2

/-- The calls of the limiter that the calls so far amount to. -/
structure Serial (counters₀ : Counters) (s : MutexState) (seen : List Checked)
    (calls : List Call) : Prop where
  seen : List.Forall₂ Checked.Agrees seen (limiter.trace counters₀ calls)
  sorted : calls.Pairwise fun c d => c.now ≤ d.now
  times : ∀ c ∈ calls, c.now ≤ s.clock
  waiting : ∀ n tenantId config entered, s.calls n = .waiting tenantId config entered →
    entered ≤ s.clock
  inside : ∀ n tenantId config entered rest, s.calls n = .inside tenantId config entered rest →
    s.holder = some n ∧
      Pending (limiter.run counters₀ calls) calls s tenantId config entered rest
  free : s.holder = none → s.counters = limiter.run counters₀ calls

namespace Serial

variable {counters₀ : Counters} {s : MutexState} {seen : List Checked} {calls : List Call} {n : ℕ}

theorem start (clock : ℕ) (counters : Counters) :
    Serial counters (.start clock counters) [] [] where
  seen := .nil
  sorted := .nil
  times _ hc := by cases hc
  waiting _ _ _ _ h := by cases h
  inside _ _ _ _ _ h := by cases h
  free _ := rfl

/-- A call that goes to where the mutex does not matter. -/
theorem put (h : Serial counters₀ s seen calls) {c : Checking}
    (hwaiting : ∀ tenantId config entered, c = .waiting tenantId config entered → entered ≤ s.clock)
    (hinside : ∀ tenantId config entered rest, c ≠ .inside tenantId config entered rest) :
    Serial counters₀ (s.put n c) seen calls where
  seen := h.seen
  sorted := h.sorted
  times := h.times
  waiting m tenantId config entered hm := by
    by_cases hmn : m = n
    · subst hmn
      rw [MutexState.put_calls_self] at hm
      exact hwaiting _ _ _ hm
    · rw [MutexState.put_calls_of_ne s hmn] at hm
      exact h.waiting m _ _ _ hm
  inside m tenantId config entered rest hm := by
    by_cases hmn : m = n
    · subst hmn
      rw [MutexState.put_calls_self] at hm
      exact absurd hm (hinside _ _ _ _)
    · rw [MutexState.put_calls_of_ne s hmn] at hm
      obtain ⟨hholder, hpending⟩ := h.inside m _ _ _ _ hm
      refine ⟨hholder, ?_⟩
      cases hpending with
      | untimed hcounters hentered => exact .untimed hcounters hentered
      | timed hentered hnow hcalls hclockless hrun =>
          exact .timed hentered hnow hcalls hclockless hrun
  free := h.free

theorem lock (h : Serial counters₀ s seen calls) {tenantId : Uuid} {config : RateLimitConfig}
    {entered : ℕ} (hn : s.calls n = .waiting tenantId config entered) (hfree : s.holder = none) :
    Serial counters₀ ({ s with holder := some n }.put n
      (.inside tenantId config entered (checkAndIncrementSteps tenantId config))) seen calls where
  seen := h.seen
  sorted := h.sorted
  times := h.times
  waiting m tenantId' config' entered' hm := by
    by_cases hmn : m = n
    · subst hmn
      rw [MutexState.put_calls_self] at hm
      cases hm
    · rw [MutexState.put_calls_of_ne _ hmn] at hm
      exact h.waiting m _ _ _ hm
  inside m tenantId' config' entered' rest hm := by
    by_cases hmn : m = n
    · subst hmn
      rw [MutexState.put_calls_self] at hm
      obtain ⟨rfl, rfl, rfl, rfl⟩ := Checking.inside.inj hm
      exact ⟨rfl, .untimed (h.free hfree) (h.waiting _ _ _ _ hn)⟩
    · rw [MutexState.put_calls_of_ne _ hmn] at hm
      have hholder := (h.inside m _ _ _ _ hm).1
      rw [hfree] at hholder
      cases hholder
  free hnone := by cases hnone

/-- A step of the call that holds the mutex. -/
theorem move (h : Serial counters₀ s seen calls) {tenantId : Uuid} {config : RateLimitConfig}
    {entered : ℕ} {o : LimiterStep} {k : o.Answer → Limiting}
    (hn : s.calls n = .inside tenantId config entered (.op o k)) :
    Serial counters₀ ({ s with counters := (o.exec s.clock s.counters).2 }.put n
      (.inside tenantId config entered (k (o.exec s.clock s.counters).1))) seen calls := by
  obtain ⟨hholder, hpending⟩ := h.inside n _ _ _ _ hn
  refine ⟨h.seen, h.sorted, h.times, fun m tenantId' config' entered' hm => ?_,
    fun m tenantId' config' entered' rest hm => ?_, fun hnone => ?_⟩
  · by_cases hmn : m = n
    · subst hmn
      rw [MutexState.put_calls_self] at hm
      cases hm
    · rw [MutexState.put_calls_of_ne _ hmn] at hm
      exact h.waiting m _ _ _ hm
  · by_cases hmn : m = n
    · subst hmn
      rw [MutexState.put_calls_self] at hm
      obtain ⟨rfl, rfl, rfl, rfl⟩ := Checking.inside.inj hm
      refine ⟨hholder, ?_⟩
      generalize hrest : Program.op o k = rest at hpending
      cases hpending with
      | untimed hcounters hentered =>
          -- the clock is read
          obtain ⟨rfl, hk⟩ := Program.op.inj hrest
          obtain rfl := eq_of_heq hk
          refine .timed hentered (Nat.le_refl _) h.times (clockless_checkAt _ _ _) ?_
          exact (run_checkAt ..).trans (by rw [← hcounters]; rfl)
      | timed hentered hnow hcalls hclockless hrun =>
          subst hrest
          refine .timed hentered hnow hcalls (hclockless.2 _) ?_
          rw [← hrun, run_op, exec_of_ne_now hclockless.1 s.clock 0]
          rfl
    · rw [MutexState.put_calls_of_ne _ hmn] at hm
      have hother := (h.inside m _ _ _ _ hm).1
      rw [hholder] at hother
      exact absurd (Option.some.inj hother).symm hmn
  · have hnone : s.holder = none := hnone
    rw [hholder] at hnone
    cases hnone

theorem leave (h : Serial counters₀ s seen calls) {tenantId : Uuid} {config : RateLimitConfig}
    {entered : ℕ} {answer : Except Unit RateLimitInfo}
    (hn : s.calls n = .inside tenantId config entered (.ret answer)) :
    ∃ c : Call, Serial counters₀ ({ s with holder := none }.put n .left)
      (seen ++ [⟨n, tenantId, config, entered, s.clock, answer⟩]) (calls ++ [c]) := by
  obtain ⟨hholder, hpending⟩ := h.inside n _ _ _ _ hn
  generalize hrest : (Program.ret answer : Limiting) = rest at hpending
  cases hpending with
  | untimed => cases hrest
  | @timed _ now hentered hnow hcalls hclockless hrun =>
      subst hrest
      have hstep : limiter.step (limiter.run counters₀ calls) ⟨tenantId, config, now⟩ =
          (s.counters, [(⟨tenantId, config, now⟩, answer)]) := by
        have hcheck : limiter.step (limiter.run counters₀ calls) ⟨tenantId, config, now⟩ =
            ((checkAndIncrement (limiter.run counters₀ calls) tenantId config now).2,
              [(⟨tenantId, config, now⟩,
                (checkAndIncrement (limiter.run counters₀ calls) tenantId config now).1)]) := rfl
        rw [hcheck, ← hrun, run_ret]
      refine ⟨⟨tenantId, config, now⟩, ?_, ?_, ?_, fun m tenantId' config' entered' hm => ?_,
        fun m tenantId' config' entered' rest hm => ?_, fun _ => ?_⟩
      · rw [Machine.trace_concat, hstep]
        exact List.rel_append h.seen (.cons ⟨rfl, rfl, hentered, hnow, rfl⟩ .nil)
      · refine List.pairwise_append.mpr ⟨h.sorted, List.pairwise_singleton _ _, fun c hc d hd => ?_⟩
        rw [List.mem_singleton.mp hd]
        exact hcalls c hc
      · intro c hc
        rcases List.mem_append.mp hc with hc | hc
        · exact h.times c hc
        · rw [List.mem_singleton.mp hc]
          exact hnow
      · by_cases hmn : m = n
        · subst hmn
          rw [MutexState.put_calls_self] at hm
          cases hm
        · rw [MutexState.put_calls_of_ne _ hmn] at hm
          exact h.waiting m _ _ _ hm
      · by_cases hmn : m = n
        · subst hmn
          rw [MutexState.put_calls_self] at hm
          cases hm
        · rw [MutexState.put_calls_of_ne _ hmn] at hm
          have hother := (h.inside m _ _ _ _ hm).1
          rw [hholder] at hother
          exact absurd (Option.some.inj hother).symm hmn
      · rw [Machine.run_concat, hstep]
        rfl

theorem tick (h : Serial counters₀ s seen calls) (d : ℕ) :
    Serial counters₀ { s with clock := s.clock + d } seen calls where
  seen := h.seen
  sorted := h.sorted
  times c hc := Nat.le_add_right_of_le (h.times c hc)
  waiting m _ _ _ hm := Nat.le_add_right_of_le (h.waiting m _ _ _ hm)
  inside m tenantId config entered rest hm := by
    obtain ⟨hholder, hpending⟩ := h.inside m _ _ _ _ hm
    refine ⟨hholder, ?_⟩
    cases hpending with
    | untimed hcounters hentered => exact .untimed hcounters (Nat.le_add_right_of_le hentered)
    | timed hentered hnow hcalls hclockless hrun =>
        exact .timed hentered (Nat.le_add_right_of_le hnow) hcalls hclockless hrun
  free := h.free

theorem step (h : Serial counters₀ s seen calls) (e : MutexEvent) :
    ∃ calls', Serial counters₀ (mutexLimiter.step s e).1 (seen ++ (mutexLimiter.step s e).2)
      calls' := by
  have hstay : ∃ calls', Serial counters₀ s (seen ++ []) calls' :=
    ⟨calls, by rwa [List.append_nil]⟩
  cases e with
  | enter n tenantId config =>
      simp only [mutexLimiter]
      split
      · refine ⟨calls, ?_⟩
        rw [List.append_nil]
        refine h.put (fun _ _ entered hc => ?_) (fun _ _ _ _ => Checking.noConfusion)
        obtain ⟨-, -, rfl⟩ := Checking.waiting.inj hc
        exact Nat.le_refl _
      · exact hstay
  | lock n =>
      simp only [mutexLimiter]
      split
      · next hn hfree =>
          refine ⟨calls, ?_⟩
          rw [List.append_nil]
          exact h.lock hn hfree
      · exact hstay
  | cancel n =>
      simp only [mutexLimiter]
      split
      · refine ⟨calls, ?_⟩
        rw [List.append_nil]
        exact h.put (fun _ _ _ => Checking.noConfusion) (fun _ _ _ _ => Checking.noConfusion)
      · exact hstay
  | step n =>
      simp only [mutexLimiter]
      split
      · next hn =>
          obtain ⟨c, hc⟩ := h.leave hn
          exact ⟨calls ++ [c], hc⟩
      · next hn =>
          refine ⟨calls, ?_⟩
          rw [List.append_nil]
          exact h.move hn
      · exact hstay
  | tick d =>
      refine ⟨calls, ?_⟩
      show Serial counters₀ _ (seen ++ []) calls
      rw [List.append_nil]
      exact h.tick d

end Serial

/-- **Concurrent calls of the limiter are calls one after the other.** They
come in the order in which they return, at times that do not go back, and
each at a time between its own beginning and end; whenever nobody holds the
mutex, the counters are what these calls have left. -/
theorem limiter_serialized (clock : ℕ) (counters : Counters) (es : List MutexEvent) :
    ∃ calls : List Call,
      List.Forall₂ Checked.Agrees (mutexLimiter.trace (.start clock counters) es)
        (limiter.trace counters calls) ∧
      (calls.Pairwise fun c d => c.now ≤ d.now) ∧
      ((mutexLimiter.run (.start clock counters) es).holder = none →
        (mutexLimiter.run (.start clock counters) es).counters = limiter.run counters calls) := by
  have hserial : ∃ calls, Serial counters (mutexLimiter.run (.start clock counters) es)
      (mutexLimiter.trace (.start clock counters) es) calls := by
    induction es using List.reverseRecOn with
    | nil => exact ⟨[], .start clock counters⟩
    | append_singleton es e ih =>
        obtain ⟨calls, h⟩ := ih
        rw [Machine.run_concat, Machine.trace_concat]
        exact h.step e
  obtain ⟨calls, h⟩ := hserial
  exact ⟨calls, h.seen, h.sorted, h.free⟩

end BackupService
