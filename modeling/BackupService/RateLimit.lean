import BackupService.Config
import BackupService.Lib.Machine
import BackupService.Lib.Segments
import Mathlib.Algebra.Order.Archimedean.Real.Basic
import Mathlib.Algebra.Order.Floor.Semiring
import Mathlib.Tactic.FieldSimp
import Mathlib.Tactic.Linarith
import Mathlib.Tactic.NormNum

/-!
The in-memory rate limiter.

A tenant's counter belongs to a window that was opened by one of the
tenant's requests, and the first request that finds the window's time
to be up opens the next one. `trace_limiter` says what that amounts to:
the answers to a tenant are decided by cutting the tenant's own calls into
windows, and within a window by the position of the call alone. The two
limits of the module are statements about that.
-/

namespace BackupService

open Lib

/-! ### The limiter -/

structure RateLimitInfo where
  limit : UInt64
  remaining : UInt64
  resetSecs : UInt64
  deriving DecidableEq, Repr

/-- The map of the limiter: for each tenant the number of requests in its
window, and the instant the window was opened. -/
abbrev Counters := Uuid → Option (UInt64 × ℕ)

def Counters.empty : Counters := fun _ => none

/-- `u64::saturating_sub` -/
def saturatingSub (x y : UInt64) : UInt64 := if x < y then 0 else x - y

/-- `check_and_increment`, at the instant `now`. The counter wraps, as it
does in a release build. -/
def checkAndIncrement (counters : Counters) (tenantId : Uuid) (config : RateLimitConfig)
    (now : ℕ) : Except Unit RateLimitInfo × Counters :=
  let window := secs config.windowSecs.toNat
  let entry := (counters tenantId).getD (0, now)
  let entry := if window ≤ now - entry.2 then (0, now) else entry
  let entry := (entry.1 + 1, entry.2)
  let remaining := saturatingSub config.maxRequests entry.1
  (if config.maxRequests < entry.1 then .error ()
    else .ok { limit := config.maxRequests, remaining, resetSecs := config.windowSecs },
    Function.update counters tenantId (some entry))

/-- One call of the limiter. -/
structure Call where
  tenantId : Uuid
  config : RateLimitConfig
  now : ℕ
  deriving DecidableEq, Repr

/-- The limiter as a machine that shows each call with its answer. -/
def limiter : Machine Counters Call (Call × Except Unit RateLimitInfo) where
  step counters c :=
    let (answer, counters) := checkAndIncrement counters c.tenantId c.config c.now
    (counters, [(c, answer)])

/-- The calls that a fresh limiter lets through. -/
def admitted (calls : List Call) : List Call :=
  ((limiter.trace .empty calls).filter (·.2.isOk)).map Prod.fst

/-! ### What a window answers -/

/-- The call finds the window that `first` has opened to be over. -/
def Call.opens (first c : Call) : Bool := secs c.config.windowSecs.toNat ≤ c.now - first.now

/-- The windows of a tenant: its calls, cut where they find the window to
be over. Only the times and the configured lengths enter. -/
def windowsOf (tenantId : Uuid) (calls : List Call) : List (Segment Call) :=
  segments Call.opens (calls.filter (·.tenantId = tenantId))

/-- The answer to the call that brings the counter to `count`. -/
def answer (config : RateLimitConfig) (count : UInt64) : Except Unit RateLimitInfo :=
  if config.maxRequests < count then .error ()
  else .ok {
    limit := config.maxRequests
    remaining := saturatingSub config.maxRequests count
    resetSecs := config.windowSecs }

/-- The answers to further calls in a window that has seen `n`. -/
def answersFrom (n : ℕ) (calls : List Call) : List (Call × Except Unit RateLimitInfo) :=
  (calls.zipIdx n).map fun (c, i) => (c, answer c.config (UInt64.ofNat (i + 1)))

@[simp] theorem answersFrom_nil (n : ℕ) : answersFrom n [] = [] := rfl

@[simp] theorem answersFrom_cons (n : ℕ) (c : Call) (calls : List Call) :
    answersFrom n (c :: calls) =
      (c, answer c.config (UInt64.ofNat (n + 1))) :: answersFrom (n + 1) calls := rfl

theorem answersFrom_append (n : ℕ) (calls calls' : List Call) :
    answersFrom n (calls ++ calls') =
      answersFrom n calls ++ answersFrom (n + calls.length) calls' := by
  induction calls generalizing n with
  | nil => rfl
  | cons c calls ih =>
      rw [List.cons_append, answersFrom_cons, answersFrom_cons, ih, List.length_cons,
        List.cons_append, Nat.add_assoc, Nat.add_comm 1]

/-- All calls of a window, with their answers. -/
def windowAnswers (w : Segment Call) : List (Call × Except Unit RateLimitInfo) :=
  answersFrom 0 w.toList

/-- The calls of a window that are let through. -/
def windowAdmitted (w : Segment Call) : List Call :=
  ((windowAnswers w).filter (·.2.isOk)).map Prod.fst

/-- A call is let through with these numbers, or not at all. -/
theorem answer_eq_ok {config : RateLimitConfig} {count : UInt64} {info : RateLimitInfo} :
    answer config count = .ok info ↔ count ≤ config.maxRequests ∧ info = {
      limit := config.maxRequests
      remaining := saturatingSub config.maxRequests count
      resetSecs := config.windowSecs } := by
  unfold answer
  split
  · next h => exact iff_of_false nofun fun hok => UInt64.not_le.mpr h hok.1
  · next h =>
      rw [Except.ok.injEq, eq_comm]
      exact (and_iff_right (UInt64.not_lt.mp h)).symm

theorem isOk_answer_iff {config : RateLimitConfig} {count : UInt64} :
    (answer config count).isOk = true ↔ count ≤ config.maxRequests := by
  unfold answer
  split
  · next h => exact iff_of_false Bool.noConfusion (UInt64.not_le.mpr h)
  · next h => exact iff_of_true rfl (UInt64.not_lt.mp h)

theorem isOk_answer (config : RateLimitConfig) (n : ℕ) :
    (answer config (UInt64.ofNat n)).isOk = true ↔ n % 2 ^ 64 ≤ config.maxRequests.toNat := by
  rw [isOk_answer_iff, UInt64.le_iff_toNat_le, UInt64.toNat_ofNat']

theorem map_fst_answersFrom (n : ℕ) (calls : List Call) :
    (answersFrom n calls).map Prod.fst = calls := by
  induction calls generalizing n with
  | nil => rfl
  | cons c calls ih => rw [answersFrom_cons, List.map_cons, ih]

/-- While the quota lasts, everything is let through. -/
theorem filter_answersFrom_of_le {n : ℕ} {calls : List Call}
    (h : ∀ c ∈ calls, n + calls.length ≤ c.config.maxRequests.toNat) :
    (answersFrom n calls).filter (·.2.isOk) = answersFrom n calls := by
  induction calls generalizing n with
  | nil => rfl
  | cons c calls ih =>
      simp only [List.length_cons] at h
      obtain ⟨hc, hcalls⟩ := List.forall_mem_cons.mp h
      have hok : (answer c.config (UInt64.ofNat (n + 1))).isOk = true :=
        (isOk_answer _ _).mpr ((Nat.mod_le _ _).trans (by omega))
      rw [answersFrom_cons, List.filter_cons_of_pos (by exact hok),
        ih fun c' hc' => by have := hcalls c' hc'; omega]

/-- Once the quota is used up nothing is, unless the counter wraps. -/
theorem filter_answersFrom_of_ge {n : ℕ} {calls : List Call} (hlen : n + calls.length < 2 ^ 64)
    (h : ∀ c ∈ calls, c.config.maxRequests.toNat ≤ n) :
    (answersFrom n calls).filter (·.2.isOk) = [] := by
  induction calls generalizing n with
  | nil => rfl
  | cons c calls ih =>
      rw [List.length_cons] at hlen
      obtain ⟨hc, hcalls⟩ := List.forall_mem_cons.mp h
      have hno : ¬ (answer c.config (UInt64.ofNat (n + 1))).isOk = true := by
        rw [isOk_answer, Nat.mod_eq_of_lt (by omega)]
        omega
      rw [answersFrom_cons, List.filter_cons_of_neg (by exact hno),
        ih (by omega) fun c' hc' => (hcalls c' hc').trans (Nat.le_succ n)]

/-- The first `M` calls, if none of them has a lower quota. -/
theorem filter_answersFrom_take {M : ℕ} {calls : List Call}
    (hM : ∀ c ∈ calls, M ≤ c.config.maxRequests.toNat) :
    (answersFrom 0 (calls.take M)).filter (·.2.isOk) = answersFrom 0 (calls.take M) := by
  refine filter_answersFrom_of_le fun c hc => ?_
  rw [Nat.zero_add]
  exact (List.length_take_le _ _).trans (hM c (List.mem_of_mem_take hc))

/-- Of calls whose quota is at most `M`, only the first `M` count. -/
theorem filter_answersFrom_eq_take {M : ℕ} {calls : List Call} (hlen : calls.length < 2 ^ 64)
    (hM : ∀ c ∈ calls, c.config.maxRequests.toNat ≤ M) :
    (answersFrom 0 calls).filter (·.2.isOk) =
      (answersFrom 0 (calls.take M)).filter (·.2.isOk) := by
  have hrest : (answersFrom (calls.take M).length (calls.drop M)).filter (·.2.isOk) = [] := by
    refine filter_answersFrom_of_ge ?_ fun c hc => ?_
    · rw [← List.length_append, List.take_append_drop]
      exact hlen
    · have hpos := List.length_pos_of_mem hc
      have hquota := hM c (List.mem_of_mem_drop hc)
      rw [List.length_drop] at hpos
      rw [List.length_take]
      omega
  conv_lhs => rw [← List.take_append_drop M calls]
  rw [answersFrom_append, Nat.zero_add, List.filter_append, hrest, List.append_nil]

theorem windowAdmitted_sublist (w : Segment Call) : (windowAdmitted w).Sublist w.toList := by
  have := (List.filter_sublist (p := (·.2.isOk)) (l := windowAnswers w)).map Prod.fst
  rwa [windowAnswers, map_fst_answersFrom] at this

theorem length_windowAdmitted_le {w : Segment Call} {M : ℕ} (hlen : w.toList.length < 2 ^ 64)
    (hM : ∀ c ∈ w.toList, c.config.maxRequests.toNat ≤ M) : (windowAdmitted w).length ≤ M := by
  rw [windowAdmitted, windowAnswers, filter_answersFrom_eq_take hlen hM]
  have := ((List.filter_sublist (p := (·.2.isOk))
    (l := answersFrom 0 (w.toList.take M))).map Prod.fst).length_le
  rw [map_fst_answersFrom] at this
  exact this.trans (List.length_take_le _ _)

/-- A window lets its first `M` calls through, and no others. -/
theorem windowAdmitted_eq_take {w : Segment Call} {M : ℕ} (hlen : w.toList.length < 2 ^ 64)
    (hM : ∀ c ∈ w.toList, c.config.maxRequests.toNat = M) :
    windowAdmitted w = w.toList.take M := by
  rw [windowAdmitted, windowAnswers, filter_answersFrom_eq_take hlen fun c hc => (hM c hc).le,
    filter_answersFrom_take fun c hc => (hM c hc).ge, map_fst_answersFrom]

/-- A window in which the counter wraps lets more than `M` calls through:
the first `M`, and the one that brings the counter back to zero. -/
theorem lt_length_windowAdmitted {w : Segment Call} {M : ℕ} (hlen : 2 ^ 64 ≤ w.toList.length)
    (hM : ∀ c ∈ w.toList, c.config.maxRequests.toNat = M) : M < (windowAdmitted w).length := by
  have hmax : M < 2 ^ 64 := by
    rw [← hM w.first w.first_mem]
    exact UInt64.toNat_lt _
  rw [windowAdmitted, windowAnswers, List.length_map]
  generalize w.toList = calls at hlen hM
  obtain ⟨N, hN⟩ : ∃ N, N + 1 = 2 ^ 64 := ⟨2 ^ 64 - 1, rfl⟩
  obtain ⟨early, wrap, late, rfl, hearly⟩ :
      ∃ early wrap late, calls = early ++ wrap :: late ∧ early.length = N := by
    have hlt : N < calls.length := by omega
    refine ⟨calls.take N, calls[N], calls.drop (N + 1), ?_, List.length_take_of_le hlt.le⟩
    rw [← List.drop_eq_getElem_cons hlt, List.take_append_drop]
  have hM' : ∀ c ∈ early, c.config.maxRequests.toNat = M := fun c hc =>
    hM c (List.mem_append_left _ hc)
  have hwrap : (answer wrap.config (UInt64.ofNat (N + 1))).isOk = true := by
    rw [isOk_answer, hN, Nat.mod_self]
    exact Nat.zero_le _
  have hfirst : ((answersFrom 0 early).filter (·.2.isOk)).length = M := by
    rw [filter_answersFrom_eq_take (by omega) fun c hc => (hM' c hc).le,
      filter_answersFrom_take fun c hc => (hM' c hc).ge, ← List.length_map Prod.fst,
      map_fst_answersFrom, List.length_take_of_le (by omega)]
  rw [answersFrom_append, answersFrom_cons, Nat.zero_add, hearly, List.filter_append,
    List.filter_cons_of_pos (by exact hwrap), List.length_append, hfirst, List.length_cons]
  omega

/-! ### The limiter answers window by window -/

theorem step_fresh {counters : Counters} {c : Call} (h : counters c.tenantId = none) :
    limiter.step counters c =
      (Function.update counters c.tenantId (some (1, c.now)), [(c, answer c.config 1)]) := by
  simp [limiter, checkAndIncrement, h, answer]

theorem step_opens {counters : Counters} {first c : Call} {n : UInt64}
    (h : counters c.tenantId = some (n, first.now)) (hopens : first.opens c = true) :
    limiter.step counters c =
      (Function.update counters c.tenantId (some (1, c.now)), [(c, answer c.config 1)]) := by
  have hover : secs c.config.windowSecs.toNat ≤ c.now - first.now := by
    simpa [Call.opens] using hopens
  simp [limiter, checkAndIncrement, h, answer, hover]

theorem step_joins {counters : Counters} {first c : Call} {n : UInt64}
    (h : counters c.tenantId = some (n, first.now)) (hopens : first.opens c = false) :
    limiter.step counters c =
      (Function.update counters c.tenantId (some (n + 1, first.now)),
        [(c, answer c.config (n + 1))]) := by
  have hover : ¬ secs c.config.windowSecs.toNat ≤ c.now - first.now := by
    simpa [Call.opens] using hopens
  simp only [limiter, checkAndIncrement, h, answer, Option.getD_some, hover, if_false]

/-- From a window that `first` has opened and `rest` has joined. -/
theorem trace_limiter_from {tenantId : Uuid} {counters : Counters} {first : Call}
    {rest calls : List Call}
    (hentry : counters tenantId = some (UInt64.ofNat (rest.length + 1), first.now))
    (hcalls : ∀ c ∈ calls, c.tenantId = tenantId) :
    answersFrom 0 (first :: rest) ++ limiter.trace counters calls =
      (segmentsFrom Call.opens first rest calls).flatMap windowAnswers := by
  induction calls generalizing counters first rest with
  | nil => simp [segmentsFrom, windowAnswers]
  | cons c calls ih =>
      obtain ⟨rfl, hcalls⟩ := List.forall_mem_cons.mp hcalls
      rw [segmentsFrom, Machine.trace_cons]
      cases hopens : first.opens c with
      | true =>
          rw [step_opens hentry hopens, if_pos rfl, List.flatMap_cons]
          have hentry' : Function.update counters c.tenantId (some (1, c.now)) c.tenantId =
              some (UInt64.ofNat (([] : List Call).length + 1), c.now) := Function.update_self ..
          rw [← ih hentry' hcalls]
          rfl
      | false =>
          rw [step_joins hentry hopens, if_neg Bool.false_ne_true]
          have hcount : UInt64.ofNat (rest.length + 1) + 1 =
              UInt64.ofNat ((rest ++ [c]).length + 1) := by
            simp [UInt64.ofNat_add]
          have hentry' : Function.update counters c.tenantId
              (some (UInt64.ofNat (rest.length + 1) + 1, first.now)) c.tenantId =
                some (UInt64.ofNat ((rest ++ [c]).length + 1), first.now) := by
            rw [Function.update_self, hcount]
          rw [← ih hentry' hcalls, ← List.cons_append, answersFrom_append, hcount]
          simp

theorem trace_limiter_of_tenant {tenantId : Uuid} {calls : List Call}
    (hcalls : ∀ c ∈ calls, c.tenantId = tenantId) :
    limiter.trace .empty calls = (segments Call.opens calls).flatMap windowAnswers := by
  cases calls with
  | nil => rfl
  | cons c calls =>
      obtain ⟨rfl, hcalls⟩ := List.forall_mem_cons.mp hcalls
      have hentry : Function.update Counters.empty c.tenantId (some (1, c.now)) c.tenantId =
          some (UInt64.ofNat (([] : List Call).length + 1), c.now) := Function.update_self ..
      rw [segments, ← trace_limiter_from hentry hcalls, Machine.trace_cons, step_fresh rfl]
      rfl

/-- The answers to a tenant do not depend on the calls of the others. -/
theorem trace_limiter_filter (tenantId : Uuid) (calls : List Call) :
    (limiter.trace .empty calls).filter (·.1.tenantId = tenantId) =
      (limiter.trace .empty (calls.filter (·.tenantId = tenantId))).filter
        (·.1.tenantId = tenantId) := by
  have hkeep : ∀ s s' : Counters, ∀ c : Call, s tenantId = s' tenantId → True →
      decide (c.tenantId = tenantId) = true →
        (limiter.step s c).1 tenantId = (limiter.step s' c).1 tenantId ∧
          (limiter.step s c).2.filter (·.1.tenantId = tenantId) =
            (limiter.step s' c).2.filter (·.1.tenantId = tenantId) := by
    intro s s' c hR _ hkeep
    obtain rfl : c.tenantId = tenantId := by simpa using hkeep
    simp [limiter, checkAndIncrement, hR]
  refine limiter.trace_filter_eq hkeep ?_ rfl fun _ _ => trivial
  intro s s' c hR _ hdrop
  have hne : c.tenantId ≠ tenantId := by simpa using hdrop
  refine ⟨?_, by simp [limiter, hne]⟩
  simpa [limiter, checkAndIncrement, Function.update_of_ne hne.symm] using hR

/-- **The answers to a tenant**, window by window. -/
theorem trace_limiter (tenantId : Uuid) (calls : List Call) :
    (limiter.trace .empty calls).filter (·.1.tenantId = tenantId) =
      (windowsOf tenantId calls).flatMap windowAnswers := by
  have hof : ∀ c ∈ calls.filter (·.tenantId = tenantId), c.tenantId = tenantId := by simp
  rw [trace_limiter_filter, trace_limiter_of_tenant hof, windowsOf, List.filter_eq_self]
  intro x hx
  obtain ⟨w, hw, hx⟩ := List.mem_flatMap.mp hx
  obtain ⟨⟨c, i⟩, hc, rfl⟩ := List.mem_map.mp hx
  have hmem : c ∈ (segments Call.opens (calls.filter (·.tenantId = tenantId))).flatMap
      Segment.toList := List.mem_flatMap.mpr ⟨w, hw, List.fst_mem_of_mem_zipIdx hc⟩
  rw [flatMap_segments] at hmem
  simpa using hof c hmem

theorem admitted_filter (tenantId : Uuid) (calls : List Call) :
    (admitted calls).filter (·.tenantId = tenantId) =
      (windowsOf tenantId calls).flatMap windowAdmitted := by
  have hswap : (admitted calls).filter (·.tenantId = tenantId) =
      (((limiter.trace .empty calls).filter (·.1.tenantId = tenantId)).filter
        (·.2.isOk)).map Prod.fst := by
    rw [admitted, List.filter_map, List.filter_filter, List.filter_filter]
    congr 2
    funext x
    exact Bool.and_comm _ _
  rw [hswap, trace_limiter, List.filter_flatMap, List.map_flatMap]
  rfl

/-! ### How many requests an interval can hold -/

/-- The instant of a call in seconds. -/
noncomputable def Call.seconds (c : Call) : ℝ := c.now / 1000000000

/-- The number of the tenant's requests let through from `a` to `b`
seconds. -/
noncomputable def admittedBetween (calls : List Call) (tenantId : Uuid) (a b : ℝ) : ℕ :=
  countBetween Call.seconds a b ((admitted calls).filter (·.tenantId = tenantId))

theorem seconds_add_le {c d : Call} {W : ℕ} :
    c.seconds + W ≤ d.seconds ↔ c.now + secs W ≤ d.now := by
  have hadd : c.seconds + W = ((c.now + secs W : ℕ) : ℝ) / 1000000000 := by
    simp only [Call.seconds, secs]
    push_cast
    ring
  rw [hadd, Call.seconds, div_le_div_iff_of_pos_right (by norm_num), Nat.cast_le]

theorem seconds_le {c d : Call} : c.seconds ≤ d.seconds ↔ c.now ≤ d.now := by
  simpa [secs] using seconds_add_le (c := c) (d := d) (W := 0)

theorem opens_iff {first c : Call} (hW : 1 ≤ c.config.windowSecs.toNat) :
    first.opens c = true ↔ first.now + secs c.config.windowSecs.toNat ≤ c.now := by
  have hpos : 0 < secs c.config.windowSecs.toNat := Nat.mul_pos hW (by norm_num)
  rw [Call.opens, decide_eq_true_eq]
  omega

section Runs

variable {calls : List Call} (hsorted : calls.Pairwise fun c c' => c.now ≤ c'.now)
  (tenantId : Uuid)

theorem mem_of_mem_windowsOf {w : Segment Call} (hw : w ∈ windowsOf tenantId calls) {c : Call}
    (hc : c ∈ w.toList) : c ∈ calls := by
  have : c ∈ (windowsOf tenantId calls).flatMap Segment.toList := List.mem_flatMap.mpr ⟨w, hw, hc⟩
  rw [windowsOf, flatMap_segments] at this
  exact List.mem_of_mem_filter this

theorem length_le_of_mem_windowsOf {w : Segment Call} (hw : w ∈ windowsOf tenantId calls) :
    w.toList.length ≤ calls.length := by
  have hsub := toList_sublist hw
  rw [windowsOf, flatMap_segments] at hsub
  exact (hsub.trans List.filter_sublist).length_le

include hsorted

theorem windowsOf_sorted :
    ((windowsOf tenantId calls).flatMap Segment.toList).Pairwise fun c c' =>
      c.seconds ≤ c'.seconds := by
  rw [windowsOf, flatMap_segments]
  exact (hsorted.sublist List.filter_sublist).imp seconds_le.mpr

end Runs

/-- **Throughput.** Whatever the configuration was at each call, as long as
it allowed at most `M` requests in windows of at least `W` seconds, an
interval of `L` seconds holds at most `(⌈L / W⌉ + 1) * M` of the requests
of a tenant that were let through. -/
theorem throughput_bound {calls : List Call}
    (hsorted : calls.Pairwise fun c c' => c.now ≤ c'.now) (hlen : calls.length < 2 ^ 64)
    {M W : ℕ} (hW : 1 ≤ W)
    (hconfig : ∀ c ∈ calls, c.config.maxRequests.toNat ≤ M ∧ W ≤ c.config.windowSecs.toNat)
    (tenantId : Uuid) (a L : ℝ) :
    admittedBetween calls tenantId a (a + L) ≤ (⌈L / W⌉₊ + 1) * M := by
  have hspaced : (windowsOf tenantId calls).IsChain fun w w' =>
      w.first.seconds + (W : ℝ) ≤ w'.first.seconds := by
    refine (isChain_segments _).imp_of_mem_imp fun w w' _ hw' hopens => ?_
    have hc := (hconfig _ (mem_of_mem_windowsOf tenantId hw' w'.first_mem)).2
    rw [opens_iff (hW.trans hc)] at hopens
    rw [seconds_add_le]
    calc w.first.now + secs W ≤ w.first.now + secs w'.first.config.windowSecs.toNat :=
          Nat.add_le_add_left (Nat.mul_le_mul_right _ hc) _
      _ ≤ w'.first.now := hopens
  have hpick : ∀ w ∈ windowsOf tenantId calls,
      (windowAdmitted w).Sublist w.toList ∧ (windowAdmitted w).length ≤ M := fun w hw =>
    ⟨windowAdmitted_sublist w, length_windowAdmitted_le
      ((length_le_of_mem_windowsOf tenantId hw).trans_lt hlen)
      fun c hc => (hconfig c (mem_of_mem_windowsOf tenantId hw hc)).1⟩
  have hWpos : (0 : ℝ) < W := by exact_mod_cast hW
  have hceil : a + L ≤ a + ⌈L / W⌉₊ • (W : ℝ) := by
    have := Nat.le_ceil (L / W)
    rw [div_le_iff₀ hWpos] at this
    rw [nsmul_eq_mul]
    linarith
  rw [admittedBetween, admitted_filter]
  exact countBetween_le_of_spaced (windowsOf_sorted hsorted tenantId) hspaced hpick hceil

/-- Two requests at the end of a window of one second, and two at the
beginning of the next. -/
def burst : List Call :=
  [0, 900000000, 1000000000, 1000000000].map fun now => ⟨⟨0⟩, ⟨2, 1⟩, now⟩

theorem throughput_bound_burst :
    admittedBetween burst ⟨0⟩ (1 / 2) (1 / 2 + 1) ≤ (⌈(1 : ℝ) / (1 : ℕ)⌉₊ + 1) * 2 :=
  throughput_bound (by decide) (by decide) le_rfl (by decide) ⟨0⟩ (1 / 2) 1

/-! ### The sliding window -/

/-- What the times of a tenant's calls must be like for the counter to act
as a sliding window: no window sees `2 ^ 64` calls, and, taking the first
`M` calls of a window and the first `M` of the next, each comes at least
`W` seconds after the one `M` places before it. -/
def SlidesOver (config : RateLimitConfig) (windows : List (Segment Call)) : Prop :=
  (∀ w ∈ windows, w.toList.length < 2 ^ 64) ∧
    windows.IsChain fun w w' =>
      Spaced Call.now (secs config.windowSecs.toNat) config.maxRequests.toNat
        (w.toList.take config.maxRequests.toNat ++ w'.toList.take config.maxRequests.toNat)

theorem spaced_seconds {W M : ℕ} {l : List Call} :
    Spaced Call.seconds (W : ℝ) M l ↔ Spaced Call.now (secs W) M l :=
  forall_congr' fun _ => forall_congr' fun _ => seconds_add_le

section Fixed

variable {config : RateLimitConfig} {calls : List Call} {tenantId : Uuid}

theorem windowsOf_spaced (hW : 1 ≤ config.windowSecs.toNat) (hconfig : ∀ c ∈ calls, c.config = config) :
    (windowsOf tenantId calls).IsChain fun w w' =>
      w.first.seconds + (config.windowSecs.toNat : ℝ) ≤ w'.first.seconds := by
  refine (isChain_segments _).imp_of_mem_imp fun w w' _ hw' hopens => ?_
  have hc := hconfig _ (mem_of_mem_windowsOf tenantId hw' w'.first_mem)
  rw [opens_iff (hc ▸ hW), hc] at hopens
  exact seconds_add_le.mpr hopens

theorem windowsOf_short (hW : 1 ≤ config.windowSecs.toNat) (hconfig : ∀ c ∈ calls, c.config = config) :
    ∀ w ∈ windowsOf tenantId calls, ∀ c ∈ w.toList,
      c.seconds < w.first.seconds + (config.windowSecs.toNat : ℝ) := by
  intro w hw c hc
  rw [← not_le, seconds_add_le, not_le]
  rcases List.mem_cons.mp hc with rfl | hjoined
  · exact Nat.lt_add_of_pos_right (Nat.mul_pos hW (by norm_num))
  · have hopens := joined_of_mem_segments w hw c hjoined
    have hcc := hconfig c (mem_of_mem_windowsOf tenantId hw hc)
    rw [← Bool.not_eq_true, opens_iff (hcc ▸ hW), hcc] at hopens
    exact not_le.mp hopens

end Fixed

/-- **Sliding window.** With a fixed configuration, the tenants' requests
let through never exceed the quota in any interval as long as the window
if and only if the windows of every tenant slide over. -/
theorem sliding_window_iff {config : RateLimitConfig} (hW : 1 ≤ config.windowSecs.toNat)
    {calls : List Call} (hsorted : calls.Pairwise fun c c' => c.now ≤ c'.now)
    (hconfig : ∀ c ∈ calls, c.config = config) :
    (∀ tenantId (a : ℝ), admittedBetween calls tenantId a (a + config.windowSecs.toNat) ≤
        config.maxRequests.toNat) ↔
      ∀ tenantId, SlidesOver config (windowsOf tenantId calls) := by
  refine forall_congr' fun tenantId => ?_
  have hquota : ∀ w ∈ windowsOf tenantId calls, ∀ c ∈ w.toList,
      c.config.maxRequests.toNat = config.maxRequests.toNat := fun w hw c hc => by
    rw [hconfig c (mem_of_mem_windowsOf tenantId hw hc)]
  have hshort : ∀ w ∈ windowsOf tenantId calls, ∀ c ∈ w.toList,
      c.seconds < w.first.seconds + (config.windowSecs.toNat : ℝ) := windowsOf_short hW hconfig
  have hord := windowsOf_sorted hsorted tenantId
  simp only [admittedBetween, admitted_filter]
  by_cases hlen : ∀ w ∈ windowsOf tenantId calls, w.toList.length < 2 ^ 64
  · have htake : (windowsOf tenantId calls).flatMap windowAdmitted =
        (windowsOf tenantId calls).flatMap fun w => w.toList.take config.maxRequests.toNat :=
      List.flatMap_congr fun w hw => windowAdmitted_eq_take (hlen w hw) (hquota w hw)
    rw [htake, forall_countBetween_le_iff hord (windowsOf_spaced hW hconfig) hshort, SlidesOver]
    simp only [spaced_seconds]
    exact (and_iff_right hlen).symm
  · -- a window in which the counter wraps is by itself too much
    refine iff_of_false (fun hcount => ?_) fun hslides => hlen hslides.1
    push Not at hlen
    obtain ⟨w, hw, hlen⟩ := hlen
    have hin : ∀ c ∈ windowAdmitted w, w.first.seconds ≤ c.seconds ∧
        c.seconds < w.first.seconds + (config.windowSecs.toNat : ℝ) := by
      intro c hc
      have hmem := (windowAdmitted_sublist w).subset hc
      refine ⟨?_, hshort w hw c hmem⟩
      have hwin := hord.sublist (toList_sublist hw)
      rcases List.mem_cons.mp hmem with rfl | hmem
      · exact le_rfl
      · exact List.rel_of_pairwise_cons hwin hmem
    have hsub : (windowAdmitted w).Sublist ((windowsOf tenantId calls).flatMap windowAdmitted) := by
      rw [List.flatMap_def]
      exact List.sublist_flatten_of_mem (List.mem_map_of_mem hw)
    have hle := (countBetween_mono hsub _ _).trans (hcount w.first.seconds)
    rw [countBetween_eq_length hin] at hle
    exact absurd (lt_length_windowAdmitted hlen (hquota w hw)) (not_lt.mpr hle)

theorem sliding_window_iff_burst :
    (∀ tenantId (a : ℝ), admittedBetween burst tenantId a (a + (1 : UInt64).toNat) ≤
        (2 : UInt64).toNat) ↔
      ∀ tenantId, SlidesOver ⟨2, 1⟩ (windowsOf tenantId burst) :=
  @sliding_window_iff ⟨2, 1⟩ (by decide) burst (by decide) (by decide)

/-- The limit is not that of a sliding window: three of the four requests
of `burst` fall into the second that begins at `0.9`. -/
theorem not_sliding_window :
    ¬ ∀ (config : RateLimitConfig) (calls : List Call), 1 ≤ config.windowSecs.toNat →
      calls.Pairwise (fun c c' => c.now ≤ c'.now) → (∀ c ∈ calls, c.config = config) →
        ∀ tenantId (a : ℝ), admittedBetween calls tenantId a (a + config.windowSecs.toNat) ≤
          config.maxRequests.toNat := by
  intro h
  have hadmitted : (admitted burst).filter (·.tenantId = ⟨0⟩) = burst := by decide
  have hcount := h ⟨2, 1⟩ burst (by decide) (by decide) (by decide) ⟨0⟩ 0.9
  rw [admittedBetween, hadmitted] at hcount
  have hone : (1 : UInt64).toNat = 1 := rfl
  have htwo : (2 : UInt64).toNat = 2 := rfl
  norm_num [countBetween, burst, Call.seconds, List.countP_cons, hone, htwo] at hcount

end BackupService
