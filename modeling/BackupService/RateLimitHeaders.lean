import BackupService.RateLimit

/-!
What the answers of the limiter say about the calls to come.

A call moves the entry of its tenant, and where to does not depend on the
quota or on what has been answered (`limiter_step`). So rejected calls do not
prolong a window, the calls of other tenants do not matter, and a larger quota
admits more. The number of requests a tenant is told to have left is the
number it will be granted. The time it is told to the reset is not the time
to the reset unless the call has opened its window (`reset_exact_iff`).
-/

namespace BackupService

open Lib

/-! ### One call -/

/-- The call finds no window of its tenant, or one that is over. -/
def Counters.Opens (counters : Counters) (c : Call) : Prop :=
  ∀ n s, counters c.tenantId = some (n, s) → secs c.config.windowSecs.toNat ≤ c.now - s

/-- The entry of the tenant after the call. -/
def Counters.entryAfter (counters : Counters) (c : Call) : UInt64 × ℕ :=
  match counters c.tenantId with
  | none => (1, c.now)
  | some (n, s) =>
      if secs c.config.windowSecs.toNat ≤ c.now - s then (1, c.now) else (n + 1, s)

/-- The start of the window that the call falls into. -/
def Counters.windowStart (counters : Counters) (c : Call) : ℕ := (counters.entryAfter c).2

/-- The answer of a limiter that has seen `before`. -/
def answerAfter (before : List Call) (c : Call) : Except Unit RateLimitInfo :=
  (checkAndIncrement (limiter.run .empty before) c.tenantId c.config c.now).1

section Step

variable {counters : Counters} {c : Call} {tenantId : Uuid} {n : UInt64} {s : ℕ}

theorem limiter_step (counters : Counters) (c : Call) : limiter.step counters c =
    (Function.update counters c.tenantId (some (counters.entryAfter c)),
      [(c, answer c.config (counters.entryAfter c).1)]) := by
  cases h : counters c.tenantId with
  | none => simp [limiter, checkAndIncrement, Counters.entryAfter, h, answer]
  | some entry =>
      simp only [limiter, checkAndIncrement, Counters.entryAfter, h, answer, Option.getD_some]
      split <;> rfl

theorem answerAfter_eq (before : List Call) (c : Call) :
    answerAfter before c = answer c.config ((limiter.run .empty before).entryAfter c).1 := by
  have hstep := congrArg (fun p => p.2.map Prod.snd) (limiter_step (limiter.run .empty before) c)
  exact List.cons.inj hstep |>.1

theorem entryAfter_of_opens (h : counters.Opens c) : counters.entryAfter c = (1, c.now) := by
  unfold Counters.entryAfter
  cases hentry : counters c.tenantId with
  | none => rfl
  | some entry => exact if_pos (h entry.1 entry.2 hentry)

theorem entryAfter_of_joins (hentry : counters c.tenantId = some (n, s))
    (hin : c.now - s < secs c.config.windowSecs.toNat) :
    counters.entryAfter c = (n + 1, s) := by
  unfold Counters.entryAfter
  rw [hentry]
  exact if_neg (not_le.mpr hin)

theorem opens_or_joins (counters : Counters) (c : Call) : counters.Opens c ∨
    ∃ n s, counters c.tenantId = some (n, s) ∧ c.now - s < secs c.config.windowSecs.toNat := by
  by_cases h : counters.Opens c
  · exact .inl h
  · unfold Counters.Opens at h
    push Not at h
    exact .inr h

theorem step_self (counters : Counters) (c : Call) :
    (limiter.step counters c).1 c.tenantId = some (counters.entryAfter c) := by
  rw [limiter_step]
  exact Function.update_self ..

theorem step_other (h : c.tenantId ≠ tenantId) :
    (limiter.step counters c).1 tenantId = counters tenantId := by
  rw [limiter_step]
  exact Function.update_of_ne h.symm ..

/-- Every call is answered, in its turn. -/
theorem map_fst_trace (counters : Counters) (calls : List Call) :
    (limiter.trace counters calls).map Prod.fst = calls := by
  induction calls generalizing counters with
  | nil => rfl
  | cons c calls ih =>
      rw [Machine.trace_cons, limiter_step, List.map_append, ih]
      rfl

theorem mem_of_mem_trace {calls : List Call} {x : Call × Except Unit RateLimitInfo}
    (hx : x ∈ limiter.trace counters calls) : x.1 ∈ calls := by
  have := List.mem_map_of_mem (f := Prod.fst) hx
  rwa [map_fst_trace] at this

end Step

/-! ### The entry of a tenant in a run -/

section Entry

variable {before calls after : List Call} {c : Call} {tenantId : Uuid} {counters : Counters}
  {n : UInt64} {s : ℕ}

/-- A window has been opened by one of the calls, and its counter has seen at
most all of them. -/
theorem entry_of_run (h : limiter.run .empty before tenantId = some (n, s)) :
    (∃ d ∈ before, d.now = s) ∧ n.toNat ≤ before.length := by
  induction before using List.reverseRecOn generalizing n s with
  | nil => cases h
  | append_singleton before d ih =>
      rw [Machine.run_concat] at h
      rw [List.length_append, List.length_singleton]
      by_cases hd : d.tenantId = tenantId
      · subst hd
        rw [step_self, Option.some.injEq] at h
        obtain hopens | ⟨n', s', hentry, hin⟩ := opens_or_joins (limiter.run .empty before) d
        · rw [entryAfter_of_opens hopens, Prod.mk.injEq] at h
          obtain ⟨rfl, rfl⟩ := h
          refine ⟨⟨d, by simp, rfl⟩, ?_⟩
          show 1 ≤ _
          omega
        · rw [entryAfter_of_joins hentry hin, Prod.mk.injEq] at h
          obtain ⟨rfl, rfl⟩ := h
          obtain ⟨⟨d', hd', hnow⟩, hle⟩ := ih hentry
          refine ⟨⟨d', List.mem_append_left _ hd', hnow⟩, ?_⟩
          have hsucc : (n' + 1).toNat ≤ n'.toNat + 1 := by
            rw [UInt64.toNat_add]
            exact Nat.mod_le _ _
          omega
      · rw [step_other hd] at h
        obtain ⟨⟨d', hd', hnow⟩, hle⟩ := ih h
        exact ⟨⟨d', List.mem_append_left _ hd', hnow⟩, by omega⟩

/-- The calls of the others leave the entry alone. -/
theorem run_others (h : ∀ d ∈ calls, d.tenantId ≠ tenantId) :
    limiter.run counters calls tenantId = counters tenantId := by
  induction calls generalizing counters with
  | nil => rfl
  | cons d calls ih =>
      obtain ⟨hd, hcalls⟩ := List.forall_mem_cons.mp h
      rw [Machine.run_cons, ih hcalls, step_other hd]

/-- A window has begun before the calls that find it. -/
theorem start_le (hsorted : (before ++ calls).Pairwise fun c c' => c.now ≤ c'.now)
    (h : limiter.run .empty before tenantId = some (n, s)) (hc : c ∈ calls) : s ≤ c.now := by
  obtain ⟨⟨d, hd, rfl⟩, -⟩ := entry_of_run h
  exact (List.pairwise_append.mp hsorted).2.2 d hd c hc

theorem windowStart_le (hsorted : (before ++ c :: calls).Pairwise fun c c' => c.now ≤ c'.now) :
    (limiter.run .empty before).windowStart c ≤ c.now := by
  unfold Counters.windowStart
  obtain hopens | ⟨n, s, hentry, hin⟩ := opens_or_joins (limiter.run .empty before) c
  · rw [entryAfter_of_opens hopens]
  · rw [entryAfter_of_joins hentry hin]
    exact start_le hsorted hentry List.mem_cons_self

end Entry

/-! ### Tenants -/

/-- **Tenants do not affect each other.** The answers to a tenant are the
answers it would get alone. -/
theorem rate_limit_isolation (tenantId : Uuid) (calls : List Call) :
    (limiter.trace .empty calls).filter (·.1.tenantId = tenantId) =
      limiter.trace .empty (calls.filter (·.tenantId = tenantId)) := by
  rw [trace_limiter_filter, List.filter_eq_self]
  intro x hx
  have hmem := mem_of_mem_trace hx
  rw [List.mem_filter] at hmem
  exact hmem.2

/-! ### Rejected calls -/

section Rejected

variable {counters : Counters} {stretch : List Call} {tenantId : Uuid} {c : Call}

/-- A call that opens a window is admitted, if anything is. -/
theorem isOk_of_opens (h : counters.Opens c) (hquota : 1 ≤ c.config.maxRequests.toNat) :
    (answer c.config (counters.entryAfter c).1).isOk = true := by
  rw [entryAfter_of_opens h]
  exact (isOk_answer c.config 1).mpr (by omega)

/-- As long as a tenant is rejected, it is in the window it was in at first. -/
theorem rejected_in_window
    (hquota : ∀ d ∈ stretch, 1 ≤ d.config.maxRequests.toNat)
    (hrejected : ∀ x ∈ limiter.trace counters stretch, x.1.tenantId = tenantId →
      x.2.isOk = false)
    {e : Call} (he : e ∈ stretch) (htenant : e.tenantId = tenantId) :
    ∃ n s, counters tenantId = some (n, s) ∧ e.now - s < secs e.config.windowSecs.toNat := by
  induction stretch generalizing counters with
  | nil => cases he
  | cons d stretch ih =>
      obtain ⟨hd, hquota⟩ := List.forall_mem_cons.mp hquota
      rw [Machine.trace_cons, limiter_step, List.singleton_append] at hrejected
      obtain ⟨hfirst, hrejected⟩ := List.forall_mem_cons.mp hrejected
      have hlater : e ∈ stretch → ∃ n s, (limiter.step counters d).1 tenantId = some (n, s) ∧
          e.now - s < secs e.config.windowSecs.toNat := fun he => by
        rw [limiter_step]
        exact ih hquota hrejected he
      by_cases hdt : d.tenantId = tenantId
      · subst hdt
        obtain hopens | ⟨n, s, hentry, hin⟩ := opens_or_joins counters d
        · -- a call that opens a window finds the whole quota
          rw [isOk_of_opens hopens hd] at hfirst
          exact absurd (hfirst rfl) (by decide)
        · refine ⟨n, s, hentry, ?_⟩
          obtain rfl | he := List.mem_cons.mp he
          · exact hin
          · obtain ⟨n', s', hentry', hin'⟩ := hlater he
            rw [step_self, entryAfter_of_joins hentry hin] at hentry'
            cases hentry'
            exact hin'
      · obtain rfl | he := List.mem_cons.mp he
        · exact absurd htenant hdt
        · obtain ⟨n, s, hentry, hin⟩ := hlater he
          rw [step_other hdt] at hentry
          exact ⟨n, s, hentry, hin⟩

end Rejected

/-- **No lockout.** A stretch in which all calls of a tenant are rejected lasts
less than `W` seconds, if no window is longer than that. And a tenant that keeps
still after a call for as long as `Retry-After` says is admitted, if the window
has not been changed by then. -/
theorem no_lockout {calls : List Call} (hsorted : calls.Pairwise fun c c' => c.now ≤ c'.now) {W : ℕ}
    (hconfig : ∀ c ∈ calls, 1 ≤ c.config.maxRequests.toNat ∧ c.config.windowSecs.toNat ≤ W)
    (tenantId : Uuid) :
    (∀ before stretch after, calls = before ++ stretch ++ after →
      (∀ x ∈ limiter.trace (limiter.run .empty before) stretch, x.1.tenantId = tenantId →
        x.2.isOk = false) →
      ∀ c ∈ stretch, ∀ e ∈ stretch, c.tenantId = tenantId → e.tenantId = tenantId →
        e.now - c.now < secs W) ∧
    ∀ before c still e after, calls = before ++ c :: still ++ e :: after →
      c.tenantId = tenantId → e.tenantId = tenantId → (∀ d ∈ still, d.tenantId ≠ tenantId) →
      e.config.windowSecs = c.config.windowSecs →
      c.now + secs c.config.windowSecs.toNat ≤ e.now →
      (answerAfter (before ++ c :: still) e).isOk = true := by
  constructor
  · rintro before stretch after rfl hrejected c hc e he rfl htenant
    have hquota : ∀ d ∈ stretch, 1 ≤ d.config.maxRequests.toNat := fun d hd =>
      (hconfig d (by simp [hd])).1
    -- the last call is in the window the stretch began in, and that began before the first
    obtain ⟨n, s, hentry, hin⟩ := rejected_in_window hquota hrejected he htenant
    have hs : s ≤ c.now := start_le (List.pairwise_append.mp hsorted).1 hentry hc
    have hwindow : secs e.config.windowSecs.toNat ≤ secs W :=
      Nat.mul_le_mul_right _ (hconfig e (by simp [he])).2
    omega
  · rintro before c still e after rfl rfl htenant hstill hwindow hwait
    have hsorted' : (before ++ c :: (still ++ e :: after)).Pairwise fun c c' => c.now ≤ c'.now := by
      rwa [List.append_assoc, List.cons_append] at hsorted
    have hentry : limiter.run .empty (before ++ c :: still) c.tenantId =
        some ((limiter.run .empty before).entryAfter c) := by
      rw [Machine.run_append, Machine.run_cons, run_others hstill, step_self]
    have hopens : (limiter.run .empty (before ++ c :: still)).Opens e := by
      intro n s hns
      rw [htenant, hentry, Option.some.injEq] at hns
      have hs : s ≤ c.now := by
        have hle := windowStart_le hsorted'
        unfold Counters.windowStart at hle
        rwa [hns] at hle
      rw [hwindow]
      omega
    rw [answerAfter_eq]
    exact isOk_of_opens hopens (hconfig e (by simp)).1

/-- A tenant has used up its quota of two and is rejected for a minute. -/
def impatient : List Call := [0, 10, 20, 30, 60].map fun t => ⟨⟨0⟩, ⟨2, 60⟩, secs t⟩

theorem no_lockout_impatient :
    (∀ before stretch after, impatient = before ++ stretch ++ after →
      (∀ x ∈ limiter.trace (limiter.run .empty before) stretch, x.1.tenantId = ⟨0⟩ →
        x.2.isOk = false) →
      ∀ c ∈ stretch, ∀ e ∈ stretch, c.tenantId = ⟨0⟩ → e.tenantId = ⟨0⟩ →
        e.now - c.now < secs 60) ∧
    ∀ before c still e after, impatient = before ++ c :: still ++ e :: after →
      c.tenantId = ⟨0⟩ → e.tenantId = ⟨0⟩ → (∀ d ∈ still, d.tenantId ≠ ⟨0⟩) →
      e.config.windowSecs = c.config.windowSecs →
      c.now + secs c.config.windowSecs.toNat ≤ e.now →
      (answerAfter (before ++ c :: still) e).isOk = true :=
  no_lockout (by decide) (by decide) ⟨0⟩

/-! ### Quotas -/

/-- The same call under a quota that is not smaller. -/
structure Call.Raised (c c' : Call) : Prop where
  tenantId : c'.tenantId = c.tenantId
  now : c'.now = c.now
  windowSecs : c'.config.windowSecs = c.config.windowSecs
  maxRequests : c.config.maxRequests ≤ c'.config.maxRequests

/-- **A larger quota admits more.** Whatever the quotas are at the single
calls, what is admitted is also admitted when none of them is smaller. -/
theorem admission_monotone {calls calls' : List Call} (h : List.Forall₂ Call.Raised calls calls') :
    List.Forall₂ (fun x x' => x.2.isOk = true → x'.2.isOk = true)
      (limiter.trace .empty calls) (limiter.trace .empty calls') := by
  generalize Counters.empty = counters
  induction h generalizing counters with
  | nil => exact .nil
  | @cons c c' calls calls' hc _ ih =>
      have hentry : counters.entryAfter c' = counters.entryAfter c := by
        unfold Counters.entryAfter
        rw [hc.tenantId, hc.now, hc.windowSecs]
      rw [Machine.trace_cons, Machine.trace_cons, limiter_step, limiter_step, hentry, hc.tenantId]
      refine .cons (fun hok => ?_) (ih _)
      exact isOk_answer_iff.mpr (UInt64.le_trans (isOk_answer_iff.mp hok) hc.maxRequests)

theorem admission_monotone_raised :
    List.Forall₂ (fun x x' => x.2.isOk = true → x'.2.isOk = true)
      (limiter.trace .empty [⟨⟨0⟩, ⟨1, 60⟩, 0⟩, ⟨⟨0⟩, ⟨1, 60⟩, 5⟩])
      (limiter.trace .empty [⟨⟨0⟩, ⟨1, 60⟩, 0⟩, ⟨⟨0⟩, ⟨2, 60⟩, 5⟩]) :=
  admission_monotone (.cons ⟨rfl, rfl, rfl, by decide⟩ (.cons ⟨rfl, rfl, rfl, by decide⟩ .nil))

/-! ### `X-RateLimit-Remaining` -/

/-- What a tenant is promised that is told `remaining`: the next calls are
granted, with one less remaining each time, and then none is. -/
def promised (config : RateLimitConfig) : ℕ → List Call → List (Call × Except Unit RateLimitInfo)
  | _, [] => []
  | 0, c :: calls => (c, .error ()) :: promised config 0 calls
  | remaining + 1, c :: calls =>
      (c, .ok {
        limit := config.maxRequests
        remaining := UInt64.ofNat remaining
        resetSecs := config.windowSecs }) :: promised config remaining calls

section Remaining

theorem toNat_saturatingSub (x y : UInt64) : (saturatingSub x y).toNat = x.toNat - y.toNat := by
  unfold saturatingSub
  split
  · next h =>
      rw [UInt64.lt_iff_toNat_lt] at h
      show 0 = _
      omega
  · next h => exact UInt64.toNat_sub_of_le _ _ (UInt64.not_lt.mp h)

/-- The next answer in a window that has seen `n` calls. -/
theorem promised_cons {config : RateLimitConfig} {n : ℕ} (hn : n + 1 < 2 ^ 64) (c : Call)
    (calls : List Call) :
    promised config (config.maxRequests.toNat - n) (c :: calls) =
      (c, answer config (UInt64.ofNat (n + 1))) ::
        promised config (config.maxRequests.toNat - (n + 1)) calls := by
  have hcount : (UInt64.ofNat (n + 1)).toNat = n + 1 := UInt64.toNat_ofNat_of_lt hn
  unfold answer
  cases hleft : config.maxRequests.toNat - n with
  | zero =>
      have hover : config.maxRequests < UInt64.ofNat (n + 1) := by
        rw [UInt64.lt_iff_toNat_lt, hcount]
        omega
      rw [if_pos hover, promised, show config.maxRequests.toNat - (n + 1) = 0 by omega]
  | succ remaining =>
      have hover : ¬ config.maxRequests < UInt64.ofNat (n + 1) := by
        rw [UInt64.lt_iff_toNat_lt, hcount]
        omega
      have hremaining : saturatingSub config.maxRequests (UInt64.ofNat (n + 1)) =
          UInt64.ofNat remaining := by
        apply UInt64.toNat_inj.mp
        have hmax := config.maxRequests.toNat_lt
        rw [toNat_saturatingSub, hcount, UInt64.toNat_ofNat', Nat.mod_eq_of_lt (by omega)]
        omega
      rw [if_neg hover, hremaining, promised,
        show config.maxRequests.toNat - (n + 1) = remaining by omega]

/-- From a window that began at `s` and has seen `n` calls. -/
theorem trace_in_window {config : RateLimitConfig} {tenantId : Uuid} {s : ℕ} {calls : List Call}
    {counters : Counters} {n : ℕ} (hentry : counters tenantId = some (UInt64.ofNat n, s))
    (hlen : n + calls.length < 2 ^ 64) (hconfig : ∀ d ∈ calls, d.config = config)
    (hsorted : calls.Pairwise fun c c' => c.now ≤ c'.now) (hstart : ∀ d ∈ calls, s ≤ d.now) :
    (limiter.trace counters calls).filter
        (fun x => x.1.tenantId = tenantId ∧ x.1.now < s + secs config.windowSecs.toNat) =
      promised config (config.maxRequests.toNat - n) (calls.filter
        fun d => d.tenantId = tenantId ∧ d.now < s + secs config.windowSecs.toNat) := by
  induction calls generalizing counters n with
  | nil => simp [promised]
  | cons d calls ih =>
      obtain ⟨hd, hconfig⟩ := List.forall_mem_cons.mp hconfig
      obtain ⟨hds, hstart⟩ := List.forall_mem_cons.mp hstart
      obtain ⟨hdcalls, hsorted⟩ := List.pairwise_cons.mp hsorted
      rw [List.length_cons] at hlen
      rw [Machine.trace_cons]
      by_cases hdt : d.tenantId = tenantId
      · subst hdt
        by_cases hin : d.now < s + secs config.windowSecs.toNat
        · have hkeep : d.tenantId = d.tenantId ∧ d.now < s + secs config.windowSecs.toNat := ⟨rfl, hin⟩
          have hjoins : d.now - s < secs d.config.windowSecs.toNat := by
            rw [hd]
            omega
          have hafter : counters.entryAfter d = (UInt64.ofNat (n + 1), s) := by
            rw [entryAfter_of_joins hentry hjoins, UInt64.ofNat_add]
            rfl
          have hentry' : (limiter.step counters d).1 d.tenantId = some (UInt64.ofNat (n + 1), s) := by
            rw [step_self, hafter]
          rw [List.filter_cons_of_pos (by simpa using hkeep), promised_cons (by omega),
            ← ih hentry' (by omega) hconfig hsorted hstart, limiter_step, List.singleton_append,
            List.filter_cons_of_pos (by simpa using hkeep), hafter, hd]
        · -- the window is over, and nothing that comes now is before its end
          have hover : ∀ d' ∈ d :: calls, ¬ (d'.tenantId = d.tenantId ∧
              d'.now < s + secs config.windowSecs.toNat) := by
            rintro d' hd' ⟨-, hin'⟩
            obtain rfl | hd' := List.mem_cons.mp hd'
            · exact hin hin'
            · have := hdcalls d' hd'
              omega
          have hcalls : (d :: calls).filter (fun d' => d'.tenantId = d.tenantId ∧
              d'.now < s + secs config.windowSecs.toNat) = [] :=
            List.filter_eq_nil_iff.mpr fun d' hd' => by simpa using hover d' hd'
          rw [hcalls, promised, ← Machine.trace_cons, List.filter_eq_nil_iff]
          intro x hx
          simpa using hover x.1 (mem_of_mem_trace hx)
      · have hskip : ¬ (d.tenantId = tenantId ∧ d.now < s + secs config.windowSecs.toNat) :=
          fun h => hdt h.1
        have hentry' : (limiter.step counters d).1 tenantId = some (UInt64.ofNat n, s) := by
          rw [step_other hdt, hentry]
        rw [List.filter_cons_of_neg (by simpa using hskip), ← ih hentry' (by omega) hconfig hsorted hstart,
          limiter_step, List.singleton_append, List.filter_cons_of_neg (by simpa using hskip)]

end Remaining

/-- **`X-RateLimit-Remaining` is exact.** After a call that is told `remaining`,
the calls of its tenant that come before the end of the window it is in get
what is promised. -/
theorem remaining_exact {config : RateLimitConfig} {before after : List Call} {c : Call}
    (hlen : (before ++ c :: after).length < 2 ^ 64)
    (hsorted : (before ++ c :: after).Pairwise fun c c' => c.now ≤ c'.now)
    (hconfig : ∀ d ∈ before ++ c :: after, d.config = config) {info : RateLimitInfo}
    (hinfo : answerAfter before c = .ok info) :
    (limiter.trace (limiter.run .empty (before ++ [c])) after).filter (fun x =>
        x.1.tenantId = c.tenantId ∧
          x.1.now < (limiter.run .empty before).windowStart c + secs config.windowSecs.toNat) =
      promised config info.remaining.toNat (after.filter fun d =>
        d.tenantId = c.tenantId ∧
          d.now < (limiter.run .empty before).windowStart c + secs config.windowSecs.toNat) := by
  have hentry : limiter.run .empty (before ++ [c]) c.tenantId =
      some ((limiter.run .empty before).entryAfter c) := by
    rw [Machine.run_concat, step_self]
  -- the counter has not wrapped, and cannot before the last of these calls
  have hcount : ((limiter.run .empty before).entryAfter c).1.toNat ≤ before.length + 1 := by
    have hle := (entry_of_run hentry).2
    rwa [List.length_append] at hle
  have hstart : ∀ d ∈ after, (limiter.run .empty before).windowStart c ≤ d.now := fun d hd =>
    start_le (by rwa [List.append_assoc]) hentry hd
  have hremaining : info.remaining.toNat = config.maxRequests.toNat -
      ((limiter.run .empty before).entryAfter c).1.toNat := by
    rw [answerAfter_eq, hconfig c (by simp)] at hinfo
    rw [(answer_eq_ok.mp hinfo).2, toNat_saturatingSub]
  rw [List.length_append, List.length_cons] at hlen
  rw [hremaining]
  refine trace_in_window ?_ (by omega) (fun d hd => hconfig d (by simp [hd])) ?_ hstart
  · rw [hentry, UInt64.ofNat_toNat]
    rfl
  · exact (List.pairwise_cons.mp (List.pairwise_append.mp hsorted).2.1).2

theorem remaining_exact_impatient :
    (limiter.trace (limiter.run .empty (impatient.take 1)) (impatient.drop 1)).filter (fun x =>
        x.1.tenantId = ⟨0⟩ ∧
          x.1.now < (limiter.run .empty []).windowStart ⟨⟨0⟩, ⟨2, 60⟩, secs 0⟩ + secs 60) =
      promised ⟨2, 60⟩ 1 ((impatient.drop 1).filter fun d =>
        d.tenantId = ⟨0⟩ ∧
          d.now < (limiter.run .empty []).windowStart ⟨⟨0⟩, ⟨2, 60⟩, secs 0⟩ + secs 60) :=
  @remaining_exact ⟨2, 60⟩ [] (impatient.drop 1) ⟨⟨0⟩, ⟨2, 60⟩, secs 0⟩ (by decide) (by decide)
    (by decide) ⟨2, 1, 60⟩ (by decide)

/-! ### `X-RateLimit-Reset` -/

/-- What a call is promised that is told that the reset is in `d` seconds: the
tenant's first call from then on opens a window, and none before does. -/
structure ResetExact (config : RateLimitConfig) (before : List Call) (c : Call) (after : List Call)
    (d : ℕ) : Prop where
  fresh : ∀ pre e post, after = pre ++ e :: post → e.tenantId = c.tenantId →
    c.now + secs d ≤ e.now → (∀ x ∈ pre, x.tenantId = c.tenantId → x.now < c.now + secs d) →
    (limiter.run .empty (before ++ c :: pre)).Opens e ∧
      answerAfter (before ++ c :: pre) e = .ok {
        limit := config.maxRequests
        remaining := config.maxRequests - 1
        resetSecs := config.windowSecs }
  early : ∀ pre e post, after = pre ++ e :: post → e.tenantId = c.tenantId →
    e.now < c.now + secs d → ¬ (limiter.run .empty (before ++ c :: pre)).Opens e

section Reset

variable {config : RateLimitConfig} {counters : Counters} {calls : List Call} {tenantId : Uuid}
  {n : UInt64} {s : ℕ}

/-- Until its end a window keeps its start. -/
theorem start_kept (hW : 1 ≤ config.windowSecs.toNat)
    (hentry : counters tenantId = some (n, s)) (hconfig : ∀ d ∈ calls, d.config = config)
    (hcalls : ∀ d ∈ calls, d.tenantId = tenantId → d.now < s + secs config.windowSecs.toNat) :
    ∃ n', limiter.run counters calls tenantId = some (n', s) := by
  induction calls generalizing counters n with
  | nil => exact ⟨n, hentry⟩
  | cons d calls ih =>
      obtain ⟨hd, hconfig⟩ := List.forall_mem_cons.mp hconfig
      obtain ⟨hin, hcalls⟩ := List.forall_mem_cons.mp hcalls
      rw [Machine.run_cons]
      by_cases hdt : d.tenantId = tenantId
      · subst hdt
        have hpos : 0 < secs config.windowSecs.toNat := Nat.mul_pos hW (by decide)
        have hjoins : d.now - s < secs d.config.windowSecs.toNat := by
          have := hin rfl
          rw [hd]
          omega
        have hentry' : (limiter.step counters d).1 d.tenantId = some (n + 1, s) := by
          rw [step_self, entryAfter_of_joins hentry hjoins]
        exact ih hentry' hconfig hcalls
      · have hentry' : (limiter.step counters d).1 tenantId = some (n, s) := by
          rw [step_other hdt, hentry]
        exact ih hentry' hconfig hcalls

/-- The first call at or after its end closes a window. -/
theorem opens_iff_over (hW : 1 ≤ config.windowSecs.toNat)
    (hentry : counters tenantId = some (n, s)) (hconfig : ∀ d ∈ calls, d.config = config)
    (hcalls : ∀ d ∈ calls, d.tenantId = tenantId → d.now < s + secs config.windowSecs.toNat)
    {e : Call} (he : e.config = config) (htenant : e.tenantId = tenantId) :
    (limiter.run counters calls).Opens e ↔ s + secs config.windowSecs.toNat ≤ e.now := by
  have hpos : 0 < secs config.windowSecs.toNat := Nat.mul_pos hW (by decide)
  obtain ⟨n', hkept⟩ := start_kept hW hentry hconfig hcalls
  unfold Counters.Opens
  rw [htenant, hkept, he]
  constructor
  · intro h
    have := h n' s rfl
    omega
  · intro h n'' s' heq
    cases heq
    omega

/-- Opening a window is answered with what is left after one call. -/
theorem answer_one (hquota : 1 ≤ config.maxRequests.toNat) : answer config 1 = .ok {
    limit := config.maxRequests
    remaining := config.maxRequests - 1
    resetSecs := config.windowSecs } := by
  have hle : (1 : UInt64) ≤ config.maxRequests := UInt64.le_iff_toNat_le.mpr hquota
  rw [answer_eq_ok, saturatingSub, if_neg (UInt64.not_lt.mpr hle)]
  exact ⟨hle, rfl⟩

/-- The first call past the end of the window that `c` is in opens the next. -/
theorem opens_iff_past (hW : 1 ≤ config.windowSecs.toNat) {before pre : List Call} {c e : Call}
    (hpre : ∀ d ∈ pre, d.config = config) (he : e.config = config) (htenant : e.tenantId = c.tenantId)
    (hin : ∀ d ∈ pre, d.tenantId = c.tenantId →
      d.now < (limiter.run .empty before).windowStart c + secs config.windowSecs.toNat) :
    (limiter.run .empty (before ++ c :: pre)).Opens e ↔
      (limiter.run .empty before).windowStart c + secs config.windowSecs.toNat ≤ e.now := by
  have hentry : limiter.run .empty (before ++ [c]) c.tenantId =
      some (((limiter.run .empty before).entryAfter c).1,
        (limiter.run .empty before).windowStart c) := by
    rw [Machine.run_concat, step_self]
    rfl
  rw [List.append_cons, Machine.run_append]
  exact opens_iff_over hW hentry hpre hin he htenant

end Reset

/-- **When `X-RateLimit-Reset` is exact.** A call is told the length of the
window, counted from the call. This is exact if and only if the tenant makes no
call after the window is over and before that time. (The quota is positive,
except that a counter that wraps admits a call even to a quota of zero.) -/
theorem reset_exact_iff {config : RateLimitConfig} (hW : 1 ≤ config.windowSecs.toNat)
    {before after : List Call} {c : Call}
    (hsorted : (before ++ c :: after).Pairwise fun c c' => c.now ≤ c'.now)
    (hconfig : ∀ d ∈ before ++ c :: after, d.config = config) {info : RateLimitInfo}
    (hinfo : answerAfter before c = .ok info) :
    ResetExact config before c after info.resetSecs.toNat ↔
      ∀ e ∈ after, e.tenantId = c.tenantId →
        (limiter.run .empty before).windowStart c + secs config.windowSecs.toNat ≤ e.now →
        c.now + secs config.windowSecs.toNat ≤ e.now ∧ 1 ≤ config.maxRequests.toNat := by
  have hc : c.config = config := hconfig c (by simp)
  have hreset : info.resetSecs = config.windowSecs := by
    rw [answerAfter_eq, hc] at hinfo
    rw [(answer_eq_ok.mp hinfo).2]
  have hstart : (limiter.run .empty before).windowStart c ≤ c.now := windowStart_le hsorted
  have hopens : ∀ pre e post, after = pre ++ e :: post → e.tenantId = c.tenantId →
      (∀ x ∈ pre, x.tenantId = c.tenantId → x.now <
        (limiter.run .empty before).windowStart c + secs config.windowSecs.toNat) →
      ((limiter.run .empty (before ++ c :: pre)).Opens e ↔
        (limiter.run .empty before).windowStart c + secs config.windowSecs.toNat ≤ e.now) := by
    rintro pre e post rfl htenant hpre
    exact opens_iff_past hW (fun d hd => hconfig d (by simp [hd])) (hconfig e (by simp)) htenant hpre
  have hafter : after.Pairwise fun c c' => c.now ≤ c'.now :=
    (List.pairwise_cons.mp (List.pairwise_append.mp hsorted).2.1).2
  rw [hreset]
  generalize (limiter.run .empty before).windowStart c = s at *
  constructor
  · intro hexact e he htenant hover
    -- the first call that finds the window to be over opens the next one
    obtain ⟨pre, first, post, hsplit, ⟨hft, hfirst⟩, hpre⟩ := exists_first
      (p := fun d => d.tenantId = c.tenantId ∧ s + secs config.windowSecs.toNat ≤ d.now)
      he ⟨htenant, hover⟩
    have hin : ∀ x ∈ pre, x.tenantId = c.tenantId → x.now < s + secs config.windowSecs.toNat :=
      fun x hx hxt => not_le.mp fun hle => hpre x hx ⟨hxt, hle⟩
    have hfresh := (hopens pre first post hsplit hft hin).mpr hfirst
    have hlate : c.now + secs config.windowSecs.toNat ≤ first.now :=
      not_lt.mp fun hearly => hexact.early pre first post hsplit hft hearly hfresh
    have hle : first.now ≤ e.now := by
      rw [hsplit] at he hafter
      rcases List.mem_append.mp he with he | he
      · exact absurd ⟨htenant, hover⟩ (hpre e he)
      · obtain rfl | he := List.mem_cons.mp he
        · exact le_rfl
        · exact List.rel_of_pairwise_cons (List.pairwise_append.mp hafter).2.1 he
    refine ⟨hlate.trans hle, ?_⟩
    have hanswer := (hexact.fresh pre first post hsplit hft hlate fun x hx hxt =>
      (hin x hx hxt).trans_le (by omega)).2
    rw [answerAfter_eq, entryAfter_of_opens hfresh, hconfig first (by simp [hsplit])] at hanswer
    exact UInt64.le_iff_toNat_le.mp (answer_eq_ok.mp hanswer).1
  · intro h
    -- before the stated time no call of the tenant is late, so none finds the window over
    have hin : ∀ pre e post, after = pre ++ e :: post →
        (∀ x ∈ pre, x.tenantId = c.tenantId → x.now < c.now + secs config.windowSecs.toNat) →
        ∀ x ∈ pre, x.tenantId = c.tenantId → x.now < s + secs config.windowSecs.toNat := by
      intro pre e post hsplit hpre x hx hxt
      by_contra hover
      have := (h x (by simp [hsplit, hx]) hxt (by omega)).1
      have := hpre x hx hxt
      omega
    constructor
    · intro pre e post hsplit htenant hlate hpre
      have hfresh := (hopens pre e post hsplit htenant (hin pre e post hsplit hpre)).mpr (by omega)
      refine ⟨hfresh, ?_⟩
      rw [answerAfter_eq, entryAfter_of_opens hfresh, hconfig e (by simp [hsplit])]
      exact answer_one (h e (by simp [hsplit]) htenant (by omega)).2
    · intro pre e post hsplit htenant hearly hfresh
      have hpre : ∀ x ∈ pre, x.tenantId = c.tenantId →
          x.now < c.now + secs config.windowSecs.toNat := fun x hx _ => by
        rw [hsplit] at hafter
        have hle := (List.pairwise_append.mp hafter).2.2 x hx e List.mem_cons_self
        omega
      have hover := (hopens pre e post hsplit htenant (hin pre e post hsplit hpre)).mp hfresh
      have := (h e (by simp [hsplit]) htenant hover).1
      omega

/-- Two calls in one window, and one after it. -/
def halfway : List Call := [0, 30, 60].map fun t => ⟨⟨0⟩, ⟨5, 60⟩, secs t⟩

theorem reset_exact_iff_halfway :
    ResetExact ⟨5, 60⟩ (halfway.take 1) ⟨⟨0⟩, ⟨5, 60⟩, secs 30⟩ (halfway.drop 2) 60 ↔
      ∀ e ∈ halfway.drop 2, e.tenantId = ⟨0⟩ →
        (limiter.run .empty (halfway.take 1)).windowStart ⟨⟨0⟩, ⟨5, 60⟩, secs 30⟩ + secs 60 ≤ e.now →
        secs 30 + secs 60 ≤ e.now ∧ 1 ≤ (5 : UInt64).toNat :=
  @reset_exact_iff ⟨5, 60⟩ (by decide) (halfway.take 1) (halfway.drop 2) ⟨⟨0⟩, ⟨5, 60⟩, secs 30⟩
    (by decide) (by decide) ⟨5, 3, 60⟩ (by decide)

/-- At `30` the reset is said to be at `90`, and it is at `60`. -/
theorem not_reset_exact :
    answerAfter (halfway.take 1) ⟨⟨0⟩, ⟨5, 60⟩, secs 30⟩ = .ok ⟨5, 3, 60⟩ ∧
      ¬ ResetExact ⟨5, 60⟩ (halfway.take 1) ⟨⟨0⟩, ⟨5, 60⟩, secs 30⟩ (halfway.drop 2) 60 := by
  refine ⟨by decide, fun h => ?_⟩
  refine h.early [] ⟨⟨0⟩, ⟨5, 60⟩, secs 60⟩ [] rfl rfl (by decide) fun n s hentry => ?_
  obtain rfl : 0 = s := congrArg Prod.snd (Option.some.inj hentry)
  decide

end BackupService
