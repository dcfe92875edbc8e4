import BackupService.Lib.Machine

/-!
What a scheduler can bring about.

An event says both who moves and what comes of it. Here the two are told
apart: the scheduler picks a move, and then any event that can come of the
move may happen (`outcome`). `Attains goal s` says that from `s` the scheduler
can bring the machine to `goal`, whatever comes of the moves; it is the least
set that contains `goal` and what one move leads into it.

This is more than that some run leads to `goal` (`Attains.exists_run`), and it
composes: one goal after the other (`Attains.bind`), as long as something gets
less (`attains_of_decreases`), and from a part of a machine to the whole
(`Attains.lift`).
-/

namespace BackupService.Lib.Machine

variable {σ σ' ε ε' ο ο' μ μ' : Type}

/-- The scheduler can bring the machine from `s` to `goal`. -/
inductive Attains (M : Machine σ ε ο) (outcome : μ → ε → Prop) (goal : σ → Prop) : σ → Prop
  | done {s : σ} (h : goal s) : Attains M outcome goal s
  | move {s : σ} (m : μ) (h : ∀ e, outcome m e → Attains M outcome goal (M.step s e).1) :
      Attains M outcome goal s

variable {M : Machine σ ε ο} {outcome : μ → ε → Prop} {goal goal' : σ → Prop} {s : σ}

/-- One goal after the other. -/
theorem Attains.bind (h : M.Attains outcome goal s)
    (hgoal : ∀ s, goal s → M.Attains outcome goal' s) : M.Attains outcome goal' s := by
  induction h with
  | done h => exact hgoal _ h
  | move m _ ih => exact .move m ih

theorem Attains.mono (h : M.Attains outcome goal s) (hgoal : ∀ s, goal s → goal' s) :
    M.Attains outcome goal' s :=
  h.bind fun s hs => .done (hgoal s hs)

/-- What no move destroys holds at the goal as well. -/
theorem Attains.keeps {I : σ → Prop} (h : M.Attains outcome goal s)
    (hI : ∀ s m e, I s → outcome m e → I (M.step s e).1) (hs : I s) :
    M.Attains outcome (fun s => goal s ∧ I s) s := by
  induction h with
  | done h => exact .done ⟨h, hs⟩
  | move m _ ih => exact .move m fun e he => ih e he (hI _ m e hs he)

/-- What can be made less can be brought to nothing. -/
theorem attains_of_decreases {I : σ → Prop} {f : σ → ℕ}
    (hless : ∀ s, I s → 0 < f s → M.Attains outcome (fun s' => I s' ∧ f s' < f s) s) (hs : I s) :
    M.Attains outcome (fun s' => I s' ∧ f s' = 0) s := by
  induction hn : f s using Nat.strongRecOn generalizing s with
  | ind n ih =>
      by_cases hzero : f s = 0
      · exact .done ⟨hs, hzero⟩
      · refine (hless s hs (Nat.pos_of_ne_zero hzero)).bind fun s' hs' => ?_
        exact ih (f s') (hn ▸ hs'.2) hs'.1 rfl

/-- If something can come of every move, there is a run to the goal. -/
theorem Attains.exists_run (h : M.Attains outcome goal s) (hout : ∀ m, ∃ e, outcome m e) :
    ∃ es, (∀ e ∈ es, ∃ m, outcome m e) ∧ goal (M.run s es) := by
  induction h with
  | done h => exact ⟨[], nofun, h⟩
  | move m _ ih =>
      obtain ⟨e, he⟩ := hout m
      obtain ⟨es, hes, hgoal⟩ := ih e he
      exact ⟨e :: es, List.forall_mem_cons.mpr ⟨⟨m, he⟩, hes⟩, hgoal⟩

/-- What a part of the machine attains, the whole attains, if the moves of the
part are moves of the whole that leave the rest `I` as it is. -/
theorem Attains.lift {N : Machine σ' ε' ο'} {outcome' : μ' → ε' → Prop} {I : σ' → Prop}
    (part : σ' → σ) (use : μ → μ')
    (hstep : ∀ s m e, I s → outcome' (use m) e →
      I (N.step s e).1 ∧ ∃ e', outcome m e' ∧ part (N.step s e).1 = (M.step (part s) e').1)
    {s : σ'} (h : M.Attains outcome goal (part s)) (hs : I s) :
    N.Attains outcome' (fun s => goal (part s) ∧ I s) s := by
  generalize ht : part s = t at h
  induction h generalizing s with
  | done h => exact .done ⟨ht ▸ h, hs⟩
  | move m _ ih =>
      refine .move (use m) fun e he => ?_
      obtain ⟨hI, e', he', hpart⟩ := hstep s m e hs he
      exact ih e' he' hI (hpart.trans (by rw [ht]))

end BackupService.Lib.Machine
