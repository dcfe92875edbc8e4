import Mathlib.Data.List.Basic
import Mathlib.Data.List.Induction

/-!
Deterministic machines that are driven by events and show observations.

The machine does nothing by itself: whatever is left open by the program it
models (who moves next, which message is lost, what the clock says) is put
into the event. A property of every schedule is then a property of every
list of events, two runs can be compared event by event, and a particular
schedule can be computed.

The module has the rules that the developments on top share: invariants,
the comparison of a run with the run in which some of its events have been
deleted (`trace_filter_eq`), and the comparison of two machines under the
same events (`trace_eq_of_simulation`).
-/

namespace BackupService.Lib

/-- A deterministic machine with states `σ`, events `ε` and observations `ο`. -/
structure Machine (σ ε ο : Type) where
  /-- The state after an event, and what the event shows. -/
  step : σ → ε → σ × List ο

namespace Machine

variable {σ σ' ε ο : Type} (M : Machine σ ε ο)

/-- The state after a list of events. -/
def run : σ → List ε → σ
  | s, [] => s
  | s, e :: es => run (M.step s e).1 es

/-- Everything a list of events shows, in order. -/
def trace : σ → List ε → List ο
  | _, [] => []
  | s, e :: es => (M.step s e).2 ++ trace (M.step s e).1 es

@[simp] theorem run_nil (s : σ) : M.run s [] = s := rfl

@[simp] theorem run_cons (s : σ) (e : ε) (es : List ε) :
    M.run s (e :: es) = M.run (M.step s e).1 es := rfl

@[simp] theorem trace_nil (s : σ) : M.trace s [] = [] := rfl

@[simp] theorem trace_cons (s : σ) (e : ε) (es : List ε) :
    M.trace s (e :: es) = (M.step s e).2 ++ M.trace (M.step s e).1 es := rfl

@[simp] theorem run_append (s : σ) (es es' : List ε) :
    M.run s (es ++ es') = M.run (M.run s es) es' := by
  induction es generalizing s with
  | nil => rfl
  | cons e es ih => exact ih _

@[simp] theorem trace_append (s : σ) (es es' : List ε) :
    M.trace s (es ++ es') = M.trace s es ++ M.trace (M.run s es) es' := by
  induction es generalizing s with
  | nil => rfl
  | cons e es ih => simp [ih]

theorem run_concat (s : σ) (es : List ε) (e : ε) :
    M.run s (es ++ [e]) = (M.step (M.run s es) e).1 := by
  rw [run_append, run_cons, run_nil]

theorem trace_concat (s : σ) (es : List ε) (e : ε) :
    M.trace s (es ++ [e]) = M.trace s es ++ (M.step (M.run s es) e).2 := by
  rw [trace_append, trace_cons, trace_nil, List.append_nil]

/-- The states a run goes through, the first and the last one included. -/
def states : σ → List ε → List σ
  | s, [] => [s]
  | s, e :: es => s :: states (M.step s e).1 es

theorem states_concat (s : σ) (es : List ε) (e : ε) :
    M.states s (es ++ [e]) = M.states s es ++ [M.run s (es ++ [e])] := by
  induction es generalizing s with
  | nil => rfl
  | cons e' es ih => exact congrArg (s :: ·) (ih _)

/-- What `f` finds in the steps of a run, in order. -/
def gather {β : Type} (f : σ → ε → List β) : σ → List ε → List β
  | _, [] => []
  | s, e :: es => f s e ++ gather f (M.step s e).1 es

theorem gather_concat {β : Type} (f : σ → ε → List β) (s : σ) (es : List ε) (e : ε) :
    M.gather f s (es ++ [e]) = M.gather f s es ++ f (M.run s es) e := by
  induction es generalizing s with
  | nil => exact List.append_nil _
  | cons e' es ih => rw [List.cons_append, gather, ih, gather, run_cons, List.append_assoc]

/-- What a run shows is shown by one of its events. -/
theorem exists_of_mem_trace {s : σ} {es : List ε} {o : ο} (h : o ∈ M.trace s es) :
    ∃ pre e post, es = pre ++ e :: post ∧ o ∈ (M.step (M.run s pre) e).2 := by
  induction es generalizing s with
  | nil => cases h
  | cons e es ih =>
      rcases List.mem_append.mp h with he | hes
      · exact ⟨[], e, es, rfl, he⟩
      · obtain ⟨pre, e', post, rfl, ho⟩ := ih hes
        exact ⟨e :: pre, e', post, rfl, ho⟩

/-- What holds at the end and not at the start has become true by some step. -/
theorem exists_step_of_run {P : σ → Prop} {s : σ} {es : List ε} (hs : ¬ P s) (h : P (M.run s es)) :
    ∃ pre e post, es = pre ++ e :: post ∧ ¬ P (M.run s pre) ∧ P (M.run s (pre ++ [e])) := by
  induction es generalizing s with
  | nil => exact (hs h).elim
  | cons e es ih =>
      by_cases he : P (M.step s e).1
      · exact ⟨[], e, es, rfl, hs, he⟩
      · obtain ⟨pre, e', post, rfl, hpre, hpost⟩ := ih he h
        exact ⟨e :: pre, e', post, rfl, hpre, hpost⟩

/-- An invariant of the steps is an invariant of the runs. -/
theorem run_preserves {I : σ → Prop} {ok : ε → Prop}
    (hstep : ∀ s e, I s → ok e → I (M.step s e).1) {s : σ} (hs : I s) {es : List ε}
    (hes : ∀ e ∈ es, ok e) : I (M.run s es) := by
  induction es generalizing s with
  | nil => exact hs
  | cons e es ih =>
      obtain ⟨he, hes⟩ := List.forall_mem_cons.mp hes
      exact ih (hstep s e hs he) hes

/-- What every step preserves, a run preserves. -/
theorem run_invariant {I : σ → Prop} (hstep : ∀ s e, I s → I (M.step s e).1) {s : σ} (hs : I s)
    (es : List ε) : I (M.run s es) :=
  M.run_preserves (fun s e hs _ => hstep s e hs) hs fun _ _ => trivial

/-- A property that may mention the events so far: it holds at the start,
and every event that is allowed where it happens carries it on. -/
theorem run_induction {I : List ε → Prop} (hnil : I [])
    (hsnoc : ∀ es e, I es → I (es ++ [e])) (es : List ε) : I es := by
  induction es using List.reverseRecOn with
  | nil => exact hnil
  | append_singleton es e ih => exact hsnoc es e ih

/-! ### Conditions on the steps of a run -/

/-- Every event of the run meets `C` where it happens. -/
def Along (C : σ → ε → Prop) : σ → List ε → Prop
  | _, [] => True
  | s, e :: es => C s e ∧ Along C (M.step s e).1 es

section Along

variable {M} {C : σ → ε → Prop} {s : σ} {es es' : List ε} {e : ε}

@[simp] theorem along_nil : M.Along C s [] := trivial

@[simp] theorem along_cons : M.Along C s (e :: es) ↔ C s e ∧ M.Along C (M.step s e).1 es := Iff.rfl

theorem along_append :
    M.Along C s (es ++ es') ↔ M.Along C s es ∧ M.Along C (M.run s es) es' := by
  induction es generalizing s with
  | nil => simp
  | cons e es ih => simp [ih, and_assoc]

theorem along_of_forall (h : ∀ e ∈ es, ∀ s, C s e) (s : σ) : M.Along C s es := by
  induction es generalizing s with
  | nil => trivial
  | cons e es ih => exact ⟨h e List.mem_cons_self s, ih (fun e he => h e (List.mem_cons_of_mem _ he)) _⟩

theorem along_const {p : ε → Prop} : M.Along (fun _ e => p e) s es ↔ ∀ e ∈ es, p e := by
  induction es generalizing s with
  | nil => simp
  | cons e es ih => rw [along_cons, ih, List.forall_mem_cons]

theorem Along.mono {C' : σ → ε → Prop} (h : M.Along C s es) (hC : ∀ s e, C s e → C' s e) :
    M.Along C' s es := by
  induction es generalizing s with
  | nil => trivial
  | cons e es ih => exact ⟨hC s e h.1, ih h.2⟩

/-- What the steps that meet `C` preserve of the state and of what has been
shown, a run of such steps preserves. -/
theorem Along.trace_preserves {I : σ → List ο → Prop} (h : M.Along C s es)
    (hstep : ∀ s seen e, I s seen → C s e → I (M.step s e).1 (seen ++ (M.step s e).2))
    {seen : List ο} (hs : I s seen) : I (M.run s es) (seen ++ M.trace s es) := by
  induction es generalizing s seen with
  | nil => rwa [trace_nil, List.append_nil]
  | cons e es ih =>
      rw [trace_cons, ← List.append_assoc]
      exact ih h.2 (hstep s seen e hs h.1)

theorem along_and {C' : σ → ε → Prop} :
    M.Along (fun s e => C s e ∧ C' s e) s es ↔ M.Along C s es ∧ M.Along C' s es := by
  induction es generalizing s with
  | nil => simp
  | cons e es ih =>
      simp only [along_cons, ih]
      tauto

/-- From a condition on the steps to what an invariant makes of it. -/
theorem Along.along {I : σ → Prop} {D : σ → ε → Prop} (h : M.Along C s es)
    (hstep : ∀ s e, I s → C s e → I (M.step s e).1) (hD : ∀ s e, I s → C s e → D s e) (hs : I s) :
    M.Along D s es := by
  induction es generalizing s with
  | nil => trivial
  | cons e es ih => exact ⟨hD s e hs h.1, ih h.2 (hstep s e hs h.1)⟩

/-- The states of a run satisfy `P` as long as its steps meet `C`, if `C` is
what a step needs to get from `P` to `P`. -/
theorem forall_prefix_iff_along {I P : σ → Prop} (hI : ∀ s e, I s → P s → I (M.step s e).1)
    (hP : ∀ s e, I s → P s → (P (M.step s e).1 ↔ C s e)) (hs : I s) (hPs : P s) :
    (∀ pre, pre <+: es → P (M.run s pre)) ↔ M.Along C s es := by
  induction es generalizing s with
  | nil =>
      refine iff_of_true (fun pre hpre => ?_) trivial
      rw [List.prefix_nil.mp hpre]
      exact hPs
  | cons e es ih =>
      rw [along_cons, ← hP s e hs hPs]
      constructor
      · intro h
        have he : P (M.step s e).1 := h [e] (List.prefix_append [e] es)
        refine ⟨he, (ih (hI s e hs hPs) he).mp fun pre hpre => ?_⟩
        exact h (e :: pre) ((List.prefix_cons_inj e).mpr hpre)
      · rintro ⟨he, hes⟩ pre hpre
        obtain rfl | ⟨rest, rfl, hrest⟩ := List.prefix_cons_iff.mp hpre
        · exact hPs
        · exact (ih (hI s e hs hPs) he).mpr hes rest hrest

end Along

/-! ### Annotations -/

/-- The machine with something written down alongside, which nothing
depends on. -/
def annotated {η : Type} (note : σ → ε → η → η) : Machine (σ × η) ε ο where
  step p e := (((M.step p.1 e).1, note p.1 e p.2), (M.step p.1 e).2)

section Annotated

variable {η : Type} (note : σ → ε → η → η)

@[simp] theorem annotated_step (p : σ × η) (e : ε) : (M.annotated note).step p e =
    (((M.step p.1 e).1, note p.1 e p.2), (M.step p.1 e).2) := rfl

/-- It runs as it does without the annotation. -/
theorem run_annotated (p : σ × η) (es : List ε) :
    ((M.annotated note).run p es).1 = M.run p.1 es := by
  induction es generalizing p with
  | nil => rfl
  | cons e es ih => exact ih _

/-- What is said of the machine itself does not depend on the annotation. -/
theorem along_annotated {C : σ → ε → Prop} {p : σ × η} {es : List ε} :
    (M.annotated note).Along (fun p e => C p.1 e) p es ↔ M.Along C p.1 es := by
  induction es generalizing p with
  | nil => simp
  | cons e es ih => simp [ih]

end Annotated

/-- **Deleting events.** Let `R` relate the states of two runs of which the
second lacks the events outside `keep`. If a kept event preserves `R` and
shows the same on both sides, as far as `low` can see, and a deleted event
preserves `R` on the one side it happens on and shows nothing to `low`,
then `low` cannot tell the two runs apart. -/
theorem trace_filter_eq {R : σ → σ → Prop} {ok : ε → Prop} {keep : ε → Bool} {low : ο → Bool}
    (hkeep : ∀ s s' e, R s s' → ok e → keep e = true →
      R (M.step s e).1 (M.step s' e).1 ∧ (M.step s e).2.filter low = (M.step s' e).2.filter low)
    (hdrop : ∀ s s' e, R s s' → ok e → keep e = false →
      R (M.step s e).1 s' ∧ (M.step s e).2.filter low = [])
    {s s' : σ} (hR : R s s') {es : List ε} (hes : ∀ e ∈ es, ok e) :
    (M.trace s es).filter low = (M.trace s' (es.filter keep)).filter low := by
  induction es generalizing s s' with
  | nil => rfl
  | cons e es ih =>
      obtain ⟨he, hes⟩ := List.forall_mem_cons.mp hes
      cases hk : keep e with
      | true =>
          obtain ⟨hR', hobs⟩ := hkeep s s' e hR he hk
          rw [List.filter_cons_of_pos hk, trace_cons, trace_cons, List.filter_append,
            List.filter_append, hobs, ih hR' hes]
      | false =>
          obtain ⟨hR', hobs⟩ := hdrop s s' e hR he hk
          rw [List.filter_cons_of_neg (by simp [hk]), trace_cons, List.filter_append, hobs,
            List.nil_append, ih hR' hes]

/-- **Simulation.** Two machines that show the same from related states,
and stay related, have the same traces. -/
theorem trace_eq_of_simulation {M : Machine σ ε ο} {N : Machine σ' ε ο} {R : σ → σ' → Prop}
    {ok : ε → Prop}
    (hstep : ∀ s s' e, R s s' → ok e →
      R (M.step s e).1 (N.step s' e).1 ∧ (M.step s e).2 = (N.step s' e).2)
    {s : σ} {s' : σ'} (hR : R s s') {es : List ε} (hes : ∀ e ∈ es, ok e) :
    M.trace s es = N.trace s' es := by
  induction es generalizing s s' with
  | nil => rfl
  | cons e es ih =>
      obtain ⟨he, hes⟩ := List.forall_mem_cons.mp hes
      obtain ⟨hR', hobs⟩ := hstep s s' e hR he
      rw [trace_cons, trace_cons, hobs, ih hR' hes]

end Machine

end BackupService.Lib
