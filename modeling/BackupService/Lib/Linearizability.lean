import Mathlib.Data.List.Basic
import Mathlib.Data.List.Induction
import Mathlib.Data.List.Nodup
import Mathlib.Logic.Function.Basic

/-!
Linearizable histories of a shared object.

An object is given by what its operations do one after the other. A history
is what clients see of it when they overlap: operations that are called, and
operations that return. It is linearizable if the operations can be put in an
order that the object admits, that contains every operation that has
returned, with the result it has returned, and that puts an operation before
every other that was called after it had returned. An operation that was
called and has not returned may or may not be in that order.

The order is found by marking in the history the points where operations
take effect. A history with these marks is a trace of the object
(`Object.Trace`) if every operation takes effect once, after it was called
and before it returns, and with the result that the object gives it in the
state it is in. `Object.Trace.linearization` turns the marks into the order.
-/

namespace BackupService.Lib

/-- The sequential behaviour of an object. -/
structure Object (σ Op Res : Type) where
  apply : Op → σ → Res × σ

/-- What a client sees. The operations are told apart by their names. -/
inductive Interaction (ι Op Res : Type)
  | called (i : ι) (op : Op)
  | returned (i : ι) (res : Res)
  deriving DecidableEq

/-- An operation in an order, with its result. -/
structure Applied (ι Op Res : Type) where
  name : ι
  op : Op
  res : Res
  deriving DecidableEq

variable {σ ι Op Res : Type}

namespace Object

variable (O : Object σ Op Res)

/-- The object admits the operations in this order, and they take it from
`s` to `s'`. -/
def Admits : σ → List (Applied ι Op Res) → σ → Prop
  | s, [], s' => s = s'
  | s, x :: xs, s' => (O.apply x.op s).1 = x.res ∧ Admits (O.apply x.op s).2 xs s'

theorem Admits.concat {s s' : σ} {xs : List (Applied ι Op Res)} (h : O.Admits s xs s') (i : ι)
    (op : Op) : O.Admits s (xs ++ [⟨i, op, (O.apply op s').1⟩]) (O.apply op s').2 := by
  induction xs generalizing s with
  | nil =>
      obtain rfl : s = s' := h
      exact ⟨rfl, rfl⟩
  | cons x xs ih => exact ⟨h.1, ih h.2⟩

variable {O} in
theorem Admits.of_append {s s' : σ} {xs ys : List (Applied ι Op Res)}
    (h : O.Admits s (xs ++ ys) s') : ∃ mid, O.Admits s xs mid ∧ O.Admits mid ys s' := by
  induction xs generalizing s with
  | nil => exact ⟨s, rfl, h⟩
  | cons x xs ih =>
      obtain ⟨mid, hxs, hys⟩ := ih h.2
      exact ⟨mid, ⟨h.1, hxs⟩, hys⟩

/-- The order explains the history: it leads from `s` to `s'`. -/
structure Linearization (s : σ) (history : List (Interaction ι Op Res)) (s' : σ)
    (order : List (Applied ι Op Res)) : Prop where
  admits : O.Admits s order s'
  once : (order.map Applied.name).Nodup
  called : ∀ x ∈ order, .called x.name x.op ∈ history
  returned : ∀ i res, .returned i res ∈ history → ∃ op, ⟨i, op, res⟩ ∈ order
  /-- What has returned comes before what is called after that. -/
  realTime : ∀ before after, history = before ++ after → ∀ x ∈ order, ∀ y ∈ order,
    .returned x.name x.res ∈ before → .called y.name y.op ∈ after → [x, y].Sublist order

end Object

/-! ### Points of effect -/

/-- A history with the points where operations take effect. -/
inductive Point (ι Op Res : Type)
  | called (i : ι) (op : Op)
  | applied (x : Applied ι Op Res)
  | returned (i : ι) (res : Res)

namespace Point

/-- What the clients see of it. -/
def seen : Point ι Op Res → Option (Interaction ι Op Res)
  | called i op => some (.called i op)
  | applied _ => none
  | returned i res => some (.returned i res)

def effect : Point ι Op Res → Option (Applied ι Op Res)
  | applied x => some x
  | _ => none

def name : Point ι Op Res → ι
  | called i _ => i
  | applied x => x.name
  | returned i _ => i

end Point

/-- How far an operation has come. -/
inductive Stage (Op Res : Type)
  | idle
  | called (op : Op)
  | applied (res : Res)
  | returned

/-- The operations take effect between their call and their return. -/
inductive Object.Trace (O : Object σ Op Res) [DecidableEq ι] (s₀ : σ) :
    List (Point ι Op Res) → (ι → Stage Op Res) → σ → Prop
  | start : Trace O s₀ [] (fun _ => .idle) s₀
  | called {ps : List (Point ι Op Res)} {stage : ι → Stage Op Res} {s : σ} {i : ι} (op : Op)
      (h : Trace O s₀ ps stage s) (hi : stage i = .idle) :
      Trace O s₀ (ps ++ [.called i op]) (Function.update stage i (.called op)) s
  | applied {ps : List (Point ι Op Res)} {stage : ι → Stage Op Res} {s : σ} {i : ι} {op : Op}
      (h : Trace O s₀ ps stage s) (hi : stage i = .called op) :
      Trace O s₀ (ps ++ [.applied ⟨i, op, (O.apply op s).1⟩])
        (Function.update stage i (.applied (O.apply op s).1)) (O.apply op s).2
  | returned {ps : List (Point ι Op Res)} {stage : ι → Stage Op Res} {s : σ} {i : ι} {res : Res}
      (h : Trace O s₀ ps stage s) (hi : stage i = .applied res) :
      Trace O s₀ (ps ++ [.returned i res]) (Function.update stage i .returned) s

def history (ps : List (Point ι Op Res)) : List (Interaction ι Op Res) := ps.filterMap Point.seen

def effects (ps : List (Point ι Op Res)) : List (Applied ι Op Res) := ps.filterMap Point.effect

section Effects

variable (ps : List (Point ι Op Res))

@[simp] theorem effects_called (i : ι) (op : Op) : effects (ps ++ [.called i op]) = effects ps :=
  (List.filterMap_append ..).trans (List.append_nil _)

@[simp] theorem effects_applied (x : Applied ι Op Res) :
    effects (ps ++ [.applied x]) = effects ps ++ [x] := List.filterMap_append ..

@[simp] theorem effects_returned (i : ι) (res : Res) :
    effects (ps ++ [.returned i res]) = effects ps :=
  (List.filterMap_append ..).trans (List.append_nil _)

end Effects

theorem mem_effects {ps : List (Point ι Op Res)} {x : Applied ι Op Res} :
    x ∈ effects ps ↔ .applied x ∈ ps := by
  rw [effects, List.mem_filterMap]
  constructor
  · rintro ⟨p, hp, hx⟩
    cases p with
    | applied y => exact Option.some.inj hx ▸ hp
    | called | returned => cases hx
  · intro h
    exact ⟨_, h, rfl⟩

theorem called_mem_history {ps : List (Point ι Op Res)} {i : ι} {op : Op} :
    .called i op ∈ history ps ↔ .called i op ∈ ps := by
  rw [history, List.mem_filterMap]
  constructor
  · rintro ⟨p, hp, hseen⟩
    cases p with
    | called j op' =>
        obtain ⟨rfl, rfl⟩ := Interaction.called.inj (Option.some.inj hseen)
        exact hp
    | applied | returned => cases hseen
  · intro h
    exact ⟨_, h, rfl⟩

theorem returned_mem_history {ps : List (Point ι Op Res)} {i : ι} {res : Res} :
    .returned i res ∈ history ps ↔ .returned i res ∈ ps := by
  rw [history, List.mem_filterMap]
  constructor
  · rintro ⟨p, hp, hseen⟩
    cases p with
    | returned j res' =>
        obtain ⟨rfl, rfl⟩ := Interaction.returned.inj (Option.some.inj hseen)
        exact hp
    | applied | called => cases hseen
  · intro h
    exact ⟨_, h, rfl⟩

namespace Object.Trace

variable {O : Object σ Op Res} [DecidableEq ι] {s₀ s : σ} {ps : List (Point ι Op Res)}
  {stage : ι → Stage Op Res}

/-- What has happened up to some point is a trace as well. -/
theorem of_append {qs : List (Point ι Op Res)} (h : O.Trace s₀ (ps ++ qs) stage s) :
    ∃ stage' s', O.Trace s₀ ps stage' s' := by
  induction qs using List.reverseRecOn generalizing stage s with
  | nil => exact ⟨stage, s, by rwa [List.append_nil] at h⟩
  | append_singleton qs q ih =>
      rw [← List.append_assoc] at h
      generalize hall : ps ++ qs ++ [q] = all at h
      cases h with
      | start => exact absurd hall (by simp)
      | called op h hi => exact ih ((List.append_inj_left' hall rfl).symm ▸ h)
      | applied h hi => exact ih ((List.append_inj_left' hall rfl).symm ▸ h)
      | returned h hi => exact ih ((List.append_inj_left' hall rfl).symm ▸ h)

theorem admits (h : O.Trace s₀ ps stage s) : O.Admits s₀ (effects ps) s := by
  induction h with
  | start => rfl
  | called op h hi ih => rwa [effects_called]
  | applied h hi ih =>
      rw [effects_applied]
      exact Admits.concat O ih _ _
  | returned h hi ih => rwa [effects_returned]

/-- What the stage of an operation says about the past. -/
def Past (ps : List (Point ι Op Res)) (i : ι) : Stage Op Res → Prop
  | .idle => ∀ p ∈ ps, p.name ≠ i
  | .called op => .called i op ∈ ps ∧ ∀ x ∈ effects ps, x.name ≠ i
  | .applied res => ∃ op, ⟨i, op, res⟩ ∈ effects ps
  | .returned => True

omit [DecidableEq ι] in
/-- The past of an operation does not change by what others do. -/
theorem Past.concat {i : ι} {p : Point ι Op Res} {st : Stage Op Res} (h : Past ps i st)
    (hp : p.name ≠ i) : Past (ps ++ [p]) i st := by
  cases st with
  | idle =>
      intro q hq
      rcases List.mem_append.mp hq with hq | hq
      · exact h q hq
      · rwa [List.mem_singleton.mp hq]
  | called op =>
      refine ⟨List.mem_append_left _ h.1, fun x hx => ?_⟩
      rcases List.mem_append.mp (mem_effects.mp hx) with hx | hx
      · exact h.2 x (mem_effects.mpr hx)
      · rw [← List.mem_singleton.mp hx] at hp
        exact hp
  | applied res =>
      obtain ⟨op, hop⟩ := h
      exact ⟨op, mem_effects.mpr (List.mem_append_left _ (mem_effects.mp hop))⟩
  | returned => trivial

theorem past (h : O.Trace s₀ ps stage s) (i : ι) : Past ps i (stage i) := by
  induction h with
  | start => exact fun p hp => absurd hp List.not_mem_nil
  | @called ps stage s j op h hj ih =>
      by_cases hij : i = j
      · subst hij
        rw [hj] at ih
        rw [Function.update_self]
        refine ⟨List.mem_append_right _ List.mem_cons_self, fun x hx => ?_⟩
        rw [effects_called] at hx
        exact ih _ (mem_effects.mp hx)
      · rw [Function.update_of_ne hij]
        exact ih.concat (Ne.symm hij)
  | @applied ps stage s j op h hj ih =>
      by_cases hij : i = j
      · subst hij
        rw [Function.update_self]
        exact ⟨op, mem_effects.mpr (List.mem_append_right _ List.mem_cons_self)⟩
      · rw [Function.update_of_ne hij]
        exact ih.concat (Ne.symm hij)
  | @returned ps stage s j res h hj ih =>
      by_cases hij : i = j
      · rw [hij, Function.update_self]
        trivial
      · rw [Function.update_of_ne hij]
        exact ih.concat (Ne.symm hij)

theorem nodup (h : O.Trace s₀ ps stage s) : ((effects ps).map Applied.name).Nodup := by
  induction h with
  | start => exact List.nodup_nil
  | called op h hi ih => rwa [effects_called]
  | @applied ps stage s i op h hi ih =>
      -- It takes effect now, so it has not before.
      have hpast := h.past i
      rw [hi] at hpast
      rw [effects_applied, List.map_append]
      refine List.nodup_append.mpr ⟨ih, List.nodup_singleton _, fun a ha b hb => ?_⟩
      obtain ⟨x, hx, rfl⟩ := List.mem_map.mp ha
      rw [List.mem_singleton.mp hb]
      exact hpast.2 x hx
  | returned h hi ih => rwa [effects_returned]

/-- What takes effect has been called. -/
theorem called_mem (h : O.Trace s₀ ps stage s) :
    ∀ x ∈ effects ps, .called x.name x.op ∈ ps := by
  induction h with
  | start => exact fun x hx => absurd hx List.not_mem_nil
  | called op h hi ih =>
      intro x hx
      rw [effects_called] at hx
      exact List.mem_append_left _ (ih x hx)
  | @applied ps stage s i op h hi ih =>
      intro x hx
      have hpast := h.past i
      rw [hi] at hpast
      rw [effects_applied] at hx
      rcases List.mem_append.mp hx with hx | hx
      · exact List.mem_append_left _ (ih x hx)
      · cases List.mem_singleton.mp hx
        exact List.mem_append_left _ hpast.1
  | returned h hi ih =>
      intro x hx
      rw [effects_returned] at hx
      exact List.mem_append_left _ (ih x hx)

/-- What returns has taken effect, with that result. -/
theorem applied_mem (h : O.Trace s₀ ps stage s) {i : ι} {res : Res} (hret : .returned i res ∈ ps) :
    ∃ op, ⟨i, op, res⟩ ∈ effects ps := by
  have hkeep : ∀ {ps : List (Point ι Op Res)} {p : Point ι Op Res},
      (∃ op, ⟨i, op, res⟩ ∈ effects ps) → ∃ op, ⟨i, op, res⟩ ∈ effects (ps ++ [p]) := by
    rintro ps p ⟨op, hop⟩
    exact ⟨op, mem_effects.mpr (List.mem_append_left _ (mem_effects.mp hop))⟩
  induction h with
  | start => cases hret
  | called op h hi ih =>
      rcases List.mem_append.mp hret with hret | hret
      · exact hkeep (ih hret)
      · cases List.mem_singleton.mp hret
  | applied h hi ih =>
      rcases List.mem_append.mp hret with hret | hret
      · exact hkeep (ih hret)
      · cases List.mem_singleton.mp hret
  | @returned ps stage s j res' h hj ih =>
      rcases List.mem_append.mp hret with hret | hret
      · exact hkeep (ih hret)
      · cases List.mem_singleton.mp hret
        have hpast := h.past i
        rw [hj] at hpast
        exact hkeep hpast

/-- What is called later has not taken effect yet. -/
theorem not_applied {qs : List (Point ι Op Res)} (h : O.Trace s₀ (ps ++ qs) stage s) {i : ι}
    {op : Op} (hcall : .called i op ∈ qs) : ∀ x ∈ effects ps, x.name ≠ i := by
  obtain ⟨mid, rest, rfl⟩ := List.append_of_mem hcall
  rw [← List.append_assoc, List.append_cons] at h
  obtain ⟨stage', s', h⟩ := h.of_append
  generalize hall : ps ++ mid ++ [.called i op] = all at h
  cases h with
  | start => exact absurd hall (by simp)
  | called op' h hi =>
      obtain ⟨hpre, hlast⟩ := List.append_inj' hall rfl
      obtain ⟨rfl, rfl⟩ := Point.called.inj (List.singleton_inj.mp hlast)
      have hpast := h.past i
      rw [hi, ← hpre] at hpast
      intro x hx
      exact hpast _ (List.mem_append_left _ (mem_effects.mp hx))
  | applied h hi => cases List.singleton_inj.mp (List.append_inj' hall rfl).2
  | returned h hi => cases List.singleton_inj.mp (List.append_inj' hall rfl).2

/-- **The points of effect give the order.** -/
theorem linearization (h : O.Trace s₀ ps stage s) :
    O.Linearization s₀ (history ps) s (effects ps) where
  admits := h.admits
  once := h.nodup
  called x hx := called_mem_history.mpr (h.called_mem x hx)
  returned i res hret := h.applied_mem (returned_mem_history.mp hret)
  realTime := by
    intro before after hsplit x hx y hy hret hcall
    obtain ⟨ps₁, ps₂, rfl, rfl, rfl⟩ := List.filterMap_eq_append_iff.mp hsplit
    obtain ⟨stage₁, s₁, h₁⟩ := h.of_append
    have hsplit' : effects (ps₁ ++ ps₂) = effects ps₁ ++ effects ps₂ := List.filterMap_append ..
    -- `x` has returned by then, so it has taken effect by then.
    have hx₁ : x ∈ effects ps₁ := by
      obtain ⟨op, hop⟩ := h₁.applied_mem (returned_mem_history.mp hret)
      have hmem : ⟨x.name, op, x.res⟩ ∈ effects (ps₁ ++ ps₂) := by
        rw [hsplit']
        exact List.mem_append_left _ hop
      have heq := List.inj_on_of_nodup_map h.nodup hmem hx rfl
      exact heq ▸ hop
    -- `y` is called after that, so it has not.
    have hy₂ : y ∈ effects ps₂ := by
      have hnot := h.not_applied (called_mem_history.mp hcall)
      rw [hsplit'] at hy
      rcases List.mem_append.mp hy with hy | hy
      · exact absurd rfl (hnot y hy)
      · exact hy
    rw [hsplit']
    exact (List.singleton_sublist.mpr hx₁).append (List.singleton_sublist.mpr hy₂)

end Object.Trace

end BackupService.Lib
