import BackupService.Lib.Linearizability
import BackupService.Lib.Machine
import BackupService.Lib.Program

/-!
Operations on a memory behind a readers-writer lock.

An operation is a program of small steps on the memory. It waits until it
gets the lock, alone or together with others that only read, takes its steps,
and gives the lock back when it returns. Everything that the lock permits
may happen in between: readers take their steps in any order, and nobody
says who gets the lock next.

`Guarded.linearizable` is what the lock is for: clients cannot tell such a
run from one in which every operation is executed at once. The moment at
which it takes effect is when it gets the lock.
-/

namespace BackupService.Lib

/-- How an operation holds the lock. -/
inductive Access
  | shared
  | exclusive
  deriving DecidableEq, Repr

section ReadOnly

variable {Step : Type} {Ans : Step → Type} {α β σ : Type}

/-- No step of the program changes the memory. -/
def Program.ReadOnly (exec : (o : Step) → σ → Ans o × σ) : Program Step Ans α → Prop
  | .ret _ => True
  | .op o k => (∀ s, (exec o s).2 = s) ∧ ∀ r, ReadOnly exec (k r)

variable {exec : (o : Step) → σ → Ans o × σ}

@[simp] theorem Program.readOnly_ret (a : α) : (ret a : Program Step Ans α).ReadOnly exec := trivial

@[simp] theorem Program.readOnly_pure (a : α) : (pure a : Program Step Ans α).ReadOnly exec := trivial

@[simp] theorem Program.readOnly_op {o : Step} {k : Ans o → Program Step Ans α} :
    (op o k).ReadOnly exec ↔ (∀ s, (exec o s).2 = s) ∧ ∀ r, (k r).ReadOnly exec := Iff.rfl

theorem Program.ReadOnly.run {p : Program Step Ans α} (h : p.ReadOnly exec) (s : σ) :
    (p.run exec s).2 = s := by
  induction p generalizing s with
  | ret a => rfl
  | op o k ih => rw [run_op, ih _ (h.2 _), h.1]

end ReadOnly

/-- A memory and the operations on it, each with the access it asks for. -/
structure Guarded (σ Op Res Step : Type) (Ans : Step → Type) where
  exec : (o : Step) → σ → Ans o × σ
  access : Op → Access
  body : Op → Program Step Ans Res
  /-- Who shares the lock does not write. -/
  readOnly : ∀ op, access op = .shared → (body op).ReadOnly exec

/-- Where an operation is. -/
inductive Place (Op Res Step : Type) (Ans : Step → Type)
  | outside
  | waiting (op : Op)
  | inside (access : Access) (rest : Program Step Ans Res)
  | left

structure Locked (ι σ Op Res Step : Type) (Ans : Step → Type) where
  memory : σ
  readers : List ι
  writer : Option ι
  place : ι → Place Op Res Step Ans

/-- Who moves next. -/
inductive LockEvent (ι Op : Type)
  | call (i : ι) (op : Op)
  | acquire (i : ι)
  | step (i : ι)

variable {ι σ Op Res Step : Type} {Ans : Step → Type} [DecidableEq ι]

namespace Locked

variable (s : Locked ι σ Op Res Step Ans)

/-- Nobody is inside. -/
def start (memory : σ) : Locked ι σ Op Res Step Ans := ⟨memory, [], none, fun _ => .outside⟩

def put (i : ι) (p : Place Op Res Step Ans) : Locked ι σ Op Res Step Ans :=
  { s with place := Function.update s.place i p }

/-- The lock can be had. -/
def free : Access → Bool
  | .shared => s.writer.isNone
  | .exclusive => s.writer.isNone && s.readers.isEmpty

def lock (i : ι) : Access → Locked ι σ Op Res Step Ans
  | .shared => { s with readers := i :: s.readers }
  | .exclusive => { s with writer := some i }

def unlock (i : ι) : Access → Locked ι σ Op Res Step Ans
  | .shared => { s with readers := s.readers.erase i }
  | .exclusive => { s with writer := none }

@[simp] theorem put_memory (i : ι) (p : Place Op Res Step Ans) : (s.put i p).memory = s.memory := rfl

@[simp] theorem put_readers (i : ι) (p : Place Op Res Step Ans) :
    (s.put i p).readers = s.readers := rfl

@[simp] theorem put_writer (i : ι) (p : Place Op Res Step Ans) : (s.put i p).writer = s.writer := rfl

@[simp] theorem put_place_self (i : ι) (p : Place Op Res Step Ans) : (s.put i p).place i = p :=
  Function.update_self ..

theorem put_place_of_ne {i j : ι} (h : j ≠ i) (p : Place Op Res Step Ans) :
    (s.put i p).place j = s.place j := Function.update_of_ne h ..

end Locked

namespace Guarded

variable (G : Guarded σ Op Res Step Ans)

/-- What the operations do if nothing comes in between. -/
def object : Object σ Op Res where
  apply op s := (G.body op).run G.exec s

def machine : Machine (Locked ι σ Op Res Step Ans) (LockEvent ι Op) (Interaction ι Op Res) where
  step s
    | .call i op =>
        match s.place i with
        | .outside => (s.put i (.waiting op), [.called i op])
        | _ => (s, [])
    | .acquire i =>
        match s.place i with
        | .waiting op =>
            if s.free (G.access op) then
              ((s.lock i (G.access op)).put i (.inside (G.access op) (G.body op)), [])
            else (s, [])
        | _ => (s, [])
    | .step i =>
        match s.place i with
        | .inside access (.ret res) => ((s.unlock i access).put i .left, [.returned i res])
        | .inside access (.op o k) =>
            ({ s with memory := (G.exec o s.memory).2 }.put i
              (.inside access (k (G.exec o s.memory).1)), [])
        | _ => (s, [])

/-- What is left of an operation that has the lock leads to the result it
was given when it got the lock, and to the memory `t` that it had then been
found to lead to. -/
def Agrees (s : Locked ι σ Op Res Step Ans) (t : σ) (i : ι) :
    Place Op Res Step Ans → Stage Op Res → Prop
  | .outside, .idle => True
  | .waiting op, .called op' => op = op'
  | .inside .shared rest, .applied res =>
      i ∈ s.readers ∧ rest.ReadOnly G.exec ∧ (rest.run G.exec t).1 = res
  | .inside .exclusive rest, .applied res =>
      s.writer = some i ∧ rest.run G.exec s.memory = (res, t)
  | .left, .returned => True
  | _, _ => False

/-- The locked memory follows the object, which is at `t`. -/
structure Follows (s₀ : σ) (s : Locked ι σ Op Res Step Ans) (ps : List (Point ι Op Res))
    (stage : ι → Stage Op Res) (t : σ) : Prop where
  trace : G.object.Trace s₀ ps stage t
  places : ∀ i, G.Agrees s t i (s.place i) (stage i)
  settled : s.writer = none → s.memory = t
  alone : ∀ i, s.writer = some i → s.readers = []

variable {G} {s₀ t : σ} {s : Locked ι σ Op Res Step Ans} {ps : List (Point ι Op Res)}
  {stage : ι → Stage Op Res} {i : ι}

theorem Follows.start : G.Follows s₀ (.start s₀ : Locked ι σ Op Res Step Ans) [] (fun _ => .idle) s₀ where
  trace := .start
  places _ := trivial
  settled _ := rfl
  alone _ h := by cases h

section Agrees

omit [DecidableEq ι]

variable {p : Place Op Res Step Ans} {st : Stage Op Res}

/-- Without a writer an operation does not depend on the memory. -/
theorem Agrees.of_free {s' : Locked ι σ Op Res Step Ans} (h : G.Agrees s t i p st)
    (hwriter : s.writer = none) (hreaders : i ∈ s.readers → i ∈ s'.readers) :
    G.Agrees s' t i p st := by
  match p, st, h with
  | .outside, .idle, _ => trivial
  | .waiting op, .called _, h => exact h
  | .inside .shared rest, .applied res, ⟨hmem, hro, hres⟩ => exact ⟨hreaders hmem, hro, hres⟩
  | .inside .exclusive rest, .applied res, ⟨hi, _⟩ =>
      rw [hwriter] at hi
      cases hi
  | .left, .returned, _ => trivial

/-- An operation that is not inside depends on nothing. -/
theorem Agrees.of_alone {s' : Locked ι σ Op Res Step Ans} {t' : σ} (h : G.Agrees s t i p st)
    (hwriter : s.writer ≠ some i) (hreaders : i ∉ s.readers) : G.Agrees s' t' i p st := by
  match p, st, h with
  | .outside, .idle, _ => trivial
  | .waiting op, .called _, h => exact h
  | .inside .shared rest, .applied res, ⟨hmem, _⟩ => exact absurd hmem hreaders
  | .inside .exclusive rest, .applied res, ⟨hi, _⟩ => exact absurd hi hwriter
  | .left, .returned, _ => trivial

theorem Agrees.idle (h : G.Agrees s t i .outside st) : st = .idle := by
  match st, h with
  | .idle, _ => rfl

theorem Agrees.called {op : Op} (h : G.Agrees s t i (.waiting op) st) : st = .called op := by
  match st, h with
  | .called _, h => exact congrArg Stage.called h.symm

theorem Agrees.reading {rest : Program Step Ans Res} (h : G.Agrees s t i (.inside .shared rest) st) :
    i ∈ s.readers ∧ rest.ReadOnly G.exec ∧ st = .applied (rest.run G.exec t).1 := by
  match st, h with
  | .applied _, ⟨hmem, hro, hres⟩ => exact ⟨hmem, hro, congrArg Stage.applied hres.symm⟩

theorem Agrees.writing {rest : Program Step Ans Res}
    (h : G.Agrees s t i (.inside .exclusive rest) st) :
    s.writer = some i ∧ st = .applied (rest.run G.exec s.memory).1 ∧
      (rest.run G.exec s.memory).2 = t := by
  match st, h with
  | .applied _, ⟨hi, hrun⟩ =>
      rw [hrun]
      exact ⟨hi, rfl, rfl⟩

end Agrees

namespace Follows

/-- Who reads keeps every writer out. -/
theorem writer_none (h : G.Follows s₀ s ps stage t) (hi : i ∈ s.readers) : s.writer = none := by
  cases hw : s.writer with
  | none => rfl
  | some j =>
      rw [h.alone j hw] at hi
      cases hi

theorem call (h : G.Follows s₀ s ps stage t) (op : Op) (hi : s.place i = .outside) :
    G.Follows s₀ (s.put i (.waiting op)) (ps ++ [.called i op])
      (Function.update stage i (.called op)) t where
  trace := h.trace.called op (by
    have hagrees := h.places i
    rw [hi] at hagrees
    exact hagrees.idle)
  places j := by
    by_cases hj : j = i
    · subst hj
      rw [Locked.put_place_self, Function.update_self]
      exact rfl
    · rw [Locked.put_place_of_ne s hj, Function.update_of_ne hj]
      exact h.places j
  settled := h.settled
  alone := h.alone

/-- Getting the lock is when the operation takes effect. -/
theorem acquire (h : G.Follows s₀ s ps stage t) {op : Op} (hi : s.place i = .waiting op)
    (hfree : s.free (G.access op) = true) :
    G.Follows s₀ ((s.lock i (G.access op)).put i (.inside (G.access op) (G.body op)))
      (ps ++ [.applied ⟨i, op, (G.object.apply op t).1⟩])
      (Function.update stage i (.applied (G.object.apply op t).1)) (G.object.apply op t).2 := by
  have hstage : stage i = .called op := by
    have hagrees := h.places i
    rw [hi] at hagrees
    exact hagrees.called
  cases haccess : G.access op with
  | shared =>
      rw [haccess] at hfree
      have hwriter : s.writer = none := Option.isNone_iff_eq_none.mp hfree
      have hkeep : (G.object.apply op t).2 = t := (G.readOnly op haccess).run t
      refine ⟨h.trace.applied hstage, fun j => ?_, fun _ => ?_, fun j hj => ?_⟩
      · by_cases hj : j = i
        · subst hj
          rw [Locked.put_place_self, Function.update_self, hkeep]
          exact ⟨List.mem_cons_self, G.readOnly op haccess, rfl⟩
        · rw [Locked.put_place_of_ne _ hj, Function.update_of_ne hj, hkeep]
          exact (h.places j).of_free hwriter (List.mem_cons_of_mem i)
      · rw [hkeep]
        exact h.settled hwriter
      · have hsome : s.writer = some j := hj
        rw [hwriter] at hsome
        cases hsome
  | exclusive =>
      rw [haccess] at hfree
      obtain ⟨hnone, hempty⟩ := Bool.and_eq_true_iff.mp hfree
      have hwriter : s.writer = none := Option.isNone_iff_eq_none.mp hnone
      have hreaders : s.readers = [] := List.isEmpty_iff.mp hempty
      refine ⟨h.trace.applied hstage, fun j => ?_, fun hj => ?_, fun _ _ => hreaders⟩
      · by_cases hj : j = i
        · subst hj
          rw [Locked.put_place_self, Function.update_self]
          refine ⟨rfl, ?_⟩
          show (G.body op).run G.exec s.memory = (G.body op).run G.exec t
          rw [h.settled hwriter]
        · rw [Locked.put_place_of_ne _ hj, Function.update_of_ne hj]
          refine (h.places j).of_alone ?_ ?_
          · rw [hwriter]
            exact (Option.some_ne_none j).symm
          · rw [hreaders]
            exact List.not_mem_nil
      · cases hj

/-- A step of a reader changes nothing, and it reads what the object holds. -/
theorem read (h : G.Follows s₀ s ps stage t) {o : Step} {k : Ans o → Program Step Ans Res}
    (hi : s.place i = .inside .shared (.op o k)) :
    G.Follows s₀ ({ s with memory := (G.exec o s.memory).2 }.put i
      (.inside .shared (k (G.exec o s.memory).1))) ps stage t := by
  have hagrees := h.places i
  rw [hi] at hagrees
  obtain ⟨hmem, ⟨hro, hrest⟩, hstage⟩ := hagrees.reading
  have hwriter : s.writer = none := h.writer_none hmem
  have hmemory : s.memory = t := h.settled hwriter
  refine ⟨h.trace, fun j => ?_, fun _ => ?_, h.alone⟩
  · by_cases hj : j = i
    · subst hj
      rw [Locked.put_place_self, hstage, hmemory]
      refine ⟨hmem, hrest _, ?_⟩
      rw [Program.run_op, hro]
    · rw [Locked.put_place_of_ne _ hj]
      exact (h.places j).of_free hwriter id
  · show (G.exec o s.memory).2 = t
    rw [hro, hmemory]

/-- A step of the writer is seen by nobody. -/
theorem write (h : G.Follows s₀ s ps stage t) {o : Step} {k : Ans o → Program Step Ans Res}
    (hi : s.place i = .inside .exclusive (.op o k)) :
    G.Follows s₀ ({ s with memory := (G.exec o s.memory).2 }.put i
      (.inside .exclusive (k (G.exec o s.memory).1))) ps stage t := by
  have hagrees := h.places i
  rw [hi] at hagrees
  obtain ⟨hwriter, hstage, hlast⟩ := hagrees.writing
  refine ⟨h.trace, fun j => ?_, fun hnone => ?_, h.alone⟩
  · by_cases hj : j = i
    · subst hj
      rw [Locked.put_place_self, hstage]
      exact ⟨hwriter, Prod.ext rfl hlast⟩
    · rw [Locked.put_place_of_ne _ hj]
      refine (h.places j).of_alone ?_ ?_
      · rw [hwriter]
        exact fun heq => hj (Option.some.inj heq).symm
      · rw [h.alone i hwriter]
        exact List.not_mem_nil
  · have hnone : s.writer = none := hnone
    rw [hwriter] at hnone
    cases hnone

theorem leave (h : G.Follows s₀ s ps stage t) {access : Access} {res : Res}
    (hi : s.place i = .inside access (.ret res)) :
    G.Follows s₀ ((s.unlock i access).put i .left) (ps ++ [.returned i res])
      (Function.update stage i .returned) t := by
  have hagrees := h.places i
  rw [hi] at hagrees
  cases access with
  | shared =>
      obtain ⟨hmem, -, hstage⟩ := hagrees.reading
      have hwriter : s.writer = none := h.writer_none hmem
      refine ⟨h.trace.returned hstage, fun j => ?_, fun _ => h.settled hwriter, fun j hj => ?_⟩
      · by_cases hj : j = i
        · subst hj
          rw [Locked.put_place_self, Function.update_self]
          trivial
        · rw [Locked.put_place_of_ne _ hj, Function.update_of_ne hj]
          exact (h.places j).of_free hwriter (List.mem_erase_of_ne hj).mpr
      · have hsome : s.writer = some j := hj
        rw [hwriter] at hsome
        cases hsome
  | exclusive =>
      obtain ⟨hwriter, hstage, hlast⟩ := hagrees.writing
      refine ⟨h.trace.returned hstage, fun j => ?_, fun _ => hlast, fun j hj => ?_⟩
      · by_cases hj : j = i
        · subst hj
          rw [Locked.put_place_self, Function.update_self]
          trivial
        · rw [Locked.put_place_of_ne _ hj, Function.update_of_ne hj]
          refine (h.places j).of_alone ?_ ?_
          · rw [hwriter]
            exact fun heq => hj (Option.some.inj heq).symm
          · rw [h.alone i hwriter]
            exact List.not_mem_nil
      · cases hj

/-- Every event follows the object, and shows what the marks show. -/
theorem step (h : G.Follows s₀ s ps stage t) (e : LockEvent ι Op) :
    ∃ qs stage' t', G.Follows s₀ (G.machine.step s e).1 (ps ++ qs) stage' t' ∧
      history qs = (G.machine.step s e).2 := by
  have hstay : ∃ qs stage' t', G.Follows s₀ s (ps ++ qs) stage' t' ∧
      history qs = ([] : List (Interaction ι Op Res)) :=
    ⟨[], stage, t, by rwa [List.append_nil], rfl⟩
  cases e with
  | call i op =>
      simp only [machine]
      split
      · next hi => exact ⟨_, _, _, h.call op hi, rfl⟩
      · exact hstay
  | acquire i =>
      simp only [machine]
      split
      · next op hi =>
          split
          · next hfree => exact ⟨_, _, _, h.acquire hi hfree, rfl⟩
          · exact hstay
      · exact hstay
  | step i =>
      simp only [machine]
      split
      · next access res hi => exact ⟨_, _, _, h.leave hi, rfl⟩
      · next access o k hi =>
          refine ⟨[], stage, t, ?_, rfl⟩
          rw [List.append_nil]
          cases access with
          | shared => exact h.read hi
          | exclusive => exact h.write hi
      · exact hstay

end Follows

variable (G)

theorem run_follows (s₀ : σ) (es : List (LockEvent ι Op)) :
    ∃ ps stage t, G.Follows s₀ (G.machine.run (.start s₀) es) ps stage t ∧
      history ps = G.machine.trace (.start s₀) es := by
  induction es using List.reverseRecOn with
  | nil => exact ⟨[], _, s₀, .start, rfl⟩
  | append_singleton es e ih =>
      obtain ⟨ps, stage, t, h, hseen⟩ := ih
      obtain ⟨qs, stage', t', h', hseen'⟩ := h.step e
      refine ⟨ps ++ qs, stage', t', ?_, ?_⟩
      · rwa [Machine.run_concat]
      · rw [Machine.trace_concat, ← hseen, ← hseen']
        exact List.filterMap_append ..

/-- **An operation under the lock is one step.** When nobody writes, the
memory is what the operations have led to in this order. -/
theorem linearizable (s₀ : σ) (es : List (LockEvent ι Op)) :
    ∃ t order, G.object.Linearization s₀ (G.machine.trace (.start s₀) es) t order ∧
      ((G.machine.run (.start s₀) es).writer = none →
        (G.machine.run (.start s₀) es).memory = t) := by
  obtain ⟨ps, stage, t, h, hseen⟩ := G.run_follows s₀ es
  refine ⟨t, effects ps, ?_, h.settled⟩
  rw [← hseen]
  exact h.trace.linearization

end Guarded

end BackupService.Lib
