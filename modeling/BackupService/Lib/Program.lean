import Mathlib.Data.Nat.Lattice
import Mathlib.Tactic.Common

/-!
Programs that act on the world through atomic operations only.

A `Program Op Ans α` is a finite tree: it either returns, or it names one
operation and says how it goes on for every answer that operation can
have. Everything between two operations is pure, so the tree shows exactly
the points at which somebody else can get in between, and a program that
has been stopped halfway is again a program: the subtree that is left.

Three readings of a tree are developed here. `run` executes it in one go
against a state, and `Ensures` says what holds afterwards. `Obeys` checks it against a protocol, one operation at a
time, for every answer the protocol admits; it is stated on the tree, so
it is inherited by whatever is left of a program after some of its
operations. `Blind` says that the program cannot tell certain answers
apart. All three are folds over the tree, and each comes with its rule for
sequencing, which is what lets a program written with `do` be treated one
statement at a time.
-/

namespace BackupService.Lib

/-- A program over the operations `Op`, where `Ans o` is the type of the
answers of `o`. -/
inductive Program (Op : Type) (Ans : Op → Type) (α : Type) : Type
  | ret (a : α)
  | op (o : Op) (k : Ans o → Program Op Ans α)

namespace Program

variable {Op : Type} {Ans : Op → Type} {α β γ σ : Type}

/-- Sequencing: the leaves of the first program are replaced. -/
protected def bind : Program Op Ans α → (α → Program Op Ans β) → Program Op Ans β
  | ret a, f => f a
  | op o k, f => op o fun r => (k r).bind f

instance : Monad (Program Op Ans) where
  pure := ret
  bind := Program.bind

/-- The program that performs one operation and returns its answer. -/
def perform (o : Op) : Program Op Ans (Ans o) := op o ret

@[simp] theorem ret_bind (a : α) (f : α → Program Op Ans β) : ret a >>= f = f a := rfl

@[simp] theorem op_bind (o : Op) (k : Ans o → Program Op Ans α) (f : α → Program Op Ans β) :
    op o k >>= f = op o fun r => k r >>= f := rfl

@[simp] theorem perform_bind (o : Op) (f : Ans o → Program Op Ans β) :
    perform o >>= f = op o f := rfl

theorem bind_ret_self (p : Program Op Ans α) : p >>= ret = p := by
  induction p with
  | ret a => rfl
  | op o k ih => rw [op_bind]; exact congrArg (op o) (funext ih)

theorem bind_bind (p : Program Op Ans α) (f : α → Program Op Ans β) (g : β → Program Op Ans γ) :
    p >>= f >>= g = p >>= fun a => f a >>= g := by
  induction p with
  | ret a => rfl
  | op o k ih => simp only [op_bind]; exact congrArg (op o) (funext ih)

instance : LawfulMonad (Program Op Ans) :=
  LawfulMonad.mk' _ bind_ret_self (fun _ _ => rfl) bind_bind

/-! ### Running a program in one go -/

/-- Execute every operation of the program in turn, with nothing in
between. -/
def run (exec : (o : Op) → σ → Ans o × σ) : Program Op Ans α → σ → α × σ
  | ret a, s => (a, s)
  | op o k, s => run exec (k (exec o s).1) (exec o s).2

section Run

variable (exec : (o : Op) → σ → Ans o × σ)

@[simp] theorem run_ret (a : α) (s : σ) : run exec (ret a : Program Op Ans α) s = (a, s) := rfl

@[simp] theorem run_pure (a : α) (s : σ) :
    run exec (pure a : Program Op Ans α) s = (a, s) := rfl

@[simp] theorem run_op (o : Op) (k : Ans o → Program Op Ans α) (s : σ) :
    run exec (op o k) s = run exec (k (exec o s).1) (exec o s).2 := rfl

@[simp] theorem run_perform (o : Op) (s : σ) : run exec (perform o) s = exec o s := rfl

@[simp] theorem run_bind (p : Program Op Ans α) (f : α → Program Op Ans β) (s : σ) :
    run exec (p >>= f) s = run exec (f (run exec p s).1) (run exec p s).2 := by
  induction p generalizing s with
  | ret a => rfl
  | op o k ih => exact ih _ _

/-- What every operation preserves, a whole run preserves. -/
theorem run_preserves (I : σ → Prop) (hexec : ∀ o s, I s → I (exec o s).2)
    (p : Program Op Ans α) {s : σ} (hs : I s) : I (run exec p s).2 := by
  induction p generalizing s with
  | ret a => exact hs
  | op o k ih => exact ih _ (hexec o s hs)

/-- After the program has been run from `s`, its result and the state
satisfy `post`. -/
def Ensures (p : Program Op Ans α) (s : σ) (post : α → σ → Prop) : Prop :=
  post (run exec p s).1 (run exec p s).2

variable {exec} {s : σ} {post : α → σ → Prop}

@[simp] theorem ensures_ret {a : α} : Ensures exec (ret a : Program Op Ans α) s post ↔ post a s :=
  Iff.rfl

@[simp] theorem ensures_pure {a : α} :
    Ensures exec (pure a : Program Op Ans α) s post ↔ post a s := Iff.rfl

@[simp] theorem ensures_op {o : Op} {k : Ans o → Program Op Ans α} :
    Ensures exec (op o k) s post ↔ Ensures exec (k (exec o s).1) (exec o s).2 post := Iff.rfl

theorem ensures_bind {p : Program Op Ans α} {f : α → Program Op Ans β} {post : β → σ → Prop} :
    Ensures exec (p >>= f) s post ↔ Ensures exec p s fun a t => Ensures exec (f a) t post := by
  rw [Ensures, run_bind]
  exact Iff.rfl

/-- The rule for sequencing. -/
theorem Ensures.bind {p : Program Op Ans α} {f : α → Program Op Ans β} {mid : α → σ → Prop}
    {post : β → σ → Prop} (hp : Ensures exec p s mid)
    (hf : ∀ a t, mid a t → Ensures exec (f a) t post) : Ensures exec (p >>= f) s post :=
  ensures_bind.mpr (hf _ _ hp)

theorem Ensures.mono {post' : α → σ → Prop} {p : Program Op Ans α} (h : Ensures exec p s post)
    (hpost : ∀ a t, post a t → post' a t) : Ensures exec p s post' := hpost _ _ h

end Run

/-! ### Protocols

A protocol says which operations a program may perform, which answers it
may count on, and how its own bookkeeping `γ` moves on with them. -/

/-- What a program is held to, with bookkeeping of type `γ`. -/
structure Protocol (Op : Type) (Ans : Op → Type) (γ : Type) where
  /-- The operations that may be performed. -/
  allow : γ → Op → Prop
  /-- The answers that have to be dealt with. -/
  rely : γ → (o : Op) → Ans o → Prop
  /-- The bookkeeping after an answer. -/
  next : γ → (o : Op) → Ans o → γ

/-- From the bookkeeping `g` on, the program performs only operations the
protocol allows, and it returns only where `Q` holds. -/
def Obeys (P : Protocol Op Ans γ) (Q : γ → α → Prop) : γ → Program Op Ans α → Prop
  | g, ret a => Q g a
  | g, op o k => P.allow g o ∧ ∀ r, P.rely g o r → Obeys P Q (P.next g o r) (k r)

section Obeys

variable {P : Protocol Op Ans γ} {Q : γ → α → Prop} {g : γ}

@[simp] theorem obeys_ret {a : α} : Obeys P Q g (ret a) ↔ Q g a := Iff.rfl

@[simp] theorem obeys_pure {a : α} : Obeys P Q g (pure a : Program Op Ans α) ↔ Q g a := Iff.rfl

@[simp] theorem obeys_op {o : Op} {k : Ans o → Program Op Ans α} :
    Obeys P Q g (op o k) ↔
      P.allow g o ∧ ∀ r, P.rely g o r → Obeys P Q (P.next g o r) (k r) := Iff.rfl

theorem obeys_bind {R : γ → β → Prop} {p : Program Op Ans α} {f : α → Program Op Ans β} :
    Obeys P R g (p >>= f) ↔ Obeys P (fun g a => Obeys P R g (f a)) g p := by
  induction p generalizing g with
  | ret a => exact Iff.rfl
  | op o k ih =>
      simp only [op_bind, obeys_op]
      exact and_congr_right fun _ => forall_congr' fun r => imp_congr_right fun _ => ih r

theorem Obeys.mono {Q' : γ → α → Prop} {p : Program Op Ans α} (h : Obeys P Q g p)
    (hQ : ∀ g a, Q g a → Q' g a) : Obeys P Q' g p := by
  induction p generalizing g with
  | ret a => exact hQ g a h
  | op o k ih => exact ⟨h.1, fun r hr => ih r (h.2 r hr)⟩

end Obeys

/-! ### Counting operations -/

/-- Whatever the answers are, the program performs at most `n` operations. -/
def AtMost : ℕ → Program Op Ans α → Prop
  | _, ret _ => True
  | 0, op _ _ => False
  | n + 1, op _ k => ∀ r, AtMost n (k r)

@[simp] theorem atMost_ret (n : ℕ) (a : α) : AtMost n (ret a : Program Op Ans α) := by
  cases n <;> trivial

@[simp] theorem atMost_op {n : ℕ} {o : Op} {k : Ans o → Program Op Ans α} :
    AtMost (n + 1) (op o k) ↔ ∀ r, AtMost n (k r) := Iff.rfl

/-- The number of operations after which the program is over, whatever the
answers are; `0` if there is no such number. -/
noncomputable def depth (p : Program Op Ans α) : ℕ := sInf {n | AtMost n p}

theorem AtMost.depth_le {n : ℕ} {p : Program Op Ans α} (h : AtMost n p) : p.depth ≤ n := Nat.sInf_le h

/-- With every operation there is less to come. -/
theorem AtMost.depth_lt {n : ℕ} {o : Op} {k : Ans o → Program Op Ans α} (h : AtMost n (op o k))
    (r : Ans o) : (k r).depth < (op o k).depth := by
  have hdepth : AtMost (op o k).depth (op o k) := Nat.sInf_mem (s := {n | AtMost n (op o k)}) ⟨n, h⟩
  cases hd : (op o k).depth with
  | zero =>
      rw [hd] at hdepth
      exact hdepth.elim
  | succ d =>
      rw [hd] at hdepth
      exact Nat.lt_succ_of_le (hdepth r).depth_le

/-! ### What is bound to happen -/

/-- Whatever the answers are, the program performs an operation of `P`
before it returns. -/
def Must (P : Op → Prop) : Program Op Ans α → Prop
  | ret _ => False
  | op o k => P o ∨ ∀ r, Must P (k r)

@[simp] theorem must_ret (P : Op → Prop) (a : α) : ¬ Must P (ret a : Program Op Ans α) := fun h => h

@[simp] theorem must_op {P : Op → Prop} {o : Op} {k : Ans o → Program Op Ans α} :
    Must P (op o k) ↔ P o ∨ ∀ r, Must P (k r) := Iff.rfl

/-- A program that has a debt, under a protocol that lets nothing but `P`
pay it and no program return with it, is bound to perform `P`. -/
theorem Obeys.must {P : Protocol Op Ans γ} {Q : γ → α → Prop} {pays : Op → Prop} {debt : γ → Prop}
    (hret : ∀ g a, debt g → ¬ Q g a)
    (hrely : ∀ g o r, debt g → P.allow g o → ¬ pays o → P.rely g o r)
    (hnext : ∀ g o r, debt g → P.allow g o → ¬ pays o → debt (P.next g o r))
    {g : γ} {p : Program Op Ans α} (h : Obeys P Q g p) (hg : debt g) : Must pays p := by
  induction p generalizing g with
  | ret a => exact hret g a hg h
  | op o k ih =>
      by_cases ho : pays o
      · exact .inl ho
      · refine .inr fun r => ?_
        exact ih r (h.2 r (hrely g o r hg h.1 ho)) (hnext g o r hg h.1 ho)

/-! ### Indifference -/

/-- The program goes on in the same way after any two answers that `same`
relates. -/
def Blind (same : (o : Op) → Ans o → Ans o → Prop) : Program Op Ans α → Prop
  | ret _ => True
  | op o k => (∀ r r', same o r r' → k r = k r') ∧ ∀ r, Blind same (k r)

section Blind

variable {same : (o : Op) → Ans o → Ans o → Prop}

@[simp] theorem blind_ret (a : α) : Blind same (ret a : Program Op Ans α) := trivial

@[simp] theorem blind_pure (a : α) : Blind same (pure a : Program Op Ans α) := trivial

@[simp] theorem blind_op {o : Op} {k : Ans o → Program Op Ans α} :
    Blind same (op o k) ↔ (∀ r r', same o r r' → k r = k r') ∧ ∀ r, Blind same (k r) := Iff.rfl

theorem Blind.bind {p : Program Op Ans α} {f : α → Program Op Ans β} (hp : Blind same p)
    (hf : ∀ a, Blind same (f a)) : Blind same (p >>= f) := by
  induction p with
  | ret a => exact hf a
  | op o k ih =>
      exact ⟨fun r r' hr => congrArg (· >>= f) (hp.1 r r' hr), fun r => ih r (hp.2 r)⟩

end Blind

end Program

end BackupService.Lib
