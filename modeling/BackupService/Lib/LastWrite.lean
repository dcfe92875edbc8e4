import Mathlib.Data.Nat.Notation
import Mathlib.Tactic.Common

/-!
The last writer wins.

`lastWrite f l d` is the value of a register that starts as `d` and that the
entries of `l` write one after the other; an entry `a` that does not write
(`f a = none`) leaves it alone. What is read in the end is what the last
entry that writes has written, and nobody else matters.
-/

namespace BackupService.Lib

variable {α β : Type}

/-- The value after the writes of `l`. -/
def lastWrite (f : α → Option β) (l : List α) (d : β) : β := l.foldl (fun v a => (f a).getD v) d

section LastWrite

variable {f : α → Option β} {l l' : List α} {a : α} {d : β}

@[simp] theorem lastWrite_nil : lastWrite f [] d = d := rfl

@[simp] theorem lastWrite_cons : lastWrite f (a :: l) d = lastWrite f l ((f a).getD d) := rfl

theorem lastWrite_append : lastWrite f (l ++ l') d = lastWrite f l' (lastWrite f l d) :=
  List.foldl_append

theorem lastWrite_concat : lastWrite f (l ++ [a]) d = (f a).getD (lastWrite f l d) := by
  rw [lastWrite_append, lastWrite_cons, lastWrite_nil]

/-- Somebody has written last, or nobody has written at all. -/
theorem lastWrite_cases (f : α → Option β) (l : List α) (d : β) :
    (∃ pre a post, l = pre ++ a :: post ∧ f a = some (lastWrite f l d) ∧ ∀ b ∈ post, f b = none) ∨
      (∀ a ∈ l, f a = none) ∧ lastWrite f l d = d := by
  induction l generalizing d with
  | nil => exact .inr ⟨by simp, rfl⟩
  | cons a l ih =>
      rw [lastWrite_cons]
      obtain ⟨pre, b, post, rfl, hb, hpost⟩ | ⟨hnone, heq⟩ := ih ((f a).getD d)
      · exact .inl ⟨a :: pre, b, post, rfl, hb, hpost⟩
      · cases ha : f a with
        | none =>
            rw [ha] at heq
            refine .inr ⟨fun b hb => ?_, heq⟩
            rcases List.mem_cons.mp hb with rfl | hb
            · exact ha
            · exact hnone b hb
        | some v =>
            rw [ha] at heq
            exact .inl ⟨[], a, l, rfl, ha.trans (congrArg some heq.symm), hnone⟩

end LastWrite

end BackupService.Lib
