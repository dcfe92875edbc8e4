import Mathlib.Data.List.Perm.Basic
import Mathlib.Order.Basic
import Mathlib.Order.Lattice
import Mathlib.Tactic.Common

/-!
Reading a table page by page, in descending order of a key.

The order of entries with equal keys is left open, and every page may be cut
out of another descending order of the entries. An entry `a` can stand
anywhere between `ahead`, the number of entries with larger keys, and `reach`,
which counts those with equal keys as well. If no page ends inside a group of
equal keys, the pages together have every entry once (`PagesFrom.perm`). Otherwise
there are two entries that can change places across the end of a page
(`exists_swap`).

If entries are added while the pages are read, an entry moves to later pages,
and a reader who goes on meets it again. It cannot be missed
(`exists_meets`), and it is not met more often than entries have been
added (`countMeetings_le`).
-/

namespace BackupService.Lib

variable {α κ : Type} [LinearOrder κ] (key : α → κ)

/-- `s` has the entries of `rows`, in descending order of their keys. -/
structure Descending (rows s : List α) : Prop where
  perm : s.Perm rows
  sorted : s.Pairwise fun a b => key b ≤ key a

/-- The number of entries with larger keys. -/
def ahead (rows : List α) (a : α) : ℕ := rows.countP fun b => key a < key b

/-- The number of entries whose keys are not smaller. -/
def reach (rows : List α) (a : α) : ℕ := rows.countP fun b => key a ≤ key b

/-- A cut after `n` entries goes through a group of equal keys. -/
def Splits (rows : List α) (n : ℕ) : Prop := ∃ a ∈ rows, ahead key rows a < n ∧ n < reach key rows a

/-- Page `i` of a list, with `k` entries a page. -/
def pageAt (k i : ℕ) (s : List α) : List α := (s.drop (i * k)).take k

variable {key} {rows s : List α} {a : α} {n k : ℕ}

namespace Descending

theorem le_of_mem (h : Descending key rows s) (n : ℕ) {a b : α} (ha : a ∈ s.take n)
    (hb : b ∈ s.drop n) : key b ≤ key a := by
  have hsorted := h.sorted
  rw [← List.take_append_drop n s] at hsorted
  exact (List.pairwise_append.mp hsorted).2.2 a ha b hb

/-- Both numbers can be read off any descending order. -/
theorem countP_eq (h : Descending key rows s) (p : α → Bool) (n : ℕ) :
    rows.countP p = (s.take n).countP p + (s.drop n).countP p := by
  rw [← h.perm.countP_eq, ← List.countP_append, List.take_append_drop]

theorem ahead_lt (h : Descending key rows s) (ha : a ∈ s.take n) : ahead key rows a < n := by
  have hdrop : (s.drop n).countP (fun b => key a < key b) = 0 :=
    List.countP_eq_zero.mpr fun b hb => by simpa using h.le_of_mem n ha hb
  have htake : (s.take n).countP (fun b => key a < key b) < (s.take n).length := by
    refine Nat.lt_of_le_of_ne List.countP_le_length fun heq => ?_
    have hself : key a < key a := by simpa using List.countP_eq_length.mp heq a ha
    exact lt_irrefl _ hself
  have hlen := List.length_take_le n s
  rw [ahead, h.countP_eq _ n]
  omega

theorem lt_reach (h : Descending key rows s) (ha : a ∈ s.drop n) : n < reach key rows a := by
  have htake : (s.take n).countP (fun b => key a ≤ key b) = (s.take n).length :=
    List.countP_eq_length.mpr fun b hb => by simpa using h.le_of_mem n hb ha
  have hdrop : 0 < (s.drop n).countP (fun b => key a ≤ key b) :=
    List.countP_pos_iff.mpr ⟨a, ha, by simp⟩
  have hpos := List.length_pos_of_mem ha
  rw [List.length_drop] at hpos
  rw [List.length_take] at htake
  rw [reach, h.countP_eq _ n]
  omega

/-- A cut between the groups has the same entries before it in every order. -/
theorem take_eq_filter (h : Descending key rows s) (hn : ¬ Splits key rows n) :
    s.take n = s.filter fun a => reach key rows a ≤ n := by
  have htake : (s.take n).filter (fun a => reach key rows a ≤ n) = s.take n := by
    refine List.filter_eq_self.mpr fun a ha => ?_
    have hmem : a ∈ rows := h.perm.mem_iff.mp (List.mem_of_mem_take ha)
    have : ¬ n < reach key rows a := fun hlt => hn ⟨a, hmem, h.ahead_lt ha, hlt⟩
    simpa using this
  have hdrop : (s.drop n).filter (fun a => reach key rows a ≤ n) = [] := by
    refine List.filter_eq_nil_iff.mpr fun a ha => ?_
    have := h.lt_reach ha
    simpa using this
  calc s.take n = (s.take n).filter (fun a => reach key rows a ≤ n) ++ [] := by
        rw [htake, List.append_nil]
    _ = (s.take n ++ s.drop n).filter fun a => reach key rows a ≤ n := by
        rw [List.filter_append, hdrop]
    _ = s.filter fun a => reach key rows a ≤ n := by rw [List.take_append_drop]

/-- What is before a cut and the next page are what is before the next cut. -/
theorem filter_append_pageAt (h : Descending key rows s) {i : ℕ}
    (hi : ¬ Splits key rows (i * k)) (hi' : ¬ Splits key rows ((i + 1) * k)) :
    (rows.filter (fun a => reach key rows a ≤ i * k) ++ pageAt k i s).Perm
      (rows.filter fun a => reach key rows a ≤ (i + 1) * k) := by
  have hbefore : ∀ n, ¬ Splits key rows n →
      (s.take n).Perm (rows.filter fun a => reach key rows a ≤ n) := fun n hn => by
    rw [h.take_eq_filter hn]
    exact h.perm.filter _
  refine ((hbefore _ hi).symm.append_right _).trans ?_
  rw [pageAt, ← List.take_add, ← Nat.succ_mul]
  exact hbefore _ hi'

end Descending

theorem filter_reach_zero : rows.filter (fun a => reach key rows a ≤ 0) = [] := by
  refine List.filter_eq_nil_iff.mpr fun a ha => ?_
  have : 0 < reach key rows a := List.countP_pos_iff.mpr ⟨a, ha, by simp⟩
  simp only [decide_eq_true_eq]
  omega

theorem filter_reach_of_le (h : rows.length ≤ n) :
    rows.filter (fun a => reach key rows a ≤ n) = rows := by
  refine List.filter_eq_self.mpr fun a _ => ?_
  have : reach key rows a ≤ rows.length := List.countP_le_length
  simp only [decide_eq_true_eq]
  omega

/-- A cut through a group separates two entries with equal keys, and these
can change places. -/
theorem Descending.exists_swap (h : Descending key rows s) (hn : Splits key rows n) :
    ∃ pre a b post, s = pre ++ a :: b :: post ∧ pre.length + 1 = n ∧
      Descending key rows (pre ++ b :: a :: post) := by
  obtain ⟨c, hc, hahead, hreach⟩ := hn
  have hlen : n < s.length := by
    rw [h.perm.length_eq]
    exact Nat.lt_of_lt_of_le hreach List.countP_le_length
  obtain ⟨n, rfl⟩ : ∃ n', n = n' + 1 := ⟨n - 1, by omega⟩
  obtain ⟨pre, a, b, post, rfl, rfl⟩ :
      ∃ pre a b post, s = pre ++ a :: b :: post ∧ pre.length = n := by
    refine ⟨s.take n, s[n], s[n + 1], s.drop (n + 2), ?_, List.length_take_of_le (by omega)⟩
    rw [← List.drop_eq_getElem_cons hlen, ← List.drop_eq_getElem_cons, List.take_append_drop]
  have htake : (pre ++ a :: b :: post).take (pre.length + 1) = pre ++ [a] := by
    rw [List.take_length_add_append]
    rfl
  have hdrop : (pre ++ a :: b :: post).drop (pre.length + 1) = b :: post := by
    simp [List.drop_append]
  obtain ⟨hpre, hrest, hcross⟩ := List.pairwise_append.mp h.sorted
  obtain ⟨ha, hrest⟩ := List.pairwise_cons.mp hrest
  obtain ⟨hb, hpost⟩ := List.pairwise_cons.mp hrest
  have hab : key a = key b := by
    refine le_antisymm (not_lt.mp fun hlt => ?_) (ha b List.mem_cons_self)
    -- then `c` would be before the cut with all its group, or behind it
    rcases le_or_gt (key a) (key c) with hca | hca
    · have hzero : (b :: post).countP (fun x => key c ≤ key x) = 0 := by
        refine List.countP_eq_zero.mpr fun x hx => ?_
        have hxb : key x ≤ key b := by
          obtain rfl | hx := List.mem_cons.mp hx
          · exact le_rfl
          · exact hb x hx
        simpa using (hxb.trans_lt hlt).trans_le hca
      have hle : (pre ++ [a]).countP (fun x => key c ≤ key x) ≤ (pre ++ [a]).length :=
        List.countP_le_length
      rw [reach, h.countP_eq _ (pre.length + 1), htake, hdrop, hzero] at hreach
      simp only [List.length_append, List.length_singleton] at hle
      omega
    · have hall : (pre ++ [a]).countP (fun x => key c < key x) = (pre ++ [a]).length := by
        refine List.countP_eq_length.mpr fun x hx => ?_
        have hxa : key a ≤ key x := by
          rcases List.mem_append.mp hx with hx | hx
          · exact hcross x hx a List.mem_cons_self
          · rw [List.mem_singleton.mp hx]
        simpa using hca.trans_le hxa
      rw [ahead, h.countP_eq _ (pre.length + 1), htake, hall] at hahead
      simp only [List.length_append, List.length_singleton] at hahead
      omega
  refine ⟨pre, a, b, post, rfl, rfl, ?_, ?_⟩
  · exact ((List.Perm.swap a b post).append_left pre).trans h.perm
  · refine List.pairwise_append.mpr ⟨hpre, ?_, fun x hx y hy => ?_⟩
    · refine List.pairwise_cons.mpr ⟨fun x hx => ?_, List.pairwise_cons.mpr ⟨fun x hx => ?_, hpost⟩⟩
      · obtain rfl | hx := List.mem_cons.mp hx
        · exact hab.le
        · exact hb x hx
      · exact ha x (List.mem_cons_of_mem _ hx)
    · have hmem : y ∈ a :: b :: post := (List.Perm.swap a b post).mem_iff.mp hy
      exact hcross x hx y hmem

/-! ### Reading to the end -/

/-- What a reader gets who reads page `i` and all pages after it, of `total`
entries. Page `i` is cut out of a list that `cut` allows. -/
inductive PagesFrom (k total : ℕ) (cut : ℕ → List α → Prop) : ℕ → List α → Prop
  | last {i : ℕ} {s : List α} (hs : cut i s) (hlast : total ≤ (i + 1) * k) :
      PagesFrom k total cut i (pageAt k i s)
  | next {i : ℕ} {s rest : List α} (hs : cut i s) (hmore : (i + 1) * k < total)
      (hrest : PagesFrom k total cut (i + 1) rest) :
      PagesFrom k total cut i (pageAt k i s ++ rest)

section Pages

variable {cut : ℕ → List α → Prop} {i j : ℕ} {out s' : List α}

/-- **All entries once.** If no page ends inside a group of equal keys, the
pages have every entry once, whichever order each of them is cut out of. -/
theorem PagesFrom.perm (hcut : ∀ i s, cut i s → Descending key rows s)
    (hk : ∀ i, ¬ Splits key rows (i * k)) (h : PagesFrom k rows.length cut i out) :
    (rows.filter (fun a => reach key rows a ≤ i * k) ++ out).Perm rows := by
  induction h with
  | @last i s hs hlast =>
      have hpage := (hcut i s hs).filter_append_pageAt (hk i) (hk (i + 1))
      rwa [filter_reach_of_le hlast] at hpage
  | @next i s rest hs hmore hrest ih =>
      rw [← List.append_assoc]
      exact (((hcut i s hs).filter_append_pageAt (hk i) (hk (i + 1))).append_right rest).trans ih

/-- A reader for whom the order changes before page `j`. -/
theorem PagesFrom.eq_of_switch (hs' : s'.length = n) (hj : j * k < n)
    (h : PagesFrom k n (fun i x => x = if i < j then s else s') i out) :
    out = if i < j then (s.take (j * k)).drop (i * k) ++ s'.drop (j * k) else s'.drop (i * k) := by
  induction h with
  | @last i x hx hlast =>
      -- the cut lies within the list, so the last page comes after it
      have hi : ¬ i < j := fun hi => by
        have hle : (i + 1) * k ≤ j * k := Nat.mul_le_mul_right k hi
        omega
      subst hx
      rw [if_neg hi, if_neg hi, pageAt, List.take_of_length_le]
      rw [List.length_drop, hs']
      rw [Nat.succ_mul] at hlast
      omega
  | @next i x rest hx hmore hrest ih =>
      subst hx
      rw [ih]
      by_cases hi : i < j
      · have hpage : pageAt k i s ++ (s.take (j * k)).drop ((i + 1) * k) =
            (s.take (j * k)).drop (i * k) := by
          have hle : (i + 1) * k ≤ j * k := Nat.mul_le_mul_right k hi
          rw [Nat.succ_mul] at hle ⊢
          have hmin : min k (j * k - i * k) = k := by omega
          rw [pageAt, ← List.drop_drop, List.drop_take]
          calc (s.drop (i * k)).take k ++ ((s.drop (i * k)).take (j * k - i * k)).drop k =
                ((s.drop (i * k)).take (j * k - i * k)).take k ++
                  ((s.drop (i * k)).take (j * k - i * k)).drop k := by rw [List.take_take, hmin]
            _ = (s.drop (i * k)).take (j * k - i * k) := List.take_append_drop ..
        rw [if_pos hi, if_pos hi]
        by_cases hnext : i + 1 < j
        · rw [if_pos hnext, ← List.append_assoc, hpage]
        · obtain rfl : i + 1 = j := by omega
          have hempty : (s.take ((i + 1) * k)).drop ((i + 1) * k) = [] :=
            List.drop_eq_nil_of_le (List.length_take_le ..)
          rw [hempty, List.append_nil] at hpage
          rw [if_neg hnext, hpage]
      · rw [if_neg hi, if_neg hi, if_neg (by omega), pageAt, Nat.succ_mul, ← List.drop_drop,
          List.take_append_drop]

end Pages

/-! ### While entries are added -/

/-- The number of entries with the same key. -/
def sharing (key : α → κ) (rows : List α) (a : α) : ℕ := rows.countP fun b => key b = key a

theorem reach_eq (rows : List α) (a : α) : reach key rows a = ahead key rows a + sharing key rows a := by
  induction rows with
  | nil => rfl
  | cons b rows ih =>
      simp only [reach, ahead, sharing, List.countP_cons, decide_eq_true_eq] at ih ⊢
      rcases lt_trichotomy (key a) (key b) with h | h | h
      · rw [if_pos h.le, if_pos h, if_neg h.ne', ih]
        omega
      · rw [if_pos h.le, if_neg h.not_lt, if_pos h.symm, ih]
        omega
      · rw [if_neg h.not_ge, if_neg h.not_gt, if_neg h.ne, ih]
        omega

/-- **Where an entry is.** An entry that shares its key with no other one is
on the page on which its place falls. -/
theorem Descending.mem_pageAt (h : Descending key rows s) (ha : a ∈ rows)
    (halone : sharing key rows a ≤ 1) {i : ℕ} :
    a ∈ pageAt k i s ↔ i * k ≤ ahead key rows a ∧ ahead key rows a < (i + 1) * k := by
  have hreach : reach key rows a = ahead key rows a + sharing key rows a := reach_eq rows a
  constructor
  · intro hmem
    have hbehind := h.lt_reach (List.mem_of_mem_take hmem)
    have hbefore : a ∈ s.take ((i + 1) * k) := by
      rw [Nat.succ_mul, List.take_add]
      exact List.mem_append_right _ hmem
    have := h.ahead_lt hbefore
    omega
  · rintro ⟨hfrom, hto⟩
    have hsplit : a ∈ s.take (i * k) ++ (pageAt k i s ++ s.drop ((i + 1) * k)) := by
      rw [pageAt, Nat.succ_mul, ← List.drop_drop, List.take_append_drop, List.take_append_drop]
      exact h.perm.mem_iff.mpr ha
    rcases List.mem_append.mp hsplit with hbefore | hmem
    · have := h.ahead_lt hbefore
      omega
    · rcases List.mem_append.mp hmem with hpage | hbehind
      · exact hpage
      · have := h.lt_reach hbehind
        omega

/-- A reader with pages of `k` entries who reads page `i` when an entry has
place `place i`. -/
def Meets (k : ℕ) (place : ℕ → ℕ) (i : ℕ) : Prop := i * k ≤ place i ∧ place i < (i + 1) * k

instance (k : ℕ) (place : ℕ → ℕ) : DecidablePred (Meets k place) := fun _ => inferInstanceAs (Decidable (_ ∧ _))

/-- How often the reader meets the entry on the pages up to page `n`. -/
def countMeetings (k : ℕ) (place : ℕ → ℕ) (n : ℕ) : ℕ := (List.range (n + 1)).countP fun i => Meets k place i

section Growing

variable {place : ℕ → ℕ}

/-- The place of the entry only grows. The page on which the reader overtakes
it has it. -/
theorem exists_meets (hgrow : ∀ i < n, place i ≤ place (i + 1)) (hlast : place n < (n + 1) * k) :
    ∃ i ≤ n, Meets k place i := by
  induction n with
  | zero => exact ⟨0, le_rfl, by rw [Nat.zero_mul]; exact Nat.zero_le _, hlast⟩
  | succ n ih =>
      by_cases hbefore : place n < (n + 1) * k
      · obtain ⟨i, hi, hmeets⟩ := ih (fun i hi => hgrow i (by omega)) hbefore
        exact ⟨i, by omega, hmeets⟩
      · have hnext := hgrow n (by omega)
        exact ⟨n + 1, le_rfl, by omega, hlast⟩

theorem countMeetings_succ (k : ℕ) (place : ℕ → ℕ) (n : ℕ) :
    countMeetings k place (n + 1) =
      countMeetings k place n + if Meets k place (n + 1) then 1 else 0 := by
  rw [countMeetings, List.range_succ, List.countP_append, ← countMeetings]
  simp [List.countP_cons]

/-- Between two meetings the place of the entry has grown. -/
theorem countMeetings_le (hgrow : ∀ i < n, place i ≤ place (i + 1)) :
    countMeetings k place n + place 0 ≤ place n + 1 := by
  -- an entry that has been met is in front of the next page
  suffices h : place 0 ≤ place n ∧ (0 < countMeetings k place n →
      countMeetings k place n + place 0 ≤ place n + 1 ∧
        countMeetings k place n + place 0 ≤ (n + 1) * k) by omega
  induction n with
  | zero =>
      have hone : countMeetings k place 0 = if Meets k place 0 then 1 else 0 := by
        simp [countMeetings, List.countP_cons]
      rw [hone]
      split
      · rename_i hmeets
        have := hmeets.2
        omega
      · omega
  | succ n ih =>
      obtain ⟨hstart, hmet⟩ := ih fun i hi => hgrow i (by omega)
      have hnext := hgrow n (by omega)
      have hmul : (n + 1) * k ≤ (n + 1 + 1) * k := Nat.mul_le_mul_right k (by omega)
      rw [countMeetings_succ]
      split
      · rename_i hmeets
        have := hmeets.1
        have := hmeets.2
        omega
      · omega

end Growing

/-- Both numbers depend on the key only. -/
theorem ahead_congr {a' : α} (hkey : key a = key a') (rows : List α) :
    ahead key rows a = ahead key rows a' := by
  simp only [ahead, hkey]

theorem sharing_congr {a' : α} (hkey : key a = key a') (rows : List α) :
    sharing key rows a = sharing key rows a' := by
  simp only [sharing, hkey]

theorem ahead_lt_length (ha : a ∈ rows) : ahead key rows a < rows.length := by
  refine Nat.lt_of_le_of_ne List.countP_le_length fun heq => ?_
  have hself : key a < key a := by simpa using List.countP_eq_length.mp heq a ha
  exact lt_irrefl _ hself

section More

variable {rows' : List α} (hmore : (rows.map key).Subperm (rows'.map key)) (a : α)

include hmore

theorem sharing_mono : sharing key rows a ≤ sharing key rows' a := by
  have hshare : ∀ l : List α, sharing key l a = (l.map key).countP fun c => c = key a := fun l => by
    rw [List.countP_map]
    rfl
  rw [hshare, hshare]
  exact hmore.countP_le _

theorem ahead_mono : ahead key rows a ≤ ahead key rows' a := by
  have hahead : ∀ l : List α, ahead key l a = (l.map key).countP fun c => key a < c := fun l => by
    rw [List.countP_map]
    rfl
  rw [hahead, hahead]
  exact hmore.countP_le _

/-- There are at most as many new entries ahead as there are new entries. -/
theorem ahead_add_length_le : ahead key rows' a + rows.length ≤ ahead key rows a + rows'.length := by
  have hrest : ∀ l : List α, l.length = ahead key l a + (l.map key).countP fun c => c ≤ key a := by
    intro l
    have hsplit := List.length_eq_countP_add_countP (fun b => decide (key a < key b)) (l := l)
    rw [List.countP_map]
    simpa [ahead, Function.comp_def] using hsplit
  have hbehind := hmore.countP_le fun c => c ≤ key a
  have := hrest rows
  have := hrest rows'
  omega

end More

end BackupService.Lib
