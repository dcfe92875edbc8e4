import Mathlib.Algebra.Order.Group.Defs
import Mathlib.Algebra.Order.Monoid.Defs
import Mathlib.Algebra.Group.Basic
import Mathlib.Data.List.Chain
import Mathlib.Data.List.TakeDrop
import Mathlib.Tactic.Common

/-!
Cutting a list of timed items into segments.

The first item opens a segment, and every later one either joins the
segment that is open or opens the next one, which depends on the item that
opened it. This is what a counter does that is reset once its window has
run out.

The rest of the module counts. Out of each segment at most `M` items are
picked, and the question is how many of them an interval can hold: for
segments whose first items lie `W` apart and intervals of any length
(`countBetween_le_of_spaced`), and exactly for intervals of the length `W`,
when no segment is longer than `W` (`forall_countBetween_le_iff`).
-/

namespace BackupService.Lib

variable {α : Type}

/-- A segment: the item that opened it, and those that joined. -/
structure Segment (α : Type) where
  first : α
  rest : List α
  deriving DecidableEq, Repr

def Segment.toList (s : Segment α) : List α := s.first :: s.rest

@[simp] theorem Segment.toList_mk (first : α) (rest : List α) :
    (Segment.mk first rest).toList = first :: rest := rfl

theorem Segment.first_mem (s : Segment α) : s.first ∈ s.toList := List.mem_cons_self

/-- The first of the entries of a list that have a property. -/
theorem exists_first {p : α → Prop} {l : List α} {a : α} (ha : a ∈ l) (hp : p a) :
    ∃ pre b post, l = pre ++ b :: post ∧ p b ∧ ∀ x ∈ pre, ¬ p x := by
  classical
  have hsome : (l.find? fun x => p x).isSome := List.find?_isSome.mpr ⟨a, ha, by simpa using hp⟩
  obtain ⟨b, hb⟩ := Option.isSome_iff_exists.mp hsome
  obtain ⟨hpb, pre, post, rfl, hpre⟩ := List.find?_eq_some_iff_append.mp hb
  exact ⟨pre, b, post, rfl, by simpa using hpb, fun x hx => by simpa using hpre x hx⟩

section Cutting

variable (opens : α → α → Bool)

/-- The segments of a list, when `first` has opened a segment that `rest`
has joined. -/
def segmentsFrom (first : α) (rest : List α) : List α → List (Segment α)
  | [] => [⟨first, rest⟩]
  | y :: ys =>
      if opens first y then ⟨first, rest⟩ :: segmentsFrom y [] ys
      else segmentsFrom first (rest ++ [y]) ys

/-- The segments of a list. -/
def segments : List α → List (Segment α)
  | [] => []
  | x :: xs => segmentsFrom opens x [] xs

theorem segmentsFrom_eq_cons (first : α) (rest ys : List α) :
    ∃ rest' segs, segmentsFrom opens first rest ys = ⟨first, rest'⟩ :: segs := by
  induction ys generalizing rest with
  | nil => exact ⟨rest, [], rfl⟩
  | cons y ys ih =>
      rw [segmentsFrom]
      split
      · exact ⟨rest, _, rfl⟩
      · exact ih _

theorem flatMap_segmentsFrom (first : α) (rest ys : List α) :
    (segmentsFrom opens first rest ys).flatMap Segment.toList = first :: (rest ++ ys) := by
  induction ys generalizing first rest with
  | nil => simp [segmentsFrom]
  | cons y ys ih =>
      rw [segmentsFrom]
      split
      · rw [List.flatMap_cons, ih]
        simp
      · rw [ih]
        simp

variable {opens}

/-- Nothing is lost, and nothing changes places. -/
theorem flatMap_segments (xs : List α) : (segments opens xs).flatMap Segment.toList = xs := by
  cases xs with
  | nil => rfl
  | cons x xs => simpa [segments] using flatMap_segmentsFrom opens x [] xs

theorem joined_of_mem_segmentsFrom {first : α} {rest ys : List α}
    (hrest : ∀ y ∈ rest, opens first y = false) :
    ∀ s ∈ segmentsFrom opens first rest ys, ∀ y ∈ s.rest, opens s.first y = false := by
  induction ys generalizing first rest with
  | nil => simpa [segmentsFrom] using hrest
  | cons y ys ih =>
      rw [segmentsFrom]
      split
      · refine List.forall_mem_cons.mpr ⟨hrest, ih ?_⟩
        simp
      · rename_i h
        refine ih fun z hz => ?_
        rcases List.mem_append.mp hz with hz | hz
        · exact hrest z hz
        · rw [List.mem_singleton.mp hz]
          simpa using h

/-- What has joined a segment would not have opened the next one. -/
theorem joined_of_mem_segments {xs : List α} :
    ∀ s ∈ segments opens xs, ∀ y ∈ s.rest, opens s.first y = false := by
  cases xs with
  | nil => simp [segments]
  | cons x xs => exact joined_of_mem_segmentsFrom (by simp)

theorem isChain_segmentsFrom (first : α) (rest ys : List α) :
    (segmentsFrom opens first rest ys).IsChain fun s s' => opens s.first s'.first = true := by
  induction ys generalizing first rest with
  | nil => exact .singleton _
  | cons y ys ih =>
      rw [segmentsFrom]
      split
      · obtain ⟨rest', segs, heq⟩ := segmentsFrom_eq_cons opens y [] ys
        have hchain := ih y []
        rw [heq] at hchain ⊢
        exact .cons_cons ‹_› hchain
      · exact ih _ _

/-- The first item of a segment has opened it. -/
theorem isChain_segments (xs : List α) :
    (segments opens xs).IsChain fun s s' => opens s.first s'.first = true := by
  cases xs with
  | nil => exact .nil
  | cons x xs => exact isChain_segmentsFrom x [] xs

end Cutting

/-! ### Counting -/

section Counting

variable {T : Type} [LinearOrder T] (time : α → T)

/-- How many items fall into the half-open interval from `a` to `b`. -/
def countBetween (a b : T) (l : List α) : ℕ :=
  l.countP fun x => a ≤ time x ∧ time x < b

variable {time}

@[simp] theorem countBetween_nil (a b : T) : countBetween time a b [] = 0 := rfl

@[simp] theorem countBetween_append (a b : T) (l l' : List α) :
    countBetween time a b (l ++ l') = countBetween time a b l + countBetween time a b l' :=
  List.countP_append

theorem countBetween_le_length (time : α → T) (a b : T) (l : List α) :
    countBetween time a b l ≤ l.length :=
  List.countP_le_length

theorem countBetween_mono {l l' : List α} (h : l.Sublist l') (a b : T) :
    countBetween time a b l ≤ countBetween time a b l' :=
  h.countP_le

theorem countBetween_eq_zero_of_before {a b : T} {l : List α} (h : ∀ x ∈ l, time x < a) :
    countBetween time a b l = 0 := by
  refine List.countP_eq_zero.mpr fun x hx => ?_
  simpa using fun ha => absurd ha (not_le.mpr (h x hx))

theorem countBetween_eq_zero_of_after {a b : T} {l : List α} (h : ∀ x ∈ l, b ≤ time x) :
    countBetween time a b l = 0 := by
  refine List.countP_eq_zero.mpr fun x hx => ?_
  simpa using fun _ => h x hx

theorem countBetween_eq_length {a b : T} {l : List α} (h : ∀ x ∈ l, a ≤ time x ∧ time x < b) :
    countBetween time a b l = l.length :=
  List.countP_eq_length.mpr fun x hx => by simpa using h x hx

theorem toList_sublist {s : Segment α} {segs : List (Segment α)} (h : s ∈ segs) :
    s.toList.Sublist (segs.flatMap Segment.toList) := by
  rw [List.flatMap_def]
  exact List.sublist_flatten_of_mem (List.mem_map_of_mem h)

/-- Nothing comes before the item that opened the first segment. -/
theorem first_le_of_mem {s : Segment α} {segs : List (Segment α)}
    (hord : ((s :: segs).flatMap Segment.toList).Pairwise fun x y => time x ≤ time y) :
    ∀ x ∈ (s :: segs).flatMap Segment.toList, time s.first ≤ time x := by
  intro x hx
  rw [List.flatMap_cons] at hord hx
  rcases List.mem_cons.mp hx with rfl | hx
  · exact le_rfl
  · exact List.rel_of_pairwise_cons hord hx

end Counting

section Bound

variable {T : Type} [AddCommGroup T] [LinearOrder T] [IsOrderedAddMonoid T] {time : α → T}
  {W a b : T} {M : ℕ} {pick : Segment α → List α} {segs : List (Segment α)}

/-- An interval that ends within `N` widths of the first segment meets at
most `N` segments. -/
theorem countBetween_le_of_near {N : ℕ}
    (hord : (segs.flatMap Segment.toList).Pairwise fun x y => time x ≤ time y)
    (hspaced : segs.IsChain fun s s' => time s.first + W ≤ time s'.first)
    (hpick : ∀ s ∈ segs, (pick s).Sublist s.toList ∧ (pick s).length ≤ M)
    (hb : ∀ s ∈ segs.head?, b ≤ time s.first + N • W) :
    countBetween time a b (segs.flatMap pick) ≤ N * M := by
  induction segs generalizing N with
  | nil => simp
  | cons s segs ih =>
      have hs : b ≤ time s.first + N • W := hb s (by simp)
      cases N with
      | zero =>
          rw [zero_nsmul, add_zero] at hs
          have hafter : ∀ x ∈ (s :: segs).flatMap pick, b ≤ time x := by
            intro x hx
            obtain ⟨s', hs', hx⟩ := List.mem_flatMap.mp hx
            have hx' : x ∈ (s :: segs).flatMap Segment.toList :=
              List.mem_flatMap.mpr ⟨s', hs', (hpick s' hs').1.subset hx⟩
            exact hs.trans (first_le_of_mem hord x hx')
          rw [countBetween_eq_zero_of_after hafter]
          exact Nat.zero_le _
      | succ N =>
          obtain ⟨hnext, hspaced⟩ := List.isChain_cons.mp hspaced
          rw [List.flatMap_cons, List.pairwise_append] at hord
          obtain ⟨⟨_, hlen⟩, hpick⟩ := List.forall_mem_cons.mp hpick
          have hrest := ih (N := N) hord.2.1 hspaced hpick fun s' hs' => by
            calc b ≤ time s.first + (N + 1) • W := hs
              _ = time s.first + W + N • W := by rw [succ_nsmul', add_assoc]
              _ ≤ time s'.first + N • W := by
                exact add_le_add_left (hnext s' hs') _
          rw [List.flatMap_cons, countBetween_append, Nat.succ_mul]
          have := (countBetween_le_length time a b (pick s)).trans hlen
          omega

/-- **Spaced segments.** Out of segments that start at least `W` apart, an
interval of at most `N` widths holds the picked items of at most `N + 1`:
those that start in it, and the one that is open when it begins. -/
theorem countBetween_le_of_spaced {N : ℕ}
    (hord : (segs.flatMap Segment.toList).Pairwise fun x y => time x ≤ time y)
    (hspaced : segs.IsChain fun s s' => time s.first + W ≤ time s'.first)
    (hpick : ∀ s ∈ segs, (pick s).Sublist s.toList ∧ (pick s).length ≤ M)
    (hb : b ≤ a + N • W) :
    countBetween time a b (segs.flatMap pick) ≤ (N + 1) * M := by
  induction segs with
  | nil => simp
  | cons s segs ih =>
      obtain ⟨hnext, hspaced'⟩ := List.isChain_cons.mp hspaced
      have hord' := hord
      rw [List.flatMap_cons, List.pairwise_append] at hord'
      obtain ⟨⟨hsub, hlen⟩, hpick'⟩ := List.forall_mem_cons.mp hpick
      by_cases hstart : a ≤ time s.first
      · have hnear : b ≤ time s.first + N • W := hb.trans (add_le_add_left hstart _)
        have := countBetween_le_of_near (a := a) (N := N) hord hspaced hpick (by simpa using hnear)
        rw [Nat.succ_mul]
        omega
      rw [List.flatMap_cons, countBetween_append]
      by_cases hlater : ∃ s' ∈ segs.head?, time s'.first < a
      · -- the interval begins in a later segment
        obtain ⟨s', hs', hlt⟩ := hlater
        have hmem : s' ∈ segs := List.mem_of_mem_head? hs'
        have hbefore : ∀ x ∈ pick s, time x < a := fun x hx =>
          (hord'.2.2 x (hsub.subset hx) s'.first
            (List.mem_flatMap.mpr ⟨s', hmem, s'.first_mem⟩)).trans_lt hlt
        rw [countBetween_eq_zero_of_before hbefore, Nat.zero_add]
        exact ih hord'.2.1 hspaced' hpick'
      · have hnear := countBetween_le_of_near (a := a) (b := b) (N := N) hord'.2.1 hspaced' hpick'
          fun s' hs' => by
            have : a ≤ time s'.first := not_lt.mp fun h => hlater ⟨s', hs', h⟩
            exact hb.trans (add_le_add_left this _)
        have := (countBetween_le_length time a b (pick s)).trans hlen
        rw [Nat.succ_mul]
        omega

end Bound

/-! ### Intervals as long as a segment -/

/-- Each item comes at least `W` after the one `M` places before it. -/
def Spaced {T : Type} [Add T] [LE T] (time : α → T) (W : T) (M : ℕ) (l : List α) : Prop :=
  ∀ i, (h : i + M < l.length) → time l[i] + W ≤ time l[i + M]

section Sliding

variable {T : Type} [AddCommGroup T] [LinearOrder T] [IsOrderedAddMonoid T] {time : α → T}
  {W : T} {M : ℕ}

/-- In an ordered list, no interval of length `W` holds more than `M` items
exactly when the list is spaced. -/
theorem forall_countBetween_le_iff_spaced {l : List α}
    (hord : l.Pairwise fun x y => time x ≤ time y) :
    (∀ a, countBetween time a (a + W) l ≤ M) ↔ Spaced time W M l := by
  constructor
  · intro hcount i hi
    by_contra hlt
    rw [not_le] at hlt
    -- the items from `i` to `i + M` all fall into the interval that starts with the first of them
    let block := (l.drop i).take (M + 1)
    have hlen : block.length = M + 1 := by
      simp only [block, List.length_take, List.length_drop]
      omega
    have hsub : block.Sublist l := (List.take_sublist _ _).trans (List.drop_sublist _ _)
    have hin : ∀ x ∈ block, time l[i] ≤ time x ∧ time x < time l[i] + W := by
      intro x hx
      obtain ⟨j, hj, rfl⟩ := List.getElem_of_mem hx
      have hj' : j < M + 1 := hlen ▸ hj
      rw [show block[j] = l[i + j] by simp [block]]
      have hle : ∀ m n, (hm : m < l.length) → (hn : n < l.length) → m ≤ n → time l[m] ≤ time l[n] := by
        intro m n hm hn hmn
        rcases Nat.lt_or_eq_of_le hmn with hmn | rfl
        · exact List.pairwise_iff_getElem.mp hord m n hm hn hmn
        · exact le_rfl
      exact ⟨hle i (i + j) (by omega) (by omega) (by omega),
        (hle (i + j) (i + M) (by omega) hi (by omega)).trans_lt hlt⟩
    have := (countBetween_mono hsub (time l[i]) (time l[i] + W)).trans (hcount _)
    rw [countBetween_eq_length hin, hlen] at this
    omega
  · intro hspaced a
    induction l with
    | nil => simp
    | cons x xs ih =>
        by_cases hx : time x < a
        · have hxs : Spaced time W M xs := fun i hi => by
            have := hspaced (i + 1) (by simp; omega)
            simpa [Nat.add_right_comm i 1 M] using this
          have := ih hord.of_cons hxs
          rwa [← List.singleton_append, countBetween_append,
            countBetween_eq_zero_of_before (by simpa using hx), Nat.zero_add]
        · -- from the first item of the interval on, what comes `M` places later is outside
          have hafter : ∀ y ∈ (x :: xs).drop M, a + W ≤ time y := by
            intro y hy
            obtain ⟨j, hj, rfl⟩ := List.getElem_of_mem hy
            have hj' : j + M < (x :: xs).length := by
              rw [List.length_drop] at hj
              omega
            have hxj : time x ≤ time (x :: xs)[j] := by
              cases j with
              | zero => exact le_rfl
              | succ j =>
                  exact List.rel_of_pairwise_cons hord (List.getElem_mem _)
            calc a + W ≤ time x + W := add_le_add_left (not_lt.mp hx) _
              _ ≤ time (x :: xs)[j] + W := add_le_add_left hxj _
              _ ≤ time (x :: xs)[j + M] := hspaced j hj'
              _ = time ((x :: xs).drop M)[j] := by simp [Nat.add_comm j M]
          rw [← List.take_append_drop M (x :: xs), countBetween_append,
            countBetween_eq_zero_of_after hafter, Nat.add_zero]
          exact (countBetween_le_length _ _ _ _).trans (List.length_take_le _ _)

/-- **Short segments.** When the segments start at least `W` apart and none
of them is longer, an interval of length `W` meets at most two, and what it
can hold of the first `M` items of each is decided by each two that are
next to each other. -/
theorem forall_countBetween_le_iff {segs : List (Segment α)}
    (hord : (segs.flatMap Segment.toList).Pairwise fun x y => time x ≤ time y)
    (hspaced : segs.IsChain fun s s' => time s.first + W ≤ time s'.first)
    (hshort : ∀ s ∈ segs, ∀ x ∈ s.toList, time x < time s.first + W) :
    (∀ a, countBetween time a (a + W) (segs.flatMap fun s => s.toList.take M) ≤ M) ↔
      segs.IsChain fun s s' => Spaced time W M (s.toList.take M ++ s'.toList.take M) := by
  induction segs with
  | nil => simp
  | cons s segs ih =>
      obtain ⟨hnext, hspaced'⟩ := List.isChain_cons.mp hspaced
      obtain ⟨hs, hshort'⟩ := List.forall_mem_cons.mp hshort
      rw [List.flatMap_cons, List.pairwise_append] at hord
      have ih := ih hord.2.1 hspaced' hshort'
      have hpair : ∀ s' ∈ segs.head?,
          (s.toList.take M ++ s'.toList.take M).Pairwise fun x y => time x ≤ time y := by
        intro s' hs'
        have hsub := toList_sublist (List.mem_of_mem_head? hs')
        rw [List.pairwise_append]
        refine ⟨hord.1.sublist (List.take_sublist _ _),
          hord.2.1.sublist ((List.take_sublist _ _).trans hsub), fun x hx y hy => ?_⟩
        exact hord.2.2 x (List.mem_of_mem_take hx) y (hsub.subset (List.mem_of_mem_take hy))
      rw [List.isChain_cons, ← ih]
      simp only [List.flatMap_cons, countBetween_append]
      constructor
      · intro hcount
        refine ⟨fun s' hs' => ?_, fun a => (Nat.le_add_left _ _).trans (hcount a)⟩
        rw [← forall_countBetween_le_iff_spaced (hpair s' hs')]
        intro a
        -- What the two segments contribute is part of what all of them do.
        obtain ⟨segs', rfl⟩ : ∃ segs', segs = s' :: segs' := List.head?_eq_some_iff.mp hs'
        have := hcount a
        rw [List.flatMap_cons, countBetween_append] at this
        rw [countBetween_append]
        omega
      · rintro ⟨hspacedPair, hrest⟩ a
        by_cases ha : time s.first + W ≤ a
        · -- the interval begins after the segment
          have hbefore : ∀ x ∈ s.toList.take M, time x < a := fun x hx =>
            (hs x (List.mem_of_mem_take hx)).trans_le ha
          rw [countBetween_eq_zero_of_before hbefore, Nat.zero_add]
          exact hrest a
        rw [not_le] at ha
        cases segs with
        | nil =>
            have := countBetween_le_length time a (a + W) (s.toList.take M)
            simpa using this.trans (List.length_take_le _ _)
        | cons s' segs' =>
            have hs' : s' ∈ (s' :: segs').head? := rfl
            -- The interval begins before `s` can be over, and ends before the second one after `s`.
            have hafter : ∀ x ∈ segs'.flatMap fun s => s.toList.take M, a + W ≤ time x := by
              intro x hx
              obtain ⟨t, ht, hxt⟩ := List.mem_flatMap.mp hx
              have hfirst : time s'.first + W ≤ time x := by
                cases segs' with
                | nil => simp at ht
                | cons s'' segs'' =>
                    have hord'' := hord.2.1
                    rw [List.flatMap_cons, List.pairwise_append] at hord''
                    have hle : time s''.first ≤ time x := first_le_of_mem hord''.2.1 x
                      (List.mem_flatMap.mpr ⟨t, ht, List.mem_of_mem_take hxt⟩)
                    exact ((List.isChain_cons.mp hspaced').1 s'' rfl).trans hle
              calc a + W ≤ time s'.first + W := add_le_add_left (ha.le.trans (hnext s' hs')) _
                _ ≤ time x := hfirst
            have hpairCount := (forall_countBetween_le_iff_spaced (hpair s' hs')).mpr
              (hspacedPair s' hs') a
            rw [countBetween_append] at hpairCount
            rw [List.flatMap_cons, countBetween_append, countBetween_eq_zero_of_after hafter]
            omega

end Sliding

end BackupService.Lib
