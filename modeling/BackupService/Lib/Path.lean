import Mathlib.Data.List.Infix

/-!
Paths as text, and what they name.

A path is cut into components at every `/`. Lexical resolution reads the
components from left to right on top of a base directory: an empty
component and `.` stay where they are, `..` goes up, and everything else
is the name of an entry. It never looks at a file system, so it is a
function of the text.
-/

namespace BackupService.Lib

/-! ### Cutting at a separator -/

section Split

variable {α : Type} {a : α} {w x y l c : List α} {ls : List (List α)}

/-- A word without the separator lies on one side of it. -/
theorem infix_of_infix_append_cons (ha : a ∉ w) (h : w <:+: x ++ a :: y) : w <:+: x ∨ w <:+: y := by
  obtain ⟨s, t, h⟩ := h
  rcases List.append_eq_append_iff.mp h with ⟨m, rfl, -⟩ | ⟨m, hm, hy⟩
  · exact .inl ⟨s, m, rfl⟩
  · cases m with
    | nil =>
        rw [List.append_nil] at hm
        exact .inl (hm ▸ (List.suffix_append s w).isInfix)
    | cons b m =>
        obtain ⟨rfl, rfl⟩ := List.cons.inj hy
        rcases List.append_eq_append_iff.mp hm with ⟨k, -, hw⟩ | ⟨k, -, hk⟩
        · exact absurd (hw ▸ List.mem_append_right _ List.mem_cons_self) ha
        · cases k with
          | nil => exact absurd (hk ▸ List.mem_cons_self : a ∈ [] ++ w) ha
          | cons b' k =>
              obtain ⟨rfl, rfl⟩ := List.cons.inj hk
              exact .inr ⟨k, t, rfl⟩

theorem infix_intercalate (h : c ∈ ls) : c <:+: [a].intercalate ls := by
  induction ls with
  | nil => cases h
  | cons l ls ih =>
      cases ls with
      | nil =>
          obtain rfl := List.mem_singleton.mp h
          simp
      | cons l' ls =>
          rw [List.intercalate_cons_cons]
          obtain rfl | h := List.mem_cons.mp h
          · rw [List.append_assoc]
            exact (List.prefix_append _ _).isInfix
          · exact (ih h).trans (List.suffix_append _ _).isInfix

theorem exists_of_infix_intercalate (ha : a ∉ w) (hls : ls ≠ []) (h : w <:+: [a].intercalate ls) :
    ∃ c ∈ ls, w <:+: c := by
  induction ls with
  | nil => exact absurd rfl hls
  | cons l ls ih =>
      cases ls with
      | nil => exact ⟨l, List.mem_cons_self, by simpa using h⟩
      | cons l' ls =>
          rw [List.intercalate_cons_cons, List.append_assoc, List.singleton_append] at h
          rcases infix_of_infix_append_cons ha h with h | h
          · exact ⟨l, List.mem_cons_self, h⟩
          · obtain ⟨c, hc, hwc⟩ := ih (List.cons_ne_nil _ _) h
            exact ⟨c, List.mem_cons_of_mem _ hc, hwc⟩

/-- A word without the separator occurs in the text exactly if it occurs in
one of the pieces. -/
theorem infix_iff_exists_mem_splitOn [BEq α] [LawfulBEq α] (ha : a ∉ w) :
    w <:+: l ↔ ∃ c ∈ l.splitOn a, w <:+: c := by
  have hl : [a].intercalate (l.splitOn a) = l := List.intercalate_splitOn a
  constructor
  · intro h
    rw [← hl] at h
    exact exists_of_infix_intercalate ha (List.splitOn_ne_nil a l) h
  · rintro ⟨c, hc, h⟩
    exact hl ▸ h.trans (infix_intercalate hc)

end Split

/-! ### Lexical resolution -/

/-- The name of an entry, or what stands in its place. -/
abbrev Name := List Char

/-- The component that goes up. -/
def parent : Name := ['.', '.']

/-- The components of a path, between `/` characters. -/
def components (path : List Char) : List Name := path.splitOn '/'

/-- Where a component leads. -/
def enter (dir : List Name) (c : Name) : List Name :=
  if c = [] ∨ c = ['.'] then dir
  else if c = parent then dir.dropLast
  else dir ++ [c]

/-- Where the components lead, one after the other. -/
def resolve (base : List Name) (cs : List Name) : List Name := cs.foldl enter base

section Resolve

variable {base dir : List Name} {c : Name} {cs : List Name}

theorem resolve_concat : resolve base (cs ++ [c]) = enter (resolve base cs) c :=
  List.foldl_concat ..

/-- Only `..` leads out of a directory. -/
theorem prefix_enter (hc : c ≠ parent) : dir <+: enter dir c := by
  unfold enter
  by_cases hstay : c = [] ∨ c = ['.']
  · rw [if_pos hstay]
  · rw [if_neg hstay, if_neg hc]
    exact List.prefix_append _ _

/-- A path without `..` stays below its base. -/
theorem prefix_resolve (hcs : parent ∉ cs) : base <+: resolve base cs := by
  induction cs using List.reverseRecOn with
  | nil => exact List.prefix_rfl
  | append_singleton cs c ih =>
      rw [List.mem_append, not_or] at hcs
      rw [resolve_concat]
      exact (ih hcs.1).trans (prefix_enter fun hc => hcs.2 (hc ▸ List.mem_singleton_self _))

end Resolve

/-- Two dots next to each other stand within one component. -/
theorem parent_infix_iff {path : List Char} :
    parent <:+: path ↔ ∃ c ∈ components path, parent <:+: c :=
  infix_iff_exists_mem_splitOn (by decide)

theorem parent_not_mem_components {path : List Char} (h : ¬ parent <:+: path) :
    parent ∉ components path := fun hmem =>
  h (parent_infix_iff.mpr ⟨parent, hmem, List.infix_rfl⟩)

end BackupService.Lib
