import BackupService.Handlers
import BackupService.Lib.Path

/-!
Which paths can be backed up.

`validate_source_path` looks for two dots next to each other, anywhere in
the path. This is more than the component `..`: a path that is accepted
stays below its base (`accepted_stays_below`), but so would some of the
paths that are refused (`absolute_accepted_iff`).
-/

namespace BackupService

open Lib

theorem validateSourcePath_ok {path : String} : validateSourcePath path = .ok () ↔
    path.toList.head? = some '/' ∧ ¬ parent <:+: path.toList := by
  unfold validateSourcePath
  by_cases hempty : path.toList = []
  · rw [if_pos hempty, hempty]
    exact iff_of_false nofun fun h => nomatch h.1
  · rw [if_neg hempty]
    by_cases habsolute : path.toList.head? = some '/'
    · rw [if_neg (not_not.mpr habsolute)]
      split
      · next h => exact iff_of_false nofun fun hok => hok.2 h
      · next h => exact iff_of_true rfl ⟨habsolute, h⟩
    · rw [if_pos habsolute]
      exact iff_of_false nofun fun h => habsolute h.1

theorem validateSourcePath_traversal {path : String} (habsolute : path.toList.head? = some '/')
    (h : parent <:+: path.toList) :
    validateSourcePath path = .error (.validation "path traversal not allowed") := by
  have hne : path.toList ≠ [] := by
    intro hempty
    rw [hempty] at habsolute
    cases habsolute
  rw [validateSourcePath, if_neg hne, if_neg (not_not.mpr habsolute)]
  exact if_pos h

/-- **Accepted paths stay below their base.** They are absolute, none of
their components leads up, and on the way no name is taken away. -/
theorem accepted_stays_below (path : String) (h : validateSourcePath path = .ok ()) :
    path.toList.head? = some '/' ∧ parent ∉ components path.toList ∧ ∀ base : List Name,
      (∀ cs c, cs ++ [c] <+: components path.toList →
        resolve base cs <+: resolve base (cs ++ [c])) ∧
      ∀ cs, cs <+: components path.toList → base <+: resolve base cs := by
  obtain ⟨habsolute, hdots⟩ := validateSourcePath_ok.mp h
  have hparent := parent_not_mem_components hdots
  refine ⟨habsolute, hparent, fun base => ⟨fun cs c hcs => ?_, fun cs hcs => ?_⟩⟩
  · rw [resolve_concat]
    refine prefix_enter fun hc => hparent ?_
    exact hc ▸ hcs.subset (List.mem_append_right _ List.mem_cons_self)
  · exact prefix_resolve fun hmem => hparent (hcs.subset hmem)

theorem accepted_stays_below_home :
    "/home/user".toList.head? = some '/' ∧ parent ∉ components "/home/user".toList ∧
      ∀ base : List Name,
        (∀ cs c, cs ++ [c] <+: components "/home/user".toList →
          resolve base cs <+: resolve base (cs ++ [c])) ∧
        ∀ cs, cs <+: components "/home/user".toList → base <+: resolve base cs :=
  accepted_stays_below "/home/user" (validateSourcePath_ok.mpr ⟨by decide, by decide⟩)

/-- **Which absolute paths are accepted**: those with no two dots next to
each other in any component. The others are refused as traversal. -/
theorem absolute_accepted_iff (path : String) (habsolute : path.toList.head? = some '/') :
    (validateSourcePath path = .ok () ↔ ∀ c ∈ components path.toList, ¬ parent <:+: c) ∧
    (validateSourcePath path = .error (.validation "path traversal not allowed") ↔
      ∃ c ∈ components path.toList, parent <:+: c) := by
  have hok : validateSourcePath path = .ok () ↔ ¬ parent <:+: path.toList := by
    rw [validateSourcePath_ok, and_iff_right habsolute]
  have hdots : parent <:+: path.toList ↔ ∃ c ∈ components path.toList, parent <:+: c :=
    parent_infix_iff
  constructor
  · rw [hok, hdots]
    push Not
    rfl
  · rw [← hdots]
    refine ⟨fun herror => ?_, validateSourcePath_traversal habsolute⟩
    by_contra hnone
    rw [hok.mpr hnone] at herror
    cases herror

theorem absolute_accepted_iff_hidden :
    (validateSourcePath "/home/.cache" = .ok () ↔
      ∀ c ∈ components "/home/.cache".toList, ¬ parent <:+: c) ∧
    (validateSourcePath "/home/.cache" = .error (.validation "path traversal not allowed") ↔
      ∃ c ∈ components "/home/.cache".toList, parent <:+: c) :=
  absolute_accepted_iff "/home/.cache" (by decide)

/-- A file name with two dots in it. -/
theorem not_only_traversal_refused :
    ¬ ∀ path : String, path.toList.head? = some '/' → parent ∉ components path.toList →
      validateSourcePath path = .ok () := by
  intro h
  have hok := validateSourcePath_ok.mp (h "/data/v1..v2" (by decide) (by decide))
  exact hok.2 (by decide)

end BackupService
