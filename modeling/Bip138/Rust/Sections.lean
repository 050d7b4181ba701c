/-
# Paths along steps with choices

The paths along some steps, each of which leaves a choice, are the `List.sections` of the
steps. When at most one step has more than one child, the steps are told by their paths and
by the place of the choice (`eq_of_sections_eq`). The place has to be given when the choice
is between equal children, since then nothing in the paths tells it.
-/

import Mathlib.Data.List.Sections

namespace Bip138.Rust

section Sections

variable {α : Type} {steps other : List (List α)}

/-- Along single steps there is one path. -/
theorem sections_map_singleton (path : List α) :
    (path.map fun child => [child]).sections = [path] := by
  induction path with
  | nil => rfl
  | cons child path ih => simp [ih]

theorem length_sections_pos (hne : ∀ step ∈ steps, step ≠ []) : 0 < steps.sections.length := by
  induction steps with
  | nil => exact Nat.one_pos
  | cons step steps ih =>
      obtain ⟨hstep, hsteps⟩ := List.forall_mem_cons.mp hne
      obtain ⟨path, hpath⟩ := List.exists_mem_of_length_pos (ih hsteps)
      obtain ⟨child, hchild⟩ := List.exists_mem_of_ne_nil step hstep
      apply List.length_pos_of_mem (a := child :: path)
      rw [List.mem_sections, List.forall₂_cons]
      exact ⟨hchild, List.mem_sections.mp hpath⟩

/-- Steps without a choice are one path. -/
theorem exists_path_of_no_choice (hne : ∀ step ∈ steps, step ≠ [])
    (hnone : ∀ step ∈ steps, ¬ 1 < step.length) :
    ∃ path : List α, steps = path.map fun child => [child] := by
  induction steps with
  | nil => exact ⟨[], rfl⟩
  | cons step steps ih =>
      obtain ⟨hstep, hsteps⟩ := List.forall_mem_cons.mp hne
      obtain ⟨hshort, hnone⟩ := List.forall_mem_cons.mp hnone
      obtain ⟨path, rfl⟩ := ih hsteps hnone
      rcases step with _ | ⟨child, _ | ⟨second, rest⟩⟩
      · exact absurd rfl hstep
      · exact ⟨child :: path, rfl⟩
      · simp at hshort

/-- What follows the one choice is one path. -/
theorem exists_path_of_choice {step : List α} (hne : ∀ step ∈ steps, step ≠ [])
    (hone : ((step :: steps).filter (1 < ·.length)).length ≤ 1) (hchoice : 1 < step.length) :
    ∃ path : List α, steps = path.map fun child => [child] := by
  rw [List.filter_cons_of_pos (by simpa using hchoice), List.length_cons] at hone
  have hnone : steps.filter (1 < ·.length) = [] := List.length_eq_zero_iff.mp (by omega)
  refine exists_path_of_no_choice hne fun step hstep hlong => ?_
  exact List.filter_eq_nil_iff.mp hnone step hstep (decide_eq_true hlong)

theorem sections_singleton_cons (child : α) (steps : List (List α)) :
    ([child] :: steps).sections = steps.sections.map fun path => child :: path := by
  rw [List.sections, List.map_eq_flatMap]
  rfl

theorem sections_cons_of_path (step path : List α) :
    (step :: path.map fun child => [child]).sections = step.map fun child => child :: path := by
  rw [List.sections, sections_map_singleton, List.flatMap_singleton]

theorem eq_of_map_cons_eq {first second path path' : List α} (hne : first ≠ [])
    (hmap : (first.map fun child => child :: path) = second.map fun child => child :: path') :
    first = second ∧ path = path' := by
  have hheads := congrArg (List.map List.head?) hmap
  rw [List.map_map, List.map_map] at hheads
  have hfirst : first = second :=
    List.map_injective_iff.mpr (fun _ _ => Option.some.inj) hheads
  subst hfirst
  obtain ⟨child, hchild⟩ := List.exists_mem_of_ne_nil first hne
  exact ⟨rfl, (List.cons.inj (List.map_inj_left.mp hmap child hchild)).2⟩

/-- Steps are told by the paths along them and by the place of the choice. The place is
told by the paths unless the choice is between equal steps. -/
theorem eq_of_sections_eq (hne : ∀ step ∈ steps, step ≠ []) (hne' : ∀ step ∈ other, step ≠ [])
    (hone : (steps.filter (1 < ·.length)).length ≤ 1)
    (hone' : (other.filter (1 < ·.length)).length ≤ 1)
    (hplace : steps.findIdx (1 < ·.length) = other.findIdx (1 < ·.length))
    (hsections : steps.sections = other.sections) : steps = other := by
  have hempty : ∀ (step : List α) (steps : List (List α)), [] ∉ (step :: steps).sections := by
    intro step steps hmem
    have hlength := List.mem_sections_length hmem
    simp at hlength
  induction steps generalizing other with
  | nil =>
      rcases other with _ | ⟨step', other⟩
      · rfl
      · exact absurd (hsections ▸ List.mem_singleton_self []) (hempty step' other)
  | cons step steps ih =>
      rcases other with _ | ⟨step', other⟩
      · exact absurd (hsections ▸ List.mem_singleton_self []) (hempty step steps)
      · obtain ⟨hstep, hsteps⟩ := List.forall_mem_cons.mp hne
        obtain ⟨hstep', hother⟩ := List.forall_mem_cons.mp hne'
        rw [List.findIdx_cons, List.findIdx_cons] at hplace
        by_cases hchoice : 1 < step.length
        · -- the choice is here in both, and what follows is one path
          have hchoice' : 1 < step'.length := by
            by_contra hnone
            simp [hchoice, hnone] at hplace
          obtain ⟨path, rfl⟩ := exists_path_of_choice hsteps hone hchoice
          obtain ⟨path', rfl⟩ := exists_path_of_choice hother hone' hchoice'
          rw [sections_cons_of_path, sections_cons_of_path] at hsections
          obtain ⟨rfl, rfl⟩ := eq_of_map_cons_eq hstep hsections
          rfl
        · have hchoice' : ¬ 1 < step'.length := by
            intro hyes
            simp [hchoice, hyes] at hplace
          obtain ⟨child, rfl⟩ : ∃ child, step = [child] := List.length_eq_one_iff.mp <|
            Nat.le_antisymm (Nat.not_lt.mp hchoice) (List.length_pos_of_ne_nil hstep)
          obtain ⟨child', rfl⟩ : ∃ child, step' = [child] := List.length_eq_one_iff.mp <|
            Nat.le_antisymm (Nat.not_lt.mp hchoice') (List.length_pos_of_ne_nil hstep')
          rw [sections_singleton_cons, sections_singleton_cons] at hsections
          obtain ⟨path, hpath⟩ := List.exists_mem_of_length_pos (length_sections_pos hsteps)
          have hhead : child :: path ∈ other.sections.map fun path => child' :: path :=
            hsections ▸ List.mem_map_of_mem hpath
          obtain ⟨path', -, hsame⟩ := List.mem_map.mp hhead
          obtain ⟨rfl, -⟩ := List.cons.inj hsame
          have hinjective : Function.Injective fun path => child' :: path :=
            List.cons_injective
          rw [ih hsteps hother (by simpa using hone) (by simpa using hone') (by simpa using hplace)
            (List.map_injective_iff.mpr hinjective hsections)]

theorem one_lt_length_sections (hne : ∀ step ∈ steps, step ≠ [])
    (hchoice : ∃ step ∈ steps, 1 < step.length) : 1 < steps.sections.length := by
  induction steps with
  | nil =>
      obtain ⟨step, hstep, -⟩ := hchoice
      cases hstep
  | cons step steps ih =>
      obtain ⟨hstep, hsteps⟩ := List.forall_mem_cons.mp hne
      have hlength : (step :: steps).sections.length = steps.sections.length * step.length := by
        simp [List.sections, List.length_flatMap]
      have hpos := length_sections_pos hsteps
      have hstepPos := List.length_pos_of_ne_nil hstep
      rw [hlength]
      rcases (List.exists_mem_cons_iff _ _ _).mp hchoice with hhere | hlater
      · calc 1 < step.length := hhere
          _ = 1 * step.length := (Nat.one_mul _).symm
          _ ≤ steps.sections.length * step.length := Nat.mul_le_mul_right _ hpos
      · calc 1 < steps.sections.length := ih hsteps hlater
          _ = steps.sections.length * 1 := (Nat.mul_one _).symm
          _ ≤ steps.sections.length * step.length := Nat.mul_le_mul_left _ hstepPos

/-- Where the choice is when it has no step beside it. -/
theorem findIdx_of_single_choice (hne : ∀ step ∈ steps, step ≠ [])
    (hsingle : (∃ step ∈ steps, 1 < step.length) → steps.length = 1) :
    steps.findIdx (1 < ·.length) =
      if 1 < steps.sections.length then 0 else (steps.sections.headD []).length := by
  by_cases hchoice : ∃ step ∈ steps, 1 < step.length
  · rw [if_pos (one_lt_length_sections hne hchoice)]
    obtain ⟨step, rfl⟩ := List.length_eq_one_iff.mp (hsingle hchoice)
    obtain ⟨other, hother, hlong⟩ := hchoice
    rw [List.mem_singleton.mp hother] at hlong
    simp [List.findIdx_cons, hlong]
  · have hnone : ∀ step ∈ steps, ¬ 1 < step.length := fun step hstep hlong =>
      hchoice ⟨step, hstep, hlong⟩
    obtain ⟨path, rfl⟩ := exists_path_of_no_choice hne hnone
    have hplace : (path.map fun child => [child]).findIdx (1 < ·.length) =
        (path.map fun child => [child]).length := by
      rw [List.findIdx_eq_length]
      exact fun step hstep => decide_eq_false (hnone step hstep)
    rw [hplace, sections_map_singleton, if_neg (by simp), List.length_map, List.headD_cons]

end Sections

end Bip138.Rust
