/-
# Transition systems

A system that takes one step at a time, with a choice at every step: a scheduler, or an
environment that answers. `Reachable` is the states its runs come to when only some steps
are allowed, and the rules say what an invariant and a decreasing measure give of all
runs at once.
-/

import Mathlib.Data.Nat.Notation
import Mathlib.Tactic.Common

namespace Bip138.Rust

variable {σ α ε : Type} {step : σ → α → Option σ} {allowed : σ → α → Prop} {first : σ}

/-- A state that some run of allowed steps comes to. -/
inductive Reachable (step : σ → α → Option σ) (allowed : σ → α → Prop) (first : σ) : σ → Prop
  | start : Reachable step allowed first first
  | next {state later : σ} (hstate : Reachable step allowed first state) (action : α)
      (hallowed : allowed state action) (hstep : step state action = some later) :
      Reachable step allowed first later

namespace Reachable

/-- What holds at first and is preserved by every allowed step holds throughout. -/
theorem invariant {Inv : σ → Prop} (hfirst : Inv first)
    (hpreserves : ∀ state action later, Inv state → allowed state action →
      step state action = some later → Inv later) {state : σ}
    (hstate : Reachable step allowed first state) : Inv state := by
  induction hstate with
  | start => exact hfirst
  | next _ _ hallowed hstep ih => exact hpreserves _ _ _ ih hallowed hstep

/-- Runs compose. -/
theorem trans {state later : σ} (hstate : Reachable step allowed first state)
    (hlater : Reachable step allowed state later) : Reachable step allowed first later := by
  induction hlater with
  | start => exact hstate
  | next _ action hallowed hstep ih => exact ih.next action hallowed hstep

/-- A run from a reachable state is the rest of a run. -/
theorem of_run {state later : σ} (hstate : Reachable step allowed first state) (actions : List α)
    (hallowed : ∀ state action, allowed state action)
    (hrun : actions.foldlM step state = some later) : Reachable step allowed first later := by
  induction actions generalizing state with
  | nil =>
      obtain rfl := Option.some.inj hrun
      exact hstate
  | cons action actions ih =>
      rw [List.foldlM_cons] at hrun
      obtain ⟨middle, hstep, hrest⟩ := Option.bind_eq_some_iff.mp hrun
      exact ih (hstate.next action (hallowed _ _) hstep) hrest

end Reachable

/-- A state that some run of allowed steps comes to, and what was noted on the way. -/
inductive Traced (step : σ → α → Option σ) (allowed : σ → α → Prop) (note : σ → α → List ε)
    (first : σ) : List ε → σ → Prop
  | start : Traced step allowed note first [] first
  | next {seen : List ε} {state later : σ} (hstate : Traced step allowed note first seen state)
      (action : α) (hallowed : allowed state action) (hstep : step state action = some later) :
      Traced step allowed note first (seen ++ note state action) later

/-- What holds at first of a blank note, and is preserved by every allowed step along with what
the step notes, holds throughout. -/
theorem Traced.invariant {note : σ → α → List ε} {Inv : List ε → σ → Prop} (hfirst : Inv [] first)
    (hpreserves : ∀ seen state action later, Inv seen state → allowed state action →
      step state action = some later → Inv (seen ++ note state action) later)
    {seen : List ε} {state : σ} (hstate : Traced step allowed note first seen state) :
    Inv seen state := by
  induction hstate with
  | start => exact hfirst
  | next _ _ hallowed hstep ih => exact hpreserves _ _ _ _ ih hallowed hstep

/-- A run is no longer than a measure that every step decreases. -/
theorem length_le_of_run {measure : σ → ℕ}
    (hdecreases : ∀ state action later, step state action = some later →
      measure later < measure state) {actions : List α} {state later : σ}
    (hrun : actions.foldlM step state = some later) : actions.length ≤ measure state := by
  induction actions generalizing state with
  | nil => exact Nat.zero_le _
  | cons action actions ih =>
      rw [List.foldlM_cons] at hrun
      obtain ⟨middle, hstep, hrest⟩ := Option.bind_eq_some_iff.mp hrun
      have hrest := ih hrest
      have hfirst := hdecreases _ _ _ hstep
      rw [List.length_cons]
      omega

end Bip138.Rust
