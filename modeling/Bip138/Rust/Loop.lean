/-
# Loops

A counted `for` loop is a recursion on its count. A `while` loop has no such
measure in its text, so it runs here on fuel: `loop` ends `unfinished` when the
fuel is used up, and otherwise its outcome does not depend on how much fuel was
left (`loop_add_fuel`).

Three rules then cover every use. The invariant rule `loop_invariant` speaks of
loops that ended with a value; the variant rule `loop_returns` says that a loop
whose body decreases a measure comes back once the fuel exceeds that measure; the
search rule `loop_search_eq_ok_iff` says where a loop that walks a sequence stops.
-/

import Mathlib.Data.List.Forall2
import Bip138.Rust.Exec

namespace Bip138.Rust

variable {ε σ β : Type}

/-- What one pass through the body of a `while` loop decides: go round again
with the new values of the loop's variables, or leave the loop with a value. -/
inductive LoopFlow (σ β : Type)
  | next (state : σ)
  | done (value : β)
  deriving DecidableEq, Repr

/-- Run a `while` loop for at most `fuel` passes. -/
def loop (body : σ → Exec ε (LoopFlow σ β)) : ℕ → σ → Exec ε β
  | 0, _ => .error .unfinished
  | fuel + 1, state => do
      match ← body state with
      | .next later => loop body fuel later
      | .done value => .ok value

/-- Run the body of a `for _ in 0..count` loop, threading its variables. -/
def forRange (body : σ → Exec ε σ) : ℕ → σ → Exec ε σ
  | 0, state => .ok state
  | count + 1, state => do
      let later ← body state
      forRange body count later

section While

variable {body : σ → Exec ε (LoopFlow σ β)}

theorem loop_succ_of_next {state later : σ} (hbody : body state = .ok (.next later))
    (fuel : ℕ) : loop body (fuel + 1) state = loop body fuel later := by
  rw [loop, hbody]
  rfl

theorem loop_succ_of_done {state : σ} {value : β} (hbody : body state = .ok (.done value))
    (fuel : ℕ) : loop body (fuel + 1) state = .ok value := by
  rw [loop, hbody]
  rfl

theorem loop_succ_of_error {state : σ} {fault : Fault ε} (hbody : body state = .error fault)
    (fuel : ℕ) : loop body (fuel + 1) state = .error fault := by
  rw [loop, hbody]
  rfl

/-- A loop has no error that its body does not have. -/
theorem loop_ne_fail {cause : ε} (hbody : ∀ state, body state ≠ .fail cause) (fuel : ℕ)
    (state : σ) : loop body fuel state ≠ .fail cause := by
  induction fuel generalizing state with
  | zero => exact fun hfail => by cases hfail
  | succ fuel ih =>
      rw [loop]
      refine Exec.bind_ne_fail (hbody state) fun flow => ?_
      cases flow with
      | next later => exact ih later
      | done value => exact (Exec.fail_ne_ok cause value).symm

/-- Fuel that was not needed changes nothing. -/
theorem loop_add_fuel {fuel : ℕ} {state : σ} (hfinished : loop body fuel state ≠ .error .unfinished)
    (extra : ℕ) : loop body (fuel + extra) state = loop body fuel state := by
  induction fuel generalizing state with
  | zero => exact absurd rfl hfinished
  | succ fuel ih =>
      rw [Nat.succ_add_eq_add_succ, Nat.add_succ]
      cases hbody : body state with
      | error fault => rw [loop_succ_of_error hbody, loop_succ_of_error hbody]
      | ok flow =>
          cases flow with
          | done value => rw [loop_succ_of_done hbody, loop_succ_of_done hbody]
          | next later =>
              rw [loop_succ_of_next hbody] at hfinished
              rw [loop_succ_of_next hbody, loop_succ_of_next hbody]
              exact ih hfinished

/-- Two loops run alike from where their bodies agree, as long as they stay there. -/
theorem loop_congr {body' : σ → Exec ε (LoopFlow σ β)} (inv : σ → Prop)
    (hbody : ∀ state, inv state → body state = body' state)
    (hnext : ∀ state later, inv state → body' state = .ok (.next later) → inv later)
    (fuel : ℕ) {state : σ} (hstate : inv state) : loop body fuel state = loop body' fuel state := by
  induction fuel generalizing state with
  | zero => rfl
  | succ fuel ih =>
      rw [loop, loop, hbody state hstate]
      rcases hpass : body' state with fault | ⟨later | value⟩
      · rfl
      · exact ih (hnext state later hstate hpass)
      · rfl

/-- The invariant rule. What holds of the variables on entry and is kept by
every pass that goes round again holds in the pass that leaves the loop. -/
theorem loop_invariant (inv : σ → Prop) (post : β → Prop)
    (hnext : ∀ state later, inv state → body state = .ok (.next later) → inv later)
    (hdone : ∀ state value, inv state → body state = .ok (.done value) → post value)
    {fuel : ℕ} {state : σ} {value : β} (hstate : inv state)
    (hloop : loop body fuel state = .ok value) : post value := by
  induction fuel generalizing state with
  | zero => simp [loop] at hloop
  | succ fuel ih =>
      cases hbody : body state with
      | error fault => simp [loop_succ_of_error hbody] at hloop
      | ok flow =>
          cases flow with
          | done value =>
              rw [loop_succ_of_done hbody] at hloop
              cases hloop
              exact hdone state value hstate hbody
          | next later =>
              rw [loop_succ_of_next hbody] at hloop
              exact ih (hnext state later hstate hbody) hloop

/-- The variant rule. A loop comes back when its body does and every pass that
goes round again decreases a measure that the fuel exceeds. -/
theorem loop_returns (inv : σ → Prop) (variant : σ → ℕ)
    (hbody : ∀ state, inv state → (body state).Returns)
    (hnext : ∀ state later, inv state → body state = .ok (.next later) →
      inv later ∧ variant later < variant state)
    {fuel : ℕ} {state : σ} (hstate : inv state) (hfuel : variant state < fuel) :
    (loop body fuel state).Returns := by
  induction fuel generalizing state with
  | zero => omega
  | succ fuel ih =>
      rcases hbody state hstate with ⟨flow, hflow⟩ | ⟨cause, hfail⟩
      · cases flow with
        | done value =>
            rw [loop_succ_of_done hflow]
            exact Exec.returns_ok value
        | next later =>
            rw [loop_succ_of_next hflow]
            obtain ⟨hlater, hless⟩ := hnext state later hstate hflow
            exact ih hlater (by omega)
      · rw [loop_succ_of_error hfail]
        exact Exec.returns_fail cause

/-- The search rule. A loop that walks the states `state 0`, `state 1` and so on leaves at
the first one that is not passed over, if that is no later than the `last` it can pass to. -/
theorem loop_search_eq_ok_iff {state : ℕ → σ} {value : ℕ → β} {passed : ℕ → Prop} {last : ℕ}
    (hnext : ∀ k < last, passed k → body (state k) = .ok (.next (state (k + 1))))
    (hdone : ∀ k ≤ last, ¬ passed k → body (state k) = .ok (.done (value k)))
    (hlast : passed last → ∃ fault, body (state last) = .error fault)
    {fuel k : ℕ} (hk : k ≤ last) (hfuel : last - k < fuel) {result : β} :
    loop body fuel (state k) = .ok result ↔
      ∃ j, k ≤ j ∧ j ≤ last ∧ (∀ i, k ≤ i → i < j → passed i) ∧ ¬ passed j ∧ result = value j := by
  induction fuel generalizing k with
  | zero => omega
  | succ fuel ih =>
      by_cases hpassed : passed k
      · have hless : ∀ j, k ≤ j → ¬ passed j → k + 1 ≤ j := by
          intro j hj hstop
          have hne : j ≠ k := by
            rintro rfl
            exact hstop hpassed
          omega
        rcases Nat.lt_or_eq_of_le hk with hbefore | rfl
        · rw [loop_succ_of_next (hnext k hbefore hpassed), ih hbefore (by omega)]
          constructor
          · rintro ⟨j, hj, hjlast, hall, hstop, rfl⟩
            refine ⟨j, by omega, hjlast, fun i hi hij => ?_, hstop, rfl⟩
            rcases Nat.eq_or_lt_of_le hi with rfl | hlater
            · exact hpassed
            · exact hall i hlater hij
          · rintro ⟨j, hj, hjlast, hall, hstop, rfl⟩
            exact ⟨j, hless j hj hstop, hjlast, fun i hi => hall i (by omega), hstop, rfl⟩
        · obtain ⟨fault, hfault⟩ := hlast hpassed
          rw [loop_succ_of_error hfault]
          constructor
          · rintro ⟨⟩
          · rintro ⟨j, hj, hjlast, -, hstop, -⟩
            have hlater := hless j hj hstop
            omega
      · rw [loop_succ_of_done (hdone k hk hpassed), Except.ok.injEq]
        constructor
        · rintro rfl
          exact ⟨k, le_refl k, hk, fun i hi hik => absurd hik (by omega), hpassed, rfl⟩
        · rintro ⟨j, hj, -, hall, -, rfl⟩
          rcases Nat.eq_or_lt_of_le hj with rfl | hlater
          · rfl
          · exact absurd (hall k (le_refl k) hlater) hpassed

/-- Translate the value a pass leaves the loop with. -/
def LoopFlow.map {γ : Type} (project : β → γ) : LoopFlow σ β → LoopFlow σ γ
  | .next state => .next state
  | .done value => .done (project value)

/-- Two loops that only differ in the value they leave with make the same passes. -/
theorem loop_map {γ : Type} {body' : σ → Exec ε (LoopFlow σ γ)} (project : β → γ)
    (hbody : ∀ state, body' state = (body state).map (LoopFlow.map project)) (fuel : ℕ)
    (state : σ) : loop body' fuel state = (loop body fuel state).map project := by
  induction fuel generalizing state with
  | zero => rfl
  | succ fuel ih =>
      have hstep := hbody state
      rcases hpass : body state with fault | later | value
      · rw [hpass] at hstep
        rw [loop_succ_of_error hpass, loop_succ_of_error hstep]
        rfl
      · rw [hpass] at hstep
        rw [loop_succ_of_next hpass, loop_succ_of_next hstep]
        exact ih later
      · rw [hpass] at hstep
        rw [loop_succ_of_done hpass, loop_succ_of_done hstep]
        rfl

end While

section For

variable {body : σ → Exec ε σ}

@[simp]
theorem forRange_zero (state : σ) : forRange body 0 state = .ok state := rfl

theorem forRange_succ_eq_ok_iff {count : ℕ} {state last : σ} :
    forRange body (count + 1) state = .ok last ↔
      ∃ later, body state = .ok later ∧ forRange body count later = .ok last := by
  rw [forRange, Exec.bind_eq_ok_iff]

/-- A counted loop comes back when every pass does. -/
theorem forRange_returns (inv : σ → Prop) (hbody : ∀ state, inv state → (body state).Returns)
    (hnext : ∀ state later, inv state → body state = .ok later → inv later)
    {count : ℕ} {state : σ} (hstate : inv state) : (forRange body count state).Returns := by
  induction count generalizing state with
  | zero => exact Exec.returns_ok state
  | succ count ih =>
      exact (hbody state hstate).bind fun later hlater => ih (hnext state later hstate hlater)

end For

section List

variable {α : Type} {items : List α}

/-- What an accumulating loop collects. If a pass makes something hold exactly when
it held before or the item adds it, then it holds after the loop exactly when it
held before or some item adds it. -/
theorem foldl_iff (holds : σ → Prop) (adds : α → Prop) {step : σ → α → σ}
    (hstep : ∀ state item, holds (step state item) ↔ holds state ∨ adds item) {state : σ} :
    holds (items.foldl step state) ↔ holds state ∨ ∃ item ∈ items, adds item := by
  induction items generalizing state with
  | nil => simp
  | cons item items ih =>
      rw [List.foldl_cons, ih, hstep, List.exists_mem_cons_iff, or_assoc]

/-- What every pass of a loop preserves, the loop preserves. -/
theorem foldlM_invariant (inv : σ → Prop) {body : σ → α → Exec ε σ}
    (hbody : ∀ state later, ∀ item ∈ items, inv state → body state item = .ok later → inv later)
    {state last : σ} (hstate : inv state) (hloop : items.foldlM body state = .ok last) :
    inv last := by
  induction items generalizing state with
  | nil =>
      cases hloop
      exact hstate
  | cons item items ih =>
      rw [List.foldlM_cons, Exec.bind_eq_ok_iff] at hloop
      obtain ⟨later, hpass, hrest⟩ := hloop
      have hlater := hbody state later item List.mem_cons_self hstate hpass
      exact ih (fun state later item hitem => hbody state later item (List.mem_cons_of_mem _ hitem))
        hlater hrest

end List

/-- The successful runs of `mapM` on options, element by element. -/
theorem mapM_eq_some_iff {α β : Type} {f : α → Option β} {items : List α} {values : List β} :
    items.mapM f = some values ↔
      List.Forall₂ (fun item value => f item = some value) items values := by
  induction items generalizing values with
  | nil => simp [eq_comm]
  | cons item items ih =>
      rw [List.mapM_cons, Option.bind_eq_bind, Option.bind_eq_some_iff, List.forall₂_cons_left_iff]
      constructor
      · rintro ⟨value, hvalue, hrest⟩
        obtain ⟨rest, hitems, hpure⟩ := Option.bind_eq_some_iff.mp hrest
        cases hpure
        exact ⟨value, rest, hvalue, ih.mp hitems, rfl⟩
      · rintro ⟨value, rest, hvalue, hitems, rfl⟩
        exact ⟨value, hvalue, Option.bind_eq_some_iff.mpr ⟨rest, ih.mpr hitems, rfl⟩⟩

/-- What a relation says of its first side holds of every item of the first list. -/
theorem forall_mem_of_forall₂ {α β : Type} {rel : α → β → Prop} {holds : α → Prop}
    {items : List α} {values : List β} (hrel : List.Forall₂ rel items values)
    (himp : ∀ item value, rel item value → holds item) : ∀ item ∈ items, holds item :=
  ((List.forall₂_and_left _ _).mp
    (hrel.imp fun item value hpair => ⟨himp item value hpair, hpair⟩)).1

/-- Each item of related lists has a value beside it. -/
theorem exists_mem_of_forall₂ {α β : Type} {rel : α → β → Prop} {items : List α}
    {values : List β} (hrel : List.Forall₂ rel items values) :
    ∀ item ∈ items, ∃ value ∈ values, rel item value := by
  induction hrel with
  | nil => exact fun _ hitem => absurd hitem List.not_mem_nil
  | cons hfirst _ ih =>
      refine List.forall_mem_cons.mpr ⟨⟨_, List.mem_cons_self, hfirst⟩, fun item hitem => ?_⟩
      obtain ⟨value, hvalue, hpair⟩ := ih item hitem
      exact ⟨value, List.mem_cons_of_mem _ hvalue, hpair⟩

/-- What holds of an item and of the value beside it is first found at one place. -/
theorem findIdx_eq_of_forall₂ {α β : Type} {rel : α → β → Prop} {items : List α}
    {values : List β} {holds : α → Bool} {holds' : β → Bool}
    (hrel : List.Forall₂ rel items values)
    (hsame : ∀ item value, rel item value → (holds item = true ↔ holds' value = true)) :
    items.findIdx holds = values.findIdx holds' := by
  induction hrel with
  | nil => rfl
  | cons hfirst _ ih =>
      rw [List.findIdx_cons, List.findIdx_cons, ih, Bool.eq_iff_iff.mpr (hsame _ _ hfirst)]

/-- Items that each have a value have a list of them. -/
theorem exists_forall₂ {α β : Type} {rel : α → β → Prop} {items : List α}
    (hrel : ∀ item ∈ items, ∃ value, rel item value) : ∃ values, List.Forall₂ rel items values := by
  induction items with
  | nil => exact ⟨[], .nil⟩
  | cons item items ih =>
      obtain ⟨⟨value, hvalue⟩, hrest⟩ := List.forall_mem_cons.mp hrel
      obtain ⟨values, hvalues⟩ := ih hrest
      exact ⟨value :: values, .cons hvalue hvalues⟩

end Bip138.Rust
