/-
# Outcomes of a Rust call

A Rust function either returns a value, returns an error, or panics, and a loop
may also fail to finish at all. `Exec` keeps the four apart, so a theorem about
what a call returns never has to assume that it returns, and a `map_err` can
translate errors without swallowing a panic.

Slicing, indexing and the unchecked `+` on `usize` are the operations that panic
without any word in the source, and so does a vector that outgrows the address space.
The first three are defined here once, for a target whose pointer width is 32 or 64
bits, together with the condition under which each of them succeeds.
-/

import Mathlib.Data.List.Basic
import Mathlib.Tactic.Common
import Mathlib.Tactic.Linarith

namespace Bip138.Rust

/-- The reasons a call panics for. -/
inductive Panic
  | assertion
  | sliceIndex
  | arithmeticOverflow
  | capacityOverflow
  | expect
  deriving DecidableEq, Repr

/-- How a call can end without a value. `unfinished` marks a loop that used up
the fuel it was run with: with more fuel it may still end in any other way. -/
inductive Fault (ε : Type)
  | error (cause : ε)
  | panic (cause : Panic)
  | unfinished
  deriving DecidableEq, Repr

/-- The outcome of a Rust call with error type `ε`. -/
abbrev Exec (ε α : Type) := Except (Fault ε) α

variable {ε δ α β : Type}

namespace Exec

/-- Return `Err(cause)`. -/
def fail (cause : ε) : Exec ε α := .error (.error cause)

/-- Panic. -/
def abort (cause : Panic) : Exec ε α := .error (.panic cause)

/-- `Option::ok_or`. -/
def okOr : Option α → ε → Exec ε α
  | some value, _ => .ok value
  | none, cause => fail cause

/-- `Result::map_err`: translate the error, leave panics and values alone. -/
def mapErr (translate : ε → δ) : Exec ε α → Exec δ α
  | .ok value => .ok value
  | .error (.error cause) => .error (.error (translate cause))
  | .error (.panic cause) => .error (.panic cause)
  | .error .unfinished => .error .unfinished

/-- The call came back: it returned a value or an error, without panicking and
without running out of fuel. -/
def Returns (call : Exec ε α) : Prop :=
  (∃ value, call = .ok value) ∨ ∃ cause, call = fail cause

@[simp]
theorem bind_eq_ok_iff {call : Exec ε α} {next : α → Exec ε β} {result : β} :
    (call >>= next) = .ok result ↔ ∃ value, call = .ok value ∧ next value = .ok result := by
  cases call with
  | error fault => simp [Bind.bind, Except.bind]
  | ok value => simp [Bind.bind, Except.bind]

@[simp]
theorem ok_bind (value : α) (next : α → Exec ε β) :
    ((.ok value : Exec ε α) >>= next) = next value := rfl

@[simp]
theorem fail_bind (cause : ε) (next : α → Exec ε β) :
    ((fail cause : Exec ε α) >>= next) = fail cause := rfl

@[simp]
theorem fail_ne_ok (cause : ε) (value : α) : (fail cause : Exec ε α) ≠ .ok value := by
  simp [fail]

@[simp]
theorem abort_ne_ok (cause : Panic) (value : α) :
    (abort cause : Exec ε α) ≠ .ok value := by
  simp [abort]

/-- What is checked first succeeds when the check does not refuse it. -/
theorem guard_eq_ok_iff {refused : Prop} [Decidable refused] {cause : ε} {call : Exec ε α}
    {value : α} :
    (if refused then fail cause else call) = .ok value ↔ ¬ refused ∧ call = .ok value := by
  by_cases hrefused : refused
  · simp [hrefused]
  · simp [hrefused]

@[simp]
theorem fail_inj {first second : ε} :
    (fail first : Exec ε α) = fail second ↔ first = second := by
  simp [fail]

@[simp]
theorem okOr_eq_ok_iff {option : Option α} {cause : ε} {value : α} :
    okOr option cause = .ok value ↔ option = some value := by
  cases option <;> simp [okOr]

@[simp]
theorem mapErr_eq_ok_iff {translate : ε → δ} {call : Exec ε α} {value : α} :
    mapErr translate call = .ok value ↔ call = .ok value := by
  rcases call with (_ | _ | _) | _ <;> simp [mapErr]

@[simp]
theorem toOption_eq_some_iff {call : Exec ε α} {value : α} :
    call.toOption = some value ↔ call = .ok value := by
  rcases call with fault | result
  · exact iff_of_false (fun hnone => by cases hnone) fun hok => by cases hok
  · exact Option.some_inj.trans (Except.ok.injEq result value).symm.to_iff

/-- The call returns a value that passes a test. -/
def returnsWith (test : α → Bool) : Exec ε α → Bool
  | .ok value => test value
  | .error _ => false

theorem exists_eq_ok (call : Exec ε α) (test : α → Bool) (hcall : call.returnsWith test = true) :
    ∃ value, call = .ok value ∧ test value = true := by
  rcases call with fault | value
  · cases hcall
  · exact ⟨value, rfl, hcall⟩

theorem returns_ok (value : α) : Returns (.ok value : Exec ε α) := .inl ⟨value, rfl⟩

theorem returns_fail (cause : ε) : Returns (fail cause : Exec ε α) := .inr ⟨cause, rfl⟩

theorem returns_okOr (option : Option α) (cause : ε) : Returns (okOr option cause) := by
  cases option with
  | none => exact returns_fail cause
  | some value => exact returns_ok value

theorem returns_ite {condition : Prop} [Decidable condition] {first second : Exec ε α}
    (hfirst : Returns first) (hsecond : Returns second) :
    Returns (if condition then first else second) := by
  by_cases hcondition : condition
  · rw [if_pos hcondition]
    exact hfirst
  · rw [if_neg hcondition]
    exact hsecond

theorem Returns.mapErr {call : Exec ε α} (hcall : Returns call) (translate : ε → δ) :
    Returns (mapErr translate call) := by
  rcases hcall with ⟨value, rfl⟩ | ⟨cause, rfl⟩
  · exact returns_ok value
  · exact returns_fail (translate cause)

/-- A sequence comes back when its first call does, and its second does on every
value the first can produce. -/
theorem Returns.bind {call : Exec ε α} {next : α → Exec ε β} (hcall : Returns call)
    (hnext : ∀ value, call = .ok value → Returns (next value)) : Returns (call >>= next) := by
  rcases hcall with ⟨value, rfl⟩ | ⟨cause, rfl⟩
  · exact hnext value rfl
  · exact returns_fail cause

/-- A sequence that comes back starts with a call that does. -/
theorem returns_of_returns_bind {call : Exec ε α} {next : α → Exec ε β}
    (hbind : Returns (call >>= next)) : Returns call := by
  rcases call with fault | value
  · obtain ⟨result, hok⟩ | ⟨cause, hfail⟩ := hbind
    · cases hok
    · cases hfail
      exact returns_fail cause
  · exact returns_ok value

/-- When the second call always comes back, the sequence does exactly when the
first call does. -/
theorem returns_bind_iff {call : Exec ε α} {next : α → Exec ε β}
    (hnext : ∀ value, Returns (next value)) : Returns (call >>= next) ↔ Returns call :=
  ⟨returns_of_returns_bind, fun hcall => hcall.bind fun value _ => hnext value⟩

theorem returns_mapErr_iff {translate : ε → δ} {call : Exec ε α} :
    Returns (mapErr translate call) ↔ Returns call := by
  refine ⟨fun hmapped => ?_, fun hcall => hcall.mapErr translate⟩
  rcases call with (cause | _ | _) | value
  · exact returns_fail cause
  · obtain ⟨value, hok⟩ | ⟨cause, hfail⟩ := hmapped
    · cases hok
    · cases hfail
  · obtain ⟨value, hok⟩ | ⟨cause, hfail⟩ := hmapped
    · cases hok
    · cases hfail
  · exact returns_ok value

/-- Two calls end alike: both return, with related values, or both return the same error. -/
def Alike (Related : α → β → Prop) (first : Exec ε α) (second : Exec ε β) : Prop :=
  (∃ value value', first = .ok value ∧ second = .ok value' ∧ Related value value') ∨
    ∃ cause, first = fail cause ∧ second = fail cause

section Alike

variable {γ : Type} {Related : α → β → Prop} {first : Exec ε α} {second : Exec ε β}

theorem alike_fail (cause : ε) : Alike Related (fail cause) (fail cause) := .inr ⟨cause, rfl, rfl⟩

theorem alike_ok {value : α} {value' : β} (hrelated : Related value value') :
    Alike Related (.ok value : Exec ε α) (.ok value') := .inl ⟨value, value', rfl, rfl, hrelated⟩

/-- Sequences that start with the same call, which comes back, end alike when what follows
does on every value of it. -/
theorem Returns.alike_bind {call : Exec ε γ} {next : γ → Exec ε α} {next' : γ → Exec ε β}
    (hcall : Returns call)
    (hnext : ∀ value, call = .ok value → Alike Related (next value) (next' value)) :
    Alike Related (call >>= next) (call >>= next') := by
  rcases hcall with ⟨value, rfl⟩ | ⟨cause, rfl⟩
  · exact hnext value rfl
  · exact alike_fail cause

end Alike

theorem not_returns_abort (cause : Panic) : ¬ Returns (abort cause : Exec ε α) := by
  rintro (⟨value, hok⟩ | ⟨error, hfail⟩)
  · cases hok
  · cases hfail

/-- A check that panics was passed if the call came back. -/
theorem of_returns_ite_abort {condition : Prop} [Decidable condition] {call : Exec ε α}
    {cause : Panic} (hreturns : Returns (if condition then call else abort cause)) : condition := by
  by_contra hcondition
  rw [if_neg hcondition] at hreturns
  exact not_returns_abort cause hreturns

/-- A call that comes back without a value comes back with an error. -/
theorem Returns.exists_fail {call : Exec ε α} (hcall : Returns call)
    (hvalue : ∀ value, call ≠ .ok value) : ∃ cause, call = fail cause := by
  rcases hcall with ⟨value, hok⟩ | herror
  · exact absurd hok (hvalue value)
  · exact herror

/-- A sequence does not end with an error that neither of its calls ends with. -/
theorem bind_ne_fail {call : Exec ε α} {next : α → Exec ε β} {cause : ε}
    (hcall : call ≠ fail cause) (hnext : ∀ value, next value ≠ fail cause) :
    (call >>= next) ≠ fail cause := by
  rcases call with fault | value
  · intro hfail
    cases hfail
    exact hcall rfl
  · exact hnext value

theorem okOr_ne_fail {option : Option α} {cause other : ε} (hcause : other ≠ cause) :
    okOr option other ≠ fail cause := by
  cases option with
  | none => exact fun hfail => hcause (fail_inj.mp hfail)
  | some value => exact (fail_ne_ok cause value).symm

/-- A loop that maps a list and stops at the first error succeeds when every item
is one the body accepts. -/
theorem mapM_eq_ok_iff {f : α → Exec ε β} {valid : α → Prop} {g : α → β}
    (hf : ∀ item result, f item = .ok result ↔ valid item ∧ result = g item) {items : List α}
    {results : List β} :
    items.mapM f = .ok results ↔ (∀ item ∈ items, valid item) ∧ results = items.map g := by
  induction items generalizing results with
  | nil => simp [pure, Except.pure, eq_comm]
  | cons item items ih =>
      simp only [List.mapM_cons, bind_eq_ok_iff, ih, hf, List.forall_mem_cons, List.map_cons]
      constructor
      · rintro ⟨_, ⟨hitem, rfl⟩, _, ⟨hitems, rfl⟩, hequal⟩
        cases hequal
        exact ⟨⟨hitem, hitems⟩, rfl⟩
      · rintro ⟨⟨hitem, hitems⟩, rfl⟩
        exact ⟨_, ⟨hitem, rfl⟩, _, ⟨hitems, rfl⟩, rfl⟩

/-- A loop that maps a list yields the result of every item. -/
theorem exists_mem_of_mapM_eq_ok {f : α → Exec ε β} {items : List α} {results : List β}
    (hok : items.mapM f = .ok results) {item : α} (hitem : item ∈ items) :
    ∃ result ∈ results, f item = .ok result := by
  induction items generalizing results with
  | nil => exact absurd hitem List.not_mem_nil
  | cons first items ih =>
      rw [List.mapM_cons] at hok
      obtain ⟨result, hresult, hok⟩ := bind_eq_ok_iff.mp hok
      obtain ⟨rest, hrest, hok⟩ := bind_eq_ok_iff.mp hok
      cases hok
      rcases List.mem_cons.mp hitem with rfl | hlater
      · exact ⟨result, List.mem_cons_self, hresult⟩
      · obtain ⟨other, hother, hvalue⟩ := ih hrest hlater
        exact ⟨other, List.mem_cons_of_mem result hother, hvalue⟩

/-- A loop over a list has no error when its body has none. -/
theorem forM_eq_ok_iff {f : α → Exec ε Unit} {items : List α} :
    items.forM f = .ok () ↔ ∀ item ∈ items, f item = .ok () := by
  induction items with
  | nil => exact iff_of_true rfl fun _ hitem => absurd hitem List.not_mem_nil
  | cons item items ih =>
      rw [show (item :: items).forM f = (do f item; items.forM f) from rfl, bind_eq_ok_iff,
        List.forall_mem_cons, ← ih]
      exact ⟨fun ⟨_, hitem, hitems⟩ => ⟨hitem, hitems⟩, fun ⟨hitem, hitems⟩ => ⟨_, hitem, hitems⟩⟩

/-- Mapping every error to one leaves no other. -/
theorem mapErr_const_ne_fail {call : Exec ε α} {cause other : δ} (hcause : other ≠ cause) :
    mapErr (fun _ => other) call ≠ fail cause := by
  rcases call with (_ | _ | _) | value
  · exact fun hfail => hcause (fail_inj.mp hfail)
  · exact fun hfail => by cases hfail
  · exact fun hfail => by cases hfail
  · exact fun hfail => by cases hfail

theorem forM_ne_fail {f : α → Exec ε Unit} {cause : ε} (hf : ∀ item, f item ≠ fail cause)
    (items : List α) : items.forM f ≠ fail cause := by
  induction items with
  | nil => exact (fail_ne_ok cause ()).symm
  | cons item items ih => exact bind_ne_fail (hf item) fun _ => ih

/-- A loop that maps a list ends with an error of its body. -/
theorem exists_mem_of_mapM_eq_fail {f : α → Exec ε β} {items : List α} {cause : ε}
    (hfail : items.mapM f = fail cause) : ∃ item ∈ items, f item = fail cause := by
  induction items with
  | nil => exact absurd hfail.symm (fail_ne_ok cause [])
  | cons item items ih =>
      rw [List.mapM_cons] at hfail
      rcases hitem : f item with fault | result
      · rw [hitem] at hfail
        cases hfail
        exact ⟨item, List.mem_cons_self, hitem⟩
      · rw [hitem, ok_bind] at hfail
        rcases hrest : items.mapM f with fault | results
        · rw [hrest] at hfail
          cases hfail
          obtain ⟨other, hother, hbody⟩ := ih hrest
          exact ⟨other, List.mem_cons_of_mem item hother, hbody⟩
        · rw [hrest] at hfail
          cases hfail

theorem mapM_ne_fail {f : α → Exec ε β} (hf : ∀ item cause, f item ≠ fail cause)
    (items : List α) (cause : ε) : items.mapM f ≠ fail cause := by
  intro hfail
  obtain ⟨item, -, hitem⟩ := exists_mem_of_mapM_eq_fail hfail
  exact hf item cause hitem

theorem returns_mapM {f : α → Exec ε β} {items : List α}
    (hitems : ∀ item ∈ items, Returns (f item)) : Returns (items.mapM f) := by
  induction items with
  | nil => exact returns_ok []
  | cons item items ih =>
      obtain ⟨hhead, htail⟩ := List.forall_mem_cons.mp hitems
      rw [List.mapM_cons]
      exact hhead.bind fun _ _ => (ih htail).bind fun _ _ => returns_ok _

theorem returns_forM {f : α → Exec ε Unit} (hf : ∀ item, Returns (f item)) (items : List α) :
    Returns (items.forM f) := by
  induction items with
  | nil => exact returns_ok ()
  | cons item items ih => exact (hf item).bind fun _ _ => ih

/-- A loop comes back when a pass does from every state it can be in with some passes left. -/
theorem returns_foldlM {body : β → α → Exec ε β} (inv : ℕ → β → Prop)
    (hbody : ∀ left state item, inv (left + 1) state →
      Returns (body state item) ∧ ∀ later, body state item = .ok later → inv left later)
    {items : List α} {state : β} (hstate : inv items.length state) :
    Returns (items.foldlM body state) := by
  induction items generalizing state with
  | nil => exact returns_ok state
  | cons item items ih =>
      obtain ⟨hpass, hnext⟩ := hbody items.length state item hstate
      rw [List.foldlM_cons]
      exact hpass.bind fun later hlater => ih (hnext later hlater)

end Exec

/-- The machine the code was compiled for. -/
class Target where
  /-- Bits of a pointer, and so of `usize`. -/
  pointerWidth : ℕ
  /-- The supported targets. -/
  supported : pointerWidth = 32 ∨ pointerWidth = 64

/-- `u32::MAX`. -/
def u32Max : ℕ := 2 ^ 32 - 1

/-- `u128::MAX`. -/
def u128Max : ℕ := 2 ^ 128 - 1

/-- `u8::MAX`. -/
def u8Max : ℕ := 2 ^ 8 - 1

/-- `checked_mul` on `u128`. -/
def checkedMulU128 (first second : ℕ) : Option ℕ :=
  if first * second ≤ u128Max then some (first * second) else none

@[simp]
theorem checkedMulU128_eq_some_iff {first second product : ℕ} :
    checkedMulU128 first second = some product ↔
      first * second ≤ u128Max ∧ product = first * second := by
  unfold checkedMulU128
  split
  · rename_i hproduct
    simp [hproduct, eq_comm]
  · rename_i hproduct
    simp [hproduct]

/-- The plain `+` on `u32`, which panics on overflow. -/
def addU32 (first second : UInt32) : Exec ε UInt32 :=
  if first.toNat + second.toNat ≤ u32Max then .ok (first + second)
  else .abort .arithmeticOverflow

@[simp]
theorem addU32_eq_ok_iff {first second sum : UInt32} :
    (addU32 first second : Exec ε UInt32) = .ok sum ↔
      sum.toNat = first.toNat + second.toNat := by
  have hmod : (first + second).toNat = (first.toNat + second.toNat) % 2 ^ 32 :=
    UInt32.toNat_add first second
  have hsize : sum.toNat < 2 ^ 32 := sum.toNat_lt
  unfold addU32
  split
  · rename_i hsum
    rw [u32Max] at hsum
    rw [Nat.mod_eq_of_lt (by omega)] at hmod
    rw [Except.ok.injEq, ← UInt32.toNat_inj, hmod, eq_comm]
  · rename_i hsum
    rw [u32Max] at hsum
    exact iff_of_false (Exec.abort_ne_ok _ _) (by omega)

/-- `checked_sub` on `usize`. -/
def checkedSub (first second : ℕ) : Option ℕ :=
  if second ≤ first then some (first - second) else none

@[simp]
theorem checkedSub_eq_some_iff {first second difference : ℕ} :
    checkedSub first second = some difference ↔
      second ≤ first ∧ difference = first - second := by
  unfold checkedSub
  split
  · rename_i hle
    simp [hle, eq_comm]
  · rename_i hle
    simp [hle]

/-- The plain `-` on `usize`, which panics below zero. -/
def sub (first second : ℕ) : Exec ε ℕ :=
  if second ≤ first then .ok (first - second) else .abort .arithmeticOverflow

@[simp]
theorem sub_eq_ok_iff {first second difference : ℕ} :
    (sub first second : Exec ε ℕ) = .ok difference ↔
      second ≤ first ∧ difference = first - second := by
  unfold sub
  split
  · rename_i hle
    simp [hle, eq_comm]
  · rename_i hle
    simp [hle]

section Usize

variable [Target]

/-- `usize::MAX`. -/
def usizeMax : ℕ := 2 ^ Target.pointerWidth - 1

/-- `isize::MAX`, the most bytes any slice or vector can hold. -/
def isizeMax : ℕ := 2 ^ (Target.pointerWidth - 1) - 1

theorem two_mul_isizeMax_lt_usizeMax : 2 * isizeMax < usizeMax := by
  rcases Target.supported with hwidth | hwidth <;> simp [isizeMax, usizeMax, hwidth]

theorem u32Max_le_usizeMax : u32Max ≤ usizeMax := by
  rcases Target.supported with hwidth | hwidth <;> simp [u32Max, usizeMax, hwidth]

theorem usizeMax_lt_two_pow_64 : usizeMax < 2 ^ 64 := by
  rcases Target.supported with hwidth | hwidth <;> simp [usizeMax, hwidth]

/-- `checked_add` on `usize`. -/
def checkedAdd (first second : ℕ) : Option ℕ :=
  if first + second ≤ usizeMax then some (first + second) else none

/-- The plain `+` on `usize`, which panics on overflow. -/
def add (first second : ℕ) : Exec ε ℕ :=
  if first + second ≤ usizeMax then .ok (first + second) else .abort .arithmeticOverflow

/-- The plain `*` on `usize`, which panics on overflow. -/
def mul (first second : ℕ) : Exec ε ℕ :=
  if first * second ≤ usizeMax then .ok (first * second) else .abort .arithmeticOverflow

/-- `usize::try_from` on a `u64` or `u128` value. -/
def usizeTryFrom (value : ℕ) : Option ℕ := if value ≤ usizeMax then some value else none

@[simp]
theorem checkedAdd_eq_some_iff {first second sum : ℕ} :
    checkedAdd first second = some sum ↔ first + second ≤ usizeMax ∧ sum = first + second := by
  unfold checkedAdd
  split
  · rename_i hsum
    simp [hsum, eq_comm]
  · rename_i hsum
    simp [hsum]

@[simp]
theorem add_eq_ok_iff {first second sum : ℕ} :
    (add first second : Exec ε ℕ) = .ok sum ↔
      first + second ≤ usizeMax ∧ sum = first + second := by
  unfold add
  split
  · rename_i hsum
    simp [hsum, eq_comm]
  · rename_i hsum
    simp [hsum]

theorem mul_eq_ok {first second : ℕ} (hproduct : first * second ≤ usizeMax) :
    (mul first second : Exec ε ℕ) = .ok (first * second) := if_pos hproduct

@[simp]
theorem usizeTryFrom_eq_some_iff {value result : ℕ} :
    usizeTryFrom value = some result ↔ value ≤ usizeMax ∧ result = value := by
  unfold usizeTryFrom
  split
  · rename_i hfits
    simp [hfits, eq_comm]
  · rename_i hfits
    simp [hfits]

theorem returns_add {first second : ℕ} (hsum : first + second ≤ usizeMax) :
    (add first second : Exec ε ℕ).Returns := by
  rw [add, if_pos hsum]
  exact Exec.returns_ok _

end Usize

/-- `&items[start..stop]`, which panics unless `start <= stop <= items.len()`. -/
def slice (items : List α) (start stop : ℕ) : Exec ε (List α) :=
  if start ≤ stop ∧ stop ≤ items.length then .ok ((items.drop start).take (stop - start))
  else .abort .sliceIndex

/-- `&items[start..]`, which panics unless `start <= items.len()`. -/
def sliceFrom (items : List α) (start : ℕ) : Exec ε (List α) :=
  if start ≤ items.length then .ok (items.drop start) else .abort .sliceIndex

/-- `items[position]`, which panics past the end. -/
def index (items : List α) (position : ℕ) : Exec ε α :=
  match items[position]? with
  | some item => .ok item
  | none => .abort .sliceIndex

@[simp]
theorem slice_eq_ok_iff {items piece : List α} {start stop : ℕ} :
    (slice items start stop : Exec ε (List α)) = .ok piece ↔
      start ≤ stop ∧ stop ≤ items.length ∧ piece = (items.drop start).take (stop - start) := by
  unfold slice
  split
  · rename_i hbounds
    simp [hbounds, eq_comm]
  · rename_i hbounds
    simp only [Exec.abort_ne_ok, false_iff]
    exact fun h => hbounds ⟨h.1, h.2.1⟩

@[simp]
theorem sliceFrom_eq_ok_iff {items piece : List α} {start : ℕ} :
    (sliceFrom items start : Exec ε (List α)) = .ok piece ↔
      start ≤ items.length ∧ piece = items.drop start := by
  unfold sliceFrom
  split
  · rename_i hstart
    simp [hstart, eq_comm]
  · rename_i hstart
    simp [hstart]

@[simp]
theorem index_eq_ok_iff {items : List α} {position : ℕ} {item : α} :
    (index items position : Exec ε α) = .ok item ↔ items[position]? = some item := by
  unfold index
  cases items[position]? with
  | none => simp
  | some found => simp

theorem returns_slice {items : List α} {start stop : ℕ} (hstart : start ≤ stop)
    (hstop : stop ≤ items.length) : (slice items start stop : Exec ε (List α)).Returns := by
  rw [slice, if_pos ⟨hstart, hstop⟩]
  exact Exec.returns_ok _

theorem returns_sliceFrom {items : List α} {start : ℕ} (hstart : start ≤ items.length) :
    (sliceFrom items start : Exec ε (List α)).Returns := by
  rw [sliceFrom, if_pos hstart]
  exact Exec.returns_ok _

theorem returns_index {items : List α} {position : ℕ} (hposition : position < items.length) :
    (index items position : Exec ε α).Returns := by
  rw [index, List.getElem?_eq_getElem hposition]
  exact Exec.returns_ok _

end Bip138.Rust
