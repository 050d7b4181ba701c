/-
# Padding sizes

The two size buckets of the format. The payload grows to a geometric bucket when
the caller asks for padding; the individual secrets always grow to a doubling
bucket, capped at the one-byte count of the field.

Both are `while` loops over a growing bucket. The doubling loop ends at the first
of seven sizes (`doublingBucket_eq`). The geometric loop multiplies a `u128`
fraction, so it ends by overflow if not by reaching the length
(`returns_geometricBucket`).
-/

import Mathlib.Data.Nat.Log
import Bip138.Rust.Loop
import Bip138.Ll.Offset

namespace Bip138.Ll

open Bip138.Rust

/-- How the payload is padded before encryption. -/
inductive Padding
  | none
  | geometric
  deriving DecidableEq, Repr

def paddingMinSize : ℕ := 10 * 1024
def paddingGrowthNumerator : ℕ := 5
def paddingGrowthDenominator : ℕ := 4

/-- One pass of the loop of `doublingBucket`. The bucket stays below `512`, so the
plain multiplication cannot overflow. -/
def doublingBucketStep (len bucket : ℕ) : Exec Error (LoopFlow ℕ ℕ) :=
  if bucket < len then .ok (.next (bucket * 2)) else .ok (.done bucket)

def doublingBucket (len : ℕ) : Exec Error ℕ :=
  if u8Max < len then .fail .individualSecretsLength
  else do
    let bucket ← loop (doublingBucketStep len) 8 5
    -- the bucket saturates at the one-byte COUNT limit of the format
    .ok (min bucket u8Max)

section Geometric

variable [Target]

/-- One pass of the loop of `geometricBucket`, on its numerator, denominator and
target. -/
def geometricBucketStep (len : ℕ) : ℕ × ℕ × ℕ → Exec Error (LoopFlow (ℕ × ℕ × ℕ) ℕ)
  | (numerator, denominator, target) =>
    if target < len then do
      let numerator ← .okOr (checkedMulU128 numerator paddingGrowthNumerator) .padding
      let denominator ← .okOr (checkedMulU128 denominator paddingGrowthDenominator) .padding
      .ok (.next (numerator, denominator, numerator / denominator))
    else .ok (.done target)

def geometricBucket (len : ℕ) : Exec Error ℕ :=
  if len ≤ paddingMinSize then .ok paddingMinSize
  else do
    let target ← loop (geometricBucketStep len) 128 (paddingMinSize, 1, paddingMinSize / 1)
    .okOr (usizeTryFrom target) .padding

def Padding.paddedSize : Padding → ℕ → Exec Error ℕ
  | .none, len => .ok len
  | .geometric, len => geometricBucket len

end Geometric

/-- The sizes the individual secrets are padded to. -/
def secretBuckets : List ℕ := [5, 10, 20, 40, 80, 160, 255]

/-- The smallest of the sizes that holds `len` secrets. -/
def secretBucket (len : ℕ) : ℕ := (secretBuckets.find? (len ≤ ·)).getD u8Max

theorem le_secretBucket {len : ℕ} (hlen : len ≤ u8Max) : len ≤ secretBucket len := by
  unfold secretBucket
  cases hfind : secretBuckets.find? (len ≤ ·) with
  | none => exact hlen
  | some bucket => simpa using List.find?_some hfind

theorem secretBucket_le (len : ℕ) : secretBucket len ≤ u8Max := by
  unfold secretBucket
  cases hfind : secretBuckets.find? (len ≤ ·) with
  | none => exact Nat.le_refl u8Max
  | some bucket =>
      have hbounds : ∀ size ∈ secretBuckets, size ≤ u8Max := by decide
      exact hbounds bucket (List.mem_of_find?_eq_some hfind)

/-- The doubling loop finds the smallest bucket. -/
theorem doublingBucket_eq {len : ℕ} (hlen : len ≤ u8Max) :
    doublingBucket len = .ok (secretBucket len) := by
  have hcases : ∀ len ≤ u8Max, doublingBucket len = .ok (secretBucket len) := by
    decide +kernel
  exact hcases len hlen

theorem doublingBucket_eq_ok_iff {len target : ℕ} :
    doublingBucket len = .ok target ↔ len ≤ u8Max ∧ target = secretBucket len := by
  by_cases hlen : len ≤ u8Max
  · rw [doublingBucket_eq hlen, Except.ok.injEq]
    simp [hlen, eq_comm]
  · rw [doublingBucket, if_pos (not_le.mp hlen)]
    simp [hlen]

section GeometricSpec

variable [Target] {len target : ℕ}

omit [Target] in
theorem geometricBucketStep_eq_next_iff {numerator denominator : ℕ}
    {later : ℕ × ℕ × ℕ} :
    geometricBucketStep len (numerator, denominator, target) = .ok (.next later) ↔
      target < len ∧ numerator * 5 ≤ u128Max ∧ denominator * 4 ≤ u128Max ∧
        later = (numerator * 5, denominator * 4, numerator * 5 / (denominator * 4)) := by
  rw [geometricBucketStep]
  split
  · rename_i hless
    simp only [Exec.bind_eq_ok_iff, Exec.okOr_eq_ok_iff, checkedMulU128_eq_some_iff,
      paddingGrowthNumerator, paddingGrowthDenominator, Except.ok.injEq, LoopFlow.next.injEq]
    constructor
    · rintro ⟨_, ⟨hnumerator, rfl⟩, _, ⟨hdenominator, rfl⟩, rfl⟩
      exact ⟨hless, hnumerator, hdenominator, rfl⟩
    · rintro ⟨-, hnumerator, hdenominator, rfl⟩
      exact ⟨_, ⟨hnumerator, rfl⟩, _, ⟨hdenominator, rfl⟩, rfl⟩
  · rename_i hreached
    simp [hreached]

omit [Target] in
private theorem le_of_geometricBucketStep_done {state : ℕ × ℕ × ℕ}
    (hstep : geometricBucketStep len state = .ok (.done target)) : len ≤ target := by
  obtain ⟨numerator, denominator, current⟩ := state
  rw [geometricBucketStep] at hstep
  split at hstep
  · simp at hstep
  · rename_i hreached
    cases hstep
    exact not_lt.mp hreached

/-- A padded size is never below the length it is asked for. -/
theorem le_of_paddedSize_eq_ok {padding : Padding} (hsize : padding.paddedSize len = .ok target) :
    len ≤ target := by
  cases padding with
  | none =>
      cases hsize
      exact Nat.le_refl len
  | geometric =>
      simp only [Padding.paddedSize, geometricBucket] at hsize
      split at hsize
      · rename_i hsmall
        cases hsize
        exact hsmall
      · simp only [Exec.bind_eq_ok_iff, Exec.okOr_eq_ok_iff, usizeTryFrom_eq_some_iff] at hsize
        obtain ⟨_, hloop, -, rfl⟩ := hsize
        exact loop_invariant (fun _ => True) (fun value => len ≤ value) (fun _ _ _ _ => trivial)
          (fun _ _ _ hdone => le_of_geometricBucketStep_done hdone) trivial hloop

/-- The geometric loop comes back: the binary logarithm of its numerator grows
with every pass and stays below `128`. -/
theorem returns_geometricBucket : (geometricBucket len).Returns := by
  unfold geometricBucket
  split
  · exact Exec.returns_ok _
  · refine Exec.Returns.bind ?_ fun _ _ => Exec.returns_okOr _ _
    refine loop_returns (fun state => 0 < state.1) (fun state => 127 - Nat.log 2 state.1)
      ?_ ?_ (by decide) (by omega)
    · rintro ⟨numerator, denominator, target⟩ -
      rw [geometricBucketStep]
      split
      · exact (Exec.returns_okOr _ _).bind fun _ _ => (Exec.returns_okOr _ _).bind fun _ _ =>
          Exec.returns_ok _
      · exact Exec.returns_ok _
    · rintro ⟨numerator, denominator, target⟩ later hpos hnext
      obtain ⟨-, hbound, -, rfl⟩ := geometricBucketStep_eq_next_iff.mp hnext
      dsimp only at hpos ⊢
      have hgrow : Nat.log 2 numerator + 1 ≤ Nat.log 2 (numerator * 5) := by
        rw [← Nat.log_mul_base (by norm_num) (by omega)]
        exact Nat.log_mono_right (by omega)
      have hlimit : Nat.log 2 (numerator * 5) < 128 := by
        apply Nat.log_lt_of_lt_pow (by omega)
        rw [u128Max] at hbound
        omega
      exact ⟨by omega, by omega⟩

theorem returns_paddedSize (padding : Padding) : (padding.paddedSize len).Returns := by
  cases padding with
  | none => exact Exec.returns_ok len
  | geometric => exact returns_geometricBucket

end GeometricSpec

end Bip138.Ll
