/-
# The geometric bucket

The sizes a payload is padded to grow by a quarter, each of them rounded down from the
exact power (`geometricSize`). The loop finds the smallest one that holds the payload, as
long as its numerator still fits in a `u128` (`geometricBucket_eq_ok_iff`). From there the
properties of the bucket are those of a least element, and its limit is the last size the
numerator can reach.
-/

import Mathlib.Order.Lattice.Nat
import Mathlib.Tactic.Ring
import Bip138.Ll.Padding

namespace Bip138.Ll

open Bip138.Rust

/-- The size after `k` growths. -/
def geometricSize (k : ℕ) : ℕ :=
  paddingMinSize * paddingGrowthNumerator ^ k / paddingGrowthDenominator ^ k

theorem geometricSize_zero : geometricSize 0 = paddingMinSize := by
  rw [geometricSize, pow_zero, pow_zero, Nat.mul_one, Nat.div_one]

private theorem growthDenominator_pow_pos (k : ℕ) : 0 < paddingGrowthDenominator ^ k :=
  Nat.pow_pos (by decide)

/-- The exact power lies between a size and the next integer. -/
private theorem geometricSize_bounds (k : ℕ) :
    geometricSize k * paddingGrowthDenominator ^ k ≤ paddingMinSize * paddingGrowthNumerator ^ k ∧
      paddingMinSize * paddingGrowthNumerator ^ k <
        (geometricSize k + 1) * paddingGrowthDenominator ^ k :=
  ⟨Nat.div_mul_le_self _ _, (Nat.div_lt_iff_lt_mul (growthDenominator_pow_pos k)).mp
    (Nat.lt_succ_self _)⟩

private theorem le_geometricSize_iff {size k : ℕ} :
    size ≤ geometricSize k ↔
      size * paddingGrowthDenominator ^ k ≤ paddingMinSize * paddingGrowthNumerator ^ k :=
  Nat.le_div_iff_mul_le (growthDenominator_pow_pos k)

/-- Rounding down never hides a growth: a quarter of any size is more than one byte. -/
theorem geometricSize_lt_succ (k : ℕ) : geometricSize k < geometricSize (k + 1) := by
  obtain ⟨hlower, -⟩ := geometricSize_bounds k
  have hgrown : paddingMinSize * paddingGrowthDenominator ^ k ≤
      paddingMinSize * paddingGrowthNumerator ^ k :=
    Nat.mul_le_mul_left _ (Nat.pow_le_pow_left (by decide) k)
  rw [← Nat.succ_le_iff, le_geometricSize_iff, pow_succ, pow_succ]
  simp only [paddingMinSize, paddingGrowthNumerator, paddingGrowthDenominator] at *
  calc (geometricSize k).succ * (4 ^ k * 4)
      = 4 * (geometricSize k * 4 ^ k) + 4 * 4 ^ k := by rw [Nat.succ_eq_add_one]; ring
    _ ≤ 4 * (10 * 1024 * 5 ^ k) + 10 * 1024 * 4 ^ k := by omega
    _ ≤ 10 * 1024 * (5 ^ k * 5) := by omega

theorem geometricSize_strictMono : StrictMono geometricSize :=
  strictMono_nat_of_lt_succ geometricSize_lt_succ

/-- A growth is less than a quarter above any length the size before it is too small for. -/
theorem four_mul_geometricSize_succ_lt {k len : ℕ} (hsmall : geometricSize k < len) :
    4 * geometricSize (k + 1) < 5 * len := by
  obtain ⟨-, hupper⟩ := geometricSize_bounds k
  obtain ⟨hlower, -⟩ := geometricSize_bounds (k + 1)
  apply Nat.lt_of_mul_lt_mul_right (a := paddingGrowthDenominator ^ k)
  have hlen : (geometricSize k + 1) * paddingGrowthDenominator ^ k ≤
      len * paddingGrowthDenominator ^ k := Nat.mul_le_mul_right _ hsmall
  rw [pow_succ, pow_succ] at hlower
  simp only [paddingMinSize, paddingGrowthNumerator, paddingGrowthDenominator] at *
  calc 4 * geometricSize (k + 1) * 4 ^ k = geometricSize (k + 1) * (4 ^ k * 4) := by ring
    _ ≤ 10 * 1024 * (5 ^ k * 5) := hlower
    _ = 5 * (10 * 1024 * 5 ^ k) := by ring
    _ < 5 * (len * 4 ^ k) := by omega
    _ = 5 * len * 4 ^ k := by ring

/-- The variables of the loop after `k` growths. -/
private def geometricState (k : ℕ) : ℕ × ℕ × ℕ :=
  (paddingMinSize * paddingGrowthNumerator ^ k, paddingGrowthDenominator ^ k, geometricSize k)

/-- The last growth whose numerator fits in a `u128`. -/
def lastGrowth : ℕ := 49

private theorem growth_fits {k : ℕ} (hk : k ≤ lastGrowth) :
    paddingMinSize * paddingGrowthNumerator ^ k ≤ u128Max ∧
      paddingGrowthDenominator ^ k ≤ u128Max :=
  ⟨(Nat.mul_le_mul_left _ (Nat.pow_le_pow_right (by decide) hk)).trans (by decide),
    (Nat.pow_le_pow_right (by decide) hk).trans (by decide)⟩

section Search

variable {len target : ℕ}

private theorem geometricBucketStep_next {k : ℕ} (hk : k < lastGrowth)
    (hsmall : geometricSize k < len) :
    geometricBucketStep len (geometricState k) = .ok (.next (geometricState (k + 1))) := by
  obtain ⟨hnumerator, hdenominator⟩ := growth_fits (Nat.succ_le_of_lt hk)
  rw [geometricState, geometricBucketStep_eq_next_iff]
  rw [pow_succ, ← Nat.mul_assoc] at hnumerator
  rw [pow_succ] at hdenominator
  refine ⟨hsmall, hnumerator, hdenominator, ?_⟩
  rw [geometricState, geometricSize, pow_succ, pow_succ, ← Nat.mul_assoc]
  rfl

private theorem geometricBucketStep_done {k : ℕ} (hreached : ¬ geometricSize k < len) :
    geometricBucketStep len (geometricState k) = .ok (.done (geometricSize k)) := by
  rw [geometricState, geometricBucketStep, if_neg hreached]

/-- One more growth and the numerator overflows. -/
private theorem geometricBucketStep_last (hsmall : geometricSize lastGrowth < len) :
    geometricBucketStep len (geometricState lastGrowth) = .fail .padding := by
  have hoverflow : checkedMulU128 (paddingMinSize * paddingGrowthNumerator ^ lastGrowth)
      paddingGrowthNumerator = none := by decide
  rw [geometricState, geometricBucketStep, if_pos hsmall, hoverflow]
  rfl

/-- The loop stops at the first size that holds the length. -/
private theorem loop_geometricBucketStep_eq_ok_iff :
    loop (geometricBucketStep len) 128 (paddingMinSize, 1, paddingMinSize / 1) = .ok target ↔
      ∃ k ≤ lastGrowth, (∀ i < k, geometricSize i < len) ∧ len ≤ geometricSize k ∧
        target = geometricSize k := by
  have hstart : (paddingMinSize, 1, paddingMinSize / 1) = geometricState 0 := by decide
  have hnext : ∀ k < lastGrowth, geometricSize k < len →
      geometricBucketStep len (geometricState k) = .ok (.next (geometricState (k + 1))) :=
    fun k hk hsmall => geometricBucketStep_next hk hsmall
  rw [hstart, loop_search_eq_ok_iff hnext (fun _ _ hreached => geometricBucketStep_done hreached)
    (fun hsmall => ⟨_, geometricBucketStep_last hsmall⟩) (Nat.zero_le _) (by decide)]
  simp only [Nat.zero_le, true_and, forall_const, not_lt]

/-- The sizes that hold a length. -/
def HoldingSizes (len : ℕ) : Set ℕ := {size | size ∈ Set.range geometricSize ∧ len ≤ size}

/-- The first size that holds the length is the smallest one. -/
private theorem isLeast_holdingSizes_iff :
    IsLeast (HoldingSizes len) target ↔
      ∃ k, (∀ i < k, geometricSize i < len) ∧ len ≤ geometricSize k ∧
        target = geometricSize k := by
  constructor
  · rintro ⟨⟨⟨k, rfl⟩, hholds⟩, hleast⟩
    refine ⟨k, fun i hi => ?_, hholds, rfl⟩
    by_contra hreached
    exact absurd (hleast ⟨⟨i, rfl⟩, not_lt.mp hreached⟩)
      (not_le.mpr (geometricSize_strictMono hi))
  · rintro ⟨k, hbefore, hholds, rfl⟩
    refine ⟨⟨⟨k, rfl⟩, hholds⟩, ?_⟩
    rintro _ ⟨⟨i, rfl⟩, hi⟩
    exact geometricSize_strictMono.monotone (not_lt.mp fun hik => absurd (hbefore i hik)
      (not_lt.mpr hi))

/-- Some size holds any length. -/
theorem exists_isLeast_holdingSizes (len : ℕ) : ∃ target, IsLeast (HoldingSizes len) target := by
  have hholds : (HoldingSizes len).Nonempty :=
    ⟨geometricSize len, ⟨len, rfl⟩, geometricSize_strictMono.le_apply⟩
  exact ⟨_, Nat.sInf_mem hholds, fun _ hsize => Nat.sInf_le hsize⟩

end Search

section Bucket

variable [Target] {len target : ℕ}

/-- The bucket is the smallest size that holds the length, and there is one as long as that
size takes no more growths than the numerator can and fits in a `usize`. -/
theorem geometricBucket_eq_ok_iff :
    geometricBucket len = .ok target ↔
      IsLeast (HoldingSizes len) target ∧ target ≤ geometricSize lastGrowth ∧
        target ≤ usizeMax := by
  have hleast : (∃ k ≤ lastGrowth, (∀ i < k, geometricSize i < len) ∧ len ≤ geometricSize k ∧
      target = geometricSize k) ↔
        IsLeast (HoldingSizes len) target ∧ target ≤ geometricSize lastGrowth := by
    rw [isLeast_holdingSizes_iff]
    constructor
    · rintro ⟨k, hk, hbefore, hholds, rfl⟩
      exact ⟨⟨k, hbefore, hholds, rfl⟩, geometricSize_strictMono.monotone hk⟩
    · rintro ⟨⟨k, hbefore, hholds, rfl⟩, hlast⟩
      exact ⟨k, geometricSize_strictMono.le_iff_le.mp hlast, hbefore, hholds, rfl⟩
  rw [← and_assoc, ← hleast, geometricBucket]
  split
  · rename_i hsmall
    rw [← geometricSize_zero] at hsmall ⊢
    have hmachine : geometricSize 0 ≤ usizeMax := by
      have hwidth := u32Max_le_usizeMax
      rw [geometricSize_zero]
      exact le_trans (by decide) hwidth
    constructor
    · rintro ⟨⟩
      exact ⟨⟨0, Nat.zero_le _, fun i hi => absurd hi (Nat.not_lt_zero i), hsmall, rfl⟩, hmachine⟩
    · rintro ⟨⟨k, -, hbefore, -, rfl⟩, -⟩
      rcases Nat.eq_zero_or_pos k with rfl | hpos
      · rfl
      · exact absurd (hbefore 0 hpos) (not_lt.mpr hsmall)
  · simp only [Exec.bind_eq_ok_iff, loop_geometricBucketStep_eq_ok_iff, Exec.okOr_eq_ok_iff,
      usizeTryFrom_eq_some_iff]
    constructor
    · rintro ⟨_, hfound, hmachine, rfl⟩
      exact ⟨hfound, hmachine⟩
    · rintro ⟨hfound, hmachine⟩
      exact ⟨target, hfound, hmachine, rfl⟩

omit [Target] in
/-- A length above the smallest bucket is padded by less than a quarter. -/
theorem four_mul_lt_of_isLeast (hleast : IsLeast (HoldingSizes len) target)
    (hlarge : paddingMinSize < len) : 4 * target < 5 * len := by
  obtain ⟨k, hbefore, hholds, rfl⟩ := isLeast_holdingSizes_iff.mp hleast
  cases k with
  | zero =>
      rw [geometricSize_zero] at hholds
      exact absurd hlarge (not_lt.mpr hholds)
  | succ k => exact four_mul_geometricSize_succ_lt (hbefore k (Nat.lt_succ_self k))

/-- Padding grows a length to the smallest of the geometric sizes that holds it, a size that
padding leaves as it is; it keeps the order of lengths, and adds less than a quarter to a
length above the smallest size. It comes back for every length. -/
theorem paddedSize_geometric_tight (len : ℕ) :
    (Padding.geometric.paddedSize len).Returns ∧
      ∀ target, Padding.geometric.paddedSize len = .ok target →
        IsLeast {size | (∃ k, geometricSize k = size) ∧ len ≤ size} target ∧
          Padding.geometric.paddedSize target = .ok target ∧
          (∀ longer target', len ≤ longer → Padding.geometric.paddedSize longer = .ok target' →
            target ≤ target') ∧
          (paddingMinSize < len → 4 * target < 5 * len) := by
  refine ⟨returns_paddedSize _, fun target hsize => ?_⟩
  obtain ⟨hleast, hlast, hmachine⟩ := geometricBucket_eq_ok_iff.mp hsize
  refine ⟨hleast, ?_, ?_, four_mul_lt_of_isLeast hleast⟩
  · refine geometricBucket_eq_ok_iff.mpr ⟨⟨⟨hleast.1.1, le_refl target⟩, ?_⟩, hlast, hmachine⟩
    exact fun size hholds => hholds.2
  · intro longer target' hlonger hsize'
    obtain ⟨hleast', -, -⟩ := geometricBucket_eq_ok_iff.mp hsize'
    exact hleast'.mono hleast fun size hholds => ⟨hholds.1, hlonger.trans hholds.2⟩

example : @Padding.paddedSize target64 .geometric 39063 = .ok 48828 := by decide +kernel

/-- Padding succeeds up to the last size the numerator can reach. -/
theorem exists_geometricBucket_eq_ok_iff (len : ℕ) :
    (∃ target, geometricBucket len = .ok target) ↔ len ≤ geometricSize lastGrowth := by
  constructor
  · rintro ⟨target, hbucket⟩
    obtain ⟨hleast, hlast, -⟩ := geometricBucket_eq_ok_iff.mp hbucket
    exact hleast.1.2.trans hlast
  · intro hlen
    obtain ⟨target, hleast⟩ := exists_isLeast_holdingSizes len
    have hlast : target ≤ geometricSize lastGrowth := hleast.2 ⟨⟨lastGrowth, rfl⟩, hlen⟩
    have hmachine : geometricSize lastGrowth ≤ usizeMax :=
      le_trans (by decide) u32Max_le_usizeMax
    exact ⟨target, geometricBucket_eq_ok_iff.mpr ⟨hleast, hlast, hlast.trans hmachine⟩⟩

end Bucket

/-- On a 64-bit machine the limit is the numerator's alone: the `u128` overflows before the
size reaches a length of 573,971,851 bytes or more. -/
theorem geometricBucket_target64_ok_iff (len : ℕ) :
    (∃ target, @geometricBucket target64 len = .ok target) ↔ len ≤ 573971850 := by
  have hlimit : geometricSize lastGrowth = 573971850 := by decide +kernel
  rw [@exists_geometricBucket_eq_ok_iff target64, hlimit]

/-- Such a length is below the most bytes the encoder takes in one item. -/
theorem geometricBucket_target64_overflow :
    573971851 ≤ u32Max ∧ @geometricBucket target64 573971851 = .fail .padding := by
  decide +kernel

end Bip138.Ll
