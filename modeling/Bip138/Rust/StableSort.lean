/-
# Sorting what is sorted already

`sort_by_key` keeps items of one key in the order they come in. Items that come in the
order of one key are therefore sorted by the other key first and by that one among equals
(`pairwise_mergeSort_of_pairwise`). A list in which the items of one kind stand before all
others is these items and then the others (`filter_append_filter_not_of_pairwise`).
-/

import Mathlib.Data.List.Sort

namespace Bip138.Rust

section Keys

variable {α κ τ : Type} [LinearOrder κ] [LinearOrder τ] {key : α → κ} {tie : α → τ}
  {items : List α}

private theorem decide_le_trans (key : α → κ) (first second third : α) :
    decide (key first ≤ key second) = true → decide (key second ≤ key third) = true →
      decide (key first ≤ key third) = true := by
  rw [decide_eq_true_eq, decide_eq_true_eq, decide_eq_true_eq]
  exact le_trans

private theorem decide_le_total (key : α → κ) (first second : α) :
    (decide (key first ≤ key second) || decide (key second ≤ key first)) = true := by
  rw [Bool.or_eq_true, decide_eq_true_eq, decide_eq_true_eq]
  exact le_total (key first) (key second)

theorem pairwise_mergeSort_key (key : α → κ) (items : List α) :
    (items.mergeSort fun first second => decide (key first ≤ key second)).Pairwise
      fun first second => key first ≤ key second :=
  (List.pairwise_mergeSort (decide_le_trans key) (decide_le_total key) items).imp
    fun hle => of_decide_eq_true hle

/-- Items that come in the order of a tie are in the order of the key and, among equals, of
the tie once they are sorted. -/
theorem pairwise_mergeSort_of_pairwise
    (hitems : items.Pairwise fun first second => tie first < tie second) :
    (items.mergeSort fun first second => decide (key first ≤ key second)).Pairwise
      fun first second =>
        key first < key second ∨ key first = key second ∧ tie first < tie second := by
  induction items with
  | nil => simp
  | cons head items ih =>
      obtain ⟨hhead, htail⟩ := List.pairwise_cons.mp hitems
      -- the head goes before the first item whose key is not smaller
      obtain ⟨before, after, hsorted, hrest, hbefore⟩ := List.mergeSort_cons (decide_le_trans key)
        (decide_le_total key) head items
      have hafter : ∀ item ∈ after, key head ≤ key item := by
        have hpairs := pairwise_mergeSort_key key (head :: items)
        rw [hsorted, List.pairwise_append, List.pairwise_cons] at hpairs
        exact hpairs.2.1.1
      have hsplit := ih htail
      rw [hrest, List.pairwise_append] at hsplit
      rw [hsorted, List.pairwise_append, List.pairwise_cons]
      refine ⟨hsplit.1, ⟨fun item hitem => ?_, hsplit.2.1⟩, fun first hfirst second hsecond => ?_⟩
      · have hmem : item ∈ items := by
          rw [← List.mem_mergeSort, hrest]
          exact List.mem_append_right before hitem
        exact (lt_or_eq_of_le (hafter item hitem)).imp_right fun hkey => ⟨hkey, hhead item hmem⟩
      · rcases List.mem_cons.mp hsecond with rfl | hsecond
        · have hless := hbefore first hfirst
          rw [Bool.not_eq_true', decide_eq_false_iff_not, not_le] at hless
          exact .inl hless
        · exact hsplit.2.2 first hfirst second hsecond

end Keys

/-- The items of a kind, and then the others. -/
theorem filter_append_filter_not_of_pairwise {α : Type} {kind : α → Bool} {items : List α}
    (hitems : items.Pairwise fun first second => kind second = true → kind first = true) :
    items.filter kind ++ items.filter (fun item => !kind item) = items := by
  induction items with
  | nil => rfl
  | cons head items ih =>
      obtain ⟨hhead, htail⟩ := List.pairwise_cons.mp hitems
      cases hkind : kind head with
      | true =>
          rw [List.filter_cons_of_pos hkind, List.filter_cons_of_neg (by simp [hkind]),
            List.cons_append, ih htail]
      | false =>
          have hnone : items.filter kind = [] := by
            rw [List.filter_eq_nil_iff]
            intro item hitem hitemKind
            rw [hhead item hitem hitemKind] at hkind
            exact absurd hkind (by decide)
          have hall : items.filter (fun item => !kind item) = items := by
            have hrest := ih htail
            rwa [hnone, List.nil_append] at hrest
          rw [List.filter_cons_of_neg (by simp [hkind]), List.filter_cons_of_pos (by simp [hkind]),
            hnone, hall, List.nil_append]

end Bip138.Rust
