/-
# Ordered sets

Rust offers two ways to a sorted list without repetitions: collect into a
`BTreeSet`, or `sort` a vector and `dedup` it. The first is a structure here
that carries its strict order as a field; the second is the function
`sortDedup`. Both yield the list of the set (`sortDedup_eq`), and a set is
determined by its members (`BTreeSet.ext_mem`), so no result downstream depends
on which way the source took or in which order it inserted.
-/

import Mathlib.Data.Finset.Sort
import Mathlib.Data.List.Sort
import Bip138.Rust.Bytes

namespace Bip138.Rust

variable {α β : Type} [LinearOrder α]

/-- A `BTreeSet`: its elements in strictly increasing order. -/
structure BTreeSet (α : Type) [LinearOrder α] where
  /-- The elements, as `into_iter` yields them. -/
  toList : List α
  /-- The order of the elements, and with it that none is repeated. -/
  sorted : toList.Pairwise (· < ·)

namespace BTreeSet

instance : Membership α (BTreeSet α) := ⟨fun set item => item ∈ set.toList⟩

@[simp]
theorem mem_toList {set : BTreeSet α} {item : α} : item ∈ set.toList ↔ item ∈ set := Iff.rfl

instance (set : BTreeSet α) (item : α) : Decidable (item ∈ set) :=
  inferInstanceAs (Decidable (item ∈ set.toList))

/-- A set is determined by its members. -/
theorem ext_mem {first second : BTreeSet α} (hmem : ∀ item, item ∈ first ↔ item ∈ second) :
    first = second := by
  cases first with
  | mk firstList hfirst =>
    cases second with
    | mk secondList hsecond =>
      congr 1
      exact hfirst.eq_of_mem_iff hsecond hmem

/-- Put an item in its place in an increasing list, unless it is there. -/
def insertSorted (item : α) : List α → List α
  | [] => [item]
  | head :: rest =>
      if item < head then item :: head :: rest
      else if head < item then head :: insertSorted item rest
      else head :: rest

theorem mem_insertSorted {item other : α} {items : List α} :
    other ∈ insertSorted item items ↔ other = item ∨ other ∈ items := by
  induction items with
  | nil => simp [insertSorted]
  | cons head rest ih =>
      unfold insertSorted
      split
      · simp
      · rename_i hnotbelow
        split
        · simp only [List.mem_cons, ih]
          tauto
        · rename_i hnotabove
          have hequal : item = head :=
            le_antisymm (not_lt.mp hnotabove) (not_lt.mp hnotbelow)
          simp [hequal]

theorem pairwise_insertSorted (item : α) {items : List α} (hitems : items.Pairwise (· < ·)) :
    (insertSorted item items).Pairwise (· < ·) := by
  induction items with
  | nil => simp [insertSorted]
  | cons head rest ih =>
      obtain ⟨hhead, hrest⟩ := List.pairwise_cons.mp hitems
      unfold insertSorted
      split
      · rename_i hbelow
        refine List.pairwise_cons.mpr ⟨fun other hother => ?_, hitems⟩
        rcases List.mem_cons.mp hother with rfl | hother
        · exact hbelow
        · exact hbelow.trans (hhead other hother)
      · split
        · rename_i habove
          refine List.pairwise_cons.mpr ⟨fun other hother => ?_, ih hrest⟩
          rcases mem_insertSorted.mp hother with rfl | hother
          · exact habove
          · exact hhead other hother
        · exact hitems

/-- `BTreeSet::new`. -/
def empty : BTreeSet α := ⟨[], List.Pairwise.nil⟩

/-- `BTreeSet::insert`. -/
def insert (set : BTreeSet α) (item : α) : BTreeSet α :=
  ⟨insertSorted item set.toList, pairwise_insertSorted item set.sorted⟩

/-- `BTreeSet::extend`. -/
def extend (set : BTreeSet α) (items : List α) : BTreeSet α := items.foldl insert set

/-- `collect::<BTreeSet<_>>`. -/
def collect (items : List α) : BTreeSet α := empty.extend items

@[simp]
theorem not_mem_empty (item : α) : item ∉ (empty : BTreeSet α) := List.not_mem_nil

@[simp]
theorem mem_insert {set : BTreeSet α} {item other : α} :
    other ∈ set.insert item ↔ other = item ∨ other ∈ set := mem_insertSorted

@[simp]
theorem mem_extend {set : BTreeSet α} {items : List α} {item : α} :
    item ∈ set.extend items ↔ item ∈ set ∨ item ∈ items := by
  unfold extend
  induction items generalizing set with
  | nil => simp
  | cons head rest ih =>
      rw [List.foldl_cons, ih, mem_insert, List.mem_cons]
      tauto

@[simp]
theorem mem_collect {items : List α} {item : α} : item ∈ collect items ↔ item ∈ items := by
  simp [collect]

theorem nodup_toList (set : BTreeSet α) : set.toList.Nodup :=
  set.sorted.imp fun hless => ne_of_lt hless

/-- Collecting depends only on which items occur. -/
theorem collect_congr {first second : List α} (hmem : ∀ item, item ∈ first ↔ item ∈ second) :
    collect first = collect second := by
  apply ext_mem
  simpa using hmem

/-- Collecting the elements of a set changes nothing. -/
@[simp]
theorem collect_toList (set : BTreeSet α) : collect set.toList = set := by
  apply ext_mem
  simp

theorem toList_eq_of_pairwise {set : BTreeSet α} {items : List α}
    (hitems : items.Pairwise (· < ·)) (hmem : ∀ item, item ∈ items ↔ item ∈ set) :
    items = set.toList :=
  hitems.eq_of_mem_iff set.sorted hmem

theorem toList_collect_eq_nil_iff {items : List α} :
    (collect items).toList = [] ↔ items = [] := by
  simp only [List.eq_nil_iff_forall_not_mem, mem_toList, mem_collect]

/-- A set has at most as many items as a list that holds all of them. -/
theorem length_toList_le {set : BTreeSet α} {items : List α} (hsubset : set.toList ⊆ items) :
    set.toList.length ≤ items.length :=
  (List.subperm_of_subset set.nodup_toList hsubset).length_le

/-- Nothing is lost when distinct items are collected. -/
theorem perm_toList_collect {items : List α} (hnodup : items.Nodup) :
    (collect items).toList.Perm items := by
  apply (List.perm_ext_iff_of_nodup (nodup_toList _) hnodup).mpr
  intro item
  rw [mem_toList, mem_collect]

theorem length_toList_collect {items : List α} (hnodup : items.Nodup) :
    (collect items).toList.length = items.length := (perm_toList_collect hnodup).length_eq

/-- A set yields the elements of the finite set with its members, in order. -/
theorem toList_eq_sort {set : BTreeSet α} {items : Finset α}
    (hmem : ∀ item, item ∈ set ↔ item ∈ items) : set.toList = items.sort := by
  symm
  apply toList_eq_of_pairwise items.sortedLT_sort.pairwise
  intro item
  rw [Finset.mem_sort, hmem]

theorem length_toList_eq_card {set : BTreeSet α} {items : Finset α}
    (hmem : ∀ item, item ∈ set ↔ item ∈ items) : set.toList.length = items.card := by
  rw [toList_eq_sort hmem, Finset.length_sort]

end BTreeSet

/-- `Vec::dedup`: drop each item equal to the one before it. -/
def dedup : List α → List α
  | [] => []
  | [item] => [item]
  | first :: second :: rest =>
      if first = second then dedup (second :: rest) else first :: dedup (second :: rest)

/-- `sort` followed by `dedup`. -/
def sortDedup (items : List α) : List α := dedup (items.insertionSort (· ≤ ·))

theorem mem_dedup {items : List α} {item : α} : item ∈ dedup items ↔ item ∈ items := by
  induction items using dedup.induct with
  | case1 => simp [dedup]
  | case2 only => simp [dedup]
  | case3 second rest ih =>
      rw [dedup, if_pos rfl, ih]
      simp
  | case4 first second rest hne ih =>
      rw [dedup, if_neg hne, List.mem_cons, ih, List.mem_cons (b := first)]

theorem pairwise_dedup {items : List α} (hitems : items.Pairwise (· ≤ ·)) :
    (dedup items).Pairwise (· < ·) := by
  induction items using dedup.induct with
  | case1 => exact List.Pairwise.nil
  | case2 only => simp [dedup]
  | case3 second rest ih =>
      rw [dedup, if_pos rfl]
      exact ih (List.pairwise_cons.mp hitems).2
  | case4 first second rest hne ih =>
      obtain ⟨hfirst, htail⟩ := List.pairwise_cons.mp hitems
      rw [dedup, if_neg hne]
      refine List.pairwise_cons.mpr ⟨fun item hitem => ?_, ih htail⟩
      have hless : first < second := lt_of_le_of_ne (hfirst second (by simp)) hne
      rcases List.mem_cons.mp (mem_dedup.mp hitem) with rfl | hrest
      · exact hless
      · exact hless.trans_le ((List.pairwise_cons.mp htail).1 item hrest)

/-- Sorting and deduplicating yields the list of the ordered set. -/
theorem sortDedup_eq (items : List α) : sortDedup items = (BTreeSet.collect items).toList := by
  apply BTreeSet.toList_eq_of_pairwise
  · exact pairwise_dedup (List.pairwise_insertionSort (· ≤ ·) items)
  · intro item
    rw [sortDedup, mem_dedup, List.mem_insertionSort, BTreeSet.mem_collect]

end Bip138.Rust
