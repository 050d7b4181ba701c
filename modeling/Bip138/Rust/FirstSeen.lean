/-
# Items in the order they are first seen

A list without its repetitions, each item at the place of its first occurrence, is what a
loop collects that adds an item unless it is there (`foldl_addNew`). The places of the items
in that list are numbers that count up, each first seen right after the one below it
(`countsUp_map_idxOf`), and such numbers are what a loop recognises that lets pass only the
next number and those before it (`foldlM_nextNumber_eq_some_iff`).
-/

import Mathlib.Data.List.Nodup
import Mathlib.Data.List.Range
import Bip138.Rust.Loop

namespace Bip138.Rust

section Items

variable {α β : Type} [DecidableEq α] [DecidableEq β]

/-- Add an item unless it is there. -/
def addNew (items : List α) (item : α) : List α :=
  if item ∈ items then items else items ++ [item]

theorem eraseDups_concat (items : List α) (item : α) :
    (items ++ [item]).eraseDups = addNew items.eraseDups item := by
  rw [List.eraseDups_append, addNew]
  by_cases hmem : item ∈ items
  · simp [List.removeAll, hmem]
  · simp [List.removeAll, hmem, List.eraseDups_cons]

/-- The loop that collects the items. -/
theorem foldl_addNew (items : List α) : items.foldl addNew [] = items.eraseDups := by
  induction items using List.reverseRecOn with
  | nil => rfl
  | append_singleton items item ih =>
      rw [List.foldl_append, ih, eraseDups_concat, List.foldl_cons, List.foldl_nil]

theorem nodup_eraseDups (items : List α) : items.eraseDups.Nodup := by
  induction items using List.reverseRecOn with
  | nil => exact List.nodup_nil
  | append_singleton items item ih =>
      rw [eraseDups_concat, addNew]
      split
      · exact ih
      · rename_i hnew
        rw [← List.concat_eq_append]
        exact ih.concat hnew

/-- An item that is there makes no difference, at the end or at its first place again. -/
theorem eraseDups_concat_head (item : α) (items : List α) :
    (item :: items ++ [item]).eraseDups = (item :: item :: items).eraseDups := by
  rw [eraseDups_concat, addNew, if_pos (List.mem_eraseDups.mpr List.mem_cons_self)]
  simp [List.eraseDups_cons]

theorem length_eraseDups_of_perm {first second : List α} (hperm : first.Perm second) :
    first.eraseDups.length = second.eraseDups.length := by
  refine List.Perm.length_eq ((List.perm_ext_iff_of_nodup (nodup_eraseDups first)
    (nodup_eraseDups second)).mpr fun item => ?_)
  rw [List.mem_eraseDups, List.mem_eraseDups]
  exact hperm.mem_iff

/-- What tells the items apart keeps their order. -/
theorem eraseDups_map {f : α → β} {items : List α}
    (hinj : ∀ first ∈ items, ∀ second ∈ items, f first = f second → first = second) :
    (items.map f).eraseDups = items.eraseDups.map f := by
  induction items using List.reverseRecOn with
  | nil => rfl
  | append_singleton items item ih =>
      have hmem : f item ∈ items.eraseDups.map f ↔ item ∈ items.eraseDups := by
        simp only [List.mem_map, List.mem_eraseDups]
        constructor
        · rintro ⟨other, hother, hsame⟩
          rwa [hinj other (List.mem_append_left _ hother) item
            (List.mem_append_right _ (List.mem_singleton_self item)) hsame] at hother
        · exact fun hitem => ⟨item, hitem, rfl⟩
      rw [List.map_append, List.map_singleton, eraseDups_concat, eraseDups_concat,
        ih fun first hfirst second hsecond => hinj first (List.mem_append_left _ hfirst) second
          (List.mem_append_left _ hsecond), addNew, addNew]
      by_cases hitem : item ∈ items.eraseDups
      · rw [if_pos (hmem.mpr hitem), if_pos hitem]
      · rw [if_neg (mt hmem.mp hitem), if_neg hitem, List.map_append, List.map_singleton]

/-- The items stand in the order of their first places. -/
theorem pairwise_idxOf_eraseDups (items : List α) :
    items.eraseDups.Pairwise fun first second => items.idxOf first < items.idxOf second := by
  induction items using List.reverseRecOn with
  | nil => exact List.Pairwise.nil
  | append_singleton items item ih =>
      have hbefore : items.eraseDups.Pairwise fun first second =>
          (items ++ [item]).idxOf first < (items ++ [item]).idxOf second := by
        refine ih.imp_of_mem fun hfirst hsecond hless => ?_
        rwa [List.idxOf_append_of_mem (List.mem_eraseDups.mp hfirst),
          List.idxOf_append_of_mem (List.mem_eraseDups.mp hsecond)]
      rw [eraseDups_concat, addNew]
      split
      · exact hbefore
      · rename_i hnew
        rw [List.mem_eraseDups] at hnew
        rw [List.pairwise_append]
        refine ⟨hbefore, List.pairwise_singleton _ _, fun first hfirst second hsecond => ?_⟩
        rw [List.mem_eraseDups] at hfirst
        rw [List.mem_singleton.mp hsecond, List.idxOf_append_of_mem hfirst,
          List.idxOf_append_of_notMem hnew]
        exact (List.idxOf_lt_length_of_mem hfirst).trans_le (Nat.le_add_right _ _)

end Items

/-- The items are told by their order: no other list of them has their first places in
that order. -/
theorem eq_eraseDups_of_pairwise_idxOf {α : Type} [same : BEq α] [LawfulBEq α]
    {items sorted : List α} (hmem : ∀ item, item ∈ sorted ↔ item ∈ items)
    (hsorted : sorted.Pairwise fun first second => items.idxOf first < items.idxOf second) :
    sorted = items.eraseDups := by
  classical
  obtain rfl : same = instBEqOfDecidableEq := lawful_beq_subsingleton _ _
  have hnodup : sorted.Nodup := hsorted.imp fun hless hsame => by
    rw [hsame] at hless
    exact lt_irrefl _ hless
  have hperm : sorted.Perm items.eraseDups :=
    (List.perm_ext_iff_of_nodup hnodup (nodup_eraseDups items)).mpr fun item => by
      rw [hmem, List.mem_eraseDups]
  exact hperm.eq_of_pairwise (fun _ _ _ _ hless hmore => absurd hless hmore.asymm) hsorted
    (pairwise_idxOf_eraseDups items)

/-- The numbers are first seen in the order `0, 1, ...`, without a gap. -/
def CountsUp (numbers : List ℕ) : Prop :=
  numbers.eraseDups = List.range numbers.eraseDups.length

instance (numbers : List ℕ) : Decidable (CountsUp numbers) :=
  inferInstanceAs (Decidable (_ = _))

theorem countsUp_iff {numbers : List ℕ} :
    CountsUp numbers ↔ ∃ count, numbers.eraseDups = List.range count := by
  refine ⟨fun hcounts => ⟨_, hcounts⟩, fun ⟨count, hcount⟩ => ?_⟩
  rw [CountsUp, hcount, List.length_range]

/-- Numbers that count up start with `0`. -/
theorem CountsUp.head_eq_zero {number : ℕ} {numbers : List ℕ}
    (hcounts : CountsUp (number :: numbers)) : number = 0 := by
  obtain ⟨count, hcount⟩ := countsUp_iff.mp hcounts
  cases count with
  | zero => simp [List.eraseDups_cons] at hcount
  | succ count =>
      rw [List.eraseDups_cons, List.range_succ_eq_map, List.cons.injEq] at hcount
      exact hcount.1

section Places

variable {α : Type} [DecidableEq α] {items seen : List α} {places : List ℕ}

theorem map_idxOf_self (hnodup : items.Nodup) :
    items.map items.idxOf = List.range items.length := by
  refine List.ext_getElem (by simp) fun index hindex _ => ?_
  rw [List.length_map] at hindex
  rw [List.getElem_map, List.getElem_range, hnodup.idxOf_getElem index hindex]

theorem eraseDups_map_idxOf (hmem : ∀ item ∈ seen, item ∈ items) :
    (seen.map items.idxOf).eraseDups = seen.eraseDups.map items.idxOf :=
  eraseDups_map fun first hfirst _ _ hsame => (List.idxOf_inj (hmem first hfirst)).mp hsame

theorem map_getElem?_map_idxOf (hmem : ∀ item ∈ seen, item ∈ items) :
    (seen.map items.idxOf).map (fun place => items[place]?) = seen.map some := by
  rw [List.map_map]
  refine List.map_congr_left fun item hitem => ?_
  rw [Function.comp_apply, List.getElem?_eq_getElem (List.idxOf_lt_length_of_mem (hmem item hitem)),
    List.getElem_idxOf]

/-- The places of the items in the list of them count up. -/
theorem eraseDups_map_idxOf_self (items : List α) :
    (items.map items.eraseDups.idxOf).eraseDups = List.range items.eraseDups.length := by
  rw [eraseDups_map_idxOf fun _ hitem => List.mem_eraseDups.mpr hitem,
    map_idxOf_self (nodup_eraseDups items)]

/-- An item of a list without repetitions has one place. -/
theorem map_idxOf_of_places (hnodup : items.Nodup)
    (hplaces : List.Forall₂ (fun place item => items[place]? = some item) places seen) :
    seen.map items.idxOf = places := by
  rw [← List.forall₂_eq_eq_eq, List.forall₂_map_left_iff]
  refine hplaces.flip.imp fun item place hplace => ?_
  obtain ⟨hlt, rfl⟩ := List.getElem?_eq_some_iff.mp hplace
  exact hnodup.idxOf_getElem place hlt

/-- What is seen at places that count up, and at all of them, is the list. -/
theorem eraseDups_eq_of_places (hnodup : items.Nodup)
    (hplaces : List.Forall₂ (fun place item => items[place]? = some item) places seen)
    (hcounts : CountsUp places) (hall : ∀ place < items.length, place ∈ places) :
    seen.eraseDups = items := by
  have hseen : ∀ item ∈ seen, item ∈ items :=
    forall_mem_of_forall₂ hplaces.flip fun _ _ hplace => List.mem_of_getElem? hplace
  have hbound : ∀ place ∈ places, place < items.length :=
    forall_mem_of_forall₂ hplaces fun _ _ hplace => (List.getElem?_eq_some_iff.mp hplace).1
  have hrange : seen.eraseDups.map items.idxOf = items.map items.idxOf := by
    rw [← eraseDups_map_idxOf hseen, map_idxOf_of_places hnodup hplaces, map_idxOf_self hnodup]
    obtain ⟨count, hcount⟩ := countsUp_iff.mp hcounts
    rw [hcount]
    refine congrArg List.range (eq_of_forall_lt_iff fun place => ?_)
    rw [← List.mem_range, ← hcount, List.mem_eraseDups]
    exact ⟨hbound place, hall place⟩
  refine List.map_injective_iff.mpr (Option.some_injective α) ?_
  rw [← map_getElem?_map_idxOf fun item hitem => hseen item (List.mem_eraseDups.mp hitem), hrange,
    map_getElem?_map_idxOf fun _ hitem => hitem]

end Places

/-- Let the next number pass, and those before it. -/
def nextNumber (next number : ℕ) : Option ℕ :=
  if number = next then some (next + 1) else if number < next then some next else none

/-- The loop gets through numbers that count up, to the number after them. -/
theorem foldlM_nextNumber_eq_some_iff {numbers : List ℕ} {next : ℕ} :
    numbers.foldlM nextNumber 0 = some next ↔ numbers.eraseDups = List.range next := by
  induction numbers using List.reverseRecOn generalizing next with
  | nil =>
      rw [List.eraseDups_nil, eq_comm (a := []), List.range_eq_nil, List.foldlM_nil]
      exact Option.some_inj.trans eq_comm
  | append_singleton numbers number ih =>
      rw [List.foldlM_append, Option.bind_eq_bind, Option.bind_eq_some_iff, eraseDups_concat,
        addNew]
      simp only [ih, List.foldlM_cons, List.foldlM_nil, Option.bind_eq_bind, nextNumber]
      constructor
      · rintro ⟨before, hbefore, hpass⟩
        rw [hbefore]
        split at hpass
        · rename_i hnext
          cases hpass
          rw [hnext, if_neg List.not_mem_range_self, List.range_succ]
        · split at hpass
          · rename_i hless
            cases hpass
            rw [if_pos (List.mem_range.mpr hless)]
          · cases hpass
      · intro hnumbers
        split at hnumbers
        · rename_i hmem
          refine ⟨next, hnumbers, ?_⟩
          rw [hnumbers, List.mem_range] at hmem
          rw [if_neg hmem.ne, if_pos hmem]
          rfl
        · cases next with
          | zero => simp at hnumbers
          | succ next =>
              rw [List.range_succ] at hnumbers
              obtain ⟨hbefore, hlast⟩ := List.append_inj' hnumbers rfl
              cases hlast
              exact ⟨_, hbefore, by simp⟩

/-- The number the loop expects next never decreases. -/
theorem le_of_foldlM_nextNumber {numbers : List ℕ} {next last : ℕ}
    (hrun : numbers.foldlM nextNumber next = some last) : next ≤ last := by
  induction numbers generalizing next with
  | nil =>
      cases hrun
      exact le_rfl
  | cons number numbers ih =>
      rw [List.foldlM_cons, Option.bind_eq_bind, Option.bind_eq_some_iff] at hrun
      obtain ⟨mid, hpass, hrest⟩ := hrun
      have hmid := ih hrest
      rw [nextNumber] at hpass
      split at hpass
      · cases hpass
        exact (Nat.le_succ next).trans hmid
      · split at hpass
        · cases hpass
          exact hmid
        · cases hpass

end Bip138.Rust
