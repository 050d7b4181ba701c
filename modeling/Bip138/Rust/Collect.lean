/-
# Collecting distinct items from a stream

Rejection sampling: draw items from a source one at a time and keep those that
are valid and new, until there are enough of them. Nothing bounds how long that
takes, and a source that has too few such items to offer makes it run forever.

`exists_returns_collect_iff` says exactly when the loop ends: when the stream
holds as many distinct valid new items as are missing. A loop that ends has only
appended such items (`collect_eq_ok`), and it has stopped at the first draw that
made enough of them (`exists_fillsAt_of_collectFrom`).
-/

import Mathlib.Data.Finset.Card
import Bip138.Rust.Loop

namespace Bip138.Rust

variable {ε ρ α : Type}

section Stream

variable (draw : ρ → α × ρ)

/-- The source after a number of draws. -/
def sourceAfter (source : ρ) : ℕ → ρ
  | 0 => source
  | count + 1 => sourceAfter (draw source).2 count

/-- The item of a given draw. -/
def drawn (source : ρ) (count : ℕ) : α := (draw (sourceAfter draw source count)).1

theorem sourceAfter_add (source : ρ) (first second : ℕ) :
    sourceAfter draw source (first + second) =
      sourceAfter draw (sourceAfter draw source first) second := by
  induction first generalizing source with
  | zero => rw [Nat.zero_add, sourceAfter]
  | succ first ih => rw [Nat.succ_add, sourceAfter, sourceAfter, ih]

theorem drawn_succ (source : ρ) (count : ℕ) :
    drawn draw source (count + 1) = drawn draw (draw source).2 count := rfl

theorem drawn_add (source : ρ) (first second : ℕ) :
    drawn draw source (first + second) = drawn draw (sourceAfter draw source first) second := by
  rw [drawn, drawn, sourceAfter_add]

end Stream

section Collect

variable [DecidableEq α] (draw : ρ → α × ρ) (valid : α → Prop) [DecidablePred valid]
  (target : ℕ)

/-- One pass: draw an item and keep it if it is valid and new. -/
def collectStep : List α × ρ → Exec ε (LoopFlow (List α × ρ) (List α))
  | (items, source) =>
    if items.length < target then
      let (item, source) := draw source
      if valid item ∧ item ∉ items then .ok (.next (items ++ [item], source))
      else .ok (.next (items, source))
    else .ok (.done items)

variable {draw valid target} {items : List α} {source : ρ}

theorem collectStep_done (hfull : target ≤ items.length) :
    (collectStep draw valid target (items, source) : Exec ε _) = .ok (.done items) := by
  rw [collectStep, if_neg (not_lt.mpr hfull)]

theorem collectStep_keep (hmissing : items.length < target)
    (hkeep : valid (draw source).1 ∧ (draw source).1 ∉ items) :
    (collectStep draw valid target (items, source) : Exec ε _) =
      .ok (.next (items ++ [(draw source).1], (draw source).2)) := by
  rw [collectStep, if_pos hmissing]
  exact if_pos hkeep

theorem collectStep_skip (hmissing : items.length < target)
    (hskip : ¬ (valid (draw source).1 ∧ (draw source).1 ∉ items)) :
    (collectStep draw valid target (items, source) : Exec ε _) =
      .ok (.next (items, (draw source).2)) := by
  rw [collectStep, if_pos hmissing]
  exact if_neg hskip

/-- Draws that offer nothing new only use up fuel. -/
theorem loop_collectStep_skip (hmissing : items.length < target) {count : ℕ}
    (hskip : ∀ i < count, ¬ (valid (drawn draw source i) ∧ drawn draw source i ∉ items))
    (fuel : ℕ) :
    loop (collectStep draw valid target : _ → Exec ε _) (fuel + count) (items, source) =
      loop (collectStep draw valid target) fuel (items, sourceAfter draw source count) := by
  induction count generalizing source with
  | zero => rfl
  | succ count ih =>
      have hfirst : ¬ (valid (draw source).1 ∧ (draw source).1 ∉ items) := hskip 0 (by omega)
      rw [← Nat.add_assoc, loop_succ_of_next (collectStep_skip hmissing hfirst)]
      apply ih
      intro i hi
      rw [← drawn_succ]
      exact hskip (i + 1) (by omega)

/-- A source with nothing new to offer never ends the loop. -/
theorem loop_collectStep_unfinished (hmissing : items.length < target)
    (hskip : ∀ i, ¬ (valid (drawn draw source i) ∧ drawn draw source i ∉ items)) (fuel : ℕ) :
    loop (collectStep draw valid target : _ → Exec ε _) fuel (items, source) =
      .error .unfinished := by
  have hall := loop_collectStep_skip (ε := ε) hmissing (fun i (_ : i < fuel) => hskip i) 0
  rw [Nat.zero_add] at hall
  rw [hall]
  rfl

/-- What a loop that ends has appended: distinct, valid, new items of the stream,
exactly as many as were missing. -/
theorem collect_eq_ok {fuel : ℕ} {result : List α}
    (hloop : loop (collectStep draw valid target : _ → Exec ε _) fuel (items, source) =
      .ok result) :
    ∃ fresh : List α, result = items ++ fresh ∧ fresh.length = target - items.length ∧ fresh.Nodup ∧
      ∀ item ∈ fresh, valid item ∧ item ∉ items ∧ ∃ i, drawn draw source i = item := by
  induction fuel generalizing items source with
  | zero => cases hloop
  | succ fuel ih =>
      by_cases hmissing : items.length < target
      · by_cases hkeep : valid (draw source).1 ∧ (draw source).1 ∉ items
        · rw [loop_succ_of_next (collectStep_keep hmissing hkeep)] at hloop
          obtain ⟨fresh, rfl, hlength, hnodup, hfresh⟩ := ih hloop
          refine ⟨(draw source).1 :: fresh, by simp, ?_, ?_, ?_⟩
          · rw [List.length_append, List.length_singleton] at hlength
            rw [List.length_cons, hlength]
            omega
          · apply List.nodup_cons.mpr
            refine ⟨fun hmem => ?_, hnodup⟩
            exact (hfresh _ hmem).2.1 (by simp)
          · intro item hitem
            rcases List.mem_cons.mp hitem with rfl | hitem
            · exact ⟨hkeep.1, hkeep.2, 0, rfl⟩
            · obtain ⟨hvalid, hnew, i, hi⟩ := hfresh item hitem
              exact ⟨hvalid, fun hmem => hnew (List.mem_append_left _ hmem), i + 1, hi⟩
        · rw [loop_succ_of_next (collectStep_skip hmissing hkeep)] at hloop
          obtain ⟨fresh, hresult, hlength, hnodup, hfresh⟩ := ih hloop
          refine ⟨fresh, hresult, hlength, hnodup, fun item hitem => ?_⟩
          obtain ⟨hvalid, hnew, i, hi⟩ := hfresh item hitem
          exact ⟨hvalid, hnew, i + 1, hi⟩
      · rw [loop_succ_of_done (collectStep_done (not_lt.mp hmissing))] at hloop
        cases hloop
        refine ⟨[], by simp, ?_, List.nodup_nil, by simp⟩
        rw [List.length_nil, Nat.sub_eq_zero_of_le (not_lt.mp hmissing)]

/-- A stream with enough to offer ends the loop. The induction is on how many
items are missing; each is found at the first draw that offers a new one. -/
theorem exists_collect_eq_ok {fresh : Finset α} (hcard : target - items.length ≤ fresh.card)
    (hfresh : ∀ item ∈ fresh, valid item ∧ item ∉ items ∧ ∃ i, drawn draw source i = item) :
    ∃ fuel result, loop (collectStep draw valid target : _ → Exec ε _) fuel (items, source) =
      .ok result := by
  generalize hmissing : target - items.length = missing at hcard
  induction missing generalizing items source fresh with
  | zero => exact ⟨1, items, loop_succ_of_done (collectStep_done (by omega)) 0⟩
  | succ missing ih =>
      have hoffer : ∃ i, valid (drawn draw source i) ∧ drawn draw source i ∉ items := by
        obtain ⟨item, hitem⟩ := Finset.card_pos.mp (show 0 < fresh.card by omega)
        obtain ⟨hvalid, hnew, i, rfl⟩ := hfresh item hitem
        exact ⟨i, hvalid, hnew⟩
      classical
      have hskip : ∀ i < Nat.find hoffer, _ := fun i hi => Nat.find_min hoffer hi
      have hkeep := Nat.find_spec hoffer
      -- from here on the first draw that offers something is just a number
      generalize Nat.find hoffer = first at hskip hkeep
      have hrest : ∀ item ∈ fresh.erase (drawn draw source first),
          valid item ∧ item ∉ items ++ [drawn draw source first] ∧
            ∃ i, drawn draw (sourceAfter draw source (first + 1)) i = item := by
        intro item hitem
        obtain ⟨hne, hmem⟩ := Finset.mem_erase.mp hitem
        obtain ⟨hvalid, hnew, i, rfl⟩ := hfresh item hmem
        refine ⟨hvalid, ?_, i - (first + 1), ?_⟩
        · rw [List.mem_append, List.mem_singleton]
          exact not_or.mpr ⟨hnew, hne⟩
        · have hlater : first < i := by
            rcases Nat.lt_trichotomy i first with hbefore | hsame | hafter
            · exact absurd ⟨hvalid, hnew⟩ (hskip i hbefore)
            · exact absurd (congrArg (drawn draw source) hsame) hne
            · exact hafter
          rw [← drawn_add, Nat.add_sub_of_le hlater]
      have hlength : target - (items ++ [drawn draw source first]).length = missing := by
        rw [List.length_append, List.length_singleton]
        omega
      have herase : missing ≤ (fresh.erase (drawn draw source first)).card := by
        have hpred := Finset.pred_card_le_card_erase (s := fresh) (a := drawn draw source first)
        omega
      obtain ⟨fuel, result, hloop⟩ := ih hrest hlength herase
      refine ⟨fuel + 1 + first, result, ?_⟩
      rw [loop_collectStep_skip (by omega) hskip,
        loop_succ_of_next (collectStep_keep (by omega) hkeep)]
      rw [sourceAfter_add] at hloop
      exact hloop

/-- The loop ends with a value or not at all: it has no error and no panic of its
own. -/
theorem collect_cases (fuel : ℕ) (items : List α) (source : ρ) :
    (∃ result, loop (collectStep draw valid target : _ → Exec ε _) fuel (items, source) =
        .ok result) ∨
      loop (collectStep draw valid target : _ → Exec ε _) fuel (items, source) =
        .error .unfinished := by
  induction fuel generalizing items source with
  | zero =>
      right
      rfl
  | succ fuel ih =>
      by_cases hmissing : items.length < target
      · by_cases hkeep : valid (draw source).1 ∧ (draw source).1 ∉ items
        · rw [loop_succ_of_next (collectStep_keep hmissing hkeep)]
          exact ih _ _
        · rw [loop_succ_of_next (collectStep_skip hmissing hkeep)]
          exact ih _ _
      · left
        exact ⟨items, loop_succ_of_done (collectStep_done (not_lt.mp hmissing)) fuel⟩

theorem collect_ne_fail (fuel : ℕ) (cause : ε) :
    loop (collectStep draw valid target : _ → Exec ε _) fuel (items, source) ≠ .fail cause := by
  intro hfail
  have hcases : (∃ result, loop (collectStep draw valid target : _ → Exec ε _) fuel
      (items, source) = .ok result) ∨ _ := collect_cases fuel items source
  rcases hcases with ⟨result, hok⟩ | hunfinished
  · rw [hok] at hfail
    cases hfail
  · rw [hunfinished] at hfail
    cases hfail

/-- The loop ends exactly when the stream holds enough distinct valid new items. -/
theorem exists_returns_collect_iff :
    (∃ fuel, (loop (collectStep draw valid target : _ → Exec ε _) fuel (items, source)).Returns) ↔
      ∃ fresh : Finset α, target - items.length ≤ fresh.card ∧
        ∀ item ∈ fresh, valid item ∧ item ∉ items ∧ ∃ i, drawn draw source i = item := by
  constructor
  · intro hreturns
    obtain ⟨fuel, ⟨result, hok⟩ | ⟨cause, hfail⟩⟩ := hreturns
    · obtain ⟨fresh, rfl, hlength, hnodup, hfresh⟩ := collect_eq_ok hok
      refine ⟨fresh.toFinset, ?_, fun item hitem => hfresh item (List.mem_toFinset.mp hitem)⟩
      rw [List.toFinset_card_of_nodup hnodup, hlength]
    · exact absurd hfail (collect_ne_fail fuel cause)
  · intro henough
    obtain ⟨fresh, hcard, hfresh⟩ := henough
    obtain ⟨fuel, result, hok⟩ := exists_collect_eq_ok (ε := ε) hcard hfresh
    exact ⟨fuel, .inl ⟨result, hok⟩⟩

end Collect

section Stop

variable [DecidableEq α] (draw : ρ → α × ρ) (valid : α → Prop) [DecidablePred valid]

/-- One pass that hands the source back with the items. -/
def collectFromStep (target : ℕ) :
    List α × ρ → Exec ε (LoopFlow (List α × ρ) (List α × ρ))
  | (items, source) =>
    (collectStep draw valid target (items, source)).map (LoopFlow.map fun items => (items, source))

/-- The distinct valid new items among the first draws. -/
def offered (items : List α) (source : ρ) (count : ℕ) : Finset α :=
  {item ∈ (Finset.range count).image (drawn draw source) | valid item ∧ item ∉ items}

/-- The first draws offer what is missing, and fewer do not. -/
structure FillsAt (target : ℕ) (items : List α) (source : ρ) (count : ℕ) : Prop where
  enough : target - items.length ≤ (offered draw valid items source count).card
  first : ∀ earlier < count, (offered draw valid items source earlier).card < target - items.length

variable {draw valid} {target count : ℕ} {items : List α} {source : ρ} {item : α}

theorem mem_offered :
    item ∈ offered draw valid items source count ↔
      (∃ i < count, drawn draw source i = item) ∧ valid item ∧ item ∉ items := by
  rw [offered, Finset.mem_filter, Finset.mem_image]
  simp only [Finset.mem_range]

theorem offered_zero : offered draw valid items source 0 = ∅ := rfl

omit [DecidableEq α] in
theorem exists_drawn_succ :
    (∃ i < count + 1, drawn draw source i = item) ↔
      (draw source).1 = item ∨ ∃ i < count, drawn draw (draw source).2 i = item :=
  Nat.exists_lt_succ_left

theorem card_offered_keep (hkeep : valid (draw source).1 ∧ (draw source).1 ∉ items) :
    (offered draw valid items source (count + 1)).card =
      (offered draw valid (items ++ [(draw source).1]) (draw source).2 count).card + 1 := by
  have hinsert : offered draw valid items source (count + 1) =
      insert (draw source).1
        (offered draw valid (items ++ [(draw source).1]) (draw source).2 count) := by
    ext item
    rw [Finset.mem_insert, mem_offered, mem_offered, exists_drawn_succ, List.mem_append,
      List.mem_singleton]
    constructor
    · rintro ⟨hdrawn, hvalid, hnew⟩
      by_cases hfirst : item = (draw source).1
      · exact .inl hfirst
      · exact .inr ⟨hdrawn.resolve_left (Ne.symm hfirst), hvalid, not_or.mpr ⟨hnew, hfirst⟩⟩
    · rintro (rfl | ⟨hdrawn, hvalid, hnew⟩)
      · exact ⟨.inl rfl, hkeep⟩
      · exact ⟨.inr hdrawn, hvalid, fun hmem => hnew (.inl hmem)⟩
  rw [hinsert, Finset.card_insert_of_notMem]
  intro hmem
  exact (mem_offered.mp hmem).2.2 (List.mem_append_right _ (List.mem_singleton_self _))

theorem offered_skip (hskip : ¬ (valid (draw source).1 ∧ (draw source).1 ∉ items)) :
    offered draw valid items source (count + 1) =
      offered draw valid items (draw source).2 count := by
  ext item
  rw [mem_offered, mem_offered, exists_drawn_succ]
  refine and_congr_left fun haccepted => or_iff_right ?_
  rintro rfl
  exact hskip haccepted

theorem fillsAt_iff_of_full (hfull : target ≤ items.length) :
    FillsAt draw valid target items source count ↔ count = 0 := by
  have hnone : target - items.length = 0 := Nat.sub_eq_zero_of_le hfull
  constructor
  · intro hfills
    by_contra hcount
    have hfirst := hfills.first 0 (Nat.pos_of_ne_zero hcount)
    omega
  · rintro rfl
    exact ⟨by omega, fun earlier hearlier => absurd hearlier (Nat.not_lt_zero _)⟩

theorem not_fillsAt_zero (hmissing : items.length < target) :
    ¬ FillsAt draw valid target items source 0 := by
  intro hfills
  have henough := hfills.enough
  rw [offered_zero, Finset.card_empty] at henough
  omega

/-- The first draw is one of those that fill up, whether it is kept or not. -/
theorem fillsAt_succ_iff (hmissing : items.length < target) :
    FillsAt draw valid target items source (count + 1) ↔
      FillsAt draw valid target
        (if valid (draw source).1 ∧ (draw source).1 ∉ items then items ++ [(draw source).1]
          else items) (draw source).2 count := by
  by_cases hkeep : valid (draw source).1 ∧ (draw source).1 ∉ items
  · have hlength : target - (items ++ [(draw source).1]).length = target - items.length - 1 := by
      rw [List.length_append, List.length_singleton]
      omega
    rw [if_pos hkeep]
    constructor
    · intro hfills
      have henough := hfills.enough
      rw [card_offered_keep hkeep] at henough
      refine ⟨by omega, fun earlier hearlier => ?_⟩
      have hfirst := hfills.first (earlier + 1) (by omega)
      rw [card_offered_keep hkeep] at hfirst
      omega
    · intro hfills
      have henough := hfills.enough
      refine ⟨by rw [card_offered_keep hkeep]; omega, fun earlier hearlier => ?_⟩
      rcases earlier with _ | earlier
      · rw [offered_zero, Finset.card_empty]
        omega
      · have hfirst := hfills.first earlier (by omega)
        rw [card_offered_keep hkeep]
        omega
  · rw [if_neg hkeep]
    constructor
    · intro hfills
      refine ⟨by rw [← offered_skip hkeep]; exact hfills.enough, fun earlier hearlier => ?_⟩
      rw [← offered_skip hkeep]
      exact hfills.first (earlier + 1) (by omega)
    · intro hfills
      refine ⟨by rw [offered_skip hkeep]; exact hfills.enough, fun earlier hearlier => ?_⟩
      rcases earlier with _ | earlier
      · rw [offered_zero, Finset.card_empty]
        omega
      · rw [offered_skip hkeep]
        exact hfills.first earlier (by omega)

theorem collectFromStep_next (hmissing : items.length < target) :
    (collectFromStep draw valid target (items, source) : Exec ε _) =
      .ok (.next (if valid (draw source).1 ∧ (draw source).1 ∉ items then
        items ++ [(draw source).1] else items, (draw source).2)) := by
  by_cases hkeep : valid (draw source).1 ∧ (draw source).1 ∉ items
  · rw [collectFromStep, collectStep_keep hmissing hkeep, if_pos hkeep]
    rfl
  · rw [collectFromStep, collectStep_skip hmissing hkeep, if_neg hkeep]
    rfl

theorem collectFromStep_done (hfull : target ≤ items.length) :
    (collectFromStep draw valid target (items, source) : Exec ε _) =
      .ok (.done (items, source)) := by
  rw [collectFromStep, collectStep_done hfull]
  rfl

/-- A loop that ends has made the draws that fill it up, and holds what they offered. -/
theorem exists_fillsAt_of_collectFrom {fuel : ℕ} {result : List α} {later : ρ}
    (hloop : loop (collectFromStep draw valid target : _ → Exec ε _) fuel (items, source) =
      .ok (result, later)) :
    ∃ count, FillsAt draw valid target items source count ∧
      later = sourceAfter draw source count ∧
      result.toFinset = items.toFinset ∪ offered draw valid items source count := by
  induction fuel generalizing items source with
  | zero => cases hloop
  | succ fuel ih =>
      by_cases hmissing : items.length < target
      · rw [loop_succ_of_next (collectFromStep_next hmissing)] at hloop
        obtain ⟨count, hfills, rfl, hresult⟩ := ih hloop
        refine ⟨count + 1, (fillsAt_succ_iff hmissing).mpr hfills, rfl, ?_⟩
        rw [hresult]
        ext item
        simp only [Finset.mem_union, List.mem_toFinset, mem_offered, exists_drawn_succ]
        by_cases hkeep : valid (draw source).1 ∧ (draw source).1 ∉ items
        · rw [if_pos hkeep, List.mem_append, List.mem_singleton]
          grind
        · rw [if_neg hkeep]
          grind
      · rw [loop_succ_of_done (collectFromStep_done (not_lt.mp hmissing))] at hloop
        cases hloop
        refine ⟨0, (fillsAt_iff_of_full (not_lt.mp hmissing)).mpr rfl, rfl, ?_⟩
        rw [offered_zero, Finset.union_empty]

/-- Only one number of draws fills the loop up. -/
theorem FillsAt.unique {other : ℕ} (hother : FillsAt draw valid target items source other)
    (hfills : FillsAt draw valid target items source count) : other = count := by
  rcases Nat.lt_trichotomy other count with hless | hequal | hmore
  · exact absurd hother.enough (not_le.mpr (hfills.first other hless))
  · exact hequal
  · exact absurd hfills.enough (not_le.mpr (hother.first count hmore))

theorem collectFrom_ne_fail (fuel : ℕ) (cause : ε) :
    loop (collectFromStep draw valid target : _ → Exec ε _) fuel (items, source) ≠
      .fail cause := by
  refine loop_ne_fail (fun ⟨items, source⟩ => ?_) fuel (items, source)
  by_cases hmissing : items.length < target
  · rw [collectFromStep_next hmissing]
    exact (Exec.fail_ne_ok cause _).symm
  · rw [collectFromStep_done (not_lt.mp hmissing)]
    exact (Exec.fail_ne_ok cause _).symm

/-- The draws that fill the loop up end it. -/
theorem FillsAt.exists_collectFrom (hfills : FillsAt draw valid target items source count) :
    ∃ result, loop (collectFromStep draw valid target : _ → Exec ε _) (count + 1)
      (items, source) = .ok (result, sourceAfter draw source count) := by
  induction count generalizing items source with
  | zero =>
      have hfull : target ≤ items.length := not_lt.mp fun hmissing =>
        not_fillsAt_zero hmissing hfills
      exact ⟨items, loop_succ_of_done (collectFromStep_done hfull) 0⟩
  | succ count ih =>
      have hmissing : items.length < target := not_le.mp fun hfull =>
        Nat.succ_ne_zero count ((fillsAt_iff_of_full hfull).mp hfills)
      rw [loop_succ_of_next (collectFromStep_next hmissing)]
      exact ih ((fillsAt_succ_iff hmissing).mp hfills)

end Stop

end Bip138.Rust
