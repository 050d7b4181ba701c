/-
# What a reader needs room for

A decryption pushes the items of a payload on a vector, one by one. An item takes far more
bytes there than it may take in the payload, so on a 32-bit target a payload can hold more
items than a vector. Where the items fit the decoder under callbacks is the one of the core
(`decodePlaintextInto_eq`), and where they do not the call panics.
-/

import Bip138.Ffi.Core

namespace Bip138.Ffi

open Bip138.Rust Bip138.Wire Bip138.Ll

section Items

variable [Target] {slotSize : ℕ} {bytes : Bytes}

/-- A vector has room for the items a payload starts with, when an item takes `slotSize`
bytes. -/
def ItemsFit (slotSize : ℕ) (bytes : Bytes) : Prop :=
  ∀ items word rest, Format.Many PayloadItem items word → bytes = word ++ rest →
    pushedCapacity items.length * slotSize ≤ isizeMax

theorem ItemsFit.of_reads (hitems : ItemsFit slotSize bytes) {items : List (Content × Bytes)}
    {stop : ℕ} (hreads : Reads (Format.Many PayloadItem) bytes 0 stop items) :
    pushedCapacity items.length * slotSize ≤ isizeMax := by
  obtain ⟨word, rest, hword, hbytes, -⟩ := reads_zero_iff.mp hreads
  exact hitems items word rest hword hbytes

/-- One more item is pushed when the vector can grow for it. -/
theorem decodePlaintextIntoStep_eq (hfits : bytes.length ≤ isizeMax) {offset : ℕ}
    {items : List (Content × Bytes)} (hoffset : offset ≤ bytes.length)
    (hroom : ∀ stop item, Reads PayloadItem bytes offset stop item →
      pushedCapacity (items.length + 1) * slotSize ≤ isizeMax) :
    decodePlaintextIntoStep slotSize bytes (offset, items) =
      decodePlaintextStep bytes (offset, items) := by
  rw [decodePlaintextIntoStep, decodePlaintextStep]
  refine if_congr Iff.rfl ?_ rfl
  rcases index bytes offset with fault | type
  · rfl
  rw [Exec.ok_bind, Exec.ok_bind]
  refine if_congr Iff.rfl rfl ?_
  rcases hitem : decodeItem bytes offset with fault | ⟨stop, item⟩
  · rfl
  have hgrown : reserve slotSize 4 (pushedCapacity items.length) (items.length + 1) =
      (.ok (pushedCapacity (items.length + 1)) : Exec Ll.Error ℕ) :=
    withCapacity_eq_ok (hroom stop item ((decodeItem_eq_ok_iff hfits hoffset).mp hitem))
  dsimp only [Exec.ok_bind]
  rw [hgrown, Exec.ok_bind]

/-- An item the vector cannot grow for is a panic. -/
theorem decodePlaintextIntoStep_eq_abort (hfits : bytes.length ≤ isizeMax) {offset stop : ℕ}
    {items : List (Content × Bytes)} {item : Content × Bytes}
    (hitem : Reads PayloadItem bytes offset stop item)
    (hfull : isizeMax < pushedCapacity (items.length + 1) * slotSize) :
    decodePlaintextIntoStep slotSize bytes (offset, items) = .abort .capacityOverflow := by
  obtain ⟨type, hindex, hcontinue⟩ := PayloadItem.head_ne_contentEnd hitem
  have hwithin := (List.getElem?_eq_some_iff.mp hindex).1
  have hdecode := (decodeItem_eq_ok_iff hfits hwithin.le).mpr hitem
  have hgrown : reserve slotSize 4 (pushedCapacity items.length) (items.length + 1) =
      (.abort .capacityOverflow : Exec Ll.Error ℕ) := withCapacity_eq_abort hfull
  rw [decodePlaintextIntoStep, if_pos hwithin, index, hindex]
  dsimp only
  rw [Exec.ok_bind, if_neg hcontinue, hdecode]
  dsimp only [Exec.ok_bind]
  rw [hgrown]
  rfl

/-- A payload whose items fit is decoded as the core does it. -/
theorem decodePlaintextInto_eq (hfits : bytes.length ≤ isizeMax)
    (hitems : ItemsFit slotSize bytes) :
    decodePlaintextInto slotSize bytes = decodePlaintext bytes := by
  have hloop : loop (decodePlaintextIntoStep slotSize bytes) (bytes.length + 1) (0, []) =
      loop (decodePlaintextStep bytes) (bytes.length + 1) (0, []) := by
    refine loop_congr (fun state => Reads (Format.Many PayloadItem) bytes 0 state.1 state.2) ?_ ?_
      _ (reads_many_nil_iff.mpr ⟨rfl, Nat.zero_le _⟩)
    · rintro ⟨offset, items⟩ hreads
      refine decodePlaintextIntoStep_eq hfits hreads.stop_le fun stop item hitem => ?_
      have hroom := hitems.of_reads (reads_many_concat hreads hitem)
      rwa [List.length_append] at hroom
    · rintro ⟨offset, items⟩ ⟨stop, later⟩ hreads hnext
      obtain ⟨item, hitem, rfl⟩ := (decodePlaintextStep_eq_next_iff hfits hreads.stop_le).mp hnext
      exact reads_many_concat hreads hitem
  rw [decodePlaintextInto, decodePlaintext, hloop]

/-- The vector fills up on the items the payload starts with. -/
theorem loop_decodePlaintextIntoStep_eq_abort (hfits : bytes.length ≤ isizeMax)
    {offset stop fuel : ℕ} {items others : List (Content × Bytes)}
    (hreads : Reads (Format.Many PayloadItem) bytes offset stop others)
    (hfuel : others.length < fuel) (hroom : pushedCapacity items.length * slotSize ≤ isizeMax)
    (hfull : isizeMax < pushedCapacity (items.length + others.length) * slotSize) :
    loop (decodePlaintextIntoStep slotSize bytes) fuel (offset, items) =
      .abort .capacityOverflow := by
  induction others generalizing offset fuel items with
  | nil => exact absurd hroom (not_le.mpr hfull)
  | cons item others ih =>
      obtain ⟨middle, hitem, hothers⟩ := reads_many_cons_iff.mp hreads
      obtain ⟨fuel, rfl⟩ := Nat.exists_eq_succ_of_ne_zero (Nat.ne_zero_of_lt hfuel)
      by_cases hnext : pushedCapacity (items.length + 1) * slotSize ≤ isizeMax
      · have hpass : decodePlaintextIntoStep slotSize bytes (offset, items) =
            .ok (.next (middle, items ++ [item])) := by
          have hstart : offset ≤ bytes.length := hitem.start_le.trans hitem.stop_le
          rw [decodePlaintextIntoStep_eq hfits hstart fun _ _ _ => hnext]
          exact (decodePlaintextStep_eq_next_iff hfits hstart).mpr ⟨item, hitem, rfl⟩
        rw [loop_succ_of_next hpass]
        have hlength : (items ++ [item]).length = items.length + 1 := List.length_append
        rw [List.length_cons] at hfuel hfull
        exact ih hothers (by omega) (by rwa [hlength])
          (by rwa [hlength, Nat.add_assoc, Nat.add_comm 1])
      · have hpass := decodePlaintextIntoStep_eq_abort hfits hitem (not_le.mp hnext)
        exact loop_succ_of_error hpass fuel

/-- A payload with items that do not fit is a panic. -/
theorem decodePlaintextInto_eq_abort (hfits : bytes.length ≤ isizeMax)
    (hitems : ¬ ItemsFit slotSize bytes) :
    decodePlaintextInto slotSize bytes = .abort .capacityOverflow := by
  rw [ItemsFit] at hitems
  push Not at hitems
  obtain ⟨items, word, rest, hword, hbytes, hfull⟩ := hitems
  have hreads : Reads (Format.Many PayloadItem) bytes 0 word.length items :=
    reads_zero_iff.mpr ⟨word, rest, hword, hbytes, rfl⟩
  have hcount : items.length ≤ word.length :=
    Format.length_le_of_many (fun _ _ => PayloadItem.length_pos) hword
  have hlength := hreads.stop_le
  have hnonempty : bytes ≠ [] := by
    rintro rfl
    obtain rfl : items = [] := List.length_eq_zero_iff.mp
      (Nat.le_zero.mp (hcount.trans hlength))
    rw [List.length_nil, pushedCapacity, Nat.zero_mul] at hfull
    exact absurd hfull (Nat.not_lt_zero _)
  rw [decodePlaintextInto, if_neg hnonempty,
    loop_decodePlaintextIntoStep_eq_abort hfits hreads (by omega)
      (by rw [List.length_nil, pushedCapacity, Nat.zero_mul]; exact Nat.zero_le _)
      (by rwa [List.length_nil, Nat.zero_add])]
  rfl

theorem returns_decodePlaintextInto_iff (hfits : bytes.length ≤ isizeMax) :
    (decodePlaintextInto slotSize bytes).Returns ↔ ItemsFit slotSize bytes := by
  by_cases hitems : ItemsFit slotSize bytes
  · rw [decodePlaintextInto_eq hfits hitems]
    exact iff_of_true (returns_decodePlaintext hfits) hitems
  · rw [decodePlaintextInto_eq_abort hfits hitems]
    exact iff_of_false (Exec.not_returns_abort _) hitems

end Items

end Bip138.Ffi
