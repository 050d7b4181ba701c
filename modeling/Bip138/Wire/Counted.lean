/-
# Lists behind a one-byte count

A count byte and that many items. Nesting the format in itself gives the usual
tables of variable-length records.
-/

import Bip138.Wire.Format
import Bip138.Rust.Bytes

namespace Bip138.Wire

open Bip138.Rust

variable {α : Type} {item : Format UInt8 α}

/-- A list of at most `255` items behind its length. -/
def Counted (item : Format UInt8 α) : Format UInt8 (List α) :=
  fun values word => values.length ≤ u8Max ∧
    ∃ body, Format.Many item values body ∧ word = UInt8.ofNat values.length :: body

theorem Counted.length_pos {values : List α} {word : Bytes} (hword : Counted item values word) :
    0 < word.length := by
  obtain ⟨-, body, -, rfl⟩ := hword
  simp

theorem toNat_ofNat_length {values : List α} (hlength : values.length ≤ u8Max) :
    (UInt8.ofNat values.length).toNat = values.length := by
  rw [UInt8.toNat_ofNat', Nat.mod_eq_of_lt (by rw [u8Max] at hlength; omega)]

/-- A counted list is read by reading the count and then that many items. -/
theorem reads_counted_iff {input : Bytes} {start stop : ℕ} {values : List α} :
    Reads (Counted item) input start stop values ↔
      ∃ count : UInt8, input[start]? = some count ∧ values.length = count.toNat ∧
        Reads (Format.Many item) input (start + 1) stop values := by
  constructor
  · rintro ⟨_, ⟨hlength, body, hbody, rfl⟩, ⟨rest, hrest⟩, rfl, hstop⟩
    have hdrop : input.drop (start + 1) = body ++ rest := by
      rw [← List.drop_drop, ← hrest, List.cons_append, List.drop_one, List.tail_cons]
    refine ⟨UInt8.ofNat values.length, ?_, (toNat_ofNat_length hlength).symm,
      ⟨body, hbody, ⟨rest, hdrop.symm⟩, by rw [List.length_cons]; omega, hstop⟩⟩
    rw [← List.head?_drop, ← hrest, List.cons_append, List.head?_cons]
  · rintro ⟨count, hcount, hlength, body, hbody, ⟨rest, hrest⟩, rfl, hstop⟩
    have hbound := count.toNat_lt
    refine ⟨_, ⟨by rw [u8Max]; omega, body, hbody, rfl⟩, ⟨rest, ?_⟩, ?_, hstop⟩
    · obtain ⟨hlt, hget⟩ := List.getElem?_eq_some_iff.mp hcount
      rw [List.drop_eq_getElem_cons hlt, hget, ← hrest, hlength, UInt8.ofNat_toNat,
        List.cons_append]
    · rw [List.length_cons]
      omega

end Bip138.Wire
