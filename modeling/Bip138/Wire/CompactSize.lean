/-
# The CompactSize integer format

Bitcoin's variable-length integer: one byte for a value below `0xFD`, otherwise a
marker byte and the value in two, four or eight little-endian bytes, always in
the shortest of the forms that can hold it. The format is stated as a relation
between a value and its spelling, so that an encoder and a parser can both be
measured against it.
-/

import Bip138.Wire.Format
import Bip138.Rust.Bytes

namespace Bip138.Wire

open Bip138.Rust

/-- The minimal CompactSize spelling of a value below `2 ^ 64`. -/
inductive CompactSize : Format UInt8 ℕ
  | byte {value : ℕ} (hmax : value < 0xFD) : CompactSize value [UInt8.ofNat value]
  | word16 {value : ℕ} (hmin : 0xFD ≤ value) (hmax : value < 2 ^ 16) :
      CompactSize value (0xFD :: toLeBytes 2 value)
  | word32 {value : ℕ} (hmin : 2 ^ 16 ≤ value) (hmax : value < 2 ^ 32) :
      CompactSize value (0xFE :: toLeBytes 4 value)
  | word64 {value : ℕ} (hmin : 2 ^ 32 ≤ value) (hmax : value < 2 ^ 64) :
      CompactSize value (0xFF :: toLeBytes 8 value)

namespace CompactSize

variable {value : ℕ} {word : Bytes}

theorem length_pos (hword : CompactSize value word) : 0 < word.length := by
  cases hword <;> simp

theorem length_le (hword : CompactSize value word) : word.length ≤ 9 := by
  cases hword <;> simp

/-- A value has one spelling. -/
theorem functional {other : Bytes} (hword : CompactSize value word)
    (hother : CompactSize value other) : word = other := by
  cases hword <;> cases hother <;> first | rfl | omega

end CompactSize

/-- A marker and the value in as many little-endian bytes as the marker calls for, whether
or not a shorter form could hold it. -/
inductive LooseSize : Format UInt8 ℕ
  | byte {value : ℕ} (hmax : value < 0xFD) : LooseSize value [UInt8.ofNat value]
  | word16 {value : ℕ} (hmax : value < 2 ^ 16) : LooseSize value (0xFD :: toLeBytes 2 value)
  | word32 {value : ℕ} (hmax : value < 2 ^ 32) : LooseSize value (0xFE :: toLeBytes 4 value)
  | word64 {value : ℕ} (hmax : value < 2 ^ 64) : LooseSize value (0xFF :: toLeBytes 8 value)

theorem CompactSize.loose {value : ℕ} {word : Bytes} (hword : CompactSize value word) :
    LooseSize value word := by
  cases hword with
  | byte hmax => exact .byte hmax
  | word16 hmin hmax => exact .word16 hmax
  | word32 hmin hmax => exact .word32 hmax
  | word64 hmin hmax => exact .word64 hmax

/-- Little-endian bytes of one width are read off the front of an input in one way. -/
private theorem eq_of_toLeBytes_isPrefix {width value other : ℕ} {rest : Bytes}
    (hvalue : value < 256 ^ width) (hother : other < 256 ^ width)
    (hfront : toLeBytes width value <+: toLeBytes width other ++ rest) : value = other := by
  have hword : toLeBytes width value = toLeBytes width other := by
    rw [List.prefix_iff_eq_take] at hfront
    rwa [length_toLeBytes, List.take_left' (length_toLeBytes width other)] at hfront
  calc value = fromLeBytes (toLeBytes width value) := (fromLeBytes_toLeBytes hvalue).symm
    _ = fromLeBytes (toLeBytes width other) := by rw [hword]
    _ = other := fromLeBytes_toLeBytes hother

private theorem ofNat_ne_of_lt {value : ℕ} {marker : UInt8} (hmax : value < 0xFD)
    (hmarker : 0xFD ≤ marker.toNat) : UInt8.ofNat value ≠ marker := by
  rintro rfl
  rw [UInt8.toNat_ofNat', Nat.mod_eq_of_lt (by omega)] at hmarker
  omega

/-- An input begins with at most one word of this kind, and the word tells its value: the
first byte gives the width, and the width gives the rest. -/
theorem LooseSize.eq_of_isPrefix {value other : ℕ} {word word' rest : Bytes}
    (hword : LooseSize value word) (hword' : LooseSize other word')
    (hfront : word <+: word' ++ rest) : value = other ∧ word = word' := by
  suffices value = other ∧ word.length = word'.length by
    obtain ⟨hvalue, hlength⟩ := this
    refine ⟨hvalue, ?_⟩
    rw [List.prefix_iff_eq_take.mp hfront, hlength, List.take_left]
  cases hword with
  | byte hmax =>
      cases hword' with
      | byte hmax' =>
          have hhead := (List.cons_prefix_cons.mp hfront).1
          rw [← UInt8.toNat_inj, UInt8.toNat_ofNat', UInt8.toNat_ofNat',
            Nat.mod_eq_of_lt (by omega), Nat.mod_eq_of_lt (by omega)] at hhead
          exact ⟨hhead, rfl⟩
      | word16 | word32 | word64 =>
          exact absurd (List.cons_prefix_cons.mp hfront).1 (ofNat_ne_of_lt hmax (by decide))
  | word16 hmax | word32 hmax | word64 hmax =>
      cases hword' with
      | byte hmax' =>
          exact absurd (List.cons_prefix_cons.mp hfront).1.symm (ofNat_ne_of_lt hmax' (by decide))
      | word16 hmax' | word32 hmax' | word64 hmax' =>
          obtain ⟨hmarker, hfront⟩ := List.cons_prefix_cons.mp hfront
          first
          | exact absurd hmarker (by decide)
          | exact ⟨eq_of_toLeBytes_isPrefix (by omega) (by omega) hfront, by simp⟩

/-- A CompactSize length and that many bytes of data. -/
def SizedData : Format UInt8 Bytes :=
  fun data word => ∃ size, CompactSize data.length size ∧ word = size ++ data

/-- Sized data is read by reading the length and then taking that many bytes. -/
theorem reads_sizedData_iff {input data : Bytes} {start stop : ℕ} :
    Reads SizedData input start stop data ↔
      ∃ middle size, Reads CompactSize input start middle size ∧ stop = middle + size ∧
        stop ≤ input.length ∧ data = (input.drop middle).take size := by
  constructor
  · rintro ⟨_, ⟨size, hsize, rfl⟩, hfront, rfl, hstop⟩
    simp only [List.length_append] at hstop ⊢
    obtain ⟨rest, hrest⟩ := hfront
    refine ⟨start + size.length, data.length, ⟨size, hsize, ⟨data ++ rest, ?_⟩, rfl, by omega⟩,
      by omega, by omega, ?_⟩
    · rw [← hrest, List.append_assoc]
    · rw [← List.drop_drop, ← hrest, List.append_assoc, List.drop_left, List.take_left]
  · rintro ⟨middle, size, ⟨word, hword, ⟨rest, hrest⟩, rfl, hmiddle⟩, rfl, hstop, rfl⟩
    have hdrop : input.drop (start + word.length) = rest := by
      rw [← List.drop_drop, ← hrest, List.drop_left]
    have hlength : (rest.take size).length = size := by
      rw [List.length_take, ← hdrop, List.length_drop]
      omega
    rw [hdrop]
    refine ⟨word ++ rest.take size, ⟨word, by rwa [hlength], rfl⟩, ⟨rest.drop size, ?_⟩, ?_, hstop⟩
    · rw [List.append_assoc, List.take_append_drop, hrest]
    · rw [List.length_append, hlength, Nat.add_assoc]

end Bip138.Wire
