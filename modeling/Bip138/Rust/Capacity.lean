/-
# Vectors that grow

A vector holds at most `isize::MAX` bytes, and one that would need more panics. What it
needs is its capacity, which runs ahead of its length: a vector that has to grow at least
doubles. So a vector can panic long before its items alone would be too many.

A byte vector carries its capacity here. Writing pieces to its end succeeds exactly when
the last capacity still fits (`ByteVec.extendAll_eq`), and where doubling cannot matter
that is when the bytes do (`grownCapacity_le_iff`).
-/

import Bip138.Rust.Bytes

namespace Bip138.Rust

variable {ε : Type}

/-- The capacity of a vector that is to hold `required` items: the one it has if that is
enough, and otherwise at least twice that and at least `least`. -/
def grownCapacity (least capacity required : ℕ) : ℕ :=
  if required ≤ capacity then capacity else max least (max (2 * capacity) required)

theorem le_grownCapacity (least capacity required : ℕ) :
    capacity ≤ grownCapacity least capacity required ∧
      required ≤ grownCapacity least capacity required := by
  rw [grownCapacity]
  split
  · rename_i henough
    exact ⟨le_rfl, henough⟩
  · omega

/-- A vector does not grow to more than twice what it has to hold. -/
theorem grownCapacity_le (least capacity required : ℕ) :
    grownCapacity least capacity required ≤ max capacity (max least (2 * required)) := by
  rw [grownCapacity]
  split
  · exact le_max_left _ _
  · omega

/-- Far below a bound only what the vector has to hold counts. -/
theorem grownCapacity_le_iff {least capacity required bound : ℕ} (hleast : least ≤ bound)
    (hcapacity : 2 * capacity ≤ bound) :
    grownCapacity least capacity required ≤ bound ↔ required ≤ bound := by
  rw [grownCapacity]
  split
  · omega
  · omega

/-- The capacity of a vector on which `count` items were pushed one at a time. -/
def pushedCapacity : ℕ → ℕ
  | 0 => 0
  | count + 1 => grownCapacity 4 (pushedCapacity count) (count + 1)

section Reserve

variable [Target]

/-- `Vec::with_capacity(count)` and `vec![item; count]` for items of `size` bytes. -/
def withCapacity (size count : ℕ) : Exec ε ℕ :=
  if isizeMax < count * size then .abort .capacityOverflow else .ok count

/-- Make room for `required` items of `size` bytes in a vector. -/
def reserve (size least capacity required : ℕ) : Exec ε ℕ :=
  withCapacity size (grownCapacity least capacity required)

theorem withCapacity_eq_ok {size count : ℕ} (hfits : count * size ≤ isizeMax) :
    (withCapacity size count : Exec ε ℕ) = .ok count := if_neg (not_lt.mpr hfits)

theorem withCapacity_eq_abort {size count : ℕ} (hoverflow : isizeMax < count * size) :
    (withCapacity size count : Exec ε ℕ) = .abort .capacityOverflow := if_pos hoverflow

end Reserve

/-- A `Vec<u8>`: its bytes, and how many it has room for. -/
structure ByteVec where
  bytes : Bytes
  capacity : ℕ

namespace ByteVec

/-- `Vec::new`. -/
def new : ByteVec := ⟨[], 0⟩

/-- `to_vec` and `vec![..]`: just enough room. -/
def ofBytes (bytes : Bytes) : ByteVec := ⟨bytes, bytes.length⟩

/-- The capacity after the vector was made to hold each of the lengths in turn. -/
def grownThrough (capacity : ℕ) (lengths : List ℕ) : ℕ :=
  lengths.foldl (grownCapacity 8) capacity

theorem le_grownThrough (capacity : ℕ) (lengths : List ℕ) :
    capacity ≤ grownThrough capacity lengths := by
  induction lengths generalizing capacity with
  | nil => exact le_rfl
  | cons length lengths ih => exact (le_grownCapacity 8 capacity length).1.trans (ih _)

theorem grownThrough_append (capacity : ℕ) (first second : List ℕ) :
    grownThrough capacity (first ++ second) = grownThrough (grownThrough capacity first) second :=
  List.foldl_append

/-- A vector that held little so far has little room. -/
theorem grownThrough_le {bound : ℕ} {lengths : List ℕ}
    (hlengths : ∀ length ∈ lengths, length ≤ bound)
    (capacity : ℕ) : grownThrough capacity lengths ≤ max capacity (max 8 (2 * bound)) := by
  induction lengths generalizing capacity with
  | nil => exact le_max_left _ _
  | cons length lengths ih =>
      rw [List.forall_mem_cons] at hlengths
      have hfirst := grownCapacity_le 8 capacity length
      have hrest := ih hlengths.2 (grownCapacity 8 capacity length)
      rw [grownThrough] at hrest ⊢
      rw [List.foldl_cons]
      omega

/-- Behind little a last piece is written when the vector can hold it. -/
theorem grownThrough_concat_le_iff (bound : ℕ) {limit last capacity : ℕ} {lengths : List ℕ}
    (hlengths : ∀ length ∈ lengths, length ≤ bound) (hcapacity : capacity ≤ 2 * bound)
    (hbound : 16 + 4 * bound ≤ limit) :
    grownThrough capacity (lengths ++ [last]) ≤ limit ↔ last ≤ limit := by
  have hgrown := grownThrough_le hlengths capacity
  rw [grownThrough_append]
  exact grownCapacity_le_iff (by omega) (by omega)

/-- The lengths of a vector of `length` bytes while pieces are written to its end. -/
def lengthsThrough (length : ℕ) : List Bytes → List ℕ
  | [] => []
  | piece :: pieces => (length + piece.length) :: lengthsThrough (length + piece.length) pieces

section Growth

variable [Target]

/-- `extend_from_slice`, `append` and `push`. -/
def extendFromSlice (vec : ByteVec) (piece : Bytes) : Exec ε ByteVec := do
  let capacity ← reserve 1 8 vec.capacity (vec.bytes.length + piece.length)
  .ok ⟨vec.bytes ++ piece, capacity⟩

/-- `resize` to a length that is not below the one it has. -/
def resize (vec : ByteVec) (len : ℕ) (value : UInt8) : Exec ε ByteVec :=
  vec.extendFromSlice (List.replicate (len - vec.bytes.length) value)

/-- One piece after the other. -/
def extendAll (vec : ByteVec) (pieces : List Bytes) : Exec ε ByteVec :=
  pieces.foldlM extendFromSlice vec

theorem extendFromSlice_eq (vec : ByteVec) (piece : Bytes) :
    (vec.extendFromSlice piece : Exec ε ByteVec) =
      if grownCapacity 8 vec.capacity (vec.bytes.length + piece.length) ≤ isizeMax then
        .ok ⟨vec.bytes ++ piece, grownCapacity 8 vec.capacity (vec.bytes.length + piece.length)⟩
      else .abort .capacityOverflow := by
  rw [extendFromSlice, reserve]
  by_cases hfits : grownCapacity 8 vec.capacity (vec.bytes.length + piece.length) ≤ isizeMax
  · rw [if_pos hfits, withCapacity_eq_ok (by rwa [Nat.mul_one])]
    rfl
  · rw [if_neg hfits, withCapacity_eq_abort (by rw [Nat.mul_one]; exact not_le.mp hfits)]
    rfl

/-- The capacity of a vector never shrinks, so pieces are written when the last of its
capacities fits. -/
theorem extendAll_eq (vec : ByteVec) (pieces : List Bytes) (hvec : vec.capacity ≤ isizeMax) :
    (vec.extendAll pieces : Exec ε ByteVec) =
      if grownThrough vec.capacity (lengthsThrough vec.bytes.length pieces) ≤ isizeMax then
        .ok ⟨vec.bytes ++ pieces.flatten,
          grownThrough vec.capacity (lengthsThrough vec.bytes.length pieces)⟩
      else .abort .capacityOverflow := by
  induction pieces generalizing vec with
  | nil =>
      rw [lengthsThrough, grownThrough, List.foldl_nil, if_pos hvec, List.flatten_nil,
        List.append_nil]
      rfl
  | cons piece pieces ih =>
      have hlast := le_grownThrough
        (grownCapacity 8 vec.capacity (vec.bytes.length + piece.length))
        (lengthsThrough (vec.bytes.length + piece.length) pieces)
      rw [extendAll, List.foldlM_cons, extendFromSlice_eq, lengthsThrough, grownThrough,
        List.foldl_cons, ← grownThrough]
      by_cases hfirst : grownCapacity 8 vec.capacity (vec.bytes.length + piece.length) ≤ isizeMax
      · rw [if_pos hfirst, Exec.ok_bind]
        have hrest := ih ⟨vec.bytes ++ piece,
          grownCapacity 8 vec.capacity (vec.bytes.length + piece.length)⟩ hfirst
        rw [extendAll] at hrest
        rw [hrest]
        simp only [List.length_append, List.append_assoc, List.flatten_cons]
      · rw [if_neg hfirst, if_neg fun hfits => hfirst (hlast.trans hfits)]
        rfl

end Growth

end ByteVec

end Bip138.Rust
