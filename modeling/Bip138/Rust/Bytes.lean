/-
# Byte strings

A byte string is a list of `UInt8`; a fixed-size array `[u8; n]` is a byte
string that carries the proof of its length, so a 31-byte key cannot be written
down. Both are ordered lexicographically, the order `Ord` derives for arrays and
vectors.

The second half is the fixed-width integer codecs. `toLeBytes` and `fromLeBytes`
are inverse on values that fit the width (`fromLeBytes_toLeBytes`) and on byte
strings of that width (`toLeBytes_fromLeBytes`); the big-endian pair is the same
pair read backwards.
-/

import Mathlib.Data.List.Lex
import Bip138.Rust.Exec

namespace Bip138.Rust

/-- A byte string, `[u8]` or `Vec<u8>`. -/
abbrev Bytes := List UInt8

instance linearOrderUInt8 : LinearOrder UInt8 where
  le_refl := UInt8.le_refl
  le_trans _ _ _ := UInt8.le_trans
  lt_iff_le_not_ge first second := by
    simp only [UInt8.lt_iff_toNat_lt, UInt8.le_iff_toNat_le]
    omega
  le_antisymm _ _ := UInt8.le_antisymm
  le_total := UInt8.le_total
  toDecidableLE := inferInstance
  toDecidableEq := inferInstance
  toDecidableLT := inferInstance

instance linearOrderUInt32 : LinearOrder UInt32 where
  le_refl := UInt32.le_refl
  le_trans _ _ _ := UInt32.le_trans
  lt_iff_le_not_ge first second := by
    simp only [UInt32.lt_iff_toNat_lt, UInt32.le_iff_toNat_le]
    omega
  le_antisymm _ _ := UInt32.le_antisymm
  le_total := UInt32.le_total
  toDecidableLE := inferInstance
  toDecidableEq := inferInstance
  toDecidableLT := inferInstance

/-- `str::as_bytes`. -/
def asBytes (text : String) : Bytes := text.toUTF8.data.toList

/-- A byte array `[u8; n]`. -/
abbrev Block (n : ℕ) := { bytes : Bytes // bytes.length = n }

/-- Any slice or vector the target can hold: at most `isize::MAX` bytes. -/
abbrev Slice [Target] := { bytes : Bytes // bytes.length ≤ isizeMax }

namespace Block

variable {n : ℕ}

instance decidableMem (block : Block n) (blocks : List (Block n)) : Decidable (block ∈ blocks) :=
  inferInstance

/-- The block of these bytes, for an array literal. -/
def literal (bytes : Bytes) : Block bytes.length := ⟨bytes, rfl⟩

/-- `[0u8; n]`. -/
def zero (n : ℕ) : Block n := ⟨List.replicate n 0, List.length_replicate⟩

/-- `<[u8; n]>::try_from` on a slice. -/
def tryFrom (n : ℕ) (bytes : Bytes) : Option (Block n) :=
  if hlength : bytes.length = n then some ⟨bytes, hlength⟩ else none

/-- `try_from` on a slice, with an `expect` on the result. -/
def expect {ε : Type} (n : ℕ) (bytes : Bytes) : Exec ε (Block n) :=
  match tryFrom n bytes with
  | some block => .ok block
  | none => .abort .expect

@[simp]
theorem tryFrom_eq_some_iff {bytes : Bytes} {block : Block n} :
    tryFrom n bytes = some block ↔ bytes = block.1 := by
  unfold tryFrom
  split
  · rename_i hlength
    simp [Subtype.ext_iff]
  · rename_i hlength
    simp only [reduceCtorEq, false_iff]
    rintro rfl
    exact hlength block.2

@[simp]
theorem expect_eq_ok_iff {ε : Type} {bytes : Bytes} {block : Block n} :
    (expect n bytes : Exec ε (Block n)) = .ok block ↔ bytes = block.1 := by
  unfold expect
  rw [← tryFrom_eq_some_iff]
  cases tryFrom n bytes with
  | none => simp
  | some found => simp

theorem returns_expect {ε : Type} {bytes : Bytes} (hlength : bytes.length = n) :
    (expect n bytes : Exec ε (Block n)).Returns :=
  .inl ⟨⟨bytes, hlength⟩, expect_eq_ok_iff.mpr rfl⟩

/-- `copy_from_slice` into an array, which panics when the lengths differ. -/
def copyFromSlice {ε : Type} (n : ℕ) (bytes : Bytes) : Exec ε (Block n) :=
  if hlength : bytes.length = n then .ok ⟨bytes, hlength⟩ else .abort .sliceIndex

theorem copyFromSlice_eq_ok {ε : Type} {bytes : Bytes} (hlength : bytes.length = n) :
    (copyFromSlice n bytes : Exec ε (Block n)) = .ok ⟨bytes, hlength⟩ := dif_pos hlength

/-- `a ^ b`, byte by byte. -/
def xor (first second : Block n) : Block n :=
  ⟨List.zipWith (· ^^^ ·) first.1 second.1, by simp [first.2, second.2]⟩

theorem xor_comm (first second : Block n) : xor first second = xor second first := by
  apply Subtype.ext
  exact List.zipWith_comm_of_comm fun left right => UInt8.xor_comm left right

private theorem zipWith_xor_cancel :
    ∀ first second : Bytes, first.length = second.length →
      List.zipWith (· ^^^ ·) first (List.zipWith (· ^^^ ·) first second) = second
  | [], [], _ => rfl
  | left :: first, right :: second, hlength => by
      have htail := zipWith_xor_cancel first second (by simpa using hlength)
      rw [List.zipWith_cons_cons, List.zipWith_cons_cons, htail, ← UInt8.xor_assoc, UInt8.xor_self,
        UInt8.zero_xor]

/-- Xoring twice with the same block is the identity, which is how a recipient
recovers the secret from its share. -/
@[simp]
theorem xor_xor_cancel (first second : Block n) : xor first (xor first second) = second := by
  apply Subtype.ext
  exact zipWith_xor_cancel first.1 second.1 (by rw [first.2, second.2])

theorem xor_right_injective (first : Block n) : Function.Injective (xor first) := by
  intro left right hequal
  rw [← xor_xor_cancel first left, hequal, xor_xor_cancel]

theorem xor_eq_iff {first second result : Block n} :
    xor first second = result ↔ second = xor first result := by
  constructor
  · rintro rfl
    exact (xor_xor_cancel first second).symm
  · rintro rfl
    exact xor_xor_cancel first result

end Block

/-- `chunks_exact`: the consecutive chunks of a size, without a shorter rest. -/
def chunksExact (size : ℕ) (bytes : Bytes) : List Bytes :=
  (List.range (bytes.length / size)).map fun i => (bytes.drop (i * size)).take size

theorem length_of_mem_chunksExact {size : ℕ} {bytes chunk : Bytes}
    (hchunk : chunk ∈ chunksExact size bytes) : chunk.length = size := by
  obtain ⟨i, hi, rfl⟩ := List.mem_map.mp hchunk
  have hfits : (i + 1) * size ≤ bytes.length :=
    (Nat.mul_le_mul_right size (List.mem_range.mp hi)).trans (Nat.div_mul_le_self _ _)
  rw [Nat.add_mul, Nat.one_mul] at hfits
  rw [List.length_take, List.length_drop]
  omega

/-- The low `width` bytes of a value, least significant first. -/
def toLeBytes : ℕ → ℕ → Bytes
  | 0, _ => []
  | width + 1, value => UInt8.ofNat value :: toLeBytes width (value / 256)

/-- The value of a byte string, least significant byte first. -/
def fromLeBytes : Bytes → ℕ
  | [] => 0
  | low :: rest => low.toNat + 256 * fromLeBytes rest

/-- The low `width` bytes of a value, most significant first. -/
def toBeBytes (width value : ℕ) : Bytes := (toLeBytes width value).reverse

/-- The value of a byte string, most significant byte first. -/
def fromBeBytes (bytes : Bytes) : ℕ := fromLeBytes bytes.reverse

@[simp]
theorem length_toLeBytes (width value : ℕ) : (toLeBytes width value).length = width := by
  induction width generalizing value with
  | zero => rfl
  | succ width ih => rw [toLeBytes, List.length_cons, ih]

@[simp]
theorem length_toBeBytes (width value : ℕ) : (toBeBytes width value).length = width := by
  rw [toBeBytes, List.length_reverse, length_toLeBytes]

theorem fromLeBytes_lt (bytes : Bytes) : fromLeBytes bytes < 256 ^ bytes.length := by
  induction bytes with
  | nil => simp [fromLeBytes]
  | cons low rest ih =>
      have hlow := low.toNat_lt
      rw [fromLeBytes, List.length_cons, pow_succ]
      omega

theorem fromBeBytes_lt (bytes : Bytes) : fromBeBytes bytes < 256 ^ bytes.length := by
  simpa [fromBeBytes] using fromLeBytes_lt bytes.reverse

/-- Reading back what was written recovers the value when it fits the width. -/
theorem fromLeBytes_toLeBytes {width value : ℕ} (hfits : value < 256 ^ width) :
    fromLeBytes (toLeBytes width value) = value := by
  induction width generalizing value with
  | zero => simp_all [toLeBytes, fromLeBytes]
  | succ width ih =>
      have hquotient : value / 256 < 256 ^ width := by
        rw [pow_succ] at hfits
        omega
      rw [toLeBytes, fromLeBytes, ih hquotient, UInt8.toNat_ofNat']
      omega

/-- Writing what was read reproduces the bytes. -/
theorem toLeBytes_fromLeBytes (bytes : Bytes) :
    toLeBytes bytes.length (fromLeBytes bytes) = bytes := by
  induction bytes with
  | nil => rfl
  | cons low rest ih =>
      have hlow := low.toNat_lt
      have hquotient : (low.toNat + 256 * fromLeBytes rest) / 256 = fromLeBytes rest := by omega
      rw [fromLeBytes, List.length_cons, toLeBytes, hquotient, ih]
      congr 1
      apply UInt8.toNat_inj.mp
      rw [UInt8.toNat_ofNat']
      omega

theorem fromBeBytes_toBeBytes {width value : ℕ} (hfits : value < 256 ^ width) :
    fromBeBytes (toBeBytes width value) = value := by
  rw [fromBeBytes, toBeBytes, List.reverse_reverse, fromLeBytes_toLeBytes hfits]

theorem toBeBytes_fromBeBytes (bytes : Bytes) :
    toBeBytes bytes.length (fromBeBytes bytes) = bytes := by
  have hreverse := toLeBytes_fromLeBytes bytes.reverse
  rw [List.length_reverse] at hreverse
  rw [toBeBytes, fromBeBytes, hreverse, List.reverse_reverse]

/-- A separator that is not in a prefix ends it. -/
theorem isPrefix_of_isPrefix_append_cons {α : Type} {front first rest : List α} {separator : α}
    (hstarts : front <+: first ++ separator :: rest) (hseparator : separator ∉ front) :
    front <+: first := by
  rcases List.prefix_or_prefix_of_prefix hstarts (List.prefix_append first _) with hshort | hlong
  · exact hshort
  · obtain ⟨more, rfl⟩ := hlong
    rw [List.prefix_append_right_inj] at hstarts
    rcases more with _ | ⟨head, more⟩
    · exact ⟨[], by simp only [List.append_nil]⟩
    · obtain ⟨rfl, -⟩ := List.cons_prefix_cons.mp hstarts
      exact absurd (List.mem_append_right _ List.mem_cons_self) hseparator

end Bip138.Rust
