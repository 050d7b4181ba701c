/-
# Errors and offset checks of the core

The core's error type and the four functions every parser walks its input with.
The spec lemmas say when each check passes; a check never panics except for the
unchecked addition in `incrementOffset`.
-/

import Bip138.Rust.Bytes

namespace Bip138.Ll

open Bip138.Rust

/-- The errors of the core. -/
inductive Error
  | keyCount
  | derivPathCount
  | derivPathLength
  | derivPathEmpty
  | dataLength
  | encrypt
  | decrypt
  | corrupted
  | version
  | magic
  | varInt
  | wrongKey
  | individualSecretsEmpty
  | individualSecretsLength
  | cypherTextEmpty
  | cypherTextLength
  | contentMetadata
  | encryption
  | offsetOverflow
  | emptyBytes
  | increment
  | contentMetadataEmpty
  | contentEnd
  | encryptionReserved
  | zeroedNonce
  | padding
  deriving DecidableEq, Repr

/-- A 32-bit machine. -/
@[reducible] def target32 : Target := ⟨32, .inl rfl⟩

/-- A 64-bit machine. -/
@[reducible] def target64 : Target := ⟨64, .inr rfl⟩

variable [Target]

def checkOffset (offset : ℕ) (bytes : Bytes) : Exec Error Unit :=
  if bytes.length ≤ offset then .fail .corrupted else .ok ()

def checkOffsetLookahead (offset : ℕ) (bytes : Bytes) (lookahead : ℕ) : Exec Error Unit := do
  let sum ← .okOr (checkedAdd offset lookahead) .increment
  let target ← .okOr (checkedSub sum 1) .increment
  if bytes.length ≤ target then .fail .corrupted else .ok ()

def initOffset (bytes : Bytes) (value : ℕ) : Exec Error ℕ := do
  checkOffset value bytes
  .ok value

def incrementOffset (bytes : Bytes) (offset incr : ℕ) : Exec Error ℕ := do
  let sum ← add offset incr
  checkOffset sum bytes
  .okOr (checkedAdd offset incr) .offsetOverflow

section Spec

variable {bytes : Bytes} {offset incr lookahead value result : ℕ} {passed : Unit}

omit [Target] in
@[simp]
theorem checkOffset_eq_ok_iff :
    checkOffset offset bytes = .ok passed ↔ offset < bytes.length := by
  rw [checkOffset, Exec.guard_eq_ok_iff, not_le, and_iff_left rfl]

/-- A lookahead check passes when the bytes it asks for are there; asking for no
byte at offset zero is refused. -/
theorem checkOffsetLookahead_eq_ok_iff :
    checkOffsetLookahead offset bytes lookahead = .ok passed ↔
      offset + lookahead ≤ usizeMax ∧ 0 < offset + lookahead ∧
        offset + lookahead ≤ bytes.length := by
  simp only [checkOffsetLookahead, Exec.bind_eq_ok_iff, Exec.okOr_eq_ok_iff,
    checkedAdd_eq_some_iff, checkedSub_eq_some_iff, Exec.guard_eq_ok_iff]
  constructor
  · rintro ⟨sum, ⟨hsum, rfl⟩, target, ⟨hpos, rfl⟩, hcheck, -⟩
    omega
  · rintro ⟨hsum, hpos, hle⟩
    exact ⟨_, ⟨hsum, rfl⟩, _, ⟨hpos, rfl⟩, by omega, trivial⟩

omit [Target] in
@[simp]
theorem initOffset_eq_ok_iff :
    initOffset bytes value = .ok result ↔ value < bytes.length ∧ result = value := by
  simp only [initOffset, Exec.bind_eq_ok_iff, checkOffset_eq_ok_iff, Except.ok.injEq]
  constructor
  · rintro ⟨-, hvalue, rfl⟩
    exact ⟨hvalue, rfl⟩
  · rintro ⟨hvalue, rfl⟩
    exact ⟨(), hvalue, rfl⟩

theorem incrementOffset_eq_ok_iff :
    incrementOffset bytes offset incr = .ok result ↔
      offset + incr ≤ usizeMax ∧ offset + incr < bytes.length ∧ result = offset + incr := by
  simp only [incrementOffset, Exec.bind_eq_ok_iff, add_eq_ok_iff, checkOffset_eq_ok_iff,
    Exec.okOr_eq_ok_iff, checkedAdd_eq_some_iff]
  constructor
  · rintro ⟨sum, ⟨hsum, rfl⟩, -, hcheck, -, rfl⟩
    exact ⟨hsum, hcheck, rfl⟩
  · rintro ⟨hsum, hcheck, rfl⟩
    exact ⟨_, ⟨hsum, rfl⟩, (), hcheck, hsum, rfl⟩

omit [Target] in
theorem returns_checkOffset : (checkOffset offset bytes).Returns := by
  unfold checkOffset
  split
  · exact Exec.returns_fail _
  · exact Exec.returns_ok _

omit [Target] in
theorem returns_initOffset : (initOffset bytes value).Returns :=
  returns_checkOffset.bind fun _ _ => Exec.returns_ok value

theorem returns_checkOffsetLookahead : (checkOffsetLookahead offset bytes lookahead).Returns := by
  refine (Exec.returns_okOr _ _).bind fun sum _ => (Exec.returns_okOr _ _).bind fun target _ => ?_
  split
  · exact Exec.returns_fail _
  · exact Exec.returns_ok _

end Spec

end Bip138.Ll
