/-
# The boundary to C

What crosses the boundary: memory behind pointers, the callbacks a C caller supplies
for the primitives, and the codes it gets back.

A callback works on the state behind `ctx`, so it is a function on a state, and none of
its results is trusted: it may leave anything in the memory it is handed, and return
any code and any length. A pointer is `none` when it is null, and otherwise memory of
the length the caller states.
-/

import Bip138.Rust.Capacity
import Bip138.Ll.Content
import Bip138.Ll.Crypto
import Bip138.Ll.Padding

namespace Bip138.Ffi

open Bip138.Rust Bip138.Ll

/-- Memory a pointer is valid for. No object is larger than `isize::MAX` bytes. -/
structure Memory [Target] (n : ℕ) where
  bytes : Bytes
  length_eq : bytes.length = n
  fits : n ≤ isizeMax

/-- One derivation path passed to encrypt: child numbers behind a pointer. -/
structure U32List where
  ptr : Option (List UInt32)
  len : ℕ
  /-- The pointer is valid for the stated length. -/
  valid : ∀ childs, ptr = some childs → childs.length = len

/-- The bytes of a pointer, a length or a capacity. -/
def wordSize [Target] : ℕ := Target.pointerWidth / 8

/-- The paths passed to encrypt: an array of lists, each of them a pointer and a length. -/
structure PathArray [Target] (n : ℕ) where
  lists : List U32List
  length_eq : lists.length = n
  fits : n * (2 * wordSize) ≤ isizeMax

/-- What a callback of the cipher comes back with, when it is given an output buffer of
`cap` bytes: its return code, the length it wrote to `out_len`, and the buffer. -/
structure AeadOutcome (cap : ℕ) where
  rc : Int32
  outLen : ℕ
  out : Block cap

/-- The result of a callback of the cipher, when it reports success and a length that
the buffer has. -/
def AeadOutcome.result {cap : ℕ} (outcome : AeadOutcome cap) : Option Bytes :=
  if outcome.rc ≠ 0 ∨ cap < outcome.outLen then none
  else some (outcome.out.1.take outcome.outLen)

/-- A callback of the cipher, on a key, a nonce, an input and the size of the buffer. -/
abbrev AeadCallback (σ : Type) :=
  Block 32 → Block 12 → Bytes → (cap : ℕ) → σ → AeadOutcome cap × σ

/-- The crypto primitives the C consumer supplies, on the state behind `ctx`. -/
structure CryptoVtable (σ : Type) where
  sha256 : Option (Bytes → σ → Block 32 × σ)
  aeadEncrypt : Option (AeadCallback σ)
  aeadDecrypt : Option (AeadCallback σ)
  fillRandom : Option ((n : ℕ) → σ → Block n × σ)

namespace CryptoVtable

variable {σ : Type} (vtable : CryptoVtable σ)

/-! The provider backed by the table, as the core calls it. -/

def hash (data : Bytes) (ctx : σ) : Block 32 × σ :=
  match vtable.sha256 with
  | some sha256 => sha256 data ctx
  | none => (Block.zero 32, ctx)

def encrypt [Target] (key : Block 32) (nonce : Block 12) (plaintext : Bytes) (ctx : σ) :
    Exec Ll.Error (Option Bytes × σ) :=
  match vtable.aeadEncrypt with
  | none => .ok (none, ctx)
  | some encrypt => do
      let cap ← add plaintext.length 16
      let cap ← withCapacity 1 cap
      let (outcome, ctx) := encrypt key nonce plaintext cap ctx
      .ok (outcome.result, ctx)

/-- The plaintext is shorter than the cyphertext, whose length bounds the buffer. -/
def decrypt (key : Block 32) (nonce : Block 12) (cyphertext : Bytes) (ctx : σ) :
    Option Bytes × σ :=
  match vtable.aeadDecrypt with
  | none => (none, ctx)
  | some decrypt =>
      let (outcome, ctx) := decrypt key nonce cyphertext cyphertext.length ctx
      (outcome.result, ctx)

def rng : Rng σ where
  fillBytes n ctx :=
    match vtable.fillRandom with
    | some fillRandom => fillRandom n ctx
    | none => (Block.zero n, ctx)

/-- What the cipher yields is no longer than the buffer it was given. -/
theorem length_le_of_decrypt {key : Block 32} {nonce : Block 12} {cyphertext out : Bytes} {ctx : σ}
    (hopens : (vtable.decrypt key nonce cyphertext ctx).1 = some out) :
    out.length ≤ cyphertext.length := by
  rw [decrypt] at hopens
  split at hopens
  · cases hopens
  · rename_i decrypt _
    simp only [AeadOutcome.result] at hopens
    split at hopens
    · cases hopens
    · cases hopens
      rw [List.length_take, (decrypt key nonce cyphertext cyphertext.length ctx).1.out.2]
      exact Nat.min_le_right _ _

/-- What the callback of the cipher answers, given a buffer for the tag as well. -/
def sealed (key : Block 32) (nonce : Block 12) (plaintext : Bytes) (ctx : σ) : Option Bytes :=
  match vtable.aeadEncrypt with
  | none => none
  | some encrypt => (encrypt key nonce plaintext (plaintext.length + 16) ctx).1.result

section Encrypt

variable [Target] {key : Block 32} {nonce : Block 12} {plaintext : Bytes} {ctx : σ}

/-- The callback is asked when its buffer can be allocated. -/
theorem exists_encrypt_eq_ok (hfits : plaintext.length + 16 ≤ isizeMax) :
    ∃ later, vtable.encrypt key nonce plaintext ctx =
      .ok (vtable.sealed key nonce plaintext ctx, later) := by
  have hsum : plaintext.length + 16 ≤ usizeMax := by
    have husize := two_mul_isizeMax_lt_usizeMax
    omega
  rw [encrypt, sealed]
  split
  · exact ⟨ctx, rfl⟩
  · rename_i encrypt _
    rw [add_eq_ok_iff.mpr ⟨hsum, rfl⟩, Exec.ok_bind, withCapacity_eq_ok (by omega)]
    exact ⟨_, rfl⟩

/-- A buffer over `isize::MAX` bytes is a panic. The length itself cannot overflow, since the
plaintext is in a vector. -/
theorem encrypt_eq_abort (hencrypt : vtable.aeadEncrypt.isSome = true)
    (hplaintext : plaintext.length ≤ isizeMax) (hoverflow : isizeMax < plaintext.length + 16) :
    vtable.encrypt key nonce plaintext ctx = .abort .capacityOverflow := by
  have hsum : plaintext.length + 16 ≤ usizeMax := by
    have husize := two_mul_isizeMax_lt_usizeMax
    have hisize : 16 ≤ isizeMax := by
      rcases Target.supported with hwidth | hwidth <;> simp [isizeMax, hwidth]
    omega
  rw [encrypt]
  split
  · rename_i hnone
    rw [hnone] at hencrypt
    cases hencrypt
  · rw [add_eq_ok_iff.mpr ⟨hsum, rfl⟩, Exec.ok_bind, withCapacity_eq_abort (by omega)]
    rfl

end Encrypt

end CryptoVtable

/-- Failures the C boundary itself can raise, on top of those of the core. -/
inductive FfiError
  | nullPointer
  | badVtable
  | badContentType
  | badPadding
  | indexOutOfBounds
  | ll (cause : Ll.Error)
  deriving DecidableEq

/-- The code of an error of the core, and its message. -/
def llErrorInfo : Ll.Error → ℕ × String
  | .keyCount => (100, "key count out of range\x00")
  | .derivPathCount => (101, "too many derivation paths\x00")
  | .derivPathLength => (102, "derivation path too long\x00")
  | .derivPathEmpty => (103, "empty derivation path\x00")
  | .dataLength => (104, "data length out of range\x00")
  | .encrypt => (105, "encryption failed\x00")
  | .decrypt => (106, "decryption failed\x00")
  | .corrupted => (107, "corrupted payload\x00")
  | .version => (108, "invalid version\x00")
  | .magic => (109, "bad magic\x00")
  | .varInt => (110, "invalid varint\x00")
  | .wrongKey => (111, "no supplied key decrypts this backup\x00")
  | .individualSecretsEmpty => (112, "individual secrets empty\x00")
  | .individualSecretsLength => (113, "individual secrets length out of range\x00")
  | .cypherTextEmpty => (114, "ciphertext empty\x00")
  | .cypherTextLength => (115, "ciphertext length out of range\x00")
  | .contentMetadata => (116, "invalid content metadata\x00")
  | .encryption => (117, "invalid encryption field\x00")
  | .offsetOverflow => (118, "offset overflow\x00")
  | .emptyBytes => (119, "empty input\x00")
  | .increment => (120, "offset increment overflow\x00")
  | .contentMetadataEmpty => (121, "content metadata empty\x00")
  | .contentEnd => (122, "unexpected end of content\x00")
  | .encryptionReserved => (123, "reserved encryption value\x00")
  | .zeroedNonce => (124, "zeroed nonce\x00")
  | .padding => (125, "padding overflow\x00")

def FfiError.info : FfiError → ℕ × String
  | .nullPointer => (500, "null pointer\x00")
  | .badVtable => (501, "crypto vtable has a null callback\x00")
  | .badContentType => (502, "unknown content type discriminant\x00")
  | .badPadding => (503, "unknown padding discriminant\x00")
  | .indexOutOfBounds => (504, "item index out of bounds\x00")
  | .ll cause => llErrorInfo cause

/-- `BIP138_OK`. -/
def bip138Ok : ℕ := 0

/-- The codes of the errors are those the header documents: one range for the core, one
for the boundary, and the code of success in neither. -/
theorem FfiError.info_range (error : FfiError) :
    (100 ≤ error.info.1 ∧ error.info.1 ≤ 199) ∨ (500 ≤ error.info.1 ∧ error.info.1 ≤ 599) := by
  cases error with
  | ll cause =>
      left
      cases cause <;> exact ⟨Nat.le_of_ble_eq_true rfl, Nat.le_of_ble_eq_true rfl⟩
  | nullPointer | badVtable | badContentType | badPadding | indexOutOfBounds =>
      right
      simp [FfiError.info]

/-- What a C caller sees of a call that came back: the code, what was written to `out`,
and the message written to `err` if that pointer is not null. -/
structure Returned (α : Type) where
  code : ℕ
  out : Option α
  message : Option String

/-- Come back from an entry point: with success and a value, or with the code of an
error. A panic does not come back. -/
def comeBack {α : Type} (err : Bool) : Exec FfiError α → Exec Empty (Returned α)
  | .ok value => .ok ⟨bip138Ok, some value, none⟩
  | .error (.error cause) =>
      .ok ⟨cause.info.1, none, if err then some cause.info.2 else none⟩
  | .error (.panic cause) => .error (.panic cause)
  | .error .unfinished => .error .unfinished

theorem exists_comeBack_eq_ok_iff {α : Type} {err : Bool} {call : Exec FfiError α} :
    (∃ returned, comeBack err call = .ok returned) ↔ call.Returns := by
  rcases call with (cause | cause | _) | value
  · exact iff_of_true ⟨_, rfl⟩ (Exec.returns_fail cause)
  · refine iff_of_false (fun ⟨_, hback⟩ => by cases hback) ?_
    rintro (⟨value, hok⟩ | ⟨error, hfail⟩)
    · cases hok
    · cases hfail
  · refine iff_of_false (fun ⟨_, hback⟩ => by cases hback) ?_
    rintro (⟨value, hok⟩ | ⟨error, hfail⟩)
    · cases hok
    · cases hfail
  · exact iff_of_true ⟨_, rfl⟩ (Exec.returns_ok value)

/-- A call succeeds with the value it wrote. -/
theorem comeBack_eq_ok_some_iff {α : Type} {err : Bool} {call : Exec FfiError α} {value : α} :
    comeBack err call = .ok ⟨bip138Ok, some value, none⟩ ↔ call = .ok value := by
  rcases call with (cause | cause | _) | value
  · refine iff_of_false (fun hback => ?_) fun hok => by cases hok
    cases Option.some_ne_none _ (congrArg Returned.out (Except.ok.inj hback)).symm
  · exact iff_of_false (fun hback => by cases hback) fun hok => by cases hok
  · exact iff_of_false (fun hback => by cases hback) fun hok => by cases hok
  · refine ⟨fun hback => ?_, fun hok => ?_⟩
    · rw [Option.some.inj (congrArg Returned.out (Except.ok.inj hback))]
    · cases hok
      rfl

/-- The return codes of the header: success, a failure of the core, or one of the
boundary. -/
def IsReturnCode (code : ℕ) : Prop :=
  code = bip138Ok ∨ (100 ≤ code ∧ code ≤ 199) ∨ (500 ≤ code ∧ code ≤ 599)

/-- What comes back has one of the return codes. -/
theorem isReturnCode_of_comeBack {α : Type} {err : Bool} {call : Exec FfiError α}
    {returned : Returned α} (hback : comeBack err call = .ok returned) :
    IsReturnCode returned.code := by
  rcases call with (cause | _ | _) | value
  · cases hback
    exact .inr cause.info_range
  · cases hback
  · cases hback
  · cases hback
    exact .inl rfl

def bip138ContentNone : UInt32 := 0
def bip138ContentBip138 : UInt32 := 1
def bip138ContentBip139 : UInt32 := 2
def bip138ContentBip380 : UInt32 := 3
def bip138ContentBip388 : UInt32 := 4
def bip138ContentBip329 : UInt32 := 5
def bip138ContentBip : UInt32 := 6
def bip138ContentProprietary : UInt32 := 7
def bip138ContentString : UInt32 := 8
def bip138ContentUnknown : UInt32 := 9

def bip138PaddingNone : UInt32 := 0
def bip138PaddingGeometric : UInt32 := 1

def contentFromFfi (contentType : UInt32) (bip : UInt16) (tag : Bytes) : Exec FfiError Content :=
  if contentType = bip138ContentNone then .ok .none
  else if contentType = bip138ContentBip138 then .ok .bip138
  else if contentType = bip138ContentBip139 then .ok .bip139
  else if contentType = bip138ContentBip380 then .ok .bip380
  else if contentType = bip138ContentBip388 then .ok .bip388
  else if contentType = bip138ContentBip329 then .ok .bip329
  else if contentType = bip138ContentBip then .ok (.bip bip)
  else if contentType = bip138ContentProprietary then .ok (.proprietary tag)
  else if contentType = bip138ContentString then .ok .string
  else if contentType = bip138ContentUnknown then .ok .unknown
  else .fail .badContentType

def paddingFromFfi (padding : UInt32) : Exec FfiError Padding :=
  if padding = bip138PaddingNone then .ok .none
  else if padding = bip138PaddingGeometric then .ok .geometric
  else .fail .badPadding

theorem returns_contentFromFfi (contentType : UInt32) (bip : UInt16) (tag : Bytes) :
    (contentFromFfi contentType bip tag).Returns := by
  unfold contentFromFfi
  repeat apply Exec.returns_ite (Exec.returns_ok _)
  exact Exec.returns_fail _

theorem returns_paddingFromFfi (padding : UInt32) : (paddingFromFfi padding).Returns := by
  unfold paddingFromFfi
  repeat apply Exec.returns_ite (Exec.returns_ok _)
  exact Exec.returns_fail _

end Bip138.Ffi
