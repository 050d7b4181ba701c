/-
# Inspection of a backup

`EncryptedMetadata` lists what a backup shows to anyone, without a key. It is read by a
parser of its own, next to the one that loads a backup for decryption
(`EncryptedBackup.setEncryptedPayload`), and the two take the same containers: they end with
the same error, or with the same fields and with the length of the cyphertext that is kept.

A backup of the previous format is where they part. It is loaded unread, and its errors are
those of its decryption, while its metadata is read at once.
-/

import Mathlib.Algebra.Order.BigOperators.Group.List
import Bip138.Front.Builder
import Bip138.Ll.Lengths
import Bip138.Ll.RoundTrip
import Bip138.Rust.Base64

namespace Bip138

open Bip138.Rust Bip138.Ll

structure EncryptedMetadata where
  version : Version
  derivationPaths : List DerivationPath
  individualSecrets : List (Block 32)
  encryption : Encryption
  nonce : Block 12
  ciphertextLens : List ℕ

/-- The byte of AES-GCM-256 in the previous format. -/
def v0AesGcm256 : UInt8 := 1

namespace EncryptedMetadata

section Code

variable [Target]

def fromV0BinaryEncryptedPayload (bytes : Bytes) : Exec Error EncryptedMetadata := do
  let offset := v0Magic.length
  let tail ← sliceFrom bytes offset
  let (incr, version) ← .mapErr .ll (parseVersion tail)
  let offset ← .mapErr .ll (incrementOffset bytes offset incr)
  let tail ← sliceFrom bytes offset
  let (incr, derivationPaths) ← .mapErr .ll (parseDerivationPaths tail)
  let offset ← .mapErr .ll (incrementOffset bytes offset incr)
  let tail ← sliceFrom bytes offset
  let (incr, individualSecrets) ← .mapErr .ll (parseIndividualSecrets tail)
  let offset ← .mapErr .ll (incrementOffset bytes offset incr)
  let tail ← sliceFrom bytes offset
  let (incr, encryption) ← .mapErr .ll (parseEncryption tail)
  let offset ← .mapErr .ll (incrementOffset bytes offset incr)
  let tail ← sliceFrom bytes offset
  let (nonce, ciphertext) ← .mapErr .ll (parseEncryptedPayload tail)
  if Version.ofU8 version ∉ [Version.v0, .v1] ∨ encryption ≠ v0AesGcm256 then
    .fail .notImplemented
  else
    .ok {
      version := .v0
      derivationPaths
      individualSecrets
      encryption := .aesGcm256
      nonce
      ciphertextLens := [ciphertext.length] }

def fromBinaryEncryptedPayload (bytes : Bytes) : Exec Error EncryptedMetadata :=
  if v0Magic <+: bytes then fromV0BinaryEncryptedPayload bytes
  else do
    let version ← .mapErr .ll (decodeVersion bytes)
    match Version.ofU8 version with
    | .v1 => do
        let (derivationPaths, individualSecrets, encryption, nonce, _) ←
          .mapErr .ll (decodeV1 bytes)
        let ciphertextLens ← .mapErr .ll (decodeV1EncryptedPayloadLengths bytes)
        .ok {
          version := .v1
          derivationPaths
          individualSecrets
          encryption := .ofU8 encryption
          nonce
          ciphertextLens }
    | _ => .fail .notImplemented

def fromEncryptedPayload [Base64] (bytes : Bytes) : Exec Error EncryptedMetadata :=
  if magic <+: bytes then fromBinaryEncryptedPayload bytes
  else if v0Magic <+: bytes then fromBinaryEncryptedPayload bytes
  else do
    let text ← .okOr (fromUtf8 bytes) .base64
    let decoded ← .okOr (Base64.decode (trim text)) .base64
    fromBinaryEncryptedPayload decoded

end Code

/-- The metadata lists what the builder holds of a loaded container. -/
structure Describes (metadata : EncryptedMetadata) (backup : EncryptedBackup) : Prop where
  version : metadata.version = .v1 ∧ backup.version = .v1
  derivationPaths : metadata.derivationPaths = backup.derivationPaths
  encryption : metadata.encryption = backup.encryption
  payload : ∃ cyphertext,
    backup.payload = .decryptV1 cyphertext metadata.individualSecrets metadata.nonce ∧
      ∃ behind, metadata.ciphertextLens = cyphertext.length :: behind

section Agreement

variable [Target] {bytes : Bytes}

/-- The two parsers end alike on a container in binary form. -/
theorem alike_binary (hfits : bytes.length ≤ isizeMax) (hv0 : ¬ v0Magic <+: bytes) :
    Exec.Alike Describes (fromBinaryEncryptedPayload bytes)
      (EncryptedBackup.new.setEncryptedPayloadBinary bytes) := by
  rw [fromBinaryEncryptedPayload, EncryptedBackup.setEncryptedPayloadBinary, if_neg hv0, if_neg hv0]
  refine (returns_decodeVersion.mapErr Error.ll).alike_bind fun version _ => ?_
  cases Version.ofU8 version with
  | v0 | unknown => exact Exec.alike_fail _
  | v1 =>
      refine ((returns_decodeV1 hfits).mapErr Error.ll).alike_bind fun decoded hdecode => ?_
      obtain ⟨derivationPaths, individualSecrets, encryption, nonce, cyphertext⟩ := decoded
      obtain ⟨behind, hlengths⟩ := exists_decodeV1EncryptedPayloadLengths_eq_ok hfits
        (Exec.mapErr_eq_ok_iff.mp hdecode)
      dsimp only
      rw [hlengths]
      exact Exec.alike_ok ⟨⟨rfl, rfl⟩, rfl, rfl, cyphertext, rfl, behind, rfl⟩

end Agreement

/-- The container that is read: the bytes themselves when they start with the magic, and
what they are the base64 of otherwise. -/
def binaryForm [Base64] (bytes : Bytes) : Option Bytes :=
  if magic <+: bytes then some bytes
  else do
    let text ← fromUtf8 bytes
    Base64.decode (trim text)

/-- Decoded text is no longer than the text. -/
def Base64Shrinks [Base64] : Prop :=
  ∀ text decoded, Base64.decode text = some decoded → decoded.length ≤ (asBytes text).length

/-- Inspecting and loading take the same containers. On every input of which neither the
bytes nor their binary form is a backup of the previous format, both end with the same
error, or with the same fields, and the lengths start with that of the cyphertext that is
kept for decryption. -/
theorem fromEncryptedPayload_alike [Target] [Base64] (hbase64 : Base64Shrinks) (bytes : Slice)
    (hv0 : ¬ v0Magic <+: bytes.1)
    (hbinary : ∀ binary, binaryForm bytes.1 = some binary → ¬ v0Magic <+: binary) :
    Exec.Alike Describes (fromEncryptedPayload bytes.1)
      (EncryptedBackup.new.setEncryptedPayload bytes.1) := by
  obtain ⟨bytes, hfits⟩ := bytes
  dsimp only at hv0 hbinary ⊢
  rw [fromEncryptedPayload, EncryptedBackup.setEncryptedPayload, if_neg hv0, if_neg hv0]
  by_cases hmagic : magic <+: bytes
  · rw [if_pos hmagic, if_pos hmagic]
    exact alike_binary hfits hv0
  · rw [if_neg hmagic, if_neg hmagic]
    refine (Exec.returns_okOr _ _).alike_bind fun text htext => ?_
    refine (Exec.returns_okOr _ _).alike_bind fun decoded hdecoded => ?_
    rw [Exec.okOr_eq_ok_iff] at htext hdecoded
    have hlength : decoded.length ≤ bytes.length := by
      rw [fromUtf8_eq_some_iff.mp htext]
      exact (hbase64 _ _ hdecoded).trans (length_asBytes_trim_le text)
    apply alike_binary (hlength.trans hfits)
    apply hbinary
    rw [binaryForm, if_neg hmagic, htext]
    exact hdecoded

namespace Sample

/-- The value of a character of the standard alphabet. -/
def sextet (char : Char) : Option ℕ :=
  let code := char.toNat
  if 'A' ≤ char ∧ char ≤ 'Z' then some (code - 65)
  else if 'a' ≤ char ∧ char ≤ 'z' then some (code - 71)
  else if '0' ≤ char ∧ char ≤ '9' then some (code + 4)
  else if char = '+' then some 62
  else if char = '/' then some 63
  else none

/-- Standard base64 with padding, whose unused bits are zero. -/
def decodeGroups : List Char → Option Bytes
  | [] => some []
  | [first, second, '=', '='] => do
      let first ← sextet first
      let second ← sextet second
      if second % 16 = 0 then some [.ofNat (first * 4 + second / 16)] else none
  | [first, second, third, '='] => do
      let first ← sextet first
      let second ← sextet second
      let third ← sextet third
      if third % 4 = 0 then
        some [.ofNat (first * 4 + second / 16), .ofNat (second * 16 + third / 4)]
      else none
  | first :: second :: third :: fourth :: rest => do
      let first ← sextet first
      let second ← sextet second
      let third ← sextet third
      let fourth ← sextet fourth
      let rest ← decodeGroups rest
      some (.ofNat (first * 4 + second / 16) :: .ofNat (second * 16 + third / 4) ::
        .ofNat (third * 64 + fourth) :: rest)
  | _ => none

scoped instance standard : Base64 where
  encode bytes := .ofList (encodeBase64 bytes)
  decode text := decodeGroups text.toList

/-- A group of four characters holds at most three bytes. -/
theorem length_le_of_decodeGroups {chars : List Char} {decoded : Bytes}
    (hdecode : decodeGroups chars = some decoded) : decoded.length ≤ chars.length := by
  fun_induction decodeGroups chars generalizing decoded with
  | case1 =>
      cases hdecode
      exact le_rfl
  | case2 first second =>
      simp only [Option.bind_eq_bind, Option.bind_eq_some_iff] at hdecode
      obtain ⟨_, -, _, -, hgroup⟩ := hdecode
      split at hgroup <;> cases hgroup
      simp
  | case3 first second third =>
      simp only [Option.bind_eq_bind, Option.bind_eq_some_iff] at hdecode
      obtain ⟨_, -, _, -, _, -, hgroup⟩ := hdecode
      split at hgroup <;> cases hgroup
      simp
  | case4 first second third fourth rest _ _ ih =>
      simp only [Option.bind_eq_bind, Option.bind_eq_some_iff] at hdecode
      obtain ⟨_, -, _, -, _, -, _, -, tail, htail, hgroup⟩ := hdecode
      cases hgroup
      have hle := ih htail
      simp only [List.length_cons]
      omega
  | case5 => cases hdecode

theorem base64Shrinks : Base64Shrinks := by
  intro text decoded hdecode
  refine (length_le_of_decodeGroups hdecode).trans ?_
  rw [asBytes_eq_flatMap, List.length_flatMap]
  calc text.toList.length
      = (text.toList.map fun _ => 1).sum := by simp
    _ ≤ (text.toList.map fun char => (String.utf8EncodeChar char).length).sum := by
        apply List.sum_le_sum
        intro char _
        rw [String.length_utf8EncodeChar]
        exact char.utf8Size_pos

end Sample

open Bip138.EncryptedMetadata.Sample in
/-- Bytes that start like a backup of the previous format, and are base64 of no such
backup, are loaded unread, and refused when they are inspected. -/
theorem not_fromEncryptedPayload_alike :
    ¬ ∀ bytes : @Slice target64,
      (∀ binary, binaryForm bytes.1 = some binary → ¬ v0Magic <+: binary) →
        Exec.Alike Describes (@fromEncryptedPayload target64 _ bytes.1)
          (@EncryptedBackup.setEncryptedPayload target64 _ .new bytes.1) := by
  intro halike
  have hform : binaryForm [0x42, 0x45, 0x42, 0x41] = some [0x04, 0x40, 0x40] := by decide +kernel
  have hfits : [0x42, 0x45, 0x42, 0x41].length ≤ @isizeMax target64 := by decide +kernel
  rcases halike ⟨[0x42, 0x45, 0x42, 0x41], hfits⟩ (by simp [hform, v0Magic]) with
    ⟨metadata, backup, hmetadata, -⟩ | ⟨cause, -, hload⟩
  · cases hmetadata
  · cases hload

open Bip138.EncryptedMetadata.Sample in
/-- The sample backup is inspected and loaded alike. -/
theorem fromEncryptedPayload_alike_sample :
    Exec.Alike Describes (@fromEncryptedPayload target64 _ sampleBackup.1)
      (@EncryptedBackup.setEncryptedPayload target64 _ .new sampleBackup.1) := by
  have hform : binaryForm sampleBackup.1 = some sampleBackup.1 := by decide +kernel
  have hv0 : ¬ v0Magic <+: sampleBackup.1 := by decide +kernel
  refine @fromEncryptedPayload_alike target64 _ base64Shrinks sampleBackup hv0 fun binary hbinary => ?_
  rw [hform, Option.some.injEq] at hbinary
  rwa [← hbinary]

end EncryptedMetadata

end Bip138
