/-
# Containers that are cut

A container of version one tells where it ends: its grammar is self-delimiting
(`selfDelimiting_container`). So the bytes a container is decoded from are settled by the
input, they are all that is needed, and an input that is cut inside them is refused with an
error (`decodeV1_take`). An encoder writes nothing behind its container, hence nothing can be
cut off a backup it returned.
-/

import Bip138.Wire.Delimited
import Bip138.Ll.Returns
import Bip138.Ll.Encrypt

namespace Bip138.Ll

open Bip138.Rust Bip138.Wire

theorem selfDelimiting_block {n : ℕ} (valid : Block n → Prop) :
    SelfDelimiting (.ofEncode valid Subtype.val) :=
  .ofEncode n (fun block => block.2) fun _ _ _ _ hsame => Subtype.ext hsame

theorem selfDelimiting_pathRecord : SelfDelimiting PathRecord := by
  refine (SelfDelimiting.counted (.ofEncode 4 (fun _ => length_toBeBytes _ _) ?_)).filter _
  intro child child' _ _ hsame
  have hback : ∀ child : UInt32, fromBeBytes (toBeBytes 4 child.toNat) = child.toNat := fun child =>
    fromBeBytes_toBeBytes child.toNat_lt
  rw [← UInt32.toNat_inj, ← hback child, hsame, hback child']

theorem selfDelimiting_container : SelfDelimiting Container := by
  have hpreamble : SelfDelimiting Preamble := .ofEncode 7 (fun _ => rfl) fun _ _ _ _ _ => rfl
  have hsecrets : SelfDelimiting SecretTable :=
    (SelfDelimiting.counted (selfDelimiting_block _)).filter _
  have hencryption : SelfDelimiting EncryptionByte :=
    .ofEncode 1 (fun _ => rfl) fun _ _ _ _ hsame => List.singleton_inj.mp hsame
  have hpayload : SelfDelimiting EncryptedPayload := (selfDelimiting_block _).seq .sizedData
  exact (hpreamble.seq ((SelfDelimiting.counted selfDelimiting_pathRecord).seq
    (hsecrets.seq hencryption))).seq hpayload

section Cut

variable [Target] {bytes : Bytes}

/-- What is assembled into a backup is a container and nothing behind it. -/
theorem exists_reads_container {crypto : Crypto} {paths : List DerivationPath}
    {storeCommonPaths : Bool} {keys : List (Block 32)} {payload : Bytes} {nonce : Block 12}
    {pad : List (Block 32) → Exec Error (List (Block 32))}
    (hbackup : encodeV1Backup crypto paths storeCommonPaths keys payload nonce pad = .ok bytes)
    (hfits : bytes.length ≤ isizeMax) : ∃ parts, Reads Container bytes 0 bytes.length parts := by
  have husize := two_mul_isizeMax_lt_usizeMax
  have hwidth := usizeMax_lt_two_pow_64
  obtain ⟨-, -, -, padded, secretWord, pathWord, cyphertext, -, hsecrets, hpaths, hnonce, -, -, -,
    rfl⟩ := encodeV1Backup_eq_ok_iff.mp hbackup
  have hlength : cyphertext.length ≤ isizeMax := by
    refine le_trans ?_ hfits
    simp only [encodeV1, List.length_append]
    omega
  have hsize := Varint.compactSize_encode (UInt64.ofNat cyphertext.length)
  rw [UInt64.toNat_ofNat', Nat.mod_eq_of_lt (by omega)] at hsize
  rw [encodeDerivationPaths_eq_ok_iff] at hpaths
  rw [encodeIndividualSecrets_eq_ok_iff] at hsecrets
  refine ⟨_, reads_zero_iff.mpr ⟨_, [], container_iff.mpr ⟨pathWord, secretWord, _, hpaths,
    hsecrets, (by decide : (0x01 : UInt8) ≠ 0), hnonce, hsize, rfl⟩, ?_, ?_⟩⟩
  · simp [encodeV1]
  · simp [encodeV1]

/-- An input that is cut inside the container it starts with is refused. -/
theorem exists_decodeV1_take_eq_fail (hfits : bytes.length ≤ isizeMax) {stop cut : ℕ}
    {parts : (Unit × List DerivationPath × List (Block 32) × UInt8) × Block 12 × Bytes}
    (hreads : Reads Container bytes 0 stop parts) (hcut : cut < stop) :
    ∃ cause, decodeV1 (bytes.take cut) = .fail cause := by
  have hshort : (bytes.take cut).length ≤ isizeMax := (List.length_take_le' cut bytes).trans hfits
  refine (returns_decodeV1 hshort).resolve_left fun ⟨decoded, hdecode⟩ => ?_
  obtain ⟨stored, secrets, encryption, nonce, cyphertext⟩ := decoded
  obtain ⟨records, blocks, stop', hreads', -⟩ := (decodeV1_eq_ok_iff hshort).mp hdecode
  exact selfDelimiting_container.not_reads_take hreads hcut hreads'

/-- Where a container ends. An input that decodes has one place from which on it may be cut
without a change to what is decoded, and before which every cut is refused. -/
theorem decodeV1_take (bytes : Slice)
    {parts : List DerivationPath × List (Block 32) × UInt8 × Block 12 × Bytes}
    (hdecode : decodeV1 bytes.1 = .ok parts) :
    ∃ stop ≤ bytes.1.length, ∀ cut,
      (stop ≤ cut → decodeV1 (bytes.1.take cut) = .ok parts) ∧
      (cut < stop → ∃ cause, decodeV1 (bytes.1.take cut) = .fail cause) := by
  obtain ⟨bytes, hfits⟩ := bytes
  obtain ⟨stored, secrets, encryption, nonce, cyphertext⟩ := parts
  obtain ⟨records, blocks, stop, hreads, hsets⟩ := (decodeV1_eq_ok_iff hfits).mp hdecode
  refine ⟨stop, hreads.stop_le, fun cut => ⟨fun hcut => ?_, fun hcut => ?_⟩⟩
  · have hshort : (bytes.take cut).length ≤ isizeMax := (List.length_take_le' cut bytes).trans hfits
    exact (decodeV1_eq_ok_iff hshort).mpr ⟨records, blocks, stop, hreads.take hcut, hsets⟩
  · exact exists_decodeV1_take_eq_fail hfits hreads hcut

end Cut

end Bip138.Ll
