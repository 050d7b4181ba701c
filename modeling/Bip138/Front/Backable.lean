/-
# Which wallets are backed up

A wallet is a list of descriptors. With working parts, and within the bounds of the
format, encryption succeeds exactly when the payload can be padded and no path from a
master key is the empty one (`exists_encrypt_ofDescriptor_iff`).

The empty path is the origin path of a key expression whose origin is only a master
fingerprint. The front end collects it like any other path, and the core, whose
format has no record for it, refuses the backup.
-/

import Bip138.Front.Selection
import Bip138.Front.Exposure
import Bip138.Ll.Refusals

namespace Bip138

open Bip138.Rust Bip138.Ll

variable {ρ : Type}

namespace EncryptedBackup

/-- A builder that calls the core encrypts when the call does. -/
theorem exists_encrypt_eq_ok_iff [Target] {crypto : Crypto} {rng : Rng ρ} {source : ρ}
    {backup : EncryptedBackup} {call : CoreCall} (hcall : backup.coreCall = .ok call) :
    (∃ fuel encrypted, backup.encrypt crypto (.drawn fuel rng source) = .ok encrypted) ↔
      ∃ fuel bytes, encryptChacha20Poly1305V1Items fuel crypto rng source call.derivationPaths
        call.storeCommonPaths call.items call.keys call.padding = .ok bytes := by
  refine ⟨fun ⟨fuel, encrypted, hencrypt⟩ => ?_, fun ⟨fuel, bytes, hbytes⟩ => ?_⟩
  · obtain ⟨other, hother, hcore, -⟩ := encrypt_eq_ok_iff.mp hencrypt
    rw [hcall] at hother
    cases hother
    exact ⟨fuel, _, hcore⟩
  · exact ⟨fuel, ⟨bytes, backup.warnings⟩, encrypt_eq_ok_iff.mpr ⟨call, hcall, hbytes, rfl⟩⟩

end EncryptedBackup

section Wallet

variable [Miniscript] {descriptors : List Descriptor}

/-- The items a list of descriptors is encrypted as. -/
def descriptorItems (descriptors : List Descriptor) : List (Content × Bytes) :=
  descriptors.map fun descriptor => (.bip380, asBytes descriptor.toString)

/-- A wallet with a key calls the core with its items, paths and keys. -/
theorem coreCall_ofDescriptors (padding : Padding) (storeCommonPaths : Bool)
    (hkeys : (ofDescriptors descriptors).keys ≠ []) :
    (((ofDescriptors descriptors).setPadding padding).setStoreCommonPaths
        storeCommonPaths).coreCall =
      .ok ⟨(ofDescriptors descriptors).derivationPaths, storeCommonPaths,
        descriptorItems descriptors, (ofDescriptors descriptors).keys.map xonly, padding⟩ :=
  EncryptedBackup.coreCall_eq_ok_iff.mpr ⟨rfl, rfl, hkeys, _, .many _ rfl, rfl⟩

theorem itemValid_descriptorItems
    (htexts : ∀ descriptor ∈ descriptors,
      descriptor.toString ≠ "" ∧ (asBytes descriptor.toString).length ≤ u32Max) :
    ∀ item ∈ descriptorItems descriptors, ItemValid item := by
  intro item hitem
  obtain ⟨descriptor, hdescriptor, rfl⟩ := List.mem_map.mp hitem
  obtain ⟨hnonempty, hlength⟩ := htexts descriptor hdescriptor
  have hknown : Content.bip380 ≠ .none ∧ Content.bip380 ≠ .unknown := by
    decide
  exact ⟨fun hempty => hnonempty (asBytes_eq_nil_iff.mp hempty), hlength, hknown⟩

variable [Target] {crypto : Crypto} {rng : Rng ρ} {source : ρ} {backup : EncryptedBackup}

/-- With working parts, a wallet within the bounds of the format is backed up exactly
when its descriptors can be padded and no expression whose root is a key has an origin
that is only a master fingerprint. -/
theorem exists_encrypt_ofDescriptor_iff {padding : Padding} {storeCommonPaths : Bool}
    (hset : ((EncryptedBackup.new.setPadding padding).setStoreCommonPaths
      storeCommonPaths).setPayloads (descriptors.map .ofDescriptor) = .ok backup)
    (hkeys : 1 ≤ (rawKeys (backup.getKeys.map xonly)).toList.length ∧
      (rawKeys (backup.getKeys.map xonly)).toList.length ≤ 255)
    (htexts : ∀ descriptor ∈ descriptors,
      descriptor.toString ≠ "" ∧ (asBytes descriptor.toString).length ≤ u32Max)
    (hcount : (BTreeSet.collect backup.getDerivationPaths).toList.length ≤ 255)
    (hsteps : ∀ path ∈ backup.getDerivationPaths, path.length ≤ 255)
    (hshares : ∀ key ∈ rawKeys (backup.getKeys.map xonly),
      share crypto (backupSecret crypto (backup.getKeys.map xonly)) key ≠ .zero 32)
    (hcipher : ∀ secret nonce plaintext, ∃ cyphertext,
      crypto.aeadEncrypt secret nonce plaintext = some cyphertext ∧ cyphertext ≠ [])
    (hserves : Serves crypto rng source (backup.getKeys.map xonly)) :
    (∃ fuel encrypted, backup.encrypt crypto (.drawn fuel rng source) = .ok encrypted) ↔
      (∃ size, padding.paddedSize ((descriptorItems descriptors).flatMap itemBytes).length =
        .ok size) ∧
      ¬ ∃ root, HasCandidatePath descriptors root [] ∧ root.x ≠ bip341Nums ∧
        ¬ HasExposure descriptors root.x := by
  rw [setPayloads_ofDescriptor_of_options] at hset
  cases hset
  rw [← mem_derivationPaths_ofDescriptors]
  obtain ⟨key, hkey⟩ := List.exists_mem_of_length_pos hkeys.1
  obtain ⟨root, hroot, -⟩ := List.mem_map.mp (mem_rawKeys.mp hkey).1
  obtain ⟨⟨descriptor, hdescriptor, -⟩, -⟩ := mem_keys_ofDescriptors.mp hroot
  have hitems : descriptorItems descriptors ≠ [] :=
    List.ne_nil_of_mem (List.mem_map_of_mem hdescriptor)
  rw [EncryptedBackup.exists_encrypt_eq_ok_iff
    (coreCall_ofDescriptors padding storeCommonPaths (List.ne_nil_of_mem hroot))]
  exact exists_encryptItems_eq_ok_iff ⟨hitems, itemValid_descriptorItems htexts⟩ hkeys hcount
    hsteps hshares hcipher hserves

end Wallet

namespace Sample

/-- A wallet within the bounds of the format, and parts that work for it. -/
structure Backable (descriptors : List Descriptor) (backup : EncryptedBackup) : Prop where
  set : EncryptedBackup.new.setPayloads (descriptors.map .ofDescriptor) = .ok backup
  keys : 1 ≤ (rawKeys (backup.getKeys.map xonly)).toList.length ∧
    (rawKeys (backup.getKeys.map xonly)).toList.length ≤ 255
  texts : ∀ descriptor ∈ descriptors,
    descriptor.toString ≠ "" ∧ (asBytes descriptor.toString).length ≤ u32Max
  count : (BTreeSet.collect backup.getDerivationPaths).toList.length ≤ 255
  steps : ∀ path ∈ backup.getDerivationPaths, path.length ≤ 255
  shares : ∀ key ∈ rawKeys (backup.getKeys.map xonly),
    share sampleCrypto (backupSecret sampleCrypto (backup.getKeys.map xonly)) key ≠ .zero 32
  cipher : ∀ secret nonce plaintext, ∃ cyphertext,
    sampleCrypto.aeadEncrypt secret nonce plaintext = some cyphertext ∧ cyphertext ≠ []
  serves : Serves sampleCrypto countingRng 1 (backup.getKeys.map xonly)

theorem serves_countingRng : Serves sampleCrypto countingRng 1 [rootX] := by
  refine serves_of_drawn 4 ?_ ?_ ?_
  · decide
  · decide +kernel
  · decide +kernel

/-- A wallet whose only key is the root of the account. -/
theorem backable_of_keys {descriptor : Descriptor}
    (hkeys : (ofDescriptors [descriptor]).keys = [root])
    (htext : descriptor.toString ≠ "" ∧ (asBytes descriptor.toString).length ≤ u32Max)
    (hpaths : (BTreeSet.collect (ofDescriptors [descriptor]).derivationPaths).toList.length ≤ 255 ∧
      ∀ path ∈ (ofDescriptors [descriptor]).derivationPaths, path.length ≤ 255) :
    Backable [descriptor] (ofDescriptors [descriptor]) := by
  have hxonly : (ofDescriptors [descriptor]).getKeys.map xonly = [rootX] := by
    rw [EncryptedBackup.getKeys, hkeys]
    rfl
  refine ⟨setPayloads_ofDescriptor _, ?_, ?_, hpaths.1, hpaths.2, ?_, sampleCrypto_seals, ?_⟩
  · rw [hxonly]
    decide +kernel
  · intro other hother
    rw [List.mem_singleton.mp hother]
    exact htext
  · rw [hxonly]
    show ∀ key ∈ (rawKeys [rootX]).toList, _
    decide +kernel
  · rw [hxonly]
    exact serves_countingRng

end Sample

open Sample in
/-- A wallet with a full origin is backed up. -/
theorem exists_encrypt_ofDescriptor_iff_origin :
    ∃ backup : EncryptedBackup, Backable [origin] backup ∧
      ∃ fuel encrypted, backup.encrypt sampleCrypto (.drawn fuel countingRng 1) =
        .ok encrypted := by
  have hbackable : Backable [origin] (ofDescriptors [origin]) :=
    backable_of_keys (by decide +kernel) (by decide +kernel) (by decide +kernel)
  refine ⟨_, hbackable, (exists_encrypt_ofDescriptor_iff hbackable.set hbackable.keys
    hbackable.texts hbackable.count hbackable.steps hbackable.shares hbackable.cipher
    hbackable.serves).mpr ⟨⟨_, rfl⟩, ?_⟩⟩
  rintro ⟨key, ⟨descriptor, hdescriptor, expression, hexpression, -, hpath⟩, -⟩
  rw [List.mem_singleton.mp hdescriptor] at hexpression
  rw [List.mem_singleton.mp hexpression] at hpath
  cases hpath

open Sample in
/-- A wallet whose only origin is a master fingerprint is never backed up. -/
theorem encrypt_ofDescriptor_master_ne :
    ∃ backup : EncryptedBackup, Backable [master] backup ∧
      ∀ fuel encrypted, backup.encrypt sampleCrypto (.drawn fuel countingRng 1) ≠
        .ok encrypted := by
  have hbackable : Backable [master] (ofDescriptors [master]) :=
    backable_of_keys (by decide +kernel) (by decide +kernel) (by decide +kernel)
  refine ⟨_, hbackable, fun fuel encrypted hencrypt => ?_⟩
  have hempty : [] ∈ (ofDescriptors [master]).derivationPaths := by
    decide +kernel
  obtain ⟨call, hcall, hcore, -⟩ := EncryptedBackup.encrypt_eq_ok_iff.mp hencrypt
  obtain ⟨-, -, -, items, hitems, rfl⟩ := EncryptedBackup.coreCall_eq_ok_iff.mp hcall
  obtain ⟨_, -, hbackup⟩ := Exec.bind_eq_ok_iff.mp hcore
  exact encodeV1Backup_ne_ok_of_nil_mem hempty hbackup

end Bip138
