/-
# The stored secrets

What a backup shows of its recipients is one table: a count, which is that of a doubling
bucket, and as many secrets in increasing order, among which the shares of the recipients
and the decoys cannot be told apart by their place. When no two recipients have the same
mask none of them is merged with another on the way through the padding, the sort and the
deduplication, whether the decoys were drawn or supplied.
-/

import Mathlib.Order.Bounds.Basic
import Bip138.Ll.Recipients
import Bip138.Ll.Uniform

namespace Bip138.Ll

open Bip138.Rust Bip138.Wire

/-- The bucket of a count is the smallest of the seven sizes that hold it. -/
theorem isLeast_secretBucket {len : ℕ} (hlen : len ≤ u8Max) :
    IsLeast {bucket | bucket ∈ [5, 10, 20, 40, 80, 160, 255] ∧ len ≤ bucket}
      (secretBucket len) := by
  have hcases : ∀ len ≤ u8Max, secretBucket len ∈ [5, 10, 20, 40, 80, 160, 255] ∧
      ∀ bucket ∈ [5, 10, 20, 40, 80, 160, 255], len ≤ bucket → secretBucket len ≤ bucket := by
    decide +kernel
  obtain ⟨hmem, hleast⟩ := hcases len hlen
  exact ⟨⟨hmem, le_secretBucket hlen⟩, fun bucket hbucket => hleast bucket hbucket.1 hbucket.2⟩

/-- The table of a backup: its count is the smallest bucket that holds the recipients, and
its entries, increasing and none of them zero, are the secrets of the recipients together
with the decoys. -/
structure StoresSecrets (crypto : Crypto) (keys decoys : List (Block 32)) (count : UInt8)
    (entries : List (Block 32)) : Prop where
  bucket : doublingBucket (recipients keys).card = .ok count.toNat
  least : IsLeast {bucket | bucket ∈ [5, 10, 20, 40, 80, 160, 255] ∧
    (recipients keys).card ≤ bucket} count.toNat
  length : entries.length = count.toNat
  increasing : entries.Pairwise (· < ·)
  nonzero : ∀ entry ∈ entries, entry ≠ .zero 32
  entries : (entries : Multiset (Block 32)) =
    (recipients keys).val.map (storedSecret crypto keys) + decoys
  decoys : decoys.length = count.toNat - (recipients keys).card

/-- The bytes of a backup with this table: the magic and the version, the stored paths, the
count and the entries, the encryption byte, and what is encrypted. -/
def HasTable (paths : List DerivationPath) (storeCommonPaths : Bool) (count : UInt8)
    (entries : List (Block 32)) (bytes : Bytes) : Prop :=
  ∃ pathWord payloadWord, PathTable (storedPaths paths storeCommonPaths).sort pathWord ∧
    bytes = magic ++ [0x01] ++ pathWord ++ (count :: entries.flatMap Subtype.val) ++ [0x01] ++
      payloadWord

section Table

variable {crypto : Crypto} {paths : List DerivationPath} {storeCommonPaths : Bool}
  {keys decoys : List (Block 32)}

theorem setOf_mem_rawKeys : {key | key ∈ rawKeys keys} = recipients keys := by
  ext key
  exact mem_rawKeys_iff_mem_recipients

/-- The shares the encoder computes are the secrets of the recipients. -/
theorem coe_shares :
    (shares crypto keys : Multiset (Block 32)) =
      (recipients keys).val.map (storedSecret crypto keys) := by
  have hshare : share crypto (backupSecret crypto keys) = storedSecret crypto keys :=
    funext fun key => share_backupSecret
  rw [shares, hshare, BTreeSet.toList_eq_sort fun _ => mem_rawKeys_iff_mem_recipients,
    ← Multiset.map_coe, Finset.sort_eq]

/-- Recipients without a mask in common have different shares. -/
theorem nodup_shares (hmasks : Set.InjOn (individualHash crypto) {key | key ∈ rawKeys keys}) :
    (shares crypto keys).Nodup := by
  apply List.Nodup.map_on _ (rawKeys keys).nodup_toList
  intro key hkey other hother hequal
  exact hmasks hkey hother (Block.xor_right_injective _ hequal)

/-- Supplied decoys that are accepted leave every share and every decoy in the table. -/
theorem perm_collect_padded
    (hmasks : Set.InjOn (individualHash crypto) {key | key ∈ rawKeys keys})
    {padded : List (Block 32)}
    (hpad : padIndividualSecretsWithDecoys decoys (shares crypto keys) = .ok padded) :
    (BTreeSet.collect padded).toList.Perm (shares crypto keys ++ decoys) := by
  obtain ⟨-, -, hnew, hnodup, rfl⟩ := padIndividualSecretsWithDecoys_eq_ok_iff.mp hpad
  apply BTreeSet.perm_toList_collect
  refine List.nodup_append'.mpr ⟨nodup_shares hmasks, hnodup, fun secret hsecret hdecoy => ?_⟩
  exact (hnew secret hdecoy).2 hsecret

/-- A backup assembled with supplied decoys has the table of its recipients. -/
theorem storesSecrets_of_encodeV1Backup {payload bytes : Bytes} {nonce : Block 12}
    (hmasks : Set.InjOn (individualHash crypto) (recipients keys))
    (hbackup : encodeV1Backup crypto paths storeCommonPaths keys payload nonce
      (padIndividualSecretsWithDecoys decoys) = .ok bytes) :
    ∃ count entries, HasTable paths storeCommonPaths count entries bytes ∧
      StoresSecrets crypto keys decoys count entries := by
  obtain ⟨⟨-, hkeys⟩, -, hshares, padded, secretWord, pathWord, cyphertext, hpad, hsecrets,
    hpaths, -, -, -, -, rfl⟩ := encodeV1Backup_eq_ok_iff.mp hbackup
  rw [← setOf_mem_rawKeys] at hmasks
  have hperm := perm_collect_padded hmasks hpad
  obtain ⟨-, hcount, hnew, -, -⟩ := padIndividualSecretsWithDecoys_eq_ok_iff.mp hpad
  rw [List.length_map, length_rawKeys] at hcount
  rw [length_rawKeys] at hkeys
  rw [encodeIndividualSecrets_eq_ok_iff] at hsecrets
  obtain ⟨-, hlength, rfl⟩ := secretTable_iff.mp hsecrets
  have hbucket : (BTreeSet.collect padded).toList.length =
      secretBucket (recipients keys).card := by
    rw [hperm.length_eq, List.length_append, hcount, shares, List.length_map, length_rawKeys]
    exact Nat.add_sub_of_le (le_secretBucket hkeys)
  have hbyte : (UInt8.ofNat (BTreeSet.collect padded).toList.length).toNat =
      secretBucket (recipients keys).card := by
    rw [toNat_ofNat_length hlength, hbucket]
  have hpathTable : PathTable (storedPaths paths storeCommonPaths).sort pathWord := by
    rw [encodeDerivationPaths_eq_ok_iff, BTreeSet.collect_toList] at hpaths
    rwa [← BTreeSet.toList_eq_sort fun _ => mem_storedDerivationPaths_iff_mem_storedPaths]
  refine ⟨UInt8.ofNat (BTreeSet.collect padded).toList.length, (BTreeSet.collect padded).toList,
    ⟨pathWord, _, hpathTable, rfl⟩, ?_, ?_, ?_, BTreeSet.sorted _, ?_, ?_, ?_⟩
  · rw [hbyte, doublingBucket_eq hkeys]
  · rw [hbyte]
    exact isLeast_secretBucket hkeys
  · rw [hbyte, hbucket]
  · intro entry hentry
    rcases List.mem_append.mp (hperm.mem_iff.mp hentry) with hshare | hdecoy
    · obtain ⟨key, hkey, rfl⟩ := List.mem_map.mp hshare
      exact hshares key hkey
    · exact (hnew entry hdecoy).1
  · rw [← coe_shares, Multiset.coe_add]
    exact Multiset.coe_eq_coe.mpr hperm
  · rw [hbyte, hcount]

end Table

section Encryption

variable [Target] {ρ : Type} {crypto : Crypto} {paths : List DerivationPath}
  {storeCommonPaths : Bool} {items : List (Content × Bytes)} {keys : List (Block 32)}
  {padding : Padding}

/-- The stored secrets of every backup, made with supplied decoys or with drawn ones: when
no two recipients have a mask in common, the count of the container is the smallest bucket
that holds the recipients, and the entries are increasing, not zero, and exactly the
secrets of the recipients and the decoys. -/
theorem storesSecrets_of_encryptItems
    (hmasks : Set.InjOn (individualHash crypto) (recipients keys)) :
    (∀ nonce decoys bytes,
      encryptChacha20Poly1305V1ItemsWithDecoys crypto paths storeCommonPaths items keys padding
          nonce decoys = .ok bytes →
        ∃ count entries, HasTable paths storeCommonPaths count entries bytes ∧
          StoresSecrets crypto keys decoys count entries) ∧
    ∀ fuel (rng : Rng ρ) source bytes,
      encryptChacha20Poly1305V1Items fuel crypto rng source paths storeCommonPaths items keys
          padding = .ok bytes →
        ∃ count entries decoys, HasTable paths storeCommonPaths count entries bytes ∧
          StoresSecrets crypto keys decoys count entries ∧
          ∀ decoy ∈ decoys, ∃ i, drawn (rng.fillBytes 32) (drawNonce rng source).2 i = decoy := by
  constructor
  · intro nonce decoys bytes hencrypt
    obtain ⟨payload, -, hbackup⟩ := Exec.bind_eq_ok_iff.mp hencrypt
    exact storesSecrets_of_encodeV1Backup hmasks hbackup
  · intro fuel rng source bytes hencrypt
    obtain ⟨payload, -, hbackup⟩ := Exec.bind_eq_ok_iff.mp hencrypt
    obtain ⟨hkeys, hpaths, hshares, padded, secretWord, pathWord, cyphertext, hpad, hrest⟩ :=
      encodeV1Backup_eq_ok_iff.mp hbackup
    obtain ⟨decoys, rfl, hsupplied⟩ := padIndividualSecretsWithDecoys_of_padIndividualSecrets hpad
    obtain ⟨count, entries, htable, hstores⟩ := storesSecrets_of_encodeV1Backup hmasks
      (encodeV1Backup_eq_ok_iff.mpr ⟨hkeys, hpaths, hshares, _, secretWord, pathWord, cyphertext,
        hsupplied, hrest⟩)
    refine ⟨count, entries, decoys, htable, hstores, fun decoy hdecoy => ?_⟩
    obtain ⟨-, -, hnew, -, -⟩ := padIndividualSecretsWithDecoys_eq_ok_iff.mp hsupplied
    exact (mem_or_drawn_of_padIndividualSecrets hpad decoy
      (List.mem_append_right _ hdecoy)).resolve_left (hnew decoy hdecoy).2

omit [Target] in
/-- The table of the sample backup, for which the decoys were supplied. -/
theorem storesSecrets_of_encryptItems_sample :
    ∃ count entries, HasTable samplePaths true count entries sampleBackup.1 ∧
      StoresSecrets sampleCrypto [sampleKey] sampleDecoys count entries := by
  have hkey : ∀ key ∈ recipients [sampleKey], key = sampleKey := by decide +kernel
  have hmasks : Set.InjOn (individualHash sampleCrypto) (recipients [sampleKey]) := by
    intro key hin other hother _
    rw [hkey key hin, hkey other hother]
  exact (@storesSecrets_of_encryptItems target64 Unit sampleCrypto samplePaths true sampleItems
    [sampleKey] .none hmasks).1 sampleNonce sampleDecoys _ sampleOutcome_eq

end Encryption

end Bip138.Ll
