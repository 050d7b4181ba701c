/-
# What the encoder refuses

The checks of the encoder are spread over its functions, some before and some after keys
and paths are collected into sets. `Accepted` lists what they come to, over the finite sets
of the recipients and of the stored paths, and with a cipher that seals everything the
encoder returns a backup exactly for what is accepted.

An encoder that draws its decoys also depends on the source, and `Encrypts` adds what it
takes of the source and of the cipher.
-/

import Bip138.Ll.Termination
import Bip138.Ll.Uniform

namespace Bip138.Ll

open Bip138.Rust Bip138.Wire

variable [Target]

/-- What the encoder with supplied decoys asks of its input. The paths are counted and
measured after the common ones are left out, the keys after the NUMS point is. -/
structure Accepted (crypto : Crypto) (paths : List DerivationPath) (storeCommonPaths : Bool)
    (items : List (Content × Bytes)) (keys : List (Block 32)) (padding : Padding)
    (nonce : Block 12) (decoys : List (Block 32)) : Prop where
  itemCount : items ≠ []
  item : ∀ item ∈ items, (1 ≤ item.2.length ∧ item.2.length ≤ u32Max) ∧
    item.1 ≠ .none ∧ item.1 ≠ .unknown
  padded : ∃ size, padding.paddedSize (items.flatMap itemBytes).length = .ok size
  keyCount : 1 ≤ (recipients keys).card ∧ (recipients keys).card ≤ 255
  pathCount : (storedPaths paths storeCommonPaths).card ≤ 255
  path : ∀ path ∈ storedPaths paths storeCommonPaths, 1 ≤ path.length ∧ path.length ≤ 255
  decoyCount : doublingBucket (recipients keys).card =
    .ok ((recipients keys).card + decoys.length)
  decoy : ∀ decoy ∈ decoys, decoy ≠ .zero 32 ∧
    ∀ key ∈ recipients keys, decoy ≠ storedSecret crypto keys key
  distinct : decoys.Nodup
  nonce : nonce ≠ .zero 12

variable {crypto : Crypto} {paths : List DerivationPath} {storeCommonPaths : Bool}
  {items : List (Content × Bytes)} {keys decoys : List (Block 32)} {padding : Padding}
  {nonce : Block 12}

/-- A payload is built of one or more items with one to `u32::MAX` bytes each and a content
that can be written, when its bytes can be padded. -/
theorem exists_buildV1Payload_eq_ok_iff :
    (∃ payload, buildV1Payload items padding = .ok payload) ↔
      items ≠ [] ∧ (∀ item ∈ items, (1 ≤ item.2.length ∧ item.2.length ≤ u32Max) ∧
        item.1 ≠ .none ∧ item.1 ≠ .unknown) ∧
        ∃ size, padding.paddedSize (items.flatMap itemBytes).length = .ok size := by
  have hvalid : ∀ item : Content × Bytes, ItemValid item ↔
      (1 ≤ item.2.length ∧ item.2.length ≤ u32Max) ∧ item.1 ≠ .none ∧ item.1 ≠ .unknown := by
    intro item
    rw [Nat.one_le_iff_ne_zero, ne_eq, List.length_eq_zero_iff]
    exact ⟨fun hvalid => ⟨⟨hvalid.dataNonempty, hvalid.dataLength⟩, hvalid.contentKnown⟩,
      fun ⟨⟨hdata, hlength⟩, hcontent⟩ => ⟨hdata, hlength, hcontent⟩⟩
  simp only [buildV1Payload_eq_ok_iff, hvalid]
  constructor
  · rintro ⟨payload, hitems, hall, size, hsize, -⟩
    exact ⟨hitems, hall, size, hsize⟩
  · rintro ⟨hitems, hall, size, hsize⟩
    exact ⟨_, hitems, hall, size, hsize, rfl⟩

omit [Target] in
/-- Supplied decoys pad the shares of a call when they fill the bucket with new secrets. -/
theorem exists_pad_shares_eq_ok_iff (hkeys : (recipients keys).card ≤ u8Max) :
    (∃ padded, padIndividualSecretsWithDecoys decoys (shares crypto keys) = .ok padded) ↔
      doublingBucket (recipients keys).card = .ok ((recipients keys).card + decoys.length) ∧
        (∀ decoy ∈ decoys, decoy ≠ .zero 32 ∧
          ∀ key ∈ recipients keys, decoy ≠ storedSecret crypto keys key) ∧
        decoys.Nodup := by
  have hbucket := le_secretBucket hkeys
  have hlength : (shares crypto keys).length = (recipients keys).card := by
    rw [shares, List.length_map, length_rawKeys]
  have hnew : ∀ decoy, decoy ∉ shares crypto keys ↔
      ∀ key ∈ recipients keys, decoy ≠ storedSecret crypto keys key := by
    intro decoy
    simp only [shares, List.mem_map, BTreeSet.mem_toList, mem_rawKeys_iff_mem_recipients,
      share_backupSecret, not_exists, not_and, ne_eq, eq_comm]
  simp only [padIndividualSecretsWithDecoys_eq_ok_iff, hlength, hkeys, true_and, hnew,
    doublingBucket_eq hkeys, Except.ok.injEq]
  constructor
  · rintro ⟨padded, hcount, hdecoys, hnodup, -⟩
    exact ⟨by omega, hdecoys, hnodup⟩
  · rintro ⟨hcount, hdecoys, hnodup⟩
    exact ⟨_, by omega, hdecoys, hnodup, rfl⟩

/-- The encoder with supplied decoys returns a backup for what is accepted, and for nothing
else, when the cipher seals every plaintext and no stored secret is zero. -/
theorem exists_encryptItemsWithDecoys_eq_ok_iff
    (hcipher : ∀ secret nonce plaintext, ∃ cyphertext,
      crypto.aeadEncrypt secret nonce plaintext = some cyphertext ∧ cyphertext ≠ [])
    (hsecrets : ∀ key ∈ recipients keys, storedSecret crypto keys key ≠ .zero 32) :
    (∃ bytes, encryptChacha20Poly1305V1ItemsWithDecoys crypto paths storeCommonPaths items keys
        padding nonce decoys = .ok bytes) ↔
      Accepted crypto paths storeCommonPaths items keys padding nonce decoys := by
  have hnonempty : (rawKeys keys).toList ≠ [] ↔ 1 ≤ (recipients keys).card := by
    rw [Nat.one_le_iff_ne_zero, ne_eq, ne_eq, ← length_rawKeys, List.length_eq_zero_iff]
  constructor
  · rintro ⟨bytes, hencrypt⟩
    obtain ⟨payload, hbuild, hbackup⟩ := Exec.bind_eq_ok_iff.mp hencrypt
    obtain ⟨⟨hkeys, hshort⟩, -, -, padded, secretWord, pathWord, cyphertext, hpad, -, hpaths,
      hnonce, -⟩ := encodeV1Backup_eq_ok_iff.mp hbackup
    rw [length_rawKeys] at hshort
    obtain ⟨hitems, hitem, hsize⟩ := exists_buildV1Payload_eq_ok_iff.mp ⟨payload, hbuild⟩
    obtain ⟨hpathCount, hpath⟩ := exists_encodeDerivationPaths_eq_ok_iff.mp ⟨pathWord, hpaths⟩
    obtain ⟨hcount, hdecoys, hnodup⟩ := (exists_pad_shares_eq_ok_iff hshort).mp ⟨padded, hpad⟩
    exact ⟨hitems, hitem, hsize, ⟨hnonempty.mp hkeys, hshort⟩, hpathCount, hpath, hcount,
      hdecoys, hnodup, hnonce⟩
  · intro haccepted
    obtain ⟨payload, hbuild⟩ := exists_buildV1Payload_eq_ok_iff.mpr
      ⟨haccepted.itemCount, haccepted.item, haccepted.padded⟩
    obtain ⟨pathWord, hpaths⟩ := exists_encodeDerivationPaths_eq_ok_iff.mpr
      ⟨haccepted.pathCount, haccepted.path⟩
    obtain ⟨padded, hpad⟩ := (exists_pad_shares_eq_ok_iff haccepted.keyCount.2).mpr
      ⟨haccepted.decoyCount, haccepted.decoy, haccepted.distinct⟩
    obtain ⟨cyphertext, haead, hcyphertext⟩ := hcipher (backupSecret crypto keys) nonce payload
    have hkeys : (rawKeys keys).toList ≠ [] ∧ (rawKeys keys).toList.length ≤ u8Max := by
      rw [hnonempty, length_rawKeys]
      exact haccepted.keyCount
    have hshares : ∀ key ∈ rawKeys keys,
        share crypto (backupSecret crypto keys) key ≠ .zero 32 := by
      intro key hkey
      rw [share_backupSecret]
      exact hsecrets key (mem_rawKeys_iff_mem_recipients.mp hkey)
    obtain ⟨hlength, hcount, -, -, hpadded⟩ := padIndividualSecretsWithDecoys_eq_ok_iff.mp hpad
    obtain ⟨secretWord, hsecretWord⟩ : ∃ word, encodeIndividualSecrets padded = .ok word := by
      apply exists_encodeIndividualSecrets_eq_ok
      · rw [hpadded]
        exact List.append_ne_nil_of_left_ne_nil (List.map_eq_nil_iff.not.mpr hkeys.1) _
      · rw [hpadded, List.length_append, hcount, Nat.add_sub_of_le (le_secretBucket hlength)]
        exact secretBucket_le _
    have hpathCount : (storedDerivationPaths paths storeCommonPaths).toList.length ≤ u8Max := by
      rw [length_storedDerivationPaths]
      exact haccepted.pathCount
    refine ⟨_, Exec.bind_eq_ok_iff.mpr ⟨payload, hbuild, encodeV1Backup_eq_ok_iff.mpr ⟨hkeys,
      hpathCount, hshares, padded, secretWord, pathWord, cyphertext, hpad, hsecretWord,
      hpaths, haccepted.nonce, ne_nil_of_buildV1Payload hbuild, haead, hcyphertext, rfl⟩⟩⟩

omit [Target] in
/-- The sample run returns a backup, and one decoy less makes the encoder refuse. -/
theorem exists_encryptItemsWithDecoys_eq_ok_iff_sample :
    (∃ bytes, @encryptChacha20Poly1305V1ItemsWithDecoys target64 sampleCrypto samplePaths true
        sampleItems [sampleKey] .none sampleNonce sampleDecoys = .ok bytes) ∧
      ¬ ∃ bytes, @encryptChacha20Poly1305V1ItemsWithDecoys target64 sampleCrypto samplePaths true
        sampleItems [sampleKey] .none sampleNonce sampleDecoys.tail = .ok bytes := by
  have hkeys : recipients [sampleKey] = {sampleKey} := by
    decide +kernel
  have hsecret : storedSecret sampleCrypto [sampleKey] sampleKey ≠ .zero 32 ∧
      storedSecret sampleCrypto [sampleKey] sampleKey ∉ sampleDecoys := by
    rw [← share_backupSecret]
    decide +kernel
  have hsecrets : ∀ key ∈ recipients [sampleKey],
      storedSecret sampleCrypto [sampleKey] key ≠ .zero 32 := by
    intro key hkey
    rw [hkeys, Finset.mem_singleton] at hkey
    rw [hkey]
    exact hsecret.1
  constructor
  · apply (@exists_encryptItemsWithDecoys_eq_ok_iff target64 sampleCrypto samplePaths true
      sampleItems [sampleKey] sampleDecoys .none sampleNonce sampleCrypto_seals hsecrets).mpr
    let _ := target64
    refine ⟨by decide, by decide +kernel, ⟨_, rfl⟩, by decide +kernel, by decide +kernel,
      by decide +kernel, by decide +kernel, fun decoy hdecoy => ⟨?_, fun key hkey hequal => ?_⟩,
      by decide +kernel, by decide +kernel⟩
    · revert decoy
      decide +kernel
    · rw [hkeys, Finset.mem_singleton] at hkey
      rw [hequal, hkey] at hdecoy
      exact hsecret.2 hdecoy
  · intro hbackup
    have haccepted := (@exists_encryptItemsWithDecoys_eq_ok_iff target64 sampleCrypto samplePaths
      true sampleItems [sampleKey] sampleDecoys.tail .none sampleNonce sampleCrypto_seals
      hsecrets).mp hbackup
    let _ := target64
    have hcount := haccepted.decoyCount
    revert hcount
    decide +kernel

section Drawn

variable {ρ : Type}

/-- What the encoder asks of its input and of its parts when it draws the decoys itself: no
stored secret is zero, the source yields a nonce and enough decoys, and the cipher seals the
padded payload. -/
structure Encrypts (crypto : Crypto) (rng : Rng ρ) (source : ρ) (paths : List DerivationPath)
    (storeCommonPaths : Bool) (items : List (Content × Bytes)) (keys : List (Block 32))
    (padding : Padding) : Prop where
  itemCount : items ≠ []
  item : ∀ item ∈ items, ItemValid item
  keyCount : 1 ≤ (recipients keys).card ∧ (recipients keys).card ≤ 255
  pathCount : (storedPaths paths storeCommonPaths).card ≤ 255
  path : ∀ path ∈ storedPaths paths storeCommonPaths, 1 ≤ path.length ∧ path.length ≤ 255
  secret : ∀ key ∈ recipients keys, storedSecret crypto keys key ≠ .zero 32
  nonce : (drawNonce rng source).1 ≠ .zero 12
  blocks : ∃ fresh : Finset (Block 32),
    secretBucket (recipients keys).card - (recipients keys).card ≤ fresh.card ∧
    ∀ block ∈ fresh, block ≠ .zero 32 ∧
      (∀ key ∈ recipients keys, block ≠ storedSecret crypto keys key) ∧
      ∃ i, drawn (rng.fillBytes 32) (drawNonce rng source).2 i = block
  sealed : ∃ size, padding.paddedSize (items.flatMap itemBytes).length = .ok size ∧
    ∃ cyphertext, cyphertext ≠ [] ∧
      crypto.aeadEncrypt (recipientsSecret crypto keys) (drawNonce rng source).1
        (items.flatMap itemBytes ++ List.replicate (size - (items.flatMap itemBytes).length) 0) =
          some cyphertext

variable {rng : Rng ρ} {source : ρ}

/-- What the encoder accepts depends on the sets of keys and paths alone. -/
theorem Encrypts.congr {paths' : List DerivationPath} {keys' : List (Block 32)}
    {storeCommonPaths : Bool} {padding : Padding}
    (hencrypts : Encrypts crypto rng source paths storeCommonPaths items keys padding)
    (hpaths : ∀ path, path ∈ paths ↔ path ∈ paths') (hkeys : ∀ key, key ∈ keys ↔ key ∈ keys') :
    Encrypts crypto rng source paths' storeCommonPaths items keys' padding := by
  have hrecipients : recipients keys = recipients keys' := by
    ext key
    rw [mem_recipients, mem_recipients, hkeys]
  have hstored : storedPaths paths storeCommonPaths = storedPaths paths' storeCommonPaths := by
    ext path
    rw [mem_storedPaths, mem_storedPaths, hpaths]
  have hsecret : recipientsSecret crypto keys = recipientsSecret crypto keys' := by
    rw [recipientsSecret, recipientsSecret, sortedRecipients, sortedRecipients, hrecipients]
  have hsecrets : storedSecret crypto keys = storedSecret crypto keys' := by
    funext key
    rw [storedSecret, storedSecret, hsecret]
  obtain ⟨hitems, hitem, hcount, hpathCount, hpath, hshare, hnonce, hblocks, hsealed⟩ := hencrypts
  rw [hrecipients] at hcount hshare hblocks
  rw [hstored] at hpathCount hpath
  rw [hsecrets] at hshare hblocks
  rw [hsecret] at hsealed
  exact ⟨hitems, hitem, hcount, hpathCount, hpath, hshare, hnonce, hblocks, hsealed⟩

omit [Target] in
/-- The source pads the stored secrets of a call when it yields enough new blocks. -/
theorem exists_padIndividualSecrets_shares_iff (hkeys : (recipients keys).card ≤ u8Max) :
    (∃ fuel padded, padIndividualSecrets rng fuel source
        ((rawKeys keys).toList.map (share crypto (backupSecret crypto keys))) = .ok padded) ↔
      ∃ fresh : Finset (Block 32),
        secretBucket (recipients keys).card - (recipients keys).card ≤ fresh.card ∧
        ∀ block ∈ fresh, block ≠ .zero 32 ∧
          (∀ key ∈ recipients keys, block ≠ storedSecret crypto keys key) ∧
          ∃ i, drawn (rng.fillBytes 32) source i = block := by
  have hlength : ((rawKeys keys).toList.map (share crypto (backupSecret crypto keys))).length ≤
      u8Max := by
    rwa [List.length_map, length_rawKeys]
  have hreturns : (∃ fuel padded, padIndividualSecrets rng fuel source
      ((rawKeys keys).toList.map (share crypto (backupSecret crypto keys))) = .ok padded) ↔
        ∃ fuel, (padIndividualSecrets rng fuel source
          ((rawKeys keys).toList.map (share crypto (backupSecret crypto keys)))).Returns :=
    exists_congr fun fuel => ⟨fun ⟨padded, hpad⟩ => .inl ⟨padded, hpad⟩,
      exists_padIndividualSecrets_eq_ok_of_returns hlength⟩
  rw [hreturns, exists_returns_padIndividualSecrets_iff hlength]
  simp only [List.length_map, length_rawKeys, List.mem_map, BTreeSet.mem_toList,
    mem_rawKeys_iff_mem_recipients, share_backupSecret, not_exists, not_and, ne_eq, eq_comm]

/-- The encoder that draws its decoys returns a backup, for some number of draws, exactly for
what it encrypts. -/
theorem exists_encryptItems_eq_ok_iff_encrypts :
    (∃ fuel bytes, encryptChacha20Poly1305V1Items fuel crypto rng source paths storeCommonPaths
        items keys padding = .ok bytes) ↔
      Encrypts crypto rng source paths storeCommonPaths items keys padding := by
  constructor
  · rintro ⟨fuel, bytes, hencrypt⟩
    obtain ⟨payload, hbuild, hbackup⟩ := Exec.bind_eq_ok_iff.mp hencrypt
    obtain ⟨hkeys, -, hshares, padded, secretWord, pathWord, cyphertext, hpad, -, hpaths,
      hnonce, -, haead, hcyphertext, -⟩ := encodeV1Backup_eq_ok_iff.mp hbackup
    obtain ⟨hitems, hvalid, size, hsize, rfl⟩ := buildV1Payload_eq_ok_iff.mp hbuild
    obtain ⟨hpathCount, hpath⟩ := exists_encodeDerivationPaths_eq_ok_iff.mp ⟨pathWord, hpaths⟩
    rw [← List.length_pos_iff, length_rawKeys] at hkeys
    simp only [mem_rawKeys_iff_mem_recipients, share_backupSecret] at hshares
    rw [backupSecret_eq] at haead
    exact ⟨hitems, hvalid, hkeys, hpathCount, hpath, hshares, hnonce,
      (exists_padIndividualSecrets_shares_iff hkeys.2).mp ⟨fuel, padded, hpad⟩,
      size, hsize, cyphertext, hcyphertext, haead⟩
  · intro hencrypts
    obtain ⟨size, hsize, cyphertext, hcyphertext, haead⟩ := hencrypts.sealed
    have hbuild := buildV1Payload_eq_ok_iff.mpr
      ⟨hencrypts.itemCount, hencrypts.item, size, hsize, rfl⟩
    have hkeys := keyCount_of_card hencrypts.keyCount
    obtain ⟨pathWord, hpaths⟩ := exists_encodeDerivationPaths_eq_ok_iff.mpr
      ⟨hencrypts.pathCount, hencrypts.path⟩
    obtain ⟨fuel, padded, hpad⟩ :=
      (exists_padIndividualSecrets_shares_iff hencrypts.keyCount.2).mpr hencrypts.blocks
    obtain ⟨secretWord, hsecretWord⟩ := exists_encodeIndividualSecrets_of_pad hkeys hpad
    have hpathCount : (storedDerivationPaths paths storeCommonPaths).toList.length ≤ u8Max := by
      rw [length_storedDerivationPaths]
      exact hencrypts.pathCount
    have hshares : ∀ key ∈ rawKeys keys,
        share crypto (backupSecret crypto keys) key ≠ .zero 32 := by
      intro key hkey
      rw [share_backupSecret]
      exact hencrypts.secret key (mem_rawKeys_iff_mem_recipients.mp hkey)
    rw [← backupSecret_eq] at haead
    exact ⟨fuel, _, Exec.bind_eq_ok_iff.mpr ⟨_, hbuild, encodeV1Backup_eq_ok_iff.mpr ⟨hkeys,
      hpathCount, hshares, padded, secretWord, pathWord, cyphertext, hpad, hsecretWord, hpaths,
      hencrypts.nonce, ne_nil_of_buildV1Payload hbuild, haead, hcyphertext, rfl⟩⟩⟩

/-- With working parts, valid items and one to `255` keys, and paths that are not too
many or too long, a backup is made exactly when the payload can be padded and no path
is empty. -/
theorem exists_encryptItems_eq_ok_iff
    (hitems : items ≠ [] ∧ ∀ item ∈ items, ItemValid item)
    (hkeys : 1 ≤ (rawKeys keys).toList.length ∧ (rawKeys keys).toList.length ≤ 255)
    (hcount : (BTreeSet.collect paths).toList.length ≤ 255)
    (hsteps : ∀ path ∈ paths, path.length ≤ 255)
    (hshares : ∀ key ∈ rawKeys keys, share crypto (backupSecret crypto keys) key ≠ .zero 32)
    (hcipher : ∀ secret nonce plaintext, ∃ cyphertext,
      crypto.aeadEncrypt secret nonce plaintext = some cyphertext ∧ cyphertext ≠ [])
    (hserves : Serves crypto rng source keys) :
    (∃ fuel bytes, encryptChacha20Poly1305V1Items fuel crypto rng source paths storeCommonPaths
        items keys padding = .ok bytes) ↔
      (∃ size, padding.paddedSize (items.flatMap itemBytes).length = .ok size) ∧ [] ∉ paths := by
  constructor
  · rintro ⟨fuel, bytes, hbytes⟩
    obtain ⟨payload, hbuild, hbackup⟩ := Exec.bind_eq_ok_iff.mp hbytes
    obtain ⟨-, -, size, hsize, -⟩ := buildV1Payload_eq_ok_iff.mp hbuild
    exact ⟨⟨size, hsize⟩, fun hempty => encodeV1Backup_ne_ok_of_nil_mem hempty hbackup⟩
  · rintro ⟨⟨size, hsize⟩, hnonempty⟩
    rw [length_rawKeys] at hkeys
    simp only [mem_rawKeys_iff_mem_recipients, share_backupSecret] at hshares
    obtain ⟨hnonce, hblocks⟩ := hserves
    simp only [length_rawKeys, mem_rawKeys_iff_mem_recipients, share_backupSecret] at hblocks
    have hgiven : ∀ path ∈ storedPaths paths storeCommonPaths, path ∈ paths :=
      fun path hpath => (mem_storedPaths.mp hpath).1
    have hpathCount : (storedPaths paths storeCommonPaths).card ≤ 255 := by
      rw [← length_storedDerivationPaths]
      refine le_trans (BTreeSet.length_toList_le fun path hpath => ?_) hcount
      rw [BTreeSet.mem_toList, mem_storedDerivationPaths] at hpath
      simpa using hpath.1
    obtain ⟨cyphertext, haead, hcyphertext⟩ := hcipher (recipientsSecret crypto keys)
      (drawNonce rng source).1
      (items.flatMap itemBytes ++ List.replicate (size - (items.flatMap itemBytes).length) 0)
    refine exists_encryptItems_eq_ok_iff_encrypts.mpr ⟨hitems.1, hitems.2, hkeys, hpathCount,
      fun path hpath => ⟨?_, hsteps path (hgiven path hpath)⟩, hshares, hnonce, hblocks, size,
      hsize, cyphertext, hcyphertext, haead⟩
    exact List.length_pos_iff.mpr fun hempty => hnonempty (hempty ▸ hgiven path hpath)

end Drawn

end Bip138.Ll
