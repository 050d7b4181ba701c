/-
# Who can read a backup

The two halves of the encryption contract of the core, for the encoder with
caller-supplied decoys. Every recipient reads the items back, in their order and
normal form; and nobody else does: any key whatsoever opens a backup if its share
happens to be stored, and is refused as the wrong key otherwise.

A small cipher that is ideal on what it seals shows that the assumptions of these
theorems can be met.
-/

import Bip138.Ll.Decrypt

namespace Bip138.Ll

open Bip138.Rust Bip138.Wire

/-- A block that holds one byte. -/
def byteBlock (byte : UInt8) : Block 32 := ⟨byte :: List.replicate 31 0, by simp⟩

/-- A toy provider. Its hash is the sum of the bytes; its cyphertext is the
plaintext and half of the key, and opens under the key that consists of this half
and zeros. -/
def sampleCrypto : Crypto where
  sha256 bytes := byteBlock (bytes.foldl (· + ·) 0)
  aeadEncrypt key _ plaintext := some (plaintext ++ key.1.take 16)
  aeadDecrypt key _ cyphertext :=
    if key.1 = cyphertext.drop (cyphertext.length - 16) ++ List.replicate 16 0 then
      some (cyphertext.take (cyphertext.length - 16))
    else none

/-- The toy cipher is ideal on everything it seals under one of its hashes. -/
theorem sampleCrypto_idealSealing (byte : UInt8) (nonce : Block 12) (plaintext : Bytes) :
    IdealSealing sampleCrypto (byteBlock byte) nonce plaintext := by
  have htag : ((byteBlock byte).1.take 16).length = 16 := rfl
  have hkey : (byteBlock byte).1 = (byteBlock byte).1.take 16 ++ List.replicate 16 0 := rfl
  have hlength : (plaintext ++ (byteBlock byte).1.take 16).length - 16 = plaintext.length := by
    rw [List.length_append, htag, Nat.add_sub_cancel]
  refine ⟨?_, ?_, ?_⟩
  · rintro _ ⟨⟩
    rw [List.length_append, htag]
  · rintro _ ⟨⟩
    simp only [sampleCrypto]
    rw [hlength, List.drop_left, List.take_left, if_pos hkey]
  · rintro _ ⟨⟩ other hother
    simp only [sampleCrypto]
    rw [hlength, List.drop_left, if_neg]
    intro hequal
    exact hother (Subtype.ext (hequal.trans hkey.symm))

theorem sampleCrypto_idealSealing_backupSecret (keys : List (Block 32)) (nonce : Block 12)
    (plaintext : Bytes) :
    IdealSealing sampleCrypto (backupSecret sampleCrypto keys) nonce plaintext :=
  sampleCrypto_idealSealing _ nonce plaintext

/-- The toy cipher seals everything, into something. -/
theorem sampleCrypto_seals (secret : Block 32) (nonce : Block 12) (plaintext : Bytes) :
    ∃ cyphertext, sampleCrypto.aeadEncrypt secret nonce plaintext = some cyphertext ∧
      cyphertext ≠ [] := by
  refine ⟨_, rfl, fun hempty => ?_⟩
  obtain ⟨-, htag⟩ := List.append_eq_nil_iff.mp hempty
  have hlength : (secret.1.take 16).length = 16 := by
    rw [List.length_take, secret.2]
    rfl
  rw [htag] at hlength
  cases hlength

def sampleKey : Block 32 := byteBlock 7

def sampleNonce : Block 12 := ⟨1 :: List.replicate 11 0, by simp⟩

def sampleDecoys : List (Block 32) := [byteBlock 101, byteBlock 102, byteBlock 103, byteBlock 104]

def sampleItems : List (Content × Bytes) := [(.string, [0x68, 0x69])]

theorem itemValid_of_mem_sampleItems : ∀ item ∈ sampleItems, ItemValid item := by
  intro item hitem
  obtain rfl := List.mem_singleton.mp hitem
  exact ⟨by decide, by decide, by decide⟩

def samplePaths : List DerivationPath := [[hardened 84, hardened 0, hardened 0]]

/-- The outcome of one run on the samples. -/
def sampleOutcome : Exec Error Bytes :=
  @encryptChacha20Poly1305V1ItemsWithDecoys target64 sampleCrypto samplePaths true sampleItems
    [sampleKey] .none sampleNonce sampleDecoys

def sampleBackup : @Slice target64 := ⟨sampleOutcome.toOption.getD [], by decide +kernel⟩

theorem sampleOutcome_eq : sampleOutcome = .ok sampleBackup.1 := by
  decide +kernel

section Contract

variable [Target] {crypto : Crypto} {paths : List DerivationPath} {storeCommonPaths : Bool}
  {items : List (Content × Bytes)} {keys decoys : List (Block 32)} {padding : Padding}
  {nonce : Block 12}

/-- What the two theorems below share: the stored secrets are the set of the
recipients' shares and the decoys, and a key opens the backup exactly when its
share is one of them. -/
theorem decrypt_encryptItemsWithDecoys {bytes : Bytes} (hfits : bytes.length ≤ isizeMax)
    (hideal : ∀ payload, buildV1Payload items padding = .ok payload →
      IdealSealing crypto (backupSecret crypto keys) nonce payload)
    (hencrypt : encryptChacha20Poly1305V1ItemsWithDecoys crypto paths storeCommonPaths items keys
      padding nonce decoys = .ok bytes) :
    ∃ (secrets : BTreeSet (Block 32)) (cyphertext : Bytes),
      decodeV1 bytes = .ok ((storedDerivationPaths paths storeCommonPaths).toList, secrets.toList,
        0x01, nonce, cyphertext) ∧
      (∀ secret, secret ∈ secrets ↔
        (∃ key ∈ rawKeys keys, secret = share crypto (backupSecret crypto keys) key) ∨
          secret ∈ decoys) ∧
      ∀ key, decryptChacha20Poly1305V1 crypto key secrets.toList cyphertext nonce =
        if share crypto (backupSecret crypto keys) key ∈ secrets then .ok (normalizeItems items)
        else .fail .wrongKey := by
  obtain ⟨payload, hbuild, hbackup⟩ := Exec.bind_eq_ok_iff.mp hencrypt
  obtain ⟨padded, cyphertext, hpad, hdecode, hdecrypt⟩ :=
    decrypt_encodeV1Backup hbuild hbackup hfits (hideal payload hbuild)
  obtain ⟨-, -, -, -, rfl⟩ := padIndividualSecretsWithDecoys_eq_ok_iff.mp hpad
  refine ⟨.collect _, cyphertext, hdecode, fun secret => ?_, fun key => ?_⟩
  · simp only [BTreeSet.mem_collect, List.mem_append, List.mem_map, BTreeSet.mem_toList, eq_comm]
  · rw [hdecrypt key]
    simp only [BTreeSet.mem_collect]

/-- The round trip. A backup decodes to its stored paths, the sorted set of the
supplied ones less the common ones that were dropped, and every supplied key but
the NUMS one decrypts it to the items in their order and normal form. -/
theorem decrypt_encryptItemsWithDecoys_of_mem (bytes : Slice)
    (hideal : ∀ payload, buildV1Payload items padding = .ok payload →
      IdealSealing crypto (backupSecret crypto keys) nonce payload)
    (hencrypt : encryptChacha20Poly1305V1ItemsWithDecoys crypto paths storeCommonPaths items keys
      padding nonce decoys = .ok bytes.1) :
    ∃ stored secrets cyphertext,
      decodeV1 bytes.1 = .ok (stored, secrets, 0x01, nonce, cyphertext) ∧
      stored.Pairwise (· < ·) ∧
      (∀ path, path ∈ stored ↔ path ∈ paths ∧
        (storeCommonPaths = true ∨
          path ∉ commonDerivationPaths 0 ∧ path ∉ commonDerivationPaths 1)) ∧
      ∀ key ∈ keys, key ≠ numsXonly →
        decryptChacha20Poly1305V1 crypto key secrets cyphertext nonce =
          .ok (normalizeItems items) := by
  obtain ⟨secrets, cyphertext, hdecode, hsecrets, hdecrypt⟩ :=
    decrypt_encryptItemsWithDecoys bytes.2 hideal hencrypt
  refine ⟨_, _, cyphertext, hdecode, BTreeSet.sorted _, fun path => ?_, fun key hkey hnums => ?_⟩
  · rw [BTreeSet.mem_toList, mem_storedDerivationPaths, fallbackDerivationPathSet,
      BTreeSet.mem_extend, BTreeSet.mem_extend]
    simp
  · rw [hdecrypt key, if_pos]
    exact (hsecrets _).mpr (.inl ⟨key, mem_rawKeys.mpr ⟨hkey, hnums⟩, rfl⟩)

omit [Target] in
/-- The round trip of the sample run. -/
theorem decrypt_encryptItemsWithDecoys_of_mem_sample :
    ∃ stored secrets cyphertext,
      @decodeV1 target64 sampleBackup.1 = .ok (stored, secrets, 0x01, sampleNonce, cyphertext) ∧
      stored.Pairwise (· < ·) ∧
      (∀ path, path ∈ stored ↔ path ∈ samplePaths ∧
        (true = true ∨ path ∉ commonDerivationPaths 0 ∧ path ∉ commonDerivationPaths 1)) ∧
      ∀ key ∈ [sampleKey], key ≠ numsXonly →
        @decryptChacha20Poly1305V1 target64 sampleCrypto key secrets cyphertext sampleNonce =
          .ok (normalizeItems sampleItems) :=
  @decrypt_encryptItemsWithDecoys_of_mem target64 sampleCrypto samplePaths true sampleItems
    [sampleKey] sampleDecoys .none sampleNonce sampleBackup
    (fun payload _ => sampleCrypto_idealSealing_backupSecret _ sampleNonce payload)
    sampleOutcome_eq

/-- Exactly the recipients decrypt. A backup is opened by a key, recipient or not,
if the secret xored with the key's mask is stored, and refused as the wrong key
otherwise. So when masks do not collide on the keys at hand and no decoy is the
key's share, a key that was not supplied is refused, and so is the NUMS key. -/
theorem decrypt_encryptItemsWithDecoys_eq (bytes : Slice)
    (hideal : ∀ payload, buildV1Payload items padding = .ok payload →
      IdealSealing crypto (backupSecret crypto keys) nonce payload)
    (hencrypt : encryptChacha20Poly1305V1ItemsWithDecoys crypto paths storeCommonPaths items keys
      padding nonce decoys = .ok bytes.1) :
    ∃ stored secrets cyphertext,
      decodeV1 bytes.1 = .ok (stored, secrets, 0x01, nonce, cyphertext) ∧
      (∀ key, decryptChacha20Poly1305V1 crypto key secrets cyphertext nonce =
        if Block.xor (backupSecret crypto keys) (individualHash crypto key) ∈ secrets then
          .ok (normalizeItems items)
        else .fail .wrongKey) ∧
      ∀ key, key ∉ keys ∨ key = numsXonly →
        Set.InjOn (individualHash crypto) (insert key {other | other ∈ keys}) →
        Block.xor (backupSecret crypto keys) (individualHash crypto key) ∉ decoys →
          decryptChacha20Poly1305V1 crypto key secrets cyphertext nonce = .fail .wrongKey := by
  obtain ⟨secrets, cyphertext, hdecode, hsecrets, hdecrypt⟩ :=
    decrypt_encryptItemsWithDecoys bytes.2 hideal hencrypt
  refine ⟨_, _, cyphertext, hdecode, fun key => ?_, fun key houtside hinjective hdecoys => ?_⟩
  · rw [hdecrypt key]
    exact if_congr Iff.rfl rfl rfl
  rw [hdecrypt key, if_neg]
  intro hstored
  rcases (hsecrets _).mp hstored with ⟨other, hother, hequal⟩ | hdecoy
  · obtain ⟨hmem, hnums⟩ := mem_rawKeys.mp hother
    -- equal shares are equal masks, so the key would be a recipient
    have hmask : individualHash crypto key = individualHash crypto other :=
      Block.xor_right_injective _ hequal
    obtain rfl := hinjective (Set.mem_insert key _) (Set.mem_insert_of_mem _ hmem) hmask
    rcases houtside with hnot | hnot
    · exact hnot hmem
    · exact hnums hnot
  · exact hdecoys hdecoy

omit [Target] in
/-- Who opens the backup of the sample run. -/
theorem decrypt_encryptItemsWithDecoys_eq_sample :
    ∃ stored secrets cyphertext,
      @decodeV1 target64 sampleBackup.1 = .ok (stored, secrets, 0x01, sampleNonce, cyphertext) ∧
      (∀ key, @decryptChacha20Poly1305V1 target64 sampleCrypto key secrets cyphertext sampleNonce =
        if Block.xor (backupSecret sampleCrypto [sampleKey])
            (individualHash sampleCrypto key) ∈ secrets then
          .ok (normalizeItems sampleItems)
        else .fail .wrongKey) ∧
      ∀ key, key ∉ [sampleKey] ∨ key = numsXonly →
        Set.InjOn (individualHash sampleCrypto) (insert key {other | other ∈ [sampleKey]}) →
        Block.xor (backupSecret sampleCrypto [sampleKey]) (individualHash sampleCrypto key) ∉
            sampleDecoys →
          @decryptChacha20Poly1305V1 target64 sampleCrypto key secrets cyphertext sampleNonce =
            .fail .wrongKey :=
  @decrypt_encryptItemsWithDecoys_eq target64 sampleCrypto samplePaths true sampleItems
    [sampleKey] sampleDecoys .none sampleNonce sampleBackup
    (fun payload _ => sampleCrypto_idealSealing_backupSecret _ sampleNonce payload)
    sampleOutcome_eq

end Contract

end Bip138.Ll
