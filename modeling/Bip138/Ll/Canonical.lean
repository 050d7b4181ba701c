/-
# The canonical container

The parsers take paths and secrets in any order and with repetitions, and ignore what
follows the cyphertext; the encoders write each set once, sorted. Writing what was read is
therefore a normal form of a container: it decodes to the same parts, it is no longer than
what was read, and it is the backup itself when an encryption made it.
-/

import Mathlib.Data.List.Flatten
import Bip138.Ll.RoundTrip

namespace Bip138.Ll

open Bip138.Rust Bip138.Wire

/-- The spelling of the items of a set is at most as long as that of a list that holds
them all. -/
theorem length_flatMap_collect_le {α : Type} [LinearOrder α] (spell : α → Bytes) (items : List α) :
    ((BTreeSet.collect items).toList.flatMap spell).length ≤ (items.flatMap spell).length := by
  have hsubset : (BTreeSet.collect items).toList ⊆ items := by
    intro item hitem
    simpa using hitem
  obtain ⟨kept, hperm, hsublist⟩ := List.subperm_of_subset (BTreeSet.nodup_toList _) hsubset
  calc ((BTreeSet.collect items).toList.flatMap spell).length
      = (kept.flatMap spell).length := (hperm.symm.flatMap_right spell).length_eq
    _ ≤ (items.flatMap spell).length := (hsublist.flatMap spell).length_le

section Tables

variable {bytes word : Bytes}

/-- The path table of the set of some records is the shortest one with these records. -/
theorem pathTable_collect {records : List DerivationPath} (hword : PathTable records word) :
    ∃ canonical, PathTable (BTreeSet.collect records).toList canonical ∧
      canonical.length ≤ word.length := by
  obtain ⟨hlength, hvalid, rfl⟩ := pathTable_iff.mp hword
  have hcount : (BTreeSet.collect records).toList.length ≤ records.length :=
    BTreeSet.length_toList_le fun path hpath => by simpa using hpath
  refine ⟨_, pathTable_iff.mpr ⟨hcount.trans hlength, fun path hpath => hvalid path ?_, rfl⟩, ?_⟩
  · simpa using hpath
  · rw [List.length_cons, List.length_cons]
    exact Nat.succ_le_succ (length_flatMap_collect_le pathRecordBytes records)

/-- The secret table of the set of some blocks is the shortest one with these blocks. -/
theorem secretTable_collect {blocks : List (Block 32)} (hword : SecretTable blocks word) :
    ∃ canonical, SecretTable (BTreeSet.collect blocks).toList canonical ∧
      canonical.length ≤ word.length := by
  obtain ⟨hnonempty, hlength, rfl⟩ := secretTable_iff.mp hword
  have hcount : (BTreeSet.collect blocks).toList.length ≤ blocks.length :=
    BTreeSet.length_toList_le fun block hblock => by simpa using hblock
  refine ⟨_, secretTable_iff.mpr ⟨?_, hcount.trans hlength, rfl⟩, ?_⟩
  · rwa [ne_eq, BTreeSet.toList_collect_eq_nil_iff]
  · rw [List.length_cons, List.length_cons]
    exact Nat.succ_le_succ (length_flatMap_collect_le Subtype.val blocks)

end Tables

section Container

/-- The container of version one that the parts of a decoded one are written to. -/
def reencode : List DerivationPath × List (Block 32) × UInt8 × Block 12 × Bytes → Exec Error Bytes
  | (derivationPaths, individualSecrets, encryption, nonce, cyphertext) => do
    let derivationPaths ← encodeDerivationPaths derivationPaths
    let individualSecrets ← encodeIndividualSecrets individualSecrets
    let encryptedPayload ← encodeEncryptedPayload nonce cyphertext
    .ok (encodeV1 Version.v1.toU8 derivationPaths individualSecrets encryption encryptedPayload)

variable [Target] {paths : List DerivationPath} {secrets : List (Block 32)} {encryption : UInt8}
  {nonce : Block 12} {cyphertext : Bytes}

/-- A successful encryption is what its own parts are written to. -/
theorem encodeV1_eq_of_encryptItemsWithDecoys {bytes pathWord secretWord payloadWord : Bytes}
    (hfits : bytes.length ≤ isizeMax)
    (hdecode : decodeV1 bytes = .ok (paths, secrets, encryption, nonce, cyphertext))
    (hpaths : encodeDerivationPaths paths = .ok pathWord)
    (hsecrets : encodeIndividualSecrets secrets = .ok secretWord)
    (hpayload : encodeEncryptedPayload nonce cyphertext = .ok payloadWord)
    {crypto : Crypto} {givenPaths : List DerivationPath} {storeCommonPaths : Bool}
    {items : List (Content × Bytes)} {keys decoys : List (Block 32)} {padding : Padding}
    {givenNonce : Block 12}
    (hencrypt : encryptChacha20Poly1305V1ItemsWithDecoys crypto givenPaths storeCommonPaths items
      keys padding givenNonce decoys = .ok bytes) :
    encodeV1 Version.v1.toU8 pathWord secretWord encryption payloadWord = bytes := by
  obtain ⟨payload, -, hbackup⟩ := Exec.bind_eq_ok_iff.mp hencrypt
  obtain ⟨padded, sealed, hpad, haead, -, hparts⟩ := decodeV1_encodeV1Backup hbackup hfits
  obtain ⟨-, -, -, padded', secretWord', pathWord', sealed', hpad', hsecrets', hpaths', -, -,
    haead', hsealed', hbytes⟩ := encodeV1Backup_eq_ok_iff.mp hbackup
  rw [hpad] at hpad'
  cases hpad'
  rw [haead] at haead'
  cases haead'
  rw [hdecode] at hparts
  cases hparts
  rw [hpaths] at hpaths'
  cases hpaths'
  rw [encodeIndividualSecrets_eq_ok_iff, BTreeSet.collect_toList] at hsecrets
  rw [encodeIndividualSecrets_eq_ok_iff] at hsecrets'
  obtain ⟨-, -, rfl⟩ := secretTable_iff.mp hsecrets
  obtain ⟨-, -, rfl⟩ := secretTable_iff.mp hsecrets'
  obtain ⟨-, rfl⟩ := encodeEncryptedPayload_eq_ok_iff.mp hpayload
  exact hbytes.symm

/-- Writing the parts a container decodes to: every field can be written, the result
decodes alike and is no longer, every other container of the same parts is written to it,
and it is the container that was read when that is what an encryption returned. -/
theorem encodeV1_decodeV1 (bytes : Slice)
    (hdecode : decodeV1 bytes.1 = .ok (paths, secrets, encryption, nonce, cyphertext))
    (hnonempty : cyphertext ≠ []) :
    ∃ pathWord secretWord payloadWord word, encodeDerivationPaths paths = .ok pathWord ∧
      encodeIndividualSecrets secrets = .ok secretWord ∧
      encodeEncryptedPayload nonce cyphertext = .ok payloadWord ∧
      word = encodeV1 Version.v1.toU8 pathWord secretWord encryption payloadWord ∧
      decodeV1 word = decodeV1 bytes.1 ∧ word.length ≤ bytes.1.length ∧
      (∀ other : Slice, decodeV1 other.1 = decodeV1 bytes.1 →
        (decodeV1 other.1 >>= reencode) = .ok word) ∧
      ∀ crypto givenPaths storeCommonPaths items keys padding givenNonce decoys,
        encryptChacha20Poly1305V1ItemsWithDecoys crypto givenPaths storeCommonPaths items keys
            padding givenNonce decoys = .ok bytes.1 →
          word = bytes.1 := by
  have husize := two_mul_isizeMax_lt_usizeMax
  have hwidth := usizeMax_lt_two_pow_64
  obtain ⟨bytes, hfits⟩ := bytes
  have hcypher : cyphertext.length ≤ bytes.length := length_le_of_decodeV1 hfits hdecode
  obtain ⟨records, blocks, stop, hreads, rfl, rfl⟩ := (decodeV1_eq_ok_iff hfits).mp hdecode
  obtain ⟨spelled, rest, hspelled, hbytes, -⟩ := reads_zero_iff.mp hreads
  obtain ⟨tableWord, blockWord, size, htable, hblocks, hencryption, hnonce, hsize, rfl⟩ :=
    container_iff.mp hspelled
  obtain ⟨pathWord, hpathWord, hpathLength⟩ := pathTable_collect htable
  obtain ⟨secretWord, hsecretWord, hsecretLength⟩ := secretTable_collect hblocks
  -- a length has one spelling, so the size field of the input is the one that is written
  have hsizeWord := Varint.compactSize_encode (UInt64.ofNat cyphertext.length)
  rw [UInt64.toNat_ofNat', Nat.mod_eq_of_lt (by omega)] at hsizeWord
  obtain rfl := hsize.functional hsizeWord
  have hpaths : encodeDerivationPaths (BTreeSet.collect records).toList = .ok pathWord := by
    rwa [encodeDerivationPaths_eq_ok_iff, BTreeSet.collect_toList]
  have hsecrets : encodeIndividualSecrets (BTreeSet.collect blocks).toList = .ok secretWord := by
    rwa [encodeIndividualSecrets_eq_ok_iff, BTreeSet.collect_toList]
  have hpayload := encodeEncryptedPayload_eq_ok_iff.mpr
    ⟨hnonempty, (rfl : nonce.1 ++ _ ++ cyphertext = _)⟩
  have hlength : (encodeV1 Version.v1.toU8 pathWord secretWord encryption (nonce.1 ++
      Varint.encode (UInt64.ofNat cyphertext.length) ++ cyphertext)).length ≤ bytes.length := by
    simp only [hbytes, encodeV1, List.length_append, List.length_singleton]
    omega
  refine ⟨pathWord, secretWord, _, _, hpaths, hsecrets, hpayload, rfl, ?_, hlength, ?_, ?_⟩
  · rw [hdecode, decodeV1_eq_ok_iff (hlength.trans hfits)]
    refine ⟨_, _, _, reads_zero_iff.mpr ⟨_, [], container_iff.mpr ⟨pathWord, secretWord, _,
      hpathWord, hsecretWord, hencryption, hnonce, hsizeWord, rfl⟩, ?_, rfl⟩, ?_, ?_⟩
    · simp [encodeV1, Version.toU8]
    · rw [BTreeSet.collect_toList]
    · rw [BTreeSet.collect_toList]
  · intro other hother
    rw [hother, hdecode, Exec.ok_bind, reencode, hpaths, Exec.ok_bind, hsecrets, Exec.ok_bind,
      hpayload, Exec.ok_bind]
  · intro crypto givenPaths storeCommonPaths items keys padding givenNonce decoys hencrypt
    exact encodeV1_eq_of_encryptItemsWithDecoys hfits hdecode hpaths hsecrets hpayload hencrypt

end Container

/-- The secrets of the sample run: the share of its key, and the decoys. -/
def sampleSecrets : List (Block 32) := byteBlock 48 :: sampleDecoys

/-- The cyphertext of the sample run. -/
def sampleCyphertext : Bytes := [0x03, 0x00, 0x02, 0x68, 0x69, 0xff] ++ List.replicate 15 0

set_option synthInstance.maxSize 512 in
theorem decodeV1_sampleBackup :
    @decodeV1 target64 sampleBackup.1 =
      .ok (samplePaths, sampleSecrets, 0x01, sampleNonce, sampleCyphertext) := by
  decide +kernel

/-- The backup of the sample run is written from its parts as it is. -/
theorem encodeV1_decodeV1_sample :
    ∃ pathWord secretWord payloadWord word, encodeDerivationPaths samplePaths = .ok pathWord ∧
      encodeIndividualSecrets sampleSecrets = .ok secretWord ∧
      encodeEncryptedPayload sampleNonce sampleCyphertext = .ok payloadWord ∧
      word = encodeV1 Version.v1.toU8 pathWord secretWord 0x01 payloadWord ∧
      @decodeV1 target64 word = @decodeV1 target64 sampleBackup.1 ∧
      word.length ≤ sampleBackup.1.length ∧
      (∀ other : @Slice target64,
        @decodeV1 target64 other.1 = @decodeV1 target64 sampleBackup.1 →
          (@decodeV1 target64 other.1 >>= reencode) = .ok word) ∧
      ∀ crypto givenPaths storeCommonPaths items keys padding givenNonce decoys,
        @encryptChacha20Poly1305V1ItemsWithDecoys target64 crypto givenPaths storeCommonPaths items
            keys padding givenNonce decoys = .ok sampleBackup.1 →
          word = sampleBackup.1 :=
  @encodeV1_decodeV1 target64 samplePaths sampleSecrets 0x01 sampleNonce sampleCyphertext
    sampleBackup decodeV1_sampleBackup (by decide)

end Bip138.Ll
