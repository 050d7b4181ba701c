/-
# What the size of a container shows

Two containers of the same stored paths, whose key counts and payload lengths fall in
the same buckets, have the same length and differ in their individual secrets, their
nonce and their cyphertext only.

A container is cut at the borders of these three parts (`Sections`). What is left of it
is determined by the stored paths, the number of stored secrets and the length of the
cyphertext, and padding rounds both numbers up to the bucket (`sections_encryptItems`).
-/

import Bip138.Ll.SecretSet
import Bip138.Front.ReadBack

namespace Bip138

open Bip138.Rust Bip138.Ll

/-- A container, cut at the borders of the parts that depend on secrets. -/
structure Sections where
  /-- Magic, version, derivation paths and the number of individual secrets. -/
  head : Bytes
  secrets : List (Block 32)
  nonce : Block 12
  /-- The encoded length of the cyphertext. -/
  size : Bytes
  cyphertext : Bytes

namespace Sections

variable {first second : Sections}

def bytes (sections : Sections) : Bytes :=
  sections.head ++ (sections.secrets.flatMap Subtype.val ++ ([0x01] ++ (sections.nonce.1 ++
    (sections.size ++ sections.cyphertext))))

/-- The position is inside the individual secrets, the nonce or the cyphertext. -/
def Hidden (sections : Sections) (position : ℕ) : Prop :=
  let secretsStop := sections.head.length + 32 * sections.secrets.length
  (sections.head.length ≤ position ∧ position < secretsStop) ∨
    (secretsStop + 1 ≤ position ∧ position < secretsStop + 13) ∨
    secretsStop + 13 + sections.size.length ≤ position

/-- The sections are those of a container that decodes. -/
def Cuts [Target] (sections : Sections) (container : Bytes) : Prop :=
  container = sections.bytes ∧ ∃ stored, decodeV1 container =
    .ok (stored, sections.secrets, 0x01, sections.nonce, sections.cyphertext)

/-- The open parts are equal, and the hidden ones have the same lengths. -/
structure SameOpen (first second : Sections) : Prop where
  head : first.head = second.head
  secrets : first.secrets.length = second.secrets.length
  size : first.size = second.size
  cyphertext : first.cyphertext.length = second.cyphertext.length

theorem length_flatMap_blocks (blocks : List (Block 32)) :
    (blocks.flatMap Subtype.val).length = 32 * blocks.length := by
  induction blocks with
  | nil => rfl
  | cons block blocks ih =>
      rw [List.flatMap_cons, List.length_append, block.2, ih, List.length_cons]
      omega

theorem SameOpen.length_eq (hsame : first.SameOpen second) :
    first.bytes.length = second.bytes.length := by
  simp only [bytes, List.length_append, length_flatMap_blocks, first.nonce.2, second.nonce.2,
    hsame.head, hsame.secrets, hsame.size, hsame.cyphertext]

theorem SameOpen.hidden_iff (hsame : first.SameOpen second) (position : ℕ) :
    first.Hidden position ↔ second.Hidden position := by
  simp only [Hidden, hsame.head, hsame.secrets, hsame.size]

/-- Lists that start alike agree where the rest of them does. -/
private theorem getElem?_append_eq {left left' right right' : Bytes} {position : ℕ}
    (hlength : left.length = left'.length)
    (hleft : position < left.length → left[position]? = left'[position]?)
    (hright : left.length ≤ position →
      right[position - left.length]? = right'[position - left.length]?) :
    (left ++ right)[position]? = (left' ++ right')[position]? := by
  rw [List.getElem?_append, List.getElem?_append, ← hlength]
  by_cases hinside : position < left.length
  · rw [if_pos hinside, if_pos hinside]
    exact hleft hinside
  · rw [if_neg hinside, if_neg hinside]
    exact hright (not_lt.mp hinside)

/-- Sections with the same open parts agree at every position that is not hidden. -/
theorem SameOpen.getElem?_eq (hsame : first.SameOpen second) {position : ℕ}
    (hopen : ¬ first.Hidden position) : first.bytes[position]? = second.bytes[position]? := by
  simp only [Hidden, not_or, not_and, not_lt, not_le] at hopen
  obtain ⟨hsecrets, hnonce, hcyphertext⟩ := hopen
  have hblocks := length_flatMap_blocks first.secrets
  have hnonceLength := first.nonce.2
  apply getElem?_append_eq (congrArg List.length hsame.head)
  · intro _
    rw [hsame.head]
  intro hpastHead
  apply getElem?_append_eq
  · rw [hblocks, length_flatMap_blocks, hsame.secrets]
  · omega
  intro hpastSecrets
  apply getElem?_append_eq rfl
  · intro _
    rfl
  intro hpastByte
  rw [List.length_singleton] at hpastByte ⊢
  apply getElem?_append_eq
  · rw [hnonceLength, second.nonce.2]
  · omega
  intro hpastNonce
  apply getElem?_append_eq (congrArg List.length hsame.size)
  · intro _
    rw [hsame.size]
  · omega

end Sections

/-- The length of a cyphertext depends on the length of the plaintext only. -/
def SizedCipher (crypto : Crypto) : Prop :=
  ∃ sealedLength : ℕ → ℕ, ∀ key nonce plaintext cyphertext,
    crypto.aeadEncrypt key nonce plaintext = some cyphertext →
      cyphertext.length = sealedLength plaintext.length

/-- What the open parts of a container may show of a call: its stored paths, and the
buckets of its key count and of its payload length. -/
structure CoreCall.SameBuckets [Target] (first second : CoreCall) : Prop where
  padding : first.padding = .geometric ∧ second.padding = .geometric
  storedPaths : storedDerivationPaths first.derivationPaths first.storeCommonPaths =
    storedDerivationPaths second.derivationPaths second.storeCommonPaths
  keyCount : doublingBucket (rawKeys first.keys).toList.length =
    doublingBucket (rawKeys second.keys).toList.length
  payloadLength : geometricBucket (first.items.flatMap itemBytes).length =
    geometricBucket (second.items.flatMap itemBytes).length

section Calls

variable {ρ ρ' : Type} [Target] {crypto : Crypto} {call call' : CoreCall} {entropy : Entropy ρ}
  {entropy' : Entropy ρ'} {bytes bytes' : Bytes}

/-- Whatever the source of the decoys, an encrypted call could have been supplied with
them. -/
theorem Entropy.exists_supplied (hencrypt : entropy.encryptItems crypto call = .ok bytes) :
    ∃ payload decoys, buildV1Payload call.items call.padding = .ok payload ∧
      encodeV1Backup crypto call.derivationPaths call.storeCommonPaths call.keys payload
        entropy.nonce (padIndividualSecretsWithDecoys decoys) = .ok bytes := by
  cases entropy with
  | supplied nonce decoys =>
      obtain ⟨payload, hbuild, hbackup⟩ := Exec.bind_eq_ok_iff.mp hencrypt
      exact ⟨payload, decoys, hbuild, hbackup⟩
  | drawn fuel rng source =>
      obtain ⟨payload, hbuild, hbackup⟩ := Exec.bind_eq_ok_iff.mp hencrypt
      obtain ⟨hkeys, hpaths, hshares, padded, secretWord, pathWord, cyphertext, hpad, hrest⟩ :=
        encodeV1Backup_eq_ok_iff.mp hbackup
      obtain ⟨decoys, -, hsupplied⟩ := padIndividualSecretsWithDecoys_of_padIndividualSecrets hpad
      exact ⟨payload, decoys, hbuild, encodeV1Backup_eq_ok_iff.mpr
        ⟨hkeys, hpaths, hshares, padded, secretWord, pathWord, cyphertext, hsupplied, hrest⟩⟩

/-- The sections of an encrypted call. When no two recipients have the same mask, the
stored secrets fill their bucket: none of them is lost when they are deduplicated. -/
theorem sections_encryptItems (hfits : bytes.length ≤ isizeMax)
    (hmasks : Set.InjOn (individualHash crypto) {key | key ∈ rawKeys call.keys})
    (hencrypt : entropy.encryptItems crypto call = .ok bytes) :
    ∃ (sections : Sections) (pathWord payload : Bytes) (secret : Block 32),
      sections.Cuts bytes ∧
      doublingBucket (rawKeys call.keys).toList.length = .ok sections.secrets.length ∧
      encodeDerivationPaths (storedDerivationPaths call.derivationPaths
        call.storeCommonPaths).toList = .ok pathWord ∧
      sections.head = magic ++ [0x01] ++ pathWord ++ [UInt8.ofNat sections.secrets.length] ∧
      call.padding.paddedSize (call.items.flatMap itemBytes).length = .ok payload.length ∧
      crypto.aeadEncrypt secret entropy.nonce payload = some sections.cyphertext ∧
      sections.size = Varint.encode (UInt64.ofNat sections.cyphertext.length) := by
  obtain ⟨payload, decoys, hbuild, hbackup⟩ := Entropy.exists_supplied hencrypt
  obtain ⟨padded, cyphertext, hpad, hcipher, -, hdecode⟩ := decodeV1_encodeV1Backup hbackup hfits
  obtain ⟨hkeys, -, -, padded', secretWord, pathWord, cyphertext', hpad', hsecrets, hpaths, -, -,
    hcipher', -, hbytes⟩ := encodeV1Backup_eq_ok_iff.mp hbackup
  rw [hpad, Except.ok.injEq] at hpad'
  rw [hcipher, Option.some.injEq] at hcipher'
  subst hpad' hcipher'
  rw [encodeIndividualSecrets_eq_ok_iff] at hsecrets
  obtain ⟨-, -, hsecretWord⟩ := secretTable_iff.mp hsecrets
  obtain ⟨-, hcount, -, -, -⟩ := padIndividualSecretsWithDecoys_eq_ok_iff.mp hpad
  have hstored : (BTreeSet.collect padded).toList.length =
      secretBucket (rawKeys call.keys).toList.length := by
    rw [(perm_collect_padded hmasks hpad).length_eq, List.length_append, hcount, shares,
      List.length_map]
    exact Nat.add_sub_of_le (le_secretBucket hkeys.2)
  generalize (BTreeSet.collect padded).toList = secrets at hstored hsecretWord hdecode
  obtain ⟨-, -, size, hsize, hpayload⟩ := buildV1Payload_eq_ok_iff.mp hbuild
  have hlength : payload.length = size := by
    have hle := le_of_paddedSize_eq_ok hsize
    rw [hpayload, List.length_append, List.length_replicate]
    omega
  refine ⟨⟨magic ++ [0x01] ++ pathWord ++ [UInt8.ofNat secrets.length], secrets, entropy.nonce,
    Varint.encode (UInt64.ofNat cyphertext.length), cyphertext⟩, pathWord, payload,
    backupSecret crypto call.keys, ⟨?_, _, hdecode⟩, ?_, hpaths, rfl, ?_, hcipher, rfl⟩
  · rw [hbytes, hsecretWord]
    simp [Sections.bytes, encodeV1]
  · rw [doublingBucket_eq hkeys.2, hstored]
  · rw [hsize, hlength]

/-- The size leaks only buckets. Encryptions that agree on the stored paths and on the
two buckets give containers of the same length that agree at every position outside
their individual secrets, their nonce and their cyphertext. -/
theorem encryptItems_agree_of_sameBuckets {bytes bytes' : Slice} (hcipher : SizedCipher crypto)
    (hbuckets : call.SameBuckets call')
    (hmasks : Set.InjOn (individualHash crypto) {key | key ∈ rawKeys call.keys})
    (hmasks' : Set.InjOn (individualHash crypto) {key | key ∈ rawKeys call'.keys})
    (hencrypt : entropy.encryptItems crypto call = .ok bytes.1)
    (hencrypt' : entropy'.encryptItems crypto call' = .ok bytes'.1) :
    bytes.1.length = bytes'.1.length ∧
      ∃ sections sections' : Sections, sections.Cuts bytes.1 ∧ sections'.Cuts bytes'.1 ∧
        ∀ position, (sections.Hidden position ↔ sections'.Hidden position) ∧
          (¬ sections.Hidden position → bytes.1[position]? = bytes'.1[position]?) := by
  obtain ⟨sealedLength, hsealed⟩ := hcipher
  obtain ⟨sections, pathWord, payload, secret, hcuts, hcount, hpaths, hhead, hsize, hcyphertext,
    hword⟩ := sections_encryptItems bytes.2 hmasks hencrypt
  obtain ⟨sections', pathWord', payload', secret', hcuts', hcount', hpaths', hhead', hsize',
    hcyphertext', hword'⟩ := sections_encryptItems bytes'.2 hmasks' hencrypt'
  have hsecrets : sections.secrets.length = sections'.secrets.length := by
    rw [hbuckets.keyCount, hcount', Except.ok.injEq] at hcount
    exact hcount.symm
  have hpathWord : pathWord = pathWord' := by
    rw [hbuckets.storedPaths, hpaths', Except.ok.injEq] at hpaths
    exact hpaths.symm
  have hpayload : payload.length = payload'.length := by
    rw [hbuckets.padding.1, Padding.paddedSize, hbuckets.payloadLength] at hsize
    rw [hbuckets.padding.2, Padding.paddedSize, hsize, Except.ok.injEq] at hsize'
    exact hsize'
  have hlength : sections.cyphertext.length = sections'.cyphertext.length := by
    rw [hsealed _ _ _ _ hcyphertext, hsealed _ _ _ _ hcyphertext', hpayload]
  have hsame : sections.SameOpen sections' :=
    ⟨by rw [hhead, hhead', hpathWord, hsecrets], hsecrets, by rw [hword, hword', hlength], hlength⟩
  rw [hcuts.1, hcuts'.1]
  refine ⟨hsame.length_eq, sections, sections', ?_, ?_, fun position => ⟨hsame.hidden_iff position,
    hsame.getElem?_eq⟩⟩
  · exact hcuts.1 ▸ hcuts
  · exact hcuts'.1 ▸ hcuts'

end Calls

namespace Sample

theorem sizedCipher : SizedCipher sampleCrypto := by
  refine ⟨fun length => length + 16, fun key nonce plaintext cyphertext hencrypt => ?_⟩
  cases hencrypt
  rw [List.length_append, List.length_take, key.2]
  rfl

/-- A text for some keys. -/
def noteCall (keys : List (Block 32)) (text : Bytes) : CoreCall :=
  ⟨samplePaths, true, [(.string, text)], keys, .geometric⟩

end Sample

open Sample in
/-- A short text for one key and a longer one for two. -/
theorem encryptItems_agree_of_sameBuckets_sample :
    ∃ bytes bytes' : Slice,
      (entropy 1).encryptItems sampleCrypto (noteCall [sampleKey] [0x68]) = .ok bytes.1 ∧
      (entropy 2).encryptItems sampleCrypto (noteCall [byteBlock 8, byteBlock 9] [0x68, 0x69]) =
        .ok bytes'.1 ∧
      bytes.1.length = bytes'.1.length ∧
      ∃ sections sections' : Sections, sections.Cuts bytes.1 ∧ sections'.Cuts bytes'.1 ∧
        ∀ position, (sections.Hidden position ↔ sections'.Hidden position) ∧
          (¬ sections.Hidden position → bytes.1[position]? = bytes'.1[position]?) := by
  obtain ⟨bytes, hencrypt, hfits⟩ := Exec.exists_eq_ok
    ((entropy 1).encryptItems sampleCrypto (noteCall [sampleKey] [0x68]))
    (fun bytes => bytes.length ≤ isizeMax) (by decide +kernel)
  obtain ⟨bytes', hencrypt', hfits'⟩ := Exec.exists_eq_ok
    ((entropy 2).encryptItems sampleCrypto (noteCall [byteBlock 8, byteBlock 9] [0x68, 0x69]))
    (fun bytes => bytes.length ≤ isizeMax) (by decide +kernel)
  have hmasks : ∀ keys ∈ [[sampleKey], [byteBlock 8, byteBlock 9]],
      ∀ key ∈ (rawKeys keys).toList, ∀ other ∈ (rawKeys keys).toList,
        individualHash sampleCrypto key = individualHash sampleCrypto other → key = other := by
    decide +kernel
  refine ⟨⟨bytes, of_decide_eq_true hfits⟩, ⟨bytes', of_decide_eq_true hfits'⟩, hencrypt, hencrypt',
    encryptItems_agree_of_sameBuckets sizedCipher ?_ ?_ ?_ hencrypt hencrypt'⟩
  · exact ⟨⟨rfl, rfl⟩, rfl, by decide +kernel, by decide +kernel⟩
  · exact fun key hkey other hother => hmasks [sampleKey] (by simp) key hkey other hother
  · exact fun key hkey other hother =>
      hmasks [byteBlock 8, byteBlock 9] (by simp) key hkey other hother

end Bip138
