/-
# Primitives, secrets and paths

The primitives the core is handed, SHA-256, the cipher and a random source, and
what it computes from them: the decryption secret of a key set, the individual
secret of each key, the nonce, and the set of common derivation paths.

The core never looks inside a primitive, so `Crypto` is a structure of plain
functions and a random source is a function on a state. What a theorem assumes of
them it says itself.
-/

import Bip138.Ll.Container

namespace Bip138.Ll

open Bip138.Rust

/-- Deterministic primitives: SHA-256 and the ChaCha20-Poly1305 AEAD. -/
structure Crypto where
  /-- One-shot SHA-256. -/
  sha256 : Bytes → Block 32
  /-- Encrypt under a key and a nonce; `none` on any cipher failure. -/
  aeadEncrypt : Block 32 → Block 12 → Bytes → Option Bytes
  /-- Decrypt under a key and a nonce; `none` when the tag does not verify. -/
  aeadDecrypt : Block 32 → Block 12 → Bytes → Option Bytes

/-- A source of randomness with an internal state. The core only ever fills
buffers of zeros, so what a source is given is the size of the buffer. -/
structure Rng (ρ : Type) where
  fillBytes : (n : ℕ) → ρ → Block n × ρ

def decryptionSecretTag : Bytes := asBytes "BIP138_DECRYPTION_SECRET"
def individualSecretTag : Bytes := asBytes "BIP138_INDIVIDUAL_SECRET"

/-- x-only form of the BIP341 NUMS point, whose private key nobody holds. -/
def numsXonly : Block 32 :=
  ⟨[0x50, 0x92, 0x9b, 0x74, 0xc1, 0xa0, 0x49, 0x54, 0xb7, 0x8b, 0x4b, 0x60, 0x35, 0xe9, 0x7a,
    0x5e, 0x07, 0x8a, 0x5a, 0x0f, 0x28, 0xec, 0x96, 0xd5, 0x47, 0xbf, 0xee, 0x9a, 0xce, 0x80,
    0x3a, 0xc0], rfl⟩

section Secrets

variable (crypto : Crypto)

def taggedHash (tag bytes : Bytes) : Block 32 :=
  let tagHash := crypto.sha256 tag
  crypto.sha256 (tagHash.1 ++ tagHash.1 ++ bytes)

/-- The secret of a key list: it is defined over the distinct keys in increasing
order, so the list is sorted and deduplicated here. -/
def decryptionSecret (keys : List (Block 32)) : Block 32 :=
  taggedHash crypto decryptionSecretTag ((sortDedup keys).flatMap Subtype.val)

/-- The share of one key. Distinct tags make a zero share statistically
impossible, and the source asserts it. -/
def individualSecret (secret key : Block 32) : Exec Error (Block 32) :=
  let si := taggedHash crypto individualSecretTag key.1
  let ci := Block.xor secret si
  if ci = Block.zero 32 then .abort .assertion else .ok ci

def individualSecrets (secret : Block 32) (keys : List (Block 32)) :
    Exec Error (List (Block 32)) :=
  keys.mapM (individualSecret crypto secret)

/-- The mask of a key, which a recipient xors a share with. -/
def individualHash (key : Block 32) : Block 32 := taggedHash crypto individualSecretTag key.1

/-- The share of a key before the assertion on it. -/
def share (secret key : Block 32) : Block 32 := Block.xor secret (individualHash crypto key)

theorem individualSecret_eq_ok_iff {secret key ci : Block 32} :
    individualSecret crypto secret key = .ok ci ↔
      share crypto secret key ≠ .zero 32 ∧ ci = share crypto secret key := by
  dsimp only [individualSecret, share, individualHash]
  split
  · rename_i hzero
    simp [hzero]
  · rename_i hnonzero
    simp [hnonzero, eq_comm]

/-- The shares of a key list are computed unless one of them is zero. -/
theorem individualSecrets_eq_ok_iff {secret : Block 32} {keys shares : List (Block 32)} :
    individualSecrets crypto secret keys = .ok shares ↔
      (∀ key ∈ keys, share crypto secret key ≠ .zero 32) ∧
        shares = keys.map (share crypto secret) :=
  Exec.mapM_eq_ok_iff fun _ _ => individualSecret_eq_ok_iff crypto

/-- The secret is recovered from a share by xoring the mask of its key. -/
theorem xor_individualHash_eq_iff {secret key ci : Block 32} :
    Block.xor (individualHash crypto key) ci = secret ↔ ci = share crypto secret key := by
  rw [Block.xor_eq_iff, share, Block.xor_comm secret]

end Secrets

section Nonce

variable {ρ : Type}

/-- Draw a fresh nonce. An all-zero one is drawn again once; a second one is
passed on, and the encryption rejects it. -/
def drawNonce (rng : Rng ρ) (source : ρ) : Block 12 × ρ :=
  let (nonce, source) := rng.fillBytes 12 source
  if nonce ≠ Block.zero 12 then (nonce, source)
  else rng.fillBytes 12 source

end Nonce

def commonAccountMax : ℕ := 9

/-- High bit marking a hardened BIP32 child. -/
def hardenedBit : UInt32 := 0x80000000

/-- A hardened child number. -/
def hardened (index : UInt32) : UInt32 := index ||| hardenedBit

/-- The paths a signer offers when it has none of its own to expose. -/
def commonDerivationPaths (coinType : UInt32) : List DerivationPath :=
  let accounts := (List.range (commonAccountMax + 1)).map UInt32.ofNat
  let multisig := accounts.flatMap fun account => [1, 2].map fun scriptType =>
    [hardened 48, hardened coinType, hardened account, hardened scriptType]
  let single := [44, 49, 84, 86, 87].flatMap fun purpose => accounts.map fun account =>
    [hardened purpose, hardened coinType, hardened account]
  multisig ++ single

def fallbackDerivationPathSet : BTreeSet DerivationPath :=
  (BTreeSet.empty.extend (commonDerivationPaths 0)).extend (commonDerivationPaths 1)

theorem ne_nil_of_mem_commonDerivationPaths {coinType : UInt32} {path : DerivationPath}
    (hpath : path ∈ commonDerivationPaths coinType) : path ≠ [] := by
  rintro rfl
  simp [commonDerivationPaths] at hpath

/-- No common path is the empty one, so an empty path is never left out. -/
theorem ne_nil_of_mem_fallbackDerivationPathSet {path : DerivationPath}
    (hpath : path ∈ fallbackDerivationPathSet) : path ≠ [] := by
  rw [fallbackDerivationPathSet, BTreeSet.mem_extend, BTreeSet.mem_extend] at hpath
  rcases hpath with (hempty | hmainnet) | htestnet
  · exact absurd hempty (BTreeSet.not_mem_empty path)
  · exact ne_nil_of_mem_commonDerivationPaths hmainnet
  · exact ne_nil_of_mem_commonDerivationPaths htestnet

end Bip138.Ll
