/-
# The bundled provider

The crate brings a provider of its own. ChaCha20-Poly1305 works on a buffer in place: encrypting
it yields a tag, which goes behind the cyphertext, and decrypting takes the two apart again.
What the core assumes of a provider comes down to what the primitive does with a tag
(`idealSealing_rustBitcoin_iff`), and what is opened is shorter than the cyphertext by the tag.
-/

import Bip138.Ll.Decrypt

namespace Bip138.Ll

open Bip138.Rust

section Code

/-- Poly1305 tag length. -/
abbrev tagLen : ℕ := 16

/-- ChaCha20-Poly1305 on a buffer. What encrypting leaves in it, and the tag; and what
decrypting leaves in it when the tag verifies. -/
structure ChaCha20Poly1305 where
  encrypt : Block 32 → Block 12 → Bytes → Bytes × Block tagLen
  decrypt : Block 32 → Block 12 → Bytes → Block tagLen → Option Bytes

/-- SHA-256 and the cipher, with the tag behind the cyphertext. -/
def rustBitcoin (sha256 : Bytes → Block 32) (cipher : ChaCha20Poly1305) : Crypto where
  sha256 := sha256
  aeadEncrypt key nonce plaintext :=
    let (out, tag) := cipher.encrypt key nonce plaintext
    some (out ++ tag.1)
  aeadDecrypt key nonce cyphertext := do
    let split ← checkedSub cyphertext.length tagLen
    let tag ← Block.tryFrom tagLen (cyphertext.drop split)
    cipher.decrypt key nonce (cyphertext.take split) tag

end Code

variable {sha256 : Bytes → Block 32} {cipher : ChaCha20Poly1305} {key : Block 32}
  {nonce : Block 12}

/-- The buffer keeps its length, and its own key decrypts it. -/
structure ChaCha20Poly1305.Inverts (cipher : ChaCha20Poly1305) : Prop where
  length_encrypt : ∀ key nonce buffer, (cipher.encrypt key nonce buffer).1.length = buffer.length
  length_decrypt : ∀ key nonce buffer tag out, cipher.decrypt key nonce buffer tag = some out →
    out.length = buffer.length
  decrypt_encrypt : ∀ key nonce buffer,
    cipher.decrypt key nonce (cipher.encrypt key nonce buffer).1
      (cipher.encrypt key nonce buffer).2 = some buffer

/-- A cyphertext is a buffer and its tag, and it is opened when the tag verifies. -/
theorem rustBitcoin_aeadDecrypt_append (buffer : Bytes) (tag : Block tagLen) :
    (rustBitcoin sha256 cipher).aeadDecrypt key nonce (buffer ++ tag.1) =
      cipher.decrypt key nonce buffer tag := by
  have hlength : (buffer ++ tag.1).length = buffer.length + tagLen := by
    rw [List.length_append, tag.2]
  have hsplit : checkedSub (buffer ++ tag.1).length tagLen = some buffer.length := by
    rw [checkedSub_eq_some_iff, hlength]
    exact ⟨Nat.le_add_left _ _, (Nat.add_sub_cancel _ _).symm⟩
  have htag : Block.tryFrom tagLen ((buffer ++ tag.1).drop buffer.length) = some tag := by
    rw [List.drop_left, Block.tryFrom_eq_some_iff]
  dsimp only [rustBitcoin]
  rw [hsplit, Option.bind_eq_bind, Option.bind_some, htag, Option.bind_eq_bind, Option.bind_some,
    List.take_left]

/-- What is opened is a buffer and its tag. -/
theorem rustBitcoin_aeadDecrypt_eq_some_iff {cyphertext out : Bytes} :
    (rustBitcoin sha256 cipher).aeadDecrypt key nonce cyphertext = some out ↔
      ∃ buffer tag, cyphertext = buffer ++ tag.1 ∧
        cipher.decrypt key nonce buffer tag = some out := by
  constructor
  · intro hopens
    obtain ⟨split, -, hrest⟩ := Option.bind_eq_some_iff.mp hopens
    obtain ⟨tag, htag, hdecrypt⟩ := Option.bind_eq_some_iff.mp hrest
    rw [Block.tryFrom_eq_some_iff] at htag
    refine ⟨_, tag, ?_, hdecrypt⟩
    rw [← htag, List.take_append_drop]
  · rintro ⟨buffer, tag, rfl, hdecrypt⟩
    rw [rustBitcoin_aeadDecrypt_append, hdecrypt]

theorem length_of_rustBitcoin_aeadDecrypt (hinverts : cipher.Inverts) {cyphertext out : Bytes}
    (hopens : (rustBitcoin sha256 cipher).aeadDecrypt key nonce cyphertext = some out) :
    cyphertext.length = out.length + tagLen := by
  obtain ⟨buffer, tag, rfl, hdecrypt⟩ := rustBitcoin_aeadDecrypt_eq_some_iff.mp hopens
  rw [List.length_append, tag.2, hinverts.length_decrypt _ _ _ _ _ hdecrypt]

/-- The bundled provider is ideal on a sealing exactly when no other key verifies the tag. -/
theorem idealSealing_rustBitcoin_iff (hinverts : cipher.Inverts) {plaintext : Bytes} :
    IdealSealing (rustBitcoin sha256 cipher) key nonce plaintext ↔
      ∀ other ≠ key, cipher.decrypt other nonce (cipher.encrypt key nonce plaintext).1
        (cipher.encrypt key nonce plaintext).2 = none := by
  have hseals : (rustBitcoin sha256 cipher).aeadEncrypt key nonce plaintext =
      some ((cipher.encrypt key nonce plaintext).1 ++ (cipher.encrypt key nonce plaintext).2.1) :=
    rfl
  constructor
  · intro hideal other hother
    rw [← rustBitcoin_aeadDecrypt_append]
    exact hideal.closed _ hseals other hother
  · intro hcloses
    refine ⟨fun cyphertext hsealed => ?_, fun cyphertext hsealed => ?_,
      fun cyphertext hsealed other hother => ?_⟩
    · obtain rfl := Option.some.inj (hseals.symm.trans hsealed)
      rw [List.length_append, hinverts.length_encrypt, (cipher.encrypt key nonce plaintext).2.2]
    · obtain rfl := Option.some.inj (hseals.symm.trans hsealed)
      rw [rustBitcoin_aeadDecrypt_append, hinverts.decrypt_encrypt]
    · obtain rfl := Option.some.inj (hseals.symm.trans hsealed)
      rw [rustBitcoin_aeadDecrypt_append, hcloses other hother]

end Bip138.Ll
