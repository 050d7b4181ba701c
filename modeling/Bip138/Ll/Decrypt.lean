/-
# Decryption and the round trip

A recipient xors the mask of its key with every stored secret and tries each
result as the key of the cipher. When the cipher is ideal on what was sealed, the
one try that opens it is the recipient's own share, so a key opens a backup
exactly when its share is stored (`decryptChacha20Poly1305V1_eq`). Encryption
stores the share of every recipient, which is the round trip; and it stores no
share of anybody else but by a collision.
-/

import Bip138.Ll.Encrypt

namespace Bip138.Ll

open Bip138.Rust Bip138.Wire

section Code

variable [Target]

def tryDecryptChacha20Poly1305 (crypto : Crypto) (cyphertext : Bytes) (secret : Block 32)
    (nonce : Block 12) : Option Bytes :=
  crypto.aeadDecrypt secret nonce cyphertext

/-- Try the secret recovered from each stored share in turn; the first that opens
the cyphertext decides the result. -/
def decryptChacha20Poly1305V1 (crypto : Crypto) (key : Block 32)
    (individualSecrets : List (Block 32)) (cyphertext : Bytes) (nonce : Block 12) :
    Exec Error (List (Content × Bytes)) :=
  let si := taggedHash crypto individualSecretTag key.1
  let opened := individualSecrets.findSome? fun ci =>
    tryDecryptChacha20Poly1305 crypto cyphertext (Block.xor si ci) nonce
  match opened with
  | some out => decodePlaintext out
  | none => .fail .wrongKey

end Code

/-- The cipher is ideal on one sealing: the cyphertext is the plaintext and a
16-byte tag, its own key opens it, and no other key does.

An assumption of this shape cannot be made of all keys and plaintexts at once,
since there are more pairs of them than cyphertexts; a theorem therefore makes it
only of the plaintext its run seals. -/
structure IdealSealing (crypto : Crypto) (key : Block 32) (nonce : Block 12)
    (plaintext : Bytes) : Prop where
  length_eq : ∀ cyphertext, crypto.aeadEncrypt key nonce plaintext = some cyphertext →
    cyphertext.length = plaintext.length + 16
  opens : ∀ cyphertext, crypto.aeadEncrypt key nonce plaintext = some cyphertext →
    crypto.aeadDecrypt key nonce cyphertext = some plaintext
  closed : ∀ cyphertext, crypto.aeadEncrypt key nonce plaintext = some cyphertext →
    ∀ other ≠ key, crypto.aeadDecrypt other nonce cyphertext = none

/-- What a decoder reports of the items that were encoded. -/
def normalizeItems (items : List (Content × Bytes)) : List (Content × Bytes) :=
  items.map fun item => (item.1.normalize, item.2)

section Open

variable {crypto : Crypto} {keys : List (Block 32)} {nonce : Block 12}
  {payload cyphertext : Bytes}

private theorem findSome?_ite_eq {α β : Type} [DecidableEq α] {wanted : α} {result : β}
    (items : List α) :
    (items.findSome? fun item => if item = wanted then some result else none) =
      if wanted ∈ items then some result else none := by
  induction items with
  | nil => rfl
  | cons item items ih =>
      by_cases hitem : item = wanted
      · simp [hitem]
      · simp [hitem, ih, Ne.symm hitem]

/-- What the cyphertext opens to for a key: the result of the first stored secret whose
recovered key the cipher accepts. -/
def recovered (crypto : Crypto) (key : Block 32) (secrets : List (Block 32)) (cyphertext : Bytes)
    (nonce : Block 12) : Option Bytes :=
  secrets.findSome? fun ci => tryDecryptChacha20Poly1305 crypto cyphertext
    (Block.xor (individualHash crypto key) ci) nonce

/-- Decryption decodes what is recovered, and only a key that recovers nothing is the
wrong one. -/
theorem decryptChacha20Poly1305V1_eq_recovered [Target] (crypto : Crypto) (key : Block 32)
    (secrets : List (Block 32)) (cyphertext : Bytes) (nonce : Block 12) :
    decryptChacha20Poly1305V1 crypto key secrets cyphertext nonce =
      match recovered crypto key secrets cyphertext nonce with
      | some out => decodePlaintext out
      | none => .fail .wrongKey := rfl

theorem recovered_eq_none_iff {key : Block 32} {secrets : List (Block 32)} :
    recovered crypto key secrets cyphertext nonce = none ↔
      ∀ ci ∈ secrets, crypto.aeadDecrypt (Block.xor (individualHash crypto key) ci) nonce
        cyphertext = none := by
  rw [recovered, List.findSome?_eq_none_iff]
  rfl

theorem exists_of_recovered_eq_some {key : Block 32} {secrets : List (Block 32)} {out : Bytes}
    (hrecovered : recovered crypto key secrets cyphertext nonce = some out) :
    ∃ secret, crypto.aeadDecrypt secret nonce cyphertext = some out := by
  obtain ⟨ci, -, hopens⟩ := List.exists_of_findSome?_eq_some hrecovered
  exact ⟨_, hopens⟩

/-- Decryption comes back when what the cipher yields fits into memory. -/
theorem returns_decryptChacha20Poly1305V1 [Target]
    (hfits : ∀ secret out, crypto.aeadDecrypt secret nonce cyphertext = some out →
      out.length ≤ isizeMax) (key : Block 32) (secrets : List (Block 32)) :
    (decryptChacha20Poly1305V1 crypto key secrets cyphertext nonce).Returns := by
  rw [decryptChacha20Poly1305V1_eq_recovered]
  rcases hrecovered : recovered crypto key secrets cyphertext nonce with _ | out
  · exact Exec.returns_fail _
  · obtain ⟨secret, hopens⟩ := exists_of_recovered_eq_some hrecovered
    exact returns_decodePlaintext (hfits secret out hopens)

/-- Under an ideal cipher a stored secret opens the cyphertext for a key exactly
when it is the share of that key. -/
theorem tryDecrypt_xor_eq {secret key ci : Block 32}
    (hideal : IdealSealing crypto secret nonce payload)
    (hencrypt : crypto.aeadEncrypt secret nonce payload = some cyphertext) :
    tryDecryptChacha20Poly1305 crypto cyphertext (Block.xor (individualHash crypto key) ci) nonce =
      if ci = share crypto secret key then some payload else none := by
  rw [tryDecryptChacha20Poly1305]
  split
  · rename_i hshare
    rw [(xor_individualHash_eq_iff crypto).mpr hshare]
    exact hideal.opens cyphertext hencrypt
  · rename_i hshare
    exact hideal.closed cyphertext hencrypt _ fun hsecret =>
      hshare ((xor_individualHash_eq_iff crypto).mp hsecret)

/-- Under an ideal cipher a key recovers what was sealed exactly when its share is among
the stored secrets. -/
theorem recovered_eq {secret : Block 32} (hideal : IdealSealing crypto secret nonce payload)
    (hencrypt : crypto.aeadEncrypt secret nonce payload = some cyphertext)
    (secrets : List (Block 32)) (key : Block 32) :
    recovered crypto key secrets cyphertext nonce =
      if share crypto secret key ∈ secrets then some payload else none := by
  have htry : (fun ci => tryDecryptChacha20Poly1305 crypto cyphertext
      (Block.xor (individualHash crypto key) ci) nonce) =
        fun ci => if ci = share crypto secret key then some payload else none :=
    funext fun ci => tryDecrypt_xor_eq hideal hencrypt
  rw [recovered, htry, findSome?_ite_eq]
  congr

/-- A key opens what an ideal cipher sealed exactly when its share is among the
stored secrets. -/
theorem decryptChacha20Poly1305V1_eq [Target] {secret : Block 32}
    (hideal : IdealSealing crypto secret nonce payload)
    (hencrypt : crypto.aeadEncrypt secret nonce payload = some cyphertext)
    (secrets : List (Block 32)) (key : Block 32) :
    decryptChacha20Poly1305V1 crypto key secrets cyphertext nonce =
      if share crypto secret key ∈ secrets then decodePlaintext payload else .fail .wrongKey := by
  rw [decryptChacha20Poly1305V1_eq_recovered, recovered_eq hideal hencrypt]
  split_ifs <;> rfl

end Open

section RoundTrip

variable [Target] {crypto : Crypto} {paths : List DerivationPath} {storeCommonPaths : Bool}
  {keys : List (Block 32)} {payload bytes : Bytes} {nonce : Block 12}
  {pad : List (Block 32) → Exec Error (List (Block 32))}
  {items : List (Content × Bytes)} {padding : Padding}

/-- A backup decodes, and any key then opens it exactly when its share is stored.
This holds whichever way the secrets were padded. -/
theorem decrypt_encodeV1Backup (hbuild : buildV1Payload items padding = .ok payload)
    (hbackup : encodeV1Backup crypto paths storeCommonPaths keys payload nonce pad = .ok bytes)
    (hfits : bytes.length ≤ isizeMax)
    (hideal : IdealSealing crypto (backupSecret crypto keys) nonce payload) :
    ∃ padded cyphertext,
      pad ((rawKeys keys).toList.map (share crypto (backupSecret crypto keys))) = .ok padded ∧
      decodeV1 bytes = .ok ((storedDerivationPaths paths storeCommonPaths).toList,
        (BTreeSet.collect padded).toList, 0x01, nonce, cyphertext) ∧
      ∀ key, decryptChacha20Poly1305V1 crypto key (BTreeSet.collect padded).toList cyphertext
          nonce =
        if share crypto (backupSecret crypto keys) key ∈ padded then .ok (normalizeItems items)
        else .fail .wrongKey := by
  obtain ⟨padded, cyphertext, hpad, hencrypt, hlength, hdecode⟩ :=
    decodeV1_encodeV1Backup hbackup hfits
  refine ⟨padded, cyphertext, hpad, hdecode, fun key => ?_⟩
  have hpayload : payload.length ≤ isizeMax := by
    have hsealed := hideal.length_eq cyphertext hencrypt
    omega
  rw [decryptChacha20Poly1305V1_eq hideal hencrypt]
  simp only [BTreeSet.mem_toList, BTreeSet.mem_collect]
  rw [decodePlaintext_buildV1Payload hbuild hpayload, normalizeItems]

omit [Target] in
/-- The share of every recipient is among the secrets that are padded. -/
theorem share_mem_of_mem_rawKeys {key : Block 32} (hkey : key ∈ rawKeys keys)
    (secret : Block 32) :
    share crypto secret key ∈ (rawKeys keys).toList.map (share crypto secret) :=
  List.mem_map_of_mem hkey

end RoundTrip

end Bip138.Ll
