/-
# Reading a backup back

From `encrypt` to `decrypt` through the whole front end. Under an ideal cipher a
backup loads, and a key of a list either yields the encrypted items or is refused as
the wrong one. One recipient in the list is therefore enough, wherever it stands
(`decrypt_setKeys_eq`), and what comes out is what `extract` makes of the items.

Both kinds of documents that share the BIP380 content type are told apart by trying
the descriptor parser first. A descriptor document is read back when `validate`
accepts it, and the library encrypts one that `validate` does not accept.
-/

import Bip138.Front.Exposure

namespace Bip138

open Bip138.Rust Bip138.Ll

variable {ρ : Type}

/-! ## The core, for either source of decoys -/

section Core

variable [Target] {crypto : Crypto} {call : CoreCall} {entropy : Entropy ρ} {bytes : Bytes}

/-- The secret a call of the core encrypts under. -/
def CoreCall.secret (crypto : Crypto) (call : CoreCall) : Block 32 := backupSecret crypto call.keys

/-- The cipher is ideal on what a call of the core seals. -/
def CoreCall.IdealSealing (crypto : Crypto) (entropy : Entropy ρ) (call : CoreCall) : Prop :=
  ∀ payload, buildV1Payload call.items call.padding = .ok payload →
    Ll.IdealSealing crypto (call.secret crypto) entropy.nonce payload

/-- An encrypted call is a backup padded in a way that keeps the secrets. -/
theorem Entropy.encryptItems_eq_ok (hencrypt : entropy.encryptItems crypto call = .ok bytes) :
    ∃ payload pad, buildV1Payload call.items call.padding = .ok payload ∧
      encodeV1Backup crypto call.derivationPaths call.storeCommonPaths call.keys payload
        entropy.nonce pad = .ok bytes ∧
      ∀ secrets padded, pad secrets = .ok padded → secrets ⊆ padded := by
  cases entropy with
  | drawn fuel rng source =>
      rw [Entropy.encryptItems, encryptChacha20Poly1305V1Items] at hencrypt
      obtain ⟨payload, hbuild, hbackup⟩ := Exec.bind_eq_ok_iff.mp hencrypt
      exact ⟨payload, _, hbuild, hbackup, fun _ _ hpad => (padIndividualSecrets_eq_ok hpad).1⟩
  | supplied nonce decoys =>
      rw [Entropy.encryptItems, encryptChacha20Poly1305V1ItemsWithDecoys] at hencrypt
      obtain ⟨payload, hbuild, hbackup⟩ := Exec.bind_eq_ok_iff.mp hencrypt
      refine ⟨payload, _, hbuild, hbackup, fun secrets padded hpad => ?_⟩
      obtain ⟨-, -, -, -, rfl⟩ := padIndividualSecretsWithDecoys_eq_ok_iff.mp hpad
      exact List.subset_append_left secrets decoys

/-- An encrypted call decodes, and every key then yields its items or is refused as
the wrong key; a recipient yields them. -/
theorem Entropy.decrypt_encryptItems (hfits : bytes.length ≤ isizeMax)
    (hideal : call.IdealSealing crypto entropy)
    (hencrypt : entropy.encryptItems crypto call = .ok bytes) :
    ∃ stored secrets cyphertext,
      decodeV1 bytes = .ok (stored, secrets, 0x01, entropy.nonce, cyphertext) ∧
      (∀ key, decryptChacha20Poly1305V1 crypto key secrets cyphertext entropy.nonce =
          .ok (normalizeItems call.items) ∨
        decryptChacha20Poly1305V1 crypto key secrets cyphertext entropy.nonce = .fail .wrongKey) ∧
      ∀ key ∈ rawKeys call.keys,
        decryptChacha20Poly1305V1 crypto key secrets cyphertext entropy.nonce =
          .ok (normalizeItems call.items) := by
  obtain ⟨payload, pad, hbuild, hbackup, hkeeps⟩ := Entropy.encryptItems_eq_ok hencrypt
  obtain ⟨padded, cyphertext, hpad, hdecode, hdecrypt⟩ :=
    decrypt_encodeV1Backup hbuild hbackup hfits (hideal payload hbuild)
  refine ⟨_, _, cyphertext, hdecode, fun key => ?_, fun key hkey => ?_⟩
  · rw [hdecrypt key]
    by_cases hstored : share crypto (backupSecret crypto call.keys) key ∈ padded
    · exact .inl (if_pos hstored)
    · exact .inr (if_neg hstored)
  · rw [hdecrypt key, if_pos]
    exact hkeeps _ _ hpad (share_mem_of_mem_rawKeys hkey _)

end Core

/-! ## Loading and trying the keys -/

namespace EncryptedBackup

section Load

variable [Target] {crypto : Crypto} {bytes : Bytes}

/-- What decodes is loaded by its magic. -/
theorem setEncryptedPayload_eq_ok [Base64] {stored : List DerivationPath}
    {secrets : List (Block 32)} {encryption : UInt8} {nonce : Block 12} {cyphertext : Bytes}
    (backup : EncryptedBackup)
    (hdecode : decodeV1 bytes = .ok (stored, secrets, encryption, nonce, cyphertext)) :
    backup.setEncryptedPayload bytes =
      .ok { backup with
        derivationPaths := stored
        encryption := .ofU8 encryption
        payload := .decryptV1 cyphertext secrets nonce } := by
  obtain ⟨hmagic, hversion⟩ := decodeVersion_of_decodeV1 hdecode
  have hv0 : ¬ v0Magic <+: bytes := by
    intro hv0
    obtain ⟨tail, rfl⟩ := hmagic
    simp [v0Magic, magic] at hv0
  rw [setEncryptedPayload, if_pos hmagic, setEncryptedPayloadBinary, if_neg hv0, hversion, hdecode]
  rfl

/-- The loop over the keys ends with the items when every key yields them or is
refused, and some key yields them. -/
theorem decryptItems_eq_ok {cyphertext : Bytes} {secrets : List (Block 32)} {nonce : Block 12}
    {items : List (Content × Bytes)} {keys : List PublicKey}
    (htry : ∀ key, decryptChacha20Poly1305V1 crypto key secrets cyphertext nonce = .ok items ∨
      decryptChacha20Poly1305V1 crypto key secrets cyphertext nonce = .fail .wrongKey)
    (hopens : ∃ key ∈ keys,
      decryptChacha20Poly1305V1 crypto (xonly key) secrets cyphertext nonce = .ok items) :
    decryptItems crypto cyphertext secrets nonce keys = .ok items := by
  induction keys with
  | nil =>
      obtain ⟨key, hkey, -⟩ := hopens
      exact absurd hkey List.not_mem_nil
  | cons key keys ih =>
      rw [decryptItems]
      rcases htry (xonly key) with hok | hrefused
      · rw [hok]
      · rw [hrefused]
        apply ih
        obtain ⟨opener, hopener, hopens⟩ := hopens
        rcases List.mem_cons.mp hopener with rfl | hrest
        · rw [hrefused] at hopens
          cases hopens
        · exact ⟨opener, hrest, hopens⟩

/-- The loop over the keys ends with the error for a wrong key when every key does. -/
theorem decryptItems_eq_wrongKey {cyphertext : Bytes} {secrets : List (Block 32)}
    {nonce : Block 12} {keys : List PublicKey}
    (hrefused : ∀ key ∈ keys,
      decryptChacha20Poly1305V1 crypto (xonly key) secrets cyphertext nonce = .fail .wrongKey) :
    decryptItems crypto cyphertext secrets nonce keys = .fail .wrongKey := by
  induction keys with
  | nil => rfl
  | cons key keys ih =>
      obtain ⟨hfirst, hrest⟩ := List.forall_mem_cons.mp hrefused
      rw [decryptItems, hfirst]
      exact ih hrest

end Load

section ReadBack

variable [Target] [Base64] [Miniscript] [SerdeJson] [Serde DescriptorBackup] [Serde PolicySet]
  [Serde PolicyBackup] [V0] {crypto : Crypto} {entropy : Entropy ρ} {backup : EncryptedBackup}
  {encrypted : Encrypted} {items : List (Content × Bytes)}

/-- The keys an encrypted backup is for: those of its builder, without the NUMS key. -/
def IsRecipient (backup : EncryptedBackup) (key : PublicKey) : Prop :=
  key ∈ backup.keys ∧ xonly key ≠ bip341Nums

/-- The cipher is ideal on what the backup seals. -/
def IdealSealing (crypto : Crypto) (entropy : Entropy ρ) (backup : EncryptedBackup) : Prop :=
  ∀ call, backup.coreCall = .ok call → call.IdealSealing crypto entropy

/-- Load, list keys, decrypt. -/
def readBack (crypto : Crypto) (bytes : Bytes) (keys : List PublicKey) :
    Exec Error (List (Decrypted NoProprietary)) := do
  let loaded ← EncryptedBackup.new.setEncryptedPayload bytes
  (loaded.setKeys keys).decrypt crypto

/-- Any list of keys with a recipient in it reads back what `extract` makes of the
items, in their order. -/
theorem readBack_eq (hitems : backup.Encrypts items)
    (hencrypt : backup.encrypt crypto entropy = .ok encrypted)
    (hfits : encrypted.bytes.length ≤ isizeMax) (hideal : backup.IdealSealing crypto entropy)
    {keys : List PublicKey} (hkeys : ∃ key ∈ keys, backup.IsRecipient key) :
    readBack crypto encrypted.bytes keys =
      ((normalizeItems items).filterMap fun (content, bytes) => extract content bytes).mapM id := by
  obtain ⟨call, hcall, hcore, -⟩ := encrypt_eq_ok_iff.mp hencrypt
  obtain ⟨-, -, -, items', hitems', rfl⟩ := coreCall_eq_ok_iff.mp hcall
  obtain rfl := hitems.unique hitems'
  obtain ⟨stored, secrets, cyphertext, hdecode, htry, hopens⟩ :=
    Entropy.decrypt_encryptItems hfits (hideal _ hcall) hcore
  obtain ⟨recipient, hlisted, hmem, hnums⟩ := hkeys
  have hrecipient := hopens _ (mem_rawKeys.mpr ⟨List.mem_map_of_mem hmem, hnums⟩)
  have hopened := decryptItems_eq_ok htry ⟨recipient, hlisted, hrecipient⟩
  rw [readBack, setEncryptedPayload_eq_ok _ hdecode, Exec.ok_bind, decrypt, decryptWith,
    setKeys_of_exposedKeys_eq_nil rfl, if_neg (List.ne_nil_of_mem hlisted)]
  dsimp only [new]
  rw [if_neg (not_not.mpr (show Encryption.ofU8 1 = .chaCha20Poly1305 from rfl)), hopened,
    Exec.ok_bind]

/-- A key is a stranger to a backup made with a random source when it computes no
recipient's share and no block of the source. -/
def IsStranger (crypto : Crypto) (rng : Rng ρ) (source : ρ) (backup : EncryptedBackup)
    (key : PublicKey) : Prop :=
  let secret := backupSecret crypto (backup.keys.map xonly)
  (∀ recipient, backup.IsRecipient recipient →
    share crypto secret (xonly key) ≠ share crypto secret (xonly recipient)) ∧
  ∀ i, drawn (rng.fillBytes 32) (drawNonce rng source).2 i ≠ share crypto secret (xonly key)

/-- A list of strangers is refused. -/
theorem readBack_eq_wrongKey {rng : Rng ρ} {source : ρ} {fuel : ℕ}
    (hencrypt : backup.encrypt crypto (.drawn fuel rng source) = .ok encrypted)
    (hfits : encrypted.bytes.length ≤ isizeMax)
    (hideal : backup.IdealSealing crypto (.drawn fuel rng source)) {keys : List PublicKey}
    (hkeys : keys ≠ []) (hstrangers : ∀ key ∈ keys, backup.IsStranger crypto rng source key) :
    readBack crypto encrypted.bytes keys = .fail .wrongKey := by
  obtain ⟨call, hcall, hcore, -⟩ := encrypt_eq_ok_iff.mp hencrypt
  have hsealed := hideal call hcall
  obtain ⟨-, -, -, items, -, rfl⟩ := coreCall_eq_ok_iff.mp hcall
  dsimp only [Entropy.encryptItems, encryptChacha20Poly1305V1Items] at hcore
  obtain ⟨payload, hbuild, hbackup⟩ := Exec.bind_eq_ok_iff.mp hcore
  obtain ⟨padded, cyphertext, hpad, hdecode, hdecrypt⟩ :=
    decrypt_encodeV1Backup hbuild hbackup hfits (hsealed payload hbuild)
  have hrefused : ∀ key ∈ keys, decryptChacha20Poly1305V1 crypto (xonly key)
      (BTreeSet.collect padded).toList cyphertext (drawNonce rng source).1 = .fail .wrongKey := by
    intro key hkey
    obtain ⟨hshares, hdrawn⟩ := hstrangers key hkey
    rw [hdecrypt (xonly key), if_neg]
    intro hstored
    rcases mem_or_drawn_of_padIndividualSecrets hpad _ hstored with hshare | ⟨i, hi⟩
    · obtain ⟨raw, hraw, hequal⟩ := List.mem_map.mp hshare
      obtain ⟨hmem, hnums⟩ := mem_rawKeys.mp (BTreeSet.mem_toList.mp hraw)
      obtain ⟨recipient, hrecipient, rfl⟩ := List.mem_map.mp hmem
      exact hshares recipient ⟨hrecipient, hnums⟩ hequal.symm
    · exact hdrawn i hi
  rw [readBack, setEncryptedPayload_eq_ok _ hdecode, Exec.ok_bind, decrypt, decryptWith,
    setKeys_of_exposedKeys_eq_nil rfl, if_neg hkeys]
  dsimp only [new]
  rw [if_neg (not_not.mpr (show Encryption.ofU8 1 = .chaCha20Poly1305 from rfl)),
    decryptItems_eq_wrongKey hrefused]
  rfl

end ReadBack

end EncryptedBackup

/-! ## Typed payloads -/

/-- The payloads that are decrypted into a value of their own type. -/
inductive TypedPayload [Miniscript]
  | string (text : String)
  | bip138 (bytes : Bytes)
  | descriptor (descriptor : Descriptor)
  | policyBackup (backup : PolicyBackup)
  | descriptorBackup (backup : DescriptorBackup)

/-- The JSON text of a document is not a descriptor. -/
def DescriptorBackup.NotDescriptor [Miniscript] [SerdeJson] [Serde DescriptorBackup]
    (backup : DescriptorBackup) : Prop :=
  ∀ text, Serde.toVec backup = some (asBytes text) → Descriptor.fromStr text = none

section Document

variable [Miniscript] [SerdeJson] [Serde DescriptorBackup]

/-- A BIP380 item that is a document is read by the document parser. -/
theorem extractBip380_toJson {backup : DescriptorBackup} {bytes : Bytes}
    (hserde : SerdeJson.RoundTrip backup [] []) (htext : backup.NotDescriptor)
    (hwritten : backup.toJson = .ok bytes) :
    extractBip380 (P := NoProprietary) bytes =
      (do backup.validate; .ok (.descriptorBackup backup)) := by
  have hbytes := Exec.okOr_eq_ok_iff.mp hwritten
  obtain ⟨text, -, -, hutf8, -⟩ := hserde bytes hbytes
  have hparse := parseDescriptorBackup_toJson hserde hwritten
  rw [hutf8] at hbytes hparse
  rw [hutf8, extractBip380, fromUtf8_asBytes, Exec.okOr, Exec.ok_bind, htext text hbytes]
  dsimp only
  rw [hparse]
  rcases backup.validate with fault | ⟨⟩
  · rfl
  · rfl

end Document

namespace TypedPayload

variable [Miniscript]

/-- The variant a payload is decrypted into. -/
def decrypted : TypedPayload → Decrypted NoProprietary
  | .string text => .string text
  | .bip138 bytes => .bip138 bytes
  | .descriptor descr => .descriptor descr
  | .policyBackup backup => .policyBackup backup
  | .descriptorBackup backup => .descriptorBackup backup

variable [SerdeJson] [Serde DescriptorBackup] [Serde PolicySet] [Serde PolicyBackup]

def toPayload : TypedPayload → ToPayload
  | .string text => .ofString text
  | .bip138 bytes => .ofBip138 bytes
  | .descriptor descr => .ofDescriptor descr
  | .policyBackup backup => .ofPolicyBackup backup
  | .descriptorBackup backup => .ofDescriptorBackup backup

/-- Printing and parsing are inverse on the payload, and a descriptor document is one
that `validate` accepts. -/
def Readable : TypedPayload → Prop
  | .string _ | .bip138 _ => True
  | .descriptor descr => Descriptor.fromStr descr.toString = some descr
  | .policyBackup backup => backup.JsonRoundTrip
  | .descriptorBackup backup => backup.validate = .ok () ∧ SerdeJson.RoundTrip backup [] [] ∧
      backup.NotDescriptor

/-- An encoded payload is extracted into itself. -/
theorem extract_toPayload {payload : TypedPayload} {part : Contribution}
    (hreadable : payload.Readable) (hpart : payload.toPayload.Contributes part) :
    extract part.item.1.normalize part.item.2 = some (.ok payload.decrypted) := by
  obtain ⟨bytes, hbytes, hitem⟩ := hpart.item
  rw [hitem]
  cases payload with
  | string text =>
      cases hbytes
      show extract .string (asBytes text) = _
      rw [extract, fromUtf8_asBytes]
      rfl
  | bip138 bytes =>
      cases hbytes
      rfl
  | descriptor descr =>
      cases hbytes
      show extract .bip380 (asBytes descr.toString) = _
      rw [extract, extractBip380, fromUtf8_asBytes, Exec.okOr, Exec.ok_bind,
        show Descriptor.fromStr descr.toString = some descr from hreadable]
      rfl
  | policyBackup backup =>
      have hvalidate := PolicyBackup.validate_eq_ok_of_keys hpart.keys
      show extract .bip388 bytes = _
      rw [extract, extractBip388, parsePolicyBackup_toPayload hreadable hvalidate hbytes]
      rfl
  | descriptorBackup backup =>
      obtain ⟨hvalidate, hserde, htext⟩ := hreadable
      show extract .bip380 bytes = _
      rw [extract, extractBip380_toJson hserde htext hbytes, hvalidate]
      rfl

/-- The items of a list of payloads are extracted into the payloads. -/
theorem extract_items {payloads : List TypedPayload} {parts : List Contribution}
    (hreadable : ∀ payload ∈ payloads, payload.Readable)
    (hparts : List.Forall₂ ToPayload.Contributes (payloads.map toPayload) parts) :
    ((normalizeItems (parts.map (·.item))).filterMap fun (content, bytes) =>
      extract content bytes).mapM id = .ok (payloads.map decrypted) := by
  rw [List.forall₂_map_left_iff] at hparts
  induction hparts with
  | nil => rfl
  | @cons payload part payloads parts hpart _ ih =>
      obtain ⟨hfirst, hrest⟩ := List.forall_mem_cons.mp hreadable
      have hextract := extract_toPayload hfirst hpart
      have hlater := ih hrest
      rw [normalizeItems] at hlater ⊢
      simp only [List.map_cons, List.filterMap_cons, hextract, List.mapM_cons, id_eq,
        Exec.ok_bind]
      rw [hlater]
      rfl

end TypedPayload

/-! ## Examples of payloads -/

namespace Sample

scoped instance decidableEqDescriptor : DecidableEq Descriptor :=
  inferInstanceAs (DecidableEq (Wpkh DescriptorPublicKey))

scoped instance v0 : V0 where
  decrypt _ _ := none

/-- The account as a document of policies. -/
def policyBackup : PolicyBackup := ⟨1, [policySet]⟩

/-- One payload of each kind. -/
def payloads : List TypedPayload :=
  [.string "note", .bip138 [0x01], .descriptor account, .policyBackup policyBackup,
    .descriptorBackup (document 1)]

def byHand : PublicKey := ⟨false, byteBlock 5⟩

def stranger : PublicKey := ⟨false, byteBlock 6⟩

def start : EncryptedBackup := (EncryptedBackup.new.setPadding .geometric).setStoreCommonPaths true

/-- As many decoys as a backup with this number of keys leaves room for. -/
def entropy (keys : ℕ) : Entropy ℕ := .supplied sampleNonce (sampleDecoys.take (5 - keys))

theorem idealSealing_entropy (keys : ℕ) (backup : EncryptedBackup) :
    backup.IdealSealing sampleCrypto (entropy keys) :=
  fun _ _ payload _ => sampleCrypto_idealSealing_backupSecret _ _ payload

theorem readDocument_documentText {version : UInt32} (hversion : version = 1 ∨ version = 2) :
    readDocument (documentText version) = some (document version) := by
  have hdistinct : documentText 2 ≠ documentText 1 := by
    decide +kernel
  rcases hversion with rfl | rfl
  · simp [readDocument]
  · simp [readDocument, hdistinct]

theorem roundTrip_document {version : UInt32} (hversion : version = 1 ∨ version = 2) :
    SerdeJson.RoundTrip (document version) [] [] := by
  intro bytes hbytes
  cases hbytes
  have hread := readDocument_documentText hversion
  have hkeys : objectKeys (documentText version) = some ["version", "descriptor_sets"] := by
    rcases hversion with rfl | rfl
    · exact if_pos (.inl rfl)
    · exact if_pos (.inr rfl)
  have hbrace : startsWithChar (documentText version) '\x7b' = true := by
    simp [startsWithChar, documentText]
  exact ⟨documentText version, documentText version, _, rfl, hbrace, hread, rfl, hkeys, by simp,
    by simp, hread⟩

theorem notDescriptor_document {version : UInt32} (hversion : version = 1 ∨ version = 2) :
    (document version).NotDescriptor := by
  intro text htext
  rw [← asBytes_injective (Option.some.inj htext)]
  rcases hversion with rfl | rfl
  · show Descriptor.fromStr (documentText 1) = none
    decide +kernel
  · show Descriptor.fromStr (documentText 2) = none
    decide +kernel

theorem jsonRoundTrip_policyBackup : policyBackup.JsonRoundTrip where
  set set hset bytes hbytes := by
    cases hset
    cases hbytes
    have hread : readPolicySet policyText = some policySet := if_pos rfl
    have hbrace : startsWithChar policyText '\x7b' = true := by
      simp [startsWithChar, policyText]
    have hkeys : objectKeys policyText = some ["keys", "policy"] := by
      decide +kernel
    exact ⟨policyText, policyText, _, rfl, hbrace, hread, rfl, hkeys, by simp, by simp, hread⟩
  backup bytes hbytes := by
    cases hbytes

theorem readable_of_mem_payloads : ∀ payload ∈ payloads, payload.Readable := by
  simp only [payloads, List.forall_mem_cons, List.not_mem_nil, false_implies, implies_true,
    and_true]
  refine ⟨trivial, trivial, ?_, jsonRoundTrip_policyBackup, ?_⟩
  · show Descriptor.fromStr account.toString = some account
    decide +kernel
  · exact ⟨by decide +kernel, roundTrip_document (.inl rfl), notDescriptor_document (.inl rfl)⟩

/-- Documents of either version are encrypted, to the root of the account. -/
theorem encrypt_document {version : UInt32} (hversion : version = 1 ∨ version = 2) :
    ∃ backup encrypted,
      EncryptedBackup.new.setPayload (.ofDescriptorBackup (document version)) = .ok backup ∧
      backup.encrypt sampleCrypto (entropy 1) = .ok encrypted ∧
      encrypted.bytes.length ≤ isizeMax ∧ root ∈ backup.keys := by
  obtain ⟨⟨backup, encrypted⟩, hrun, htest⟩ := Exec.exists_eq_ok
    (do
      let backup ← EncryptedBackup.new.setPayload (.ofDescriptorBackup (document version))
      let encrypted ← backup.encrypt sampleCrypto (entropy 1)
      .ok (backup, encrypted))
    (fun (backup, encrypted) => encrypted.bytes.length ≤ isizeMax ∧ root ∈ backup.keys)
    (by rcases hversion with rfl | rfl <;> decide +kernel)
  obtain ⟨_, hset, hrest⟩ := Exec.bind_eq_ok_iff.mp hrun
  obtain ⟨_, hencrypt, hpair⟩ := Exec.bind_eq_ok_iff.mp hrest
  cases hpair
  exact ⟨backup, encrypted, hset, hencrypt, of_decide_eq_true htest⟩

end Sample

/-! ## The round trip of typed payloads -/

section TypedPayloads

variable [Target] [Base64] [Miniscript] [SerdeJson] [Serde DescriptorBackup] [Serde PolicySet]
  [Serde PolicyBackup] [V0] {crypto : Crypto} {entropy : Entropy ρ}

/-- The round trip. Typed payloads set on any builder, with keys set by hand before or
after them if there are any, are read back in their order by every key list with a
recipient in it. -/
theorem readBack_setPayloads_typed {payloads : List TypedPayload}
    {start pooled backup : EncryptedBackup} {encrypted : Encrypted} {keys : List PublicKey}
    (hreadable : ∀ payload ∈ payloads, payload.Readable)
    (hset : start.setPayloads (payloads.map TypedPayload.toPayload) = .ok pooled)
    (hbackup : backup = pooled ∨ ∃ byHand, backup = pooled.setKeys byHand)
    (hencrypt : backup.encrypt crypto entropy = .ok encrypted)
    (hfits : encrypted.bytes.length ≤ isizeMax)
    (hideal : backup.IdealSealing crypto entropy)
    (hkeys : ∃ key ∈ keys, backup.IsRecipient key) :
    EncryptedBackup.readBack crypto encrypted.bytes keys =
      .ok (payloads.map TypedPayload.decrypted) := by
  obtain ⟨-, parts, hparts, rfl⟩ := EncryptedBackup.setPayloads_eq_ok_iff.mp hset
  have hpayload : backup.payload = .encryptMany (parts.map (·.item)) := by
    rcases hbackup with rfl | ⟨byHand, rfl⟩
    · rfl
    · rfl
  rw [EncryptedBackup.readBack_eq (.many _ hpayload) hencrypt hfits hideal hkeys]
  exact TypedPayload.extract_items hreadable hparts

end TypedPayloads

open Sample in
/-- The round trip of a payload of each kind, for two keys set by hand. -/
theorem readBack_setPayloads_typed_sample :
    ∃ pooled encrypted,
      Sample.start.setPayloads (Sample.payloads.map TypedPayload.toPayload) = .ok pooled ∧
      (pooled.setKeys [byHand, root]).encrypt sampleCrypto (entropy 2) = .ok encrypted ∧
      EncryptedBackup.readBack sampleCrypto encrypted.bytes [stranger, root] =
        .ok (Sample.payloads.map TypedPayload.decrypted) := by
  obtain ⟨⟨pooled, encrypted⟩, hrun, htest⟩ := Exec.exists_eq_ok
    (do
      let pooled ← Sample.start.setPayloads (Sample.payloads.map TypedPayload.toPayload)
      let encrypted ← (pooled.setKeys [byHand, root]).encrypt sampleCrypto (entropy 2)
      .ok (pooled, encrypted))
    (fun (pooled, encrypted) =>
      encrypted.bytes.length ≤ isizeMax ∧ root ∈ (pooled.setKeys [byHand, root]).keys)
    (by decide +kernel)
  obtain ⟨_, hset, hrest⟩ := Exec.bind_eq_ok_iff.mp hrun
  obtain ⟨_, hencrypt, hpair⟩ := Exec.bind_eq_ok_iff.mp hrest
  cases hpair
  obtain ⟨hfits, hroot⟩ := of_decide_eq_true htest
  exact ⟨pooled, encrypted, hset, hencrypt, readBack_setPayloads_typed readable_of_mem_payloads hset
    (.inr ⟨_, rfl⟩) hencrypt hfits (idealSealing_entropy 2 _)
    ⟨root, by decide, hroot, by decide⟩⟩

/-! ## Descriptor documents -/

section DescriptorDocument

variable [Miniscript] [SerdeJson] [Serde DescriptorBackup] {document : DescriptorBackup}
  {backup : EncryptedBackup}

/-- A document set on a new builder is what the builder encrypts, for keys of the
document only. No step of it validates the document. -/
theorem setPayload_document
    (hset : EncryptedBackup.new.setPayload (.ofDescriptorBackup document) = .ok backup) :
    (∃ bytes, document.toJson = .ok bytes ∧ backup.Encrypts [(.bip380, bytes)]) ∧
      ∀ key ∈ backup.keys, key ∈ document.keys := by
  obtain ⟨part, hpart, rfl⟩ := EncryptedBackup.setPayload_eq_ok_iff.mp hset
  obtain ⟨bytes, hbytes, hitem⟩ := hpart.item
  refine ⟨⟨bytes, hbytes, ?_⟩, fun key hkey => ?_⟩
  · rw [hitem]
    exact .one bytes rfl fun hunknown => by cases hunknown
  · rw [EncryptedBackup.keys_dropExposedKeys] at hkey
    have hkeys : part.keys = document.keys := (Except.ok.inj hpart.keys).symm
    rw [← hkeys]
    simpa [EncryptedBackup.gather, EncryptedBackup.new] using List.mem_of_mem_filter hkey

variable [Target] [Base64] [Serde PolicySet] [Serde PolicyBackup] [V0] {crypto : Crypto}
  {entropy : Entropy ρ} {encrypted : Encrypted}

/-- The keys of an encrypted document read back what `validate` makes of it. -/
theorem readBack_setPayload_document
    (hset : EncryptedBackup.new.setPayload (.ofDescriptorBackup document) = .ok backup)
    (hencrypt : backup.encrypt crypto entropy = .ok encrypted)
    (hfits : encrypted.bytes.length ≤ isizeMax) (hideal : backup.IdealSealing crypto entropy)
    (hserde : SerdeJson.RoundTrip document [] []) (htext : document.NotDescriptor)
    {key : PublicKey} (hkey : key ∈ backup.keys) :
    EncryptedBackup.readBack crypto encrypted.bytes [key] =
      (do document.validate; .ok [.descriptorBackup document]) := by
  obtain ⟨⟨bytes, hbytes, hitems⟩, hkeys⟩ := setPayload_document hset
  obtain ⟨-, -, -, -, -, hnums⟩ := DescriptorBackup.mem_keys.mp (hkeys key hkey)
  rw [EncryptedBackup.readBack_eq hitems hencrypt hfits hideal
    ⟨key, List.mem_singleton_self key, hkey, hnums⟩]
  show [extractBip380 bytes].mapM id = _
  rw [extractBip380_toJson hserde htext hbytes]
  rcases document.validate with fault | ⟨⟩
  · rfl
  · rfl

/-- A document that was encrypted is read back exactly when it has the version of the
format and pairs no multipath descriptor with a change descriptor. -/
theorem readBack_setPayload_document_iff
    (hset : EncryptedBackup.new.setPayload (.ofDescriptorBackup document) = .ok backup)
    (hencrypt : backup.encrypt crypto entropy = .ok encrypted)
    (hfits : encrypted.bytes.length ≤ isizeMax) (hideal : backup.IdealSealing crypto entropy)
    (hserde : SerdeJson.RoundTrip document [] []) (htext : document.NotDescriptor)
    {key : PublicKey} (hkey : key ∈ backup.keys) :
    EncryptedBackup.readBack crypto encrypted.bytes [key] = .ok [.descriptorBackup document] ↔
      document.version = documentVersion ∧ ∀ set ∈ document.descriptorSets,
        ¬ (isMultipath set.descriptor = true ∧ set.changeDescriptor.isSome = true) := by
  -- a document without sets has no keys, and without keys nothing is encrypted
  have hsets : document.descriptorSets ≠ [] := by
    intro hempty
    obtain ⟨descriptor, hdescriptor, -⟩ :=
      DescriptorBackup.mem_keys.mp ((setPayload_document hset).2 key hkey)
    rw [DescriptorBackup.descriptors, hempty] at hdescriptor
    exact absurd hdescriptor List.not_mem_nil
  have hvalidate : document.validate = .ok () ↔
      document.version = documentVersion ∧ ∀ set ∈ document.descriptorSets,
        ¬ (isMultipath set.descriptor = true ∧ set.changeDescriptor.isSome = true) := by
    rw [DescriptorBackup.validate_eq_ok_iff, and_iff_right hsets]
  rw [readBack_setPayload_document hset hencrypt hfits hideal hserde htext hkey, ← hvalidate,
    Exec.bind_eq_ok_iff]
  exact ⟨fun ⟨_, hvalid, _⟩ => hvalid, fun hvalid => ⟨_, hvalid, rfl⟩⟩

end DescriptorDocument

open Sample in
/-- A document of the version of the format is read back. -/
theorem readBack_setPayload_document_iff_sample :
    ∃ backup encrypted,
      EncryptedBackup.new.setPayload (.ofDescriptorBackup (document 1)) = .ok backup ∧
      backup.encrypt sampleCrypto (entropy 1) = .ok encrypted ∧
      EncryptedBackup.readBack sampleCrypto encrypted.bytes [root] =
        .ok [.descriptorBackup (document 1)] := by
  obtain ⟨backup, encrypted, hset, hencrypt, hfits, hroot⟩ := encrypt_document (.inl rfl)
  refine ⟨backup, encrypted, hset, hencrypt, (readBack_setPayload_document_iff hset hencrypt hfits
    (idealSealing_entropy 1 backup) (roundTrip_document (.inl rfl))
    (notDescriptor_document (.inl rfl)) hroot).mpr ⟨rfl, ?_⟩⟩
  rintro set hmem ⟨-, hchange⟩
  obtain rfl := List.mem_singleton.mp hmem
  cases hchange

open Sample in
/-- A document whose version is not that of the format is encrypted, under working
parts, and its key does not read it back. -/
theorem readBack_setPayload_document_ne :
    SerdeJson.RoundTrip (document 2) [] [] ∧ (document 2).NotDescriptor ∧
      (∀ backup : EncryptedBackup, backup.IdealSealing sampleCrypto (entropy 1)) ∧
      ∃ backup encrypted,
        EncryptedBackup.new.setPayload (.ofDescriptorBackup (document 2)) = .ok backup ∧
        backup.encrypt sampleCrypto (entropy 1) = .ok encrypted ∧
        encrypted.bytes.length ≤ isizeMax ∧ root ∈ backup.keys ∧
        EncryptedBackup.readBack sampleCrypto encrypted.bytes [root] ≠
          .ok [.descriptorBackup (document 2)] := by
  obtain ⟨backup, encrypted, hset, hencrypt, hfits, hroot⟩ := encrypt_document (.inr rfl)
  have hread := readBack_setPayload_document hset hencrypt hfits (idealSealing_entropy 1 backup)
    (roundTrip_document (.inr rfl)) (notDescriptor_document (.inr rfl)) hroot
  refine ⟨roundTrip_document (.inr rfl), notDescriptor_document (.inr rfl),
    idealSealing_entropy 1, backup, encrypted, hset, hencrypt, hfits, hroot, ?_⟩
  rw [hread]
  exact Exec.fail_ne_ok _ _

end Bip138
