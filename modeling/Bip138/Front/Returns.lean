/-
# The way in comes back

Whoever opens a backup reads bytes that someone else wrote: the container is parsed, the
cyphertext may open to anything, and each item goes to the parser of its type. None of it
panics, whatever the bytes (`opening_returns`).

The one place where a panic takes more than a check to rule out is the order of the
placeholders of a policy: the next index expected is counted in 32 bits, so a template must
not have more keys than that (`TemplatesFit`).
-/

import Bip138.Front.Metadata
import Bip138.Front.WrongKey
import Bip138.Ll.Returns
import Bip138.Ll.RustBitcoin

namespace Bip138

open Bip138.Rust Bip138.Ll

section Policy

variable [Miniscript]

/-- The keys of a template that is read are counted in 32 bits. -/
def TemplatesFit : Prop :=
  ∀ text template, Miniscript.descriptorFromStr Bip388Key.fromStr text = some template →
    (Miniscript.forEachKey template).length ≤ u32Max

/-- The next index expected is at most the number of placeholders that were visited. -/
theorem returns_checkKeyOrder {template : Miniscript.Descriptor Bip388Key}
    (hkeys : (Miniscript.forEachKey template).length ≤ u32Max) :
    (checkKeyOrder template).Returns := by
  refine (Exec.returns_foldlM (fun left (next : UInt32) => next.toNat + left ≤ u32Max) ?_ ?_).bind
    fun _ _ => Exec.returns_ok _
  · intro left next key hbound
    have hone : (1 : UInt32).toNat = 1 := rfl
    have hsum : addU32 next 1 = (.ok (next + 1) : Exec Error UInt32) := by
      rw [addU32, if_pos (by omega)]
    rw [checkKeyOrderStep, hsum]
    refine ⟨Exec.returns_ite (Exec.returns_ok _) (Exec.returns_ite (Exec.returns_ok _)
      (Exec.returns_fail _)), fun later hlater => ?_⟩
    split at hlater
    · rw [← Except.ok.inj hlater, addU32_eq_ok_iff.mp hsum, hone]
      omega
    · split at hlater
      · rw [← Except.ok.inj hlater]
        omega
      · exact absurd hlater (Exec.fail_ne_ok _ _)
  · simpa using hkeys

theorem returns_intoDescriptor {policy : WalletPolicy}
    (hkeys : (Miniscript.forEachKey policy.template).length ≤ u32Max) :
    policy.intoDescriptor.Returns := by
  refine (returns_checkKeyOrder hkeys).bind fun _ _ => ?_
  dsimp only
  split
  · exact Exec.returns_ok _
  · exact Exec.returns_fail _
  · exact Exec.returns_fail _

theorem returns_toDescriptor (htemplates : TemplatesFit) (set : PolicySet) :
    set.toDescriptor.Returns :=
  Exec.Returns.bind (Exec.returns_okOr _ _) fun _ htemplate =>
    returns_intoDescriptor (htemplates _ _ (Exec.okOr_eq_ok_iff.mp htemplate))

theorem returns_validate (htemplates : TemplatesFit) (backup : PolicyBackup) :
    backup.validate.Returns :=
  Exec.returns_ite (Exec.returns_fail _) (Exec.returns_forM (fun set =>
    Exec.returns_ite (Exec.returns_fail _) (Exec.returns_ite (Exec.returns_fail _)
      (((returns_toDescriptor htemplates set).mapErr _).bind fun _ _ => Exec.returns_ok _))) _)

variable [SerdeJson] [Serde DescriptorBackup] [Serde PolicySet] [Serde PolicyBackup]

omit [Serde DescriptorBackup] in
theorem returns_parsePolicyBackup (htemplates : TemplatesFit) (bytes : Bytes) :
    (parsePolicyBackup bytes).Returns := by
  refine (Exec.returns_okOr _ _).bind fun text _ => ?_
  refine Exec.returns_ite (Exec.returns_fail _) ?_
  refine (Exec.returns_okOr _ _).bind fun value _ => (Exec.returns_okOr _ _).bind fun object _ => ?_
  refine Exec.Returns.bind ?_ fun backup _ =>
    (returns_validate htemplates backup).bind fun _ _ => Exec.returns_ok _
  refine Exec.returns_ite (Exec.returns_okOr _ _) (Exec.returns_ite ?_ (Exec.returns_fail _))
  exact (Exec.returns_okOr _ _).bind fun _ _ => Exec.returns_ok _

omit [Serde PolicySet] [Serde PolicyBackup] in
theorem returns_parseDescriptorBackup (bytes : Bytes) : (parseDescriptorBackup bytes).Returns := by
  refine (Exec.returns_okOr _ _).bind fun text _ => ?_
  refine Exec.returns_ite (Exec.returns_fail _) ((Exec.returns_okOr _ _).bind fun backup _ => ?_)
  refine Exec.Returns.bind ?_ fun _ _ => Exec.returns_ok _
  exact Exec.returns_ite (Exec.returns_fail _) (Exec.returns_forM
    (fun set => Exec.returns_ite (Exec.returns_fail _) (Exec.returns_ok _)) _)

/-- Every item that has a parser is extracted or refused. -/
theorem returns_extract (htemplates : TemplatesFit) {P : Type} [Proprietary P]
    (hvendor : ∀ tag bytes parsed, Proprietary.parse (P := P) tag bytes = some parsed →
      parsed.Returns) {content : Content} {bytes : Bytes} {call : Exec Error (Decrypted P)}
    (hextract : extract content bytes = some call) : call.Returns := by
  cases content with
  | none | unknown | bip138 =>
      obtain rfl := Option.some.inj hextract
      exact Exec.returns_ok _
  | string =>
      obtain rfl := Option.some.inj hextract
      exact (Exec.returns_okOr _ _).bind fun _ _ => Exec.returns_ok _
  | bip380 =>
      obtain rfl := Option.some.inj hextract
      refine (Exec.returns_okOr _ _).bind fun text _ => ?_
      split
      · exact Exec.returns_ok _
      · exact (returns_parseDescriptorBackup _).bind fun _ _ => Exec.returns_ok _
  | bip388 =>
      obtain rfl := Option.some.inj hextract
      exact (returns_parsePolicyBackup htemplates _).bind fun _ _ => Exec.returns_ok _
  | bip139 | bip329 | bip => cases hextract
  | proprietary tag =>
      obtain ⟨parsed, hparse, rfl⟩ := Option.map_eq_some_iff.mp hextract
      exact (hvendor tag bytes parsed hparse).bind fun _ _ => Exec.returns_ok _

end Policy

section Open

variable [Target] {bytes : Bytes}

section Text

variable [Base64]

/-- What is decoded of base64 is in memory, as its text is. -/
theorem length_decoded_le (hbase64 : EncryptedMetadata.Base64Shrinks)
    (hfits : bytes.length ≤ isizeMax) {text : String} {decoded : Bytes}
    (htext : fromUtf8 bytes = some text)
    (hdecoded : Base64.decode (trim text) = some decoded) : decoded.length ≤ isizeMax := by
  rw [fromUtf8_eq_some_iff.mp htext] at hfits
  exact ((hbase64 _ _ hdecoded).trans (length_asBytes_trim_le text)).trans hfits

end Text

section Decryption

variable [Miniscript] [SerdeJson] [Serde DescriptorBackup] [Serde PolicySet]
  [Serde PolicyBackup] [V0] {P : Type} [Proprietary P] {crypto : Crypto}

/-- What a cipher yields fits into memory when its input does. -/
def OpensInMemory (crypto : Crypto) : Prop :=
  ∀ secret nonce cyphertext out, cyphertext.length ≤ isizeMax →
    crypto.aeadDecrypt secret nonce cyphertext = some out → out.length ≤ isizeMax

omit [Miniscript] [SerdeJson] [Serde DescriptorBackup] [Serde PolicySet] [Serde PolicyBackup]
  [V0] in
/-- The bundled provider opens to fewer bytes than it is given. -/
theorem opensInMemory_rustBitcoin {sha256 : Bytes → Block 32} {cipher : ChaCha20Poly1305}
    (hinverts : cipher.Inverts) : OpensInMemory (rustBitcoin sha256 cipher) := by
  intro secret nonce cyphertext out hfits hopens
  have hlength := length_of_rustBitcoin_aeadDecrypt hinverts hopens
  omega

omit [Target] [SerdeJson] [Serde DescriptorBackup] [Serde PolicySet] [Serde PolicyBackup]
  [Proprietary P] in
theorem returns_tryV0Decrypt (backup : EncryptedBackup) (raw : Bytes) :
    (backup.tryV0Decrypt (P := P) raw).Returns := by
  fun_cases EncryptedBackup.tryV0Decrypt (P := P) backup raw with
  | _ => first | exact Exec.returns_ok _ | exact Exec.returns_fail _

/-- The container that a backup was loaded from is in memory. -/
def EncryptedBackup.InMemory (backup : EncryptedBackup) : Prop :=
  ∀ cyphertext secrets nonce, backup.payload = .decryptV1 cyphertext secrets nonce →
    cyphertext.length ≤ isizeMax

omit [Miniscript] [SerdeJson] [Serde DescriptorBackup] [Serde PolicySet] [Serde PolicyBackup]
  [V0] [Proprietary P] in
theorem inMemory_of_setEncryptedPayloadBinary {backup loaded : EncryptedBackup}
    (hfits : bytes.length ≤ isizeMax)
    (hload : backup.setEncryptedPayloadBinary bytes = .ok loaded) : loaded.InMemory := by
  intro cyphertext secrets nonce hpayload
  rw [EncryptedBackup.setEncryptedPayloadBinary] at hload
  split at hload
  · cases hload
    cases hpayload
  · obtain ⟨version, -, hload⟩ := Exec.bind_eq_ok_iff.mp hload
    split at hload
    · obtain ⟨⟨paths, stored, encryption, nonce', cyphertext'⟩, hdecode, hload⟩ :=
        Exec.bind_eq_ok_iff.mp hload
      cases hload
      cases hpayload
      exact (length_le_of_decodeV1 hfits (Exec.mapErr_eq_ok_iff.mp hdecode)).trans hfits
    · exact absurd hload (Exec.fail_ne_ok _ _)

omit [Miniscript] [SerdeJson] [Serde DescriptorBackup] [Serde PolicySet] [Serde PolicyBackup]
  [V0] [Proprietary P] in
/-- Whatever is loaded from bytes in memory is in memory. -/
theorem inMemory_of_setEncryptedPayload [Base64] (hbase64 : EncryptedMetadata.Base64Shrinks)
    {backup loaded : EncryptedBackup} (hfits : bytes.length ≤ isizeMax)
    (hload : backup.setEncryptedPayload bytes = .ok loaded) : loaded.InMemory := by
  rw [EncryptedBackup.setEncryptedPayload] at hload
  split at hload
  · exact inMemory_of_setEncryptedPayloadBinary hfits hload
  · split at hload
    · cases hload
      exact fun _ _ _ hpayload => by cases hpayload
    · obtain ⟨text, htext, hload⟩ := Exec.bind_eq_ok_iff.mp hload
      obtain ⟨decoded, hdecoded, hload⟩ := Exec.bind_eq_ok_iff.mp hload
      rw [Exec.okOr_eq_ok_iff] at htext hdecoded
      exact inMemory_of_setEncryptedPayloadBinary (length_decoded_le hbase64 hfits htext hdecoded)
        hload

/-- Decryption comes back, whatever the cyphertext opens to and whoever wrote it. -/
theorem returns_decryptWith (htemplates : TemplatesFit) (hcrypto : OpensInMemory crypto)
    (hvendor : ∀ tag bytes parsed, Proprietary.parse (P := P) tag bytes = some parsed →
      parsed.Returns) {backup : EncryptedBackup} (hmemory : backup.InMemory) :
    (backup.decryptWith (P := P) crypto).Returns := by
  rw [EncryptedBackup.decryptWith]
  refine Exec.returns_ite (Exec.returns_fail _) ?_
  split
  · exact (returns_tryV0Decrypt backup _).bind fun _ _ => Exec.returns_ok _
  · rename_i cyphertext secrets nonce hpayload hversion
    refine Exec.returns_ite (Exec.returns_fail _) (Exec.Returns.bind ?_ fun items _ => ?_)
    · have hopens : ∀ secret out, crypto.aeadDecrypt secret nonce cyphertext = some out →
          out.length ≤ isizeMax :=
        fun secret out hopens => hcrypto secret nonce cyphertext out
          (hmemory cyphertext secrets nonce hpayload) hopens
      have hreturns : ∀ key ∈ backup.keys,
          (decryptChacha20Poly1305V1 crypto (xonly key) secrets cyphertext nonce).Returns :=
        fun key _ => returns_decryptChacha20Poly1305V1 hopens (xonly key) secrets
      rcases EncryptedBackup.decryptItems_cases hreturns with
        ⟨_, _, items, _, hloop⟩ | ⟨_, hloop⟩
      · exact .inl ⟨items, hloop⟩
      · exact .inr ⟨_, hloop⟩
    · refine Exec.returns_mapM fun call hcall => ?_
      obtain ⟨⟨content, bytes⟩, -, hextract⟩ := List.mem_filterMap.mp hcall
      exact returns_extract htemplates hvendor hextract
  · exact Exec.returns_fail _
  · exact Exec.returns_fail _
  · exact Exec.returns_fail _

end Decryption

end Open

/-- Without vendor content no parser of it is called. -/
theorem returns_parse_noProprietary (tag bytes : Bytes) (parsed : Exec Error NoProprietary)
    (hparse : Proprietary.parse tag bytes = some parsed) : parsed.Returns := by
  cases hparse

namespace Sample

theorem opensInMemory_sampleCrypto : OpensInMemory sampleCrypto :=
  fun _ _ _ _ hfits hopens => (length_le_of_aeadDecrypt hopens).trans hfits

theorem templatesFit_miniscript : TemplatesFit :=
  fun _ _ _ => show 1 ≤ u32Max by decide

end Sample

end Bip138
