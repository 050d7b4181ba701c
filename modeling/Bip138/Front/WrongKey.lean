/-
# Which error a refused backup gets

`decrypt_with` tries its keys in a loop that keeps nothing of a key that fails. The
core tells a key that opens nothing from a payload that does not decode; the loop does
not, and reports both as the wrong key. Its error is the right one exactly when no
listed key opens the cyphertext or some listed key opens it to a payload that decodes
(`tellsErrors_decryptWith_iff`).
-/

import Bip138.Front.ReadBack

namespace Bip138

open Bip138.Rust Bip138.Ll

section Extract

variable [Miniscript] [SerdeJson] [Serde DescriptorBackup] [Serde PolicySet]
  [Serde PolicyBackup] {P : Type}

omit [Serde PolicySet] [Serde PolicyBackup] in
theorem parseDescriptorBackup_ne_wrongKey (bytes : Bytes) :
    parseDescriptorBackup bytes ≠ .fail .wrongKey := by
  apply Exec.bind_ne_fail (Exec.okOr_ne_fail (by simp))
  intro text
  split
  · simp
  · apply Exec.bind_ne_fail (Exec.okOr_ne_fail (by simp))
    intro backup
    apply Exec.bind_ne_fail
    · rw [DescriptorBackup.validate]
      split
      · simp
      · apply Exec.forM_ne_fail
        intro set
        rw [DescriptorBackup.validateSet]
        split
        · simp
        · exact (Exec.fail_ne_ok _ ()).symm
    · exact fun _ => (Exec.fail_ne_ok _ backup).symm

omit [Serde DescriptorBackup] in
theorem parsePolicyBackup_ne_wrongKey (bytes : Bytes) :
    parsePolicyBackup bytes ≠ .fail .wrongKey := by
  apply Exec.bind_ne_fail (Exec.okOr_ne_fail (by simp))
  intro text
  split
  · simp
  · apply Exec.bind_ne_fail (Exec.okOr_ne_fail (by simp))
    intro value
    apply Exec.bind_ne_fail (Exec.okOr_ne_fail (by simp))
    intro object
    apply Exec.bind_ne_fail
    · rw [policyBackupFromObject]
      split
      · exact Exec.okOr_ne_fail (by simp)
      · split
        · apply Exec.bind_ne_fail (Exec.okOr_ne_fail (by simp))
          exact fun set => (Exec.fail_ne_ok _ _).symm
        · simp
    · intro backup
      apply Exec.bind_ne_fail
      · rw [PolicyBackup.validate]
        split
        · simp
        · apply Exec.forM_ne_fail
          intro set
          rw [PolicyBackup.validateSet]
          split
          · simp
          · split
            · simp
            · apply Exec.bind_ne_fail (Exec.mapErr_const_ne_fail (by simp))
              exact fun _ => (Exec.fail_ne_ok _ ()).symm
      · exact fun _ => (Exec.fail_ne_ok _ backup).symm

/-- No item is refused with the error for a wrong key, unless a vendor parser uses it. -/
theorem extract_ne_wrongKey [Proprietary P]
    (hvendor : ∀ tag bytes, Proprietary.parse (P := P) tag bytes ≠ some (.fail .wrongKey))
    (content : Content) (bytes : Bytes) :
    extract (P := P) content bytes ≠ some (.fail .wrongKey) := by
  intro hextract
  cases content with
  | none | unknown | bip138 | bip139 | bip329 | bip => cases hextract
  | string =>
      refine absurd (Option.some.inj hextract) ?_
      apply Exec.bind_ne_fail (Exec.okOr_ne_fail (by simp))
      exact fun text => (Exec.fail_ne_ok _ _).symm
  | bip380 =>
      refine absurd (Option.some.inj hextract) ?_
      apply Exec.bind_ne_fail (Exec.okOr_ne_fail (by simp))
      intro text
      split
      · exact (Exec.fail_ne_ok _ _).symm
      · apply Exec.bind_ne_fail (parseDescriptorBackup_ne_wrongKey _)
        exact fun backup => (Exec.fail_ne_ok _ _).symm
  | bip388 =>
      refine absurd (Option.some.inj hextract) ?_
      apply Exec.bind_ne_fail (parsePolicyBackup_ne_wrongKey _)
      exact fun backup => (Exec.fail_ne_ok _ _).symm
  | proprietary tag =>
      obtain ⟨parsed, hparse, hparsed⟩ := Option.map_eq_some_iff.mp hextract
      refine absurd hparsed (Exec.bind_ne_fail ?_ fun value => (Exec.fail_ne_ok _ _).symm)
      exact fun hwrong => hvendor tag bytes (hwrong ▸ hparse)

end Extract

section Loop

variable [Target] {crypto : Crypto} {cyphertext : Bytes} {secrets : List (Block 32)}
  {nonce : Block 12} {keys : List PublicKey}

namespace EncryptedBackup

/-- The loop over the keys ends with the items of a listed key that decrypts, or with
the error for a wrong key when none does. -/
theorem decryptItems_cases
    (hreturns : ∀ key ∈ keys,
      (decryptChacha20Poly1305V1 crypto (xonly key) secrets cyphertext nonce).Returns) :
    (∃ key ∈ keys, ∃ items,
        decryptChacha20Poly1305V1 crypto (xonly key) secrets cyphertext nonce = .ok items ∧
        decryptItems crypto cyphertext secrets nonce keys = .ok items) ∨
      (∀ key ∈ keys, ∀ items,
        decryptChacha20Poly1305V1 crypto (xonly key) secrets cyphertext nonce ≠ .ok items) ∧
        decryptItems crypto cyphertext secrets nonce keys = .fail .wrongKey := by
  induction keys with
  | nil => exact .inr ⟨fun _ hkey => absurd hkey List.not_mem_nil, rfl⟩
  | cons key keys ih =>
      obtain ⟨hfirst, hrest⟩ := List.forall_mem_cons.mp hreturns
      rw [decryptItems]
      rcases hfirst with ⟨items, hok⟩ | ⟨cause, hfail⟩
      · left
        exact ⟨key, List.mem_cons_self, items, hok, by rw [hok]⟩
      · rw [hfail]
        rcases ih hrest with ⟨other, hother, items, hok, hloop⟩ | ⟨hnone, hloop⟩
        · left
          exact ⟨other, List.mem_cons_of_mem key hother, items, hok, hloop⟩
        · right
          refine ⟨List.forall_mem_cons.mpr ⟨fun items hok => ?_, hnone⟩, hloop⟩
          rw [hfail] at hok
          exact Exec.fail_ne_ok cause items hok

section DecryptWith

variable [Miniscript] [SerdeJson] [Serde DescriptorBackup] [Serde PolicySet]
  [Serde PolicyBackup] [V0] {P : Type} [Proprietary P]

/-- A container of the implemented encryption is decrypted by its keys, if there are
any, and its items are extracted. -/
theorem decryptWith_eq {backup : EncryptedBackup}
    (hpayload : backup.payload = .decryptV1 cyphertext secrets nonce)
    (hversion : backup.version = .v1) (hencryption : backup.encryption = .chaCha20Poly1305)
    (hkeys : backup.keys ≠ []) :
    backup.decryptWith (P := P) crypto = (do
      let items ← decryptItems crypto cyphertext secrets nonce backup.keys
      (items.filterMap fun (content, bytes) => extract content bytes).mapM id) := by
  rw [decryptWith, if_neg hkeys, hpayload, hversion]
  dsimp only
  rw [if_neg (not_not.mpr hencryption)]

/-- Decryption with a builder gets as far as extracting these items: it holds a container
of the implemented version and encryption, and some key of its own decrypts it to
them. -/
def ReachesExtraction (crypto : Crypto) (backup : EncryptedBackup)
    (items : List (Content × Bytes)) : Prop :=
  ∃ cyphertext secrets nonce, backup.payload = .decryptV1 cyphertext secrets nonce ∧
    backup.version = .v1 ∧ backup.encryption = .chaCha20Poly1305 ∧ backup.keys ≠ [] ∧
    decryptItems crypto cyphertext secrets nonce backup.keys = .ok items

omit [Miniscript] [SerdeJson] [Serde DescriptorBackup] [Serde PolicySet] [Serde PolicyBackup]
  [V0] in
theorem ReachesExtraction.unique {backup : EncryptedBackup} {first second : List (Content × Bytes)}
    (hfirst : backup.ReachesExtraction crypto first)
    (hsecond : backup.ReachesExtraction crypto second) : first = second := by
  obtain ⟨_, _, _, hpayload, -, -, -, hitems⟩ := hfirst
  obtain ⟨_, _, _, hpayload', -, -, -, hitems'⟩ := hsecond
  rw [hpayload] at hpayload'
  cases hpayload'
  rw [hitems] at hitems'
  exact Except.ok.inj hitems'

/-- What is decrypted is what is extracted of the items, and nothing is decrypted of a
container unless some items are extracted. -/
theorem decryptWith_eq_ok_iff {backup : EncryptedBackup}
    (hpayload : backup.payload = .decryptV1 cyphertext secrets nonce)
    {result : List (Decrypted P)} :
    backup.decryptWith crypto = .ok result ↔
      ∃ items, backup.ReachesExtraction crypto items ∧
        (items.filterMap fun (content, bytes) => extract content bytes).mapM id = .ok result := by
  refine ⟨fun hdecrypt => ?_, fun hextract => ?_⟩
  · rw [decryptWith, hpayload] at hdecrypt
    obtain ⟨hkeys, hdecrypt⟩ := Exec.guard_eq_ok_iff.mp hdecrypt
    rcases hversion : backup.version with _ | _ | _
    · rw [hversion] at hdecrypt
      cases hdecrypt
    · rw [hversion] at hdecrypt
      obtain ⟨hencryption, hdecrypt⟩ := Exec.guard_eq_ok_iff.mp hdecrypt
      obtain ⟨items, hitems, hresult⟩ := Exec.bind_eq_ok_iff.mp hdecrypt
      exact ⟨items, ⟨_, _, _, hpayload, hversion, not_not.mp hencryption, hkeys, hitems⟩, hresult⟩
    · rw [hversion] at hdecrypt
      cases hdecrypt
  · obtain ⟨items, ⟨_, _, _, hcontainer, hversion, hencryption, hkeys, hitems⟩, hresult⟩ := hextract
    rw [decryptWith_eq hcontainer hversion hencryption hkeys, hitems, Exec.ok_bind]
    exact hresult

end DecryptWith

end EncryptedBackup

end Loop

section Told

variable [Target] {crypto : Crypto} {cyphertext : Bytes} {secrets : List (Block 32)}
  {nonce : Block 12} {keys : List PublicKey}

/-- A result tells why nothing was decrypted. The error for a wrong key is returned only
if no listed key opens the cyphertext; and if some listed key opens it, but none to a
payload that decodes, the error is that of the decoder. -/
structure TellsErrors [Miniscript] {P : Type} (crypto : Crypto) (cyphertext : Bytes)
    (secrets : List (Block 32)) (nonce : Block 12) (keys : List PublicKey)
    (result : Exec Error (List (Decrypted P))) : Prop where
  wrongKey : result = .fail .wrongKey → ∀ key ∈ keys, ∀ ci ∈ secrets,
    crypto.aeadDecrypt (Block.xor (individualHash crypto (xonly key)) ci) nonce cyphertext = none
  refused : (∃ key ∈ keys, recovered crypto (xonly key) secrets cyphertext nonce ≠ none) →
    (∀ key ∈ keys, ∀ out items, recovered crypto (xonly key) secrets cyphertext nonce = some out →
      decodePlaintext out ≠ .ok items) →
    ∃ key ∈ keys, ∃ out cause, recovered crypto (xonly key) secrets cyphertext nonce = some out ∧
      decodePlaintext out = .fail cause ∧ result = .fail (.ll cause)

/-- A key decrypts when what it recovers decodes. -/
theorem decryptChacha20Poly1305V1_eq_ok_iff {key : Block 32} {items : List (Content × Bytes)} :
    decryptChacha20Poly1305V1 crypto key secrets cyphertext nonce = .ok items ↔
      ∃ out, recovered crypto key secrets cyphertext nonce = some out ∧
        decodePlaintext out = .ok items := by
  rw [decryptChacha20Poly1305V1_eq_recovered]
  rcases recovered crypto key secrets cyphertext nonce with _ | out
  · simp
  · simp

variable [Base64] [Miniscript] [SerdeJson] [Serde DescriptorBackup] [Serde PolicySet]
  [Serde PolicyBackup] [V0] {P : Type} [Proprietary P] {bytes : Bytes} {loaded : EncryptedBackup}

/-- The errors are told apart exactly when no listed key opens the cyphertext, or some
listed key opens it to a payload that decodes. -/
theorem tellsErrors_decryptWith_iff
    (hvendor : ∀ tag bytes, Proprietary.parse (P := P) tag bytes ≠ some (.fail .wrongKey))
    (hload : EncryptedBackup.new.setEncryptedPayload bytes = .ok loaded)
    (hpayload : loaded.payload = .decryptV1 cyphertext secrets nonce)
    (hencryption : loaded.encryption = .chaCha20Poly1305)
    (hfits : ∀ secret out, crypto.aeadDecrypt secret nonce cyphertext = some out →
      out.length ≤ isizeMax) :
    TellsErrors crypto cyphertext secrets nonce keys
        ((loaded.setKeys keys).decryptWith (P := P) crypto) ↔
      (∀ key ∈ keys, recovered crypto (xonly key) secrets cyphertext nonce = none) ∨
        ∃ key ∈ keys, ∃ out items,
          recovered crypto (xonly key) secrets cyphertext nonce = some out ∧
            decodePlaintext out = .ok items := by
  have hframe : loaded.version = .v1 ∧ loaded.exposedKeys = [] := by
    obtain ⟨_, _, _, rfl⟩ := EncryptedBackup.exists_of_setEncryptedPayload hload
    exact ⟨rfl, rfl⟩
  obtain ⟨hversion, hexposed⟩ := hframe
  rw [EncryptedBackup.setKeys_of_exposedKeys_eq_nil hexposed]
  by_cases hempty : keys = []
  · subst hempty
    refine iff_of_true ⟨fun _ key hkey => ?_, fun hopened => ?_⟩ (.inl fun key hkey => ?_)
    · exact absurd hkey List.not_mem_nil
    · obtain ⟨key, hkey, -⟩ := hopened
      exact absurd hkey List.not_mem_nil
    · exact absurd hkey List.not_mem_nil
  have hloaded : ({ loaded with keys } : EncryptedBackup).payload =
      .decryptV1 cyphertext secrets nonce := hpayload
  have hreturns : ∀ key ∈ keys,
      (decryptChacha20Poly1305V1 crypto (xonly key) secrets cyphertext nonce).Returns :=
    fun key _ => returns_decryptChacha20Poly1305V1 hfits (xonly key) secrets
  rw [EncryptedBackup.decryptWith_eq hloaded hversion hencryption hempty]
  rcases EncryptedBackup.decryptItems_cases hreturns with
    ⟨key, hkey, items, hok, hloop⟩ | ⟨hnone, hloop⟩
  · -- some listed key decrypts: neither error is at issue
    obtain ⟨out, hout, hdecode⟩ := decryptChacha20Poly1305V1_eq_ok_iff.mp hok
    refine iff_of_true ⟨fun hwrong => ?_, fun _ hrefused => ?_⟩ (.inr ⟨key, hkey, out, items, hout,
      hdecode⟩)
    · rw [hloop, Exec.ok_bind] at hwrong
      obtain ⟨call, hcall, hfail⟩ := Exec.exists_mem_of_mapM_eq_fail hwrong
      obtain ⟨⟨content, bytes⟩, -, hextract⟩ := List.mem_filterMap.mp hcall
      rw [id_eq] at hfail
      exact absurd (hextract.trans (congrArg some hfail)) (extract_ne_wrongKey hvendor content bytes)
    · exact absurd hdecode (hrefused key hkey out items hout)
  · -- the loop ends with the error for a wrong key, whatever the reason
    rw [hloop, Exec.fail_bind]
    refine ⟨fun htells => .inl fun key hkey => ?_, fun hcondition => ?_⟩
    · exact recovered_eq_none_iff.mpr (htells.wrongKey rfl key hkey)
    · rcases hcondition with hclosed | ⟨key, hkey, out, items, hout, hdecode⟩
      · refine ⟨fun _ key hkey => recovered_eq_none_iff.mp (hclosed key hkey), fun hopened => ?_⟩
        obtain ⟨key, hkey, hopens⟩ := hopened
        exact absurd (hclosed key hkey) hopens
      · exact absurd (decryptChacha20Poly1305V1_eq_ok_iff.mpr ⟨out, hout, hdecode⟩)
          (hnone key hkey items)

end Told

namespace Sample

/-- One item whose type is reserved for later versions, which this one has to refuse. -/
def laterPayload : Bytes := [0x80, 0x00, 0x01, 0x00]

/-- Who holds the key of the samples. -/
def holder : PublicKey := ⟨false, sampleKey⟩

theorem decodePlaintext_laterPayload : decodePlaintext laterPayload = .fail .contentMetadata := by
  decide +kernel

/-- The payload is sealed for the holder, and loads. -/
theorem load_laterPayload :
    ∃ bytes loaded cyphertext secrets,
      encodeV1Backup sampleCrypto [] true [sampleKey] laterPayload sampleNonce
        (padIndividualSecretsWithDecoys sampleDecoys) = .ok bytes ∧
      EncryptedBackup.new.setEncryptedPayload bytes = .ok loaded ∧
      loaded.payload = .decryptV1 cyphertext secrets sampleNonce ∧
      loaded.encryption = .chaCha20Poly1305 ∧ cyphertext.length ≤ isizeMax ∧
      recovered sampleCrypto (xonly holder) secrets cyphertext sampleNonce = some laterPayload := by
  obtain ⟨bytes, hbackup, hfits⟩ := Exec.exists_eq_ok
    (encodeV1Backup sampleCrypto [] true [sampleKey] laterPayload sampleNonce
      (padIndividualSecretsWithDecoys sampleDecoys))
    (fun bytes => bytes.length ≤ isizeMax) (by decide +kernel)
  rw [decide_eq_true_eq] at hfits
  obtain ⟨padded, cyphertext, hpad, hcipher, hlength, hdecode⟩ :=
    decodeV1_encodeV1Backup hbackup hfits
  refine ⟨bytes, _, cyphertext, _, hbackup,
    EncryptedBackup.setEncryptedPayload_eq_ok EncryptedBackup.new hdecode, rfl, rfl,
    hlength.trans hfits, ?_⟩
  rw [recovered_eq (sampleCrypto_idealSealing_backupSecret _ _ _) hcipher, if_pos]
  obtain ⟨-, -, -, -, rfl⟩ := padIndividualSecretsWithDecoys_eq_ok_iff.mp hpad
  rw [BTreeSet.mem_toList, BTreeSet.mem_collect]
  apply List.mem_append_left
  exact share_mem_of_mem_rawKeys (mem_rawKeys.mpr ⟨List.mem_singleton_self _, by decide⟩) _

theorem length_le_of_aeadDecrypt {secret : Block 32} {nonce : Block 12} {cyphertext out : Bytes}
    (hopens : sampleCrypto.aeadDecrypt secret nonce cyphertext = some out) :
    out.length ≤ cyphertext.length := by
  simp only [sampleCrypto, Option.ite_none_right_eq_some, Option.some.injEq] at hopens
  rw [← hopens.2]
  exact List.length_take_le' _ _

end Sample

open Sample in
/-- The exact condition for the payload of a later version. -/
theorem tellsErrors_decryptWith_iff_later :
    ∃ bytes loaded cyphertext secrets,
      EncryptedBackup.new.setEncryptedPayload bytes = .ok loaded ∧
      (TellsErrors sampleCrypto cyphertext secrets sampleNonce [holder]
          ((loaded.setKeys [holder]).decryptWith (P := NoProprietary) sampleCrypto) ↔
        (∀ key ∈ [holder],
          recovered sampleCrypto (xonly key) secrets cyphertext sampleNonce = none) ∨
          ∃ key ∈ [holder], ∃ out items,
            recovered sampleCrypto (xonly key) secrets cyphertext sampleNonce = some out ∧
              decodePlaintext out = .ok items) := by
  obtain ⟨bytes, loaded, cyphertext, secrets, -, hload, hpayload, hencryption, hlength, -⟩ :=
    load_laterPayload
  refine ⟨bytes, loaded, cyphertext, secrets, hload, tellsErrors_decryptWith_iff
    (fun _ _ hparse => ?_) hload hpayload hencryption fun secret out hopens => ?_⟩
  · cases hparse
  · exact (length_le_of_aeadDecrypt hopens).trans hlength

open Sample in
/-- The holder opens the container of a payload of a later version, which the decoder
refuses, and the error is the one for a wrong key. -/
theorem decryptWith_laterPayload :
    ∃ bytes loaded cyphertext secrets,
      EncryptedBackup.new.setEncryptedPayload bytes = .ok loaded ∧
      loaded.payload = .decryptV1 cyphertext secrets sampleNonce ∧
      loaded.encryption = .chaCha20Poly1305 ∧
      recovered sampleCrypto (xonly holder) secrets cyphertext sampleNonce = some laterPayload ∧
      decodePlaintext laterPayload = .fail .contentMetadata ∧
      (loaded.setKeys [holder]).decryptWith (P := NoProprietary) sampleCrypto = .fail .wrongKey ∧
      ¬ TellsErrors sampleCrypto cyphertext secrets sampleNonce [holder]
        ((loaded.setKeys [holder]).decryptWith (P := NoProprietary) sampleCrypto) := by
  obtain ⟨bytes, loaded, cyphertext, secrets, -, hload, hpayload, hencryption, -, hrecovered⟩ :=
    load_laterPayload
  have hresult : (loaded.setKeys [holder]).decryptWith (P := NoProprietary) sampleCrypto =
      .fail .wrongKey := by
    have hframe : loaded.version = .v1 ∧ loaded.exposedKeys = [] := by
      obtain ⟨_, _, _, rfl⟩ := EncryptedBackup.exists_of_setEncryptedPayload hload
      exact ⟨rfl, rfl⟩
    obtain ⟨hversion, hexposed⟩ := hframe
    have hloaded : ({ loaded with keys := [holder] } : EncryptedBackup).payload =
        .decryptV1 cyphertext secrets sampleNonce := hpayload
    rw [EncryptedBackup.setKeys_of_exposedKeys_eq_nil hexposed,
      EncryptedBackup.decryptWith_eq hloaded hversion hencryption (List.cons_ne_nil _ _)]
    dsimp only
    rw [EncryptedBackup.decryptItems, decryptChacha20Poly1305V1_eq_recovered, hrecovered]
    dsimp only
    rw [decodePlaintext_laterPayload]
    rfl
  refine ⟨bytes, loaded, cyphertext, secrets, hload, hpayload, hencryption, hrecovered,
    decodePlaintext_laterPayload, hresult, fun htells => ?_⟩
  have hclosed := recovered_eq_none_iff.mpr (htells.wrongKey hresult holder List.mem_cons_self)
  rw [hrecovered] at hclosed
  cases hclosed

end Bip138
