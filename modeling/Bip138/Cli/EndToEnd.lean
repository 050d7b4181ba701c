/-
# From one command to the other

What `encrypt` writes for a descriptor on its own goes into `decrypt` with a key. The two
commands are joined here at the file between them: any one key either opens the file to the whole
document or is refused as wrong, and the keys the file was encrypted to open it (`Reopens`).

On this the build without devices prints the document, and so does the one with devices in every
interleaving of its threads, whatever a device grants or refuses, unless a device fails where it
has to yield a key (`decrypt_of_encryptCommand`).
-/

import Bip138.Cli.DeviceKey
import Bip138.Cli.Hearing
import Bip138.Cli.Decrypt

namespace Bip138.Cli

open Bip138.Rust Bip138.Ll

section Commands

variable {ρ : Type} [Target] [Base64] [Miniscript] [SerdeJson] [Serde DescriptorBackup]
  [Serde PolicySet] [Serde PolicyBackup] [V0] {crypto : Crypto}

section File

variable {rng : Rng ρ} {fuel : ℕ} {source : ℕ → ρ} {command : EncryptCommand}
  {descriptor : Descriptor} {pooled backup : EncryptedBackup} {encrypted : Encrypted}

/-- Tried one at a time, every key opens what was loaded to this document or is refused as
wrong, and the recipients of the backup open it. -/
structure Reopens (crypto : Crypto) (loaded backup : EncryptedBackup) (document : Bytes) :
    Prop where
  each : ∀ key, decryptDocument crypto (loaded.setKeys [key]) = .ok document ∨
    decryptDocument crypto (loaded.setKeys [key]) = .fail (.failedToDecrypt .wrongKey)
  recipients : ∀ key, backup.IsRecipient key →
    decryptDocument crypto (loaded.setKeys [key]) = .ok document

omit [Target] [Base64] [Miniscript] [SerdeJson] [Serde DescriptorBackup] [Serde PolicySet]
  [Serde PolicyBackup] [V0] in
/-- The key of a device does not change what is encrypted. -/
theorem encrypts_of_addDeviceKey
    {device : Option (List DerivationPath → Exec CliError (PublicKey × DerivationPath))}
    {items : List (Content × Bytes)} (hitems : pooled.Encrypts items)
    (hadded : addDeviceKey pooled device = .ok backup) : backup.Encrypts items := by
  cases device with
  | none =>
      obtain rfl := Except.ok.inj hadded
      exact hitems
  | some device =>
      obtain ⟨key, path, -, rfl⟩ := addDeviceKey_eq_ok_iff.mp hadded
      exact encrypts_withDevice hitems

omit [Base64] in
/-- A container that was loaded, with one key. -/
theorem decrypt_singleton (stored : List DerivationPath) (secrets : List (Block 32))
    (nonce : Block 12) (cyphertext : Bytes) (key : PublicKey) :
    ({ EncryptedBackup.new with
        derivationPaths := stored
        encryption := .ofU8 0x01
        payload := .decryptV1 cyphertext secrets nonce : EncryptedBackup }.setKeys [key]).decrypt
          crypto = (do
      let items ← EncryptedBackup.decryptItems crypto cyphertext secrets nonce [key]
      (items.filterMap fun (content, bytes) =>
        extract (P := NoProprietary) content bytes).mapM id) := by
  have hencryption : ¬ Encryption.ofU8 0x01 ≠ .chaCha20Poly1305 := not_not.mpr rfl
  rw [EncryptedBackup.decrypt, EncryptedBackup.decryptWith,
    EncryptedBackup.setKeys_of_exposedKeys_eq_nil rfl, if_neg (List.cons_ne_nil _ _)]
  dsimp only [EncryptedBackup.new]
  rw [if_neg hencryption]

/-- What the command writes without levels is loaded, and opens to what it was given. -/
theorem exists_reopens_of_encryptCommand (hlevels : command.wrapLevels = .ok [])
    (hdescriptor : Descriptor.fromStr (trim command.data) = some descriptor)
    (hparse : Descriptor.fromStr descriptor.toString = some descriptor)
    (hbackup : outermostBackup crypto rng fuel source command = .ok backup)
    (hwritten : encryptCommand crypto rng fuel source command = .ok encrypted)
    (hfits : encrypted.bytes.length ≤ isizeMax)
    (hideal : backup.IdealSealing crypto (.drawn fuel rng (source 0))) :
    ∃ loaded, EncryptedBackup.new.setEncryptedPayload encrypted.bytes = .ok loaded ∧
      Reopens crypto loaded backup (commandDocument command.msg descriptor) := by
  rw [encryptCommand_eq, hbackup, Exec.ok_bind, Exec.mapErr_eq_ok_iff] at hwritten
  obtain ⟨parsed, pooled, hparsed, hpooled, hadded⟩ := (outermostBackup_of_nil hlevels).mp hbackup
  obtain rfl := Option.some.inj (hdescriptor.symm.trans hparsed)
  obtain ⟨-, parts, hparts, hitems⟩ := exists_encrypts_of_descriptorBackup hpooled
  obtain ⟨call, hcall, hcore, -⟩ := EncryptedBackup.encrypt_eq_ok_iff.mp hwritten
  have hsealed := hideal call hcall
  obtain ⟨-, -, -, items, hencrypts, rfl⟩ := EncryptedBackup.coreCall_eq_ok_iff.mp hcall
  obtain rfl := (encrypts_of_addDeviceKey hitems hadded).unique hencrypts
  obtain ⟨stored, secrets, cyphertext, hdecode, htry, hopens⟩ :=
    Entropy.decrypt_encryptItems hfits hsealed hcore
  refine ⟨_, EncryptedBackup.setEncryptedPayload_eq_ok .new hdecode, ?_⟩
  have hextract := TypedPayload.extract_items (readable_commandContents hparse) hparts
  have hprints := decryptedToDocument_commandContents command.msg descriptor
  have hopened : ∀ key, decryptChacha20Poly1305V1 crypto (xonly key) secrets cyphertext
      (Entropy.drawn fuel rng (source 0)).nonce = .ok (normalizeItems (parts.map (·.item))) → _ :=
    fun key hkey => EncryptedBackup.decryptItems_eq_ok htry
      ⟨key, List.mem_singleton_self key, hkey⟩
  refine ⟨fun key => ?_, fun key hkey => ?_⟩
  · rcases htry (xonly key) with hopens | hrefused
    · left
      rw [decryptDocument, decrypt_singleton, hopened key hopens, Exec.ok_bind, hextract]
      exact hprints
    · right
      rw [decryptDocument, decrypt_singleton,
        EncryptedBackup.decryptItems_eq_wrongKey (List.forall_mem_singleton.mpr hrefused)]
      rfl
  · have hrecipient := hopens _ (mem_rawKeys.mpr ⟨List.mem_map_of_mem hkey.1, hkey.2⟩)
    rw [decryptDocument, decrypt_singleton, hopened key hrecipient, Exec.ok_bind, hextract]
    exact hprints

end File

section Threads

variable {collector : Collector} {loaded backup : EncryptedBackup} {document : Bytes}
  {key : DescriptorPublicKey} {root : PublicKey} {threads : Threads}

/-- The threads when the key of the file has been sent. -/
def keySent (root : PublicKey) : Threads :=
  { start none with keys := [root] }

omit [Target] [Base64] [Miniscript] [SerdeJson] [Serde DescriptorBackup] [Serde PolicySet]
  [Serde PolicyBackup] [V0] in
theorem start_of_root (hroot : dpkToRootPk key = .ok root) :
    start (some key) = { start none with main := .sendingKey root } := by
  dsimp only [start]
  rw [hroot]
  rfl

omit [Base64] in
/-- The two other threads wait until the main thread has sent the key. -/
theorem start_or_reachable_keySent (hroot : dpkToRootPk key = .ok root)
    (hreachable : Reachable (step crypto loaded collector) (fun _ _ => True) (start (some key))
      threads) :
    threads = start (some key) ∨
      Reachable (step crypto loaded collector) (fun _ _ => True) (keySent root) threads := by
  refine @Reachable.invariant _ _ _ _ _ (fun threads => threads = start (some key) ∨
    Reachable (step crypto loaded collector) (fun _ _ => True) (keySent root) threads)
    (.inl rfl) ?_ _ hreachable
  rintro earlier action later (rfl | hsent) - hstep
  · rw [start_of_root hroot] at hstep
    cases action with
    | main =>
        obtain rfl := Option.some.inj hstep
        exact .inr .start
    | decrypt | fetch | listed _ | answered _ => cases hstep
  · exact .inr (hsent.next action trivial hstep)

omit [Base64] in
/-- With a key of a recipient in the key file, the main thread returns the document, or the
failure of a device that has to yield a key. -/
theorem eq_document_of_returned (hreopens : Reopens crypto loaded backup document)
    (hroot : dpkToRootPk key = .ok root) (hkey : backup.IsRecipient root)
    (hreachable : Reachable (step crypto loaded collector) (fun _ _ => True) (start (some key))
      threads) {result : Exec CliError Bytes} (hreturned : threads.main = .returned result) :
    result = .ok document ∨
      ∃ cause, Unfetched collector cause ∧ result = .fail (.failedToFetchXpub cause) := by
  have hsound : Sound crypto loaded collector (fun _ _ _ => True) (some key) threads := by
    refine hreachable.invariant sound_start fun _ action _ hsound _ hstep => hsound.step ?_ hstep
    unfold Granted
    split
    · split <;> trivial
    · trivial
  have hverdict := hsound.main
  rw [hreturned] at hverdict
  -- nobody misses the key, once it is sent
  have hheard : ¬ Missed result := by
    rcases start_or_reachable_keySent hroot hreachable with rfl | hsent
    · rw [start_of_root hroot] at hreturned
      cases hreturned
    · have hreturns : Decrypts crypto loaded := fun tried => by
        rcases hreopens.each tried with hopens | hwrong
        · exact .inl ⟨_, hopens⟩
        · exact .inr ⟨_, hwrong⟩
      have hfirst : Reachable (step crypto loaded collector) (fun _ _ => True) (start (some key))
          (keySent root) := by
        refine Reachable.start.next .main trivial ?_
        rw [start_of_root hroot]
        rfl
      exact (heard_pending_of_reachable hreturns hfirst (List.mem_singleton_self root)
        (hreopens.recipients root hkey) hsent).1.result result hreturned
  cases hverdict with
  | badKey other fault hfile hfault =>
      cases hfile
      rw [hroot] at hfault
      cases hfault
  | opened other _ _ hdecrypt hopened =>
      rcases hreopens.each other with hopens | hwrong
      · exact .inl (hdecrypt.symm.trans hopens)
      · exact absurd (hdecrypt.symm.trans hwrong) hopened
  | unfetched cause hcause => exact .inr ⟨cause, hcause, rfl⟩
  | wrongKey other _ => exact absurd (.inr rfl) hheard
  | noKeys => exact absurd (.inl rfl) hheard

end Threads

/-- What `encrypt` writes, `decrypt` prints. With the key of a recipient, a build without
devices writes the message and the descriptor that the file was made of, each on a line of its
own; and a build with devices returns the same document in every interleaving of its threads,
whatever the device is and answers, or the failure of a device that has to yield a key. -/
theorem decrypt_of_encryptCommand {rng : Rng ρ} {fuel : ℕ} {source : ℕ → ρ}
    {command : EncryptCommand} {descriptor : Descriptor} {backup : EncryptedBackup}
    {encrypted : Encrypted} {key : DescriptorPublicKey} {root : PublicKey}
    (hlevels : command.wrapLevels = .ok [])
    (hdescriptor : Descriptor.fromStr (trim command.data) = some descriptor)
    (hparse : Descriptor.fromStr descriptor.toString = some descriptor)
    (hbackup : outermostBackup crypto rng fuel source command = .ok backup)
    (hwritten : encryptCommand crypto rng fuel source command = .ok encrypted)
    (hfits : encrypted.bytes.length ≤ isizeMax)
    (hideal : backup.IdealSealing crypto (.drawn fuel rng (source 0)))
    (hroot : dpkToRootPk key = .ok root) (hkey : backup.IsRecipient root) :
    ∃ loaded, EncryptedBackup.new.setEncryptedPayload encrypted.bytes = .ok loaded ∧
      decryptCommand crypto encrypted.bytes (some key) =
        .ok (commandDocument command.msg descriptor ++ [0x0a]) ∧
      ∀ (collector : Collector) (threads : Threads) (result : Exec CliError Bytes),
        Reachable (step crypto loaded collector) (fun _ _ => True) (start (some key)) threads →
          threads.main = .returned result →
            result = .ok (commandDocument command.msg descriptor) ∨
              ∃ cause, Unfetched collector cause ∧
                result = .fail (.failedToFetchXpub cause) := by
  obtain ⟨loaded, hload, hreopens⟩ :=
    exists_reopens_of_encryptCommand hlevels hdescriptor hparse hbackup hwritten hfits hideal
  refine ⟨loaded, hload, ?_, fun collector threads result hreachable hreturned => ?_⟩
  · refine Exec.bind_eq_ok_iff.mpr ⟨loaded, Exec.mapErr_eq_ok_iff.mpr hload, ?_⟩
    refine Exec.bind_eq_ok_iff.mpr ⟨root, Exec.mapErr_eq_ok_iff.mpr hroot, ?_⟩
    exact Exec.bind_eq_ok_iff.mpr ⟨_, hreopens.recipients root hkey, rfl⟩
  · exact eq_document_of_returned hreopens hroot hkey hreachable hreturned

end Commands

namespace Sample

open Bip138.Sample

/-- The account is encrypted to its own key. -/
theorem encryptCommand_account :
    ∃ backup encrypted,
      outermostBackup sampleCrypto countingRng 10 (fun _ => 1) accountCommand = .ok backup ∧
      encryptCommand sampleCrypto countingRng 10 (fun _ => 1) accountCommand = .ok encrypted ∧
      encrypted.bytes.length ≤ isizeMax ∧ backup.IsRecipient root := by
  obtain ⟨⟨backup, encrypted⟩, hrun, htest⟩ := Exec.exists_eq_ok
    (do
      let backup ← outermostBackup sampleCrypto countingRng 10 (fun _ => 1) accountCommand
      let encrypted ← encryptCommand sampleCrypto countingRng 10 (fun _ => 1) accountCommand
      .ok (backup, encrypted))
    (fun (backup, encrypted) => encrypted.bytes.length ≤ isizeMax ∧ root ∈ backup.keys)
    (by decide +kernel)
  obtain ⟨_, hbackup, hrest⟩ := Exec.bind_eq_ok_iff.mp hrun
  obtain ⟨_, hwritten, hpair⟩ := Exec.bind_eq_ok_iff.mp hrest
  cases hpair
  obtain ⟨hfits, hkey⟩ := of_decide_eq_true htest
  exact ⟨backup, encrypted, hbackup, hwritten, hfits, hkey, by decide +kernel⟩

end Sample

open Cli.Sample Bip138.Sample in
/-- The account, from its file to the screen. -/
theorem decrypt_of_encryptCommand_account :
    ∃ encrypted loaded,
      encryptCommand sampleCrypto countingRng 10 (fun _ => 1) accountCommand = .ok encrypted ∧
      EncryptedBackup.new.setEncryptedPayload encrypted.bytes = .ok loaded ∧
      decryptCommand sampleCrypto encrypted.bytes (some accountKey) =
        .ok (commandDocument none account ++ [0x0a]) ∧
      ∀ (collector : Collector) (threads : Threads) (result : Exec CliError Bytes),
        Reachable (step sampleCrypto loaded collector) (fun _ _ => True) (start (some accountKey))
            threads → threads.main = .returned result →
          result = .ok (commandDocument none account) ∨
            ∃ cause, Unfetched collector cause ∧ result = .fail (.failedToFetchXpub cause) := by
  obtain ⟨backup, encrypted, hbackup, hwritten, hfits, hkey⟩ := encryptCommand_account
  obtain ⟨loaded, hload, hprints, hreturns⟩ := decrypt_of_encryptCommand rfl
    (show Descriptor.fromStr (trim accountCommand.data) = some account by decide +kernel)
    (show Descriptor.fromStr account.toString = some account by decide +kernel) hbackup hwritten
    hfits (fun _ _ payload _ => sampleCrypto_idealSealing_backupSecret _ _ payload)
    (show dpkToRootPk accountKey = .ok root by decide +kernel) hkey
  exact ⟨encrypted, loaded, hwritten, hload, hprints, hreturns⟩

end Bip138.Cli
