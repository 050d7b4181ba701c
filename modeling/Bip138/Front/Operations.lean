/-
# What the builder does

One statement for each operation of the builder: what a payload contributes when it
is set, what dropping the exposed keys keeps, and when and with what the core is
called.
-/

import Bip138.Front.Builder

namespace Bip138

open Bip138.Rust Bip138.Ll

variable {ρ : Type}

/-- The results of the methods of a payload, all of which are pooled. -/
structure Contribution where
  item : Content × Bytes
  keyPaths : List (PublicKey × DerivationPath)
  keys : List PublicKey
  warnings : List Warning
  exposedKeys : List (Block 32)

/-- The methods of the payload succeed with these results. -/
structure ToPayload.Contributes (payload : ToPayload) (part : Contribution) : Prop where
  item : ∃ bytes, payload.toPayload = .ok bytes ∧ part.item = (payload.contentType, bytes)
  keyPaths : payload.keyDerivationPaths = .ok part.keyPaths
  keys : payload.keys = .ok part.keys
  warnings : payload.warnings = .ok part.warnings
  exposedKeys : part.exposedKeys = payload.exposedKeys

namespace EncryptedBackup

variable {backup later : EncryptedBackup}

/-- Pool what payloads contribute. -/
def gather (backup : EncryptedBackup) (parts : List Contribution) : EncryptedBackup :=
  { backup with
    derivationPaths := backup.derivationPaths ++ parts.flatMap (·.keyPaths.map Prod.snd)
    keyPaths := backup.keyPaths ++ parts.flatMap (·.keyPaths)
    keys := backup.keys ++ parts.flatMap (·.keys)
    warnings := backup.warnings ++ parts.flatMap (·.warnings)
    exposedKeys := backup.exposedKeys ++ parts.flatMap (·.exposedKeys) }

theorem gather_nil (backup : EncryptedBackup) : backup.gather [] = backup := by
  simp [gather]

theorem gather_gather (backup : EncryptedBackup) (first second : List Contribution) :
    (backup.gather first).gather second = backup.gather (first ++ second) := by
  simp [gather]

theorem pool_eq_ok_iff {payload : ToPayload} {bytes : Bytes}
    (hbytes : payload.toPayload = .ok bytes) :
    backup.pool payload = .ok later ↔
      ∃ part, payload.Contributes part ∧ part.item = (payload.contentType, bytes) ∧
        later = backup.gather [part] := by
  simp only [pool, Exec.bind_eq_ok_iff, Except.ok.injEq]
  refine ⟨fun hrun => ?_, fun hpooled => ?_⟩
  · obtain ⟨keyPaths, hkeyPaths, keys, hkeys, warnings, hwarnings, hlater⟩ := hrun
    refine ⟨⟨_, keyPaths, keys, warnings, payload.exposedKeys⟩,
      ⟨⟨bytes, hbytes, rfl⟩, hkeyPaths, hkeys, hwarnings, rfl⟩, rfl, ?_⟩
    rw [← hlater]
    simp [gather, addKeyPaths]
  · obtain ⟨part, hpart, hitem, hlater⟩ := hpooled
    refine ⟨_, hpart.keyPaths, _, hpart.keys, _, hpart.warnings, ?_⟩
    rw [hlater, ← hpart.exposedKeys]
    simp [gather, addKeyPaths]

theorem setPayload_eq_ok_iff {payload : ToPayload} :
    backup.setPayload payload = .ok later ↔
      ∃ part, payload.Contributes part ∧
        later = ({ backup with
          payload := .encrypt part.item.2
          content := if payload.contentType.isKnown then payload.contentType
            else backup.content }.gather [part]).dropExposedKeys := by
  simp only [setPayload, Exec.bind_eq_ok_iff, Except.ok.injEq]
  refine ⟨fun hrun => ?_, fun hset => ?_⟩
  · obtain ⟨bytes, hbytes, pooled, hpool, hlater⟩ := hrun
    obtain ⟨part, hpart, hitem, hpooled⟩ := (pool_eq_ok_iff hbytes).mp hpool
    refine ⟨part, hpart, ?_⟩
    rw [← hlater, hpooled, hitem]
  · obtain ⟨part, hpart, hlater⟩ := hset
    obtain ⟨bytes, hbytes, hitem⟩ := hpart.item
    refine ⟨bytes, hbytes, _, (pool_eq_ok_iff hbytes).mpr ⟨part, hpart, hitem, rfl⟩, ?_⟩
    rw [hlater, hitem]

theorem addPayload_eq_ok_iff {payload : ToPayload} {encoded encoded' : List (Content × Bytes)} :
    addPayload (backup, encoded) payload = .ok (later, encoded') ↔
      payload.contentType.isKnown = true ∧ ∃ part, payload.Contributes part ∧
        later = backup.gather [part] ∧ encoded' = encoded ++ [part.item] := by
  rw [addPayload]
  by_cases hknown : payload.contentType.isKnown = true
  · rw [hknown, Bool.not_true, if_neg Bool.false_ne_true]
    simp only [Exec.bind_eq_ok_iff, Except.ok.injEq, Prod.mk.injEq, true_and]
    refine ⟨fun hrun => ?_, fun hadded => ?_⟩
    · obtain ⟨bytes, hbytes, pooled, hpool, hlater, hencoded⟩ := hrun
      obtain ⟨part, hpart, hitem, hpooled⟩ := (pool_eq_ok_iff hbytes).mp hpool
      refine ⟨part, hpart, ?_, ?_⟩
      · rw [← hlater, hpooled]
      · rw [← hencoded, hitem]
    · obtain ⟨part, hpart, hlater, hencoded⟩ := hadded
      obtain ⟨bytes, hbytes, hitem⟩ := hpart.item
      refine ⟨bytes, hbytes, _, (pool_eq_ok_iff hbytes).mpr ⟨part, hpart, hitem, rfl⟩, ?_, ?_⟩
      · rw [hlater]
      · rw [hencoded, hitem]
  · rw [Bool.not_eq_true] at hknown
    simp [hknown]

private theorem foldlM_addPayload_eq_ok_iff {payloads : List ToPayload}
    {encoded encoded' : List (Content × Bytes)} :
    payloads.foldlM addPayload (backup, encoded) = .ok (later, encoded') ↔
      (∀ payload ∈ payloads, payload.contentType.isKnown = true) ∧
        ∃ parts, List.Forall₂ ToPayload.Contributes payloads parts ∧
          later = backup.gather parts ∧ encoded' = encoded ++ parts.map (·.item) := by
  induction payloads generalizing backup encoded with
  | nil =>
      simp only [List.foldlM_nil, List.forall₂_nil_left_iff, exists_eq_left, gather_nil,
        List.map_nil, List.append_nil, List.not_mem_nil, false_implies, implies_true, true_and]
      refine ⟨fun hdone => ?_, fun hsame => ?_⟩
      · cases hdone
        exact ⟨rfl, rfl⟩
      · obtain ⟨hlater, hencoded⟩ := hsame
        rw [hlater, hencoded]
        rfl
  | cons payload payloads ih =>
      simp only [List.foldlM_cons, Exec.bind_eq_ok_iff, Prod.exists, addPayload_eq_ok_iff, ih,
        List.forall_mem_cons, List.forall₂_cons_left_iff]
      refine ⟨fun hrun => ?_, fun hadded => ?_⟩
      · obtain ⟨pooled, encoded₁, ⟨hknown, part, hpart, hpooled, hencoded₁⟩, hrest, parts, hparts,
          hlater, hencoded⟩ := hrun
        refine ⟨⟨hknown, hrest⟩, _, ⟨part, parts, hpart, hparts, rfl⟩, ?_, ?_⟩
        · rw [hlater, hpooled, gather_gather, List.singleton_append]
        · rw [hencoded, hencoded₁, List.append_assoc, List.singleton_append, List.map_cons]
      · obtain ⟨⟨hknown, hrest⟩, _, ⟨part, parts, hpart, hparts, heq⟩, hlater, hencoded⟩ := hadded
        refine ⟨_, _, ⟨hknown, part, hpart, rfl, rfl⟩, hrest, parts, hparts, ?_, ?_⟩
        · rw [hlater, heq, gather_gather, List.singleton_append]
        · rw [hencoded, heq, List.append_assoc, List.singleton_append, List.map_cons]

/-- Payloads are set when all have a known content type and contribute; the exposed
keys are dropped once all of them are pooled. -/
theorem setPayloads_eq_ok_iff {payloads : List ToPayload} :
    backup.setPayloads payloads = .ok later ↔
      (∀ payload ∈ payloads, payload.contentType.isKnown = true) ∧
        ∃ parts, List.Forall₂ ToPayload.Contributes payloads parts ∧
          later = { (backup.gather parts).dropExposedKeys with
            payload := .encryptMany (parts.map (·.item)) } := by
  simp only [setPayloads, Exec.bind_eq_ok_iff, Prod.exists, foldlM_addPayload_eq_ok_iff,
    List.nil_append, Except.ok.injEq]
  refine ⟨fun hrun => ?_, fun hset => ?_⟩
  · obtain ⟨pooled, encoded, ⟨hknown, parts, hparts, hpooled, hencoded⟩, hlater⟩ := hrun
    refine ⟨hknown, parts, hparts, ?_⟩
    rw [← hlater, hpooled, hencoded]
  · obtain ⟨hknown, parts, hparts, hlater⟩ := hset
    exact ⟨_, _, ⟨hknown, parts, hparts, rfl, rfl⟩, hlater.symm⟩

private theorem foldl_retainKey (exposed : List (Block 32)) (keys kept : List PublicKey)
    (warnings : List Warning) :
    keys.foldl (retainKey exposed) (kept, warnings) =
      (kept ++ keys.filter (xonly · ∉ exposed),
        ((keys.filter (xonly · ∈ exposed)).map .exposedRoot).foldl pushWarning warnings) := by
  induction keys generalizing kept warnings with
  | nil => simp
  | cons key keys ih =>
      by_cases hexposed : xonly key ∈ exposed
      · rw [List.foldl_cons, retainKey, if_neg (not_not.mpr hexposed), ih]
        simp [hexposed]
      · rw [List.foldl_cons, retainKey, if_pos hexposed, ih]
        simp [hexposed]

@[simp]
theorem keys_dropExposedKeys (backup : EncryptedBackup) :
    backup.dropExposedKeys.keys = backup.keys.filter (xonly · ∉ backup.exposedKeys) := by
  simp [dropExposedKeys, foldl_retainKey]

theorem warnings_dropExposedKeys (backup : EncryptedBackup) :
    backup.dropExposedKeys.warnings =
      ((backup.keys.filter (xonly · ∈ backup.exposedKeys)).map .exposedRoot).foldl pushWarning
        backup.warnings := by
  simp [dropExposedKeys, foldl_retainKey]

@[simp]
theorem exposedKeys_dropExposedKeys (backup : EncryptedBackup) :
    backup.dropExposedKeys.exposedKeys = backup.exposedKeys := rfl

/-- A builder that exposes nothing takes the keys it is given. -/
theorem setKeys_of_exposedKeys_eq_nil (hexposed : backup.exposedKeys = [])
    (keys : List PublicKey) : backup.setKeys keys = { backup with keys } := by
  simp [setKeys, dropExposedKeys, foldl_retainKey, hexposed]

/-- A path stays when a kept key has it, or no dropped key does. -/
theorem mem_derivationPaths_dropExposedKeys {path : DerivationPath} :
    path ∈ backup.dropExposedKeys.derivationPaths ↔
      path ∈ backup.derivationPaths ∧
        ((∃ key, (key, path) ∈ backup.keyPaths ∧ xonly key ∉ backup.exposedKeys) ∨
          ∀ key, (key, path) ∈ backup.keyPaths → xonly key ∉ backup.exposedKeys) := by
  simp only [dropExposedKeys, List.partition_eq_filter_filter, List.mem_filter, Bool.or_eq_true,
    List.any_eq_true, Bool.not_eq_true', List.any_eq_false]
  apply and_congr_right
  intro _
  apply or_congr
  · simp [and_assoc]
  · simp only [Prod.forall, Function.comp_apply, decide_eq_true_eq, Bool.not_eq_true',
      decide_eq_false_iff_not, not_not]
    refine ⟨fun hdropped key hkey hexposed => ?_, fun hkept key other hpair hpath => ?_⟩
    · exact hdropped key path ⟨hkey, hexposed⟩ rfl
    · rw [hpath] at hpair
      exact hkept key hpair.1 hpair.2

theorem mem_warnings_dropExposedKeys {warning : Warning} :
    warning ∈ backup.dropExposedKeys.warnings ↔
      warning ∈ backup.warnings ∨
        ∃ key ∈ backup.keys, xonly key ∈ backup.exposedKeys ∧ warning = .exposedRoot key := by
  rw [warnings_dropExposedKeys, mem_foldl_pushWarning]
  simp [and_assoc, eq_comm]

/-- The items a builder encrypts: those of its payload list, or its single payload
under the content type of the builder, which has to be known. -/
inductive Encrypts (backup : EncryptedBackup) : List (Content × Bytes) → Prop
  | one (bytes : Bytes) (hpayload : backup.payload = .encrypt bytes)
      (hcontent : backup.content ≠ .unknown) : Encrypts backup [(backup.content, bytes)]
  | many (items : List (Content × Bytes)) (hpayload : backup.payload = .encryptMany items) :
      Encrypts backup items

/-- What a builder encrypts is determined by it. -/
theorem Encrypts.unique {first second : List (Content × Bytes)} (hfirst : backup.Encrypts first)
    (hsecond : backup.Encrypts second) : first = second := by
  rcases hfirst with ⟨_, hpayload, -⟩ | ⟨_, hpayload⟩
  · rcases hsecond with ⟨_, hpayload', -⟩ | ⟨_, hpayload'⟩
    · rw [hpayload] at hpayload'
      cases hpayload'
      rfl
    · rw [hpayload] at hpayload'
      cases hpayload'
  · rcases hsecond with ⟨_, hpayload', -⟩ | ⟨_, hpayload'⟩
    · rw [hpayload] at hpayload'
      cases hpayload'
    · rw [hpayload] at hpayload'
      cases hpayload'
      rfl

/-- The core is called for the one encryption and version that are implemented, with
a payload to encrypt and at least one key. -/
theorem coreCall_eq_ok_iff {call : CoreCall} :
    backup.coreCall = .ok call ↔
      backup.encryption = .chaCha20Poly1305 ∧ backup.version = .v1 ∧ backup.keys ≠ [] ∧
        ∃ items, backup.Encrypts items ∧
          call = ⟨backup.derivationPaths, backup.storeCommonPaths, items,
            backup.keys.map xonly, backup.padding⟩ := by
  obtain ⟨version, content, encryption, derivationPaths, keys, exposedKeys, keyPaths, payload,
    warnings, padding, storeCommonPaths⟩ := backup
  refine ⟨fun hcall => ?_, fun hbackup => ?_⟩
  · rw [coreCall] at hcall
    dsimp only at hcall
    split at hcall
    · cases hcall
    rename_i hcontent
    split at hcall
    · cases hcall
    split at hcall
    · cases hcall
    split at hcall
    · split at hcall
      · split at hcall
        · cases hcall
        rename_i hempty
        cases hcall
        refine ⟨rfl, rfl, ?_, _, .one _ rfl ?_, rfl⟩
        · simpa using hempty
        · simpa [Payload.isEncryptMany] using hcontent
      · split at hcall
        · cases hcall
        rename_i hempty
        cases hcall
        refine ⟨rfl, rfl, ?_, _, .many _ rfl, rfl⟩
        simpa using hempty
      · cases hcall
    · cases hcall
  · obtain ⟨hencryption, hversion, hkeys, items, hitems, hcall⟩ := hbackup
    dsimp only at hencryption hversion hkeys hcall
    subst hencryption hversion hcall
    cases hitems with
    | one bytes hpayload hcontent =>
        dsimp only at hpayload hcontent
        subst hpayload
        simp [coreCall, hcontent, hkeys, Encryption.isDefined, Version.isValid]
    | many items hpayload =>
        dsimp only at hpayload
        subst hpayload
        simp [coreCall, Payload.isEncryptMany, hkeys, Encryption.isDefined, Version.isValid]

theorem encrypt_eq_ok_iff [Target] {crypto : Crypto} {entropy : Entropy ρ}
    {encrypted : Encrypted} :
    backup.encrypt crypto entropy = .ok encrypted ↔
      ∃ call, backup.coreCall = .ok call ∧
        entropy.encryptItems crypto call = .ok encrypted.bytes ∧
        encrypted.warnings = backup.warnings := by
  simp only [encrypt, Exec.bind_eq_ok_iff, Exec.mapErr_eq_ok_iff, Except.ok.injEq]
  refine ⟨fun hrun => ?_, fun hencrypt => ?_⟩
  · obtain ⟨call, hcall, bytes, hbytes, hencrypted⟩ := hrun
    rw [← hencrypted]
    exact ⟨call, hcall, hbytes, rfl⟩
  · obtain ⟨call, hcall, hbytes, hwarnings⟩ := hencrypt
    refine ⟨call, hcall, _, hbytes, ?_⟩
    rw [← hwarnings]

/-- Loading a backup changes nothing but what a container holds. -/
theorem exists_of_setEncryptedPayload [Target] [Base64] {bytes : Bytes}
    (hload : backup.setEncryptedPayload bytes = .ok later) :
    ∃ derivationPaths encryption payload,
      later = { backup with derivationPaths, encryption, payload } := by
  have hbinary : ∀ bytes, backup.setEncryptedPayloadBinary bytes = .ok later →
      ∃ derivationPaths encryption payload,
        later = { backup with derivationPaths, encryption, payload } := by
    intro bytes hload
    rw [setEncryptedPayloadBinary] at hload
    by_cases hv0 : v0Magic <+: bytes
    · rw [if_pos hv0] at hload
      exact ⟨_, _, _, (Except.ok.inj hload).symm⟩
    · rw [if_neg hv0] at hload
      obtain ⟨version, -, hload⟩ := Exec.bind_eq_ok_iff.mp hload
      rcases hversion : Version.ofU8 version with _ | _ | _
      · rw [hversion] at hload
        cases hload
      · rw [hversion] at hload
        obtain ⟨decoded, -, hload⟩ := Exec.bind_eq_ok_iff.mp hload
        exact ⟨_, _, _, (Except.ok.inj hload).symm⟩
      · rw [hversion] at hload
        cases hload
  rw [setEncryptedPayload] at hload
  by_cases hmagic : magic <+: bytes
  · rw [if_pos hmagic] at hload
    exact hbinary bytes hload
  · rw [if_neg hmagic] at hload
    by_cases hv0 : v0Magic <+: bytes
    · rw [if_pos hv0] at hload
      exact ⟨_, _, _, (Except.ok.inj hload).symm⟩
    · rw [if_neg hv0] at hload
      obtain ⟨text, -, hload⟩ := Exec.bind_eq_ok_iff.mp hload
      obtain ⟨decoded, -, hload⟩ := Exec.bind_eq_ok_iff.mp hload
      exact hbinary decoded hload

end EncryptedBackup

end Bip138
