/-
# Wrapping a backup in levels

`encrypt --keys` encrypts a descriptor to the keys of the innermost level, and what
comes out to the keys of the level around it, until the outermost level. A level has its
keys, whose roots are set by hand over the ones the payload pools, and a note of its
own.

What holds of one level is stated for any payloads: when it is encrypted
(`exists_encryptToLevelKeys_eq_ok`), who reads it back (`readBack_encryptToLevelKeys`) and
who does not (`readBack_encryptToLevelKeys_eq_wrongKey`).
-/

import Bip138.Front.Backable
import Bip138.Cli.Document

namespace Bip138.Cli

open Bip138.Rust Bip138.Ll

variable {ρ : Type}

/-- A level of the keys file: an optional note, and its keys. -/
structure WrapLevel where
  msg : Option String
  keys : List DescriptorPublicKey

section Code

def wrapLevelPublicKeys (level : WrapLevel) : List PublicKey :=
  let keys : BTreeSet PublicKey := level.keys.foldl (fun keys key =>
    match dpkToPk key with
    | .ok key => keys.insert key
    | .error _ => match key with
      | .xPub key => keys.insert key.xkey.publicKey
      | .multiXPub key => keys.insert key.xkey.publicKey
      | .single _ => keys) .empty
  keys.toList

def wrapLevelDerivationPaths (level : WrapLevel) : List DerivationPath :=
  let paths : BTreeSet DerivationPath := level.keys.foldl (fun paths key =>
    match key with
    | .xPub key => match key.origin with
      | some (_, path) => paths.insert path
      | none => paths
    | .multiXPub key => match key.origin with
      | some (_, path) => paths.insert path
      | none => paths
    | .single _ => paths) .empty
  paths.toList

/-- The builder that is encrypted to the keys of a level. -/
def levelBackup (level : WrapLevel) (payloads : List ToPayload) : Exec CliError EncryptedBackup :=
  let keys := wrapLevelPublicKeys level
  let paths := wrapLevelDerivationPaths level
  if keys = [] then .fail .noKeys
  else do
    let backup ← .mapErr .failedToEncrypt (EncryptedBackup.new.setPayloads payloads)
    .ok ((backup.setDerivationPaths paths).setKeys keys)

variable [Target] [Miniscript] (crypto : Crypto)

omit [Miniscript] in
def encryptToLevelKeys (entropy : Entropy ρ) (level : WrapLevel) (payloads : List ToPayload) :
    Exec CliError Encrypted := do
  let backup ← levelBackup level payloads
  .mapErr .failedToEncrypt (backup.encrypt crypto entropy)

omit [Target] in
/-- The payloads of the innermost level. -/
def descriptorPayloads (level : WrapLevel) (msg : Option String) (descriptor : Descriptor) :
    List ToPayload :=
  level.msg.toList.map .ofString ++ msg.toList.map .ofString ++ [.ofDescriptor descriptor]

/-- The payloads of an outer level. -/
def wrapPayloads (level : WrapLevel) (bytes : Bytes) : List ToPayload :=
  level.msg.toList.map .ofString ++ [.ofBip138 bytes]

def encryptDescriptorLevel (entropy : Entropy ρ) (level : WrapLevel) (msg : Option String)
    (descriptor : Descriptor) : Exec CliError Encrypted :=
  encryptToLevelKeys crypto entropy level (descriptorPayloads level msg descriptor)

omit [Miniscript] in
def encryptWrapLevel (entropy : Entropy ρ) (level : WrapLevel) (bytes : Bytes) :
    Exec CliError Encrypted :=
  encryptToLevelKeys crypto entropy level (wrapPayloads level bytes)

variable (rng : Rng ρ) (fuel : ℕ)

/-- The wrapping of `encrypt --keys`. Each level comes with the state of the random
source when its turn comes. -/
def encryptLevels (msg : Option String) (descriptor : Descriptor)
    (levels : List (WrapLevel × ρ)) : Exec CliError Encrypted :=
  match levels.getLast? with
  | none => .fail .wrapKeys
  | some (innerLevel, source) => do
      let encrypted ←
        encryptDescriptorLevel crypto (.drawn fuel rng source) innerLevel msg descriptor
      levels.dropLast.reverse.foldlM (fun encrypted (level, source) =>
        encryptWrapLevel crypto (.drawn fuel rng source) level encrypted.bytes) encrypted

end Code

section Keys

variable {level : WrapLevel}

/-- The roots of a level are those of its extended keys, whether or not the keys may
encrypt on their own. -/
theorem mem_wrapLevelPublicKeys {root : PublicKey} :
    root ∈ wrapLevelPublicKeys level ↔ ∃ key ∈ level.keys, dpkToRootPk key = .ok root := by
  rw [wrapLevelPublicKeys, BTreeSet.mem_toList,
    foldl_iff (fun set : BTreeSet PublicKey => root ∈ set) (fun key => dpkToRootPk key = .ok root)]
  · simp
  · intro set key
    rcases key with key | key | key
    · simp [dpkToPk, dpkToRootPk, classify, Exec.fail]
    · rcases hderived : isDerived [key.derivationPath] key.wildcard
      · simp [dpkToPk, dpkToRootPk, classify, hderived, Exec.fail, eq_comm, or_comm]
      · simp [dpkToPk, dpkToRootPk, classify, hderived, eq_comm, or_comm]
    · rcases hderived : isDerived key.derivationPaths.1 key.wildcard
      · simp [dpkToPk, dpkToRootPk, classify, hderived, Exec.fail, eq_comm, or_comm]
      · simp [dpkToPk, dpkToRootPk, classify, hderived, eq_comm, or_comm]

/-- The paths of a level are the origin paths of its extended keys. -/
theorem mem_wrapLevelDerivationPaths {path : DerivationPath} :
    path ∈ wrapLevelDerivationPaths level ↔
      ∃ key ∈ level.keys, (∃ root, dpkToRootPk key = .ok root) ∧ originPath key = some path := by
  rw [wrapLevelDerivationPaths, BTreeSet.mem_toList,
    foldl_iff (fun set : BTreeSet DerivationPath => path ∈ set)
      (fun key => (∃ root, dpkToRootPk key = .ok root) ∧ originPath key = some path)]
  · simp
  · intro set key
    rcases key with key | key | key
    · simp [dpkToRootPk, classify]
    · rcases horigin : key.origin with _ | ⟨fingerprint, path'⟩
      · simp [dpkToRootPk, classify, originPath, horigin]
      · simp [dpkToRootPk, classify, originPath, horigin, eq_comm, or_comm]
    · rcases horigin : key.origin with _ | ⟨fingerprint, path'⟩
      · simp [dpkToRootPk, classify, originPath, horigin]
      · simp [dpkToRootPk, classify, originPath, horigin, eq_comm, or_comm]

end Keys

section Builder

variable {level : WrapLevel} {payloads : List ToPayload} {parts : List Contribution}
  {backup : EncryptedBackup} {key : PublicKey}

/-- The builder of a level, by what its payloads contribute. -/
def levelBuilder (level : WrapLevel) (parts : List Contribution) : EncryptedBackup :=
  (({ (EncryptedBackup.new.gather parts).dropExposedKeys with
      payload := .encryptMany (parts.map Contribution.item) }).setDerivationPaths
    (wrapLevelDerivationPaths level)).setKeys (wrapLevelPublicKeys level)

theorem levelBackup_eq_ok_iff :
    levelBackup level payloads = .ok backup ↔
      wrapLevelPublicKeys level ≠ [] ∧
      (∀ payload ∈ payloads, payload.contentType.isKnown = true) ∧
        ∃ parts, List.Forall₂ ToPayload.Contributes payloads parts ∧
          backup = levelBuilder level parts := by
  dsimp only [levelBackup]
  rw [Exec.guard_eq_ok_iff]
  simp only [Exec.bind_eq_ok_iff, Exec.mapErr_eq_ok_iff, EncryptedBackup.setPayloads_eq_ok_iff,
    Except.ok.injEq]
  refine and_congr_right fun _ => ⟨fun hrun => ?_, fun hset => ?_⟩
  · obtain ⟨pooled, ⟨hknown, parts, hparts, hpooled⟩, hbackup⟩ := hrun
    rw [hpooled] at hbackup
    exact ⟨hknown, parts, hparts, hbackup.symm⟩
  · obtain ⟨hknown, parts, hparts, hbackup⟩ := hset
    exact ⟨_, ⟨hknown, parts, hparts, rfl⟩, hbackup.symm⟩

theorem keys_levelBuilder (level : WrapLevel) (parts : List Contribution) :
    (levelBuilder level parts).keys =
      (wrapLevelPublicKeys level).filter (xonly · ∉ parts.flatMap Contribution.exposedKeys) :=
  EncryptedBackup.keys_dropExposedKeys _

/-- The keys of a level replace the pooled ones, less the ones a payload exposes. -/
theorem mem_keys_levelBuilder (hparts : List.Forall₂ ToPayload.Contributes payloads parts) :
    key ∈ (levelBuilder level parts).keys ↔
      key ∈ wrapLevelPublicKeys level ∧ ∀ payload ∈ payloads, xonly key ∉ payload.exposedKeys := by
  rw [keys_levelBuilder, List.mem_filter, decide_eq_true_eq,
    BuilderCall.mem_flatMap_exposedKeys hparts]
  push Not
  rfl

theorem keys_levelBuilder_of_unexposed
    (hparts : List.Forall₂ ToPayload.Contributes payloads parts)
    (hunexposed : ∀ root ∈ wrapLevelPublicKeys level, ∀ payload ∈ payloads,
      xonly root ∉ payload.exposedKeys) :
    (levelBuilder level parts).keys = wrapLevelPublicKeys level := by
  rw [keys_levelBuilder, List.filter_eq_self]
  intro root hroot
  rw [decide_eq_true_eq, BuilderCall.mem_flatMap_exposedKeys hparts]
  push Not
  exact hunexposed root hroot

/-- The paths are among those of the level. -/
theorem derivationPaths_levelBuilder (level : WrapLevel) (parts : List Contribution) :
    ∃ keep : DerivationPath → Bool,
      (levelBuilder level parts).derivationPaths = (wrapLevelDerivationPaths level).filter keep :=
  ⟨_, rfl⟩

end Builder

section Levels

variable [Target] [Miniscript] {crypto : Crypto} {rng : Rng ρ} {fuel : ℕ} {msg : Option String}
  {descriptor : Descriptor}

theorem encryptLevels_singleton (level : WrapLevel) (source : ρ) :
    encryptLevels crypto rng fuel msg descriptor [(level, source)] =
      encryptDescriptorLevel crypto (.drawn fuel rng source) level msg descriptor := by
  dsimp only [encryptLevels, List.getLast?_singleton]
  rcases encryptDescriptorLevel crypto (.drawn fuel rng source) level msg descriptor with _ | _
  · rfl
  · rfl

/-- A level is wrapped around what the levels inside it come to. -/
theorem encryptLevels_cons (level : WrapLevel) (source : ρ) {levels : List (WrapLevel × ρ)}
    (hlevels : levels ≠ []) :
    encryptLevels crypto rng fuel msg descriptor ((level, source) :: levels) = (do
      let inner ← encryptLevels crypto rng fuel msg descriptor levels
      encryptWrapLevel crypto (.drawn fuel rng source) level inner.bytes) := by
  obtain ⟨next, rest, rfl⟩ := List.exists_cons_of_ne_nil hlevels
  rw [encryptLevels, encryptLevels, List.getLast?_cons_cons]
  rcases hlast : (next :: rest).getLast? with _ | ⟨innerLevel, state⟩
  · rfl
  · dsimp only
    rw [List.dropLast_cons_cons, List.reverse_cons, bind_assoc]
    rcases encryptDescriptorLevel crypto (.drawn fuel rng state) innerLevel msg descriptor with
      fault | encrypted
    · rfl
    · rw [Exec.ok_bind, Exec.ok_bind, List.foldlM_append]
      congr 1
      funext inner
      rw [List.foldlM_cons]
      rcases encryptWrapLevel crypto (.drawn fuel rng source) level inner.bytes with _ | _
      · rfl
      · rfl

end Levels

namespace WrapLevel

def xonlyRoots (level : WrapLevel) : List (Block 32) := (wrapLevelPublicKeys level).map xonly

/-- A level within the limits: a note that is not empty, extended keys with their
origins, and as many roots and paths as the format has room for. -/
structure WellFormed (level : WrapLevel) : Prop where
  note : ∀ text, level.msg = some text → text ≠ "" ∧ (asBytes text).length ≤ u32Max
  origin : ∀ key ∈ level.keys, ∃ root path, dpkToRootPk key = .ok root ∧
    originPath key = some path ∧ path ≠ [] ∧ path.length ≤ 255
  roots : 1 ≤ (rawKeys level.xonlyRoots).toList.length ∧
    (rawKeys level.xonlyRoots).toList.length ≤ 255
  paths : (wrapLevelDerivationPaths level).length ≤ 255

/-- The provider and the random source work for a level. -/
structure Served (crypto : Crypto) (rng : Rng ρ) (source : ρ) (level : WrapLevel) : Prop where
  shares : ∀ key ∈ rawKeys level.xonlyRoots,
    share crypto (backupSecret crypto level.xonlyRoots) key ≠ .zero 32
  serves : Serves crypto rng source level.xonlyRoots

end WrapLevel

/-- A payload that can be an item of a level. -/
structure Storable (payload : ToPayload) : Prop where
  known : payload.contentType.isKnown = true
  contributes : ∃ part, payload.Contributes part
  bytes : ∀ bytes, payload.toPayload = .ok bytes → bytes ≠ [] ∧ bytes.length ≤ u32Max

section Parts

variable {payloads : List ToPayload} {parts : List Contribution}

theorem exists_contributions (hpayloads : ∀ payload ∈ payloads, Storable payload) :
    ∃ parts, List.Forall₂ ToPayload.Contributes payloads parts := by
  induction payloads with
  | nil => exact ⟨[], .nil⟩
  | cons payload payloads ih =>
      obtain ⟨hfirst, hrest⟩ := List.forall_mem_cons.mp hpayloads
      obtain ⟨part, hpart⟩ := hfirst.contributes
      obtain ⟨parts, hparts⟩ := ih hrest
      exact ⟨part :: parts, .cons hpart hparts⟩

/-- The items of storable payloads are valid. -/
theorem itemValid_of_storable (hpayloads : ∀ payload ∈ payloads, Storable payload)
    (hparts : List.Forall₂ ToPayload.Contributes payloads parts) :
    ∀ item ∈ parts.map Contribution.item, ItemValid item := by
  induction hparts with
  | nil => exact fun _ hitem => absurd hitem List.not_mem_nil
  | @cons payload part payloads parts hpart _ ih =>
      obtain ⟨hfirst, hrest⟩ := List.forall_mem_cons.mp hpayloads
      refine List.forall_mem_cons.mpr ⟨?_, ih hrest⟩
      obtain ⟨bytes, hbytes, hitem⟩ := hpart.item
      obtain ⟨hnonempty, hlength⟩ := hfirst.bytes bytes hbytes
      have hknown := hfirst.known
      rw [hitem]
      refine ⟨hnonempty, hlength, fun hnone => ?_, fun hunknown => ?_⟩
      · dsimp only at hnone
        rw [hnone] at hknown
        cases hknown
      · dsimp only at hunknown
        rw [hunknown] at hknown
        cases hknown

end Parts

section Level

variable [Target] {crypto : Crypto} {rng : Rng ρ} {source : ρ} {level : WrapLevel}

/-- A level within the limits is encrypted, whatever storable payloads it is for, as long
as they expose none of its roots. -/
theorem exists_encryptToLevelKeys_eq_ok {payloads : List ToPayload} (hlevel : level.WellFormed)
    (hserved : level.Served crypto rng source)
    (hcipher : ∀ secret nonce plaintext, ∃ cyphertext,
      crypto.aeadEncrypt secret nonce plaintext = some cyphertext ∧ cyphertext ≠ [])
    (hnonempty : payloads ≠ []) (hpayloads : ∀ payload ∈ payloads, Storable payload)
    (hunexposed : ∀ root ∈ wrapLevelPublicKeys level, ∀ payload ∈ payloads,
      xonly root ∉ payload.exposedKeys) :
    ∃ fuel encrypted,
      encryptToLevelKeys crypto (.drawn fuel rng source) level payloads = .ok encrypted := by
  obtain ⟨parts, hparts⟩ := exists_contributions hpayloads
  have hkeys := keys_levelBuilder_of_unexposed hparts hunexposed
  have hroots : wrapLevelPublicKeys level ≠ [] := by
    intro hempty
    have hroots := hlevel.roots.1
    rw [WrapLevel.xonlyRoots, hempty] at hroots
    cases hroots
  have hbackup := levelBackup_eq_ok_iff.mpr
    ⟨hroots, fun payload hpayload => (hpayloads payload hpayload).known, parts, hparts, rfl⟩
  have hcall : (levelBuilder level parts).coreCall =
      .ok ⟨(levelBuilder level parts).derivationPaths, false, parts.map Contribution.item,
        (levelBuilder level parts).keys.map xonly, .none⟩ :=
    EncryptedBackup.coreCall_eq_ok_iff.mpr ⟨rfl, rfl, by rwa [hkeys], _, .many _ rfl, rfl⟩
  have hitems : parts.map Contribution.item ≠ [] := by
    rw [ne_eq, List.map_eq_nil_iff]
    intro hempty
    rw [hempty, List.forall₂_nil_right_iff] at hparts
    exact hnonempty hparts
  obtain ⟨keep, hpaths⟩ := derivationPaths_levelBuilder level parts
  have hsteps : ∀ path ∈ (levelBuilder level parts).derivationPaths,
      path ≠ [] ∧ path.length ≤ 255 := by
    intro path hpath
    rw [hpaths] at hpath
    obtain ⟨key, hkey, -, horigin⟩ :=
      mem_wrapLevelDerivationPaths.mp (List.mem_of_mem_filter hpath)
    obtain ⟨_, other, -, hother, hbounds⟩ := hlevel.origin key hkey
    rw [horigin] at hother
    cases hother
    exact hbounds
  have hcount : (BTreeSet.collect (levelBuilder level parts).derivationPaths).toList.length ≤
      255 := by
    have hnodup : (wrapLevelDerivationPaths level).Nodup := BTreeSet.nodup_toList _
    rw [hpaths, BTreeSet.length_toList_collect (hnodup.filter keep)]
    exact (List.length_filter_le _ _).trans hlevel.paths
  obtain ⟨fuel, encrypted, hencrypt⟩ :=
    (EncryptedBackup.exists_encrypt_eq_ok_iff hcall).mpr ((exists_encryptItems_eq_ok_iff
      ⟨hitems, itemValid_of_storable hpayloads hparts⟩ (by rw [hkeys]; exact hlevel.roots) hcount
      (fun path hpath => (hsteps path hpath).2) (by rw [hkeys]; exact hserved.shares) hcipher
      (by rw [hkeys]; exact hserved.serves)).mpr
        ⟨⟨_, rfl⟩, fun hempty => (hsteps [] hempty).1 rfl⟩)
  refine ⟨fuel, encrypted, ?_⟩
  rw [encryptToLevelKeys, hbackup, Exec.ok_bind, hencrypt, Exec.mapErr]

variable {entropy : Entropy ρ} {encrypted : Encrypted}

theorem encryptToLevelKeys_eq_ok_iff {payloads : List ToPayload} :
    encryptToLevelKeys crypto entropy level payloads = .ok encrypted ↔
      ∃ backup, levelBackup level payloads = .ok backup ∧
        backup.encrypt crypto entropy = .ok encrypted := by
  simp only [encryptToLevelKeys, Exec.bind_eq_ok_iff, Exec.mapErr_eq_ok_iff]

/-- More fuel than a level needed changes nothing. -/
theorem encryptToLevelKeys_add_fuel {payloads : List ToPayload} {fuel : ℕ}
    (hencrypt : encryptToLevelKeys crypto (.drawn fuel rng source) level payloads = .ok encrypted)
    (extra : ℕ) :
    encryptToLevelKeys crypto (.drawn (fuel + extra) rng source) level payloads =
      .ok encrypted := by
  obtain ⟨backup, hbackup, hencrypt⟩ := encryptToLevelKeys_eq_ok_iff.mp hencrypt
  obtain ⟨call, hcall, hcore, hwarnings⟩ := EncryptedBackup.encrypt_eq_ok_iff.mp hencrypt
  exact encryptToLevelKeys_eq_ok_iff.mpr ⟨backup, hbackup, EncryptedBackup.encrypt_eq_ok_iff.mpr
    ⟨call, hcall, encryptItems_add_fuel hcore extra, hwarnings⟩⟩

/-- What a level is encrypted to is not empty. -/
theorem ne_nil_of_encryptToLevelKeys {payloads : List ToPayload}
    (hencrypt : encryptToLevelKeys crypto entropy level payloads = .ok encrypted) :
    encrypted.bytes ≠ [] := by
  obtain ⟨backup, -, hencrypt⟩ := encryptToLevelKeys_eq_ok_iff.mp hencrypt
  obtain ⟨call, -, hcore, -⟩ := EncryptedBackup.encrypt_eq_ok_iff.mp hencrypt
  obtain ⟨payload, pad, -, hbackup, -⟩ := Entropy.encryptItems_eq_ok hcore
  obtain ⟨-, -, -, _, _, _, _, -, -, -, -, -, -, -, hbytes⟩ := encodeV1Backup_eq_ok_iff.mp hbackup
  rw [hbytes]
  simp [encodeV1, magic]

variable [Base64] [Miniscript] [SerdeJson] [Serde DescriptorBackup] [Serde PolicySet]
  [Serde PolicyBackup] [V0]

/-- A level is read back with any list of keys that has one of the level in it which no
payload exposes. -/
theorem readBack_encryptToLevelKeys {payloads : List TypedPayload}
    (hreadable : ∀ payload ∈ payloads, payload.Readable)
    (hencrypt : encryptToLevelKeys crypto entropy level (payloads.map TypedPayload.toPayload) =
      .ok encrypted)
    (hfits : encrypted.bytes.length ≤ isizeMax)
    (hideal : ∀ backup, levelBackup level (payloads.map TypedPayload.toPayload) = .ok backup →
      backup.IdealSealing crypto entropy) {keys : List PublicKey}
    (hkeys : ∃ key ∈ keys, key ∈ wrapLevelPublicKeys level ∧
      (∀ payload ∈ payloads, xonly key ∉ payload.toPayload.exposedKeys) ∧
      xonly key ≠ bip341Nums) :
    EncryptedBackup.readBack crypto encrypted.bytes keys =
      .ok (payloads.map TypedPayload.decrypted) := by
  obtain ⟨backup, hbackup, hencrypt⟩ := encryptToLevelKeys_eq_ok_iff.mp hencrypt
  have hsealed := hideal backup hbackup
  obtain ⟨-, -, parts, hparts, rfl⟩ := levelBackup_eq_ok_iff.mp hbackup
  obtain ⟨key, hlisted, hroot, hunexposed, hnums⟩ := hkeys
  have hrecipient : (levelBuilder level parts).IsRecipient key := by
    refine ⟨(mem_keys_levelBuilder hparts).mpr ⟨hroot, ?_⟩, hnums⟩
    rw [List.forall_mem_map]
    exact hunexposed
  rw [EncryptedBackup.readBack_eq (.many _ rfl) hencrypt hfits hsealed ⟨key, hlisted, hrecipient⟩]
  exact TypedPayload.extract_items hreadable hparts

/-- A level is closed to strangers. -/
theorem readBack_encryptToLevelKeys_eq_wrongKey {payloads : List ToPayload} {fuel : ℕ}
    (hencrypt : encryptToLevelKeys crypto (.drawn fuel rng source) level payloads = .ok encrypted)
    (hfits : encrypted.bytes.length ≤ isizeMax)
    (hideal : ∀ backup, levelBackup level payloads = .ok backup →
      backup.IdealSealing crypto (.drawn fuel rng source))
    (hunexposed : ∀ root ∈ wrapLevelPublicKeys level, ∀ payload ∈ payloads,
      xonly root ∉ payload.exposedKeys) {keys : List PublicKey} (hkeys : keys ≠ [])
    (hshares : ∀ key ∈ keys, ∀ root ∈ wrapLevelPublicKeys level,
      individualHash crypto (xonly key) ≠ individualHash crypto (xonly root))
    (hdecoys : ∀ key ∈ keys, ∀ i, drawn (rng.fillBytes 32) (drawNonce rng source).2 i ≠
      share crypto (backupSecret crypto level.xonlyRoots) (xonly key)) :
    EncryptedBackup.readBack crypto encrypted.bytes keys = .fail .wrongKey := by
  obtain ⟨backup, hbackup, hencrypt⟩ := encryptToLevelKeys_eq_ok_iff.mp hencrypt
  have hsealed := hideal backup hbackup
  obtain ⟨-, -, parts, hparts, rfl⟩ := levelBackup_eq_ok_iff.mp hbackup
  have hroots := keys_levelBuilder_of_unexposed hparts hunexposed
  refine EncryptedBackup.readBack_eq_wrongKey hencrypt hfits hsealed hkeys fun key hkey => ?_
  rw [EncryptedBackup.IsStranger, hroots]
  refine ⟨fun recipient hrecipient hequal => ?_, hdecoys key hkey⟩
  obtain ⟨hroot, -⟩ := hrecipient
  rw [hroots] at hroot
  exact hshares key hkey recipient hroot (Block.xor_right_injective _ hequal)

end Level

end Bip138.Cli
