/-
# The keys file

`encrypt --keys` reads the levels of a backup from a file, one on a line, and skips blank
lines and comments. What is written is then encrypted to the keys of the first level line
and to nothing else, unless the file has no such line: the command takes the empty list of
levels for a missing option, and encrypts to the keys of the descriptor.
-/

import Bip138.Ll.Refusals
import Bip138.Cli.Levels

namespace Bip138.Cli

open Bip138.Rust Bip138.Ll

variable {ρ : Type}

section Code

variable [Miniscript]

omit [Miniscript] in
def keyHasOrigin : DescriptorPublicKey → Bool
  | .xPub key => key.origin.isSome
  | .multiXPub key => key.origin.isSome
  | .single _ => false

/-- A key of a level, which has to carry its origin. -/
def parseWrapKey (text : String) : Exec CliError DescriptorPublicKey := do
  let key ← .okOr (Miniscript.keyFromStr text) .cantConvertToXpub
  if keyHasOrigin key then .ok key else .fail .wrapKeys

/-- A line of the file that is neither blank nor a comment: a note, if there is one, and
the keys. -/
def parseWrapLine (line : String) : Exec CliError WrapLevel :=
  let (msg, keys) := match splitOnce line "||" with
    | some (msg, keys) =>
        let msg := trim msg
        (if msg = "" then none else some msg, keys)
    | none => (none, line)
  do
    let keys ← (((splitAll keys '|').map trim).filter (· ≠ "")).mapM parseWrapKey
    if keys = [] then .fail .wrapKeys else .ok ⟨msg, keys⟩

/-- One pass of the loop of `parseWrapKeys`. -/
def parseWrapKeysStep (levels : List WrapLevel) (line : String) :
    Exec CliError (List WrapLevel) :=
  let line := trim line
  if line = "" ∨ startsWithChar line '#' then .ok levels
  else do
    let level ← parseWrapLine line
    .ok (levels ++ [level])

def parseWrapKeys (data : String) : Exec CliError (List WrapLevel) :=
  (lines data).foldlM parseWrapKeysStep []

/-- The builder for a descriptor and the message in front of it. -/
def descriptorBackup (msg : Option String) (descriptor : Descriptor) :
    Exec CliError EncryptedBackup :=
  .mapErr .failedToEncrypt (match msg with
    | some msg => EncryptedBackup.new.setPayloads [.ofString msg, .ofDescriptor descriptor]
    | none => EncryptedBackup.new.setPayload (.ofDescriptor descriptor))

/-- What the command is given: the texts of its files, its options, and what a device, if
one is asked for, answers to a request for a key at one of these paths. -/
structure EncryptCommand where
  data : String
  msg : Option String
  keys : Option String
  device : Option (List DerivationPath → Exec CliError (PublicKey × DerivationPath))

/-- The levels of the keys file, and none without one. -/
def EncryptCommand.wrapLevels (command : EncryptCommand) : Exec CliError (List WrapLevel) :=
  match command.keys with
  | some text => parseWrapKeys text
  | none => .ok []

/-- Add the key of a device to the ones of the descriptor. -/
def addDeviceKey (backup : EncryptedBackup)
    (device : Option (List DerivationPath → Exec CliError (PublicKey × DerivationPath))) :
    Exec CliError EncryptedBackup :=
  match device with
  | some fetchEncryptionDeviceKey => do
      let derivPaths := backup.getDerivationPaths
      let (key, devicePath) ← fetchEncryptionDeviceKey derivPaths
      let derivPaths := if devicePath ∈ derivPaths then derivPaths else derivPaths ++ [devicePath]
      .ok ((backup.setDerivationPaths derivPaths).setKeys (backup.getKeys ++ [key]))
  | none => .ok backup

/-- A backup with a key that a device granted, and its path. -/
def withDevice (pooled : EncryptedBackup) (key : PublicKey) (path : DerivationPath) :
    EncryptedBackup :=
  (pooled.setDerivationPaths (if path ∈ pooled.derivationPaths then pooled.derivationPaths
    else pooled.derivationPaths ++ [path])).setKeys (pooled.keys ++ [key])

variable [Target] (crypto : Crypto) (rng : Rng ρ) (fuel : ℕ) (source : ℕ → ρ)

/-- The command, up to the file it writes. The random source has a state for each level
when its turn comes, the outermost one first. -/
def encryptCommand (command : EncryptCommand) : Exec CliError Encrypted := do
  let wrapLevels ← command.wrapLevels
  let descriptor ← .okOr (Descriptor.fromStr (trim command.data)) .cantConvertToDescriptor
  if wrapLevels ≠ [] then
    if command.device.isSome then .fail .deviceWithKeys
    else
      encryptLevels crypto rng fuel command.msg descriptor
        (wrapLevels.zipIdx.map fun (level, turn) => (level, source turn))
  else do
    let backup ← descriptorBackup command.msg descriptor
    let backup ← addDeviceKey backup command.device
    .mapErr .failedToEncrypt (backup.encrypt crypto (.drawn fuel rng (source 0)))

/-- The builder of the container that is written, which is encrypted last. -/
def outermostBackup (command : EncryptCommand) : Exec CliError EncryptedBackup := do
  let wrapLevels ← command.wrapLevels
  let descriptor ← .okOr (Descriptor.fromStr (trim command.data)) .cantConvertToDescriptor
  match wrapLevels.zipIdx.map fun (level, turn) => (level, source turn) with
  | [] => do
      let backup ← descriptorBackup command.msg descriptor
      addDeviceKey backup command.device
  | (level, _) :: inner =>
      if command.device.isSome then .fail .deviceWithKeys
      else if inner = [] then levelBackup level (descriptorPayloads level command.msg descriptor)
      else do
        let encrypted ← encryptLevels crypto rng fuel command.msg descriptor inner
        levelBackup level (wrapPayloads level encrypted.bytes)

end Code

/-- A line that is neither blank nor a comment, without the space around it. -/
def levelLine (line : String) : Option String :=
  let line := trim line
  if line = "" ∨ startsWithChar line '#' then none else some line

def levelLines (data : String) : List String := (lines data).filterMap levelLine

section Lines

variable [Miniscript] {data : String} {levels : List WrapLevel}

private theorem foldlM_parseWrapKeysStep_eq_ok_iff {lines : List String}
    {later : List WrapLevel} :
    lines.foldlM parseWrapKeysStep levels = .ok later ↔
      ∃ found, List.Forall₂ (fun line level => parseWrapLine line = .ok level)
        (lines.filterMap levelLine) found ∧ later = levels ++ found := by
  induction lines generalizing levels with
  | nil =>
      simp only [List.foldlM_nil, List.filterMap_nil, List.forall₂_nil_left_iff, exists_eq_left,
        List.append_nil]
      exact ⟨fun hdone => (Except.ok.inj hdone).symm, fun hsame => by rw [hsame]; rfl⟩
  | cons line lines ih =>
      rw [List.foldlM_cons, Exec.bind_eq_ok_iff]
      by_cases hskip : trim line = "" ∨ startsWithChar (trim line) '#' = true
      · have hstep : parseWrapKeysStep levels line = .ok levels := if_pos hskip
        have hline : levelLine line = none := if_pos hskip
        rw [List.filterMap_cons_none hline, hstep]
        simp only [Except.ok.injEq, exists_eq_left', ih]
      · have hstep : parseWrapKeysStep levels line = (do
            let level ← parseWrapLine (trim line)
            .ok (levels ++ [level])) := if_neg hskip
        have hline : levelLine line = some (trim line) := if_neg hskip
        rw [List.filterMap_cons_some hline, hstep]
        simp only [Exec.bind_eq_ok_iff, Except.ok.injEq, ih, List.forall₂_cons_left_iff]
        constructor
        · rintro ⟨_, ⟨level, hlevel, rfl⟩, found, hfound, rfl⟩
          exact ⟨level :: found, ⟨level, found, hlevel, hfound, rfl⟩, by simp⟩
        · rintro ⟨_, ⟨level, found, hlevel, hfound, rfl⟩, rfl⟩
          exact ⟨_, ⟨level, hlevel, rfl⟩, found, hfound, by simp⟩

/-- The levels of a file are those of its level lines, in their order. -/
theorem parseWrapKeys_eq_ok_iff :
    parseWrapKeys data = .ok levels ↔
      List.Forall₂ (fun line level => parseWrapLine line = .ok level) (levelLines data)
        levels := by
  rw [parseWrapKeys, foldlM_parseWrapKeysStep_eq_ok_iff]
  simp [levelLines]

end Lines

section Written

variable [Miniscript] [Target] {crypto : Crypto} {rng : Rng ρ} {fuel : ℕ} {source : ℕ → ρ}
  {command : EncryptCommand} {encrypted : Encrypted} {backup : EncryptedBackup}

/-- What is written is what the outermost builder encrypts to. -/
theorem encryptCommand_eq (command : EncryptCommand) :
    encryptCommand crypto rng fuel source command = (do
      let backup ← outermostBackup crypto rng fuel source command
      .mapErr .failedToEncrypt (backup.encrypt crypto (.drawn fuel rng (source 0)))) := by
  rw [encryptCommand, outermostBackup, bind_assoc]
  congr 1
  funext wrapLevels
  rw [bind_assoc]
  congr 1
  funext descriptor
  rcases wrapLevels with _ | ⟨level, levels⟩
  · rw [if_neg (not_not.mpr rfl)]
    exact (bind_assoc ..).symm
  · rw [if_pos (List.cons_ne_nil _ _), List.zipIdx_cons, List.map_cons]
    generalize (levels.zipIdx (0 + 1)).map (fun (level, turn) => (level, source turn)) = inner
    dsimp only
    by_cases hdevice : command.device.isSome = true
    · rw [if_pos hdevice, if_pos hdevice]
      rfl
    · rw [if_neg hdevice, if_neg hdevice]
      by_cases hinner : inner = []
      · rw [if_pos hinner, hinner]
        exact encryptLevels_singleton level (source 0)
      · rw [if_neg hinner, encryptLevels_cons level (source 0) hinner, bind_assoc]
        rfl

/-- What the command encrypts without levels: the message, if there is one, and the
descriptor. -/
def commandItems (msg : Option String) (descriptor : Descriptor) : List (Content × Bytes) :=
  msg.toList.map (fun text => (.string, asBytes text)) ++
    [(.bip380, asBytes descriptor.toString)]

/-- The descriptor file, with what a device granted, is for this x-only key: it is the root
of an expression that may encrypt, and not the NUMS key, or the device granted it, and no
expression puts it on chain. -/
def OpensAlone (descriptor : Descriptor) (granted : Option (PublicKey × DerivationPath))
    (x : Block 32) : Prop :=
  ((∃ root, HasCandidate [descriptor] root ∧ xonly root = x ∧ x ≠ bip341Nums) ∨
    ∃ answer ∈ granted, xonly answer.1 = x) ∧ ¬ HasExposure [descriptor] x

/-- The descriptor file, with what a device granted, leads to this path: an expression that
is encrypted to has it for its origin, or the device granted it and no expression that is
dropped has it. -/
def LeadsAlone (descriptor : Descriptor) (granted : Option (PublicKey × DerivationPath))
    (path : DerivationPath) : Prop :=
  (∃ root, HasCandidatePath [descriptor] root path ∧ xonly root ≠ bip341Nums ∧
    ¬ HasExposure [descriptor] (xonly root)) ∨
  (∃ answer ∈ granted, answer.2 = path) ∧
    ∀ root, HasCandidatePath [descriptor] root path → xonly root ≠ bip341Nums →
      ¬ HasExposure [descriptor] (xonly root)

/-- The descriptor file can be encrypted on its own: it holds a descriptor, a device that is
asked for its paths grants a key, and the encoder accepts the keys and paths of both
together with the message and the descriptor. -/
def EncryptsAlone (crypto : Crypto) (rng : Rng ρ) (source : ρ) (command : EncryptCommand) : Prop :=
  ∃ descriptor granted keys paths,
    Descriptor.fromStr (trim command.data) = some descriptor ∧
    command.device.map (· (ofDescriptors [descriptor]).getDerivationPaths) = granted.map .ok ∧
    (∀ x, x ∈ keys ↔ OpensAlone descriptor granted x) ∧
    (∀ path, path ∈ paths ↔ LeadsAlone descriptor granted path) ∧
    Encrypts crypto rng source paths false (commandItems command.msg descriptor) keys .none

/-- Whatever the command writes with this keys file, the builder of the outermost container
has keys, and all of them are from the first level line of the file. -/
def EncryptsToFile (crypto : Crypto) (rng : Rng ρ) (source : ℕ → ρ)
    (command : EncryptCommand) (text : String) : Prop :=
  ∀ fuel encrypted,
    encryptCommand crypto rng fuel source { command with keys := some text } = .ok encrypted →
      ∃ backup line rest level,
        outermostBackup crypto rng fuel source { command with keys := some text } = .ok backup ∧
        backup.encrypt crypto (.drawn fuel rng (source 0)) = .ok encrypted ∧
        levelLines text = line :: rest ∧ parseWrapLine line = .ok level ∧
        backup.keys ≠ [] ∧ ∀ key ∈ backup.keys, key ∈ wrapLevelPublicKeys level

/-- The outermost builder of a file with levels is that of its first level. -/
theorem exists_levelBackup_of_outermostBackup {level : WrapLevel} {levels : List WrapLevel}
    (hlevels : command.wrapLevels = .ok (level :: levels))
    (hbackup : outermostBackup crypto rng fuel source command = .ok backup) :
    ∃ payloads, levelBackup level payloads = .ok backup := by
  rw [outermostBackup, hlevels, Exec.ok_bind, Exec.bind_eq_ok_iff] at hbackup
  obtain ⟨descriptor, -, hbackup⟩ := hbackup
  rw [List.zipIdx_cons, List.map_cons] at hbackup
  dsimp only at hbackup
  by_cases hdevice : command.device.isSome = true
  · rw [if_pos hdevice] at hbackup
    cases hbackup
  · rw [if_neg hdevice] at hbackup
    split at hbackup
    · exact ⟨_, hbackup⟩
    · obtain ⟨inner, -, hbackup⟩ := Exec.bind_eq_ok_iff.mp hbackup
      exact ⟨_, hbackup⟩

/-- Without levels, the outermost builder is that of the descriptor. -/
theorem outermostBackup_of_nil (hlevels : command.wrapLevels = .ok []) :
    outermostBackup crypto rng fuel source command = .ok backup ↔
      ∃ descriptor pooled, Descriptor.fromStr (trim command.data) = some descriptor ∧
        descriptorBackup command.msg descriptor = .ok pooled ∧
        addDeviceKey pooled command.device = .ok backup := by
  rw [outermostBackup, hlevels, Exec.ok_bind]
  simp only [List.zipIdx_nil, List.map_nil, Exec.bind_eq_ok_iff, Exec.okOr_eq_ok_iff,
    exists_and_left]

omit [Miniscript] in
theorem keys_ne_nil_of_encrypt {entropy : Entropy ρ}
    (hencrypt : backup.encrypt crypto entropy = .ok encrypted) : backup.keys ≠ [] := by
  obtain ⟨call, hcall, -⟩ := EncryptedBackup.encrypt_eq_ok_iff.mp hencrypt
  exact (EncryptedBackup.coreCall_eq_ok_iff.mp hcall).2.2.1

/-- The path of a device stays with the backup unless a key of the descriptor with the same
path was dropped and none was kept. -/
def KeepsPath (pooled : EncryptedBackup) (path : DerivationPath) : Prop :=
  (∃ key, (key, path) ∈ pooled.keyPaths ∧ xonly key ∉ pooled.exposedKeys) ∨
    ∀ key, (key, path) ∈ pooled.keyPaths → xonly key ∉ pooled.exposedKeys

section Device

variable {pooled : EncryptedBackup} {key other : PublicKey} {path : DerivationPath}
  {device : List DerivationPath → Exec CliError (PublicKey × DerivationPath)}

omit [Target] [Miniscript] in
theorem addDeviceKey_eq_ok_iff :
    addDeviceKey pooled (some device) = .ok backup ↔
      ∃ key path, device pooled.getDerivationPaths = .ok (key, path) ∧
        backup = withDevice pooled key path := by
  simp only [addDeviceKey, Exec.bind_eq_ok_iff, Prod.exists, Except.ok.injEq, @eq_comm _ backup]
  rfl

omit [Target] [Miniscript] in
theorem mem_keys_withDevice :
    other ∈ (withDevice pooled key path).keys ↔
      (other ∈ pooled.keys ∨ other = key) ∧ xonly other ∉ pooled.exposedKeys := by
  rw [withDevice, EncryptedBackup.setKeys, EncryptedBackup.keys_dropExposedKeys, List.mem_filter,
    List.mem_append, List.mem_singleton, decide_eq_true_eq]
  rfl

omit [Target] [Miniscript] in
theorem mem_derivationPaths_withDevice {known : DerivationPath} :
    known ∈ (withDevice pooled key path).derivationPaths ↔
      (known ∈ pooled.derivationPaths ∨ known = path) ∧ KeepsPath pooled known := by
  rw [withDevice, EncryptedBackup.setKeys, EncryptedBackup.mem_derivationPaths_dropExposedKeys]
  refine and_congr_left fun _ => ?_
  by_cases hpath : path ∈ pooled.derivationPaths
  · simp only [EncryptedBackup.setDerivationPaths, if_pos hpath]
    exact ⟨.inl, fun hknown => hknown.elim id fun hsame => hsame ▸ hpath⟩
  · simp [EncryptedBackup.setDerivationPaths, hpath]

omit [Target] [Miniscript] in
/-- A key and a path do not change what is encrypted. -/
theorem encrypts_withDevice {items : List (Content × Bytes)} (hitems : pooled.Encrypts items) :
    (withDevice pooled key path).Encrypts items := by
  cases hitems with
  | one bytes hpayload hcontent => exact .one bytes hpayload hcontent
  | many items hpayload => exact .many items hpayload

end Device

/-- The builder of the command without levels, before the key of a device. -/
def aloneBackup (msg : Option String) (descriptor : Descriptor) : EncryptedBackup :=
  match msg with
  | none => { ofDescriptors [descriptor] with
      content := .bip380
      payload := .encrypt (asBytes descriptor.toString) }
  | some text => { ofDescriptors [descriptor] with
      payload := .encryptMany (commandItems (some text) descriptor) }

/-- The builder of the command without levels. -/
def grantedBackup (msg : Option String) (descriptor : Descriptor) :
    Option (PublicKey × DerivationPath) → EncryptedBackup
  | none => aloneBackup msg descriptor
  | some (key, path) => withDevice (aloneBackup msg descriptor) key path

section Alone

variable {msg : Option String} {descriptor : Descriptor}
  {granted : Option (PublicKey × DerivationPath)}

omit [Target] in
theorem descriptorBackup_eq (msg : Option String) (descriptor : Descriptor) :
    descriptorBackup msg descriptor = .ok (aloneBackup msg descriptor) := by
  have hdescriptor := contributes_descriptorPart descriptor
  refine Exec.mapErr_eq_ok_iff.mpr ?_
  cases msg with
  | none => exact EncryptedBackup.setPayload_eq_ok_iff.mpr ⟨_, hdescriptor, rfl⟩
  | some text =>
      have htext : (ToPayload.ofString text).Contributes
          ⟨(.string, asBytes text), [], [], [], []⟩ := ⟨⟨_, rfl, rfl⟩, rfl, rfl, rfl, rfl⟩
      refine EncryptedBackup.setPayloads_eq_ok_iff.mpr
        ⟨?_, _, .cons htext (.cons hdescriptor .nil), rfl⟩
      intro payload hpayload
      rw [List.mem_cons, List.mem_singleton] at hpayload
      obtain rfl | rfl := hpayload <;> rfl

omit [Target] in
@[simp]
theorem keys_aloneBackup :
    (aloneBackup msg descriptor).keys = (ofDescriptors [descriptor]).keys := by
  cases msg <;> rfl

omit [Target] in
@[simp]
theorem derivationPaths_aloneBackup :
    (aloneBackup msg descriptor).derivationPaths =
      (ofDescriptors [descriptor]).derivationPaths := by
  cases msg <;> rfl

omit [Target] in
theorem mem_exposedKeys_aloneBackup {x : Block 32} :
    x ∈ (aloneBackup msg descriptor).exposedKeys ↔ HasExposure [descriptor] x := by
  rw [← mem_exposedKeys_gathered]
  cases msg <;> rfl

omit [Target] in
theorem mem_keyPaths_aloneBackup {root : PublicKey} {path : DerivationPath} :
    (root, path) ∈ (aloneBackup msg descriptor).keyPaths ↔
      HasCandidatePath [descriptor] root path ∧ xonly root ≠ bip341Nums := by
  rw [show xonly root = root.x from rfl, ← mem_keyPaths_gathered]
  cases msg <;> rfl

omit [Target] in
theorem encrypts_aloneBackup :
    (aloneBackup msg descriptor).Encrypts (commandItems msg descriptor) := by
  cases msg with
  | none => exact .one _ rfl (show Content.bip380 ≠ .unknown by decide)
  | some text => exact .many _ rfl

omit [Target] in
/-- A device is asked for the paths of the descriptor. -/
theorem addDeviceKey_aloneBackup
    {device : Option (List DerivationPath → Exec CliError (PublicKey × DerivationPath))} :
    addDeviceKey (aloneBackup msg descriptor) device = .ok backup ↔
      ∃ granted, device.map (· (ofDescriptors [descriptor]).getDerivationPaths) =
        granted.map .ok ∧ backup = grantedBackup msg descriptor granted := by
  cases device with
  | none =>
      simp only [Option.map_none, @eq_comm _ none, Option.map_eq_none_iff, exists_eq_left]
      exact ⟨fun hsame => (Except.ok.inj hsame).symm, fun hsame => congrArg _ hsame.symm⟩
  | some device =>
      rw [addDeviceKey_eq_ok_iff, EncryptedBackup.getDerivationPaths, derivationPaths_aloneBackup]
      constructor
      · rintro ⟨key, path, hgrants, rfl⟩
        exact ⟨some (key, path), congrArg some hgrants, rfl⟩
      · rintro ⟨_ | ⟨key, path⟩, hgrants, rfl⟩
        · cases hgrants
        · exact ⟨key, path, Option.some.inj hgrants, rfl⟩

omit [Target] in
/-- The keys of the builder, in terms of the descriptor and the device. -/
theorem mem_keys_grantedBackup {x : Block 32} :
    x ∈ (grantedBackup msg descriptor granted).getKeys.map xonly ↔
      OpensAlone descriptor granted x := by
  have hown : ∀ root, root ∈ (aloneBackup msg descriptor).keys ↔
      (HasCandidate [descriptor] root ∧ xonly root ≠ bip341Nums) ∧
        ¬ HasExposure [descriptor] (xonly root) := by
    intro root
    rw [keys_aloneBackup, mem_keys_ofDescriptors, and_assoc]
    rfl
  rw [EncryptedBackup.getKeys, List.mem_map]
  rcases granted with _ | ⟨key, path⟩
  · simp only [grantedBackup, hown, OpensAlone]
    constructor
    · rintro ⟨root, ⟨⟨hroot, hnums⟩, hclear⟩, rfl⟩
      exact ⟨.inl ⟨root, hroot, rfl, hnums⟩, hclear⟩
    · rintro ⟨⟨root, hroot, rfl, hnums⟩ | ⟨answer, hanswer, -⟩, hclear⟩
      · exact ⟨root, ⟨⟨hroot, hnums⟩, hclear⟩, rfl⟩
      · cases hanswer
  · simp only [grantedBackup, mem_keys_withDevice, hown, mem_exposedKeys_aloneBackup, OpensAlone]
    constructor
    · rintro ⟨root, ⟨⟨⟨hroot, hnums⟩, -⟩ | rfl, hclear⟩, rfl⟩
      · exact ⟨.inl ⟨root, hroot, rfl, hnums⟩, hclear⟩
      · exact ⟨.inr ⟨_, rfl, rfl⟩, hclear⟩
    · rintro ⟨⟨root, hroot, rfl, hnums⟩ | ⟨answer, hanswer, rfl⟩, hclear⟩
      · exact ⟨root, ⟨.inl ⟨⟨hroot, hnums⟩, hclear⟩, hclear⟩, rfl⟩
      · obtain rfl := Option.some.inj hanswer
        exact ⟨key, ⟨.inr rfl, hclear⟩, rfl⟩

omit [Target] in
/-- The paths of the builder, in terms of the descriptor and the device. -/
theorem mem_derivationPaths_grantedBackup {path : DerivationPath} :
    path ∈ (grantedBackup msg descriptor granted).getDerivationPaths ↔
      LeadsAlone descriptor granted path := by
  have hown : path ∈ (aloneBackup msg descriptor).derivationPaths ↔
      ∃ root, HasCandidatePath [descriptor] root path ∧ xonly root ≠ bip341Nums ∧
        ¬ HasExposure [descriptor] (xonly root) := by
    rw [derivationPaths_aloneBackup, mem_derivationPaths_ofDescriptors]
    rfl
  rw [EncryptedBackup.getDerivationPaths]
  rcases granted with _ | ⟨key, devicePath⟩
  · simp only [grantedBackup, hown, LeadsAlone]
    refine ⟨.inl, fun hpath => hpath.resolve_right fun hgranted => ?_⟩
    obtain ⟨⟨answer, hanswer, -⟩, -⟩ := hgranted
    cases hanswer
  · simp only [grantedBackup, mem_derivationPaths_withDevice, hown, KeepsPath,
      mem_keyPaths_aloneBackup, mem_exposedKeys_aloneBackup, LeadsAlone]
    constructor
    · rintro ⟨hown | rfl, hkept⟩
      · exact .inl hown
      · obtain ⟨root, ⟨hroot, hnums⟩, hclear⟩ | hall := hkept
        · exact .inl ⟨root, hroot, hnums, hclear⟩
        · exact .inr ⟨⟨_, rfl, rfl⟩, fun root hroot hnums => hall root ⟨hroot, hnums⟩⟩
    · rintro (⟨root, hroot, hnums, hclear⟩ | ⟨⟨answer, hanswer, rfl⟩, hall⟩)
      · exact ⟨.inl ⟨root, hroot, hnums, hclear⟩, .inl ⟨root, ⟨hroot, hnums⟩, hclear⟩⟩
      · obtain rfl := Option.some.inj hanswer
        exact ⟨.inr rfl, .inr fun root hroot => hall root hroot.1 hroot.2⟩

/-- The builder encrypts, for some number of draws, what the encoder encrypts. -/
theorem exists_encrypt_grantedBackup_iff {source : ρ} :
    (∃ fuel encrypted, (grantedBackup msg descriptor granted).encrypt crypto
        (.drawn fuel rng source) = .ok encrypted) ↔
      Encrypts crypto rng source (grantedBackup msg descriptor granted).getDerivationPaths false
        (commandItems msg descriptor) ((grantedBackup msg descriptor granted).getKeys.map xonly)
        .none := by
  have hencrypts : (grantedBackup msg descriptor granted).Encrypts
      (commandItems msg descriptor) := by
    rcases granted with _ | ⟨key, path⟩
    · exact encrypts_aloneBackup
    · exact encrypts_withDevice encrypts_aloneBackup
  have hoptions : (grantedBackup msg descriptor granted).encryption = .chaCha20Poly1305 ∧
      (grantedBackup msg descriptor granted).version = .v1 ∧
      (grantedBackup msg descriptor granted).storeCommonPaths = false ∧
      (grantedBackup msg descriptor granted).padding = .none := by
    rcases granted with _ | ⟨key, path⟩ <;> cases msg <;> exact ⟨rfl, rfl, rfl, rfl⟩
  obtain ⟨hencryption, hversion, hcommon, hpadding⟩ := hoptions
  by_cases hkeys : (grantedBackup msg descriptor granted).keys = []
  · refine iff_of_false ?_ fun haccepted => ?_
    · rintro ⟨fuel, encrypted, hencrypt⟩
      exact keys_ne_nil_of_encrypt hencrypt hkeys
    · have hcount := haccepted.keyCount.1
      rw [EncryptedBackup.getKeys, hkeys] at hcount
      exact absurd hcount (by decide)
  · have hcall := EncryptedBackup.coreCall_eq_ok_iff.mpr
      ⟨hencryption, hversion, hkeys, _, hencrypts, rfl⟩
    rw [EncryptedBackup.exists_encrypt_eq_ok_iff hcall, exists_encryptItems_eq_ok_iff_encrypts,
      hcommon, hpadding]
    rfl

end Alone

/-- Without levels the command writes a file, for some number of draws, when the descriptor
file can be encrypted on its own. -/
theorem exists_encryptCommand_eq_ok_iff (hlevels : command.wrapLevels = .ok []) :
    (∃ fuel encrypted, encryptCommand crypto rng fuel source command = .ok encrypted) ↔
      EncryptsAlone crypto rng (source 0) command := by
  have hrun : ∀ fuel encrypted, encryptCommand crypto rng fuel source command = .ok encrypted ↔
      ∃ descriptor granted, Descriptor.fromStr (trim command.data) = some descriptor ∧
        command.device.map (· (ofDescriptors [descriptor]).getDerivationPaths) =
          granted.map .ok ∧
        (grantedBackup command.msg descriptor granted).encrypt crypto
          (.drawn fuel rng (source 0)) = .ok encrypted := by
    intro fuel encrypted
    simp only [encryptCommand_eq, Exec.bind_eq_ok_iff, outermostBackup_of_nil hlevels,
      Exec.mapErr_eq_ok_iff, descriptorBackup_eq, Except.ok.injEq]
    constructor
    · rintro ⟨backup, ⟨descriptor, pooled, hdescriptor, rfl, hadded⟩, hencrypt⟩
      obtain ⟨granted, hgrants, rfl⟩ := addDeviceKey_aloneBackup.mp hadded
      exact ⟨descriptor, granted, hdescriptor, hgrants, hencrypt⟩
    · rintro ⟨descriptor, granted, hdescriptor, hgrants, hencrypt⟩
      exact ⟨_, ⟨descriptor, _, hdescriptor, rfl,
        addDeviceKey_aloneBackup.mpr ⟨granted, hgrants, rfl⟩⟩, hencrypt⟩
  simp only [hrun]
  constructor
  · rintro ⟨fuel, encrypted, descriptor, granted, hdescriptor, hgrants, hencrypt⟩
    exact ⟨descriptor, granted, _, _, hdescriptor, hgrants, fun _ => mem_keys_grantedBackup,
      fun _ => mem_derivationPaths_grantedBackup,
      exists_encrypt_grantedBackup_iff.mp ⟨fuel, encrypted, hencrypt⟩⟩
  · rintro ⟨descriptor, granted, keys, paths, hdescriptor, hgrants, hkeys, hpaths, hencrypts⟩
    obtain ⟨fuel, encrypted, hencrypt⟩ := exists_encrypt_grantedBackup_iff.mpr (hencrypts.congr
      (fun path => (hpaths path).trans mem_derivationPaths_grantedBackup.symm)
      fun x => (hkeys x).trans mem_keys_grantedBackup.symm)
    exact ⟨fuel, encrypted, descriptor, granted, hdescriptor, hgrants, hencrypt⟩

/-- When `encrypt --keys` encrypts to the keys file and nothing else: exactly when the file
has a level line, or the descriptor file cannot be encrypted on its own. -/
theorem encryptsToFile_iff (crypto : Crypto) (rng : Rng ρ) (source : ℕ → ρ)
    (command : EncryptCommand) (text : String) :
    EncryptsToFile crypto rng source command text ↔
      levelLines text ≠ [] ∨ ¬ EncryptsAlone crypto rng (source 0) command := by
  rcases hlines : levelLines text with _ | ⟨line, rest⟩
  · have hlevels : EncryptCommand.wrapLevels { command with keys := some text } = .ok [] := by
      rw [EncryptCommand.wrapLevels, parseWrapKeys_eq_ok_iff, hlines]
      exact .nil
    simp only [ne_eq, not_true_eq_false, false_or]
    constructor
    · intro hfile halone
      obtain ⟨fuel, encrypted, hwritten⟩ := (exists_encryptCommand_eq_ok_iff hlevels).mpr halone
      obtain ⟨_, _, _, _, -, -, hnone, -⟩ := hfile fuel encrypted hwritten
      rw [hlines] at hnone
      cases hnone
    · intro halone fuel encrypted hwritten
      exact absurd ((exists_encryptCommand_eq_ok_iff hlevels).mp ⟨fuel, encrypted, hwritten⟩) halone
  · refine iff_of_true (fun fuel encrypted hwritten => ?_) (.inl (List.cons_ne_nil _ _))
    rw [encryptCommand_eq] at hwritten
    obtain ⟨backup, hbackup, hencrypt⟩ := Exec.bind_eq_ok_iff.mp hwritten
    obtain ⟨levels, hlevels, -⟩ := Exec.bind_eq_ok_iff.mp hbackup
    have hparse : parseWrapKeys text = .ok levels := hlevels
    rw [parseWrapKeys_eq_ok_iff, hlines, List.forall₂_cons_left_iff] at hparse
    obtain ⟨level, inner, hlevel, -, rfl⟩ := hparse
    obtain ⟨payloads, hfirst⟩ := exists_levelBackup_of_outermostBackup hlevels hbackup
    rw [Exec.mapErr_eq_ok_iff] at hencrypt
    refine ⟨backup, line, rest, level, hbackup, hencrypt, hlines, hlevel,
      keys_ne_nil_of_encrypt hencrypt, fun key hkey => ?_⟩
    obtain ⟨-, -, parts, -, rfl⟩ := levelBackup_eq_ok_iff.mp hfirst
    rw [keys_levelBuilder] at hkey
    exact List.mem_of_mem_filter hkey

end Written

namespace Sample

open Bip138.Sample

/-- The account, in a file of its own. -/
def accountCommand : EncryptCommand :=
  ⟨"wpkh(" ++ tpub ++ "/0/*)#ls6kg93q\n", none, none, none⟩

/-- A keys file that is still to be filled in. -/
def emptyFile : String := "# outer level\n\n# inner level\n"

end Sample

open Bip138.Sample Sample in
/-- With the file that is still to be filled in, the account is encrypted to its own key. -/
theorem not_encryptsToFile :
    ¬ EncryptsToFile sampleCrypto countingRng (fun _ => 1) accountCommand emptyFile := by
  intro hfile
  obtain ⟨encrypted, hwritten, -⟩ := Exec.exists_eq_ok
    (encryptCommand sampleCrypto countingRng 10 (fun _ => 1)
      { accountCommand with keys := some emptyFile }) (fun _ => true) (by decide +kernel)
  obtain ⟨_, line, rest, _, -, -, hlines, -⟩ := hfile 10 encrypted hwritten
  have hnone : levelLines emptyFile = [] := by decide +kernel
  rw [hnone] at hlines
  cases hlines

end Bip138.Cli
