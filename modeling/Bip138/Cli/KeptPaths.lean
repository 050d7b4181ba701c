/-
# The paths of the recipients of a level

A recipient that holds a signing device finds the key of a level by its origin path, so a
level stores the paths of its keys. They are set by hand, over those of the payload, and
then go through the filter of the exposed keys: a path goes with the exposed keys that have
it unless a kept key of the payload has it too. The kept keys of the level are not asked.

So a recipient loses its path exactly when the descriptor has the path too and all its
encryption keys there are exposed (`keepsPaths_iff`).
-/

import Bip138.Cli.Levels

namespace Bip138.Cli

open Bip138.Rust Bip138.Ll

/-- Every key of the level that the builder encrypts to has its origin path among those the
builder stores. -/
def KeepsPaths (level : WrapLevel) (backup : EncryptedBackup) : Prop :=
  ∀ key ∈ level.keys, ∀ root path, dpkToRootPk key = .ok root → root ∈ backup.keys →
    originPath key = some path → path ∈ backup.derivationPaths

section Builder

variable {level : WrapLevel} {payloads : List ToPayload} {parts : List Contribution}

/-- A path of a level stays when a kept key of the payloads has it, or no exposed one has. -/
theorem mem_derivationPaths_levelBuilder {path : DerivationPath} :
    path ∈ (levelBuilder level parts).derivationPaths ↔
      path ∈ wrapLevelDerivationPaths level ∧
        ((∃ key, (key, path) ∈ parts.flatMap Contribution.keyPaths ∧
            xonly key ∉ parts.flatMap Contribution.exposedKeys) ∨
          ∀ key, (key, path) ∈ parts.flatMap Contribution.keyPaths →
            xonly key ∉ parts.flatMap Contribution.exposedKeys) :=
  EncryptedBackup.mem_derivationPaths_dropExposedKeys

/-- The pooled paths are those of the payloads. -/
theorem mem_flatMap_keyPaths (hparts : List.Forall₂ ToPayload.Contributes payloads parts)
    {pair : PublicKey × DerivationPath} :
    pair ∈ parts.flatMap Contribution.keyPaths ↔
      ∃ payload ∈ payloads, ∃ pairs, payload.keyDerivationPaths = .ok pairs ∧ pair ∈ pairs := by
  induction hparts with
  | nil => simp
  | cons hpart _ ih =>
      rw [List.flatMap_cons, List.mem_append, ih, List.exists_mem_cons_iff, hpart.keyPaths]
      simp

end Builder

section Descriptor

variable [Miniscript] {level : WrapLevel} {msg : Option String} {descriptor : Descriptor}

/-- A literal key or a bare xpub of the descriptor puts this x-coordinate on chain. -/
def Exposed (descriptor : Descriptor) (x : Block 32) : Prop :=
  ∃ key ∈ Miniscript.forEachKey descriptor, Exposes key x

/-- The path is the origin path of an encryption key of the descriptor with this root. -/
def HasPath (descriptor : Descriptor) (root : PublicKey) (path : DerivationPath) : Prop :=
  ∃ key ∈ Miniscript.forEachKey descriptor, Derived key root ∧ root.x ≠ bip341Nums ∧
    originPath key = some path

/-- The descriptor has encryption keys at this path, and exposes all of them. -/
def ExposesPath (descriptor : Descriptor) (path : DerivationPath) : Prop :=
  (∃ root, HasPath descriptor root path) ∧
    ∀ root, HasPath descriptor root path → Exposed descriptor root.x

theorem mem_descriptorPayloads {payload : ToPayload} :
    payload ∈ descriptorPayloads level msg descriptor ↔
      (∃ text, (level.msg = some text ∨ msg = some text) ∧ payload = .ofString text) ∨
        payload = .ofDescriptor descriptor := by
  simp only [descriptorPayloads, List.mem_append, List.mem_map, Option.mem_toList,
    List.mem_singleton, or_and_right, exists_or, eq_comm]

section Parts

variable {parts : List Contribution}
  (hparts : List.Forall₂ ToPayload.Contributes (descriptorPayloads level msg descriptor) parts)
include hparts

/-- The notes have no paths: those pooled in the innermost level are the descriptor's. -/
theorem mem_keyPaths_descriptorPayloads {root : PublicKey} {path : DerivationPath} :
    (root, path) ∈ parts.flatMap Contribution.keyPaths ↔ HasPath descriptor root path := by
  rw [mem_flatMap_keyPaths hparts, HasPath, ← mem_keyPaths_descrToDpks]
  constructor
  · rintro ⟨payload, hpayload, pairs, hpairs, hpair⟩
    rcases mem_descriptorPayloads.mp hpayload with ⟨text, -, rfl⟩ | rfl
    · cases hpairs
      exact absurd hpair List.not_mem_nil
    · cases hpairs
      exact hpair
  · intro hpair
    exact ⟨_, mem_descriptorPayloads.mpr (.inr rfl), _, rfl, hpair⟩

/-- The notes expose nothing either. -/
theorem mem_exposedKeys_descriptorPayloads {x : Block 32} :
    x ∈ parts.flatMap Contribution.exposedKeys ↔ Exposed descriptor x := by
  rw [BuilderCall.mem_flatMap_exposedKeys hparts, Exposed, ← mem_descrExposedKeys]
  constructor
  · rintro ⟨payload, hpayload, hx⟩
    rcases mem_descriptorPayloads.mp hpayload with ⟨text, -, rfl⟩ | rfl
    · exact absurd hx List.not_mem_nil
    · exact hx
  · intro hx
    exact ⟨_, mem_descriptorPayloads.mpr (.inr rfl), hx⟩

/-- A path of the level is stored unless the descriptor exposes all its keys there. -/
theorem mem_derivationPaths_descriptorPayloads {path : DerivationPath} :
    path ∈ (levelBuilder level parts).derivationPaths ↔
      path ∈ wrapLevelDerivationPaths level ∧ ¬ ExposesPath descriptor path := by
  rw [mem_derivationPaths_levelBuilder, ExposesPath]
  simp only [mem_keyPaths_descriptorPayloads hparts, mem_exposedKeys_descriptorPayloads hparts,
    xonly]
  apply and_congr_right
  intro _
  constructor
  · rintro (⟨root, hroot, hkept⟩ | hkept) ⟨⟨other, hother⟩, hexposed⟩
    · exact hkept (hexposed root hroot)
    · exact hkept other hother (hexposed other hother)
  · intro hnot
    by_cases hkept : ∃ root, HasPath descriptor root path ∧ ¬ Exposed descriptor root.x
    · exact .inl hkept
    · push Not at hkept
      exact .inr fun root hroot _ => hnot ⟨⟨root, hroot⟩, hkept⟩

/-- A key of the level is kept unless the descriptor exposes it. -/
theorem mem_keys_descriptorPayloads {root : PublicKey} :
    root ∈ (levelBuilder level parts).keys ↔
      root ∈ wrapLevelPublicKeys level ∧ ¬ Exposed descriptor root.x := by
  rw [keys_levelBuilder, List.mem_filter, decide_eq_true_eq,
    mem_exposedKeys_descriptorPayloads hparts, xonly]

end Parts

omit [Miniscript] in
/-- The builder of an outer level has no key paths to drop. -/
theorem mem_derivationPaths_wrapPayloads {bytes : Bytes} {parts : List Contribution}
    (hparts : List.Forall₂ ToPayload.Contributes (wrapPayloads level bytes) parts)
    {path : DerivationPath} (hpath : path ∈ wrapLevelDerivationPaths level) :
    path ∈ (levelBuilder level parts).derivationPaths := by
  rw [mem_derivationPaths_levelBuilder]
  refine ⟨hpath, .inr fun key hpair => absurd hpair ?_⟩
  rw [mem_flatMap_keyPaths hparts]
  rintro ⟨payload, hpayload, pairs, hpairs, hpair⟩
  have hnone : payload.keyDerivationPaths = .ok [] := by
    rcases List.mem_append.mp hpayload with hnote | hlast
    · obtain ⟨text, -, rfl⟩ := List.mem_map.mp hnote
      rfl
    · obtain rfl := List.mem_singleton.mp hlast
      rfl
  rw [hnone, Except.ok.injEq] at hpairs
  rw [← hpairs] at hpair
  exact absurd hpair List.not_mem_nil

/-- Which recipients keep their paths. Around a descriptor, all of them do exactly when no
key of the level that the descriptor leaves unexposed has its origin at a path where the
descriptor has encryption keys and exposes every one of them. Around a backup, all do. -/
theorem keepsPaths_iff (level : WrapLevel) (msg : Option String) (descriptor : Descriptor) :
    (∀ backup, levelBackup level (descriptorPayloads level msg descriptor) = .ok backup →
      (KeepsPaths level backup ↔
        ∀ key ∈ level.keys, ∀ root path, dpkToRootPk key = .ok root →
          originPath key = some path → ¬ Exposed descriptor root.x →
            ¬ ExposesPath descriptor path)) ∧
    ∀ bytes backup, levelBackup level (wrapPayloads level bytes) = .ok backup →
      KeepsPaths level backup := by
  constructor
  · intro backup hbackup
    obtain ⟨-, -, parts, hparts, rfl⟩ := levelBackup_eq_ok_iff.mp hbackup
    constructor
    · intro hkeeps key hkey root path hroot hpath hkept
      have hmem := hkeeps key hkey root path hroot
        ((mem_keys_descriptorPayloads hparts).mpr
          ⟨mem_wrapLevelPublicKeys.mpr ⟨key, hkey, hroot⟩, hkept⟩) hpath
      exact ((mem_derivationPaths_descriptorPayloads hparts).mp hmem).2
    · intro hclear key hkey root path hroot hmem hpath
      have hkept := ((mem_keys_descriptorPayloads hparts).mp hmem).2
      refine (mem_derivationPaths_descriptorPayloads hparts).mpr ⟨?_, ?_⟩
      · exact mem_wrapLevelDerivationPaths.mpr ⟨key, hkey, ⟨root, hroot⟩, hpath⟩
      · exact hclear key hkey root path hroot hpath hkept
  · intro bytes backup hbackup key hkey root path hroot _ hpath
    obtain ⟨-, -, parts, hparts, rfl⟩ := levelBackup_eq_ok_iff.mp hbackup
    exact mem_derivationPaths_wrapPayloads hparts
      (mem_wrapLevelDerivationPaths.mpr ⟨key, hkey, ⟨root, hroot⟩, hpath⟩)

end Descriptor

/-- A descriptor of the form `wsh(sortedmulti(threshold,...))`. -/
structure SortedMulti (Pk : Type) where
  threshold : ℕ
  keys : List Pk

namespace TwoDevices

open Bip138.Sample (tpub xkey otherXkey masterFingerprint receiveAndChange)

/-- The origin path of two devices that are not each other's. -/
def sharedPath : DerivationPath := [hardened 48, hardened 1, hardened 10, hardened 2]

/-- An encryption key of the first device, whose root the descriptor also has bare. -/
def exposedKey : DescriptorKey :=
  .multiXPub ⟨some (masterFingerprint, sharedPath), xkey, receiveAndChange, .unhardened⟩

def bareKey : DescriptorKey := .xPub ⟨none, xkey, [], .none⟩

/-- A miniscript that visits, translates and prints that one form of descriptor, and prints
it of those two keys. -/
scoped instance sortedMulti : Miniscript where
  Descriptor := SortedMulti
  forEachKey descriptor := descriptor.keys
  translatePk pk descriptor state :=
    match (descriptor.keys.mapM pk).run state with
    | .ok (keys, state) => .ok (⟨descriptor.threshold, keys⟩, state)
    | .error cause => .error (.translatorErr cause)
  descriptorFromStr _ _ := none
  descriptorToString _ :=
    "wsh(sortedmulti(1,[58b7f8dc/48'/1'/10'/2']" ++ tpub ++ "/<0;1>/*," ++ tpub ++ "))#v4fv6265"
  keyFromStr _ := none
  isMultipath descriptor := descriptor.keys.any (·.isMultipath)
  derivPathsNew := DerivPaths.ofList

/-- Either path of the first device spends. -/
def exposing : Descriptor := ⟨1, [exposedKey, bareKey]⟩

/-- One path of the first device spends. -/
def unexposing : Descriptor := ⟨1, [exposedKey]⟩

/-- The key of the second device, at the same path from its own master key. -/
def recipient : DescriptorKey :=
  .xPub ⟨some (.literal [0x74, 0x8f, 0x75, 0x13], sharedPath), otherXkey, [], .none⟩

def recipientRoot : PublicKey := otherXkey.publicKey

def recipientLevel : WrapLevel := ⟨none, [recipient]⟩

end TwoDevices

open TwoDevices in
/-- The second device is encrypted to, and its path is not stored. -/
theorem not_keepsPaths :
    ¬ ∀ (level : WrapLevel) (msg : Option String) (descriptor : Descriptor) backup,
      levelBackup level (descriptorPayloads level msg descriptor) = .ok backup →
        KeepsPaths level backup := by
  intro hkeeps
  obtain ⟨backup, hbackup, htest⟩ := Exec.exists_eq_ok
    (levelBackup recipientLevel (descriptorPayloads recipientLevel none exposing))
    (fun backup => decide (recipientRoot ∈ backup.keys ∧ sharedPath ∉ backup.derivationPaths))
    (by decide +kernel)
  obtain ⟨hkept, hlost⟩ := of_decide_eq_true htest
  exact hlost (hkeeps recipientLevel none exposing backup hbackup recipient
    (List.mem_singleton_self _) recipientRoot sharedPath rfl hkept rfl)

open TwoDevices in
/-- The second device keeps its path around a descriptor that exposes no key, and around a
backup. -/
theorem keepsPaths_iff_sample :
    (∃ backup, levelBackup recipientLevel (descriptorPayloads recipientLevel none unexposing) =
        .ok backup ∧ KeepsPaths recipientLevel backup) ∧
    ∃ backup, levelBackup recipientLevel (wrapPayloads recipientLevel [0x01]) = .ok backup ∧
      KeepsPaths recipientLevel backup := by
  obtain ⟨inner, hinner, -⟩ := Exec.exists_eq_ok
    (levelBackup recipientLevel (descriptorPayloads recipientLevel none unexposing))
    (fun _ => true) (by decide +kernel)
  obtain ⟨outer, houter, -⟩ := Exec.exists_eq_ok
    (levelBackup recipientLevel (wrapPayloads recipientLevel [0x01])) (fun _ => true)
    (by decide +kernel)
  have hiff := keepsPaths_iff recipientLevel none unexposing
  refine ⟨⟨inner, hinner, (hiff.1 inner hinner).mpr ?_⟩, outer, houter, hiff.2 [0x01] outer houter⟩
  -- nothing is exposed, and so no path of the first device is
  rintro key - root path - - - ⟨⟨other, hpath⟩, hall⟩
  obtain ⟨exposed, hmem, hexposes⟩ := hall other hpath
  obtain rfl := List.mem_singleton.mp hmem
  cases hexposes

end Bip138.Cli
