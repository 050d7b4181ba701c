/-
# Which keys are recipients

The key set and the derivation paths that a list of descriptors leads to. Whether an
expression may encrypt is a matter of the expression alone; whether its root is
excluded depends on every expression of every descriptor of the list. Neither
depends on the order of the list.
-/

import Bip138.Front.Operations

namespace Bip138

open Bip138.Rust Bip138.Ll

variable [Miniscript]

/-- What a descriptor contributes. -/
def descriptorPart (descriptor : Descriptor) : Contribution where
  item := (.bip380, asBytes descriptor.toString)
  keyPaths := dpksToKeyPaths (descrToDpks descriptor)
  keys := (dpksToDerivationKeysPaths (descrToDpks descriptor)).1
  warnings := (descrWarnings descriptor).toOption.getD []
  exposedKeys := descrExposedKeys descriptor

theorem contributes_descriptorPart (descriptor : Descriptor) :
    (ToPayload.ofDescriptor descriptor).Contributes (descriptorPart descriptor) where
  item := ⟨_, rfl, rfl⟩
  keyPaths := rfl
  keys := rfl
  warnings := rfl
  exposedKeys := rfl

/-- The descriptors have an expression that may encrypt, with this root. -/
def HasCandidate (descriptors : List Descriptor) (root : PublicKey) : Prop :=
  ∃ descriptor ∈ descriptors, ∃ expression ∈ Miniscript.forEachKey descriptor,
    Derived expression root

/-- The descriptors have an expression that puts this key on chain. -/
def HasExposure (descriptors : List Descriptor) (x : Block 32) : Prop :=
  ∃ descriptor ∈ descriptors, ∃ expression ∈ Miniscript.forEachKey descriptor, Exposes expression x

/-- The descriptors have an expression that may encrypt, with this root and this path
from the master key. -/
def HasCandidatePath (descriptors : List Descriptor) (root : PublicKey) (path : DerivationPath) :
    Prop :=
  ∃ descriptor ∈ descriptors, ∃ expression ∈ Miniscript.forEachKey descriptor,
    Derived expression root ∧ originPath expression = some path

/-- The descriptors gathered on a new builder, before the exposed keys are dropped. -/
def gathered (descriptors : List Descriptor) : EncryptedBackup :=
  EncryptedBackup.new.gather (descriptors.map descriptorPart)

/-- The builder a list of descriptors leads to. Setting them always succeeds. -/
def ofDescriptors (descriptors : List Descriptor) : EncryptedBackup :=
  { (gathered descriptors).dropExposedKeys with
    payload := .encryptMany (descriptors.map fun descriptor =>
      (.bip380, asBytes descriptor.toString)) }

variable {descriptors : List Descriptor}

/-- Descriptors set on a new builder with these options. -/
theorem setPayloads_ofDescriptor_of_options (padding : Padding) (storeCommonPaths : Bool)
    (descriptors : List Descriptor) :
    ((EncryptedBackup.new.setPadding padding).setStoreCommonPaths storeCommonPaths).setPayloads
        (descriptors.map .ofDescriptor) =
      .ok (((ofDescriptors descriptors).setPadding padding).setStoreCommonPaths
        storeCommonPaths) := by
  refine EncryptedBackup.setPayloads_eq_ok_iff.mpr ⟨?_, descriptors.map descriptorPart, ?_, ?_⟩
  · intro payload hpayload
    obtain ⟨descriptor, -, rfl⟩ := List.mem_map.mp hpayload
    rfl
  · rw [List.forall₂_map_left_iff, List.forall₂_map_right_iff, List.forall₂_same]
    exact fun descriptor _ => contributes_descriptorPart descriptor
  · rw [List.map_map]
    rfl

theorem setPayloads_ofDescriptor (descriptors : List Descriptor) :
    EncryptedBackup.new.setPayloads (descriptors.map .ofDescriptor) =
      .ok (ofDescriptors descriptors) :=
  setPayloads_ofDescriptor_of_options .none false descriptors

theorem mem_exposedKeys_gathered {x : Block 32} :
    x ∈ (gathered descriptors).exposedKeys ↔ HasExposure descriptors x := by
  simp [gathered, EncryptedBackup.gather, EncryptedBackup.new, List.flatMap_map, descriptorPart,
    HasExposure]

theorem mem_keys_gathered {root : PublicKey} :
    root ∈ (gathered descriptors).keys ↔
      HasCandidate descriptors root ∧ root.x ≠ bip341Nums := by
  simp only [gathered, EncryptedBackup.gather, EncryptedBackup.new, List.nil_append,
    List.flatMap_map, List.mem_flatMap, descriptorPart, mem_keys_descrToDpks, HasCandidate]
  simp only [← and_assoc, exists_and_right]

theorem mem_keyPaths_gathered {root : PublicKey} {path : DerivationPath} :
    (root, path) ∈ (gathered descriptors).keyPaths ↔
      HasCandidatePath descriptors root path ∧ root.x ≠ bip341Nums := by
  simp only [gathered, EncryptedBackup.gather, EncryptedBackup.new, List.nil_append,
    List.flatMap_map, List.mem_flatMap, descriptorPart, mem_keyPaths_descrToDpks,
    HasCandidatePath]
  refine ⟨fun hgathered => ?_, fun hcandidate => ?_⟩
  · obtain ⟨descriptor, hdescriptor, expression, hexpression, hroot, hnums, hpath⟩ := hgathered
    exact ⟨⟨descriptor, hdescriptor, expression, hexpression, hroot, hpath⟩, hnums⟩
  · obtain ⟨⟨descriptor, hdescriptor, expression, hexpression, hroot, hpath⟩, hnums⟩ := hcandidate
    exact ⟨descriptor, hdescriptor, expression, hexpression, hroot, hnums, hpath⟩

/-- A path is gathered with the keys that have it. -/
private theorem mem_derivationPaths_gathered {path : DerivationPath} :
    path ∈ (gathered descriptors).derivationPaths ↔
      ∃ root, (root, path) ∈ (gathered descriptors).keyPaths := by
  simp only [gathered, EncryptedBackup.gather, EncryptedBackup.new, List.nil_append,
    List.mem_flatMap, List.mem_map, Prod.exists, exists_eq_right]
  refine ⟨fun hpaths => ?_, fun hkeyPaths => ?_⟩
  · obtain ⟨part, hpart, root, hpath⟩ := hpaths
    exact ⟨root, part, hpart, hpath⟩
  · obtain ⟨root, part, hpart, hpath⟩ := hkeyPaths
    exact ⟨part, hpart, root, hpath⟩

/-- The keys are the roots of the expressions that may encrypt, without the NUMS key
and those any expression of the list exposes. -/
theorem mem_keys_ofDescriptors {root : PublicKey} :
    root ∈ (ofDescriptors descriptors).keys ↔
      HasCandidate descriptors root ∧ root.x ≠ bip341Nums ∧ ¬ HasExposure descriptors root.x := by
  rw [ofDescriptors]
  dsimp only
  rw [EncryptedBackup.keys_dropExposedKeys, List.mem_filter, decide_eq_true_eq, mem_keys_gathered,
    mem_exposedKeys_gathered, and_assoc]
  rfl

/-- The derivation paths are the origin paths of the expressions whose root is a key. -/
theorem mem_derivationPaths_ofDescriptors {path : DerivationPath} :
    path ∈ (ofDescriptors descriptors).derivationPaths ↔
      ∃ root, HasCandidatePath descriptors root path ∧ root.x ≠ bip341Nums ∧
        ¬ HasExposure descriptors root.x := by
  rw [ofDescriptors]
  dsimp only
  rw [EncryptedBackup.mem_derivationPaths_dropExposedKeys, mem_derivationPaths_gathered]
  simp only [mem_keyPaths_gathered, mem_exposedKeys_gathered]
  refine ⟨fun hpath => ?_, fun hkey => ?_⟩
  · obtain ⟨⟨root, hroot⟩, hkept⟩ := hpath
    rcases hkept with ⟨kept, ⟨hpath, hnums⟩, hclear⟩ | hall
    · exact ⟨kept, hpath, hnums, hclear⟩
    · exact ⟨root, hroot.1, hroot.2, hall root hroot⟩
  · obtain ⟨root, hpath, hnums, hclear⟩ := hkey
    exact ⟨⟨root, hpath, hnums⟩, .inl ⟨root, ⟨hpath, hnums⟩, hclear⟩⟩

/-- The x-only keys of the builder, in terms of single expressions. -/
theorem mem_xonly_getKeys_ofDescriptors {x : Block 32} :
    x ∈ (ofDescriptors descriptors).getKeys.map xonly ↔
      (∃ descriptor ∈ descriptors, ∃ expression ∈ Miniscript.forEachKey descriptor, ∃ root,
        Derived expression root ∧ xonly root = x) ∧
      x ≠ bip341Nums ∧
      ∀ descriptor ∈ descriptors, ∀ expression ∈ Miniscript.forEachKey descriptor,
        ¬ Exposes expression x := by
  have hclear : ∀ x, (∀ descriptor ∈ descriptors, ∀ expression ∈ Miniscript.forEachKey descriptor,
      ¬ Exposes expression x) ↔ ¬ HasExposure descriptors x := by
    simp [HasExposure]
  rw [EncryptedBackup.getKeys, List.mem_map, hclear]
  simp only [mem_keys_ofDescriptors]
  refine ⟨?_, ?_⟩
  · rintro ⟨root, ⟨⟨descriptor, hdescriptor, expression, hexpression, hroot⟩, hkept⟩, rfl⟩
    exact ⟨⟨descriptor, hdescriptor, expression, hexpression, root, hroot, rfl⟩, hkept⟩
  · rintro ⟨⟨descriptor, hdescriptor, expression, hexpression, root, hroot, rfl⟩, hkept⟩
    exact ⟨root, ⟨⟨descriptor, hdescriptor, expression, hexpression, hroot⟩, hkept⟩, rfl⟩

/-- The derivation paths of the builder, in terms of its keys. -/
theorem mem_getDerivationPaths_ofDescriptors {path : DerivationPath} :
    path ∈ (ofDescriptors descriptors).getDerivationPaths ↔
      ∃ descriptor ∈ descriptors, ∃ expression ∈ Miniscript.forEachKey descriptor, ∃ root,
        Derived expression root ∧ originPath expression = some path ∧
          xonly root ∈ (ofDescriptors descriptors).getKeys.map xonly := by
  rw [EncryptedBackup.getDerivationPaths, mem_derivationPaths_ofDescriptors]
  refine ⟨?_, ?_⟩
  · rintro ⟨root, ⟨descriptor, hdescriptor, expression, hexpression, hroot, hpath⟩, hkept⟩
    have hcandidate : HasCandidate descriptors root :=
      ⟨descriptor, hdescriptor, expression, hexpression, hroot⟩
    exact ⟨descriptor, hdescriptor, expression, hexpression, root, hroot, hpath,
      List.mem_map_of_mem (mem_keys_ofDescriptors.mpr ⟨hcandidate, hkept⟩)⟩
  · rintro ⟨descriptor, hdescriptor, expression, hexpression, root, hroot, hpath, hkey⟩
    obtain ⟨key, hkey, hequal⟩ := List.mem_map.mp hkey
    obtain ⟨-, hnums, hclear⟩ := mem_keys_ofDescriptors.mp hkey
    -- the key may be another root with the same x-coordinate, which is all that counts
    have hx : root.x = key.x := hequal.symm
    rw [← hx] at hnums hclear
    exact ⟨root, ⟨descriptor, hdescriptor, expression, hexpression, hroot, hpath⟩, hnums, hclear⟩

/-- Recipient selection. A key is among the x-only keys of the builder exactly when
it is the root of an expression that may encrypt, is not the NUMS key, and is exposed
by no expression of any descriptor of the list; the paths are the origin paths of the
expressions with such a root. The order of the list makes no difference. -/
theorem getKeys_setPayloads_ofDescriptor (descriptors : List Descriptor) :
    ∃ backup,
      EncryptedBackup.new.setPayloads (descriptors.map .ofDescriptor) = .ok backup ∧
      (∀ x, x ∈ backup.getKeys.map xonly ↔
        (∃ descriptor ∈ descriptors, ∃ expression ∈ Miniscript.forEachKey descriptor, ∃ root,
          Derived expression root ∧ xonly root = x) ∧
        x ≠ bip341Nums ∧
        ∀ descriptor ∈ descriptors, ∀ expression ∈ Miniscript.forEachKey descriptor,
          ¬ Exposes expression x) ∧
      (∀ path, path ∈ backup.getDerivationPaths ↔
        ∃ descriptor ∈ descriptors, ∃ expression ∈ Miniscript.forEachKey descriptor, ∃ root,
          Derived expression root ∧ originPath expression = some path ∧
            xonly root ∈ backup.getKeys.map xonly) ∧
      ∀ others : List Descriptor, others.Perm descriptors → ∃ backup',
        EncryptedBackup.new.setPayloads (others.map .ofDescriptor) = .ok backup' ∧
        (∀ x, x ∈ backup'.getKeys.map xonly ↔ x ∈ backup.getKeys.map xonly) ∧
        ∀ path, path ∈ backup'.getDerivationPaths ↔ path ∈ backup.getDerivationPaths := by
  refine ⟨ofDescriptors descriptors, setPayloads_ofDescriptor descriptors,
    fun _ => mem_xonly_getKeys_ofDescriptors, fun _ => mem_getDerivationPaths_ofDescriptors, ?_⟩
  intro others hperm
  have hkeys : ∀ x, x ∈ (ofDescriptors others).getKeys.map xonly ↔
      x ∈ (ofDescriptors descriptors).getKeys.map xonly := by
    intro x
    simp only [mem_xonly_getKeys_ofDescriptors, hperm.mem_iff]
  refine ⟨ofDescriptors others, setPayloads_ofDescriptor others, hkeys, fun path => ?_⟩
  simp only [mem_getDerivationPaths_ofDescriptors, hperm.mem_iff, hkeys]

end Bip138
