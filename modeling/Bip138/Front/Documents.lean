/-
# Backup documents

The two JSON documents a backup can hold: a BIP380 document of descriptors and a
BIP388 document of wallet policies. Reading a document back ends with `validate`.
The two differ on the way in: a policy document is validated before its keys are
used, and a descriptor document is encrypted as it is.

The library derives the JSON form of its structures with serde. What `serde_json`
and the derived code do is a parameter here, and `SerdeJson.RoundTrip` is what a
theorem assumes of it.
-/

import Bip138.Front.Payload

namespace Bip138

open Bip138.Rust Bip138.Ll

/-- `serde_json`, as far as it does not depend on the type that is read. -/
class SerdeJson where
  Value : Type
  /-- `from_str::<Value>`. -/
  valueFromStr : String → Option Value
  /-- The keys of `as_object`. -/
  asObject : Value → Option (List String)

/-- A type with derived `Serialize` and `Deserialize`. -/
class Serde [SerdeJson] (α : Type) where
  toVec : α → Option Bytes
  fromStr : String → Option α
  fromValue : SerdeJson.Value → Option α

/-- What is written of a structure is read back: it is the text of an object that
has these keys among its own and lacks those, and both ways of reading it yield the
structure. -/
def SerdeJson.RoundTrip {α : Type} [SerdeJson] [Serde α] (value : α)
    (present absent : List String) : Prop :=
  ∀ bytes, Serde.toVec value = some bytes →
    ∃ text json names, bytes = asBytes text ∧ startsWithChar text '{' = true ∧
      Serde.fromStr text = some value ∧
      SerdeJson.valueFromStr text = some json ∧ SerdeJson.asObject json = some names ∧
      (∀ name ∈ present, name ∈ names) ∧ (∀ name ∈ absent, name ∉ names) ∧
      Serde.fromValue json = some value

/-- Document version of both documents. -/
def documentVersion : UInt32 := 1

structure DescriptorSet [Miniscript] where
  descriptor : Descriptor
  changeDescriptor : Option Descriptor
  archived : Bool
  range : Option (UInt32 × UInt32)
  birthTime : Option UInt64

structure DescriptorBackup [Miniscript] where
  version : UInt32
  descriptorSets : List DescriptorSet

structure PolicySet where
  keys : List DescriptorKey
  policy : String
  archived : Bool
  range : Option (UInt32 × UInt32)
  birthTime : Option UInt64

structure PolicyBackup where
  version : UInt32
  policySets : List PolicySet

namespace DescriptorBackup

variable [Miniscript]

/-- One pass of the loop of `validate`. -/
def validateSet (set : DescriptorSet) : Exec Error Unit :=
  if isMultipath set.descriptor ∧ set.changeDescriptor.isSome then .fail .descriptorBackup
  else .ok ()

/-- Reject a wrong version, a document without sets, and a multipath descriptor
paired with a change descriptor. -/
def validate (backup : DescriptorBackup) : Exec Error Unit :=
  if backup.version ≠ documentVersion ∨ backup.descriptorSets.isEmpty then
    .fail .descriptorBackup
  else backup.descriptorSets.forM validateSet

/-- Every descriptor and change descriptor across all sets. -/
def descriptors (backup : DescriptorBackup) : List Descriptor :=
  backup.descriptorSets.flatMap fun set => set.descriptor :: set.changeDescriptor.toList

def keyDerivationPaths (backup : DescriptorBackup) : List (PublicKey × DerivationPath) :=
  let keyPaths : BTreeSet (PublicKey ×ₗ DerivationPath) := backup.descriptors.foldl
    (fun keyPaths descriptor =>
      keyPaths.extend ((dpksToKeyPaths (descrToDpks descriptor)).map toLex)) .empty
  keyPaths.toList.map ofLex

def keys (backup : DescriptorBackup) : List PublicKey :=
  let keys : BTreeSet PublicKey := backup.descriptors.foldl (fun keys descriptor =>
    keys.extend (dpksToDerivationKeysPaths (descrToDpks descriptor)).1) .empty
  keys.toList

def warnings (backup : DescriptorBackup) : Exec Error (List Warning) :=
  backup.descriptors.foldlM (fun warnings descriptor => do
    let found ← descrWarnings descriptor
    .ok (found.foldl pushWarning warnings)) []

def exposedKeys (backup : DescriptorBackup) : List (Block 32) :=
  let keys : BTreeSet (Block 32) := backup.descriptors.foldl (fun keys descriptor =>
    keys.extend (descrExposedKeys descriptor)) .empty
  keys.toList

/-- What `validate` accepts. -/
theorem validate_eq_ok_iff {backup : DescriptorBackup} :
    backup.validate = .ok () ↔ backup.version = documentVersion ∧ backup.descriptorSets ≠ [] ∧
      ∀ set ∈ backup.descriptorSets,
        ¬ (isMultipath set.descriptor = true ∧ set.changeDescriptor.isSome = true) := by
  have hset : ∀ set, validateSet set = .ok () ↔
      ¬ (isMultipath set.descriptor = true ∧ set.changeDescriptor.isSome = true) := by
    intro set
    rw [validateSet, Exec.guard_eq_ok_iff, and_iff_left rfl]
  rw [validate, Exec.guard_eq_ok_iff, Exec.forM_eq_ok_iff, not_or, not_not, List.isEmpty_iff,
    and_assoc]
  simp only [hset, ne_eq]

/-- The keys are the roots of the derived expressions of the descriptors, without the
NUMS key. -/
theorem mem_keys {backup : DescriptorBackup} {root : PublicKey} :
    root ∈ backup.keys ↔ ∃ descriptor ∈ backup.descriptors,
      ∃ key ∈ Miniscript.forEachKey descriptor, Derived key root ∧ root.x ≠ bip341Nums := by
  simp only [← mem_keys_descrToDpks]
  rw [keys, BTreeSet.mem_toList,
    foldl_iff (fun set : BTreeSet PublicKey => root ∈ set)
      (fun descriptor => root ∈ (dpksToDerivationKeysPaths (descrToDpks descriptor)).1)]
  · simp
  · intro set descriptor
    rw [BTreeSet.mem_extend]

/-- The exposed keys are those some expression of some descriptor exposes. -/
theorem mem_exposedKeys {backup : DescriptorBackup} {x : Block 32} :
    x ∈ backup.exposedKeys ↔
      ∃ descriptor ∈ backup.descriptors, ∃ key ∈ Miniscript.forEachKey descriptor,
        Exposes key x := by
  rw [exposedKeys, BTreeSet.mem_toList,
    foldl_iff (fun set : BTreeSet (Block 32) => x ∈ set)
      (fun descriptor => ∃ key ∈ Miniscript.forEachKey descriptor, Exposes key x)]
  · simp
  · intro set descriptor
    rw [BTreeSet.mem_extend, mem_descrExposedKeys]

theorem exposedRoot_not_mem_warnings {backup : DescriptorBackup} {list : List Warning}
    (hwarnings : backup.warnings = .ok list) (key : PublicKey) : .exposedRoot key ∉ list := by
  refine foldlM_invariant (fun warnings => Warning.exposedRoot key ∉ warnings) ?_
    List.not_mem_nil hwarnings
  intro warnings later descriptor _ hwarnings hpass
  obtain ⟨found, hfound, hlater⟩ := Exec.bind_eq_ok_iff.mp hpass
  cases hlater
  rw [mem_foldl_pushWarning, not_or]
  exact ⟨hwarnings, exposedRoot_not_mem_descrWarnings hfound key⟩

end DescriptorBackup

/-- The set has no metadata. -/
def PolicySet.isBare (set : PolicySet) : Bool :=
  !set.archived && set.range.isNone && set.birthTime.isNone

/-- Rebuild the concrete descriptor from the policy template and keys. -/
def PolicySet.toDescriptor [Miniscript] (set : PolicySet) : Exec Error Descriptor :=
  fromWalletPolicy set.policy set.keys

/-- Root public key of a key information entry. -/
def keyRoot (key : DescriptorKey) : Exec Error PublicKey :=
  .mapErr (fun _ => .descriptorBackup) (dpkToRootPk key)

namespace PolicyBackup

def isLiteral (key : DescriptorKey) : Bool :=
  match classify key with
  | .literal _ _ => true
  | .xPub _ _ _ _ => false

/-- One pass of the loop of `validate`. -/
def validateSet [Miniscript] (set : PolicySet) : Exec Error Unit :=
  if set.keys.isEmpty ∨ set.policy.isEmpty then .fail .descriptorBackup
  else if set.keys.any isLiteral then .fail .descriptorBackup
  else do
    let _ ← .mapErr (fun _ => .descriptorBackup) set.toDescriptor
    .ok ()

/-- Reject a wrong version, a document without sets, and a set that does not rebuild
into a descriptor. -/
def validate [Miniscript] (backup : PolicyBackup) : Exec Error Unit :=
  if backup.version ≠ documentVersion ∨ backup.policySets.isEmpty then .fail .descriptorBackup
  else backup.policySets.forM validateSet

/-- The set of a document that the form with a single set can represent: exactly one
set and no metadata. -/
def single? (backup : PolicyBackup) : Option PolicySet :=
  match backup.policySets with
  | [set] => if backup.version = documentVersion ∧ set.isBare then some set else none
  | _ => none

/-- A document with a single form is its set, in the only version. -/
theorem eq_of_single? {backup : PolicyBackup} {set : PolicySet}
    (hsingle : backup.single? = some set) : backup = ⟨documentVersion, [set]⟩ := by
  obtain ⟨version, sets⟩ := backup
  rw [single?] at hsingle
  rcases sets with _ | ⟨first, _ | ⟨second, rest⟩⟩
  · cases hsingle
  · by_cases hform : version = documentVersion ∧ first.isBare
    · dsimp only at hsingle
      rw [if_pos hform, Option.some.injEq] at hsingle
      rw [hform.1, hsingle]
    · dsimp only at hsingle
      rw [if_neg hform] at hsingle
      cases hsingle
  · cases hsingle

def allKeys (backup : PolicyBackup) : List DescriptorKey :=
  backup.policySets.flatMap PolicySet.keys

def keyDerivationPaths (backup : PolicyBackup) :
    Exec Error (List (PublicKey × DerivationPath)) := do
  let keyPaths : BTreeSet (PublicKey ×ₗ DerivationPath) ← backup.allKeys.foldlM
    (fun keyPaths key =>
      match dpkToDerivPath key with
      | some path => do
          let root ← keyRoot key
          .ok (keyPaths.insert (toLex (root, path)))
      | none => .ok keyPaths) .empty
  .ok (keyPaths.toList.map ofLex)

/-- The roots of all keys; never those of a policy that was not validated. -/
def keys [Miniscript] (backup : PolicyBackup) : Exec Error (List PublicKey) := do
  backup.validate
  let keys : BTreeSet PublicKey ← backup.allKeys.foldlM (fun keys key => do
    let root ← keyRoot key
    .ok (keys.insert root)) .empty
  .ok keys.toList

def warnings (backup : PolicyBackup) : Exec Error (List Warning) :=
  backup.allKeys.foldlM (fun warnings key => do
    let root ← keyRoot key
    if xonly root = bip341Nums ∧ .numsKey key ∉ warnings then .ok (warnings ++ [.numsKey key])
    else .ok warnings) []

theorem exposedRoot_not_mem_warnings {backup : PolicyBackup} {list : List Warning}
    (hwarnings : backup.warnings = .ok list) (key : PublicKey) : .exposedRoot key ∉ list := by
  refine foldlM_invariant (fun warnings => Warning.exposedRoot key ∉ warnings) ?_
    List.not_mem_nil hwarnings
  intro warnings later other _ hwarnings hpass
  obtain ⟨root, -, hlater⟩ := Exec.bind_eq_ok_iff.mp hpass
  by_cases hpush : xonly root = bip341Nums ∧ .numsKey other ∉ warnings
  · rw [if_pos hpush] at hlater
    cases hlater
    simpa using hwarnings
  · rw [if_neg hpush] at hlater
    cases hlater
    exact hwarnings

/-- A document whose keys are taken is one that `validate` accepts. -/
theorem validate_eq_ok_of_keys [Miniscript] {backup : PolicyBackup} {keys : List PublicKey}
    (hkeys : backup.keys = .ok keys) : backup.validate = .ok () := by
  obtain ⟨_, hvalidate, -⟩ := Exec.bind_eq_ok_iff.mp hkeys
  exact hvalidate

end PolicyBackup

section DescriptorJson

variable [Miniscript] [SerdeJson] [Serde DescriptorBackup]

/-- Encode as a JSON document. -/
def DescriptorBackup.toJson (backup : DescriptorBackup) : Exec Error Bytes :=
  .okOr (Serde.toVec backup) .descriptorBackup

/-- Parse a BIP380 document. It is always JSON; a bare descriptor is rejected. -/
def parseDescriptorBackup (bytes : Bytes) : Exec Error DescriptorBackup := do
  let text ← .okOr (fromUtf8 bytes) .utf8
  if !startsWithChar text '{' then .fail .descriptorBackup
  else do
    let backup : DescriptorBackup ← .okOr (Serde.fromStr text) .descriptorBackup
    backup.validate
    .ok backup

/-- A written descriptor document is read back exactly when `validate` accepts it. -/
theorem parseDescriptorBackup_toJson {backup : DescriptorBackup} {bytes : Bytes}
    (hserde : SerdeJson.RoundTrip backup [] []) (hwritten : backup.toJson = .ok bytes) :
    parseDescriptorBackup bytes = (do backup.validate; .ok backup) := by
  obtain ⟨text, -, -, rfl, hbrace, hread, -⟩ := hserde bytes (Exec.okOr_eq_ok_iff.mp hwritten)
  simp [parseDescriptorBackup, Exec.okOr, hbrace, hread]

/-- `impl ToPayload for DescriptorBackup`. -/
def ToPayload.ofDescriptorBackup (backup : DescriptorBackup) : ToPayload where
  toPayload := backup.toJson
  contentType := .bip380
  keyDerivationPaths := .ok backup.keyDerivationPaths
  keys := .ok backup.keys
  warnings := backup.warnings
  exposedKeys := backup.exposedKeys
  warnings_filtered _ := DescriptorBackup.exposedRoot_not_mem_warnings

end DescriptorJson

section PolicyJson

variable [SerdeJson] [Serde PolicyBackup]

/-- Encode as a JSON document, always in the form with a list of sets. -/
def PolicyBackup.toJson (backup : PolicyBackup) : Exec Error Bytes :=
  .okOr (Serde.toVec backup) .descriptorBackup

variable [Serde PolicySet]

/-- The single form where it can represent the document, the other form elsewhere. -/
def PolicyBackup.toPayload (backup : PolicyBackup) : Exec Error Bytes :=
  match backup.single? with
  | some set => .okOr (Serde.toVec set) .descriptorBackup
  | none => backup.toJson

/-- Read the object in the form its keys show it to be. -/
def policyBackupFromObject (value : SerdeJson.Value) (object : List String) :
    Exec Error PolicyBackup :=
  if "policy_sets" ∈ object then .okOr (Serde.fromValue value) .descriptorBackup
  else if "policy" ∈ object then do
    let set : PolicySet ← .okOr (Serde.fromValue value) .descriptorBackup
    .ok ⟨documentVersion, [set]⟩
  else .fail .descriptorBackup

/-- What `serde_json` is assumed to do with a policy document: it reads back both
structures that may be written of it. -/
structure PolicyBackup.JsonRoundTrip (backup : PolicyBackup) : Prop where
  set : ∀ set, backup.single? = some set → SerdeJson.RoundTrip set ["policy"] ["policy_sets"]
  backup : SerdeJson.RoundTrip backup ["policy_sets"] []

variable [Miniscript]

/-- Parse a BIP388 document, in either of its forms. -/
def parsePolicyBackup (bytes : Bytes) : Exec Error PolicyBackup := do
  let text ← .okOr (fromUtf8 bytes) .utf8
  if !startsWithChar text '{' then .fail .descriptorBackup
  else do
    let value ← .okOr (SerdeJson.valueFromStr text) .descriptorBackup
    let object ← .okOr (SerdeJson.asObject value) .descriptorBackup
    let backup ← policyBackupFromObject value object
    backup.validate
    .ok backup

/-- A written policy document that `validate` accepts is read back, whichever form
was chosen. -/
theorem parsePolicyBackup_toPayload {backup : PolicyBackup} {bytes : Bytes}
    (hserde : backup.JsonRoundTrip) (hvalidate : backup.validate = .ok ())
    (hwritten : backup.toPayload = .ok bytes) : parsePolicyBackup bytes = .ok backup := by
  rw [PolicyBackup.toPayload] at hwritten
  rcases hsingle : backup.single? with _ | set
  · rw [hsingle] at hwritten
    obtain ⟨text, json, names, rfl, hbrace, -, hjson, hobject, hpresent, -, hread⟩ :=
      hserde.backup bytes (Exec.okOr_eq_ok_iff.mp hwritten)
    have hsets : "policy_sets" ∈ names := hpresent _ (List.mem_singleton_self _)
    have hform : policyBackupFromObject json names = .ok backup := by
      rw [policyBackupFromObject, if_pos hsets, hread, Exec.okOr]
    simp [parsePolicyBackup, Exec.okOr, hbrace, hjson, hobject, hform, hvalidate]
  · rw [hsingle] at hwritten
    obtain ⟨text, json, names, rfl, hbrace, -, hjson, hobject, hpresent, habsent, hread⟩ :=
      hserde.set set hsingle bytes (Exec.okOr_eq_ok_iff.mp hwritten)
    have hpolicy : "policy" ∈ names := hpresent _ (List.mem_singleton_self _)
    have hsets : "policy_sets" ∉ names := habsent _ (List.mem_singleton_self _)
    -- the single form leaves the version out, and the parser puts the only one back
    rw [PolicyBackup.eq_of_single? hsingle] at hvalidate ⊢
    have hform : policyBackupFromObject json names = .ok ⟨documentVersion, [set]⟩ := by
      rw [policyBackupFromObject, if_neg hsets, if_pos hpolicy, hread, Exec.okOr, Exec.ok_bind]
    simp [parsePolicyBackup, Exec.okOr, hbrace, hjson, hobject, hform, hvalidate]

/-- `impl ToPayload for PolicyBackup`. -/
def ToPayload.ofPolicyBackup (backup : PolicyBackup) : ToPayload where
  toPayload := backup.toPayload
  contentType := .bip388
  keyDerivationPaths := backup.keyDerivationPaths
  keys := backup.keys
  warnings := backup.warnings
  warnings_filtered _ := PolicyBackup.exposedRoot_not_mem_warnings

end PolicyJson

end Bip138
