/-
# No seeding root on chain

A policy document seeds the encryption with the roots of its key information vectors. None
of them may be a key of a descriptor of the document as it is. That follows from what the
parsers let through: a placeholder has a wildcard, so what it resolves to has one, and an
expression with a wildcard is derived.
-/

import Bip138.Front.PolicyRoundTrip

namespace Bip138

open Bip138.Rust Bip138.Ll

/-- The keys of a descriptor that was parsed are parsed keys. -/
def Miniscript.ParsesKeys [Miniscript] : Prop :=
  ∀ {Pk : Type} (keyFromStr : String → Option Pk) (text : String)
    (descriptor : Miniscript.Descriptor Pk),
    Miniscript.descriptorFromStr keyFromStr text = some descriptor →
      ∀ key ∈ Miniscript.forEachKey descriptor, ∃ piece, keyFromStr piece = some key

/-- A suffix that is read has a wildcard. -/
theorem wildcard_ne_none_of_parseSuffix [Miniscript] {suffix : String} {paths : DerivPaths}
    {wildcard : Wildcard} (hread : parseSuffix suffix = some (paths, wildcard)) :
    wildcard ≠ .none := by
  have hmarked : ∀ (given : List DerivationPath) (mark : Wildcard),
      (if mark = .none then none
        else (Miniscript.derivPathsNew given).bind fun derivationPaths =>
          some (derivationPaths, mark)) = some (paths, wildcard) → wildcard ≠ .none := by
    intro given mark hpair
    by_cases hmark : mark = .none
    · rw [if_pos hmark] at hpair
      cases hpair
    · rw [if_neg hmark] at hpair
      obtain ⟨_, -, hpair⟩ := Option.bind_eq_some_iff.mp hpair
      cases hpair
      exact hmark
  simp only [parseSuffix, Option.bind_eq_bind, Option.bind_eq_some_iff] at hread
  obtain ⟨dpk, -, hread⟩ := hread
  cases dpk with
  | single key => cases hread
  | xPub key => exact hmarked [key.derivationPath] key.wildcard hread
  | multiXPub key => exact hmarked key.derivationPaths.1 key.wildcard hread

/-- A placeholder that is read has a wildcard. -/
theorem wildcard_ne_none_of_fromStr [Miniscript] {text : String} {key : Bip388Key}
    (hread : Bip388Key.fromStr text = some key) : key.wildcard ≠ .none := by
  simp only [Bip388Key.fromStr, Option.bind_eq_bind, Option.bind_eq_some_iff, Prod.exists] at hread
  obtain ⟨_, -, _, _, -, _, -, paths, wildcard, hsuffix, hkey⟩ := hread
  cases hkey
  exact wildcard_ne_none_of_parseSuffix hsuffix

/-- What a placeholder resolves to has its wildcard. -/
theorem KeySet.wildcardOf_of_resolve {keySet : KeySet} {placeholder : Bip388Key}
    {key : DescriptorKey} (hresolve : keySet.resolve placeholder = .ok key) :
    wildcardOf key = placeholder.wildcard := by
  obtain ⟨_, _, _, -, -, ⟨_, -, rfl⟩ | ⟨-, rfl⟩⟩ := KeySet.resolve_cases hresolve
  · rfl
  · rfl

/-- An expression with a wildcard has a root. -/
theorem KeySet.exists_keyRoot_of_wildcardOf {key : DescriptorKey}
    (hwildcard : wildcardOf key ≠ .none) : ∃ root, KeySet.keyRoot key = .ok root := by
  cases key with
  | single key => exact absurd rfl hwildcard
  | xPub key => exact ⟨_, rfl⟩
  | multiXPub key => exact ⟨_, rfl⟩

/-- An expression with a wildcard may encrypt. -/
theorem exists_derived_of_wildcardOf {key : DescriptorKey} (hwildcard : wildcardOf key ≠ .none) :
    ∃ root, Derived key root := by
  cases key with
  | single key => exact absurd rfl hwildcard
  | xPub key => exact ⟨_, .xPub key (.inr hwildcard)⟩
  | multiXPub key => exact ⟨_, .multiXPub key (.inr hwildcard)⟩

/-- An expression with a wildcard exposes nothing. -/
theorem not_exposes_of_wildcardOf {key : DescriptorKey} {x : Block 32}
    (hwildcard : wildcardOf key ≠ .none) : ¬ Exposes key x := by
  intro hexposes
  cases hexposes with
  | fullKey => exact hwildcard rfl
  | xOnly => exact hwildcard rfl
  | bare key hpath hnone => exact hwildcard hnone

namespace PolicyBackup

section Safety

variable [Miniscript] {backup : PolicyBackup}

/-- A rebuilt descriptor has a wildcard in every key expression, and roots from the key
information vector. -/
theorem forall_of_toDescriptor (htranslates : Miniscript.TranslatesInPlace)
    (hparses : Miniscript.ParsesKeys) {set : PolicySet} {descriptor : Descriptor}
    (hrebuild : set.toDescriptor = .ok descriptor) :
    ∀ key ∈ Miniscript.forEachKey descriptor, wildcardOf key ≠ .none ∧
      ∃ entry ∈ set.keys, ∃ root, KeySet.keyRoot entry = .ok root ∧
        KeySet.keyRoot key = .ok root := by
  have hplaceholders : ∀ placeholder ∈ set.placeholders, placeholder.wildcard ≠ .none := by
    obtain ⟨template, htemplate, -⟩ := PolicySet.toDescriptor_eq_ok_iff.mp hrebuild
    intro placeholder hplaceholder
    rw [PolicySet.placeholders, htemplate] at hplaceholder
    obtain ⟨piece, hpiece⟩ := hparses _ _ _ htemplate placeholder hplaceholder
    exact wildcard_ne_none_of_fromStr hpiece
  have hresolved := (List.forall₂_and_left _ _).mpr
    ⟨hplaceholders, PolicySet.forall₂_of_toDescriptor htranslates hrebuild⟩
  refine forall_mem_of_forall₂ hresolved.flip ?_
  rintro key placeholder ⟨hwildcard, hresolve⟩
  rw [← KeySet.wildcardOf_of_resolve hresolve] at hwildcard
  refine ⟨hwildcard, ?_⟩
  obtain ⟨entry, hentry, hsame, -⟩ := KeySet.keyRoot_of_resolve hresolve
  obtain ⟨root, hroot⟩ := KeySet.exists_keyRoot_of_wildcardOf hwildcard
  exact ⟨entry, List.mem_of_getElem? hentry, root, hsame ▸ hroot, hroot⟩

variable [SerdeJson] [Serde PolicyBackup] [Serde PolicySet]

/-- The ways a document gets past `validate`: it is called, or the document was parsed, or a
builder took its keys. -/
inductive Accepted (backup : PolicyBackup) : Prop
  | validated (hvalidate : backup.validate = .ok ())
  | parsed (bytes : Bytes) (hparse : parsePolicyBackup bytes = .ok backup)
  | set (builder later : EncryptedBackup)
      (hset : builder.setPayload (.ofPolicyBackup backup) = .ok later)

theorem Accepted.validate_eq_ok (haccepted : backup.Accepted) : backup.validate = .ok () := by
  cases haccepted with
  | validated hvalidate => exact hvalidate
  | parsed bytes hparse =>
      rw [parsePolicyBackup] at hparse
      obtain ⟨text, -, hparse⟩ := Exec.bind_eq_ok_iff.mp hparse
      split at hparse
      · cases hparse
      · simp only [Exec.bind_eq_ok_iff] at hparse
        obtain ⟨_, -, _, -, read, -, _, hvalidate, hread⟩ := hparse
        cases hread
        exact hvalidate
  | set builder later hset =>
      obtain ⟨part, hpart, -⟩ := EncryptedBackup.setPayload_eq_ok_iff.mp hset
      exact validate_eq_ok_of_keys hpart.keys

/-- An accepted policy never puts a seeding root on chain. Each set of the document rebuilds
into a descriptor whose key expressions are xpubs with a wildcard and a root of the set's key
information vector; it exposes no key, and each of its expressions may encrypt. -/
theorem Accepted.rebuilds_offChain (htranslates : Miniscript.TranslatesInPlace)
    (hparses : Miniscript.ParsesKeys) (haccepted : backup.Accepted) :
    ∀ set ∈ backup.policySets, ∃ descriptor, set.toDescriptor = .ok descriptor ∧
      (∀ key ∈ Miniscript.forEachKey descriptor, wildcardOf key ≠ .none ∧
        ∃ entry ∈ set.keys, ∃ root, KeySet.keyRoot entry = .ok root ∧
          KeySet.keyRoot key = .ok root) ∧
      descrExposedKeys descriptor = [] ∧
      ∀ key ∈ Miniscript.forEachKey descriptor, ∃ root, dpkToPk key = .ok root := by
  intro set hset
  obtain ⟨-, -, hsets⟩ := validate_eq_ok_iff.mp haccepted.validate_eq_ok
  obtain ⟨-, -, -, descriptor, hrebuild⟩ := validateSet_eq_ok_iff.mp (hsets set hset)
  have hkeys := forall_of_toDescriptor htranslates hparses hrebuild
  refine ⟨descriptor, hrebuild, hkeys, ?_, fun key hkey => ?_⟩
  · refine List.eq_nil_iff_forall_not_mem.mpr fun x hx => ?_
    obtain ⟨key, hkey, hexposes⟩ := mem_descrExposedKeys.mp hx
    exact not_exposes_of_wildcardOf (hkeys key hkey).1 hexposes
  · obtain ⟨root, hroot⟩ := exists_derived_of_wildcardOf (hkeys key hkey).1
    exact ⟨root, dpkToPk_eq_ok_iff.mpr hroot⟩

end Safety

namespace Sample

open Bip138.Sample

/-- The key of a descriptor of the small miniscript is the parsed argument of `wpkh()`. -/
theorem parsesKeys : Miniscript.ParsesKeys := by
  intro Pk keyFromStr text descriptor hparse key hkey
  obtain ⟨argument, -, hparse⟩ := Option.bind_eq_some_iff.mp hparse
  obtain ⟨parsed, hparsed, hdescriptor⟩ := Option.bind_eq_some_iff.mp hparse
  cases hdescriptor
  rw [List.mem_singleton.mp hkey]
  exact ⟨argument, hparsed⟩

end Sample

open Bip138.Sample Sample in
/-- The rebuilt descriptor of the document of two accounts. -/
theorem rebuilds_offChain_sample :
    oneOfTwo.policySets ≠ [] ∧
    ∀ set ∈ oneOfTwo.policySets, ∃ descriptor, set.toDescriptor = .ok descriptor ∧
      (∀ key ∈ Miniscript.forEachKey descriptor, wildcardOf key ≠ .none ∧
        ∃ entry ∈ set.keys, ∃ root, KeySet.keyRoot entry = .ok root ∧
          KeySet.keyRoot key = .ok root) ∧
      descrExposedKeys descriptor = [] ∧
      ∀ key ∈ Miniscript.forEachKey descriptor, ∃ root, dpkToPk key = .ok root :=
  ⟨List.cons_ne_nil _ _,
    Accepted.rebuilds_offChain translatesInPlace parsesKeys (.validated validate_oneOfTwo)⟩

end PolicyBackup

end Bip138
