/-
# Typed conversion

What `into_descriptor` and `from_descriptor` make of a key information vector. The check lets
pass the placeholders that count up, and the vector of a descriptor has the roots of its key
expressions in the order they are first seen in. The vector a descriptor was rebuilt with comes
back from it if its entries are roots; of any other entry the derivation and the wildcard are
dropped.
-/

import Bip138.Front.PolicySafety
import Bip138.Rust.FirstSeen

namespace Bip138

open Bip138.Rust

namespace KeySet

section Roots

variable {dpks keys : List DescriptorPublicKey} {dpk : DescriptorPublicKey} {key : Bip388Key}

/-- What a placeholder resolves to has its paths. -/
theorem derivations_of_resolve (hresolve : (KeySet.mk keys).resolve key = .ok dpk) :
    key.derivationPaths.1 = derivations dpk := by
  obtain ⟨_, _, _, -, -, ⟨_, hpath, rfl⟩ | ⟨-, rfl⟩⟩ := resolve_cases hresolve
  · exact hpath
  · rfl

/-- What a placeholder resolves to gets that placeholder, where the entries are roots. -/
theorem run_placeholder_of_resolve [Miniscript] [LawfulDerivPaths] (hnodup : keys.Nodup)
    (hroots : ∀ entry ∈ keys, keyRoot entry = .ok entry) (hwildcard : key.wildcard ≠ .none)
    (hresolve : (KeySet.mk keys).resolve key = .ok dpk) :
    (placeholder dpk).run ⟨keys⟩ = .ok (key, ⟨keys⟩) := by
  obtain ⟨entry, hentry, hsame, -⟩ := keyRoot_of_resolve hresolve
  have hmem := List.mem_of_getElem? hentry
  rw [hroots entry hmem] at hsame
  have hmark : key.wildcard = wildcardOf dpk := (wildcardOf_of_resolve hresolve).symm
  refine (run_placeholder_eq_ok_iff hnodup fun root hroot => ?_).mpr
    ⟨rfl, key.index.toNat, ⟨entry, hsame, hentry⟩,
      keySuffix_eq_ok_iff.mpr ⟨derivations_of_resolve hresolve, hmark, hwildcard⟩,
      UInt32.ofNat_toNat.symm⟩
  rw [hsame, Except.ok.injEq] at hroot
  exact hroot ▸ hmem

/-- The roots of key expressions are the entries at the indices of their placeholders. -/
theorem forall₂_roots {placeholders : List Bip388Key}
    (hplaced : List.Forall₂ (fun (placeholder : Bip388Key) dpk => ∃ root, keyRoot dpk = .ok root ∧
      keys[placeholder.index.toNat]? = some root) placeholders dpks) :
    List.Forall₂ (fun place root => keys[place]? = some root) (indices placeholders)
      (roots dpks) := by
  induction hplaced with
  | nil => exact .nil
  | cons hfirst _ ih =>
      obtain ⟨root, hroot, hentry⟩ := hfirst
      rw [roots, List.filterMap_cons, hroot]
      exact .cons hentry ih

end Roots

end KeySet

section Returned

variable [Miniscript] {set : PolicySet} {descriptor : Descriptor}

/-- The placeholders of a set that is rebuilt count up. -/
theorem PolicySet.countsUp_of_toDescriptor (hrebuild : set.toDescriptor = .ok descriptor) :
    CountsUp (indices set.placeholders) := by
  obtain ⟨template, htemplate, horder, -⟩ := toDescriptor_eq_ok_iff.mp hrebuild
  obtain ⟨count, -, hrange⟩ := checkKeyOrder_eq_ok_iff.mp horder
  rw [placeholders, htemplate]
  exact countsUp_iff.mpr ⟨count, hrange⟩

/-- A rebuilt descriptor has the roots it was rebuilt with, in the order of the vector. -/
theorem PolicySet.collectRoots_of_toDescriptor (htranslates : Miniscript.TranslatesInPlace)
    (hrebuild : set.toDescriptor = .ok descriptor) (hnodup : set.keys.Nodup)
    (hreferenced : ∀ entry ∈ set.keys, set.References entry)
    (hroots : ∀ entry ∈ set.keys, KeySet.keyRoot entry = .ok entry) :
    KeySet.collectRoots (Miniscript.forEachKey descriptor) = set.keys := by
  have hplaces := KeySet.forall₂_roots
    ((forall₂_of_toDescriptor htranslates hrebuild).imp fun placeholder dpk hresolve => by
      obtain ⟨entry, hentry, hsame, -⟩ := KeySet.keyRoot_of_resolve hresolve
      exact ⟨entry, hsame.trans (hroots entry (List.mem_of_getElem? hentry)), hentry⟩)
  have hall : ∀ place < set.keys.length, place ∈ indices set.placeholders := by
    intro place hplace
    obtain ⟨placeholder, hmem, hentry⟩ := hreferenced _ (List.getElem_mem hplace)
    obtain ⟨hlt, hat⟩ := List.getElem?_eq_some_iff.mp hentry
    rw [← hnodup.getElem_inj_iff.mp hat]
    exact List.mem_map_of_mem hmem
  rw [KeySet.collectRoots_eq]
  exact eraseDups_eq_of_places hnodup hplaces (countsUp_of_toDescriptor hrebuild) hall

/-- The vector of a descriptor has roots only. -/
theorem WalletPolicy.keyRoot_of_mem_keyInfo (htranslates : Miniscript.TranslatesInPlace)
    {policy : WalletPolicy} (hconvert : fromDescriptor descriptor = .ok policy) :
    ∀ entry ∈ policy.keyInfo, KeySet.keyRoot entry = .ok entry := by
  obtain ⟨later, hrun, -, hinfo⟩ := fromDescriptor_eq_ok_iff.mp hconvert
  obtain ⟨rfl, -⟩ := PolicySet.forall₂_placed htranslates hrun
  rw [hinfo]
  exact fun _ hentry => KeySet.keyRoot_of_mem_collectRoots hentry

/-- Which key information vectors come back. A vector of a document that `validate` accepts,
with each of its entries once and referred to by the template, is the vector of the rebuilt
descriptor exactly when its entries are roots, an xpub without a derivation or a wildcard. -/
theorem PolicyBackup.keyInfo_toDescriptor_iff [LawfulDerivPaths]
    (htranslates : Miniscript.TranslatesInPlace) (hback : Miniscript.TranslatesBack)
    (hparses : Miniscript.ParsesKeys) {backup : PolicyBackup}
    (hvalidate : backup.validate = .ok ()) (hset : set ∈ backup.policySets)
    (hnodup : set.keys.Nodup) (hreferenced : ∀ entry ∈ set.keys, set.References entry) :
    (∃ descriptor, set.toDescriptor = .ok descriptor ∧
        ∃ policy, WalletPolicy.fromDescriptor descriptor = .ok policy ∧
          policy.keyInfo = set.keys) ↔
      ∀ entry ∈ set.keys, KeySet.keyRoot entry = .ok entry := by
  constructor
  · rintro ⟨descriptor, -, policy, hconvert, hkeys⟩
    rw [← hkeys]
    exact WalletPolicy.keyRoot_of_mem_keyInfo htranslates hconvert
  · intro hroots
    obtain ⟨-, -, -, descriptor, hrebuild⟩ :=
      validateSet_eq_ok_iff.mp ((validate_eq_ok_iff.mp hvalidate).2.2 set hset)
    obtain ⟨template, htemplate, horder, later, hrun⟩ :=
      PolicySet.toDescriptor_eq_ok_iff.mp hrebuild
    have hresolved := PolicySet.forall₂_of_toDescriptor htranslates hrebuild
    rw [PolicySet.placeholders, htemplate] at hresolved
    have hmarked : ∀ key ∈ Miniscript.forEachKey template, key.wildcard ≠ .none := by
      intro key hkey
      obtain ⟨piece, hpiece⟩ := hparses _ _ _ htemplate key hkey
      exact wildcard_ne_none_of_fromStr hpiece
    refine ⟨descriptor, hrebuild, ⟨template, set.keys⟩,
      WalletPolicy.fromDescriptor_eq_ok_iff.mpr ⟨⟨set.keys⟩, ?_, horder, rfl⟩, rfl⟩
    rw [PolicySet.collectRoots_of_toDescriptor htranslates hrebuild hnodup hreferenced hroots]
    refine hback _ _ _ _ _ _ _ hrun ?_
    refine ((List.forall₂_and_left _ _).mpr ⟨hmarked, hresolved⟩).flip.imp fun dpk key hpair => ?_
    exact KeySet.run_placeholder_of_resolve hnodup hroots hpair.1 hpair.2

end Returned

namespace PolicyBackup

namespace Sample

open Bip138.Sample

/-- The small miniscript translates the one key of a descriptor back. -/
theorem translatesBack : Miniscript.TranslatesBack := PolicySet.Accounts.translatesBack

/-- A policy for an account, given by this entry. -/
def accountPolicy (entry : DescriptorKey) : PolicySet := ⟨[entry], "wpkh(@0/**)", false, none, none⟩

/-- The template refers to the entry. -/
theorem references_accountPolicy (entry : DescriptorKey) :
    ∀ other ∈ (accountPolicy entry).keys, (accountPolicy entry).References other := by
  have hplaceholder : 0 ∈ indices (accountPolicy entry).placeholders := by
    dsimp only [accountPolicy, PolicySet.placeholders]
    decide +kernel
  obtain ⟨placeholder, hmem, hindex⟩ := List.mem_map.mp hplaceholder
  intro other hother
  obtain rfl := List.mem_singleton.mp hother
  refine ⟨placeholder, hmem, ?_⟩
  rw [hindex]
  rfl

end Sample

open Bip138.Sample Sample in
/-- The path and the wildcard of an entry do not come back. -/
theorem keyInfo_toDescriptor_derived :
    ¬ ∀ (backup : PolicyBackup) set, backup.validate = .ok () → set ∈ backup.policySets →
      set.keys.Nodup → (∀ entry ∈ set.keys, set.References entry) →
        ∃ descriptor, set.toDescriptor = .ok descriptor ∧
          ∃ policy, WalletPolicy.fromDescriptor descriptor = .ok policy ∧
            policy.keyInfo = set.keys := by
  intro hreturned
  obtain ⟨descriptor, -, policy, hconvert, hkeys⟩ := hreturned ⟨1, [accountPolicy accountKey]⟩ _
    (by decide +kernel) (List.mem_singleton_self _) (List.nodup_singleton _)
    (references_accountPolicy accountKey)
  have hroot := WalletPolicy.keyRoot_of_mem_keyInfo translatesInPlace hconvert accountKey
    (hkeys ▸ List.mem_singleton_self _)
  revert hroot
  decide +kernel

open Bip138.Sample Sample in
/-- The entry that is an xpub comes back. -/
theorem keyInfo_toDescriptor_iff_sample :
    ∃ descriptor, (accountPolicy policyKey).toDescriptor = .ok descriptor ∧
      ∃ policy, WalletPolicy.fromDescriptor descriptor = .ok policy ∧
        policy.keyInfo = (accountPolicy policyKey).keys := by
  refine (keyInfo_toDescriptor_iff translatesInPlace translatesBack parsesKeys
    (?_ : validate ⟨1, [accountPolicy policyKey]⟩ = .ok ()) (List.mem_singleton_self _)
    (List.nodup_singleton _) (references_accountPolicy policyKey)).mpr fun entry hentry => ?_
  · decide +kernel
  · obtain rfl := List.mem_singleton.mp hentry
    rfl

end PolicyBackup

end Bip138
