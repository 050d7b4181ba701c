/-
# The keys of a policy document

The keys of a policy document are the roots of all entries of its key information vectors.
What its descriptors are made of are the entries their templates refer to. `validate`
rebuilds every descriptor, which shows that each placeholder has an entry, but not that each
entry has a placeholder: an entry no template refers to opens the backup as well, and no
descriptor of the document has its key.
-/

import Bip138.Front.Documents
import Bip138.Front.Exposure

namespace Bip138

open Bip138.Rust Bip138.Ll

section Rebuild

variable [Miniscript] {keySet : KeySet} {placeholder : Bip388Key} {key : DescriptorKey}

omit [Miniscript] in
/-- Root key of a key information entry: origin and xpub, with no derivation and no
wildcard. -/
def KeySet.keyRoot : DescriptorPublicKey → Except Error DescriptorPublicKey
  | .xPub key => .ok (.xPub ⟨key.origin, key.xkey, [], .none⟩)
  | .multiXPub key => .ok (.xPub ⟨key.origin, key.xkey, [], .none⟩)
  | .single _ => .error .walletPolicy

omit [Miniscript] in
/-- A choice of paths is one of several. -/
def Several : DescriptorKey → Prop
  | .single _ => False
  | .xPub _ => True
  | .multiXPub key => key.derivationPaths.1.length ≠ 1

/-- The translator that resolves placeholders. -/
def KeySet.pk (placeholder : Bip388Key) : StateT KeySet (Except Error) DescriptorPublicKey :=
  fun keySet => do
    let dpk ← keySet.resolve placeholder
    .ok (dpk, keySet)

omit [Miniscript] in
theorem KeySet.run_pk_eq_ok_iff {later : KeySet} :
    (KeySet.pk placeholder).run keySet = .ok (key, later) ↔
      keySet.resolve placeholder = .ok key ∧ later = keySet := by
  change (keySet.resolve placeholder >>= fun dpk => .ok (dpk, keySet)) = .ok (key, later) ↔ _
  rcases keySet.resolve placeholder with cause | dpk
  · simp [Bind.bind, Except.bind]
  · simp [Bind.bind, Except.bind, eq_comm]

omit [Miniscript] in
theorem KeySet.stays_pk (placeholders : List Bip388Key) : Stays KeySet.pk keySet placeholders :=
  fun _ _ _ _ hrun => (KeySet.run_pk_eq_ok_iff.mp hrun).2

omit [Miniscript] in
/-- What a placeholder resolves to is the root of the entry at its index, followed by the one
path of the placeholder or a choice of several, and by its wildcard. -/
theorem KeySet.resolve_cases (hresolve : keySet.resolve placeholder = .ok key) :
    ∃ entry origin xkey, keySet.keys[placeholder.index.toNat]? = some entry ∧
      KeySet.keyRoot entry = .ok (.xPub ⟨origin, xkey, [], .none⟩) ∧
      ((∃ path, placeholder.derivationPaths.1 = [path] ∧
          key = .xPub ⟨origin, xkey, path, placeholder.wildcard⟩) ∨
        placeholder.derivationPaths.1.length ≠ 1 ∧
          key = .multiXPub ⟨origin, xkey, placeholder.derivationPaths, placeholder.wildcard⟩) := by
  have hseveral : ∀ paths : List DerivationPath, (∀ path, paths ≠ [path]) → paths.length ≠ 1 := by
    intro paths hpaths hone
    obtain ⟨path, rfl⟩ := List.length_eq_one_iff.mp hone
    exact hpaths path rfl
  rw [KeySet.resolve] at hresolve
  rcases hentry : keySet.keys[placeholder.index.toNat]? with _ | _ | entry | entry
  · rw [hentry] at hresolve
    cases hresolve
  · rw [hentry] at hresolve
    cases hresolve
  all_goals
    rw [hentry] at hresolve
    refine ⟨_, entry.origin, entry.xkey, rfl, rfl, ?_⟩
    simp only [Bind.bind, Except.bind] at hresolve
    split at hresolve
    · next path hpath =>
        cases hresolve
        exact .inl ⟨path, hpath, rfl⟩
    · next hpaths =>
        cases hresolve
        exact .inr ⟨hseveral _ hpaths, rfl⟩

omit [Miniscript] in
/-- What a placeholder resolves to has the root of the entry at its index. -/
theorem KeySet.keyRoot_of_resolve (hresolve : keySet.resolve placeholder = .ok key) :
    ∃ entry, keySet.keys[placeholder.index.toNat]? = some entry ∧
      KeySet.keyRoot key = KeySet.keyRoot entry ∧ Several key := by
  obtain ⟨entry, origin, xkey, hentry, hroot, ⟨path, -, rfl⟩ | ⟨hseveral, rfl⟩⟩ :=
    KeySet.resolve_cases hresolve
  · exact ⟨entry, hentry, hroot.symm, trivial⟩
  · exact ⟨entry, hentry, hroot.symm, hseveral⟩

omit [Miniscript] in
theorem KeySet.xonlyOf_of_keyRoot {root : DescriptorKey} (hroot : KeySet.keyRoot key = .ok root) :
    xonlyOf key = xonlyOf root := by
  cases key with
  | single key => cases hroot
  | xPub key =>
      cases hroot
      rfl
  | multiXPub key =>
      cases hroot
      rfl

omit [Miniscript] in
/-- What a placeholder resolves to has the x-coordinate of the entry at its index. -/
theorem KeySet.getElem?_of_resolve (hresolve : keySet.resolve placeholder = .ok key) :
    keySet.keys[placeholder.index.toNat]?.map xonlyOf = some (xonlyOf key) := by
  obtain ⟨entry, hentry, hsame, hseveral⟩ := KeySet.keyRoot_of_resolve hresolve
  obtain ⟨root, hroot⟩ : ∃ root, KeySet.keyRoot key = .ok root := by
    cases key with
    | single key => cases hseveral
    | xPub key => exact ⟨_, rfl⟩
    | multiXPub key => exact ⟨_, rfl⟩
  rw [hentry, Option.map_some, KeySet.xonlyOf_of_keyRoot hroot,
    KeySet.xonlyOf_of_keyRoot (hsame ▸ hroot)]

/-- A policy is rebuilt when its placeholders are in order and it is translated. -/
theorem WalletPolicy.intoDescriptor_eq_ok_iff {policy : WalletPolicy} {descriptor : Descriptor} :
    policy.intoDescriptor = .ok descriptor ↔
      checkKeyOrder policy.template = .ok () ∧
        ∃ later, (Miniscript.translatePk KeySet.pk policy.template).run ⟨policy.keyInfo⟩ =
          .ok (descriptor, later) := by
  have htranslated : ∀ outcome : Except (TranslateErr Error) (Descriptor × KeySet),
      (match outcome with
        | .ok (descriptor, _) => (.ok descriptor : Exec Error Descriptor)
        | .error (.translatorErr cause) => Exec.fail cause
        | .error .outerError => Exec.fail .walletPolicy) = .ok descriptor ↔
        ∃ later, outcome = .ok (descriptor, later) := by
    rintro ((cause | _) | ⟨rebuilt, later⟩)
    · simp
    · simp
    · simp
  rw [intoDescriptor, Exec.bind_eq_ok_iff, ← htranslated]
  exact ⟨fun ⟨_, horder, hrun⟩ => ⟨horder, hrun⟩, fun ⟨horder, hrun⟩ => ⟨(), horder, hrun⟩⟩

namespace PolicySet

variable {set : PolicySet} {descriptor : Descriptor}

/-- The placeholders of a template, in the order they are visited in. -/
def placeholders (set : PolicySet) : List Bip388Key :=
  match Miniscript.descriptorFromStr Bip388Key.fromStr set.policy with
  | some template => Miniscript.forEachKey template
  | none => []

/-- The template of the set refers to this entry of its key information vector. -/
def References (set : PolicySet) (entry : DescriptorKey) : Prop :=
  ∃ placeholder ∈ set.placeholders, set.keys[placeholder.index.toNat]? = some entry

/-- A set is rebuilt when its template parses, has its placeholders in order, and is
translated. -/
theorem toDescriptor_eq_ok_iff :
    set.toDescriptor = .ok descriptor ↔
      ∃ template, Miniscript.descriptorFromStr Bip388Key.fromStr set.policy = some template ∧
        checkKeyOrder template = .ok () ∧
        ∃ later, (Miniscript.translatePk KeySet.pk template).run ⟨set.keys⟩ =
          .ok (descriptor, later) := by
  rw [toDescriptor, fromWalletPolicy, Exec.bind_eq_ok_iff]
  refine exists_congr fun template => ?_
  rw [Exec.okOr_eq_ok_iff, WalletPolicy.intoDescriptor_eq_ok_iff]

/-- A rebuilt descriptor has, in order, what the placeholders resolve to. -/
theorem forall₂_of_toDescriptor (htranslates : Miniscript.TranslatesInPlace)
    (hrebuild : set.toDescriptor = .ok descriptor) :
    List.Forall₂ (fun placeholder key => (KeySet.mk set.keys).resolve placeholder = .ok key)
      set.placeholders (Miniscript.forEachKey descriptor) := by
  obtain ⟨template, htemplate, -, later, hrun⟩ := toDescriptor_eq_ok_iff.mp hrebuild
  rw [placeholders, htemplate]
  exact (htranslates _ _ _ _ _ (KeySet.stays_pk _) hrun).2.imp
    fun _ _ hpk => (KeySet.run_pk_eq_ok_iff.mp hpk).1

/-- The keys of a rebuilt descriptor have the x-coordinates of the entries its template
refers to. -/
theorem mem_xonly_of_toDescriptor (htranslates : Miniscript.TranslatesInPlace)
    (hrebuild : set.toDescriptor = .ok descriptor) {x : Block 32} :
    x ∈ (Miniscript.forEachKey descriptor).map xonlyOf ↔
      ∃ entry, set.References entry ∧ xonlyOf entry = x := by
  have hentries : set.placeholders.map
      (fun placeholder => set.keys[placeholder.index.toNat]?.map xonlyOf) =
        (Miniscript.forEachKey descriptor).map fun key => some (xonlyOf key) := by
    rw [← List.forall₂_eq_eq_eq, List.forall₂_map_left_iff, List.forall₂_map_right_iff]
    exact (forall₂_of_toDescriptor htranslates hrebuild).imp
      fun _ _ hresolve => KeySet.getElem?_of_resolve hresolve
  have hx : x ∈ (Miniscript.forEachKey descriptor).map xonlyOf ↔
      some x ∈ (Miniscript.forEachKey descriptor).map fun key => some (xonlyOf key) := by
    simp
  rw [hx, ← hentries, List.mem_map]
  constructor
  · rintro ⟨placeholder, hplaceholder, hmap⟩
    obtain ⟨entry, hentry, hxonly⟩ := Option.map_eq_some_iff.mp hmap
    exact ⟨entry, ⟨placeholder, hplaceholder, hentry⟩, hxonly⟩
  · rintro ⟨entry, ⟨placeholder, hplaceholder, hentry⟩, hxonly⟩
    exact ⟨placeholder, hplaceholder, Option.map_eq_some_iff.mpr ⟨entry, hentry, hxonly⟩⟩

end PolicySet

end Rebuild

namespace PolicyBackup

section Validated

variable [Miniscript] {backup : PolicyBackup}

/-- What `validate` accepts of a set. -/
theorem validateSet_eq_ok_iff {set : PolicySet} :
    validateSet set = .ok () ↔ set.keys ≠ [] ∧ set.policy.isEmpty = false ∧
      (∀ entry ∈ set.keys, isLiteral entry = false) ∧
        ∃ descriptor, set.toDescriptor = .ok descriptor := by
  have hempty : ¬ (set.keys.isEmpty = true ∨ set.policy.isEmpty = true) ↔
      set.keys ≠ [] ∧ set.policy.isEmpty = false := by
    rw [not_or, List.isEmpty_iff, Bool.not_eq_true]
  have hliteral : ¬ set.keys.any isLiteral = true ↔
      ∀ entry ∈ set.keys, isLiteral entry = false := by
    rw [Bool.not_eq_true, List.any_eq_false]
    simp only [Bool.not_eq_true]
  have hrebuild : (Exec.mapErr (fun _ => Error.descriptorBackup) set.toDescriptor >>= fun _ =>
      (.ok () : Exec Error Unit)) = .ok () ↔ ∃ descriptor, set.toDescriptor = .ok descriptor := by
    simp only [Exec.bind_eq_ok_iff, Exec.mapErr_eq_ok_iff, and_true]
  rw [validateSet, Exec.guard_eq_ok_iff, Exec.guard_eq_ok_iff, hempty, hliteral, hrebuild,
    and_assoc]

/-- What `validate` accepts. -/
theorem validate_eq_ok_iff :
    backup.validate = .ok () ↔ backup.version = documentVersion ∧ backup.policySets ≠ [] ∧
      ∀ set ∈ backup.policySets, validateSet set = .ok () := by
  rw [validate, Exec.guard_eq_ok_iff, Exec.forM_eq_ok_iff, not_or, not_not, List.isEmpty_iff,
    and_assoc]

omit [Miniscript] in
/-- An entry that is not literal has a root with its x-coordinate. -/
theorem exists_keyRoot_of_isLiteral {entry : DescriptorKey} (hentry : isLiteral entry = false) :
    ∃ root, keyRoot entry = .ok root ∧ xonly root = xonlyOf entry := by
  rw [isLiteral] at hentry
  rcases hclass : classify entry with ⟨x, path⟩ | ⟨root, path, derived, multipath⟩
  · rw [hclass] at hentry
    cases hentry
  · refine ⟨root, ?_, ?_⟩
    · rw [keyRoot, dpkToRootPk, hclass]
      rfl
    · rw [xonlyOf, hclass]

omit [Miniscript] in
private theorem exists_foldlM_keyRoot {entries : List DescriptorKey}
    (hentries : ∀ entry ∈ entries, isLiteral entry = false) (set : BTreeSet PublicKey) :
    ∃ roots : BTreeSet PublicKey,
      entries.foldlM (fun keys key => do
        let root ← keyRoot key
        (.ok (keys.insert root) : Exec Error (BTreeSet PublicKey))) set = .ok roots ∧
      ∀ x, (∃ root ∈ roots, xonly root = x) ↔
        (∃ root ∈ set, xonly root = x) ∨ ∃ entry ∈ entries, xonlyOf entry = x := by
  induction entries generalizing set with
  | nil => exact ⟨set, rfl, by simp⟩
  | cons entry entries ih =>
      obtain ⟨hfirst, hrest⟩ := List.forall_mem_cons.mp hentries
      obtain ⟨root, hroot, hxonly⟩ := exists_keyRoot_of_isLiteral hfirst
      obtain ⟨roots, hroots, hmem⟩ := ih hrest (set.insert root)
      refine ⟨roots, ?_, fun x => ?_⟩
      · rw [List.foldlM_cons, hroot, Exec.ok_bind, Exec.ok_bind]
        exact hroots
      · simp only [hmem, BTreeSet.mem_insert, List.mem_cons, or_and_right, exists_or,
          exists_eq_left, hxonly]
        exact or_assoc.trans or_left_comm

/-- The keys of a validated document have the x-coordinates of all its entries. -/
theorem exists_keys_of_validate (hvalidate : backup.validate = .ok ()) :
    ∃ keys, backup.keys = .ok keys ∧
      ∀ x, x ∈ keys.map xonly ↔ ∃ set ∈ backup.policySets, ∃ entry ∈ set.keys,
        xonlyOf entry = x := by
  have hliteral : ∀ entry ∈ backup.allKeys, isLiteral entry = false := by
    intro entry hentry
    obtain ⟨set, hset, hmem⟩ := List.mem_flatMap.mp hentry
    exact (validateSet_eq_ok_iff.mp ((validate_eq_ok_iff.mp hvalidate).2.2 set hset)).2.2.1
      entry hmem
  obtain ⟨roots, hroots, hmem⟩ := exists_foldlM_keyRoot hliteral .empty
  refine ⟨roots.toList, ?_, fun x => ?_⟩
  · rw [keys, hvalidate, Exec.ok_bind, hroots, Exec.ok_bind]
  · have hentries : (∃ entry ∈ backup.allKeys, xonlyOf entry = x) ↔
        ∃ set ∈ backup.policySets, ∃ entry ∈ set.keys, xonlyOf entry = x := by
      simp only [allKeys, List.mem_flatMap]
      tauto
    rw [List.mem_map, ← hentries]
    simpa using hmem x

/-- Which policy documents only their own keys open. The keys of a document that `validate`
accepts are those of its rebuilt descriptors exactly when each entry of a key information
vector has the x-coordinate of an entry that a template refers to. -/
theorem keys_own_iff (htranslates : Miniscript.TranslatesInPlace)
    (hvalidate : backup.validate = .ok ()) :
    ∃ keys, backup.keys = .ok keys ∧
      ((∀ x, x ∈ keys.map xonly ↔
          ∃ set ∈ backup.policySets, ∃ descriptor, set.toDescriptor = .ok descriptor ∧
            x ∈ (Miniscript.forEachKey descriptor).map xonlyOf) ↔
        ∀ set ∈ backup.policySets, ∀ entry ∈ set.keys,
          ∃ other ∈ backup.policySets, ∃ referenced, other.References referenced ∧
            xonlyOf referenced = xonlyOf entry) := by
  obtain ⟨keys, hkeys, hmem⟩ := exists_keys_of_validate hvalidate
  refine ⟨keys, hkeys, ?_⟩
  have hown : ∀ x, (∃ set ∈ backup.policySets, ∃ descriptor, set.toDescriptor = .ok descriptor ∧
      x ∈ (Miniscript.forEachKey descriptor).map xonlyOf) ↔
        ∃ set ∈ backup.policySets, ∃ entry, set.References entry ∧ xonlyOf entry = x := by
    intro x
    refine exists_congr fun set => and_congr_right fun hset => ?_
    obtain ⟨-, -, -, descriptor, hrebuild⟩ :=
      validateSet_eq_ok_iff.mp ((validate_eq_ok_iff.mp hvalidate).2.2 set hset)
    constructor
    · rintro ⟨descriptor, hrebuild, hx⟩
      exact (PolicySet.mem_xonly_of_toDescriptor htranslates hrebuild).mp hx
    · intro hreferenced
      exact ⟨descriptor, hrebuild,
        (PolicySet.mem_xonly_of_toDescriptor htranslates hrebuild).mpr hreferenced⟩
  simp only [hmem, hown]
  constructor
  · intro hequal set hset entry hentry
    exact (hequal (xonlyOf entry)).mp ⟨set, hset, entry, hentry, rfl⟩
  · intro hreferenced x
    constructor
    · rintro ⟨set, hset, entry, hentry, rfl⟩
      exact hreferenced set hset entry hentry
    · rintro ⟨set, hset, entry, ⟨placeholder, -, hentry⟩, rfl⟩
      exact ⟨set, hset, entry, List.mem_of_getElem? hentry, rfl⟩

end Validated

namespace Sample

open Bip138.Sample

/-- Another account, whose xpub is in the vector only. -/
def otherKey : DescriptorKey := .xPub ⟨none, otherXkey, [], .none⟩

/-- A policy for the first of two accounts. -/
def oneOfTwo : PolicyBackup :=
  ⟨1, [⟨[policyKey, otherKey], "wpkh(@0/**)", false, none, none⟩]⟩

/-- The policy without the other account. -/
def oneAccount : PolicyBackup := ⟨1, [⟨[policyKey], "wpkh(@0/**)", false, none, none⟩]⟩

theorem validate_oneOfTwo : oneOfTwo.validate = .ok () := by
  decide +kernel

/-- The small miniscript translates the one key of a descriptor in place. -/
theorem translatesInPlace : Miniscript.TranslatesInPlace := by
  intro σ ε Pk TargetPk pk state later source target hstays hrun
  obtain ⟨key⟩ := source
  rcases hkey : pk key state with cause | ⟨value, after⟩
  · simp [Miniscript.translatePk, StateT.run, hkey] at hrun
  · simp only [Miniscript.translatePk, StateT.run, hkey] at hrun
    cases hrun
    obtain rfl := hstays key (List.mem_singleton_self _) value later hkey
    exact ⟨rfl, .cons hkey .nil⟩

end Sample

open Bip138.Sample Sample in
/-- The account that no template refers to opens the backup. -/
theorem not_keys_own :
    ¬ ∀ (backup : PolicyBackup) keys, backup.validate = .ok () → backup.keys = .ok keys →
      ∀ x, x ∈ keys.map xonly ↔
        ∃ set ∈ backup.policySets, ∃ descriptor, set.toDescriptor = .ok descriptor ∧
          x ∈ (Miniscript.forEachKey descriptor).map xonlyOf := by
  intro hown
  obtain ⟨keys, hkeys, hopens⟩ := Exec.exists_eq_ok oneOfTwo.keys
    (fun keys => decide (xonlyOf otherKey ∈ keys.map xonly)) (by decide +kernel)
  obtain ⟨set, hset, descriptor, hrebuild, hx⟩ :=
    (hown oneOfTwo keys validate_oneOfTwo hkeys (xonlyOf otherKey)).mp (of_decide_eq_true hopens)
  obtain rfl := List.mem_singleton.mp hset
  obtain ⟨rebuilt, hrebuilt, hforeign⟩ := Exec.exists_eq_ok
    (PolicySet.toDescriptor ⟨[policyKey, otherKey], "wpkh(@0/**)", false, none, none⟩)
    (fun descriptor => decide (xonlyOf otherKey ∉ (Miniscript.forEachKey descriptor).map xonlyOf))
    (by decide +kernel)
  rw [hrebuild, Except.ok.injEq] at hrebuilt
  rw [hrebuilt] at hx
  exact of_decide_eq_true hforeign hx

open Bip138.Sample Sample in
/-- A document whose one account is referred to is encrypted to the keys of its descriptor. -/
theorem keys_own_iff_sample :
    ∃ keys, oneAccount.keys = .ok keys ∧ ∀ x, x ∈ keys.map xonly ↔
      ∃ set ∈ oneAccount.policySets, ∃ descriptor, set.toDescriptor = .ok descriptor ∧
        x ∈ (Miniscript.forEachKey descriptor).map xonlyOf := by
  obtain ⟨keys, hkeys, hown⟩ := keys_own_iff translatesInPlace
    (show oneAccount.validate = .ok () by decide +kernel)
  refine ⟨keys, hkeys, hown.mpr fun set hset entry hentry => ?_⟩
  obtain rfl := List.mem_singleton.mp hset
  obtain rfl := List.mem_singleton.mp hentry
  refine ⟨_, List.mem_singleton_self _, policyKey, ?_, rfl⟩
  change ∃ placeholder ∈ _, _
  decide +kernel

end PolicyBackup

end Bip138
