/-
# The keys of a descriptor

Which key expressions of a descriptor may encrypt a backup, which keys the
descriptor puts on chain as they are, and the warnings about the rest.

Both rules are about single expressions. `Derived` and `Exposes` state them on the
expressions themselves, and each function below is described by one of the two.
-/

import Bip138.Rust.Loop
import Bip138.Front.WalletPolicy

namespace Bip138

open Bip138.Rust

/-- The expression is an xpub with this root, followed by a non-empty derivation on
every path or by a wildcard. -/
inductive Derived : DescriptorKey → PublicKey → Prop
  | xPub (key : DescriptorXKey) (hderived : key.derivationPath ≠ [] ∨ key.wildcard ≠ .none) :
      Derived (.xPub key) key.xkey.publicKey
  | multiXPub (key : DescriptorMultiXKey)
      (hderived : (∀ path ∈ key.derivationPaths.1, path ≠ []) ∨ key.wildcard ≠ .none) :
      Derived (.multiXPub key) key.xkey.publicKey

/-- The expression puts a key with this x-coordinate on chain: it is a literal key,
or a bare xpub with a single path. -/
inductive Exposes : DescriptorKey → Block 32 → Prop
  | fullKey (origin : KeyOrigin) (compressed : Bool) (inner : PublicKey) :
      Exposes (.single ⟨origin, .fullKey compressed inner⟩) inner.x
  | xOnly (origin : KeyOrigin) (x : Block 32) : Exposes (.single ⟨origin, .xOnly x⟩) x
  | bare (key : DescriptorXKey) (hpath : key.derivationPath = []) (hwildcard : key.wildcard = .none) :
      Exposes (.xPub key) key.xkey.publicKey.x

/-- The path from the master key to the key of an expression, when it is given. -/
def originPath : DescriptorKey → Option DerivationPath
  | .single key => key.origin.map Prod.snd
  | .xPub key => key.origin.map Prod.snd
  | .multiXPub key => key.origin.map Prod.snd

section Code

/-- x-only form of the key of any expression, allowed or not. -/
def xonlyOf (key : DescriptorKey) : Block 32 :=
  match classify key with
  | .literal xonly _ => xonly
  | .xPub root _ _ _ => xonly root

/-- Root public key of an xpub expression, ignoring any trailing derivation. -/
def dpkToRootPk (key : DescriptorKey) : Exec Error PublicKey :=
  match classify key with
  | .xPub root _ _ _ => .ok root
  | .literal _ _ => .fail .invalidKeyExpression

/-- Root public key of an expression that may encrypt. -/
def dpkToPk (key : DescriptorKey) : Exec Error PublicKey :=
  match classify key with
  | .xPub root _ true _ => .ok root
  | .xPub _ _ false _ | .literal _ _ => .fail .invalidKeyExpression

def dpkToDerivPath (key : DescriptorKey) : Option DerivationPath :=
  match classify key with
  | .literal _ originPath | .xPub _ originPath _ _ => originPath

/-- x-only BIP341 NUMS point H. -/
def bip341Nums : Block 32 :=
  .literal [0x50, 0x92, 0x9b, 0x74, 0xc1, 0xa0, 0x49, 0x54, 0xb7, 0x8b, 0x4b, 0x60, 0x35, 0xe9,
    0x7a, 0x5e, 0x07, 0x8a, 0x5a, 0x0f, 0x28, 0xec, 0x96, 0xd5, 0x47, 0xbf, 0xee, 0x9a, 0xce,
    0x80, 0x3a, 0xc0]

/-- Root of each key expression, paired with its origin path when it has one. -/
def dpksToKeyPaths (dpks : List DescriptorKey) : List (PublicKey × DerivationPath) :=
  let keyPaths : BTreeSet (PublicKey ×ₗ DerivationPath) := dpks.foldl (fun keyPaths k =>
    match dpkToPk k, dpkToDerivPath k with
    | .ok key, some path => keyPaths.insert (toLex (key, path))
    | _, _ => keyPaths) .empty
  keyPaths.toList.map ofLex

def dpksToDerivationKeysPaths (dpks : List DescriptorKey) :
    List PublicKey × List DerivationPath :=
  let sets : BTreeSet PublicKey × BTreeSet DerivationPath := dpks.foldl (fun (keys, paths) k =>
    match dpkToPk k with
    | .ok key =>
        (keys.insert key, match dpkToDerivPath k with
          | some path => paths.insert path
          | none => paths)
    | .error _ => (keys, paths)) (.empty, .empty)
  (sets.1.toList, sets.2.toList)

/-- Add a warning unless it is there. -/
def pushWarning (warnings : List Warning) (warning : Warning) : List Warning :=
  if warning ∉ warnings then warnings ++ [warning] else warnings

variable [Miniscript]

/-- Key expressions allowed to encrypt. -/
def descrToDpks (descriptor : Descriptor) : List DescriptorKey :=
  let keys : BTreeSet DescriptorKey := (descriptorKeys descriptor).foldl (fun keys k =>
    match dpkToPk k with
    | .ok pk => if xonly pk ≠ bip341Nums then keys.insert k else keys
    | .error _ => keys) .empty
  keys.toList

/-- x-only keys a descriptor puts on chain as is. -/
def descrExposedKeys (descriptor : Descriptor) : List (Block 32) :=
  let keys : BTreeSet (Block 32) := (descriptorKeys descriptor).foldl (fun keys k =>
    let exposed := match classify k with
      | .literal xonly _ => some xonly
      | .xPub root _ false false => some (xonly root)
      | .xPub _ _ _ _ => none
    keys.extend exposed.toList) .empty
  keys.toList

/-- A warning for every key expression that `descrToDpks` sorts out. -/
def descrWarnings (descriptor : Descriptor) : Exec Error (List Warning) :=
  .ok ((descriptorKeys descriptor).foldl (fun warnings k =>
    if xonlyOf k = bip341Nums then warnings ++ [.numsKey k]
    else match dpkToPk k with
      | .ok _ => warnings
      | .error _ => warnings ++ [.disallowedKeyExpression k]) [])

end Code

private theorem isDerived_iff {paths : List DerivationPath} {wildcard : Wildcard}
    (hpaths : paths ≠ []) :
    isDerived paths wildcard = true ↔ (∀ path ∈ paths, path ≠ []) ∨ wildcard ≠ .none := by
  simp [isDerived, hpaths]

/-- An expression is accepted to encrypt exactly when it is derived. -/
theorem dpkToPk_eq_ok_iff {key : DescriptorKey} {root : PublicKey} :
    dpkToPk key = .ok root ↔ Derived key root := by
  have hclass : dpkToPk key = .ok root ↔
      ∃ path multipath, classify key = .xPub root path true multipath := by
    rw [dpkToPk]
    rcases classify key with ⟨x, path⟩ | ⟨root', path, _ | _, multipath⟩
    · simp
    · simp
    · simp
  rw [hclass]
  refine ⟨fun ⟨path, multipath, hkey⟩ => ?_, fun hderived => ?_⟩
  · rcases key with key | key | key
    · cases hkey
    · simp only [classify, KeyExpr.xPub.injEq] at hkey
      obtain ⟨rfl, -, hderived, -⟩ := hkey
      rw [isDerived_iff (List.cons_ne_nil _ _)] at hderived
      exact .xPub key (by simpa using hderived)
    · simp only [classify, KeyExpr.xPub.injEq] at hkey
      obtain ⟨rfl, -, hderived, -⟩ := hkey
      exact .multiXPub key ((isDerived_iff key.derivationPaths.2).mp hderived)
  · cases hderived with
    | xPub key hderived =>
        have hderived : isDerived [key.derivationPath] key.wildcard = true :=
          (isDerived_iff (List.cons_ne_nil _ _)).mpr (by simpa using hderived)
        exact ⟨_, _, by rw [classify, hderived]⟩
    | multiXPub key hderived =>
        have hderived := (isDerived_iff key.derivationPaths.2).mpr hderived
        exact ⟨_, _, by rw [classify, hderived]⟩

/-- An expression has one root. -/
theorem Derived.unique {key : DescriptorKey} {first second : PublicKey}
    (hfirst : Derived key first) (hsecond : Derived key second) : first = second := by
  rw [← dpkToPk_eq_ok_iff] at hfirst hsecond
  rw [hfirst] at hsecond
  exact Except.ok.inj hsecond

@[simp]
theorem dpkToDerivPath_eq (key : DescriptorKey) : dpkToDerivPath key = originPath key := by
  cases key <;> rfl

@[simp]
theorem mem_dpksToKeyPaths {dpks : List DescriptorKey} {root : PublicKey} {path : DerivationPath} :
    (root, path) ∈ dpksToKeyPaths dpks ↔
      ∃ key ∈ dpks, Derived key root ∧ originPath key = some path := by
  have hlex : ∀ pairs : List (PublicKey ×ₗ DerivationPath),
      (root, path) ∈ pairs.map ofLex ↔ toLex (root, path) ∈ pairs :=
    fun pairs => List.mem_map_of_injective ofLex.injective (a := toLex (root, path))
  rw [dpksToKeyPaths, hlex, BTreeSet.mem_toList,
    foldl_iff (fun set : BTreeSet (PublicKey ×ₗ DerivationPath) => toLex (root, path) ∈ set)
      (fun key => Derived key root ∧ originPath key = some path)]
  · simp
  · intro set key
    rw [dpkToDerivPath_eq, ← dpkToPk_eq_ok_iff]
    rcases dpkToPk key with fault | root'
    · simp
    · rcases originPath key with _ | path'
      · simp
      · simp [eq_comm, or_comm]

@[simp]
theorem mem_dpksToDerivationKeysPaths {dpks : List DescriptorKey} {root : PublicKey} :
    root ∈ (dpksToDerivationKeysPaths dpks).1 ↔ ∃ key ∈ dpks, Derived key root := by
  rw [dpksToDerivationKeysPaths, BTreeSet.mem_toList,
    foldl_iff (fun sets : BTreeSet PublicKey × BTreeSet DerivationPath => root ∈ sets.1)
      (fun key => Derived key root)]
  · simp
  · rintro ⟨keys, paths⟩ key
    rw [← dpkToPk_eq_ok_iff]
    rcases dpkToPk key with fault | root'
    · simp
    · simp [eq_comm, or_comm]

theorem mem_pushWarning {warnings : List Warning} {warning other : Warning} :
    other ∈ pushWarning warnings warning ↔ other ∈ warnings ∨ warning = other := by
  by_cases hmem : warning ∈ warnings
  · rw [pushWarning, if_neg (not_not.mpr hmem)]
    refine ⟨.inl, ?_⟩
    rintro (hearlier | rfl)
    · exact hearlier
    · exact hmem
  · rw [pushWarning, if_pos hmem, List.mem_append, List.mem_singleton, eq_comm (a := other)]

theorem mem_foldl_pushWarning {found warnings : List Warning} {warning : Warning} :
    warning ∈ found.foldl pushWarning warnings ↔ warning ∈ warnings ∨ warning ∈ found := by
  rw [foldl_iff (fun warnings => warning ∈ warnings)
    (fun other => other = warning) fun _ _ => mem_pushWarning]
  simp

/-- Adding a warning that way does not repeat one. -/
theorem count_foldl_pushWarning_le {found warnings : List Warning} {warning : Warning}
    (hcount : warnings.count warning ≤ 1) :
    (found.foldl pushWarning warnings).count warning ≤ 1 := by
  induction found generalizing warnings with
  | nil => exact hcount
  | cons other found ih =>
      apply ih
      by_cases hmem : other ∈ warnings
      · rw [pushWarning, if_neg (not_not.mpr hmem)]
        exact hcount
      · rw [pushWarning, if_pos hmem, List.count_append]
        by_cases hother : other = warning
        · rw [← hother, List.count_eq_zero_of_not_mem hmem]
          simp
        · rw [List.count_singleton, beq_eq_false_iff_ne.mpr hother]
          simpa using hcount

section Descriptor

variable [Miniscript] {descriptor : Descriptor}

@[simp]
theorem mem_descrToDpks {key : DescriptorKey} :
    key ∈ descrToDpks descriptor ↔
      key ∈ Miniscript.forEachKey descriptor ∧ ∃ root, Derived key root ∧ root.x ≠ bip341Nums := by
  rw [descrToDpks, descriptorKeys, BTreeSet.mem_toList,
    foldl_iff (fun set : BTreeSet DescriptorKey => key ∈ set)
      (fun other => other = key ∧ ∃ root, Derived key root ∧ root.x ≠ bip341Nums)]
  · simp
  · intro set other
    simp only [← dpkToPk_eq_ok_iff]
    by_cases hother : other = key
    · rw [hother]
      rcases dpkToPk key with fault | root
      · simp
      · by_cases hnums : xonly root = bip341Nums
        · simp [hnums, show root.x = bip341Nums from hnums]
        · simp [hnums, show root.x ≠ bip341Nums from hnums]
    · rcases dpkToPk other with fault | root
      · simp [hother]
      · by_cases hnums : xonly root = bip341Nums
        · simp [hnums, hother]
        · simp [hnums, hother, Ne.symm hother]

/-- The keys of a descriptor are the roots of its derived expressions, without the
NUMS key. -/
theorem mem_keys_descrToDpks {root : PublicKey} :
    root ∈ (dpksToDerivationKeysPaths (descrToDpks descriptor)).1 ↔
      ∃ key ∈ Miniscript.forEachKey descriptor, Derived key root ∧ root.x ≠ bip341Nums := by
  simp only [mem_dpksToDerivationKeysPaths, mem_descrToDpks]
  refine ⟨fun ⟨key, ⟨hkey, other, hother, hnums⟩, hroot⟩ => ?_,
    fun ⟨key, hkey, hroot, hnums⟩ => ⟨key, ⟨hkey, root, hroot, hnums⟩, hroot⟩⟩
  rw [hother.unique hroot] at hnums
  exact ⟨key, hkey, hroot, hnums⟩

/-- The key paths of a descriptor are the origin paths of the same expressions. -/
theorem mem_keyPaths_descrToDpks {root : PublicKey} {path : DerivationPath} :
    (root, path) ∈ dpksToKeyPaths (descrToDpks descriptor) ↔
      ∃ key ∈ Miniscript.forEachKey descriptor, Derived key root ∧ root.x ≠ bip341Nums ∧
        originPath key = some path := by
  simp only [mem_dpksToKeyPaths, mem_descrToDpks]
  refine ⟨fun ⟨key, ⟨hkey, other, hother, hnums⟩, hroot, hpath⟩ => ?_,
    fun ⟨key, hkey, hroot, hnums, hpath⟩ => ⟨key, ⟨hkey, root, hroot, hnums⟩, hroot, hpath⟩⟩
  rw [hother.unique hroot] at hnums
  exact ⟨key, hkey, hroot, hnums, hpath⟩

/-- The exposed keys are those some expression exposes. -/
@[simp]
theorem mem_descrExposedKeys {x : Block 32} :
    x ∈ descrExposedKeys descriptor ↔ ∃ key ∈ Miniscript.forEachKey descriptor, Exposes key x := by
  rw [descrExposedKeys, descriptorKeys, BTreeSet.mem_toList,
    foldl_iff (fun set : BTreeSet (Block 32) => x ∈ set)
      (fun key => Exposes key x)]
  · simp
  · intro set key
    rw [BTreeSet.mem_extend]
    apply or_congr_right
    rcases key with ⟨origin, _ | _⟩ | ⟨origin, xkey, path, wildcard⟩ |
      ⟨origin, xkey, paths, wildcard⟩
    · refine ⟨fun hx => ?_, fun hexposes => ?_⟩
      · obtain rfl : x = _ := by simpa [classify] using hx
        exact .fullKey origin _ _
      · cases hexposes
        simp [classify, xonly]
    · refine ⟨fun hx => ?_, fun hexposes => ?_⟩
      · obtain rfl : x = _ := by simpa [classify] using hx
        exact .xOnly origin _
      · cases hexposes
        simp [classify]
    · have hclass : isDerived [path] wildcard = false ↔ path = [] ∧ wildcard = .none := by
        rw [← Bool.not_eq_true, isDerived_iff (List.cons_ne_nil _ _)]
        simp
      refine ⟨fun hx => ?_, fun hexposes => ?_⟩
      · rcases hderived : isDerived [path] wildcard with _ | _
        · obtain ⟨hpath, hwildcard⟩ := hclass.mp hderived
          obtain rfl : x = _ := by simpa [classify, hderived] using hx
          exact .bare _ hpath hwildcard
        · simp [classify, hderived] at hx
      · cases hexposes with
        | bare _ hpath hwildcard => simp [classify, hclass.mpr ⟨hpath, hwildcard⟩, xonly]
    · -- no multipath expression is bare
      refine ⟨fun hx => ?_, fun hexposes => ?_⟩
      · rcases hderived : isDerived paths.1 wildcard with _ | _
        · simp [classify, hderived] at hx
        · simp [classify, hderived] at hx
      · cases hexposes

/-- No warning of a descriptor is about an exposed root: those are the builder's. -/
theorem exposedRoot_not_mem_descrWarnings {warnings : List Warning}
    (hwarnings : descrWarnings descriptor = .ok warnings) (key : PublicKey) :
    .exposedRoot key ∉ warnings := by
  cases hwarnings
  rw [foldl_iff (fun warnings => Warning.exposedRoot key ∈ warnings)
    (fun _ => False)]
  · simp
  · intro warnings other
    by_cases hnums : xonlyOf other = bip341Nums
    · simp [hnums]
    · rcases dpkToPk other with fault | root
      · simp [hnums]
      · simp [hnums]

end Descriptor

end Bip138
