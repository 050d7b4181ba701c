/-
# From a descriptor to a policy and back

The other half of the BIP388 conversion: the roots of the key expressions of a descriptor
become the key information vector, and a template, stored as text, takes the place of the
descriptor. What a policy is made from is what it rebuilds as long as the text of every
placeholder is read back, which leaves out an xpub directly followed by the wildcard, and a
choice of paths that is not one of single steps.
-/

import Bip138.Front.PolicyKeys
import Bip138.Front.PolicyText
import Bip138.Rust.FirstSeen

namespace Bip138

open Bip138.Rust

/-! ## The conversion -/

namespace KeySet

/-- Derivation paths and wildcard of a key expression. -/
def keySuffix [Miniscript] (dpk : DescriptorPublicKey) : Except Error (DerivPaths × Wildcard) := do
  let (paths, wildcard) ← match dpk with
    | .xPub key => .ok ([key.derivationPath], key.wildcard)
    | .multiXPub key => .ok (key.derivationPaths.1, key.wildcard)
    | .single _ => .error .walletPolicy
  if wildcard = .none then .error .walletPolicy
  else match Miniscript.derivPathsNew paths with
    | some derivationPaths => .ok (derivationPaths, wildcard)
    | none => .error .walletPolicy

/-- Placeholder for a key expression, whose root is added to the vector when it is not
there yet. -/
def placeholder [Miniscript] (dpk : DescriptorPublicKey) :
    StateT KeySet (Except Error) Bip388Key :=
  fun keySet => do
    let root ← keyRoot dpk
    let (index, keySet) := match keySet.keys.idxOf? root with
      | some index => (index, keySet)
      | none => (keySet.keys.length, ⟨keySet.keys ++ [root]⟩)
    let (derivationPaths, wildcard) ← keySuffix dpk
    .ok (⟨.ofNat index, derivationPaths, wildcard⟩, keySet)

/-- One visit of the first pass of `from_descriptor`. -/
def collectRoot (keys : List DescriptorPublicKey) (dpk : DescriptorPublicKey) :
    List DescriptorPublicKey :=
  match keyRoot dpk with
  | .ok root => if root ∈ keys then keys else keys ++ [root]
  | .error _ => keys

/-- The roots of key expressions, each of them once. -/
def collectRoots (dpks : List DescriptorPublicKey) : List DescriptorPublicKey :=
  dpks.foldl collectRoot []

end KeySet

/-- `Display` of a descriptor, given that of its keys. -/
class MiniscriptDisplay [Miniscript] where
  descriptorDisplay {Pk : Type} (keyDisplay : Pk → Option String) :
    Miniscript.Descriptor Pk → Option String

section Code

variable [Miniscript]

/-- Build a wallet policy from a concrete descriptor. -/
def WalletPolicy.fromDescriptor (descriptor : Descriptor) : Exec Error WalletPolicy :=
  let keys := KeySet.collectRoots (Miniscript.forEachKey descriptor)
  match (Miniscript.translatePk KeySet.placeholder descriptor).run ⟨keys⟩ with
  | .ok (template, translator) => do
      checkKeyOrder template
      .ok ⟨template, translator.keys⟩
  | .error (.translatorErr cause) => .fail cause
  | .error .outerError => .fail .walletPolicy

variable [MiniscriptDisplay] [PathDisplay]

/-- The template, checksum included, and its key information vector. -/
def toWalletPolicy (descriptor : Descriptor) : Exec Error (String × List DescriptorKey) := do
  let policy ← WalletPolicy.fromDescriptor descriptor
  match MiniscriptDisplay.descriptorDisplay Bip388Key.display policy.template with
  | some text => .ok (text, policy.keyInfo)
  | none => .abort .expect

/-- Build a policy set from a concrete descriptor. The template is stored without its
checksum. -/
def PolicySet.fromDescriptor (descriptor : Descriptor) : Exec Error PolicySet := do
  let (policy, keys) ← toWalletPolicy descriptor
  .ok ⟨keys, truncateAtLast policy '#', false, none, none⟩

end Code

/-! ## What miniscript is assumed to do -/

/-- Key expressions with several paths all have the same number of them. -/
def SamePathCount (counts : List ℕ) : Prop :=
  ∀ first ∈ counts, ∀ second ∈ counts, 1 < first → 1 < second → first = second

/-- `num_der_paths` of a placeholder. -/
def Bip388Key.numDerPaths (key : Bip388Key) : ℕ := key.derivationPaths.1.length

section Laws

variable [Miniscript]

/-- What was translated is translated back by a translator that takes each key back. -/
def Miniscript.TranslatesBack : Prop :=
  ∀ {σ τ ε δ Pk TargetPk : Type} (pk : Pk → StateT σ (Except ε) TargetPk)
    (back : TargetPk → StateT τ (Except δ) Pk) (state later : σ) (start : τ)
    (source : Miniscript.Descriptor Pk) (target : Miniscript.Descriptor TargetPk),
    (Miniscript.translatePk pk source).run state = .ok (target, later) →
    TranslatesTo back start (Miniscript.forEachKey target) (Miniscript.forEachKey source) →
      (Miniscript.translatePk back target).run start = .ok (source, start)

/-- A template is written with its structure around the placeholders and with a checksum. It
is read back if all its placeholders are, unless two of them have different numbers of paths
to choose from. Whatever its text is read as has, in place of each placeholder, what that
is read as. -/
def Miniscript.ReadsTemplates [MiniscriptDisplay] [PathDisplay] : Prop :=
  ∀ (template : Miniscript.Descriptor Bip388Key) (text : String),
    MiniscriptDisplay.descriptorDisplay Bip388Key.display template = some text →
    ∃ body checksum, text = body ++ "#" ++ checksum ∧ '#' ∉ checksum.toList ∧
      ((∀ key ∈ Miniscript.forEachKey template, ReadsAs key key) →
        SamePathCount ((Miniscript.forEachKey template).map Bip388Key.numDerPaths) →
          Miniscript.descriptorFromStr Bip388Key.fromStr body = some template) ∧
      ∀ read, Miniscript.descriptorFromStr Bip388Key.fromStr body = some read →
        List.Forall₂ ReadsAs (Miniscript.forEachKey template) (Miniscript.forEachKey read) ∧
          SamePathCount ((Miniscript.forEachKey read).map Bip388Key.numDerPaths)

end Laws

/-! ## Collecting roots -/

namespace KeySet

section Roots

variable {dpks keys : List DescriptorPublicKey} {root : DescriptorPublicKey}

/-- The roots of key expressions, one for each expression that has one. -/
def roots (dpks : List DescriptorPublicKey) : List DescriptorPublicKey :=
  dpks.filterMap fun dpk => (keyRoot dpk).toOption

theorem mem_roots : root ∈ roots dpks ↔ ∃ dpk ∈ dpks, keyRoot dpk = .ok root := by
  rw [roots, List.mem_filterMap]
  refine exists_congr fun dpk => and_congr_right fun _ => ?_
  rcases keyRoot dpk with cause | other
  · simp [Except.toOption]
  · simp [Except.toOption]

/-- The vector has the roots in the order they are first seen in. -/
theorem collectRoots_eq : collectRoots dpks = (roots dpks).eraseDups := by
  rw [← foldl_addNew, roots, List.foldl_filterMap, collectRoots]
  refine List.foldl_ext _ _ _ fun keys dpk _ => ?_
  rw [collectRoot]
  rcases keyRoot dpk with cause | root
  · rfl
  · rfl

theorem mem_collectRoots : root ∈ collectRoots dpks ↔ ∃ dpk ∈ dpks, keyRoot dpk = .ok root := by
  rw [collectRoots_eq, List.mem_eraseDups, mem_roots]

theorem nodup_collectRoots : (collectRoots dpks).Nodup := by
  rw [collectRoots_eq]
  exact nodup_eraseDups _

/-- The number of roots that are not the same. -/
def rootCount (dpks : List DescriptorPublicKey) : ℕ :=
  (dpks.filterMap fun dpk => (keyRoot dpk).toOption).dedup.length

theorem length_collectRoots : (collectRoots dpks).length = rootCount dpks := by
  refine List.Perm.length_eq ((List.perm_ext_iff_of_nodup nodup_collectRoots
    (List.nodup_dedup _)).mpr fun root => ?_)
  rw [mem_collectRoots, List.mem_dedup, ← roots, mem_roots]

/-- A root is its own root. -/
theorem keyRoot_of_mem_collectRoots (hmem : root ∈ collectRoots dpks) :
    keyRoot root = .ok root := by
  obtain ⟨dpk, -, hroot⟩ := mem_collectRoots.mp hmem
  cases dpk with
  | single key => cases hroot
  | xPub key =>
      cases hroot
      rfl
  | multiXPub key =>
      cases hroot
      rfl

end Roots

end KeySet

/-! ## One key expression -/

/-- The derivation paths of a key expression. -/
def derivations : DescriptorKey → List DerivationPath
  | .single _ => []
  | .xPub key => [key.derivationPath]
  | .multiXPub key => key.derivationPaths.1

/-- The wildcard of a key expression. -/
def wildcardOf : DescriptorKey → Wildcard
  | .single _ => .none
  | .xPub key => key.wildcard
  | .multiXPub key => key.wildcard

/-- The key expressions that a policy gives back: an xpub with a path in front of the
wildcard, or with a choice of several paths that have one step each. -/
def Restorable : DescriptorKey → Prop
  | .single _ => False
  | .xPub key => key.derivationPath ≠ []
  | .multiXPub key =>
      key.derivationPaths.1.length ≠ 1 ∧ ∀ path ∈ key.derivationPaths.1, path.length = 1

theorem restorable_iff {key : DescriptorKey} :
    Restorable key ↔ Several key ∧ Legible (derivations key) := by
  rcases key with key | key | ⟨origin, xkey, ⟨paths, hpaths⟩, wildcard⟩
  · simp [Restorable, Several]
  · simp [Restorable, Several, derivations, Legible]
  · rcases paths with _ | ⟨path, _ | ⟨second, rest⟩⟩
    · exact absurd rfl hpaths
    · simp [Restorable, Several]
    · simp [Restorable, Several, derivations, Legible]

namespace KeySet

section Placed

variable [Miniscript] {keys : List DescriptorPublicKey} {dpk : DescriptorPublicKey}
  {key : Bip388Key} {index : ℕ}

/-- The suffix of a key expression with a wildcard. -/
theorem keySuffix_eq_ok_iff [LawfulDerivPaths] {paths : DerivPaths} {wildcard : Wildcard} :
    keySuffix dpk = .ok (paths, wildcard) ↔
      paths.1 = derivations dpk ∧ wildcard = wildcardOf dpk ∧ wildcard ≠ .none := by
  have hpaired : ∀ (given : DerivPaths) (mark : Wildcard),
      (if mark = .none then .error .walletPolicy else .ok (given, mark) :
        Except Error (DerivPaths × Wildcard)) = .ok (paths, wildcard) ↔
        paths.1 = given.1 ∧ wildcard = mark ∧ wildcard ≠ .none := by
    intro given mark
    by_cases hmark : mark = .none
    · rw [if_pos hmark]
      exact iff_of_false (fun herror => by cases herror) fun hall => hall.2.2 (hall.2.1.trans hmark)
    · rw [if_neg hmark, Except.ok.injEq, Prod.mk.injEq, ← Subtype.ext_iff, eq_comm (a := given),
        eq_comm (a := mark)]
      exact and_congr_right fun _ => ⟨fun hsame => ⟨hsame, hsame ▸ hmark⟩, And.left⟩
  have hnew : ∀ given : DerivPaths, Miniscript.derivPathsNew given.1 = some given := fun given => by
    rw [LawfulDerivPaths.derivPathsNew_eq, given.ofList_val]
  rcases dpk with key | key | key
  · exact iff_of_false (fun herror => by cases herror) fun hall => paths.2 hall.1
  · have hpath := hnew ⟨[key.derivationPath], List.cons_ne_nil _ _⟩
    simp only [keySuffix, Bind.bind, Except.bind, hpath]
    exact hpaired _ key.wildcard
  · simp only [keySuffix, Bind.bind, Except.bind, hnew]
    exact hpaired key.derivationPaths key.wildcard

/-- The placeholder of a key expression, whose root stands at this place of the vector. -/
structure Placed (keys : List DescriptorPublicKey) (index : ℕ) (dpk : DescriptorPublicKey)
    (key : Bip388Key) : Prop where
  root : ∃ root, keyRoot dpk = .ok root ∧ keys[index]? = some root
  suffix : keySuffix dpk = .ok (key.derivationPaths, key.wildcard)
  index_eq : key.index = .ofNat index

/-- With its root in the vector, a key expression gets the place of the root, and adds
nothing. -/
theorem run_placeholder_eq_ok_iff {keySet later : KeySet} (hnodup : keySet.keys.Nodup)
    (hcollected : ∀ root, keyRoot dpk = .ok root → root ∈ keySet.keys) :
    (placeholder dpk).run keySet = .ok (key, later) ↔
      later = keySet ∧ ∃ index, Placed keySet.keys index dpk key := by
  change (keyRoot dpk >>= fun root => _) = .ok (key, later) ↔ _
  rcases hroot : keyRoot dpk with cause | root
  · refine iff_of_false (fun herror => by cases herror) fun ⟨_, _, hplaced⟩ => ?_
    obtain ⟨root, hother, -⟩ := hplaced.root
    rw [hroot] at hother
    cases hother
  · obtain ⟨index, hindex⟩ := Option.isSome_iff_exists.mp
      (List.isSome_idxOf?.mpr (hcollected root hroot))
    obtain ⟨hlt, hat, -⟩ := List.idxOf?_eq_some_iff.mp hindex
    have hentry := List.getElem?_eq_some_iff.mpr ⟨hlt, hat⟩
    simp only [Bind.bind, Except.bind, hindex]
    rcases hsuffix : keySuffix dpk with cause | ⟨paths, wildcard⟩
    · refine iff_of_false (fun herror => by cases herror) fun ⟨_, _, hplaced⟩ => ?_
      have hother := hplaced.suffix
      rw [hsuffix] at hother
      cases hother
    · rw [Except.ok.injEq, Prod.mk.injEq, and_comm, eq_comm (a := keySet)]
      refine and_congr_right fun _ => ⟨?_, ?_⟩
      · rintro rfl
        exact ⟨index, ⟨root, hroot, hentry⟩, hsuffix, rfl⟩
      · rintro ⟨place, ⟨other, hother, hplace⟩, hown, hnumber⟩
        rw [hroot, Except.ok.injEq] at hother
        rw [← hother, ← hentry] at hplace
        obtain rfl : index = place := (List.getElem?_inj hlt hnodup).mp hplace.symm
        rw [hsuffix, Except.ok.injEq, Prod.mk.injEq] at hown
        rw [hown.1, hown.2, ← hnumber]

theorem run_placeholder_of_mem {dpks : List DescriptorPublicKey} {later : KeySet}
    (hmem : dpk ∈ dpks) :
    (placeholder dpk).run ⟨collectRoots dpks⟩ = .ok (key, later) ↔
      later = ⟨collectRoots dpks⟩ ∧ ∃ index, Placed (collectRoots dpks) index dpk key :=
  run_placeholder_eq_ok_iff nodup_collectRoots fun _ hroot =>
    mem_collectRoots.mpr ⟨dpk, hmem, hroot⟩

/-- A key expression is what its placeholder resolves to, unless it has a choice of one path
or the index is too large for the placeholder. -/
theorem Placed.resolve_eq_ok_iff [LawfulDerivPaths] (hplaced : Placed keys index dpk key)
    (hnodup : keys.Nodup) (hroots : ∀ entry ∈ keys, keyRoot entry = .ok entry) :
    (KeySet.mk keys).resolve key = .ok dpk ↔ index < 2 ^ 32 ∧ Several dpk := by
  obtain ⟨⟨root, hroot, hentry⟩, hsuffix, hindex⟩ := hplaced
  have hmod : key.index.toNat = index % 2 ^ 32 := by
    rw [hindex]
    exact UInt32.toNat_ofNat
  constructor
  · intro hresolve
    obtain ⟨entry, hat, hsame, hseveral⟩ := keyRoot_of_resolve hresolve
    rw [hroot, hroots entry (List.mem_of_getElem? hat), Except.ok.injEq] at hsame
    rw [← hsame, ← hentry, hmod] at hat
    have hequal : index = index % 2 ^ 32 :=
      (List.getElem?_inj (List.getElem?_eq_some_iff.mp hentry).1 hnodup).mp hat.symm
    exact ⟨by omega, hseveral⟩
  · rintro ⟨hsmall, hseveral⟩
    rw [Nat.mod_eq_of_lt hsmall] at hmod
    rw [KeySet.resolve, hmod, hentry]
    obtain ⟨hpaths, hwildcard, -⟩ := keySuffix_eq_ok_iff.mp hsuffix
    rcases dpk with dpk | dpk | dpk
    · cases hseveral
    · cases hroot
      simp only [Bind.bind, Except.bind]
      rw [hpaths, hwildcard]
      rfl
    · cases hroot
      have hgiven : key.derivationPaths = dpk.derivationPaths := Subtype.ext hpaths
      simp only [Bind.bind, Except.bind]
      rw [hgiven, hwildcard]
      split
      · next path hone => exact absurd (congrArg List.length hone) hseveral
      · rfl

/-- The round trip of one key expression: its placeholder is read as itself, and resolves to
the expression. -/
theorem Placed.readsAs_and_resolve_iff [LawfulDerivPaths] [PathDisplay] [LawfulPathDisplay]
    (hsuffixes : Miniscript.ReadsSuffixes) (hplaced : Placed keys index dpk key)
    (hnodup : keys.Nodup) (hroots : ∀ entry ∈ keys, keyRoot entry = .ok entry) :
    ReadsAs key key ∧ (KeySet.mk keys).resolve key = .ok dpk ↔ Restorable dpk ∧ index < 2 ^ 32 := by
  obtain ⟨hpaths, -, hwildcard⟩ := keySuffix_eq_ok_iff.mp hplaced.suffix
  rw [readsAs_iff hsuffixes hwildcard, hplaced.resolve_eq_ok_iff hnodup hroots, restorable_iff,
    hpaths]
  tauto

end Placed

end KeySet

/-! ## A whole descriptor -/

/-- What a policy is made of: a template for the descriptor, whose placeholders are in order,
and the roots of its key expressions. -/
theorem WalletPolicy.fromDescriptor_eq_ok_iff [Miniscript] {descriptor : Descriptor}
    {policy : WalletPolicy} :
    fromDescriptor descriptor = .ok policy ↔
      ∃ later, (Miniscript.translatePk KeySet.placeholder descriptor).run
          ⟨KeySet.collectRoots (Miniscript.forEachKey descriptor)⟩ = .ok (policy.template, later) ∧
        checkKeyOrder policy.template = .ok () ∧ policy.keyInfo = later.keys := by
  rw [fromDescriptor]
  rcases hrun : (Miniscript.translatePk KeySet.placeholder descriptor).run
      ⟨KeySet.collectRoots (Miniscript.forEachKey descriptor)⟩ with (cause | _) | ⟨template, later⟩
  · simp
  · simp
  · simp only [Exec.bind_eq_ok_iff, Except.ok.injEq, Prod.mk.injEq]
    constructor
    · rintro ⟨_, horder, rfl⟩
      exact ⟨later, ⟨rfl, rfl⟩, horder, rfl⟩
    · rintro ⟨_, ⟨rfl, rfl⟩, horder, hkeys⟩
      exact ⟨(), horder, by rw [← hkeys]⟩

/-- The indices of placeholders. -/
def indices (keys : List Bip388Key) : List ℕ := keys.map fun key => key.index.toNat

theorem checkKeyOrderStep_eq_ok_iff {next later : UInt32} {key : Bip388Key} :
    checkKeyOrderStep next key = .ok later ↔
      nextNumber next.toNat key.index.toNat = some later.toNat := by
  rw [checkKeyOrderStep, nextNumber]
  by_cases hnext : key.index = next
  · rw [if_pos hnext, if_pos (congrArg UInt32.toNat hnext), addU32_eq_ok_iff, Option.some_inj,
      eq_comm]
    rfl
  · have hother : ¬ key.index.toNat = next.toNat := mt UInt32.toNat_inj.mp hnext
    rw [if_neg hnext, if_neg hother]
    by_cases hless : key.index < next
    · rw [if_pos hless, if_pos (UInt32.lt_iff_toNat_lt.mp hless), Option.some_inj,
        UInt32.toNat_inj, Except.ok.injEq]
    · rw [if_neg hless, if_neg (mt UInt32.lt_iff_toNat_lt.mpr hless)]
      exact iff_of_false (Exec.fail_ne_ok _ _) (Option.some_ne_none _).symm

/-- The counter is that of the numbers, as long as it fits. -/
theorem foldlM_checkKeyOrderStep_eq_ok_iff {keys : List Bip388Key} {next last : UInt32} :
    keys.foldlM checkKeyOrderStep next = .ok last ↔
      (indices keys).foldlM nextNumber next.toNat = some last.toNat := by
  induction keys generalizing next with
  | nil => simp [indices, pure, Except.pure, UInt32.toNat_inj]
  | cons key keys ih =>
      rw [List.foldlM_cons, Exec.bind_eq_ok_iff, indices, List.map_cons, List.foldlM_cons,
        Option.bind_eq_bind, Option.bind_eq_some_iff, ← indices]
      constructor
      · rintro ⟨mid, hstep, hrest⟩
        exact ⟨mid.toNat, checkKeyOrderStep_eq_ok_iff.mp hstep, ih.mp hrest⟩
      · rintro ⟨mid, hstep, hrest⟩
        have hfits : mid < 2 ^ 32 := (le_of_foldlM_nextNumber hrest).trans_lt last.toNat_lt
        have hmid : (UInt32.ofNat mid).toNat = mid := UInt32.toNat_ofNat_of_lt' hfits
        refine ⟨.ofNat mid, checkKeyOrderStep_eq_ok_iff.mpr ?_, ih.mpr ?_⟩
        · rw [hmid]
          exact hstep
        · rw [hmid]
          exact hrest

section Order

variable [Miniscript]

/-- Which templates `check_key_order` lets pass: the indices count up, and the next one is
one as well. -/
theorem checkKeyOrder_eq_ok_iff {template : Miniscript.Descriptor Bip388Key} :
    checkKeyOrder template = .ok () ↔
      ∃ count < 2 ^ 32, (indices (Miniscript.forEachKey template)).eraseDups = List.range count := by
  rw [checkKeyOrder, Exec.bind_eq_ok_iff]
  simp only [foldlM_checkKeyOrderStep_eq_ok_iff, and_true]
  constructor
  · rintro ⟨last, hrun⟩
    exact ⟨last.toNat, last.toNat_lt, foldlM_nextNumber_eq_some_iff.mp hrun⟩
  · rintro ⟨count, hcount, hrange⟩
    refine ⟨.ofNat count, ?_⟩
    rw [UInt32.toNat_ofNat_of_lt' hcount]
    exact foldlM_nextNumber_eq_some_iff.mpr hrange

end Order

namespace PolicySet

section Restored

variable [Miniscript] {descriptor : Descriptor} {set : PolicySet}

/-- The template has, in place of each key expression, its placeholder. -/
theorem forall₂_placed (htranslates : Miniscript.TranslatesInPlace)
    {template : Miniscript.Descriptor Bip388Key} {later : KeySet}
    (hrun : (Miniscript.translatePk KeySet.placeholder descriptor).run
      ⟨KeySet.collectRoots (Miniscript.forEachKey descriptor)⟩ = .ok (template, later)) :
    later = ⟨KeySet.collectRoots (Miniscript.forEachKey descriptor)⟩ ∧
      List.Forall₂ (fun dpk key => ∃ index,
          KeySet.Placed (KeySet.collectRoots (Miniscript.forEachKey descriptor)) index dpk key)
        (Miniscript.forEachKey descriptor) (Miniscript.forEachKey template) := by
  obtain ⟨hlater, hkeys⟩ := htranslates _ _ _ _ _
    (fun dpk hdpk _ _ hplace => ((KeySet.run_placeholder_of_mem hdpk).mp hplace).1) hrun
  refine ⟨hlater, ?_⟩
  have hmem := (List.forall₂_and_left _ _).mpr ⟨fun _ hdpk => hdpk, hkeys⟩
  exact hmem.imp fun dpk key hplace => ((KeySet.run_placeholder_of_mem hplace.1).mp hplace.2).2

/-- There is an index for each root when the order is right. -/
theorem length_collectRoots_lt_of_checkKeyOrder {template : Miniscript.Descriptor Bip388Key}
    (horder : checkKeyOrder template = .ok ())
    (hplaced : List.Forall₂ (fun dpk key => ∃ index,
        KeySet.Placed (KeySet.collectRoots (Miniscript.forEachKey descriptor)) index dpk key)
      (Miniscript.forEachKey descriptor) (Miniscript.forEachKey template)) :
    (KeySet.collectRoots (Miniscript.forEachKey descriptor)).length < 2 ^ 32 := by
  obtain ⟨count, hcount, hrange⟩ := checkKeyOrder_eq_ok_iff.mp horder
  by_contra hlarge
  -- the placeholder of the first root without an index would have this index
  have hlt : count < (KeySet.collectRoots (Miniscript.forEachKey descriptor)).length := by omega
  obtain ⟨dpk, hdpk, hroot⟩ := KeySet.mem_collectRoots.mp (List.getElem_mem hlt)
  obtain ⟨key, hkey, index, ⟨root, hsame, hentry⟩, -, hindex⟩ :=
    exists_mem_of_forall₂ hplaced dpk hdpk
  rw [hroot, Except.ok.injEq] at hsame
  rw [← hsame, ← List.getElem?_eq_getElem hlt] at hentry
  obtain rfl := (List.getElem?_inj hlt KeySet.nodup_collectRoots).mp hentry.symm
  have hmem : count ∈ indices (Miniscript.forEachKey template) := by
    refine List.mem_map.mpr ⟨key, hkey, ?_⟩
    rw [hindex, UInt32.toNat_ofNat_of_lt' hcount]
  rw [← List.mem_eraseDups, hrange] at hmem
  exact List.not_mem_range_self hmem

/-- The placeholders have as many paths as the key expressions. -/
theorem map_numDerPaths [LawfulDerivPaths] {template : Miniscript.Descriptor Bip388Key}
    {roots : List DescriptorKey}
    (hplaced : List.Forall₂ (fun dpk key => ∃ index, KeySet.Placed roots index dpk key)
      (Miniscript.forEachKey descriptor) (Miniscript.forEachKey template)) :
    (Miniscript.forEachKey template).map Bip388Key.numDerPaths =
      (Miniscript.forEachKey descriptor).map fun dpk => (derivations dpk).length := by
  symm
  rw [← List.forall₂_eq_eq_eq, List.forall₂_map_left_iff, List.forall₂_map_right_iff]
  refine hplaced.imp fun dpk key hplace => ?_
  obtain ⟨index, hplace⟩ := hplace
  rw [Bip388Key.numDerPaths, (KeySet.keySuffix_eq_ok_iff.mp hplace.suffix).1]

variable [MiniscriptDisplay] [PathDisplay]

/-- What there is when a policy set was made: a template for the descriptor, its text, and
the roots of the key expressions. -/
theorem exists_template_of_fromDescriptor (hset : fromDescriptor descriptor = .ok set) :
    ∃ template later text,
      (Miniscript.translatePk KeySet.placeholder descriptor).run
          ⟨KeySet.collectRoots (Miniscript.forEachKey descriptor)⟩ = .ok (template, later) ∧
      checkKeyOrder template = .ok () ∧
      MiniscriptDisplay.descriptorDisplay Bip388Key.display template = some text ∧
      set.keys = later.keys ∧ set.policy = truncateAtLast text '#' := by
  obtain ⟨⟨text, keys⟩, hpolicy, hset⟩ := Exec.bind_eq_ok_iff.mp hset
  cases hset
  obtain ⟨policy, hconvert, hprint⟩ := Exec.bind_eq_ok_iff.mp hpolicy
  obtain ⟨later, hrun, horder, hkeys⟩ := WalletPolicy.fromDescriptor_eq_ok_iff.mp hconvert
  rcases hdisplay : MiniscriptDisplay.descriptorDisplay Bip388Key.display policy.template with
    _ | printed
  · simp only [hdisplay] at hprint
    cases hprint
  · simp only [hdisplay] at hprint
    cases hprint
    exact ⟨policy.template, later, text, hrun, horder, hdisplay, hkeys, rfl⟩

/-- Which descriptors their policy gives back: those whose key expressions it gives back, as
long as the choices are between the same number of paths. -/
theorem toDescriptor_eq_ok_iff_restorable [LawfulDerivPaths] [LawfulPathDisplay]
    (htranslates : Miniscript.TranslatesInPlace) (hback : Miniscript.TranslatesBack)
    (htemplates : Miniscript.ReadsTemplates) (hsuffixes : Miniscript.ReadsSuffixes)
    (hset : fromDescriptor descriptor = .ok set) :
    set.toDescriptor = .ok descriptor ↔
      (∀ key ∈ Miniscript.forEachKey descriptor, Restorable key) ∧
      SamePathCount
        ((Miniscript.forEachKey descriptor).map fun key => (derivations key).length) := by
  obtain ⟨template, later, text, hrun, horder, hdisplay, hkeys, hpolicy⟩ :=
    exists_template_of_fromDescriptor hset
  obtain ⟨rfl, hplaced⟩ := forall₂_placed htranslates hrun
  have hsmall := length_collectRoots_lt_of_checkKeyOrder horder hplaced
  obtain ⟨body, checksum, rfl, hchecksum, hreadable, hread⟩ := htemplates template text hdisplay
  have hbody : set.policy = body := by
    have hhash : "#" = String.singleton '#' := rfl
    rw [hpolicy, hhash]
    exact truncateAtLast_append hchecksum
  -- the round trip of a descriptor is that of its key expressions, one by one
  have hround : ∀ dpk key index,
      KeySet.Placed (KeySet.collectRoots (Miniscript.forEachKey descriptor)) index dpk key →
      (ReadsAs key key ∧ (KeySet.mk set.keys).resolve key = .ok dpk ↔
        Restorable dpk ∧ index < 2 ^ 32) := by
    intro dpk key index hplace
    rw [hkeys]
    exact hplace.readsAs_and_resolve_iff hsuffixes KeySet.nodup_collectRoots
      fun _ => KeySet.keyRoot_of_mem_collectRoots
  constructor
  · intro hrebuilt
    obtain ⟨read, hparse, -⟩ := toDescriptor_eq_ok_iff.mp hrebuilt
    have hplaceholders : set.placeholders = Miniscript.forEachKey read := by
      rw [placeholders, hparse]
    have hresolve := forall₂_of_toDescriptor htranslates hrebuilt
    rw [hplaceholders] at hresolve
    rw [hbody] at hparse
    obtain ⟨hreads, hcount⟩ := hread read hparse
    have hmarked : ∀ key ∈ Miniscript.forEachKey template, key.wildcard ≠ .none :=
      forall_mem_of_forall₂ hplaced.flip fun _ _ hplace =>
        (KeySet.keySuffix_eq_ok_iff.mp hplace.choose_spec.suffix).2.2
    obtain ⟨hself, hequal⟩ := readsAs_self_of_forall₂ hsuffixes hmarked hreads
    rw [hequal] at hresolve hcount
    have hall : List.Forall₂ (fun _ dpk => Restorable dpk) (Miniscript.forEachKey template)
        (Miniscript.forEachKey descriptor) := by
      refine List.Forall₂.mp (fun key dpk hpair hplace => ?_)
        ((List.forall₂_and_left _ _).mpr ⟨hself, hresolve⟩) hplaced.flip
      obtain ⟨index, hplace⟩ := hplace
      exact ((hround dpk key index hplace).mp hpair).1
    refine ⟨forall_mem_of_forall₂ hall.flip fun _ _ hrestorable => hrestorable, ?_⟩
    rw [← map_numDerPaths hplaced]
    exact hcount
  · rintro ⟨hrestorable, hcount⟩
    have hall : List.Forall₂ (fun dpk key =>
        ReadsAs key key ∧ (KeySet.mk set.keys).resolve key = .ok dpk)
        (Miniscript.forEachKey descriptor) (Miniscript.forEachKey template) := by
      refine ((List.forall₂_and_left _ _).mpr ⟨hrestorable, hplaced⟩).imp fun dpk key hpair => ?_
      obtain ⟨hyes, index, hplace⟩ := hpair
      refine (hround dpk key index hplace).mpr ⟨hyes, ?_⟩
      obtain ⟨root, -, hentry⟩ := hplace.root
      exact (List.getElem?_eq_some_iff.mp hentry).1.trans hsmall
    refine toDescriptor_eq_ok_iff.mpr ⟨template, ?_, horder, ⟨set.keys⟩,
      hback _ _ _ _ _ _ _ hrun ?_⟩
    · rw [hbody]
      refine hreadable (forall_mem_of_forall₂ hall.flip fun _ _ hpair => hpair.1) ?_
      rw [map_numDerPaths hplaced]
      exact hcount
    · exact hall.flip.imp fun key dpk hpair => KeySet.run_pk_eq_ok_iff.mpr ⟨hpair.2, rfl⟩

end Restored

/-! ## An xpub directly followed by the wildcard -/

namespace Accounts

open Bip138.Sample (xkey suffixXkey accountKey keyTexts)
open PathDisplay.Sample

/-- How templates are written, checksum included. -/
def templateTexts : List (String × String) :=
  [("wpkh(@0//*)", "3vl743nf"), ("wpkh(@0/0/*)", "hmaz5cye")]

def checksumOf (body : String) : String :=
  ((templateTexts.find? (·.1 = body)).map Prod.snd).getD ""

/-- The text between the parentheses of `wpkh()`. -/
def wpkhArgument (text : String) : Option String :=
  match text.toList with
  | 'w' :: 'p' :: 'k' :: 'h' :: '(' :: rest =>
      if rest.getLast? = some ')' then some (.ofList rest.dropLast) else none
  | _ => none

/-- The keys of the examples, and the throwaway xpub with any suffix. -/
def readKey (text : String) : Option DescriptorPublicKey :=
  if parseXpub.toList <+: text.toList then do
    let (paths, wildcard) ← readSuffix (.ofList (text.toList.drop parseXpub.toList.length))
    DescriptorPublicKey.followed suffixXkey paths wildcard
  else (keyTexts.find? (·.2 = text)).map Prod.fst

/-- A miniscript with one form of descriptor, and a key parser that reads suffixes. -/
scoped instance suffixReader : Miniscript where
  Descriptor := Wpkh
  forEachKey descriptor := [descriptor.key]
  translatePk pk descriptor state :=
    match pk descriptor.key state with
    | .ok (key, state) => .ok (⟨key⟩, state)
    | .error cause => .error (.translatorErr cause)
  descriptorFromStr keyFromStr text := do
    let argument ← wpkhArgument text
    let key ← keyFromStr argument
    some ⟨key⟩
  descriptorToString descriptor := Bip138.Sample.miniscript.descriptorToString descriptor
  keyFromStr := readKey
  isMultipath descriptor := (Wpkh.key descriptor).isMultipath
  derivPathsNew := DerivPaths.ofList

scoped instance lawfulDerivPaths : LawfulDerivPaths := ⟨fun _ => rfl⟩

scoped instance display : MiniscriptDisplay where
  descriptorDisplay keyDisplay descriptor := do
    let text ← keyDisplay (Wpkh.key descriptor)
    some ("wpkh(" ++ text ++ ")" ++ "#" ++ checksumOf ("wpkh(" ++ text ++ ")"))

theorem translatesInPlace : Miniscript.TranslatesInPlace :=
  PolicyBackup.Sample.translatesInPlace

theorem translatesBack : Miniscript.TranslatesBack := by
  intro σ τ ε δ Pk TargetPk pk back state later start source target hrun hback
  obtain ⟨key⟩ := source
  obtain ⟨value⟩ := target
  obtain ⟨hkey, -⟩ := List.forall₂_cons.mp hback
  have hkey : back value start = .ok (key, start) := hkey
  simp only [Miniscript.translatePk, StateT.run, hkey]

theorem readsSuffixes : Miniscript.ReadsSuffixes := by
  refine ⟨suffixXkey, fun suffix _ => ?_⟩
  have htext : (parseXpub ++ suffix).toList = parseXpub.toList ++ suffix.toList :=
    String.toList_append
  change readKey (parseXpub ++ suffix) = _
  rw [readKey, htext, if_pos (List.prefix_append _ _), List.drop_left, String.ofList_toList]

theorem wpkhArgument_append (argument : String) :
    wpkhArgument ("wpkh(" ++ argument ++ ")") = some argument := by
  have htext : ("wpkh(" ++ argument ++ ")").toList =
      'w' :: 'p' :: 'k' :: 'h' :: '(' :: (argument.toList ++ [')']) := by
    simp
  rw [wpkhArgument, htext]
  simp

theorem not_mem_checksumOf (body : String) : '#' ∉ (checksumOf body).toList := by
  rw [checksumOf]
  have hall : ∀ entry ∈ templateTexts, '#' ∉ entry.2.toList := by decide
  rcases hfound : templateTexts.find? (·.1 = body) with _ | entry
  · rw [hfound]
    decide
  · rw [hfound]
    exact hall entry (List.mem_of_find?_eq_some hfound)

theorem readsTemplates : Miniscript.ReadsTemplates := by
  rintro ⟨key⟩ text hdisplay
  obtain ⟨argument, hargument, htext⟩ := Option.bind_eq_some_iff.mp hdisplay
  cases htext
  have hparse : Miniscript.descriptorFromStr Bip388Key.fromStr ("wpkh(" ++ argument ++ ")") =
      (Bip388Key.fromStr argument).map Wpkh.mk := by
    change (wpkhArgument ("wpkh(" ++ argument ++ ")") >>= fun argument => _) = _
    rw [wpkhArgument_append, Option.bind_eq_bind, Option.bind_some]
    rcases Bip388Key.fromStr argument with _ | read
    · rfl
    · rfl
  refine ⟨_, _, rfl, not_mem_checksumOf _, ?_⟩
  rw [hparse]
  constructor
  · intro hreads _
    obtain ⟨other, hother, hread⟩ := hreads key (List.mem_singleton_self _)
    rw [show key.display = some argument from hargument, Option.some.injEq] at hother
    rw [hother, hread]
    rfl
  · intro read hread
    obtain ⟨value, hvalue, rfl⟩ := Option.map_eq_some_iff.mp hread
    refine ⟨.cons ⟨argument, hargument, hvalue⟩ .nil, ?_⟩
    intro first hfirst second hsecond _ _
    rw [List.mem_singleton.mp hfirst, List.mem_singleton.mp hsecond]

/-- The keys of the account, without a path in front of the wildcard. -/
def bareWildcard : Descriptor := ⟨.xPub ⟨none, xkey, [], .unhardened⟩⟩

def receiving : Descriptor := ⟨accountKey⟩

end Accounts

open Accounts PathDisplay.Sample in
/-- The policy of an xpub directly followed by the wildcard cannot be read. -/
theorem not_toDescriptor_fromDescriptor :
    ¬ ∀ (descriptor : Descriptor) set, fromDescriptor descriptor = .ok set →
      set.toDescriptor = .ok descriptor := by
  intro hround
  obtain ⟨set, hset, htest⟩ := Exec.exists_eq_ok (fromDescriptor bareWildcard)
    (fun set => !set.toDescriptor.returnsWith fun _ => true) (by decide +kernel)
  rw [hround bareWildcard set hset] at htest
  cases htest

open Accounts PathDisplay.Sample in
/-- The policy of the receiving keys gives them back. -/
theorem toDescriptor_eq_ok_iff_restorable_sample :
    ∃ set, fromDescriptor receiving = .ok set ∧ set.toDescriptor = .ok receiving := by
  obtain ⟨set, hset, -⟩ := Exec.exists_eq_ok (fromDescriptor receiving) (fun _ => true)
    (by decide +kernel)
  refine ⟨set, hset, (toDescriptor_eq_ok_iff_restorable translatesInPlace translatesBack
    readsTemplates readsSuffixes hset).mpr ⟨fun key hkey => ?_, ?_⟩⟩
  · obtain rfl := List.mem_singleton.mp hkey
    exact List.cons_ne_nil _ _
  · intro first hfirst second hsecond _ _
    exact (List.mem_singleton.mp hfirst).trans (List.mem_singleton.mp hsecond).symm

end PolicySet

end Bip138
