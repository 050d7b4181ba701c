/-
# The indices of a policy

`from_descriptor` numbers the roots before it translates, so that the numbers do not depend
on the order the descriptor is translated in: with all roots in the vector, the translator
finds each of them at its place and leaves the vector as it is. The policy then loses
nothing, as long as the indices fit their type; with more roots the counter of
`check_key_order` runs over.
-/

import Bip138.Front.TypedPolicy

namespace Bip138

open Bip138.Rust

/-- A descriptor is translated to placeholders when each of its key expressions is. -/
def Miniscript.TranslatesTemplates [Miniscript] : Prop :=
  ∀ {σ ε : Type} (pk : DescriptorPublicKey → StateT σ (Except ε) Bip388Key) (state : σ)
    (source : Miniscript.Descriptor DescriptorPublicKey) (values : List Bip388Key),
    TranslatesTo pk state (Miniscript.forEachKey source) values →
      ∃ target, (Miniscript.translatePk pk source).run state = .ok (target, state)

namespace KeySet

section Indices

variable {dpks keys : List DescriptorPublicKey} {dpk : DescriptorPublicKey}
  {placeholders : List Bip388Key}

/-- A key expression with a wildcard gets a placeholder. -/
theorem exists_run_placeholder [Miniscript] [LawfulDerivPaths] (hwildcard : wildcardOf dpk ≠ .none)
    (hmem : dpk ∈ dpks) :
    ∃ key, (placeholder dpk).run ⟨collectRoots dpks⟩ = .ok (key, ⟨collectRoots dpks⟩) := by
  obtain ⟨root, hroot⟩ := exists_keyRoot_of_wildcardOf hwildcard
  obtain ⟨paths, hpaths⟩ : ∃ paths : DerivPaths, paths.1 = derivations dpk := by
    cases dpk with
    | single key => exact absurd rfl hwildcard
    | xPub key => exact ⟨⟨[key.derivationPath], List.cons_ne_nil _ _⟩, rfl⟩
    | multiXPub key => exact ⟨key.derivationPaths, rfl⟩
  obtain ⟨index, hindex⟩ := List.getElem?_of_mem (mem_collectRoots.mpr ⟨dpk, hmem, hroot⟩)
  exact ⟨⟨.ofNat index, paths, wildcardOf dpk⟩, (run_placeholder_of_mem hmem).mpr
    ⟨rfl, index, ⟨root, hroot, hindex⟩, keySuffix_eq_ok_iff.mpr ⟨hpaths, rfl, hwildcard⟩, rfl⟩⟩

/-- Where the indices fit, each placeholder points to the root of its key expression. -/
theorem forall₂_points [Miniscript] (hsmall : keys.length ≤ 2 ^ 32)
    (hplaced : List.Forall₂ (fun dpk key => ∃ index, Placed keys index dpk key) dpks placeholders) :
    List.Forall₂ (fun dpk key => ∃ root, keyRoot dpk = .ok root ∧
      keys[key.index.toNat]? = some root) dpks placeholders := by
  refine hplaced.imp fun dpk key hplace => ?_
  obtain ⟨index, ⟨root, hroot, hentry⟩, -, hindex⟩ := hplace
  have hfits := (List.getElem?_eq_some_iff.mp hentry).1.trans_le hsmall
  rw [hindex, UInt32.toNat_ofNat_of_lt' hfits]
  exact ⟨root, hroot, hentry⟩

end Indices

end KeySet

section Converted

variable [Miniscript] {descriptor : Descriptor} {policy : WalletPolicy}

/-- The policy represents the descriptor. Its vector has the roots of the key expressions,
each once and in the order they are first seen in, every placeholder points to the root of
its key expression, and the descriptor is what the policy is rebuilt into. -/
structure WalletPolicy.Represents (policy : WalletPolicy) (descriptor : Descriptor) : Prop where
  keyInfo_eq : policy.keyInfo = (KeySet.roots (Miniscript.forEachKey descriptor)).eraseDups
  points : List.Forall₂ (fun dpk key => ∃ root, KeySet.keyRoot dpk = .ok root ∧
    policy.keyInfo[key.index.toNat]? = some root) (Miniscript.forEachKey descriptor)
      (Miniscript.forEachKey policy.template)
  rebuilds : policy.intoDescriptor = .ok descriptor

/-- There is an index for each root of a descriptor that is converted. -/
theorem WalletPolicy.rootCount_lt_of_fromDescriptor (htranslates : Miniscript.TranslatesInPlace)
    (hconvert : fromDescriptor descriptor = .ok policy) :
    KeySet.rootCount (Miniscript.forEachKey descriptor) < 2 ^ 32 := by
  obtain ⟨later, hrun, horder, -⟩ := fromDescriptor_eq_ok_iff.mp hconvert
  obtain ⟨-, hplaced⟩ := PolicySet.forall₂_placed htranslates hrun
  rw [← KeySet.length_collectRoots]
  exact PolicySet.length_collectRoots_lt_of_checkKeyOrder horder hplaced

/-- When a descriptor survives the conversion. A descriptor of xpubs with wildcards, none of
them with a choice of one path, is represented by its policy exactly when it has fewer than
`2 ^ 32` roots, whatever the order it is translated in. -/
theorem WalletPolicy.exists_represents_iff [LawfulDerivPaths]
    (htranslates : Miniscript.TranslatesInPlace) (htemplates : Miniscript.TranslatesTemplates)
    (hback : Miniscript.TranslatesBack)
    (hkeys : ∀ key ∈ Miniscript.forEachKey descriptor, wildcardOf key ≠ .none ∧ Several key) :
    (∃ policy, fromDescriptor descriptor = .ok policy ∧ policy.Represents descriptor) ↔
      KeySet.rootCount (Miniscript.forEachKey descriptor) < 2 ^ 32 := by
  constructor
  · rintro ⟨policy, hconvert, -⟩
    exact rootCount_lt_of_fromDescriptor htranslates hconvert
  · intro hsmall
    rw [← KeySet.length_collectRoots] at hsmall
    -- each key expression has a placeholder, and so has the descriptor a template
    obtain ⟨values, hvalues⟩ := exists_forall₂ fun dpk hdpk =>
      KeySet.exists_run_placeholder (hkeys dpk hdpk).1 hdpk
    obtain ⟨template, hrun⟩ := htemplates _ _ descriptor values hvalues
    obtain ⟨-, hplaced⟩ := PolicySet.forall₂_placed htranslates hrun
    have hpoints := KeySet.forall₂_points hsmall.le hplaced
    have horder : checkKeyOrder template = .ok () := by
      refine checkKeyOrder_eq_ok_iff.mpr ⟨_, hsmall, ?_⟩
      rw [← map_idxOf_of_places KeySet.nodup_collectRoots (KeySet.forall₂_roots hpoints.flip),
        KeySet.collectRoots_eq, eraseDups_map_idxOf_self]
    refine ⟨⟨template, KeySet.collectRoots (Miniscript.forEachKey descriptor)⟩,
      fromDescriptor_eq_ok_iff.mpr ⟨_, hrun, horder, rfl⟩, KeySet.collectRoots_eq, hpoints, ?_⟩
    refine intoDescriptor_eq_ok_iff.mpr ⟨horder, _, hback _ _ _ _ _ _ _ hrun ?_⟩
    refine ((List.forall₂_and_left _ _).mpr ⟨hkeys, hplaced⟩).flip.imp fun key dpk hpair => ?_
    obtain ⟨hkey, index, hplace⟩ := hpair
    obtain ⟨root, -, hentry⟩ := hplace.root
    refine KeySet.run_pk_eq_ok_iff.mpr ⟨(hplace.resolve_eq_ok_iff KeySet.nodup_collectRoots
      fun _ => KeySet.keyRoot_of_mem_collectRoots).mpr ⟨?_, hkey.2⟩, rfl⟩
    exact (List.getElem?_eq_some_iff.mp hentry).1.trans hsmall

end Converted

/-- `tr()`, of an internal key and scripts with one key each. -/
structure Tr (Pk : Type) where
  internal : Pk
  leaves : List Pk
deriving DecidableEq

/-- The keys, those of the scripts first. -/
def Tr.keys {Pk : Type} (descriptor : Tr Pk) : List Pk :=
  descriptor.leaves ++ [descriptor.internal]

section Translation

variable {σ ε Pk TargetPk : Type} (pk : Pk → StateT σ (Except ε) TargetPk)

def translateKey (key : Pk) : StateT σ (Except (TranslateErr ε)) TargetPk := fun state =>
  match (pk key).run state with
  | .ok translated => .ok translated
  | .error cause => .error (.translatorErr cause)

/-- The keys are translated from right to left. -/
def translateKeys : List Pk → StateT σ (Except (TranslateErr ε)) (List TargetPk)
  | [] => pure []
  | key :: keys => do
      let values ← translateKeys keys
      let value ← translateKey pk key
      pure (value :: values)

def Tr.translate (descriptor : Tr Pk) : StateT σ (Except (TranslateErr ε)) (Tr TargetPk) := do
  let internal ← translateKey pk descriptor.internal
  let leaves ← translateKeys pk descriptor.leaves
  pure ⟨internal, leaves⟩

variable {pk} {state later : σ}

theorem run_bind_eq_ok_iff {α β : Type} {first : StateT σ (Except ε) α}
    {next : α → StateT σ (Except ε) β} {result : β × σ} :
    (first >>= next).run state = .ok result ↔
      ∃ value mid, first.run state = .ok (value, mid) ∧ (next value).run mid = .ok result := by
  rw [StateT.run_bind]
  rcases first.run state with cause | ⟨value, mid⟩
  · simp [Bind.bind, Except.bind]
  · simp [Bind.bind, Except.bind]

theorem run_pure_eq_ok_iff {α : Type} {value : α} {result : α × σ} :
    (pure value : StateT σ (Except ε) α).run state = .ok result ↔ result = (value, state) := by
  change (Except.ok (value, state) : Except ε (α × σ)) = .ok result ↔ _
  rw [Except.ok.injEq, eq_comm]

theorem run_translateKey_eq_ok_iff {key : Pk} {result : TargetPk × σ} :
    (translateKey pk key).run state = .ok result ↔ (pk key).run state = .ok result := by
  rw [StateT.run, translateKey]
  rcases (pk key).run state with cause | translated
  · simp
  · simp

theorem run_translateKeys {keys : List Pk} {values : List TargetPk}
    (hkeys : TranslatesTo pk state keys values) :
    (translateKeys pk keys).run state = .ok (values, state) := by
  induction hkeys with
  | nil => rfl
  | cons hkey _ ih =>
      refine run_bind_eq_ok_iff.mpr ⟨_, state, ih, run_bind_eq_ok_iff.mpr ⟨_, state, ?_, rfl⟩⟩
      exact run_translateKey_eq_ok_iff.mpr hkey

theorem translatesTo_of_run_translateKeys {keys : List Pk} {values : List TargetPk}
    (hstays : Stays pk state keys)
    (hrun : (translateKeys pk keys).run state = .ok (values, later)) :
    later = state ∧ TranslatesTo pk state keys values := by
  induction keys generalizing values later with
  | nil =>
      cases hrun
      exact ⟨rfl, .nil⟩
  | cons key keys ih =>
      obtain ⟨hkey, hrest⟩ := List.forall_mem_cons.mp hstays
      rw [translateKeys, run_bind_eq_ok_iff] at hrun
      obtain ⟨tail, mid, htail, hrun⟩ := hrun
      obtain ⟨rfl, hvalues⟩ := ih hrest htail
      obtain ⟨value, last, hvalue, hdone⟩ := run_bind_eq_ok_iff.mp hrun
      cases run_pure_eq_ok_iff.mp hdone
      have hhead := run_translateKey_eq_ok_iff.mp hvalue
      obtain rfl := hkey value later hhead
      exact ⟨rfl, .cons hhead hvalues⟩

theorem Tr.run_translate {descriptor : Tr Pk} {value : TargetPk} {values : List TargetPk}
    (hleaves : TranslatesTo pk state descriptor.leaves values)
    (hinternal : (pk descriptor.internal).run state = .ok (value, state)) :
    (descriptor.translate pk).run state = .ok (⟨value, values⟩, state) := by
  refine run_bind_eq_ok_iff.mpr ⟨value, state, run_translateKey_eq_ok_iff.mpr hinternal, ?_⟩
  exact run_bind_eq_ok_iff.mpr ⟨values, state, run_translateKeys hleaves, rfl⟩

/-- The translator takes each key of a descriptor to the one beside it. -/
theorem Tr.translatesTo_keys_iff {descriptor : Tr Pk} {target : Tr TargetPk} :
    TranslatesTo pk state descriptor.keys target.keys ↔
      TranslatesTo pk state descriptor.leaves target.leaves ∧
        (pk descriptor.internal).run state = .ok (target.internal, state) := by
  rw [TranslatesTo, ← List.forall₂_reverse_iff, keys, keys, List.reverse_concat,
    List.reverse_concat, List.forall₂_cons, List.forall₂_reverse_iff, and_comm]
  rfl

end Translation

namespace Tr

/-- The text between an opening and a closing parenthesis. -/
def argumentOf (opening text : String) : Option String :=
  if opening.toList <+: text.toList ∧ text.toList.getLast? = some ')' then
    some (.ofList (text.toList.drop opening.length).dropLast)
  else none

def fromStr {Pk : Type} (keyFromStr : String → Option Pk) (text : String) : Option (Tr Pk) := do
  let argument ← argumentOf "tr(" text
  match splitAtChar argument ',' with
  | none => do
      let internal ← keyFromStr argument
      some ⟨internal, []⟩
  | some (internal, script) => do
      let leaf ← argumentOf ",pk(" script
      let internal ← keyFromStr internal
      let leaf ← keyFromStr leaf
      some ⟨internal, [leaf]⟩

def keyText (key : DescriptorPublicKey) : String :=
  ((Bip138.Sample.keyTexts.find? (·.1 = key)).map Prod.snd).getD ""

/-- The scripts, in a tree that branches to the right. -/
def scriptsText : List DescriptorPublicKey → String
  | [] => ""
  | [leaf] => "pk(" ++ keyText leaf ++ ")"
  | leaf :: leaves => "\x7bpk(" ++ keyText leaf ++ ")," ++ scriptsText leaves ++ "\x7d"

def toString (descriptor : Tr DescriptorPublicKey) : String :=
  match descriptor.leaves with
  | [] => "tr(" ++ keyText descriptor.internal ++ ")"
  | leaves => "tr(" ++ keyText descriptor.internal ++ "," ++ scriptsText leaves ++ ")"

/-- A miniscript with taproot descriptors. It reads those of at most one script. -/
scoped instance taproot : Miniscript where
  Descriptor := Tr
  forEachKey := keys
  translatePk := translate
  descriptorFromStr := fromStr
  descriptorToString := toString
  keyFromStr := PolicySet.Accounts.readKey
  isMultipath descriptor := descriptor.keys.any (·.isMultipath)
  derivPathsNew := DerivPaths.ofList

scoped instance lawfulDerivPaths : LawfulDerivPaths := ⟨fun _ => rfl⟩

theorem translatesInPlace : Miniscript.TranslatesInPlace := by
  intro σ ε Pk TargetPk pk state later source target hstays hrun
  obtain ⟨hleaves, hinternal⟩ := List.forall_mem_append.mp hstays
  change (source.translate pk).run state = .ok (target, later) at hrun
  rw [translate, run_bind_eq_ok_iff] at hrun
  obtain ⟨internal, mid, hkey, hrun⟩ := hrun
  have hhead := run_translateKey_eq_ok_iff.mp hkey
  obtain rfl := hinternal _ (List.mem_singleton_self _) _ _ hhead
  obtain ⟨leaves, last, hkeys, hdone⟩ := run_bind_eq_ok_iff.mp hrun
  cases run_pure_eq_ok_iff.mp hdone
  obtain ⟨rfl, htail⟩ := translatesTo_of_run_translateKeys hleaves hkeys
  exact ⟨rfl, translatesTo_keys_iff.mpr ⟨htail, hhead⟩⟩

theorem translatesBack : Miniscript.TranslatesBack := by
  intro σ τ ε δ Pk TargetPk pk back state later start source target _ hback
  obtain ⟨hleaves, hinternal⟩ := translatesTo_keys_iff.mp hback
  exact run_translate hleaves hinternal

theorem translatesTemplates : Miniscript.TranslatesTemplates := by
  intro σ ε pk state source values hkeys
  rcases List.eq_nil_or_concat' values with rfl | ⟨leaves, internal, rfl⟩
  · cases source with
    | mk key keys => cases keys <;> cases hkeys
  · have htarget : TranslatesTo pk state source.keys (Tr.mk internal leaves).keys := hkeys
    obtain ⟨hleaves, hinternal⟩ := translatesTo_keys_iff.mp htarget
    exact ⟨_, run_translate hleaves hinternal⟩

open Bip138.Sample (xkey receiveAndChange)

/-- Accounts that differ in their chain codes. -/
def accountXkey (number : ℕ) : Xpub :=
  { xkey with chainCode := ⟨toBeBytes 32 number, length_toBeBytes 32 number⟩ }

def accountKey (number : ℕ) : DescriptorKey :=
  .multiXPub ⟨none, accountXkey number, receiveAndChange, .unhardened⟩

def accountRoot (number : ℕ) : DescriptorKey := .xPub ⟨none, accountXkey number, [], .none⟩

/-- This many accounts in scripts, and one more. -/
def accounts (count : ℕ) : Descriptor := ⟨accountKey count, (List.range count).map accountKey⟩

theorem keys_accounts (count : ℕ) :
    Miniscript.forEachKey (accounts count) = (List.range (count + 1)).map accountKey := by
  rw [List.range_succ, List.map_append]
  rfl

theorem convertible_accounts (count : ℕ) :
    ∀ key ∈ Miniscript.forEachKey (accounts count), wildcardOf key ≠ .none ∧ Several key := by
  rw [keys_accounts]
  intro key hkey
  obtain ⟨number, -, rfl⟩ := List.mem_map.mp hkey
  exact ⟨Wildcard.noConfusion, Nat.succ_ne_self 1⟩

theorem rootCount_accounts {count : ℕ} (hcount : count < 256 ^ 32) :
    KeySet.rootCount (Miniscript.forEachKey (accounts count)) = count + 1 := by
  have hroots : ((List.range (count + 1)).map accountKey).filterMap
      (fun dpk => (KeySet.keyRoot dpk).toOption) = (List.range (count + 1)).map accountRoot := by
    rw [List.filterMap_map, ← List.filterMap_eq_map]
    rfl
  have hnodup : ((List.range (count + 1)).map accountRoot).Nodup := by
    refine List.nodup_range.map_on fun first hfirst second hsecond hsame => ?_
    rw [List.mem_range] at hfirst hsecond
    simp only [accountRoot, accountXkey, DescriptorPublicKey.xPub.injEq, DescriptorXKey.mk.injEq,
      Xpub.mk.injEq, Subtype.mk.injEq, true_and, and_true] at hsame
    have hback : ∀ number < 256 ^ 32, fromBeBytes (toBeBytes 32 number) = number :=
      fun _ => fromBeBytes_toBeBytes
    rw [← hback first (by omega), hsame, hback second (by omega)]
  rw [keys_accounts, KeySet.rootCount, hroots, List.dedup_eq_self.mpr hnodup, List.length_map,
    List.length_range]

/-- A descriptor with a root for every index and one more has no policy. -/
theorem not_represents_accounts :
    (∀ key ∈ Miniscript.forEachKey (accounts (2 ^ 32)), wildcardOf key ≠ .none ∧ Several key) ∧
      ¬ ∃ policy, WalletPolicy.fromDescriptor (accounts (2 ^ 32)) = .ok policy ∧
        policy.Represents (accounts (2 ^ 32)) := by
  refine ⟨convertible_accounts _, fun ⟨policy, hconvert, _⟩ => ?_⟩
  have hcount := WalletPolicy.rootCount_lt_of_fromDescriptor translatesInPlace hconvert
  have hfits : 2 ^ 32 < 256 ^ 32 := by norm_num
  rw [rootCount_accounts hfits] at hcount
  omega

/-- Three accounts have a policy. -/
theorem exists_represents_iff_accounts :
    ∃ policy, WalletPolicy.fromDescriptor (accounts 2) = .ok policy ∧
      policy.Represents (accounts 2) := by
  refine (WalletPolicy.exists_represents_iff translatesInPlace translatesTemplates translatesBack
    (convertible_accounts 2)).mpr ?_
  have hfits : 2 < 256 ^ 32 := by norm_num
  rw [rootCount_accounts hfits]
  norm_num

end Tr

end Bip138
