/-
# The order of placeholders

BIP388 wants the placeholders of a template numbered in the order of its text, and
`check_key_order` numbers them in the order `for_each_key` visits them in. The two are not
the same for a taproot descriptor, whose scripts are visited before its internal key: the
check then lets pass what the rule refuses, and refuses what it lets pass.
-/

import Bip138.Front.PolicyIndices

namespace Bip138

open Bip138.Rust

/-- A descriptor as far as the order of its keys goes. -/
inductive Shape (Pk : Type)
  | taproot (internal : Pk) (leaves : List Pk)
  | other (keys : List Pk)

namespace Shape

/-- The keys in the order of the text. -/
def textual {Pk : Type} : Shape Pk → List Pk
  | taproot internal leaves => internal :: leaves
  | other keys => keys

/-- The keys in the order `for_each_key` visits them in. -/
def visited {Pk : Type} : Shape Pk → List Pk
  | taproot internal leaves => leaves ++ [internal]
  | other keys => keys

/-- The rule of BIP388: the indices count up in the order of the text. -/
def TextOrdered (shape : Shape Bip388Key) : Prop := CountsUp (indices shape.textual)

/-- The indices count up in the order of the visits. -/
def VisitOrdered (shape : Shape Bip388Key) : Prop := CountsUp (indices shape.visited)

instance (shape : Shape Bip388Key) : Decidable shape.TextOrdered :=
  inferInstanceAs (Decidable (CountsUp _))

/-- Both orders start with the same index. -/
def SameFirst : Shape Bip388Key → Prop
  | taproot internal leaves => ∀ leaf ∈ leaves.head?, leaf.index = internal.index
  | other _ => True

/-- How many different indices there are. -/
def distinct (shape : Shape Bip388Key) : ℕ := (indices shape.textual).eraseDups.length

variable {shape : Shape Bip388Key}

theorem length_eraseDups_visited :
    (indices shape.visited).eraseDups.length = shape.distinct := by
  rw [distinct, indices, indices]
  refine length_eraseDups_of_perm (List.Perm.map _ ?_)
  cases shape with
  | taproot internal leaves => exact List.perm_append_singleton internal leaves
  | other keys => exact .refl keys

theorem SameFirst.eraseDups_eq (hsame : shape.SameFirst) :
    (indices shape.visited).eraseDups = (indices shape.textual).eraseDups := by
  rcases shape with ⟨internal, _ | ⟨leaf, leaves⟩⟩ | keys
  · rfl
  · have hindex : leaf.index = internal.index := hsame leaf rfl
    simp only [visited, textual, indices, List.map_append, List.map_cons, List.map_nil, hindex]
    exact eraseDups_concat_head internal.index.toNat (leaves.map fun key => key.index.toNat)
  · rfl

theorem SameFirst.visitOrdered_iff (hsame : shape.SameFirst) :
    shape.VisitOrdered ↔ shape.TextOrdered := by
  rw [VisitOrdered, TextOrdered, countsUp_iff, countsUp_iff, hsame.eraseDups_eq]

/-- With different first indices, at most one of the orders counts up. -/
theorem TextOrdered.not_visitOrdered (htextual : shape.TextOrdered)
    (hother : ¬ shape.SameFirst) : ¬ shape.VisitOrdered := by
  intro hvisited
  rcases shape with ⟨internal, _ | ⟨leaf, leaves⟩⟩ | keys
  · exact hother nofun
  · have hinternal : internal.index.toNat = 0 := htextual.head_eq_zero
    have hleaf : leaf.index.toNat = 0 := hvisited.head_eq_zero
    refine hother fun other hmem => ?_
    cases hmem
    exact UInt32.toNat_inj.mp (hleaf.trans hinternal.symm)
  · exact hother trivial

end Shape

/-- The shape of a descriptor. -/
class MiniscriptShape [Miniscript] where
  shape {Pk : Type} : Miniscript.Descriptor Pk → Shape Pk

/-- `for_each_key` visits the scripts of a taproot descriptor before its internal key. -/
def Miniscript.VisitsScriptsFirst [Miniscript] [MiniscriptShape] : Prop :=
  ∀ {Pk : Type} (descriptor : Miniscript.Descriptor Pk),
    Miniscript.forEachKey descriptor = (MiniscriptShape.shape descriptor).visited

/-- A wallet policy from its template alone. -/
def WalletPolicy.fromStr [Miniscript] (text : String) : Exec Error WalletPolicy := do
  let template ← .okOr (Miniscript.descriptorFromStr Bip388Key.fromStr text) .walletPolicy
  checkKeyOrder template
  .ok ⟨template, []⟩

section Rule

variable [Miniscript] [MiniscriptShape] {template : Miniscript.Descriptor Bip388Key}

omit [MiniscriptShape] in
/-- A policy is read when its template is and the placeholders are in order. -/
theorem WalletPolicy.fromStr_eq_ok_iff {text : String} {policy : WalletPolicy} :
    fromStr text = .ok policy ↔
      Miniscript.descriptorFromStr Bip388Key.fromStr text = some policy.template ∧
        checkKeyOrder policy.template = .ok () ∧ policy.keyInfo = [] := by
  rw [fromStr, Exec.bind_eq_ok_iff]
  constructor
  · rintro ⟨template, hread, hrest⟩
    obtain ⟨_, horder, hdone⟩ := Exec.bind_eq_ok_iff.mp hrest
    cases hdone
    exact ⟨Exec.okOr_eq_ok_iff.mp hread, horder, rfl⟩
  · rintro ⟨hread, horder, hkeys⟩
    refine ⟨policy.template, Exec.okOr_eq_ok_iff.mpr hread, ?_⟩
    rw [horder, Exec.ok_bind, ← hkeys]

theorem checkKeyOrder_eq_ok_iff_visited (hvisits : Miniscript.VisitsScriptsFirst) :
    checkKeyOrder template = .ok () ↔
      (MiniscriptShape.shape template).VisitOrdered ∧
        (MiniscriptShape.shape template).distinct < 2 ^ 32 := by
  rw [checkKeyOrder_eq_ok_iff, hvisits, ← Shape.length_eraseDups_visited]
  constructor
  · rintro ⟨count, hcount, hrange⟩
    refine ⟨countsUp_iff.mpr ⟨count, hrange⟩, ?_⟩
    rw [hrange, List.length_range]
    exact hcount
  · rintro ⟨hcounts, hsmall⟩
    exact ⟨_, hsmall, hcounts⟩

/-- When the check follows the rule. It does so for a template that does not use all indices
in order and that starts with the same index in both orders, or else counts up in none. -/
theorem checkKeyOrder_iff_textOrdered_iff (hvisits : Miniscript.VisitsScriptsFirst) :
    (checkKeyOrder template = .ok () ↔ (MiniscriptShape.shape template).TextOrdered) ↔
      ((MiniscriptShape.shape template).distinct < 2 ^ 32 ∨
        ¬ (MiniscriptShape.shape template).TextOrdered) ∧
      ((MiniscriptShape.shape template).SameFirst ∨
        ¬ (MiniscriptShape.shape template).TextOrdered ∧
          ¬ ((MiniscriptShape.shape template).VisitOrdered ∧
            (MiniscriptShape.shape template).distinct < 2 ^ 32)) := by
  rw [checkKeyOrder_eq_ok_iff_visited hvisits]
  by_cases hsame : (MiniscriptShape.shape template).SameFirst
  · rw [hsame.visitOrdered_iff]
    tauto
  · have hone := fun htextual : (MiniscriptShape.shape template).TextOrdered =>
      htextual.not_visitOrdered hsame
    tauto

end Rule

namespace Tr

open PathDisplay.Sample

scoped instance shapes : MiniscriptShape where
  shape descriptor := .taproot descriptor.internal descriptor.leaves

theorem visitsScriptsFirst : Miniscript.VisitsScriptsFirst := fun _ => rfl

def placeholder (index : UInt32) : Bip388Key :=
  ⟨index, Bip138.Sample.receiveAndChange, .unhardened⟩

/-- A template with one script. -/
def template (internal leaf : UInt32) : Tr Bip388Key := ⟨placeholder internal, [placeholder leaf]⟩

theorem readsSuffixes : Miniscript.ReadsSuffixes := PolicySet.Accounts.readsSuffixes

theorem fromStr_placeholder {index : UInt32} {text : String}
    (hdisplay : (placeholder index).display = some text) :
    Bip388Key.fromStr text = some (placeholder index) := by
  refine (fromStr_display readsSuffixes hdisplay).mpr ⟨?_, rfl⟩
  change ∀ path ∈ Bip138.Sample.receiveAndChange.1, path.length = 1
  decide

/-- A template is read as its placeholders are. -/
theorem fromStr_template {text argument first second script : String} {internal leaf : UInt32}
    (hargument : argumentOf "tr(" text = some argument)
    (hsplit : splitAtChar argument ',' = some (first, script))
    (hscript : argumentOf ",pk(" script = some second)
    (hinternal : (placeholder internal).display = some first)
    (hleaf : (placeholder leaf).display = some second) :
    Miniscript.descriptorFromStr Bip388Key.fromStr text = some (template internal leaf) := by
  change fromStr Bip388Key.fromStr text = _
  simp only [fromStr, hargument, hsplit, hscript, fromStr_placeholder hinternal,
    fromStr_placeholder hleaf, Option.bind_eq_bind, Option.bind_some, template]

/-- The internal key comes second: what is in the order of the text is refused wherever the
order is checked, and what is not is let pass and is what a descriptor is converted to. -/
theorem not_checkKeyOrder_iff_textOrdered :
    ((MiniscriptShape.shape (template 0 1)).TextOrdered ∧
      (∀ policy, WalletPolicy.fromStr "tr(@0/**,pk(@1/**))" ≠ .ok policy) ∧
      ∀ descriptor, WalletPolicy.intoDescriptor ⟨template 0 1, [accountRoot 0, accountRoot 1]⟩ ≠
        .ok descriptor) ∧
    (¬ (MiniscriptShape.shape (template 1 0)).TextOrdered ∧
      WalletPolicy.fromStr "tr(@1/**,pk(@0/**))" = .ok ⟨template 1 0, []⟩ ∧
      WalletPolicy.intoDescriptor ⟨template 1 0, [accountRoot 0, accountRoot 1]⟩ =
        .ok (accounts 1) ∧
      WalletPolicy.fromDescriptor (accounts 1) =
        .ok ⟨template 1 0, [accountRoot 0, accountRoot 1]⟩) ∧
    ¬ ∀ template : Miniscript.Descriptor Bip388Key,
      checkKeyOrder template = .ok () ↔ (MiniscriptShape.shape template).TextOrdered := by
  have hrefused : checkKeyOrder (template 0 1) = .fail .walletPolicy := rfl
  have hpassed : checkKeyOrder (template 1 0) = .ok () := rfl
  have houtside : ¬ (MiniscriptShape.shape (template 1 0)).TextOrdered := by decide
  refine ⟨⟨by decide, ?_, ?_⟩, ⟨houtside, ?_, rfl, ?_⟩, fun hrule => ?_⟩
  · have hread := @fromStr_template "tr(@0/**,pk(@1/**))" "@0/**,pk(@1/**)" "@0/**" "@1/**"
      ",pk(@1/**)" 0 1 (by decide) (by decide) (by decide) (by decide) (by decide)
    intro policy hpolicy
    obtain ⟨hparse, horder, -⟩ := WalletPolicy.fromStr_eq_ok_iff.mp hpolicy
    rw [hread, Option.some_inj] at hparse
    rw [← hparse, hrefused] at horder
    cases horder
  · intro descriptor hrebuild
    rw [(WalletPolicy.intoDescriptor_eq_ok_iff.mp hrebuild).1] at hrefused
    cases hrefused
  · have hread := @fromStr_template "tr(@1/**,pk(@0/**))" "@1/**,pk(@0/**)" "@1/**" "@0/**"
      ",pk(@0/**)" 1 0 (by decide) (by decide) (by decide) (by decide) (by decide)
    exact WalletPolicy.fromStr_eq_ok_iff.mpr ⟨hread, hpassed, rfl⟩
  · have hroots : KeySet.collectRoots (Miniscript.forEachKey (accounts 1)) =
        [accountRoot 0, accountRoot 1] := by
      decide +kernel
    have hplaced : ∀ number, accountKey number ∈ Miniscript.forEachKey (accounts 1) →
        [accountRoot 0, accountRoot 1][number]? = some (accountRoot number) →
        (KeySet.placeholder (accountKey number)).run
            ⟨KeySet.collectRoots (Miniscript.forEachKey (accounts 1))⟩ =
          .ok (placeholder (.ofNat number),
            ⟨KeySet.collectRoots (Miniscript.forEachKey (accounts 1))⟩) := by
      intro number hmem hentry
      rw [← hroots] at hentry
      exact (KeySet.run_placeholder_of_mem hmem).mpr
        ⟨rfl, number, ⟨accountRoot number, rfl, hentry⟩, rfl, rfl⟩
    refine WalletPolicy.fromDescriptor_eq_ok_iff.mpr
      ⟨⟨KeySet.collectRoots (Miniscript.forEachKey (accounts 1))⟩, ?_, hpassed, hroots.symm⟩
    exact run_translate (.cons (hplaced 0 List.mem_cons_self rfl) .nil)
      (hplaced 1 (List.mem_cons_of_mem _ List.mem_cons_self) rfl)
  · exact houtside ((hrule (template 1 0)).mp hpassed)

/-- The template `tr(@0/**)`. -/
def keyPath : Tr Bip388Key := ⟨placeholder 0, []⟩

/-- The check follows the rule on a template of one key. -/
theorem checkKeyOrder_iff_textOrdered_iff_keyPath :
    checkKeyOrder keyPath = .ok () ↔ (MiniscriptShape.shape keyPath).TextOrdered :=
  (checkKeyOrder_iff_textOrdered_iff visitsScriptsFirst).mpr
    ⟨.inl (by decide), .inl fun _ hleaf => absurd hleaf (Option.not_mem_none _)⟩

end Tr

end Bip138
