/-
# Placeholders as text

The template of a policy is stored as text, with a placeholder such as `@0/**` or `@1/5/0/*`
for each key expression. A placeholder is written by hand, and read with the key parser of
miniscript, which is run on a throwaway xpub followed by the suffix. `fromStr_display` says
which placeholders survive that: those whose suffix the key parser takes.
-/

import Bip138.Front.Suffix
import Bip138.Front.WalletPolicy

namespace Bip138

open Bip138.Rust

/-- Both halves of the default multipath suffix. -/
def receiveIndex : UInt32 := 0

def changeIndex : UInt32 := 1

/-- True for the suffix that is written as `/**`. -/
def isDefaultMultipath [PathDisplay] (paths : List DerivationPath) (wildcard : Wildcard) : Bool :=
  wildcard == .unhardened &&
    match paths with
    | [receive, change] =>
        PathDisplay.derivationPathToString receive == displayU32 receiveIndex &&
          PathDisplay.derivationPathToString change == displayU32 changeIndex
    | _ => false

/-- The suffix of a placeholder. One without a wildcard is not written. -/
def displaySuffix [PathDisplay] (paths : List DerivationPath) (wildcard : Wildcard) :
    Option String := do
  let star ← wildcardStar wildcard
  if isDefaultMultipath paths wildcard then some "/**" else some (explicitSuffix paths star)

/-- `Display` of a placeholder. -/
def Bip388Key.display [PathDisplay] (key : Bip388Key) : Option String := do
  let suffix ← displaySuffix key.derivationPaths.1 key.wildcard
  some ("@" ++ displayU32 key.index ++ suffix)

/-- The xpub, without an origin, that is followed by these paths. -/
def DescriptorPublicKey.followed (xkey : Xpub) (paths : List DerivationPath)
    (wildcard : Wildcard) : Option DescriptorPublicKey :=
  match paths with
  | [path] => some (.xPub ⟨none, xkey, path, wildcard⟩)
  | paths => (DerivPaths.ofList paths).map fun paths => .multiXPub ⟨none, xkey, paths, wildcard⟩

/-- The key parser reads what follows the throwaway xpub step by step. -/
def Miniscript.ReadsSuffixes [Miniscript] : Prop :=
  ∃ xkey, ∀ suffix : String, startsWithChar suffix '/' = true →
    Miniscript.keyFromStr (parseXpub ++ suffix) = (do
      let (paths, wildcard) ← readSuffix suffix
      DescriptorPublicKey.followed xkey paths wildcard)

/-- The key parser reads what follows the throwaway xpub as this reader does. -/
def Miniscript.ReadsBy [Miniscript] (reader : String → Option (List DerivationPath × Wildcard)) :
    Prop :=
  ∃ xkey, ∀ suffix : String, startsWithChar suffix '/' = true →
    Miniscript.keyFromStr (parseXpub ++ suffix) = (do
      let (paths, wildcard) ← reader suffix
      DescriptorPublicKey.followed xkey paths wildcard)

/-- The reader reads a written suffix back if its paths are legible. -/
def ReadsWritten [PathDisplay] (reader : String → Option (List DerivationPath × Wildcard)) : Prop :=
  ∀ (paths : List DerivationPath) (wildcard : Wildcard) (star : String)
    (found : List DerivationPath × Wildcard), paths ≠ [] → wildcardStar wildcard = some star →
      (reader (explicitSuffix paths star) = some found ↔
        Legible paths ∧ found = (paths, wildcard))

theorem readsWritten_readSuffix [PathDisplay] [LawfulPathDisplay] : ReadsWritten readSuffix :=
  fun _ _ _ _ => readSuffix_explicitSuffix

section Suffix

variable [PathDisplay] [LawfulPathDisplay] {paths : List DerivationPath} {wildcard : Wildcard}
  {suffix : String}

theorem isDefaultMultipath_iff :
    isDefaultMultipath paths wildcard = true ↔ paths = [[0], [1]] ∧ wildcard = .unhardened := by
  have hreceive : displayU32 receiveIndex = writtenPath [0] := rfl
  have hchange : displayU32 changeIndex = writtenPath [1] := rfl
  have hdisplay := LawfulPathDisplay.derivationPathToString_eq
  rcases paths with _ | ⟨receive, _ | ⟨change, _ | ⟨third, rest⟩⟩⟩
  · simp [isDefaultMultipath]
  · simp [isDefaultMultipath]
  · simp [isDefaultMultipath, hdisplay, hreceive, hchange, writtenPath_injective.eq_iff, and_comm]
  · simp [isDefaultMultipath]

/-- The shorthand stands for what is written without it. -/
theorem expand_displaySuffix (hsuffix : displaySuffix paths wildcard = some suffix) :
    ∃ star, wildcardStar wildcard = some star ∧
      (if suffix = "/**" then defaultMultipath else suffix) = explicitSuffix paths star := by
  obtain ⟨star, hstar, hsome⟩ := Option.bind_eq_some_iff.mp hsuffix
  refine ⟨star, hstar, ?_⟩
  split at hsome
  · next hdefault =>
      obtain ⟨rfl, rfl⟩ := isDefaultMultipath_iff.mp hdefault
      cases hstar
      cases hsome
      have hpaths : explicitSuffix [[0], [1]] "*" = "/<" ++ ";".intercalate
          ([[0], [1]].map PathDisplay.derivationPathToString) ++ ">/" ++ "*" := rfl
      rw [hpaths, map_derivationPathToString]
      decide
  · cases hsome
    rw [if_neg explicitSuffix_ne_shorthand]

theorem startsWithChar_displaySuffix (hsuffix : displaySuffix paths wildcard = some suffix) :
    startsWithChar suffix '/' = true := by
  obtain ⟨star, -, hexpanded⟩ := expand_displaySuffix hsuffix
  by_cases hshorthand : suffix = "/**"
  · rw [hshorthand]
    rfl
  · rw [if_neg hshorthand] at hexpanded
    rw [hexpanded]
    exact startsWithChar_explicitSuffix

end Suffix

section Reader

variable [Miniscript] {reader : String → Option (List DerivationPath × Wildcard)}
  {suffix text : String} {key read : Bip388Key}

/-- What is read of a suffix is what the key parser makes of it, if there is a wildcard. -/
theorem Miniscript.ReadsBy.parseSuffix_eq [LawfulDerivPaths] (hreads : Miniscript.ReadsBy reader)
    {expanded : String}
    (hexpanded : (if suffix = "/**" then defaultMultipath else suffix) = expanded)
    (hslash : startsWithChar expanded '/' = true) :
    parseSuffix suffix = (do
      let (paths, wildcard) ← reader expanded
      if wildcard = .none then none
      else do
        let derivationPaths ← DerivPaths.ofList paths
        some (derivationPaths, wildcard)) := by
  obtain ⟨xkey, hkey⟩ := hreads
  rw [parseSuffix]
  simp only [LawfulDerivPaths.derivPathsNew_eq]
  rw [hexpanded, hkey _ hslash]
  rcases reader expanded with _ | ⟨paths, wildcard⟩
  · rfl
  · rcases paths with _ | ⟨path, _ | ⟨second, rest⟩⟩
    · simp [DescriptorPublicKey.followed, DerivPaths.ofList]
    · simp [DescriptorPublicKey.followed, DerivPaths.ofList]
    · simp [DescriptorPublicKey.followed, DerivPaths.ofList]

/-- A placeholder is read as the index in front of the first slash, and what is read of the
rest. -/
theorem Bip388Key.fromStr_append {digits : String} (hdigits : '/' ∉ digits.toList)
    (hslash : startsWithChar suffix '/' = true) :
    Bip388Key.fromStr ("@" ++ digits ++ suffix) = (do
      let index ← parseU32 digits
      let (derivationPaths, wildcard) ← parseSuffix suffix
      some ⟨index, derivationPaths, wildcard⟩) := by
  have hprefix : stripPrefix ("@" ++ digits ++ suffix) '@' = some (digits ++ suffix) := by
    simp [stripPrefix]
  obtain ⟨rest, hrest⟩ := List.head?_eq_some_iff.mp (beq_iff_eq.mp hslash)
  have hsplit : splitAtChar (digits ++ suffix) '/' = some (digits, suffix) := by
    refine splitAtChar_eq_some_iff.mpr ⟨hdigits, rest, ?_, ?_⟩
    · rw [String.toList_append, hrest]
    · rw [← hrest, String.ofList_toList]
  rw [Bip388Key.fromStr, hprefix]
  simp only [Option.bind_eq_bind, Option.bind_some, hsplit]

/-- The text of a placeholder is read as another one. -/
def ReadsAs [PathDisplay] (key read : Bip388Key) : Prop :=
  ∃ text, key.display = some text ∧ Bip388Key.fromStr text = some read

variable [LawfulDerivPaths] [PathDisplay] [LawfulPathDisplay]

/-- A written suffix is read back if its paths are legible, and is refused if they are
not. -/
theorem Miniscript.ReadsBy.parseSuffix_displaySuffix (hreads : Miniscript.ReadsBy reader)
    (hwritten : ReadsWritten reader) {paths : DerivPaths} {wildcard : Wildcard}
    (hsuffix : displaySuffix paths.1 wildcard = some suffix) {found : DerivPaths × Wildcard} :
    parseSuffix suffix = some found ↔ Legible paths.1 ∧ found = (paths, wildcard) := by
  obtain ⟨star, hstar, hexpanded⟩ := expand_displaySuffix hsuffix
  have hread := fun found => hwritten _ _ _ found paths.2 hstar
  rw [hreads.parseSuffix_eq hexpanded startsWithChar_explicitSuffix]
  by_cases hlegible : Legible paths.1
  · have hsome := (hread (paths.1, wildcard)).mpr ⟨hlegible, rfl⟩
    simp only [hsome, Option.bind_eq_bind, Option.bind_some, paths.ofList_val, hlegible, true_and,
      if_neg (readWildcard_wildcardStar hstar).2.1]
    rw [Option.some.injEq, eq_comm]
  · have hnone : reader (explicitSuffix paths.1 star) = none :=
      Option.eq_none_iff_forall_ne_some.mpr fun found hfound => hlegible ((hread found).mp hfound).1
    rw [hnone]
    exact iff_of_false nofun fun hyes => hlegible hyes.1

/-- A written placeholder is read back if its paths are legible, and is refused if they
are not. -/
theorem Miniscript.ReadsBy.fromStr_display (hreads : Miniscript.ReadsBy reader)
    (hwritten : ReadsWritten reader) (hdisplay : key.display = some text) :
    Bip388Key.fromStr text = some read ↔ Legible key.derivationPaths.1 ∧ read = key := by
  obtain ⟨suffix, hsuffix, htext⟩ := Option.bind_eq_some_iff.mp hdisplay
  cases htext
  have hdigits : '/' ∉ (displayU32 key.index).toList := fun hmem => by
    cases isDigit_of_mem_displayU32 hmem
  have hparse : Bip388Key.fromStr ("@" ++ displayU32 key.index ++ suffix) =
      (parseSuffix suffix).map fun found => ⟨key.index, found.1, found.2⟩ := by
    rw [Bip388Key.fromStr_append hdigits (startsWithChar_displaySuffix hsuffix),
      parseU32_displayU32]
    rcases parseSuffix suffix with _ | ⟨paths, wildcard⟩
    · rfl
    · rfl
  rw [hparse, Option.map_eq_some_iff]
  simp only [hreads.parseSuffix_displaySuffix hwritten hsuffix]
  constructor
  · rintro ⟨_, ⟨hlegible, rfl⟩, rfl⟩
    exact ⟨hlegible, rfl⟩
  · rintro ⟨hlegible, rfl⟩
    exact ⟨_, ⟨hlegible, rfl⟩, rfl⟩

/-- A placeholder with a wildcard is read as itself or not at all. -/
theorem Miniscript.ReadsBy.readsAs_iff (hreads : Miniscript.ReadsBy reader)
    (hwritten : ReadsWritten reader) (hwildcard : key.wildcard ≠ .none) :
    ReadsAs key read ↔ Legible key.derivationPaths.1 ∧ read = key := by
  obtain ⟨text, htext⟩ : ∃ text, key.display = some text := by
    obtain ⟨star, hstar⟩ : ∃ star, wildcardStar key.wildcard = some star := by
      rcases hmark : key.wildcard with _ | _ | _
      · exact absurd hmark hwildcard
      · exact ⟨_, rfl⟩
      · exact ⟨_, rfl⟩
    rw [Bip388Key.display, displaySuffix, hstar]
    by_cases hdefault : isDefaultMultipath key.derivationPaths.1 key.wildcard = true
    · simp [hdefault]
    · simp [hdefault]
  rw [← hreads.fromStr_display hwritten htext, ReadsAs, htext]
  simp

end Reader

section Placeholder

variable [Miniscript] [LawfulDerivPaths] [PathDisplay] [LawfulPathDisplay] {text : String}
  {key read : Bip388Key}

theorem fromStr_display (hreads : Miniscript.ReadsSuffixes)
    (hdisplay : key.display = some text) :
    Bip388Key.fromStr text = some read ↔ Legible key.derivationPaths.1 ∧ read = key :=
  Miniscript.ReadsBy.fromStr_display hreads readsWritten_readSuffix hdisplay

theorem readsAs_iff (hreads : Miniscript.ReadsSuffixes) (hwildcard : key.wildcard ≠ .none) :
    ReadsAs key read ↔ Legible key.derivationPaths.1 ∧ read = key :=
  Miniscript.ReadsBy.readsAs_iff hreads readsWritten_readSuffix hwildcard

/-- Placeholders with wildcards that are all read are read as themselves. -/
theorem readsAs_self_of_forall₂ (hreads : Miniscript.ReadsSuffixes) {keys found : List Bip388Key}
    (hmarked : ∀ key ∈ keys, key.wildcard ≠ .none) (hfound : List.Forall₂ ReadsAs keys found) :
    (∀ key ∈ keys, ReadsAs key key) ∧ found = keys := by
  have hself : List.Forall₂ (fun key read => ReadsAs key key ∧ read = key) keys found := by
    refine ((List.forall₂_and_left _ _).mpr ⟨hmarked, hfound⟩).imp fun key read hpair => ?_
    obtain ⟨hlegible, rfl⟩ := (readsAs_iff hreads hpair.1).mp hpair.2
    exact ⟨hpair.2, rfl⟩
  obtain ⟨hself, hequal⟩ := (List.forall₂_and_left _ _).mp hself
  refine ⟨hself, ?_⟩
  rw [← List.forall₂_eq_eq_eq]
  exact hequal.flip

end Placeholder

end Bip138
