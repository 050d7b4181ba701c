/-
# The spellings of a placeholder

A placeholder is read with two parsers that were written for something else: the index with
Rust's parser of numbers, and the suffix with the key parser of miniscript. Each takes more
than one text for the same thing, and the suffix is printed by hand. So a text and the key
it is read as need not determine each other. Taking the key parser to read only plain
numbers, `spelling_iff` says which texts have an index in one spelling and survive printing,
and which pairs of texts of one key differ by the shorthand and the hardened mark alone.
-/

import Bip138.Front.PolicyRoundTrip

namespace Bip138

open Bip138.Rust

/-! ## A key parser of plain numbers -/

/-- The child numbers of a step. -/
def stepNumbers (step : List Char) : List (List Char) :=
  if step.head? = some '<' ∧ step.getLast? = some '>' then step.tail.dropLast.splitOn ';'
  else [step]

/-- The digits of a child number. -/
def stepDigits (number : List Char) : List Char :=
  if number.getLast? = some '\'' ∨ number.getLast? = some 'h' then number.dropLast else number

/-- Every number of a step is plain. -/
def plainStep (step : List Char) : Bool :=
  (stepNumbers step).all fun number => plainNumber (stepDigits number)

/-- A suffix whose numbers are plain, read step by step. -/
def readPlainSuffix (suffix : String) : Option (List DerivationPath × Wildcard) :=
  if (suffix.toList.splitOn '/').tail.all plainStep then readSuffix suffix else none

/-- The key parser reads what follows the throwaway xpub step by step, and takes plain
numbers only. The one that takes zeros in front of a number as well is told by
`Miniscript.ReadsSuffixes`. -/
def Miniscript.ReadsPlainSuffixes [Miniscript] : Prop := Miniscript.ReadsBy readPlainSuffix

theorem readPlainSuffix_eq_some_iff {suffix : String} {found : List DerivationPath × Wildcard} :
    readPlainSuffix suffix = some found ↔
      (suffix.toList.splitOn '/').tail.all plainStep = true ∧ readSuffix suffix = some found :=
  Option.ite_none_right_eq_some

/-! ## Child numbers and steps -/

/-- The hardened mark in one spelling. -/
def oneMark (char : Char) : Char := if char = 'h' then '\'' else char

section Steps

variable {text : List Char} {child : UInt32} {children : List UInt32}

theorem exists_mark (hmark : text.getLast? = some '\'' ∨ text.getLast? = some 'h') :
    ∃ digits mark, text = digits ++ [mark] ∧ (mark = '\'' ∨ mark = 'h') := by
  rcases hmark with hmark | hmark
  · obtain ⟨digits, rfl⟩ := List.getLast?_eq_some_iff.mp hmark
    exact ⟨digits, _, rfl, .inl rfl⟩
  · obtain ⟨digits, rfl⟩ := List.getLast?_eq_some_iff.mp hmark
    exact ⟨digits, _, rfl, .inr rfl⟩

theorem stepDigits_writtenChild (child : UInt32) :
    stepDigits (writtenChild child).toList =
      (displayU32 (if child < Ll.hardenedBit then child else child - Ll.hardenedBit)).toList := by
  rw [writtenChild]
  split
  · have hunmarked : ∀ mark, mark.isDigit = false →
        (displayU32 child).toList.getLast? ≠ some mark := by
      intro mark hmark hlast
      rw [isDigit_of_mem_displayU32 (List.mem_of_getLast? hlast)] at hmark
      cases hmark
    rw [stepDigits, if_neg (not_or.mpr ⟨hunmarked _ (by decide), hunmarked _ (by decide)⟩)]
  · have hmark : (displayU32 (child - Ll.hardenedBit) ++ "'").toList =
        (displayU32 (child - Ll.hardenedBit)).toList ++ ['\''] := String.toList_append
    rw [hmark, stepDigits, if_pos (.inl List.getLast?_concat), List.dropLast_concat]

/-- A child number is written with a plain number. -/
theorem plainNumber_writtenChild (child : UInt32) :
    plainNumber (stepDigits (writtenChild child).toList) = true := by
  rw [stepDigits_writtenChild]
  exact (plainNumber_iff (parseU32_displayU32 _)).mpr rfl

/-- What is read as a child number has digits, a plus sign and a mark, and no bracket. -/
theorem mem_of_readChildNumber (hread : readChildNumber text = some child) {char : Char}
    (hchar : char ∈ text) : char.isDigit = true ∨ char = '+' ∨ char = '\'' ∨ char = 'h' := by
  rw [readChildNumber] at hread
  split at hread
  · rename_i hmark
    obtain ⟨index, hindex, -⟩ := Option.map_eq_some_iff.mp hread
    obtain ⟨digits, mark, rfl, hkind⟩ := exists_mark hmark
    rw [List.dropLast_concat] at hindex
    rcases List.mem_append.mp hchar with hdigit | hlast
    · exact ((mem_of_readIndex hindex).2 char hdigit).imp_right .inl
    · rw [List.mem_singleton.mp hlast]
      exact .inr (.inr hkind)
  · exact ((mem_of_readIndex hread).2 char hchar).imp_right .inl

/-- Plain digits that are read as an index are how it is displayed. -/
theorem eq_displayU32_of_readIndex {index : UInt32} (hread : readIndex text = some index)
    (hplain : plainNumber text = true) :
    text = (displayU32 index).toList ∧ index < Ll.hardenedBit := by
  obtain ⟨value, hvalue, hbound⟩ := Option.bind_eq_some_iff.mp hread
  obtain ⟨hless, hsame⟩ := Option.ite_none_right_eq_some.mp hbound
  cases hsame
  have hdisplay := (plainNumber_iff hvalue).mp (by rwa [String.toList_ofList])
  rw [String.toList_ofList] at hdisplay
  exact ⟨hdisplay, hless⟩

theorem map_oneMark_displayU32 (value : UInt32) :
    (displayU32 value).toList.map oneMark = (displayU32 value).toList := by
  conv_rhs => rw [← List.map_id (displayU32 value).toList]
  refine List.map_congr_left fun char hchar => if_neg ?_
  rintro rfl
  cases isDigit_of_mem_displayU32 hchar

/-- A child number has one spelling but for its mark. -/
theorem map_oneMark_of_readChildNumber (hread : readChildNumber text = some child)
    (hplain : plainNumber (stepDigits text) = true) :
    text.map oneMark = (writtenChild child).toList := by
  rw [readChildNumber] at hread
  rw [stepDigits] at hplain
  split at hread
  · rename_i hmark
    rw [if_pos hmark] at hplain
    obtain ⟨index, hindex, rfl⟩ := Option.map_eq_some_iff.mp hread
    obtain ⟨hdigits, hless⟩ := eq_displayU32_of_readIndex hindex hplain
    obtain ⟨front, mark, rfl, hkind⟩ := exists_mark hmark
    rw [List.dropLast_concat] at hdigits
    have hlast : oneMark mark = '\'' := by
      rcases hkind with rfl | rfl
      · rfl
      · rfl
    have hbit : Ll.hardenedBit.toNat = 2 ^ 31 := by decide
    rw [UInt32.lt_iff_toNat_lt, hbit] at hless
    have hchild : ¬ index + Ll.hardenedBit < Ll.hardenedBit := by
      rw [UInt32.lt_iff_toNat_lt, UInt32.toNat_add, hbit]
      omega
    rw [writtenChild, if_neg hchild, UInt32.add_sub_cancel, List.map_append, hdigits,
      map_oneMark_displayU32, List.map_singleton, hlast, String.toList_append]
    rfl
  · rename_i hmark
    rw [if_neg hmark] at hplain
    obtain ⟨hdigits, hless⟩ := eq_displayU32_of_readIndex hread hplain
    rw [writtenChild, if_pos hless, hdigits, map_oneMark_displayU32]

theorem exists_brackets (hopen : text.head? = some '<') (hclose : text.getLast? = some '>') :
    ∃ inner, text = '<' :: inner ++ ['>'] := by
  obtain ⟨front, rfl⟩ := List.getLast?_eq_some_iff.mp hclose
  rcases front with _ | ⟨first, inner⟩
  · cases hopen
  · rw [List.cons_append, List.head?_cons, Option.some.injEq] at hopen
    exact ⟨inner, by rw [hopen]⟩

/-- A step is a child number, or some of them between brackets. -/
theorem readStep_cases (hread : readStep text = some children) :
    (∃ child, children = [child] ∧ readChildNumber text = some child ∧ stepNumbers text = [text]) ∨
    (∃ inner, text = '<' :: inner ++ ['>'] ∧ 2 ≤ (inner.splitOn ';').length ∧
      (inner.splitOn ';').mapM readChildNumber = some children ∧
      stepNumbers text = inner.splitOn ';') := by
  by_cases hbrackets : text.head? = some '<' ∧ text.getLast? = some '>'
  · right
    have hnumbers : stepNumbers text = text.tail.dropLast.splitOn ';' := if_pos hbrackets
    obtain ⟨inner, rfl⟩ := exists_brackets hbrackets.1 hbrackets.2
    rw [List.cons_append, List.tail_cons, List.dropLast_concat] at hnumbers
    rw [readStep_brackets] at hread
    obtain ⟨hlength, hchildren⟩ := Option.ite_none_right_eq_some.mp hread
    exact ⟨inner, rfl, hlength, hchildren, hnumbers⟩
  · left
    rw [readStep, if_neg hbrackets] at hread
    obtain ⟨child, hchild, rfl⟩ := Option.map_eq_some_iff.mp hread
    exact ⟨child, rfl, hchild, if_neg hbrackets⟩

/-- A step as it is written with one spelling of the mark. -/
def spelledStep (children : List UInt32) : List Char :=
  match children with
  | [child] => (writtenChild child).toList
  | children =>
      '<' :: [';'].intercalate (children.map fun child => (writtenChild child).toList) ++
        ['>']

/-- A step has one spelling but for its marks. -/
theorem map_oneMark_of_readStep (hread : readStep text = some children)
    (hplain : plainStep text = true) : text.map oneMark = spelledStep children := by
  rw [plainStep, List.all_eq_true] at hplain
  rcases readStep_cases hread with ⟨child, rfl, hchild, hnumbers⟩ |
    ⟨inner, rfl, hlength, hchildren, hnumbers⟩
  · rw [hnumbers] at hplain
    exact map_oneMark_of_readChildNumber hchild (hplain text (List.mem_singleton_self text))
  · rw [hnumbers] at hplain
    rw [mapM_eq_some_iff] at hchildren
    have hmarks : (inner.splitOn ';').map (List.map oneMark) =
        children.map fun child => (writtenChild child).toList := by
      rw [← List.forall₂_eq_eq_eq, List.forall₂_map_left_iff, List.forall₂_map_right_iff]
      exact ((List.forall₂_and_left _ _).mpr ⟨hplain, hchildren⟩).imp fun number child hpair =>
        map_oneMark_of_readChildNumber hpair.2 hpair.1
    have hinner : inner.map oneMark =
        [';'].intercalate (children.map fun child => (writtenChild child).toList) := by
      have hsemicolon : oneMark ';' = ';' := rfl
      have hjoined : [';'].intercalate (inner.splitOn ';') = inner := List.intercalate_splitOn ';'
      calc inner.map oneMark = ([';'].intercalate (inner.splitOn ';')).map oneMark := by
            rw [hjoined]
        _ = [';'].intercalate (children.map fun child => (writtenChild child).toList) := by
            rw [map_intercalate, hsemicolon, hmarks]
    have hlong : 2 ≤ children.length := hchildren.length_eq ▸ hlength
    rcases children with _ | ⟨first, _ | ⟨second, rest⟩⟩
    · simp at hlong
    · simp at hlong
    · rw [List.map_append, List.map_cons, hinner]
      rfl

/-- A step leaves a choice when it has a bracket. -/
theorem bracket_mem_iff (hread : readStep text = some children) :
    '<' ∈ text ↔ 1 < children.length := by
  rcases readStep_cases hread with ⟨child, rfl, hchild, -⟩ | ⟨inner, rfl, hlength, hchildren, -⟩
  · refine iff_of_false (fun hmem => ?_) (by simp)
    rcases mem_of_readChildNumber hchild hmem with hdigit | hplus | hmark | hmark
    · cases hdigit
    · cases hplus
    · cases hmark
    · cases hmark
  · rw [mapM_eq_some_iff] at hchildren
    exact iff_of_true (by simp) (hchildren.length_eq ▸ hlength)

theorem ne_nil_of_readStep (hread : readStep text = some children) : children ≠ [] := by
  rcases readStep_cases hread with ⟨child, rfl, -, -⟩ | ⟨inner, -, hlength, hchildren, -⟩
  · exact List.cons_ne_nil _ _
  · rw [mapM_eq_some_iff] at hchildren
    have hlong : 2 ≤ children.length := hchildren.length_eq ▸ hlength
    rintro rfl
    simp at hlong

end Steps

/-! ## Legible choices -/

/-- The paths along some steps are legible when there is a step, and a choice has no step
beside it. -/
theorem legible_sections_iff {steps : List (List UInt32)} (hne : ∀ step ∈ steps, step ≠ []) :
    Legible steps.sections ↔
      steps ≠ [] ∧ ((∃ step ∈ steps, 1 < step.length) → steps.length = 1) := by
  by_cases hchoice : ∃ step ∈ steps, 1 < step.length
  · have hlong := one_lt_length_sections hne hchoice
    obtain ⟨first, second, rest, hsections⟩ : ∃ first second rest,
        steps.sections = first :: second :: rest := by
      obtain ⟨first, tail, htail⟩ := List.exists_cons_of_length_pos (Nat.zero_lt_of_lt hlong)
      rw [htail, List.length_cons] at hlong
      obtain ⟨second, rest, rfl⟩ := List.exists_cons_of_length_pos (Nat.lt_of_succ_lt_succ hlong)
      exact ⟨first, second, rest, htail⟩
    have hfirst : first.length = steps.length :=
      List.mem_sections_length (hsections ▸ List.mem_cons_self)
    have hall : Legible steps.sections ↔ ∀ path ∈ steps.sections, path.length = 1 := by
      rw [hsections]
      rfl
    rw [hall]
    constructor
    · intro hlegible
      have hlength : steps.length = 1 :=
        hfirst ▸ hlegible first (hsections ▸ List.mem_cons_self)
      exact ⟨List.ne_nil_of_length_pos (by omega), fun _ => hlength⟩
    · rintro ⟨-, hlength⟩ path hpath
      rw [List.mem_sections_length hpath, hlength hchoice]
  · obtain ⟨path, rfl⟩ := exists_path_of_no_choice hne fun step hstep hlong =>
      hchoice ⟨step, hstep, hlong⟩
    rw [sections_map_singleton, ne_eq, List.map_eq_nil_iff]
    exact (and_iff_left fun hyes => absurd hyes hchoice).symm

/-! ## Written suffixes -/

section Written

variable {paths : List DerivationPath} {wildcard : Wildcard} {star : String}

theorem plainStep_writtenChild (child : UInt32) :
    plainStep (writtenChild child).toList = true := by
  have hopen := (head_of_readChildNumber (readChildNumber_writtenChild child)).2
  rw [plainStep, stepNumbers, if_neg fun hbrackets => hopen hbrackets.1, List.all_eq_true]
  intro number hnumber
  rw [List.mem_singleton.mp hnumber]
  exact plainNumber_writtenChild child

theorem plainStep_wildcardStar (hstar : wildcardStar wildcard = some star) :
    plainStep star.toList = true := by
  cases wildcard with
  | none => cases hstar
  | unhardened =>
      cases hstar
      decide
  | hardened =>
      cases hstar
      decide

/-- A choice between single steps is written with plain numbers. -/
theorem plainStep_choices (hpaths : paths ≠ []) (hone : ∀ path ∈ paths, path.length = 1) :
    plainStep ('<' :: choices paths ++ ['>']) = true := by
  have hbrackets : ('<' :: choices paths ++ ['>']).head? = some '<' ∧
      ('<' :: choices paths ++ ['>']).getLast? = some '>' := ⟨rfl, List.getLast?_concat⟩
  rw [plainStep, stepNumbers, if_pos hbrackets, List.cons_append, List.tail_cons,
    List.dropLast_concat, splitOn_choices hpaths, List.all_eq_true]
  intro number hnumber
  obtain ⟨path, hpath, rfl⟩ := List.mem_map.mp hnumber
  obtain ⟨child, rfl⟩ := List.length_eq_one_iff.mp (hone path hpath)
  rw [writtenPath_singleton]
  exact plainNumber_writtenChild child

/-- Legible paths are written with plain numbers, and so are read back. -/
theorem readsWritten_readPlainSuffix [PathDisplay] [LawfulPathDisplay] :
    ReadsWritten readPlainSuffix := by
  intro paths wildcard star found hpaths hstar
  rw [readPlainSuffix_eq_some_iff, readSuffix_explicitSuffix hpaths hstar,
    and_iff_right_iff_imp]
  rintro ⟨hlegible, -⟩
  have hslash := (readWildcard_wildcardStar hstar).2.2
  have hsteps : ∀ middle : List Char,
      (explicitSuffix paths star).toList = '/' :: middle ++ '/' :: star.toList →
        (middle.splitOn '/').all plainStep = true →
          ((explicitSuffix paths star).toList.splitOn '/').tail.all plainStep = true := by
    intro middle htext hmiddle
    rw [tail_splitOn_suffix hslash htext, List.all_append, hmiddle, List.all_cons,
      plainStep_wildcardStar hstar]
    rfl
  rcases paths with _ | ⟨path, _ | ⟨second, rest⟩⟩
  · exact absurd rfl hpaths
  · apply hsteps _ (toList_explicitSuffix_singleton path star)
    rw [splitOn_writtenPath hlegible, List.all_map, List.all_eq_true]
    exact fun child _ => plainStep_writtenChild child
  · have hlong : 2 ≤ (path :: second :: rest).length := by simp
    apply hsteps _ (toList_explicitSuffix_choices hlong)
    have hnone : '/' ∉ '<' :: choices (path :: second :: rest) ++ ['>'] := by
      have hchoices : '/' ∉ choices (path :: second :: rest) := by
        rw [slash_mem_choices]
        rintro ⟨path, hpath, hlength⟩
        have := hlegible path hpath
        omega
      simpa using hchoices
    rw [List.splitOn_eq_singleton hnone, List.all_cons, plainStep_choices hpaths hlegible]
    rfl

end Written

/-! ## The text of a placeholder -/

/-- The text with the shorthand written out. -/
def expandShorthand (text : String) : List Char :=
  if ['/', '*', '*'] <:+ text.toList then
    text.toList.take (text.toList.length - 3) ++ defaultMultipath.toList
  else text.toList

/-- The index as it is written. -/
def writtenIndex (text : String) : List Char := (text.toList.drop 1).takeWhile (· ≠ '/')

/-- The steps in front of the wildcard as they are written. -/
def writtenSteps (text : String) : List (List Char) :=
  ((expandShorthand text).splitOn '/').tail.dropLast

/-- The numbers in front of the wildcard are plain. -/
def PlainSteps (text : String) : Prop := ∀ step ∈ writtenSteps text, plainStep step = true

/-- The texts differ at most by the shorthand and by how hardened steps are marked. -/
def SpelledAlike (first second : String) : Prop :=
  (expandShorthand first).map oneMark = (expandShorthand second).map oneMark

section Reading

variable {text : String} {key : Bip388Key} {digits rest star : List Char}
  {steps : List (List UInt32)}

/-- What the text of a placeholder is made of. -/
structure Reading (text : String) (key : Bip388Key) (star : List Char)
    (steps : List (List UInt32)) : Prop where
  index : parseU32 (.ofList (writtenIndex text)) = some key.index
  slash : '/' ∉ writtenIndex text
  spelled : expandShorthand text = '@' :: writtenIndex text ++
    (writtenSteps text ++ [star]).flatMap fun part => '/' :: part
  wildcard : readWildcard star = key.wildcard
  marked : key.wildcard ≠ .none
  reads : List.Forall₂ (fun text step => readStep text = some step) (writtenSteps text) steps
  choice : (steps.filter (1 < ·.length)).length ≤ 1
  paths : key.derivationPaths.1 = steps.sections

theorem exists_of_fromStr [Miniscript] (hread : Bip388Key.fromStr text = some key) :
    ∃ digits rest, text.toList = '@' :: (digits ++ '/' :: rest) ∧ '/' ∉ digits ∧
      parseU32 (.ofList digits) = some key.index ∧
      parseSuffix (.ofList ('/' :: rest)) = some (key.derivationPaths, key.wildcard) := by
  rw [Bip388Key.fromStr] at hread
  simp only [Option.bind_eq_bind, Option.bind_eq_some_iff, Prod.exists] at hread
  obtain ⟨body, hbody, digits, suffix, hsplit, index, hindex, paths, wildcard, hsuffix, hkey⟩ :=
    hread
  cases hkey
  rw [stripPrefix] at hbody
  split at hbody
  · cases hbody
  · rename_i head chars htext
    obtain ⟨rfl, hchars⟩ := Option.ite_none_right_eq_some.mp hbody
    cases hchars
    obtain ⟨hdigits, rest, hcut, rfl⟩ := splitAtChar_eq_some_iff.mp hsplit
    rw [String.toList_ofList] at hcut
    refine ⟨digits.toList, rest, by rw [htext, hcut], hdigits, ?_, hsuffix⟩
    rwa [String.ofList_toList]

/-- What is read of a suffix that has a wildcard. -/
theorem exists_of_readSuffix {suffix : String} {paths : List DerivationPath} {wildcard : Wildcard}
    (hread : readSuffix suffix = some (paths, wildcard)) (hwildcard : wildcard ≠ .none) :
    ∃ texts star steps, (suffix.toList.splitOn '/').tail = texts ++ [star] ∧
      readWildcard star = wildcard ∧
      List.Forall₂ (fun text step => readStep text = some step) texts steps ∧
      (steps.filter (1 < ·.length)).length ≤ 1 ∧ paths = steps.sections := by
  obtain ⟨found, hsteps, hfound⟩ := Option.bind_eq_some_iff.mp hread
  obtain ⟨rfl, hstar⟩ := Prod.mk.inj (Option.some.inj hfound)
  rw [hstar, if_neg hwildcard] at hsteps
  obtain ⟨steps, hmap, hpaths⟩ := Option.bind_eq_some_iff.mp hsteps
  obtain ⟨hchoice, hsections⟩ := Option.ite_none_right_eq_some.mp hpaths
  refine ⟨_, _, steps, ?_, hstar, mapM_eq_some_iff.mp hmap, hchoice,
    (Option.some.inj hsections).symm⟩
  rcases List.eq_nil_or_concat (suffix.toList.splitOn '/').tail with hnil | ⟨front, last, hfront⟩
  · rw [hnil] at hstar
    exact absurd hstar.symm hwildcard
  · rw [hfront]
    simp

theorem readWildcard_cases (hwildcard : readWildcard star ≠ .none) :
    star = ['*'] ∨ star = ['*', 'h'] ∨ star = ['*', '\''] := by
  rw [readWildcard] at hwildcard
  split at hwildcard
  · exact .inl ‹_›
  · split at hwildcard
    · exact .inr ‹_›
    · exact absurd rfl hwildcard

/-- What ends with a single star does not end with the shorthand. -/
theorem not_shorthand_of_star (hwildcard : readWildcard star ≠ .none) (front : List Char) :
    ¬ ['/', '*', '*'] <:+ front ++ '/' :: star := by
  rw [← List.reverse_prefix, List.reverse_append]
  rcases readWildcard_cases hwildcard with rfl | rfl | rfl
  · simp
  · simp
  · simp

theorem expandShorthand_of_shorthand
    (htext : text.toList = '@' :: (digits ++ '/' :: ['*', '*'])) :
    expandShorthand text = '@' :: (digits ++ defaultMultipath.toList) := by
  have hcut : ('@' :: (digits ++ '/' :: ['*', '*'])).length - 3 = ('@' :: digits).length := by
    simp
  have hsuffix : ['/', '*', '*'] <:+ '@' :: (digits ++ '/' :: ['*', '*']) :=
    ⟨'@' :: digits, rfl⟩
  rw [expandShorthand, htext, if_pos hsuffix, hcut, ← List.cons_append, List.take_left,
    List.cons_append]

/-- What follows the index is read with the shorthand written out. -/
theorem expandShorthand_eq {body : List Char} {texts : List (List Char)}
    (htext : text.toList = '@' :: (digits ++ '/' :: rest))
    (hbody : (if String.ofList ('/' :: rest) = "/**" then defaultMultipath
      else .ofList ('/' :: rest)) = String.ofList ('/' :: body))
    (hparts : (('/' :: body).splitOn '/').tail = texts ++ [star])
    (hwildcard : readWildcard star ≠ .none) :
    expandShorthand text = '@' :: (digits ++ '/' :: body) := by
  by_cases hshorthand : String.ofList ('/' :: rest) = "/**"
  · rw [if_pos hshorthand] at hbody
    have hrest : '/' :: rest = '/' :: ['*', '*'] := by
      rw [← String.toList_ofList (l := '/' :: rest), hshorthand]
      rfl
    have hdefault : defaultMultipath.toList = '/' :: body := by
      rw [hbody, String.toList_ofList]
    rw [hrest] at htext
    rw [expandShorthand_of_shorthand htext, hdefault]
  · -- what ends in a wildcard is left as it is
    rw [if_neg hshorthand, String.ofList_inj] at hbody
    obtain ⟨-, rfl⟩ := List.cons.inj hbody
    have hjoined : (('/' :: rest).splitOn '/').tail.flatMap (fun part => '/' :: part) =
        '/' :: rest := flatMap_tail_splitOn rest
    rw [hparts, List.flatMap_append, List.flatMap_singleton] at hjoined
    rw [expandShorthand, htext, if_neg]
    rw [← hjoined, ← List.append_assoc, ← List.cons_append]
    exact not_shorthand_of_star hwildcard _

/-- What is read as a placeholder is an index, some steps and a wildcard. -/
theorem exists_reading [Miniscript] [LawfulDerivPaths]
    {reader : String → Option (List DerivationPath × Wildcard)} (hreads : Miniscript.ReadsBy reader)
    (hsteps : ∀ suffix found, reader suffix = some found → readSuffix suffix = some found)
    (hread : Bip388Key.fromStr text = some key) :
    ∃ star steps, Reading text key star steps ∧
      ∃ suffix found, reader suffix = some found ∧
        (suffix.toList.splitOn '/').tail = writtenSteps text ++ [star] := by
  obtain ⟨digits, rest, htext, hdigits, hindex, hsuffix⟩ := exists_of_fromStr hread
  -- the suffix with the shorthand written out
  obtain ⟨body, hbody⟩ : ∃ body,
      (if String.ofList ('/' :: rest) = "/**" then defaultMultipath else .ofList ('/' :: rest)) =
        String.ofList ('/' :: body) := by
    split
    · exact ⟨"<0;1>/*".toList, by decide⟩
    · exact ⟨rest, rfl⟩
  have hslash : startsWithChar (.ofList ('/' :: body)) '/' = true := by
    rw [startsWithChar, String.toList_ofList]
    rfl
  rw [Miniscript.ReadsBy.parseSuffix_eq hreads hbody hslash, Option.bind_eq_bind,
    Option.bind_eq_some_iff] at hsuffix
  obtain ⟨⟨paths, wildcard⟩, hfound, hmarked⟩ := hsuffix
  obtain ⟨hwildcard, hnew⟩ := Option.ite_none_left_eq_some.mp hmarked
  obtain ⟨derivationPaths, hpaths, hkey⟩ := Option.bind_eq_some_iff.mp hnew
  obtain ⟨rfl, rfl⟩ := Prod.mk.inj (Option.some.inj hkey)
  obtain ⟨texts, star, steps, hparts, hstar, htexts, hchoice, hsections⟩ :=
    exists_of_readSuffix (hsteps _ _ hfound) hwildcard
  have hsuffixParts := hparts
  rw [String.toList_ofList] at hparts
  have hexpand := expandShorthand_eq htext hbody hparts (hstar ▸ hwildcard)
  have hwrittenIndex : writtenIndex text = digits := by
    rw [writtenIndex, htext, List.drop_one, List.tail_cons, takeWhile_ne_of_not_mem hdigits]
  have hwrittenSteps : writtenSteps text = texts := by
    have hfront : '/' ∉ '@' :: digits := by simpa using hdigits
    have htail : (('/' :: body).splitOn '/').tail = body.splitOn '/' := by
      rw [List.splitOn_cons_eq_if_modifyHead, if_pos (by simp), List.tail_cons]
    rw [writtenSteps, hexpand, ← List.cons_append,
      List.splitOn_append_cons_self_of_not_mem hfront, List.tail_cons, ← htail, hparts,
      List.dropLast_concat]
  refine ⟨star, steps, ?_, _, _, hfound, by rw [hsuffixParts, hwrittenSteps]⟩
  constructor
  · rwa [hwrittenIndex]
  · rwa [hwrittenIndex]
  · rw [hwrittenIndex, hwrittenSteps, ← hparts, flatMap_tail_splitOn, hexpand, List.cons_append]
  · exact hstar
  · exact hwildcard
  · rwa [hwrittenSteps]
  · exact hchoice
  · rw [DerivPaths.ofList] at hpaths
    split at hpaths
    · rw [← Option.some.inj hpaths]
      exact hsections
    · cases hpaths

/-- What the reader of plain numbers takes has plain numbers. -/
theorem plainSteps_of_fromStr [Miniscript] [LawfulDerivPaths]
    (hreads : Miniscript.ReadsPlainSuffixes) (hread : Bip388Key.fromStr text = some key) :
    PlainSteps text := by
  obtain ⟨star, steps, -, suffix, found, hfound, hparts⟩ :=
    exists_reading hreads (fun _ _ hfound => (readPlainSuffix_eq_some_iff.mp hfound).2) hread
  have hplain := (readPlainSuffix_eq_some_iff.mp hfound).1
  rw [hparts, List.all_append, Bool.and_eq_true, List.all_eq_true] at hplain
  exact hplain.1

/-! ## What the reading tells -/

theorem Reading.ne_nil (hreading : Reading text key star steps) : ∀ step ∈ steps, step ≠ [] :=
  forall_mem_of_forall₂ hreading.reads.flip fun _ _ => ne_nil_of_readStep

/-- A bracket is where a choice is. -/
theorem Reading.exists_bracket_iff (hreading : Reading text key star steps) :
    (∃ step ∈ writtenSteps text, '<' ∈ step) ↔ ∃ step ∈ steps, 1 < step.length := by
  constructor
  · rintro ⟨step, hstep, hbracket⟩
    obtain ⟨children, hchildren, hread⟩ := exists_mem_of_forall₂ hreading.reads step hstep
    exact ⟨children, hchildren, (bracket_mem_iff hread).mp hbracket⟩
  · rintro ⟨children, hchildren, hchoice⟩
    obtain ⟨step, hstep, hread⟩ := exists_mem_of_forall₂ hreading.reads.flip children hchildren
    exact ⟨step, hstep, (bracket_mem_iff hread).mpr hchoice⟩

/-- The place of the choice among the steps, and their number when there is none. -/
def choicePlace (text : String) : ℕ := (writtenSteps text).findIdx (·.contains '<')

theorem Reading.choicePlace_eq (hreading : Reading text key star steps) :
    choicePlace text = steps.findIdx (1 < ·.length) := by
  refine findIdx_eq_of_forall₂ hreading.reads fun step children hread => ?_
  rw [List.contains_iff_mem, decide_eq_true_eq]
  exact bracket_mem_iff hread

/-- The text with one spelling of the mark is told by the index as written, the steps and
the wildcard. -/
theorem Reading.map_oneMark (hreading : Reading text key star steps) (hplain : PlainSteps text) :
    (expandShorthand text).map oneMark = '@' :: writtenIndex text ++
      (steps.map spelledStep ++ [star.map oneMark]).flatMap fun part => '/' :: part := by
  have hindex : (writtenIndex text).map oneMark = writtenIndex text := by
    conv_rhs => rw [← List.map_id (writtenIndex text)]
    refine List.map_congr_left fun char hchar => if_neg ?_
    rintro rfl
    have hdigits := (isDigit_or_plus_of_parseU32 hreading.index).2 'h'
    rw [String.toList_ofList] at hdigits
    rcases hdigits hchar with hdigit | hplus
    · cases hdigit
    · cases hplus
  have hsteps : (writtenSteps text).map (List.map oneMark) = steps.map spelledStep := by
    rw [← List.forall₂_eq_eq_eq, List.forall₂_map_left_iff, List.forall₂_map_right_iff]
    exact ((List.forall₂_and_left _ _).mpr ⟨hplain, hreading.reads⟩).imp
      fun step children hpair => map_oneMark_of_readStep hpair.2 hpair.1
  have hparts : ((writtenSteps text ++ [star]).map (List.map oneMark)) =
      steps.map spelledStep ++ [star.map oneMark] := by
    rw [List.map_append, hsteps, List.map_singleton]
  rw [hreading.spelled, List.map_append, List.map_cons, hindex, List.map_flatMap, ← hparts,
    List.flatMap_map]
  rfl

theorem slash_not_mem_spelledStep (children : List UInt32) : '/' ∉ spelledStep children := by
  have hchild : ∀ child : UInt32, '/' ∉ (writtenChild child).toList := by
    intro child hmem
    rcases mem_writtenChild hmem with hdigit | hmark
    · cases hdigit
    · cases hmark
  have hbrackets : '/' ∉ '<' :: [';'].intercalate (children.map fun child =>
      (writtenChild child).toList) ++ ['>'] := by
    rw [List.mem_append, List.mem_cons, mem_intercalate]
    rintro ((hopen | ⟨part, hpart, hmem⟩ | ⟨hsemicolon, -⟩) | hclose)
    · cases hopen
    · obtain ⟨child, -, rfl⟩ := List.mem_map.mp hpart
      exact hchild child hmem
    · cases hsemicolon
    · cases List.mem_singleton.mp hclose
  rcases children with _ | ⟨child, _ | ⟨second, rest⟩⟩
  · exact hbrackets
  · exact hchild child
  · exact hbrackets

/-- A step as it is written has a bracket when it leaves a choice. -/
theorem bracket_mem_spelledStep {children : List UInt32} (hne : children ≠ []) :
    '<' ∈ spelledStep children ↔ 1 < children.length := by
  rcases children with _ | ⟨child, _ | ⟨second, rest⟩⟩
  · exact absurd rfl hne
  · refine iff_of_false (fun hmem => ?_) (by simp)
    rcases mem_writtenChild hmem with hdigit | hmark
    · cases hdigit
    · cases hmark
  · exact iff_of_true (List.mem_append_left _ List.mem_cons_self) (by simp)

theorem map_oneMark_star {first second : List Char} (hfirst : readWildcard first ≠ .none)
    (hsame : readWildcard first = readWildcard second) :
    first.map oneMark = second.map oneMark := by
  have hsecond : readWildcard second ≠ .none := hsame ▸ hfirst
  rcases readWildcard_cases hfirst with rfl | rfl | rfl <;>
    rcases readWildcard_cases hsecond with rfl | rfl | rfl <;>
      first | rfl | exact absurd hsame (by decide)

theorem slash_not_mem_map_oneMark (hwildcard : readWildcard star ≠ .none) :
    '/' ∉ star.map oneMark := by
  rcases readWildcard_cases hwildcard with rfl | rfl | rfl
  · decide
  · decide
  · decide

end Reading

/-! ## One spelling -/

/-- The index is written as numbers are displayed, and the placeholder is printed to a text
that is read as itself. -/
def OneSpelling [Miniscript] [PathDisplay] (text : String) (key : Bip388Key) : Prop :=
  writtenIndex text = (displayU32 key.index).toList ∧ ReadsAs key key

/-- The index is plain, there is a step in front of the wildcard, and a choice has no step
beside it. -/
structure PlainText (text : String) : Prop where
  index : plainNumber (writtenIndex text) = true
  steps : writtenSteps text ≠ []
  choice : (∃ step ∈ writtenSteps text, '<' ∈ step) → (writtenSteps text).length = 1

section Spelling

variable {text : String} {key : Bip388Key} {star star' : List Char}
  {steps steps' : List (List UInt32)} {first second : String}
  {reader : String → Option (List DerivationPath × Wildcard)}

theorem Reading.legible_iff (hreading : Reading text key star steps) :
    Legible key.derivationPaths.1 ↔ writtenSteps text ≠ [] ∧
      ((∃ step ∈ writtenSteps text, '<' ∈ step) → (writtenSteps text).length = 1) := by
  have hlength := hreading.reads.length_eq
  rw [hreading.paths, legible_sections_iff hreading.ne_nil, hreading.exists_bracket_iff, hlength,
    ← List.length_pos_iff_ne_nil, ← List.length_pos_iff_ne_nil, hlength]

/-- Two texts of one key with plain numbers are spelled alike when the index is, and the choice
is at the same place. -/
theorem Reading.spelledAlike_iff (hfirst : Reading first key star steps)
    (hsecond : Reading second key star' steps') (hplain : PlainSteps first)
    (hplain' : PlainSteps second) :
    SpelledAlike first second ↔
      writtenIndex first = writtenIndex second ∧ choicePlace first = choicePlace second := by
  have hstar : readWildcard star ≠ .none := hfirst.wildcard ▸ hfirst.marked
  have hstar' : readWildcard star' ≠ .none := hsecond.wildcard ▸ hsecond.marked
  rw [SpelledAlike, hfirst.map_oneMark hplain, hsecond.map_oneMark hplain']
  constructor
  · intro hsame
    have hsplit : ∀ (digits star : List Char) (steps : List (List UInt32)), '/' ∉ digits →
        readWildcard star ≠ .none →
          ('@' :: digits ++ (steps.map spelledStep ++ [star.map oneMark]).flatMap
              fun part => '/' :: part).splitOn '/' =
            ('@' :: digits) :: (steps.map spelledStep ++ [star.map oneMark]) := by
      intro digits star steps hdigits hwildcard
      apply splitOn_flatMap_cons (by simpa using hdigits)
      rw [List.forall_mem_append, List.forall_mem_singleton, List.forall_mem_map]
      exact ⟨fun step _ => slash_not_mem_spelledStep step, slash_not_mem_map_oneMark hwildcard⟩
    have hparts := congrArg (List.splitOn '/') hsame
    rw [hsplit _ _ _ hfirst.slash hstar, hsplit _ _ _ hsecond.slash hstar'] at hparts
    obtain ⟨hhead, htail⟩ := List.cons.inj hparts
    have hsteps : steps.map spelledStep = steps'.map spelledStep := (List.append_inj' htail rfl).1
    have hplace : ∀ steps : List (List UInt32), (∀ step ∈ steps, step ≠ []) →
        (steps.map spelledStep).findIdx (·.contains '<') = steps.findIdx (1 < ·.length) := by
      intro steps hne
      have hspelled : List.Forall₂ (fun text step => step ≠ [] ∧ text = spelledStep step)
          (steps.map spelledStep) steps := by
        rw [List.forall₂_map_left_iff, List.forall₂_same]
        exact fun step hstep => ⟨hne step hstep, rfl⟩
      refine findIdx_eq_of_forall₂ hspelled fun text step hpair => ?_
      rw [List.contains_iff_mem, decide_eq_true_eq, hpair.2]
      exact bracket_mem_spelledStep hpair.1
    refine ⟨(List.cons.inj hhead).2, ?_⟩
    rw [hfirst.choicePlace_eq, hsecond.choicePlace_eq, ← hplace _ hfirst.ne_nil,
      ← hplace _ hsecond.ne_nil, hsteps]
  · rintro ⟨hindex, hplace⟩
    rw [hfirst.choicePlace_eq, hsecond.choicePlace_eq] at hplace
    obtain rfl := eq_of_sections_eq hfirst.ne_nil hsecond.ne_nil hfirst.choice hsecond.choice hplace
      (hfirst.paths.symm.trans hsecond.paths)
    rw [hindex, map_oneMark_star hstar (hfirst.wildcard.trans hsecond.wildcard.symm)]

theorem Reading.choicePlace_of_plain (hreading : Reading text key star steps)
    (hplain : PlainText text) :
    choicePlace text = if 1 < key.derivationPaths.1.length then 0
      else (key.derivationPaths.1.headD []).length := by
  rw [hreading.choicePlace_eq, hreading.paths]
  refine findIdx_of_single_choice hreading.ne_nil fun hchoice => ?_
  rw [← hreading.reads.length_eq]
  exact hplain.choice (hreading.exists_bracket_iff.mpr hchoice)

variable [Miniscript] [LawfulDerivPaths] [PathDisplay] [LawfulPathDisplay]

theorem Reading.oneSpelling_iff (hreads : Miniscript.ReadsBy reader)
    (hwritten : ReadsWritten reader) (hreading : Reading text key star steps) :
    OneSpelling text key ↔ PlainText text := by
  have hindex := plainNumber_iff hreading.index
  rw [String.toList_ofList] at hindex
  have hprinted : ReadsAs key key ↔ Legible key.derivationPaths.1 := by
    rw [Miniscript.ReadsBy.readsAs_iff hreads hwritten hreading.marked,
      and_iff_left rfl]
  rw [OneSpelling, ← hindex, hprinted, hreading.legible_iff]
  exact ⟨fun ⟨hplain, hsteps, hchoice⟩ => ⟨hplain, hsteps, hchoice⟩,
    fun ⟨hplain, hsteps, hchoice⟩ => ⟨hplain, hsteps, hchoice⟩⟩

/-- What is true of the spellings, whichever numbers the key parser takes. -/
theorem Miniscript.ReadsBy.spellings (hreads : Miniscript.ReadsBy reader)
    (hwritten : ReadsWritten reader)
    (hsteps : ∀ suffix found, reader suffix = some found → readSuffix suffix = some found) :
    (∀ text key, Bip388Key.fromStr text = some key → (OneSpelling text key ↔ PlainText text)) ∧
    (∀ first second key, Bip388Key.fromStr first = some key →
      Bip388Key.fromStr second = some key → PlainSteps first → PlainSteps second →
        (SpelledAlike first second ↔
          writtenIndex first = writtenIndex second ∧ choicePlace first = choicePlace second)) ∧
    (∀ first second key, Bip388Key.fromStr first = some key →
      Bip388Key.fromStr second = some key → PlainSteps first → PlainSteps second →
        PlainText first → PlainText second → SpelledAlike first second) := by
  refine ⟨fun text key hread => ?_, fun first second key hfirst hsecond hplain hplain' => ?_,
    fun first second key hfirst hsecond hplain hplain' htext htext' => ?_⟩
  · obtain ⟨star, steps, hreading, -⟩ := exists_reading hreads hsteps hread
    exact hreading.oneSpelling_iff hreads hwritten
  · obtain ⟨star, steps, hreading, -⟩ := exists_reading hreads hsteps hfirst
    obtain ⟨star', steps', hreading', -⟩ := exists_reading hreads hsteps hsecond
    exact hreading.spelledAlike_iff hreading' hplain hplain'
  · obtain ⟨star, steps, hreading, -⟩ := exists_reading hreads hsteps hfirst
    obtain ⟨star', steps', hreading', -⟩ := exists_reading hreads hsteps hsecond
    have hindex := ((hreading.oneSpelling_iff hreads hwritten).mpr htext).1
    have hindex' := ((hreading'.oneSpelling_iff hreads hwritten).mpr htext').1
    refine (hreading.spelledAlike_iff hreading' hplain hplain').mpr
      ⟨hindex.trans hindex'.symm, ?_⟩
    rw [hreading.choicePlace_of_plain htext, hreading'.choicePlace_of_plain htext']

/-- A text that is read as a placeholder has its index in one spelling and survives printing
exactly when it is plain. Two texts of one placeholder differ by the shorthand and the
marks alone exactly when the index is written alike and the choice is at the same place, as
in plain texts it is. -/
theorem Bip388Key.spelling_iff (hreads : Miniscript.ReadsPlainSuffixes) :
    (∀ text key, Bip388Key.fromStr text = some key → (OneSpelling text key ↔ PlainText text)) ∧
    (∀ first second key, Bip388Key.fromStr first = some key →
      Bip388Key.fromStr second = some key →
        (SpelledAlike first second ↔
          writtenIndex first = writtenIndex second ∧ choicePlace first = choicePlace second)) ∧
    (∀ first second key, Bip388Key.fromStr first = some key →
      Bip388Key.fromStr second = some key → PlainText first → PlainText second →
        SpelledAlike first second) := by
  obtain ⟨hone, halike, hplain⟩ := Miniscript.ReadsBy.spellings hreads readsWritten_readPlainSuffix
    fun _ _ hfound => (readPlainSuffix_eq_some_iff.mp hfound).2
  refine ⟨hone, fun first second key hfirst hsecond => ?_, fun first second key hfirst hsecond => ?_⟩
  · exact halike first second key hfirst hsecond (plainSteps_of_fromStr hreads hfirst)
      (plainSteps_of_fromStr hreads hsecond)
  · exact hplain first second key hfirst hsecond (plainSteps_of_fromStr hreads hfirst)
      (plainSteps_of_fromStr hreads hsecond)

/-- The same of a key parser that takes zeros in front of a number: whether a text survives
printing does not depend on them, and two texts of plain numbers are compared as before. -/
theorem Bip388Key.spelling_of_plainSteps (hreads : Miniscript.ReadsSuffixes) :
    (∀ text key, Bip388Key.fromStr text = some key → (OneSpelling text key ↔ PlainText text)) ∧
    (∀ first second key, Bip388Key.fromStr first = some key →
      Bip388Key.fromStr second = some key → PlainSteps first → PlainSteps second →
        (SpelledAlike first second ↔
          writtenIndex first = writtenIndex second ∧ choicePlace first = choicePlace second)) ∧
    (∀ first second key, Bip388Key.fromStr first = some key →
      Bip388Key.fromStr second = some key → PlainSteps first → PlainSteps second →
        PlainText first → PlainText second → SpelledAlike first second) :=
  Miniscript.ReadsBy.spellings hreads readsWritten_readSuffix fun _ _ hfound => hfound

end Spelling

/-! ## Examples -/

namespace Bip388Key.PlainSample

open Bip138.Sample (suffixXkey keyTexts)
open PathDisplay.Sample

/-- The keys of the examples, and the throwaway xpub with a suffix of plain numbers. -/
def readPlainKey (text : String) : Option DescriptorPublicKey :=
  if parseXpub.toList <+: text.toList then do
    let (paths, wildcard) ← readPlainSuffix (.ofList (text.toList.drop parseXpub.toList.length))
    DescriptorPublicKey.followed suffixXkey paths wildcard
  else (keyTexts.find? (·.2 = text)).map Prod.fst

/-- A miniscript whose key parser takes plain numbers only. -/
scoped instance plainReader : Miniscript :=
  { PolicySet.Accounts.suffixReader with keyFromStr := readPlainKey }

scoped instance lawfulDerivPaths : LawfulDerivPaths := ⟨fun _ => rfl⟩

theorem readsPlainSuffixes : Miniscript.ReadsPlainSuffixes := by
  refine ⟨suffixXkey, fun suffix _ => ?_⟩
  have htext : (parseXpub ++ suffix).toList = parseXpub.toList ++ suffix.toList :=
    String.toList_append
  change readPlainKey (parseXpub ++ suffix) = _
  rw [readPlainKey, htext, if_pos (List.prefix_append _ _), List.drop_left, String.ofList_toList]

/-- What a text of plain numbers is read as. -/
theorem fromStr_plainReader (digits suffix : String) {text : String} {key : Bip388Key}
    (hparts : "@" ++ digits ++ suffix = text ∧ '/' ∉ digits.toList ∧
      startsWithChar suffix '/' = true)
    (hread : parseU32 digits = some key.index ∧
      readPlainSuffix (if suffix = "/**" then defaultMultipath else suffix) =
        some (key.derivationPaths.1, key.wildcard) ∧ key.wildcard ≠ .none) :
    Bip388Key.fromStr text = some key := by
  obtain ⟨rfl, hdigits, hslash⟩ := hparts
  obtain ⟨hindex, hsuffix, hwildcard⟩ := hread
  have hexpanded : startsWithChar (if suffix = "/**" then defaultMultipath else suffix) '/' =
      true := by
    split
    · decide
    · exact hslash
  rw [Bip388Key.fromStr_append hdigits hslash, hindex,
    Miniscript.ReadsBy.parseSuffix_eq readsPlainSuffixes rfl hexpanded, hsuffix]
  simp only [Option.bind_eq_bind, Option.bind_some, if_neg hwildcard,
    key.derivationPaths.ofList_val]

theorem not_oneSpelling_of_not_plainText {text : String} {key : Bip388Key}
    (hread : Bip388Key.fromStr text = some key) (hplain : ¬ PlainText text) :
    ¬ OneSpelling text key := by
  have hone := (Miniscript.ReadsBy.spellings readsPlainSuffixes
    readsWritten_readPlainSuffix fun _ _ hfound => (readPlainSuffix_eq_some_iff.mp hfound).2).1
  exact fun hsame => hplain ((hone _ _ hread).mp hsame)

/-- The first key, with these paths in front of the wildcard. -/
def firstKey (paths : List DerivationPath) (hpaths : paths ≠ []) : Bip388Key :=
  ⟨0, ⟨paths, hpaths⟩, .unhardened⟩

end Bip388Key.PlainSample

open Bip388Key.PlainSample PathDisplay.Sample in
/-- An index with a sign, an xpub directly followed by the wildcard and a choice with a step
beside it are accepted, and do not come back; and a choice between equal steps can be
written at two places. -/
theorem Bip388Key.not_spelling :
    (∃ key, Bip388Key.fromStr "@+0/**" = some key ∧
      ¬ OneSpelling "@+0/**" key) ∧
    (∃ key, Bip388Key.fromStr "@0/*" = some key ∧
      ¬ OneSpelling "@0/*" key) ∧
    (∃ key, Bip388Key.fromStr "@0/5/<0;1>/*" = some key ∧
      ¬ OneSpelling "@0/5/<0;1>/*" key) ∧
    (∃ key, Bip388Key.fromStr "@0/<5;5>/0/*" = some key ∧
      Bip388Key.fromStr "@0/5/<0;0>/*" = some key ∧
        ¬ SpelledAlike "@0/<5;5>/0/*" "@0/5/<0;0>/*") := by
  refine ⟨?_, ?_, ?_, ?_⟩
  · have hread : Bip388Key.fromStr "@+0/**" =
        some (firstKey [[0], [1]] (by decide)) :=
      fromStr_plainReader "+0" "/**" (by decide) (by decide)
    refine ⟨_, hread, not_oneSpelling_of_not_plainText hread fun hplain => ?_⟩
    exact absurd hplain.index (by decide)
  · have hread : Bip388Key.fromStr "@0/*" = some (firstKey [[]] (by decide)) :=
      fromStr_plainReader "0" "/*" (by decide) (by decide)
    refine ⟨_, hread, not_oneSpelling_of_not_plainText hread fun hplain => ?_⟩
    exact absurd hplain.steps (by decide)
  · have hread : Bip388Key.fromStr "@0/5/<0;1>/*" =
        some (firstKey [[5, 0], [5, 1]] (by decide)) :=
      fromStr_plainReader "0" "/5/<0;1>/*" (by decide) (by decide)
    refine ⟨_, hread, not_oneSpelling_of_not_plainText hread fun hplain => ?_⟩
    exact absurd (hplain.choice (by decide)) (by decide)
  · have hfirst : Bip388Key.fromStr "@0/<5;5>/0/*" =
        some (firstKey [[5, 0], [5, 0]] (by decide)) :=
      fromStr_plainReader "0" "/<5;5>/0/*" (by decide) (by decide)
    have hsecond : Bip388Key.fromStr "@0/5/<0;0>/*" =
        some (firstKey [[5, 0], [5, 0]] (by decide)) :=
      fromStr_plainReader "0" "/5/<0;0>/*" (by decide) (by decide)
    refine ⟨_, hfirst, hsecond, ?_⟩
    rw [SpelledAlike]
    decide

open Bip388Key.PlainSample PathDisplay.Sample in
/-- The shorthand and what it stands for are plain, and one placeholder. -/
theorem Bip388Key.spelling_iff_shorthand :
    ∃ key, Bip388Key.fromStr "@0/**" = some key ∧
      Bip388Key.fromStr "@0/<0;1>/*" = some key ∧
      OneSpelling "@0/**" key ∧ OneSpelling "@0/<0;1>/*" key ∧
      SpelledAlike "@0/**" "@0/<0;1>/*" := by
  obtain ⟨hone, halike, -⟩ := Bip388Key.spelling_iff readsPlainSuffixes
  have hshorthand : Bip388Key.fromStr "@0/**" =
      some (firstKey [[0], [1]] (by decide)) :=
    fromStr_plainReader "0" "/**" (by decide) (by decide)
  have hexplicit : Bip388Key.fromStr "@0/<0;1>/*" =
      some (firstKey [[0], [1]] (by decide)) :=
    fromStr_plainReader "0" "/<0;1>/*" (by decide) (by decide)
  exact ⟨_, hshorthand, hexplicit, (hone _ _ hshorthand).mpr ⟨by decide, by decide, by decide⟩,
    (hone _ _ hexplicit).mpr ⟨by decide, by decide, by decide⟩,
    (halike _ _ _ hshorthand hexplicit).mpr ⟨by decide, by decide⟩⟩

end Bip138
