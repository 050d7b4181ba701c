/-
# Derivation suffixes

What follows the xpub of a key expression, as text: `/5/0/*`, or `/<0;1>/*h` where there are
several paths to choose from. The library writes a suffix itself and has it read by the key
parser of miniscript, whose rules `readSuffix` states.

The parser takes no empty step, and a choice between single steps only. So the two are not
inverse: `readSuffix_explicitSuffix` says which suffixes are read back.
-/

import Bip138.Rust.Loop
import Bip138.Rust.Sections
import Bip138.Front.Keys

namespace Bip138

open Bip138.Rust

/-- A child number is written as its index, and a mark if it is hardened. -/
def writtenChild (child : UInt32) : String :=
  if child < Ll.hardenedBit then displayU32 child else displayU32 (child - Ll.hardenedBit) ++ "'"

def writtenPath (path : DerivationPath) : String :=
  "/".intercalate (path.map writtenChild)

/-- `Display` of a derivation path, from the bitcoin crate. -/
class PathDisplay where
  derivationPathToString : DerivationPath → String

/-- A path is displayed as its child numbers are written. -/
class LawfulPathDisplay [PathDisplay] : Prop where
  derivationPathToString_eq (path : DerivationPath) :
    PathDisplay.derivationPathToString path = writtenPath path

/-- The last step of a suffix, which there is for a wildcard. -/
def wildcardStar : Wildcard → Option String
  | .none => none
  | .unhardened => some "*"
  | .hardened => some "*h"

/-- A suffix without the shorthand. -/
def explicitSuffix [PathDisplay] (paths : List DerivationPath) (star : String) : String :=
  match paths with
  | [path] => "/" ++ PathDisplay.derivationPathToString path ++ "/" ++ star
  | paths =>
      "/<" ++ ";".intercalate (paths.map PathDisplay.derivationPathToString) ++ ">/" ++ star

/-- The number that these digits are, below the hardened bit. -/
def readIndex (digits : List Char) : Option UInt32 := do
  let index ← parseU32 (.ofList digits)
  if index < Ll.hardenedBit then some index else none

/-- A number, with a mark at its end if it is hardened. -/
def readChildNumber (text : List Char) : Option UInt32 :=
  if text.getLast? = some '\'' ∨ text.getLast? = some 'h' then
    (readIndex text.dropLast).map (· + Ll.hardenedBit)
  else readIndex text

/-- A step: a child number, or two or more of them to choose from. -/
def readStep (text : List Char) : Option (List UInt32) :=
  if text.head? = some '<' ∧ text.getLast? = some '>' then
    let parts := text.tail.dropLast.splitOn ';'
    if 2 ≤ parts.length then parts.mapM readChildNumber else none
  else (readChildNumber text).map fun child => [child]

/-- The paths along these steps, of which only one may leave a choice. -/
def readSteps (parts : List (List Char)) : Option (List DerivationPath) := do
  let steps ← parts.mapM readStep
  if (steps.filter (1 < ·.length)).length ≤ 1 then some steps.sections else none

def readWildcard (text : List Char) : Wildcard :=
  if text = ['*'] then .unhardened
  else if text = ['*', 'h'] ∨ text = ['*', '\''] then .hardened
  else .none

/-- A suffix starts with a slash and has a slash before every other step. -/
def readSuffix (suffix : String) : Option (List DerivationPath × Wildcard) := do
  let parts := (suffix.toList.splitOn '/').tail
  let wildcard := readWildcard (parts.getLastD [])
  let paths ← readSteps (if wildcard = .none then parts else parts.dropLast)
  some (paths, wildcard)

theorem mem_writtenChild {child : UInt32} {char : Char}
    (hchar : char ∈ (writtenChild child).toList) : char.isDigit = true ∨ char = '\'' := by
  rw [writtenChild] at hchar
  split at hchar
  · exact .inl (isDigit_of_mem_displayU32 hchar)
  · rw [String.toList_append, List.mem_append] at hchar
    rcases hchar with hdigit | hmark
    · exact .inl (isDigit_of_mem_displayU32 hdigit)
    · exact .inr (List.mem_singleton.mp hmark)

theorem readIndex_displayU32 {index : UInt32} (hindex : index < Ll.hardenedBit) :
    readIndex (displayU32 index).toList = some index := by
  rw [readIndex, String.ofList_toList, parseU32_displayU32, Option.bind_eq_bind, Option.bind_some,
    if_pos hindex]

/-- A child number is read back. -/
theorem readChildNumber_writtenChild (child : UInt32) :
    readChildNumber (writtenChild child).toList = some child := by
  rw [writtenChild]
  split
  · next hnormal =>
      have hunmarked : ∀ mark, mark.isDigit = false →
          (displayU32 child).toList.getLast? ≠ some mark := by
        intro mark hmark hlast
        rw [isDigit_of_mem_displayU32 (List.mem_of_getLast? hlast)] at hmark
        cases hmark
      rw [readChildNumber, if_neg (not_or.mpr ⟨hunmarked _ (by decide), hunmarked _ (by decide)⟩),
        readIndex_displayU32 hnormal]
  · next hhardened =>
      rw [UInt32.not_lt] at hhardened
      have hindex : child - Ll.hardenedBit < Ll.hardenedBit := by
        have hbit : Ll.hardenedBit.toNat = 2 ^ 31 := by decide
        have hchild := child.toNat_lt
        rw [UInt32.lt_iff_toNat_lt, UInt32.toNat_sub_of_le _ _ hhardened, hbit]
        omega
      have hmark : (displayU32 (child - Ll.hardenedBit) ++ "'").toList =
          (displayU32 (child - Ll.hardenedBit)).toList ++ ['\''] := String.toList_append
      rw [hmark, readChildNumber, if_pos (.inl List.getLast?_concat), List.dropLast_concat,
        readIndex_displayU32 hindex, Option.map_some, UInt32.sub_add_cancel]

theorem mem_of_readIndex {digits : List Char} {index : UInt32}
    (hread : readIndex digits = some index) :
    digits ≠ [] ∧ ∀ char ∈ digits, char.isDigit = true ∨ char = '+' := by
  obtain ⟨value, hvalue, -⟩ := Option.bind_eq_some_iff.mp hread
  simpa using isDigit_or_plus_of_parseU32 hvalue

/-- What is read as a child number is not empty and does not start with a bracket. -/
theorem head_of_readChildNumber {text : List Char} {child : UInt32}
    (hread : readChildNumber text = some child) : text ≠ [] ∧ text.head? ≠ some '<' := by
  have hbracket : ∀ digits index, readIndex digits = some index →
      digits ≠ [] ∧ digits.head? ≠ some '<' := by
    intro digits index hindex
    obtain ⟨hdigits, hall⟩ := mem_of_readIndex hindex
    refine ⟨hdigits, fun hhead => ?_⟩
    rcases hall _ (List.mem_of_head? hhead) with hdigit | hplus
    · cases hdigit
    · cases hplus
  rw [readChildNumber] at hread
  split at hread
  · obtain ⟨index, hindex, -⟩ := Option.map_eq_some_iff.mp hread
    obtain ⟨hdigits, hhead⟩ := hbracket _ _ hindex
    rcases text with _ | ⟨first, _ | ⟨second, rest⟩⟩
    · exact absurd rfl hdigits
    · exact absurd rfl hdigits
    · exact ⟨List.cons_ne_nil _ _, hhead⟩
  · exact hbracket _ _ hread

theorem mem_writtenPath {path : DerivationPath} {char : Char} :
    char ∈ (writtenPath path).toList ↔
      (∃ child ∈ path, char ∈ (writtenChild child).toList) ∨
        (char = '/' ∧ 2 ≤ path.length) := by
  have hslash : "/".toList = ['/'] := rfl
  rw [writtenPath, String.toList_intercalate, hslash, mem_intercalate]
  simp

/-- A path is written with digits, marks and slashes. -/
theorem char_of_mem_writtenPath {path : DerivationPath} {char : Char}
    (hchar : char ∈ (writtenPath path).toList) :
    char.isDigit = true ∨ char = '\'' ∨ char = '/' := by
  rcases mem_writtenPath.mp hchar with ⟨child, -, hchild⟩ | ⟨hslash, -⟩
  · rcases mem_writtenChild hchild with hdigit | hmark
    · exact .inl hdigit
    · exact .inr (.inl hmark)
  · exact .inr (.inr hslash)

theorem slash_mem_writtenPath {path : DerivationPath} :
    '/' ∈ (writtenPath path).toList ↔ 2 ≤ path.length := by
  rw [mem_writtenPath]
  refine ⟨?_, fun hlong => .inr ⟨rfl, hlong⟩⟩
  rintro (⟨child, -, hchild⟩ | ⟨-, hlong⟩)
  · rcases mem_writtenChild hchild with hdigit | hmark
    · cases hdigit
    · cases hmark
  · exact hlong

theorem writtenPath_singleton (child : UInt32) :
    writtenPath [child] = writtenChild child := String.intercalate_singleton

/-- The steps of a path that has any. -/
theorem splitOn_writtenPath {path : DerivationPath} (hpath : path ≠ []) :
    (writtenPath path).toList.splitOn '/' =
      path.map fun child => (writtenChild child).toList := by
  have hslash : "/".toList = ['/'] := rfl
  rw [writtenPath, String.toList_intercalate, hslash, List.map_map]
  refine List.splitOn_intercalate '/' ?_ (by simpa using hpath)
  intro part hpart hmem
  obtain ⟨child, -, rfl⟩ := List.mem_map.mp hpart
  rcases mem_writtenChild hmem with hdigit | hmark
  · cases hdigit
  · cases hmark

theorem readStep_writtenChild (child : UInt32) :
    readStep (writtenChild child).toList = some [child] := by
  have hread := readChildNumber_writtenChild child
  rw [readStep, if_neg fun hbrackets => (head_of_readChildNumber hread).2 hbrackets.1, hread,
    Option.map_some]

/-- What a path is written as is read as the path, if it has a step. -/
theorem readSteps_writtenPath {path : DerivationPath} {read : List DerivationPath} :
    readSteps ((writtenPath path).toList.splitOn '/') = some read ↔
      path ≠ [] ∧ read = [path] := by
  by_cases hpath : path = []
  · rw [hpath]
    refine iff_of_false (fun hread => ?_) fun hnonempty => hnonempty.1 rfl
    have hnone : readSteps ((writtenPath []).toList.splitOn '/') = none := by decide
    rw [hnone] at hread
    cases hread
  · have hsteps : (path.map fun child => (writtenChild child).toList).mapM readStep =
        some (path.map fun child => [child]) := by
      rw [mapM_eq_some_iff, List.forall₂_map_left_iff, List.forall₂_map_right_iff,
        List.forall₂_same]
      exact fun child _ => readStep_writtenChild child
    have hchoices : (path.map fun child => [child]).filter (1 < ·.length) = [] := by
      simp
    rw [splitOn_writtenPath hpath, readSteps, hsteps, Option.bind_eq_bind,
      Option.bind_some, if_pos (by simp [hchoices]), sections_map_singleton]
    simp [hpath, eq_comm]

/-- No two paths are written the same. -/
theorem writtenPath_injective : Function.Injective writtenPath := by
  intro first second hequal
  by_cases hfirst : first = []
  · by_contra hne
    have hread := readSteps_writtenPath.mpr ⟨fun hnil => hne (hfirst.trans hnil.symm),
      rfl⟩
    rw [← hequal, hfirst] at hread
    exact (readSteps_writtenPath.mp hread).1 rfl
  · have hread := readSteps_writtenPath.mpr ⟨hfirst, rfl⟩
    rw [hequal] at hread
    exact (List.cons.inj (readSteps_writtenPath.mp hread).2).1

section Choice

variable {paths read : List DerivationPath}

/-- What stands between the brackets. -/
def choices (paths : List DerivationPath) : List Char :=
  (";".intercalate (paths.map writtenPath)).toList

theorem mem_choices {char : Char} :
    char ∈ choices paths ↔
      (∃ path ∈ paths, char ∈ (writtenPath path).toList) ∨
        (char = ';' ∧ 2 ≤ paths.length) := by
  have hsemicolon : ";".toList = [';'] := rfl
  rw [choices, String.toList_intercalate, hsemicolon, mem_intercalate]
  simp

theorem not_mem_choices {char : Char} (hdigit : char.isDigit = false) (hmark : char ≠ '\'')
    (hslash : char ≠ '/') (hsemicolon : char ≠ ';') : char ∉ choices paths := by
  intro hmem
  rcases mem_choices.mp hmem with ⟨path, -, hpath⟩ | ⟨hsame, -⟩
  · rcases char_of_mem_writtenPath hpath with hyes | hyes | hyes
    · rw [hyes] at hdigit
      cases hdigit
    · exact hmark hyes
    · exact hslash hyes
  · exact hsemicolon hsame

theorem slash_mem_choices : '/' ∈ choices paths ↔ ∃ path ∈ paths, 2 ≤ path.length := by
  simp [mem_choices, slash_mem_writtenPath]

theorem splitOn_choices (hpaths : paths ≠ []) :
    (choices paths).splitOn ';' = paths.map fun path => (writtenPath path).toList := by
  have hsemicolon : ";".toList = [';'] := rfl
  rw [choices, String.toList_intercalate, hsemicolon, List.map_map]
  refine List.splitOn_intercalate ';' ?_ (by simpa using hpaths)
  intro part hpart hmem
  obtain ⟨path, -, rfl⟩ := List.mem_map.mp hpart
  rcases char_of_mem_writtenPath hmem with hdigit | hmark | hslash
  · cases hdigit
  · cases hmark
  · cases hslash

/-- A step is not closed by the slash of a path inside it. -/
theorem readStep_unclosed {text : List Char} (htext : '>' ∉ text) : readStep ('<' :: text) = none := by
  have hopen : ('<' :: text).getLast? ≠ some '>' := by
    intro hlast
    rcases List.mem_cons.mp (List.mem_of_getLast? hlast) with hfirst | hrest
    · cases hfirst
    · exact htext hrest
  rw [readStep, if_neg fun hbrackets => hopen hbrackets.2, Option.map_eq_none_iff,
    Option.eq_none_iff_forall_ne_some]
  exact fun child hread => (head_of_readChildNumber hread).2 rfl

theorem readStep_brackets (text : List Char) :
    readStep ('<' :: text ++ ['>']) =
      if 2 ≤ (text.splitOn ';').length then (text.splitOn ';').mapM readChildNumber else none := by
  have hbrackets : ('<' :: text ++ ['>']).head? = some '<' ∧
      ('<' :: text ++ ['>']).getLast? = some '>' := ⟨rfl, List.getLast?_concat⟩
  rw [readStep, if_pos hbrackets, List.cons_append, List.tail_cons, List.dropLast_concat]

theorem readSteps_singleton (text : List Char) :
    readSteps [text] = (readStep text).map fun children => children.map fun child => [child] := by
  rw [readSteps, List.mapM_cons, List.mapM_nil]
  rcases readStep text with _ | children
  · rfl
  · have hone : ([children].filter (1 < ·.length)).length ≤ 1 :=
      (List.length_filter_le _ _).trans (by simp)
    simp only [Option.bind_eq_bind, Option.pure_def, Option.bind_some, Option.map_some]
    rw [if_pos hone]
    simp

/-- A path without a slash in its text is read as a child number if it has a step. -/
theorem readChildNumber_writtenPath {path : DerivationPath} {child : UInt32}
    (hpath : path.length < 2) :
    readChildNumber (writtenPath path).toList = some child ↔ path = [child] := by
  rcases path with _ | ⟨first, _ | ⟨second, rest⟩⟩
  · refine iff_of_false (fun hread => ?_) (by simp)
    exact (head_of_readChildNumber hread).1 rfl
  · rw [writtenPath_singleton, readChildNumber_writtenChild]
    simp
  · simp only [List.length_cons] at hpath
    omega

/-- The paths between the brackets are read if each of them has one step. -/
theorem mapM_readChildNumber_choices {children : List UInt32}
    (hshort : ∀ path ∈ paths, path.length < 2) :
    (paths.map fun path => (writtenPath path).toList).mapM readChildNumber =
        some children ↔
      paths = children.map fun child => [child] := by
  have hpath : ∀ (path : DerivationPath) (child : UInt32),
      path.length < 2 ∧ readChildNumber (writtenPath path).toList = some child ↔
        path.length < 2 ∧ path = [child] :=
    fun path child => and_congr_right fun hlength =>
      readChildNumber_writtenPath hlength
  calc (paths.map fun path => (writtenPath path).toList).mapM readChildNumber =
          some children
      ↔ List.Forall₂ (fun path child => path.length < 2 ∧
          readChildNumber (writtenPath path).toList = some child) paths children := by
        rw [mapM_eq_some_iff, List.forall₂_map_left_iff, List.forall₂_and_left,
          and_iff_right hshort]
    _ ↔ List.Forall₂ (fun path child => path = [child]) paths children := by
        simp only [hpath]
        rw [List.forall₂_and_left, and_iff_right hshort]
    _ ↔ List.Forall₂ (· = ·) paths (children.map fun child => [child]) :=
        List.forall₂_map_right_iff.symm
    _ ↔ paths = children.map fun child => [child] := by
        rw [List.forall₂_eq_eq_eq]

/-- A step with several paths to choose from is read as these paths if each of them has
one step. -/
theorem readSteps_choices (hpaths : 2 ≤ paths.length) :
    readSteps (('<' :: choices paths ++ ['>']).splitOn '/') = some read ↔
      (∀ path ∈ paths, path.length = 1) ∧ read = paths := by
  by_cases hslash : '/' ∈ choices paths
  · refine iff_of_false (fun hread => ?_) fun ⟨hone, _⟩ => ?_
    · obtain ⟨before, after, hbefore, hfirst⟩ := List.eq_append_cons_of_mem hslash
      have hopen : '>' ∉ before := by
        have hnone : '>' ∉ choices paths :=
          not_mem_choices (by decide) (by decide) (by decide) (by decide)
        rw [hbefore] at hnone
        exact fun hmem => hnone (List.mem_append_left _ hmem)
      have hparts : ('<' :: choices paths ++ ['>']).splitOn '/' =
          ('<' :: before) :: (after ++ ['>']).splitOn '/' := by
        rw [hbefore, List.cons_append, List.append_assoc, List.cons_append, ← List.cons_append]
        refine List.splitOn_append_cons_self_of_not_mem ?_ _
        simpa using hfirst
      rw [hparts] at hread
      obtain ⟨steps, hsteps, -⟩ := Option.bind_eq_some_iff.mp hread
      rw [mapM_eq_some_iff, List.forall₂_cons_left_iff] at hsteps
      obtain ⟨step, _, hstep, -⟩ := hsteps
      rw [readStep_unclosed hopen] at hstep
      cases hstep
    · obtain ⟨path, hpath, hlong⟩ := slash_mem_choices.mp hslash
      have := hone path hpath
      omega
  · have hshort : ∀ path ∈ paths, path.length < 2 := by
      intro path hpath
      by_contra hlong
      exact hslash (slash_mem_choices.mpr ⟨path, hpath, not_lt.mp hlong⟩)
    have hnone : '/' ∉ '<' :: choices paths ++ ['>'] := by
      simpa using hslash
    have hnonempty : paths ≠ [] := by
      rintro rfl
      simp at hpaths
    rw [List.splitOn_eq_singleton hnone, readSteps_singleton, readStep_brackets,
      splitOn_choices hnonempty, List.length_map, if_pos hpaths, Option.map_eq_some_iff]
    simp only [mapM_readChildNumber_choices hshort]
    constructor
    · rintro ⟨children, rfl, rfl⟩
      simp
    · rintro ⟨hone, rfl⟩
      have hmap : (read.map fun path => [path.headD 0]) = read := by
        conv_rhs => rw [← List.map_id read]
        refine List.map_congr_left fun path hpath => ?_
        obtain ⟨child, rfl⟩ := List.length_eq_one_iff.mp (hone path hpath)
        rfl
      have hchildren : ((read.map (·.headD 0)).map fun child => [child]) = read := by
        rw [List.map_map]
        exact hmap
      exact ⟨read.map (·.headD 0), hchildren.symm, hchildren⟩

end Choice

/-- The suffix has what the key parser accepts: a path that has a step, or several paths
of one step each. -/
def Legible (paths : List DerivationPath) : Prop :=
  match paths with
  | [path] => path ≠ []
  | paths => ∀ path ∈ paths, path.length = 1

section Suffix

variable {paths : List DerivationPath} {wildcard : Wildcard} {star suffix : String}

/-- What a wildcard is written as, in front of which there is a slash. -/
theorem readWildcard_wildcardStar (hstar : wildcardStar wildcard = some star) :
    readWildcard star.toList = wildcard ∧ wildcard ≠ .none ∧ '/' ∉ star.toList := by
  cases wildcard with
  | none => cases hstar
  | unhardened =>
      cases hstar
      decide
  | hardened =>
      cases hstar
      decide

/-- The steps of a suffix and its star. -/
theorem tail_splitOn_suffix {middle : List Char} (hslash : '/' ∉ star.toList)
    (hsuffix : suffix.toList = '/' :: middle ++ '/' :: star.toList) :
    (suffix.toList.splitOn '/').tail = middle.splitOn '/' ++ [star.toList] := by
  rw [hsuffix, List.splitOn_append_cons_self, List.splitOn_eq_singleton hslash,
    List.splitOn_cons_eq_if_modifyHead, if_pos (by simp), List.cons_append, List.tail_cons]

theorem readSuffix_of_toList {middle : List Char} (hstar : wildcardStar wildcard = some star)
    (hsuffix : suffix.toList = '/' :: middle ++ '/' :: star.toList) :
    readSuffix suffix =
      (readSteps (middle.splitOn '/')).map fun paths => (paths, wildcard) := by
  obtain ⟨hread, hwildcard, hslash⟩ := readWildcard_wildcardStar hstar
  have hlast : (middle.splitOn '/' ++ [star.toList]).getLastD [] = star.toList := by
    simp
  rw [readSuffix, tail_splitOn_suffix hslash hsuffix]
  simp only [hlast, hread, if_neg hwildcard, List.dropLast_concat]
  rcases readSteps (middle.splitOn '/') with _ | paths
  · rfl
  · rfl

variable [PathDisplay]

theorem toList_explicitSuffix_singleton [LawfulPathDisplay] (path : DerivationPath)
    (star : String) :
    (explicitSuffix [path] star).toList =
      '/' :: (writtenPath path).toList ++ '/' :: star.toList := by
  simp [explicitSuffix, LawfulPathDisplay.derivationPathToString_eq]

theorem map_derivationPathToString [LawfulPathDisplay] (paths : List DerivationPath) :
    paths.map PathDisplay.derivationPathToString = paths.map writtenPath :=
  List.map_congr_left fun path _ => LawfulPathDisplay.derivationPathToString_eq path

theorem toList_explicitSuffix_choices [LawfulPathDisplay] (hpaths : 2 ≤ paths.length) :
    (explicitSuffix paths star).toList =
      '/' :: ('<' :: choices paths ++ ['>']) ++ '/' :: star.toList := by
  rcases paths with _ | ⟨path, _ | ⟨second, rest⟩⟩
  · simp at hpaths
  · simp at hpaths
  · rw [explicitSuffix, map_derivationPathToString]
    · simp [choices]
    · simp

/-- The paths of a written suffix are read back if they are legible. -/
theorem readSuffix_explicitSuffix [LawfulPathDisplay] {read : List DerivationPath × Wildcard}
    (hpaths : paths ≠ []) (hstar : wildcardStar wildcard = some star) :
    readSuffix (explicitSuffix paths star) = some read ↔
      Legible paths ∧ read = (paths, wildcard) := by
  rcases paths with _ | ⟨path, _ | ⟨second, rest⟩⟩
  · exact absurd rfl hpaths
  · rw [readSuffix_of_toList hstar (toList_explicitSuffix_singleton path star),
      Option.map_eq_some_iff]
    simp only [readSteps_writtenPath]
    constructor
    · rintro ⟨_, ⟨hpath, rfl⟩, rfl⟩
      exact ⟨hpath, rfl⟩
    · rintro ⟨hpath, rfl⟩
      exact ⟨_, ⟨hpath, rfl⟩, rfl⟩
  · have hlength : 2 ≤ (path :: second :: rest).length := by simp
    rw [readSuffix_of_toList hstar (toList_explicitSuffix_choices hlength), Option.map_eq_some_iff]
    simp only [readSteps_choices hlength]
    constructor
    · rintro ⟨_, ⟨hone, rfl⟩, rfl⟩
      exact ⟨hone, rfl⟩
    · rintro ⟨hone, rfl⟩
      exact ⟨_, ⟨hone, rfl⟩, rfl⟩

theorem explicitSuffix_ne_shorthand : explicitSuffix paths star ≠ "/**" := by
  intro hsame
  have hshorthand := congrArg String.toList hsame
  rcases paths with _ | ⟨path, _ | ⟨second, rest⟩⟩
  · simp [explicitSuffix] at hshorthand
  · have hslash : '/' ∈ (PathDisplay.derivationPathToString path).toList ++ '/' :: star.toList := by
      simp
    have hstars : (PathDisplay.derivationPathToString path).toList ++ '/' :: star.toList =
        ['*', '*'] := by
      simpa [explicitSuffix] using hshorthand
    rw [hstars] at hslash
    simp at hslash
  · simp [explicitSuffix] at hshorthand

theorem startsWithChar_explicitSuffix :
    startsWithChar (explicitSuffix paths star) '/' = true := by
  rcases paths with _ | ⟨path, _ | ⟨second, rest⟩⟩
  · simp [explicitSuffix, startsWithChar]
  · simp [explicitSuffix, startsWithChar]
  · simp [explicitSuffix, startsWithChar]

end Suffix

namespace PathDisplay.Sample

/-- The display of the bitcoin crate. -/
scoped instance written : PathDisplay := ⟨writtenPath⟩

scoped instance lawful : LawfulPathDisplay := ⟨fun _ => rfl⟩

end PathDisplay.Sample

end Bip138
