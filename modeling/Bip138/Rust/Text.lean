/-
# Text

Strings and their UTF-8 bytes. `asBytes` and `fromUtf8` are inverse: every string
is read back from its bytes, and the bytes that are read at all are the bytes of
the string they are read as (`fromUtf8_eq_some_iff`).
-/

import Mathlib.Data.List.Flatten
import Mathlib.Data.List.Induction
import Mathlib.Data.List.TakeWhile
import Bip138.Rust.Bytes

namespace Bip138.Rust

/-- `String::from_utf8` and `core::str::from_utf8`. -/
def fromUtf8 (bytes : Bytes) : Option String := String.fromUTF8? ⟨bytes.toArray⟩

/-- `str::starts_with` on a character. -/
def startsWithChar (text : String) (char : Char) : Bool := text.toList.head? == some char

/-- The characters `str::trim` removes: the Unicode property `White_Space`. -/
def isWhitespace (char : Char) : Bool :=
  let code := char.toNat
  (0x09 ≤ code && code ≤ 0x0D) || code == 0x20 || code == 0x85 || code == 0xA0 ||
    code == 0x1680 || (0x2000 ≤ code && code ≤ 0x200A) || code == 0x2028 || code == 0x2029 ||
    code == 0x202F || code == 0x205F || code == 0x3000

/-- `str::trim`. -/
def trim (text : String) : String :=
  .ofList ((text.toList.dropWhile isWhitespace).reverse.dropWhile isWhitespace).reverse

/-- `str::strip_prefix` on a character. -/
def stripPrefix (text : String) (char : Char) : Option String :=
  match text.toList with
  | [] => none
  | head :: rest => if head = char then some (.ofList rest) else none

/-- `str::find` on a character, with the text cut in two before the match. -/
def splitAtChar (text : String) (char : Char) : Option (String × String) :=
  if char ∈ text.toList then
    some (.ofList (text.toList.takeWhile (· ≠ char)), .ofList (text.toList.dropWhile (· ≠ char)))
  else none

/-- `str::split` on a character. -/
def splitAll (text : String) (char : Char) : List String :=
  (text.toList.splitOn char).map .ofList

/-- `str::truncate` at the place `str::rfind` finds a character at, if it finds one. -/
def truncateAtLast (text : String) (char : Char) : String :=
  if char ∈ text.toList then .ofList (text.toList.reverse.dropWhile (· ≠ char)).tail.reverse
  else text

/-- The text before a pattern and the text after it, at its first occurrence. -/
def cutAt (pattern : List Char) : List Char → Option (List Char × List Char)
  | [] => if pattern = [] then some ([], []) else none
  | char :: chars =>
      if pattern <+: char :: chars then some ([], (char :: chars).drop pattern.length)
      else (cutAt pattern chars).map fun (before, after) => (char :: before, after)

/-- `str::split_once` on a string. -/
def splitOnce (text pattern : String) : Option (String × String) :=
  (cutAt pattern.toList text.toList).map fun (before, after) => (.ofList before, .ofList after)

/-- A line without the carriage return in front of its line feed. -/
def stripReturn (line : List Char) : List Char :=
  if line.getLast? = some '\r' then line.dropLast else line

/-- `str::lines`. What follows the last line feed is a line unless it is empty. -/
def lines (text : String) : List String :=
  let parts := text.toList.splitOn '\n'
  let last := parts.getLastD []
  (parts.dropLast.map stripReturn ++ if last = [] then [] else [last]).map .ofList

/-- The value of decimal digits, most significant first. -/
def decimalValue (digits : List Char) : ℕ :=
  digits.foldl (fun value digit => 10 * value + (digit.toNat - '0'.toNat)) 0

/-- `str::parse::<u32>`: decimal digits, with an optional leading plus sign. -/
def parseU32 (text : String) : Option UInt32 :=
  let digits := match text.toList with
    | '+' :: rest => rest
    | digits => digits
  if digits ≠ [] ∧ digits.all Char.isDigit ∧ decimalValue digits ≤ u32Max then
    some (.ofNat (decimalValue digits))
  else none

/-- `Display` of a `u32`. -/
def displayU32 (value : UInt32) : String := Nat.repr value.toNat

/-- The bytes that are read as a text are its bytes. -/
theorem fromUtf8_eq_some_iff {bytes : Bytes} {text : String} :
    fromUtf8 bytes = some text ↔ bytes = asBytes text := by
  refine ⟨fun hread => ?_, fun hbytes => ?_⟩
  · rw [fromUtf8, String.fromUTF8?] at hread
    by_cases hvalid : ByteArray.IsValidUTF8 ⟨bytes.toArray⟩
    · rw [dif_pos hvalid, Option.some.injEq] at hread
      rw [← hread]
      rfl
    · rw [dif_neg hvalid] at hread
      cases hread
  · rw [hbytes, fromUtf8, String.fromUTF8?]
    exact dif_pos text.isValidUTF8

@[simp]
theorem fromUtf8_asBytes (text : String) : fromUtf8 (asBytes text) = some text :=
  fromUtf8_eq_some_iff.mpr rfl

theorem asBytes_injective : Function.Injective asBytes := by
  intro first second hequal
  have hread := fromUtf8_asBytes first
  rw [hequal, fromUtf8_asBytes, Option.some.injEq] at hread
  exact hread.symm

@[simp]
theorem asBytes_eq_nil_iff {text : String} : asBytes text = [] ↔ text = "" := by
  have hempty : asBytes "" = [] := by decide
  rw [← hempty]
  exact asBytes_injective.eq_iff

/-- The bytes of a text are those of its characters. -/
theorem asBytes_eq_flatMap (text : String) :
    asBytes text = text.toList.flatMap String.utf8EncodeChar := by
  conv_lhs => rw [← String.ofList_toList (s := text)]
  exact List.toList_data_toByteArray

theorem mem_asBytes {text : String} {byte : UInt8} :
    byte ∈ asBytes text ↔ ∃ char ∈ text.toList, byte ∈ String.utf8EncodeChar char := by
  rw [asBytes_eq_flatMap, List.mem_flatMap]

theorem trim_sublist (text : String) : (trim text).toList.Sublist text.toList := by
  rw [trim, String.toList_ofList, ← List.reverse_sublist, List.reverse_reverse]
  exact (List.dropWhile_sublist _).trans (List.dropWhile_sublist _).reverse

/-- Trimming makes no text longer. -/
theorem length_asBytes_trim_le (text : String) :
    (asBytes (trim text)).length ≤ (asBytes text).length := by
  rw [asBytes_eq_flatMap, asBytes_eq_flatMap]
  exact ((trim_sublist text).flatMap _).length_le

theorem mem_dropWhile {char : Char} {chars : List Char} (hchar : char ∈ chars)
    (hvisible : isWhitespace char = false) : char ∈ chars.dropWhile isWhitespace := by
  rw [← List.takeWhile_append_dropWhile (p := isWhitespace) (l := chars), List.mem_append] at hchar
  rcases hchar with hblank | hkept
  · rw [List.mem_takeWhile_imp hblank] at hvisible
    cases hvisible
  · exact hkept

/-- Trimming keeps every character that is not white space. -/
theorem mem_trim {text : String} {char : Char} (hchar : char ∈ text.toList)
    (hvisible : isWhitespace char = false) : char ∈ (trim text).toList := by
  rw [trim, String.toList_ofList, List.mem_reverse]
  apply mem_dropWhile _ hvisible
  rw [List.mem_reverse]
  exact mem_dropWhile hchar hvisible

private theorem dropWhile_append_visible {body rest : List Char} (hne : body ≠ [])
    (hbody : ∀ char ∈ body, isWhitespace char = false) :
    (body ++ rest).dropWhile isWhitespace = body ++ rest := by
  obtain ⟨head, tail, rfl⟩ := List.exists_cons_of_ne_nil hne
  have hhead := hbody head List.mem_cons_self
  rw [List.cons_append, List.dropWhile_cons_of_neg (by simp [hhead])]

/-- White space around a text that has none is what trimming takes away. -/
theorem trim_surrounded {before body after : List Char} (hne : body ≠ [])
    (hbefore : ∀ char ∈ before, isWhitespace char = true)
    (hbody : ∀ char ∈ body, isWhitespace char = false)
    (hafter : ∀ char ∈ after, isWhitespace char = true) :
    trim (.ofList (before ++ body ++ after)) = .ofList body := by
  have hfront : (before ++ body ++ after).dropWhile isWhitespace = body ++ after := by
    rw [List.append_assoc, List.dropWhile_append_of_pos hbefore, dropWhile_append_visible hne hbody]
  have hback : (after.reverse ++ body.reverse).dropWhile isWhitespace = body.reverse := by
    rw [List.dropWhile_append_of_pos fun char hchar => hafter char (List.mem_reverse.mp hchar)]
    have hkept : (body.reverse ++ []).dropWhile isWhitespace = body.reverse ++ [] :=
      dropWhile_append_visible (List.reverse_ne_nil_iff.mpr hne) fun char hchar =>
        hbody char (List.mem_reverse.mp hchar)
    rwa [List.append_nil] at hkept
  rw [trim, String.toList_ofList, hfront, List.reverse_append, hback, List.reverse_reverse]

/-- A character of a text is told by its first byte when it is an ASCII one. -/
theorem head?_asBytes_ofList {char : Char} (hascii : char.toNat < 0x80) (chars : List Char) :
    (asBytes (.ofList (char :: chars))).head? = some (UInt8.ofNat char.toNat) := by
  have hone : char.utf8Size = 1 := Char.utf8Size_eq_one_iff.mpr (by
    rw [UInt32.le_iff_toNat_le]
    exact Nat.le_of_lt_succ hascii)
  rw [asBytes_eq_flatMap, String.toList_ofList, List.flatMap_cons,
    String.utf8EncodeChar_eq_singleton hone]
  rfl

/-- The code points of white space. -/
def whitespaceCodes : List ℕ :=
  [0x09, 0x0A, 0x0B, 0x0C, 0x0D, 0x20, 0x85, 0xA0, 0x1680, 0x2000, 0x2001, 0x2002, 0x2003, 0x2004,
    0x2005, 0x2006, 0x2007, 0x2008, 0x2009, 0x200A, 0x2028, 0x2029, 0x202F, 0x205F, 0x3000]

theorem toNat_mem_whitespaceCodes {char : Char} (hblank : isWhitespace char = true) :
    char.toNat ∈ whitespaceCodes := by
  simp only [isWhitespace, Bool.or_eq_true, Bool.and_eq_true, decide_eq_true_eq, beq_iff_eq] at hblank
  simp only [whitespaceCodes, List.mem_cons, List.not_mem_nil, or_false]
  omega

/-- Trimming keeps a byte that white space is never written with. -/
theorem mem_asBytes_trim {text : String} {byte : UInt8} (hbyte : byte ∈ asBytes text)
    (hvisible : ∀ code ∈ whitespaceCodes, byte ∉ String.utf8EncodeChar (.ofNat code)) :
    byte ∈ asBytes (trim text) := by
  obtain ⟨char, hchar, hencoded⟩ := mem_asBytes.mp hbyte
  refine mem_asBytes.mpr ⟨char, mem_trim hchar ?_, hencoded⟩
  rw [Bool.eq_false_iff]
  intro hblank
  apply hvisible char.toNat (toNat_mem_whitespaceCodes hblank)
  rwa [Char.ofNat_toNat]

theorem toList_displayU32 (value : UInt32) :
    (displayU32 value).toList = Nat.toDigits 10 value.toNat := Nat.toList_repr

theorem displayU32_ne_nil (value : UInt32) : (displayU32 value).toList ≠ [] := by
  rw [toList_displayU32]
  exact Nat.toDigits_ne_nil

theorem isDigit_of_mem_displayU32 {value : UInt32} {char : Char}
    (hchar : char ∈ (displayU32 value).toList) : char.isDigit = true := by
  rw [toList_displayU32] at hchar
  exact Nat.isDigit_of_mem_toDigits (by decide) (by decide) hchar

theorem decimalValue_toDigits (value : ℕ) : decimalValue (Nat.toDigits 10 value) = value :=
  Nat.ofDigitChars_ten_toDigits

/-- A number is read back. -/
@[simp]
theorem parseU32_displayU32 (value : UInt32) : parseU32 (displayU32 value) = some value := by
  have hplus : ∀ rest, (displayU32 value).toList ≠ '+' :: rest := by
    intro rest hdigits
    have hdigit : '+'.isDigit = true :=
      @isDigit_of_mem_displayU32 value _ (hdigits ▸ List.mem_cons_self)
    cases hdigit
  have hall : ((displayU32 value).toList).all Char.isDigit = true :=
    List.all_eq_true.mpr fun _ => isDigit_of_mem_displayU32
  have hvalue : decimalValue (displayU32 value).toList = value.toNat := by
    rw [toList_displayU32, decimalValue_toDigits]
  rw [parseU32]
  split
  · next rest hdigits => exact absurd hdigits (hplus rest)
  · have hbound : value.toNat ≤ u32Max := by
      have := value.toNat_lt
      rw [u32Max]
      omega
    rw [if_pos ⟨displayU32_ne_nil value, hall, hvalue ▸ hbound⟩, hvalue, UInt32.ofNat_toNat]

/-- What is read as a number has digits and at most one other character, a plus sign. -/
theorem isDigit_or_plus_of_parseU32 {text : String} {value : UInt32}
    (hparse : parseU32 text = some value) :
    text.toList ≠ [] ∧ ∀ char ∈ text.toList, char.isDigit = true ∨ char = '+' := by
  rw [parseU32] at hparse
  split at hparse
  · next rest hplus =>
      rw [hplus]
      refine ⟨List.cons_ne_nil _ _, fun char hchar => ?_⟩
      obtain ⟨⟨-, hall, -⟩, -⟩ := Option.ite_none_right_eq_some.mp hparse
      rcases List.mem_cons.mp hchar with rfl | hrest
      · exact .inr rfl
      · exact .inl (List.all_eq_true.mp hall char hrest)
  · obtain ⟨⟨hdigits, hall, -⟩, -⟩ := Option.ite_none_right_eq_some.mp hparse
    exact ⟨hdigits, fun char hchar => .inl (List.all_eq_true.mp hall char hchar)⟩

/-- No sign, and no zero in front of other digits. -/
def plainNumber (digits : List Char) : Bool :=
  digits.head? != some '+' && (digits.head? != some '0' || digits.length == 1)

theorem head?_toDigits_ne {value : ℕ} (hpos : 0 < value) :
    (Nat.toDigits 10 value).head? ≠ some '0' := by
  induction value using Nat.strongRecOn with
  | ind value ih =>
      by_cases hsmall : value < 10
      · rw [Nat.toDigits_of_lt_base hsmall, List.head?_cons, ne_eq, Option.some.injEq,
          Nat.digitChar_eq_zero]
        omega
      · rw [Nat.toDigits_of_base_le (by decide) (by omega),
          List.head?_append_of_ne_nil _ Nat.toDigits_ne_nil]
        exact ih (value / 10) (by omega) (by omega)

/-- Digits that do not begin with zero are the digits of their value. -/
theorem toDigits_decimalValue {digits : List Char} (hne : digits ≠ [])
    (hdigits : ∀ char ∈ digits, char.isDigit = true) (hzero : digits.head? ≠ some '0') :
    Nat.toDigits 10 (decimalValue digits) = digits := by
  induction digits using List.reverseRecOn with
  | nil => exact absurd rfl hne
  | append_singleton digits last ih =>
      have hlast : ∃ value < 10, last = Nat.digitChar value ∧ last.toNat - '0'.toNat = value := by
        have hdigit := hdigits last (by simp)
        rw [Char.isDigit, Bool.and_eq_true, decide_eq_true_eq, decide_eq_true_eq] at hdigit
        have hlow : 48 ≤ last.toNat := hdigit.1
        have hhigh : last.toNat ≤ 57 := hdigit.2
        refine ⟨last.toNat - 48, by omega, ?_, rfl⟩
        apply Char.toNat_inj.mp
        rw [Nat.toNat_digitChar_of_lt_ten (by omega)]
        omega
      obtain ⟨value, hvalue, rfl, hvalueEq⟩ := hlast
      have hsum : decimalValue (digits ++ [value.digitChar]) = 10 * decimalValue digits + value := by
        rw [decimalValue, List.foldl_append, List.foldl_cons, List.foldl_nil, hvalueEq]
        rfl
      rw [hsum]
      rcases List.eq_nil_or_concat digits with hnil | ⟨front, char, hfront⟩
      · subst hnil
        rw [decimalValue, List.foldl_nil, Nat.mul_zero, Nat.zero_add,
          Nat.toDigits_of_lt_base hvalue, List.nil_append]
      · have hdigitsNe : digits ≠ [] := by
          rw [hfront]
          simp
        rw [List.head?_append_of_ne_nil _ hdigitsNe] at hzero
        have hread := ih hdigitsNe (fun char hchar => hdigits char (List.mem_append_left _ hchar)) hzero
        have hpos : 0 < decimalValue digits := by
          rw [Nat.pos_iff_ne_zero]
          intro hvalueZero
          rw [hvalueZero] at hread
          rw [← hread] at hzero
          exact hzero rfl
        rw [← Nat.toDigits_append_toDigits (by decide) hpos hvalue, hread,
          Nat.toDigits_of_lt_base hvalue]

/-- A number that is read was displayed exactly when it is plain. -/
theorem plainNumber_iff {text : String} {value : UInt32} (hparse : parseU32 text = some value) :
    plainNumber text.toList = true ↔ text.toList = (displayU32 value).toList := by
  rw [toList_displayU32, plainNumber, Bool.and_eq_true, bne_iff_ne, Bool.or_eq_true, bne_iff_ne,
    beq_iff_eq]
  constructor
  · rintro ⟨hplus, hzero⟩
    rw [parseU32] at hparse
    split at hparse
    · next rest hrest =>
        rw [hrest] at hplus
        exact absurd rfl hplus
    · obtain ⟨⟨hne, hall, hbound⟩, hvalue⟩ := Option.ite_none_right_eq_some.mp hparse
      have hdigits : ∀ char ∈ text.toList, char.isDigit = true := List.all_eq_true.mp hall
      have hsame : value.toNat = decimalValue text.toList := by
        rw [← Option.some.inj hvalue, UInt32.toNat_ofNat', Nat.mod_eq_of_lt]
        rw [u32Max] at hbound
        omega
      rw [hsame]
      by_cases hhead : text.toList.head? = some '0'
      · have hone : text.toList.length = 1 := hzero.resolve_left (not_not.mpr hhead)
        obtain ⟨char, hchar⟩ := List.length_eq_one_iff.mp hone
        rw [hchar, List.head?_cons, Option.some.injEq] at hhead
        rw [hchar, hhead]
        rfl
      · exact (toDigits_decimalValue hne hdigits hhead).symm
  · intro htext
    rw [htext]
    constructor
    · intro hplus
      have hdigit := Nat.isDigit_of_mem_toDigits (b := 10) (by decide) (by decide)
        (List.mem_of_head? hplus)
      cases hdigit
    · rcases Nat.eq_zero_or_pos value.toNat with hzero | hpos
      · rw [hzero]
        exact .inr rfl
      · exact .inl (head?_toDigits_ne hpos)

section Match

variable {char : Char} {before : List Char}

theorem takeWhile_ne_of_not_mem (hbefore : char ∉ before) (after : List Char) :
    (before ++ char :: after).takeWhile (· ≠ char) = before := by
  have hall : ∀ other ∈ before, decide (other ≠ char) = true := fun other hother =>
    decide_eq_true fun hsame => hbefore (hsame ▸ hother)
  rw [List.takeWhile_append_of_pos hall, List.takeWhile_cons_of_neg (by simp), List.append_nil]

theorem dropWhile_ne_of_not_mem (hbefore : char ∉ before) (after : List Char) :
    (before ++ char :: after).dropWhile (· ≠ char) = char :: after := by
  have hall : ∀ other ∈ before, decide (other ≠ char) = true := fun other hother =>
    decide_eq_true fun hsame => hbefore (hsame ▸ hother)
  rw [List.dropWhile_append_of_pos hall, List.dropWhile_cons_of_neg (by simp)]

/-- A text is cut at the first match. -/
theorem splitAtChar_eq_some_iff {text front back : String} :
    splitAtChar text char = some (front, back) ↔ char ∉ front.toList ∧
      ∃ after, text.toList = front.toList ++ char :: after ∧ back = .ofList (char :: after) := by
  rw [splitAtChar, Option.ite_none_right_eq_some, Option.some.injEq, Prod.mk.injEq]
  constructor
  · rintro ⟨hmem, rfl, rfl⟩
    obtain ⟨before, after, htext, hbefore⟩ := List.eq_append_cons_of_mem hmem
    rw [htext, takeWhile_ne_of_not_mem hbefore, dropWhile_ne_of_not_mem hbefore,
      String.toList_ofList]
    exact ⟨hbefore, after, rfl, rfl⟩
  · rintro ⟨hfront, after, htext, rfl⟩
    rw [htext, takeWhile_ne_of_not_mem hfront, dropWhile_ne_of_not_mem hfront,
      String.ofList_toList]
    exact ⟨by simp, rfl, rfl⟩

/-- What stands in front of the last match is what is left. -/
theorem truncateAtLast_append {before after : String} (hafter : char ∉ after.toList) :
    truncateAtLast (before ++ .singleton char ++ after) char = before := by
  have htext : (before ++ .singleton char ++ after).toList =
      before.toList ++ char :: after.toList := by
    simp
  rw [← List.mem_reverse] at hafter
  rw [truncateAtLast, htext, if_pos (by simp), List.reverse_append, List.reverse_cons,
    List.append_assoc, List.singleton_append, dropWhile_ne_of_not_mem hafter, List.tail_cons,
    List.reverse_reverse, String.ofList_toList]

end Match

/-- What is in a joined list: what its parts have, and between two parts the separator. -/
theorem mem_intercalate {α : Type} {item sep : α} {parts : List (List α)} :
    item ∈ [sep].intercalate parts ↔
      (∃ part ∈ parts, item ∈ part) ∨ (item = sep ∧ 2 ≤ parts.length) := by
  induction parts with
  | nil => simp
  | cons part parts ih =>
      rcases parts with _ | ⟨next, rest⟩
      · simp
      · rw [List.intercalate_cons_cons, List.mem_append, List.mem_append, ih,
          List.mem_singleton]
        have hlong : 2 ≤ (part :: next :: rest).length := by simp
        simp only [List.exists_mem_cons_iff, hlong, and_true]
        grind

theorem map_intercalate {α β : Type} (f : α → β) (sep : α) (parts : List (List α)) :
    ([sep].intercalate parts).map f = [f sep].intercalate (parts.map (List.map f)) := by
  induction parts with
  | nil => rfl
  | cons part parts ih =>
      rcases parts with _ | ⟨next, rest⟩
      · simp
      · rw [List.map_cons] at ih
        rw [List.intercalate_cons_cons, List.map_append, List.map_append, List.map_singleton, ih,
          List.map_cons, List.map_cons, List.intercalate_cons_cons]

/-- A text that starts with the separator is its parts, each behind a separator. -/
theorem flatMap_tail_splitOn {α : Type} [BEq α] [LawfulBEq α] {sep : α} (rest : List α) :
    ((sep :: rest).splitOn sep).tail.flatMap (fun part => sep :: part) = sep :: rest := by
  have hsplit : (sep :: rest).splitOn sep = [] :: rest.splitOn sep := by
    rw [List.splitOn_cons_eq_if_modifyHead, if_pos (by simp)]
  have hjoin : ∀ parts : List (List α), parts ≠ [] →
      parts.flatMap (fun part => sep :: part) = sep :: [sep].intercalate parts := by
    intro parts
    induction parts with
    | nil => exact fun hne => absurd rfl hne
    | cons part parts ih =>
        intro _
        rcases parts with _ | ⟨next, parts⟩
        · simp
        · rw [List.flatMap_cons, ih (List.cons_ne_nil _ _), List.intercalate_cons_cons]
          simp
  rw [hsplit, List.tail_cons, hjoin _ (List.splitOn_ne_nil _ _), List.intercalate_splitOn]

/-- Parts without the separator are told by the text they are joined to. -/
theorem splitOn_flatMap_cons {α : Type} [BEq α] [LawfulBEq α] {sep : α} {front : List α}
    {parts : List (List α)} (hfront : sep ∉ front) (hparts : ∀ part ∈ parts, sep ∉ part) :
    (front ++ parts.flatMap fun part => sep :: part).splitOn sep = front :: parts := by
  induction parts generalizing front with
  | nil => rw [List.flatMap_nil, List.append_nil, List.splitOn_eq_singleton hfront]
  | cons part parts ih =>
      obtain ⟨hpart, hrest⟩ := List.forall_mem_cons.mp hparts
      rw [List.flatMap_cons, List.cons_append, List.splitOn_append_cons_self_of_not_mem hfront,
        ih hpart hrest]

/-- The text is empty or ends with a line feed. -/
def WholeLines (text : String) : Prop := text = "" ∨ ∃ body : String, text = body ++ "\n"

theorem lines_append_newline (body : String) :
    lines (body ++ "\n") = ((body.toList.splitOn '\n').map stripReturn).map .ofList := by
  have hparts : (body ++ "\n").toList.splitOn '\n' = body.toList.splitOn '\n' ++ [[]] := by
    rw [String.toList_append]
    exact List.splitOn_append_cons_self body.toList []
  rw [lines, hparts]
  simp

/-- Whole lines come before those of what is appended. -/
theorem lines_append {before : String} (hbefore : WholeLines before) (after : String) :
    lines (before ++ after) = lines before ++ lines after := by
  rcases hbefore with rfl | ⟨body, rfl⟩
  · rw [String.empty_append]
    rfl
  · have hparts : (body ++ "\n" ++ after).toList.splitOn '\n' =
        body.toList.splitOn '\n' ++ after.toList.splitOn '\n' := by
      rw [String.toList_append, String.toList_append, List.append_assoc]
      exact List.splitOn_append_cons_self body.toList after.toList
    have hne : after.toList.splitOn '\n' ≠ [] := List.splitOn_ne_nil _ _
    have hlast : (body.toList.splitOn '\n' ++ after.toList.splitOn '\n').getLastD [] =
        (after.toList.splitOn '\n').getLastD [] := by
      rw [List.getLastD_eq_getLast?, List.getLastD_eq_getLast?, List.getLast?_append_of_ne_nil _ hne]
    rw [lines_append_newline, lines, lines, hparts, hlast, List.dropLast_append_of_ne_nil hne]
    simp only [List.map_append, List.append_assoc]

/-- A line that has no line feed and no carriage return at its end is a line. -/
theorem lines_line {line : String} (hline : '\n' ∉ line.toList)
    (hreturn : line.toList.getLast? ≠ some '\r') : lines (line ++ "\n") = [line] := by
  rw [lines_append_newline, List.splitOn_eq_singleton hline, List.map_singleton, List.map_singleton,
    stripReturn, if_neg hreturn, String.ofList_toList]

/-- Nothing is taken from a text without white space. -/
theorem trim_eq_self {text : String}
    (htext : ∀ char ∈ text.toList, isWhitespace char = false) : trim text = text := by
  by_cases hempty : text = ""
  · rw [hempty]
    rfl
  · have hne : text.toList ≠ [] := fun hnil => hempty (String.toList_eq_nil_iff.mp hnil)
    have htrim := @trim_surrounded [] text.toList [] hne (by simp) htext (by simp)
    rwa [List.nil_append, List.append_nil, String.ofList_toList] at htrim

theorem cutAt_eq_none {pattern chars : List Char} {char : Char} (hpattern : char ∈ pattern)
    (hchars : char ∉ chars) : cutAt pattern chars = none := by
  induction chars with
  | nil => exact if_neg (List.ne_nil_of_mem hpattern)
  | cons first chars ih =>
      have hstarts : ¬ pattern <+: first :: chars := fun hstarts =>
        hchars (hstarts.subset hpattern)
      rw [cutAt, if_neg hstarts, ih fun hrest => hchars (List.mem_cons_of_mem first hrest)]
      rfl

/-- A text without a character of the pattern is not split. -/
theorem splitOnce_eq_none {text pattern : String} {char : Char} (hpattern : char ∈ pattern.toList)
    (htext : char ∉ text.toList) : splitOnce text pattern = none := by
  rw [splitOnce, cutAt_eq_none hpattern htext]
  rfl

theorem splitAll_eq_singleton {text : String} {char : Char} (htext : char ∉ text.toList) :
    splitAll text char = [text] := by
  rw [splitAll, List.splitOn_eq_singleton htext, List.map_singleton, String.ofList_toList]

end Bip138.Rust
