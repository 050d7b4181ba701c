/-
# Content fields

The content type of a payload item, its encoding, and the parser of the content
field. `ContentField` is the format of the field as the core documents it: a BIP
number in two bytes, or a type byte below `0x80` followed by a CompactSize length
and that many bytes of data. `parseContent` reads exactly that format
(`parseContent_eq_ok_iff`) and never panics (`returns_parseContent`).
-/

import Bip138.Ll.Offset
import Bip138.Ll.Varint

namespace Bip138.Ll

open Bip138.Rust Bip138.Wire

/-- What the plaintext of an item is. -/
inductive Content
  | none
  | bip138
  | bip139
  | bip380
  | bip388
  | bip329
  | bip (number : UInt16)
  | proprietary (tag : Bytes)
  | string
  | unknown
  deriving DecidableEq, Repr

def contentEnd : UInt8 := 0x00
def contentBip : UInt8 := 0x01
def contentProprietary : UInt8 := 0x02
def contentString : UInt8 := 0x03
def contentUpgrade : UInt8 := 0x80

namespace Content

/-- The variant a BIP number is parsed into: the named one where there is one. -/
def ofBip (number : UInt16) : Content :=
  if number = 138 then .bip138
  else if number = 139 then .bip139
  else if number = 380 then .bip380
  else if number = 388 then .bip388
  else if number = 329 then .bip329
  else .bip number

/-- `Content` as the decoder reports it: a numbered BIP with a named variant
becomes that variant. -/
def normalize : Content → Content
  | .bip number => ofBip number
  | content => content

/-- `TryFrom<Content> for Vec<u8>`: `TYPE`, then `LENGTH`, then `DATA`. -/
def toBytes (value : Content) : Option Bytes := do
  let out ← match value with
    | .unknown | .none => Option.none
    | .bip139 | .bip138 | .bip380 | .bip388 | .bip329 | .bip _ => some [contentBip]
    | .proprietary _ => some [contentProprietary]
    | .string => some [contentString]
  let len := match value with
    | .proprietary tag => Varint.encode (UInt64.ofNat tag.length)
    | .string => Varint.encode 0
    | _ => []
  let data := match value with
    | .none | .unknown => []
    | .bip138 => toBeBytes 2 138
    | .bip139 => toBeBytes 2 139
    | .bip380 => toBeBytes 2 380
    | .bip388 => toBeBytes 2 388
    | .bip329 => toBeBytes 2 329
    | .bip number => toBeBytes 2 number.toNat
    | .proprietary tag => tag
    | .string => []
  some (out ++ len ++ data)

def isKnown : Content → Bool
  | .none | .unknown | .proprietary _ => false
  | .bip138 | .bip139 | .bip380 | .bip388 | .bip329 | .bip _ | .string => true

end Content

section Parser

variable [Target]

/-- The `LENGTH` and `DATA` of a content field whose type byte comes first:
the offset after the data, and the data. -/
def parseContentData (bytes : Bytes) : Exec Error (ℕ × Bytes) := do
  let tail ← sliceFrom bytes 1
  let (dataLen, offset) ← .okOr (Varint.parse tail) .contentMetadata
  let dataLen ← .okOr (usizeTryFrom dataLen.toNat) .contentMetadata
  let start ← add 1 offset
  checkOffsetLookahead start bytes dataLen
  let stop ← add start dataLen
  if bytes.length < stop then .fail .contentMetadata
  else do
    let dataStart ← add offset 1
    let data ← slice bytes dataStart stop
    .ok (stop, data)

def parseContent (bytes : Bytes) : Exec Error (ℕ × Content) := do
  let _ ← initOffset bytes 0
  let type ← index bytes 0
  if type = contentEnd then .fail .contentEnd
  else if type = contentBip then do
    .mapErr (fun _ => .contentMetadata) (checkOffsetLookahead 0 bytes 3)
    let raw ← slice bytes 1 3
    let bipBytes ← Block.expect 2 raw
    let bip := UInt16.ofNat (fromBeBytes bipBytes.1)
    .ok (3, .ofBip bip)
  else if type < contentUpgrade then do
    let (stop, data) ← parseContentData bytes
    if type = contentProprietary then .ok (stop, .proprietary data)
    else if type = contentString then
      if data ≠ [] then .fail .contentMetadata else .ok (stop, .string)
    -- an unknown type below the upgrade range is skipped by its length
    else .ok (stop, .unknown)
  -- a type in the upgrade range refuses the whole payload
  else .fail .contentMetadata

end Parser

/-- The spellings of a content field. An unknown content type has many: its type
byte and its data are not part of what the parser reports. -/
inductive ContentField : Format UInt8 Content
  | bip (number : UInt16) :
      ContentField (.ofBip number) (contentBip :: toBeBytes 2 number.toNat)
  | proprietary {tag word : Bytes} (hword : SizedData tag word) :
      ContentField (.proprietary tag) (contentProprietary :: word)
  | string : ContentField .string [contentString, 0x00]
  | unknown {type : UInt8} {data word : Bytes} (hmin : 0x04 ≤ type) (hmax : type < 0x80)
      (hword : SizedData data word) : ContentField .unknown (type :: word)

theorem ContentField.length_pos {content : Content} {word : Bytes}
    (hword : ContentField content word) : 0 < word.length := by
  cases hword <;> simp

/-- A field says what its content is. -/
theorem ContentField.ne_none {content : Content} {word : Bytes}
    (hword : ContentField content word) : content ≠ .none := by
  cases hword with
  | bip number =>
      unfold Content.ofBip
      repeat' split
      all_goals exact Content.noConfusion
  | proprietary | string | unknown => exact Content.noConfusion

/-- No field starts with the end marker or with a type in the upgrade range. -/
theorem ContentField.head_bounds {content : Content} {word : Bytes} {type : UInt8}
    {rest : Bytes} (hword : ContentField content word) (hhead : word = type :: rest) :
    contentEnd < type ∧ type < contentUpgrade := by
  cases hword with
  | unknown hmin hmax hsized =>
      obtain ⟨rfl, -⟩ := List.cons.inj hhead
      exact ⟨lt_of_lt_of_le (by decide) hmin, hmax⟩
  | _ =>
      obtain ⟨rfl, -⟩ := List.cons.inj hhead
      exact ⟨by decide, by decide⟩

/-- A field that starts with the BIP type is its type byte and the BIP number. -/
theorem contentField_bip_iff {content : Content} {word : Bytes} :
    ContentField content (contentBip :: word) ↔
      ∃ number : UInt16, content = .ofBip number ∧ word = toBeBytes 2 number.toNat := by
  constructor
  · intro hword
    generalize hhead : contentBip = type at hword
    cases hword with
    | bip number => exact ⟨number, rfl, rfl⟩
    | unknown hmin hmax hsized =>
        subst hhead
        exact absurd hmin (by decide)
    | _ => exact absurd hhead (by decide)
  · rintro ⟨number, rfl, rfl⟩
    exact .bip number

/-- A field that starts with the proprietary type carries its tag. -/
theorem contentField_proprietary_iff {content : Content} {word : Bytes} :
    ContentField content (contentProprietary :: word) ↔
      ∃ tag, content = .proprietary tag ∧ SizedData tag word := by
  constructor
  · intro hword
    generalize hhead : contentProprietary = type at hword
    cases hword with
    | proprietary hsized => exact ⟨_, rfl, hsized⟩
    | unknown hmin hmax hsized =>
        subst hhead
        exact absurd hmin (by decide)
    | _ => exact absurd hhead (by decide)
  · rintro ⟨tag, rfl, hsized⟩
    exact .proprietary hsized

/-- A field that starts with the string type has an empty data part. -/
theorem contentField_string_iff {content : Content} {word : Bytes} :
    ContentField content (contentString :: word) ↔ content = .string ∧ SizedData [] word := by
  have hempty : CompactSize 0 [0x00] := .byte (by decide)
  constructor
  · intro hword
    generalize hhead : contentString = type at hword
    cases hword with
    | string => exact ⟨rfl, [0x00], hempty, rfl⟩
    | unknown hmin hmax hsized =>
        subst hhead
        exact absurd hmin (by decide)
    | _ => exact absurd hhead (by decide)
  · rintro ⟨rfl, size, hsize, rfl⟩
    obtain rfl : size = [0x00] := CompactSize.functional hsize hempty
    exact .string

/-- A field of an unknown type below the upgrade range carries any sized data. -/
theorem contentField_unknown_iff {content : Content} {type : UInt8} {word : Bytes}
    (hmin : 0x04 ≤ type) (hmax : type < contentUpgrade) :
    ContentField content (type :: word) ↔ content = .unknown ∧ ∃ data, SizedData data word := by
  constructor
  · intro hword
    cases hword with
    | unknown _ _ hsized => exact ⟨rfl, _, hsized⟩
    | _ => exact absurd hmin (by decide)
  · rintro ⟨rfl, data, hsized⟩
    exact .unknown hmin hmax hsized

/-- Reading a content field is reading its type byte and what that type calls for. -/
theorem reads_contentField_cons_iff {content : Content} {type : UInt8} {tail : Bytes}
    {stop : ℕ} :
    Reads ContentField (type :: tail) 0 stop content ↔
      ∃ word rest, ContentField content (type :: word) ∧ tail = word ++ rest ∧
        stop = 1 + word.length := by
  rw [reads_zero_iff]
  constructor
  · rintro ⟨word, rest, hword, hbytes, rfl⟩
    obtain ⟨head, word, rfl⟩ := List.exists_cons_of_length_pos hword.length_pos
    obtain ⟨rfl, rfl⟩ := List.cons.inj hbytes
    exact ⟨word, rest, hword, rfl, by rw [List.length_cons, Nat.add_comm]⟩
  · rintro ⟨word, rest, hword, rfl, rfl⟩
    exact ⟨type :: word, rest, hword, rfl, by rw [List.length_cons, Nat.add_comm]⟩

section Spec

variable [Target] {bytes : Bytes} {stop : ℕ}

/-- The length and data of a field are read as the format says. -/
theorem parseContentData_cons_eq_ok_iff {type : UInt8} {tail data : Bytes}
    (hfits : (type :: tail).length ≤ isizeMax) :
    parseContentData (type :: tail) = .ok (stop, data) ↔
      ∃ rest word, SizedData data word ∧ tail = word ++ rest ∧ stop = 1 + word.length := by
  have husize := two_mul_isizeMax_lt_usizeMax
  have hwidth := usizeMax_lt_two_pow_64
  simp only [parseContentData, Exec.bind_eq_ok_iff, sliceFrom_eq_ok_iff, Prod.exists,
    Exec.okOr_eq_ok_iff, usizeTryFrom_eq_some_iff, add_eq_ok_iff,
    checkOffsetLookahead_eq_ok_iff, List.drop_one, List.tail_cons]
  constructor
  · rintro ⟨_, ⟨-, rfl⟩, dataLen, offset, hparse, _, ⟨-, rfl⟩, start, ⟨-, rfl⟩, -,
      ⟨-, -, hlook⟩, last, ⟨-, rfl⟩, hrest⟩
    rw [if_neg (by omega)] at hrest
    simp only [Exec.bind_eq_ok_iff, add_eq_ok_iff, slice_eq_ok_iff, Except.ok.injEq,
      Prod.mk.injEq] at hrest
    obtain ⟨_, ⟨-, rfl⟩, _, ⟨-, -, rfl⟩, rfl, rfl⟩ := hrest
    rw [Varint.parse_eq_some_iff, reads_zero_iff] at hparse
    obtain ⟨size, rest, hsize, rfl, rfl⟩ := hparse
    simp only [List.length_cons, List.length_append] at hlook
    have hdata : ((type :: (size ++ rest)).drop (size.length + 1)).take
        (1 + size.length + dataLen.toNat - (size.length + 1)) = rest.take dataLen.toNat := by
      rw [List.drop_succ_cons, List.drop_left]
      congr 1
      omega
    have hlength : (rest.take dataLen.toNat).length = dataLen.toNat := by
      rw [List.length_take]
      omega
    rw [hdata]
    refine ⟨rest.drop dataLen.toNat, size ++ rest.take dataLen.toNat, ⟨size, ?_, rfl⟩, ?_, ?_⟩
    · rwa [hlength]
    · rw [List.append_assoc, List.take_append_drop]
    · rw [List.length_append, hlength]
      omega
  · rintro ⟨rest, word, ⟨size, hsize, rfl⟩, rfl, rfl⟩
    have hsizeLength := hsize.length_le
    simp only [List.length_cons, List.length_append] at hfits ⊢
    have hvalue : (UInt64.ofNat data.length).toNat = data.length := by
      rw [UInt64.toNat_ofNat', Nat.mod_eq_of_lt (by omega)]
    refine ⟨_, ⟨by omega, rfl⟩, UInt64.ofNat data.length, size.length, ?_, data.length,
      ⟨by omega, hvalue.symm⟩, 1 + size.length, ⟨by omega, rfl⟩, (), ⟨by omega, by omega,
      by omega⟩, 1 + size.length + data.length, ⟨by omega, rfl⟩, ?_⟩
    · rw [Varint.parse_eq_some_iff, reads_zero_iff, hvalue]
      exact ⟨size, data ++ rest, hsize, by rw [List.append_assoc], rfl⟩
    · rw [if_neg (by omega)]
      simp only [Exec.bind_eq_ok_iff, add_eq_ok_iff, slice_eq_ok_iff, Except.ok.injEq,
        Prod.mk.injEq]
      refine ⟨_, ⟨by omega, rfl⟩, data, ⟨by omega, by simp; omega, ?_⟩, by omega, rfl⟩
      rw [List.drop_succ_cons, List.append_assoc, List.drop_left, List.take_left']
      omega

/-- Reading the length and data of a field never panics. -/
theorem returns_parseContentData (hpos : bytes ≠ []) (hfits : bytes.length ≤ isizeMax) :
    (parseContentData bytes).Returns := by
  have husize := two_mul_isizeMax_lt_usizeMax
  obtain ⟨type, tail, rfl⟩ := List.exists_cons_of_ne_nil hpos
  refine (returns_sliceFrom (by simp)).bind fun rest hrest => ?_
  rw [sliceFrom_eq_ok_iff] at hrest
  obtain ⟨-, rfl⟩ := hrest
  refine (Exec.returns_okOr _ _).bind fun parsed hparse => ?_
  rw [Exec.okOr_eq_ok_iff, Varint.parse_eq_some_iff] at hparse
  obtain ⟨dataLen, offset⟩ := parsed
  have hoffset : offset ≤ rest.length := by simpa using hparse.stop_le
  simp only [List.length_cons] at hfits
  refine (Exec.returns_okOr _ _).bind fun dataLen _ => ?_
  refine (returns_add (by omega)).bind fun start hstart => ?_
  rw [add_eq_ok_iff] at hstart
  refine returns_checkOffsetLookahead.bind fun _ hlook => ?_
  rw [checkOffsetLookahead_eq_ok_iff, List.length_cons] at hlook
  refine (returns_add (by omega)).bind fun last hlast => ?_
  rw [add_eq_ok_iff] at hlast
  split
  · exact Exec.returns_fail _
  · refine (returns_add (by omega)).bind fun dataStart hdataStart => ?_
    rw [add_eq_ok_iff] at hdataStart
    refine (returns_slice (by omega) (by rw [List.length_cons]; omega)).bind fun data _ => ?_
    exact Exec.returns_ok _

omit [Target] in
/-- A type byte is one of the named ones, an unknown one below the upgrade range,
or in that range. -/
private theorem type_cases (type : UInt8) :
    type = contentEnd ∨ type = contentBip ∨ type = contentProprietary ∨
      type = contentString ∨ (0x04 ≤ type ∧ type < contentUpgrade) ∨ contentUpgrade ≤ type := by
  simp only [← UInt8.toNat_inj, UInt8.le_iff_toNat_le, UInt8.lt_iff_toNat_lt, contentEnd,
    contentBip, contentProprietary, contentString, contentUpgrade, UInt8.reduceToNat]
  omega

private theorem parseContent_bip_eq_ok_iff {tail : Bytes} {content : Content}
    (hfits : (contentBip :: tail).length ≤ isizeMax) :
    parseContent (contentBip :: tail) = .ok (stop, content) ↔
      ∃ number : UInt16, ∃ rest, content = .ofBip number ∧
        tail = toBeBytes 2 number.toNat ++ rest ∧ stop = 3 := by
  have husize := two_mul_isizeMax_lt_usizeMax
  simp only [parseContent, Exec.bind_eq_ok_iff, initOffset_eq_ok_iff, index_eq_ok_iff]
  constructor
  · rintro ⟨_, -, type, htype, hrest⟩
    obtain rfl : contentBip = type := by simpa using htype
    rw [if_neg (by decide), if_pos rfl] at hrest
    simp only [Exec.bind_eq_ok_iff, Exec.mapErr_eq_ok_iff, checkOffsetLookahead_eq_ok_iff,
      slice_eq_ok_iff, Block.expect_eq_ok_iff, Except.ok.injEq, Prod.mk.injEq] at hrest
    obtain ⟨_, -, raw, ⟨-, hlen, rfl⟩, block, hblock, rfl, rfl⟩ := hrest
    have hlt := fromBeBytes_lt block.1
    rw [block.2] at hlt
    have hnumber : (UInt16.ofNat (fromBeBytes block.1)).toNat = fromBeBytes block.1 := by
      rw [UInt16.toNat_ofNat', Nat.mod_eq_of_lt (by omega)]
    have hwrite := toBeBytes_fromBeBytes block.1
    rw [block.2] at hwrite
    refine ⟨_, tail.drop 2, rfl, ?_, rfl⟩
    rw [hnumber, hwrite, ← hblock]
    exact (List.take_append_drop 2 tail).symm
  · rintro ⟨number, rest, rfl, rfl, rfl⟩
    have hnumber := number.toNat_lt
    refine ⟨_, ⟨by simp, rfl⟩, contentBip, rfl, ?_⟩
    rw [if_neg (by decide), if_pos rfl]
    simp only [List.length_cons, List.length_append, length_toBeBytes] at hfits
    simp only [Exec.bind_eq_ok_iff, Exec.mapErr_eq_ok_iff, checkOffsetLookahead_eq_ok_iff,
      slice_eq_ok_iff, Block.expect_eq_ok_iff, Except.ok.injEq, Prod.mk.injEq]
    refine ⟨(), ⟨by omega, by omega, by simp⟩, toBeBytes 2 number.toNat,
      ⟨by omega, by simp, ?_⟩, ⟨_, length_toBeBytes 2 _⟩, rfl, trivial, ?_⟩
    · rw [List.drop_one, List.tail_cons, List.take_left' (length_toBeBytes 2 _)]
    · rw [fromBeBytes_toBeBytes (by omega), UInt16.ofNat_toNat]

/-- What `parseContent` makes of a type byte that carries sized data. -/
private theorem parseContent_data_eq {type : UInt8} {tail : Bytes} (hmin : 0x02 ≤ type)
    (hmax : type < contentUpgrade) :
    parseContent (type :: tail) = (do
      let (stop, data) ← parseContentData (type :: tail)
      if type = contentProprietary then .ok (stop, .proprietary data)
      else if type = contentString then
        if data ≠ [] then .fail .contentMetadata else .ok (stop, .string)
      else .ok (stop, .unknown)) := by
  have hinit : initOffset (type :: tail) 0 = .ok 0 := by simp
  have hindex : (index (type :: tail) 0 : Exec Error UInt8) = .ok type := by simp
  have hend : type ≠ contentEnd := by
    rintro rfl
    exact absurd hmin (by decide)
  have hbip : type ≠ contentBip := by
    rintro rfl
    exact absurd hmin (by decide)
  rw [parseContent, hinit, Exec.ok_bind, hindex, Exec.ok_bind, if_neg hend, if_neg hbip,
    if_pos hmax]

/-- A type in the upgrade range is refused. -/
theorem parseContent_upgrade_eq {type : UInt8} {tail : Bytes} (hupgrade : contentUpgrade ≤ type) :
    parseContent (type :: tail) = .fail .contentMetadata := by
  have hinit : initOffset (type :: tail) 0 = .ok 0 := by simp
  have hindex : (index (type :: tail) 0 : Exec Error UInt8) = .ok type := by simp
  have hend : type ≠ contentEnd := by
    rintro rfl
    exact absurd hupgrade (by decide)
  have hbip : type ≠ contentBip := by
    rintro rfl
    exact absurd hupgrade (by decide)
  rw [parseContent, hinit, Exec.ok_bind, hindex, Exec.ok_bind, if_neg hend, if_neg hbip,
    if_neg (not_lt.mpr hupgrade)]

/-- A string field with data is refused. -/
theorem parseContent_string_eq_fail {data word rest : Bytes} (hword : SizedData data word)
    (hdata : data ≠ []) (hfits : (contentString :: (word ++ rest)).length ≤ isizeMax) :
    parseContent (contentString :: (word ++ rest)) = .fail .contentMetadata := by
  have hread : parseContentData (contentString :: (word ++ rest)) = .ok (1 + word.length, data) :=
    (parseContentData_cons_eq_ok_iff hfits).mpr ⟨rest, word, hword, rfl, rfl⟩
  rw [parseContent_data_eq (by decide) (by decide), hread, Exec.ok_bind]
  dsimp only
  rw [if_neg (by decide), if_pos rfl, if_pos hdata]

/-- `parseContent` reads exactly the format of a content field. -/
theorem parseContent_eq_ok_iff {content : Content} (hfits : bytes.length ≤ isizeMax) :
    parseContent bytes = .ok (stop, content) ↔ Reads ContentField bytes 0 stop content := by
  cases bytes with
  | nil =>
      constructor
      · intro hparse
        simp [parseContent] at hparse
      · intro hreads
        obtain ⟨word, rest, hword, hnil, -⟩ := reads_zero_iff.mp hreads
        have hpos := hword.length_pos
        simp_all
  | cons type tail =>
      rw [reads_contentField_cons_iff]
      rcases type_cases type with rfl | rfl | rfl | rfl | ⟨hmin, hmax⟩ | hupgrade
      · constructor
        · intro hparse
          simp [parseContent] at hparse
        · rintro ⟨word, rest, hword, -⟩
          exact absurd (hword.head_bounds rfl).1 (by decide)
      · simp only [parseContent_bip_eq_ok_iff hfits, contentField_bip_iff]
        constructor
        · rintro ⟨number, rest, rfl, rfl, rfl⟩
          exact ⟨_, rest, ⟨number, rfl, rfl⟩, rfl, by simp⟩
        · rintro ⟨_, rest, ⟨number, rfl, rfl⟩, rfl, rfl⟩
          exact ⟨number, rest, rfl, rfl, by simp⟩
      · have hmin : 0x02 ≤ contentProprietary := by decide
        have hmax : contentProprietary < contentUpgrade := by decide
        simp only [parseContent_data_eq hmin hmax, reduceIte, Exec.bind_eq_ok_iff, Prod.exists,
           parseContentData_cons_eq_ok_iff hfits, contentField_proprietary_iff,
          Except.ok.injEq, Prod.mk.injEq]
        constructor
        · rintro ⟨_, data, ⟨rest, word, hsized, rfl, rfl⟩, rfl, rfl⟩
          exact ⟨word, rest, ⟨data, rfl, hsized⟩, rfl, rfl⟩
        · rintro ⟨word, rest, ⟨data, rfl, hsized⟩, rfl, rfl⟩
          exact ⟨_, data, ⟨rest, word, hsized, rfl, rfl⟩, rfl, rfl⟩
      · have hmin : 0x02 ≤ contentString := by decide
        have hmax : contentString < contentUpgrade := by decide
        have htype : contentString ≠ contentProprietary := by decide
        simp only [parseContent_data_eq hmin hmax, if_neg htype, reduceIte, Exec.bind_eq_ok_iff,
          Prod.exists, parseContentData_cons_eq_ok_iff hfits, contentField_string_iff,
          Exec.guard_eq_ok_iff, not_not, Except.ok.injEq, Prod.mk.injEq]
        constructor
        · rintro ⟨_, data, ⟨rest, word, hsized, rfl, rfl⟩, rfl, rfl, rfl⟩
          exact ⟨word, rest, ⟨rfl, hsized⟩, rfl, rfl⟩
        · rintro ⟨word, rest, ⟨rfl, hsized⟩, rfl, rfl⟩
          exact ⟨_, [], ⟨rest, word, hsized, rfl, rfl⟩, rfl, rfl, rfl⟩
      · have hproprietary : type ≠ contentProprietary := by
          rintro rfl
          exact absurd hmin (by decide)
        have hstring : type ≠ contentString := by
          rintro rfl
          exact absurd hmin (by decide)
        simp only [parseContent_data_eq (le_trans (by decide) hmin) hmax, if_neg hproprietary,
          if_neg hstring, Exec.bind_eq_ok_iff, Prod.exists,
          parseContentData_cons_eq_ok_iff hfits, contentField_unknown_iff hmin hmax,
          Except.ok.injEq, Prod.mk.injEq]
        constructor
        · rintro ⟨_, data, ⟨rest, word, hsized, rfl, rfl⟩, rfl, rfl⟩
          exact ⟨word, rest, ⟨rfl, data, hsized⟩, rfl, rfl⟩
        · rintro ⟨word, rest, ⟨rfl, data, hsized⟩, rfl, rfl⟩
          exact ⟨_, data, ⟨rest, word, hsized, rfl, rfl⟩, rfl, rfl⟩
      · constructor
        · intro hparse
          rw [parseContent_upgrade_eq hupgrade] at hparse
          simp at hparse
        · rintro ⟨word, rest, hword, -⟩
          exact absurd (hword.head_bounds rfl).2 (not_lt.mpr hupgrade)

/-- Parsing a content field never panics. -/
theorem returns_parseContent (hfits : bytes.length ≤ isizeMax) :
    (parseContent bytes).Returns := by
  refine returns_initOffset.bind fun _ hinit => ?_
  rw [initOffset_eq_ok_iff] at hinit
  refine (returns_index hinit.1).bind fun type _ => ?_
  split
  · exact Exec.returns_fail _
  · split
    · have hlook : (checkOffsetLookahead 0 bytes 3).Returns := returns_checkOffsetLookahead
      refine (hlook.mapErr _).bind fun _ hchecked => ?_
      rw [Exec.mapErr_eq_ok_iff, checkOffsetLookahead_eq_ok_iff] at hchecked
      refine (returns_slice (by omega) (by omega)).bind fun raw hraw => ?_
      rw [slice_eq_ok_iff] at hraw
      refine (Block.returns_expect ?_).bind fun block _ => Exec.returns_ok _
      rw [hraw.2.2, List.length_take, List.length_drop]
      omega
    · split
      · refine (returns_parseContentData (List.ne_nil_of_length_pos hinit.1) hfits).bind ?_
        rintro ⟨stop, data⟩ -
        dsimp only
        split
        · exact Exec.returns_ok _
        · split
          · split
            · exact Exec.returns_fail _
            · exact Exec.returns_ok _
          · exact Exec.returns_ok _
      · exact Exec.returns_fail _

end Spec

end Bip138.Ll
