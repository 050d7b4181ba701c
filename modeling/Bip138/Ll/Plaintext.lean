/-
# The plaintext payload

The payload that is encrypted: content items one after the other, then padding.
An item is a content field followed by sized data; the sequence ends at the first
zero byte or at the end of the payload, whatever follows.

`decodePlaintext` accepts exactly that grammar (`decodePlaintext_eq_ok_iff`), and
`encodePlaintext` writes a payload of it (`decodePlaintext_encodePlaintext`).
-/

import Bip138.Ll.Content
import Bip138.Ll.Padding

namespace Bip138.Ll

open Bip138.Rust Bip138.Wire

section Code

variable [Target]

/-- `Vec::resize`. -/
def resize (bytes : Bytes) (len : ℕ) (value : UInt8) : Bytes :=
  bytes.take len ++ List.replicate (len - bytes.length) value

/-- One content item of the payload: content metadata, length, plaintext. -/
def encodeItem : Bytes × Bytes → Bytes
  | (contentMetadata, data) =>
    contentMetadata ++ Varint.encode (UInt64.ofNat data.length) ++ data

/-- Encode the decrypted payload as its items, followed by padding. -/
def encodePlaintext (items : List (Bytes × Bytes)) (padding : Padding) : Exec Error Bytes :=
  if items = [] then .fail .emptyBytes
  else do
    let payload := items.flatMap encodeItem
    let target ← padding.paddedSize payload.length
    .ok (resize payload target 0)

/-- One item of the loop of `buildV1Payload`. -/
def buildItem : Content × Bytes → Exec Error (Bytes × Bytes)
  | (content, data) =>
    if u32Max < data.length ∨ data = [] then .fail .dataLength
    else do
      let contentMetadata ← .okOr content.toBytes .contentMetadata
      if contentMetadata = [] then .fail .contentMetadata
      else .ok (contentMetadata, data)

/-- Encode the content items into the padded plaintext payload. -/
def buildV1Payload (items : List (Content × Bytes)) (padding : Padding) : Exec Error Bytes := do
  let metadata ← items.mapM buildItem
  encodePlaintext metadata padding

/-- One content item at `offset`: the offset after it, its content, its plaintext. -/
def decodeItem (bytes : Bytes) (offset : ℕ) : Exec Error (ℕ × Content × Bytes) := do
  let tail ← sliceFrom bytes offset
  let (incr, content) ← parseContent tail
  let offset ← .okOr (checkedAdd offset incr) .offsetOverflow
  let tail ← sliceFrom bytes offset
  let (dataLen, incr) ← .okOr (Varint.parse tail) .dataLength
  let offset ← .okOr (checkedAdd offset incr) .offsetOverflow
  let dataLen ← .okOr (usizeTryFrom dataLen.toNat) .dataLength
  let stop ← .okOr (checkedAdd offset dataLen) .offsetOverflow
  if bytes.length < stop then .fail .corrupted
  else do
    let plaintext ← slice bytes offset stop
    .ok (stop, content, plaintext)

/-- One pass of the loop of `decodePlaintext`, on its offset and items. -/
def decodePlaintextStep (bytes : Bytes) :
    ℕ × List (Content × Bytes) →
      Exec Error (LoopFlow (ℕ × List (Content × Bytes)) (List (Content × Bytes)))
  | (offset, items) =>
    if offset < bytes.length then do
      let type ← index bytes offset
      -- a zero type byte marks the end of the sequence; the rest is padding
      if type = contentEnd then .ok (.done items)
      else do
        let (stop, item) ← decodeItem bytes offset
        .ok (.next (stop, items ++ [item]))
    else .ok (.done items)

/-- Decode the content items from a decrypted payload. -/
def decodePlaintext (bytes : Bytes) : Exec Error (List (Content × Bytes)) :=
  if bytes = [] then .fail .emptyBytes
  else do
    let items ← loop (decodePlaintextStep bytes) (bytes.length + 1) (0, [])
    if items = [] then .fail .emptyBytes else .ok items

end Code

/-- A content field followed by sized data. -/
def PayloadItem : Format UInt8 (Content × Bytes) := ContentField.seq SizedData

/-- Items one after the other, then nothing, or a zero byte and anything. -/
def Payload : Format UInt8 (List (Content × Bytes)) :=
  fun items bytes => ∃ word rest, Format.Many PayloadItem items word ∧ bytes = word ++ rest ∧
    (rest = [] ∨ rest.head? = some contentEnd)

/-- A sequence of items may end here: at the end of the payload, or before a zero
byte. -/
def Ending (bytes : Bytes) (offset : ℕ) : Prop :=
  offset = bytes.length ∨ bytes[offset]? = some contentEnd

theorem PayloadItem.length_pos {item : Content × Bytes} {word : Bytes}
    (hword : PayloadItem item word) : 0 < word.length := by
  obtain ⟨field, data, hfield, -, rfl⟩ := hword
  have hpos := hfield.length_pos
  rw [List.length_append]
  omega

/-- A payload is read from the front, up to a place where it may end. -/
theorem payload_iff_reads {items : List (Content × Bytes)} {bytes : Bytes} :
    Payload items bytes ↔
      ∃ stop, Reads (Format.Many PayloadItem) bytes 0 stop items ∧ Ending bytes stop := by
  simp only [reads_zero_iff]
  constructor
  · rintro ⟨word, rest, hword, rfl, hending⟩
    refine ⟨word.length, ⟨word, rest, hword, rfl, rfl⟩, ?_⟩
    rcases hending with rfl | hhead
    · exact .inl (by simp)
    · exact .inr (by simpa [List.head?_eq_getElem?, List.getElem?_append_right] using hhead)
  · rintro ⟨_, ⟨word, rest, hword, rfl, rfl⟩, hending⟩
    refine ⟨word, rest, hword, rfl, ?_⟩
    rcases hending with hlength | hhead
    · exact .inl (by simpa using hlength)
    · exact .inr (by simpa [List.head?_eq_getElem?, List.getElem?_append_right] using hhead)

/-- An item never starts with the end marker. -/
theorem PayloadItem.head_ne_contentEnd {bytes : Bytes} {start stop : ℕ}
    {item : Content × Bytes} (hreads : Reads PayloadItem bytes start stop item) :
    ∃ type, bytes[start]? = some type ∧ type ≠ contentEnd := by
  obtain ⟨_, ⟨field, data, hfield, -, rfl⟩, ⟨rest, hrest⟩, -⟩ := hreads
  obtain ⟨type, field, rfl⟩ := List.exists_cons_of_length_pos hfield.length_pos
  refine ⟨type, ?_, (hfield.head_bounds rfl).1.ne'⟩
  have hhead := congrArg List.head? hrest
  simpa [List.head?_drop] using hhead.symm

section Spec

variable [Target] {bytes : Bytes}

/-- An item is read as its format says. -/
theorem decodeItem_eq_ok_iff {start stop : ℕ} {item : Content × Bytes}
    (hfits : bytes.length ≤ isizeMax) (hstart : start ≤ bytes.length) :
    decodeItem bytes start = .ok (stop, item) ↔ Reads PayloadItem bytes start stop item := by
  have husize := two_mul_isizeMax_lt_usizeMax
  have hwidth := usizeMax_lt_two_pow_64
  obtain ⟨content, data⟩ := item
  have htail : (bytes.drop start).length ≤ isizeMax := by
    rw [List.length_drop]
    omega
  simp only [decodeItem, PayloadItem, reads_seq_iff, reads_sizedData_iff, Exec.bind_eq_ok_iff,
    Prod.exists, sliceFrom_eq_ok_iff, Exec.okOr_eq_ok_iff, checkedAdd_eq_some_iff,
    usizeTryFrom_eq_some_iff, Exec.guard_eq_ok_iff, not_lt, slice_eq_ok_iff, Except.ok.injEq,
    Prod.mk.injEq]
  constructor
  · rintro ⟨_, ⟨-, rfl⟩, incr, content', hcontent, middle, ⟨-, rfl⟩, _, ⟨hmiddle, rfl⟩, dataLen,
      size, hsize, first, ⟨-, rfl⟩, _, ⟨-, rfl⟩, last, ⟨-, rfl⟩, hstop, _, ⟨-, -, rfl⟩, rfl, rfl,
      rfl⟩
    rw [parseContent_eq_ok_iff htail, reads_drop_iff hstart] at hcontent
    rw [Varint.parse_drop_eq_some_iff hmiddle] at hsize
    refine ⟨_, hcontent, _, _, hsize, rfl, hstop, ?_⟩
    congr 1
    omega
  · rintro ⟨middle, hcontent, first, size, hsize, rfl, hstop, rfl⟩
    have hmiddle := hcontent.stop_le
    have hstart' := hcontent.start_le
    have hfirst := hsize.start_le
    have hvalue : (UInt64.ofNat size).toNat = size := by
      rw [UInt64.toNat_ofNat', Nat.mod_eq_of_lt (by omega)]
    obtain ⟨incr, rfl⟩ := Nat.exists_eq_add_of_le hstart'
    obtain ⟨sizeIncr, rfl⟩ := Nat.exists_eq_add_of_le hfirst
    refine ⟨_, ⟨hstart, rfl⟩, incr, content, ?_, _, ⟨by omega, rfl⟩, _, ⟨hmiddle, rfl⟩,
      UInt64.ofNat size, sizeIncr, ?_, _, ⟨by omega, rfl⟩, size, ⟨by omega, hvalue.symm⟩, _,
      ⟨by omega, rfl⟩, hstop, _, ⟨by omega, hstop, rfl⟩, rfl, rfl, ?_⟩
    · rwa [parseContent_eq_ok_iff htail, reads_drop_iff hstart]
    · rwa [Varint.parse_drop_eq_some_iff hmiddle, hvalue]
    · congr 1
      omega

/-- Reading an item never panics. -/
theorem returns_decodeItem {start : ℕ} (hfits : bytes.length ≤ isizeMax)
    (hstart : start ≤ bytes.length) : (decodeItem bytes start).Returns := by
  have htail : (bytes.drop start).length ≤ isizeMax := by
    rw [List.length_drop]
    omega
  refine (returns_sliceFrom hstart).bind fun tail htail' => ?_
  obtain ⟨-, rfl⟩ := sliceFrom_eq_ok_iff.mp htail'
  refine (returns_parseContent htail).bind ?_
  rintro ⟨incr, content⟩ hcontent
  rw [parseContent_eq_ok_iff htail, reads_drop_iff hstart] at hcontent
  refine (Exec.returns_okOr _ _).bind fun middle hmiddle => ?_
  rw [Exec.okOr_eq_ok_iff, checkedAdd_eq_some_iff] at hmiddle
  obtain ⟨-, rfl⟩ := hmiddle
  refine (returns_sliceFrom hcontent.stop_le).bind fun tail _ => ?_
  refine (Exec.returns_okOr _ _).bind ?_
  rintro ⟨dataLen, sizeIncr⟩ -
  refine (Exec.returns_okOr _ _).bind fun first _ => ?_
  refine (Exec.returns_okOr _ _).bind fun size _ => ?_
  refine (Exec.returns_okOr _ _).bind fun last hlast => ?_
  rw [Exec.okOr_eq_ok_iff, checkedAdd_eq_some_iff] at hlast
  split
  · exact Exec.returns_fail _
  · exact (returns_slice (by omega) (by omega)).bind fun _ _ => Exec.returns_ok _

theorem decodePlaintextStep_eq_next_iff {start stop : ℕ}
    {items later : List (Content × Bytes)} (hfits : bytes.length ≤ isizeMax)
    (hstart : start ≤ bytes.length) :
    decodePlaintextStep bytes (start, items) = .ok (.next (stop, later)) ↔
      ∃ item, Reads PayloadItem bytes start stop item ∧ later = items ++ [item] := by
  rw [decodePlaintextStep]
  constructor
  · intro hstep
    split at hstep
    · obtain ⟨type, -, hrest⟩ := Exec.bind_eq_ok_iff.mp hstep
      split at hrest
      · simp at hrest
      · obtain ⟨⟨last, item⟩, hitem, hflow⟩ := Exec.bind_eq_ok_iff.mp hrest
        cases hflow
        exact ⟨item, (decodeItem_eq_ok_iff hfits hstart).mp hitem, rfl⟩
    · simp at hstep
  · rintro ⟨item, hitem, rfl⟩
    have hdecode := (decodeItem_eq_ok_iff hfits hstart).mpr hitem
    obtain ⟨type, hindex, hcontinue⟩ := PayloadItem.head_ne_contentEnd hitem
    have hwithin := (List.getElem?_eq_some_iff.mp hindex).1
    rw [if_pos hwithin, index, hindex]
    dsimp only
    rw [Exec.ok_bind, if_neg hcontinue, hdecode, Exec.ok_bind]

private theorem decodePlaintextStep_eq_done_iff {start : ℕ}
    {items result : List (Content × Bytes)} (hstart : start ≤ bytes.length) :
    decodePlaintextStep bytes (start, items) = .ok (.done result) ↔
      Ending bytes start ∧ result = items := by
  rw [decodePlaintextStep]
  split
  · rename_i hwithin
    rw [index, List.getElem?_eq_getElem hwithin]
    dsimp only
    rw [Exec.ok_bind]
    split
    · rename_i hend
      simp [Ending, hwithin, hend, eq_comm]
    · rename_i hcontinue
      simp only [Exec.bind_eq_ok_iff, Except.ok.injEq, reduceCtorEq, and_false, exists_false,
        false_iff, Ending, List.getElem?_eq_getElem hwithin, Option.some.injEq,
        hcontinue, or_false, not_and]
      omega
  · rename_i hpast
    have hlength : start = bytes.length := by omega
    simp [Ending, hlength, eq_comm]

/-- `decodePlaintext` accepts exactly the payload grammar with at least one item. -/
theorem decodePlaintext_eq_ok_iff {items : List (Content × Bytes)}
    (hfits : bytes.length ≤ isizeMax) :
    decodePlaintext bytes = .ok items ↔ items ≠ [] ∧ Payload items bytes := by
  have hloop : ∀ result, loop (decodePlaintextStep bytes) (bytes.length + 1) (0, []) = .ok result ↔
      Payload result bytes := by
    intro result
    rw [loop_reads (fun _ _ hword => PayloadItem.length_pos hword)
      (fun _ _ _ _ hstart => decodePlaintextStep_eq_next_iff hfits hstart)
      (fun _ _ _ hstart => decodePlaintextStep_eq_done_iff hstart) (Nat.zero_le _) (by omega),
      payload_iff_reads]
    simp only [foldl_concat, List.nil_append]
    constructor
    · rintro ⟨_, stop, hreads, hending, rfl⟩
      exact ⟨stop, hreads, hending⟩
    · rintro ⟨stop, hreads, hending⟩
      exact ⟨result, stop, hreads, hending, rfl⟩
  unfold decodePlaintext
  split
  · rename_i hempty
    simp only [Exec.fail_ne_ok, false_iff, not_and]
    rintro hitems ⟨word, rest, hmany, hbytes, -⟩
    have hword : word = [] := (List.append_eq_nil_iff.mp (hbytes.symm.trans hempty)).1
    have hlength := Format.length_le_of_many (fun _ _ => PayloadItem.length_pos) hmany
    rw [hword, List.length_nil, Nat.le_zero, List.length_eq_zero_iff] at hlength
    exact hitems hlength
  · simp only [Exec.bind_eq_ok_iff, Exec.guard_eq_ok_iff, Except.ok.injEq, hloop]
    constructor
    · rintro ⟨result, hpayload, hnonempty, rfl⟩
      exact ⟨hnonempty, hpayload⟩
    · rintro ⟨hnonempty, hpayload⟩
      exact ⟨items, hpayload, hnonempty, rfl⟩

/-- Decoding a payload always comes back: every item moves the offset on. -/
theorem returns_decodePlaintext (hfits : bytes.length ≤ isizeMax) :
    (decodePlaintext bytes).Returns := by
  unfold decodePlaintext
  split
  · exact Exec.returns_fail _
  · refine Exec.Returns.bind ?_ fun items _ => ?_
    · refine loop_returns (fun state => state.1 ≤ bytes.length)
        (fun state => bytes.length - state.1) ?_ ?_ (Nat.zero_le _) (by omega)
      · rintro ⟨start, items⟩ hstart
        rw [decodePlaintextStep]
        split
        · rename_i hwithin
          refine (returns_index hwithin).bind fun type _ => ?_
          split
          · exact Exec.returns_ok _
          · exact (returns_decodeItem hfits hstart).bind fun _ _ => Exec.returns_ok _
        · exact Exec.returns_ok _
      · rintro ⟨start, items⟩ ⟨stop, later⟩ hstart hnext
        obtain ⟨item, hitem, -⟩ := (decodePlaintextStep_eq_next_iff hfits hstart).mp hnext
        have hstop := hitem.stop_le
        obtain ⟨word, hword, -, rfl, -⟩ := hitem
        have hpos := PayloadItem.length_pos hword
        exact ⟨hstop, by dsimp only at hstart hstop ⊢; omega⟩
    · split
      · exact Exec.returns_fail _
      · exact Exec.returns_ok _

/-- A payload whose items are followed by a byte that no field can start with is
refused with the cause the content parser gives. -/
theorem decodePlaintext_eq_fail_of_parseContent {items : List (Content × Bytes)}
    {word rest : Bytes} {type : UInt8} {cause : Error} (hfits : bytes.length ≤ isizeMax)
    (hmany : Format.Many PayloadItem items word) (hbytes : bytes = word ++ type :: rest)
    (htype : type ≠ contentEnd) (hparse : parseContent (type :: rest) = .fail cause) :
    decodePlaintext bytes = .fail cause := by
  have hreads : Reads (Format.Many PayloadItem) bytes 0 word.length items :=
    reads_zero_iff.mpr ⟨word, type :: rest, hmany, hbytes, rfl⟩
  have hcount := Format.length_le_of_many (fun _ _ => PayloadItem.length_pos) hmany
  have hlength : bytes.length = word.length + rest.length + 1 := by
    rw [hbytes, List.length_append, List.length_cons, Nat.add_assoc]
  obtain ⟨fuel, hfuel⟩ : ∃ fuel, bytes.length + 1 = (fuel + 1) + items.length :=
    ⟨bytes.length - items.length, by omega⟩
  have hstep : ∀ acc, decodePlaintextStep bytes (word.length, acc) = .fail cause := by
    intro acc
    have hindex : bytes[word.length]? = some type := by simp [hbytes]
    have hdrop : bytes.drop word.length = type :: rest := by rw [hbytes, List.drop_left]
    rw [decodePlaintextStep, if_pos (by omega), index, hindex]
    dsimp only
    rw [Exec.ok_bind, if_neg htype, decodeItem, sliceFrom, if_pos (by omega), Exec.ok_bind, hdrop,
      hparse, Exec.fail_bind, Exec.fail_bind]
  have hskip : loop (decodePlaintextStep bytes) (fuel + 1 + items.length) (0, []) =
      loop (decodePlaintextStep bytes) (fuel + 1)
        (word.length, items.foldl (fun acc item => acc ++ [item]) []) :=
    loop_add_of_reads (fun start acc stop value hstart hvalue =>
      (decodePlaintextStep_eq_next_iff hfits hstart).mpr ⟨value, hvalue, rfl⟩)
      (Nat.zero_le _) hreads (fuel + 1)
  rw [decodePlaintext, if_neg (by rw [← List.length_eq_zero_iff]; omega), hfuel, hskip,
    loop_succ_of_error (hstep _)]
  rfl

/-- The decoder and the payload grammar agree on every byte string: what the
grammar generates is decoded to its items, and everything else is an error. Among
the errors are a type byte in the upgrade range after any number of items, and a
string field with data. -/
theorem decodePlaintext_iff_payload (bytes : Slice) :
    (∀ items, decodePlaintext bytes.1 = .ok items ↔ items ≠ [] ∧ Payload items bytes.1) ∧
      ((∀ items, items ≠ [] → ¬ Payload items bytes.1) →
        ∃ cause, decodePlaintext bytes.1 = .fail cause) ∧
      (∀ items word type rest, Format.Many PayloadItem items word →
        bytes.1 = word ++ type :: rest → 0x80 ≤ type →
          decodePlaintext bytes.1 = .fail .contentMetadata) ∧
      (∀ items word data field rest, Format.Many PayloadItem items word →
        SizedData data field → data ≠ [] → bytes.1 = word ++ 0x03 :: (field ++ rest) →
          decodePlaintext bytes.1 = .fail .contentMetadata) := by
  obtain ⟨bytes, hfits⟩ := bytes
  refine ⟨fun items => decodePlaintext_eq_ok_iff hfits, ?_, ?_, ?_⟩
  · intro hother
    apply (returns_decodePlaintext hfits).exists_fail
    intro items hdecode
    obtain ⟨hnonempty, hpayload⟩ := (decodePlaintext_eq_ok_iff hfits).mp hdecode
    exact hother items hnonempty hpayload
  · intro items word type rest hmany hbytes htype
    have hend : type ≠ contentEnd := by
      rintro rfl
      exact absurd htype (by decide)
    exact decodePlaintext_eq_fail_of_parseContent hfits hmany hbytes hend
      (parseContent_upgrade_eq htype)
  · intro items word data field rest hmany hfield hdata hbytes
    have htail : (contentString :: (field ++ rest)).length ≤ isizeMax := by
      dsimp only at hbytes
      rw [hbytes, List.length_append] at hfits
      exact le_trans (Nat.le_add_left _ _) hfits
    exact decodePlaintext_eq_fail_of_parseContent hfits hmany hbytes (by decide)
      (parseContent_string_eq_fail hfield hdata htail)

end Spec

/-- What the encoder asks of an item: some data, no more than a 32-bit length can
count, and a content type that has an encoding. -/
structure ItemValid (item : Content × Bytes) : Prop where
  dataNonempty : item.2 ≠ []
  dataLength : item.2.length ≤ u32Max
  contentKnown : item.1 ≠ .none ∧ item.1 ≠ .unknown

/-- The bytes of a valid item. -/
def itemBytes (item : Content × Bytes) : Bytes := encodeItem (item.1.toBytes.getD [], item.2)

theorem Content.toBytes_eq_none_iff {content : Content} :
    content.toBytes = Option.none ↔ content = .none ∨ content = .unknown := by
  cases content <;> simp [Content.toBytes]

theorem Content.length_toBytes_pos {content : Content} {word : Bytes}
    (hword : content.toBytes = some word) : word ≠ [] := by
  rintro rfl
  cases content <;> simp [Content.toBytes] at hword

/-- A content type is written as a field that reads back as its normal form. -/
theorem contentField_toBytes {content : Content} {word : Bytes}
    (hword : content.toBytes = some word) (hfits : word.length < 2 ^ 64) :
    ContentField content.normalize word := by
  cases content with
  | none => cases hword
  | unknown => cases hword
  | bip138 => cases hword; exact .bip 138
  | bip139 => cases hword; exact .bip 139
  | bip380 => cases hword; exact .bip 380
  | bip388 => cases hword; exact .bip 388
  | bip329 => cases hword; exact .bip 329
  | bip number => cases hword; exact .bip number
  | string => cases hword; exact .string
  | proprietary tag =>
      obtain rfl : contentProprietary :: (Varint.encode (UInt64.ofNat tag.length) ++ tag) = word := by
        simpa [Content.toBytes] using hword
      simp only [List.length_cons, List.length_append] at hfits
      have hsize := Varint.compactSize_encode (UInt64.ofNat tag.length)
      rw [UInt64.toNat_ofNat', Nat.mod_eq_of_lt (by omega)] at hsize
      exact .proprietary ⟨_, hsize, rfl⟩

theorem payloadItem_itemBytes {item : Content × Bytes} (hitem : ItemValid item)
    (hfits : (itemBytes item).length < 2 ^ 64) :
    PayloadItem (item.1.normalize, item.2) (itemBytes item) := by
  obtain ⟨content, data⟩ := item
  obtain ⟨word, hword⟩ : ∃ word, content.toBytes = some word :=
    Option.ne_none_iff_exists'.mp fun hnone => by
      rcases Content.toBytes_eq_none_iff.mp hnone with hcontent | hcontent
      · exact hitem.contentKnown.1 hcontent
      · exact hitem.contentKnown.2 hcontent
  have hbytes : itemBytes (content, data) =
      word ++ (Varint.encode (UInt64.ofNat data.length) ++ data) := by
    simp [itemBytes, encodeItem, hword]
  rw [hbytes] at hfits ⊢
  simp only [List.length_append] at hfits
  have hsize := Varint.compactSize_encode (UInt64.ofNat data.length)
  rw [UInt64.toNat_ofNat', Nat.mod_eq_of_lt (by omega)] at hsize
  exact ⟨word, _, contentField_toBytes hword (by omega), ⟨_, hsize, rfl⟩, rfl⟩

theorem many_payloadItem_itemBytes {items : List (Content × Bytes)}
    (hitems : ∀ item ∈ items, ItemValid item) (hfits : (items.flatMap itemBytes).length < 2 ^ 64) :
    Format.Many PayloadItem (items.map fun item => (item.1.normalize, item.2))
      (items.flatMap itemBytes) := by
  induction items with
  | nil => exact .nil
  | cons item items ih =>
      obtain ⟨hhead, htail⟩ := List.forall_mem_cons.mp hitems
      rw [List.flatMap_cons, List.length_append] at hfits
      rw [List.map_cons, List.flatMap_cons]
      exact .cons (payloadItem_itemBytes hhead (by omega)) (ih htail (by omega))

private theorem buildItem_eq_ok_iff {item : Content × Bytes} {result : Bytes × Bytes} :
    buildItem item = .ok result ↔
      ItemValid item ∧ result = (item.1.toBytes.getD [], item.2) := by
  obtain ⟨content, data⟩ := item
  rw [buildItem, Exec.guard_eq_ok_iff, not_or, not_lt]
  simp only [Exec.bind_eq_ok_iff, Exec.okOr_eq_ok_iff, Exec.guard_eq_ok_iff, Except.ok.injEq]
  constructor
  · rintro ⟨⟨hlength, hnonempty⟩, word, hword, -, rfl⟩
    refine ⟨⟨hnonempty, hlength, ?_, ?_⟩, by rw [hword, Option.getD_some]⟩
    · rintro rfl
      cases hword
    · rintro rfl
      cases hword
  · rintro ⟨⟨hnonempty, hlength, hknown⟩, rfl⟩
    obtain ⟨word, hword⟩ : ∃ word, content.toBytes = some word :=
      Option.ne_none_iff_exists'.mp fun hnone =>
        not_or.mpr hknown (Content.toBytes_eq_none_iff.mp hnone)
    refine ⟨⟨hlength, hnonempty⟩, word, hword, Content.length_toBytes_pos hword, ?_⟩
    rw [hword, Option.getD_some]

theorem resize_eq_append {bytes : Bytes} {len : ℕ} (hlen : bytes.length ≤ len) (value : UInt8) :
    resize bytes len value = bytes ++ List.replicate (len - bytes.length) value := by
  rw [resize, List.take_of_length_le hlen]

section BuildSpec

variable [Target] {items : List (Content × Bytes)} {padding : Padding} {payload : Bytes}

/-- The payload builder succeeds on one or more valid items whose bytes can be
padded, and writes these bytes followed by zeros. -/
theorem buildV1Payload_eq_ok_iff :
    buildV1Payload items padding = .ok payload ↔
      items ≠ [] ∧ (∀ item ∈ items, ItemValid item) ∧
        ∃ target, padding.paddedSize (items.flatMap itemBytes).length = .ok target ∧
          payload = items.flatMap itemBytes ++
            List.replicate (target - (items.flatMap itemBytes).length) 0 := by
  simp only [buildV1Payload, encodePlaintext, Exec.bind_eq_ok_iff, Exec.guard_eq_ok_iff,
    Exec.mapM_eq_ok_iff fun _ _ => buildItem_eq_ok_iff, Except.ok.injEq]
  have hflat : (items.map fun item => (item.1.toBytes.getD [], item.2)).flatMap encodeItem =
      items.flatMap itemBytes := List.flatMap_map ..
  constructor
  · rintro ⟨_, ⟨hvalid, rfl⟩, hnonempty, target, htarget, rfl⟩
    rw [hflat] at htarget ⊢
    refine ⟨by simpa using hnonempty, hvalid, target, htarget, ?_⟩
    exact resize_eq_append (le_of_paddedSize_eq_ok htarget) 0
  · rintro ⟨hnonempty, hvalid, target, htarget, rfl⟩
    refine ⟨_, ⟨hvalid, rfl⟩, by simpa using hnonempty, target, ?_, ?_⟩
    · rwa [hflat]
    · rw [hflat, resize_eq_append (le_of_paddedSize_eq_ok htarget)]

/-- A payload that was built is not empty. -/
theorem ne_nil_of_buildV1Payload (hbuild : buildV1Payload items padding = .ok payload) :
    payload ≠ [] := by
  obtain ⟨hitems, hvalid, target, -, rfl⟩ := buildV1Payload_eq_ok_iff.mp hbuild
  obtain ⟨item, rest, rfl⟩ := List.exists_cons_of_ne_nil hitems
  have hdata := (hvalid item List.mem_cons_self).dataNonempty
  simp [itemBytes, encodeItem, hdata]

/-- Building a payload always comes back. -/
theorem returns_buildV1Payload : (buildV1Payload items padding).Returns := by
  refine (Exec.returns_mapM ?_).bind fun metadata _ => ?_
  · rintro ⟨content, data⟩ -
    rw [buildItem]
    split
    · exact Exec.returns_fail _
    · refine (Exec.returns_okOr _ _).bind fun word _ => ?_
      split
      · exact Exec.returns_fail _
      · exact Exec.returns_ok _
  · rw [encodePlaintext]
    split
    · exact Exec.returns_fail _
    · exact (returns_paddedSize padding).bind fun _ _ => Exec.returns_ok _

/-- A payload that was built is a payload of its items, in their normal form. -/
theorem payload_of_buildV1Payload (hbuild : buildV1Payload items padding = .ok payload)
    (hfits : payload.length < 2 ^ 64) :
    Payload (items.map fun item => (item.1.normalize, item.2)) payload := by
  obtain ⟨-, hvalid, target, -, rfl⟩ := buildV1Payload_eq_ok_iff.mp hbuild
  rw [List.length_append] at hfits
  refine ⟨_, _, many_payloadItem_itemBytes hvalid (by omega), rfl, ?_⟩
  -- the padding is empty or starts with the zero byte that ends the sequence
  cases target - (items.flatMap itemBytes).length with
  | zero => exact .inl rfl
  | succ count => exact .inr rfl

/-- Decoding a payload that was built gives its items back, in their normal form. -/
theorem decodePlaintext_buildV1Payload (hbuild : buildV1Payload items padding = .ok payload)
    (hfits : payload.length ≤ isizeMax) :
    decodePlaintext payload = .ok (items.map fun item => (item.1.normalize, item.2)) := by
  have husize := two_mul_isizeMax_lt_usizeMax
  have hwidth := usizeMax_lt_two_pow_64
  rw [decodePlaintext_eq_ok_iff hfits]
  refine ⟨?_, payload_of_buildV1Payload hbuild (by omega)⟩
  simpa using (buildV1Payload_eq_ok_iff.mp hbuild).1

end BuildSpec

end Bip138.Ll
