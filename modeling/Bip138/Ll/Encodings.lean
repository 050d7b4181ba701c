/-
# One encoding per value

The lengths and content fields of a payload are written in one way and read in no other.
A parser that reads a format accepts a value on the words the format gives it; where the
format gives the encoder's word alone, the parser is the encoder's inverse on both sides
and the words the encoder never writes are refused.
-/

import Bip138.Ll.Plaintext

namespace Bip138.Ll

open Bip138.Rust Bip138.Wire

namespace Varint

variable {value : UInt64} {bytes : Bytes} {stop : ℕ}

/-- What the parser takes for a value is its encoding. -/
theorem parse_eq_some_iff_take :
    parse bytes = some (value, stop) ↔ stop ≤ bytes.length ∧ bytes.take stop = encode value := by
  rw [parse_eq_some_iff, reads_zero_iff_take]
  refine and_congr_right fun _ => ⟨fun hword => ?_, fun hword => ?_⟩
  · exact hword.functional (compactSize_encode value)
  · rw [hword]
    exact compactSize_encode value

/-- An input that begins with a marker and its bytes is read as that word or not at all. -/
theorem eq_of_parse_looseSize {size : ℕ} {word front : Bytes} (hword : LooseSize size word)
    {rest : Bytes} (hfront : front <+: word ++ rest) (hparse : parse front = some (value, stop)) :
    word = encode value ∧ word <+: front := by
  obtain ⟨hstop, htake⟩ := parse_eq_some_iff_take.mp hparse
  have hencode : encode value <+: front := htake ▸ List.take_prefix stop front
  obtain ⟨-, heq⟩ := (compactSize_encode value).loose.eq_of_isPrefix hword (hencode.trans hfront)
  exact ⟨heq.symm, heq ▸ hencode⟩

/-- The parser inverts the encoder on both sides: an encoding is read back whatever follows
it, what is read is the encoding of the value, and so an encoding is the one input that is
read to its end as the value. No part of a word cut short is accepted, and no word but the
shortest. -/
theorem parse_canonical :
    (∀ value rest, parse (encode value ++ rest) = some (value, (encode value).length)) ∧
    (∀ bytes value stop, parse bytes = some (value, stop) →
      stop ≤ bytes.length ∧ bytes.take stop = encode value) ∧
    (∀ bytes value, parse bytes = some (value, bytes.length) ↔ bytes = encode value) ∧
    (∀ size word, LooseSize size word →
      (∀ front, front <+: word → front ≠ word → parse front = none) ∧
      (∀ rest, (∀ value, word ≠ encode value) → parse (word ++ rest) = none)) := by
  refine ⟨parse_encode_append_eq, fun bytes value stop => parse_eq_some_iff_take.mp, ?_, ?_⟩
  · intro bytes value
    rw [parse_eq_some_iff_take, List.take_length, and_iff_right (Nat.le_refl _)]
  · intro size word hword
    constructor
    · intro front hfront hcut
      rw [Option.eq_none_iff_forall_ne_some]
      rintro ⟨value, stop⟩ hparse
      rw [← List.append_nil word] at hfront
      obtain ⟨-, hwhole⟩ := eq_of_parse_looseSize hword hfront hparse
      rw [List.append_nil] at hfront
      exact hcut (hfront.eq_of_length (le_antisymm hfront.length_le hwhole.length_le))
    · intro rest hword'
      rw [Option.eq_none_iff_forall_ne_some]
      rintro ⟨value, stop⟩ hparse
      exact hword' value (eq_of_parse_looseSize hword (List.prefix_refl _) hparse).1

end Varint

/-- A content type by its number is written as the number, named variant or not. -/
theorem Content.toBytes_ofBip (number : UInt16) :
    (Content.ofBip number).toBytes = some (contentBip :: toBeBytes 2 number.toNat) := by
  unfold Content.ofBip
  split_ifs with h138 h139 h380 h388 h329
  · rw [h138]
    rfl
  · rw [h139]
    rfl
  · rw [h380]
    rfl
  · rw [h388]
    rfl
  · rw [h329]
    rfl
  · rfl

/-- The parser reports no number that has a named variant. -/
theorem Content.normalize_ofBip (number : UInt16) :
    (Content.ofBip number).normalize = .ofBip number := by
  by_cases hnamed : Content.ofBip number = .bip number
  · rw [hnamed, Content.normalize, hnamed]
  · unfold Content.ofBip at hnamed ⊢
    split_ifs at hnamed ⊢ with h138 h139 h380 h388 h329
    · rfl
    · rfl
    · rfl
    · rfl
    · rfl
    · exact absurd rfl hnamed

/-- The field of a content type other than an unknown one is its encoding, and a field is
never read as a number that has a named variant. -/
theorem contentField_iff_toBytes {content : Content} {word : Bytes}
    (hcontent : content ≠ .unknown) (hfits : word.length < 2 ^ 64) :
    ContentField content word ↔ content.toBytes = some word ∧ content.normalize = content := by
  constructor
  · intro hword
    cases hword with
    | bip number => exact ⟨Content.toBytes_ofBip number, Content.normalize_ofBip number⟩
    | proprietary hsized =>
        obtain ⟨size, hsize, rfl⟩ := hsized
        rename_i tag
        simp only [List.length_cons, List.length_append] at hfits
        have hlength : (UInt64.ofNat tag.length).toNat = tag.length := by
          rw [UInt64.toNat_ofNat', Nat.mod_eq_of_lt (by omega)]
        have hencode := Varint.compactSize_encode (UInt64.ofNat tag.length)
        rw [hlength] at hencode
        refine ⟨?_, rfl⟩
        simp [Content.toBytes, hencode.functional hsize]
    | string => exact ⟨rfl, rfl⟩
    | unknown => exact absurd rfl hcontent
  · rintro ⟨hbytes, hnormal⟩
    rw [← hnormal]
    exact contentField_toBytes hbytes hfits

section Parser

variable [Target] {content : Content} {stop : ℕ}

/-- What the parser takes for a content other than an unknown one is its encoding. -/
theorem parseContent_eq_ok_iff_toBytes {bytes : Bytes} (hfits : bytes.length ≤ isizeMax)
    (hcontent : content ≠ .unknown) :
    parseContent bytes = .ok (stop, content) ↔
      stop ≤ bytes.length ∧ content.toBytes = some (bytes.take stop) ∧
        content.normalize = content := by
  have husize := two_mul_isizeMax_lt_usizeMax
  have hwidth := usizeMax_lt_two_pow_64
  rw [parseContent_eq_ok_iff hfits, reads_zero_iff_take]
  refine and_congr_right fun hstop => contentField_iff_toBytes hcontent ?_
  rw [List.length_take]
  omega

/-- Encoding a content type and parsing a content field are inverse to each other: every
content that has an encoding is read back as its named variant whatever follows its field,
what is read for a known or proprietary content is its encoding, and no two fields are
read as the same one. -/
theorem parseContent_toBytes_inverse :
    (∀ content : Content, content ≠ .none → content ≠ .unknown →
      ∃ field, content.toBytes = some field ∧
        ∀ rest, (field ++ rest).length ≤ isizeMax →
          parseContent (field ++ rest) = .ok (field.length, content.normalize)) ∧
    (∀ (bytes : Slice) stop content, parseContent bytes.1 = .ok (stop, content) →
      content ≠ .unknown →
        stop ≤ bytes.1.length ∧ content.toBytes = some (bytes.1.take stop)) ∧
    (∀ (bytes other : Slice) stop stop' content, parseContent bytes.1 = .ok (stop, content) →
      parseContent other.1 = .ok (stop', content) → content ≠ .unknown →
        bytes.1.take stop = other.1.take stop') := by
  have hreads : ∀ (bytes : Slice) stop content, parseContent bytes.1 = .ok (stop, content) →
      content ≠ .unknown →
        stop ≤ bytes.1.length ∧ content.toBytes = some (bytes.1.take stop) := by
    intro bytes stop content hparse hcontent
    obtain ⟨hstop, htake, -⟩ := (parseContent_eq_ok_iff_toBytes bytes.2 hcontent).mp hparse
    exact ⟨hstop, htake⟩
  refine ⟨fun content hnone hunknown => ?_, hreads, ?_⟩
  · have husize := two_mul_isizeMax_lt_usizeMax
    have hwidth := usizeMax_lt_two_pow_64
    obtain ⟨field, hfield⟩ : ∃ field, content.toBytes = some field :=
      Option.ne_none_iff_exists'.mp fun hbytes =>
        (Content.toBytes_eq_none_iff.mp hbytes).elim hnone hunknown
    refine ⟨field, hfield, fun rest hfits => ?_⟩
    rw [parseContent_eq_ok_iff hfits, reads_zero_iff]
    rw [List.length_append] at hfits
    exact ⟨field, rest, contentField_toBytes hfield (by omega), rfl, rfl⟩
  · intro bytes other stop stop' content hparse hother hcontent
    obtain ⟨-, htake⟩ := hreads bytes stop content hparse hcontent
    obtain ⟨-, htake'⟩ := hreads other stop' content hother hcontent
    exact Option.some.inj (htake.symm.trans htake')

end Parser

end Bip138.Ll
