/-
# The varint codec

`encode` and `parse` of the core's `varint` module. The parser accepts exactly
the CompactSize format at the front of its input (`parse_eq_some_iff`), and the
encoder writes the one spelling of its value (`compactSize_encode`).
-/

import Bip138.Wire.CompactSize

namespace Bip138.Ll.Varint

open Bip138.Rust Bip138.Wire

/-- Encode a value as a CompactSize varint. -/
def encode (value : UInt64) : Bytes :=
  if value.toNat ≤ 0xFC then [value.toUInt8]
  else if value.toNat ≤ 0xFFFF then 0xFD :: toLeBytes 2 value.toUInt16.toNat
  else if value.toNat ≤ 0xFFFFFFFF then 0xFE :: toLeBytes 4 value.toUInt32.toNat
  else 0xFF :: toLeBytes 8 value.toNat

/-- `bytes.get(1..1 + width)`: a slice of exactly `width` bytes, so converting it
to an array cannot fail. -/
def getAfterMarker (bytes : Bytes) (width : ℕ) : Option (Block width) :=
  Block.tryFrom width ((bytes.drop 1).take width)

/-- The three marker branches of `parse`: `width` little-endian bytes that must
hold at least `minimum`. -/
def parseWord (bytes : Bytes) (width minimum : ℕ) : Option (UInt64 × ℕ) := do
  let raw ← getAfterMarker bytes width
  let value := fromLeBytes raw.1
  if minimum ≤ value then some (UInt64.ofNat value, 1 + width) else none

/-- Parse a CompactSize varint at the start of `bytes`, returning the value and
the number of bytes consumed. -/
def parse (bytes : Bytes) : Option (UInt64 × ℕ) := do
  let first ← bytes.head?
  if first = 0xFF then parseWord bytes 8 0x100000000
  else if first = 0xFE then parseWord bytes 4 0x10000
  else if first = 0xFD then parseWord bytes 2 0xFD
  else some (UInt64.ofNat first.toNat, 1)

/-- The encoder writes the CompactSize spelling of its value. -/
theorem compactSize_encode (value : UInt64) : CompactSize value.toNat (encode value) := by
  have hvalue := value.toNat_lt
  unfold encode
  split
  · have hbyte : value.toUInt8 = UInt8.ofNat value.toNat := by
      apply UInt8.toNat_inj.mp
      simp
    rw [hbyte]
    exact .byte (by omega)
  · split
    · rw [UInt64.toNat_toUInt16, Nat.mod_eq_of_lt (by omega)]
      exact .word16 (by omega) (by omega)
    · split
      · rw [UInt64.toNat_toUInt32, Nat.mod_eq_of_lt (by omega)]
        exact .word32 (by omega) (by omega)
      · exact .word64 (by omega) (by omega)

/-- What a marker branch accepts: `width` bytes after the marker, spelling a value
of at least `minimum`. -/
theorem parseWord_eq_some_iff {marker : UInt8} {rest : Bytes} {width minimum stop : ℕ}
    {value : UInt64} (hwidth : 256 ^ width ≤ 2 ^ 64) :
    parseWord (marker :: rest) width minimum = some (value, stop) ↔
      minimum ≤ value.toNat ∧ value.toNat < 256 ^ width ∧
        toLeBytes width value.toNat <+: rest ∧ stop = 1 + width := by
  simp only [parseWord, getAfterMarker, Option.bind_eq_bind, Option.bind_eq_some_iff,
    Block.tryFrom_eq_some_iff, List.drop_one, List.tail_cons]
  constructor
  · rintro ⟨raw, hraw, hrest⟩
    have hlt : fromLeBytes raw.1 < 256 ^ width := by
      simpa [raw.2] using fromLeBytes_lt raw.1
    have hwrite : toLeBytes width (fromLeBytes raw.1) = raw.1 := by
      simpa [raw.2] using toLeBytes_fromLeBytes raw.1
    split at hrest
    · rename_i hminimum
      obtain ⟨rfl, rfl⟩ := Prod.mk.inj (Option.some.inj hrest)
      rw [UInt64.toNat_ofNat', Nat.mod_eq_of_lt (hlt.trans_le hwidth)]
      refine ⟨hminimum, hlt, ?_, rfl⟩
      rw [hwrite, ← hraw]
      exact List.take_prefix width rest
    · cases hrest
  · rintro ⟨hminimum, hlt, hfront, rfl⟩
    refine ⟨⟨toLeBytes width value.toNat, length_toLeBytes _ _⟩, ?_, ?_⟩
    · simpa using (List.prefix_iff_eq_take.mp hfront).symm
    · rw [fromLeBytes_toLeBytes hlt, if_pos hminimum, UInt64.ofNat_toNat]

private theorem parse_small {first : UInt8} (rest : Bytes) (hsmall : first.toNat < 0xFD) :
    parse (first :: rest) = some (UInt64.ofNat first.toNat, 1) := by
  have hmarkers : ∀ marker : UInt8, 0xFD ≤ marker.toNat → first ≠ marker := by
    rintro marker hmarker rfl
    omega
  simp only [parse, List.head?_cons, Option.bind_eq_bind, Option.bind_some]
  rw [if_neg (hmarkers _ (by decide)), if_neg (hmarkers _ (by decide)),
    if_neg (hmarkers _ (by decide))]

private theorem parse_word16 (rest : Bytes) :
    parse (0xFD :: rest) = parseWord (0xFD :: rest) 2 0xFD := rfl

private theorem parse_word32 (rest : Bytes) :
    parse (0xFE :: rest) = parseWord (0xFE :: rest) 4 0x10000 := rfl

private theorem parse_word64 (rest : Bytes) :
    parse (0xFF :: rest) = parseWord (0xFF :: rest) 8 0x100000000 := rfl

/-- A first byte is one of the three markers or small. -/
private theorem marker_or_small (first : UInt8) :
    first = 0xFF ∨ first = 0xFE ∨ first = 0xFD ∨ first.toNat < 0xFD := by
  have hfirst := first.toNat_lt
  simp only [← UInt8.toNat_inj]
  simp only [UInt8.reduceToNat]
  omega

/-- What the parser accepts is a CompactSize spelling at the front of the input. -/
private theorem exists_word_of_parse {bytes : Bytes} {value : UInt64} {stop : ℕ}
    (hparse : parse bytes = some (value, stop)) :
    ∃ word rest, CompactSize value.toNat word ∧ bytes = word ++ rest ∧ stop = word.length := by
  cases bytes with
  | nil => cases hparse
  | cons first rest =>
      rcases marker_or_small first with rfl | rfl | rfl | hsmall
      · rw [parse_word64, parseWord_eq_some_iff (by norm_num)] at hparse
        obtain ⟨hmin, hmax, ⟨tail, rfl⟩, rfl⟩ := hparse
        exact ⟨_, tail, .word64 (by omega) (by omega), rfl, by simp [Nat.add_comm]⟩
      · rw [parse_word32, parseWord_eq_some_iff (by norm_num)] at hparse
        obtain ⟨hmin, hmax, ⟨tail, rfl⟩, rfl⟩ := hparse
        exact ⟨_, tail, .word32 (by omega) (by omega), rfl, by simp [Nat.add_comm]⟩
      · rw [parse_word16, parseWord_eq_some_iff (by norm_num)] at hparse
        obtain ⟨hmin, hmax, ⟨tail, rfl⟩, rfl⟩ := hparse
        exact ⟨_, tail, .word16 (by omega) (by omega), rfl, by simp [Nat.add_comm]⟩
      · rw [parse_small rest hsmall] at hparse
        obtain ⟨rfl, rfl⟩ := Prod.mk.inj (Option.some.inj hparse)
        have hspelled : CompactSize first.toNat [UInt8.ofNat first.toNat] := .byte hsmall
        rw [UInt8.ofNat_toNat] at hspelled
        refine ⟨[first], rest, ?_, rfl, rfl⟩
        rwa [UInt64.toNat_ofNat', Nat.mod_eq_of_lt (by omega)]

/-- The parser accepts every CompactSize spelling, whatever follows it. -/
private theorem parse_append_of_word {word : Bytes} {value : UInt64}
    (hword : CompactSize value.toNat word) (rest : Bytes) :
    parse (word ++ rest) = some (value, word.length) := by
  cases hword with
  | byte hmax =>
      have hbyte : (UInt8.ofNat value.toNat).toNat = value.toNat := by
        rw [UInt8.toNat_ofNat', Nat.mod_eq_of_lt (by omega)]
      rw [List.singleton_append, parse_small rest (by omega), hbyte, UInt64.ofNat_toNat]
      rfl
  | word16 hmin hmax =>
      rw [List.cons_append, parse_word16, parseWord_eq_some_iff (by norm_num)]
      exact ⟨by omega, by omega, List.prefix_append _ _, by simp [Nat.add_comm]⟩
  | word32 hmin hmax =>
      rw [List.cons_append, parse_word32, parseWord_eq_some_iff (by norm_num)]
      exact ⟨by omega, by omega, List.prefix_append _ _, by simp [Nat.add_comm]⟩
  | word64 hmin hmax =>
      rw [List.cons_append, parse_word64, parseWord_eq_some_iff (by norm_num)]
      exact ⟨by omega, by omega, List.prefix_append _ _, by simp [Nat.add_comm]⟩

/-- The parser accepts exactly the CompactSize spellings at the front of its
input, and consumes the spelling. -/
theorem parse_eq_some_iff {bytes : Bytes} {value : UInt64} {stop : ℕ} :
    parse bytes = some (value, stop) ↔ Reads CompactSize bytes 0 stop value.toNat := by
  rw [reads_zero_iff]
  constructor
  · exact exists_word_of_parse
  · rintro ⟨word, rest, hword, rfl, rfl⟩
    exact parse_append_of_word hword rest

/-- The parser run on the tail of an input reads the input at that offset. -/
theorem parse_drop_eq_some_iff {bytes : Bytes} {value : UInt64} {start incr : ℕ}
    (hstart : start ≤ bytes.length) :
    parse (bytes.drop start) = some (value, incr) ↔
      Reads CompactSize bytes start (start + incr) value.toNat := by
  rw [parse_eq_some_iff, reads_drop_iff hstart]

/-- Parsing an encoding gives the value back, whatever follows it. -/
theorem parse_encode_append_eq (value : UInt64) (rest : Bytes) :
    parse (encode value ++ rest) = some (value, (encode value).length) :=
  parse_eq_some_iff.mpr (reads_zero_iff.mpr ⟨_, rest, compactSize_encode value, rfl, rfl⟩)

end Bip138.Ll.Varint
