/-
# Standard base64

The encoding of RFC 4648 with padding: three bytes are four characters of six bits each, and
one or two bytes at the end are two or three characters and the padding. What the text of
some bytes begins with is told by what the bytes begin with, a multiple of three at a time
(`encodeBase64_append`), and none of its characters is white space.
-/

import Bip138.Rust.Text

namespace Bip138.Rust

/-- The character of a value of six bits. -/
def base64Char (value : ℕ) : Char :=
  if value < 26 then .ofNat (65 + value)
  else if value < 52 then .ofNat (97 + (value - 26))
  else if value < 62 then .ofNat (48 + (value - 52))
  else if value = 62 then '+'
  else '/'

/-- The padded text of some bytes. -/
def encodeBase64 : Bytes → List Char
  | [] => []
  | [first] => [base64Char (first.toNat / 4), base64Char (first.toNat % 4 * 16), '=', '=']
  | [first, second] =>
      [base64Char (first.toNat / 4), base64Char (first.toNat % 4 * 16 + second.toNat / 16),
        base64Char (second.toNat % 16 * 4), '=']
  | first :: second :: third :: rest =>
      base64Char (first.toNat / 4) :: base64Char (first.toNat % 4 * 16 + second.toNat / 16) ::
        base64Char (second.toNat % 16 * 4 + third.toNat / 64) :: base64Char (third.toNat % 64) ::
        encodeBase64 rest

example : encodeBase64 [0x66, 0x6F, 0x6F, 0x62, 0x61] = "Zm9vYmE=".toList := by decide

/-- Whole groups of three bytes are written on their own. -/
theorem encodeBase64_append {front : Bytes} (hfront : front.length % 3 = 0) (rest : Bytes) :
    encodeBase64 (front ++ rest) = encodeBase64 front ++ encodeBase64 rest := by
  fun_induction encodeBase64 front with
  | case1 => rfl
  | case2 first => simp at hfront
  | case3 first second => simp at hfront
  | case4 first second third front ih =>
      simp only [List.length_cons] at hfront
      simp only [List.cons_append, encodeBase64]
      rw [ih (by omega)]

theorem length_encodeBase64 (bytes : Bytes) :
    (encodeBase64 bytes).length = 4 * ((bytes.length + 2) / 3) := by
  fun_induction encodeBase64 bytes with
  | case1 => rfl
  | case2 first => simp
  | case3 first second => simp
  | case4 first second third rest ih =>
      simp only [List.length_cons, ih]
      omega

/-- Whole groups of the text are the text of whole groups of bytes. -/
theorem take_encodeBase64 (bytes : Bytes) (groups : ℕ) :
    (encodeBase64 bytes).take (4 * groups) = encodeBase64 (bytes.take (3 * groups)) := by
  by_cases hlong : 3 * groups ≤ bytes.length
  · have hlength : (bytes.take (3 * groups)).length = 3 * groups := by
      rw [List.length_take, Nat.min_eq_left hlong]
    have hfront : (encodeBase64 (bytes.take (3 * groups))).length = 4 * groups := by
      rw [length_encodeBase64, hlength]
      omega
    conv_lhs => rw [← List.take_append_drop (3 * groups) bytes]
    rw [encodeBase64_append (by rw [hlength, Nat.mul_mod_right]), List.take_left' hfront]
  · have hshort : (encodeBase64 bytes).length ≤ 4 * groups := by
      rw [length_encodeBase64]
      omega
    rw [List.take_of_length_le hshort, List.take_of_length_le (by omega)]

/-- The alphabet: the characters of six bits, and the padding. -/
theorem mem_encodeBase64 {bytes : Bytes} {char : Char} (hchar : char ∈ encodeBase64 bytes) :
    char = '=' ∨ ∃ value < 64, char = base64Char value := by
  have hbyte : ∀ byte : UInt8, byte.toNat < 256 := UInt8.toNat_lt
  fun_induction encodeBase64 bytes with
  | case1 => cases hchar
  | case2 first =>
      have hfirst := hbyte first
      simp only [List.mem_cons, List.not_mem_nil, or_false] at hchar
      rcases hchar with rfl | rfl | rfl | rfl
      · exact .inr ⟨_, by omega, rfl⟩
      · exact .inr ⟨_, by omega, rfl⟩
      · exact .inl rfl
      · exact .inl rfl
  | case3 first second =>
      have hfirst := hbyte first
      have hsecond := hbyte second
      simp only [List.mem_cons, List.not_mem_nil, or_false] at hchar
      rcases hchar with rfl | rfl | rfl | rfl
      · exact .inr ⟨_, by omega, rfl⟩
      · exact .inr ⟨_, by omega, rfl⟩
      · exact .inr ⟨_, by omega, rfl⟩
      · exact .inl rfl
  | case4 first second third rest ih =>
      have hfirst := hbyte first
      have hsecond := hbyte second
      have hthird := hbyte third
      simp only [List.mem_cons] at hchar
      rcases hchar with rfl | rfl | rfl | rfl | hrest
      · exact .inr ⟨_, by omega, rfl⟩
      · exact .inr ⟨_, by omega, rfl⟩
      · exact .inr ⟨_, by omega, rfl⟩
      · exact .inr ⟨_, by omega, rfl⟩
      · exact ih hrest

/-- Every character of the text is one byte. -/
theorem utf8EncodeChar_of_mem_encodeBase64 {bytes : Bytes} {char : Char}
    (hchar : char ∈ encodeBase64 bytes) :
    String.utf8EncodeChar char = [UInt8.ofNat char.toNat] := by
  have hall : ∀ value < 64, String.utf8EncodeChar (base64Char value) =
      [UInt8.ofNat (base64Char value).toNat] := by decide
  rcases mem_encodeBase64 hchar with rfl | ⟨value, hvalue, rfl⟩
  · decide
  · exact hall value hvalue

theorem asBytes_of_subset_encodeBase64 {bytes : Bytes} {chars : List Char}
    (hchars : chars ⊆ encodeBase64 bytes) :
    asBytes (.ofList chars) = chars.map fun char => UInt8.ofNat char.toNat := by
  rw [asBytes_eq_flatMap, String.toList_ofList, List.map_eq_flatMap]
  exact List.flatMap_congr fun char hchar => utf8EncodeChar_of_mem_encodeBase64 (hchars hchar)

/-- So the bytes of the text are counted, and cut, as its characters are. -/
theorem length_asBytes_encodeBase64 (bytes : Bytes) :
    (asBytes (.ofList (encodeBase64 bytes))).length = (encodeBase64 bytes).length := by
  rw [asBytes_of_subset_encodeBase64 (List.Subset.refl _), List.length_map]

theorem take_asBytes_encodeBase64 (bytes : Bytes) (cut : ℕ) :
    (asBytes (.ofList (encodeBase64 bytes))).take cut =
      asBytes (.ofList ((encodeBase64 bytes).take cut)) := by
  rw [asBytes_of_subset_encodeBase64 (List.Subset.refl _),
    asBytes_of_subset_encodeBase64 (List.take_subset _ _), List.map_take]

/-- No character of the text is white space. -/
theorem isWhitespace_of_mem_encodeBase64 {bytes : Bytes} {char : Char}
    (hchar : char ∈ encodeBase64 bytes) : isWhitespace char = false := by
  have hall : ∀ value < 64, isWhitespace (base64Char value) = false := by decide
  rcases mem_encodeBase64 hchar with rfl | ⟨value, hvalue, rfl⟩
  · decide
  · exact hall value hvalue

end Bip138.Rust
