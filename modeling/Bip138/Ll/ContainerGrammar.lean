/-
# The grammar of the V1 container

Each field of the container as a format, and the parser of the field measured
against it. The parsers walk the input with strict next-byte checks, lookaheads
and unchecked additions; on any input a machine can hold, all of them together
accept exactly the grammar, and none of them panics.

The grammar says what was written, records and blocks in any order and with
repetitions; what a decoder reports are the sets of them.
-/

import Bip138.Wire.CompactSize
import Bip138.Wire.Counted
import Bip138.Ll.Container

namespace Bip138.Ll

open Bip138.Rust Bip138.Wire

/-- A child number, big-endian. -/
def ChildNumber : Format UInt8 UInt32 :=
  .ofEncode (fun _ => True) fun child => toBeBytes 4 child.toNat

/-- A path of one to `255` children. -/
def PathRecord : Format UInt8 DerivationPath := (Counted ChildNumber).filter (· ≠ [])

def PathTable : Format UInt8 (List DerivationPath) := Counted PathRecord

def SecretEntry : Format UInt8 (Block 32) := .ofEncode (fun _ => True) Subtype.val

/-- A table of one to `255` secrets. -/
def SecretTable : Format UInt8 (List (Block 32)) := (Counted SecretEntry).filter (· ≠ [])

def EncryptionByte : Format UInt8 UInt8 := .ofEncode (· ≠ 0) fun byte => [byte]

def Nonce : Format UInt8 (Block 12) := .ofEncode (· ≠ .zero 12) Subtype.val

def EncryptedPayload : Format UInt8 (Block 12 × Bytes) := Nonce.seq SizedData

/-- The magic and the version byte. -/
def Preamble : Format UInt8 Unit := .ofEncode (fun _ => True) fun _ => magic ++ [0x01]

/-- Everything before the encrypted payload. -/
def Header : Format UInt8 (Unit × List DerivationPath × List (Block 32) × UInt8) :=
  Preamble.seq (PathTable.seq (SecretTable.seq EncryptionByte))

def Container :
    Format UInt8 ((Unit × List DerivationPath × List (Block 32) × UInt8) × Block 12 × Bytes) :=
  Header.seq EncryptedPayload

/-! ## Spellings written out -/

/-- The one spelling of a path record. -/
def pathRecordBytes (path : DerivationPath) : Bytes :=
  UInt8.ofNat path.length :: path.flatMap fun child => toBeBytes 4 child.toNat

theorem pathRecord_iff {path : DerivationPath} {word : Bytes} :
    PathRecord path word ↔
      (path ≠ [] ∧ path.length ≤ u8Max) ∧ word = pathRecordBytes path := by
  simp only [PathRecord, Format.filter, Counted, ChildNumber, Format.many_ofEncode_iff]
  constructor
  · rintro ⟨hpath, hlength, _, ⟨-, rfl⟩, rfl⟩
    exact ⟨⟨hpath, hlength⟩, rfl⟩
  · rintro ⟨⟨hpath, hlength⟩, rfl⟩
    exact ⟨hpath, hlength, _, ⟨fun _ _ => trivial, rfl⟩, rfl⟩

theorem pathTable_iff {records : List DerivationPath} {word : Bytes} :
    PathTable records word ↔
      records.length ≤ u8Max ∧ (∀ path ∈ records, path ≠ [] ∧ path.length ≤ u8Max) ∧
        word = UInt8.ofNat records.length :: records.flatMap pathRecordBytes := by
  have hrecord : PathRecord =
      Format.ofEncode (fun path => path ≠ [] ∧ path.length ≤ u8Max) pathRecordBytes := by
    funext path word
    exact propext pathRecord_iff
  simp only [PathTable, Counted, hrecord, Format.many_ofEncode_iff]
  constructor
  · rintro ⟨hlength, _, ⟨hvalid, rfl⟩, rfl⟩
    exact ⟨hlength, hvalid, rfl⟩
  · rintro ⟨hlength, hvalid, rfl⟩
    exact ⟨hlength, _, ⟨hvalid, rfl⟩, rfl⟩

theorem secretTable_iff {blocks : List (Block 32)} {word : Bytes} :
    SecretTable blocks word ↔
      blocks ≠ [] ∧ blocks.length ≤ u8Max ∧
        word = UInt8.ofNat blocks.length :: blocks.flatMap Subtype.val := by
  simp only [SecretTable, Format.filter, Counted, SecretEntry, Format.many_ofEncode_iff]
  constructor
  · rintro ⟨hblocks, hlength, _, ⟨-, rfl⟩, rfl⟩
    exact ⟨hblocks, hlength, rfl⟩
  · rintro ⟨hblocks, hlength, rfl⟩
    exact ⟨hblocks, hlength, _, ⟨fun _ _ => trivial, rfl⟩, rfl⟩

/-- A container is its fields one after the other. -/
theorem container_iff {records : List DerivationPath} {blocks : List (Block 32)}
    {encryption : UInt8} {nonce : Block 12} {cyphertext word : Bytes} :
    Container (((), records, blocks, encryption), nonce, cyphertext) word ↔
      ∃ pathWord secretWord size, PathTable records pathWord ∧ SecretTable blocks secretWord ∧
        encryption ≠ 0 ∧ nonce ≠ .zero 12 ∧ CompactSize cyphertext.length size ∧
        word = magic ++ [0x01] ++ pathWord ++ secretWord ++ [encryption] ++ nonce.1 ++ size ++
          cyphertext := by
  constructor
  · rintro ⟨_, _, ⟨_, _, ⟨-, rfl⟩, ⟨pathWord, _, hpaths, ⟨secretWord, _, hsecrets,
      ⟨hencryption, rfl⟩, rfl⟩, rfl⟩, rfl⟩, ⟨_, _, ⟨hnonce, rfl⟩, ⟨size, hsize, rfl⟩, rfl⟩, rfl⟩
    exact ⟨pathWord, secretWord, size, hpaths, hsecrets, hencryption, hnonce, hsize, by simp⟩
  · rintro ⟨pathWord, secretWord, size, hpaths, hsecrets, hencryption, hnonce, hsize, rfl⟩
    exact ⟨_, _, ⟨_, _, ⟨trivial, rfl⟩, ⟨pathWord, _, hpaths, ⟨secretWord, _, hsecrets,
      ⟨hencryption, rfl⟩, rfl⟩, rfl⟩, rfl⟩, ⟨_, _, ⟨hnonce, rfl⟩, ⟨size, hsize, rfl⟩, rfl⟩,
      by simp⟩

/-! ## Reading the fields -/

section Fields

variable {input : Bytes} {start stop : ℕ}

/-- A block is read by taking its width in bytes. -/
theorem reads_block_iff {n : ℕ} {valid : Block n → Prop} {block : Block n} :
    Reads (.ofEncode valid Subtype.val) input start stop block ↔
      valid block ∧ stop = start + n ∧ stop ≤ input.length ∧
        (input.drop start).take n = block.1 := by
  rw [reads_ofEncode_iff]
  constructor
  · rintro ⟨hvalid, hfront, hstop, hle⟩
    rw [block.2] at hstop
    rw [List.prefix_iff_eq_take, block.2] at hfront
    exact ⟨hvalid, hstop, hle, hfront.symm⟩
  · rintro ⟨hvalid, hstop, hle, htake⟩
    refine ⟨hvalid, ?_, by rw [block.2, hstop], hle⟩
    rw [← htake]
    exact List.take_prefix n _

/-- A child number is read by taking four bytes. -/
theorem reads_childNumber_iff {child : UInt32} :
    Reads ChildNumber input start stop child ↔
      stop = start + 4 ∧ stop ≤ input.length ∧
        child = UInt32.ofNat (fromBeBytes ((input.drop start).take 4)) := by
  have hchild := child.toNat_lt
  rw [ChildNumber, reads_ofEncode_iff, length_toBeBytes]
  constructor
  · rintro ⟨-, hfront, hstop, hle⟩
    rw [List.prefix_iff_eq_take, length_toBeBytes] at hfront
    refine ⟨hstop, hle, ?_⟩
    rw [← hfront, fromBeBytes_toBeBytes (by omega), UInt32.ofNat_toNat]
  · rintro ⟨hstop, hle, hvalue⟩
    refine ⟨trivial, ?_, hstop, hle⟩
    have hwidth : ((input.drop start).take 4).length = 4 := by
      rw [List.length_take, List.length_drop]
      omega
    have hlt := fromBeBytes_lt ((input.drop start).take 4)
    have hwrite := toBeBytes_fromBeBytes ((input.drop start).take 4)
    rw [hwidth] at hlt hwrite
    rw [hvalue, UInt32.toNat_ofNat', Nat.mod_eq_of_lt (by omega), hwrite]
    exact List.take_prefix 4 _

theorem PathRecord.length_pos {path : DerivationPath} {word : Bytes}
    (hword : PathRecord path word) : 0 < word.length := hword.2.length_pos

/-- Reading a counted list moves past at least its count. -/
theorem lt_of_reads_counted {α : Type} {item : Format UInt8 α} {values : List α}
    (hreads : Reads (Counted item) input start stop values) : start < stop := by
  obtain ⟨word, hword, -, rfl, -⟩ := hreads
  have hpos := hword.length_pos
  omega

theorem reads_encryptionByte_iff {byte : UInt8} :
    Reads EncryptionByte input start stop byte ↔
      byte ≠ 0 ∧ input[start]? = some byte ∧ stop = start + 1 := by
  rw [EncryptionByte, reads_ofEncode_iff, List.length_singleton]
  constructor
  · rintro ⟨hvalid, ⟨rest, hrest⟩, hstop, -⟩
    refine ⟨hvalid, ?_, hstop⟩
    rw [← List.head?_drop, ← hrest]
    rfl
  · rintro ⟨hvalid, hbyte, hstop⟩
    obtain ⟨hlt, hget⟩ := List.getElem?_eq_some_iff.mp hbyte
    refine ⟨hvalid, ⟨input.drop (start + 1), ?_⟩, hstop, by omega⟩
    rw [List.drop_eq_getElem_cons hlt, hget, List.singleton_append]

theorem reads_preamble_iff :
    Reads Preamble input 0 stop () ↔
      magic <+: input ∧ (input.drop 6)[0]? = some 0x01 ∧ stop = 7 := by
  rw [Preamble, reads_zero_iff]
  constructor
  · rintro ⟨_, rest, ⟨-, rfl⟩, rfl, rfl⟩
    exact ⟨⟨0x01 :: rest, by simp⟩, rfl, rfl⟩
  · rintro ⟨⟨tail, rfl⟩, hversion, rfl⟩
    cases tail with
    | nil => cases hversion
    | cons version rest =>
        obtain rfl : version = 0x01 := Option.some.inj hversion
        exact ⟨_, rest, ⟨trivial, rfl⟩, by simp, rfl⟩

end Fields

section Parsers

variable [Target] {bytes : Bytes} {start stop : ℕ}

theorem parseChild_eq_ok_iff {childs later : DerivationPath}
    (hfits : bytes.length ≤ isizeMax) :
    parseChild bytes (start, childs) = .ok (stop, later) ↔
      ∃ child, Reads ChildNumber bytes start stop child ∧ later = childs ++ [child] := by
  have husize := two_mul_isizeMax_lt_usizeMax
  simp only [parseChild, reads_childNumber_iff, Exec.bind_eq_ok_iff,
    checkOffsetLookahead_eq_ok_iff, add_eq_ok_iff, slice_eq_ok_iff, Block.expect_eq_ok_iff,
    Except.ok.injEq, Prod.mk.injEq]
  constructor
  · rintro ⟨_, -, _, ⟨-, rfl⟩, _, ⟨-, hle, rfl⟩, block, hblock, _, ⟨-, rfl⟩, rfl, rfl⟩
    rw [← hblock, Nat.add_sub_cancel_left]
    exact ⟨_, ⟨rfl, hle, rfl⟩, rfl⟩
  · rintro ⟨child, ⟨rfl, hle, rfl⟩, rfl⟩
    have hwidth : ((bytes.drop start).take 4).length = 4 := by
      rw [List.length_take, List.length_drop]
      omega
    exact ⟨(), ⟨by omega, by omega, hle⟩, _, ⟨by omega, rfl⟩, _,
      ⟨by omega, hle, by rw [Nat.add_sub_cancel_left]⟩, ⟨_, hwidth⟩, rfl, _, ⟨by omega, rfl⟩,
      rfl, rfl⟩

/-- One pass of the outer loop reads one path record. -/
theorem parseDerivationPath_eq_ok_iff {paths later : BTreeSet DerivationPath}
    (hfits : bytes.length ≤ isizeMax) :
    parseDerivationPath bytes (start, paths) = .ok (stop, later) ↔
      ∃ path, Reads PathRecord bytes start stop path ∧ later = paths.insert path := by
  have husize := two_mul_isizeMax_lt_usizeMax
  have hloop : ∀ count first last childs, first ≤ bytes.length →
      (forRange (parseChild bytes) count (first, []) = .ok (last, childs) ↔
        childs.length = count ∧ Reads (Format.Many ChildNumber) bytes first last childs) := by
    intro count first last childs hfirst
    rw [forRange_reads (fun _ _ _ _ _ => parseChild_eq_ok_iff hfits) hfirst]
    simp only [foldl_concat, List.nil_append]
    constructor
    · rintro ⟨_, hcount, hreads, rfl⟩
      exact ⟨hcount, hreads⟩
    · rintro ⟨hcount, hreads⟩
      exact ⟨childs, hcount, hreads, rfl⟩
  simp only [parseDerivationPath, PathRecord, reads_filter_iff, reads_counted_iff,
    Exec.bind_eq_ok_iff, Exec.guard_eq_ok_iff, checkOffset_eq_ok_iff, index_eq_ok_iff,
    add_eq_ok_iff, Prod.exists, Except.ok.injEq, Prod.mk.injEq]
  constructor
  · rintro ⟨_, hstart, childCount, hcount, hnonzero, _, ⟨-, rfl⟩, last, childs, hchilds, rfl, rfl⟩
    obtain ⟨hlength, hreads⟩ := (hloop _ _ _ _ (by omega)).mp hchilds
    refine ⟨childs, ⟨?_, childCount, hcount, hlength, hreads⟩, rfl⟩
    rintro rfl
    exact hnonzero (UInt8.toNat_inj.mp (by simpa using hlength.symm))
  · rintro ⟨path, ⟨hpath, childCount, hcount, hlength, hreads⟩, rfl⟩
    obtain ⟨hstart, -⟩ := List.getElem?_eq_some_iff.mp hcount
    have hnonzero : childCount ≠ 0 := by
      rintro rfl
      exact hpath (List.length_eq_zero_iff.mp (by simpa using hlength))
    exact ⟨(), hstart, childCount, hcount, hnonzero, _, ⟨by omega, rfl⟩, stop, path,
      (hloop _ _ _ _ (by omega)).mpr ⟨hlength, hreads⟩, rfl, rfl⟩

/-- The derivation path parser reads a path table and reports the set of it. -/
theorem parseDerivationPaths_eq_ok_iff {paths : List DerivationPath}
    (hfits : bytes.length ≤ isizeMax) :
    parseDerivationPaths bytes = .ok (stop, paths) ↔
      ∃ records, Reads PathTable bytes 0 stop records ∧
        paths = (BTreeSet.collect records).toList := by
  have husize := two_mul_isizeMax_lt_usizeMax
  simp only [parseDerivationPaths, PathTable, reads_counted_iff, Exec.bind_eq_ok_iff,
    Exec.mapErr_eq_ok_iff, initOffset_eq_ok_iff, index_eq_ok_iff, Nat.zero_add]
  constructor
  · rintro ⟨_, ⟨hstart, rfl⟩, count, hcount, hrest⟩
    split at hrest
    · simp only [Exec.bind_eq_ok_iff, incrementOffset_eq_ok_iff, Prod.exists, Except.ok.injEq,
        Prod.mk.injEq] at hrest
      obtain ⟨_, ⟨-, hnext, rfl⟩, last, set, hset, rfl, rfl⟩ := hrest
      rw [Nat.zero_add, forRange_reads (fun _ _ _ _ _ => parseDerivationPath_eq_ok_iff hfits)
        (by omega)] at hset
      obtain ⟨records, hlength, hreads, rfl⟩ := hset
      exact ⟨records, ⟨count, hcount, hlength, hreads⟩, rfl⟩
    · rename_i hzero
      rw [not_not] at hzero
      subst hzero
      simp only [Exec.bind_eq_ok_iff, add_eq_ok_iff, Except.ok.injEq, Prod.mk.injEq] at hrest
      obtain ⟨_, ⟨-, rfl⟩, rfl, rfl⟩ := hrest
      exact ⟨[], ⟨0, hcount, rfl, reads_many_nil_iff.mpr ⟨rfl, hstart⟩⟩, rfl⟩
  · rintro ⟨records, ⟨count, hcount, hlength, hreads⟩, rfl⟩
    obtain ⟨hstart, -⟩ := List.getElem?_eq_some_iff.mp hcount
    refine ⟨0, ⟨hstart, rfl⟩, count, hcount, ?_⟩
    by_cases hzero : count = 0
    · subst hzero
      obtain rfl : records = [] := List.length_eq_zero_iff.mp (by simpa using hlength)
      obtain ⟨rfl, -⟩ := reads_many_nil_iff.mp hreads
      rw [if_neg (by simp)]
      simp only [Exec.bind_eq_ok_iff, add_eq_ok_iff, Except.ok.injEq, Prod.mk.injEq]
      exact ⟨1, ⟨by omega, rfl⟩, rfl, rfl⟩
    · have hpositive : 0 < records.length := by
        rw [hlength]
        exact Nat.pos_of_ne_zero fun hcount => hzero (UInt8.toNat_inj.mp (by simpa using hcount))
      have hnext : 1 < bytes.length := by
        have hstop := hreads.stop_le
        obtain ⟨word, hword, -, rfl, -⟩ := hreads
        have hword := Format.length_le_of_many (fun _ _ => PathRecord.length_pos) hword
        omega
      rw [if_pos hzero]
      simp only [Exec.bind_eq_ok_iff, incrementOffset_eq_ok_iff, Prod.exists, Except.ok.injEq,
        Prod.mk.injEq]
      refine ⟨1, ⟨by omega, by omega, rfl⟩, stop, .collect records, ?_, rfl, rfl⟩
      rw [forRange_reads (fun _ _ _ _ _ => parseDerivationPath_eq_ok_iff hfits) (by omega)]
      exact ⟨records, hlength, hreads, rfl⟩

theorem parseIndividualSecret_eq_ok_iff {secrets later : BTreeSet (Block 32)}
    (hfits : bytes.length ≤ isizeMax) :
    parseIndividualSecret bytes (start, secrets) = .ok (stop, later) ↔
      ∃ secret, Reads SecretEntry bytes start stop secret ∧ later = secrets.insert secret := by
  have husize := two_mul_isizeMax_lt_usizeMax
  simp only [parseIndividualSecret, SecretEntry, reads_block_iff, Exec.bind_eq_ok_iff,
    checkOffsetLookahead_eq_ok_iff, add_eq_ok_iff, slice_eq_ok_iff, Exec.okOr_eq_ok_iff,
    Block.tryFrom_eq_some_iff, Except.ok.injEq, Prod.mk.injEq, true_and]
  constructor
  · rintro ⟨_, -, _, ⟨-, rfl⟩, _, ⟨-, hle, rfl⟩, block, hblock, _, ⟨-, rfl⟩, rfl, rfl⟩
    rw [Nat.add_sub_cancel_left] at hblock
    exact ⟨block, ⟨rfl, hle, hblock⟩, rfl⟩
  · rintro ⟨block, ⟨rfl, hle, hblock⟩, rfl⟩
    exact ⟨(), ⟨by omega, by omega, hle⟩, _, ⟨by omega, rfl⟩, _,
      ⟨by omega, hle, by rw [Nat.add_sub_cancel_left]⟩, block, hblock, _, ⟨by omega, rfl⟩,
      rfl, rfl⟩

/-- The individual secret parser reads a secret table and reports the set of it. -/
theorem parseIndividualSecrets_eq_ok_iff {secrets : List (Block 32)}
    (hfits : bytes.length ≤ isizeMax) :
    parseIndividualSecrets bytes = .ok (stop, secrets) ↔
      ∃ blocks, Reads SecretTable bytes 0 stop blocks ∧
        secrets = (BTreeSet.collect blocks).toList := by
  have hpos : ∀ secret word, SecretEntry secret word → 0 < word.length := by
    rintro secret _ ⟨-, rfl⟩
    simp [secret.2]
  simp only [parseIndividualSecrets, SecretTable, reads_filter_iff, reads_counted_iff,
    Exec.guard_eq_ok_iff, Exec.bind_eq_ok_iff, index_eq_ok_iff, initOffset_eq_ok_iff, Prod.exists,
    Except.ok.injEq, Prod.mk.injEq, Nat.zero_add]
  constructor
  · rintro ⟨-, count, hcount, hpositive, _, ⟨hnext, rfl⟩, last, set, hset, rfl, rfl⟩
    rw [forRange_reads (fun _ _ _ _ _ => parseIndividualSecret_eq_ok_iff hfits) (by omega)] at hset
    obtain ⟨blocks, hlength, hreads, rfl⟩ := hset
    refine ⟨blocks, ⟨?_, count, hcount, hlength, hreads⟩, rfl⟩
    rintro rfl
    apply hpositive
    rw [UInt8.lt_iff_toNat_lt, ← hlength]
    decide
  · rintro ⟨blocks, ⟨hblocks, count, hcount, hlength, hreads⟩, rfl⟩
    obtain ⟨hstart, -⟩ := List.getElem?_eq_some_iff.mp hcount
    have hlengthPos := List.length_pos_iff.mpr hblocks
    have hpositive : ¬ count < 1 := by
      simp only [UInt8.lt_iff_toNat_lt, ← hlength, UInt8.reduceToNat]
      omega
    have hnext : 1 < bytes.length := by
      have hstop := hreads.stop_le
      obtain ⟨word, hword, -, rfl, -⟩ := hreads
      have hword := Format.length_le_of_many hpos hword
      omega
    refine ⟨List.ne_nil_of_length_pos hstart, count, hcount, hpositive, 1, ⟨hnext, rfl⟩, stop,
      .collect blocks, ?_, rfl, rfl⟩
    rw [forRange_reads (fun _ _ _ _ _ => parseIndividualSecret_eq_ok_iff hfits) (by omega)]
    exact ⟨blocks, hlength, hreads, rfl⟩

omit [Target] in
theorem parseMagicByte_eq_ok_iff :
    parseMagicByte bytes = .ok stop ↔ magic <+: bytes ∧ stop = magic.length := by
  have htaken : ¬ (bytes.length < magic.length ∨ bytes.take magic.length ≠ magic) ↔
      magic <+: bytes := by
    rw [not_or, not_lt, not_not, List.prefix_iff_eq_take, eq_comm, and_iff_right_iff_imp]
    intro htake
    rw [htake]
    exact List.length_take_le' _ _
  rw [parseMagicByte, Exec.guard_eq_ok_iff, htaken, Except.ok.injEq, eq_comm (a := stop)]

omit [Target] in
theorem parseVersion_eq_ok_iff {version : UInt8} :
    parseVersion bytes = .ok (stop, version) ↔
      bytes[0]? = some 0x01 ∧ version = 0x01 ∧ stop = 1 := by
  have hone : ∀ byte : UInt8, ¬ (byte = Version.v0.toU8 ∨ Version.max.toU8 < byte) ↔
      byte = 0x01 := by
    intro byte
    simp only [Version.max, Version.toU8, ← UInt8.toNat_inj, UInt8.lt_iff_toNat_lt,
      UInt8.reduceToNat]
    omega
  simp only [parseVersion, Exec.guard_eq_ok_iff, Exec.bind_eq_ok_iff, index_eq_ok_iff, hone,
    Except.ok.injEq, Prod.mk.injEq]
  constructor
  · rintro ⟨-, byte, hbyte, rfl, rfl, rfl⟩
    exact ⟨hbyte, rfl, rfl⟩
  · rintro ⟨hbyte, rfl, rfl⟩
    exact ⟨List.ne_nil_of_mem (List.mem_of_getElem? hbyte), 0x01, hbyte, rfl, rfl, rfl⟩

omit [Target] in
theorem parseEncryption_eq_ok_iff {encryption : UInt8} :
    parseEncryption bytes = .ok (stop, encryption) ↔
      Reads EncryptionByte bytes 0 stop encryption := by
  simp only [reads_encryptionByte_iff, parseEncryption, Exec.guard_eq_ok_iff, Exec.bind_eq_ok_iff,
    index_eq_ok_iff, Except.ok.injEq, Prod.mk.injEq]
  constructor
  · rintro ⟨-, byte, hbyte, hvalid, rfl, rfl⟩
    exact ⟨hvalid, hbyte, rfl⟩
  · rintro ⟨hvalid, hbyte, rfl⟩
    exact ⟨List.ne_nil_of_mem (List.mem_of_getElem? hbyte), encryption, hbyte, hvalid, rfl, rfl⟩

/-- The encrypted payload parser reads a nonce and sized data, and leaves what
follows. -/
theorem parseEncryptedPayload_eq_ok_iff {nonce : Block 12} {cyphertext : Bytes}
    (hfits : bytes.length ≤ isizeMax) :
    parseEncryptedPayload bytes = .ok (nonce, cyphertext) ↔
      ∃ stop, Reads EncryptedPayload bytes 0 stop (nonce, cyphertext) := by
  have husize := two_mul_isizeMax_lt_usizeMax
  have hwidth := usizeMax_lt_two_pow_64
  simp only [parseEncryptedPayload, EncryptedPayload, Nonce, reads_seq_iff, reads_block_iff,
    reads_sizedData_iff, Exec.bind_eq_ok_iff, initOffset_eq_ok_iff,
    checkOffsetLookahead_eq_ok_iff, add_eq_ok_iff, slice_eq_ok_iff, Block.expect_eq_ok_iff,
    Exec.guard_eq_ok_iff, incrementOffset_eq_ok_iff, sliceFrom_eq_ok_iff, Prod.exists,
    Exec.okOr_eq_ok_iff, usizeTryFrom_eq_some_iff, checkedAdd_eq_some_iff, Except.ok.injEq,
    Prod.mk.injEq]
  constructor
  · rintro ⟨_, ⟨-, rfl⟩, _, -, _, ⟨-, rfl⟩, _, ⟨-, htwelve, rfl⟩, block, hblock, hnonzero, _,
      ⟨-, -, rfl⟩, _, ⟨hmiddle, rfl⟩, dataLen, incr, hsize, _, ⟨-, rfl⟩, _, ⟨-, rfl⟩, _,
      ⟨-, -, hstop⟩, _, ⟨-, rfl⟩, _, ⟨-, -, rfl⟩, rfl, rfl⟩
    rw [Varint.parse_drop_eq_some_iff hmiddle] at hsize
    refine ⟨_, _, ⟨hnonzero, rfl, htwelve, by simpa using hblock⟩, _, _, hsize, rfl, hstop, ?_⟩
    rw [Nat.add_sub_cancel_left]
  · rintro ⟨_, _, ⟨hnonzero, rfl, htwelve, hblock⟩, first, size, hsize, rfl, hstop, rfl⟩
    have hfirst := hsize.start_le
    have hnext : 0 + 12 < first := by
      obtain ⟨word, hword, -, rfl, -⟩ := hsize
      have hpos := hword.length_pos
      omega
    have hvalue : (UInt64.ofNat size).toNat = size := by
      rw [UInt64.toNat_ofNat', Nat.mod_eq_of_lt (by omega)]
    obtain ⟨incr, rfl⟩ := Nat.exists_eq_add_of_le hfirst
    refine ⟨0, ⟨by omega, rfl⟩, (), ⟨by omega, by omega, htwelve⟩, _, ⟨by omega, rfl⟩, _,
      ⟨by omega, htwelve, rfl⟩, nonce, by simpa using hblock, hnonzero, _,
      ⟨by omega, by omega, rfl⟩, _, ⟨htwelve, rfl⟩, UInt64.ofNat size, incr, ?_, size,
      ⟨by omega, hvalue.symm⟩, _, ⟨by omega, rfl⟩, (), ⟨by omega, by omega, hstop⟩, _,
      ⟨by omega, rfl⟩, _, ⟨by omega, hstop, rfl⟩, rfl, by rw [Nat.add_sub_cancel_left]⟩
    rwa [Varint.parse_drop_eq_some_iff htwelve, hvalue]

/-- The header parser reads a header that is not the end of the input. -/
theorem parseV1Header_eq_ok_iff {paths : List DerivationPath} {secrets : List (Block 32)}
    {encryption : UInt8} (hfits : bytes.length ≤ isizeMax) :
    parseV1Header bytes = .ok (stop, paths, secrets, encryption) ↔
      ∃ records blocks, Reads Header bytes 0 stop ((), records, blocks, encryption) ∧
        stop < bytes.length ∧ paths = (BTreeSet.collect records).toList ∧
        secrets = (BTreeSet.collect blocks).toList := by
  have husize := two_mul_isizeMax_lt_usizeMax
  have htail : ∀ start, (bytes.drop start).length ≤ isizeMax := by
    intro start
    rw [List.length_drop]
    omega
  simp only [parseV1Header, Header, reads_seq_iff, reads_preamble_iff, Exec.bind_eq_ok_iff,
    Prod.exists, parseMagicByte_eq_ok_iff, initOffset_eq_ok_iff, sliceFrom_eq_ok_iff,
    parseVersion_eq_ok_iff, incrementOffset_eq_ok_iff, parseEncryption_eq_ok_iff,
    Except.ok.injEq, Prod.mk.injEq]
  constructor
  · rintro ⟨_, ⟨hmagic, rfl⟩, _, ⟨-, rfl⟩, _, ⟨-, rfl⟩, _, version, ⟨hversion, -, rfl⟩, _,
      ⟨-, hversionStop, rfl⟩, _, ⟨-, rfl⟩, pathIncr, _, hpaths, _, ⟨-, hpathStop, rfl⟩, _,
      ⟨-, rfl⟩, secretIncr, _, hsecrets, _, ⟨-, hsecretStop, rfl⟩, _, ⟨-, rfl⟩, encryptionIncr, _,
      hencryption, _, ⟨-, hstop, rfl⟩, rfl, rfl, rfl, rfl⟩
    rw [parseDerivationPaths_eq_ok_iff (htail _)] at hpaths
    rw [parseIndividualSecrets_eq_ok_iff (htail _)] at hsecrets
    obtain ⟨records, hrecords, rfl⟩ := hpaths
    obtain ⟨blocks, hblocks, rfl⟩ := hsecrets
    rw [reads_drop_iff hversionStop.le] at hrecords
    rw [reads_drop_iff hpathStop.le] at hblocks
    rw [reads_drop_iff hsecretStop.le] at hencryption
    exact ⟨records, blocks, ⟨_, ⟨hmagic, hversion, rfl⟩, _, hrecords, _, hblocks, hencryption⟩,
      hstop, rfl, rfl⟩
  · rintro ⟨records, blocks, ⟨_, ⟨hmagic, hversion, rfl⟩, pathStop, hrecords, secretStop, hblocks,
      hencryption⟩, hstop, rfl, rfl⟩
    have hpathLt := lt_of_reads_counted hrecords
    have hsecretLt := lt_of_reads_counted (reads_filter_iff.mp hblocks).2
    have hencryptionLt : secretStop < stop := by
      have hbyte := (reads_encryptionByte_iff.mp hencryption).2.2
      omega
    obtain ⟨pathIncr, rfl⟩ := Nat.exists_eq_add_of_le hpathLt.le
    obtain ⟨secretIncr, rfl⟩ := Nat.exists_eq_add_of_le hsecretLt.le
    obtain ⟨encryptionIncr, rfl⟩ := Nat.exists_eq_add_of_le hencryptionLt.le
    have hmagicLength : magic.length = 6 := rfl
    refine ⟨_, ⟨hmagic, rfl⟩, _, ⟨by omega, rfl⟩, _, ⟨by omega, rfl⟩, 1, 0x01,
      ⟨hversion, rfl, rfl⟩, _, ⟨by omega, by omega, rfl⟩, _, ⟨by omega, rfl⟩, pathIncr, _,
      (parseDerivationPaths_eq_ok_iff (htail _)).mpr ⟨records, ?_, rfl⟩, _,
      ⟨by omega, by omega, rfl⟩, _, ⟨by omega, rfl⟩, secretIncr, _,
      (parseIndividualSecrets_eq_ok_iff (htail _)).mpr ⟨blocks, ?_, rfl⟩, _,
      ⟨by omega, by omega, rfl⟩, _, ⟨by omega, rfl⟩, encryptionIncr, _, ?_, _,
      ⟨by omega, by omega, rfl⟩, rfl, rfl, rfl, rfl⟩
    · rwa [reads_drop_iff (by omega)]
    · rwa [reads_drop_iff (by omega)]
    · rwa [reads_drop_iff (by omega)]

/-- The decoder reads a container and reports the sets of its paths and secrets. -/
theorem decodeV1_eq_ok_iff {paths : List DerivationPath} {secrets : List (Block 32)}
    {encryption : UInt8} {nonce : Block 12} {cyphertext : Bytes}
    (hfits : bytes.length ≤ isizeMax) :
    decodeV1 bytes = .ok (paths, secrets, encryption, nonce, cyphertext) ↔
      ∃ records blocks stop,
        Reads Container bytes 0 stop (((), records, blocks, encryption), nonce, cyphertext) ∧
        paths = (BTreeSet.collect records).toList ∧
        secrets = (BTreeSet.collect blocks).toList := by
  have htail : ∀ start, (bytes.drop start).length ≤ isizeMax := by
    intro start
    rw [List.length_drop]
    omega
  simp only [decodeV1, Container, reads_seq_iff, Exec.bind_eq_ok_iff, Prod.exists,
    parseV1Header_eq_ok_iff hfits, sliceFrom_eq_ok_iff, Except.ok.injEq, Prod.mk.injEq]
  constructor
  · rintro ⟨middle, _, _, _, ⟨records, blocks, hheader, hmiddle, rfl, rfl⟩, _, ⟨-, rfl⟩, _, _,
      hpayload, rfl, rfl, rfl, rfl, rfl⟩
    obtain ⟨incr, hpayload⟩ := (parseEncryptedPayload_eq_ok_iff (htail _)).mp hpayload
    rw [reads_drop_iff hmiddle.le] at hpayload
    exact ⟨records, blocks, _, ⟨middle, hheader, hpayload⟩, rfl, rfl⟩
  · rintro ⟨records, blocks, stop, ⟨middle, hheader, hpayload⟩, rfl, rfl⟩
    have hmiddle : middle < bytes.length := by
      obtain ⟨_, hnonce, hdata⟩ := reads_seq_iff.mp hpayload
      have hstop := (reads_block_iff.mp hnonce).2.1
      have hle := hnonce.stop_le
      omega
    obtain ⟨incr, rfl⟩ := Nat.exists_eq_add_of_le hpayload.start_le
    exact ⟨middle, _, _, encryption, ⟨records, blocks, hheader, hmiddle, rfl, rfl⟩, _,
      ⟨hmiddle.le, rfl⟩, nonce, cyphertext, (parseEncryptedPayload_eq_ok_iff (htail _)).mpr
        ⟨incr, (reads_drop_iff hmiddle.le).mpr hpayload⟩, rfl, rfl, rfl, rfl, rfl⟩

/-- The cyphertext is a part of the container. -/
theorem length_le_of_decodeV1 {paths : List DerivationPath} {secrets : List (Block 32)}
    {encryption : UInt8} {nonce : Block 12} {cyphertext : Bytes} (hfits : bytes.length ≤ isizeMax)
    (hdecode : decodeV1 bytes = .ok (paths, secrets, encryption, nonce, cyphertext)) :
    cyphertext.length ≤ bytes.length := by
  obtain ⟨records, blocks, stop, hreads, -⟩ := (decodeV1_eq_ok_iff hfits).mp hdecode
  obtain ⟨word, rest, hword, rfl, -⟩ := reads_zero_iff.mp hreads
  obtain ⟨-, -, size, -, -, -, -, -, rfl⟩ := container_iff.mp hword
  simp only [List.length_append]
  omega

/-- What a container decodes to is not affected by bytes after it. -/
theorem decodeV1_of_isPrefix {longer : Bytes} (hfits : longer.length ≤ isizeMax)
    (hfront : bytes <+: longer)
    {parts : List DerivationPath × List (Block 32) × UInt8 × Block 12 × Bytes}
    (hdecode : decodeV1 bytes = .ok parts) : decodeV1 longer = .ok parts := by
  obtain ⟨paths, secrets, encryption, nonce, cyphertext⟩ := parts
  have hbytes : bytes.length ≤ isizeMax := le_trans hfront.length_le hfits
  obtain ⟨records, blocks, stop, hreads, hpaths, hsecrets⟩ := (decodeV1_eq_ok_iff hbytes).mp hdecode
  obtain ⟨word, rest, hword, rfl, rfl⟩ := reads_zero_iff.mp hreads
  obtain ⟨trailing, rfl⟩ := hfront
  refine (decodeV1_eq_ok_iff hfits).mpr ⟨records, blocks, _, reads_zero_iff.mpr
    ⟨word, rest ++ trailing, hword, by rw [List.append_assoc], rfl⟩, hpaths, hsecrets⟩

/-- The decoder and the container grammar agree on every byte string: it is
decoded exactly when it starts with the magic, version one, at most `255` path
records, one to `255` secret blocks, a non-zero encryption byte, a non-zero nonce
and a minimally sized cyphertext; and bytes after that change nothing. -/
theorem decodeV1_iff_container (bytes : Slice) :
    (∀ paths secrets encryption nonce cyphertext,
      decodeV1 bytes.1 = .ok (paths, secrets, encryption, nonce, cyphertext) ↔
        ∃ (records : List DerivationPath) (blocks : List (Block 32)) (size rest : Bytes),
          records.length ≤ 255 ∧ (∀ path ∈ records, 1 ≤ path.length ∧ path.length ≤ 255) ∧
          1 ≤ blocks.length ∧ blocks.length ≤ 255 ∧ encryption ≠ 0 ∧ nonce ≠ .zero 12 ∧
          CompactSize cyphertext.length size ∧
          bytes.1 = magic ++ [0x01] ++
            (UInt8.ofNat records.length :: records.flatMap pathRecordBytes) ++
            (UInt8.ofNat blocks.length :: blocks.flatMap Subtype.val) ++
            [encryption] ++ nonce.1 ++ size ++ cyphertext ++ rest ∧
          paths = (BTreeSet.collect records).toList ∧
          secrets = (BTreeSet.collect blocks).toList) ∧
      ∀ (longer : Slice) parts, bytes.1 <+: longer.1 →
        decodeV1 bytes.1 = .ok parts → decodeV1 longer.1 = .ok parts := by
  obtain ⟨bytes, hfits⟩ := bytes
  refine ⟨fun paths secrets encryption nonce cyphertext => ?_,
    fun longer parts hfront hdecode => decodeV1_of_isPrefix longer.2 hfront hdecode⟩
  simp only [decodeV1_eq_ok_iff hfits, reads_zero_iff, container_iff, pathTable_iff,
    secretTable_iff, ← List.length_pos_iff, Nat.lt_iff_add_one_le, Nat.zero_add]
  constructor
  · rintro ⟨records, blocks, _, ⟨_, rest, ⟨_, _, size, ⟨hrecords, hpaths, rfl⟩,
      ⟨hblocks, hcount, rfl⟩, hencryption, hnonce, hsize, rfl⟩, hbytes, -⟩, rfl, rfl⟩
    exact ⟨records, blocks, size, rest, hrecords, hpaths, hblocks, hcount, hencryption, hnonce,
      hsize, hbytes, rfl, rfl⟩
  · rintro ⟨records, blocks, size, rest, hrecords, hpaths, hblocks, hcount, hencryption, hnonce,
      hsize, hbytes, rfl, rfl⟩
    exact ⟨records, blocks, _, ⟨_, rest, ⟨_, _, size, ⟨hrecords, hpaths, rfl⟩,
      ⟨hblocks, hcount, rfl⟩, hencryption, hnonce, hsize, rfl⟩, hbytes, rfl⟩, rfl, rfl⟩

/-- What decodes starts with the magic and has version `1`. -/
theorem decodeVersion_of_decodeV1
    {result : List DerivationPath × List (Block 32) × UInt8 × Block 12 × Bytes}
    (hdecode : decodeV1 bytes = .ok result) :
    magic <+: bytes ∧ decodeVersion bytes = .ok 0x01 := by
  obtain ⟨header, hheader, -⟩ := Exec.bind_eq_ok_iff.mp hdecode
  obtain ⟨start, hmagic, hheader⟩ := Exec.bind_eq_ok_iff.mp hheader
  obtain ⟨offset, hoffset, hheader⟩ := Exec.bind_eq_ok_iff.mp hheader
  obtain ⟨tail, htail, hheader⟩ := Exec.bind_eq_ok_iff.mp hheader
  obtain ⟨⟨incr, version⟩, hversion, -⟩ := Exec.bind_eq_ok_iff.mp hheader
  obtain ⟨-, rfl, -⟩ := parseVersion_eq_ok_iff.mp hversion
  refine ⟨(parseMagicByte_eq_ok_iff.mp hmagic).1, ?_⟩
  rw [decodeVersion, hmagic, Exec.ok_bind, hoffset, Exec.ok_bind, htail, Exec.ok_bind, hversion,
    Exec.ok_bind]

/-- The paths of what decodes can be read alone. -/
theorem decodeDerivationPaths_of_decodeV1 {paths : List DerivationPath}
    {rest : List (Block 32) × UInt8 × Block 12 × Bytes}
    (hdecode : decodeV1 bytes = .ok (paths, rest)) : decodeDerivationPaths bytes = .ok paths := by
  obtain ⟨⟨behind, header⟩, hheader, hpayload⟩ := Exec.bind_eq_ok_iff.mp hdecode
  obtain ⟨start, hmagic, hheader⟩ := Exec.bind_eq_ok_iff.mp hheader
  obtain ⟨offset, hoffset, hheader⟩ := Exec.bind_eq_ok_iff.mp hheader
  obtain ⟨tail, htail, hheader⟩ := Exec.bind_eq_ok_iff.mp hheader
  obtain ⟨⟨size, version⟩, hversion, hheader⟩ := Exec.bind_eq_ok_iff.mp hheader
  obtain ⟨offset', hoffset', hheader⟩ := Exec.bind_eq_ok_iff.mp hheader
  obtain ⟨tail', htail', hheader⟩ := Exec.bind_eq_ok_iff.mp hheader
  obtain ⟨⟨incr, stored⟩, hpaths, hheader⟩ := Exec.bind_eq_ok_iff.mp hheader
  have hsame : stored = paths := by
    simp only [Exec.bind_eq_ok_iff, Except.ok.injEq] at hheader hpayload
    obtain ⟨_, -, _, -, _, -, _, -, _, -, _, -, _, -, hheader⟩ := hheader
    obtain ⟨_, -, _, -, hpayload⟩ := hpayload
    cases hheader
    exact (Prod.mk.inj hpayload).1
  simp only [decodeDerivationPaths, hmagic, hoffset, htail, hversion, hoffset', htail', hpaths,
    hsame, Exec.ok_bind]

end Parsers

/-! ## Writing the fields -/

section Encoders

private theorem encodeDerivationPath_eq_ok_iff {path : DerivationPath} {word : Bytes} :
    encodeDerivationPath path = .ok word ↔
      (path ≠ [] ∧ path.length ≤ u8Max) ∧ word = pathRecordBytes path := by
  rw [encodeDerivationPath, Exec.guard_eq_ok_iff, Exec.guard_eq_ok_iff, List.length_eq_zero_iff,
    not_lt, Except.ok.injEq, eq_comm (a := word), and_assoc]
  rfl

/-- The path encoder writes the path table of the set of its paths, and refuses
an empty path and what a byte cannot count. -/
theorem encodeDerivationPaths_eq_ok_iff {paths : List DerivationPath} {word : Bytes} :
    encodeDerivationPaths paths = .ok word ↔
      PathTable (BTreeSet.collect paths).toList word := by
  simp only [encodeDerivationPaths, sortDedup_eq, pathTable_iff, Exec.guard_eq_ok_iff, not_lt,
    Exec.bind_eq_ok_iff, Exec.mapM_eq_ok_iff fun _ _ => encodeDerivationPath_eq_ok_iff,
    Except.ok.injEq]
  refine and_congr_right fun _ => ?_
  constructor
  · rintro ⟨_, ⟨hvalid, rfl⟩, rfl⟩
    exact ⟨hvalid, rfl⟩
  · rintro ⟨hvalid, rfl⟩
    exact ⟨_, ⟨hvalid, rfl⟩, rfl⟩

/-- The secret encoder writes the secret table of the set of its secrets. -/
theorem encodeIndividualSecrets_eq_ok_iff {secrets : List (Block 32)} {word : Bytes} :
    encodeIndividualSecrets secrets = .ok word ↔
      SecretTable (BTreeSet.collect secrets).toList word := by
  simp only [encodeIndividualSecrets, sortDedup_eq, secretTable_iff]
  rw [Exec.guard_eq_ok_iff, Exec.guard_eq_ok_iff, not_lt, Except.ok.injEq, eq_comm (a := word),
    and_left_comm]

theorem encodeEncryptedPayload_eq_ok_iff {nonce : Block 12} {cyphertext word : Bytes} :
    encodeEncryptedPayload nonce cyphertext = .ok word ↔
      cyphertext ≠ [] ∧
        word = nonce.1 ++ Varint.encode (UInt64.ofNat cyphertext.length) ++ cyphertext := by
  rw [encodeEncryptedPayload]
  split
  · rename_i hempty
    simp [hempty]
  · rename_i hnonempty
    simp [hnonempty, eq_comm]

end Encoders

end Bip138.Ll
