/-
# The text form of a backup

A backup is taken as bytes or as their base64, with or without white space around it, and
the parsers that load and inspect it tell the two by how the input begins. The base64 of
what starts with the magic starts with text of its own, and neither that text nor white
space begins like a container, so the two forms are the same backup.
-/

import Bip138.Front.Metadata

namespace Bip138

open Bip138.Rust Bip138.Ll

/-- White space in ASCII. -/
def isAsciiWhitespace (char : Char) : Bool := decide (char.toNat < 0x80) && isWhitespace char

/-- The base64 of some bytes between two other texts. -/
def base64Text (before : List Char) (bytes : Bytes) (after : List Char) : Bytes :=
  asBytes (.ofList (before ++ encodeBase64 bytes ++ after))

/-- The padded text of any bytes is decoded to them. -/
def Base64Reads [Base64] : Prop :=
  ∀ bytes, Base64.decode (.ofList (encodeBase64 bytes)) = some bytes

section Forms

variable {before after : List Char} {bytes : Bytes}

/-- The text of what starts with the magic starts with that of the magic. -/
theorem encodeBase64_of_magic (hmagic : magic <+: bytes) :
    ∃ rest, encodeBase64 bytes = ['Q', 'k', 'l', 'Q', 'M', 'T', 'M', '4'] ++ rest := by
  obtain ⟨rest, rfl⟩ := hmagic
  refine ⟨encodeBase64 rest, ?_⟩
  rw [encodeBase64_append (by decide)]
  rfl

/-- Neither white space nor the text of the magic begins like a magic. -/
theorem head?_base64Text_ne (hmagic : magic <+: bytes)
    (hbefore : ∀ char ∈ before, isAsciiWhitespace char = true) (after : List Char) :
    (base64Text before bytes after).head? ≠ some 0x42 := by
  obtain ⟨rest, hrest⟩ := encodeBase64_of_magic hmagic
  rw [base64Text, hrest]
  cases before with
  | nil =>
      have hascii : 'Q'.toNat < 0x80 := by decide
      have hhead := head?_asBytes_ofList hascii
      simp only [List.nil_append, List.cons_append, hhead]
      decide
  | cons char before =>
      have hblank := hbefore char List.mem_cons_self
      rw [isAsciiWhitespace, Bool.and_eq_true, decide_eq_true_eq] at hblank
      simp only [List.cons_append, head?_asBytes_ofList hblank.1]
      intro hhead
      have hcode : char.toNat = 0x42 := by
        have hbyte := congrArg UInt8.toNat (Option.some.inj hhead)
        rw [UInt8.toNat_ofNat', Nat.mod_eq_of_lt (by omega)] at hbyte
        exact hbyte
      have hspace := toNat_mem_whitespaceCodes hblank.2
      rw [hcode] at hspace
      exact absurd hspace (by decide)

/-- The text is taken for a container of neither format. -/
theorem not_isPrefix_base64Text (hmagic : magic <+: bytes)
    (hbefore : ∀ char ∈ before, isAsciiWhitespace char = true) (after : List Char) :
    ¬ magic <+: base64Text before bytes after ∧ ¬ v0Magic <+: base64Text before bytes after := by
  have hhead := head?_base64Text_ne hmagic hbefore after
  constructor
  · rintro ⟨rest, hrest⟩
    rw [← hrest] at hhead
    exact hhead rfl
  · rintro ⟨rest, hrest⟩
    rw [← hrest] at hhead
    exact hhead rfl

theorem decode_trim_base64Text [Base64] (hreads : Base64Reads) (hmagic : magic <+: bytes)
    (hbefore : ∀ char ∈ before, isAsciiWhitespace char = true)
    (hafter : ∀ char ∈ after, isAsciiWhitespace char = true) :
    ∃ text, fromUtf8 (base64Text before bytes after) = some text ∧
      Base64.decode (trim text) = some bytes := by
  refine ⟨_, fromUtf8_asBytes _, ?_⟩
  have hne : encodeBase64 bytes ≠ [] := by
    obtain ⟨rest, hrest⟩ := encodeBase64_of_magic hmagic
    rw [hrest]
    exact List.cons_ne_nil _ _
  rw [trim_surrounded hne (fun char hchar => (Bool.and_eq_true_iff.mp (hbefore char hchar)).2)
    (fun char => isWhitespace_of_mem_encodeBase64)
    fun char hchar => (Bool.and_eq_true_iff.mp (hafter char hchar)).2]
  exact hreads bytes

/-- The bytes of a backup and their base64 mean the same. Whatever follows the magic, and
whatever ASCII white space stands around the text, the text is not mistaken for a container
in binary form, and it is loaded and inspected as the bytes are, or refused with the same
error. -/
theorem base64Text_alike [Target] [Base64] (hreads : Base64Reads) (hmagic : magic <+: bytes)
    (hbefore : ∀ char ∈ before, isAsciiWhitespace char = true)
    (hafter : ∀ char ∈ after, isAsciiWhitespace char = true) :
    (¬ magic <+: base64Text before bytes after ∧ ¬ v0Magic <+: base64Text before bytes after) ∧
    (∀ backup : EncryptedBackup, backup.setEncryptedPayload (base64Text before bytes after) =
      backup.setEncryptedPayload bytes) ∧
    EncryptedMetadata.fromEncryptedPayload (base64Text before bytes after) =
      EncryptedMetadata.fromEncryptedPayload bytes := by
  obtain ⟨hbinary, hv0⟩ := not_isPrefix_base64Text hmagic hbefore after
  obtain ⟨text, htext, hdecode⟩ := decode_trim_base64Text hreads hmagic hbefore hafter
  refine ⟨⟨hbinary, hv0⟩, fun backup => ?_, ?_⟩
  · rw [EncryptedBackup.setEncryptedPayload, EncryptedBackup.setEncryptedPayload, if_neg hbinary,
      if_neg hv0, if_pos hmagic, htext, Exec.okOr, Exec.ok_bind, hdecode, Exec.okOr, Exec.ok_bind]
  · rw [EncryptedMetadata.fromEncryptedPayload, EncryptedMetadata.fromEncryptedPayload,
      if_neg hbinary, if_neg hv0, if_pos hmagic, htext, Exec.okOr, Exec.ok_bind, hdecode,
      Exec.okOr, Exec.ok_bind]

end Forms

namespace EncryptedMetadata.Sample

theorem sextet_base64Char {value : ℕ} (hvalue : value < 64) :
    sextet (base64Char value) = some value := by
  have hall : ∀ value < 64, sextet (base64Char value) = some value := by decide
  exact hall value hvalue

theorem base64Char_ne_pad {value : ℕ} (hvalue : value < 64) : base64Char value ≠ '=' := by
  have hall : ∀ value < 64, base64Char value ≠ '=' := by decide
  exact hall value hvalue

/-- A whole group is decoded on its own. -/
theorem decodeGroups_cons {first second third fourth : ℕ} (hfirst : first < 64)
    (hsecond : second < 64) (hthird : third < 64) (hfourth : fourth < 64) (rest : List Char) :
    decodeGroups (base64Char first :: base64Char second :: base64Char third ::
      base64Char fourth :: rest) = (decodeGroups rest).map fun decoded =>
        .ofNat (first * 4 + second / 16) :: .ofNat (second * 16 + third / 4) ::
          .ofNat (third * 64 + fourth) :: decoded := by
  have hpad := base64Char_ne_pad hfourth
  rw [decodeGroups]
  · simp only [sextet_base64Char hfirst, sextet_base64Char hsecond, sextet_base64Char hthird,
      sextet_base64Char hfourth, Option.bind_eq_bind, Option.bind_some]
    rw [Option.map_eq_bind]
    rfl
  · exact fun _ hfinal _ => hpad hfinal
  · exact fun hfinal _ => hpad hfinal

/-- The sample decoder reads padded text. -/
theorem decodeGroups_encodeBase64 (bytes : Bytes) :
    decodeGroups (encodeBase64 bytes) = some bytes := by
  have hbyte : ∀ byte : UInt8, byte.toNat < 256 := UInt8.toNat_lt
  have hjoin : ∀ (byte : UInt8) value, value % 256 = byte.toNat → .ofNat value = byte := by
    intro byte value hvalue
    rw [← UInt8.toNat_inj, UInt8.toNat_ofNat', hvalue]
  fun_induction encodeBase64 bytes with
  | case1 => rfl
  | case2 first =>
      have hfirst := hbyte first
      rw [decodeGroups]
      simp only [sextet_base64Char (show first.toNat / 4 < 64 by omega),
        sextet_base64Char (show first.toNat % 4 * 16 < 64 by omega), Option.bind_eq_bind,
        Option.bind_some]
      rw [if_pos (by omega), hjoin first _ (by omega)]
  | case3 first second =>
      have hfirst := hbyte first
      have hsecond := hbyte second
      have hpad : base64Char (second.toNat % 16 * 4) ≠ '=' := base64Char_ne_pad (by omega)
      rw [decodeGroups]
      · simp only [sextet_base64Char (show first.toNat / 4 < 64 by omega),
          sextet_base64Char (show first.toNat % 4 * 16 + second.toNat / 16 < 64 by omega),
          sextet_base64Char (show second.toNat % 16 * 4 < 64 by omega), Option.bind_eq_bind,
          Option.bind_some]
        rw [if_pos (by omega), hjoin first _ (by omega), hjoin second _ (by omega)]
      · exact hpad
  | case4 first second third rest ih =>
      have hfirst := hbyte first
      have hsecond := hbyte second
      have hthird := hbyte third
      rw [decodeGroups_cons (by omega) (by omega) (by omega) (by omega), ih, Option.map_some,
        hjoin first _ (by omega), hjoin second _ (by omega), hjoin third _ (by omega)]

theorem base64Reads : Base64Reads := by
  intro bytes
  change decodeGroups (String.ofList (encodeBase64 bytes)).toList = some bytes
  rw [String.toList_ofList, decodeGroups_encodeBase64]

end EncryptedMetadata.Sample

open EncryptedMetadata.Sample in
/-- The text of the sample backup, indented and with a line feed behind it. -/
theorem base64Text_alike_sample :
    (¬ magic <+: base64Text [' '] sampleBackup.1 ['\n'] ∧
      ¬ v0Magic <+: base64Text [' '] sampleBackup.1 ['\n']) ∧
    (∀ backup : EncryptedBackup,
      @EncryptedBackup.setEncryptedPayload target64 _ backup
          (base64Text [' '] sampleBackup.1 ['\n']) =
        @EncryptedBackup.setEncryptedPayload target64 _ backup sampleBackup.1) ∧
    @EncryptedMetadata.fromEncryptedPayload target64 _
        (base64Text [' '] sampleBackup.1 ['\n']) =
      @EncryptedMetadata.fromEncryptedPayload target64 _ sampleBackup.1 :=
  @base64Text_alike [' '] ['\n'] sampleBackup.1 target64 standard base64Reads (by decide +kernel)
    (List.forall_mem_singleton.mpr rfl) (List.forall_mem_singleton.mpr rfl)

end Bip138
