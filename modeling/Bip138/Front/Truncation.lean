/-
# Files that are cut

A backup is kept as a file, in binary form or as base64. When the file lost its end, it is
not a backup any more: wherever it was cut, loading it and inspecting it end with an error
(`refused_of_cut`), so nobody is told of a part of a backup as of the whole.

A cut binary file may be too short for the magic, and is then taken for text; a cut text is
the text of a cut backup when whole groups of it are left, and no base64 otherwise.
-/

import Bip138.Ll.Truncation
import Bip138.Front.TextForm

namespace Bip138

open Bip138.Rust Bip138.Wire Bip138.Ll

variable {ρ : Type}

/-- The text form of a backup. -/
def Encrypted.toBase64 [Base64] (encrypted : Encrypted) : String := Base64.encode encrypted.bytes

/-- Bytes are encoded to whole groups, with padding. -/
def Base64Writes [Base64] : Prop := ∀ bytes, Base64.encode bytes = .ofList (encodeBase64 bytes)

/-- Text that is decoded consists of whole groups. -/
def Base64Whole [Base64] : Prop :=
  ∀ text decoded, Base64.decode text = some decoded → 4 ∣ text.toList.length

/-- Loading an input and inspecting it both end with an error. -/
structure Refused [Target] [Base64] (input : Bytes) : Prop where
  load : ∀ backup : EncryptedBackup, ∃ cause, backup.setEncryptedPayload input = .fail cause
  inspect : ∃ cause, EncryptedMetadata.fromEncryptedPayload input = .fail cause

section Forms

variable [Target] {bytes input : Bytes}

theorem exists_decodeV1_eq_fail (hfits : bytes.length ≤ isizeMax) (hmagic : ¬ magic <+: bytes) :
    ∃ cause, decodeV1 bytes = .fail cause :=
  (returns_decodeV1 hfits).resolve_left fun ⟨_, hdecode⟩ =>
    hmagic (decodeVersion_of_decodeV1 hdecode).1

/-- Behind the recognition of its form a container that does not decode is refused. -/
theorem exists_binary_eq_fail (hv0 : ¬ v0Magic <+: bytes)
    (hdecode : ∃ cause, decodeV1 bytes = .fail cause) :
    (∀ backup : EncryptedBackup, ∃ cause, backup.setEncryptedPayloadBinary bytes = .fail cause) ∧
      ∃ cause, EncryptedMetadata.fromBinaryEncryptedPayload bytes = .fail cause := by
  obtain ⟨cause, hdecode⟩ := hdecode
  simp only [EncryptedBackup.setEncryptedPayloadBinary,
    EncryptedMetadata.fromBinaryEncryptedPayload, if_neg hv0, hdecode]
  have hreturns : (decodeVersion bytes).Returns := returns_decodeVersion
  obtain ⟨version, hversion⟩ | ⟨other, hversion⟩ := hreturns
  · rw [hversion]
    simp only [Exec.mapErr, Exec.ok_bind]
    cases Version.ofU8 version with
    | v1 => exact ⟨fun _ => ⟨_, rfl⟩, _, rfl⟩
    | v0 | unknown => exact ⟨fun _ => ⟨_, rfl⟩, _, rfl⟩
  · rw [hversion]
    exact ⟨fun _ => ⟨_, rfl⟩, _, rfl⟩

variable [Base64]

theorem refused_of_binary (hmagic : magic <+: input) (hv0 : ¬ v0Magic <+: input)
    (hdecode : ∃ cause, decodeV1 input = .fail cause) : Refused input := by
  obtain ⟨hload, hinspect⟩ := exists_binary_eq_fail hv0 hdecode
  refine ⟨fun backup => ?_, ?_⟩
  · rw [EncryptedBackup.setEncryptedPayload, if_pos hmagic]
    exact hload backup
  · rwa [EncryptedMetadata.fromEncryptedPayload, if_pos hmagic]

/-- Text that is base64 of nothing that decodes is refused. -/
theorem refused_of_text {chars : List Char} (hinput : input = asBytes (.ofList chars))
    (hvisible : ∀ char ∈ chars, isWhitespace char = false) (hmagic : ¬ magic <+: input)
    (hv0 : ¬ v0Magic <+: input)
    (hdecode : ∀ decoded, Base64.decode (.ofList chars) = some decoded →
      ¬ v0Magic <+: decoded ∧ ∃ cause, decodeV1 decoded = .fail cause) : Refused input := by
  have htrim : trim (.ofList chars) = .ofList chars := by
    rcases chars with _ | ⟨char, chars⟩
    · rfl
    · have hsurrounded := @trim_surrounded [] (char :: chars) [] (List.cons_ne_nil char chars)
        (fun _ hchar => absurd hchar List.not_mem_nil) hvisible
        fun _ hchar => absurd hchar List.not_mem_nil
      rwa [List.nil_append, List.append_nil] at hsurrounded
  have htext : fromUtf8 input = some (.ofList chars) := fromUtf8_eq_some_iff.mpr hinput
  rcases hdecoded : Base64.decode (.ofList chars) with _ | decoded
  · refine ⟨fun backup => ⟨.base64, ?_⟩, .base64, ?_⟩
    · rw [EncryptedBackup.setEncryptedPayload, if_neg hmagic, if_neg hv0, htext, Exec.okOr,
        Exec.ok_bind, htrim, hdecoded]
      rfl
    · rw [EncryptedMetadata.fromEncryptedPayload, if_neg hmagic, if_neg hv0, htext, Exec.okOr,
        Exec.ok_bind, htrim, hdecoded]
      rfl
  · obtain ⟨hv0Decoded, hfails⟩ := hdecode decoded hdecoded
    obtain ⟨hload, hinspect⟩ := exists_binary_eq_fail hv0Decoded hfails
    refine ⟨fun backup => ?_, ?_⟩
    · rw [EncryptedBackup.setEncryptedPayload, if_neg hmagic, if_neg hv0, htext, Exec.okOr,
        Exec.ok_bind, htrim, hdecoded, Exec.okOr, Exec.ok_bind]
      exact hload backup
    · rwa [EncryptedMetadata.fromEncryptedPayload, if_neg hmagic, if_neg hv0, htext, Exec.okOr,
        Exec.ok_bind, htrim, hdecoded, Exec.okOr, Exec.ok_bind]

end Forms

section Cut

variable [Target] [Base64] {bytes : Bytes}
  {parts : (Unit × List DerivationPath × List (Block 32) × UInt8) × Block 12 × Bytes}

omit [Target] [Base64] in
theorem not_v0Magic_of_isPrefix {left : Bytes} (hmagic : magic <+: bytes) (hleft : left <+: bytes) :
    ¬ v0Magic <+: left := by
  intro hv0
  obtain ⟨tail, rfl⟩ := hmagic
  have hfront := (hv0.trans hleft)
  simp [v0Magic, magic] at hfront

/-- A container without its end is refused in binary form. -/
theorem refused_take (hreads : Base64Reads) (hwhole : Base64Whole)
    (hfits : bytes.length ≤ isizeMax) (hcontainer : Reads Container bytes 0 bytes.length parts)
    (hmagic : magic <+: bytes) {cut : ℕ} (hcut : cut < bytes.length) :
    Refused (bytes.take cut) := by
  have hv0 := not_v0Magic_of_isPrefix hmagic (List.take_prefix cut bytes)
  by_cases hwide : magic <+: bytes.take cut
  · exact refused_of_binary hwide hv0 (exists_decodeV1_take_eq_fail hfits hcontainer hcut)
  · -- what is left of the magic is text of its own, and base64 at no or at four characters
    obtain ⟨tail, rfl⟩ := hmagic
    have hnarrow : cut ≤ 5 := by
      by_contra hlong
      refine hwide ((List.prefix_take_iff).mpr ⟨List.prefix_append _ _, ?_⟩)
      simp only [magic, List.length_cons, List.length_nil]
      omega
    have hinput : (magic ++ tail).take cut =
        asBytes (.ofList (['B', 'I', 'P', '1', '3', '8'].take cut)) := by
      have hall : ∀ cut < 6, magic.take cut =
          asBytes (.ofList (['B', 'I', 'P', '1', '3', '8'].take cut)) := by decide
      rw [List.take_append_of_le_length (by simp only [magic, List.length_cons]; omega)]
      exact hall cut (by omega)
    refine refused_of_text hinput (fun char hchar => ?_) hwide hv0 fun decoded hdecoded => ?_
    · have hall : ∀ char ∈ ['B', 'I', 'P', '1', '3', '8'], isWhitespace char = false := by
        simp [isWhitespace]
      exact hall char (List.mem_of_mem_take hchar)
    · have hgroups := hwhole _ _ hdecoded
      rw [String.toList_ofList, List.length_take, Nat.min_eq_left (by simp; omega)] at hgroups
      have hdecodes : decoded = [] ∨ decoded = [0x04, 0x83, 0xF5] := by
        obtain rfl | rfl : cut = 0 ∨ cut = 4 := by omega
        · have hempty := hreads []
          rw [show encodeBase64 [] = [] from rfl] at hempty
          exact .inl (Option.some.inj (hdecoded.symm.trans hempty))
        · have hfour := hreads [0x04, 0x83, 0xF5]
          rw [show encodeBase64 [0x04, 0x83, 0xF5] = ['B', 'I', 'P', '1'] by decide] at hfour
          exact .inr (Option.some.inj (hdecoded.symm.trans hfour))
      have hisize : 3 ≤ isizeMax := by
        rcases Target.supported with hwidth | hwidth <;> simp [isizeMax, hwidth]
      rcases hdecodes with rfl | rfl
      · exact ⟨by decide, exists_decodeV1_eq_fail (Nat.zero_le _) (by decide)⟩
      · exact ⟨by decide, exists_decodeV1_eq_fail hisize (by decide)⟩

/-- And its text without its end is refused as text. -/
theorem refused_take_text (hreads : Base64Reads) (hwhole : Base64Whole)
    (hfits : bytes.length ≤ isizeMax) (hcontainer : Reads Container bytes 0 bytes.length parts)
    (hmagic : magic <+: bytes) {cut : ℕ}
    (hcut : cut < (asBytes (.ofList (encodeBase64 bytes))).length) :
    Refused ((asBytes (.ofList (encodeBase64 bytes))).take cut) := by
  obtain ⟨rest, hrest⟩ := encodeBase64_of_magic hmagic
  have hhead : ((asBytes (.ofList (encodeBase64 bytes))).take cut).head? ≠ some 0x42 := by
    rw [take_asBytes_encodeBase64, hrest]
    cases cut with
    | zero =>
        rw [List.take_zero]
        decide
    | succ cut =>
        rw [List.cons_append, List.take_succ_cons, head?_asBytes_ofList (by decide)]
        decide
  have hno : ∀ front : Bytes, front.head? = some 0x42 →
      ¬ front <+: (asBytes (.ofList (encodeBase64 bytes))).take cut := by
    rintro (_ | ⟨byte, front⟩) hfront ⟨behind, hbehind⟩
    · cases hfront
    · rw [← hbehind] at hhead
      exact hhead hfront
  rw [length_asBytes_encodeBase64] at hcut
  refine refused_of_text (take_asBytes_encodeBase64 bytes cut)
    (fun char hchar => isWhitespace_of_mem_encodeBase64 (List.mem_of_mem_take hchar))
    (hno magic rfl) (hno v0Magic rfl) fun decoded hdecoded => ?_
  have hgroups := hwhole _ _ hdecoded
  rw [String.toList_ofList, List.length_take, Nat.min_eq_left hcut.le] at hgroups
  obtain ⟨groups, rfl⟩ := hgroups
  -- whole groups of the text are the text of a cut container
  rw [take_encodeBase64, hreads, Option.some.injEq] at hdecoded
  subst hdecoded
  rw [length_encodeBase64] at hcut
  exact ⟨not_v0Magic_of_isPrefix hmagic (List.take_prefix _ bytes),
    exists_decodeV1_take_eq_fail hfits hcontainer (by omega)⟩

end Cut

/-- A backup the builder encrypted is refused, in both its forms, wherever its end was cut off:
it cannot be loaded, and it cannot be inspected. -/
theorem refused_of_cut [Target] [Base64] (hwrites : Base64Writes) (hreads : Base64Reads)
    (hwhole : Base64Whole) {crypto : Crypto} {entropy : Entropy ρ} {backup : EncryptedBackup}
    {encrypted : Encrypted} (hencrypt : backup.encrypt crypto entropy = .ok encrypted)
    (hfits : encrypted.bytes.length ≤ isizeMax) :
    (∀ cut < encrypted.bytes.length, Refused (encrypted.bytes.take cut)) ∧
      ∀ cut < (asBytes encrypted.toBase64).length,
        Refused ((asBytes encrypted.toBase64).take cut) := by
  obtain ⟨call, -, hencrypt⟩ := Exec.bind_eq_ok_iff.mp hencrypt
  obtain ⟨bytes, hcore, hsame⟩ := Exec.bind_eq_ok_iff.mp hencrypt
  cases hsame
  rw [Exec.mapErr_eq_ok_iff] at hcore
  obtain ⟨payload, nonce, pad, hbackup⟩ : ∃ payload nonce pad,
      encodeV1Backup crypto call.derivationPaths call.storeCommonPaths call.keys payload nonce pad =
        .ok bytes := by
    cases entropy with
    | drawn fuel rng source =>
        obtain ⟨payload, -, hbackup⟩ := Exec.bind_eq_ok_iff.mp hcore
        exact ⟨payload, _, _, hbackup⟩
    | supplied nonce decoys =>
        obtain ⟨payload, -, hbackup⟩ := Exec.bind_eq_ok_iff.mp hcore
        exact ⟨payload, _, _, hbackup⟩
  obtain ⟨parts, hcontainer⟩ := exists_reads_container hbackup hfits
  have hmagic : magic <+: bytes := by
    obtain ⟨-, -, -, -, -, -, -, -, -, -, -, -, -, -, rfl⟩ := encodeV1Backup_eq_ok_iff.mp hbackup
    simp only [encodeV1, List.append_assoc]
    exact List.prefix_append magic _
  have htext : Encrypted.toBase64 ⟨bytes, backup.warnings⟩ = .ofList (encodeBase64 bytes) :=
    hwrites bytes
  rw [htext]
  exact ⟨fun cut hcut => refused_take hreads hwhole hfits hcontainer hmagic hcut,
    fun cut hcut => refused_take_text hreads hwhole hfits hcontainer hmagic hcut⟩

namespace Sample

open EncryptedMetadata.Sample

/-- The sample decoder takes whole groups. -/
theorem four_dvd_of_decodeGroups {chars : List Char} {decoded : Bytes}
    (hdecode : decodeGroups chars = some decoded) : 4 ∣ chars.length := by
  fun_induction decodeGroups chars generalizing decoded with
  | case1 => exact dvd_zero 4
  | case2 first second => exact dvd_refl 4
  | case3 first second third => exact dvd_refl 4
  | case4 first second third fourth rest _ _ ih =>
      simp only [Option.bind_eq_bind, Option.bind_eq_some_iff] at hdecode
      obtain ⟨_, -, _, -, _, -, _, -, tail, htail, -⟩ := hdecode
      obtain ⟨groups, hgroups⟩ := ih htail
      exact ⟨groups + 1, by rw [List.length_cons, List.length_cons, List.length_cons,
        List.length_cons, hgroups]; omega⟩
  | case5 => cases hdecode

theorem base64Writes : @Base64Writes standard := fun _ => rfl

theorem base64Whole : Base64Whole := fun _ _ hdecode => four_dvd_of_decodeGroups hdecode

/-- The builder behind the sample backup of the core. -/
def sampleBuilder : EncryptedBackup where
  derivationPaths := samplePaths
  keys := [⟨false, sampleKey⟩]
  payload := .encryptMany sampleItems
  storeCommonPaths := true

/-- Its encryption with the nonce and the decoys of the sample backup. -/
def sampleEncryption : Exec Error Encrypted :=
  @EncryptedBackup.encrypt Unit target64 sampleCrypto (.supplied sampleNonce sampleDecoys)
    sampleBuilder

end Sample

open EncryptedMetadata.Sample Sample in
/-- What the sample builder encrypts is refused wherever it is cut. -/
theorem refused_of_cut_sample : ∃ encrypted, sampleEncryption = .ok encrypted ∧
    (∀ cut < encrypted.bytes.length, @Refused target64 standard (encrypted.bytes.take cut)) ∧
    ∀ cut < (asBytes (@Encrypted.toBase64 standard encrypted)).length,
      @Refused target64 standard
        ((asBytes (@Encrypted.toBase64 standard encrypted)).take cut) := by
  obtain ⟨encrypted, hencrypt, hfits⟩ := Exec.exists_eq_ok sampleEncryption
    (fun encrypted => decide (encrypted.bytes.length ≤ @isizeMax target64)) (by decide +kernel)
  rw [decide_eq_true_eq] at hfits
  exact ⟨encrypted, hencrypt, @refused_of_cut Unit target64 standard base64Writes base64Reads
    base64Whole sampleCrypto _ sampleBuilder encrypted hencrypt hfits⟩

end Bip138
