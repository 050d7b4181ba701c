/-
# The output of one decryption as the input of the next

`decrypt` writes a document with a final newline. Given back to it, the document of a
level without a note is the nested backup and a byte after it, which the container does
not mind. A note comes first in the document, and the nested backup behind it is no
longer recognised: neither its magic is in front, nor is the text base64.

So what `encrypt --keys` made is unwrapped by feeding the output back step by step
exactly when no level but the innermost one has a note (`decryptSteps_recovers_iff`).
-/

import Bip138.Cli.Unwrap

namespace Bip138.Cli

open Bip138.Rust Bip138.Ll

variable {ρ : Type}

section Code

variable [Target] [Base64] [Miniscript] [SerdeJson] [Serde DescriptorBackup] [Serde PolicySet]
  [Serde PolicyBackup] [V0]

/-- `Commands::Decrypt` of a build without devices, from the bytes of the file and the key
to the bytes it writes. -/
def decryptCommand (crypto : Crypto) (data : Bytes) (key : Option DescriptorPublicKey) :
    Exec CliError Bytes := do
  let backup ← .mapErr .failedToDecrypt (EncryptedBackup.new.setEncryptedPayload data)
  match key with
  | none => .fail .noKeys
  | some key => do
      let pk ← .mapErr .failedToDecrypt (dpkToRootPk key)
      let document ← decryptDocument crypto (backup.setKeys [pk])
      .ok (document ++ [0x0a])

/-- Decrypt with one key after the other, each time what the last step wrote. -/
def decryptSteps (crypto : Crypto) (file : Bytes) (keys : List DescriptorPublicKey) :
    Exec CliError Bytes :=
  keys.foldlM (fun data key => decryptCommand crypto data (some key)) file

end Code

section Loading

variable [Target] [Base64] {bytes : Bytes}

omit [Target] [Base64] in
theorem isPrefix_of_decodeVersion {version : UInt8} (hversion : decodeVersion bytes = .ok version) :
    magic ++ [0x01] <+: bytes := by
  obtain ⟨start, hmagic, hrun⟩ := Exec.bind_eq_ok_iff.mp hversion
  obtain ⟨⟨tail, rfl⟩, rfl⟩ := parseMagicByte_eq_ok_iff.mp hmagic
  obtain ⟨offset, hoffset, hslice⟩ := Exec.bind_eq_ok_iff.mp hrun
  obtain ⟨-, rfl⟩ := initOffset_eq_ok_iff.mp hoffset
  obtain ⟨rest, hrest, hparse⟩ := Exec.bind_eq_ok_iff.mp hslice
  obtain ⟨-, rfl⟩ := sliceFrom_eq_ok_iff.mp hrest
  obtain ⟨⟨incr, found⟩, hfound, -⟩ := Exec.bind_eq_ok_iff.mp hparse
  obtain ⟨hfirst, -, -⟩ := parseVersion_eq_ok_iff.mp hfound
  rw [List.prefix_append_right_inj]
  rcases rest with _ | ⟨first, rest⟩
  · cases hfirst
  · obtain rfl := Option.some.inj hfirst
    exact ⟨rest, rfl⟩

/-- What is loaded has one of the two magics in front, or is base64. -/
theorem recognised_of_setEncryptedPayload {backup loaded : EncryptedBackup}
    (hload : backup.setEncryptedPayload bytes = .ok loaded) :
    magic ++ [0x01] <+: bytes ∨ v0Magic <+: bytes ∨
      ∃ text decoded, bytes = asBytes text ∧ Base64.decode (trim text) = some decoded := by
  rw [EncryptedBackup.setEncryptedPayload] at hload
  by_cases hmagic : magic <+: bytes
  · rw [if_pos hmagic, EncryptedBackup.setEncryptedPayloadBinary] at hload
    by_cases hv0 : v0Magic <+: bytes
    · exact .inr (.inl hv0)
    · rw [if_neg hv0] at hload
      obtain ⟨version, hversion, -⟩ := Exec.bind_eq_ok_iff.mp hload
      exact .inl (isPrefix_of_decodeVersion (Exec.mapErr_eq_ok_iff.mp hversion))
  · rw [if_neg hmagic] at hload
    by_cases hv0 : v0Magic <+: bytes
    · exact .inr (.inl hv0)
    · rw [if_neg hv0] at hload
      obtain ⟨text, htext, hload⟩ := Exec.bind_eq_ok_iff.mp hload
      obtain ⟨decoded, hdecoded, -⟩ := Exec.bind_eq_ok_iff.mp hload
      exact .inr (.inr ⟨text, decoded, fromUtf8_eq_some_iff.mp (Exec.okOr_eq_ok_iff.mp htext),
        Exec.okOr_eq_ok_iff.mp hdecoded⟩)

/-- The bytes of base64 text, padding included. -/
def isBase64Byte (byte : UInt8) : Bool :=
  (0x41 ≤ byte && byte ≤ 0x5a) || (0x61 ≤ byte && byte ≤ 0x7a) || (0x30 ≤ byte && byte ≤ 0x39) ||
    byte == 0x2b || byte == 0x2f || byte == 0x3d

/-- The decoder of the base64 crate refuses every byte that is not of its alphabet. -/
def Base64Refuses : Prop :=
  ∀ text, (∃ byte ∈ asBytes text, isBase64Byte byte = false) → Base64.decode text = none

/-- A note that does not begin like a container. -/
def PlainNote (note : String) : Prop :=
  ¬ magic ++ [0x01] <+: asBytes note ∧ ¬ v0Magic <+: asBytes note

/-- A backup is not recognised behind a note. -/
theorem setEncryptedPayload_note_ne_ok (hbase64 : Base64Refuses) {note : String}
    (hnote : PlainNote note) (hbytes : magic ++ [0x01] <+: bytes) (tail : Bytes)
    (backup loaded : EncryptedBackup) :
    backup.setEncryptedPayload (asBytes note ++ 0x0a :: (bytes ++ tail)) ≠ .ok loaded := by
  intro hload
  rcases recognised_of_setEncryptedPayload hload with
    hmagic | hv0 | ⟨text, decoded, htext, hdecoded⟩
  · exact hnote.1 (isPrefix_of_isPrefix_append_cons hmagic (by decide))
  · exact hnote.2 (isPrefix_of_isPrefix_append_cons hv0 (by decide))
  · have hversion : 0x01 ∈ asBytes text := by
      rw [← htext]
      have hmem : 0x01 ∈ bytes :=
        hbytes.subset (List.mem_append_right _ (List.mem_singleton_self _))
      exact List.mem_append_right _ (List.mem_cons_of_mem _ (List.mem_append_left _ hmem))
    have hkept := mem_asBytes_trim hversion (by decide)
    rw [hbase64 _ ⟨_, hkept, by decide⟩] at hdecoded
    cases hdecoded

/-- Bytes after a backup do not change what is read from it. -/
theorem readBack_append [Miniscript] [SerdeJson] [Serde DescriptorBackup] [Serde PolicySet]
    [Serde PolicyBackup] [V0] {crypto : Crypto} {tail : Bytes}
    {parts : List DerivationPath × List (Block 32) × UInt8 × Block 12 × Bytes}
    (hdecode : decodeV1 bytes = .ok parts) (hfits : (bytes ++ tail).length ≤ isizeMax)
    (keys : List PublicKey) :
    EncryptedBackup.readBack crypto (bytes ++ tail) keys =
      EncryptedBackup.readBack crypto bytes keys := by
  have hlonger := decodeV1_of_isPrefix hfits (List.prefix_append _ _) hdecode
  rw [EncryptedBackup.readBack, EncryptedBackup.readBack,
    EncryptedBackup.setEncryptedPayload_eq_ok _ hdecode,
    EncryptedBackup.setEncryptedPayload_eq_ok _ hlonger]

end Loading

section Documents

variable [Miniscript] [SerdeJson] [Serde DescriptorBackup] [Serde PolicySet] [Serde PolicyBackup]

/-- An outer level is printed as its note, on a line of its own, and the nested backup. -/
def WrapLevel.outerDocument (level : WrapLevel) (bytes : Bytes) : Bytes :=
  match level.msg with
  | none => bytes
  | some note => asBytes note ++ 0x0a :: bytes

theorem decryptedToDocument_outerContents {level : WrapLevel} {bytes : Bytes}
    (hnote : ∀ note, level.msg = some note → note ≠ "") :
    decryptedToDocument ((level.outerContents bytes).map TypedPayload.decrypted) =
      .ok (level.outerDocument bytes) := by
  rcases hmsg : level.msg with _ | note
  · simp [WrapLevel.outerContents, WrapLevel.outerDocument, hmsg, decryptedToDocument,
      TypedPayload.decrypted, decryptedToBytes, appendLine]
  · have hline : asBytes note ≠ [] := fun hempty => hnote note hmsg (asBytes_eq_nil_iff.mp hempty)
    simp [WrapLevel.outerContents, WrapLevel.outerDocument, hmsg, decryptedToDocument,
      TypedPayload.decrypted, decryptedToBytes, appendLine, hline]

/-- The innermost level is printed with the descriptor in it. -/
theorem exists_decryptedToDocument_innerContents (level : WrapLevel) (msg : Option String)
    (descriptor : Descriptor) :
    ∃ document, decryptedToDocument
        ((level.innerContents msg descriptor).map TypedPayload.decrypted) = .ok document ∧
      asBytes descriptor.toString <:+: document := by
  have hprinted : List.Forall₂ (fun value segment => decryptedToBytes value = .ok segment)
      ((level.innerContents msg descriptor).map TypedPayload.decrypted)
      (level.msg.toList.map asBytes ++ msg.toList.map asBytes ++
        [asBytes descriptor.toString]) := by
    rcases level with ⟨_ | note, keys⟩
    · rcases msg with _ | text
      · exact .cons rfl .nil
      · exact .cons rfl (.cons rfl .nil)
    · rcases msg with _ | text
      · exact .cons rfl (.cons rfl .nil)
      · exact .cons rfl (.cons rfl (.cons rfl .nil))
  refine ⟨_, decryptedToDocument_eq_ok_iff.mpr ⟨_, hprinted, rfl⟩, ?_⟩
  exact isInfix_foldl_appendLine (List.mem_append_right _ (List.mem_singleton_self _))

end Documents

section Steps

variable [Target] {crypto : Crypto} {rng : Rng ρ} {fuel : ℕ} {source : ρ} {level : WrapLevel}
  {encrypted : Encrypted}

/-- What a level is encrypted to is a container. -/
theorem exists_decodeV1_of_encryptToLevelKeys {entropy : Entropy ρ} {payloads : List ToPayload}
    (hencrypt : encryptToLevelKeys crypto entropy level payloads = .ok encrypted)
    (hfits : encrypted.bytes.length ≤ isizeMax) :
    ∃ parts, decodeV1 encrypted.bytes = .ok parts := by
  obtain ⟨backup, -, hencrypt⟩ := encryptToLevelKeys_eq_ok_iff.mp hencrypt
  obtain ⟨call, -, hcore, -⟩ := EncryptedBackup.encrypt_eq_ok_iff.mp hencrypt
  obtain ⟨payload, pad, -, hbackup, -⟩ := Entropy.encryptItems_eq_ok hcore
  obtain ⟨padded, cyphertext, -, -, -, hdecode⟩ := decodeV1_encodeV1Backup hbackup hfits
  exact ⟨_, hdecode⟩

/-- A level that is encrypted has no empty note. -/
theorem note_ne_empty_of_encryptToLevelKeys {entropy : Entropy ρ} {bytes : Bytes}
    (hencrypt : encryptToLevelKeys crypto entropy level (wrapPayloads level bytes) =
      .ok encrypted) : ∀ note, level.msg = some note → note ≠ "" := by
  rintro note hnote rfl
  obtain ⟨backup, hbackup, hencrypt⟩ := encryptToLevelKeys_eq_ok_iff.mp hencrypt
  obtain ⟨-, -, parts, hparts, rfl⟩ := levelBackup_eq_ok_iff.mp hbackup
  obtain ⟨call, hcall, hcore, -⟩ := EncryptedBackup.encrypt_eq_ok_iff.mp hencrypt
  obtain ⟨-, -, -, items, hitems, rfl⟩ := EncryptedBackup.coreCall_eq_ok_iff.mp hcall
  obtain rfl := hitems.unique (.many _ rfl)
  obtain ⟨payload, pad, hbuild, -, -⟩ := Entropy.encryptItems_eq_ok hcore
  obtain ⟨-, hvalid, -⟩ := buildV1Payload_eq_ok_iff.mp hbuild
  rw [wrapPayloads, hnote] at hparts
  obtain ⟨part, rest, hpart, -, rfl⟩ := List.forall₂_cons_left_iff.mp hparts
  obtain ⟨bytes, hbytes, hitem⟩ := hpart.item
  obtain rfl := Except.ok.inj hbytes
  have hfirst := hvalid _ (List.mem_map_of_mem List.mem_cons_self)
  rw [hitem] at hfirst
  exact hfirst.1 rfl

variable [Base64] [Miniscript] [SerdeJson] [Serde DescriptorBackup] [Serde PolicySet]
  [Serde PolicyBackup] [V0] {data : Bytes} {key : DescriptorPublicKey} {root : PublicKey}

/-- The command writes what the key reads back. -/
theorem decryptCommand_eq_ok {contents : List (Decrypted NoProprietary)} {document : Bytes}
    (hroot : dpkToRootPk key = .ok root)
    (hread : EncryptedBackup.readBack crypto data [root] = .ok contents)
    (hprint : decryptedToDocument contents = .ok document) :
    decryptCommand crypto data (some key) = .ok (document ++ [0x0a]) := by
  obtain ⟨loaded, hload, hdecrypt⟩ := Exec.bind_eq_ok_iff.mp hread
  refine Exec.bind_eq_ok_iff.mpr ⟨loaded, Exec.mapErr_eq_ok_iff.mpr hload, ?_⟩
  refine Exec.bind_eq_ok_iff.mpr ⟨root, Exec.mapErr_eq_ok_iff.mpr hroot, ?_⟩
  refine Exec.bind_eq_ok_iff.mpr ⟨document, ?_, rfl⟩
  exact Exec.bind_eq_ok_iff.mpr ⟨contents, Exec.mapErr_eq_ok_iff.mpr hdecrypt, hprint⟩

/-- The key is one of the level, and not a key nobody holds. -/
def WrapLevel.HasKey (level : WrapLevel) (key : DescriptorPublicKey) : Prop :=
  ∃ root ∈ wrapLevelPublicKeys level, dpkToRootPk key = .ok root ∧ xonly root ≠ bip341Nums

/-- A key of a level decrypts it, with or without bytes behind it. -/
theorem decryptCommand_level {contents : List TypedPayload} {document tail : Bytes}
    (hreadable : ∀ payload ∈ contents, payload.Readable)
    (hencrypt : encryptToLevelKeys crypto (.drawn fuel rng source) level
      (contents.map TypedPayload.toPayload) = .ok encrypted)
    (hfits : (encrypted.bytes ++ tail).length ≤ isizeMax)
    (hideal : ∀ backup, levelBackup level (contents.map TypedPayload.toPayload) = .ok backup →
      backup.IdealSealing crypto (.drawn fuel rng source))
    (hkey : level.HasKey key)
    (hunexposed : ∀ root, dpkToRootPk key = .ok root → ∀ payload ∈ contents,
      xonly root ∉ payload.toPayload.exposedKeys)
    (hprint : decryptedToDocument (contents.map TypedPayload.decrypted) = .ok document) :
    decryptCommand crypto (encrypted.bytes ++ tail) (some key) = .ok (document ++ [0x0a]) := by
  obtain ⟨root, hmem, hroot, hnums⟩ := hkey
  have hbytes : encrypted.bytes.length ≤ isizeMax := by
    rw [List.length_append] at hfits
    omega
  obtain ⟨parts, hdecode⟩ := exists_decodeV1_of_encryptToLevelKeys hencrypt hbytes
  apply decryptCommand_eq_ok hroot _ hprint
  rw [readBack_append hdecode hfits]
  exact readBack_encryptToLevelKeys hreadable hencrypt hbytes hideal
    ⟨root, List.mem_singleton_self root, hmem, hunexposed root hroot, hnums⟩

end Steps

/-- The notes of the levels around the innermost one, from the outside in. -/
def outerNotes (levels : List (WrapLevel × ρ)) : List String :=
  levels.dropLast.filterMap (·.1.msg)

theorem outerNotes_cons (first next : WrapLevel × ρ) (rest : List (WrapLevel × ρ)) :
    outerNotes (first :: next :: rest) = first.1.msg.toList ++ outerNotes (next :: rest) := by
  rw [outerNotes, outerNotes, List.dropLast_cons_cons, List.filterMap_cons]
  rcases first.1.msg with _ | note
  · rfl
  · rfl

section Keys

variable [Miniscript] {descriptor : Descriptor} {keys : List DescriptorPublicKey}

/-- One key for each level that the level is encrypted to: the innermost one is not
encrypted to the keys that the descriptor exposes. -/
structure KeysGiven (descriptor : Descriptor) (levels : List (WrapLevel × ρ))
    (keys : List DescriptorPublicKey) : Prop where
  each : List.Forall₂ (fun level key => level.1.HasKey key) levels keys
  unexposed : ∀ key ∈ keys.getLast?, ∀ root, dpkToRootPk key = .ok root →
    xonly root ∉ descrExposedKeys descriptor

theorem KeysGiven.tail {first next : WrapLevel × ρ} {rest : List (WrapLevel × ρ)}
    {key : DescriptorPublicKey}
    (hkeys : KeysGiven descriptor (first :: next :: rest) (key :: keys)) :
    KeysGiven descriptor (next :: rest) keys := by
  obtain ⟨-, heach⟩ := List.forall₂_cons.mp hkeys.each
  obtain ⟨nextKey, restKeys, -, -, rfl⟩ := List.forall₂_cons_left_iff.mp heach
  have hunexposed := hkeys.unexposed
  rw [List.getLast?_cons_cons] at hunexposed
  exact ⟨heach, hunexposed⟩

end Keys

section Chain

variable [Target] [Base64] [Miniscript] [SerdeJson] [Serde DescriptorBackup] [Serde PolicySet]
  [Serde PolicyBackup] [V0] {crypto : Crypto} {rng : Rng ρ} {fuel : ℕ} {msg : Option String}
  {descriptor : Descriptor} {levels : List (WrapLevel × ρ)} {keys : List DescriptorPublicKey}
  {encrypted : Encrypted}

/-- Every step succeeds, and the last one writes the descriptor. -/
def Recovers (crypto : Crypto) (descriptor : Descriptor) (file : Bytes)
    (keys : List DescriptorPublicKey) : Prop :=
  ∃ output, decryptSteps crypto file keys = .ok output ∧ asBytes descriptor.toString <:+: output

theorem recovers_cons_iff {file written : Bytes} {key : DescriptorPublicKey}
    (hstep : decryptCommand crypto file (some key) = .ok written) :
    Recovers crypto descriptor file (key :: keys) ↔ Recovers crypto descriptor written keys := by
  rw [Recovers, Recovers, decryptSteps, List.foldlM_cons, hstep, Exec.ok_bind, decryptSteps]

/-- Behind a note, the next step fails. -/
theorem not_recovers_of_note (hbase64 : Base64Refuses) {note : String} (hnote : PlainNote note)
    {bytes : Bytes} (hbytes : magic ++ [0x01] <+: bytes) (tail : Bytes) (hkeys : keys ≠ []) :
    ¬ Recovers crypto descriptor (asBytes note ++ 0x0a :: (bytes ++ tail)) keys := by
  rintro ⟨output, houtput, -⟩
  obtain ⟨key, keys, rfl⟩ := List.exists_cons_of_ne_nil hkeys
  rw [decryptSteps, List.foldlM_cons] at houtput
  obtain ⟨written, hwritten, -⟩ := Exec.bind_eq_ok_iff.mp houtput
  obtain ⟨loaded, hload, -⟩ := Exec.bind_eq_ok_iff.mp hwritten
  exact setEncryptedPayload_note_ne_ok hbase64 hnote hbytes tail _ _
    (Exec.mapErr_eq_ok_iff.mp hload)

/-- The levels are recovered exactly when no note hides a nested backup, with or without
a newline behind the file. -/
theorem recovers_append_iff (hideal : IdealRun crypto rng msg descriptor levels)
    (hroom : ∀ fuel rest encrypted, rest <:+ levels →
      encryptLevels crypto rng fuel msg descriptor rest = .ok encrypted →
        encrypted.bytes.length < isizeMax)
    (hbase64 : Base64Refuses) (hplain : ∀ note ∈ (outerNotes levels).head?, PlainNote note)
    (hkeys : KeysGiven descriptor levels keys)
    (hencrypt : encryptLevels crypto rng fuel msg descriptor levels = .ok encrypted)
    {tail : Bytes} (htail : tail.length ≤ 1) :
    Recovers crypto descriptor (encrypted.bytes ++ tail) keys ↔ outerNotes levels = [] := by
  induction levels generalizing encrypted keys tail with
  | nil => cases hencrypt
  | cons first levels ih =>
      obtain ⟨level, source⟩ := first
      have hfits : (encrypted.bytes ++ tail).length ≤ isizeMax := by
        have hbytes := hroom fuel _ encrypted List.suffix_rfl hencrypt
        rw [List.length_append]
        omega
      have hsealing := fun backup =>
        hideal.sealing fuel level source levels backup List.suffix_rfl
      obtain ⟨key, laterKeys, hkey, hlater, rfl⟩ := List.forall₂_cons_left_iff.mp hkeys.each
      cases levels with
      | nil =>
          obtain rfl := List.forall₂_nil_left_iff.mp hlater
          rw [encryptLevels_singleton, encryptDescriptorLevel, descriptorPayloads_eq] at hencrypt
          obtain ⟨document, hprint, hinfix⟩ :=
            exists_decryptedToDocument_innerContents level msg descriptor
          have hstep := decryptCommand_level (readable_innerContents level msg hideal.parse)
            hencrypt hfits (fun backup hbackup => hsealing backup (by
              rw [← descriptorPayloads_eq] at hbackup
              exact hbackup)) hkey
            (fun root hroot => unexposed_innerContents level msg
              (hkeys.unexposed key rfl root hroot)) hprint
          rw [recovers_cons_iff hstep]
          exact iff_of_true ⟨_, rfl, hinfix.trans (List.prefix_append _ _).isInfix⟩ rfl
      | cons next rest =>
          rw [encryptLevels_cons level source (List.cons_ne_nil _ _)] at hencrypt
          obtain ⟨inner, hinner, hencrypt⟩ := Exec.bind_eq_ok_iff.mp hencrypt
          have hnonempty := note_ne_empty_of_encryptToLevelKeys hencrypt
          rw [encryptWrapLevel, wrapPayloads_eq] at hencrypt
          have hstep := decryptCommand_level (readable_outerContents level inner.bytes)
            hencrypt hfits (fun backup hbackup => hsealing backup ⟨inner, hinner, by
              rw [wrapPayloads_eq]
              exact hbackup⟩) hkey
            (fun root _ => unexposed_outerContents level inner.bytes (xonly root))
            (decryptedToDocument_outerContents hnonempty)
          rw [recovers_cons_iff hstep, WrapLevel.outerDocument, outerNotes_cons]
          rcases hnote : level.msg with _ | note
          · -- The next file is the nested backup and a newline.
            rw [outerNotes_cons, hnote] at hplain
            exact ih hideal.tail (fun fuel rest encrypted hrest =>
              hroom fuel rest encrypted (hrest.trans (List.suffix_cons _ _))) hplain hkeys.tail
              hinner (le_refl 1)
          · -- The next file begins with the note, and there is a key to try on it.
            have hnext : note ∈ (outerNotes ((level, source) :: next :: rest)).head? := by
              rw [outerNotes_cons, hnote]
              rfl
            have hbytes := hroom fuel _ inner (List.suffix_cons _ _) hinner
            obtain ⟨_, _, _, hlevel⟩ := exists_encryptToLevelKeys_of_encryptLevels hinner
            obtain ⟨parts, hdecode⟩ := exists_decodeV1_of_encryptToLevelKeys hlevel hbytes.le
            obtain ⟨-, hversion⟩ := decodeVersion_of_decodeV1 hdecode
            have hlaterKeys : laterKeys ≠ [] := by
              rintro rfl
              cases hlater
            refine iff_of_false ?_ (List.cons_ne_nil _ _)
            rw [List.append_assoc, List.cons_append]
            exact not_recovers_of_note hbase64 (hplain note hnext)
              (isPrefix_of_decodeVersion hversion) [0x0a] hlaterKeys

/-- What `encrypt --keys` wrote is unwrapped by giving each output back as the next input,
when no level but the innermost one has a note. A note that does not itself begin like a
container ends it at the next step. -/
theorem decryptSteps_recovers_iff (hideal : IdealRun crypto rng msg descriptor levels)
    (hroom : ∀ fuel rest encrypted, rest <:+ levels →
      encryptLevels crypto rng fuel msg descriptor rest = .ok encrypted →
        encrypted.bytes.length < isizeMax)
    (hbase64 : Base64Refuses) (hkeys : KeysGiven descriptor levels keys)
    (hencrypt : encryptLevels crypto rng fuel msg descriptor levels = .ok encrypted) :
    (outerNotes levels = [] → Recovers crypto descriptor encrypted.bytes keys) ∧
      ((∀ note ∈ (outerNotes levels).head?, PlainNote note) →
        Recovers crypto descriptor encrypted.bytes keys → outerNotes levels = []) := by
  have hempty : ([] : Bytes).length ≤ 1 := Nat.zero_le 1
  have hiff := fun hplain =>
    recovers_append_iff hideal hroom hbase64 hplain hkeys hencrypt hempty
  rw [List.append_nil] at hiff
  refine ⟨fun hnone => (hiff ?_).mpr hnone, fun hplain => (hiff hplain).mp⟩
  rw [hnone]
  exact fun _ hnote => absurd hnote (Option.not_mem_none _)

end Chain

namespace Sample

open Bip138.Sample

/-- The key of each level. -/
def levelKeys : List DescriptorPublicKey := [levelKey byHand, levelKey stranger]

theorem keysGiven_levels (note : Option String) : KeysGiven account (levels note) levelKeys where
  each := by
    refine .cons ⟨byHand, ?_, rfl, by decide +kernel⟩
      (.cons ⟨stranger, ?_, rfl, by decide +kernel⟩ .nil)
    · exact List.mem_singleton_self byHand
    · exact List.mem_singleton_self stranger
  unexposed key hkey root hroot := by
    cases hkey
    cases hroot
    decide +kernel

theorem length_lt_of_encryptLevels {note : Option String}
    (hnote : note = none ∨ note = some "outer") (fuel : ℕ) (rest : List (WrapLevel × ℕ))
    (encrypted : Encrypted) (hrest : rest <:+ levels note)
    (hencrypt : encryptLevels sampleCrypto countingRng fuel (some "message") account rest =
      .ok encrypted) : encrypted.bytes.length < isizeMax :=
  (length_le_of_encryptLevels hnote hrest hencrypt).trans_lt (by decide +kernel)

theorem base64Refuses : Base64Refuses := fun _ _ => rfl

theorem exists_encryptLevels_levels {note : Option String}
    (hnote : note = none ∨ note = some "outer") :
    ∃ fuel encrypted, encryptLevels sampleCrypto countingRng fuel (some "message") account
      (levels note) = .ok encrypted :=
  (wrappable_levels hnote).exists_encryptLevels_eq_ok (List.cons_ne_nil _ _)

end Sample

open Bip138.Sample Sample in
/-- Two levels, of which the outer one has no note. -/
theorem decryptSteps_recovers_iff_sample :
    ∃ fuel encrypted, encryptLevels sampleCrypto countingRng fuel (some "message") account
        (levels none) = .ok encrypted ∧
      Recovers sampleCrypto account encrypted.bytes levelKeys := by
  obtain ⟨fuel, encrypted, hencrypt⟩ := exists_encryptLevels_levels (.inl rfl)
  refine ⟨fuel, encrypted, hencrypt, ?_⟩
  exact (decryptSteps_recovers_iff (idealRun_levels (.inl rfl))
    (length_lt_of_encryptLevels (.inl rfl)) base64Refuses (keysGiven_levels none) hencrypt).1 rfl

open Bip138.Sample Sample in
/-- With a note of its own, the outer level is decrypted to a document that the next
step refuses. -/
theorem not_recovers_outerNote :
    ∃ fuel encrypted, encryptLevels sampleCrypto countingRng fuel (some "message") account
        (levels (some "outer")) = .ok encrypted ∧
      KeysGiven account (levels (some "outer")) levelKeys ∧
      ¬ Recovers sampleCrypto account encrypted.bytes levelKeys := by
  obtain ⟨fuel, encrypted, hencrypt⟩ := exists_encryptLevels_levels (.inr rfl)
  refine ⟨fuel, encrypted, hencrypt, keysGiven_levels _, fun hrecovers => ?_⟩
  have hplain : ∀ note ∈ (outerNotes (levels (some "outer"))).head?, PlainNote note := by
    intro note hnote
    cases hnote
    exact ⟨by decide +kernel, by decide +kernel⟩
  have hempty : ([] : Bytes).length ≤ 1 := Nat.zero_le 1
  rw [← List.append_nil encrypted.bytes] at hrecovers
  have hnone := (recovers_append_iff (idealRun_levels (.inr rfl))
    (length_lt_of_encryptLevels (.inr rfl)) base64Refuses hplain (keysGiven_levels _) hencrypt
    hempty).mp hrecovers
  cases hnone

end Bip138.Cli
