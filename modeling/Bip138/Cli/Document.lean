/-
# The document the command prints

`decrypt` of the command-line tool prints what a backup decrypts to as one document,
item by item. What an item is printed as is its own bytes for a string and for a nested
backup, and the printed form of what was parsed for the rest (`printed`).

Three layers meet here. The payload decoder reads items of unknown types and goes on,
`extract` skips the types without a parser, and the printer refuses a value it has no
rendering for. An item of an unknown type is not skipped by `extract` but returned raw,
so the printer refuses it, and with it the whole document. Without such an item the
document holds the bytes of the supported items when the printed forms do, as they do for
texts that are printed as they were read (`decryptDocument_renders_iff`).
-/

import Bip138.Front.WrongKey
import Bip138.Front.Devices

namespace Bip138.Cli

open Bip138.Rust Bip138.Ll

/-- The errors of the commands that decide what is written. -/
inductive CliError
  | cantConvertToDescriptor
  | cantConvertToXpub
  | failedToEncrypt (cause : Error)
  | failedToDecrypt (cause : Error)
  | wrapKeys
  | deviceWithKeys
  | content
  | noKeys
  | failedToFetchXpub (cause : FetchFailed)
  deriving DecidableEq, Repr

section Code

variable [Target] [Miniscript] [SerdeJson] [Serde DescriptorBackup] [Serde PolicySet]
  [Serde PolicyBackup]

omit [Target] in
def decryptedToBytes : Decrypted NoProprietary → Exec CliError Bytes
  | .descriptor descr => .ok (asBytes descr.toString)
  | .descriptorBackup backup => .mapErr .failedToDecrypt backup.toJson
  | .policyBackup backup => .mapErr .failedToDecrypt backup.toPayload
  | .string msg => .ok (asBytes msg)
  | .bip138 bytes => .ok bytes
  | .policy | .labels | .walletBackup _ | .raw _ | .proprietary _ => .fail .content

/-- Add what an item is printed as to the document, on a line of its own. -/
def appendLine (document bytes : Bytes) : Bytes :=
  (if document = [] then [] else document ++ [0x0a]) ++ bytes

omit [Target] in
def decryptedToDocument (decrypted : List (Decrypted NoProprietary)) : Exec CliError Bytes :=
  decrypted.foldlM (fun document decrypted => do
    let bytes ← decryptedToBytes decrypted
    .ok (appendLine document bytes)) []

/-- Decrypt with the keys of the builder, and print. -/
def decryptDocument [V0] (crypto : Crypto) (backup : EncryptedBackup) : Exec CliError Bytes := do
  let decrypted ← .mapErr .failedToDecrypt (backup.decrypt crypto)
  decryptedToDocument decrypted

end Code

/-- The segments stand in the bytes one behind the other, each in one piece. -/
inductive InOrder : List Bytes → Bytes → Prop
  | nil (rest : Bytes) : InOrder [] rest
  | cons (gap segment : Bytes) {segments : List Bytes} {rest : Bytes}
      (hrest : InOrder segments rest) : InOrder (segment :: segments) (gap ++ segment ++ rest)

/-- Every segment is a part of the bytes. -/
theorem InOrder.isInfix_of_mem {segments : List Bytes} {bytes segment : Bytes}
    (horder : InOrder segments bytes) (hsegment : segment ∈ segments) : segment <:+: bytes := by
  induction horder with
  | nil rest => exact absurd hsegment List.not_mem_nil
  | cons gap first hrest ih =>
      rcases List.mem_cons.mp hsegment with rfl | hlater
      · exact ⟨gap, _, rfl⟩
      · exact (ih hlater).trans (List.suffix_append _ _).isInfix

/-- Bytes before the segments do no harm. -/
theorem InOrder.append_left {segments : List Bytes} {bytes : Bytes}
    (horder : InOrder segments bytes) (before : Bytes) : InOrder segments (before ++ bytes) := by
  cases horder with
  | nil => exact .nil _
  | cons gap segment hrest =>
      rw [← List.append_assoc, ← List.append_assoc]
      exact .cons (before ++ gap) segment hrest

/-- A document whose lines hold some segments holds them in this order. -/
theorem exists_foldl_appendLine {segments lines : List Bytes}
    (hlines : List.Forall₂ (· <:+: ·) segments lines) (document : Bytes) :
    ∃ rest, lines.foldl appendLine document = document ++ rest ∧ InOrder segments rest := by
  induction hlines generalizing document with
  | nil => exact ⟨[], (List.append_nil document).symm, .nil []⟩
  | @cons segment line segments lines hline _ ih =>
      obtain ⟨before, after, rfl⟩ := hline
      obtain ⟨rest, hrest, horder⟩ := ih (appendLine document (before ++ segment ++ after))
      rw [List.foldl_cons, hrest, appendLine]
      have hlater := horder.append_left after
      by_cases hempty : document = []
      · rw [if_pos hempty, hempty]
        refine ⟨before ++ segment ++ (after ++ rest), ?_, .cons before segment hlater⟩
        simp only [List.nil_append, List.append_assoc]
      · rw [if_neg hempty]
        refine ⟨0x0a :: before ++ segment ++ (after ++ rest), ?_, .cons _ segment hlater⟩
        simp only [List.append_assoc, List.cons_append, List.nil_append]

/-- Every line of a document stands in it. -/
theorem isInfix_foldl_appendLine {lines : List Bytes} {line : Bytes} (hline : line ∈ lines) :
    line <:+: lines.foldl appendLine [] := by
  have hself : List.Forall₂ (· <:+: ·) lines lines :=
    List.forall₂_same.mpr fun _ _ => List.infix_rfl
  obtain ⟨rest, hrest, horder⟩ := exists_foldl_appendLine hself []
  rw [hrest]
  exact horder.isInfix_of_mem hline

section Printing

variable [Miniscript] [SerdeJson] [Serde DescriptorBackup] [Serde PolicySet] [Serde PolicyBackup]

private theorem foldlM_appendLine_eq_ok_iff {decrypted : List (Decrypted NoProprietary)}
    {document printed : Bytes} :
    decrypted.foldlM (fun document decrypted => do
        let bytes ← decryptedToBytes decrypted
        .ok (appendLine document bytes)) document = .ok printed ↔
      ∃ segments, List.Forall₂ (fun value segment => decryptedToBytes value = .ok segment)
          decrypted segments ∧ printed = segments.foldl appendLine document := by
  induction decrypted generalizing document with
  | nil =>
      simp only [List.foldlM_nil, List.forall₂_nil_left_iff, exists_eq_left, List.foldl_nil]
      exact ⟨fun hdone => (Except.ok.inj hdone).symm, fun hsame => hsame ▸ rfl⟩
  | cons value decrypted ih =>
      simp only [List.foldlM_cons, Exec.bind_eq_ok_iff, Except.ok.injEq, ih,
        List.forall₂_cons_left_iff]
      refine ⟨fun hrun => ?_, fun hprinted => ?_⟩
      · obtain ⟨_, ⟨segment, hsegment, rfl⟩, segments, hsegments, hprinted⟩ := hrun
        exact ⟨_, ⟨segment, segments, hsegment, hsegments, rfl⟩, hprinted⟩
      · obtain ⟨_, ⟨segment, segments, hsegment, hsegments, rfl⟩, hprinted⟩ := hprinted
        exact ⟨_, ⟨segment, hsegment, rfl⟩, segments, hsegments, hprinted⟩

theorem exists_of_mem_of_printed {decrypted : List (Decrypted NoProprietary)}
    {segments : List Bytes} {value : Decrypted NoProprietary}
    (hprinted : List.Forall₂ (fun value segment => decryptedToBytes value = .ok segment)
      decrypted segments) (hvalue : value ∈ decrypted) :
    ∃ segment, decryptedToBytes value = .ok segment := by
  induction hprinted with
  | nil => exact absurd hvalue List.not_mem_nil
  | cons hfirst _ ih =>
      rcases List.mem_cons.mp hvalue with rfl | hlater
      · exact ⟨_, hfirst⟩
      · exact ih hlater

/-- A document is printed when every value has a rendering, one line after the other. -/
theorem decryptedToDocument_eq_ok_iff {decrypted : List (Decrypted NoProprietary)}
    {document : Bytes} :
    decryptedToDocument decrypted = .ok document ↔
      ∃ segments, List.Forall₂ (fun value segment => decryptedToBytes value = .ok segment)
          decrypted segments ∧ document = segments.foldl appendLine [] :=
  foldlM_appendLine_eq_ok_iff

end Printing

/-- The types of content there is a parser for. -/
def supported : Content → Bool
  | .string | .bip138 | .bip380 | .bip388 => true
  | .none | .unknown | .bip139 | .bip329 | .bip _ | .proprietary _ => false

section Rendering

variable [Target] [Miniscript] [SerdeJson] [Serde DescriptorBackup] [Serde PolicySet]
  [Serde PolicyBackup]

/-- What an item of a supported type is printed as: its own bytes for a string and for a
nested backup, and the printed form of what is parsed of them for the rest. -/
def printed : Content × Bytes → Option Bytes
  | (.string, bytes) | (.bip138, bytes) => some bytes
  | (.bip380, bytes) => do
      let text ← fromUtf8 bytes
      match Descriptor.fromStr text with
      | some descr => some (asBytes descr.toString)
      | none => do
          let backup ← (parseDescriptorBackup bytes).toOption
          backup.toJson.toOption
  | (.bip388, bytes) => do
      let backup ← (parsePolicyBackup bytes).toOption
      backup.toPayload.toOption
  | _ => none

/-- An item is printed as something that holds its bytes. -/
def PrintsItself (item : Content × Bytes) : Prop :=
  ∃ line, printed item = some line ∧ item.2 <:+: line

/-- What the supported items of a payload are printed as. -/
def PrintedAs (items : List (Content × Bytes)) (lines : List Bytes) : Prop :=
  List.Forall₂ (fun item line => printed item = some line) (items.filter (supported ·.1)) lines

/-- The bytes of the supported items of a payload. -/
def supportedBytes (items : List (Content × Bytes)) : List Bytes :=
  (items.filter (supported ·.1)).map Prod.snd

omit [Target] in
/-- What is extracted from a supported item is printed as the item is. -/
theorem printed_eq_some_iff {content : Content} {bytes line : Bytes}
    {value : Decrypted NoProprietary} (hsupported : supported content = true)
    (hextract : extract content bytes = some (.ok value)) :
    printed (content, bytes) = some line ↔ decryptedToBytes value = .ok line := by
  cases content with
  | none | unknown | bip139 | bip329 | bip | proprietary => cases hsupported
  | string =>
      obtain ⟨text, htext, hvalue⟩ := Exec.bind_eq_ok_iff.mp (Option.some.inj hextract)
      cases hvalue
      rw [Exec.okOr_eq_ok_iff, fromUtf8_eq_some_iff] at htext
      rw [printed, decryptedToBytes, htext, Option.some.injEq, Except.ok.injEq]
  | bip138 =>
      cases hextract
      rw [printed, decryptedToBytes, Option.some.injEq, Except.ok.injEq]
  | bip380 =>
      obtain ⟨text, htext, hvalue⟩ := Exec.bind_eq_ok_iff.mp (Option.some.inj hextract)
      rw [Exec.okOr_eq_ok_iff] at htext
      dsimp only [printed]
      rw [htext]
      rcases hparse : Descriptor.fromStr text with _ | descr
      · rw [hparse] at hvalue
        obtain ⟨backup, hbackup, hvalue⟩ := Exec.bind_eq_ok_iff.mp hvalue
        cases hvalue
        rw [← fromUtf8_eq_some_iff.mp htext] at hbackup
        rw [decryptedToBytes, Exec.mapErr_eq_ok_iff, ← Exec.toOption_eq_some_iff]
        simp only [Option.bind_eq_bind, Option.bind_some, hparse,
          Exec.toOption_eq_some_iff.mpr hbackup]
      · rw [hparse] at hvalue
        cases hvalue
        simp only [Option.bind_eq_bind, Option.bind_some, hparse, decryptedToBytes,
          Option.some.injEq, Except.ok.injEq]
  | bip388 =>
      obtain ⟨backup, hbackup, hvalue⟩ := Exec.bind_eq_ok_iff.mp (Option.some.inj hextract)
      cases hvalue
      rw [decryptedToBytes, Exec.mapErr_eq_ok_iff, ← Exec.toOption_eq_some_iff]
      simp only [printed, Option.bind_eq_bind, Option.bind_some,
        Exec.toOption_eq_some_iff.mpr hbackup]

omit [Target] in
/-- An item without a parser is skipped, unless its type is unknown. -/
theorem extract_eq_none {content : Content} (bytes : Bytes) (hsupported : supported content ≠ true)
    (hknown : content ≠ .none ∧ content ≠ .unknown) :
    extract (P := NoProprietary) content bytes = none := by
  cases content with
  | string | bip138 | bip380 | bip388 => exact absurd rfl hsupported
  | none => exact absurd rfl hknown.1
  | unknown => exact absurd rfl hknown.2
  | bip139 | bip329 | bip | proprietary => rfl

omit [Target] in
/-- When no type is unknown, all that is extracted are the supported items, in order. -/
theorem exists_extracted {items : List (Content × Bytes)}
    (hextract : ∀ item ∈ items, supported item.1 = true →
      ∃ value, extract (P := NoProprietary) item.1 item.2 = some (.ok value))
    (hknown : ∀ item ∈ items, item.1 ≠ .none ∧ item.1 ≠ .unknown) :
    ∃ decrypted,
      (items.filterMap fun (content, bytes) => extract content bytes).mapM id = .ok decrypted ∧
      ∀ lines, List.Forall₂ (fun value line => decryptedToBytes value = .ok line) decrypted lines ↔
        PrintedAs items lines := by
  induction items with
  | nil =>
      refine ⟨[], rfl, fun lines => ?_⟩
      rw [PrintedAs, List.filter_nil, List.forall₂_nil_left_iff, List.forall₂_nil_left_iff]
  | cons item items ih =>
      obtain ⟨content, bytes⟩ := item
      obtain ⟨hfirst, hlater⟩ := List.forall_mem_cons.mp hextract
      obtain ⟨hcontent, hrest⟩ := List.forall_mem_cons.mp hknown
      obtain ⟨decrypted, hdecrypted, hprinted⟩ := ih hlater hrest
      by_cases hsupported : supported content = true
      · obtain ⟨value, hvalue⟩ := hfirst hsupported
        dsimp only at hvalue
        refine ⟨value :: decrypted, ?_, fun lines => ?_⟩
        · simp only [List.filterMap_cons, hvalue, List.mapM_cons, id_eq, Exec.ok_bind]
          rw [hdecrypted]
          rfl
        · rw [PrintedAs, List.filter_cons, if_pos hsupported]
          simp only [List.forall₂_cons_left_iff, printed_eq_some_iff hsupported hvalue, hprinted]
          rfl
      · refine ⟨decrypted, ?_, fun lines => ?_⟩
        · have hskipped := extract_eq_none bytes hsupported hcontent
          simp only [List.filterMap_cons, hskipped]
          exact hdecrypted
        · rw [PrintedAs, List.filter_cons, if_neg hsupported, hprinted]
          rfl

omit [Target] in
/-- Items that print themselves are printed as lines that hold their bytes. -/
theorem exists_printedAs {items : List (Content × Bytes)}
    (hself : ∀ item ∈ items, supported item.1 = true → PrintsItself item) :
    ∃ lines, PrintedAs items lines ∧ InOrder (supportedBytes items) (lines.foldl appendLine []) := by
  have hlines : ∃ lines, PrintedAs items lines ∧
      List.Forall₂ (· <:+: ·) (supportedBytes items) lines := by
    simp only [PrintedAs, supportedBytes]
    have hfiltered : ∀ item ∈ items.filter (supported ·.1), PrintsItself item := by
      intro item hitem
      obtain ⟨hmem, hsupported⟩ := List.mem_filter.mp hitem
      exact hself item hmem hsupported
    generalize items.filter (supported ·.1) = chosen at hfiltered ⊢
    induction chosen with
    | nil => exact ⟨[], .nil, .nil⟩
    | cons item chosen ih =>
        obtain ⟨⟨line, hline, hinfix⟩, hlater⟩ := List.forall_mem_cons.mp hfiltered
        obtain ⟨lines, hprinted, hlines⟩ := ih hlater
        exact ⟨line :: lines, .cons hline hprinted, .cons hinfix hlines⟩
  obtain ⟨lines, hprinted, hlines⟩ := hlines
  obtain ⟨rest, hrest, horder⟩ := exists_foldl_appendLine hlines []
  rw [List.nil_append] at hrest
  exact ⟨lines, hprinted, hrest ▸ horder⟩

omit [Miniscript] [SerdeJson] [Serde DescriptorBackup] [Serde PolicySet] [Serde PolicyBackup] in
/-- A decoded item has a content type. -/
theorem ne_none_of_decodePlaintext {payload : Slice} {items : List (Content × Bytes)}
    (hdecode : decodePlaintext payload.1 = .ok items) : ∀ item ∈ items, item.1 ≠ .none := by
  obtain ⟨-, word, rest, hmany, -⟩ := (decodePlaintext_eq_ok_iff payload.2).mp hdecode
  clear hdecode
  induction hmany with
  | nil => exact fun _ hitem => absurd hitem List.not_mem_nil
  | cons hitem _ ih =>
      obtain ⟨field, data, hfield, -⟩ := hitem
      exact List.forall_mem_cons.mpr ⟨hfield.ne_none, ih⟩

end Rendering

section Document

variable [Target] [Miniscript] [SerdeJson] [Serde DescriptorBackup] [Serde PolicySet]
  [Serde PolicyBackup] [V0] {crypto : Crypto} {backup : EncryptedBackup}
  {items : List (Content × Bytes)}

/-- The document holds the bytes of the supported items in their order exactly when no item is
of an unknown type and the printed forms of the supported ones hold them. That they do is
no condition where each item prints itself, as strings and nested backups always do. Items
without a parser do no harm. -/
theorem decryptDocument_renders_iff {payload : Slice}
    (hdecode : decodePlaintext payload.1 = .ok items)
    (hreaches : backup.ReachesExtraction crypto items)
    (hextract : ∀ item ∈ items, supported item.1 = true →
      ∃ value, extract (P := NoProprietary) item.1 item.2 = some (.ok value)) :
    ((∃ document, decryptDocument crypto backup = .ok document ∧
          InOrder (supportedBytes items) document) ↔
        (∀ item ∈ items, item.1 ≠ .unknown) ∧
          ∃ lines, PrintedAs items lines ∧
            InOrder (supportedBytes items) (lines.foldl appendLine [])) ∧
      ((∀ item ∈ items, supported item.1 = true → PrintsItself item) →
        ((∃ document, decryptDocument crypto backup = .ok document ∧
            InOrder (supportedBytes items) document) ↔
          ∀ item ∈ items, item.1 ≠ .unknown)) := by
  have hdocument : (∃ document, decryptDocument crypto backup = .ok document ∧
      InOrder (supportedBytes items) document) ↔
        (∀ item ∈ items, item.1 ≠ .unknown) ∧ ∃ lines, PrintedAs items lines ∧
          InOrder (supportedBytes items) (lines.foldl appendLine []) := by
    have hpayload := hreaches
    obtain ⟨cyphertext, secrets, nonce, hpayload, -⟩ := hpayload
    simp only [decryptDocument, Exec.bind_eq_ok_iff, Exec.mapErr_eq_ok_iff,
      EncryptedBackup.decrypt, EncryptedBackup.decryptWith_eq_ok_iff hpayload,
      decryptedToDocument_eq_ok_iff]
    constructor
    · rintro ⟨_, ⟨decrypted, ⟨others, hothers, hdecrypted⟩, lines, hlines, rfl⟩, horder⟩
      obtain rfl := hothers.unique hreaches
      have hknown : ∀ item ∈ others, item.1 ≠ .unknown := by
        rintro ⟨content, bytes⟩ hitem hunknown
        dsimp only at hunknown
        subst hunknown
        -- an item of an unknown type is extracted as raw bytes, for which nothing is printed
        obtain ⟨value, hvalue, hequal⟩ :=
          Exec.exists_mem_of_mapM_eq_ok hdecrypted (List.mem_filterMap.mpr ⟨_, hitem, rfl⟩)
        cases hequal
        obtain ⟨segment, hsegment⟩ := exists_of_mem_of_printed hlines hvalue
        cases hsegment
      obtain ⟨extracted, hextracted, hprinted⟩ := exists_extracted hextract fun item hitem =>
        ⟨ne_none_of_decodePlaintext hdecode item hitem, hknown item hitem⟩
      obtain rfl : extracted = decrypted := Except.ok.inj (hextracted.symm.trans hdecrypted)
      exact ⟨hknown, lines, (hprinted lines).mp hlines, horder⟩
    · rintro ⟨hknown, lines, hlines, horder⟩
      obtain ⟨extracted, hextracted, hprinted⟩ := exists_extracted hextract fun item hitem =>
        ⟨ne_none_of_decodePlaintext hdecode item hitem, hknown item hitem⟩
      exact ⟨_, ⟨extracted, ⟨items, hreaches, hextracted⟩, lines, (hprinted lines).mpr hlines, rfl⟩,
        horder⟩
  refine ⟨hdocument, fun hself => ?_⟩
  rw [hdocument]
  exact and_iff_left (exists_printedAs hself)

end Document

namespace Sample

open Bip138.Sample

scoped instance serdePolicyBackup : Serde PolicyBackup where
  toVec _ := some (asBytes policyText)
  fromStr _ := none
  fromValue _ := none

/-- A string and a nested backup, with a vendor item and wallet metadata between them. -/
def mixedPayload : Bytes :=
  [0x03, 0x00, 0x01, 0x61] ++ [0x02, 0x01, 0x07, 0x01, 0xff] ++ [0x01, 0x00, 0x8b, 0x00] ++
    [0x01, 0x00, 0x8a, 0x01, 0x42]

def mixedItems : List (Content × Bytes) :=
  [(.string, [0x61]), (.proprietary [0x07], [0xff]), (.bip139, []), (.bip138, [0x42])]

/-- An item of a type that is not assigned yet, and a string. -/
def unknownPayload : Bytes := [0x04, 0x00, 0x01, 0xff] ++ [0x03, 0x00, 0x01, 0x61]

def unknownItems : List (Content × Bytes) := [(.unknown, [0xff]), (.string, [0x61])]

/-- A builder that holds the container of a payload, and the key it is for. -/
theorem exists_reachesExtraction (payload : Bytes) (items : List (Content × Bytes))
    (hrun : Exec.returnsWith (fun (_, secrets, _, nonce, cyphertext) =>
        Ll.decryptChacha20Poly1305V1 sampleCrypto sampleKey secrets cyphertext nonce = .ok items)
      (do
        let bytes ← encodeV1Backup sampleCrypto [] true [sampleKey] payload sampleNonce
          (padIndividualSecretsWithDecoys sampleDecoys)
        decodeV1 bytes) = true) :
    ∃ backup : EncryptedBackup, backup.setKeys [holder] = backup ∧
      backup.ReachesExtraction sampleCrypto items := by
  obtain ⟨⟨stored, secrets, encryption, nonce, cyphertext⟩, -, htest⟩ :=
    Exec.exists_eq_ok _ _ hrun
  have hitems := of_decide_eq_true htest
  refine ⟨{ EncryptedBackup.new with
    payload := .decryptV1 cyphertext secrets nonce
    keys := [holder] }, rfl, cyphertext, secrets, nonce, rfl, rfl, rfl, List.cons_ne_nil _ _, ?_⟩
  rw [EncryptedBackup.decryptItems, show xonly holder = sampleKey from rfl, hitems]

theorem extract_letter :
    extract (P := NoProprietary) .string [0x61] = some (.ok (.string "a")) := by
  have hletter : fromUtf8 [0x61] = some "a" := by
    decide +kernel
  rw [extract, hletter]
  rfl

theorem decodePlaintext_mixedPayload : decodePlaintext mixedPayload = .ok mixedItems := by
  decide +kernel

theorem decodePlaintext_unknownPayload : decodePlaintext unknownPayload = .ok unknownItems := by
  decide +kernel

end Sample

open Bip138.Sample Sample in
/-- A payload with items of four types is printed with its string and its nested backup. -/
theorem decryptDocument_renders_iff_mixed :
    ∃ backup : EncryptedBackup, backup.ReachesExtraction sampleCrypto mixedItems ∧
      ∃ document, decryptDocument sampleCrypto backup = .ok document ∧
        InOrder (supportedBytes mixedItems) document := by
  obtain ⟨backup, -, hreaches⟩ :=
    exists_reachesExtraction mixedPayload mixedItems (by decide +kernel)
  have hdecode : decodePlaintext (⟨mixedPayload, by decide +kernel⟩ : Slice).1 = .ok mixedItems :=
    decodePlaintext_mixedPayload
  refine ⟨backup, hreaches, ((decryptDocument_renders_iff hdecode hreaches ?_).2 ?_).mpr ?_⟩
  · simp only [mixedItems, List.forall_mem_cons, List.not_mem_nil, false_implies, implies_true,
      and_true]
    refine ⟨fun _ => ⟨.string "a", extract_letter⟩, fun hsupported => ?_, fun hsupported => ?_,
      fun _ => ⟨.bip138 [0x42], rfl⟩⟩
    · cases hsupported
    · cases hsupported
  · simp only [mixedItems, List.forall_mem_cons, List.not_mem_nil, false_implies, implies_true,
      and_true]
    refine ⟨fun _ => ⟨[0x61], rfl, List.infix_rfl⟩, fun hsupported => ?_, fun hsupported => ?_,
      fun _ => ⟨[0x42], rfl, List.infix_rfl⟩⟩
    · cases hsupported
    · cases hsupported
  · decide +kernel

open Bip138.Sample Sample in
/-- The string behind an item of an unknown type is lost with it. -/
theorem decryptDocument_unknownPayload :
    decodePlaintext unknownPayload = .ok unknownItems ∧
      ∃ backup : EncryptedBackup, backup.ReachesExtraction sampleCrypto unknownItems ∧
        (∀ item ∈ unknownItems, supported item.1 = true →
          ∃ value, extract (P := NoProprietary) item.1 item.2 = some (.ok value)) ∧
        decryptDocument sampleCrypto backup = .fail .content ∧
        ¬ ∃ document, decryptDocument sampleCrypto backup = .ok document ∧
          InOrder (supportedBytes unknownItems) document := by
  obtain ⟨backup, -, hreaches⟩ :=
    exists_reachesExtraction unknownPayload unknownItems (by decide +kernel)
  have hdecrypt : backup.decrypt sampleCrypto = .ok [.raw [0xff], .string "a"] := by
    obtain ⟨_, _, _, hpayload, -⟩ := id hreaches
    refine (EncryptedBackup.decryptWith_eq_ok_iff hpayload).mpr ⟨unknownItems, hreaches, ?_⟩
    simp only [unknownItems, List.filterMap_cons, extract_letter, List.filterMap_nil]
    rfl
  have hrefused : decryptDocument sampleCrypto backup = .fail .content := by
    rw [decryptDocument, hdecrypt]
    rfl
  refine ⟨decodePlaintext_unknownPayload, backup, hreaches, ?_, hrefused, fun hprinted => ?_⟩
  · simp only [unknownItems, List.forall_mem_cons, List.not_mem_nil, false_implies, implies_true,
      and_true]
    refine ⟨fun hsupported => ?_, fun _ => ⟨.string "a", extract_letter⟩⟩
    cases hsupported
  · obtain ⟨document, hdocument, -⟩ := hprinted
    rw [hrefused] at hdocument
    cases hdocument

end Bip138.Cli
