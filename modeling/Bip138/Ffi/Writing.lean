/-
# What the writers need room for

An encryption builds a payload and a container, each in a vector that is extended piece by
piece. Where these vectors fit the writers under callbacks are the ones of the core, and
where one of them does not the call panics.

What a payload needs depends on the doubling of its vector (`PayloadFits`). A container is
mostly its cyphertext, and it fits exactly when its bytes do (`backupSize`).
-/

import Mathlib.Algebra.BigOperators.Group.Finset.Defs
import Bip138.Ffi.Core
import Bip138.Ll.Limits
import Bip138.Ll.Returns

namespace Bip138.Ffi

open Bip138.Rust Bip138.Ll

variable {σ : Type}

/-- The lengths of the vector of a payload while its one item is written: the content field,
the length of the data, the data. -/
def itemLengths (item : Content × Bytes) : List ℕ :=
  [contentSize item.1, contentSize item.1 + varintSize (UInt64.ofNat item.2.length),
    itemSize item]

/-- The bytes of a backup: magic and version, the paths with their counts, the secrets with
theirs, the encryption byte, the nonce, and the cyphertext with its length. -/
def backupSize (paths : Finset Ll.DerivationPath) (secrets : ℕ) (cyphertext : Bytes) : ℕ :=
  7 + (1 + ∑ path ∈ paths, (1 + 4 * path.length)) + (1 + 32 * secrets) + 1 + 12 +
    varintSize (UInt64.ofNat cyphertext.length) + cyphertext.length

theorem varintSize_le (value : UInt64) : varintSize value ≤ 9 := by
  rw [varintSize]
  split_ifs <;> decide

section Payload

variable [Target] {content : Content} {data payload : Bytes} {padding : Padding}

theorem le_isizeMax : 2 ^ 31 - 1 ≤ isizeMax := by
  rcases Target.supported with hwidth | hwidth <;> simp [isizeMax, hwidth]

/-- The vector of the payload never grows over `isize::MAX` bytes, neither for the item nor
for the padding, if there is a size to pad it to. -/
structure PayloadFits (content : Content) (data : Bytes) (padding : Padding) : Prop where
  item : ByteVec.grownThrough 0 (itemLengths (content, data)) ≤ isizeMax
  padded : ∀ size, padding.paddedSize (itemSize (content, data)) = .ok size →
    ByteVec.grownThrough 0 (itemLengths (content, data) ++ [size]) ≤ isizeMax

omit [Target] in
theorem toBytes_eq_contentParts (content : Content) :
    content.toBytes =
      (contentParts content).map fun (type, len, data) => [type] ++ len ++ data := by
  cases content <;> rfl

omit [Target] in
theorem length_contentParts {type : UInt8} {len data : Bytes}
    (hparts : contentParts content = some (type, len, data)) :
    len.length ≤ 9 ∧ contentSize content = 1 + len.length + data.length := by
  have hsize := length_toBytes_getD content
  rw [toBytes_eq_contentParts, hparts, Option.map_some, Option.getD_some, List.length_append,
    List.length_append, List.length_singleton] at hsize
  refine ⟨?_, hsize.symm⟩
  cases content with
  | none | unknown => cases hparts
  | proprietary tag =>
      cases hparts
      rw [Varint.length_encode]
      exact varintSize_le _
  | string | bip139 | bip138 | bip380 | bip388 | bip329 | bip _ =>
      cases hparts
      decide

/-- The bytes of a content are written when they fit in a vector. -/
theorem contentToVec_eq {metadata : Bytes} (hcontent : content.toBytes = some metadata) :
    contentToVec content =
      if contentSize content ≤ isizeMax then .ok metadata else .abort .capacityOverflow := by
  have hisize := le_isizeMax
  rw [toBytes_eq_contentParts, Option.map_eq_some_iff] at hcontent
  obtain ⟨⟨type, len, data⟩, hparts, rfl⟩ := hcontent
  obtain ⟨hlen, hsize⟩ := length_contentParts hparts
  have hfirst := grownCapacity_le 8 1 (1 + len.length)
  have hlast : ByteVec.grownThrough 1 [1 + len.length, 1 + len.length + data.length] ≤ isizeMax ↔
      contentSize content ≤ isizeMax := by
    rw [hsize]
    exact grownCapacity_le_iff (by omega) (by omega)
  rw [contentToVec, hparts]
  dsimp only [Exec.okOr, Exec.ok_bind]
  rw [ByteVec.extendAll_eq _ _ (show 1 ≤ isizeMax by omega)]
  simp only [ByteVec.ofBytes, ByteVec.lengthsThrough, List.length_singleton, hlast,
    List.flatten_cons, List.flatten_nil, List.append_nil, List.append_assoc]
  split
  · rfl
  · rfl

theorem contentToVec_eq_fail (hcontent : content.toBytes = none) :
    contentToVec content = .fail .contentMetadata := by
  rw [toBytes_eq_contentParts, Option.map_eq_none_iff] at hcontent
  rw [contentToVec, hcontent]
  rfl

omit [Target] in
theorem itemLengths_eq {metadata : Bytes} (hcontent : content.toBytes = some metadata) :
    ByteVec.lengthsThrough 0 [metadata, Varint.encode (UInt64.ofNat data.length), data] =
      itemLengths (content, data) := by
  have hmetadata : metadata.length = contentSize content := by
    rw [← length_toBytes_getD, hcontent, Option.getD_some]
  simp only [ByteVec.lengthsThrough, itemLengths, itemSize, Varint.length_encode, hmetadata,
    Nat.zero_add]

/-- The core builds the payload of one item. -/
theorem buildV1Payload_singleton {metadata : Bytes}
    (hdata : ¬ (u32Max < data.length ∨ data = [])) (hcontent : content.toBytes = some metadata) :
    Ll.buildV1Payload [(content, data)] padding = (do
      let size ← padding.paddedSize (itemSize (content, data))
      .ok (Ll.resize (itemBytes (content, data)) size 0)) := by
  have hitem : buildItem (content, data) = .ok (metadata, data) := by
    rw [buildItem, if_neg hdata, hcontent]
    exact if_neg (Content.length_toBytes_pos hcontent)
  have hbytes : itemBytes (content, data) = encodeItem (metadata, data) := by
    rw [itemBytes, hcontent, Option.getD_some]
  rw [Ll.buildV1Payload, List.mapM_cons, hitem, Exec.ok_bind, List.mapM_nil]
  dsimp only [pure, Except.pure, Exec.ok_bind]
  rw [Ll.encodePlaintext, if_neg (List.cons_ne_nil _ _), ← length_itemBytes, hbytes]
  dsimp only
  rw [List.flatMap_cons, List.flatMap_nil, List.append_nil]

omit [Target] in
/-- A valid item has data within the limit and a content type with an encoding. -/
theorem written_of_itemValid (hvalid : ItemValid (content, data)) :
    ¬ (u32Max < data.length ∨ data = []) ∧ ∃ metadata, content.toBytes = some metadata := by
  rw [not_or, not_lt, ← Option.isSome_iff_exists, Option.isSome_iff_ne_none, ne_eq,
    Content.toBytes_eq_none_iff, not_or]
  exact ⟨⟨hvalid.dataLength, hvalid.dataNonempty⟩, hvalid.contentKnown⟩

/-- The core builds the payload of a valid item that can be padded. -/
theorem buildV1Payload_eq_ok_of_itemValid (hvalid : ItemValid (content, data)) {size : ℕ}
    (hsize : padding.paddedSize (itemSize (content, data)) = .ok size) :
    Ll.buildV1Payload [(content, data)] padding =
      .ok (Ll.resize (itemBytes (content, data)) size 0) := by
  obtain ⟨hdata, metadata, hcontent⟩ := written_of_itemValid hvalid
  rw [buildV1Payload_singleton hdata hcontent, hsize]
  rfl

/-- Under callbacks the payload is built between two looks at its capacity. -/
theorem buildV1Payload_eq_ite {metadata : Bytes}
    (hdata : ¬ (u32Max < data.length ∨ data = [])) (hcontent : content.toBytes = some metadata) :
    buildV1Payload content data padding =
      if ByteVec.grownThrough 0 (itemLengths (content, data)) ≤ isizeMax then do
        let size ← padding.paddedSize (itemSize (content, data))
        if ByteVec.grownThrough 0 (itemLengths (content, data) ++ [size]) ≤ isizeMax then
          .ok (Ll.resize (itemBytes (content, data)) size 0)
        else .abort .capacityOverflow
      else .abort .capacityOverflow := by
  have hlengths : ByteVec.lengthsThrough ByteVec.new.bytes.length
      [metadata, Varint.encode (UInt64.ofNat data.length), data] = itemLengths (content, data) :=
    itemLengths_eq hcontent
  have hwritten : [metadata, Varint.encode (UInt64.ofNat data.length), data].flatten =
      itemBytes (content, data) := by
    simp [itemBytes, encodeItem, hcontent]
  rw [buildV1Payload, if_neg hdata, contentToVec_eq hcontent]
  by_cases hitem : ByteVec.grownThrough 0 (itemLengths (content, data)) ≤ isizeMax
  · have hmetadata : contentSize content ≤ isizeMax :=
      ((le_grownCapacity 8 0 _).2.trans (ByteVec.le_grownThrough _ _)).trans hitem
    rw [if_pos hmetadata, Exec.ok_bind, if_neg (Content.length_toBytes_pos hcontent),
      encodePlaintext, ByteVec.extendAll_eq _ _ (Nat.zero_le _), hlengths,
      show ByteVec.new.capacity = 0 from rfl, if_pos hitem, Exec.ok_bind, hwritten, if_pos hitem]
    dsimp only [ByteVec.new]
    rw [List.nil_append, length_itemBytes]
    rcases hsize : padding.paddedSize (itemSize (content, data)) with fault | size
    · rfl
    have hle : (itemBytes (content, data)).length ≤ size := by
      rw [length_itemBytes]
      exact le_of_paddedSize_eq_ok hsize
    rw [Exec.ok_bind, Exec.ok_bind, ByteVec.resize, ByteVec.extendFromSlice_eq,
      ByteVec.grownThrough_append, resize_eq_append hle]
    dsimp only
    rw [List.length_replicate, Nat.add_sub_of_le hle]
    by_cases hgrown : grownCapacity 8 (ByteVec.grownThrough 0 (itemLengths (content, data))) size ≤
        isizeMax
    · rw [if_pos hgrown]
      exact (if_pos hgrown).symm
    · rw [if_neg hgrown]
      exact (if_neg hgrown).symm
  · rw [if_neg hitem]
    by_cases hmetadata : contentSize content ≤ isizeMax
    · rw [if_pos hmetadata, Exec.ok_bind, if_neg (Content.length_toBytes_pos hcontent),
        encodePlaintext, ByteVec.extendAll_eq _ _ (Nat.zero_le _), hlengths,
        show ByteVec.new.capacity = 0 from rfl, if_neg hitem]
      rfl
    · rw [if_neg hmetadata]
      rfl

/-- A payload that fits is the one of the core. -/
theorem buildV1Payload_eq
    (hfits : ItemValid (content, data) → PayloadFits content data padding) :
    buildV1Payload content data padding = Ll.buildV1Payload [(content, data)] padding := by
  by_cases hdata : u32Max < data.length ∨ data = []
  · rw [buildV1Payload, if_pos hdata, Ll.buildV1Payload, List.mapM_cons, buildItem, if_pos hdata]
    rfl
  rcases hcontent : content.toBytes with _ | metadata
  · rw [buildV1Payload, if_neg hdata, contentToVec_eq_fail hcontent, Ll.buildV1Payload,
      List.mapM_cons, buildItem, if_neg hdata, hcontent]
    rfl
  have hpayload : PayloadFits content data padding := by
    rw [not_or, not_lt] at hdata
    have hknown : content ≠ .none ∧ content ≠ .unknown := by
      rw [ne_eq, ne_eq, ← not_or, ← Content.toBytes_eq_none_iff, hcontent]
      exact Option.some_ne_none metadata
    exact hfits ⟨hdata.2, hdata.1, hknown⟩
  rw [buildV1Payload_eq_ite hdata hcontent, buildV1Payload_singleton hdata hcontent,
    if_pos hpayload.item]
  rcases hsize : padding.paddedSize (itemSize (content, data)) with fault | size
  · rfl
  · exact if_pos (hpayload.padded size hsize)

/-- A payload that does not fit is a panic. -/
theorem buildV1Payload_eq_abort (hvalid : ItemValid (content, data))
    (hfits : ¬ PayloadFits content data padding) :
    buildV1Payload content data padding = .abort .capacityOverflow := by
  obtain ⟨hdata, metadata, hcontent⟩ := written_of_itemValid hvalid
  rw [buildV1Payload_eq_ite hdata hcontent]
  by_cases hitem : ByteVec.grownThrough 0 (itemLengths (content, data)) ≤ isizeMax
  swap
  · exact if_neg hitem
  obtain ⟨size, hsize, hover⟩ : ∃ size, padding.paddedSize (itemSize (content, data)) = .ok size ∧
      ¬ ByteVec.grownThrough 0 (itemLengths (content, data) ++ [size]) ≤ isizeMax := by
    by_contra hnone
    push Not at hnone
    exact hfits ⟨hitem, hnone⟩
  rw [if_pos hitem, hsize, Exec.ok_bind, if_neg hover]

/-- A payload that was built is in a vector. -/
theorem length_le_of_payloadFits (hfits : PayloadFits content data padding)
    (hbuild : Ll.buildV1Payload [(content, data)] padding = .ok payload) :
    payload.length ≤ isizeMax := by
  obtain ⟨-, -, size, hsize, rfl⟩ := buildV1Payload_eq_ok_iff.mp hbuild
  rw [List.flatMap_cons, List.flatMap_nil, List.append_nil, length_itemBytes] at hsize
  rw [List.flatMap_cons, List.flatMap_nil, List.append_nil, List.length_append,
    List.length_replicate, length_itemBytes, Nat.add_sub_of_le (le_of_paddedSize_eq_ok hsize)]
  have hgrown := hfits.padded size hsize
  rw [ByteVec.grownThrough_append] at hgrown
  exact (le_grownCapacity 8 _ size).2.trans hgrown

end Payload

section Container

variable [Target] {nonce : Block 12} {cyphertext pathWord secretWord payloadWord : Bytes}
  {version encryption : UInt8}

/-- What is encrypted is written when its bytes fit. -/
theorem encodeEncryptedPayload_eq (hcyphertext : cyphertext ≠ []) :
    encodeEncryptedPayload nonce cyphertext =
      if 12 + varintSize (UInt64.ofNat cyphertext.length) + cyphertext.length ≤ isizeMax then
        .ok (nonce.1 ++ Varint.encode (UInt64.ofNat cyphertext.length) ++ cyphertext)
      else .abort .capacityOverflow := by
  have hisize := le_isizeMax
  have hvarint := varintSize_le (UInt64.ofNat cyphertext.length)
  have hlast : ByteVec.grownThrough 0 ([12, 12 + varintSize (UInt64.ofNat cyphertext.length)] ++
      [12 + varintSize (UInt64.ofNat cyphertext.length) + cyphertext.length]) ≤ isizeMax ↔
      12 + varintSize (UInt64.ofNat cyphertext.length) + cyphertext.length ≤ isizeMax := by
    refine ByteVec.grownThrough_concat_le_iff 21 (fun length hlength => ?_) (by omega)
      (by omega)
    simp only [List.mem_cons, List.not_mem_nil, or_false] at hlength
    omega
  rw [encodeEncryptedPayload, if_neg hcyphertext, ByteVec.extendAll_eq _ _ (Nat.zero_le _)]
  simp only [ByteVec.new, ByteVec.lengthsThrough, List.length_nil, Nat.zero_add, nonce.2,
    Varint.length_encode, List.cons_append, List.nil_append, List.flatten_cons, List.flatten_nil,
    List.append_nil, List.append_assoc] at hlast ⊢
  simp only [hlast]
  split
  · rfl
  · rfl

omit [Target] in
theorem length_encodeV1 :
    (Ll.encodeV1 version pathWord secretWord encryption payloadWord).length =
      7 + pathWord.length + secretWord.length + 1 + payloadWord.length := by
  simp only [Ll.encodeV1, List.length_append, List.length_singleton]
  rfl

/-- A container with a small head is written when its bytes fit. -/
theorem encodeV1_eq (hpaths : pathWord.length ≤ 2 ^ 19) (hsecrets : secretWord.length ≤ 2 ^ 19) :
    encodeV1 version pathWord secretWord encryption payloadWord =
      if (Ll.encodeV1 version pathWord secretWord encryption payloadWord).length ≤ isizeMax then
        .ok (Ll.encodeV1 version pathWord secretWord encryption payloadWord)
      else .abort .capacityOverflow := by
  have hisize := le_isizeMax
  have hmagic : magic.length = 6 := rfl
  have hlast : ByteVec.grownThrough 6 ([7, 7 + pathWord.length,
        7 + pathWord.length + secretWord.length, 7 + pathWord.length + secretWord.length + 1] ++
      [7 + pathWord.length + secretWord.length + 1 + payloadWord.length]) ≤ isizeMax ↔
      7 + pathWord.length + secretWord.length + 1 + payloadWord.length ≤ isizeMax := by
    refine ByteVec.grownThrough_concat_le_iff (2 ^ 20 + 8) (fun length hlength => ?_)
      (by omega) (by omega)
    simp only [List.mem_cons, List.not_mem_nil, or_false] at hlength
    omega
  have hbytes : magic ++ [[version], pathWord, secretWord, [encryption], payloadWord].flatten =
      Ll.encodeV1 version pathWord secretWord encryption payloadWord := by
    simp only [Ll.encodeV1, List.flatten_cons, List.flatten_nil, List.append_nil,
      List.append_assoc]
  rw [encodeV1, ByteVec.extendAll_eq _ _ (show 6 ≤ isizeMax by omega)]
  dsimp only [ByteVec.ofBytes]
  rw [hbytes, length_encodeV1]
  simp only [ByteVec.lengthsThrough, hmagic, List.length_singleton, List.cons_append,
    List.nil_append, Nat.reduceAdd] at hlast ⊢
  simp only [hlast]
  split
  · rfl
  · rfl

end Container

section Backup

variable [Target] {vtable : CryptoVtable σ} {paths : List Ll.DerivationPath}
  {storeCommonPaths : Bool} {secret : Block 32} {payload word : Bytes} {nonce : Block 12}
  {padded : List (Block 32)} {ctx : σ}

omit [Target] in
theorem length_pathRecordBytes (path : Ll.DerivationPath) :
    (pathRecordBytes path).length = 1 + 4 * path.length := by
  have hchilds : (path.flatMap fun child => toBeBytes 4 child.toNat).length = 4 * path.length := by
    induction path with
    | nil => rfl
    | cons child path ih =>
        rw [List.flatMap_cons, List.length_append, ih, length_toBeBytes, List.length_cons]
        omega
  rw [pathRecordBytes, List.length_cons, hchilds, Nat.add_comm]

omit [Target] in
theorem sum_recordLengths_le {paths : List Ll.DerivationPath}
    (hshort : ∀ path ∈ paths, path.length ≤ u8Max) :
    (paths.map fun path => 1 + 4 * path.length).sum ≤ 1021 * paths.length := by
  induction paths with
  | nil => exact Nat.le_refl 0
  | cons path paths ih =>
      have hpath : path.length ≤ 255 := hshort path List.mem_cons_self
      have hpaths := ih fun path hpath => hshort path (List.mem_cons_of_mem _ hpath)
      rw [List.map_cons, List.sum_cons, List.length_cons]
      omega

omit [Target] in
theorem length_encodeDerivationPaths
    (hword : encodeDerivationPaths (storedDerivationPaths paths storeCommonPaths).toList =
      .ok word) :
    word.length = 1 + ∑ path ∈ storedPaths paths storeCommonPaths, (1 + 4 * path.length) ∧
      word.length ≤ 2 ^ 19 := by
  rw [encodeDerivationPaths_eq_ok_iff, BTreeSet.collect_toList, pathTable_iff] at hword
  obtain ⟨hcount, hpaths, rfl⟩ := hword
  have hlength : ((storedDerivationPaths paths storeCommonPaths).toList.flatMap
      pathRecordBytes).length =
        ((storedDerivationPaths paths storeCommonPaths).toList.map
          fun path => 1 + 4 * path.length).sum := by
    rw [List.length_flatMap]
    exact congrArg List.sum (List.map_congr_left fun path _ => length_pathRecordBytes path)
  have hsum : ((storedDerivationPaths paths storeCommonPaths).toList.map
      fun path => 1 + 4 * path.length).sum =
        ∑ path ∈ storedPaths paths storeCommonPaths, (1 + 4 * path.length) := by
    rw [BTreeSet.toList_eq_sort fun _ => mem_storedDerivationPaths_iff_mem_storedPaths,
      ← Multiset.sum_coe, ← Multiset.map_coe, Finset.sort_eq]
    rfl
  have hbound := sum_recordLengths_le fun path hpath => (hpaths path hpath).2
  have hcount : (storedDerivationPaths paths storeCommonPaths).toList.length ≤ 255 := hcount
  rw [List.length_cons, hlength]
  exact ⟨by omega, by omega⟩

omit [Target] in
theorem length_encodeIndividualSecrets (hword : encodeIndividualSecrets padded = .ok word) :
    word.length = 1 + 32 * padded.toFinset.card ∧ word.length ≤ 2 ^ 19 := by
  rw [encodeIndividualSecrets_eq_ok_iff, secretTable_iff] at hword
  obtain ⟨-, hcount, rfl⟩ := hword
  have hcard : (BTreeSet.collect padded).toList.length = padded.toFinset.card :=
    BTreeSet.length_toList_eq_card fun block => by rw [BTreeSet.mem_collect, List.mem_toFinset]
  have hblocks : ((BTreeSet.collect padded).toList.flatMap Subtype.val).length =
      32 * (BTreeSet.collect padded).toList.length := by
    induction (BTreeSet.collect padded).toList with
    | nil => rfl
    | cons block blocks ih =>
        rw [List.flatMap_cons, List.length_append, ih, block.2, List.length_cons]
        omega
  have hcount : (BTreeSet.collect padded).toList.length ≤ 255 := hcount
  rw [List.length_cons, hblocks, ← hcard]
  exact ⟨by omega, by omega⟩

/-- The end of an encryption comes back unless it gets to the cipher with a buffer, or out of
it with a backup, that is too large. -/
theorem returns_writeBackup_iff (hencrypt : vtable.aeadEncrypt.isSome = true)
    (hpayload : payload ≠ [] ∧ payload.length ≤ isizeMax)
    (hpadded : padded ≠ [] ∧ padded.length ≤ u8Max) :
    (writeBackup vtable secret (storedDerivationPaths paths storeCommonPaths).toList payload nonce
        padded ctx).Returns ↔
      ((storedPaths paths storeCommonPaths).card ≤ 255 ∧
          ∀ path ∈ storedPaths paths storeCommonPaths, 1 ≤ path.length ∧ path.length ≤ 255) →
        nonce ≠ .zero 12 →
          payload.length + 16 ≤ isizeMax ∧
            ∀ cyphertext, vtable.sealed secret nonce payload ctx = some cyphertext →
              cyphertext ≠ [] →
                backupSize (storedPaths paths storeCommonPaths) padded.toFinset.card cyphertext ≤
                  isizeMax := by
  obtain ⟨secretWord, hsecrets⟩ := exists_encodeIndividualSecrets_eq_ok hpadded.1 hpadded.2
  obtain ⟨hsecretLength, hsecretShort⟩ := length_encodeIndividualSecrets hsecrets
  rw [writeBackup, hsecrets, Exec.ok_bind, ← exists_encodeDerivationPaths_eq_ok_iff]
  obtain ⟨pathWord, hpaths⟩ | ⟨cause, hpaths⟩ := returns_encodeDerivationPaths
    (storedDerivationPaths paths storeCommonPaths).toList
  swap
  · rw [hpaths, Exec.fail_bind]
    exact iff_of_true (Exec.returns_fail _) fun ⟨word, hok⟩ =>
      absurd hok (Exec.fail_ne_ok cause word)
  obtain ⟨hpathLength, hpathShort⟩ := length_encodeDerivationPaths hpaths
  rw [hpaths, Exec.ok_bind, forall_prop_of_true ⟨pathWord, rfl⟩, encryptWithNonce]
  by_cases hnonce : nonce = .zero 12
  · rw [if_pos hnonce, Exec.fail_bind]
    exact iff_of_true (Exec.returns_fail _) fun hne => absurd hnonce hne
  rw [if_neg hnonce, if_neg hpayload.1, forall_prop_of_true hnonce]
  by_cases hbuffer : payload.length + 16 ≤ isizeMax
  swap
  · rw [vtable.encrypt_eq_abort hencrypt hpayload.2 (not_le.mp hbuffer)]
    exact iff_of_false (Exec.not_returns_abort _) fun hfits => hbuffer hfits.1
  obtain ⟨later, hsealed⟩ : ∃ later, vtable.encrypt secret nonce payload ctx =
      .ok (vtable.sealed secret nonce payload ctx, later) := vtable.exists_encrypt_eq_ok hbuffer
  rw [hsealed, Exec.ok_bind, and_iff_right hbuffer]
  rcases vtable.sealed secret nonce payload ctx with _ | cyphertext
  · exact iff_of_true (Exec.returns_fail _) fun _ hsome => by cases hsome
  dsimp only [Option.map_some, Exec.okOr, Exec.ok_bind]
  simp only [Option.some.injEq, forall_eq']
  by_cases hempty : cyphertext = []
  · rw [encodeEncryptedPayload, if_pos hempty]
    exact iff_of_true (Exec.returns_fail _) fun hne => absurd hempty hne
  rw [encodeEncryptedPayload_eq hempty, forall_prop_of_true hempty]
  have htotal : (Ll.encodeV1 Version.v1.toU8 pathWord secretWord Encryption.chaCha20Poly1305.toU8
      (nonce.1 ++ Varint.encode (UInt64.ofNat cyphertext.length) ++ cyphertext)).length =
        backupSize (storedPaths paths storeCommonPaths) padded.toFinset.card cyphertext := by
    rw [length_encodeV1, List.length_append, List.length_append, nonce.2, Varint.length_encode,
      hpathLength, hsecretLength, backupSize]
    omega
  by_cases hfits : backupSize (storedPaths paths storeCommonPaths) padded.toFinset.card cyphertext ≤
      isizeMax
  · have hinner : 12 + varintSize (UInt64.ofNat cyphertext.length) + cyphertext.length ≤
        isizeMax := by
      rw [backupSize] at hfits
      omega
    rw [if_pos hinner, Exec.ok_bind, encodeV1_eq hpathShort hsecretShort, htotal, if_pos hfits]
    exact iff_of_true (Exec.returns_ok _) hfits
  · refine iff_of_false ?_ hfits
    split
    · rw [Exec.ok_bind, encodeV1_eq hpathShort hsecretShort, htotal, if_neg hfits]
      exact Exec.not_returns_abort _
    · exact Exec.not_returns_abort _

end Backup

end Bip138.Ffi
