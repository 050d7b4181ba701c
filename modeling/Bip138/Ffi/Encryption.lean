/-
# What C encrypts, C reads back

Over callbacks that compute a provider, encryption through the binding is encryption by the
core: the nonce is the one the caller's source yields first, and the decoys are blocks it
yields later (`bip138Encrypt_refines`). A callback may use the state of the source as it
likes in between, so the core is the one that is handed nonce and decoys.

The items of a decryption stay behind a pointer, and C reads them one at a time. A backup
made by one call is read by another with any of its keys, through another table of
callbacks if need be, and holds the one item that was asked for
(`bip138DecryptItem_bip138Encrypt`).
-/

import Bip138.Ffi.Returns

namespace Bip138.Ffi

open Bip138.Rust Bip138.Ll

variable {σ : Type}

/-- A byte run borrowed from a result; `none` is the null pointer. -/
structure BorrowedBytes where
  ptr : Option Bytes
  len : ℕ
  deriving DecidableEq

/-- One decoded content item, borrowed from a result. -/
structure DecryptItem where
  contentType : UInt32
  bip : UInt16
  tag : BorrowedBytes
  plaintext : BorrowedBytes
  deriving DecidableEq

section Code

def contentToFfi : Content → UInt32 × UInt16 × BorrowedBytes
  | .none => (bip138ContentNone, 0, ⟨none, 0⟩)
  | .bip138 => (bip138ContentBip138, 0, ⟨none, 0⟩)
  | .bip139 => (bip138ContentBip139, 0, ⟨none, 0⟩)
  | .bip380 => (bip138ContentBip380, 0, ⟨none, 0⟩)
  | .bip388 => (bip138ContentBip388, 0, ⟨none, 0⟩)
  | .bip329 => (bip138ContentBip329, 0, ⟨none, 0⟩)
  | .bip number => (bip138ContentBip, number, ⟨none, 0⟩)
  | .proprietary tag => (bip138ContentProprietary, 0, ⟨some tag, tag.length⟩)
  | .string => (bip138ContentString, 0, ⟨none, 0⟩)
  | .unknown => (bip138ContentUnknown, 0, ⟨none, 0⟩)

/-- A null result has no items. -/
def bip138DecryptLen : Option (List (Content × Bytes)) → ℕ
  | none => 0
  | some items => items.length

def decryptItem (result : Option (List (Content × Bytes))) (index : ℕ) (out : Bool) :
    Exec FfiError DecryptItem :=
  match result, out with
  | some items, true => match items[index]? with
      | none => .fail .indexOutOfBounds
      | some (content, plaintext) =>
          let (contentType, bip, tag) := contentToFfi content
          .ok ⟨contentType, bip, tag, ⟨some plaintext, plaintext.length⟩⟩
  | _, _ => .fail .nullPointer

def bip138DecryptItem (result : Option (List (Content × Bytes))) (index : ℕ) (out err : Bool) :
    Exec Empty (Returned DecryptItem) :=
  comeBack err (decryptItem result index out)

end Code

/-- The bytes of a run, as C hands them back in. -/
def BorrowedBytes.bytes (borrowed : BorrowedBytes) : Bytes := borrowed.ptr.getD []

/-- What is told of a content type is that content type. -/
theorem contentFromFfi_contentToFfi (content : Content) :
    contentFromFfi (contentToFfi content).1 (contentToFfi content).2.1
      (contentToFfi content).2.2.bytes = .ok content := by
  cases content <;> rfl

/-- The item C is shown for a content type and a plaintext. -/
def shown (content : Content) (plaintext : Bytes) : DecryptItem where
  contentType := (contentToFfi content).1
  bip := (contentToFfi content).2.1
  tag := (contentToFfi content).2.2
  plaintext := ⟨some plaintext, plaintext.length⟩

/-- Items are read by their position, and by no other. -/
theorem bip138DecryptItem_eq (items : List (Content × Bytes)) (index : ℕ) (err : Bool) :
    bip138DecryptItem (some items) index true err =
      .ok (match items[index]? with
        | some item => ⟨bip138Ok, some (shown item.1 item.2), none⟩
        | none => ⟨504, none, if err then some "item index out of bounds\x00" else none⟩) := by
  rw [bip138DecryptItem, decryptItem]
  rcases items[index]? with _ | ⟨content, plaintext⟩
  · rfl
  · rfl

/-- The callbacks compute a pure provider for decryption and for encryption, on what they
are given a buffer for. -/
structure Provides [Target] (vtable : CryptoVtable σ) (crypto : Crypto) : Prop
    extends Implements vtable crypto where
  encrypt : ∀ key nonce plaintext ctx, plaintext.length + 16 ≤ isizeMax →
    ∃ later, vtable.encrypt key nonce plaintext ctx =
      .ok (crypto.aeadEncrypt key nonce plaintext, later)

section Refinement

variable {vtable : CryptoVtable σ} {crypto : Crypto} {secret : Block 32} {keys : List (Block 32)}
  {ctx : σ}

theorem decryptionSecret_eq (himplements : Implements vtable crypto) (keys : List (Block 32))
    (ctx : σ) : (decryptionSecret vtable keys ctx).1 = Ll.decryptionSecret crypto keys :=
  taggedHash_eq himplements _ _ ctx

theorem shares_eq (himplements : Implements vtable crypto) (secret : Block 32)
    (keys : List (Block 32)) (ctx : σ) :
    (shares vtable secret keys ctx).1 = keys.map (share crypto secret) := by
  induction keys generalizing ctx with
  | nil => rfl
  | cons key keys ih =>
      dsimp only [shares]
      rw [List.map_cons, ih, taggedHash_eq himplements, share, individualHash]

variable [Target] {request : Request σ} {fuel : ℕ}

/-- An encryption that comes back had a buffer for the tag. -/
theorem encryptWithNonce_eq (hprovides : Provides vtable crypto)
    (htable : vtable.aeadEncrypt.isSome = true) {data : Bytes} (hdata : data.length ≤ isizeMax)
    {nonce : Block 12} (hreturns : (encryptWithNonce vtable secret data nonce ctx).Returns) :
    encryptWithNonce vtable secret data nonce ctx =
      Ll.encryptWithNonce crypto secret data nonce := by
  rw [encryptWithNonce] at hreturns ⊢
  rw [Ll.encryptWithNonce]
  split
  · rfl
  rename_i hnonce
  rw [if_neg hnonce] at hreturns
  split
  · rfl
  rename_i hempty
  rw [if_neg hempty] at hreturns
  by_cases hbuffer : data.length + 16 ≤ isizeMax
  · obtain ⟨later, hencrypt⟩ := hprovides.encrypt secret nonce data ctx hbuffer
    rw [hencrypt]
    rfl
  · rw [vtable.encrypt_eq_abort htable hdata (not_le.mp hbuffer)] at hreturns
    exact absurd hreturns (Exec.not_returns_abort _)

theorem encodeEncryptedPayload_eq_of_returns {nonce : Block 12} {cyphertext : Bytes}
    (hreturns : (encodeEncryptedPayload nonce cyphertext).Returns) :
    encodeEncryptedPayload nonce cyphertext = Ll.encodeEncryptedPayload nonce cyphertext := by
  by_cases hempty : cyphertext = []
  · rw [encodeEncryptedPayload, if_pos hempty, Ll.encodeEncryptedPayload, if_pos hempty]
  · rw [encodeEncryptedPayload_eq hempty] at hreturns ⊢
    rw [if_pos (Exec.of_returns_ite_abort hreturns), Ll.encodeEncryptedPayload, if_neg hempty]

/-- The end of an encryption that comes back is the one of the core. -/
theorem writeBackup_eq (hprovides : Provides vtable crypto)
    (htable : vtable.aeadEncrypt.isSome = true) {payload : Bytes}
    (hpayload : payload.length ≤ isizeMax)
    {paths : List DerivationPath} {storeCommonPaths : Bool} {nonce : Block 12}
    {padded : List (Block 32)}
    (hreturns : (writeBackup vtable secret (storedDerivationPaths paths storeCommonPaths).toList
      payload nonce padded ctx).Returns) :
    writeBackup vtable secret (storedDerivationPaths paths storeCommonPaths).toList payload nonce
        padded ctx = (do
      let individualSecrets ← encodeIndividualSecrets padded
      let derivationPaths ←
        encodeDerivationPaths (storedDerivationPaths paths storeCommonPaths).toList
      let (nonce, cyphertext) ← Ll.encryptWithNonce crypto secret payload nonce
      let encryptedPayload ← Ll.encodeEncryptedPayload nonce cyphertext
      .ok (Ll.encodeV1 Version.v1.toU8 derivationPaths individualSecrets
        Encryption.chaCha20Poly1305.toU8 encryptedPayload)) := by
  rw [writeBackup] at hreturns ⊢
  rcases hsecrets : encodeIndividualSecrets padded with fault | secretWord
  · rfl
  rw [hsecrets, Exec.ok_bind] at hreturns
  rw [Exec.ok_bind, Exec.ok_bind]
  rcases hpaths : encodeDerivationPaths (storedDerivationPaths paths storeCommonPaths).toList with
    fault | pathWord
  · rfl
  rw [hpaths, Exec.ok_bind] at hreturns
  rw [Exec.ok_bind, Exec.ok_bind]
  have hencrypt := encryptWithNonce_eq hprovides htable hpayload
    (Exec.returns_of_returns_bind hreturns)
  rw [hencrypt] at hreturns ⊢
  rcases hsealed : Ll.encryptWithNonce crypto secret payload nonce with
    fault | ⟨nonce, cyphertext⟩
  · rfl
  rw [hsealed, Exec.ok_bind] at hreturns
  rw [Exec.ok_bind, Exec.ok_bind]
  dsimp only at hreturns ⊢
  have hinner := encodeEncryptedPayload_eq_of_returns (Exec.returns_of_returns_bind hreturns)
  rw [hinner] at hreturns ⊢
  rcases hwritten : Ll.encodeEncryptedPayload nonce cyphertext with fault | payloadWord
  · rfl
  rw [hwritten, Exec.ok_bind] at hreturns
  rw [Exec.ok_bind, Exec.ok_bind]
  rw [encodeV1_eq (length_encodeDerivationPaths hpaths).2
    (length_encodeIndividualSecrets hsecrets).2] at hreturns ⊢
  exact if_pos (Exec.of_returns_ite_abort hreturns)

omit [Target] in
/-- The secret of a request is the one the core computes. -/
theorem Request.secret_eq (himplements : Implements request.vtable crypto) :
    (request.secret ctx).1 = Ll.decryptionSecret crypto (rawKeys request.keys).toList := by
  rw [Request.secret, decryptionSecret_eq himplements, Request.rawKeys_eq]

omit [Target] in
/-- The shares of a request are those the core computes of its keys. -/
theorem Request.shares_eq (himplements : Implements request.vtable crypto) :
    (request.shares ctx).1 = Ll.shares crypto request.keys := by
  rw [Request.shares, Ffi.shares_eq himplements, request.secret_eq himplements, Ll.shares,
    backupSecret, Request.rawKeys_eq]

/-- A request that comes back is encrypted as the core does it, over callbacks that compute a
provider: with the nonce the source yields first and the padding it yields behind the
shares. -/
theorem Request.encrypt_eq (hprovides : Provides request.vtable crypto)
    (htable : request.vtable.aeadEncrypt.isSome = true)
    (hreturns : (request.encrypt fuel ctx).Returns) :
    request.encrypt fuel ctx = (do
      let payload ← Ll.buildV1Payload [(request.content, request.data)] request.padding
      Ll.encodeV1Backup crypto request.derivationPaths false request.keys payload
        (drawNonce request.vtable.rng ctx).1
        (Ll.padIndividualSecrets request.vtable.rng fuel (request.shares ctx).2)) := by
  have hfits : ItemValid request.item →
      PayloadFits request.content request.data request.padding := fun hvalid =>
    not_not.mp fun hfull => not_returns_encrypt hvalid hfull hreturns
  have hpayload := Ffi.buildV1Payload_eq hfits
  rcases hbuild : Ll.buildV1Payload [(request.content, request.data)] request.padding with
    fault | payload
  · dsimp only [Request.encrypt, encryptChacha20Poly1305V1]
    rw [hpayload, hbuild]
    rfl
  rw [hbuild] at hpayload
  have hlength : payload.length ≤ isizeMax := by
    obtain ⟨-, hvalid, -⟩ := buildV1Payload_eq_ok_iff.mp hbuild
    exact length_le_of_payloadFits (hfits (hvalid _ List.mem_cons_self)) hbuild
  rw [Exec.ok_bind]
  dsimp only [Ll.encodeV1Backup]
  split
  · rename_i hcount
    dsimp only [Request.encrypt, encryptChacha20Poly1305V1]
    rw [hpayload, Exec.ok_bind]
    exact if_pos hcount
  rename_i hcount
  split
  · rename_i hstored
    dsimp only [Request.encrypt, encryptChacha20Poly1305V1]
    rw [hpayload, Exec.ok_bind]
    dsimp only [encodeV1Backup]
    rw [if_neg hcount, if_pos hstored]
  rename_i hstored
  rw [not_or, not_lt, length_rawKeys, ← ne_eq, ← List.length_pos_iff, length_rawKeys] at hcount
  rw [not_lt, length_storedDerivationPaths] at hstored
  have hchain := request.encrypt_eq_bind fuel ctx hpayload hcount.symm hstored
  rw [hchain] at hreturns ⊢
  have hshares : (request.shares ctx).1 = Ll.shares crypto request.keys :=
    request.shares_eq hprovides.toImplements
  by_cases hzero : Block.zero 32 ∈ (request.shares ctx).1
  · rw [individualSecrets_eq_abort hzero] at hreturns
    exact absurd hreturns (Exec.not_returns_abort _)
  have hsecrets : individualSecrets request.vtable (request.secret ctx).1
      (sortedRecipients request.keys) (request.secret ctx).2 = .ok (request.shares ctx) :=
    individualSecrets_eq_ok hzero
  have hcore : Ll.individualSecrets crypto
      (Ll.decryptionSecret crypto (rawKeys request.keys).toList) (rawKeys request.keys).toList =
        .ok (request.shares ctx).1 := by
    rw [hshares] at hzero ⊢
    refine (individualSecrets_eq_ok_iff crypto).mpr ⟨fun key hkey hequal => hzero ?_, rfl⟩
    exact hequal ▸ List.mem_map_of_mem hkey
  rw [hsecrets, Exec.ok_bind] at hreturns ⊢
  rw [hcore, Exec.ok_bind, ← map_padIndividualSecrets]
  rcases hpad : padIndividualSecrets request.vtable fuel (request.shares ctx).1
    (request.shares ctx).2 with fault | ⟨padded, later⟩
  · rfl
  rw [hpad, Exec.ok_bind] at hreturns
  rw [Exec.ok_bind]
  dsimp only [Except.map, Exec.ok_bind] at hreturns ⊢
  rw [writeBackup_eq hprovides htable hlength hreturns, request.secret_eq hprovides.toImplements]
  rfl

/-- A request that comes back is a call of the core, with the nonce the source yields first
and with decoys it yields behind the shares. -/
theorem Request.exists_decoys_of_encrypt (hprovides : Provides request.vtable crypto)
    (htable : request.vtable.aeadEncrypt.isSome = true)
    (hreturns : (request.encrypt fuel ctx).Returns) :
    ∃ decoys,
      (∀ decoy ∈ decoys,
        ∃ i, drawn (request.vtable.rng.fillBytes 32) (request.shares ctx).2 i = decoy) ∧
      encryptChacha20Poly1305V1ItemsWithDecoys crypto request.derivationPaths false
          [(request.content, request.data)] request.keys request.padding
          (drawNonce request.vtable.rng ctx).1 decoys =
        request.encrypt fuel ctx := by
  have hends : request.encrypt fuel ctx ≠ .error .unfinished := by
    rintro hunfinished
    rw [hunfinished] at hreturns
    rcases hreturns with ⟨value, hok⟩ | ⟨cause, hfail⟩
    · cases hok
    · cases hfail
  rw [request.encrypt_eq hprovides htable hreturns] at hends ⊢
  simp only [encryptChacha20Poly1305V1ItemsWithDecoys]
  rcases hbuild : Ll.buildV1Payload [(request.content, request.data)] request.padding with
    fault | payload
  · exact ⟨[], fun _ hdecoy => absurd hdecoy List.not_mem_nil, rfl⟩
  · rw [hbuild, Exec.ok_bind] at hends
    obtain ⟨decoys, hdrawn, hsupplied⟩ := exists_encodeV1Backup_eq_supplied hends
    exact ⟨decoys, hdrawn, hsupplied.symm⟩

end Refinement

section Call

variable [Target] {vtable : CryptoVtable σ} {crypto : Crypto} {args : EncryptArgs σ} {ctx : σ}
  {fuel : ℕ}

/-- The call of the core that the arguments ask for, when nonce and decoys are supplied. -/
def EncryptArgs.encryptWithDecoys (args : EncryptArgs σ) (crypto : Crypto) (nonce : Block 12)
    (decoys : List (Block 32)) : Exec FfiError Bytes := do
  let request ← args.request
  .mapErr .ll (encryptChacha20Poly1305V1ItemsWithDecoys crypto request.derivationPaths false
    [(request.content, request.data)] request.keys request.padding nonce decoys)

/-- A call that comes back is a call of the core, with the nonce the caller's source yields
first and with decoys it yields behind the shares. -/
theorem bip138Encrypt_refines (hvtable : args.vtable = some vtable)
    (hprovides : Provides vtable crypto) {returned : Returned Bytes}
    (hback : bip138Encrypt fuel args ctx = .ok returned) :
    ∃ decoys,
      (∀ request, args.request = .ok request → ∀ decoy ∈ decoys,
        ∃ i, drawn (vtable.rng.fillBytes 32) (request.shares ctx).2 i = decoy) ∧
      comeBack args.err (args.encryptWithDecoys crypto (drawNonce vtable.rng ctx).1 decoys) =
        .ok returned := by
  rw [bip138Encrypt] at hback
  rcases hrequest : args.request with fault | request
  · refine ⟨[], fun _ _ _ hdecoy => absurd hdecoy List.not_mem_nil, ?_⟩
    rw [EncryptArgs.encryptWithDecoys, hrequest]
    rw [hrequest] at hback
    exact hback
  · obtain ⟨⟨htable, hsome⟩, -⟩ := EncryptArgs.request_eq_ok hrequest
    rw [hvtable, Option.some.injEq] at htable
    subst htable
    rw [hrequest, Exec.ok_bind] at hback
    have hreturns : (request.encrypt fuel ctx).Returns := by
      rw [← Exec.returns_mapErr_iff, ← exists_comeBack_eq_ok_iff]
      exact ⟨returned, hback⟩
    obtain ⟨decoys, hdrawn, hcore⟩ := request.exists_decoys_of_encrypt hprovides hsome hreturns
    refine ⟨decoys, fun _ hother => ?_, ?_⟩
    · cases hother
      exact hdrawn
    · rw [EncryptArgs.encryptWithDecoys, hrequest, Exec.ok_bind, hcore]
      exact hback

variable {τ : Type} {reader : CryptoVtable τ} {later : τ} {bytes : Slice}

/-- Decryption behind the arguments is decryption by the core, when the container decodes. -/
theorem bip138Decrypt_decryptCall (hreader : Implements reader crypto)
    (hsha256 : reader.sha256.isSome = true) (hdecrypt : reader.aeadDecrypt.isSome = true)
    {stored : List DerivationPath} {secrets : List (Block 32)} {encryption : UInt8}
    {nonce : Block 12} {cyphertext : Bytes}
    (hdecode : decodeV1 bytes.1 = .ok (stored, secrets, encryption, nonce, cyphertext))
    (key : Block 32) (err : Bool) :
    bip138Decrypt (decryptCall reader key bytes err) later =
      comeBack err (.mapErr .ll
        (Ll.decryptChacha20Poly1305V1 crypto key secrets cyphertext nonce)) := by
  have htable : ¬ (reader.sha256.isNone = true ∨ reader.aeadDecrypt.isNone = true) := by
    rw [Option.isNone_eq_false_iff.mpr hsha256, Option.isNone_eq_false_iff.mpr hdecrypt]
    simp
  have hkey : (Block.copyFromSlice xonlyKeySize key.1 : Exec FfiError _) = .ok key :=
    Block.copyFromSlice_eq_ok key.2
  rw [bip138Decrypt, bip138DecryptWith]
  dsimp only [DecryptArgs.decrypt, decryptCall]
  rw [if_neg htable, hdecode, hkey]
  dsimp only [Exec.mapErr, Exec.ok_bind]
  rw [decryptChacha20Poly1305V1_eq hreader]

omit [Target] in
/-- A content type that is not given by number comes back as it was given. -/
theorem contentType_contentToFfi_normalize {contentType : UInt32} {bip : UInt16} {tag : Bytes}
    {content : Content} (hcontent : contentFromFfi contentType bip tag = .ok content)
    (hbip : contentType ≠ bip138ContentBip) :
    (contentToFfi content.normalize).1 = contentType := by
  unfold contentFromFfi at hcontent
  repeat' split at hcontent
  all_goals first
    | (rename_i hequal; subst hequal; cases hcontent; rfl)
    | exact absurd ‹_› hbip
    | cases hcontent

/-- What a call encrypts, every key of the call reads back through the binding: one item,
with the payload and the normal form of the content type, at the position 0 and no other.
Whichever key is tried, the call comes back with this result or as the wrong key. -/
theorem bip138DecryptItem_bip138Encrypt (hvtable : args.vtable = some vtable)
    (hprovides : Provides vtable crypto) (hreader : Implements reader crypto)
    (hsha256 : reader.sha256.isSome = true) (hdecrypt : reader.aeadDecrypt.isSome = true)
    (hideal : ∀ request payload, args.request = .ok request →
      Ll.buildV1Payload [(request.content, request.data)] request.padding = .ok payload →
        IdealSealing crypto (backupSecret crypto request.keys) (drawNonce vtable.rng ctx).1 payload)
    (hback : bip138Encrypt fuel args ctx = .ok ⟨bip138Ok, some bytes.1, none⟩) :
    ∃ request item, args.request = .ok request ∧
      (∀ key err,
        (∃ result, bip138Decrypt (decryptCall reader key bytes err) later =
            .ok ⟨bip138Ok, some result, none⟩ ∧
          bip138DecryptLen (some result) = 1 ∧
          ∀ index, bip138DecryptItem (some result) index true err =
            .ok (if index = 0 then ⟨bip138Ok, some item, none⟩
              else ⟨504, none, if err then some "item index out of bounds\x00" else none⟩)) ∨
        (key ∉ request.keys ∨ key = numsXonly) ∧
          bip138Decrypt (decryptCall reader key bytes err) later =
            .ok ⟨111, none,
              if err then some "no supplied key decrypts this backup\x00" else none⟩) ∧
      contentFromFfi item.contentType item.bip item.tag.bytes = .ok request.content.normalize ∧
      (args.contentType ≠ bip138ContentBip → item.contentType = args.contentType) ∧
      item.plaintext = ⟨some request.data, request.data.length⟩ := by
  rw [bip138Encrypt, comeBack_eq_ok_some_iff] at hback
  obtain ⟨request, hrequest, hanswered⟩ := Exec.bind_eq_ok_iff.mp hback
  rw [Exec.mapErr_eq_ok_iff] at hanswered
  obtain ⟨⟨htable, hsome⟩, -⟩ := EncryptArgs.request_eq_ok hrequest
  rw [hvtable, Option.some.injEq] at htable
  subst htable
  obtain ⟨decoys, -, hencrypt⟩ := request.exists_decoys_of_encrypt hprovides hsome
    (.inl ⟨bytes.1, hanswered⟩)
  rw [hanswered] at hencrypt
  obtain ⟨secrets, cyphertext, hdecode, hsecrets, hopens⟩ :=
    decrypt_encryptItemsWithDecoys bytes.2 (hideal request · hrequest) hencrypt
  obtain ⟨-, ⟨tag, hcontent⟩, -⟩ := EncryptArgs.request_eq_ok hrequest
  refine ⟨request, shown request.content.normalize request.data, hrequest, fun key err => ?_,
    contentFromFfi_contentToFfi _, contentType_contentToFfi_normalize hcontent, rfl⟩
  rw [bip138Decrypt_decryptCall hreader hsha256 hdecrypt hdecode, hopens]
  by_cases hstored : share crypto (backupSecret crypto request.keys) key ∈ secrets
  · left
    rw [if_pos hstored]
    refine ⟨normalizeItems [(request.content, request.data)], rfl, rfl, fun index => ?_⟩
    rw [bip138DecryptItem_eq]
    cases index with
    | zero => rfl
    | succ index => rfl
  · right
    rw [if_neg hstored]
    refine ⟨or_iff_not_imp_left.mpr fun hkey => ?_, rfl⟩
    by_contra hnums
    have hraw : key ∈ rawKeys request.keys := mem_rawKeys.mpr ⟨not_not.mp hkey, hnums⟩
    exact hstored ((hsecrets _).mpr (.inl ⟨key, hraw, rfl⟩))

end Call

namespace Sample

open Bip138.Sample

/-- The table of the toy cipher computes it in both directions. -/
theorem provides_vtable : Provides vtable sampleCrypto where
  toImplements := implements_vtable
  encrypt key nonce plaintext ctx hfits := by
    have hlength : (plaintext ++ key.1.take 16).length ≤ plaintext.length + 16 := by
      rw [List.length_append, List.length_take, key.2]
      exact Nat.le_refl _
    have hsealed : vtable.sealed key nonce plaintext ctx =
        sampleCrypto.aeadEncrypt key nonce plaintext := result_outcome hlength
    rw [← hsealed]
    exact vtable.exists_encrypt_eq_ok hfits

/-- The encryption behind the sample call, when the padding loop may draw ten blocks. -/
def called : Exec FfiError Bytes := do
  let request ← (encryptCall vtable).request
  .mapErr .ll (request.encrypt 10 1)

/-- The backup C gets. -/
def calledBackup : Slice := ⟨called.toOption.getD [], by decide +kernel⟩

theorem bip138Encrypt_encryptCall :
    bip138Encrypt 10 (encryptCall vtable) 1 = .ok ⟨bip138Ok, some calledBackup.1, none⟩ := by
  refine comeBack_eq_ok_some_iff.mpr ?_
  have hcalled : called = .ok calledBackup.1 := by decide +kernel
  exact hcalled

end Sample

open Bip138.Sample Sample in
/-- The sample call is a call of the core. -/
theorem bip138Encrypt_refines_sample :
    ∃ decoys,
      (∀ request, (encryptCall vtable).request = .ok request → ∀ decoy ∈ decoys,
        ∃ i, drawn (vtable.rng.fillBytes 32) (request.shares 1).2 i = decoy) ∧
      comeBack true ((encryptCall vtable).encryptWithDecoys sampleCrypto
          (drawNonce vtable.rng 1).1 decoys) =
        .ok ⟨bip138Ok, some calledBackup.1, none⟩ :=
  bip138Encrypt_refines rfl provides_vtable bip138Encrypt_encryptCall

open Bip138.Sample Sample in
/-- What the sample call encrypts is read back through the same table. -/
theorem bip138DecryptItem_bip138Encrypt_sample :
    ∃ request item, (encryptCall vtable).request = .ok request ∧
      (∀ key err,
        (∃ result, bip138Decrypt (decryptCall vtable key calledBackup err) 1 =
            .ok ⟨bip138Ok, some result, none⟩ ∧
          bip138DecryptLen (some result) = 1 ∧
          ∀ index, bip138DecryptItem (some result) index true err =
            .ok (if index = 0 then ⟨bip138Ok, some item, none⟩
              else ⟨504, none, if err then some "item index out of bounds\x00" else none⟩)) ∨
        (key ∉ request.keys ∨ key = numsXonly) ∧
          bip138Decrypt (decryptCall vtable key calledBackup err) 1 =
            .ok ⟨111, none,
              if err then some "no supplied key decrypts this backup\x00" else none⟩) ∧
      contentFromFfi item.contentType item.bip item.tag.bytes = .ok request.content.normalize ∧
      ((encryptCall vtable).contentType ≠ bip138ContentBip →
        item.contentType = (encryptCall vtable).contentType) ∧
      item.plaintext = ⟨some request.data, request.data.length⟩ :=
  bip138DecryptItem_bip138Encrypt rfl provides_vtable implements_vtable rfl rfl
    (fun _ _ _ _ => sampleCrypto_idealSealing_backupSecret _ _ _) bip138Encrypt_encryptCall

end Bip138.Ffi
