/-
# The C binding

The two entry points that do the work. Each checks its pointers and its table, reads
its arguments from memory and calls the core; `comeBack` turns the outcome into a
return code.

Decryption here and in the front end run the same core over the same containers, but
only the front end looks at the encryption byte. They agree on a container and a key
exactly when that byte is the one for ChaCha20-Poly1305 or the key does not decrypt
(`agrees_iff`).
-/

import Bip138.Front.WrongKey
import Bip138.Ffi.Core

namespace Bip138.Ffi

open Bip138.Rust Bip138.Ll

variable {σ : Type}

abbrev xonlyKeySize : ℕ := 32

section Encrypt

variable [Target]

/-- The arguments of `bip138_encrypt`; `out` and `err` say whether these pointers are
not null. -/
structure EncryptArgs (σ : Type) where
  vtable : Option (CryptoVtable σ)
  nKeys : ℕ
  keys : Option (Memory (nKeys * xonlyKeySize))
  nPaths : ℕ
  paths : Option (PathArray nPaths)
  contentType : UInt32
  bip : UInt16
  tagLen : ℕ
  tag : Option (Memory tagLen)
  payloadLen : ℕ
  payload : Option (Memory payloadLen)
  padding : UInt32
  out : Bool
  err : Bool
  /-- The counts are of type `usize`. -/
  counts : ∀ count ∈ [nKeys, nPaths, tagLen, payloadLen], count ≤ usizeMax

/-- What the arguments ask of the core. -/
structure Request (σ : Type) where
  vtable : CryptoVtable σ
  derivationPaths : List DerivationPath
  content : Content
  keys : List (Block 32)
  data : Bytes
  padding : Padding

omit [Target] in
def readPath (list : U32List) : Exec FfiError DerivationPath :=
  if list.len = 0 then .ok []
  else match list.ptr with
    | none => .fail .nullPointer
    | some childs => .ok childs

/-- A derivation path is a vector: a pointer, a capacity and a length. -/
def derivationPathSize : ℕ := 3 * wordSize

def readPaths (nPaths : ℕ) (paths : Option (PathArray nPaths)) :
    Exec FfiError (List DerivationPath) :=
  if nPaths = 0 then .ok []
  else match paths with
    | none => .fail .nullPointer
    | some array => do
        let _ ← withCapacity derivationPathSize nPaths
        array.lists.mapM readPath

/-- The checks and conversions before the core is called. -/
def EncryptArgs.request (args : EncryptArgs σ) : Exec FfiError (Request σ) :=
  match args.vtable, args.out, args.keys, args.payload with
  | some vtable, true, some keys, some payload =>
      if vtable.sha256.isNone ∨ vtable.aeadEncrypt.isNone ∨ vtable.fillRandom.isNone then
        .fail .badVtable
      else do
        let size ← mul args.nKeys xonlyKeySize
        let keyList ← (chunksExact xonlyKeySize (keys.bytes.take size)).mapM
          (Block.copyFromSlice xonlyKeySize)
        let derivationPaths ← readPaths args.nPaths args.paths
        let tag := match args.tag with
          | none => []
          | some tag => tag.bytes
        let content ← contentFromFfi args.contentType args.bip tag
        let padding ← paddingFromFfi args.padding
        .ok ⟨vtable, derivationPaths, content, keyList, payload.bytes, padding⟩
  | _, _, _, _ => .fail .nullPointer

/-- Common paths are never stored here. -/
def Request.encrypt (fuel : ℕ) (request : Request σ) (ctx : σ) : Exec Ll.Error Bytes :=
  encryptChacha20Poly1305V1 request.vtable fuel request.derivationPaths false request.content
    request.keys request.data request.padding ctx

def bip138Encrypt (fuel : ℕ) (args : EncryptArgs σ) (ctx : σ) : Exec Empty (Returned Bytes) :=
  comeBack args.err (do
    let request ← args.request
    .mapErr .ll (request.encrypt fuel ctx))

end Encrypt

section Decrypt

variable [Target]

/-- The arguments of `bip138_decrypt`. -/
structure DecryptArgs (σ : Type) where
  vtable : Option (CryptoVtable σ)
  key : Option (Memory xonlyKeySize)
  encryptedLen : ℕ
  encrypted : Option (Memory encryptedLen)
  out : Bool
  err : Bool

/-- The decryption between the check of the pointers and the return code, with some decoder
of the payload. The encryption byte is decoded and not looked at. -/
def DecryptArgs.decrypt (decode : Bytes → Exec Ll.Error (List (Content × Bytes)))
    (args : DecryptArgs σ) (ctx : σ) : Exec FfiError (List (Content × Bytes)) :=
  match args.vtable, args.out, args.key, args.encrypted with
  | some vtable, true, some key, some encrypted =>
      if vtable.sha256.isNone ∨ vtable.aeadDecrypt.isNone then .fail .badVtable
      else do
        let (_, individualSecrets, _, nonce, cyphertext) ← .mapErr .ll (decodeV1 encrypted.bytes)
        let keyBytes ← Block.copyFromSlice xonlyKeySize key.bytes
        .mapErr .ll (decryptChacha20Poly1305V1 vtable decode keyBytes individualSecrets
          cyphertext nonce ctx)
  | _, _, _, _ => .fail .nullPointer

def bip138DecryptWith (decode : Bytes → Exec Ll.Error (List (Content × Bytes)))
    (args : DecryptArgs σ) (ctx : σ) : Exec Empty (Returned (List (Content × Bytes))) :=
  comeBack args.err (args.decrypt decode ctx)

/-- `bip138_decrypt`, where there is room for the items. -/
def bip138Decrypt : DecryptArgs σ → σ → Exec Empty (Returned (List (Content × Bytes))) :=
  bip138DecryptWith decodePlaintext

end Decrypt

section Agreement

variable [Target] {crypto : Crypto} {vtable : CryptoVtable σ} {bytes : Slice} {key : PublicKey}
  {ctx : σ}

theorem xonlyKeySize_le_isizeMax : xonlyKeySize ≤ isizeMax := by
  rcases Target.supported with hwidth | hwidth <;> simp [xonlyKeySize, isizeMax, hwidth]

/-- The call of `bip138_decrypt` on a container and a key. -/
def decryptCall (vtable : CryptoVtable σ) (key : Block 32) (bytes : Slice) (err : Bool) :
    DecryptArgs σ where
  vtable := some vtable
  key := some ⟨key.1, key.2, xonlyKeySize_le_isizeMax⟩
  encryptedLen := bytes.1.length
  encrypted := some ⟨bytes.1, rfl, bytes.2⟩
  out := true
  err := err

/-- The binding and the front end decrypt a container to the same items: one succeeds
with a list exactly when the other reaches extraction with it. -/
def Agrees [Base64] (crypto : Crypto) (vtable : CryptoVtable σ) (ctx : σ) (bytes : Slice)
    (key : PublicKey) : Prop :=
  ∀ items err,
    bip138Decrypt (decryptCall vtable (xonly key) bytes err) ctx = .ok ⟨bip138Ok, some items, none⟩ ↔
      ∃ loaded, EncryptedBackup.new.setEncryptedPayload bytes.1 = .ok loaded ∧
        (loaded.setKeys [key]).ReachesExtraction crypto items

/-- The binding succeeds when the container decodes and the key decrypts it. -/
theorem bip138Decrypt_eq_ok_iff (himplements : Implements vtable crypto)
    (hsha256 : vtable.sha256.isSome = true) (hdecrypt : vtable.aeadDecrypt.isSome = true)
    {items : List (Content × Bytes)} {err : Bool} :
    bip138Decrypt (decryptCall vtable (xonly key) bytes err) ctx =
        .ok ⟨bip138Ok, some items, none⟩ ↔
      ∃ stored secrets encryption nonce cyphertext,
        decodeV1 bytes.1 = .ok (stored, secrets, encryption, nonce, cyphertext) ∧
        Ll.decryptChacha20Poly1305V1 crypto (xonly key) secrets cyphertext nonce = .ok items := by
  have htable : ¬ (vtable.sha256.isNone = true ∨ vtable.aeadDecrypt.isNone = true) := by
    rw [Option.isNone_eq_false_iff.mpr hsha256, Option.isNone_eq_false_iff.mpr hdecrypt]
    simp
  have hkey : (Block.copyFromSlice xonlyKeySize (xonly key).1 : Exec FfiError _) =
      .ok (xonly key) := Block.copyFromSlice_eq_ok (xonly key).2
  rw [bip138Decrypt, bip138DecryptWith, comeBack_eq_ok_some_iff]
  dsimp only [DecryptArgs.decrypt, decryptCall]
  rw [if_neg htable]
  simp only [hkey, Exec.bind_eq_ok_iff, Exec.mapErr_eq_ok_iff, Prod.exists, Except.ok.injEq,
    exists_eq_left', decryptChacha20Poly1305V1_eq himplements]

/-- The front end loads what starts with the magic when it decodes. -/
theorem setEncryptedPayload_eq_ok_iff [Base64] {backup loaded : EncryptedBackup}
    (hmagic : magic <+: bytes.1) :
    backup.setEncryptedPayload bytes.1 = .ok loaded ↔
      ∃ stored secrets encryption nonce cyphertext,
        decodeV1 bytes.1 = .ok (stored, secrets, encryption, nonce, cyphertext) ∧
        loaded = { backup with
          derivationPaths := stored
          encryption := .ofU8 encryption
          payload := .decryptV1 cyphertext secrets nonce } := by
  refine ⟨fun hload => ?_, fun hdecoded => ?_⟩
  · rw [EncryptedBackup.setEncryptedPayload, if_pos hmagic,
      EncryptedBackup.setEncryptedPayloadBinary] at hload
    have hv0 : ¬ v0Magic <+: bytes.1 := by
      intro hv0
      obtain ⟨tail, htail⟩ := hmagic
      rw [← htail] at hv0
      simp [v0Magic, magic] at hv0
    rw [if_neg hv0] at hload
    obtain ⟨version, -, hload⟩ := Exec.bind_eq_ok_iff.mp hload
    split at hload
    · obtain ⟨⟨stored, secrets, encryption, nonce, cyphertext⟩, hdecode, hload⟩ :=
        Exec.bind_eq_ok_iff.mp hload
      rw [Exec.mapErr_eq_ok_iff] at hdecode
      cases hload
      exact ⟨stored, secrets, encryption, nonce, cyphertext, hdecode, rfl⟩
    · cases hload
  · obtain ⟨stored, secrets, encryption, nonce, cyphertext, hdecode, rfl⟩ := hdecoded
    exact EncryptedBackup.setEncryptedPayload_eq_ok backup hdecode

omit [Target] in
theorem Encryption.ofU8_eq_iff {value : UInt8} :
    Encryption.ofU8 value = .chaCha20Poly1305 ↔ value = 0x01 := by
  unfold Encryption.ofU8
  split
  · rename_i hzero
    subst hzero
    simp
  · split
    · rename_i hone
      simp [hone]
    · rename_i hother
      simp [hother]

/-- With one key the loop over the keys is one decryption. -/
theorem decryptItems_singleton_eq_ok_iff {cyphertext : Bytes} {secrets : List (Block 32)}
    {nonce : Block 12} {items : List (Content × Bytes)} :
    EncryptedBackup.decryptItems crypto cyphertext secrets nonce [key] = .ok items ↔
      Ll.decryptChacha20Poly1305V1 crypto (xonly key) secrets cyphertext nonce = .ok items := by
  rw [EncryptedBackup.decryptItems]
  rcases Ll.decryptChacha20Poly1305V1 crypto (xonly key) secrets cyphertext nonce with
    (_ | _ | _) | found
  · exact iff_of_false (fun hloop => by cases hloop) fun hok => by cases hok
  · exact iff_of_false (fun hloop => by cases hloop) fun hok => by cases hok
  · exact iff_of_false (fun hloop => by cases hloop) fun hok => by cases hok
  · simp only [Except.ok.injEq]

/-- The front end reaches extraction when the container decodes, its encryption byte is
the one for the implemented encryption, and the key decrypts it. -/
theorem exists_reachesExtraction_iff [Base64] (hmagic : magic <+: bytes.1)
    {items : List (Content × Bytes)} :
    (∃ loaded, EncryptedBackup.new.setEncryptedPayload bytes.1 = .ok loaded ∧
        (loaded.setKeys [key]).ReachesExtraction crypto items) ↔
      ∃ stored secrets nonce cyphertext,
        decodeV1 bytes.1 = .ok (stored, secrets, 0x01, nonce, cyphertext) ∧
        Ll.decryptChacha20Poly1305V1 crypto (xonly key) secrets cyphertext nonce = .ok items := by
  refine ⟨fun hreaches => ?_, fun hdecrypts => ?_⟩
  · obtain ⟨loaded, hload, hreaches⟩ := hreaches
    obtain ⟨stored, secrets, encryption, nonce, cyphertext, hdecode, rfl⟩ :=
      (setEncryptedPayload_eq_ok_iff hmagic).mp hload
    rw [EncryptedBackup.setKeys_of_exposedKeys_eq_nil rfl] at hreaches
    obtain ⟨_, _, _, hpayload, -, hencryption, -, hitems⟩ := hreaches
    cases hpayload
    rw [Encryption.ofU8_eq_iff] at hencryption
    subst hencryption
    exact ⟨stored, secrets, nonce, cyphertext, hdecode, decryptItems_singleton_eq_ok_iff.mp hitems⟩
  · obtain ⟨stored, secrets, nonce, cyphertext, hdecode, hitems⟩ := hdecrypts
    refine ⟨_, EncryptedBackup.setEncryptedPayload_eq_ok _ hdecode, ?_⟩
    rw [EncryptedBackup.setKeys_of_exposedKeys_eq_nil rfl]
    exact ⟨cyphertext, secrets, nonce, rfl, rfl, rfl, List.cons_ne_nil _ _,
      decryptItems_singleton_eq_ok_iff.mpr hitems⟩

/-- The two agree on a container and a key exactly when, if the container decodes, its
encryption byte is the one for ChaCha20-Poly1305 or the key opens it to nothing that
decodes. -/
theorem agrees_iff [Base64] (hmagic : magic <+: bytes.1) (himplements : Implements vtable crypto)
    (hsha256 : vtable.sha256.isSome = true) (hdecrypt : vtable.aeadDecrypt.isSome = true) :
    Agrees crypto vtable ctx bytes key ↔
      ∀ stored secrets encryption nonce cyphertext,
        decodeV1 bytes.1 = .ok (stored, secrets, encryption, nonce, cyphertext) →
          encryption = 0x01 ∨ ∀ out items,
            recovered crypto (xonly key) secrets cyphertext nonce = some out →
              decodePlaintext out ≠ .ok items := by
  simp only [Agrees, bip138Decrypt_eq_ok_iff himplements hsha256 hdecrypt,
    exists_reachesExtraction_iff hmagic, decryptChacha20Poly1305V1_eq_ok_iff]
  refine ⟨fun hagrees stored secrets encryption nonce cyphertext hdecode => ?_,
    fun hcondition items err => ⟨fun hbinding => ?_, fun hfront => ?_⟩⟩
  · refine or_iff_not_imp_right.mpr fun hopens => ?_
    push Not at hopens
    obtain ⟨out, items, hrecovered, hitems⟩ := hopens
    obtain ⟨_, _, _, _, hdecode', -⟩ := (hagrees items true).mp
      ⟨stored, secrets, encryption, nonce, cyphertext, hdecode, out, hrecovered, hitems⟩
    rw [hdecode] at hdecode'
    cases hdecode'
    rfl
  · obtain ⟨stored, secrets, encryption, nonce, cyphertext, hdecode, out, hrecovered, hitems⟩ :=
      hbinding
    rcases hcondition stored secrets encryption nonce cyphertext hdecode with hbyte | hclosed
    · subst hbyte
      exact ⟨stored, secrets, nonce, cyphertext, hdecode, out, hrecovered, hitems⟩
    · exact absurd hitems (hclosed out items hrecovered)
  · obtain ⟨stored, secrets, nonce, cyphertext, hdecode, hitems⟩ := hfront
    exact ⟨stored, secrets, 0x01, nonce, cyphertext, hdecode, hitems⟩

end Agreement

namespace Sample

open Bip138.Sample

/-- What a well-behaved callback leaves for a result. -/
def outcome (cap : ℕ) : Option Bytes → AeadOutcome cap
  | some out => ⟨0, out.length, ⟨(out ++ List.replicate cap 0).take cap, by simp⟩⟩
  | none => ⟨1, 0, Block.zero cap⟩

theorem result_outcome {cap : ℕ} {out : Bytes} (hfits : out.length ≤ cap) :
    (outcome cap (some out)).result = some out := by
  rw [outcome, AeadOutcome.result, if_neg]
  · rw [List.take_take, Nat.min_eq_left hfits, List.take_left]
  · rw [not_or, not_lt]
    exact ⟨not_not.mpr rfl, hfits⟩

/-- The toy cipher behind callbacks; the state is that of the counting source. -/
def vtable : CryptoVtable ℕ where
  sha256 := some fun data ctx => (sampleCrypto.sha256 data, ctx)
  aeadEncrypt := some fun key nonce plaintext cap ctx =>
    (outcome cap (sampleCrypto.aeadEncrypt key nonce plaintext), ctx)
  aeadDecrypt := some fun key nonce cyphertext cap ctx =>
    (outcome cap (sampleCrypto.aeadDecrypt key nonce cyphertext), ctx)
  fillRandom := some countingRng.fillBytes

theorem implements_vtable : Implements vtable sampleCrypto where
  hash _ _ := rfl
  decrypt key nonce cyphertext ctx := by
    show (outcome _ (sampleCrypto.aeadDecrypt key nonce cyphertext)).result = _
    rcases hopens : sampleCrypto.aeadDecrypt key nonce cyphertext with _ | out
    · rfl
    · exact result_outcome (length_le_of_aeadDecrypt hopens)

/-- The sample backup with its encryption byte replaced by one for another cipher. -/
def foreignBackup : Slice := ⟨sampleBackup.1.set 182 0x02, by decide +kernel⟩

end Sample

open Bip138.Sample Sample in
/-- The two agree on the sample backup and its key, since its encryption byte is the one for
the implemented encryption. -/
theorem agrees_iff_sample : Agrees sampleCrypto vtable 1 sampleBackup holder := by
  refine (agrees_iff (by decide +kernel) implements_vtable rfl rfl).mpr ?_
  intro stored secrets encryption nonce cyphertext hdecode
  left
  obtain ⟨decoded, hdecoded, hbyte⟩ := Exec.exists_eq_ok (decodeV1 sampleBackup.1)
    (fun (_, _, encryption, _, _) => encryption = 0x01) (by decide +kernel)
  rw [hdecode] at hdecoded
  cases hdecoded
  exact of_decide_eq_true hbyte

open Bip138.Sample Sample in
/-- A container that names another cipher is decrypted by the binding and refused by the
front end. -/
theorem not_agrees_foreignBackup :
    magic <+: foreignBackup.1 ∧
      (∃ stored secrets nonce cyphertext,
        decodeV1 foreignBackup.1 = .ok (stored, secrets, 0x02, nonce, cyphertext)) ∧
      bip138Decrypt (decryptCall vtable (xonly holder) foreignBackup true) 1 =
        .ok ⟨bip138Ok, some sampleItems, none⟩ ∧
      ¬ Agrees sampleCrypto vtable 1 foreignBackup holder := by
  have hmagic : magic <+: foreignBackup.1 := by
    decide +kernel
  obtain ⟨⟨stored, secrets, encryption, nonce, cyphertext⟩, hdecode, htest⟩ := Exec.exists_eq_ok
    (decodeV1 foreignBackup.1)
    (fun (_, secrets, encryption, nonce, cyphertext) => encryption = 0x02 ∧
      Ll.decryptChacha20Poly1305V1 sampleCrypto sampleKey secrets cyphertext nonce =
        .ok sampleItems)
    (by decide +kernel)
  obtain ⟨rfl, hitems⟩ := of_decide_eq_true htest
  have hbinding : bip138Decrypt (decryptCall vtable (xonly holder) foreignBackup true) 1 =
      .ok ⟨bip138Ok, some sampleItems, none⟩ :=
    (bip138Decrypt_eq_ok_iff implements_vtable rfl rfl).mpr
      ⟨stored, secrets, 0x02, nonce, cyphertext, hdecode, hitems⟩
  refine ⟨hmagic, ⟨stored, secrets, nonce, cyphertext, hdecode⟩, hbinding, fun hagrees => ?_⟩
  obtain ⟨_, _, _, _, hdecode', -⟩ :=
    (exists_reachesExtraction_iff hmagic).mp ((hagrees sampleItems true).mp hbinding)
  rw [hdecode] at hdecode'
  cases hdecode'

end Bip138.Ffi
