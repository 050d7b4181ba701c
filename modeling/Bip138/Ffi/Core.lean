/-
# The core under callbacks

The core takes its primitives from a provider. In `Ll` a provider is a pure function of
its inputs; the callbacks of a C caller have a state and answer as they like, so here
the functions of the core that call a primitive are written again with that state
passed through them, in the order of their calls.

A caller may also hand in so much that the vectors of the encoder outgrow the address
space, so the functions that write a payload and a container are written again with the
capacities of those vectors, and so is the one that reads a payload. The vectors of the
paths and of the secrets are left as they are: their counts are checked before they hold a
megabyte.

When the callbacks do compute a pure provider the two versions are the same
(`decryptChacha20Poly1305V1_eq`), and where the vectors fit the writers and the reader are
those of `Ll` (`buildV1Payload_eq`, `encodeV1_eq`, `decodePlaintextInto_eq`).
-/

import Bip138.Ffi.Vtable
import Bip138.Ll.Uniform

namespace Bip138.Ffi

open Bip138.Rust Bip138.Ll

variable {σ : Type}

section Code

variable (vtable : CryptoVtable σ)

def taggedHash (tag bytes : Bytes) (ctx : σ) : Block 32 × σ :=
  let (tagHash, ctx) := vtable.hash tag ctx
  vtable.hash (tagHash.1 ++ tagHash.1 ++ bytes) ctx

def decryptionSecret (keys : List (Block 32)) (ctx : σ) : Block 32 × σ :=
  taggedHash vtable decryptionSecretTag ((sortDedup keys).flatMap Subtype.val) ctx

def individualSecret (secret key : Block 32) (ctx : σ) : Exec Ll.Error (Block 32 × σ) :=
  let (si, ctx) := taggedHash vtable individualSecretTag key.1 ctx
  let ci := Block.xor secret si
  if ci = Block.zero 32 then .abort .assertion else .ok (ci, ctx)

def individualSecrets (secret : Block 32) :
    List (Block 32) → σ → Exec Ll.Error (List (Block 32) × σ)
  | [], ctx => .ok ([], ctx)
  | key :: keys, ctx => do
    let (ci, ctx) ← individualSecret vtable secret key ctx
    let (rest, ctx) ← individualSecrets secret keys ctx
    .ok (ci :: rest, ctx)

/-- One pass of the loop of `padIndividualSecrets`. -/
def padIndividualSecretsStep (target : ℕ) :
    List (Block 32) × σ → Exec Ll.Error (LoopFlow (List (Block 32) × σ) (List (Block 32) × σ))
  | (secrets, ctx) =>
    if secrets.length < target then
      let (decoy, ctx) := vtable.rng.fillBytes 32 ctx
      if decoy ≠ Block.zero 32 ∧ decoy ∉ secrets then .ok (.next (secrets ++ [decoy], ctx))
      else .ok (.next (secrets, ctx))
    else .ok (.done (secrets, ctx))

def padIndividualSecrets (fuel : ℕ) (secrets : List (Block 32)) (ctx : σ) :
    Exec Ll.Error (List (Block 32) × σ) := do
  let target ← doublingBucket secrets.length
  loop (padIndividualSecretsStep vtable target) fuel (secrets, ctx)

/-- Try the secret recovered from each stored share in turn. -/
def tryIndividualSecrets (si : Block 32) (cyphertext : Bytes) (nonce : Block 12) :
    List (Block 32) → σ → Option Bytes × σ
  | [], ctx => (none, ctx)
  | ci :: individualSecrets, ctx =>
    match vtable.decrypt (Block.xor si ci) nonce cyphertext ctx with
    | (some out, ctx) => (some out, ctx)
    | (none, ctx) => tryIndividualSecrets si cyphertext nonce individualSecrets ctx

variable [Target]

/-- The type byte of a content, its length and its data. -/
def contentParts : Content → Option (UInt8 × Bytes × Bytes)
  | .unknown | .none => none
  | .bip139 => some (contentBip, [], toBeBytes 2 139)
  | .bip138 => some (contentBip, [], toBeBytes 2 138)
  | .bip380 => some (contentBip, [], toBeBytes 2 380)
  | .bip388 => some (contentBip, [], toBeBytes 2 388)
  | .bip329 => some (contentBip, [], toBeBytes 2 329)
  | .bip number => some (contentBip, [], toBeBytes 2 number.toNat)
  | .proprietary tag =>
      some (contentProprietary, Varint.encode (UInt64.ofNat tag.length), tag)
  | .string => some (contentString, Varint.encode 0, [])

/-- `TryFrom<Content> for Vec<u8>`, with the error its caller makes of a refusal. -/
def contentToVec (value : Content) : Exec Ll.Error Bytes := do
  let (type, len, data) ← .okOr (contentParts value) .contentMetadata
  let out ← (ByteVec.ofBytes [type]).extendAll [len, data]
  .ok out.bytes

/-- The payload of one item, followed by padding. -/
def encodePlaintext (contentMetadata data : Bytes) (padding : Padding) : Exec Ll.Error Bytes := do
  let payload ← ByteVec.new.extendAll
    [contentMetadata, Varint.encode (UInt64.ofNat data.length), data]
  let target ← padding.paddedSize payload.bytes.length
  let payload ← payload.resize target 0
  .ok payload.bytes

/-- Encode the one item of a call into the padded plaintext payload. -/
def buildV1Payload (content : Content) (data : Bytes) (padding : Padding) :
    Exec Ll.Error Bytes :=
  if u32Max < data.length ∨ data = [] then .fail .dataLength
  else do
    let contentMetadata ← contentToVec content
    if contentMetadata = [] then .fail .contentMetadata
    else encodePlaintext contentMetadata data padding

def encodeEncryptedPayload (nonce : Block 12) (cyphertext : Bytes) : Exec Ll.Error Bytes :=
  if cyphertext = [] then .fail .cypherTextEmpty
  else do
    let out ← ByteVec.new.extendAll
      [nonce.1, Varint.encode (UInt64.ofNat cyphertext.length), cyphertext]
    .ok out.bytes

def encodeV1 (version : UInt8) (derivationPaths individualSecrets : Bytes) (encryption : UInt8)
    (encryptedPayload : Bytes) : Exec Ll.Error Bytes := do
  let out ← (ByteVec.ofBytes magic).extendAll
    [[version], derivationPaths, individualSecrets, [encryption], encryptedPayload]
  .ok out.bytes

def encryptWithNonce (secret : Block 32) (data : Bytes) (nonce : Block 12) (ctx : σ) :
    Exec Ll.Error (Block 12 × Bytes) :=
  if nonce = Block.zero 12 then .fail .zeroedNonce
  else if data = [] then .fail .emptyBytes
  else do
    let (cyphertext, _) ← vtable.encrypt secret nonce data ctx
    .okOr (cyphertext.map fun cyphertext => (nonce, cyphertext)) .encrypt

/-- The end of `encode_v1_backup`, from the padded secrets on. -/
def writeBackup (secret : Block 32) (derivationPaths : List Ll.DerivationPath) (payload : Bytes)
    (nonce : Block 12) (individualSecrets : List (Block 32)) (ctx : σ) : Exec Ll.Error Bytes := do
  let individualSecrets ← encodeIndividualSecrets individualSecrets
  let derivationPaths ← encodeDerivationPaths derivationPaths
  let (nonce, cyphertext) ← encryptWithNonce vtable secret payload nonce ctx
  let encryptedPayload ← encodeEncryptedPayload nonce cyphertext
  encodeV1 Version.v1.toU8 derivationPaths individualSecrets Encryption.chaCha20Poly1305.toU8
    encryptedPayload

/-- Assemble a V1 backup, padding the individual secrets at random. -/
def encodeV1Backup (fuel : ℕ) (derivationPaths : List Ll.DerivationPath) (storeCommonPaths : Bool)
    (keys : List (Block 32)) (payload : Bytes) (nonce : Block 12) (ctx : σ) : Exec Ll.Error Bytes :=
  let rawKeys := (rawKeys keys).toList
  let derivationPaths := (storedDerivationPaths derivationPaths storeCommonPaths).toList
  if u8Max < rawKeys.length ∨ rawKeys = [] then .fail .keyCount
  else if u8Max < derivationPaths.length then .fail .derivPathCount
  else do
    let (secret, ctx) := decryptionSecret vtable rawKeys ctx
    let (individualSecrets, ctx) ← individualSecrets vtable secret rawKeys ctx
    let (individualSecrets, ctx) ← padIndividualSecrets vtable fuel individualSecrets ctx
    writeBackup vtable secret derivationPaths payload nonce individualSecrets ctx

def encryptChacha20Poly1305V1 (fuel : ℕ) (derivationPaths : List Ll.DerivationPath)
    (storeCommonPaths : Bool) (contentMetadata : Content) (keys : List (Block 32)) (data : Bytes)
    (padding : Padding) (ctx : σ) : Exec Ll.Error Bytes := do
  let (nonce, ctx) := drawNonce vtable.rng ctx
  let payload ← buildV1Payload contentMetadata data padding
  encodeV1Backup vtable fuel derivationPaths storeCommonPaths keys payload nonce ctx

/-- The bytes one of the stored shares opens, if any does. -/
def opened (key : Block 32) (individualSecrets : List (Block 32)) (cyphertext : Bytes)
    (nonce : Block 12) (ctx : σ) : Option Bytes :=
  let (si, ctx) := taggedHash vtable individualSecretTag key.1 ctx
  (tryIndividualSecrets vtable si cyphertext nonce individualSecrets ctx).1

/-- Decryption, with the decoder of the payload it is handed. -/
def decryptChacha20Poly1305V1 (decode : Bytes → Exec Ll.Error (List (Content × Bytes)))
    (key : Block 32) (individualSecrets : List (Block 32)) (cyphertext : Bytes) (nonce : Block 12)
    (ctx : σ) : Exec Ll.Error (List (Content × Bytes)) :=
  match opened vtable key individualSecrets cyphertext nonce ctx with
  | some out => decode out
  | none => .fail .wrongKey

/-- One pass of the loop of `decodePlaintextInto`. -/
def decodePlaintextIntoStep (slotSize : ℕ) (bytes : Bytes) :
    ℕ × List (Content × Bytes) →
      Exec Ll.Error (LoopFlow (ℕ × List (Content × Bytes)) (List (Content × Bytes)))
  | (offset, items) =>
    if offset < bytes.length then do
      let type ← index bytes offset
      if type = contentEnd then .ok (.done items)
      else do
        let (stop, item) ← decodeItem bytes offset
        let _ ← reserve slotSize 4 (pushedCapacity items.length) (items.length + 1)
        .ok (.next (stop, items ++ [item]))
    else .ok (.done items)

/-- Decode a payload into a vector whose items take `slotSize` bytes each. -/
def decodePlaintextInto (slotSize : ℕ) (bytes : Bytes) : Exec Ll.Error (List (Content × Bytes)) :=
  if bytes = [] then .fail .emptyBytes
  else do
    let items ← loop (decodePlaintextIntoStep slotSize bytes) (bytes.length + 1) (0, [])
    if items = [] then .fail .emptyBytes else .ok items

end Code

/-- The callbacks compute a pure provider for decryption, whatever they do with their
state. -/
structure Implements (vtable : CryptoVtable σ) (crypto : Crypto) : Prop where
  hash : ∀ data ctx, (vtable.hash data ctx).1 = crypto.sha256 data
  decrypt : ∀ key nonce cyphertext ctx,
    (vtable.decrypt key nonce cyphertext ctx).1 = crypto.aeadDecrypt key nonce cyphertext

section Refinement

variable {vtable : CryptoVtable σ} {crypto : Crypto}

theorem taggedHash_eq (himplements : Implements vtable crypto) (tag bytes : Bytes) (ctx : σ) :
    (taggedHash vtable tag bytes ctx).1 = Ll.taggedHash crypto tag bytes := by
  dsimp only [taggedHash, Ll.taggedHash]
  rw [himplements.hash, himplements.hash]

theorem tryIndividualSecrets_eq (himplements : Implements vtable crypto) (si : Block 32)
    (cyphertext : Bytes) (nonce : Block 12) (secrets : List (Block 32)) (ctx : σ) :
    (tryIndividualSecrets vtable si cyphertext nonce secrets ctx).1 =
      secrets.findSome? fun ci =>
        tryDecryptChacha20Poly1305 crypto cyphertext (Block.xor si ci) nonce := by
  induction secrets generalizing ctx with
  | nil => rfl
  | cons ci secrets ih =>
      have hopen := himplements.decrypt (Block.xor si ci) nonce cyphertext ctx
      rw [tryIndividualSecrets, List.findSome?_cons, tryDecryptChacha20Poly1305, ← hopen]
      rcases vtable.decrypt (Block.xor si ci) nonce cyphertext ctx with ⟨_ | out, later⟩
      · exact ih later
      · rfl

/-- Over callbacks that compute a provider, decryption is decryption over it. -/
theorem decryptChacha20Poly1305V1_eq [Target] (himplements : Implements vtable crypto)
    (key : Block 32) (secrets : List (Block 32)) (cyphertext : Bytes) (nonce : Block 12) (ctx : σ) :
    decryptChacha20Poly1305V1 vtable decodePlaintext key secrets cyphertext nonce ctx =
      Ll.decryptChacha20Poly1305V1 crypto key secrets cyphertext nonce := by
  dsimp only [decryptChacha20Poly1305V1, opened]
  rw [taggedHash_eq himplements, tryIndividualSecrets_eq himplements]
  rfl

end Refinement

end Bip138.Ffi
