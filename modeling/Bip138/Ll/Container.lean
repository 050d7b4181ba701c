/-
# The V1 container

The fields of a container, their encoders and their parsers, in the order of the
wire: magic and version, derivation paths, individual secrets, encryption byte,
encrypted payload.
-/

import Bip138.Rust.BTreeSet
import Bip138.Ll.Offset
import Bip138.Ll.Varint

namespace Bip138.Ll

open Bip138.Rust

/-- A BIP32 derivation path: its raw child numbers, hardened bit included. -/
abbrev DerivationPath := List UInt32

/-- `BIP138`. -/
def magic : Bytes := [0x42, 0x49, 0x50, 0x31, 0x33, 0x38]

inductive Version
  | v0
  | v1
  | unknown
  deriving DecidableEq, Repr

namespace Version

def toU8 : Version → UInt8
  | .v0 => 0
  | .v1 => 1
  | .unknown => 0xFF

def ofU8 (value : UInt8) : Version :=
  if value = 0 then .v0 else if value = 1 then .v1 else .unknown

def max : Version := .v1

def isValid : Version → Bool
  | .unknown => false
  | .v0 | .v1 => true

end Version

inductive Encryption
  | undefined
  | chaCha20Poly1305
  | aesGcm256
  | unknown
  deriving DecidableEq, Repr

namespace Encryption

def ofU8 (value : UInt8) : Encryption :=
  if value = 0 then .undefined else if value = 1 then .chaCha20Poly1305 else .unknown

def toU8 : Encryption → UInt8
  | .undefined => 0x00
  | .chaCha20Poly1305 => 0x01
  | .aesGcm256 => 0x01
  | .unknown => 0xFF

def isDefined : Encryption → Bool
  | .undefined | .unknown => false
  | .aesGcm256 | .chaCha20Poly1305 => true

end Encryption

def encodeDerivationPath (path : DerivationPath) : Exec Error Bytes :=
  if path.length = 0 then .fail .derivPathEmpty
  else if u8Max < path.length then .fail .derivPathLength
  else .ok (UInt8.ofNat path.length :: path.flatMap fun child => toBeBytes 4 child.toNat)

/-- A count and the paths, sorted and deduplicated so that the encoding does not
leak the caller's ordering. -/
def encodeDerivationPaths (derivationPaths : List DerivationPath) : Exec Error Bytes :=
  let derivationPaths := sortDedup derivationPaths
  if u8Max < derivationPaths.length then .fail .derivPathLength
  else do
    let encodedPaths ← derivationPaths.mapM encodeDerivationPath
    .ok (UInt8.ofNat derivationPaths.length :: encodedPaths.flatten)

/-- A count and the secrets, sorted and deduplicated. -/
def encodeIndividualSecrets (individualSecrets : List (Block 32)) : Exec Error Bytes :=
  let individualSecrets := sortDedup individualSecrets
  if u8Max < individualSecrets.length then .fail .individualSecretsLength
  else if individualSecrets = [] then .fail .individualSecretsEmpty
  else .ok (UInt8.ofNat individualSecrets.length :: individualSecrets.flatMap Subtype.val)

/-- Nonce, length, cyphertext. -/
def encodeEncryptedPayload (nonce : Block 12) (cyphertext : Bytes) : Exec Error Bytes :=
  if cyphertext = [] then .fail .cypherTextEmpty
  else .ok (nonce.1 ++ Varint.encode (UInt64.ofNat cyphertext.length) ++ cyphertext)

def encodeV1 (version : UInt8) (derivationPaths individualSecrets : Bytes) (encryption : UInt8)
    (encryptedPayload : Bytes) : Bytes :=
  magic ++ [version] ++ derivationPaths ++ individualSecrets ++ [encryption] ++ encryptedPayload

def parseMagicByte (bytes : Bytes) : Exec Error ℕ :=
  if bytes.length < magic.length ∨ bytes.take magic.length ≠ magic then .fail .magic
  else .ok magic.length

def parseVersion (bytes : Bytes) : Exec Error (ℕ × UInt8) :=
  if bytes = [] then .fail .version
  else do
    let version ← index bytes 0
    if version = Version.v0.toU8 ∨ Version.max.toU8 < version then .fail .version
    else .ok (1, version)

def parseEncryption (bytes : Bytes) : Exec Error (ℕ × UInt8) :=
  if bytes = [] then .fail .encryption
  else do
    let encryption ← index bytes 0
    if encryption = 0x00 then .fail .encryptionReserved else .ok (1, encryption)

section Parsers

variable [Target]

/-- One pass of the inner loop of `parseDerivationPaths`: a child number. -/
def parseChild (bytes : Bytes) : ℕ × DerivationPath → Exec Error (ℕ × DerivationPath)
  | (offset, childs) => do
    checkOffsetLookahead offset bytes 4
    let stop ← add offset 4
    let raw ← slice bytes offset stop
    let rawChild ← Block.expect 4 raw
    let child := UInt32.ofNat (fromBeBytes rawChild.1)
    let offset ← add offset 4
    .ok (offset, childs ++ [child])

/-- One pass of the outer loop of `parseDerivationPaths`: a child count and that
many child numbers. -/
def parseDerivationPath (bytes : Bytes) :
    ℕ × BTreeSet DerivationPath → Exec Error (ℕ × BTreeSet DerivationPath)
  | (offset, derivationPaths) => do
    checkOffset offset bytes
    let childCount ← index bytes offset
    if childCount = 0 then .fail .derivPathEmpty
    else do
      let offset ← add offset 1
      let (offset, childs) ← forRange (parseChild bytes) childCount.toNat (offset, [])
      .ok (offset, derivationPaths.insert childs)

def parseDerivationPaths (bytes : Bytes) : Exec Error (ℕ × List DerivationPath) := do
  let offset ← .mapErr (fun _ => .derivPathEmpty) (initOffset bytes 0)
  let count ← index bytes 0
  if count ≠ 0 then do
    let offset ← incrementOffset bytes offset 1
    let (offset, derivationPaths) ←
      forRange (parseDerivationPath bytes) count.toNat (offset, .empty)
    .ok (offset, derivationPaths.toList)
  else do
    let offset ← add offset 1
    .ok (offset, [])

/-- One pass of the loop of `parseIndividualSecrets`. -/
def parseIndividualSecret (bytes : Bytes) :
    ℕ × BTreeSet (Block 32) → Exec Error (ℕ × BTreeSet (Block 32))
  | (offset, individualSecrets) => do
    checkOffsetLookahead offset bytes 32
    let stop ← add offset 32
    let raw ← slice bytes offset stop
    let secret ← .okOr (Block.tryFrom 32 raw) .corrupted
    let offset ← add offset 32
    .ok (offset, individualSecrets.insert secret)

def parseIndividualSecrets (bytes : Bytes) : Exec Error (ℕ × List (Block 32)) :=
  if bytes = [] then .fail .emptyBytes
  else do
    let count ← index bytes 0
    if count < 1 then .fail .individualSecretsEmpty
    else do
      let offset ← initOffset bytes 1
      let (offset, individualSecrets) ←
        forRange (parseIndividualSecret bytes) count.toNat (offset, .empty)
      .ok (offset, individualSecrets.toList)

def parseEncryptedPayload (bytes : Bytes) : Exec Error (Block 12 × Bytes) := do
  let offset ← initOffset bytes 0
  checkOffsetLookahead offset bytes 12
  let stop ← add offset 12
  let raw ← slice bytes offset stop
  let nonce ← Block.expect 12 raw
  if nonce = Block.zero 12 then .fail .zeroedNonce
  else do
    let offset ← incrementOffset bytes offset 12
    let tail ← sliceFrom bytes offset
    let (dataLen, incr) ← .okOr (Varint.parse tail) .varInt
    let dataLen ← .okOr (usizeTryFrom dataLen.toNat) .dataLength
    -- a zero-length cyphertext is left for the cipher to refuse
    let offset ← .okOr (checkedAdd offset incr) .offsetOverflow
    checkOffsetLookahead offset bytes dataLen
    let stop ← add offset dataLen
    let cyphertext ← slice bytes offset stop
    .ok (nonce, cyphertext)

/-- Magic, version, derivation paths, individual secrets, encryption byte; and the
offset after them. -/
def parseV1Header (bytes : Bytes) :
    Exec Error (ℕ × List DerivationPath × List (Block 32) × UInt8) := do
  let offset ← parseMagicByte bytes
  let offset ← initOffset bytes offset
  let tail ← sliceFrom bytes offset
  let (incr, _) ← parseVersion tail
  let offset ← incrementOffset bytes offset incr
  let tail ← sliceFrom bytes offset
  let (incr, derivationPaths) ← parseDerivationPaths tail
  let offset ← incrementOffset bytes offset incr
  let tail ← sliceFrom bytes offset
  let (incr, individualSecrets) ← parseIndividualSecrets tail
  let offset ← incrementOffset bytes offset incr
  let tail ← sliceFrom bytes offset
  let (incr, encryptionType) ← parseEncryption tail
  let offset ← incrementOffset bytes offset incr
  .ok (offset, derivationPaths, individualSecrets, encryptionType)

/-- Derivation paths, individual secrets, encryption byte, nonce, cyphertext. -/
def decodeV1 (bytes : Bytes) :
    Exec Error (List DerivationPath × List (Block 32) × UInt8 × Block 12 × Bytes) := do
  let (offset, derivationPaths, individualSecrets, encryptionType) ← parseV1Header bytes
  let tail ← sliceFrom bytes offset
  let (nonce, cyphertext) ← parseEncryptedPayload tail
  .ok (derivationPaths, individualSecrets, encryptionType, nonce, cyphertext)

def decodeVersion (bytes : Bytes) : Exec Error UInt8 := do
  let offset ← parseMagicByte bytes
  let offset ← initOffset bytes offset
  let tail ← sliceFrom bytes offset
  let (_, version) ← parseVersion tail
  .ok version

def decodeDerivationPaths (bytes : Bytes) : Exec Error (List DerivationPath) := do
  let offset ← parseMagicByte bytes
  let offset ← initOffset bytes offset
  let tail ← sliceFrom bytes offset
  let (incr, _) ← parseVersion tail
  let offset ← incrementOffset bytes offset incr
  let tail ← sliceFrom bytes offset
  let (_, derivationPaths) ← parseDerivationPaths tail
  .ok derivationPaths

end Parsers

end Bip138.Ll
