/-
# The builder

`EncryptedBackup`, the one type users of the library hold: its setters, encryption
on one side, loading and decryption on the other. Every operation takes the builder
by value and returns it, so a call that fails leaves none behind.

`encrypt` decides whether and with which arguments the core is called
(`EncryptedBackup.coreCall`) before it calls it. The core draws its randomness from
the system or takes it from the caller, depending on how the library was built;
`Entropy` is that choice.
-/

import Bip138.Front.Documents
import Bip138.Ll.Decrypt

namespace Bip138

open Bip138.Rust Bip138.Ll

inductive Payload
  | none
  | encrypt (payload : Bytes)
  | encryptMany (payloads : List (Content × Bytes))
  | decryptV1 (cyphertext : Bytes) (individualSecrets : List (Block 32)) (nonce : Block 12)
  /-- A backup of the previous format. -/
  | decryptV0 (raw : Bytes)

def Payload.isEncryptMany : Payload → Bool
  | .encryptMany _ => true
  | .none | .encrypt _ | .decryptV1 _ _ _ | .decryptV0 _ => false

structure EncryptedBackup where
  version : Version := .v1
  content : Content := .unknown
  encryption : Encryption := .chaCha20Poly1305
  derivationPaths : List DerivationPath := []
  keys : List PublicKey := []
  /-- x-only keys the payload puts on chain, pooled across all its items. -/
  exposedKeys : List (Block 32) := []
  /-- Each payload key with its derivation path, to drop the path with the key. -/
  keyPaths : List (PublicKey × DerivationPath) := []
  payload : Payload := .none
  warnings : List Warning := []
  padding : Padding := .none
  storeCommonPaths : Bool := false

/-- The encoded backup, and the warnings raised while the key set was built. -/
structure Encrypted where
  bytes : Bytes
  warnings : List Warning

namespace EncryptedBackup

def new : EncryptedBackup := {}

def getDerivationPaths (backup : EncryptedBackup) : List DerivationPath := backup.derivationPaths

def getKeys (backup : EncryptedBackup) : List PublicKey := backup.keys

def getWarnings (backup : EncryptedBackup) : List Warning := backup.warnings

/-- One visit of the `retain` on the keys, on the keys retained and the warnings. -/
def retainKey (exposed : List (Block 32)) :
    List PublicKey × List Warning → PublicKey → List PublicKey × List Warning
  | (keys, warnings), key =>
    if xonly key ∉ exposed then (keys ++ [key], warnings)
    else (keys, pushWarning warnings (.exposedRoot key))

/-- Drop every key, pooled or set by hand, whose x-coordinate the payload puts on
chain, and its derivation path unless a kept key also uses it. -/
def dropExposedKeys (backup : EncryptedBackup) : EncryptedBackup :=
  let exposed := backup.exposedKeys
  let (keys, warnings) := backup.keys.foldl (retainKey exposed) ([], backup.warnings)
  let (kept, dropped) := backup.keyPaths.partition fun pair => xonly pair.1 ∉ exposed
  let derivationPaths := backup.derivationPaths.filter fun path =>
    kept.any (fun pair => pair.2 = path) || !dropped.any (fun pair => pair.2 = path)
  { backup with keys, warnings, derivationPaths }

def setKeys (backup : EncryptedBackup) (keys : List PublicKey) : EncryptedBackup :=
  { backup with keys }.dropExposedKeys

def setVersion (backup : EncryptedBackup) (version : Version) : EncryptedBackup :=
  { backup with version }

def setContentType (backup : EncryptedBackup) (content : Content) : EncryptedBackup :=
  { backup with content }

def setEncryption (backup : EncryptedBackup) (encryption : Encryption) : EncryptedBackup :=
  { backup with encryption }

def setPadding (backup : EncryptedBackup) (padding : Padding) : EncryptedBackup :=
  { backup with padding }

def setStoreCommonPaths (backup : EncryptedBackup) (storeCommonPaths : Bool) : EncryptedBackup :=
  { backup with storeCommonPaths }

def setDerivationPaths (backup : EncryptedBackup) (derivationPaths : List DerivationPath) :
    EncryptedBackup :=
  { backup with derivationPaths }

def addKeyPaths (backup : EncryptedBackup) (keyPaths : List (PublicKey × DerivationPath)) :
    EncryptedBackup :=
  { backup with
    derivationPaths := backup.derivationPaths ++ keyPaths.map Prod.snd
    keyPaths := backup.keyPaths ++ keyPaths }

/-- The lines `set_payload` and `set_payloads` share: pool the paths, keys, warnings
and exposed keys of a payload. -/
def pool (backup : EncryptedBackup) (payload : ToPayload) : Exec Error EncryptedBackup := do
  let keyPaths ← payload.keyDerivationPaths
  let backup := backup.addKeyPaths keyPaths
  let keys ← payload.keys
  let backup := { backup with keys := backup.keys ++ keys }
  let warnings ← payload.warnings
  .ok { backup with
    warnings := backup.warnings ++ warnings
    exposedKeys := backup.exposedKeys ++ payload.exposedKeys }

def setPayload (backup : EncryptedBackup) (payload : ToPayload) : Exec Error EncryptedBackup := do
  let bytes ← payload.toPayload
  let backup := { backup with
    payload := .encrypt bytes
    content := if payload.contentType.isKnown then payload.contentType else backup.content }
  let backup ← backup.pool payload
  .ok backup.dropExposedKeys

/-- One pass of the loop of `setPayloads`, on the builder and the encoded payloads. -/
def addPayload : EncryptedBackup × List (Content × Bytes) → ToPayload →
    Exec Error (EncryptedBackup × List (Content × Bytes))
  | (backup, encryptedPayloads), payload =>
    if !payload.contentType.isKnown then .fail .unknownContent
    else do
      let bytes ← payload.toPayload
      let backup ← backup.pool payload
      .ok (backup, encryptedPayloads ++ [(payload.contentType, bytes)])

def setPayloads (backup : EncryptedBackup) (payloads : List ToPayload) :
    Exec Error EncryptedBackup := do
  let (backup, encryptedPayloads) ← payloads.foldlM addPayload (backup, [])
  .ok { backup.dropExposedKeys with payload := .encryptMany encryptedPayloads }

end EncryptedBackup

/-- The arguments of a call of the core's encoder. -/
structure CoreCall where
  derivationPaths : List DerivationPath
  storeCommonPaths : Bool
  items : List (Content × Bytes)
  keys : List (Block 32)
  padding : Padding

/-- Where the nonce and the decoys come from: drawn from a random source, for at most
so many passes of the loop that draws decoys, or supplied by the caller. -/
inductive Entropy (ρ : Type)
  | drawn (fuel : ℕ) (rng : Rng ρ) (source : ρ)
  | supplied (nonce : Block 12) (decoyIndividualSecrets : List (Block 32))

variable {ρ : Type}

namespace Entropy

def nonce : Entropy ρ → Block 12
  | .drawn _ rng source => (drawNonce rng source).1
  | .supplied nonce _ => nonce

variable [Target]

/-- The call of the core. The entry point for a single payload is the one for a list
of them, on a list of one. -/
def encryptItems (crypto : Crypto) (call : CoreCall) : Entropy ρ → Exec Ll.Error Bytes
  | .drawn fuel rng source =>
      encryptChacha20Poly1305V1Items fuel crypto rng source call.derivationPaths
        call.storeCommonPaths call.items call.keys call.padding
  | .supplied nonce decoyIndividualSecrets =>
      encryptChacha20Poly1305V1ItemsWithDecoys crypto call.derivationPaths call.storeCommonPaths
        call.items call.keys call.padding nonce decoyIndividualSecrets

end Entropy

namespace EncryptedBackup

/-- What `encrypt` hands to the core, unless it refuses. -/
def coreCall (backup : EncryptedBackup) : Exec Error CoreCall :=
  if backup.content = .unknown ∧ !backup.payload.isEncryptMany then .fail .unknownContent
  else if !backup.encryption.isDefined then .fail .encryptionUndefined
  else if !backup.version.isValid then .fail .invalidVersion
  else
    let keys := backup.keys.map xonly
    let call items : CoreCall :=
      ⟨backup.derivationPaths, backup.storeCommonPaths, items, keys, backup.padding⟩
    match backup.encryption, backup.version with
    | .chaCha20Poly1305, .v1 =>
        match backup.payload with
        -- only an empty pooled set refuses: a single item may have no key of its own
        | .encrypt payload =>
            if keys = [] then .fail .descriptorHasNoKeys
            else .ok (call [(backup.content, payload)])
        | .encryptMany payloads =>
            if keys = [] then .fail .descriptorHasNoKeys else .ok (call payloads)
        | _ => .fail .wrongPayload
    | _, _ => .fail .notImplemented

def encrypt [Target] (crypto : Crypto) (entropy : Entropy ρ) (backup : EncryptedBackup) :
    Exec Error Encrypted := do
  let call ← backup.coreCall
  let bytes ← .mapErr .ll (entropy.encryptItems crypto call)
  .ok ⟨bytes, backup.warnings⟩

end EncryptedBackup

/-- Magic of the previous format. -/
def v0Magic : Bytes := [0x42, 0x45, 0x42]

/-- Standard base64, of the base64 crate. -/
class Base64 where
  encode : Bytes → String
  decode : String → Option Bytes

namespace EncryptedBackup

variable [Target]

def setEncryptedPayloadBinary (backup : EncryptedBackup) (bytes : Bytes) :
    Exec Error EncryptedBackup :=
  if v0Magic <+: bytes then .ok { backup with payload := .decryptV0 bytes }
  else do
    let version ← .mapErr .ll (decodeVersion bytes)
    match Version.ofU8 version with
    | .v1 => do
        let (derivationPaths, individualSecrets, encryptionType, nonce, cyphertext) ←
          .mapErr .ll (decodeV1 bytes)
        .ok { backup with
          derivationPaths
          encryption := .ofU8 encryptionType
          payload := .decryptV1 cyphertext individualSecrets nonce }
    | _ => .fail .notImplemented

/-- Load a backup: a binary one is recognised by its magic, and anything else is
taken for base64. -/
def setEncryptedPayload [Base64] (backup : EncryptedBackup) (bytes : Bytes) :
    Exec Error EncryptedBackup :=
  if magic <+: bytes then backup.setEncryptedPayloadBinary bytes
  else if v0Magic <+: bytes then .ok { backup with payload := .decryptV0 bytes }
  else do
    let text ← .okOr (fromUtf8 bytes) .base64
    let decoded ← .okOr (Base64.decode (trim text)) .base64
    backup.setEncryptedPayloadBinary decoded

end EncryptedBackup

inductive Decrypted [Miniscript] (P : Type)
  | descriptor (descriptor : Descriptor)
  | descriptorBackup (backup : DescriptorBackup)
  | policyBackup (backup : PolicyBackup)
  | policy
  | labels
  | walletBackup (bytes : Bytes)
  | string (text : String)
  | bip138 (bytes : Bytes)
  | raw (bytes : Bytes)
  | proprietary (parsed : P)

/-- Vendor-specific content. -/
class Proprietary (P : Type) where
  /-- `none` when the tag is not the vendor's: the item is skipped. -/
  parse (tag bytes : Bytes) : Option (Exec Error P)

/-- Opts out of vendor content. -/
abbrev NoProprietary := Empty

instance proprietaryNoProprietary : Proprietary NoProprietary where
  parse _ _ := none

/-- Errors of the crate for the previous format that are told apart. -/
inductive V0Error
  | noKey
  | wrongKey
  | other

/-- Contents of the previous format. -/
inductive V0Decrypted [Miniscript]
  | descriptor (descriptor : Descriptor)
  | policy
  | labels
  | walletBackup (bytes : Bytes)
  | raw (bytes : Bytes)

/-- The crate for the previous format: load, which may fail, then decrypt. -/
class V0 [Miniscript] where
  decrypt (raw : Bytes) (keys : List PublicKey) : Option (Except V0Error V0Decrypted)

section Decryption

variable [Target] [Miniscript] [SerdeJson] [Serde DescriptorBackup] [Serde PolicySet]
  [Serde PolicyBackup] {P : Type}

omit [Target] in
def extractBip380 (bytes : Bytes) : Exec Error (Decrypted P) := do
  let descrStr ← .okOr (fromUtf8 bytes) .utf8
  match Descriptor.fromStr descrStr with
  | some descriptor => .ok (.descriptor descriptor)
  | none => do
      let backup ← parseDescriptorBackup (asBytes descrStr)
      .ok (.descriptorBackup backup)

def extractBip388 (bytes : Bytes) : Option (Exec Error (Decrypted P)) :=
  some (do
    let backup ← parsePolicyBackup bytes
    .ok (.policyBackup backup))

/-- Extract a decrypted content item; `none` when its type has no parser yet. -/
def extract [Proprietary P] (content : Content) (bytes : Bytes) :
    Option (Exec Error (Decrypted P)) :=
  match content with
  | .none | .unknown => some (.ok (.raw bytes))
  | .string => some (do
      let text ← .okOr (fromUtf8 bytes) .utf8
      .ok (.string text))
  | .bip138 => some (.ok (.bip138 bytes))
  | .bip380 => some (extractBip380 bytes)
  | .bip388 => extractBip388 bytes
  | .bip139 | .bip329 | .bip _ => none
  | .proprietary tag => (Proprietary.parse tag bytes).map fun parsed => do
      let value ← parsed
      .ok (.proprietary value)

namespace EncryptedBackup

/-- Decrypt a backup of the previous format. -/
def tryV0Decrypt [V0] (backup : EncryptedBackup) (raw : Bytes) : Exec Error (Decrypted P) :=
  match V0.decrypt raw backup.keys with
  | none => .fail .wrongPayload
  | some (.error .noKey) => .fail .noKey
  | some (.error .wrongKey) => .fail .wrongKey
  | some (.error .other) => .fail .wrongPayload
  | some (.ok (.descriptor descriptor)) => .ok (.descriptor descriptor)
  | some (.ok .policy) => .ok .policy
  | some (.ok .labels) => .ok .labels
  | some (.ok (.walletBackup bytes)) => .ok (.walletBackup bytes)
  | some (.ok (.raw bytes)) => .ok (.raw bytes)

/-- The loop over the keys: the first that decrypts decides the result. -/
def decryptItems (crypto : Crypto) (cyphertext : Bytes) (individualSecrets : List (Block 32))
    (nonce : Block 12) : List PublicKey → Exec Error (List (Content × Bytes))
  | [] => .fail .wrongKey
  | key :: keys =>
    match decryptChacha20Poly1305V1 crypto (xonly key) individualSecrets cyphertext nonce with
    | .ok items => .ok items
    | .error (.error _) => decryptItems crypto cyphertext individualSecrets nonce keys
    | .error (.panic cause) => .error (.panic cause)
    | .error .unfinished => .error .unfinished

/-- Decrypt, parsing vendor-specific items as `P`. -/
def decryptWith [Proprietary P] [V0] (crypto : Crypto) (backup : EncryptedBackup) :
    Exec Error (List (Decrypted P)) :=
  if backup.keys = [] then .fail .noKey
  else match backup.payload, backup.version with
    | .decryptV0 raw, _ => do
        let decrypted ← backup.tryV0Decrypt raw
        .ok [decrypted]
    | .decryptV1 cyphertext individualSecrets nonce, .v1 =>
        if backup.encryption ≠ .chaCha20Poly1305 then .fail .unsupportedEncryption
        else do
          let items ← decryptItems crypto cyphertext individualSecrets nonce backup.keys
          (items.filterMap fun (content, bytes) => extract content bytes).mapM id
    | _, .v1 => .fail .wrongPayload
    | _, .v0 => .fail .notImplemented
    | _, .unknown => .fail .unknownVersion

/-- Decrypt with no vendor parser. -/
def decrypt [V0] (crypto : Crypto) (backup : EncryptedBackup) :
    Exec Error (List (Decrypted NoProprietary)) :=
  backup.decryptWith crypto

end EncryptedBackup

end Decryption

end Bip138
