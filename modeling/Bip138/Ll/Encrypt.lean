/-
# Encryption

The encryption half of the core: padding the individual secrets with decoys,
drawn or supplied, and assembling a V1 backup. Both entry points go through
`encodeV1Backup` and differ only in the function that pads, so what is said of a
backup is said once, for any such function.
-/

import Bip138.Rust.Collect
import Bip138.Ll.Plaintext
import Bip138.Ll.ContainerGrammar
import Bip138.Ll.Crypto

namespace Bip138.Ll

open Bip138.Rust Bip138.Wire

section Code

variable {ρ : Type}

def encryptWithNonce (crypto : Crypto) (secret : Block 32) (data : Bytes) (nonce : Block 12) :
    Exec Error (Block 12 × Bytes) :=
  if nonce = Block.zero 12 then .fail .zeroedNonce
  else if data = [] then .fail .emptyBytes
  else .okOr ((crypto.aeadEncrypt secret nonce data).map fun cyphertext => (nonce, cyphertext))
    .encrypt

/-- One pass of the loop of `padIndividualSecrets`: draw a block and keep it
unless it is zero or already there. -/
def padIndividualSecretsStep (rng : Rng ρ) (target : ℕ) :
    List (Block 32) × ρ → Exec Error (LoopFlow (List (Block 32) × ρ) (List (Block 32)))
  | (secrets, source) =>
    if secrets.length < target then
      let (decoy, source) := rng.fillBytes 32 source
      if decoy ≠ Block.zero 32 ∧ decoy ∉ secrets then .ok (.next (secrets ++ [decoy], source))
      else .ok (.next (secrets, source))
    else .ok (.done secrets)

/-- Pad the individual-secret set up to the doubling bucket with random decoys. -/
def padIndividualSecrets (rng : Rng ρ) (fuel : ℕ) (source : ρ) (secrets : List (Block 32)) :
    Exec Error (List (Block 32)) := do
  let target ← doublingBucket secrets.length
  loop (padIndividualSecretsStep rng target) fuel (secrets, source)

/-- One pass of the loop of `padIndividualSecretsWithDecoys`. -/
def pushDecoy (secrets : List (Block 32)) (decoy : Block 32) : Exec Error (List (Block 32)) :=
  if decoy = Block.zero 32 ∨ decoy ∈ secrets then .fail .individualSecretsLength
  else .ok (secrets ++ [decoy])

/-- Pad the individual-secret set with decoys the caller supplies: exactly as many
as the doubling bucket leaves room for. -/
def padIndividualSecretsWithDecoys (decoys : List (Block 32)) (secrets : List (Block 32)) :
    Exec Error (List (Block 32)) := do
  let target ← doublingBucket secrets.length
  let missing ← sub target secrets.length
  if decoys.length ≠ missing then .fail .individualSecretsLength
  else decoys.foldlM pushDecoy secrets

/-- The distinct keys, without the NUMS point. -/
def rawKeys (keys : List (Block 32)) : BTreeSet (Block 32) :=
  .collect (keys.filter (· ≠ numsXonly))

/-- The distinct paths, without the ones a decoder already tries unless they are
to be stored. -/
def storedDerivationPaths (derivationPaths : List DerivationPath) (storeCommonPaths : Bool) :
    BTreeSet DerivationPath :=
  .collect (derivationPaths.filter fun path =>
    storeCommonPaths || decide (path ∉ fallbackDerivationPathSet))

/-- Assemble a V1 backup from an already encoded payload, padding the individual
secrets with `pad`. -/
def encodeV1Backup (crypto : Crypto) (derivationPaths : List DerivationPath)
    (storeCommonPaths : Bool) (keys : List (Block 32)) (payload : Bytes) (nonce : Block 12)
    (pad : List (Block 32) → Exec Error (List (Block 32))) : Exec Error Bytes :=
  let rawKeys := (rawKeys keys).toList
  let derivationPaths := (storedDerivationPaths derivationPaths storeCommonPaths).toList
  if u8Max < rawKeys.length ∨ rawKeys = [] then .fail .keyCount
  else if u8Max < derivationPaths.length then .fail .derivPathCount
  else do
    let secret := decryptionSecret crypto rawKeys
    let individualSecrets ← individualSecrets crypto secret rawKeys
    let individualSecrets ← pad individualSecrets
    let individualSecrets ← encodeIndividualSecrets individualSecrets
    let derivationPaths ← encodeDerivationPaths derivationPaths
    let (nonce, cyphertext) ← encryptWithNonce crypto secret payload nonce
    let encryptedPayload ← encodeEncryptedPayload nonce cyphertext
    .ok (encodeV1 Version.v1.toU8 derivationPaths individualSecrets
      Encryption.chaCha20Poly1305.toU8 encryptedPayload)

variable [Target]

/-- The caller keeps the random source after the call; what is left of it is not
part of the result here. -/
def encryptChacha20Poly1305V1Items (fuel : ℕ) (crypto : Crypto) (rng : Rng ρ) (source : ρ)
    (derivationPaths : List DerivationPath) (storeCommonPaths : Bool)
    (items : List (Content × Bytes)) (keys : List (Block 32)) (padding : Padding) :
    Exec Error Bytes := do
  let (nonce, source) := drawNonce rng source
  let payload ← buildV1Payload items padding
  encodeV1Backup crypto derivationPaths storeCommonPaths keys payload nonce
    (padIndividualSecrets rng fuel source)

def encryptChacha20Poly1305V1ItemsWithDecoys (crypto : Crypto)
    (derivationPaths : List DerivationPath) (storeCommonPaths : Bool)
    (items : List (Content × Bytes)) (keys : List (Block 32)) (padding : Padding)
    (nonce : Block 12) (decoyIndividualSecrets : List (Block 32)) : Exec Error Bytes := do
  let payload ← buildV1Payload items padding
  encodeV1Backup crypto derivationPaths storeCommonPaths keys payload nonce
    (padIndividualSecretsWithDecoys decoyIndividualSecrets)

end Code

@[simp]
theorem mem_rawKeys {keys : List (Block 32)} {key : Block 32} :
    key ∈ rawKeys keys ↔ key ∈ keys ∧ key ≠ numsXonly := by
  simp [rawKeys]

@[simp]
theorem mem_storedDerivationPaths {paths : List DerivationPath} {storeCommonPaths : Bool}
    {path : DerivationPath} :
    path ∈ storedDerivationPaths paths storeCommonPaths ↔
      path ∈ paths ∧ (storeCommonPaths = true ∨ path ∉ fallbackDerivationPathSet) := by
  simp [storedDerivationPaths]

/-- The secret a key list is encrypted under. -/
def backupSecret (crypto : Crypto) (keys : List (Block 32)) : Block 32 :=
  decryptionSecret crypto (rawKeys keys).toList

private theorem foldlM_pushDecoy_eq_ok_iff {decoys secrets padded : List (Block 32)} :
    decoys.foldlM pushDecoy secrets = .ok padded ↔
      (∀ decoy ∈ decoys, decoy ≠ .zero 32 ∧ decoy ∉ secrets) ∧ decoys.Nodup ∧
        padded = secrets ++ decoys := by
  induction decoys generalizing secrets with
  | nil => simp [pure, Except.pure, eq_comm]
  | cons decoy decoys ih =>
      have hpush : ∀ later, pushDecoy secrets decoy = .ok later ↔
          (decoy ≠ .zero 32 ∧ decoy ∉ secrets) ∧ later = secrets ++ [decoy] := by
        intro later
        rw [pushDecoy, Exec.guard_eq_ok_iff, not_or, Except.ok.injEq, eq_comm (a := later)]
      simp only [List.foldlM_cons, Exec.bind_eq_ok_iff, hpush, ih, List.forall_mem_cons,
        List.nodup_cons]
      constructor
      · rintro ⟨_, ⟨hdecoy, rfl⟩, hdecoys, hnodup, hpadded⟩
        refine ⟨⟨hdecoy, fun other hother => ⟨(hdecoys other hother).1, fun hmem => ?_⟩⟩,
          ⟨fun hmem => ?_, hnodup⟩, by simpa using hpadded⟩
        · exact (hdecoys other hother).2 (List.mem_append_left _ hmem)
        · exact (hdecoys decoy hmem).2 (by simp)
      · rintro ⟨⟨hdecoy, hdecoys⟩, ⟨hfresh, hnodup⟩, rfl⟩
        refine ⟨_, ⟨hdecoy, rfl⟩, fun other hother => ⟨(hdecoys other hother).1, fun hmem => ?_⟩,
          hnodup, by simp⟩
        rcases List.mem_append.mp hmem with hmem | hmem
        · exact (hdecoys other hother).2 hmem
        · rw [List.mem_singleton] at hmem
          exact hfresh (hmem ▸ hother)

/-- Supplied decoys are accepted when they fill the bucket with distinct new
secrets, and they are appended in order. -/
theorem padIndividualSecretsWithDecoys_eq_ok_iff {decoys secrets padded : List (Block 32)} :
    padIndividualSecretsWithDecoys decoys secrets = .ok padded ↔
      secrets.length ≤ u8Max ∧ decoys.length = secretBucket secrets.length - secrets.length ∧
        (∀ decoy ∈ decoys, decoy ≠ .zero 32 ∧ decoy ∉ secrets) ∧ decoys.Nodup ∧
        padded = secrets ++ decoys := by
  simp only [padIndividualSecretsWithDecoys, Exec.bind_eq_ok_iff, doublingBucket_eq_ok_iff,
    sub_eq_ok_iff, Exec.guard_eq_ok_iff, not_not, foldlM_pushDecoy_eq_ok_iff]
  constructor
  · rintro ⟨_, ⟨hlength, rfl⟩, _, ⟨-, rfl⟩, hcount, hpushed⟩
    exact ⟨hlength, hcount, hpushed⟩
  · rintro ⟨hlength, hcount, hpushed⟩
    exact ⟨_, ⟨hlength, rfl⟩, _, ⟨le_secretBucket hlength, rfl⟩, hcount, hpushed⟩

/-- The padding loop collects distinct non-zero blocks. -/
theorem padIndividualSecretsStep_eq {ρ : Type} (rng : Rng ρ) (target : ℕ) :
    padIndividualSecretsStep rng target =
      collectStep (rng.fillBytes 32) (· ≠ Block.zero 32) target := by
  funext ⟨secrets, source⟩
  by_cases hmissing : secrets.length < target
  · by_cases hkeep : (rng.fillBytes 32 source).1 ≠ Block.zero 32 ∧
        (rng.fillBytes 32 source).1 ∉ secrets
    · rw [padIndividualSecretsStep, if_pos hmissing, collectStep_keep hmissing hkeep]
      exact if_pos hkeep
    · rw [padIndividualSecretsStep, if_pos hmissing, collectStep_skip hmissing hkeep]
      exact if_neg hkeep
  · rw [padIndividualSecretsStep, if_neg hmissing, collectStep_done (not_lt.mp hmissing)]

/-- Padding with drawn decoys keeps the secrets and fills the bucket. -/
theorem padIndividualSecrets_eq_ok {ρ : Type} {rng : Rng ρ} {fuel : ℕ} {source : ρ}
    {secrets padded : List (Block 32)}
    (hpad : padIndividualSecrets rng fuel source secrets = .ok padded) :
    secrets ⊆ padded ∧ padded.length = secretBucket secrets.length := by
  obtain ⟨target, htarget, hloop⟩ := Exec.bind_eq_ok_iff.mp hpad
  obtain ⟨hlength, rfl⟩ := doublingBucket_eq_ok_iff.mp htarget
  rw [padIndividualSecretsStep_eq] at hloop
  obtain ⟨fresh, rfl, hfresh, -⟩ := collect_eq_ok hloop
  have hbucket := le_secretBucket hlength
  refine ⟨List.subset_append_left secrets fresh, ?_⟩
  rw [List.length_append, hfresh, Nat.add_sub_of_le hbucket]

/-- Every padded secret was there before or was drawn. -/
theorem mem_or_drawn_of_padIndividualSecrets {ρ : Type} {rng : Rng ρ} {fuel : ℕ} {source : ρ}
    {secrets padded : List (Block 32)}
    (hpad : padIndividualSecrets rng fuel source secrets = .ok padded) :
    ∀ block ∈ padded, block ∈ secrets ∨ ∃ i, drawn (rng.fillBytes 32) source i = block := by
  obtain ⟨target, -, hloop⟩ := Exec.bind_eq_ok_iff.mp hpad
  rw [padIndividualSecretsStep_eq] at hloop
  obtain ⟨fresh, rfl, -, -, hfresh⟩ := collect_eq_ok hloop
  intro block hblock
  rcases List.mem_append.mp hblock with hsecret | hdecoy
  · exact .inl hsecret
  · exact .inr (hfresh block hdecoy).2.2

/-- Fuel that was not needed to pad changes nothing. -/
theorem padIndividualSecrets_add_fuel {ρ : Type} {rng : Rng ρ} {fuel : ℕ} {source : ρ}
    {secrets padded : List (Block 32)}
    (hpad : padIndividualSecrets rng fuel source secrets = .ok padded) (extra : ℕ) :
    padIndividualSecrets rng (fuel + extra) source secrets = .ok padded := by
  obtain ⟨target, htarget, hloop⟩ := Exec.bind_eq_ok_iff.mp hpad
  rw [padIndividualSecrets, htarget, Exec.ok_bind, loop_add_fuel, hloop]
  rw [hloop]
  exact fun hunfinished => by cases hunfinished

section Backup

variable {crypto : Crypto} {paths : List DerivationPath} {storeCommonPaths : Bool}
  {keys : List (Block 32)} {payload bytes : Bytes} {nonce : Block 12}
  {pad : List (Block 32) → Exec Error (List (Block 32))}

/-- A payload is encrypted under any nonce but zero, when the cipher agrees. -/
theorem encryptWithNonce_eq_ok_iff {secret : Block 32} {result : Block 12 × Bytes} :
    encryptWithNonce crypto secret payload nonce = .ok result ↔
      nonce ≠ .zero 12 ∧ payload ≠ [] ∧
        ∃ cyphertext, crypto.aeadEncrypt secret nonce payload = some cyphertext ∧
          result = (nonce, cyphertext) := by
  simp only [encryptWithNonce, Exec.guard_eq_ok_iff, Exec.okOr_eq_ok_iff, Option.map_eq_some_iff,
    ne_eq, eq_comm (a := result)]

/-- Once the counts and the shares are in order, what is left of `encodeV1Backup` is to
pad, to encode and to encrypt. -/
theorem encodeV1Backup_eq_bind_pad
    (hkeys : (rawKeys keys).toList ≠ [] ∧ (rawKeys keys).toList.length ≤ u8Max)
    (hpaths : (storedDerivationPaths paths storeCommonPaths).toList.length ≤ u8Max)
    (hshares : ∀ key ∈ rawKeys keys, share crypto (backupSecret crypto keys) key ≠ .zero 32) :
    encodeV1Backup crypto paths storeCommonPaths keys payload nonce pad = (do
      let padded ← pad ((rawKeys keys).toList.map (share crypto (backupSecret crypto keys)))
      let secretWord ← encodeIndividualSecrets padded
      let pathWord ← encodeDerivationPaths (storedDerivationPaths paths storeCommonPaths).toList
      let (nonce, cyphertext) ← encryptWithNonce crypto (backupSecret crypto keys) payload nonce
      let encryptedPayload ← encodeEncryptedPayload nonce cyphertext
      .ok (encodeV1 Version.v1.toU8 pathWord secretWord Encryption.chaCha20Poly1305.toU8
        encryptedPayload)) := by
  have hsecrets : individualSecrets crypto (decryptionSecret crypto (rawKeys keys).toList)
      (rawKeys keys).toList =
        .ok ((rawKeys keys).toList.map (share crypto (backupSecret crypto keys))) :=
    (individualSecrets_eq_ok_iff crypto).mpr ⟨hshares, rfl⟩
  rw [encodeV1Backup]
  dsimp only
  rw [if_neg (not_or.mpr ⟨not_lt.mpr hkeys.2, hkeys.1⟩), if_neg (not_lt.mpr hpaths), hsecrets,
    Exec.ok_bind]
  rfl

/-- What every step of `encodeV1Backup` asks for, in its order. -/
theorem encodeV1Backup_eq_ok_iff :
    encodeV1Backup crypto paths storeCommonPaths keys payload nonce pad = .ok bytes ↔
      ((rawKeys keys).toList ≠ [] ∧ (rawKeys keys).toList.length ≤ u8Max) ∧
      (storedDerivationPaths paths storeCommonPaths).toList.length ≤ u8Max ∧
      (∀ key ∈ rawKeys keys, share crypto (backupSecret crypto keys) key ≠ .zero 32) ∧
      ∃ padded secretWord pathWord cyphertext,
        pad ((rawKeys keys).toList.map (share crypto (backupSecret crypto keys))) = .ok padded ∧
        encodeIndividualSecrets padded = .ok secretWord ∧
        encodeDerivationPaths (storedDerivationPaths paths storeCommonPaths).toList =
          .ok pathWord ∧
        nonce ≠ .zero 12 ∧ payload ≠ [] ∧
        crypto.aeadEncrypt (backupSecret crypto keys) nonce payload = some cyphertext ∧
        cyphertext ≠ [] ∧
        bytes = encodeV1 0x01 pathWord secretWord 0x01
          (nonce.1 ++ Varint.encode (UInt64.ofNat cyphertext.length) ++ cyphertext) := by
  dsimp only [encodeV1Backup]
  rw [Exec.guard_eq_ok_iff, Exec.guard_eq_ok_iff, not_or, not_lt, not_lt]
  simp only [Exec.bind_eq_ok_iff, individualSecrets_eq_ok_iff, encryptWithNonce_eq_ok_iff,
    encodeEncryptedPayload_eq_ok_iff, Except.ok.injEq]
  constructor
  · rintro ⟨⟨hlength, hnonempty⟩, hshort, _, ⟨hshares, rfl⟩, padded, hpad, secretWord, hsecrets,
      pathWord, hpaths, _, ⟨hnonce, hpayload, cyphertext, hencrypt, rfl⟩, _, ⟨hcyphertext, rfl⟩,
      rfl⟩
    exact ⟨⟨hnonempty, hlength⟩, hshort, hshares, padded, secretWord, pathWord, cyphertext, hpad,
      hsecrets, hpaths, hnonce, hpayload, hencrypt, hcyphertext, rfl⟩
  · rintro ⟨⟨hnonempty, hlength⟩, hshort, hshares, padded, secretWord, pathWord, cyphertext, hpad,
      hsecrets, hpaths, hnonce, hpayload, hencrypt, hcyphertext, rfl⟩
    exact ⟨⟨hlength, hnonempty⟩, hshort, _, ⟨hshares, rfl⟩, padded, hpad, secretWord, hsecrets,
      pathWord, hpaths, _, ⟨hnonce, hpayload, cyphertext, hencrypt, rfl⟩, _, ⟨hcyphertext, rfl⟩,
      rfl⟩

/-- An assembled backup decodes to the stored paths, the set of the padded
secrets, the nonce and the cyphertext. -/
theorem decodeV1_encodeV1Backup [Target]
    (hbackup : encodeV1Backup crypto paths storeCommonPaths keys payload nonce pad = .ok bytes)
    (hfits : bytes.length ≤ isizeMax) :
    ∃ padded cyphertext,
      pad ((rawKeys keys).toList.map (share crypto (backupSecret crypto keys))) = .ok padded ∧
      crypto.aeadEncrypt (backupSecret crypto keys) nonce payload = some cyphertext ∧
      cyphertext.length ≤ bytes.length ∧
      decodeV1 bytes = .ok ((storedDerivationPaths paths storeCommonPaths).toList,
        (BTreeSet.collect padded).toList, 0x01, nonce, cyphertext) := by
  have husize := two_mul_isizeMax_lt_usizeMax
  have hwidth := usizeMax_lt_two_pow_64
  obtain ⟨-, -, -, padded, secretWord, pathWord, cyphertext, hpad, hsecrets, hpaths, hnonce, -,
    hencrypt, -, rfl⟩ := encodeV1Backup_eq_ok_iff.mp hbackup
  have hlength : cyphertext.length ≤ (encodeV1 0x01 pathWord secretWord 0x01
      (nonce.1 ++ Varint.encode (UInt64.ofNat cyphertext.length) ++ cyphertext)).length := by
    simp only [encodeV1, List.length_append]
    omega
  have hsize := Varint.compactSize_encode (UInt64.ofNat cyphertext.length)
  rw [UInt64.toNat_ofNat', Nat.mod_eq_of_lt (by omega)] at hsize
  rw [encodeDerivationPaths_eq_ok_iff, BTreeSet.collect_toList] at hpaths
  rw [encodeIndividualSecrets_eq_ok_iff] at hsecrets
  refine ⟨padded, cyphertext, hpad, hencrypt, hlength, (decodeV1_eq_ok_iff hfits).mpr
    ⟨_, _, _, reads_zero_iff.mpr ⟨_, [], container_iff.mpr ⟨pathWord, secretWord, _, hpaths,
      hsecrets, by decide, hnonce, hsize, rfl⟩, ?_, rfl⟩, ?_, ?_⟩⟩
  · simp [encodeV1]
  · rw [BTreeSet.collect_toList]
  · rw [BTreeSet.collect_toList]

/-- More fuel than a call needed changes nothing. -/
theorem encryptItems_add_fuel [Target] {ρ : Type} {rng : Rng ρ} {source : ρ} {fuel : ℕ}
    {items : List (Content × Bytes)} {padding : Padding}
    (hencrypt : encryptChacha20Poly1305V1Items fuel crypto rng source paths storeCommonPaths items
      keys padding = .ok bytes) (extra : ℕ) :
    encryptChacha20Poly1305V1Items (fuel + extra) crypto rng source paths storeCommonPaths items
      keys padding = .ok bytes := by
  obtain ⟨payload, hbuild, hbackup⟩ := Exec.bind_eq_ok_iff.mp hencrypt
  obtain ⟨hkeys, hcount, hshares, padded, secretWord, pathWord, cyphertext, hpad, hrest⟩ :=
    encodeV1Backup_eq_ok_iff.mp hbackup
  dsimp only [encryptChacha20Poly1305V1Items]
  rw [hbuild, Exec.ok_bind]
  exact encodeV1Backup_eq_ok_iff.mpr ⟨hkeys, hcount, hshares, padded, secretWord, pathWord,
    cyphertext, padIndividualSecrets_add_fuel hpad extra, hrest⟩

end Backup

end Bip138.Ll
