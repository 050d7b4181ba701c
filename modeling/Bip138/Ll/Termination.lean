/-
# When encryption ends

The nonce is drawn at most twice, but the loop that pads the individual secrets
draws until it has enough distinct non-zero blocks, and it runs before the nonce
is looked at. Encryption with a random source therefore ends exactly when it
fails before that loop or the source has the missing blocks to give
(`exists_encryptItems_returns_iff`). A source of zeros only has none, so the error
that its zero nonce would be is reached only where there is nothing to pad and
nothing else to refuse (`exists_returns_encryptItems_iff`).
-/

import Bip138.Ll.Recipients
import Bip138.Ll.RoundTrip

namespace Bip138.Ll

open Bip138.Rust

variable {ρ : Type}

/-- Padding ends exactly when the source has the missing blocks to give. -/
theorem exists_returns_padIndividualSecrets_iff {rng : Rng ρ} {source : ρ}
    {secrets : List (Block 32)} (hlength : secrets.length ≤ u8Max) :
    (∃ fuel, (padIndividualSecrets rng fuel source secrets).Returns) ↔
      ∃ fresh : Finset (Block 32), secretBucket secrets.length - secrets.length ≤ fresh.card ∧
        ∀ block ∈ fresh, block ≠ .zero 32 ∧ block ∉ secrets ∧
          ∃ i, drawn (rng.fillBytes 32) source i = block := by
  rw [← exists_returns_collect_iff (ε := Error)]
  simp only [padIndividualSecrets, doublingBucket_eq hlength, Exec.ok_bind,
    padIndividualSecretsStep_eq]

/-- Padding that comes back is padding that succeeded: no error is left for it. -/
theorem exists_padIndividualSecrets_eq_ok_of_returns {rng : Rng ρ} {source : ρ} {fuel : ℕ}
    {secrets : List (Block 32)} (hlength : secrets.length ≤ u8Max)
    (hreturns : (padIndividualSecrets rng fuel source secrets).Returns) :
    ∃ padded, padIndividualSecrets rng fuel source secrets = .ok padded := by
  refine hreturns.resolve_right fun ⟨cause, hfail⟩ => ?_
  rw [padIndividualSecrets, doublingBucket_eq hlength, Exec.ok_bind,
    padIndividualSecretsStep_eq] at hfail
  exact collect_ne_fail fuel cause hfail

/-- A source that only yields zeros never ends the padding, unless there is nothing
to pad. -/
theorem padIndividualSecrets_eq_unfinished {rng : Rng ρ} {source : ρ}
    {secrets : List (Block 32)} (hlength : secrets.length ≤ u8Max)
    (hmissing : secrets.length < secretBucket secrets.length)
    (hzero : ∀ i, drawn (rng.fillBytes 32) source i = .zero 32) (fuel : ℕ) :
    padIndividualSecrets rng fuel source secrets = .error .unfinished := by
  rw [padIndividualSecrets, doublingBucket_eq hlength, Exec.ok_bind, padIndividualSecretsStep_eq]
  apply loop_collectStep_unfinished hmissing
  intro i haccepted
  exact haccepted.1 (hzero i)

section Backup

variable {crypto : Crypto} {paths : List DerivationPath} {storeCommonPaths : Bool}
  {keys : List (Block 32)} {payload : Bytes} {nonce : Block 12}
  {pad : List (Block 32) → Exec Error (List (Block 32))}

theorem returns_individualSecrets_iff {secret : Block 32} :
    (individualSecrets crypto secret keys).Returns ↔
      ∀ key ∈ keys, share crypto secret key ≠ .zero 32 := by
  refine ⟨fun hreturns => ?_, fun hshares => ?_⟩
  · obtain ⟨shares, hok⟩ | ⟨cause, hfail⟩ := hreturns
    · exact ((individualSecrets_eq_ok_iff crypto).mp hok).1
    · refine absurd hfail (Exec.mapM_ne_fail (fun key cause => ?_) keys cause)
      dsimp only [individualSecret]
      by_cases hzero : Block.xor secret (taggedHash crypto individualSecretTag key.1) = .zero 32
      · rw [if_pos hzero]
        simp [Exec.abort, Exec.fail]
      · rw [if_neg hzero]
        exact (Exec.fail_ne_ok cause _).symm
  · exact .inl ⟨_, (individualSecrets_eq_ok_iff crypto).mpr ⟨hshares, rfl⟩⟩

theorem returns_encodeDerivationPaths (paths : List DerivationPath) :
    (encodeDerivationPaths paths).Returns := by
  dsimp only [encodeDerivationPaths]
  by_cases hlong : u8Max < (sortDedup paths).length
  · rw [if_pos hlong]
    exact Exec.returns_fail _
  · rw [if_neg hlong]
    refine (Exec.returns_mapM fun path _ => ?_).bind fun _ _ => Exec.returns_ok _
    rw [encodeDerivationPath]
    by_cases hempty : path.length = 0
    · rw [if_pos hempty]
      exact Exec.returns_fail _
    · by_cases hwide : u8Max < path.length
      · rw [if_neg hempty, if_pos hwide]
        exact Exec.returns_fail _
      · rw [if_neg hempty, if_neg hwide]
        exact Exec.returns_ok _

theorem returns_encodeIndividualSecrets (secrets : List (Block 32)) :
    (encodeIndividualSecrets secrets).Returns := by
  dsimp only [encodeIndividualSecrets]
  by_cases hlong : u8Max < (sortDedup secrets).length
  · rw [if_pos hlong]
    exact Exec.returns_fail _
  · by_cases hempty : sortDedup secrets = []
    · rw [if_neg hlong, if_pos hempty]
      exact Exec.returns_fail _
    · rw [if_neg hlong, if_neg hempty]
      exact Exec.returns_ok _

theorem returns_encryptWithNonce (secret : Block 32) :
    (encryptWithNonce crypto secret payload nonce).Returns := by
  rw [encryptWithNonce]
  by_cases hnonce : nonce = .zero 12
  · rw [if_pos hnonce]
    exact Exec.returns_fail _
  · by_cases hpayload : payload = []
    · rw [if_neg hnonce, if_pos hpayload]
      exact Exec.returns_fail _
    · rw [if_neg hnonce, if_neg hpayload]
      exact Exec.returns_okOr _ _

theorem returns_encodeEncryptedPayload (cyphertext : Bytes) :
    (encodeEncryptedPayload nonce cyphertext).Returns := by
  rw [encodeEncryptedPayload]
  by_cases hempty : cyphertext = []
  · rw [if_pos hempty]
    exact Exec.returns_fail _
  · rw [if_neg hempty]
    exact Exec.returns_ok _

/-- Assembling a backup comes back when the assertion on the shares holds and the
padding comes back; nothing after the padding can fail to. -/
theorem returns_encodeV1Backup_iff
    (hkeys : (rawKeys keys).toList ≠ [] ∧ (rawKeys keys).toList.length ≤ u8Max)
    (hpaths : (storedDerivationPaths paths storeCommonPaths).toList.length ≤ u8Max) :
    (encodeV1Backup crypto paths storeCommonPaths keys payload nonce pad).Returns ↔
      (∀ key ∈ rawKeys keys, share crypto (backupSecret crypto keys) key ≠ .zero 32) ∧
        (pad ((rawKeys keys).toList.map (share crypto (backupSecret crypto keys)))).Returns := by
  by_cases hshares : ∀ key ∈ rawKeys keys, share crypto (backupSecret crypto keys) key ≠ .zero 32
  · rw [encodeV1Backup_eq_bind_pad hkeys hpaths hshares, Exec.returns_bind_iff]
    · exact ⟨fun hpad => ⟨hshares, hpad⟩, And.right⟩
    · intro padded
      refine (returns_encodeIndividualSecrets padded).bind fun _ _ => ?_
      refine (returns_encodeDerivationPaths _).bind fun _ _ => ?_
      refine (returns_encryptWithNonce _).bind fun result _ => ?_
      exact (returns_encodeEncryptedPayload _).bind fun _ _ => Exec.returns_ok _
  · dsimp only [encodeV1Backup]
    rw [if_neg (not_or.mpr ⟨not_lt.mpr hkeys.2, hkeys.1⟩), if_neg (not_lt.mpr hpaths)]
    refine ⟨fun hreturns => ?_, fun hboth => absurd hboth.1 hshares⟩
    have habort : ¬ (individualSecrets crypto (decryptionSecret crypto (rawKeys keys).toList)
        (rawKeys keys).toList).Returns := fun hsecrets =>
      hshares (returns_individualSecrets_iff.mp hsecrets)
    exact absurd (Exec.returns_of_returns_bind hreturns) habort

/-- More than `255` stored paths end the call early, with an error. -/
theorem encodeV1Backup_eq_fail_derivPathCount
    (hkeys : (rawKeys keys).toList ≠ [] ∧ (rawKeys keys).toList.length ≤ u8Max)
    (hpaths : u8Max < (storedDerivationPaths paths storeCommonPaths).toList.length) :
    encodeV1Backup crypto paths storeCommonPaths keys payload nonce pad =
      .fail .derivPathCount := by
  dsimp only [encodeV1Backup]
  rw [if_neg (not_or.mpr ⟨not_lt.mpr hkeys.2, hkeys.1⟩), if_pos hpaths]

/-- An empty path is never left out, and never written. -/
theorem encodeV1Backup_ne_ok_of_nil_mem {bytes : Bytes} (hempty : [] ∈ paths) :
    encodeV1Backup crypto paths storeCommonPaths keys payload nonce pad ≠ .ok bytes := by
  intro hbytes
  obtain ⟨-, -, -, _, _, pathWord, _, -, -, hpaths, -⟩ := encodeV1Backup_eq_ok_iff.mp hbytes
  rw [encodeDerivationPaths_eq_ok_iff, BTreeSet.collect_toList] at hpaths
  obtain ⟨-, hvalid, -⟩ := pathTable_iff.mp hpaths
  have hkept : [] ∈ storedDerivationPaths paths storeCommonPaths :=
    mem_storedDerivationPaths.mpr
      ⟨hempty, .inr fun hcommon => ne_nil_of_mem_fallbackDerivationPathSet hcommon rfl⟩
  exact (hvalid [] hkept).1 rfl

/-- One to `255` secrets are written, repetitions included. -/
theorem exists_encodeIndividualSecrets_eq_ok {secrets : List (Block 32)} (hnonempty : secrets ≠ [])
    (hlength : secrets.length ≤ u8Max) : ∃ word, encodeIndividualSecrets secrets = .ok word := by
  have hcount : (BTreeSet.collect secrets).toList.length ≤ secrets.length :=
    BTreeSet.length_toList_le fun secret hsecret => by simpa using hsecret
  refine ⟨_, encodeIndividualSecrets_eq_ok_iff.mpr
    (secretTable_iff.mpr ⟨?_, hcount.trans hlength, rfl⟩)⟩
  rwa [ne_eq, BTreeSet.toList_collect_eq_nil_iff]

end Backup

/-- The paths are written or refused, but never for the nonce. -/
theorem encodeDerivationPaths_ne_fail_zeroedNonce (paths : List DerivationPath) :
    encodeDerivationPaths paths ≠ .fail .zeroedNonce := by
  dsimp only [encodeDerivationPaths]
  by_cases hlong : u8Max < (sortDedup paths).length
  · rw [if_pos hlong]
    exact fun hfail => by cases hfail
  · rw [if_neg hlong]
    refine Exec.bind_ne_fail (fun hfail => ?_) fun _ => (Exec.fail_ne_ok _ _).symm
    obtain ⟨path, -, hpath⟩ := Exec.exists_mem_of_mapM_eq_fail hfail
    rw [encodeDerivationPath] at hpath
    split at hpath
    · cases hpath
    · split at hpath
      · cases hpath
      · cases hpath

/-- One to `255` shares that were padded can be written. -/
theorem exists_encodeIndividualSecrets_of_pad {rng : Rng ρ} {fuel : ℕ} {source : ρ}
    {padded : List (Block 32)}
    (hkeys : (rawKeys keys).toList ≠ [] ∧ (rawKeys keys).toList.length ≤ u8Max)
    (hpad : padIndividualSecrets rng fuel source
      ((rawKeys keys).toList.map (share crypto (backupSecret crypto keys))) = .ok padded) :
    ∃ word, encodeIndividualSecrets padded = .ok word := by
  obtain ⟨hsubset, hsize⟩ := padIndividualSecrets_eq_ok hpad
  apply exists_encodeIndividualSecrets_eq_ok
  · intro hnil
    rw [hnil, List.subset_nil, List.map_eq_nil_iff] at hsubset
    exact hkeys.1 hsubset
  · rw [hsize]
    exact secretBucket_le _

section Random

variable [Target] {crypto : Crypto} {rng : Rng ρ} {source : ρ} {paths : List DerivationPath}
  {storeCommonPaths : Bool} {items : List (Content × Bytes)} {keys : List (Block 32)}
  {padding : Padding}

/-- Whatever sizes are asked of the source, it fills the buffers with zeros. -/
def OnlyZeros (rng : Rng ρ) (source : ρ) : Prop :=
  ∀ (sizes : List ℕ) (n : ℕ),
    (rng.fillBytes n
      (sizes.foldl (fun source size => (rng.fillBytes size source).2) source)).1 = .zero n

omit [Target] in
theorem OnlyZeros.drawNonce_eq (hzeros : OnlyZeros rng source) :
    (drawNonce rng source).1 = .zero 12 := by
  have hfirst : (rng.fillBytes 12 source).1 = .zero 12 := hzeros [] 12
  rw [drawNonce]
  dsimp only
  rw [if_neg (not_not.mpr hfirst)]
  exact hzeros [12] 12

omit [Target] in
theorem keyCount_of_card (hkeys : 1 ≤ (recipients keys).card ∧ (recipients keys).card ≤ 255) :
    (rawKeys keys).toList ≠ [] ∧ (rawKeys keys).toList.length ≤ u8Max := by
  rw [← List.length_pos_iff, length_rawKeys]
  exact hkeys

theorem encryptItems_eq_encodeV1Backup {payload : Bytes}
    (hbuild : buildV1Payload items padding = .ok payload) (fuel : ℕ) :
    encryptChacha20Poly1305V1Items fuel crypto rng source paths storeCommonPaths items keys
        padding =
      encodeV1Backup crypto paths storeCommonPaths keys payload (drawNonce rng source).1
        (padIndividualSecrets rng fuel (drawNonce rng source).2) := by
  dsimp only [encryptChacha20Poly1305V1Items]
  rw [hbuild, Exec.ok_bind]

theorem encryptItems_eq_fail {cause : Error}
    (hbuild : buildV1Payload items padding = .fail cause) (fuel : ℕ) :
    encryptChacha20Poly1305V1Items fuel crypto rng source paths storeCommonPaths items keys
      padding = .fail cause := by
  dsimp only [encryptChacha20Poly1305V1Items]
  rw [hbuild, Exec.fail_bind]

/-- A payload that cannot be padded is an error. -/
theorem exists_buildV1Payload_eq_fail
    (hsize : ¬ ∃ size, padding.paddedSize (items.flatMap itemBytes).length = .ok size) :
    ∃ cause, buildV1Payload items padding = .fail cause := by
  apply returns_buildV1Payload.exists_fail
  intro payload hok
  obtain ⟨-, -, size, hok, -⟩ := buildV1Payload_eq_ok_iff.mp hok
  exact hsize ⟨size, hok⟩

theorem geometricBucket_ne_fail_zeroedNonce (len : ℕ) :
    geometricBucket len ≠ .fail .zeroedNonce := by
  rw [geometricBucket]
  split
  · exact (Exec.fail_ne_ok _ _).symm
  · refine Exec.bind_ne_fail (loop_ne_fail (fun state => ?_) _ _) fun _ =>
      Exec.okOr_ne_fail (by decide)
    obtain ⟨numerator, denominator, target⟩ := state
    rw [geometricBucketStep]
    split
    · exact Exec.bind_ne_fail (Exec.okOr_ne_fail (by decide)) fun _ =>
        Exec.bind_ne_fail (Exec.okOr_ne_fail (by decide)) fun _ => (Exec.fail_ne_ok _ _).symm
    · exact (Exec.fail_ne_ok _ _).symm

/-- A payload is built or refused, but never for the nonce. -/
theorem buildV1Payload_ne_fail_zeroedNonce :
    buildV1Payload items padding ≠ .fail .zeroedNonce := by
  refine Exec.bind_ne_fail (fun hfail => ?_) fun metadata => ?_
  · obtain ⟨⟨content, data⟩, -, hitem⟩ := Exec.exists_mem_of_mapM_eq_fail hfail
    rw [buildItem] at hitem
    split at hitem
    · cases hitem
    · refine absurd hitem (Exec.bind_ne_fail (Exec.okOr_ne_fail (by decide)) fun word => ?_)
      split
      · exact fun hempty => by cases hempty
      · exact (Exec.fail_ne_ok _ _).symm
  · rw [encodePlaintext]
    split
    · exact fun hempty => by cases hempty
    · refine Exec.bind_ne_fail ?_ fun _ => (Exec.fail_ne_ok _ _).symm
      cases padding with
      | none => exact (Exec.fail_ne_ok _ _).symm
      | geometric => exact geometricBucket_ne_fail_zeroedNonce _

/-- Encryption of valid items to one to `255` keys ends, for some number of draws,
exactly when the payload cannot be padded, or too many paths would be stored, or
no stored secret is zero and the source yields after the nonce at least as many distinct
non-zero blocks that are none of the stored secrets as the doubling bucket is short
of. -/
theorem exists_encryptItems_returns_iff
    (hitems : items ≠ [] ∧ ∀ item ∈ items, ItemValid item)
    (hkeys : 1 ≤ (recipients keys).card ∧ (recipients keys).card ≤ 255) :
    (∃ fuel, (encryptChacha20Poly1305V1Items fuel crypto rng source paths storeCommonPaths items
        keys padding).Returns) ↔
      (∀ size, padding.paddedSize (items.flatMap itemBytes).length ≠ .ok size) ∨
      255 < (storedPaths paths storeCommonPaths).card ∨
      (∀ key ∈ recipients keys, storedSecret crypto keys key ≠ .zero 32) ∧
        ∃ fresh : Finset (Block 32),
          secretBucket (recipients keys).card - (recipients keys).card ≤ fresh.card ∧
          ∀ block ∈ fresh, block ≠ .zero 32 ∧
            (∀ key ∈ recipients keys, block ≠ storedSecret crypto keys key) ∧
            ∃ i, drawn (rng.fillBytes 32) (drawNonce rng source).2 i = block := by
  have hraw := keyCount_of_card hkeys
  by_cases hsize : ∃ size, padding.paddedSize (items.flatMap itemBytes).length = .ok size
  · obtain ⟨size, hsize⟩ := hsize
    obtain ⟨payload, hbuild⟩ : ∃ payload, buildV1Payload items padding = .ok payload :=
      ⟨_, buildV1Payload_eq_ok_iff.mpr ⟨hitems.1, hitems.2, size, hsize, rfl⟩⟩
    have hfits : ¬ ∀ size, padding.paddedSize (items.flatMap itemBytes).length ≠ .ok size :=
      fun hnone => hnone size hsize
    by_cases hpaths : u8Max < (storedPaths paths storeCommonPaths).card
    · refine iff_of_true ⟨0, ?_⟩ (.inr (.inl hpaths))
      rw [encryptItems_eq_encodeV1Backup hbuild, encodeV1Backup_eq_fail_derivPathCount hraw
        (by rwa [length_storedDerivationPaths])]
      exact Exec.returns_fail _
    · have hshort : ¬ 255 < (storedPaths paths storeCommonPaths).card := hpaths
      rw [not_lt, ← length_storedDerivationPaths] at hpaths
      simp only [encryptItems_eq_encodeV1Backup hbuild, returns_encodeV1Backup_iff hraw hpaths,
        exists_and_left, hfits, hshort, false_or, mem_rawKeys_iff_mem_recipients,
        share_backupSecret]
      apply and_congr_right
      intro hsecrets
      rw [exists_returns_padIndividualSecrets_iff (by rw [List.length_map]; exact hraw.2)]
      simp only [List.length_map, length_rawKeys, List.mem_map, BTreeSet.mem_toList,
        mem_rawKeys_iff_mem_recipients, share_backupSecret, not_exists, not_and, ne_eq, eq_comm]
  · refine iff_of_true ⟨0, ?_⟩ (.inl fun size hok => hsize ⟨size, hok⟩)
    obtain ⟨cause, hfail⟩ := exists_buildV1Payload_eq_fail hsize
    rw [encryptItems_eq_fail hfail]
    exact Exec.returns_fail cause

/-- A call with a zero nonce that comes back ends in that error when its payload can be
padded and its paths can be written, and in another one otherwise. -/
theorem encryptItems_eq_fail_zeroedNonce_iff {fuel : ℕ}
    (hitems : items ≠ [] ∧ ∀ item ∈ items, ItemValid item)
    (hkeys : 1 ≤ (recipients keys).card ∧ (recipients keys).card ≤ 255)
    (hnonce : (drawNonce rng source).1 = .zero 12)
    (hreturns : (encryptChacha20Poly1305V1Items fuel crypto rng source paths storeCommonPaths
      items keys padding).Returns) :
    encryptChacha20Poly1305V1Items fuel crypto rng source paths storeCommonPaths items keys
        padding = .fail .zeroedNonce ↔
      (∃ size, padding.paddedSize (items.flatMap itemBytes).length = .ok size) ∧
        (storedPaths paths storeCommonPaths).card ≤ 255 ∧
        ∀ path ∈ storedPaths paths storeCommonPaths, 1 ≤ path.length ∧ path.length ≤ 255 := by
  have hraw := keyCount_of_card hkeys
  by_cases hsize : ∃ size, padding.paddedSize (items.flatMap itemBytes).length = .ok size
  · obtain ⟨size, hok⟩ := hsize
    have hbuild := buildV1Payload_eq_ok_iff.mpr ⟨hitems.1, hitems.2, size, hok, rfl⟩
    rw [encryptItems_eq_encodeV1Backup hbuild] at hreturns ⊢
    rw [and_iff_right ⟨size, hok⟩, ← exists_encodeDerivationPaths_eq_ok_iff]
    by_cases hcount : u8Max < (storedDerivationPaths paths storeCommonPaths).toList.length
    · rw [encodeV1Backup_eq_fail_derivPathCount hraw hcount]
      refine iff_of_false (fun hfail => by cases hfail) fun hword => ?_
      obtain ⟨hshort, -⟩ := exists_encodeDerivationPaths_eq_ok_iff.mp hword
      rw [← length_storedDerivationPaths] at hshort
      exact absurd hcount (not_lt.mpr hshort)
    · rw [not_lt] at hcount
      obtain ⟨hshares, hpad⟩ := (returns_encodeV1Backup_iff hraw hcount).mp hreturns
      obtain ⟨padded, hpad⟩ := exists_padIndividualSecrets_eq_ok_of_returns
        (by rw [List.length_map]; exact hraw.2) hpad
      obtain ⟨secretWord, hsecretWord⟩ := exists_encodeIndividualSecrets_of_pad hraw hpad
      rw [encodeV1Backup_eq_bind_pad hraw hcount hshares, hpad, Exec.ok_bind, hsecretWord,
        Exec.ok_bind, hnonce]
      obtain ⟨pathWord, hpaths⟩ | ⟨cause, hpaths⟩ := returns_encodeDerivationPaths
        (storedDerivationPaths paths storeCommonPaths).toList
      · rw [hpaths, Exec.ok_bind, encryptWithNonce, if_pos rfl, Exec.fail_bind]
        exact iff_of_true rfl ⟨pathWord, rfl⟩
      · rw [hpaths, Exec.fail_bind]
        refine iff_of_false (fun hfail => ?_) fun hword => ?_
        · rw [Exec.fail_inj] at hfail
          rw [hfail] at hpaths
          exact encodeDerivationPaths_ne_fail_zeroedNonce _ hpaths
        · obtain ⟨word, hok⟩ := hword
          exact Exec.fail_ne_ok cause word hok
  · obtain ⟨cause, hfail⟩ := exists_buildV1Payload_eq_fail hsize
    rw [encryptItems_eq_fail hfail]
    refine iff_of_false (fun hzeroed => ?_) fun hok => hsize hok.1
    rw [Exec.fail_inj] at hzeroed
    rw [hzeroed] at hfail
    exact buildV1Payload_ne_fail_zeroedNonce hfail

/-- Encryption of valid items to one to `255` keys ends, and ends in the error of the zero
nonce when the source only yields zeros, exactly when it ends at all and, for such a source,
has a payload that can be padded and paths that can be written. -/
theorem exists_returns_encryptItems_iff
    (hitems : items ≠ [] ∧ ∀ item ∈ items, ItemValid item)
    (hkeys : 1 ≤ (recipients keys).card ∧ (recipients keys).card ≤ 255) :
    (∃ fuel, (encryptChacha20Poly1305V1Items fuel crypto rng source paths storeCommonPaths items
        keys padding).Returns ∧
      (OnlyZeros rng source → encryptChacha20Poly1305V1Items fuel crypto rng source paths
        storeCommonPaths items keys padding = .fail .zeroedNonce)) ↔
      ((∀ size, padding.paddedSize (items.flatMap itemBytes).length ≠ .ok size) ∨
        255 < (storedPaths paths storeCommonPaths).card ∨
        (∀ key ∈ recipients keys, storedSecret crypto keys key ≠ .zero 32) ∧
          ∃ fresh : Finset (Block 32),
            secretBucket (recipients keys).card - (recipients keys).card ≤ fresh.card ∧
            ∀ block ∈ fresh, block ≠ .zero 32 ∧
              (∀ key ∈ recipients keys, block ≠ storedSecret crypto keys key) ∧
              ∃ i, drawn (rng.fillBytes 32) (drawNonce rng source).2 i = block) ∧
      (OnlyZeros rng source →
        (∃ size, padding.paddedSize (items.flatMap itemBytes).length = .ok size) ∧
          (storedPaths paths storeCommonPaths).card ≤ 255 ∧
          ∀ path ∈ storedPaths paths storeCommonPaths, 1 ≤ path.length ∧ path.length ≤ 255) := by
  rw [← exists_encryptItems_returns_iff hitems hkeys]
  constructor
  · rintro ⟨fuel, hreturns, hzeroed⟩
    refine ⟨⟨fuel, hreturns⟩, fun hzeros => ?_⟩
    exact (encryptItems_eq_fail_zeroedNonce_iff hitems hkeys hzeros.drawNonce_eq hreturns).mp
      (hzeroed hzeros)
  · rintro ⟨⟨fuel, hreturns⟩, hwritten⟩
    refine ⟨fuel, hreturns, fun hzeros => ?_⟩
    exact (encryptItems_eq_fail_zeroedNonce_iff hitems hkeys hzeros.drawNonce_eq hreturns).mpr
      (hwritten hzeros)

end Random

section Success

/-- The source serves a call for these keys: the nonce it yields is not zero, and after
it come the distinct non-zero blocks, none of them a recipient's share, that the
doubling bucket is short of. -/
structure Serves (crypto : Crypto) (rng : Rng ρ) (source : ρ) (keys : List (Block 32)) : Prop where
  nonce : (drawNonce rng source).1 ≠ .zero 12
  blocks : ∃ fresh : Finset (Block 32),
    secretBucket (rawKeys keys).toList.length - (rawKeys keys).toList.length ≤ fresh.card ∧
    ∀ block ∈ fresh, block ≠ .zero 32 ∧
      (∀ key ∈ rawKeys keys, block ≠ share crypto (backupSecret crypto keys) key) ∧
      ∃ i, drawn (rng.fillBytes 32) (drawNonce rng source).2 i = block

variable {crypto : Crypto} {rng : Rng ρ} {source : ρ} {paths : List DerivationPath}
  {storeCommonPaths : Bool} {items : List (Content × Bytes)} {keys : List (Block 32)}
  {padding : Padding}

/-- A source serves a call whose next blocks after the nonce are new, when enough of them
differ. -/
theorem serves_of_drawn (count : ℕ) (hnonce : (drawNonce rng source).1 ≠ .zero 12)
    (hcard : secretBucket (rawKeys keys).toList.length - (rawKeys keys).toList.length ≤
      ((Finset.range count).image (drawn (rng.fillBytes 32) (drawNonce rng source).2)).card)
    (hblocks : ∀ i ∈ Finset.range count,
      drawn (rng.fillBytes 32) (drawNonce rng source).2 i ≠ .zero 32 ∧
        ∀ key ∈ (rawKeys keys).toList,
          drawn (rng.fillBytes 32) (drawNonce rng source).2 i ≠
            share crypto (backupSecret crypto keys) key) :
    Serves crypto rng source keys := by
  refine ⟨hnonce, _, hcard, fun block hblock => ?_⟩
  obtain ⟨i, hi, rfl⟩ := Finset.mem_image.mp hblock
  exact ⟨(hblocks i hi).1, (hblocks i hi).2, i, rfl⟩

end Success

/-- A source that counts: every byte of a draw is the number of the draw. -/
def countingRng : Rng ℕ where
  fillBytes n count := (⟨List.replicate n (UInt8.ofNat count), List.length_replicate⟩, count + 1)

/-- A source stuck on zeros. -/
def zeroRng : Rng Unit where
  fillBytes n source := (Block.zero n, source)

theorem onlyZeros_zeroRng : OnlyZeros zeroRng () := fun _ _ => rfl

/-- Keys that fill a bucket, so that there is nothing to pad. -/
def fiveKeys : List (Block 32) := [7, 8, 9, 10, 11].map byteBlock

/-- The counting source ends the encryption to one key. The source stuck on zeros ends the
one to five keys, with the error of its nonce. -/
theorem exists_returns_encryptItems_iff_sources :
    (∃ fuel, (@encryptChacha20Poly1305V1Items ℕ target64 fuel sampleCrypto countingRng 1 [] true
        sampleItems [sampleKey] .none).Returns) ∧
      ∃ fuel, @encryptChacha20Poly1305V1Items Unit target64 fuel sampleCrypto zeroRng () [] true
        sampleItems fiveKeys .none = .fail .zeroedNonce := by
  have hitems : sampleItems ≠ [] ∧ ∀ item ∈ sampleItems, ItemValid item :=
    ⟨by decide, itemValid_of_mem_sampleItems⟩
  constructor
  · obtain ⟨-, fresh, hcard, hfresh⟩ : Serves sampleCrypto countingRng 1 [sampleKey] :=
      serves_of_drawn 4 (by decide +kernel) (by decide +kernel) (by decide +kernel)
    simp only [length_rawKeys, mem_rawKeys_iff_mem_recipients, share_backupSecret] at hcard hfresh
    have hsecrets : ∀ key ∈ recipients [sampleKey],
        storedSecret sampleCrypto [sampleKey] key ≠ .zero 32 := by
      simp only [← mem_rawKeys_iff_mem_recipients, ← share_backupSecret]
      decide +kernel
    obtain ⟨fuel, hreturns, -⟩ := (@exists_returns_encryptItems_iff ℕ target64 sampleCrypto
      countingRng 1 [] true sampleItems [sampleKey] .none hitems (by decide +kernel)).mpr
        ⟨.inr (.inr ⟨hsecrets, fresh, hcard, hfresh⟩),
          fun hzeros => absurd (hzeros [] 12) (by decide +kernel)⟩
    exact ⟨fuel, hreturns⟩
  · have hsecrets : ∀ key ∈ recipients fiveKeys,
        storedSecret sampleCrypto fiveKeys key ≠ .zero 32 := by
      simp only [← mem_rawKeys_iff_mem_recipients, ← share_backupSecret]
      decide +kernel
    have hfull : secretBucket (recipients fiveKeys).card - (recipients fiveKeys).card ≤
        (∅ : Finset (Block 32)).card := by
      decide +kernel
    obtain ⟨fuel, -, hzeroed⟩ := (@exists_returns_encryptItems_iff Unit target64 sampleCrypto
      zeroRng () [] true sampleItems fiveKeys .none hitems (by decide +kernel)).mpr
        ⟨.inr (.inr ⟨hsecrets, ∅, hfull, fun block hblock => absurd hblock (by simp)⟩),
          fun _ => ⟨⟨_, rfl⟩, by decide, by decide⟩⟩
    exact ⟨fuel, hzeroed onlyZeros_zeroRng⟩

/-- A source stuck on zeros never ends the encryption of a valid item to one key,
however many draws it is given. -/
theorem encryptItems_zeroRng_not_returns :
    (sampleItems ≠ [] ∧ ∀ item ∈ sampleItems, ItemValid item) ∧
      (recipients [sampleKey]).card = 1 ∧
      ∀ fuel, ¬ (@encryptChacha20Poly1305V1Items Unit target64 fuel sampleCrypto zeroRng () []
        true sampleItems [sampleKey] .none).Returns := by
  have hone : (recipients [sampleKey]).card = 1 := by
    decide +kernel
  refine ⟨⟨by decide, itemValid_of_mem_sampleItems⟩, hone, fun fuel hreturns => ?_⟩
  have hbuild : @buildV1Payload target64 sampleItems .none =
      .ok [0x03, 0x00, 0x02, 0x68, 0x69] := by
    decide +kernel
  dsimp only [encryptChacha20Poly1305V1Items] at hreturns
  rw [hbuild, Exec.ok_bind, returns_encodeV1Backup_iff (by decide +kernel) (by decide)] at hreturns
  obtain ⟨-, hpad⟩ := hreturns
  have hlength : ((rawKeys [sampleKey]).toList.map
      (share sampleCrypto (backupSecret sampleCrypto [sampleKey]))).length = 1 := by
    rw [List.length_map, length_rawKeys, hone]
  rw [padIndividualSecrets_eq_unfinished (by rw [hlength]; decide) (by rw [hlength]; decide)
    fun i => rfl] at hpad
  obtain ⟨result, hok⟩ | ⟨cause, hfail⟩ := hpad
  · cases hok
  · cases hfail

end Bip138.Ll
