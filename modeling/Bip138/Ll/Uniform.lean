/-
# What an encoding depends on

Two statements about pairs of runs. The encoder with supplied decoys is a function of
sets: it does not see the order of its keys, paths and decoys, the repetitions among
the first two, the NUMS key, or a common path it does not store. And the encoder with
a random source is the one with supplied decoys, run on what it drew.

Both entry points hand `encodeV1Backup` a function that pads. A backup depends on that
function only through the encoded table of the padded shares (`encodeV1Backup_congr`),
and the table is sorted.
-/

import Bip138.Ll.Termination

namespace Bip138.Ll

open Bip138.Rust Bip138.Wire

variable {ρ : Type}

/-- Keys that agree but for the NUMS point are the same key set. -/
theorem rawKeys_congr {keys keys' : List (Block 32)}
    (hkeys : ∀ key, key ≠ numsXonly → (key ∈ keys ↔ key ∈ keys')) :
    rawKeys keys = rawKeys keys' := by
  apply BTreeSet.ext_mem
  intro key
  rw [mem_rawKeys, mem_rawKeys]
  exact and_congr_left (hkeys key)

/-- Paths that agree but for the common ones, when these are not stored, are stored
alike. -/
theorem storedDerivationPaths_congr {paths paths' : List DerivationPath} {storeCommonPaths : Bool}
    (hpaths : ∀ path, storeCommonPaths = true ∨ path ∉ fallbackDerivationPathSet →
      (path ∈ paths ↔ path ∈ paths')) :
    storedDerivationPaths paths storeCommonPaths = storedDerivationPaths paths' storeCommonPaths := by
  apply BTreeSet.ext_mem
  intro path
  rw [mem_storedDerivationPaths, mem_storedDerivationPaths]
  exact and_congr_left (hpaths path)

/-- The table of secrets does not show their order. -/
theorem encodeIndividualSecrets_congr {secrets secrets' : List (Block 32)}
    (hmem : ∀ secret, secret ∈ secrets ↔ secret ∈ secrets') :
    encodeIndividualSecrets secrets = encodeIndividualSecrets secrets' := by
  dsimp only [encodeIndividualSecrets]
  rw [sortDedup_eq, sortDedup_eq, BTreeSet.collect_congr hmem]

section Backup

variable {crypto : Crypto} {paths paths' : List DerivationPath} {storeCommonPaths : Bool}
  {keys keys' : List (Block 32)} {payload : Bytes} {nonce : Block 12}
  {pad pad' : List (Block 32) → Exec Error (List (Block 32))}

/-- The shares a call computes, in the order of their keys. -/
def shares (crypto : Crypto) (keys : List (Block 32)) : List (Block 32) :=
  (rawKeys keys).toList.map (share crypto (backupSecret crypto keys))

/-- A backup is determined by its key set, its stored paths and the table that is made
of the padded shares. -/
theorem encodeV1Backup_congr (hkeys : rawKeys keys = rawKeys keys')
    (hpaths : storedDerivationPaths paths storeCommonPaths =
      storedDerivationPaths paths' storeCommonPaths)
    (hpad : (pad (shares crypto keys) >>= encodeIndividualSecrets) =
      (pad' (shares crypto keys) >>= encodeIndividualSecrets)) :
    encodeV1Backup crypto paths storeCommonPaths keys payload nonce pad =
      encodeV1Backup crypto paths' storeCommonPaths keys' payload nonce pad' := by
  dsimp only [encodeV1Backup]
  rw [← hkeys, ← hpaths]
  rcases hsecrets : individualSecrets crypto (decryptionSecret crypto (rawKeys keys).toList)
      (rawKeys keys).toList with fault | secrets
  · rfl
  · obtain ⟨-, rfl⟩ := (individualSecrets_eq_ok_iff crypto).mp hsecrets
    have htable := hpad
    dsimp only [shares, backupSecret] at htable
    dsimp only [Exec.ok_bind, backupSecret]
    rw [← bind_assoc, ← bind_assoc, htable]

end Backup

section Supplied

variable {decoys decoys' secrets : List (Block 32)}

/-- Pushing decoys either appends all of them or ends with the one error. -/
private theorem foldlM_pushDecoy_cases (decoys secrets : List (Block 32)) :
    decoys.foldlM pushDecoy secrets = .ok (secrets ++ decoys) ∨
      decoys.foldlM pushDecoy secrets = .fail .individualSecretsLength := by
  induction decoys generalizing secrets with
  | nil =>
      left
      rw [List.append_nil]
      rfl
  | cons decoy decoys ih =>
      rw [List.foldlM_cons, pushDecoy]
      split
      · right
        rfl
      · have hrest := ih (secrets ++ [decoy])
        rw [List.append_assoc, List.singleton_append] at hrest
        exact hrest

/-- Supplied decoys are appended or refused, and they are refused with one error. -/
theorem padIndividualSecretsWithDecoys_cases (decoys secrets : List (Block 32)) :
    padIndividualSecretsWithDecoys decoys secrets = .ok (secrets ++ decoys) ∨
      padIndividualSecretsWithDecoys decoys secrets = .fail .individualSecretsLength := by
  by_cases hlength : secrets.length ≤ u8Max
  · rw [padIndividualSecretsWithDecoys, doublingBucket_eq hlength, Exec.ok_bind, sub,
      if_pos (le_secretBucket hlength), Exec.ok_bind]
    split
    · right
      rfl
    · exact foldlM_pushDecoy_cases decoys secrets
  · right
    rw [padIndividualSecretsWithDecoys, doublingBucket, if_pos (not_le.mp hlength)]
    rfl

/-- Permuted decoys are accepted alike. -/
theorem padIndividualSecretsWithDecoys_eq_ok_of_perm (hdecoys : decoys.Perm decoys')
    (hpad : padIndividualSecretsWithDecoys decoys secrets = .ok (secrets ++ decoys)) :
    padIndividualSecretsWithDecoys decoys' secrets = .ok (secrets ++ decoys') := by
  obtain ⟨hlength, hcount, hnew, hnodup, -⟩ := padIndividualSecretsWithDecoys_eq_ok_iff.mp hpad
  apply padIndividualSecretsWithDecoys_eq_ok_iff.mpr
  refine ⟨hlength, ?_, fun decoy hdecoy => ?_, hdecoys.nodup hnodup, rfl⟩
  · rw [← hdecoys.length_eq]
    exact hcount
  · exact hnew decoy (hdecoys.mem_iff.mpr hdecoy)

/-- The table of the padded shares does not show the order of the decoys, and neither
does the error when there is none. -/
theorem table_congr_of_perm (hdecoys : decoys.Perm decoys') (secrets : List (Block 32)) :
    (padIndividualSecretsWithDecoys decoys secrets >>= encodeIndividualSecrets) =
      (padIndividualSecretsWithDecoys decoys' secrets >>= encodeIndividualSecrets) := by
  rcases padIndividualSecretsWithDecoys_cases decoys secrets with hok | hfail
  · have hok' := padIndividualSecretsWithDecoys_eq_ok_of_perm hdecoys hok
    rw [hok, hok', Exec.ok_bind, Exec.ok_bind]
    apply encodeIndividualSecrets_congr
    intro secret
    rw [List.mem_append, List.mem_append, hdecoys.mem_iff]
  · rcases padIndividualSecretsWithDecoys_cases decoys' secrets with hok' | hfail'
    · have hok := padIndividualSecretsWithDecoys_eq_ok_of_perm hdecoys.symm hok'
      rw [hfail] at hok
      exact absurd hok (Exec.fail_ne_ok _ _)
    · rw [hfail, hfail']

end Supplied

section Sets

variable [Target] {crypto : Crypto} {paths paths' : List DerivationPath} {storeCommonPaths : Bool}
  {items : List (Content × Bytes)} {keys keys' decoys decoys' : List (Block 32)}
  {padding : Padding} {nonce : Block 12}

/-- Keys that agree but for the NUMS point, paths that agree, but for the common ones
when these are not stored, and permuted decoys give the same backup or the same
error. -/
theorem encryptItemsWithDecoys_congr
    (hkeys : ∀ key, key ≠ numsXonly → (key ∈ keys ↔ key ∈ keys'))
    (hpaths : ∀ path, storeCommonPaths = true ∨
        path ∉ commonDerivationPaths 0 ∧ path ∉ commonDerivationPaths 1 →
      (path ∈ paths ↔ path ∈ paths'))
    (hdecoys : decoys.Perm decoys') :
    encryptChacha20Poly1305V1ItemsWithDecoys crypto paths storeCommonPaths items keys padding nonce
        decoys =
      encryptChacha20Poly1305V1ItemsWithDecoys crypto paths' storeCommonPaths items keys' padding
        nonce decoys' := by
  have hstored : storedDerivationPaths paths storeCommonPaths =
      storedDerivationPaths paths' storeCommonPaths := by
    apply storedDerivationPaths_congr
    intro path hpath
    apply hpaths path
    simpa [fallbackDerivationPathSet] using hpath
  unfold encryptChacha20Poly1305V1ItemsWithDecoys
  congr 1
  funext payload
  exact encodeV1Backup_congr (rawKeys_congr hkeys) hstored
    (table_congr_of_perm hdecoys (shares crypto keys))

end Sets

/-- Repeating the key, adding the NUMS point and a common path, and reversing the
decoys leaves the sample run as it is. -/
theorem encryptItemsWithDecoys_congr_sample :
    @encryptChacha20Poly1305V1ItemsWithDecoys target64 sampleCrypto samplePaths false sampleItems
        [sampleKey, numsXonly, sampleKey] .none sampleNonce sampleDecoys.reverse =
      @encryptChacha20Poly1305V1ItemsWithDecoys target64 sampleCrypto [] false sampleItems
        [sampleKey] .none sampleNonce sampleDecoys := by
  apply @encryptItemsWithDecoys_congr target64
  · intro key hnums
    simp [hnums]
  · intro path hpath
    refine iff_of_false (fun hsample => ?_) List.not_mem_nil
    obtain rfl := List.mem_singleton.mp hsample
    revert hpath
    decide +kernel
  · exact List.reverse_perm sampleDecoys

section Random

variable [Target] {crypto : Crypto} {rng : Rng ρ} {source : ρ} {paths : List DerivationPath}
  {storeCommonPaths : Bool} {items : List (Content × Bytes)} {keys : List (Block 32)}
  {padding : Padding} {fuel : ℕ}

/-- A call gets as far as padding its shares: everything before that succeeds. -/
structure ReachesPadding (crypto : Crypto) (paths : List DerivationPath) (storeCommonPaths : Bool)
    (items : List (Content × Bytes)) (keys : List (Block 32)) (padding : Padding) : Prop where
  payload : ∃ payload, buildV1Payload items padding = .ok payload
  keyCount : (rawKeys keys).toList ≠ [] ∧ (rawKeys keys).toList.length ≤ u8Max
  pathCount : (storedDerivationPaths paths storeCommonPaths).toList.length ≤ u8Max
  shares : ∀ key ∈ rawKeys keys, share crypto (backupSecret crypto keys) key ≠ .zero 32

omit [Target] in
/-- What the padding loop accepts from the source, the other function accepts from
the caller. -/
theorem padIndividualSecretsWithDecoys_of_padIndividualSecrets {secrets padded : List (Block 32)}
    (hpad : padIndividualSecrets rng fuel source secrets = .ok padded) :
    ∃ decoys, padded = secrets ++ decoys ∧
      padIndividualSecretsWithDecoys decoys secrets = .ok padded := by
  obtain ⟨target, htarget, hloop⟩ := Exec.bind_eq_ok_iff.mp hpad
  obtain ⟨hlength, rfl⟩ := doublingBucket_eq_ok_iff.mp htarget
  rw [padIndividualSecretsStep_eq] at hloop
  obtain ⟨decoys, hpadded, hcount, hnodup, hfresh⟩ := collect_eq_ok hloop
  refine ⟨decoys, hpadded, padIndividualSecretsWithDecoys_eq_ok_iff.mpr
    ⟨hlength, hcount, fun decoy hdecoy => ?_, hnodup, hpadded⟩⟩
  obtain ⟨hnonzero, hnew, -⟩ := hfresh decoy hdecoy
  exact ⟨hnonzero, hnew⟩

omit [Target] in
/-- A backup that is refused before its shares are padded is refused alike however
they would be padded. -/
theorem encodeV1Backup_eq_of_refused {payload : Bytes} {nonce : Block 12}
    (hrefused : ¬ (((rawKeys keys).toList ≠ [] ∧ (rawKeys keys).toList.length ≤ u8Max) ∧
      (storedDerivationPaths paths storeCommonPaths).toList.length ≤ u8Max ∧
      ∀ key ∈ rawKeys keys, share crypto (backupSecret crypto keys) key ≠ .zero 32))
    (pad pad' : List (Block 32) → Exec Error (List (Block 32))) :
    encodeV1Backup crypto paths storeCommonPaths keys payload nonce pad =
      encodeV1Backup crypto paths storeCommonPaths keys payload nonce pad' := by
  dsimp only [encodeV1Backup]
  split
  · rfl
  · rename_i hcount
    rw [not_or, not_lt] at hcount
    split
    · rfl
    · rename_i hshort
      rcases hsecrets : individualSecrets crypto
          (decryptionSecret crypto (rawKeys keys).toList) (rawKeys keys).toList with fault | secrets
      · rfl
      · obtain ⟨hshares, -⟩ := (individualSecrets_eq_ok_iff crypto).mp hsecrets
        exact absurd ⟨⟨hcount.2, hcount.1⟩, not_lt.mp hshort, hshares⟩ hrefused

omit [Target] in
/-- A call that reaches the padding ends as the padding does when that fails. -/
theorem encodeV1Backup_eq_error {payload : Bytes} {nonce : Block 12} {fault : Fault Error}
    {pad : List (Block 32) → Exec Error (List (Block 32))}
    (hcount : (rawKeys keys).toList ≠ [] ∧ (rawKeys keys).toList.length ≤ u8Max)
    (hpaths : (storedDerivationPaths paths storeCommonPaths).toList.length ≤ u8Max)
    (hshares : ∀ key ∈ rawKeys keys, share crypto (backupSecret crypto keys) key ≠ .zero 32)
    (hpad : pad (shares crypto keys) = .error fault) :
    encodeV1Backup crypto paths storeCommonPaths keys payload nonce pad = .error fault := by
  rw [shares] at hpad
  rw [encodeV1Backup_eq_bind_pad hcount hpaths hshares, hpad]
  rfl

omit [Target] in
/-- A backup that is padded from a source is the one that is padded with blocks the source
yields, when the padding ends. -/
theorem exists_encodeV1Backup_eq_supplied {payload : Bytes} {nonce : Block 12}
    (hends : encodeV1Backup crypto paths storeCommonPaths keys payload nonce
      (padIndividualSecrets rng fuel source) ≠ .error .unfinished) :
    ∃ decoys,
      (∀ decoy ∈ decoys, ∃ i, drawn (rng.fillBytes 32) source i = decoy) ∧
      encodeV1Backup crypto paths storeCommonPaths keys payload nonce
          (padIndividualSecrets rng fuel source) =
        encodeV1Backup crypto paths storeCommonPaths keys payload nonce
          (padIndividualSecretsWithDecoys decoys) := by
  by_cases hreaches : ((rawKeys keys).toList ≠ [] ∧ (rawKeys keys).toList.length ≤ u8Max) ∧
      (storedDerivationPaths paths storeCommonPaths).toList.length ≤ u8Max ∧
      ∀ key ∈ rawKeys keys, share crypto (backupSecret crypto keys) key ≠ .zero 32
  · obtain ⟨hcount, hpaths, hshares⟩ := hreaches
    rcases hpad : padIndividualSecrets rng fuel source (shares crypto keys) with fault | padded
    · -- the bucket exists, so the padding can only have run out of fuel
      have hlength : (shares crypto keys).length ≤ u8Max := by
        rw [shares, List.length_map]
        exact hcount.2
      refine absurd (encodeV1Backup_eq_error hcount hpaths hshares ?_) hends
      rw [padIndividualSecrets, doublingBucket_eq hlength, Exec.ok_bind,
        padIndividualSecretsStep_eq] at hpad ⊢
      refine (collect_cases _ _ _).resolve_left fun hpads => ?_
      obtain ⟨padded, hpadded⟩ := hpads
      rw [hpadded] at hpad
      cases hpad
    · obtain ⟨decoys, hpadded, hsupplied⟩ :=
        padIndividualSecretsWithDecoys_of_padIndividualSecrets hpad
      obtain ⟨-, -, hnew, -⟩ := padIndividualSecretsWithDecoys_eq_ok_iff.mp hsupplied
      refine ⟨decoys, fun decoy hdecoy => ?_, encodeV1Backup_congr rfl rfl ?_⟩
      · have hdrawn := mem_or_drawn_of_padIndividualSecrets hpad decoy
          (hpadded ▸ List.mem_append_right _ hdecoy)
        exact hdrawn.resolve_left (hnew decoy hdecoy).2
      · rw [hpad, hsupplied]
  · exact ⟨[], fun _ hdecoy => absurd hdecoy List.not_mem_nil,
      encodeV1Backup_eq_of_refused hreaches _ _⟩

/-- Encryption with a random source that ends is encryption with the nonce drawn from
it and, as decoys, the blocks the padding loop accepted; if the call does not get as
far as the padding, any decoys do. -/
theorem encryptItems_eq_encryptItemsWithDecoys
    (hends : encryptChacha20Poly1305V1Items fuel crypto rng source paths storeCommonPaths items keys
      padding ≠ .error .unfinished) :
    (ReachesPadding crypto paths storeCommonPaths items keys padding →
      ∃ decoys,
        padIndividualSecrets rng fuel (drawNonce rng source).2 (shares crypto keys) =
          .ok (shares crypto keys ++ decoys) ∧
        encryptChacha20Poly1305V1Items fuel crypto rng source paths storeCommonPaths items keys
            padding =
          encryptChacha20Poly1305V1ItemsWithDecoys crypto paths storeCommonPaths items keys padding
            (drawNonce rng source).1 decoys) ∧
    (¬ ReachesPadding crypto paths storeCommonPaths items keys padding → ∀ decoys,
      encryptChacha20Poly1305V1Items fuel crypto rng source paths storeCommonPaths items keys
          padding =
        encryptChacha20Poly1305V1ItemsWithDecoys crypto paths storeCommonPaths items keys padding
          (drawNonce rng source).1 decoys) := by
  dsimp only [encryptChacha20Poly1305V1Items, encryptChacha20Poly1305V1ItemsWithDecoys] at hends ⊢
  refine ⟨fun hreaches => ?_, fun hrefused decoys => ?_⟩
  · obtain ⟨payload, hbuild⟩ := hreaches.payload
    rw [hbuild, Exec.ok_bind] at hends
    simp only [hbuild, Exec.ok_bind]
    obtain ⟨padded, hpad⟩ : ∃ padded, padIndividualSecrets rng fuel (drawNonce rng source).2
        (shares crypto keys) = .ok padded := by
      have hlength : (shares crypto keys).length ≤ u8Max := by
        rw [shares, List.length_map]
        exact hreaches.keyCount.2
      rw [padIndividualSecrets, doublingBucket_eq hlength, Exec.ok_bind, padIndividualSecretsStep_eq]
      apply (collect_cases _ _ _).resolve_right
      intro hunfinished
      apply hends
      apply encodeV1Backup_eq_error hreaches.keyCount hreaches.pathCount hreaches.shares
      rw [padIndividualSecrets, doublingBucket_eq hlength, Exec.ok_bind, padIndividualSecretsStep_eq]
      exact hunfinished
    obtain ⟨decoys, hpadded, hsupplied⟩ := padIndividualSecretsWithDecoys_of_padIndividualSecrets hpad
    refine ⟨decoys, by rw [hpad, hpadded], encodeV1Backup_congr rfl rfl ?_⟩
    rw [hpad, hsupplied]
  · rcases hbuild : buildV1Payload items padding with fault | payload
    · rfl
    · apply encodeV1Backup_eq_of_refused
      rintro ⟨hcount, hpaths, hshares⟩
      exact hrefused ⟨⟨payload, hbuild⟩, hcount, hpaths, hshares⟩

end Random

/-- The counting source supplies the decoys of the sample run. -/
theorem encryptItems_eq_encryptItemsWithDecoys_sample :
    (@ReachesPadding target64 sampleCrypto samplePaths true sampleItems [sampleKey] .none →
      ∃ decoys,
        padIndividualSecrets countingRng 10 (drawNonce countingRng 1).2
            (shares sampleCrypto [sampleKey]) =
          .ok (shares sampleCrypto [sampleKey] ++ decoys) ∧
        @encryptChacha20Poly1305V1Items ℕ target64 10 sampleCrypto countingRng 1 samplePaths true
            sampleItems [sampleKey] .none =
          @encryptChacha20Poly1305V1ItemsWithDecoys target64 sampleCrypto samplePaths true
            sampleItems [sampleKey] .none (drawNonce countingRng 1).1 decoys) ∧
    (¬ @ReachesPadding target64 sampleCrypto samplePaths true sampleItems [sampleKey] .none →
      ∀ decoys,
        @encryptChacha20Poly1305V1Items ℕ target64 10 sampleCrypto countingRng 1 samplePaths true
            sampleItems [sampleKey] .none =
          @encryptChacha20Poly1305V1ItemsWithDecoys target64 sampleCrypto samplePaths true
            sampleItems [sampleKey] .none (drawNonce countingRng 1).1 decoys) :=
  @encryptItems_eq_encryptItemsWithDecoys ℕ target64 sampleCrypto countingRng 1 samplePaths true
    sampleItems [sampleKey] .none 10 (by decide +kernel)

end Bip138.Ll
