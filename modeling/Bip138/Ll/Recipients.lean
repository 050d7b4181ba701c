/-
# Recipients and stored paths

What a call of the encoder is about, told from its arguments alone: the finite set of its
keys without the NUMS point, the secret these keys share, and the finite set of the paths
that are written. The encoder collects both sets into sorted lists; here they are related
to what it was handed, so that a result can be stated without the encoder's own lists.
-/

import Bip138.Ll.Encrypt

namespace Bip138.Ll

open Bip138.Rust

/-- The keys a call encrypts to: those it is handed, but for the NUMS point. -/
def recipients (keys : List (Block 32)) : Finset (Block 32) :=
  keys.toFinset.erase numsXonly

/-- The paths a call writes: those it is handed, but for the common ones of both networks
unless these are to be stored. -/
def storedPaths (paths : List DerivationPath) (storeCommonPaths : Bool) :
    Finset DerivationPath :=
  if storeCommonPaths then paths.toFinset
  else paths.toFinset \ (commonDerivationPaths 0 ++ commonDerivationPaths 1).toFinset

/-- The recipients in increasing order. -/
def sortedRecipients (keys : List (Block 32)) : List (Block 32) := (recipients keys).sort

/-- The secret of some recipients: the tagged hash of their keys in increasing order. -/
def recipientsSecret (crypto : Crypto) (keys : List (Block 32)) : Block 32 :=
  taggedHash crypto decryptionSecretTag ((sortedRecipients keys).flatMap Subtype.val)

/-- The secret a backup stores for a key: the secret of all recipients under the mask of
this one. -/
def storedSecret (crypto : Crypto) (keys : List (Block 32)) (key : Block 32) : Block 32 :=
  Block.xor (recipientsSecret crypto keys) (individualHash crypto key)

section Keys

variable {crypto : Crypto} {keys : List (Block 32)} {key : Block 32}

@[simp]
theorem mem_recipients : key ∈ recipients keys ↔ key ∈ keys ∧ key ≠ numsXonly := by
  rw [recipients, Finset.mem_erase, List.mem_toFinset, and_comm]

theorem mem_rawKeys_iff_mem_recipients : key ∈ rawKeys keys ↔ key ∈ recipients keys := by
  rw [mem_rawKeys, mem_recipients]

@[simp]
theorem length_sortedRecipients : (sortedRecipients keys).length = (recipients keys).card :=
  Finset.length_sort _

/-- The encoder counts the recipients. -/
theorem length_rawKeys : (rawKeys keys).toList.length = (recipients keys).card :=
  BTreeSet.length_toList_eq_card fun _ => mem_rawKeys_iff_mem_recipients

/-- The encoder hashes the recipients. -/
theorem backupSecret_eq : backupSecret crypto keys = recipientsSecret crypto keys := by
  rw [backupSecret, decryptionSecret, sortDedup_eq, BTreeSet.collect_toList, recipientsSecret,
    BTreeSet.toList_eq_sort fun _ => mem_rawKeys_iff_mem_recipients, sortedRecipients]

theorem share_backupSecret :
    share crypto (backupSecret crypto keys) key = storedSecret crypto keys key := by
  rw [share, storedSecret, backupSecret_eq]

end Keys

section Paths

variable {paths : List DerivationPath} {storeCommonPaths : Bool} {path : DerivationPath}

@[simp]
theorem mem_storedPaths :
    path ∈ storedPaths paths storeCommonPaths ↔
      path ∈ paths ∧ (storeCommonPaths = true ∨
        path ∉ commonDerivationPaths 0 ∧ path ∉ commonDerivationPaths 1) := by
  cases storeCommonPaths <;> simp [storedPaths]

theorem mem_storedDerivationPaths_iff_mem_storedPaths :
    path ∈ storedDerivationPaths paths storeCommonPaths ↔
      path ∈ storedPaths paths storeCommonPaths := by
  have hfallback : path ∈ fallbackDerivationPathSet ↔
      path ∈ commonDerivationPaths 0 ∨ path ∈ commonDerivationPaths 1 := by
    rw [fallbackDerivationPathSet, BTreeSet.mem_extend, BTreeSet.mem_extend, or_assoc]
    exact or_iff_right (BTreeSet.not_mem_empty path)
  rw [mem_storedDerivationPaths, mem_storedPaths, hfallback, not_or]

/-- The encoder counts the stored paths. -/
theorem length_storedDerivationPaths :
    (storedDerivationPaths paths storeCommonPaths).toList.length =
      (storedPaths paths storeCommonPaths).card :=
  BTreeSet.length_toList_eq_card fun _ => mem_storedDerivationPaths_iff_mem_storedPaths

/-- The stored paths are written when a byte can count them and the steps of each. -/
theorem exists_encodeDerivationPaths_eq_ok_iff :
    (∃ word, encodeDerivationPaths (storedDerivationPaths paths storeCommonPaths).toList =
        .ok word) ↔
      (storedPaths paths storeCommonPaths).card ≤ 255 ∧
        ∀ path ∈ storedPaths paths storeCommonPaths, 1 ≤ path.length ∧ path.length ≤ 255 := by
  simp only [encodeDerivationPaths_eq_ok_iff, BTreeSet.collect_toList, pathTable_iff,
    length_storedDerivationPaths, BTreeSet.mem_toList,
    mem_storedDerivationPaths_iff_mem_storedPaths, Nat.one_le_iff_ne_zero, ne_eq,
    List.length_eq_zero_iff]
  constructor
  · rintro ⟨word, hlength, hpaths, -⟩
    exact ⟨hlength, hpaths⟩
  · rintro ⟨hlength, hpaths⟩
    exact ⟨_, hlength, hpaths, rfl⟩

end Paths

end Bip138.Ll
