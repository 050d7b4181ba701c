/-
# Every exclusion is reported

Three walks report the key expressions that do not become recipients: one over each
descriptor, in which the NUMS key takes precedence over any other reason, and one over the
pooled roots, when the exposed ones are dropped. Together they miss no expression and
report none that is a recipient.
-/

import Bip138.Front.Selection

namespace Bip138

open Bip138.Rust Bip138.Ll

/-- What is reported of a single expression when its descriptor is set. -/
inductive Filtered (key : DescriptorKey) : Warning → Prop
  | nums (hnums : xonlyOf key = bip341Nums) : Filtered key (.numsKey key)
  | disallowed (hother : xonlyOf key ≠ bip341Nums) (hderived : ∀ root, ¬ Derived key root) :
      Filtered key (.disallowedKeyExpression key)

theorem Derived.xonlyOf_eq {key : DescriptorKey} {root : PublicKey} (hderived : Derived key root) :
    xonlyOf key = root.x := by
  cases hderived <;> rfl

theorem Derived.dpkToRootPk_eq {key : DescriptorKey} {root : PublicKey}
    (hderived : Derived key root) : dpkToRootPk key = .ok root := by
  cases hderived <;> rfl

variable [Miniscript]

/-- The warnings of a descriptor are those of its expressions. -/
theorem mem_descrWarnings {descriptor : Descriptor} {warnings : List Warning} {warning : Warning}
    (hwarnings : descrWarnings descriptor = .ok warnings) :
    warning ∈ warnings ↔ ∃ key ∈ Miniscript.forEachKey descriptor, Filtered key warning := by
  cases hwarnings
  rw [descriptorKeys, foldl_iff (fun warnings => warning ∈ warnings)
    (fun key => Filtered key warning)]
  · simp
  · intro warnings key
    by_cases hnums : xonlyOf key = bip341Nums
    · rw [if_pos hnums, List.mem_append, List.mem_singleton]
      refine or_congr_right ⟨?_, ?_⟩
      · rintro rfl
        exact .nums hnums
      · rintro (_ | ⟨hother, -⟩)
        · rfl
        · exact absurd hnums hother
    · rw [if_neg hnums]
      rcases hkey : dpkToPk key with fault | root
      · have hderived : ∀ root, ¬ Derived key root := by
          intro root hroot
          rw [dpkToPk_eq_ok_iff.mpr hroot] at hkey
          cases hkey
        dsimp only
        rw [List.mem_append, List.mem_singleton]
        refine or_congr_right ⟨?_, ?_⟩
        · rintro rfl
          exact .disallowed hnums hderived
        · rintro (hsame | _)
          · exact absurd hsame hnums
          · rfl
      · have hroot := dpkToPk_eq_ok_iff.mp hkey
        refine (or_iff_left ?_).symm
        rintro (hsame | ⟨-, hderived⟩)
        · exact hnums hsame
        · exact hderived root hroot

variable {descriptors : List Descriptor}

/-- The warnings of the builder: those of the expressions, and one for each candidate root
that an expression of the list exposes. -/
theorem mem_getWarnings_ofDescriptors {warning : Warning} :
    warning ∈ (ofDescriptors descriptors).getWarnings ↔
      (∃ descriptor ∈ descriptors, ∃ key ∈ Miniscript.forEachKey descriptor, Filtered key warning) ∨
        ∃ root, HasCandidate descriptors root ∧ root.x ≠ bip341Nums ∧
          HasExposure descriptors root.x ∧ warning = .exposedRoot root := by
  have hgathered : warning ∈ (gathered descriptors).warnings ↔
      ∃ descriptor ∈ descriptors, ∃ key ∈ Miniscript.forEachKey descriptor,
        Filtered key warning := by
    have hpart : ∀ descriptor, warning ∈ (descriptorPart descriptor).warnings ↔
        ∃ key ∈ Miniscript.forEachKey descriptor, Filtered key warning := fun descriptor =>
      @mem_descrWarnings _ descriptor _ _ rfl
    simp only [gathered, EncryptedBackup.gather, EncryptedBackup.new, List.nil_append,
      List.flatMap_map, List.mem_flatMap, hpart]
  rw [EncryptedBackup.getWarnings, ofDescriptors]
  dsimp only
  rw [EncryptedBackup.mem_warnings_dropExposedKeys, hgathered]
  simp only [mem_keys_gathered, mem_exposedKeys_gathered, and_assoc]
  rfl

/-- No exclusion without a warning. An expression of a list of descriptors may encrypt and
has a root among the keys exactly when no warning names the expression or its root. -/
theorem mem_getKeys_iff_not_mem_getWarnings (descriptors : List Descriptor) :
    ∃ backup, EncryptedBackup.new.setPayloads (descriptors.map .ofDescriptor) = .ok backup ∧
      ∀ descriptor ∈ descriptors, ∀ key ∈ Miniscript.forEachKey descriptor,
        (∃ root, dpkToPk key = .ok root ∧ root ∈ backup.getKeys) ↔
          .numsKey key ∉ backup.getWarnings ∧
            .disallowedKeyExpression key ∉ backup.getWarnings ∧
            ∀ root, dpkToRootPk key = .ok root → .exposedRoot root ∉ backup.getWarnings := by
  refine ⟨ofDescriptors descriptors, setPayloads_ofDescriptor descriptors, ?_⟩
  intro descriptor hdescriptor key hkey
  have hfiltered : ∀ warning, Filtered key warning →
      warning ∈ (ofDescriptors descriptors).getWarnings := fun warning hwarning =>
    mem_getWarnings_ofDescriptors.mpr (.inl ⟨descriptor, hdescriptor, key, hkey, hwarning⟩)
  have hcandidate : ∀ root, Derived key root → HasCandidate descriptors root := fun root hroot =>
    ⟨descriptor, hdescriptor, key, hkey, hroot⟩
  simp only [dpkToPk_eq_ok_iff, EncryptedBackup.getKeys, mem_keys_ofDescriptors]
  constructor
  · rintro ⟨root, hroot, -, hnums, hclear⟩
    refine ⟨fun hwarned => ?_, fun hwarned => ?_, fun other hother hwarned => ?_⟩
    · rcases mem_getWarnings_ofDescriptors.mp hwarned with
        ⟨_, -, other, -, hother⟩ | ⟨_, -, -, -, hother⟩
      · cases hother with
        | nums hother => exact hnums (hroot.xonlyOf_eq ▸ hother)
      · cases hother
    · rcases mem_getWarnings_ofDescriptors.mp hwarned with
        ⟨_, -, other, -, hother⟩ | ⟨_, -, -, -, hother⟩
      · cases hother with
        | disallowed _ hderived => exact hderived root hroot
      · cases hother
    · rw [hroot.dpkToRootPk_eq, Except.ok.injEq] at hother
      rcases mem_getWarnings_ofDescriptors.mp hwarned with
        ⟨_, -, _, -, hother⟩ | ⟨exposed, -, -, hexposed, hsame⟩
      · cases hother
      · cases hsame
        rw [← hother] at hexposed
        exact hclear hexposed
  · rintro ⟨hnums, hdisallowed, hexposed⟩
    have hother : xonlyOf key ≠ bip341Nums := fun hsame => hnums (hfiltered _ (.nums hsame))
    obtain ⟨root, hroot⟩ : ∃ root, Derived key root := by
      by_contra hnone
      exact hdisallowed (hfiltered _ (.disallowed hother (not_exists.mp hnone)))
    have hx : root.x ≠ bip341Nums := hroot.xonlyOf_eq ▸ hother
    refine ⟨root, hroot, hcandidate root hroot, hx, fun hexposure => ?_⟩
    exact hexposed root hroot.dpkToRootPk_eq (mem_getWarnings_ofDescriptors.mpr
      (.inr ⟨root, hcandidate root hroot, hx, hexposure, rfl⟩))

end Bip138
