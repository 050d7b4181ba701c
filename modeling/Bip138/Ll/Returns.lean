/-
# Decoders come back

The parsers of a container take every byte they index or slice behind a check, and add
only offsets that a check has bounded, so on any input that fits into memory they return
a value or an error. The grammar of the container supplies the bounds: a field that was
read ends inside the input.
-/

import Bip138.Ll.ContainerGrammar

namespace Bip138.Ll

open Bip138.Rust Bip138.Wire

section Fields

variable [Target] {α : Type} {bytes : Bytes} {offset : ℕ}

theorem returns_incrementOffset {incr : ℕ} (hsum : offset + incr ≤ usizeMax) :
    (incrementOffset bytes offset incr).Returns :=
  (returns_add hsum).bind fun _ _ => returns_checkOffset.bind fun _ _ => Exec.returns_okOr _ _

/-- A field of a fixed width is sliced out behind a lookahead. -/
theorem returns_field {width : ℕ} {next : Bytes → Exec Error α}
    (hnext : ∀ raw, raw.length = width → offset + width ≤ bytes.length → (next raw).Returns) :
    (do
      checkOffsetLookahead offset bytes width
      let stop ← add offset width
      let raw ← slice bytes offset stop
      next raw).Returns := by
  refine returns_checkOffsetLookahead.bind fun _ hcheck => ?_
  obtain ⟨hsum, -, hinside⟩ := checkOffsetLookahead_eq_ok_iff.mp hcheck
  refine (returns_add hsum).bind fun stop hstop => ?_
  obtain ⟨-, rfl⟩ := add_eq_ok_iff.mp hstop
  refine (returns_slice (Nat.le_add_right _ _) hinside).bind fun raw hraw => ?_
  obtain ⟨-, -, rfl⟩ := slice_eq_ok_iff.mp hraw
  apply hnext _ _ hinside
  rw [List.length_take, List.length_drop]
  omega

end Fields

section Header

variable [Target] {bytes : Bytes}

omit [Target] in
theorem returns_parseMagicByte : (parseMagicByte bytes).Returns :=
  Exec.returns_ite (Exec.returns_fail _) (Exec.returns_ok _)

omit [Target] in
theorem returns_parseVersion : (parseVersion bytes).Returns := by
  rw [parseVersion]
  by_cases hempty : bytes = []
  · rw [if_pos hempty]
    exact Exec.returns_fail _
  · rw [if_neg hempty]
    refine (returns_index (List.length_pos_iff.mpr hempty)).bind fun version _ => ?_
    exact Exec.returns_ite (Exec.returns_fail _) (Exec.returns_ok _)

omit [Target] in
theorem returns_parseEncryption : (parseEncryption bytes).Returns := by
  rw [parseEncryption]
  by_cases hempty : bytes = []
  · rw [if_pos hempty]
    exact Exec.returns_fail _
  · rw [if_neg hempty]
    refine (returns_index (List.length_pos_iff.mpr hempty)).bind fun encryption _ => ?_
    exact Exec.returns_ite (Exec.returns_fail _) (Exec.returns_ok _)

theorem returns_parseChild (hfits : bytes.length ≤ isizeMax) (state : ℕ × DerivationPath) :
    (parseChild bytes state).Returns := by
  have husize := two_mul_isizeMax_lt_usizeMax
  refine returns_field fun raw hlength hinside => ?_
  refine (Block.returns_expect hlength).bind fun rawChild _ => ?_
  exact (returns_add (by omega)).bind fun _ _ => Exec.returns_ok _

theorem returns_parseDerivationPath (hfits : bytes.length ≤ isizeMax)
    (state : ℕ × BTreeSet DerivationPath) : (parseDerivationPath bytes state).Returns := by
  have husize := two_mul_isizeMax_lt_usizeMax
  obtain ⟨offset, paths⟩ := state
  refine returns_checkOffset.bind fun _ hcheck => ?_
  have hoffset := checkOffset_eq_ok_iff.mp hcheck
  refine (returns_index hoffset).bind fun childCount _ => ?_
  apply Exec.returns_ite (Exec.returns_fail _)
  refine (returns_add (by omega)).bind fun next _ => ?_
  refine Exec.Returns.bind ?_ fun _ _ => Exec.returns_ok _
  exact forRange_returns (fun _ => True) (fun state _ => returns_parseChild hfits state)
    (fun _ _ _ _ => trivial) trivial

theorem returns_parseDerivationPaths (hfits : bytes.length ≤ isizeMax) :
    (parseDerivationPaths bytes).Returns := by
  have husize := two_mul_isizeMax_lt_usizeMax
  refine (returns_initOffset.mapErr _).bind fun offset hinit => ?_
  rw [Exec.mapErr_eq_ok_iff, initOffset_eq_ok_iff] at hinit
  obtain ⟨hpos, rfl⟩ := hinit
  refine (returns_index hpos).bind fun count _ => ?_
  apply Exec.returns_ite
  · refine (returns_incrementOffset (by omega)).bind fun start _ => ?_
    refine Exec.Returns.bind ?_ fun _ _ => Exec.returns_ok _
    exact forRange_returns (fun _ => True) (fun state _ => returns_parseDerivationPath hfits state)
      (fun _ _ _ _ => trivial) trivial
  · exact (returns_add (by omega)).bind fun _ _ => Exec.returns_ok _

theorem returns_parseIndividualSecret (hfits : bytes.length ≤ isizeMax)
    (state : ℕ × BTreeSet (Block 32)) : (parseIndividualSecret bytes state).Returns := by
  have husize := two_mul_isizeMax_lt_usizeMax
  refine returns_field fun raw _ hinside => ?_
  refine (Exec.returns_okOr _ _).bind fun secret _ => ?_
  exact (returns_add (by omega)).bind fun _ _ => Exec.returns_ok _

theorem returns_parseIndividualSecrets (hfits : bytes.length ≤ isizeMax) :
    (parseIndividualSecrets bytes).Returns := by
  rw [parseIndividualSecrets]
  by_cases hempty : bytes = []
  · rw [if_pos hempty]
    exact Exec.returns_fail _
  · rw [if_neg hempty]
    refine (returns_index (List.length_pos_iff.mpr hempty)).bind fun count _ => ?_
    apply Exec.returns_ite (Exec.returns_fail _)
    refine returns_initOffset.bind fun start _ => ?_
    refine Exec.Returns.bind ?_ fun _ _ => Exec.returns_ok _
    exact forRange_returns (fun _ => True)
      (fun state _ => returns_parseIndividualSecret hfits state) (fun _ _ _ _ => trivial) trivial

omit [Target] in
/-- The rest of the input behind an offset that a check has bounded. -/
theorem returns_tail {β : Type} {offset : ℕ} {next : Bytes → Exec Error β}
    (hoffset : offset < bytes.length) (hnext : (next (bytes.drop offset)).Returns) :
    (sliceFrom bytes offset >>= next).Returns := by
  refine (returns_sliceFrom hoffset.le).bind fun tail htail => ?_
  obtain ⟨-, rfl⟩ := sliceFrom_eq_ok_iff.mp htail
  exact hnext

/-- The offset behind what was read of the rest of the input. -/
theorem returns_behind {β : Type} {offset incr : ℕ} {next : ℕ → Exec Error β}
    (hfits : bytes.length ≤ isizeMax) (hoffset : offset < bytes.length)
    (hincr : incr ≤ (bytes.drop offset).length)
    (hnext : ∀ later, later < bytes.length → (next later).Returns) :
    (incrementOffset bytes offset incr >>= next).Returns := by
  have husize := two_mul_isizeMax_lt_usizeMax
  rw [List.length_drop] at hincr
  refine (returns_incrementOffset (by omega)).bind fun later hlater => ?_
  obtain ⟨-, hinside, rfl⟩ := incrementOffset_eq_ok_iff.mp hlater
  exact hnext _ hinside

theorem returns_parseV1Header (hfits : bytes.length ≤ isizeMax) : (parseV1Header bytes).Returns := by
  have hshort : ∀ offset, (bytes.drop offset).length ≤ isizeMax := by
    intro offset
    rw [List.length_drop]
    omega
  refine returns_parseMagicByte.bind fun start _ => ?_
  refine returns_initOffset.bind fun offset hinit => ?_
  obtain ⟨hoffset, rfl⟩ := initOffset_eq_ok_iff.mp hinit
  refine returns_tail hoffset (returns_parseVersion.bind fun version hversion => ?_)
  obtain ⟨incr, version⟩ := version
  obtain ⟨hbyte, -, rfl⟩ := parseVersion_eq_ok_iff.mp hversion
  refine returns_behind hfits hoffset (List.getElem?_eq_some_iff.mp hbyte).1 fun offset hoffset => ?_
  refine returns_tail hoffset ((returns_parseDerivationPaths (hshort _)).bind fun paths hpaths => ?_)
  obtain ⟨incr, paths⟩ := paths
  obtain ⟨records, hreads, -⟩ := (parseDerivationPaths_eq_ok_iff (hshort _)).mp hpaths
  refine returns_behind hfits hoffset hreads.stop_le fun offset hoffset => ?_
  refine returns_tail hoffset
    ((returns_parseIndividualSecrets (hshort _)).bind fun secrets hsecrets => ?_)
  obtain ⟨incr, secrets⟩ := secrets
  obtain ⟨blocks, hreads, -⟩ := (parseIndividualSecrets_eq_ok_iff (hshort _)).mp hsecrets
  refine returns_behind hfits hoffset hreads.stop_le fun offset hoffset => ?_
  refine returns_tail hoffset (returns_parseEncryption.bind fun encryption hencryption => ?_)
  obtain ⟨incr, encryption⟩ := encryption
  have hincr := (parseEncryption_eq_ok_iff.mp hencryption).stop_le
  exact returns_behind hfits hoffset hincr fun offset _ => Exec.returns_ok _

end Header

section Container

variable [Target] {bytes : Bytes}

theorem returns_parseEncryptedPayload (hfits : bytes.length ≤ isizeMax) :
    (parseEncryptedPayload bytes).Returns := by
  have husize := two_mul_isizeMax_lt_usizeMax
  refine returns_initOffset.bind fun start hinit => ?_
  obtain ⟨hpos, rfl⟩ := initOffset_eq_ok_iff.mp hinit
  refine returns_field fun raw hlength hinside => ?_
  refine (Block.returns_expect hlength).bind fun nonce _ => ?_
  apply Exec.returns_ite (Exec.returns_fail _)
  refine (returns_incrementOffset (by omega)).bind fun later hlater => ?_
  obtain ⟨-, hinside, rfl⟩ := incrementOffset_eq_ok_iff.mp hlater
  apply returns_tail hinside
  refine (Exec.returns_okOr _ _).bind fun size _ => ?_
  refine (Exec.returns_okOr _ _).bind fun dataLen _ => ?_
  refine (Exec.returns_okOr _ _).bind fun first _ => ?_
  exact returns_field fun cyphertext _ _ => Exec.returns_ok _

theorem returns_decodeV1 (hfits : bytes.length ≤ isizeMax) : (decodeV1 bytes).Returns := by
  refine (returns_parseV1Header hfits).bind fun header hheader => ?_
  obtain ⟨offset, paths, secrets, encryption⟩ := header
  obtain ⟨-, -, -, hoffset, -⟩ := (parseV1Header_eq_ok_iff hfits).mp hheader
  refine (returns_sliceFrom hoffset.le).bind fun tail htail => ?_
  obtain ⟨-, rfl⟩ := sliceFrom_eq_ok_iff.mp htail
  refine Exec.Returns.bind (returns_parseEncryptedPayload ?_) fun _ _ => Exec.returns_ok _
  rw [List.length_drop]
  omega

end Container

end Bip138.Ll
