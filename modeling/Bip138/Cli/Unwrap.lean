/-
# Unwrapping a backup level by level

The levels of `encrypt --keys`, from the innermost one outwards: they are encrypted when
every level is within the limits, and any key of a level then yields what the level
holds, down to the descriptor. The keys of the descriptor itself open no level that is not
theirs (`exists_encryptLevels_unwraps`).
-/

import Bip138.Cli.Levels

namespace Bip138.Cli

open Bip138.Rust Bip138.Ll

variable {ρ : Type}

/-! ## All levels -/

section Wrapping

variable [Target] [Miniscript] [SerdeJson] [Serde DescriptorBackup] [Serde PolicySet]
  [Serde PolicyBackup] {crypto : Crypto} {rng : Rng ρ} {fuel : ℕ} {msg : Option String}
  {descriptor : Descriptor} {levels : List (WrapLevel × ρ)} {encrypted : Encrypted}

/-- What the innermost level holds: its note, the message and the descriptor. -/
def WrapLevel.innerContents (level : WrapLevel) (msg : Option String) (descriptor : Descriptor) :
    List TypedPayload :=
  level.msg.toList.map .string ++ msg.toList.map .string ++ [.descriptor descriptor]

/-- What an outer level holds: its note and the level inside it. -/
def WrapLevel.outerContents (level : WrapLevel) (bytes : Bytes) : List TypedPayload :=
  level.msg.toList.map .string ++ [.bip138 bytes]

omit [Target] in
theorem descriptorPayloads_eq (level : WrapLevel) (msg : Option String) (descriptor : Descriptor) :
    descriptorPayloads level msg descriptor =
      (level.innerContents msg descriptor).map TypedPayload.toPayload := by
  simp [descriptorPayloads, WrapLevel.innerContents, TypedPayload.toPayload, Function.comp_def]

omit [Target] in
theorem wrapPayloads_eq (level : WrapLevel) (bytes : Bytes) :
    wrapPayloads level bytes = (level.outerContents bytes).map TypedPayload.toPayload := by
  simp [wrapPayloads, WrapLevel.outerContents, TypedPayload.toPayload, Function.comp_def]

omit [SerdeJson] [Serde DescriptorBackup] [Serde PolicySet] [Serde PolicyBackup] in
/-- More fuel than the levels needed changes nothing. -/
theorem encryptLevels_add_fuel
    (hencrypt : encryptLevels crypto rng fuel msg descriptor levels = .ok encrypted)
    (extra : ℕ) :
    encryptLevels crypto rng (fuel + extra) msg descriptor levels = .ok encrypted := by
  induction levels generalizing encrypted with
  | nil => cases hencrypt
  | cons first levels ih =>
      obtain ⟨level, source⟩ := first
      by_cases hempty : levels = []
      · subst hempty
        rw [encryptLevels_singleton] at hencrypt ⊢
        exact encryptToLevelKeys_add_fuel hencrypt extra
      · rw [encryptLevels_cons level source hempty] at hencrypt ⊢
        obtain ⟨inner, hinner, hencrypt⟩ := Exec.bind_eq_ok_iff.mp hencrypt
        rw [ih hinner, Exec.ok_bind]
        exact encryptToLevelKeys_add_fuel hencrypt extra

omit [SerdeJson] [Serde DescriptorBackup] [Serde PolicySet] [Serde PolicyBackup] in
/-- What the levels come to is what the outermost of them is encrypted to. -/
theorem exists_encryptToLevelKeys_of_encryptLevels
    (hencrypt : encryptLevels crypto rng fuel msg descriptor levels = .ok encrypted) :
    ∃ level source payloads,
      encryptToLevelKeys crypto (.drawn fuel rng source) level payloads = .ok encrypted := by
  cases levels with
  | nil => cases hencrypt
  | cons first levels =>
      obtain ⟨level, source⟩ := first
      by_cases hempty : levels = []
      · subst hempty
        rw [encryptLevels_singleton] at hencrypt
        exact ⟨level, source, _, hencrypt⟩
      · rw [encryptLevels_cons level source hempty] at hencrypt
        obtain ⟨inner, -, hencrypt⟩ := Exec.bind_eq_ok_iff.mp hencrypt
        exact ⟨level, source, _, hencrypt⟩

omit [SerdeJson] [Serde DescriptorBackup] [Serde PolicySet] [Serde PolicyBackup] in
theorem ne_nil_of_encryptLevels
    (hencrypt : encryptLevels crypto rng fuel msg descriptor levels = .ok encrypted) :
    encrypted.bytes ≠ [] := by
  obtain ⟨level, source, payloads, hlevel⟩ := exists_encryptToLevelKeys_of_encryptLevels hencrypt
  exact ne_nil_of_encryptToLevelKeys hlevel

omit [SerdeJson] [Serde DescriptorBackup] [Serde PolicySet] [Serde PolicyBackup] in
/-- All fuel that suffices gives the same backup. -/
theorem encryptLevels_unique {more : ℕ} {other : Encrypted}
    (hencrypt : encryptLevels crypto rng fuel msg descriptor levels = .ok encrypted)
    (hother : encryptLevels crypto rng more msg descriptor levels = .ok other) :
    encrypted = other := by
  have hsum := encryptLevels_add_fuel hencrypt more
  rw [Nat.add_comm, encryptLevels_add_fuel hother fuel] at hsum
  exact (Except.ok.inj hsum).symm

end Wrapping

/-! ## Encrypting the levels -/

section Storable

theorem storable_ofString {text : String} (hnonempty : text ≠ "")
    (hlength : (asBytes text).length ≤ u32Max) : Storable (.ofString text) where
  known := rfl
  contributes := ⟨⟨_, [], [], [], []⟩, ⟨_, rfl, rfl⟩, rfl, rfl, rfl, rfl⟩
  bytes bytes hbytes := by
    cases hbytes
    exact ⟨fun hempty => hnonempty (asBytes_eq_nil_iff.mp hempty), hlength⟩

theorem storable_ofBip138 {bytes : Bytes} (hnonempty : bytes ≠ [])
    (hlength : bytes.length ≤ u32Max) : Storable (.ofBip138 bytes) where
  known := rfl
  contributes := ⟨⟨_, [], [], [], []⟩, ⟨_, rfl, rfl⟩, rfl, rfl, rfl, rfl⟩
  bytes other hother := by
    cases hother
    exact ⟨hnonempty, hlength⟩

theorem storable_ofDescriptor [Miniscript] {descriptor : Descriptor}
    (hnonempty : descriptor.toString ≠ "")
    (hlength : (asBytes descriptor.toString).length ≤ u32Max) :
    Storable (.ofDescriptor descriptor) where
  known := rfl
  contributes := ⟨⟨_, _, _, _, _⟩, ⟨_, rfl, rfl⟩, rfl, rfl, rfl, rfl⟩
  bytes bytes hbytes := by
    cases hbytes
    exact ⟨fun hempty => hnonempty (asBytes_eq_nil_iff.mp hempty), hlength⟩

/-- The note of a level is stored, and exposes nothing. -/
theorem storable_note {level : WrapLevel} (hlevel : level.WellFormed) :
    ∀ payload ∈ level.msg.toList.map ToPayload.ofString,
      Storable payload ∧ payload.exposedKeys = [] := by
  intro payload hpayload
  obtain ⟨text, htext, rfl⟩ := List.mem_map.mp hpayload
  obtain ⟨hnonempty, hlength⟩ := hlevel.note text (Option.mem_toList.mp htext)
  exact ⟨storable_ofString hnonempty hlength, rfl⟩

/-- What an outer level holds is stored, and exposes nothing. -/
theorem storable_wrapPayloads {level : WrapLevel} {bytes : Bytes} (hlevel : level.WellFormed)
    (hnonempty : bytes ≠ []) (hlength : bytes.length ≤ u32Max) :
    ∀ payload ∈ wrapPayloads level bytes, Storable payload ∧ payload.exposedKeys = [] := by
  intro payload hpayload
  rcases List.mem_append.mp hpayload with hnote | hbackup
  · exact storable_note hlevel payload hnote
  · obtain rfl := List.mem_singleton.mp hbackup
    exact ⟨storable_ofBip138 hnonempty hlength, rfl⟩

/-- What the innermost level holds is stored, and only the descriptor may expose a key. -/
theorem storable_descriptorPayloads [Miniscript] {level : WrapLevel} {msg : Option String}
    {descriptor : Descriptor} (hlevel : level.WellFormed)
    (hmsg : ∀ text, msg = some text → text ≠ "" ∧ (asBytes text).length ≤ u32Max)
    (hdescriptor : descriptor.toString ≠ "" ∧ (asBytes descriptor.toString).length ≤ u32Max) :
    ∀ payload ∈ descriptorPayloads level msg descriptor, Storable payload ∧
      (payload.exposedKeys = [] ∨ payload = .ofDescriptor descriptor) := by
  intro payload hpayload
  rcases List.mem_append.mp hpayload with htexts | hlast
  · rcases List.mem_append.mp htexts with hnote | hmessage
    · obtain ⟨hstorable, hnone⟩ := storable_note hlevel payload hnote
      exact ⟨hstorable, .inl hnone⟩
    · obtain ⟨text, htext, rfl⟩ := List.mem_map.mp hmessage
      obtain ⟨hnonempty, hlength⟩ := hmsg text (Option.mem_toList.mp htext)
      exact ⟨storable_ofString hnonempty hlength, .inl rfl⟩
  · obtain rfl := List.mem_singleton.mp hlast
    exact ⟨storable_ofDescriptor hdescriptor.1 hdescriptor.2, .inr rfl⟩

end Storable

section Encrypting

variable [Target] [Miniscript] {crypto : Crypto} {rng : Rng ρ} {msg : Option String}
  {descriptor : Descriptor} {levels : List (WrapLevel × ρ)}

/-- The levels are within the limits, the message and the descriptor are worth storing,
no root of the innermost level is exposed by the descriptor, and every nested backup fits
the item it becomes. The provider and the random source work. -/
structure Wrappable (crypto : Crypto) (rng : Rng ρ) (msg : Option String)
    (descriptor : Descriptor) (levels : List (WrapLevel × ρ)) : Prop where
  wellFormed : ∀ level ∈ levels, level.1.WellFormed
  msgStored : ∀ text, msg = some text → text ≠ "" ∧ (asBytes text).length ≤ u32Max
  descriptorStored : descriptor.toString ≠ "" ∧ (asBytes descriptor.toString).length ≤ u32Max
  unexposed : ∀ inner ∈ levels.getLast?, ∀ root ∈ wrapLevelPublicKeys inner.1,
    xonly root ∉ descrExposedKeys descriptor
  nested : ∀ fuel rest encrypted, rest <:+ levels → rest ≠ levels →
    encryptLevels crypto rng fuel msg descriptor rest = .ok encrypted →
      encrypted.bytes.length ≤ u32Max
  cipher : ∀ secret nonce plaintext, ∃ cyphertext,
    crypto.aeadEncrypt secret nonce plaintext = some cyphertext ∧ cyphertext ≠ []
  served : ∀ level ∈ levels, level.1.Served crypto rng level.2

theorem Wrappable.tail {first : WrapLevel × ρ} (hlevels : levels ≠ [])
    (hwrappable : Wrappable crypto rng msg descriptor (first :: levels)) :
    Wrappable crypto rng msg descriptor levels where
  wellFormed := (List.forall_mem_cons.mp hwrappable.wellFormed).2
  msgStored := hwrappable.msgStored
  descriptorStored := hwrappable.descriptorStored
  unexposed := by
    obtain ⟨next, rest, rfl⟩ := List.exists_cons_of_ne_nil hlevels
    have hunexposed := hwrappable.unexposed
    rwa [List.getLast?_cons_cons] at hunexposed
  nested fuel rest encrypted hrest _ := by
    refine hwrappable.nested fuel rest encrypted (hrest.trans (List.suffix_cons _ _)) ?_
    rintro rfl
    have hlength := hrest.length_le
    rw [List.length_cons] at hlength
    omega
  cipher := hwrappable.cipher
  served := (List.forall_mem_cons.mp hwrappable.served).2

/-- Levels within the limits are encrypted, from the innermost one outwards. -/
theorem Wrappable.exists_encryptLevels_eq_ok (hlevels : levels ≠ [])
    (hwrappable : Wrappable crypto rng msg descriptor levels) :
    ∃ fuel encrypted, encryptLevels crypto rng fuel msg descriptor levels = .ok encrypted := by
  induction levels with
  | nil => exact absurd rfl hlevels
  | cons first levels ih =>
      obtain ⟨level, source⟩ := first
      have hlevel : level.WellFormed := hwrappable.wellFormed _ List.mem_cons_self
      have hserved : level.Served crypto rng source := hwrappable.served _ List.mem_cons_self
      by_cases hempty : levels = []
      · subst hempty
        have hcontents :=
          storable_descriptorPayloads hlevel hwrappable.msgStored hwrappable.descriptorStored
        simp only [encryptLevels_singleton]
        refine exists_encryptToLevelKeys_eq_ok hlevel hserved hwrappable.cipher
          (List.append_ne_nil_of_right_ne_nil _ (List.cons_ne_nil _ _))
          (fun payload hpayload => (hcontents payload hpayload).1)
          fun root hroot payload hpayload => ?_
        rcases (hcontents payload hpayload).2 with hnone | rfl
        · rw [hnone]
          exact List.not_mem_nil
        · exact hwrappable.unexposed (level, source) rfl root hroot
      · obtain ⟨fuel, inner, hinner⟩ := ih hempty (hwrappable.tail hempty)
        have hlength := hwrappable.nested fuel levels inner (List.suffix_cons _ _)
          (List.cons_ne_self _ _).symm hinner
        have hcontents := storable_wrapPayloads hlevel (ne_nil_of_encryptLevels hinner) hlength
        obtain ⟨more, encrypted, hencrypt⟩ := exists_encryptToLevelKeys_eq_ok hlevel hserved
          hwrappable.cipher (List.append_ne_nil_of_right_ne_nil _ (List.cons_ne_nil _ _))
          (fun payload hpayload => (hcontents payload hpayload).1) fun root _ payload hpayload => by
            rw [(hcontents payload hpayload).2]
            exact List.not_mem_nil
        refine ⟨fuel + more, encrypted, ?_⟩
        rw [encryptLevels_cons level source hempty, encryptLevels_add_fuel hinner, Exec.ok_bind,
          Nat.add_comm]
        exact encryptToLevelKeys_add_fuel hencrypt fuel

end Encrypting

/-! ## Unwrapping the levels -/

section Assumptions

variable [Target] [Miniscript] {crypto : Crypto} {rng : Rng ρ} {msg : Option String}
  {descriptor : Descriptor} {levels : List (WrapLevel × ρ)}

/-- The builder that is sealed at the outermost of the levels. -/
def Seals (crypto : Crypto) (rng : Rng ρ) (fuel : ℕ) (msg : Option String)
    (descriptor : Descriptor) : List (WrapLevel × ρ) → EncryptedBackup → Prop
  | [], _ => False
  | [(level, _)], backup => levelBackup level (descriptorPayloads level msg descriptor) = .ok backup
  | (level, _) :: next :: rest, backup =>
      ∃ inner, encryptLevels crypto rng fuel msg descriptor (next :: rest) = .ok inner ∧
        levelBackup level (wrapPayloads level inner.bytes) = .ok backup

/-- The descriptor is read as it is printed, every backup fits into memory, and the cipher
is ideal on what each level seals. -/
structure IdealRun (crypto : Crypto) (rng : Rng ρ) (msg : Option String)
    (descriptor : Descriptor) (levels : List (WrapLevel × ρ)) : Prop where
  parse : Descriptor.fromStr descriptor.toString = some descriptor
  fits : ∀ fuel rest encrypted, rest <:+ levels →
    encryptLevels crypto rng fuel msg descriptor rest = .ok encrypted →
      encrypted.bytes.length ≤ isizeMax
  sealing : ∀ fuel level source rest backup, (level, source) :: rest <:+ levels →
    Seals crypto rng fuel msg descriptor ((level, source) :: rest) backup →
      backup.IdealSealing crypto (.drawn fuel rng source)

theorem IdealRun.tail {first : WrapLevel × ρ}
    (hideal : IdealRun crypto rng msg descriptor (first :: levels)) :
    IdealRun crypto rng msg descriptor levels where
  parse := hideal.parse
  fits fuel rest encrypted hrest :=
    hideal.fits fuel rest encrypted (hrest.trans (List.suffix_cons _ _))
  sealing fuel level source rest backup hrest :=
    hideal.sealing fuel level source rest backup (hrest.trans (List.suffix_cons _ _))

/-- The key has the x-coordinate of a key expression of the descriptor. -/
def IsOwnKey (descriptor : Descriptor) (key : PublicKey) : Prop :=
  ∃ expression ∈ Miniscript.forEachKey descriptor, xonlyOf expression = xonly key

/-- The tagged hashes of the keys of the descriptor collide with none of a level, and no
decoy is the share of such a key. -/
structure OwnKeysApart (crypto : Crypto) (rng : Rng ρ) (descriptor : Descriptor)
    (levels : List (WrapLevel × ρ)) : Prop where
  hashes : ∀ level ∈ levels, ∀ key, IsOwnKey descriptor key →
    ∀ root ∈ wrapLevelPublicKeys level.1,
      individualHash crypto (xonly key) = individualHash crypto (xonly root) →
        xonly key = xonly root
  decoys : ∀ level ∈ levels, ∀ key, IsOwnKey descriptor key →
    xonly key ∉ level.1.xonlyRoots → ∀ i,
      drawn (rng.fillBytes 32) (drawNonce rng level.2).2 i ≠
        share crypto (backupSecret crypto level.1.xonlyRoots) (xonly key)

omit [Target] in
theorem OwnKeysApart.tail {first : WrapLevel × ρ}
    (happart : OwnKeysApart crypto rng descriptor (first :: levels)) :
    OwnKeysApart crypto rng descriptor levels where
  hashes := (List.forall_mem_cons.mp happart.hashes).2
  decoys := (List.forall_mem_cons.mp happart.decoys).2

omit [Target] in
theorem OwnKeysApart.head {first : WrapLevel × ρ}
    (happart : OwnKeysApart crypto rng descriptor (first :: levels)) :
    OwnKeysApart crypto rng descriptor [first] where
  hashes := List.forall_mem_singleton.mpr (List.forall_mem_cons.mp happart.hashes).1
  decoys := List.forall_mem_singleton.mpr (List.forall_mem_cons.mp happart.decoys).1

end Assumptions

section Unwrapping

variable [Target] [Base64] [Miniscript] [SerdeJson] [Serde DescriptorBackup] [Serde PolicySet]
  [Serde PolicyBackup] [V0] {crypto : Crypto} {rng : Rng ρ} {fuel : ℕ} {msg : Option String}
  {descriptor : Descriptor} {levels : List (WrapLevel × ρ)} {encrypted : Encrypted}

/-- Any one key of the level decrypts what it holds, and keys of the descriptor that are
not among those of the level do not. -/
structure WrapLevel.Opens (crypto : Crypto) (descriptor : Descriptor) (level : WrapLevel)
    (bytes : Bytes) (contents : List TypedPayload) : Prop where
  anyKey : ∀ key ∈ wrapLevelPublicKeys level, xonly key ≠ bip341Nums →
    EncryptedBackup.readBack crypto bytes [key] = .ok (contents.map TypedPayload.decrypted)
  noOther : ∀ keys ≠ [],
    (∀ key ∈ keys, IsOwnKey descriptor key ∧ xonly key ∉ level.xonlyRoots) →
      EncryptedBackup.readBack crypto bytes keys = .fail .wrongKey

/-- From the outermost level inwards, each level yields its note and the backup that the
levels inside it come to, and the innermost one its note, the message and the
descriptor. -/
def Unwraps (crypto : Crypto) (rng : Rng ρ) (fuel : ℕ) (msg : Option String)
    (descriptor : Descriptor) : List (WrapLevel × ρ) → Bytes → Prop
  | [], _ => False
  | [(level, _)], bytes =>
      level.Opens crypto descriptor bytes (level.innerContents msg descriptor)
  | (level, _) :: next :: rest, bytes =>
      ∃ inner, encryptLevels crypto rng fuel msg descriptor (next :: rest) = .ok inner ∧
        level.Opens crypto descriptor bytes (level.outerContents inner.bytes) ∧
        Unwraps crypto rng fuel msg descriptor (next :: rest) inner.bytes

/-- A level whose contents expose none of its roots opens to its keys only. -/
theorem opens_of_encryptToLevelKeys {level : WrapLevel} {source : ρ}
    {contents : List TypedPayload} (hreadable : ∀ payload ∈ contents, payload.Readable)
    (hencrypt : encryptToLevelKeys crypto (.drawn fuel rng source) level
      (contents.map TypedPayload.toPayload) = .ok encrypted)
    (hfits : encrypted.bytes.length ≤ isizeMax)
    (hideal : ∀ backup, levelBackup level (contents.map TypedPayload.toPayload) = .ok backup →
      backup.IdealSealing crypto (.drawn fuel rng source))
    (hunexposed : ∀ root ∈ wrapLevelPublicKeys level, ∀ payload ∈ contents,
      xonly root ∉ payload.toPayload.exposedKeys)
    (happart : OwnKeysApart crypto rng descriptor [(level, source)]) :
    level.Opens crypto descriptor encrypted.bytes contents where
  anyKey key hkey hnums := by
    refine readBack_encryptToLevelKeys hreadable hencrypt hfits hideal ⟨key, ?_⟩
    exact ⟨List.mem_singleton_self key, hkey, hunexposed key hkey, hnums⟩
  noOther keys hkeys hown := by
    refine readBack_encryptToLevelKeys_eq_wrongKey hencrypt hfits hideal ?_ hkeys ?_ ?_
    · intro root hroot
      rw [List.forall_mem_map]
      exact hunexposed root hroot
    · intro key hkey root hroot hequal
      obtain ⟨hexpression, hother⟩ := hown key hkey
      have hx := happart.hashes _ (List.mem_singleton_self _) key hexpression root hroot hequal
      rw [hx] at hother
      exact hother (List.mem_map_of_mem hroot)
    · intro key hkey
      obtain ⟨hexpression, hother⟩ := hown key hkey
      exact happart.decoys _ (List.mem_singleton_self _) key hexpression hother

omit [Target] [Base64] [V0] in
theorem readable_innerContents (level : WrapLevel) (msg : Option String)
    (hparse : Descriptor.fromStr descriptor.toString = some descriptor) :
    ∀ payload ∈ level.innerContents msg descriptor, payload.Readable := by
  intro payload hpayload
  rcases List.mem_append.mp hpayload with htexts | hlast
  · rw [← List.map_append] at htexts
    obtain ⟨text, -, rfl⟩ := List.mem_map.mp htexts
    trivial
  · obtain rfl := List.mem_singleton.mp hlast
    exact hparse

omit [Target] [Base64] [V0] in
theorem readable_outerContents (level : WrapLevel) (bytes : Bytes) :
    ∀ payload ∈ level.outerContents bytes, payload.Readable := by
  intro payload hpayload
  rcases List.mem_append.mp hpayload with hnote | hlast
  · obtain ⟨text, -, rfl⟩ := List.mem_map.mp hnote
    trivial
  · obtain rfl := List.mem_singleton.mp hlast
    trivial

omit [Target] [Base64] [V0] in
/-- The innermost level exposes what the descriptor does. -/
theorem unexposed_innerContents (level : WrapLevel) (msg : Option String) {x : Block 32}
    (hx : x ∉ descrExposedKeys descriptor) :
    ∀ payload ∈ level.innerContents msg descriptor, x ∉ payload.toPayload.exposedKeys := by
  intro payload hpayload
  rcases List.mem_append.mp hpayload with htexts | hlast
  · rw [← List.map_append] at htexts
    obtain ⟨text, -, rfl⟩ := List.mem_map.mp htexts
    exact List.not_mem_nil
  · obtain rfl := List.mem_singleton.mp hlast
    exact hx

omit [Target] [Base64] [V0] in
/-- An outer level exposes nothing. -/
theorem unexposed_outerContents (level : WrapLevel) (bytes : Bytes) (x : Block 32) :
    ∀ payload ∈ level.outerContents bytes, x ∉ payload.toPayload.exposedKeys := by
  intro payload hpayload
  rcases List.mem_append.mp hpayload with hnote | hlast
  · obtain ⟨text, -, rfl⟩ := List.mem_map.mp hnote
    exact List.not_mem_nil
  · obtain rfl := List.mem_singleton.mp hlast
    exact List.not_mem_nil

/-- The levels unwrap one by one, whenever they are encrypted. -/
theorem unwraps_of_encryptLevels (hideal : IdealRun crypto rng msg descriptor levels)
    (happart : OwnKeysApart crypto rng descriptor levels)
    (hunexposed : ∀ inner ∈ levels.getLast?, ∀ root ∈ wrapLevelPublicKeys inner.1,
      xonly root ∉ descrExposedKeys descriptor)
    (hencrypt : encryptLevels crypto rng fuel msg descriptor levels = .ok encrypted) :
    Unwraps crypto rng fuel msg descriptor levels encrypted.bytes := by
  induction levels generalizing encrypted with
  | nil => cases hencrypt
  | cons first levels ih =>
      obtain ⟨level, source⟩ := first
      have hfits := hideal.fits fuel _ encrypted List.suffix_rfl hencrypt
      have hsealing := fun backup =>
        hideal.sealing fuel level source levels backup List.suffix_rfl
      cases levels with
      | nil =>
          rw [encryptLevels_singleton, encryptDescriptorLevel, descriptorPayloads_eq] at hencrypt
          refine opens_of_encryptToLevelKeys (readable_innerContents level msg hideal.parse)
            hencrypt hfits (fun backup hbackup => hsealing backup ?_) ?_ happart
          · rw [← descriptorPayloads_eq] at hbackup
            exact hbackup
          · exact fun root hroot =>
              unexposed_innerContents level msg (hunexposed (level, source) rfl root hroot)
      | cons next rest =>
          rw [encryptLevels_cons level source (List.cons_ne_nil _ _)] at hencrypt
          obtain ⟨inner, hinner, hencrypt⟩ := Exec.bind_eq_ok_iff.mp hencrypt
          rw [encryptWrapLevel, wrapPayloads_eq] at hencrypt
          refine ⟨inner, hinner, ?_, ih hideal.tail happart.tail ?_ hinner⟩
          · refine opens_of_encryptToLevelKeys (readable_outerContents level inner.bytes) hencrypt
              hfits (fun backup hbackup => hsealing backup ⟨inner, hinner, ?_⟩) ?_ happart.head
            · rw [wrapPayloads_eq]
              exact hbackup
            · exact fun root _ => unexposed_outerContents level inner.bytes (xonly root)
          · rw [List.getLast?_cons_cons] at hunexposed
            exact hunexposed

/-- Nested levels unwrap one by one. Levels within the limits are encrypted from the
innermost one outwards, and any choice of one key for each level then leads from the
outermost level to the descriptor, while the keys of the descriptor open no level that
is not theirs. -/
theorem exists_encryptLevels_unwraps (hlevels : levels ≠ [])
    (hwrappable : Wrappable crypto rng msg descriptor levels)
    (hideal : IdealRun crypto rng msg descriptor levels)
    (happart : OwnKeysApart crypto rng descriptor levels) :
    ∃ fuel encrypted, encryptLevels crypto rng fuel msg descriptor levels = .ok encrypted ∧
      Unwraps crypto rng fuel msg descriptor levels encrypted.bytes := by
  obtain ⟨fuel, encrypted, hencrypt⟩ := hwrappable.exists_encryptLevels_eq_ok hlevels
  exact ⟨fuel, encrypted, hencrypt,
    unwraps_of_encryptLevels hideal happart hwrappable.unexposed hencrypt⟩

end Unwrapping

/-! ## Two levels -/

namespace Sample

open Bip138.Sample

/-- An extended key with an origin and this root. -/
def levelKey (root : PublicKey) : DescriptorKey :=
  .xPub ⟨some (masterFingerprint, accountPath), { xkey with publicKey := root }, [], .none⟩

/-- A level with one key. -/
def level (note : Option String) (root : PublicKey) : WrapLevel := ⟨note, [levelKey root]⟩

/-- Two levels. The outer one has a note if it is given one. -/
def levels (note : Option String) : List (WrapLevel × ℕ) :=
  [(level note byHand, 1), (level (some "inner") stranger, 101)]

theorem xonlyRoots_level (note : Option String) (root : PublicKey) :
    (level note root).xonlyRoots = [xonly root] := rfl

theorem wellFormed_level {note : Option String} {root : PublicKey}
    (hnote : ∀ text, note = some text → text ≠ "" ∧ (asBytes text).length ≤ u32Max)
    (hroot : (rawKeys [xonly root]).toList.length = 1) : (level note root).WellFormed where
  note := hnote
  origin key hkey := by
    obtain rfl := List.mem_singleton.mp hkey
    exact ⟨root, accountPath, rfl, rfl, by decide, by decide⟩
  roots := by
    rw [xonlyRoots_level, hroot]
    exact ⟨le_refl 1, by decide⟩
  paths := by
    show (wrapLevelDerivationPaths (level none byHand)).length ≤ 255
    decide +kernel

/-- The levels, each one from which they are encrypted, and what they come to. -/
theorem encryptLevels_levels :
    ∀ rest ∈ [levels none, levels (some "outer"), (levels none).tail],
      (encryptLevels sampleCrypto countingRng 5 (some "message") account rest).returnsWith
        (·.bytes.length ≤ 1000) = true := by
  decide +kernel

/-- What the suffixes of the levels come to. -/
theorem length_le_of_encryptLevels {note : Option String}
    (hnote : note = none ∨ note = some "outer") {fuel : ℕ} {rest : List (WrapLevel × ℕ)}
    {encrypted : Encrypted} (hrest : rest <:+ levels note)
    (hencrypt : encryptLevels sampleCrypto countingRng fuel (some "message") account rest =
      .ok encrypted) : encrypted.bytes.length ≤ 1000 := by
  have hcases : rest = [] ∨ rest ∈ [levels none, levels (some "outer"), (levels none).tail] := by
    rw [levels, List.suffix_cons_iff, List.suffix_cons_iff, List.suffix_nil] at hrest
    rcases hrest with rfl | rfl | rfl
    · rcases hnote with rfl | rfl
      · exact .inr List.mem_cons_self
      · exact .inr (List.mem_cons_of_mem _ List.mem_cons_self)
    · exact .inr (List.mem_cons_of_mem _ (List.mem_cons_of_mem _ List.mem_cons_self))
    · exact .inl rfl
  rcases hcases with rfl | hmem
  · cases hencrypt
  · obtain ⟨other, hother, hlength⟩ := Exec.exists_eq_ok _ _ (encryptLevels_levels rest hmem)
    rw [encryptLevels_unique hencrypt hother]
    exact of_decide_eq_true hlength

theorem wrappable_levels {note : Option String} (hnote : note = none ∨ note = some "outer") :
    Wrappable sampleCrypto countingRng (some "message") account (levels note) where
  wellFormed := by
    refine List.forall_mem_cons.mpr ⟨wellFormed_level (fun text htext => ?_) (by decide +kernel),
      List.forall_mem_singleton.mpr (wellFormed_level (fun text htext => ?_) (by decide +kernel))⟩
    · rcases hnote with rfl | rfl
      · cases htext
      · cases htext
        decide +kernel
    · cases htext
      decide +kernel
  msgStored text htext := by
    cases htext
    decide +kernel
  descriptorStored := by decide +kernel
  unexposed inner hinner root hroot := by
    cases hinner
    obtain rfl := List.mem_singleton.mp hroot
    decide +kernel
  nested fuel rest encrypted hrest _ hencrypt :=
    (length_le_of_encryptLevels hnote hrest hencrypt).trans (by decide)
  cipher := sampleCrypto_seals
  served := by
    refine List.forall_mem_cons.mpr ⟨⟨?_, ?_⟩, List.forall_mem_singleton.mpr ⟨?_, ?_⟩⟩
    · show ∀ key ∈ (rawKeys [xonly byHand]).toList,
        share sampleCrypto (backupSecret sampleCrypto [xonly byHand]) key ≠ .zero 32
      decide +kernel
    · show Serves sampleCrypto countingRng 1 [xonly byHand]
      exact serves_of_drawn 4 (by decide +kernel) (by decide +kernel) (by decide +kernel)
    · show ∀ key ∈ (rawKeys [xonly stranger]).toList,
        share sampleCrypto (backupSecret sampleCrypto [xonly stranger]) key ≠ .zero 32
      decide +kernel
    · show Serves sampleCrypto countingRng 101 [xonly stranger]
      exact serves_of_drawn 4 (by decide +kernel) (by decide +kernel) (by decide +kernel)

theorem idealRun_levels {note : Option String} (hnote : note = none ∨ note = some "outer") :
    IdealRun sampleCrypto countingRng (some "message") account (levels note) where
  parse := by decide +kernel
  fits fuel rest encrypted hrest hencrypt :=
    (length_le_of_encryptLevels hnote hrest hencrypt).trans (by decide +kernel)
  sealing _ _ _ _ _ _ _ _ _ payload _ := sampleCrypto_idealSealing_backupSecret _ _ payload

/-- A block of the counting source has one byte throughout, and a share is not like
that. -/
theorem drawn_ne_share (source i : ℕ) {secret key : Block 32}
    (hshare : (share sampleCrypto secret key).1[1]? = some 0)
    (hnonzero : share sampleCrypto secret key ≠ .zero 32) :
    drawn (countingRng.fillBytes 32) source i ≠ share sampleCrypto secret key := by
  intro hequal
  obtain ⟨byte, hbyte⟩ : ∃ byte, (drawn (countingRng.fillBytes 32) source i).1 =
      List.replicate 32 byte := ⟨_, rfl⟩
  rw [← hequal, hbyte] at hshare
  have hzero : byte = 0 := Option.some.inj hshare
  apply hnonzero
  rw [← hequal]
  apply Subtype.ext
  rw [hbyte, hzero]
  rfl

theorem ownKeysApart_levels (note : Option String) :
    OwnKeysApart sampleCrypto countingRng account (levels note) where
  hashes := by
    refine List.forall_mem_cons.mpr ⟨?_, List.forall_mem_singleton.mpr ?_⟩
    · rintro key ⟨expression, hexpression, hx⟩ other hother hequal
      obtain rfl := List.mem_singleton.mp hexpression
      obtain rfl := List.mem_singleton.mp hother
      rw [← hx] at hequal
      exact absurd hequal (by decide +kernel)
    · rintro key ⟨expression, hexpression, hx⟩ other hother hequal
      obtain rfl := List.mem_singleton.mp hexpression
      obtain rfl := List.mem_singleton.mp hother
      rw [← hx] at hequal
      exact absurd hequal (by decide +kernel)
  decoys := by
    refine List.forall_mem_cons.mpr ⟨?_, List.forall_mem_singleton.mpr ?_⟩
    · rintro key ⟨expression, hexpression, hx⟩ - i
      obtain rfl := List.mem_singleton.mp hexpression
      rw [← hx, xonlyRoots_level]
      exact drawn_ne_share _ i (by decide +kernel) (by decide +kernel)
    · rintro key ⟨expression, hexpression, hx⟩ - i
      obtain rfl := List.mem_singleton.mp hexpression
      rw [← hx]
      exact drawn_ne_share _ i (by decide +kernel) (by decide +kernel)

end Sample

open Bip138.Sample Sample in
/-- Two levels with a note each. -/
theorem exists_encryptLevels_unwraps_sample :
    ∃ fuel encrypted,
      encryptLevels sampleCrypto countingRng fuel (some "message") account
        (levels (some "outer")) = .ok encrypted ∧
      Unwraps sampleCrypto countingRng fuel (some "message") account (levels (some "outer"))
        encrypted.bytes :=
  exists_encryptLevels_unwraps (List.cons_ne_nil _ _) (wrappable_levels (.inr rfl))
    (idealRun_levels (.inr rfl)) (ownKeysApart_levels _)

end Bip138.Cli
