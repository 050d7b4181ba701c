/-
# No exposed key encrypts

The invariant that every run of builder calls keeps (`Guarded`): no key of the
builder is one that a payload set so far puts on chain. A key is removed by
`dropExposedKeys` only, which leaves exactly one warning about it, and no later call
takes a warning back.
-/

import Bip138.Front.Operations
import Bip138.Ll.RoundTrip
import Bip138.Rust.Base64

namespace Bip138

open Bip138.Rust Bip138.Ll

/-- A call of an operation of the builder that returns a builder. -/
inductive BuilderCall
  | setKeys (keys : List PublicKey)
  | setVersion (version : Version)
  | setContentType (content : Content)
  | setEncryption (encryption : Encryption)
  | setPadding (padding : Padding)
  | setStoreCommonPaths (storeCommonPaths : Bool)
  | setDerivationPaths (derivationPaths : List DerivationPath)
  | setPayload (payload : ToPayload)
  | setPayloads (payloads : List ToPayload)
  | setEncryptedPayload (bytes : Bytes)

namespace BuilderCall

def apply [Target] [Base64] (backup : EncryptedBackup) : BuilderCall → Exec Error EncryptedBackup
  | .setKeys keys => .ok (backup.setKeys keys)
  | .setVersion version => .ok (backup.setVersion version)
  | .setContentType content => .ok (backup.setContentType content)
  | .setEncryption encryption => .ok (backup.setEncryption encryption)
  | .setPadding padding => .ok (backup.setPadding padding)
  | .setStoreCommonPaths storeCommonPaths => .ok (backup.setStoreCommonPaths storeCommonPaths)
  | .setDerivationPaths derivationPaths => .ok (backup.setDerivationPaths derivationPaths)
  | .setPayload payload => backup.setPayload payload
  | .setPayloads payloads => backup.setPayloads payloads
  | .setEncryptedPayload bytes => backup.setEncryptedPayload bytes

/-- The payloads a call sets. -/
def payloads : BuilderCall → List ToPayload
  | .setPayload payload => [payload]
  | .setPayloads payloads => payloads
  | _ => []

/-- The keys a builder would hold after the call if none were exposed. -/
def offered (backup : EncryptedBackup) : BuilderCall → List PublicKey
  | .setKeys keys => keys
  | .setPayload payload => backup.keys ++ payload.keys.toOption.getD []
  | .setPayloads payloads => backup.keys ++ payloads.flatMap (·.keys.toOption.getD [])
  | _ => backup.keys

end BuilderCall

/-- A run of calls on a new builder, all of them successful. -/
def runBuilder [Target] [Base64] (calls : List BuilderCall) : Exec Error EncryptedBackup :=
  calls.foldlM BuilderCall.apply .new

/-- The builder holds the keys that the payloads put on chain, none of them among
its own keys, and warns of a root at most once. -/
structure Guarded (payloads : List ToPayload) (backup : EncryptedBackup) : Prop where
  pooled : ∀ x, x ∈ backup.exposedKeys ↔ ∃ payload ∈ payloads, x ∈ payload.exposedKeys
  clear : ∀ key ∈ backup.keys, xonly key ∉ backup.exposedKeys
  warned : ∀ key, backup.warnings.count (.exposedRoot key) ≤ 1

/-- What a call does to the keys: those it offers stay unless they are exposed, and
then a warning says so. No warning is taken back. -/
structure BuilderCall.Filters (call : BuilderCall) (before after : EncryptedBackup) : Prop where
  keys : ∀ key, key ∈ after.keys ↔
    key ∈ call.offered before ∧ xonly key ∉ after.exposedKeys
  exposedKeys : ∀ x, x ∈ after.exposedKeys ↔
    x ∈ before.exposedKeys ∨ ∃ payload ∈ call.payloads, x ∈ payload.exposedKeys
  warnings : ∀ key, .exposedRoot key ∈ after.warnings ↔
    .exposedRoot key ∈ before.warnings ∨
      key ∈ call.offered before ∧ xonly key ∈ after.exposedKeys
  count : ∀ key, before.warnings.count (.exposedRoot key) ≤ 1 →
    after.warnings.count (.exposedRoot key) ≤ 1

namespace BuilderCall

variable {call : BuilderCall} {before after : EncryptedBackup}

/-- A call that leaves keys, exposed keys and warnings alone. -/
private theorem filters_of_frame {payloads : List ToPayload} (hguarded : Guarded payloads before)
    (hoffered : call.offered before = before.keys) (hpayloads : call.payloads = [])
    (hkeys : after.keys = before.keys) (hexposed : after.exposedKeys = before.exposedKeys)
    (hwarnings : after.warnings = before.warnings) : call.Filters before after where
  keys key := by
    rw [hkeys, hoffered, hexposed]
    exact ⟨fun hkey => ⟨hkey, hguarded.clear key hkey⟩, And.left⟩
  exposedKeys x := by
    rw [hexposed, hpayloads]
    simp
  warnings key := by
    rw [hwarnings, hoffered, hexposed]
    exact ⟨.inl, fun hwarned => hwarned.resolve_right fun ⟨hkey, hx⟩ => hguarded.clear key hkey hx⟩
  count key hcount := by
    rw [hwarnings]
    exact hcount

/-- A call that gathers keys, exposed keys and warnings, and then drops. -/
private theorem filters_of_drop (gathered : EncryptedBackup)
    (hkeys : gathered.keys = call.offered before)
    (hexposed : ∀ x, x ∈ gathered.exposedKeys ↔
      x ∈ before.exposedKeys ∨ ∃ payload ∈ call.payloads, x ∈ payload.exposedKeys)
    (hcount : ∀ key, gathered.warnings.count (.exposedRoot key) =
      before.warnings.count (.exposedRoot key))
    (hafter : after.keys = gathered.dropExposedKeys.keys ∧
      after.exposedKeys = gathered.dropExposedKeys.exposedKeys ∧
      after.warnings = gathered.dropExposedKeys.warnings) : call.Filters before after where
  keys key := by
    rw [hafter.1, hafter.2.1, EncryptedBackup.exposedKeys_dropExposedKeys,
      EncryptedBackup.keys_dropExposedKeys, ← hkeys, List.mem_filter, decide_eq_true_eq]
  exposedKeys x := by
    rw [hafter.2.1, EncryptedBackup.exposedKeys_dropExposedKeys, hexposed]
  warnings key := by
    have hmem : .exposedRoot key ∈ gathered.warnings ↔ .exposedRoot key ∈ before.warnings := by
      rw [← List.count_pos_iff, hcount, List.count_pos_iff]
    rw [hafter.2.1, hafter.2.2, EncryptedBackup.exposedKeys_dropExposedKeys,
      EncryptedBackup.mem_warnings_dropExposedKeys, hmem, hkeys]
    simp
  count key hwarned := by
    rw [hafter.2.2, EncryptedBackup.warnings_dropExposedKeys]
    apply count_foldl_pushWarning_le
    rw [hcount]
    exact hwarned

section Gather

variable {payloads : List ToPayload} {parts : List Contribution}
  (hparts : List.Forall₂ ToPayload.Contributes payloads parts)

include hparts

private theorem flatMap_keys_eq :
    parts.flatMap (·.keys) = payloads.flatMap (·.keys.toOption.getD []) := by
  induction hparts with
  | nil => rfl
  | cons hpart _ ih =>
      rw [List.flatMap_cons, List.flatMap_cons, ih, hpart.keys]
      rfl

theorem mem_flatMap_exposedKeys {x : Block 32} :
    x ∈ parts.flatMap (·.exposedKeys) ↔ ∃ payload ∈ payloads, x ∈ payload.exposedKeys := by
  induction hparts with
  | nil => simp
  | cons hpart _ ih =>
      rw [List.flatMap_cons, List.mem_append, ih, hpart.exposedKeys, List.exists_mem_cons_iff]

private theorem exposedRoot_not_mem_flatMap_warnings (key : PublicKey) :
    .exposedRoot key ∉ parts.flatMap (·.warnings) := by
  induction hparts with
  | nil => simp
  | @cons payload _ _ _ hpart _ ih =>
      rw [List.flatMap_cons, List.mem_append, not_or]
      exact ⟨payload.warnings_filtered _ hpart.warnings key, ih⟩

private theorem filters_of_gather {gathered : EncryptedBackup}
    (hoffered : call.offered before =
      before.keys ++ payloads.flatMap (·.keys.toOption.getD []))
    (hpayloads : call.payloads = payloads)
    (hkeys : gathered.keys = before.keys) (hexposed : gathered.exposedKeys = before.exposedKeys)
    (hwarnings : gathered.warnings = before.warnings)
    (hafter : after.keys = (gathered.gather parts).dropExposedKeys.keys ∧
      after.exposedKeys = (gathered.gather parts).dropExposedKeys.exposedKeys ∧
      after.warnings = (gathered.gather parts).dropExposedKeys.warnings) :
    call.Filters before after := by
  refine filters_of_drop _ ?_ (fun x => ?_) (fun key => ?_) hafter
  · rw [EncryptedBackup.gather, hoffered, hkeys, flatMap_keys_eq hparts]
  · rw [EncryptedBackup.gather, hexposed, hpayloads, List.mem_append,
      mem_flatMap_exposedKeys hparts]
  · have hnone := exposedRoot_not_mem_flatMap_warnings hparts key
    rw [EncryptedBackup.gather, hwarnings, List.count_append,
      List.count_eq_zero_of_not_mem hnone, Nat.add_zero]

end Gather

variable [Target] [Base64] {payloads : List ToPayload}

/-- Every call on a guarded builder filters what it offers. -/
theorem filters_of_apply (hguarded : Guarded payloads before)
    (happly : call.apply before = .ok after) : call.Filters before after := by
  cases call with
  | setKeys keys =>
      cases happly
      refine filters_of_drop { before with keys } rfl ?_ (fun _ => rfl) ⟨rfl, rfl, rfl⟩
      simp [BuilderCall.payloads]
  | setPayload payload =>
      obtain ⟨part, hpart, rfl⟩ := EncryptedBackup.setPayload_eq_ok_iff.mp happly
      exact filters_of_gather (.cons hpart .nil) (by simp [offered]) rfl rfl rfl rfl
        ⟨rfl, rfl, rfl⟩
  | setPayloads payloads =>
      obtain ⟨-, parts, hparts, rfl⟩ := EncryptedBackup.setPayloads_eq_ok_iff.mp happly
      exact filters_of_gather hparts rfl rfl rfl rfl rfl ⟨rfl, rfl, rfl⟩
  | setEncryptedPayload bytes =>
      obtain ⟨_, _, _, rfl⟩ := EncryptedBackup.exists_of_setEncryptedPayload happly
      exact filters_of_frame hguarded rfl rfl rfl rfl rfl
  | setVersion version =>
      cases happly
      exact filters_of_frame hguarded rfl rfl rfl rfl rfl
  | setContentType content =>
      cases happly
      exact filters_of_frame hguarded rfl rfl rfl rfl rfl
  | setEncryption encryption =>
      cases happly
      exact filters_of_frame hguarded rfl rfl rfl rfl rfl
  | setPadding padding =>
      cases happly
      exact filters_of_frame hguarded rfl rfl rfl rfl rfl
  | setStoreCommonPaths storeCommonPaths =>
      cases happly
      exact filters_of_frame hguarded rfl rfl rfl rfl rfl
  | setDerivationPaths derivationPaths =>
      cases happly
      exact filters_of_frame hguarded rfl rfl rfl rfl rfl

end BuilderCall

section Run

variable {payloads : List ToPayload} {call : BuilderCall} {before after : EncryptedBackup}

theorem guarded_new : Guarded [] .new where
  pooled x := by simp [EncryptedBackup.new]
  clear key hkey := absurd hkey List.not_mem_nil
  warned key := by simp [EncryptedBackup.new]

/-- A call that filters keeps the builder guarded. -/
theorem Guarded.step (hguarded : Guarded payloads before) (hfilters : call.Filters before after) :
    Guarded (payloads ++ call.payloads) after where
  pooled x := by
    rw [hfilters.exposedKeys, hguarded.pooled]
    simp [or_and_right, exists_or]
  clear key hkey := ((hfilters.keys key).mp hkey).2
  warned key := hfilters.count key (hguarded.warned key)

variable [Target] [Base64] {calls : List BuilderCall}

/-- A run from a guarded builder ends guarded, and keeps the warnings it started
with. -/
theorem Guarded.run (hguarded : Guarded payloads before)
    (hrun : calls.foldlM BuilderCall.apply before = .ok after) :
    Guarded (payloads ++ calls.flatMap BuilderCall.payloads) after ∧
      ∀ key, .exposedRoot key ∈ before.warnings → .exposedRoot key ∈ after.warnings := by
  induction calls generalizing payloads before with
  | nil =>
      cases hrun
      rw [List.flatMap_nil, List.append_nil]
      exact ⟨hguarded, fun _ => id⟩
  | cons call calls ih =>
      rw [List.foldlM_cons, Exec.bind_eq_ok_iff] at hrun
      obtain ⟨middle, happly, hrest⟩ := hrun
      have hfilters := BuilderCall.filters_of_apply hguarded happly
      obtain ⟨hafter, hwarnings⟩ := ih (hguarded.step hfilters) hrest
      rw [List.flatMap_cons, ← List.append_assoc]
      exact ⟨hafter, fun key hkey => hwarnings key ((hfilters.warnings key).mpr (.inl hkey))⟩

end Run

/-- No exposed key encrypts, whatever run of calls built the key set. No key of the
builder is among those a payload set so far puts on chain, which for the descriptors
of the payload are the keys of its literal expressions and bare xpubs; none is handed
to the core; and each key that a call of the run removed has its warning, once. -/
theorem xonly_ne_of_runBuilder [Target] [Base64] [Miniscript] [SerdeJson]
    [Serde DescriptorBackup] {calls : List BuilderCall} {backup : EncryptedBackup}
    (hrun : runBuilder calls = .ok backup) :
    (∀ payload ∈ calls.flatMap BuilderCall.payloads, ∀ x ∈ payload.exposedKeys,
      ∀ key ∈ backup.keys, xonly key ≠ x) ∧
    (∀ descriptor : Descriptor,
      .ofDescriptor descriptor ∈ calls.flatMap BuilderCall.payloads ∨
        (∃ document : DescriptorBackup, descriptor ∈ document.descriptors ∧
          .ofDescriptorBackup document ∈ calls.flatMap BuilderCall.payloads) →
      ∀ expression ∈ Miniscript.forEachKey descriptor, ∀ x, Exposes expression x →
        ∀ key ∈ backup.keys, xonly key ≠ x) ∧
    (∀ call, backup.coreCall = .ok call →
      ∀ payload ∈ calls.flatMap BuilderCall.payloads, ∀ x ∈ payload.exposedKeys,
        x ∉ call.keys) ∧
    ∀ earlier call later before after, calls = earlier ++ call :: later →
      runBuilder earlier = .ok before → call.apply before = .ok after →
      ∀ key ∈ call.offered before, key ∉ after.keys →
        backup.warnings.count (.exposedRoot key) = 1 := by
  have hguarded := (guarded_new.run hrun).1
  rw [List.nil_append] at hguarded
  have hclear : ∀ payload ∈ calls.flatMap BuilderCall.payloads, ∀ x ∈ payload.exposedKeys,
      ∀ key ∈ backup.keys, xonly key ≠ x := by
    intro payload hpayload x hx key hkey hequal
    apply hguarded.clear key hkey
    rw [hguarded.pooled, hequal]
    exact ⟨payload, hpayload, hx⟩
  refine ⟨hclear, ?_, ?_, ?_⟩
  · intro descriptor hset expression hexpression x hexposes
    rcases hset with hpayload | ⟨document, hdescriptor, hpayload⟩
    · apply hclear _ hpayload
      exact mem_descrExposedKeys.mpr ⟨expression, hexpression, hexposes⟩
    · apply hclear _ hpayload
      exact DescriptorBackup.mem_exposedKeys.mpr
        ⟨descriptor, hdescriptor, expression, hexpression, hexposes⟩
  · intro call hcall payload hpayload x hx hmem
    obtain ⟨-, -, -, items, -, rfl⟩ := EncryptedBackup.coreCall_eq_ok_iff.mp hcall
    obtain ⟨key, hkey, hequal⟩ := List.mem_map.mp hmem
    exact hclear payload hpayload x hx key hkey hequal
  · intro earlier call later before after hcalls hearlier happly key hoffered hremoved
    rw [hcalls, runBuilder, List.foldlM_append, Exec.bind_eq_ok_iff] at hrun
    obtain ⟨before', hbefore, hrun⟩ := hrun
    obtain rfl : before' = before := by
      rw [runBuilder, hbefore] at hearlier
      exact Except.ok.inj hearlier
    rw [List.foldlM_cons, Exec.bind_eq_ok_iff] at hrun
    obtain ⟨after', hafter, hlater⟩ := hrun
    obtain rfl : after' = after := by
      rw [happly] at hafter
      exact (Except.ok.inj hafter).symm
    have hmiddle := (guarded_new.run hbefore).1
    have hfilters := BuilderCall.filters_of_apply hmiddle happly
    -- the call warns of what it removes, and the warning outlives the later calls
    have hexposed : xonly key ∈ after'.exposedKeys := by
      by_contra hclear
      exact hremoved ((hfilters.keys key).mpr ⟨hoffered, hclear⟩)
    have hwarned := ((hmiddle.step hfilters).run hlater).2 key
      ((hfilters.warnings key).mpr (.inr ⟨hoffered, hexposed⟩))
    have hpositive := List.count_pos_iff.mpr hwarned
    have honce := hguarded.warned key
    omega

/-- The one descriptor of the small miniscript. -/
structure Wpkh (Pk : Type) where
  key : Pk
deriving DecidableEq

namespace Sample

/-- An account xpub of the test network. -/
def tpub : String :=
  "tpubDEPBvXvhta3pjVaKokqC3eeMQnszj9ehFaA2zD5nSdkaccwGAizu8jVB2NeSpvmP2P52MBoZvNCixqXRJnTyXx51FQzARR63tjxQSyP3Btw"

def rootX : Block 32 :=
  ⟨[0xeb, 0xd2, 0x52, 0xca, 0x08, 0x77, 0xaa, 0xe0, 0x9b, 0x9d, 0x05, 0x82, 0x19, 0x68, 0x27,
    0x75, 0xaa, 0x3c, 0xbc, 0xd0, 0x49, 0xc1, 0x2f, 0x07, 0x83, 0x2f, 0x2c, 0xf6, 0xa3, 0xb5,
    0x17, 0x08], rfl⟩

def root : PublicKey := ⟨true, rootX⟩

def xkey : Xpub where
  testNetwork := true
  depth := 4
  parentFingerprint := ⟨[0x40, 0xde, 0xed, 0xfa], rfl⟩
  childNumber := 0x80000002
  publicKey := root
  chainCode :=
    ⟨[0x0c, 0x32, 0x9e, 0x56, 0x23, 0x90, 0xa4, 0x0e, 0x47, 0xef, 0x02, 0xc6, 0xbb, 0x9f, 0x9c,
      0xa8, 0x77, 0xb0, 0xae, 0xfc, 0x12, 0xa4, 0x45, 0x47, 0xe9, 0xa1, 0x1c, 0x5b, 0x64, 0x09,
      0xdb, 0x64], rfl⟩

/-- An account xpub of another device. -/
def otherXkey : Xpub where
  testNetwork := true
  depth := 3
  parentFingerprint := .literal [0x06, 0xb0, 0x37, 0xf6]
  childNumber := 0x80000001
  publicKey := ⟨false, .literal [0xe3, 0x3f, 0xf6, 0xcf, 0x05, 0xa0, 0x2b, 0x7e, 0x86, 0xa0, 0xc6,
    0x42, 0x46, 0x7a, 0x81, 0xec, 0xa9, 0x43, 0x78, 0xe8, 0xec, 0xb8, 0x94, 0xa8, 0x6a, 0xa6, 0x1c,
    0xd4, 0xbb, 0x6c, 0xfc, 0xae]⟩
  chainCode := .literal [0xa0, 0x92, 0x88, 0xf3, 0xa8, 0xd8, 0x1c, 0xae, 0x30, 0x81, 0x22, 0xfc,
    0x4f, 0x18, 0x8e, 0x26, 0x37, 0x63, 0xa0, 0xf2, 0x83, 0xa4, 0x62, 0x4a, 0x04, 0xd8, 0x35, 0x4c,
    0xe8, 0x8a, 0xa4, 0xa4]

/-- The throwaway xpub that derivation suffixes are parsed with. -/
def suffixXkey : Xpub where
  testNetwork := false
  depth := 3
  parentFingerprint := ⟨[0x1a, 0x6e, 0xbc, 0x0f], rfl⟩
  childNumber := 0x80000000
  publicKey :=
    ⟨false, ⟨[0x63, 0x77, 0x2f, 0x3c, 0xaa, 0x19, 0x61, 0x35, 0xbb, 0xb8, 0xb6, 0x15, 0x0f, 0x1a,
      0x3f, 0x76, 0x7f, 0x98, 0xa7, 0x3a, 0xeb, 0xa7, 0x3f, 0x45, 0xee, 0x7f, 0xbc, 0xac, 0x28,
      0x5a, 0x5f, 0xe5], rfl⟩⟩
  chainCode :=
    ⟨[0x04, 0xeb, 0xa6, 0x24, 0x3d, 0x1c, 0xe2, 0x9f, 0x3a, 0x2f, 0x76, 0x48, 0xc6, 0xd9, 0xf4,
      0x24, 0xbe, 0xa8, 0x39, 0xd7, 0x7d, 0x37, 0xb0, 0xf1, 0x36, 0x2e, 0x25, 0x1a, 0x55, 0xa6,
      0x81, 0x24], rfl⟩

def masterFingerprint : Fingerprint := ⟨[0x58, 0xb7, 0xf8, 0xdc], rfl⟩

def accountPath : DerivationPath := [hardened 48, hardened 1, hardened 0, hardened 2]

/-- The receiving keys of the account. -/
def accountKey : DescriptorKey := .xPub ⟨none, xkey, [0], .unhardened⟩

/-- The same keys, with the path from the master key. -/
def originKey : DescriptorKey :=
  .xPub ⟨some (masterFingerprint, accountPath), xkey, [0], .unhardened⟩

/-- The same keys, with an origin that is only a master fingerprint. -/
def masterKey : DescriptorKey := .xPub ⟨some (masterFingerprint, []), xkey, [0], .unhardened⟩

/-- The root of the account as a literal key, with the other parity. -/
def literalKey : DescriptorKey := .single ⟨none, .fullKey true ⟨false, rootX⟩⟩

/-- The account as an entry of a key information vector. -/
def policyKey : DescriptorKey := .xPub ⟨none, xkey, [], .none⟩

/-- The paths that `/**` stands for. -/
def receiveAndChange : DerivPaths := ⟨[[0], [1]], List.cons_ne_nil _ _⟩

/-- The throwaway xpub with the suffix that `/**` stands for. -/
def suffixKey : DescriptorKey :=
  .multiXPub ⟨none, suffixXkey, ⟨[[0], [1]], List.cons_ne_nil _ _⟩, .unhardened⟩

def literalText : String := "02ebd252ca0877aae09b9d058219682775aa3cbcd049c12f07832f2cf6a3b51708"

/-- How the keys are written. -/
def keyTexts : List (DescriptorKey × String) :=
  [(accountKey, tpub ++ "/0/*"), (originKey, "[58b7f8dc/48'/1'/0'/2']" ++ tpub ++ "/0/*"),
    (masterKey, "[58b7f8dc]" ++ tpub ++ "/0/*"), (literalKey, literalText), (policyKey, tpub),
    (suffixKey, parseXpub ++ "/<0;1>/*")]

/-- How the descriptors of the keys are written, checksum included. -/
def descriptorTexts : List (DescriptorKey × String) :=
  [(accountKey, "wpkh(" ++ tpub ++ "/0/*)#ls6kg93q"),
    (originKey, "wpkh([58b7f8dc/48'/1'/0'/2']" ++ tpub ++ "/0/*)#fvxxsyqm"),
    (masterKey, "wpkh([58b7f8dc]" ++ tpub ++ "/0/*)#0k4fqryh"),
    (literalKey, "wpkh(" ++ literalText ++ ")#j5rtma5d")]

/-- The text between the parentheses of `wpkh()`. -/
def wpkhArgument (text : String) : Option String :=
  match asBytes text with
  | 0x77 :: 0x70 :: 0x6b :: 0x68 :: 0x28 :: rest => fromUtf8 (rest.takeWhile (· ≠ 0x29))
  | _ => none

/-- A miniscript that knows a few keys and one descriptor of each. -/
scoped instance miniscript : Miniscript where
  Descriptor := Wpkh
  forEachKey descriptor := [descriptor.key]
  translatePk pk descriptor state :=
    match pk descriptor.key state with
    | .ok (key, state) => .ok (⟨key⟩, state)
    | .error cause => .error (.translatorErr cause)
  descriptorFromStr keyFromStr text := do
    let argument ← wpkhArgument text
    let key ← keyFromStr argument
    some ⟨key⟩
  descriptorToString descriptor :=
    ((descriptorTexts.find? (·.1 = descriptor.key)).map Prod.snd).getD ""
  keyFromStr text := (keyTexts.find? (·.2 = text)).map Prod.fst
  isMultipath descriptor := descriptor.key.isMultipath
  derivPathsNew := DerivPaths.ofList

scoped instance lawfulDerivPaths : LawfulDerivPaths := ⟨fun _ => rfl⟩

def account : Descriptor := ⟨accountKey⟩

def origin : Descriptor := ⟨originKey⟩

def master : Descriptor := ⟨masterKey⟩

def literal : Descriptor := ⟨literalKey⟩

/-- A document of this version with the account as its only descriptor. -/
def document (version : UInt32) : DescriptorBackup :=
  ⟨version, [⟨account, none, false, none, none⟩]⟩

def documentText (version : UInt32) : String :=
  "\x7b\"version\":" ++ toString version ++ ",\"descriptor_sets\":[\x7b\"descriptor\":\"" ++
    account.toString ++ "\"\x7d]\x7d"

def readDocument (text : String) : Option DescriptorBackup :=
  [1, 2].findSome? fun version =>
    if text = documentText version then some (document version) else none

/-- The account as a wallet policy. -/
def policySet : PolicySet := ⟨[policyKey], "wpkh(@0/**)", false, none, none⟩

def policyText : String :=
  "\x7b\"keys\":[\"" ++ tpub ++ "\"],\"policy\":\"wpkh(@0/**)\"\x7d"

/-- The keys of the documents of the examples. -/
def objectKeys (text : String) : Option (List String) :=
  if text = documentText 1 ∨ text = documentText 2 then some ["version", "descriptor_sets"]
  else if text = policyText then some ["keys", "policy"]
  else none

/-- A JSON library that knows the documents of the examples. -/
scoped instance serdeJson : SerdeJson where
  Value := String
  valueFromStr := some
  asObject := objectKeys

scoped instance serdeDescriptorBackup : Serde DescriptorBackup where
  toVec backup := some (asBytes (documentText backup.version))
  fromStr := readDocument
  fromValue := readDocument

def readPolicySet (text : String) : Option PolicySet :=
  if text = policyText then some policySet else none

scoped instance serdePolicySet : Serde PolicySet where
  toVec _ := some (asBytes policyText)
  fromStr := readPolicySet
  fromValue := readPolicySet

/-- The form with a list of sets is not among the examples. -/
scoped instance serdePolicyBackup : Serde PolicyBackup where
  toVec _ := none
  fromStr _ := none
  fromValue _ := none

scoped instance target : Target := target64

scoped instance base64 : Base64 where
  encode bytes := .ofList (encodeBase64 bytes)
  decode _ := none

/-- The account is put in a backup, then its root on chain, then it is tried by
hand. -/
def calls : List BuilderCall :=
  [.setPayload (.ofDescriptor account), .setPadding .geometric,
    .setPayloads [.ofDescriptor literal, .ofDescriptorBackup (document 1)], .setKeys [root]]

end Sample

open Sample in
/-- The run of the example, at whose end no key is left. -/
theorem xonly_ne_of_runBuilder_sample :
    ∃ backup, runBuilder Sample.calls = .ok backup ∧
      (∀ payload ∈ Sample.calls.flatMap BuilderCall.payloads, ∀ x ∈ payload.exposedKeys,
        ∀ key ∈ backup.keys, xonly key ≠ x) ∧
      (∀ descriptor : Descriptor,
        .ofDescriptor descriptor ∈ Sample.calls.flatMap BuilderCall.payloads ∨
          (∃ document : DescriptorBackup, descriptor ∈ document.descriptors ∧
            .ofDescriptorBackup document ∈ Sample.calls.flatMap BuilderCall.payloads) →
        ∀ expression ∈ Miniscript.forEachKey descriptor, ∀ x, Exposes expression x →
          ∀ key ∈ backup.keys, xonly key ≠ x) ∧
      (∀ call, backup.coreCall = .ok call →
        ∀ payload ∈ Sample.calls.flatMap BuilderCall.payloads, ∀ x ∈ payload.exposedKeys,
          x ∉ call.keys) ∧
      ∀ earlier call later before after, Sample.calls = earlier ++ call :: later →
        runBuilder earlier = .ok before → call.apply before = .ok after →
        ∀ key ∈ call.offered before, key ∉ after.keys →
          backup.warnings.count (.exposedRoot key) = 1 := by
  obtain ⟨backup, hrun, -⟩ := Exec.exists_eq_ok (runBuilder Sample.calls)
    (fun _ => true) (by decide +kernel)
  exact ⟨backup, hrun, xonly_ne_of_runBuilder hrun⟩

end Bip138
