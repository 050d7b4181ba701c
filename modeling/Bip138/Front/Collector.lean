/-
# The paths a device is asked for

Whoever holds a signing device finds a key of a backup by asking the device for extended
keys: at the paths the backup stores, and at the common ones of the network. The encoder
counts on it when it leaves the common paths out (`storedDerivationPaths`), from the other
crate. Between the two lie a sorted set, the wire format, a map and a sort, and no path is
lost or asked for twice on the way.
-/

import Bip138.Front.Devices
import Bip138.Front.ReadBack

namespace Bip138

open Bip138.Rust Bip138.Ll

/-- The networks of the bitcoin crate. -/
inductive Network
  | bitcoin
  | testnet
  | testnet4
  | signet
  | regtest
  deriving DecidableEq, Repr

/-- Coin type of the common derivation paths. -/
def coinType : Network → UInt32
  | .bitcoin => 0
  | .testnet | .testnet4 | .signet | .regtest => 1

def pathPurpose (path : DerivationPath) : Option UInt32 :=
  path.head?.map fun index => index &&& ~~~hardenedBit

def commonDerivationPathExpect (kind : DeviceKind) (path : DerivationPath) : Expect :=
  match kind, pathPurpose path with
  | .bitBox02, some 44 | .bitBox02, some 87 => .canFail
  | _, some 87 => .canFail
  | _, _ => .mustFetch

/-- The common paths, each with how a failure to fetch it is treated. -/
def commonDerivationPaths (kind : DeviceKind) (network : Network) :
    List (DerivationPath × Expect) :=
  (Ll.commonDerivationPaths (coinType network)).map fun path =>
    (path, commonDerivationPathExpect kind path)

def Expect.priority : Expect → ℕ
  | .mustFetch => 0
  | .promptUser => 1
  | .canFail => 2

structure XpubCollector where
  derivPaths : List DerivationPath
  network : Network
  /-- The purposes to begin with. -/
  ordering : List UInt32
  prompt : Bool

namespace XpubCollector

def new (derivPaths : List DerivationPath) (network : Network) : XpubCollector :=
  ⟨derivPaths, network, [], false⟩

def envelopePriority (collector : XpubCollector) (path : DerivationPath) : ℕ :=
  (collector.derivPaths.idxOf? path).getD collector.derivPaths.length

def priority (collector : XpubCollector) (path : DerivationPath) : ℕ :=
  match pathPurpose path with
  | some purpose => (collector.ordering.idxOf? purpose).getD collector.ordering.length
  | none => collector.ordering.length

/-- The key the paths are sorted by. -/
def rank (collector : XpubCollector) : DerivationPath × Expect → ℕ ×ₗ ℕ ×ₗ ℕ
  | (path, expect) => toLex (collector.envelopePriority path,
      toLex (expect.priority, collector.priority path))

/-- The map of the common paths and of those in the envelope, which keep what is expected
of them when they are common. -/
def pathMap (collector : XpubCollector) (kind : DeviceKind) :
    Std.TreeMap DerivationPath Expect compare :=
  collector.derivPaths.foldl (fun paths path => paths.insertIfNew path .promptUser)
    (.ofList (commonDerivationPaths kind collector.network) compare)

def paths (collector : XpubCollector) (kind : DeviceKind) : List (DerivationPath × Expect) :=
  (collector.pathMap kind).toList.mergeSort fun first second =>
    decide (collector.rank first ≤ collector.rank second)

variable {collector : XpubCollector} {kind : DeviceKind} {path : DerivationPath}

theorem mem_foldl_insertIfNew {expect : Expect} {paths : List DerivationPath}
    {map : Std.TreeMap DerivationPath Expect compare} :
    path ∈ paths.foldl (fun map path => map.insertIfNew path expect) map ↔
      path ∈ map ∨ path ∈ paths := by
  induction paths generalizing map with
  | nil => simp
  | cons head paths ih =>
      rw [List.foldl_cons, ih, Std.TreeMap.mem_insertIfNew,
        Std.LawfulEqCmp.compare_eq_iff_eq, List.mem_cons, @eq_comm _ head]
      tauto

/-- The map holds the common paths of the network and those of the envelope. -/
theorem mem_pathMap : path ∈ collector.pathMap kind ↔
    path ∈ Ll.commonDerivationPaths (coinType collector.network) ∨
      path ∈ collector.derivPaths := by
  rw [pathMap, mem_foldl_insertIfNew, Std.TreeMap.mem_ofList, List.contains_iff_mem,
    commonDerivationPaths, List.map_map]
  simp

/-- Sorting loses no path of the map and repeats none. -/
theorem count_paths (hpath : path ∈ collector.pathMap kind) :
    ((collector.paths kind).map Prod.fst).count path = 1 := by
  have hperm : ((collector.paths kind).map Prod.fst).Perm (collector.pathMap kind).keys := by
    rw [← Std.TreeMap.map_fst_toList_eq_keys]
    exact (List.mergeSort_perm _ _).map Prod.fst
  rw [hperm.count_eq]
  exact List.count_eq_one_of_mem Std.TreeMap.nodup_keys (Std.TreeMap.mem_keys.mpr hpath)

end XpubCollector

section Agreement

variable [Target] {ρ : Type} {crypto : Crypto} {call : CoreCall} {entropy : Entropy ρ}

/-- The stored paths of a backup are read back as they are. -/
theorem decodeDerivationPaths_encryptItems {bytes : Slice}
    (hencrypt : entropy.encryptItems crypto call = .ok bytes.1) :
    decodeDerivationPaths bytes.1 =
      .ok (storedDerivationPaths call.derivationPaths call.storeCommonPaths).toList := by
  obtain ⟨payload, pad, -, hbackup, -⟩ := Entropy.encryptItems_eq_ok hencrypt
  obtain ⟨padded, cyphertext, -, -, -, hdecode⟩ := decodeV1_encodeV1Backup hbackup bytes.2
  exact decodeDerivationPaths_of_decodeV1 hdecode

/-- Every path the encoder leaves out, the decoder tries. Whatever the device and the
network, each path that is not common, or is common on the network, is asked for exactly
once by whoever has the backup. -/
theorem count_paths_of_encryptItems {bytes : Slice}
    (hencrypt : entropy.encryptItems crypto call = .ok bytes.1) :
    ∃ stored, decodeDerivationPaths bytes.1 = .ok stored ∧
      ∀ (network : Network) (kind : DeviceKind), ∀ path ∈ call.derivationPaths,
        (path ∉ fallbackDerivationPathSet ∨ path ∈ Ll.commonDerivationPaths (coinType network)) →
          (((XpubCollector.new stored network).paths kind).map Prod.fst).count path = 1 := by
  refine ⟨_, decodeDerivationPaths_encryptItems hencrypt, fun network kind path hpath htried => ?_⟩
  apply XpubCollector.count_paths
  rw [XpubCollector.mem_pathMap]
  rcases htried with huncommon | hcommon
  · exact .inr (mem_storedDerivationPaths.mpr ⟨hpath, .inr huncommon⟩)
  · exact .inl hcommon

end Agreement

/-- The paths that are asked for with the sample backup at hand. -/
theorem count_paths_of_encryptItems_sample :
    ∃ stored, @decodeDerivationPaths target64 sampleBackup.1 = .ok stored ∧
      ∀ (network : Network) (kind : DeviceKind), ∀ path ∈ samplePaths,
        (path ∉ fallbackDerivationPathSet ∨ path ∈ Ll.commonDerivationPaths (coinType network)) →
          (((XpubCollector.new stored network).paths kind).map Prod.fst).count path = 1 :=
  @count_paths_of_encryptItems target64 Unit sampleCrypto
    ⟨samplePaths, true, sampleItems, [sampleKey], .none⟩ (.supplied sampleNonce sampleDecoys)
    sampleBackup sampleOutcome_eq

end Bip138
