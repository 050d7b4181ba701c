/-
# Miniscript and wallet policies

What the library takes from miniscript, as a class: the descriptor type, generic in
its keys, and the functions on it that the library calls. A theorem that relies on
what one of these functions does says so in a hypothesis.

On top of it stands the half of the BIP388 conversion that rebuilds a descriptor
from a template with `@i` placeholders and a vector of keys.
-/

import Bip138.Front.Keys

namespace Bip138

open Bip138.Rust

/-- Why a translation failed: the translator refused a key, or the translated
descriptor is not one miniscript accepts. -/
inductive TranslateErr (ε : Type)
  | translatorErr (cause : ε)
  | outerError

class Miniscript where
  /-- `Descriptor<Pk>`. -/
  Descriptor : Type → Type
  /-- The keys `for_each_key` visits, in its order, up to the first it is told to
  stop at. -/
  forEachKey {Pk : Type} : Descriptor Pk → List Pk
  /-- `translate_pk`, with a translator that has a state. -/
  translatePk {σ ε Pk TargetPk : Type} (pk : Pk → StateT σ (Except ε) TargetPk) :
    Descriptor Pk → StateT σ (Except (TranslateErr ε)) (Descriptor TargetPk)
  /-- `FromStr` of a descriptor, given that of its keys. -/
  descriptorFromStr {Pk : Type} (keyFromStr : String → Option Pk) :
    String → Option (Descriptor Pk)
  /-- `Display` of a descriptor. -/
  descriptorToString : Descriptor DescriptorPublicKey → String
  /-- `FromStr` of a key expression. -/
  keyFromStr : String → Option DescriptorPublicKey
  /-- `is_multipath` of a descriptor. -/
  isMultipath : Descriptor DescriptorPublicKey → Bool
  /-- `DerivPaths::new`. -/
  derivPathsNew : List DerivationPath → Option DerivPaths

/-- Derivation paths are taken if there are any. -/
class LawfulDerivPaths [Miniscript] : Prop where
  derivPathsNew_eq (paths : List DerivationPath) :
    Miniscript.derivPathsNew paths = DerivPaths.ofList paths

section Policy

variable [Miniscript]

abbrev Descriptor := Miniscript.Descriptor DescriptorPublicKey

namespace Descriptor

def fromStr (text : String) : Option Descriptor :=
  Miniscript.descriptorFromStr Miniscript.keyFromStr text

def toString (descriptor : Descriptor) : String := Miniscript.descriptorToString descriptor

end Descriptor

/-- Every key expression of the descriptor, in descriptor order. -/
def descriptorKeys (descriptor : Descriptor) : List DescriptorKey :=
  Miniscript.forEachKey descriptor

def isMultipath (descriptor : Descriptor) : Bool := Miniscript.isMultipath descriptor

/-- A throwaway xpub: the key parser of miniscript is run on it followed by a
derivation suffix, of which only the suffix is read back. -/
def parseXpub : String :=
  "xpub6Br37sWxruYfT8ASpCjVHKGwgdnYFEn98DwiN76i2oyY6fgH1LAPmmDcF46xjxJr22gw4jmVjTE2E3URMnRPEPYyo1zoPSUba563ESMXCeb"

/-- What the `/**` shorthand stands for. -/
def defaultMultipath : String := "/<0;1>/*"

/-- An `@i` key placeholder, with the derivation suffix that follows it. -/
structure Bip388Key where
  index : UInt32
  derivationPaths : DerivPaths
  wildcard : Wildcard

/-- Read a derivation suffix. One without a wildcard is refused. -/
def parseSuffix (suffix : String) : Option (DerivPaths × Wildcard) := do
  let suffix := if suffix = "/**" then defaultMultipath else suffix
  let dpk ← Miniscript.keyFromStr (parseXpub ++ suffix)
  let (paths, wildcard) ← match dpk with
    | .xPub key => some ([key.derivationPath], key.wildcard)
    | .multiXPub key => some (key.derivationPaths.1, key.wildcard)
    | .single _ => none
  if wildcard = .none then none
  else do
    let derivationPaths ← Miniscript.derivPathsNew paths
    some (derivationPaths, wildcard)

def Bip388Key.fromStr (text : String) : Option Bip388Key := do
  let rest ← stripPrefix text '@'
  let (digits, suffix) ← splitAtChar rest '/'
  let index ← parseU32 digits
  let (derivationPaths, wildcard) ← parseSuffix suffix
  some ⟨index, derivationPaths, wildcard⟩

/-- The key information vector. -/
structure KeySet where
  keys : List DescriptorPublicKey

omit [Miniscript] in
/-- Key expression a placeholder stands for, resolved against the key information
vector. -/
def KeySet.resolve (keySet : KeySet) (key : Bip388Key) : Except Error DescriptorPublicKey := do
  let root ← match keySet.keys[key.index.toNat]? with
    | some root => .ok root
    | none => .error .walletPolicy
  let (origin, xkey) ← match root with
    | .xPub key => .ok (key.origin, key.xkey)
    | .multiXPub key => .ok (key.origin, key.xkey)
    | .single _ => .error .walletPolicy
  match key.derivationPaths.1 with
  | [path] => .ok (.xPub ⟨origin, xkey, path, key.wildcard⟩)
  | _ => .ok (.multiXPub ⟨origin, xkey, key.derivationPaths, key.wildcard⟩)

/-- A descriptor template and its key information vector. -/
structure WalletPolicy where
  template : Miniscript.Descriptor Bip388Key
  keyInfo : List DescriptorPublicKey

/-- One visit of `check_key_order`: the next index expected, unless the visit
stops. -/
def checkKeyOrderStep (next : UInt32) (key : Bip388Key) : Exec Error UInt32 :=
  if key.index = next then addU32 next 1
  else if key.index < next then .ok next
  else .fail .walletPolicy

/-- The indices of the placeholders first appear in the order `0, 1, ...`. -/
def checkKeyOrder (template : Miniscript.Descriptor Bip388Key) : Exec Error Unit := do
  let _ ← (Miniscript.forEachKey template).foldlM checkKeyOrderStep 0
  .ok ()

/-- Rebuild the concrete descriptor from a wallet policy. -/
def WalletPolicy.intoDescriptor (policy : WalletPolicy) : Exec Error Descriptor := do
  checkKeyOrder policy.template
  let translator : Bip388Key → StateT KeySet (Except Error) DescriptorPublicKey :=
    fun key keySet => do
      let dpk ← keySet.resolve key
      .ok (dpk, keySet)
  match (Miniscript.translatePk translator policy.template).run ⟨policy.keyInfo⟩ with
  | .ok (descriptor, _) => .ok descriptor
  | .error (.translatorErr cause) => .fail cause
  | .error .outerError => .fail .walletPolicy

/-- Rebuild the descriptor from a template and its key information vector. -/
def fromWalletPolicy (template : String) (keys : List DescriptorKey) : Exec Error Descriptor := do
  let template ← .okOr (Miniscript.descriptorFromStr Bip388Key.fromStr template) .walletPolicy
  WalletPolicy.intoDescriptor ⟨template, keys⟩

section Translation

variable {σ ε Pk TargetPk : Type} (pk : Pk → StateT σ (Except ε) TargetPk) (state : σ)

omit [Miniscript] in
/-- The translator takes each of the keys, in this state, to the value beside it, and leaves
the state as it is. -/
def TranslatesTo (keys : List Pk) (values : List TargetPk) : Prop :=
  List.Forall₂ (fun key value => (pk key).run state = .ok (value, state)) keys values

omit [Miniscript] in
/-- The translator leaves the state as it is when it takes one of the keys. -/
def Stays (keys : List Pk) : Prop :=
  ∀ key ∈ keys, ∀ value later, (pk key).run state = .ok (value, later) → later = state

end Translation

/-- A descriptor is translated key by key, in place. -/
def Miniscript.TranslatesInPlace : Prop :=
  ∀ {σ ε Pk TargetPk : Type} (pk : Pk → StateT σ (Except ε) TargetPk) (state later : σ)
    (source : Miniscript.Descriptor Pk) (target : Miniscript.Descriptor TargetPk),
    Stays pk state (Miniscript.forEachKey source) →
    (Miniscript.translatePk pk source).run state = .ok (target, later) →
      later = state ∧
        TranslatesTo pk state (Miniscript.forEachKey source) (Miniscript.forEachKey target)

end Policy

end Bip138
