/-
# Key expressions

The bitcoin types the front end works on, with the orders their `Ord` instances
derive, and what the encryption rules need to know of a key expression
(`classify`). A point is its x-coordinate and the parity of y; the curve plays no
part in any rule here.

Every order is lexicographic in the declaration order of the fields, so each type
is ordered through the tuple of its fields.
-/

import Mathlib.Data.Prod.Lex
import Mathlib.Data.Sum.Order
import Bip138.Rust.BTreeSet
import Bip138.Rust.Text
import Bip138.Ll.Container
import Bip138.Ll.Crypto

namespace Bip138

open Bip138.Rust

/-- A BIP32 derivation path. The backend's own path type and the core's hold the
same child numbers in the same order, and the conversions between the two,
`to_ll_path` and `from_ll_path`, keep them. -/
abbrev DerivationPath := Ll.DerivationPath

/-- A point of the curve, ordered as its compressed serialization. -/
structure PublicKey where
  oddY : Bool
  x : Block 32

namespace PublicKey

def fields (key : PublicKey) : Bool ×ₗ Block 32 := toLex (key.oddY, key.x)

theorem fields_injective : Function.Injective fields := by
  rintro ⟨_, _⟩ ⟨_, _⟩ hequal
  cases hequal
  rfl

instance linearOrderPublicKey : LinearOrder PublicKey := .lift' fields fields_injective

end PublicKey

/-- x-only serialization of a public key, the form the core keys on. -/
def xonly (key : PublicKey) : Block 32 := key.x

abbrev Fingerprint := Block 4

/-- The master fingerprint and the path from the master key; `None` sorts first,
as the empty list does. -/
abbrev KeyOrigin := Option (Fingerprint × DerivationPath)

namespace KeyOrigin

def fields (origin : KeyOrigin) : List (Fingerprint ×ₗ DerivationPath) :=
  origin.toList.map toLex

theorem fields_injective : Function.Injective fields := by
  rintro (_ | _) (_ | _) hequal
  all_goals cases hequal
  all_goals rfl

end KeyOrigin

inductive Wildcard
  | none
  | unhardened
  | hardened
  deriving DecidableEq, Repr

namespace Wildcard

def rank : Wildcard → ℕ
  | .none => 0
  | .unhardened => 1
  | .hardened => 2

theorem rank_injective : Function.Injective rank := by
  intro first second hequal
  cases first <;> cases second <;> first | rfl | cases hequal

end Wildcard

/-- An extended public key. -/
structure Xpub where
  testNetwork : Bool
  depth : UInt8
  parentFingerprint : Fingerprint
  childNumber : UInt32
  publicKey : PublicKey
  chainCode : Block 32

namespace Xpub

def fields (xpub : Xpub) :
    Bool ×ₗ UInt8 ×ₗ Fingerprint ×ₗ UInt32 ×ₗ PublicKey ×ₗ Block 32 :=
  toLex (xpub.testNetwork, toLex (xpub.depth, toLex (xpub.parentFingerprint,
    toLex (xpub.childNumber, toLex (xpub.publicKey, xpub.chainCode)))))

theorem fields_injective : Function.Injective fields := by
  rintro ⟨_, _, _, _, _, _⟩ ⟨_, _, _, _, _, _⟩ hequal
  cases hequal
  rfl

instance linearOrderXpub : LinearOrder Xpub := .lift' fields fields_injective

end Xpub

/-- A literal key, full or x-only. -/
inductive SinglePubKey
  | fullKey (compressed : Bool) (inner : PublicKey)
  | xOnly (x : Block 32)

structure SinglePub where
  origin : KeyOrigin
  key : SinglePubKey

/-- An xpub followed by one derivation path. -/
structure DescriptorXKey where
  origin : KeyOrigin
  xkey : Xpub
  derivationPath : DerivationPath
  wildcard : Wildcard

/-- The paths of a multipath key; there is always one. -/
abbrev DerivPaths := { paths : List DerivationPath // paths ≠ [] }

def DerivPaths.ofList (paths : List DerivationPath) : Option DerivPaths :=
  if hpaths : paths ≠ [] then some ⟨paths, hpaths⟩ else none

theorem DerivPaths.ofList_val (paths : DerivPaths) : ofList paths.1 = some paths :=
  dif_pos paths.2

/-- An xpub followed by several derivation paths. -/
structure DescriptorMultiXKey where
  origin : KeyOrigin
  xkey : Xpub
  derivationPaths : DerivPaths
  wildcard : Wildcard

/-- A key expression of a descriptor. -/
inductive DescriptorPublicKey
  | single (key : SinglePub)
  | xPub (key : DescriptorXKey)
  | multiXPub (key : DescriptorMultiXKey)

namespace DescriptorPublicKey

/-- There are several derivation paths to choose from. -/
def isMultipath : DescriptorPublicKey → Bool
  | .single _ | .xPub _ => false
  | .multiXPub _ => true

/-- The fields of the three variants, in the order of the variants. -/
def fields : DescriptorPublicKey →
    (List (Fingerprint ×ₗ DerivationPath) ×ₗ ((Bool ×ₗ PublicKey) ⊕ₗ Block 32)) ⊕ₗ
    (List (Fingerprint ×ₗ DerivationPath) ×ₗ Xpub ×ₗ DerivationPath ×ₗ ℕ) ⊕ₗ
    (List (Fingerprint ×ₗ DerivationPath) ×ₗ Xpub ×ₗ List DerivationPath ×ₗ ℕ)
  | .single ⟨origin, .fullKey compressed inner⟩ =>
      toLex (.inl (toLex (KeyOrigin.fields origin, toLex (.inl (toLex (compressed, inner))))))
  | .single ⟨origin, .xOnly x⟩ =>
      toLex (.inl (toLex (KeyOrigin.fields origin, toLex (.inr x))))
  | .xPub ⟨origin, xkey, path, wildcard⟩ =>
      toLex (.inr (toLex (.inl (toLex (KeyOrigin.fields origin,
        toLex (xkey, toLex (path, wildcard.rank)))))))
  | .multiXPub ⟨origin, xkey, paths, wildcard⟩ =>
      toLex (.inr (toLex (.inr (toLex (KeyOrigin.fields origin,
        toLex (xkey, toLex (paths.1, wildcard.rank)))))))

theorem fields_injective : Function.Injective fields := by
  intro first second hequal
  rcases first with ⟨_, _ | _⟩ | ⟨_, _, _, _⟩ | ⟨_, _, _, _⟩ <;>
    rcases second with ⟨_, _ | _⟩ | ⟨_, _, _, _⟩ | ⟨_, _, _, _⟩ <;>
    simp only [fields, EmbeddingLike.apply_eq_iff_eq, Prod.mk.injEq, Sum.inl.injEq, Sum.inr.injEq,
      reduceCtorEq, and_false, KeyOrigin.fields_injective.eq_iff, Wildcard.rank_injective.eq_iff,
      Subtype.val_injective.eq_iff] at hequal
  all_goals
    simp only [single.injEq, xPub.injEq, multiXPub.injEq, SinglePub.mk.injEq,
      SinglePubKey.fullKey.injEq, SinglePubKey.xOnly.injEq, DescriptorXKey.mk.injEq,
      DescriptorMultiXKey.mk.injEq]
    exact hequal

instance linearOrderDescriptorPublicKey : LinearOrder DescriptorPublicKey :=
  .lift' fields fields_injective

end DescriptorPublicKey

abbrev DescriptorKey := DescriptorPublicKey

inductive KeyExpr
  /-- A literal public key. -/
  | literal (xonly : Block 32) (originPath : Option DerivationPath)
  /-- An extended public key. It is `derived` when a non-empty trailing derivation
  or a wildcard follows it, and `multipath` when it has several derivation paths. -/
  | xPub (root : PublicKey) (originPath : Option DerivationPath) (derived multipath : Bool)

/-- A non-empty trailing derivation on every path, or a wildcard. -/
def isDerived (paths : List DerivationPath) (wildcard : Wildcard) : Bool :=
  let deriv := !paths.isEmpty && paths.all fun path => !path.isEmpty
  deriv || wildcard != .none

def classify : DescriptorKey → KeyExpr
  | .single key =>
      .literal
        (match key.key with
          | .fullKey _ inner => xonly inner
          | .xOnly x => x)
        (key.origin.map Prod.snd)
  | .xPub key =>
      .xPub key.xkey.publicKey (key.origin.map Prod.snd)
        (isDerived [key.derivationPath] key.wildcard) false
  | .multiXPub key =>
      .xPub key.xkey.publicKey (key.origin.map Prod.snd)
        (isDerived key.derivationPaths.1 key.wildcard) true

inductive Error
  | ll (cause : Ll.Error)
  | utf8
  | descriptor
  | descriptorBackup
  | walletPolicy
  | notImplemented
  | unknownContent
  | encryptionUndefined
  | unsupportedEncryption
  | invalidVersion
  | wrongPayload
  | unknownVersion
  | noKey
  | wrongKey
  | descriptorHasNoKeys
  | base64
  | invalidKeyExpression
  | string (text : String)
  deriving DecidableEq, Repr

/-- A key expression was sorted out of the encryption-key set: the cosigner that
holds the key will not be able to decrypt the backup with it. -/
inductive Warning
  /-- The expression may not encrypt, such as a literal key or a bare xpub. -/
  | disallowedKeyExpression (key : DescriptorKey)
  /-- The expression resolves to the BIP341 NUMS point. -/
  | numsKey (key : DescriptorKey)
  /-- A literal key or a bare xpub in the payload puts this root on chain. -/
  | exposedRoot (key : PublicKey)
  deriving DecidableEq

end Bip138
