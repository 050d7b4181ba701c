/-
# Payloads

What can be put in a backup. `ToPayload` is a trait object of the source: the
results of its methods on one value. The types the library itself can encrypt are
its instances here and, for the backup documents, in the next module.
-/

import Bip138.Front.Descriptor
import Bip138.Ll.Content

namespace Bip138

open Bip138.Rust Bip138.Ll

/-- `dyn ToPayload`. The last field is an assumption on the types of a caller, which the trait
does not state: they leave it to the builder to report exposed roots. The types of the library
do (`exposedRoot_not_mem_descrWarnings`). -/
structure ToPayload where
  toPayload : Exec Error Bytes
  contentType : Content
  /-- Origin derivation path of each encryption key, paired with that key. -/
  keyDerivationPaths : Exec Error (List (PublicKey × DerivationPath))
  keys : Exec Error (List PublicKey)
  /-- Warnings about filtered key expressions. -/
  warnings : Exec Error (List Warning) := .ok []
  /-- x-only keys the item puts on chain as is. -/
  exposedKeys : List (Block 32) := []
  warnings_filtered : ∀ list, warnings = .ok list → ∀ key, .exposedRoot key ∉ list

namespace ToPayload

/-- A payload without keys. -/
private def keyless (payload : Bytes) (contentType : Content) : ToPayload where
  toPayload := .ok payload
  contentType := contentType
  keyDerivationPaths := .ok []
  keys := .ok []
  warnings_filtered := by
    rintro _ ⟨⟩ key
    exact List.not_mem_nil

/-- `impl ToPayload for Vec<u8>`. -/
def ofBytes (bytes : Bytes) : ToPayload := keyless bytes .unknown

/-- `impl ToPayload for String`. -/
def ofString (text : String) : ToPayload := keyless (asBytes text) .string

/-- `impl ToPayload for Bip138`, a backup inside a backup. -/
def ofBip138 (bytes : Bytes) : ToPayload := keyless bytes .bip138

/-- `impl ToPayload for Descriptor`. -/
def ofDescriptor [Miniscript] (descriptor : Descriptor) : ToPayload where
  toPayload := .ok (asBytes descriptor.toString)
  contentType := .bip380
  keyDerivationPaths := .ok (dpksToKeyPaths (descrToDpks descriptor))
  keys := .ok (dpksToDerivationKeysPaths (descrToDpks descriptor)).1
  warnings := descrWarnings descriptor
  exposedKeys := descrExposedKeys descriptor
  warnings_filtered _ := exposedRoot_not_mem_descrWarnings

end ToPayload

end Bip138
