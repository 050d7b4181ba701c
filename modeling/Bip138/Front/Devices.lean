/-
# Signing devices

What `XpubCollector` tells of a device: its kind, how much a path is expected of it, and
the failure that ends a collection. The devices themselves answer as they please.
-/

import Bip138.Ll.Container

namespace Bip138

inductive DeviceKind
  | bitBox02
  | coldcard
  | ledger
  | ledgerSimulator
  | specter
  | specterSimulator
  | jade
  deriving DecidableEq, Repr

/-- What is made of a failure to fetch at a path. -/
inductive Expect
  /-- The path is in the envelope: the user is notified. -/
  | promptUser
  /-- Every device lets this path be fetched. -/
  | mustFetch
  /-- Some devices refuse this path. -/
  | canFail
  deriving DecidableEq, Repr

structure FetchFailed where
  device : DeviceKind
  path : Ll.DerivationPath
  expect : Expect
  error : String
  deriving DecidableEq, Repr

/-- What a device answers to a request for an extended key, of which its root is used. -/
inductive DeviceAnswer (Key : Type)
  | xpub (key : Key)
  | failed (error : String)
  | timedOut

end Bip138
