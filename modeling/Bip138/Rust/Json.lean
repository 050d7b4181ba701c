/-
# JSON values and derived structures

The values of a JSON document, and how a structure with derived `Serialize` and
`Deserialize` is written to one and read from it. A member is looked up by its name; one with
a default may be missing, which is why it may also be skipped when it is written. Reading
back what was written is then a matter of one member at a time.
-/

import Bip138.Rust.Loop

namespace Bip138.Rust

/-- A JSON value. The members of an object are in the order of their names. -/
inductive Json
  | null
  | bool (value : Bool)
  /-- A number without a sign and a fraction. -/
  | natural (value : ℕ)
  /-- Any other number, as it is written. -/
  | number (text : String)
  | string (text : String)
  | array (items : List Json)
  | object (members : List (String × Json))

namespace Json

variable {α : Type}

/-- The names of the members of an object. -/
def names : Json → Option (List String)
  | .object members => some (members.map Prod.fst)
  | _ => none

def asBool : Json → Option Bool
  | .bool value => some value
  | _ => none

def asString : Json → Option String
  | .string text => some text
  | _ => none

def asU32 : Json → Option UInt32
  | .natural value => if value ≤ u32Max then some (.ofNat value) else none
  | _ => none

def asU64 : Json → Option UInt64
  | .natural value => if value < 2 ^ 64 then some (.ofNat value) else none
  | _ => none

/-- A list, of items that are all read. -/
def asList (read : Json → Option α) : Json → Option (List α)
  | .array items => items.mapM read
  | _ => none

/-- A pair, which is an array of two. -/
def asPair (read : Json → Option α) : Json → Option (α × α)
  | .array [first, second] => do
      let first ← read first
      let second ← read second
      some (first, second)
  | _ => none

/-- `Option`, of which `null` is no value. -/
def asOption (read : Json → Option α) : Json → Option (Option α)
  | .null => some none
  | value => (read value).map some

/-- The members a structure with these fields is read from. An array holds them in the order
of the fields, and may lack the last ones. -/
def fields (names : List String) : Json → Option (List (String × Json))
  | .object members => some members
  | .array items => if items.length ≤ names.length then some (names.zip items) else none
  | _ => none

/-- A field that has to be there. -/
def required (members : List (String × Json)) (name : String) (read : Json → Option α) :
    Option α := do
  let value ← members.lookup name
  read value

/-- A field with `#[serde(default)]`. -/
def defaulted (members : List (String × Json)) (name : String) (default : α)
    (read : Json → Option α) : Option α :=
  match members.lookup name with
  | some value => read value
  | none => some default

/-- A field with `#[serde(skip_serializing_if)]`. -/
def skipped (name : String) (value : Option Json) : List (String × Json) :=
  (value.map fun value => (name, value)).toList

@[simp]
theorem asU32_natural (value : UInt32) : asU32 (.natural value.toNat) = some value := by
  have hvalue := value.toNat_lt
  rw [asU32, if_pos (by rw [u32Max]; omega), UInt32.ofNat_toNat]

@[simp]
theorem asU64_natural (value : UInt64) : asU64 (.natural value.toNat) = some value := by
  have hvalue := value.toNat_lt
  rw [asU64, if_pos hvalue, UInt64.ofNat_toNat]

/-- A list is read back when its items are. -/
theorem asList_map {read : Json → Option α} {write : α → Json} {items : List α}
    (hitems : ∀ item ∈ items, read (write item) = some item) :
    asList read (.array (items.map write)) = some items := by
  rw [asList, mapM_eq_some_iff, List.forall₂_map_left_iff, List.forall₂_same]
  exact hitems

end Json

end Bip138.Rust
