/-
# The two forms of a policy document

A policy document is written in one of two shapes, chosen from its content, and the parser
tells them apart by the names it finds. Here the structures are written and read as their
derived implementations do it, with the members that are skipped and those that have a
default, so that all there is to assume is what `serde_json` does with text and miniscript
with keys: no document loses anything, whichever shape it takes.
-/

import Bip138.Rust.Json
import Bip138.Front.PolicyKeys

namespace Bip138

open Bip138.Rust Bip138.Ll

/-- `serde_json` between text and values. -/
class JsonText where
  /-- `to_vec` of a structure, given its value. -/
  write : Json → Option Bytes
  /-- `from_str::<Value>`. -/
  read : String → Option Json

/-- `Display` of a key expression. -/
class KeyText where
  keyToString : DescriptorKey → String

/-- What is written of the value is the text of an object, and is read as the value. -/
def JsonText.ReadsBack [JsonText] (value : Json) : Prop :=
  ∃ text, JsonText.write value = some (asBytes text) ∧ startsWithChar text '{' = true ∧
    JsonText.read text = some value

section Derived

variable [Miniscript] [KeyText]

omit [Miniscript] in
/-- `Serialize` of a set, with the metadata that is there. -/
def PolicySet.toValue (set : PolicySet) : Json :=
  .object
    (Json.skipped "archived" (if set.archived then some (.bool true) else none) ++
      Json.skipped "birth_time" (set.birthTime.map fun time => .natural time.toNat) ++
      [("keys", .array (set.keys.map fun key => .string (KeyText.keyToString key))),
        ("policy", .string set.policy)] ++
      Json.skipped "range" (set.range.map fun range =>
        .array [.natural range.1.toNat, .natural range.2.toNat]))

omit [Miniscript] in
/-- `Serialize` of a document. -/
def PolicyBackup.toValue (backup : PolicyBackup) : Json :=
  .object [("policy_sets", .array (backup.policySets.map PolicySet.toValue)),
    ("version", .natural backup.version.toNat)]

omit [KeyText] in
/-- `Deserialize` of a key expression. -/
def keyOfValue (value : Json) : Option DescriptorKey := do
  let text ← value.asString
  Miniscript.keyFromStr text

omit [KeyText] in
/-- `Deserialize` of a set. -/
def PolicySet.ofValue (value : Json) : Option PolicySet := do
  let members ← value.fields ["keys", "policy", "archived", "range", "birth_time"]
  let keys ← Json.required members "keys" (Json.asList keyOfValue)
  let policy ← Json.required members "policy" Json.asString
  let archived ← Json.defaulted members "archived" false Json.asBool
  let range ← Json.defaulted members "range" none (Json.asOption (Json.asPair Json.asU32))
  let birthTime ← Json.defaulted members "birth_time" none (Json.asOption Json.asU64)
  some ⟨keys, policy, archived, range, birthTime⟩

omit [KeyText] in
/-- `Deserialize` of a document. -/
def PolicyBackup.ofValue (value : Json) : Option PolicyBackup := do
  let members ← value.fields ["version", "policy_sets"]
  let version ← Json.required members "version" Json.asU32
  let policySets ← Json.required members "policy_sets" (Json.asList PolicySet.ofValue)
  some ⟨version, policySets⟩

variable [JsonText]

namespace Derived

omit [Miniscript] [KeyText] in
scoped instance serdeJson : SerdeJson where
  Value := Json
  valueFromStr := JsonText.read
  asObject := Json.names

scoped instance serdePolicySet : Serde PolicySet where
  toVec set := JsonText.write set.toValue
  fromStr text := JsonText.read text >>= PolicySet.ofValue
  fromValue := PolicySet.ofValue

scoped instance serdePolicyBackup : Serde PolicyBackup where
  toVec backup := JsonText.write backup.toValue
  fromStr text := JsonText.read text >>= PolicyBackup.ofValue
  fromValue := PolicyBackup.ofValue

end Derived

end Derived

section Lossless

variable [Miniscript] [KeyText] {set : PolicySet} {backup : PolicyBackup}

/-- The keys of the set are read back from their texts. -/
def PolicySet.KeysReadBack (set : PolicySet) : Prop :=
  ∀ key ∈ set.keys, Miniscript.keyFromStr (KeyText.keyToString key) = some key

/-- What is skipped when a set is written is what has a default when it is read. -/
theorem PolicySet.ofValue_toValue (hkeys : set.KeysReadBack) :
    PolicySet.ofValue set.toValue = some set := by
  obtain ⟨keys, policy, archived, range, birthTime⟩ := set
  have hlist : Json.asList keyOfValue (.array (keys.map fun key =>
      .string (KeyText.keyToString key))) = some keys := Json.asList_map hkeys
  cases archived <;> rcases range with _ | range <;> rcases birthTime with _ | birthTime <;>
    simp [toValue, ofValue, Json.fields, Json.skipped, Json.required, Json.defaulted,
      List.lookup_cons, hlist, Json.asString, Json.asBool, Json.asOption, Json.asPair]

omit [Miniscript] in
/-- A set is told from a document by the names of its members. -/
theorem PolicySet.exists_names_toValue (set : PolicySet) :
    ∃ names, set.toValue.names = some names ∧ "policy" ∈ names ∧ "policy_sets" ∉ names := by
  obtain ⟨keys, policy, archived, range, birthTime⟩ := set
  cases archived <;> rcases range with _ | range <;> rcases birthTime with _ | birthTime <;>
    exact ⟨_, rfl, by simp [Json.skipped], by simp [Json.skipped]⟩

theorem PolicyBackup.ofValue_toValue (hkeys : ∀ set ∈ backup.policySets, set.KeysReadBack) :
    PolicyBackup.ofValue backup.toValue = some backup := by
  have hlist : Json.asList PolicySet.ofValue (.array (backup.policySets.map PolicySet.toValue)) =
      some backup.policySets := Json.asList_map fun set hset =>
    PolicySet.ofValue_toValue (hkeys set hset)
  simp [toValue, ofValue, Json.fields, Json.required, List.lookup_cons, hlist]

variable [JsonText]

open Derived

/-- What `serde_json` reads back as a value, the derived implementations read back. -/
theorem PolicyBackup.jsonRoundTrip (hkeys : ∀ set ∈ backup.policySets, set.KeysReadBack)
    (hsets : ∀ set ∈ backup.policySets, JsonText.ReadsBack set.toValue)
    (hdocument : JsonText.ReadsBack backup.toValue) : backup.JsonRoundTrip where
  set set hsingle bytes hbytes := by
    have hmem : set ∈ backup.policySets := by
      rw [PolicyBackup.eq_of_single? hsingle]
      exact List.mem_singleton_self set
    obtain ⟨text, hwrite, hbrace, hread⟩ := hsets set hmem
    obtain rfl : asBytes text = bytes := Option.some.inj (hwrite.symm.trans hbytes)
    have hvalue := PolicySet.ofValue_toValue (hkeys set hmem)
    obtain ⟨names, hnames, hpolicy, hother⟩ := set.exists_names_toValue
    refine ⟨text, set.toValue, names, rfl, hbrace, ?_, hread, hnames,
      List.forall_mem_singleton.mpr hpolicy, List.forall_mem_singleton.mpr hother, hvalue⟩
    change JsonText.read text >>= PolicySet.ofValue = some set
    rw [hread]
    exact hvalue
  backup bytes hbytes := by
    obtain ⟨text, hwrite, hbrace, hread⟩ := hdocument
    obtain rfl : asBytes text = bytes := Option.some.inj (hwrite.symm.trans hbytes)
    have hvalue := PolicyBackup.ofValue_toValue hkeys
    refine ⟨text, backup.toValue, ["policy_sets", "version"], rfl, hbrace, ?_, hread, rfl,
      by simp, by simp, hvalue⟩
    change JsonText.read text >>= PolicyBackup.ofValue = some backup
    rw [hread]
    exact hvalue

/-- Policy documents round-trip. Every document that `validate` accepts is written, and what
is written is parsed as the document, in the single form as in the other. -/
theorem PolicyBackup.exists_toPayload_parsePolicyBackup
    (hkeys : ∀ set ∈ backup.policySets, set.KeysReadBack)
    (hsets : ∀ set ∈ backup.policySets, JsonText.ReadsBack set.toValue)
    (hdocument : JsonText.ReadsBack backup.toValue) (hvalidate : backup.validate = .ok ()) :
    ∃ bytes, backup.toPayload = .ok bytes ∧ parsePolicyBackup bytes = .ok backup := by
  have hwritten : ∃ bytes, backup.toPayload = .ok bytes := by
    rw [PolicyBackup.toPayload]
    rcases hsingle : backup.single? with _ | set
    · obtain ⟨text, hwrite, -⟩ := hdocument
      exact ⟨_, Exec.okOr_eq_ok_iff.mpr hwrite⟩
    · have hmem : set ∈ backup.policySets := by
        rw [PolicyBackup.eq_of_single? hsingle]
        exact List.mem_singleton_self set
      obtain ⟨text, hwrite, -⟩ := hsets set hmem
      exact ⟨_, Exec.okOr_eq_ok_iff.mpr hwrite⟩
  obtain ⟨bytes, hbytes⟩ := hwritten
  exact ⟨bytes, hbytes, parsePolicyBackup_toPayload
    (PolicyBackup.jsonRoundTrip hkeys hsets hdocument) hvalidate hbytes⟩

end Lossless

namespace PolicyBackup.Forms

open Bip138.Sample Bip138.PolicyBackup.Sample

scoped instance keyText : KeyText where
  keyToString key := ((keyTexts.find? (·.1 = key)).map Prod.snd).getD ""

/-- An archived account, with its range and its birth time. -/
def archivedSet : PolicySet := ⟨[policyKey], "wpkh(@0/**)", true, some (0, 99), some 1700000000⟩

def metadata : String := ",\"archived\":true,\"range\":[0,99],\"birth_time\":1700000000"

def setText (metadata : String) : String :=
  "\x7b\"keys\":[\"" ++ tpub ++ "\"],\"policy\":\"wpkh(@0/**)\"" ++ metadata ++ "\x7d"

def documentHead : String := "\x7b\"version\":1,\"policy_sets\":["

def documentText (set : String) : String := documentHead ++ set ++ "]\x7d"

/-- The metadata of a set of the examples. -/
def metadataOf : Json → String
  | .object members => if (members.map Prod.fst).contains "archived" then metadata else ""
  | _ => ""

/-- The text of a structure of the examples. -/
def textOf : Json → String
  | .object [("policy_sets", .array [set]), _] => documentText (setText (metadataOf set))
  | set => setText (metadataOf set)

/-- The texts of the examples, and the values they are read as. -/
def texts : List String :=
  ["", metadata].map setText ++ ["", metadata].map fun metadata => documentText (setText metadata)

def values : List Json :=
  [policySet, archivedSet].map PolicySet.toValue ++
    [policySet, archivedSet].map fun set => PolicyBackup.toValue ⟨1, [set]⟩

scoped instance jsonText : JsonText where
  write value := some (asBytes (textOf value))
  read text := values[texts.idxOf text]?

theorem read_eq {text : String} {place : ℕ} (hplace : texts.idxOf text = place) :
    JsonText.read text = values[place]? := by
  rw [← hplace]
  rfl

theorem startsWithChar_setText (metadata : String) :
    startsWithChar (setText metadata) '\x7b' = true := by
  simp [startsWithChar, setText]

theorem startsWithChar_documentText (set : String) :
    startsWithChar (documentText set) '\x7b' = true := by
  have hhead : documentHead.toList.head? = some '\x7b' := by decide +kernel
  simp [startsWithChar, documentText, hhead]

theorem readsBack_set {set : PolicySet} (hset : set = policySet ∨ set = archivedSet) :
    JsonText.ReadsBack set.toValue := by
  rcases hset with rfl | rfl
  · have hplace : texts.idxOf (setText "") = 0 := by decide +kernel
    exact ⟨setText "", rfl, startsWithChar_setText _, read_eq hplace⟩
  · have hplace : texts.idxOf (setText metadata) = 1 := by decide +kernel
    exact ⟨setText metadata, rfl, startsWithChar_setText _, read_eq hplace⟩

theorem readsBack_document {set : PolicySet} (hset : set = policySet ∨ set = archivedSet) :
    JsonText.ReadsBack (PolicyBackup.toValue ⟨1, [set]⟩) := by
  rcases hset with rfl | rfl
  · have hplace : texts.idxOf (documentText (setText "")) = 2 := by decide +kernel
    exact ⟨_, rfl, startsWithChar_documentText _, read_eq hplace⟩
  · have hplace : texts.idxOf (documentText (setText metadata)) = 3 := by decide +kernel
    exact ⟨_, rfl, startsWithChar_documentText _, read_eq hplace⟩

theorem keysReadBack {set : PolicySet} (hset : set = policySet ∨ set = archivedSet) :
    set.KeysReadBack := by
  rcases hset with rfl | rfl
  · exact List.forall_mem_singleton.mpr (by decide +kernel)
  · exact List.forall_mem_singleton.mpr (by decide +kernel)

theorem validate_document {set : PolicySet} (hset : set = policySet ∨ set = archivedSet) :
    PolicyBackup.validate ⟨1, [set]⟩ = .ok () := by
  rcases hset with rfl | rfl <;> decide +kernel

end PolicyBackup.Forms

open Bip138.Sample Derived PolicyBackup.Forms in
/-- A document in the single form, and one with metadata in the other. -/
theorem PolicyBackup.exists_toPayload_parsePolicyBackup_forms :
    (∃ bytes, PolicyBackup.toPayload ⟨1, [policySet]⟩ = .ok bytes ∧
        parsePolicyBackup bytes = .ok ⟨1, [policySet]⟩) ∧
      ∃ bytes, PolicyBackup.toPayload ⟨1, [archivedSet]⟩ = .ok bytes ∧
        parsePolicyBackup bytes = .ok ⟨1, [archivedSet]⟩ := by
  constructor
  · exact PolicyBackup.exists_toPayload_parsePolicyBackup
      (List.forall_mem_singleton.mpr (keysReadBack (.inl rfl)))
      (List.forall_mem_singleton.mpr (readsBack_set (.inl rfl))) (readsBack_document (.inl rfl))
      (validate_document (.inl rfl))
  · exact PolicyBackup.exists_toPayload_parsePolicyBackup
      (List.forall_mem_singleton.mpr (keysReadBack (.inr rfl)))
      (List.forall_mem_singleton.mpr (readsBack_set (.inr rfl))) (readsBack_document (.inr rfl))
      (validate_document (.inr rfl))

end Bip138
