/-
# The size of a payload on a 32-bit machine

The encoder limits the data of each item to what a 32-bit length can count. The payload it
builds also holds the content fields and the length prefixes, and any number of items, so
its size is a sum (`length_of_buildV1Payload`), and with the tag of the cipher on top it may
be more than a 32-bit machine can read back.
-/

import Bip138.Ll.Plaintext

namespace Bip138.Ll

open Bip138.Rust Bip138.Wire

/-- The bytes a varint takes. -/
def varintSize (value : UInt64) : ℕ :=
  if value.toNat ≤ 0xFC then 1
  else if value.toNat ≤ 0xFFFF then 3
  else if value.toNat ≤ 0xFFFFFFFF then 5
  else 9

/-- The bytes the content field of an item takes. -/
def contentSize : Content → ℕ
  | .none | .unknown => 0
  | .bip138 | .bip139 | .bip380 | .bip388 | .bip329 | .bip _ => 3
  | .string => 2
  | .proprietary tag => 1 + varintSize (UInt64.ofNat tag.length) + tag.length

/-- The bytes an item takes: its content field, the length of its data, its data. -/
def itemSize (item : Content × Bytes) : ℕ :=
  contentSize item.1 + varintSize (UInt64.ofNat item.2.length) + item.2.length

theorem Varint.length_encode (value : UInt64) : (Varint.encode value).length = varintSize value := by
  rw [Varint.encode, varintSize]
  split_ifs <;> rfl

theorem length_toBytes_getD (content : Content) :
    (content.toBytes.getD []).length = contentSize content := by
  cases content with
  | proprietary tag =>
      simp only [Content.toBytes, contentSize, Option.bind_eq_bind, Option.bind_some,
        Option.getD_some, List.length_append, List.length_singleton, Varint.length_encode]
  | _ => rfl

theorem length_itemBytes (item : Content × Bytes) : (itemBytes item).length = itemSize item := by
  rw [itemBytes, encodeItem, List.length_append, List.length_append, length_toBytes_getD,
    Varint.length_encode, itemSize]

section Limit

variable [Target] {items : List (Content × Bytes)} {payload : Bytes}

/-- A payload without padding is as long as its items together. -/
theorem length_of_buildV1Payload (hbuild : buildV1Payload items .none = .ok payload) :
    payload.length = (items.map itemSize).sum := by
  obtain ⟨-, -, target, htarget, rfl⟩ := buildV1Payload_eq_ok_iff.mp hbuild
  cases htarget
  rw [Nat.sub_self, List.replicate_zero, List.append_nil, List.length_flatMap]
  exact congrArg List.sum (List.map_congr_left fun item _ => length_itemBytes item)

end Limit

/-- The tag the cipher puts behind the plaintext. -/
def tagSize : ℕ := 16

/-- A 32-bit machine can read the length of the cyphertext of this payload, and the cipher
can encrypt it. -/
structure ReadableOn32 (payload : Bytes) : Prop where
  length_le : payload.length + tagSize ≤ u32Max
  usize : ∃ size, @usizeTryFrom target32 (payload.length + tagSize) = some size
  plaintext_le : payload.length ≤ 2 ^ 38 - 64

theorem readableOn32_iff {payload : Bytes} :
    ReadableOn32 payload ↔ payload.length + tagSize ≤ u32Max := by
  refine ⟨fun hreadable => hreadable.length_le, fun hlength => ⟨hlength, ?_, ?_⟩⟩
  · exact ⟨_, (@usizeTryFrom_eq_some_iff target32 _ _).mpr ⟨hlength, rfl⟩⟩
  · rw [u32Max, tagSize] at hlength
    omega

/-- The payload of these items can be read on a 32-bit machine exactly when the items, with
their content fields and their lengths, leave room for the tag below `2 ^ 32`. -/
theorem readableOn32_buildV1Payload_iff [Target] {items : List (Content × Bytes)}
    {payload : Bytes} (hbuild : buildV1Payload items .none = .ok payload) :
    ReadableOn32 payload ↔ (items.map itemSize).sum + 16 ≤ 2 ^ 32 - 1 := by
  rw [readableOn32_iff, length_of_buildV1Payload hbuild]
  rfl

/-- The longest item the encoder takes is already too long. -/
theorem not_readableOn32_of_length_eq [Target] {data : Bytes} (hlength : data.length = u32Max) :
    ∃ payload, buildV1Payload [(.string, data)] .none = .ok payload ∧ ¬ ReadableOn32 payload := by
  have hvalid : ItemValid (.string, data) := by
    refine ⟨?_, hlength.le, Content.noConfusion, Content.noConfusion⟩
    rintro rfl
    cases hlength
  refine ⟨_, buildV1Payload_eq_ok_iff.mpr ⟨List.cons_ne_nil _ _,
    List.forall_mem_singleton.mpr hvalid, _, rfl, rfl⟩, fun hreadable => ?_⟩
  have hbound := hreadable.length_le
  rw [List.length_append, List.flatMap_singleton, length_itemBytes, itemSize] at hbound
  dsimp only at hbound
  rw [hlength, tagSize] at hbound
  omega

/-- The encoder takes an item of `u32::MAX` bytes, whose payload is longer than that. -/
theorem not_readableOn32_longest_item :
    ∃ payload, @buildV1Payload target64 [(.string, List.replicate u32Max 0)] .none = .ok payload ∧
      ¬ ReadableOn32 payload :=
  @not_readableOn32_of_length_eq target64 _ List.length_replicate

/-- A readable payload, of three items that take 17 bytes together. -/
theorem readableOn32_buildV1Payload_three_items :
    ReadableOn32 [0x03, 0x00, 0x02, 0x68, 0x69, 0x01, 0x01, 0x7C, 0x02, 0x77, 0x70, 0x02, 0x02,
      0x01, 0x02, 0x01, 0x2A] :=
  (@readableOn32_buildV1Payload_iff target64
    [(.string, [0x68, 0x69]), (.bip380, [0x77, 0x70]), (.proprietary [0x01, 0x02], [0x2A])] _
    (by decide +kernel)).mpr (by decide +kernel)

end Bip138.Ll
