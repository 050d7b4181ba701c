/-
# The lengths of a container

Inspecting a container lists the lengths of its encrypted payloads without taking them
out: the first one, which every container has, and those a vendor may have put behind
it. The walk reads the same payloads as `parseEncryptedPayload` (`EncryptedPayload`), and
ends where no further one can be read.

With this walk the decoders of the core are complete, and all of them come back.
-/

import Bip138.Ll.Plaintext
import Bip138.Ll.Returns

namespace Bip138.Ll

open Bip138.Rust Bip138.Wire

section Code

variable [Target]

/-- The length of the cyphertext at `offset`, and the offset after it. -/
def parseEncryptedPayloadLength (bytes : Bytes) (offset : ℕ) : Exec Error (ℕ × ℕ) := do
  checkOffsetLookahead offset bytes 12
  let stop ← add offset 12
  let raw ← slice bytes offset stop
  let nonce ← Block.expect 12 raw
  if nonce = Block.zero 12 then .fail .zeroedNonce
  else do
    let offset ← .okOr (checkedAdd offset 12) .offsetOverflow
    let tail ← sliceFrom bytes offset
    let (dataLen, incr) ← .okOr (Varint.parse tail) .varInt
    let dataLen ← .okOr (usizeTryFrom dataLen.toNat) .dataLength
    let offset ← .okOr (checkedAdd offset incr) .offsetOverflow
    let stop ← .okOr (checkedAdd offset dataLen) .offsetOverflow
    if bytes.length < stop then .fail .corrupted else .ok (dataLen, stop)

/-- One pass of the loop of `parseEncryptedPayloadLengths`, on its offset and lengths. -/
def parseEncryptedPayloadLengthsStep (bytes : Bytes) :
    ℕ × List ℕ → Exec Error (LoopFlow (ℕ × List ℕ) (List ℕ))
  | (offset, lengths) =>
    if offset < bytes.length then
      match parseEncryptedPayloadLength bytes offset with
      | .ok (dataLen, stop) => .ok (.next (stop, lengths ++ [dataLen]))
      -- what is no payload is trailing bytes, and ends the walk
      | .error (.error _) => .ok (.done lengths)
      | .error (.panic cause) => .abort cause
      | .error .unfinished => .error .unfinished
    else .ok (.done lengths)

def parseEncryptedPayloadLengths (bytes : Bytes) : Exec Error (List ℕ) :=
  if bytes = [] then .fail .emptyBytes
  else do
    let (dataLen, offset) ← parseEncryptedPayloadLength bytes 0
    loop (parseEncryptedPayloadLengthsStep bytes) (bytes.length + 1) (offset, [dataLen])

def decodeV1EncryptedPayloadLengths (bytes : Bytes) : Exec Error (List ℕ) := do
  let (offset, _, _, _) ← parseV1Header bytes
  let tail ← sliceFrom bytes offset
  parseEncryptedPayloadLengths tail

end Code

theorem EncryptedPayload.length_pos {payload : Block 12 × Bytes} {word : Bytes}
    (hword : EncryptedPayload payload word) : 0 < word.length := by
  obtain ⟨_, rest, ⟨-, rfl⟩, -, rfl⟩ := hword
  rw [List.length_append, payload.1.2]
  omega

section Walk

variable [Target] {bytes : Bytes} {start stop : ℕ}

/-- What is measured is a payload, and its length is that of the cyphertext. -/
theorem parseEncryptedPayloadLength_eq_ok_iff {dataLen : ℕ} (hfits : bytes.length ≤ isizeMax) :
    parseEncryptedPayloadLength bytes start = .ok (dataLen, stop) ↔
      ∃ payload, Reads EncryptedPayload bytes start stop payload ∧
        dataLen = payload.2.length := by
  have husize := two_mul_isizeMax_lt_usizeMax
  have hwidth := usizeMax_lt_two_pow_64
  simp only [parseEncryptedPayloadLength, EncryptedPayload, Nonce, reads_seq_iff, reads_block_iff,
    reads_sizedData_iff, Exec.bind_eq_ok_iff, checkOffsetLookahead_eq_ok_iff, add_eq_ok_iff,
    slice_eq_ok_iff, Block.expect_eq_ok_iff, Exec.guard_eq_ok_iff, sliceFrom_eq_ok_iff, Prod.exists,
    Exec.okOr_eq_ok_iff, usizeTryFrom_eq_some_iff, checkedAdd_eq_some_iff, not_lt, Except.ok.injEq,
    Prod.mk.injEq]
  constructor
  · rintro ⟨_, -, _, ⟨-, rfl⟩, _, ⟨-, htwelve, rfl⟩, nonce, hnonce, hnonzero, _, ⟨-, rfl⟩, _,
      ⟨hmiddle, rfl⟩, size, incr, hsize, _, ⟨-, rfl⟩, _, ⟨-, rfl⟩, _, ⟨-, rfl⟩, hinside, rfl, rfl⟩
    rw [Varint.parse_drop_eq_some_iff hmiddle] at hsize
    rw [Nat.add_sub_cancel_left] at hnonce
    have hlength : ((bytes.drop (start + 12 + incr)).take size.toNat).length = size.toNat := by
      rw [List.length_take, List.length_drop]
      omega
    exact ⟨nonce, _, ⟨_, ⟨hnonzero, rfl, htwelve, hnonce⟩, _, _, hsize, rfl, hinside, rfl⟩,
      hlength.symm⟩
  · rintro ⟨nonce, _, ⟨_, ⟨hnonzero, rfl, htwelve, hnonce⟩, first, size, hsize, rfl, hstop, rfl⟩,
      rfl⟩
    obtain ⟨incr, rfl⟩ := Nat.exists_eq_add_of_le hsize.start_le
    have hvalue : (UInt64.ofNat size).toNat = size := by
      rw [UInt64.toNat_ofNat', Nat.mod_eq_of_lt (by omega)]
    have hlength : ((bytes.drop (start + 12 + incr)).take size).length = size := by
      rw [List.length_take, List.length_drop]
      omega
    refine ⟨(), ⟨by omega, by omega, htwelve⟩, _, ⟨by omega, rfl⟩, _, ⟨by omega, htwelve, rfl⟩,
      nonce, by rw [Nat.add_sub_cancel_left, hnonce], hnonzero, _, ⟨by omega, rfl⟩, _,
      ⟨htwelve, rfl⟩, UInt64.ofNat size, incr, ?_, size, ⟨by omega, hvalue.symm⟩, _,
      ⟨by omega, rfl⟩, _, ⟨by omega, rfl⟩, by omega, hlength.symm, rfl⟩
    rwa [Varint.parse_drop_eq_some_iff htwelve, hvalue]

theorem returns_parseEncryptedPayloadLength :
    (parseEncryptedPayloadLength bytes start).Returns := by
  refine returns_field fun raw hlength hinside => ?_
  refine (Block.returns_expect hlength).bind fun nonce _ => ?_
  apply Exec.returns_ite (Exec.returns_fail _)
  refine (Exec.returns_okOr _ _).bind fun offset hoffset => ?_
  obtain ⟨-, rfl⟩ := checkedAdd_eq_some_iff.mp (Exec.okOr_eq_ok_iff.mp hoffset)
  refine (returns_sliceFrom hinside).bind fun tail _ => ?_
  refine (Exec.returns_okOr _ _).bind fun size _ => ?_
  refine (Exec.returns_okOr _ _).bind fun dataLen _ => ?_
  refine (Exec.returns_okOr _ _).bind fun first _ => ?_
  refine (Exec.returns_okOr _ _).bind fun stop _ => ?_
  exact Exec.returns_ite (Exec.returns_fail _) (Exec.returns_ok _)

/-- The walk may end at the end of the input, and before anything that is no payload. -/
def NoPayload (bytes : Bytes) (offset : ℕ) : Prop :=
  ∀ payload stop, ¬ Reads EncryptedPayload bytes offset stop payload

private theorem lengthsStep_eq_next_iff {lengths later : List ℕ} (hfits : bytes.length ≤ isizeMax) :
    parseEncryptedPayloadLengthsStep bytes (start, lengths) = .ok (.next (stop, later)) ↔
      ∃ payload, Reads EncryptedPayload bytes start stop payload ∧
        later = lengths ++ [payload.2.length] := by
  rw [parseEncryptedPayloadLengthsStep]
  constructor
  · intro hstep
    split at hstep
    · split at hstep
      · rename_i hparse
        cases hstep
        obtain ⟨payload, hreads, rfl⟩ := (parseEncryptedPayloadLength_eq_ok_iff hfits).mp hparse
        exact ⟨payload, hreads, rfl⟩
      · cases hstep
      · cases hstep
      · cases hstep
    · cases hstep
  · rintro ⟨payload, hreads, rfl⟩
    have hinside : start < bytes.length := by
      have hstop := hreads.stop_le
      obtain ⟨word, hword, -, rfl, -⟩ := hreads
      have hpos := EncryptedPayload.length_pos hword
      omega
    rw [if_pos hinside, (parseEncryptedPayloadLength_eq_ok_iff hfits).mpr ⟨payload, hreads, rfl⟩]

private theorem lengthsStep_eq_done_iff {lengths result : List ℕ}
    (hfits : bytes.length ≤ isizeMax) :
    parseEncryptedPayloadLengthsStep bytes (start, lengths) = .ok (.done result) ↔
      NoPayload bytes start ∧ result = lengths := by
  have hstep : ∀ payload stop, Reads EncryptedPayload bytes start stop payload →
      parseEncryptedPayloadLengthsStep bytes (start, lengths) =
        .ok (.next (stop, lengths ++ [payload.2.length])) := fun payload stop hreads =>
    (lengthsStep_eq_next_iff hfits).mpr ⟨payload, hreads, rfl⟩
  constructor
  · intro hdone
    refine ⟨fun payload stop hreads => ?_, ?_⟩
    · rw [hstep payload stop hreads] at hdone
      cases hdone
    · rw [parseEncryptedPayloadLengthsStep] at hdone
      split at hdone
      · split at hdone <;> cases hdone
        rfl
      · cases hdone
        rfl
  · rintro ⟨hnone, rfl⟩
    rw [parseEncryptedPayloadLengthsStep]
    split
    · rcases @returns_parseEncryptedPayloadLength _ bytes start with
        ⟨⟨dataLen, stop⟩, hok⟩ | ⟨cause, hfail⟩
      · obtain ⟨payload, hreads, -⟩ := (parseEncryptedPayloadLength_eq_ok_iff hfits).mp hok
        exact absurd hreads (hnone payload stop)
      · rw [hfail]
        rfl
    · rfl

/-- The walk measures the payloads the input starts with, at least one, up to the first
place where there is none. -/
theorem parseEncryptedPayloadLengths_eq_ok_iff {lengths : List ℕ}
    (hfits : bytes.length ≤ isizeMax) :
    parseEncryptedPayloadLengths bytes = .ok lengths ↔
      ∃ payloads stop, payloads ≠ [] ∧
        Reads (Format.Many EncryptedPayload) bytes 0 stop payloads ∧ NoPayload bytes stop ∧
        lengths = payloads.map (·.2.length) := by
  have hloop : ∀ start dataLen, start ≤ bytes.length →
      (loop (parseEncryptedPayloadLengthsStep bytes) (bytes.length + 1) (start, [dataLen]) =
          .ok lengths ↔
        ∃ payloads stop, Reads (Format.Many EncryptedPayload) bytes start stop payloads ∧
          NoPayload bytes stop ∧ lengths = dataLen :: payloads.map (·.2.length)) := by
    intro start dataLen hstart
    have hfold : ∀ payloads : List (Block 12 × Bytes), ∀ lengths : List ℕ,
        payloads.foldl (fun lengths payload => lengths ++ [payload.2.length]) lengths =
          lengths ++ payloads.map (·.2.length) := by
      intro payloads
      induction payloads with
      | nil => simp
      | cons payload payloads ih => simp [ih]
    rw [loop_reads (fun _ _ hword => EncryptedPayload.length_pos hword)
      (fun _ _ _ _ _ => lengthsStep_eq_next_iff hfits)
      (fun _ _ _ _ => lengthsStep_eq_done_iff hfits) hstart (by omega)]
    simp only [hfold, List.singleton_append]
  rw [parseEncryptedPayloadLengths, Exec.guard_eq_ok_iff, Exec.bind_eq_ok_iff]
  constructor
  · rintro ⟨-, ⟨dataLen, middle⟩, hfirst, hrest⟩
    obtain ⟨payload, hpayload, rfl⟩ := (parseEncryptedPayloadLength_eq_ok_iff hfits).mp hfirst
    obtain ⟨payloads, stop, hpayloads, hnone, rfl⟩ := (hloop _ _ hpayload.stop_le).mp hrest
    exact ⟨payload :: payloads, stop, List.cons_ne_nil _ _,
      reads_many_cons_iff.mpr ⟨middle, hpayload, hpayloads⟩, hnone, rfl⟩
  · rintro ⟨payloads, stop, hnonempty, hreads, hnone, rfl⟩
    obtain ⟨payload, payloads, rfl⟩ := List.exists_cons_of_ne_nil hnonempty
    obtain ⟨middle, hpayload, hpayloads⟩ := reads_many_cons_iff.mp hreads
    have hbytes : bytes ≠ [] := by
      rintro rfl
      obtain ⟨word, rest, hword, hempty, -⟩ := reads_zero_iff.mp hpayload
      have hpos := EncryptedPayload.length_pos hword
      rw [(List.append_eq_nil_iff.mp hempty.symm).1] at hpos
      exact absurd hpos (lt_irrefl 0)
    exact ⟨hbytes, _, (parseEncryptedPayloadLength_eq_ok_iff hfits).mpr ⟨payload, hpayload, rfl⟩,
      (hloop _ _ hpayload.stop_le).mpr ⟨payloads, stop, hpayloads, hnone, rfl⟩⟩

/-- A payload that is taken out is the first one the walk measures. -/
theorem exists_parseEncryptedPayloadLengths_eq_ok {nonce : Block 12} {cyphertext : Bytes}
    (hfits : bytes.length ≤ isizeMax)
    (hparse : parseEncryptedPayload bytes = .ok (nonce, cyphertext)) :
    ∃ behind, parseEncryptedPayloadLengths bytes = .ok (cyphertext.length :: behind) := by
  obtain ⟨middle, hfirst⟩ := (parseEncryptedPayload_eq_ok_iff hfits).mp hparse
  obtain ⟨payloads, stop, hpayloads, hnone⟩ := exists_reads_many
    (fun _ _ hword => EncryptedPayload.length_pos hword) hfirst.stop_le
  exact ⟨payloads.map (·.2.length), (parseEncryptedPayloadLengths_eq_ok_iff hfits).mpr
    ⟨(nonce, cyphertext) :: payloads, stop, List.cons_ne_nil _ _,
      reads_many_cons_iff.mpr ⟨middle, hfirst, hpayloads⟩, hnone, rfl⟩⟩

theorem returns_parseEncryptedPayloadLengths (hfits : bytes.length ≤ isizeMax) :
    (parseEncryptedPayloadLengths bytes).Returns := by
  rw [parseEncryptedPayloadLengths]
  by_cases hempty : bytes = []
  · rw [if_pos hempty]
    exact Exec.returns_fail _
  · rw [if_neg hempty]
    refine returns_parseEncryptedPayloadLength.bind fun first _ => ?_
    refine loop_returns (fun _ => True) (fun state => bytes.length - state.1) ?_ ?_ trivial
      (Nat.lt_succ_of_le (Nat.sub_le _ _))
    · rintro ⟨start, lengths⟩ -
      rw [parseEncryptedPayloadLengthsStep]
      split
      · rcases @returns_parseEncryptedPayloadLength _ bytes start with
          ⟨⟨dataLen, stop⟩, hok⟩ | ⟨cause, hfail⟩
        · rw [hok]
          exact Exec.returns_ok _
        · rw [hfail]
          exact Exec.returns_ok _
      · exact Exec.returns_ok _
    · rintro ⟨start, lengths⟩ ⟨stop, later⟩ - hnext
      obtain ⟨payload, hreads, -⟩ := (lengthsStep_eq_next_iff hfits).mp hnext
      have hstop := hreads.stop_le
      obtain ⟨word, hword, -, rfl, -⟩ := hreads
      have hpos := EncryptedPayload.length_pos hword
      exact ⟨trivial, by dsimp only; omega⟩

/-- At most one payload starts at an offset. -/
theorem reads_encryptedPayload_unique (hfits : bytes.length ≤ isizeMax) (start stop stop' : ℕ)
    (payload payload' : Block 12 × Bytes) (hreads : Reads EncryptedPayload bytes start stop payload)
    (hreads' : Reads EncryptedPayload bytes start stop' payload') :
    stop = stop' ∧ payload = payload' := by
  have hstart : start ≤ bytes.length := hreads.start_le.trans hreads.stop_le
  have hshort : (bytes.drop start).length ≤ isizeMax := by
    rw [List.length_drop]
    omega
  obtain ⟨size, rfl⟩ := Nat.exists_eq_add_of_le hreads.start_le
  obtain ⟨size', rfl⟩ := Nat.exists_eq_add_of_le hreads'.start_le
  have hfront := (reads_drop_iff hstart).mpr hreads
  have hfront' := (reads_drop_iff hstart).mpr hreads'
  have hparse := (parseEncryptedPayload_eq_ok_iff hshort).mpr ⟨size, hfront⟩
  have hparse' := (parseEncryptedPayload_eq_ok_iff hshort).mpr ⟨size', hfront'⟩
  have hlength := (parseEncryptedPayloadLength_eq_ok_iff hshort).mpr ⟨payload, hfront, rfl⟩
  have hlength' := (parseEncryptedPayloadLength_eq_ok_iff hshort).mpr ⟨payload', hfront', rfl⟩
  rw [hparse, Except.ok.injEq] at hparse'
  rw [hlength, Except.ok.injEq, Prod.mk.injEq] at hlength'
  exact ⟨by rw [hlength'.2], hparse'⟩

/-- The payloads of the longest run of them at the start of the input. -/
structure LeadingPayloads (bytes : Bytes) (payloads : List (Block 12 × Bytes)) : Prop where
  run : ∃ stop, Reads (Format.Many EncryptedPayload) bytes 0 stop payloads
  longest : ∀ stop others, Reads (Format.Many EncryptedPayload) bytes 0 stop others →
    others <+: payloads

theorem leadingPayloads_of_noPayload (hfits : bytes.length ≤ isizeMax)
    {payloads : List (Block 12 × Bytes)}
    (hreads : Reads (Format.Many EncryptedPayload) bytes 0 stop payloads)
    (hnone : NoPayload bytes stop) : LeadingPayloads bytes payloads :=
  ⟨⟨stop, hreads⟩, fun _ _ hothers =>
    isPrefix_of_reads_many (reads_encryptedPayload_unique hfits) hreads hnone hothers⟩

omit [Target] in
/-- The encoded payloads one after the other are a run of them. -/
theorem many_of_encodeEncryptedPayload {payloads : List (Block 12 × Bytes)} {words : List Bytes}
    (hnonzero : ∀ payload ∈ payloads, payload.1 ≠ .zero 12)
    (hwords : payloads.mapM (fun payload => encodeEncryptedPayload payload.1 payload.2) = .ok words)
    (hfits : words.flatten.length < 2 ^ 64) :
    Format.Many EncryptedPayload payloads words.flatten := by
  induction payloads generalizing words with
  | nil =>
      cases hwords
      exact .nil
  | cons payload payloads ih =>
      rw [List.mapM_cons] at hwords
      simp only [Exec.bind_eq_ok_iff, encodeEncryptedPayload_eq_ok_iff] at hwords
      obtain ⟨word, ⟨-, rfl⟩, rest, hrest, hsame⟩ := hwords
      cases hsame
      obtain ⟨hhead, htail⟩ := List.forall_mem_cons.mp hnonzero
      rw [List.flatten_cons, List.length_append] at hfits
      rw [List.flatten_cons]
      refine .cons ?_ (ih htail hrest (by omega))
      simp only [List.length_append] at hfits
      have hsize := Varint.compactSize_encode (UInt64.ofNat payload.2.length)
      rw [UInt64.toNat_ofNat', Nat.mod_eq_of_lt (by omega)] at hsize
      exact ⟨_, _, ⟨hhead, rfl⟩, ⟨_, hsize, rfl⟩, List.append_assoc _ _ _⟩

omit [Target] in
theorem exists_mapM_encodeEncryptedPayload {payloads : List (Block 12 × Bytes)}
    (hnonempty : ∀ payload ∈ payloads, payload.2 ≠ []) :
    ∃ words, payloads.mapM (fun payload => encodeEncryptedPayload payload.1 payload.2) =
      .ok words :=
  ⟨_, (Exec.mapM_eq_ok_iff fun _ _ => encodeEncryptedPayload_eq_ok_iff).mpr ⟨hnonempty, rfl⟩⟩

/-- Listing the payloads of any input comes back. It succeeds exactly when a first payload can
be taken out, and then lists the lengths of the longest run of payloads at the start, that first
one in front; more bytes at the end can only lengthen the list. Of payloads that were written
one after the other, with no further one behind them, it lists exactly the lengths. -/
theorem parseEncryptedPayloadLengths_lists (bytes : Slice) :
    (parseEncryptedPayloadLengths bytes.1).Returns ∧
      ((∃ lengths, parseEncryptedPayloadLengths bytes.1 = .ok lengths) ↔
        ∃ payload, parseEncryptedPayload bytes.1 = .ok payload) ∧
      (∀ lengths, parseEncryptedPayloadLengths bytes.1 = .ok lengths →
        (∃ payloads, LeadingPayloads bytes.1 payloads ∧ lengths = payloads.map (·.2.length)) ∧
          (∀ nonce cyphertext, parseEncryptedPayload bytes.1 = .ok (nonce, cyphertext) →
            lengths.head? = some cyphertext.length) ∧
          ∀ tail, (bytes.1 ++ tail).length ≤ isizeMax →
            ∃ longer, parseEncryptedPayloadLengths (bytes.1 ++ tail) = .ok longer ∧
              lengths <+: longer) ∧
      ∀ payloads : List (Block 12 × Bytes), payloads ≠ [] →
        (∀ payload ∈ payloads, payload.1 ≠ .zero 12 ∧ payload.2 ≠ []) →
          ∃ words, payloads.mapM (fun payload => encodeEncryptedPayload payload.1 payload.2) =
              .ok words ∧
            ∀ rest, NoPayload rest 0 → bytes.1 = words.flatten ++ rest →
              parseEncryptedPayloadLengths bytes.1 = .ok (payloads.map (·.2.length)) := by
  obtain ⟨bytes, hfits⟩ := bytes
  have hwidth := usizeMax_lt_two_pow_64
  have husize := two_mul_isizeMax_lt_usizeMax
  refine ⟨returns_parseEncryptedPayloadLengths hfits, ⟨?_, ?_⟩, ?_, ?_⟩
  · rintro ⟨lengths, hlengths⟩
    obtain ⟨payloads, stop, hnonempty, hreads, -⟩ :=
      (parseEncryptedPayloadLengths_eq_ok_iff hfits).mp hlengths
    obtain ⟨payload, payloads, rfl⟩ := List.exists_cons_of_ne_nil hnonempty
    obtain ⟨middle, hfirst, -⟩ := reads_many_cons_iff.mp hreads
    exact ⟨payload, (parseEncryptedPayload_eq_ok_iff hfits).mpr ⟨middle, hfirst⟩⟩
  · rintro ⟨⟨nonce, cyphertext⟩, hparse⟩
    obtain ⟨behind, hlengths⟩ := exists_parseEncryptedPayloadLengths_eq_ok hfits hparse
    exact ⟨_, hlengths⟩
  · intro lengths hlengths
    obtain ⟨payloads, stop, hnonempty, hreads, hnone, hmap⟩ :=
      (parseEncryptedPayloadLengths_eq_ok_iff hfits).mp hlengths
    refine ⟨⟨payloads, leadingPayloads_of_noPayload hfits hreads hnone, hmap⟩, ?_, ?_⟩
    · intro nonce cyphertext hparse
      obtain ⟨behind, hsame⟩ := exists_parseEncryptedPayloadLengths_eq_ok hfits hparse
      rw [hlengths, Except.ok.injEq] at hsame
      rw [hsame, List.head?_cons]
    · intro tail htail
      -- the run is still there in the longer input, and so a part of its longest run
      have hlonger := hreads.append tail
      obtain ⟨longer, stop', hlongest, hnone'⟩ := exists_reads_many
        (fun _ _ hword => EncryptedPayload.length_pos hword) (Nat.zero_le (bytes ++ tail).length)
      have hfront : payloads <+: longer :=
        isPrefix_of_reads_many (reads_encryptedPayload_unique htail) hlongest hnone' hlonger
      have hsome : longer ≠ [] := by
        rintro rfl
        exact hnonempty (List.prefix_nil.mp hfront)
      refine ⟨longer.map (·.2.length), (parseEncryptedPayloadLengths_eq_ok_iff htail).mpr
        ⟨longer, stop', hsome, hlongest, hnone', rfl⟩, ?_⟩
      rw [hmap]
      exact hfront.map _
  · intro payloads hnonempty hpayloads
    obtain ⟨words, hwords⟩ := exists_mapM_encodeEncryptedPayload fun payload hpayload =>
      (hpayloads payload hpayload).2
    refine ⟨words, hwords, ?_⟩
    rintro rest hnone rfl
    have hshort : words.flatten.length < 2 ^ 64 := by
      rw [List.length_append] at hfits
      omega
    have hmany := many_of_encodeEncryptedPayload
      (fun payload hpayload => (hpayloads payload hpayload).1) hwords hshort
    refine (parseEncryptedPayloadLengths_eq_ok_iff hfits).mpr ⟨payloads, _, hnonempty,
      reads_zero_iff.mpr ⟨_, rest, hmany, rfl, rfl⟩, fun payload stop hreads => ?_, rfl⟩
    obtain ⟨size, rfl⟩ := Nat.exists_eq_add_of_le hreads.start_le
    have hbehind := (reads_drop_iff (hreads.start_le.trans hreads.stop_le)).mpr hreads
    rw [List.drop_left] at hbehind
    exact hnone payload size hbehind

end Walk

section Decoders

variable [Target] {bytes : Bytes}

omit [Target] in
theorem returns_decodeVersion : (decodeVersion bytes).Returns := by
  refine returns_parseMagicByte.bind fun start _ => ?_
  refine returns_initOffset.bind fun offset hinit => ?_
  obtain ⟨hoffset, rfl⟩ := initOffset_eq_ok_iff.mp hinit
  exact returns_tail hoffset (returns_parseVersion.bind fun _ _ => Exec.returns_ok _)

/-- A container that decodes is also measured, its own cyphertext first. -/
theorem exists_decodeV1EncryptedPayloadLengths_eq_ok {paths : List DerivationPath}
    {secrets : List (Block 32)} {encryption : UInt8} {nonce : Block 12} {cyphertext : Bytes}
    (hfits : bytes.length ≤ isizeMax)
    (hdecode : decodeV1 bytes = .ok (paths, secrets, encryption, nonce, cyphertext)) :
    ∃ behind, decodeV1EncryptedPayloadLengths bytes = .ok (cyphertext.length :: behind) := by
  obtain ⟨⟨offset, header⟩, hheader, hrest⟩ := Exec.bind_eq_ok_iff.mp hdecode
  obtain ⟨tail, htail, hrest⟩ := Exec.bind_eq_ok_iff.mp hrest
  obtain ⟨payload, hpayload, hsame⟩ := Exec.bind_eq_ok_iff.mp hrest
  cases hsame
  have hshort : tail.length ≤ isizeMax := by
    obtain ⟨-, rfl⟩ := sliceFrom_eq_ok_iff.mp htail
    rw [List.length_drop]
    omega
  obtain ⟨behind, hlengths⟩ := exists_parseEncryptedPayloadLengths_eq_ok hshort hpayload
  exact ⟨behind, Exec.bind_eq_ok_iff.mpr ⟨_, hheader, Exec.bind_eq_ok_iff.mpr
    ⟨tail, htail, hlengths⟩⟩⟩

end Decoders

end Bip138.Ll
