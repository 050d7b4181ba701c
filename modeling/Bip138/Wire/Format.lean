/-
# Self-delimiting formats

A format says which strings of symbols spell which value. It is a relation, not
a function, since a value may have several spellings and a string need not spell
anything.

`Reads` is what a parser that walks an input by offsets computes: between two
offsets the input holds a spelling of a value. Formats in sequence and formats
repeated are read piece by piece (`reads_seq_iff`, `reads_many_cons_iff`), a
parser run on the tail of the input reads the input itself at an offset
(`reads_drop_iff`), and `forRange_reads` says what a counted loop over an offset
has read when each of its passes reads one item.
-/

import Bip138.Rust.Loop

namespace Bip138.Wire

open Bip138.Rust

variable {σ α β γ ε : Type}

/-- Which strings spell a value. -/
abbrev Format (σ α : Type) := α → List σ → Prop

namespace Format

/-- The format of one fixed encoding per valid value. -/
def ofEncode (valid : α → Prop) (encode : α → List σ) : Format σ α :=
  fun value word => valid value ∧ word = encode value

/-- The spellings of the values that satisfy a condition. -/
def filter (valid : α → Prop) (format : Format σ α) : Format σ α :=
  fun value word => valid value ∧ format value word

/-- One format after the other. -/
def seq (first : Format σ α) (second : Format σ β) : Format σ (α × β) :=
  fun pair word => ∃ head tail, first pair.1 head ∧ second pair.2 tail ∧ word = head ++ tail

/-- Any number of items of one format, back to back. -/
inductive Many (item : Format σ α) : List α → List σ → Prop
  | nil : Many item [] []
  | cons {value : α} {values : List α} {head tail : List σ} (hhead : item value head)
      (htail : Many item values tail) : Many item (value :: values) (head ++ tail)

theorem many_cons_iff {item : Format σ α} {value : α} {values : List α} {word : List σ} :
    Many item (value :: values) word ↔
      ∃ head tail, item value head ∧ Many item values tail ∧ word = head ++ tail := by
  constructor
  · intro hmany
    cases hmany with
    | cons hhead htail => exact ⟨_, _, hhead, htail, rfl⟩
  · rintro ⟨head, tail, hhead, htail, rfl⟩
    exact .cons hhead htail

theorem many_nil_iff {item : Format σ α} {word : List σ} : Many item [] word ↔ word = [] := by
  constructor
  · rintro ⟨⟩
    rfl
  · rintro rfl
    exact .nil

/-- Items with one encoding each are spelled by the encodings one after the
other, and by nothing else. -/
theorem many_ofEncode_iff {valid : α → Prop} {encode : α → List σ} {values : List α}
    {word : List σ} :
    Many (ofEncode valid encode) values word ↔
      (∀ value ∈ values, valid value) ∧ word = values.flatMap encode := by
  induction values generalizing word with
  | nil => simp [many_nil_iff]
  | cons value values ih =>
      rw [many_cons_iff]
      constructor
      · rintro ⟨head, tail, ⟨hvalid, rfl⟩, htail, rfl⟩
        obtain ⟨hrest, rfl⟩ := ih.mp htail
        exact ⟨List.forall_mem_cons.mpr ⟨hvalid, hrest⟩, rfl⟩
      · rintro ⟨hvalid, rfl⟩
        obtain ⟨hhead, hrest⟩ := List.forall_mem_cons.mp hvalid
        exact ⟨encode value, values.flatMap encode, ⟨hhead, rfl⟩, ih.mpr ⟨hrest, rfl⟩, rfl⟩

/-- Items that are never empty are no more than the symbols that spell them. -/
theorem length_le_of_many {item : Format σ α} (hpos : ∀ value word, item value word → 0 < word.length)
    {values : List α} {word : List σ} (hmany : Many item values word) :
    values.length ≤ word.length := by
  induction hmany with
  | nil => exact Nat.le_refl 0
  | cons hhead htail ih =>
      have hhead := hpos _ _ hhead
      simp only [List.length_cons, List.length_append]
      omega

end Format

/-- A loop that pushes its items onto the end of a list appends them. -/
theorem foldl_concat (acc values : List α) :
    values.foldl (fun acc value => acc ++ [value]) acc = acc ++ values := by
  induction values generalizing acc with
  | nil => simp
  | cons value values ih => rw [List.foldl_cons, ih, List.append_assoc, List.singleton_append]

/-- From offset `start` up to offset `stop`, the input spells `value`. -/
def Reads (format : Format σ α) (input : List σ) (start stop : ℕ) (value : α) : Prop :=
  ∃ word, format value word ∧ word <+: input.drop start ∧ stop = start + word.length ∧
    stop ≤ input.length

namespace Reads

variable {format : Format σ α} {input : List σ} {start stop : ℕ} {value : α}

theorem start_le (hreads : Reads format input start stop value) : start ≤ stop := by
  obtain ⟨word, -, -, rfl, -⟩ := hreads
  exact Nat.le_add_right start word.length

theorem stop_le (hreads : Reads format input start stop value) : stop ≤ input.length := by
  obtain ⟨word, -, -, -, hstop⟩ := hreads
  exact hstop

end Reads

variable {format : Format σ α} {input : List σ} {start stop : ℕ} {value : α}

theorem reads_of_append {before word after : List σ} (hword : format value word) :
    Reads format (before ++ word ++ after) before.length (before.length + word.length) value := by
  refine ⟨word, hword, ?_, rfl, by simp⟩
  rw [List.append_assoc, List.drop_left]
  exact List.prefix_append word after

/-- Reading from the front is splitting off a spelling. -/
theorem reads_zero_iff : Reads format input 0 stop value ↔
    ∃ word rest, format value word ∧ input = word ++ rest ∧ stop = word.length := by
  constructor
  · rintro ⟨word, hword, ⟨rest, hrest⟩, hstop, -⟩
    rw [List.drop_zero] at hrest
    exact ⟨word, rest, hword, hrest.symm, by rw [hstop, Nat.zero_add]⟩
  · rintro ⟨word, rest, hword, rfl, rfl⟩
    have hreads : Reads format ([] ++ word ++ rest) (List.length []) (List.length [] + word.length)
        value := reads_of_append hword
    simpa using hreads

/-- What is read at the front of an input is spelled by the symbols before the stop. -/
theorem reads_zero_iff_take : Reads format input 0 stop value ↔
    stop ≤ input.length ∧ format value (input.take stop) := by
  rw [reads_zero_iff]
  constructor
  · rintro ⟨word, rest, hword, rfl, rfl⟩
    rw [List.take_left]
    exact ⟨by simp, hword⟩
  · rintro ⟨hstop, hword⟩
    refine ⟨_, input.drop stop, hword, (List.take_append_drop stop input).symm, ?_⟩
    rw [List.length_take, Nat.min_eq_left hstop]

/-- Reading the tail of an input is reading the input at an offset. -/
theorem reads_drop_iff (hstart : start ≤ input.length) :
    Reads format (input.drop start) 0 stop value ↔
      Reads format input start (start + stop) value := by
  constructor
  · rintro ⟨word, hword, hfront, hstop, hle⟩
    rw [List.length_drop] at hle
    exact ⟨word, hword, by simpa using hfront, by omega, by omega⟩
  · rintro ⟨word, hword, hfront, hstop, hle⟩
    refine ⟨word, hword, by simpa using hfront, by omega, ?_⟩
    rw [List.length_drop]
    omega

/-- What is read is read as well when more symbols follow. -/
theorem Reads.append (hreads : Reads format input start stop value) (tail : List σ) :
    Reads format (input ++ tail) start stop value := by
  have hstart := hreads.start_le
  obtain ⟨word, hword, ⟨rest, hrest⟩, hstop, hle⟩ := hreads
  refine ⟨word, hword, ⟨rest ++ tail, ?_⟩, hstop, ?_⟩
  · rw [List.drop_append_of_le_length (by omega), ← hrest, List.append_assoc]
  · rw [List.length_append]
    omega

theorem reads_ofEncode_iff {valid : α → Prop} {encode : α → List σ} :
    Reads (.ofEncode valid encode) input start stop value ↔
      valid value ∧ encode value <+: input.drop start ∧
        stop = start + (encode value).length ∧ stop ≤ input.length := by
  constructor
  · rintro ⟨word, ⟨hvalid, rfl⟩, hfront, hstop, hle⟩
    exact ⟨hvalid, hfront, hstop, hle⟩
  · rintro ⟨hvalid, hfront, hstop, hle⟩
    exact ⟨encode value, ⟨hvalid, rfl⟩, hfront, hstop, hle⟩

theorem reads_filter_iff {valid : α → Prop} :
    Reads (format.filter valid) input start stop value ↔
      valid value ∧ Reads format input start stop value := by
  constructor
  · rintro ⟨word, ⟨hvalid, hword⟩, hrest⟩
    exact ⟨hvalid, word, hword, hrest⟩
  · rintro ⟨hvalid, word, hword, hrest⟩
    exact ⟨word, ⟨hvalid, hword⟩, hrest⟩

/-- Two formats in sequence are read one after the other. -/
theorem reads_seq_iff {first : Format σ α} {second : Format σ β} {pair : α × β} :
    Reads (first.seq second) input start stop pair ↔
      ∃ middle, Reads first input start middle pair.1 ∧
        Reads second input middle stop pair.2 := by
  constructor
  · rintro ⟨word, ⟨head, tail, hhead, htail, rfl⟩, ⟨rest, hrest⟩, rfl, hle⟩
    rw [List.length_append] at hle ⊢
    have hlength : (input.drop start).length = input.length - start := List.length_drop
    refine ⟨start + head.length, ⟨head, hhead, ?_, rfl, by omega⟩,
      ⟨tail, htail, ?_, by omega, by omega⟩⟩
    · rw [← hrest, List.append_assoc]
      exact List.prefix_append head (tail ++ rest)
    · rw [← List.drop_drop, ← hrest, List.append_assoc, List.drop_left]
      exact List.prefix_append tail rest
  · rintro ⟨middle, ⟨head, hhead, ⟨rest, hrest⟩, rfl, -⟩, ⟨tail, htail, ⟨after, hafter⟩, rfl, hle⟩⟩
    rw [← List.drop_drop, ← hrest, List.drop_left] at hafter
    refine ⟨head ++ tail, ⟨head, tail, hhead, htail, rfl⟩, ⟨after, ?_⟩, ?_, hle⟩
    · rw [List.append_assoc, hafter, hrest]
    · rw [List.length_append, Nat.add_assoc]

theorem reads_many_nil_iff {item : Format σ α} :
    Reads (Format.Many item) input start stop [] ↔ stop = start ∧ start ≤ input.length := by
  constructor
  · rintro ⟨word, hword, -, hstop, hle⟩
    obtain rfl := Format.many_nil_iff.mp hword
    rw [List.length_nil, Nat.add_zero] at hstop
    exact ⟨hstop, hstop ▸ hle⟩
  · rintro ⟨rfl, hle⟩
    exact ⟨[], .nil, List.nil_prefix, rfl, hle⟩

/-- A list of items is read by reading its first item and then the others. -/
theorem reads_many_cons_iff {item : Format σ α} {values : List α} :
    Reads (Format.Many item) input start stop (value :: values) ↔
      ∃ middle, Reads item input start middle value ∧
        Reads (Format.Many item) input middle stop values := by
  have hcons : Reads (Format.Many item) input start stop (value :: values) ↔
      Reads (item.seq (Format.Many item)) input start stop (value, values) := by
    apply exists_congr
    intro word
    exact and_congr_left' Format.many_cons_iff
  exact hcons.trans reads_seq_iff

/-- One item more is read behind a list of them. -/
theorem reads_many_concat {item : Format σ α} {values : List α} {value : α} {middle : ℕ}
    (hvalues : Reads (Format.Many item) input start middle values)
    (hvalue : Reads item input middle stop value) :
    Reads (Format.Many item) input start stop (values ++ [value]) := by
  induction values generalizing start with
  | nil =>
      obtain ⟨rfl, -⟩ := reads_many_nil_iff.mp hvalues
      exact reads_many_cons_iff.mpr ⟨stop, hvalue, reads_many_nil_iff.mpr ⟨rfl, hvalue.stop_le⟩⟩
  | cons first values ih =>
      obtain ⟨next, hfirst, hrest⟩ := reads_many_cons_iff.mp hvalues
      exact reads_many_cons_iff.mpr ⟨next, hfirst, ih hrest⟩

/-- From any offset a list of items is read up to a place where there is no further one,
when no item is spelled by nothing. -/
theorem exists_reads_many {item : Format σ α}
    (hpos : ∀ value word, item value word → 0 < word.length) (hstart : start ≤ input.length) :
    ∃ values stop, Reads (Format.Many item) input start stop values ∧
      ∀ value next, ¬ Reads item input stop next value := by
  induction hrest : input.length - start using Nat.strong_induction_on generalizing start with
  | _ rest ih =>
    by_cases hnone : ∀ value next, ¬ Reads item input start next value
    · exact ⟨[], start, reads_many_nil_iff.mpr ⟨rfl, hstart⟩, hnone⟩
    · push Not at hnone
      obtain ⟨value, middle, hvalue⟩ := hnone
      have hmiddle := hvalue.stop_le
      have hmore : start < middle := by
        obtain ⟨word, hword, -, rfl, -⟩ := hvalue
        have hlength := hpos value word hword
        omega
      obtain ⟨values, stop, hvalues, hstop⟩ := ih (input.length - middle) (by omega) hmiddle rfl
      exact ⟨value :: values, stop, reads_many_cons_iff.mpr ⟨middle, hvalue, hvalues⟩, hstop⟩

/-- A run of items that ends where no further item can be read is the longest one: any other
run from the same place is a part of its front. -/
theorem isPrefix_of_reads_many {item : Format σ α}
    (hunique : ∀ start stop stop' value value', Reads item input start stop value →
      Reads item input start stop' value' → stop = stop' ∧ value = value')
    {values others : List α} {stop' : ℕ} (hvalues : Reads (Format.Many item) input start stop values)
    (hends : ∀ value next, ¬ Reads item input stop next value)
    (hothers : Reads (Format.Many item) input start stop' others) : others <+: values := by
  induction others generalizing start values with
  | nil => exact List.nil_prefix
  | cons other others ih =>
      obtain ⟨middle', hother, hrest⟩ := reads_many_cons_iff.mp hothers
      cases values with
      | nil =>
          obtain ⟨rfl, -⟩ := reads_many_nil_iff.mp hvalues
          exact absurd hother (hends other middle')
      | cons value values =>
          obtain ⟨middle, hvalue, hvalues⟩ := reads_many_cons_iff.mp hvalues
          obtain ⟨rfl, rfl⟩ := hunique start middle middle' value other hvalue hother
          exact List.cons_prefix_cons.mpr ⟨rfl, ih hvalues hrest⟩

/-- The rule for a counted loop that walks an input: if each pass reads one item
and accumulates it, the loop reads that many items and accumulates them all. -/
theorem forRange_reads {item : Format σ α} {push : γ → α → γ}
    {body : ℕ × γ → Exec ε (ℕ × γ)}
    (hbody : ∀ start acc stop acc', start ≤ input.length →
      (body (start, acc) = .ok (stop, acc') ↔
        ∃ value, Reads item input start stop value ∧ acc' = push acc value))
    {count start stop : ℕ} {acc acc' : γ} (hstart : start ≤ input.length) :
    forRange body count (start, acc) = .ok (stop, acc') ↔
      ∃ values, values.length = count ∧
        Reads (Format.Many item) input start stop values ∧ acc' = values.foldl push acc := by
  induction count generalizing start acc with
  | zero =>
      simp only [forRange_zero, Except.ok.injEq, Prod.mk.injEq, List.length_eq_zero_iff]
      constructor
      · rintro ⟨rfl, rfl⟩
        exact ⟨[], rfl, reads_many_nil_iff.mpr ⟨rfl, hstart⟩, rfl⟩
      · rintro ⟨values, rfl, hreads, rfl⟩
        exact ⟨(reads_many_nil_iff.mp hreads).1.symm, rfl⟩
  | succ count ih =>
      rw [forRange_succ_eq_ok_iff]
      constructor
      · rintro ⟨⟨middle, later⟩, hfirst, hrest⟩
        obtain ⟨value, hvalue, rfl⟩ := (hbody start acc middle later hstart).mp hfirst
        obtain ⟨values, rfl, hvalues, rfl⟩ := (ih hvalue.stop_le).mp hrest
        exact ⟨value :: values, rfl, reads_many_cons_iff.mpr ⟨middle, hvalue, hvalues⟩, rfl⟩
      · rintro ⟨values, hcount, hreads, rfl⟩
        obtain ⟨value, rest, rfl⟩ := List.exists_cons_of_length_eq_add_one hcount
        obtain ⟨middle, hvalue, hvalues⟩ := reads_many_cons_iff.mp hreads
        refine ⟨(middle, push acc value), (hbody _ _ _ _ hstart).mpr ⟨value, hvalue, rfl⟩, ?_⟩
        exact (ih hvalue.stop_le).mpr ⟨rest, by simpa using hcount, hvalues, rfl⟩

section While

variable {item : Format σ α} {push : γ → α → γ} {body : ℕ × γ → Exec ε (LoopFlow (ℕ × γ) γ)}

/-- A `while` loop whose passes each read one item gets past the items the input
starts with, at one unit of fuel an item. -/
theorem loop_add_of_reads
    (hnext : ∀ start acc stop value, start ≤ input.length → Reads item input start stop value →
      body (start, acc) = .ok (.next (stop, push acc value)))
    {values : List α} {start stop : ℕ} {acc : γ} (hstart : start ≤ input.length)
    (hreads : Reads (Format.Many item) input start stop values) (fuel : ℕ) :
    loop body (fuel + values.length) (start, acc) =
      loop body fuel (stop, values.foldl push acc) := by
  induction values generalizing start acc with
  | nil => rw [(reads_many_nil_iff.mp hreads).1, List.length_nil, Nat.add_zero, List.foldl_nil]
  | cons value values ih =>
      obtain ⟨middle, hvalue, hvalues⟩ := reads_many_cons_iff.mp hreads
      rw [List.length_cons, ← Nat.add_assoc,
        loop_succ_of_next (hnext start acc middle value hstart hvalue),
        ih hvalue.stop_le hvalues, List.foldl_cons]

/-- The rule for a `while` loop that walks an input: if a pass that goes round
again reads one item and accumulates it, and a pass that leaves the loop gives
back what was accumulated, the loop reads items up to a place where it may stop. -/
theorem loop_reads {ending : ℕ → Prop}
    (hpos : ∀ value word, item value word → 0 < word.length)
    (hnext : ∀ start acc stop acc', start ≤ input.length →
      (body (start, acc) = .ok (.next (stop, acc')) ↔
        ∃ value, Reads item input start stop value ∧ acc' = push acc value))
    (hdone : ∀ start acc result, start ≤ input.length →
      (body (start, acc) = .ok (.done result) ↔ ending start ∧ result = acc))
    {fuel start : ℕ} {acc result : γ} (hstart : start ≤ input.length)
    (hfuel : input.length - start < fuel) :
    loop body fuel (start, acc) = .ok result ↔
      ∃ values stop, Reads (Format.Many item) input start stop values ∧ ending stop ∧
        result = values.foldl push acc := by
  constructor
  · intro hloop
    clear hfuel
    induction fuel generalizing start acc with
    | zero => simp [loop] at hloop
    | succ fuel ih =>
        cases hbody : body (start, acc) with
        | error fault => simp [loop_succ_of_error hbody] at hloop
        | ok flow =>
            cases flow with
            | done value =>
                rw [loop_succ_of_done hbody] at hloop
                cases hloop
                obtain ⟨hending, rfl⟩ := (hdone start acc result hstart).mp hbody
                exact ⟨[], start, reads_many_nil_iff.mpr ⟨rfl, hstart⟩, hending, rfl⟩
            | next later =>
                obtain ⟨middle, later⟩ := later
                rw [loop_succ_of_next hbody] at hloop
                obtain ⟨value, hvalue, rfl⟩ := (hnext start acc middle later hstart).mp hbody
                obtain ⟨values, stop, hvalues, hending, rfl⟩ := ih hvalue.stop_le hloop
                exact ⟨value :: values, stop, reads_many_cons_iff.mpr ⟨middle, hvalue, hvalues⟩,
                  hending, rfl⟩
  · rintro ⟨values, stop, hreads, hending, rfl⟩
    have hcount : values.length ≤ input.length - start := by
      obtain ⟨word, hword, -, rfl, hstop⟩ := hreads
      have hlength := Format.length_le_of_many hpos hword
      omega
    obtain ⟨rest, rfl⟩ : ∃ rest, fuel = (rest + 1) + values.length :=
      ⟨fuel - values.length - 1, by omega⟩
    have hskip : loop body (rest + 1 + values.length) (start, acc) =
        loop body (rest + 1) (stop, values.foldl push acc) :=
      loop_add_of_reads (fun start acc stop value hle hvalue =>
        (hnext start acc stop _ hle).mpr ⟨value, hvalue, rfl⟩) hstart hreads (rest + 1)
    rw [hskip]
    exact loop_succ_of_done ((hdone stop _ _ hreads.stop_le).mpr ⟨hending, rfl⟩) rest

end While

end Bip138.Wire
