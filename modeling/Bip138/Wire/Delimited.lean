/-
# Formats that tell where they end

A format is self-delimiting when an input starts with at most one of its spellings, and that
spelling has one value. Sequences, counted lists and sized data of self-delimiting formats
are self-delimiting, so the property of a whole grammar is put together from its fields.

What it gives a reader: a place to read from settles both what is read and where it stops
(`SelfDelimiting.reads_unique`), and an input that is cut inside a spelling does not start
with another one (`SelfDelimiting.not_reads_take`).
-/

import Bip138.Wire.CompactSize
import Bip138.Wire.Counted

namespace Bip138.Wire

open Bip138.Rust

variable {σ α β : Type}

/-- An input starts with at most one spelling, and the spelling tells its value. -/
def SelfDelimiting (format : Format σ α) : Prop :=
  ∀ ⦃value value' word word' rest⦄, format value word → format value' word' →
    word <+: word' ++ rest → value = value' ∧ word = word'

namespace SelfDelimiting

section Rules

variable {format first item : Format σ α} {second : Format σ β}

/-- Encodings of one width that tell their values apart. -/
theorem ofEncode {valid : α → Prop} {encode : α → List σ} (width : ℕ)
    (hwidth : ∀ value, (encode value).length = width)
    (hinjective : ∀ value value', valid value → valid value' → encode value = encode value' →
      value = value') :
    SelfDelimiting (.ofEncode valid encode) := by
  rintro value value' _ _ rest ⟨hvalid, rfl⟩ ⟨hvalid', rfl⟩ hfront
  have hsame : encode value = encode value' := by
    rw [List.prefix_iff_eq_take] at hfront
    rwa [hwidth, List.take_left' (hwidth value')] at hfront
  exact ⟨hinjective value value' hvalid hvalid' hsame, hsame⟩

theorem filter (hformat : SelfDelimiting format) (valid : α → Prop) :
    SelfDelimiting (format.filter valid) :=
  fun _ _ _ _ _ hword hword' hfront => hformat hword.2 hword'.2 hfront

/-- The first format settles where the second one starts. -/
theorem seq (hfirst : SelfDelimiting first) (hsecond : SelfDelimiting second) :
    SelfDelimiting (first.seq second) := by
  rintro ⟨value, later⟩ ⟨value', later'⟩ _ _ rest ⟨head, tail, hhead, htail, rfl⟩
    ⟨head', tail', hhead', htail', rfl⟩ hfront
  rw [List.append_assoc] at hfront
  obtain ⟨hvalue, rfl⟩ := hfirst hhead hhead' ((List.prefix_append head tail).trans hfront)
  obtain ⟨hlater, rfl⟩ := hsecond htail htail' ((List.prefix_append_right_inj head).mp hfront)
  exact ⟨Prod.ext hvalue hlater, rfl⟩

/-- Lists of one length, item by item. -/
theorem many (hitem : SelfDelimiting item) {values values' : List α} {word word' rest : List σ}
    (hlength : values.length = values'.length) (hword : Format.Many item values word)
    (hword' : Format.Many item values' word') (hfront : word <+: word' ++ rest) :
    values = values' ∧ word = word' := by
  induction hword generalizing values' word' with
  | nil =>
      obtain rfl := List.length_eq_zero_iff.mp hlength.symm
      exact ⟨rfl, (Format.many_nil_iff.mp hword').symm⟩
  | cons hhead htail ih =>
      cases hword' with
      | nil => cases hlength
      | cons hhead' htail' =>
          rw [List.append_assoc] at hfront
          obtain ⟨rfl, rfl⟩ := hitem hhead hhead' ((List.prefix_append _ _).trans hfront)
          obtain ⟨rfl, rfl⟩ := ih (Nat.succ.inj hlength) htail'
            ((List.prefix_append_right_inj _).mp hfront)
          exact ⟨rfl, rfl⟩

end Rules

theorem counted {item : Format UInt8 α} (hitem : SelfDelimiting item) :
    SelfDelimiting (Counted item) := by
  rintro values values' _ _ rest ⟨hlength, body, hbody, rfl⟩ ⟨hlength', body', hbody', rfl⟩ hfront
  obtain ⟨hcount, hfront⟩ := List.cons_prefix_cons.mp hfront
  have hsame : values.length = values'.length := by
    rw [← toNat_ofNat_length hlength, ← toNat_ofNat_length hlength', hcount]
  obtain ⟨rfl, rfl⟩ := hitem.many hsame hbody hbody' hfront
  exact ⟨rfl, rfl⟩

/-- The size settles how much data there is. -/
theorem sizedData : SelfDelimiting SizedData := by
  rintro data data' _ _ rest ⟨size, hsize, rfl⟩ ⟨size', hsize', rfl⟩ hfront
  rw [List.append_assoc] at hfront
  obtain ⟨hlength, rfl⟩ := hsize.loose.eq_of_isPrefix hsize'.loose
    ((List.prefix_append size data).trans hfront)
  have hdata := (List.prefix_append_right_inj size).mp hfront
  rw [List.prefix_iff_eq_take, hlength, List.take_left] at hdata
  subst hdata
  exact ⟨rfl, rfl⟩

section Reading

variable {format : Format σ α} {input : List σ} {start stop stop' : ℕ} {value value' : α}

/-- What starts at an offset, and where it stops. -/
theorem reads_unique (hformat : SelfDelimiting format)
    (hreads : Reads format input start stop value)
    (hreads' : Reads format input start stop' value') : stop = stop' ∧ value = value' := by
  obtain ⟨word, hword, hfront, rfl, -⟩ := hreads
  obtain ⟨word', hword', ⟨rest, hrest⟩, rfl, -⟩ := hreads'
  rw [← hrest] at hfront
  obtain ⟨rfl, rfl⟩ := hformat hword hword' hfront
  exact ⟨rfl, rfl⟩

/-- An input that is cut before a reading stops has no reading at the same place. -/
theorem not_reads_take (hformat : SelfDelimiting format)
    (hreads : Reads format input start stop value) {cut : ℕ} (hcut : cut < stop) :
    ¬ Reads format (input.take cut) start stop' value' := by
  intro hshort
  have hlong := hshort.append (input.drop cut)
  rw [List.take_append_drop] at hlong
  obtain ⟨rfl, -⟩ := hformat.reads_unique hreads hlong
  have hstop := hshort.stop_le
  rw [List.length_take] at hstop
  omega

end Reading

end SelfDelimiting

/-- A reading does not look behind its stop. -/
theorem Reads.take {format : Format σ α} {input : List σ} {start stop cut : ℕ} {value : α}
    (hreads : Reads format input start stop value) (hcut : stop ≤ cut) :
    Reads format (input.take cut) start stop value := by
  obtain ⟨word, hword, hfront, rfl, hstop⟩ := hreads
  refine ⟨word, hword, ?_, rfl, ?_⟩
  · rw [List.drop_take, List.prefix_take_iff]
    exact ⟨hfront, by omega⟩
  · rw [List.length_take]
    omega

end Bip138.Wire
