import RdmaBench.Report.Rows
import RdmaBench.Text.Columns

/-!
# Reading the rows back

A report writes its fields twice, into the row of a table and into a CSV row.  They are
the same fields (`row_eq`, `csvRow_eq`), and either text gives them back: the one split
at its blanks, the other at its commas (`fields_read_back`).

The row of a table stands below a header that is laid out in the same widths.  As long
as no field is wider than its column, every field ends where its title ends
(`fields_line_up`).

What is asked of the floating-point texts is `Plain`: they are not empty, and hold
neither a blank nor a comma.
-/

namespace RdmaBench
namespace Report

open Text

universe u

variable {α : Type u}

/-- The widths of the columns. -/
def widths : Mode → List ℕ
  | .bandwidth | .rdmaWrite | .rdmaRead => [8, 12, 10, 18, 14]
  | .latency => [8, 12, 12, 12, 16, 12, 14, 10, 12]
  | .accuracy => [8, 12, 10, 8, 6, 10, 12, 12]

/-- The titles in the header of a table. -/
def titles : Mode → List String
  | .bandwidth | .rdmaWrite | .rdmaRead =>
    ["#bytes", "#iterations", "tx_depth", "BW avg[Gb/sec]", "MsgRate[Mpps]"]
  | .latency =>
    ["#bytes", "#iterations", "t_min[usec]", "t_max[usec]", "t_typical[usec]", "t_avg[usec]",
      "t_stdev[usec]", "99%[usec]", "99.9%[usec]"]
  | .accuracy =>
    ["#bytes", "#iterations", "#received", "#lost", "#dup", "#corrupt", "ByteAcc[%]", "BitAcc[%]"]

/-- The titles in the header of the CSV rows. -/
def csvTitles : Mode → List String
  | .bandwidth | .rdmaWrite | .rdmaRead => ["bytes", "iterations", "tx_depth", "bw_avg", "msgrate"]
  | .latency =>
    ["bytes", "iterations", "t_min", "t_max", "t_typical", "t_avg", "t_stdev", "99%", "99.9%"]
  | .accuracy =>
    ["bytes", "iterations", "received", "lost", "dup", "corrupt", "byte_acc", "bit_acc"]

theorem header_eq (mode : Mode) : header mode = columns ((widths mode).zip (titles mode)) := by
  cases mode <;> rfl

theorem csvHeader_eq (mode : Mode) : csvHeader mode = commas (csvTitles mode) := by
  cases mode <;> decide

/-- The report has numbers, and they are those of the mode. -/
def BelongsTo (mode : Mode) : Report α → Prop
  | .bandwidth _ => mode = .bandwidth ∨ mode = .rdmaWrite ∨ mode = .rdmaRead
  | .latency (some _) => mode = .latency
  | .accuracy _ => mode = .accuracy
  | .latency none | .peer => False

/-- What a report has to say, field by field. -/
def fields (F : Floats α) : Report α → List String
  | .bandwidth s =>
    [toString s.msgSize, toString s.iterations, toString s.txDepth, F.fixed 6 (s.bwGbps F),
      F.fixed 6 (s.msgRateMpps F)]
  | .latency (some s) =>
    [toString s.msgSize, toString s.samples, F.fixed 2 s.min, F.fixed 2 s.max,
      F.fixed 2 s.typical, F.fixed 2 s.avg, F.fixed 2 s.stdev, F.fixed 2 s.p99, F.fixed 2 s.p999]
  | .accuracy r =>
    [toString r.msgSize, toString r.sent, toString r.received, toString r.lost,
      toString r.duplicated, toString r.corrupted, F.fixed 4 (byteAcc F r),
      F.fixed 4 (bitAcc F r)]
  | .latency none | .peer => []

section Rows

variable {F : Floats α} {mode : Mode} {r : Report α}

/-- **The row of a table holds the fields**, each in its column. -/
theorem row_eq (h : r.BelongsTo mode) :
    r.row F = some (columns ((widths mode).zip (r.fields F))) := by
  cases r with
  | bandwidth s => rcases h with rfl | rfl | rfl <;> rfl
  | latency s =>
    cases s with
    | none => exact h.elim
    | some s =>
      obtain rfl : mode = .latency := h
      rfl
  | accuracy r =>
    obtain rfl : mode = .accuracy := h
    rfl
  | peer => exact h.elim

/-- **And so does the CSV row.** -/
theorem csvRow_eq (h : r.BelongsTo mode) : r.csvRow F = some (commas (r.fields F)) := by
  cases r with
  | bandwidth s => rfl
  | latency s =>
    cases s with
    | none => exact h.elim
    | some s => rfl
  | accuracy r => rfl
  | peer => exact h.elim

theorem length_fields (h : r.BelongsTo mode) : (r.fields F).length = (widths mode).length := by
  cases r with
  | bandwidth s => rcases h with rfl | rfl | rfl <;> rfl
  | latency s =>
    cases s with
    | none => exact h.elim
    | some s =>
      obtain rfl : mode = .latency := h
      rfl
  | accuracy r =>
    obtain rfl : mode = .accuracy := h
    rfl
  | peer => exact h.elim

end Rows

/-! ## Splitting them -/

/-- A text that neither a blank nor a comma would take apart. -/
structure Whole (text : String) : Prop where
  ne_nil : text.toList ≠ []
  blank : ' ' ∉ text.toList
  comma : ',' ∉ text.toList

/-- What is asked of the texts of numbers in floating point. -/
def Floats.Plain (F : Floats α) : Prop := ∀ n x, Whole (F.fixed n x)

theorem whole_repr (n : ℕ) : Whole n.repr := by
  have hdigits : n.repr.toList = Nat.toDigits 10 n := Nat.toList_repr
  have hdigit : ∀ c ∈ n.repr.toList, c.isDigit = true := by
    intro c hc
    rw [hdigits] at hc
    exact Nat.isDigit_of_mem_toDigits (by decide) (by decide) hc
  refine ⟨hdigits ▸ Nat.toDigits_ne_nil, fun h => ?_, fun h => ?_⟩
  · exact absurd (hdigit _ h) (by decide)
  · exact absurd (hdigit _ h) (by decide)

/-- No field can be taken apart. -/
theorem whole_of_mem_fields {F : Floats α} (hF : F.Plain) {r : Report α} :
    ∀ f ∈ r.fields F, Whole f := by
  cases r with
  | latency s =>
    cases s with
    | none => exact fun f hf => absurd hf List.not_mem_nil
    | some s => simp [fields, whole_repr, hF _ _]
  | bandwidth s | accuracy s => simp [fields, whole_repr, hF _ _]
  | peer => exact fun f hf => absurd hf List.not_mem_nil

theorem toList_blanks (n : ℕ) : ("".pushn ' ' n).toList = List.replicate n ' ' := by
  rw [String.pushn_eq_repeat_push]
  induction n with
  | zero => rfl
  | succ n ih => rw [Nat.repeat, String.toList_push, ih, List.replicate_succ']

theorem toList_cell (width : ℕ) (text : String) :
    (cell width text).toList = padded width text.toList := by
  rw [cell, padded, String.toList_append, String.length_toList, toList_blanks]

theorem toList_columns (cells : List (ℕ × String)) :
    (columns cells).toList = line (cells.map fun c => (c.1, c.2.toList)) := by
  rw [columns, String.toList_intercalate, line, List.map_map, List.map_map]
  congr 1
  exact List.map_congr_left fun c _ => toList_cell c.1 c.2

theorem split_commas {texts : List String} (h : ∀ f ∈ texts, ',' ∉ f.toList) (hne : texts ≠ []) :
    ((commas texts).split ',').toList.map (fun s => s.copy) = texts := by
  have hsplit := String.toList_split_intercalate h
  rwa [if_neg hne] at hsplit

/-- **Either row of a report gives its fields back**: the CSV row at its commas, the row
of the table at its blanks.  There are as many as the CSV header of the mode has
titles. -/
theorem fields_read_back {F : Floats α} (hF : F.Plain) {mode : Mode} {r : Report α}
    (h : r.BelongsTo mode) :
    ∃ csv row : String, r.csvRow F = some csv ∧ r.row F = some row ∧
      (csv.split ',').toList.map (fun s => s.copy) = r.fields F ∧
      words row.toList = (r.fields F).map String.toList ∧
      ((csvHeader mode).split ',').toList.length = (r.fields F).length := by
  have hwhole := whole_of_mem_fields hF (r := r)
  have hlen := length_fields (F := F) h
  have hne : r.fields F ≠ [] := by
    intro hnil
    rw [hnil] at hlen
    cases mode <;> exact absurd hlen nofun
  refine ⟨_, _, csvRow_eq h, row_eq h, ?_, ?_, ?_⟩
  · exact split_commas (fun f hf => (hwhole f hf).comma) hne
  · have hcells : ∀ c ∈ ((widths mode).zip (r.fields F)).map fun c => (c.1, c.2.toList),
        c.2 ≠ [] ∧ ' ' ∉ c.2 := by
      intro c hc
      obtain ⟨d, hd, rfl⟩ := List.mem_map.mp hc
      have hfield := hwhole d.2 (List.of_mem_zip hd).2
      exact ⟨hfield.ne_nil, hfield.blank⟩
    rw [toList_columns, words_line hcells, List.map_map]
    have hsnd : ((widths mode).zip (r.fields F)).map Prod.snd = r.fields F :=
      List.map_snd_zip (Nat.le_of_eq hlen)
    conv_rhs => rw [← hsnd]
    rw [List.map_map]
    rfl
  · have hcommas : ∀ f ∈ csvTitles mode, ',' ∉ f.toList := by cases mode <;> decide
    have htitles := congrArg List.length
      (split_commas hcommas (by cases mode <;> exact List.cons_ne_nil _ _))
    rw [List.length_map] at htitles
    rw [csvHeader_eq, htitles, hlen]
    cases mode <;> rfl

/-- Whole numbers for floating point. -/
def wholeFloats : Floats ℕ :=
  ⟨⟨List.sum, id, (· - ·), (· / ·), (· ^ 2), id, 0⟩, (· * ·), fun _ => toString⟩

theorem fields_read_back_bandwidth :
    ∃ csv row : String, (bandwidth ⟨8, 1, 1, 1000⟩).csvRow wholeFloats = some csv ∧
      (csv.split ',').toList.map (fun s => s.copy) = ["8", "1", "1", "0", "0"] ∧
      words row.toList = [['8'], ['1'], ['1'], ['0'], ['0']] := by
  have hfields : (bandwidth ⟨8, 1, 1, 1000⟩).fields wholeFloats = ["8", "1", "1", "0", "0"] := by
    decide +kernel
  have hbelongs : (bandwidth ⟨8, 1, 1, 1000⟩ : Report ℕ).BelongsTo .bandwidth := .inl rfl
  obtain ⟨csv, row, hcsv, -, hsplit, hwords, -⟩ := fields_read_back (F := wholeFloats)
    (fun _ x => whole_repr x) (r := bandwidth ⟨8, 1, 1, 1000⟩) hbelongs
  rw [hfields] at hsplit hwords
  exact ⟨csv, row, hcsv, hsplit, hwords⟩

/-! ## Below the header -/

/-- Texts that fit their columns end with them. -/
theorem ends_with_column {ws : List ℕ} {texts : List String} (hlen : texts.length = ws.length)
    (hfits : ∀ c ∈ ws.zip texts, c.2.length ≤ c.1) {k : ℕ} {text : String}
    (hk : texts[k]? = some text) :
    ∃ before after, (columns (ws.zip texts)).toList = before ++ text.toList ++ after ∧
      before.length + text.length = columnEnd ws k := by
  have hlt : k < ws.length := hlen ▸ (List.getElem?_eq_some_iff.mp hk).1
  have hcell : ((ws.zip texts).map fun c => (c.1, c.2.toList))[k]? =
      some (ws[k], text.toList) := by
    rw [List.getElem?_map, List.getElem?_zip_eq_some (z := (ws[k], text)) |>.mpr
      ⟨List.getElem?_eq_getElem hlt, hk⟩]
    rfl
  have hnarrow : ∀ c ∈ (ws.zip texts).map fun c => (c.1, c.2.toList), c.2.length ≤ c.1 := by
    intro c hc
    obtain ⟨d, hd, rfl⟩ := List.mem_map.mp hc
    rw [String.length_toList]
    exact hfits d hd
  have hwidths : ((ws.zip texts).map fun c => (c.1, c.2.toList)).map Prod.fst = ws := by
    rw [List.map_map]
    exact List.map_fst_zip (Nat.le_of_eq hlen.symm)
  obtain ⟨before, after, hline, hend⟩ := text_line hnarrow hcell
  rw [hwidths] at hend
  exact ⟨before, after, (toList_columns _).trans hline, String.length_toList ▸ hend⟩

theorem titles_fit (mode : Mode) : (titles mode).length = (widths mode).length ∧
    ∀ c ∈ (widths mode).zip (titles mode), c.2.length ≤ c.1 := by
  cases mode <;> exact ⟨rfl, by decide⟩

/-- **Every field ends where its title ends**, as long as no field is wider than its
column. -/
theorem fields_line_up {F : Floats α} {mode : Mode} {r : Report α} (h : r.BelongsTo mode)
    (hfits : ∀ c ∈ (widths mode).zip (r.fields F), c.2.length ≤ c.1) :
    ∃ row : String, r.row F = some row ∧ (titles mode).length = (r.fields F).length ∧
      ∀ (k : ℕ) (field title : String), (r.fields F)[k]? = some field →
        (titles mode)[k]? = some title →
        ∃ before after before' after' : List Char,
          row.toList = before ++ field.toList ++ after ∧
          (header mode).toList = before' ++ title.toList ++ after' ∧
          before.length + field.length = before'.length + title.length := by
  have hlen := length_fields (F := F) h
  obtain ⟨htitles, hnarrow⟩ := titles_fit mode
  refine ⟨_, row_eq h, htitles.trans hlen.symm, fun k field title hfield htitle => ?_⟩
  obtain ⟨before, after, hrow, hend⟩ := ends_with_column hlen hfits hfield
  obtain ⟨before', after', hheader, hend'⟩ := ends_with_column htitles hnarrow htitle
  rw [← header_eq] at hheader
  exact ⟨before, after, before', after', hrow, hheader, hend.trans hend'.symm⟩

theorem fields_line_up_bandwidth :
    ∃ row : String, (bandwidth ⟨8, 1, 1, 1000⟩).row wholeFloats = some row ∧
      (titles .bandwidth).length = ((bandwidth ⟨8, 1, 1, 1000⟩).fields wholeFloats).length := by
  have hfits : ∀ c ∈ (widths .bandwidth).zip ((bandwidth ⟨8, 1, 1, 1000⟩).fields wholeFloats),
      c.2.length ≤ c.1 := by
    decide +kernel
  have hbelongs : (bandwidth ⟨8, 1, 1, 1000⟩ : Report ℕ).BelongsTo .bandwidth := .inl rfl
  obtain ⟨row, hrow, hlen, -⟩ := fields_line_up hbelongs hfits
  exact ⟨row, hrow, hlen⟩

end Report
end RdmaBench
