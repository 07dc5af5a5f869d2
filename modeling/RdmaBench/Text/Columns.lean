import Mathlib.Algebra.BigOperators.Group.List.Basic
import Mathlib.Algebra.Order.Ring.Nat

/-!
# Lines of right-aligned columns

A line is laid out in columns, each padded with blanks on the left to its width, two
blanks between them (`line`).  Two things are to be had of such a line.  Whoever splits
it at its blanks gets the texts back (`words_line`), whatever the widths; and where no
text is wider than its column, the texts end where the widths say, so that lines of the
same widths stand exactly below each other (`text_line`).
-/

namespace RdmaBench
namespace Text

/-- A text, padded on the left. -/
def padded (width : ℕ) (text : List Char) : List Char :=
  List.replicate (width - text.length) ' ' ++ text

/-- A line of columns. -/
def line (cells : List (ℕ × List Char)) : List Char :=
  [' ', ' '].intercalate (cells.map fun c => padded c.1 c.2)

theorem line_singleton (c : ℕ × List Char) : line [c] = padded c.1 c.2 := List.intercalate_singleton

theorem line_cons_cons (c d : ℕ × List Char) (cells : List (ℕ × List Char)) :
    line (c :: d :: cells) = padded c.1 c.2 ++ ' ' :: ' ' :: line (d :: cells) := by
  rw [line, List.map_cons, List.map_cons, List.intercalate_cons_cons, List.append_assoc]
  rfl

/-! ## The words of a line -/

/-- What stands between the blanks. -/
def words (l : List Char) : List (List Char) := (l.splitOn ' ').filter fun w => !w.isEmpty

theorem words_blank (l : List Char) : words (' ' :: l) = words l := by
  rw [words, List.splitOn_cons_eq_if_modifyHead, if_pos (beq_self_eq_true ' '),
    List.filter_cons_of_neg (by simp), words]

theorem words_replicate (n : ℕ) (l : List Char) :
    words (List.replicate n ' ' ++ l) = words l := by
  induction n with
  | zero => rfl
  | succ n ih => rw [List.replicate_succ, List.cons_append, words_blank, ih]

section Word

variable {w : List Char} (hne : w ≠ []) (hw : ' ' ∉ w)
include hne hw

theorem words_word : words w = [w] := by
  rw [words, List.splitOn_eq_singleton hw]
  cases w with
  | nil => exact absurd rfl hne
  | cons c w => rfl

theorem words_word_append (l : List Char) : words (w ++ ' ' :: l) = w :: words l := by
  rw [words, List.splitOn_append_cons_self_of_not_mem hw]
  cases w with
  | nil => exact absurd rfl hne
  | cons c w => exact List.filter_cons_of_pos rfl

end Word

/-- **Splitting a line at its blanks gives its texts**, if none is empty or holds a
blank. -/
theorem words_line {cells : List (ℕ × List Char)}
    (h : ∀ c ∈ cells, c.2 ≠ [] ∧ ' ' ∉ c.2) : words (line cells) = cells.map Prod.snd := by
  induction cells with
  | nil => rfl
  | cons c cells ih =>
    obtain ⟨hne, hblank⟩ := h c List.mem_cons_self
    have ih := ih fun d hd => h d (List.mem_cons_of_mem c hd)
    cases cells with
    | nil => rw [line_singleton, padded, words_replicate, words_word hne hblank, List.map_singleton]
    | cons d cells =>
      rw [line_cons_cons, padded, List.append_assoc, words_replicate,
        words_word_append hne hblank, words_blank, ih]
      rfl

/-! ## Where the texts end -/

/-- Where the column after the first `k` ends. -/
def columnEnd (widths : List ℕ) (k : ℕ) : ℕ := (widths.take (k + 1)).sum + 2 * k

theorem columnEnd_zero (w : ℕ) (widths : List ℕ) : columnEnd (w :: widths) 0 = w := by
  simp [columnEnd]

theorem columnEnd_succ (w : ℕ) (widths : List ℕ) (k : ℕ) :
    columnEnd (w :: widths) (k + 1) = w + 2 + columnEnd widths k := by
  rw [columnEnd, List.take_succ_cons, List.sum_cons, columnEnd]
  omega

theorem length_padded {width : ℕ} {text : List Char} (h : text.length ≤ width) :
    (padded width text).length = width := by
  rw [padded, List.length_append, List.length_replicate]
  omega

/-- **Where no text is too wide, each ends with its column.** -/
theorem text_line {cells : List (ℕ × List Char)} (h : ∀ c ∈ cells, c.2.length ≤ c.1) {k : ℕ}
    {c : ℕ × List Char} (hk : cells[k]? = some c) :
    ∃ before after, line cells = before ++ c.2 ++ after ∧
      before.length + c.2.length = columnEnd (cells.map Prod.fst) k := by
  induction cells generalizing k with
  | nil => exact absurd hk (by simp)
  | cons d cells ih =>
    have hd := h d List.mem_cons_self
    cases k with
    | zero =>
      obtain rfl : d = c := by simpa using hk
      have hfirst : ∃ after, line (d :: cells) = padded d.1 d.2 ++ after := by
        cases cells with
        | nil => exact ⟨[], by rw [line_singleton, List.append_nil]⟩
        | cons e cells => exact ⟨_, line_cons_cons d e cells⟩
      obtain ⟨after, hafter⟩ := hfirst
      refine ⟨List.replicate (d.1 - d.2.length) ' ', after, hafter, ?_⟩
      rw [List.map_cons, columnEnd_zero, List.length_replicate]
      omega
    | succ k =>
      have hk' : cells[k]? = some c := by simpa using hk
      obtain ⟨before, after, hline, hend⟩ :=
        ih (fun e he => h e (List.mem_cons_of_mem d he)) hk'
      cases cells with
      | nil => exact absurd hk' (by simp)
      | cons e cells =>
        refine ⟨padded d.1 d.2 ++ ' ' :: ' ' :: before, after, ?_, ?_⟩
        · rw [line_cons_cons, hline]
          simp only [List.append_assoc, List.cons_append]
        · rw [List.map_cons, columnEnd_succ, ← hend, List.length_append, List.length_cons,
            List.length_cons, length_padded hd]
          omega

end Text
end RdmaBench
