import Mathlib.Data.List.Basic

/-!
# Reading through a buffer

A stream comes in pieces, one for each read of what is underneath, and is at its
end when there are no more.  A buffered reader holds what is left of the last
piece and fetches the next when that is used up.  `readUntil` takes everything up
to a delimiter and `readOne` a single symbol, both out of the buffer, so it makes
no difference where the cuts are.

`rest` is what the reader will still deliver.  `readUntil_of_rest` and
`readOne_of_rest` say what the two reads take off it, for every buffer and every
cut; `readUntil_of_end` and `readOne_of_end` what they do when nothing is left.
A piece is never empty (`Live`): an empty read is the end of the stream.
-/

namespace RdmaBench
namespace Streams

universe u

variable {α : Type u}

/-- What is left of the last piece, and the pieces to come. -/
structure Reader (α : Type u) where
  buffer : List α
  stream : List (List α)
  deriving DecidableEq

namespace Reader

/-- Everything the reader will still deliver. -/
def rest (r : Reader α) : List α := r.buffer ++ r.stream.flatten

/-- No piece to come is empty. -/
def Live (r : Reader α) : Prop := ∀ piece ∈ r.stream, piece ≠ []

/-- Fetches a piece if the buffer is empty.  At the end of the stream it stays
empty. -/
def fillBuf (r : Reader α) : Reader α :=
  match r.buffer, r.stream with
  | [], piece :: stream => ⟨piece, stream⟩
  | _, _ => r

/-- Takes one symbol, or none at the end of the stream. -/
def readOne (r : Reader α) : Option α × Reader α :=
  match r.fillBuf with
  | ⟨[], stream⟩ => (none, ⟨[], stream⟩)
  | ⟨b :: buffer, stream⟩ => (some b, ⟨buffer, stream⟩)

/-- The loop of `readUntil`, with a filled buffer: what is available is taken up
to the delimiter, or all of it and the loop goes on with the next piece. -/
def readUntilFrom [DecidableEq α] (delim : α) : List α → List (List α) → List α × Reader α
  | available, stream =>
    match available.findIdx? fun b => b = delim with
    | some i => (available.take (i + 1), ⟨available.drop (i + 1), stream⟩)
    | none =>
      if available = [] then ([], ⟨[], stream⟩)
      else
        match stream with
        | [] => (available, ⟨[], []⟩)
        | piece :: stream =>
          let (line, r) := readUntilFrom delim piece stream
          (available ++ line, r)

/-- Takes everything up to and with the delimiter, or up to the end of the
stream. -/
def readUntil [DecidableEq α] (delim : α) (r : Reader α) : List α × Reader α :=
  readUntilFrom delim r.fillBuf.buffer r.fillBuf.stream

variable {r : Reader α}

/-! ## Filling the buffer -/

theorem rest_fillBuf (r : Reader α) : r.fillBuf.rest = r.rest := by
  obtain ⟨buffer, stream⟩ := r
  cases buffer with
  | nil => cases stream <;> rfl
  | cons b buffer => rfl

theorem Live.fillBuf (h : r.Live) : r.fillBuf.Live := by
  obtain ⟨buffer, stream⟩ := r
  cases buffer with
  | nil =>
    cases stream with
    | nil => exact h
    | cons piece stream => exact fun p hp => h p (List.mem_cons_of_mem _ hp)
  | cons b buffer => exact h

/-- **A filled buffer is empty only at the end.** -/
theorem rest_eq_nil_of_fillBuf (h : r.Live) (hbuf : r.fillBuf.buffer = []) : r.rest = [] := by
  obtain ⟨buffer, stream⟩ := r
  cases buffer with
  | nil =>
    cases stream with
    | nil => rfl
    | cons piece stream => exact absurd hbuf (h piece List.mem_cons_self)
  | cons b buffer => exact absurd hbuf (List.cons_ne_nil b buffer)

/-- At the end there is nothing to fill it with. -/
theorem fillBuf_of_end (h : r.Live) (hrest : r.rest = []) : r.fillBuf = ⟨[], []⟩ := by
  obtain ⟨buffer, stream⟩ := r
  obtain ⟨rfl, hflat⟩ : buffer = [] ∧ stream.flatten = [] := List.append_eq_nil_iff.mp hrest
  cases stream with
  | nil => rfl
  | cons piece stream =>
    have hpiece := List.flatten_eq_nil_iff.mp hflat piece List.mem_cons_self
    exact absurd hpiece (h piece List.mem_cons_self)

/-! ## One symbol -/

/-- **One symbol is taken off the front.** -/
theorem readOne_of_rest (h : r.Live) {b : α} {more : List α} (hrest : r.rest = b :: more) :
    ∃ r' : Reader α, r.readOne = (some b, r') ∧ r'.rest = more ∧ r'.Live := by
  have hfill : r.fillBuf.rest = b :: more := by rw [rest_fillBuf, hrest]
  have hlive := h.fillBuf
  have hne : r.fillBuf.buffer ≠ [] := by
    intro hbuf
    rw [rest_eq_nil_of_fillBuf h hbuf] at hrest
    exact absurd hrest (by simp)
  cases hf : r.fillBuf with
  | mk buffer stream =>
    rw [hf] at hfill hlive hne
    cases buffer with
    | nil => exact absurd rfl hne
    | cons c buffer =>
      obtain ⟨rfl, hmore⟩ := List.cons_eq_cons.mp hfill
      exact ⟨⟨buffer, stream⟩, by rw [readOne, hf], hmore, hlive⟩

theorem readOne_of_end (h : r.Live) (hrest : r.rest = []) : r.readOne = (none, ⟨[], []⟩) := by
  rw [readOne, fillBuf_of_end h hrest]

/-! ## Up to a delimiter -/

variable {delim : α}

/-- A delimited line begins with the buffer, or ends inside it. -/
theorem line_cases {buffer tail line more : List α} (h : buffer ++ tail = line ++ delim :: more) :
    (∃ after, line = buffer ++ after ∧ tail = after ++ delim :: more) ∨
      ∃ after, buffer = line ++ delim :: after ∧ more = after ++ tail := by
  rcases List.append_eq_append_iff.mp h with ⟨after, hline, htail⟩ | ⟨after, hbuf, htail⟩
  · exact .inl ⟨after, hline, htail⟩
  · cases after with
    | nil =>
      rw [List.append_nil] at hbuf
      exact .inl ⟨[], by rw [hbuf, List.append_nil], htail.symm⟩
    | cons b after =>
      obtain ⟨rfl, hmore⟩ := List.cons_eq_cons.mp htail
      exact .inr ⟨after, hbuf, hmore⟩

variable [DecidableEq α]

theorem findIdx?_of_notMem {line : List α} (hline : delim ∉ line) :
    line.findIdx? (fun b => b = delim) = none := by
  refine List.findIdx?_eq_none_iff.mpr fun b hb => decide_eq_false ?_
  rintro rfl
  exact hline hb

theorem findIdx?_front {line more : List α} (hline : delim ∉ line) :
    (line ++ delim :: more).findIdx? (fun b => b = delim) = some line.length := by
  rw [List.findIdx?_append, findIdx?_of_notMem hline, List.findIdx?_cons]
  simp

/-- The delimiter is available: the loop ends. -/
theorem readUntilFrom_found {line after : List α} (hline : delim ∉ line)
    (stream : List (List α)) :
    readUntilFrom delim (line ++ delim :: after) stream =
      (line ++ [delim], ⟨after, stream⟩) := by
  have htake : (line ++ delim :: after).take (line.length + 1) = line ++ [delim] := by
    rw [List.append_cons, List.take_left' (by simp)]
  have hdrop : (line ++ delim :: after).drop (line.length + 1) = after := by
    rw [List.append_cons, List.drop_left' (by simp)]
  rw [readUntilFrom.eq_def]
  dsimp only
  rw [findIdx?_front hline]
  dsimp only
  rw [htake, hdrop]

/-- It is not: the loop goes on with the next piece. -/
theorem readUntilFrom_next {available : List α} (hnot : delim ∉ available)
    (hne : available ≠ []) (piece : List α) (stream : List (List α)) :
    readUntilFrom delim available (piece :: stream) =
      (available ++ (readUntilFrom delim piece stream).1, (readUntilFrom delim piece stream).2) := by
  rw [readUntilFrom, findIdx?_of_notMem hnot]
  dsimp only
  rw [if_neg hne]

/-- The loop takes the line off the front, wherever the cuts are. -/
theorem readUntilFrom_of_rest {line more buffer : List α} {stream : List (List α)}
    (hline : delim ∉ line) (hlive : Live ⟨buffer, stream⟩) (hbuf : buffer ≠ [])
    (hrest : buffer ++ stream.flatten = line ++ delim :: more) :
    ∃ r' : Reader α, readUntilFrom delim buffer stream = (line ++ [delim], r') ∧
      r'.rest = more ∧ r'.Live := by
  induction stream generalizing buffer line with
  | nil =>
    rcases line_cases hrest with ⟨after, -, htail⟩ | ⟨after, rfl, hmore⟩
    · exact absurd htail (by simp)
    · exact ⟨⟨after, []⟩, readUntilFrom_found hline [], hmore.symm, hlive⟩
  | cons piece stream ih =>
    have hpiece : piece ≠ [] := hlive piece List.mem_cons_self
    have hlive' : Live ⟨piece, stream⟩ := fun p hp => hlive p (List.mem_cons_of_mem piece hp)
    rcases line_cases hrest with ⟨after, rfl, htail⟩ | ⟨after, rfl, hmore⟩
    · obtain ⟨hnot, hafter⟩ : delim ∉ buffer ∧ delim ∉ after := by
        rwa [List.mem_append, not_or] at hline
      obtain ⟨r', hr', hmore, hlive''⟩ := ih hafter hlive' hpiece htail
      refine ⟨r', ?_, hmore, hlive''⟩
      rw [readUntilFrom_next hnot hbuf, hr', List.append_assoc]
    · exact ⟨⟨after, piece :: stream⟩, readUntilFrom_found hline _, hmore.symm, hlive⟩

/-- **A line is taken off the front**, with its delimiter and nothing more. -/
theorem readUntil_of_rest (h : r.Live) {line more : List α} (hline : delim ∉ line)
    (hrest : r.rest = line ++ delim :: more) :
    ∃ r' : Reader α, r.readUntil delim = (line ++ [delim], r') ∧ r'.rest = more ∧ r'.Live := by
  have hbuf : r.fillBuf.buffer ≠ [] := by
    intro hbuf
    rw [rest_eq_nil_of_fillBuf h hbuf] at hrest
    exact absurd hrest (by simp)
  have hfill : r.fillBuf.rest = line ++ delim :: more := by rw [rest_fillBuf, hrest]
  exact readUntilFrom_of_rest hline h.fillBuf hbuf hfill

theorem readUntil_of_end (h : r.Live) (hrest : r.rest = []) :
    r.readUntil delim = ([], ⟨[], []⟩) := by
  rw [readUntil, fillBuf_of_end h hrest]
  rfl

end Reader

end Streams
end RdmaBench
