import RdmaBench.Report.Rows

/-!
# The suite

`run_suite` runs every mode of a plan at every size it can be run with, `runs` times
each, and prints as it goes.  What an attempt comes to is not up to the suite:
`outcome i` is how the attempt number `i` ends, for any assignment of ends to
numbers.

Every `println!` is a `Line` here, with its text and, for the reader, the place in
the source it comes from.  The attempts are recorded where `run_once` is called.

## The three loops are one

`slots` writes the matrix out: a heading for each mode and a run for each attempt,
in order.  `runSuite_eq` says that the three loops are one fold over it.  A slot
leaves its lines, its attempt and its failure behind, whatever happened before it,
so what a whole suite leaves is read off the numbered slots (`printed_play`,
`attempted_play`, `failures_play`).

## A missing row

In the table an attempt without numbers is a row that says so.  In CSV it prints
nothing, and the rows after it move up.  `suite_right_iff` is the exact condition.
-/

namespace RdmaBench

/-- `Debug` of a transport. -/
def Transport.debug : Transport → String
  | .rc => "Rc"
  | .uc => "Uc"
  | .ud => "Ud"

namespace Client

open Cli Report

universe u

variable {α : Type u}

/-! ## `run_suite` -/

/-- Which `println!` a line comes from. -/
inductive Kind where
  | intro
  | blank
  | title
  | skipped
  | header
  | result
  | note
  | summary
  deriving DecidableEq, Repr

structure Line where
  kind : Kind
  text : String
  deriving DecidableEq, Repr

/-- What a suite has done so far. -/
structure Suite where
  /-- The calls of `run_once`. -/
  attempted : List (Mode × ℕ) := []
  printed : List Line := []
  failures : List (Mode × ℕ) := []
  firstRun : Bool := true
  /-- The pauses between runs. -/
  pauses : ℕ := 0
  deriving DecidableEq, Repr

/-- `println!`. -/
def Suite.print (kind : Kind) (text : String) (s : Suite) : Suite :=
  { s with printed := s.printed ++ [⟨kind, text⟩] }

/-- The body of the innermost loop: a pause unless this is the first run, the
attempt, and what is printed about it. -/
def runAttempt (F : Floats α) (csv : Bool) (outcome : ℕ → Except String (Report α))
    (mode : Mode) (size : ℕ) (s : Suite) : Suite :=
  let s := if s.firstRun then s else { s with pauses := s.pauses + 1 }
  let number := s.attempted.length
  let s := { s with firstRun := false, attempted := s.attempted ++ [(mode, size)] }
  match outcome number with
  | .ok result =>
    if csv then
      match result.csvRow F with
      | some row => s.print .result row
      | none => s
    else
      let s :=
        match result.row F with
        | some row => s.print .result row
        | none => s.print .result (cell 8 (toString size) ++ "  (no result)")
      match result.notes with
      | some notes => s.print .note (cell 8 "" ++ "  " ++ notes)
      | none => s
  | .error e =>
    let s := s.print .result (cell 8 (toString size) ++ "  failed: " ++ e)
    { s with failures := s.failures ++ [(mode, size)] }

/-- `for _ in 0..args.runs`. -/
def runSize (F : Floats α) (csv : Bool) (outcome : ℕ → Except String (Report α))
    (mode : Mode) (size : ℕ) : ℕ → Suite → Suite
  | 0, s => s
  | runs + 1, s => runSize F csv outcome mode size runs (runAttempt F csv outcome mode size s)

/-- The sizes of a plan that a mode can be run with. -/
def sizesOf (plan : Plan) (mode : Mode) : List ℕ :=
  plan.sizes.filter fun size => mode.minMsgSize ≤ size

/-- What is printed before the runs of a mode. -/
def printHeading (args : ClientArgs) (plan : Plan) (mode : Mode) (s : Suite) : Suite :=
  let skipped := plan.sizes.length - (sizesOf plan mode).length
  let s := s.print .blank ""
  let s := s.print .title ("=== " ++ mode.name ++ " ===")
  let s :=
    if 0 < skipped then
      s.print .skipped ("(skipping " ++ toString skipped ++ " size(s) below " ++
        toString mode.minMsgSize ++ " bytes, the minimum for this mode)")
    else s
  if args.csv then s.print .header (csvHeader mode) else s.print .header (header mode)

/-- The body of the loop over the modes. -/
def runMode (F : Floats α) (args : ClientArgs) (plan : Plan)
    (outcome : ℕ → Except String (Report α)) (s : Suite) (mode : Mode) : Suite :=
  let s := printHeading args plan mode s
  (sizesOf plan mode).foldl (fun s size => runSize F args.csv outcome mode size args.runs s) s

/-- The lines at the end. -/
def summary (failures : List (Mode × ℕ)) : List String :=
  if failures.isEmpty then ["all runs succeeded"]
  else
    (toString failures.length ++ " run(s) failed:") ::
      failures.map fun f => "  " ++ f.1.name ++ " @ " ++ toString f.2 ++ " bytes"

/-- The two lines at the beginning. -/
def printIntro (args : ClientArgs) (plan : Plan) : Suite :=
  let s : Suite := {}
  let s := s.print .intro ("running " ++ toString plan.modes.length ++ " mode(s) over " ++
    toString plan.sizes.length ++ " message size(s), transport=" ++ args.transport.debug ++
    ", iterations=" ++ toString args.iterations ++ ", tx_depth=" ++ toString args.txDepth ++
    ", rx_depth=" ++ toString args.rxDepth)
  s.print .intro "(the peer must be running as `server --listen`)"

/-- Runs every (mode, size) pair, printing one table per mode. -/
def runSuite (F : Floats α) (args : ClientArgs) (plan : Plan)
    (outcome : ℕ → Except String (Report α)) : Suite :=
  let s := plan.modes.foldl (runMode F args plan outcome) (printIntro args plan)
  let s := s.print .blank ""
  (summary s.failures).foldl (fun s text => s.print .summary text) s

/-! ## The three loops are one -/

/-- What a suite does one after the other. -/
inductive Slot where
  | heading (mode : Mode)
  | run (mode : Mode) (size : ℕ)
  deriving DecidableEq, Repr

/-- The matrix written out. -/
def slots (plan : Plan) (runs : ℕ) : List Slot :=
  plan.modes.flatMap fun mode =>
    .heading mode ::
      (sizesOf plan mode).flatMap fun size => List.replicate runs (.run mode size)

section Play

variable (F : Floats α) (args : ClientArgs) (plan : Plan)
  (outcome : ℕ → Except String (Report α))

def playSlot (s : Suite) : Slot → Suite
  | .heading mode => printHeading args plan mode s
  | .run mode size => runAttempt F args.csv outcome mode size s

/-- All slots in order. -/
def play (slots : List Slot) (s : Suite) : Suite := slots.foldl (playSlot F args plan outcome) s

theorem runSize_eq_play (mode : Mode) (size runs : ℕ) (s : Suite) :
    runSize F args.csv outcome mode size runs s =
      play F args plan outcome (List.replicate runs (.run mode size)) s := by
  induction runs generalizing s with
  | zero => rfl
  | succ runs ih =>
    rw [runSize, ih, List.replicate_succ, play, play, List.foldl_cons]
    rfl

theorem runMode_eq_play (mode : Mode) (s : Suite) :
    runMode F args plan outcome s mode =
      play F args plan outcome (.heading mode :: (sizesOf plan mode).flatMap fun size =>
        List.replicate args.runs (.run mode size)) s := by
  rw [runMode, play, List.foldl_cons, List.foldl_flatMap]
  refine List.foldl_ext _ _ _ fun s size _ => ?_
  exact runSize_eq_play F args plan outcome mode size args.runs s

/-- **The three loops are one fold over the matrix.** -/
theorem modes_eq_play (s : Suite) :
    plan.modes.foldl (runMode F args plan outcome) s =
      play F args plan outcome (slots plan args.runs) s := by
  rw [play, slots, List.foldl_flatMap]
  refine List.foldl_ext _ _ _ fun s mode _ => ?_
  exact runMode_eq_play F args plan outcome mode s

/-! ## What a slot leaves behind -/

/-- The slots with the number of the attempt they are, or come before. -/
def number : ℕ → List Slot → List (Slot × ℕ)
  | _, [] => []
  | i, .heading mode :: slots => (.heading mode, i) :: number i slots
  | i, .run mode size :: slots => (.run mode size, i) :: number (i + 1) slots

/-- The attempt a slot is. -/
def Slot.attempt : Slot → Option (Mode × ℕ)
  | .heading _ => none
  | .run mode size => some (mode, size)

/-- The failure a slot leaves. -/
def failureOf : Slot × ℕ → Option (Mode × ℕ)
  | (.heading _, _) => none
  | (.run mode size, i) =>
    match outcome i with
    | .ok _ => none
    | .error _ => some (mode, size)

/-- The lines of an attempt. -/
def attemptLines (size : ℕ) : Except String (Report α) → List Line
  | .ok result =>
    if args.csv then (result.csvRow F).toList.map fun row => ⟨.result, row⟩
    else
      ⟨.result, (result.row F).getD (cell 8 (toString size) ++ "  (no result)")⟩ ::
        result.notes.toList.map fun notes => ⟨.note, cell 8 "" ++ "  " ++ notes⟩
  | .error e => [⟨.result, cell 8 (toString size) ++ "  failed: " ++ e⟩]

/-- The lines before the runs of a mode. -/
def headingLines (mode : Mode) : List Line :=
  let skipped := plan.sizes.length - (sizesOf plan mode).length
  [⟨.blank, ""⟩, ⟨.title, "=== " ++ mode.name ++ " ==="⟩] ++
    (if 0 < skipped then
      [⟨.skipped, "(skipping " ++ toString skipped ++ " size(s) below " ++
        toString mode.minMsgSize ++ " bytes, the minimum for this mode)"⟩]
    else []) ++
    [⟨.header, if args.csv then csvHeader mode else header mode⟩]

/-- The lines of a slot. -/
def linesOf : Slot × ℕ → List Line
  | (.heading mode, _) => headingLines args plan mode
  | (.run _ size, i) => attemptLines F args size (outcome i)

theorem printHeading_eq (mode : Mode) (s : Suite) :
    printHeading args plan mode s =
      { s with printed := s.printed ++ headingLines args plan mode } := by
  rw [printHeading, headingLines]
  dsimp only [Suite.print]
  by_cases hskip : 0 < plan.sizes.length - (sizesOf plan mode).length
  · cases args.csv <;> simp [hskip]
  · cases args.csv <;> simp [hskip]

theorem runAttempt_eq (mode : Mode) (size : ℕ) (s : Suite) :
    runAttempt F args.csv outcome mode size s =
      { attempted := s.attempted ++ [(mode, size)]
        printed := s.printed ++ attemptLines F args size (outcome s.attempted.length)
        failures := s.failures ++ (failureOf outcome (.run mode size, s.attempted.length)).toList
        firstRun := false
        pauses := s.pauses + if s.firstRun then 0 else 1 } := by
  have hpause : (if s.firstRun then s else { s with pauses := s.pauses + 1 }) =
      { s with pauses := s.pauses + if s.firstRun then 0 else 1 } := by
    by_cases h : s.firstRun = true
    · rw [if_pos h, if_pos h]
      rfl
    · rw [if_neg h, if_neg h]
  rw [runAttempt, hpause, failureOf]
  dsimp only [Suite.print]
  cases outcome s.attempted.length with
  | error e => simp [attemptLines]
  | ok result =>
    rw [attemptLines]
    cases args.csv with
    | true => cases hrow : result.csvRow F <;> simp [hrow]
    | false =>
      cases hrow : result.row F <;> cases hnotes : result.notes <;> simp [hrow, hnotes]

/-- What a suite has done after a slot. -/
theorem playSlot_eq (slot : Slot) (s : Suite) :
    (playSlot F args plan outcome s slot).attempted = s.attempted ++ slot.attempt.toList ∧
      (playSlot F args plan outcome s slot).printed =
        s.printed ++ linesOf F args plan outcome (slot, s.attempted.length) ∧
      (playSlot F args plan outcome s slot).failures =
        s.failures ++ (failureOf outcome (slot, s.attempted.length)).toList := by
  cases slot with
  | heading mode =>
    rw [playSlot, printHeading_eq]
    exact ⟨(List.append_nil _).symm, rfl, (List.append_nil _).symm⟩
  | run mode size =>
    rw [playSlot, runAttempt_eq]
    exact ⟨rfl, rfl, rfl⟩

/-- **What a suite has done after any slots**: their attempts, their lines and
their failures, in order. -/
theorem play_eq (slots : List Slot) (s : Suite) :
    (play F args plan outcome slots s).attempted = s.attempted ++ slots.filterMap Slot.attempt ∧
      (play F args plan outcome slots s).printed =
        s.printed ++
          (number s.attempted.length slots).flatMap (linesOf F args plan outcome) ∧
      (play F args plan outcome slots s).failures =
        s.failures ++ (number s.attempted.length slots).filterMap (failureOf outcome) := by
  induction slots generalizing s with
  | nil => exact ⟨(List.append_nil _).symm, (List.append_nil _).symm, (List.append_nil _).symm⟩
  | cons slot slots ih =>
    obtain ⟨hattempted, hprinted, hfailures⟩ := playSlot_eq F args plan outcome slot s
    obtain ⟨ihattempted, ihprinted, ihfailures⟩ := ih (playSlot F args plan outcome s slot)
    have hnumber : number s.attempted.length (slot :: slots) =
        (slot, s.attempted.length) ::
          number (playSlot F args plan outcome s slot).attempted.length slots := by
      rw [hattempted]
      cases slot <;> simp [number, Slot.attempt]
    have hplay : play F args plan outcome (slot :: slots) s =
        play F args plan outcome slots (playSlot F args plan outcome s slot) := rfl
    rw [hplay, hnumber]
    refine ⟨?_, ?_, ?_⟩
    · rw [ihattempted, hattempted, List.append_assoc]
      cases slot <;> rfl
    · rw [ihprinted, hprinted, List.append_assoc, List.flatMap_cons]
    · rw [ihfailures, hfailures, List.append_assoc, List.filterMap_cons]
      cases failureOf outcome (slot, s.attempted.length) <;> rfl

/-- A suite pauses between any two of its runs. -/
theorem pauses_play (slots : List Slot) (s : Suite) (hfirst : s.firstRun = s.attempted.isEmpty)
    (hpauses : s.pauses = s.attempted.length - 1) :
    (play F args plan outcome slots s).pauses =
      (play F args plan outcome slots s).attempted.length - 1 := by
  induction slots generalizing s with
  | nil => exact hpauses
  | cons slot slots ih =>
    refine ih (playSlot F args plan outcome s slot) ?_ ?_
    · cases slot with
      | heading mode =>
        rw [playSlot, printHeading_eq]
        exact hfirst
      | run mode size =>
        rw [playSlot, runAttempt_eq]
        simp
    · cases slot with
      | heading mode =>
        rw [playSlot, printHeading_eq]
        exact hpauses
      | run mode size =>
        rw [playSlot, runAttempt_eq]
        dsimp only
        rw [hpauses, hfirst, List.length_append, List.length_singleton]
        cases s.attempted with
        | nil => rfl
        | cons a as => simp

end Play

/-! ## A whole suite -/

/-- The attempts of a plan, in order. -/
def attempts (plan : Plan) (runs : ℕ) : List (Mode × ℕ) :=
  plan.modes.flatMap fun mode =>
    (sizesOf plan mode).flatMap fun size => List.replicate runs (mode, size)

/-- The attempts that fail, in order. -/
def failed (outcome : ℕ → Except String (Report α)) (attempts : List (Mode × ℕ)) :
    List (Mode × ℕ) :=
  attempts.zipIdx.filterMap fun a =>
    match outcome a.2 with
    | .ok _ => none
    | .error _ => some a.1

/-- A header or a result, as opposed to what is printed around the table. -/
def Line.inTable (line : Line) : Bool := line.kind = .header || line.kind = .result

/-- The line that a slot should have in the table: the header of the mode, or one
result for the attempt. -/
def Fits (F : Floats α) (csv : Bool) (outcome : ℕ → Except String (Report α)) :
    Slot × ℕ → Line → Prop
  | (.heading mode, _), line => line = ⟨.header, if csv then csvHeader mode else header mode⟩
  | (.run _ size, i), line =>
    line.kind = .result ∧
      match outcome i with
      | .ok result =>
        ∀ row, (if csv then result.csvRow F else result.row F) = some row → line.text = row
      | .error e => line.text = cell 8 (toString size) ++ "  failed: " ++ e

/-- What a suite should have done. -/
structure Right (F : Floats α) (args : ClientArgs) (plan : Plan)
    (outcome : ℕ → Except String (Report α)) (s : Suite) : Prop where
  /-- Each pair `runs` times, in the order of the plan. -/
  attempted : s.attempted = attempts plan args.runs
  /-- One header for a mode, then one result for an attempt. -/
  table : List.Forall₂ (Fits F args.csv outcome) (number 0 (slots plan args.runs))
    (s.printed.filter Line.inTable)
  /-- The list at the end. -/
  listed : ∃ before, s.printed = before ++ ⟨.blank, ""⟩ ::
    (summary (failed outcome (attempts plan args.runs))).map fun text => ⟨.summary, text⟩

section Whole

variable (F : Floats α) (args : ClientArgs) (plan : Plan)
  (outcome : ℕ → Except String (Report α))

theorem filterMap_attempt_slots (runs : ℕ) :
    (slots plan runs).filterMap Slot.attempt = attempts plan runs := by
  rw [slots, attempts, List.filterMap_flatMap]
  refine List.flatMap_congr fun mode _ => ?_
  rw [List.filterMap_cons_none rfl, List.filterMap_flatMap]
  exact List.flatMap_congr fun size _ => List.filterMap_replicate_of_some rfl

/-- The failures of numbered slots are those of their attempts. -/
theorem filterMap_failureOf_number (i : ℕ) (slots : List Slot) :
    (number i slots).filterMap (failureOf outcome) =
      ((slots.filterMap Slot.attempt).zipIdx i).filterMap fun a =>
        match outcome a.2 with
        | .ok _ => none
        | .error _ => some a.1 := by
  induction slots generalizing i with
  | nil => rfl
  | cons slot slots ih =>
    cases slot with
    | heading mode =>
      rw [number, List.filterMap_cons_none rfl, List.filterMap_cons_none rfl, ih]
    | run mode size =>
      have hslot : (Slot.run mode size :: slots).filterMap Slot.attempt =
          (mode, size) :: slots.filterMap Slot.attempt := List.filterMap_cons_some rfl
      rw [number, hslot, List.zipIdx_cons, List.filterMap_cons, List.filterMap_cons, ih,
        failureOf]

/-- Printing the lines of the summary. -/
theorem foldl_print_eq (texts : List String) (s : Suite) :
    texts.foldl (fun s text => s.print .summary text) s =
      { s with printed := s.printed ++ texts.map fun text => ⟨.summary, text⟩ } := by
  induction texts generalizing s with
  | nil => simp
  | cons text texts ih =>
    rw [List.foldl_cons, ih]
    simp [Suite.print]

/-- **What a suite leaves behind.** -/
theorem runSuite_eq :
    (runSuite F args plan outcome).attempted = attempts plan args.runs ∧
      (runSuite F args plan outcome).failures = failed outcome (attempts plan args.runs) ∧
      (runSuite F args plan outcome).printed =
        (printIntro args plan).printed ++
          (number 0 (slots plan args.runs)).flatMap (linesOf F args plan outcome) ++
          ⟨.blank, ""⟩ ::
            (summary (failed outcome (attempts plan args.runs))).map fun text =>
              ⟨.summary, text⟩ := by
  obtain ⟨hattempted, hprinted, hfailures⟩ :=
    play_eq F args plan outcome (slots plan args.runs) (printIntro args plan)
  rw [filterMap_failureOf_number] at hfailures
  rw [filterMap_attempt_slots] at hattempted hfailures
  have hend : (play F args plan outcome (slots plan args.runs) (printIntro args plan)).failures =
      failed outcome (attempts plan args.runs) := hfailures
  rw [runSuite, modes_eq_play, foldl_print_eq]
  dsimp only [Suite.print]
  refine ⟨hattempted, hend, ?_⟩
  rw [hprinted, hend, List.append_assoc, List.append_assoc, List.append_assoc]
  rfl

/-! ## The missing row -/

/-- Whether a slot has a line in the table. -/
def shows (csv : Bool) (outcome : ℕ → Except String (Report α)) : Slot × ℕ → Bool
  | (.heading _, _) => true
  | (.run _ _, i) =>
    match outcome i with
    | .ok result => !csv || result.hasNumbers
    | .error _ => true

/-- Of the lines before the runs of a mode, the header is in the table. -/
theorem filter_headingLines (mode : Mode) :
    (headingLines args plan mode).filter Line.inTable =
      [⟨.header, if args.csv then csvHeader mode else header mode⟩] := by
  rw [headingLines]
  by_cases hskip : 0 < plan.sizes.length - (sizesOf plan mode).length <;>
    simp [hskip, Line.inTable]

/-- **The table line of a slot that shows** is the one it should have. -/
theorem exists_fits (slot : Slot × ℕ) (h : shows args.csv outcome slot = true) :
    ∃ line, (linesOf F args plan outcome slot).filter Line.inTable = [line] ∧
      Fits F args.csv outcome slot line := by
  obtain ⟨slot, i⟩ := slot
  cases slot with
  | heading mode => exact ⟨_, filter_headingLines args plan mode, rfl⟩
  | run mode size =>
    rw [shows] at h
    rw [linesOf]
    cases hend : outcome i with
    | error e =>
      refine ⟨⟨.result, cell 8 (toString size) ++ "  failed: " ++ e⟩, rfl, rfl, ?_⟩
      rw [hend]
    | ok result =>
      rw [hend] at h
      dsimp only at h
      rw [attemptLines]
      cases hcsv : args.csv with
      | true =>
        rw [hcsv, Bool.not_true, Bool.false_or, ← isSome_csvRow_iff F] at h
        obtain ⟨row, hrow⟩ := Option.isSome_iff_exists.mp h
        refine ⟨⟨.result, row⟩, by simp [hrow, Line.inTable], rfl, ?_⟩
        rw [hend]
        intro row' hrow'
        exact Option.some.inj (hrow.symm.trans hrow')
      | false =>
        refine ⟨⟨.result, (result.row F).getD (cell 8 (toString size) ++ "  (no result)")⟩,
          ?_, rfl, ?_⟩
        · cases result.notes <;> simp [Line.inTable]
        · rw [hend]
          intro row hrow
          dsimp only
          rw [show result.row F = some row from hrow, Option.getD_some]

/-- A slot that does not show leaves none. -/
theorem filter_linesOf_eq_nil (slot : Slot × ℕ) (h : shows args.csv outcome slot = false) :
    (linesOf F args plan outcome slot).filter Line.inTable = [] := by
  obtain ⟨slot, i⟩ := slot
  cases slot with
  | heading mode => exact absurd h (by simp [shows])
  | run mode size =>
    rw [shows] at h
    rw [linesOf]
    cases hend : outcome i with
    | error e =>
      rw [hend] at h
      exact absurd h (by simp)
    | ok result =>
      rw [hend, Bool.or_eq_false_iff, Bool.not_eq_false'] at h
      obtain ⟨hcsv, hnumbers⟩ := h
      have hrow : result.csvRow F = none := by
        rw [← Option.not_isSome_iff_eq_none, isSome_csvRow_iff, hnumbers]
        simp
      rw [attemptLines, if_pos hcsv, hrow]
      rfl

/-- The lines around the table are not of it. -/
theorem filter_printed_eq :
    (runSuite F args plan outcome).printed.filter Line.inTable =
      (number 0 (slots plan args.runs)).flatMap fun slot =>
        (linesOf F args plan outcome slot).filter Line.inTable := by
  obtain ⟨-, -, hprinted⟩ := runSuite_eq F args plan outcome
  have hsummary (texts : List String) :
      (texts.map fun text => (⟨.summary, text⟩ : Line)).filter Line.inTable = [] := by
    rw [List.filter_eq_nil_iff]
    simp [Line.inTable]
  rw [hprinted, List.filter_append, List.filter_append, List.filter_cons_of_neg (by decide),
    hsummary, List.append_nil, List.filter_flatMap]
  rfl

/-- A fold of single lines, one for each slot that fits. -/
theorem forall₂_of_shows {numbered : List (Slot × ℕ)}
    (h : ∀ slot ∈ numbered, shows args.csv outcome slot = true) :
    List.Forall₂ (Fits F args.csv outcome) numbered
      (numbered.flatMap fun slot => (linesOf F args plan outcome slot).filter Line.inTable) := by
  induction numbered with
  | nil => exact .nil
  | cons slot numbered ih =>
    obtain ⟨line, hline, hfits⟩ := exists_fits F args plan outcome slot (h slot List.mem_cons_self)
    rw [List.flatMap_cons, hline, List.singleton_append]
    exact .cons hfits (ih fun slot' hslot => h slot' (List.mem_cons_of_mem slot hslot))

/-- There are as many lines as there are slots that show. -/
theorem length_table (numbered : List (Slot × ℕ)) :
    (numbered.flatMap fun slot => (linesOf F args plan outcome slot).filter Line.inTable).length =
      numbered.countP (shows args.csv outcome) := by
  induction numbered with
  | nil => rfl
  | cons slot numbered ih =>
    rw [List.flatMap_cons, List.length_append, ih, List.countP_cons]
    cases hshows : shows args.csv outcome slot with
    | true =>
      obtain ⟨line, hline, -⟩ := exists_fits F args plan outcome slot hshows
      rw [hline, List.length_singleton, if_pos rfl, Nat.add_comm]
    | false =>
      rw [filter_linesOf_eq_nil F args plan outcome slot hshows]
      simp

/-- **The table is right exactly when every slot shows.** -/
theorem forall₂_iff_shows (numbered : List (Slot × ℕ)) :
    List.Forall₂ (Fits F args.csv outcome) numbered
        (numbered.flatMap fun slot => (linesOf F args plan outcome slot).filter Line.inTable) ↔
      ∀ slot ∈ numbered, shows args.csv outcome slot = true := by
  refine ⟨fun h => ?_, forall₂_of_shows F args plan outcome⟩
  have hlength := h.length_eq
  rw [length_table] at hlength
  exact List.countP_eq_length.mp hlength.symm

/-- Every attempt has a slot with its number. -/
theorem exists_slot {i : ℕ} {slots : List Slot} {j : ℕ} (hj : i ≤ j)
    (hlt : j < i + (slots.filterMap Slot.attempt).length) :
    ∃ mode size, (Slot.run mode size, j) ∈ number i slots := by
  induction slots generalizing i with
  | nil => exact absurd hlt (by simp; omega)
  | cons slot slots ih =>
    cases slot with
    | heading mode =>
      obtain ⟨mode', size, hmem⟩ := ih hj hlt
      exact ⟨mode', size, List.mem_cons_of_mem _ hmem⟩
    | run mode size =>
      rcases Nat.eq_or_lt_of_le hj with rfl | hij
      · exact ⟨mode, size, List.mem_cons_self⟩
      · have hlength : ((Slot.run mode size :: slots).filterMap Slot.attempt).length =
            (slots.filterMap Slot.attempt).length + 1 := rfl
        obtain ⟨mode', size', hmem⟩ := ih (i := i + 1) hij (by omega)
        exact ⟨mode', size', List.mem_cons_of_mem _ hmem⟩

/-- And every numbered run is an attempt. -/
theorem lt_of_mem_number {i j : ℕ} {slots : List Slot} {mode : Mode} {size : ℕ}
    (h : (Slot.run mode size, j) ∈ number i slots) :
    j < i + (slots.filterMap Slot.attempt).length := by
  induction slots generalizing i with
  | nil => exact absurd h List.not_mem_nil
  | cons slot slots ih =>
    cases slot with
    | heading mode' =>
      rcases List.mem_cons.mp h with heq | hmem
      · exact absurd heq (by simp)
      · exact ih hmem
    | run mode' size' =>
      have hlength : ((Slot.run mode' size' :: slots).filterMap Slot.attempt).length =
          (slots.filterMap Slot.attempt).length + 1 := rfl
      rcases List.mem_cons.mp h with heq | hmem
      · obtain ⟨-, rfl⟩ := Prod.ext_iff.mp heq
        dsimp only
        omega
      · have := ih hmem
        omega

/-- **Every slot shows, or an attempt has no numbers and the format is CSV.** -/
theorem all_show_iff :
    (∀ slot ∈ number 0 (slots plan args.runs), shows args.csv outcome slot = true) ↔
      (args.csv = true → ∀ i < (attempts plan args.runs).length, ∀ result,
        outcome i = .ok result → result.hasNumbers = true) := by
  rw [← filterMap_attempt_slots]
  refine ⟨fun h hcsv i hi result hend => ?_, fun h slot hslot => ?_⟩
  · have hlt : i < 0 + ((slots plan args.runs).filterMap Slot.attempt).length := by omega
    obtain ⟨mode, size, hmem⟩ := exists_slot (Nat.zero_le i) hlt
    have hshows := h _ hmem
    rw [shows, hend, hcsv] at hshows
    exact hshows
  · obtain ⟨slot, i⟩ := slot
    cases slot with
    | heading mode => rfl
    | run mode size =>
      have hi := lt_of_mem_number hslot
      rw [shows]
      cases hend : outcome i with
      | error e => rfl
      | ok result =>
        cases hcsv : args.csv with
        | false => rfl
        | true => exact h hcsv i (by omega) result hend

end Whole

/-- **A suite does what it should exactly when no row is missing**: every attempt in
its place, one line for it, the failures listed --- unless the format is CSV and an
attempt of the plan ends well without numbers. -/
theorem suite_right_iff (F : Floats α) (args : ClientArgs) (plan : Plan)
    (outcome : ℕ → Except String (Report α)) :
    Right F args plan outcome (runSuite F args plan outcome) ↔
      (args.csv = true → ∀ i < (attempts plan args.runs).length, ∀ result,
        outcome i = .ok result → result.hasNumbers = true) := by
  obtain ⟨hattempted, -, hprinted⟩ := runSuite_eq F args plan outcome
  have htable := forall₂_iff_shows F args plan outcome (number 0 (slots plan args.runs))
  rw [all_show_iff, ← filter_printed_eq] at htable
  refine ⟨fun h => htable.mp h.table, fun h => ⟨hattempted, htable.mpr h, ?_⟩⟩
  exact ⟨_, hprinted⟩

/-- `--csv --mode latency --size 8`, and every round trip times out: the table has a
header and no row. -/
theorem suite_right_no_row :
    ¬Right
      (⟨⟨List.sum, id, (· - ·), (· / ·), (· ^ 2), id, 0⟩, (· * ·), fun _ => toString⟩ : Floats ℕ)
      { mode := [.latency], size := 8, csv := true } ⟨[.latency], [8]⟩
      (fun _ => .ok (.latency none))
      (runSuite ⟨⟨List.sum, id, (· - ·), (· / ·), (· ^ 2), id, 0⟩, (· * ·), fun _ => toString⟩
        { mode := [.latency], size := 8, csv := true } ⟨[.latency], [8]⟩
        fun _ => .ok (.latency none)) := by
  intro h
  have hlength := h.table.length_eq
  exact absurd hlength (by decide)

/-- **A suite pauses between any two of its runs**, and only there. -/
theorem runSuite_pauses (F : Floats α) (args : ClientArgs) (plan : Plan)
    (outcome : ℕ → Except String (Report α)) :
    (runSuite F args plan outcome).pauses = (attempts plan args.runs).length - 1 := by
  obtain ⟨hattempted, -, -⟩ := runSuite_eq F args plan outcome
  rw [← hattempted, runSuite, modes_eq_play, foldl_print_eq]
  exact pauses_play F args plan outcome _ _ rfl rfl

end Client
end RdmaBench
