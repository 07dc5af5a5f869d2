import RdmaBench.Client.Suite

/-!
# The client command

`main` parses the arguments, runs the client, and turns an `Err` into a line on the
standard error and the exit status 1.  What is left of a run of the command is a
`Behaviour`: the runs it attempted, the lines on either stream, the status.  The
devices are what `ibverbs` lists, and `device::open` picks one of them.

A plan of one mode and one size, to be run once and not in CSV, does not go through
`run_suite`.  `single_as_suite` compares the two paths on such a plan.  Over the same
attempt they print the same header and the same row, and a note that the suite
indents.  They differ in three points: an attempt without numbers, of which only the
suite makes a row; an attempt that fails, which is the status of the one and a line of
the other; and a size below the minimum of the mode, which the suite leaves out without
failing and the single run attempts.
-/

namespace RdmaBench
namespace Client

open Cli Report

universe u

variable {α : Type u} {δ : Type}

/-! ## The device -/

/-- What `ibverbs` answers before the first run. -/
structure Verbs (δ : Type) where
  devices : Except String (List δ)
  /-- `name()`, as text. -/
  name : δ → Option String
  openDevice : δ → Except String Unit
  allocPd : δ → Except String Unit

/-- The device that `device::open` opens. -/
def Verbs.select (V : Verbs δ) (name : Option String) (devices : List δ) : Except String δ :=
  match name with
  | some name =>
    match devices.find? fun d => V.name d == some name with
    | some d => .ok d
    | none => .error ("no RDMA device named '" ++ name ++ "' found")
  | none =>
    match devices.head? with
    | some d => .ok d
    | none => .error "no RDMA device available"

/-- `device::open`. -/
def Verbs.openNamed (V : Verbs δ) (name : Option String) : Except String δ :=
  V.devices.bind fun devices => (V.select name devices).bind fun device =>
    (V.openDevice device).bind fun _ => .ok device

theorem of_bind_ok {ε β γ : Type} {x : Except ε β} {f : β → Except ε γ} {c : γ}
    (h : x.bind f = .ok c) : ∃ b, x = .ok b ∧ f b = .ok c := by
  cases x with
  | error e => cases h
  | ok b => exact ⟨b, rfl, h⟩

/-- A device that is selected is the first with the name that was asked for, or the
first of all. -/
theorem Verbs.select_ok {V : Verbs δ} {name : Option String} {devices : List δ} {d : δ}
    (h : V.select name devices = .ok d) : ∃ before after, devices = before ++ d :: after ∧
      (∀ n, name = some n → V.name d = some n ∧ ∀ e ∈ before, V.name e ≠ some n) ∧
      (name = none → before = []) := by
  unfold Verbs.select at h
  cases name with
  | some name =>
    dsimp only at h
    split at h
    · next found hfound =>
      obtain rfl := Except.ok.inj h
      obtain ⟨hname, before, after, rfl, hbefore⟩ := List.find?_eq_some_iff_append.mp hfound
      refine ⟨before, after, rfl, fun n hn => ?_, fun hnone => absurd hnone (by simp)⟩
      obtain rfl := Option.some.inj hn
      exact ⟨by simpa using hname, fun e he => by simpa using hbefore e he⟩
    · exact absurd h (by simp)
  | none =>
    dsimp only at h
    split at h
    · next first hfirst =>
      obtain rfl := Except.ok.inj h
      obtain ⟨rest, rfl⟩ := List.head?_eq_some_iff.mp hfirst
      exact ⟨[], rest, rfl, fun n hn => absurd hn (by simp), fun _ => rfl⟩
    · exact absurd h (by simp)

/-! ## The command -/

/-- What is left of a command that has ended. -/
structure Behaviour where
  /-- The calls of `run_once`. -/
  attempted : List (Mode × ℕ) := []
  out : List String := []
  err : List String := []
  status : ℕ := 0
  deriving DecidableEq

/-- What `client::run` has done, and how it has ended. -/
structure Ran where
  attempted : List (Mode × ℕ) := []
  out : List String := []
  ended : Ended Unit := .ok ()

/-- `Report::print`: a table of its own. -/
def printed (F : Floats α) (mode : Mode) (report : Report α) : List String :=
  (match report.row F with
    | some row => [header mode, row]
    | none => []) ++ report.notes.toList

/-- The single run, of the first mode and the first size. -/
def runSingle (F : Floats α) (plan : Plan) (outcome : ℕ → Except String (Report α)) : Ran :=
  match plan.modes, plan.sizes with
  | mode :: _, size :: _ =>
    match outcome 0 with
    | .ok report => ⟨[(mode, size)], printed F mode report, .ok ()⟩
    | .error e => ⟨[(mode, size)], [], .err e⟩
  | _, _ => ⟨[], [], .panicked⟩

/-- `client::run`, of a plan that has come to `plan`. -/
def run (F : Floats α) (V : Verbs δ) (device : Option String) (args : ClientArgs)
    (plan : Ended Plan) (outcome : ℕ → Except String (Report α)) : Ran :=
  match plan with
  | .panicked => ⟨[], [], .panicked⟩
  | .err e => ⟨[], [], .err e⟩
  | .ok plan =>
    match (V.openNamed device).bind V.allocPd with
    | .error e => ⟨[], [], .err e⟩
    | .ok _ =>
      if args.isSingleRun plan then runSingle F plan outcome
      else
        let suite := runSuite F args plan outcome
        ⟨suite.attempted, suite.printed.map Line.text, .ok ()⟩

/-- `main`, of a client.  A panic exits with 101. -/
def Ran.exit (r : Ran) : Behaviour :=
  match r.ended with
  | .ok _ => ⟨r.attempted, r.out, [], 0⟩
  | .err e => ⟨r.attempted, r.out, ["error: " ++ e], 1⟩
  | .panicked => ⟨r.attempted, r.out, [], 101⟩

/-- A single run has one mode and one size, so taking the first of either cannot fail. -/
theorem exists_of_isSingleRun {args : ClientArgs} {plan : Plan}
    (h : args.isSingleRun plan = true) : args.runs = 1 ∧ args.csv = false ∧
      ∃ mode size, plan = ⟨[mode], [size]⟩ := by
  obtain ⟨modes, sizes⟩ := plan
  simp only [ClientArgs.isSingleRun, Plan.isSinglePair, Bool.and_eq_true, beq_iff_eq,
    Bool.not_eq_true'] at h
  obtain ⟨⟨⟨hmodes, hsizes⟩, hruns⟩, hcsv⟩ := h
  obtain ⟨mode, rfl⟩ := List.length_eq_one_iff.mp hmodes
  obtain ⟨size, rfl⟩ := List.length_eq_one_iff.mp hsizes
  exact ⟨hruns, hcsv, mode, size, rfl⟩

/-- **How a command ends.**  It exits with 0 and says nothing on the standard error; or
with 1, and that one line is all it says; or its plan has panicked. -/
theorem run_exit (F : Floats α) (V : Verbs δ) (device : Option String) (args : ClientArgs)
    (plan : Ended Plan) (outcome : ℕ → Except String (Report α)) :
    let b := (run F V device args plan outcome).exit
    (b.status = 0 ∧ b.err = [] ∧ ∃ p d, plan = .ok p ∧ V.openNamed device = .ok d ∧
        V.allocPd d = .ok () ∧ (args.isSingleRun p = true → ∃ report, outcome 0 = .ok report)) ∨
      (b.status = 1 ∧ b.out = [] ∧ ∃ e, b.err = ["error: " ++ e]) ∨
      (b.status = 101 ∧ plan = .panicked) := by
  intro b
  cases plan with
  | panicked => exact .inr (.inr ⟨rfl, rfl⟩)
  | err e => exact .inr (.inl ⟨rfl, rfl, e, rfl⟩)
  | ok p =>
    cases hdevice : (V.openNamed device).bind V.allocPd with
    | error e =>
      have hb : b = ⟨[], [], ["error: " ++ e], 1⟩ := by simp only [b, run, hdevice, Ran.exit]
      rw [hb]
      exact .inr (.inl ⟨rfl, rfl, e, rfl⟩)
    | ok u =>
      obtain ⟨d, hopen, hpd⟩ := of_bind_ok hdevice
      cases hsingle : args.isSingleRun p with
      | false =>
        have hb : b.status = 0 ∧ b.err = [] := by
          simp [b, run, hdevice, hsingle, Ran.exit]
        exact .inl ⟨hb.1, hb.2, p, d, rfl, hopen, hpd, fun h => absurd h (by rw [hsingle]; simp)⟩
      | true =>
        obtain ⟨-, -, mode, size, rfl⟩ := exists_of_isSingleRun hsingle
        cases hend : outcome 0 with
        | ok report =>
          have hb : b = ⟨[(mode, size)], printed F mode report, [], 0⟩ := by
            simp [b, run, hdevice, hsingle, runSingle, hend, Ran.exit]
          rw [hb]
          exact .inl ⟨rfl, rfl, _, d, rfl, hopen, hpd, fun _ => ⟨report, rfl⟩⟩
        | error e =>
          have hb : b = ⟨[(mode, size)], [], ["error: " ++ e], 1⟩ := by
            simp [b, run, hdevice, hsingle, runSingle, hend, Ran.exit]
          rw [hb]
          exact .inr (.inl ⟨rfl, rfl, e, rfl⟩)

/-! ## The single run and the suite -/

/-- A header, a result or a note. -/
def Line.ofTable (line : Line) : Bool :=
  line.kind = .header || line.kind = .result || line.kind = .note

/-- A line of a suite that shows a text, which it indents if it is a note. -/
def Line.Shows (line : Line) (text : String) : Prop :=
  line.text = if line.kind = .note then cell 8 "" ++ "  " ++ text else text

/-- The matrix of a plan of one mode and one size. -/
theorem slots_single (mode : Mode) (size : ℕ) : slots ⟨[mode], [size]⟩ 1 =
    .heading mode :: if mode.minMsgSize ≤ size then [.run mode size] else [] := by
  by_cases hmin : mode.minMsgSize ≤ size <;> simp [slots, sizesOf, hmin]

theorem attempts_single (mode : Mode) (size : ℕ) : attempts ⟨[mode], [size]⟩ 1 =
    if mode.minMsgSize ≤ size then [(mode, size)] else [] := by
  by_cases hmin : mode.minMsgSize ≤ size <;> simp [attempts, sizesOf, hmin]

/-- What an attempt prints belongs to the table. -/
theorem ofTable_attemptLines (F : Floats α) (args : ClientArgs) (size : ℕ)
    (ended : Except String (Report α)) :
    (attemptLines F args size ended).filter Line.ofTable = attemptLines F args size ended := by
  rw [List.filter_eq_self]
  intro line hline
  cases ended with
  | error e =>
    rw [List.mem_singleton.mp hline]
    rfl
  | ok result =>
    rw [attemptLines] at hline
    split at hline
    · obtain ⟨row, -, rfl⟩ := List.mem_map.mp hline
      rfl
    · rcases List.mem_cons.mp hline with rfl | hline
      · rfl
      · obtain ⟨notes, -, rfl⟩ := List.mem_map.mp hline
        rfl

/-- The table of a suite of one attempt. -/
theorem table_of_single (F : Floats α) {args : ClientArgs} {mode : Mode} {size : ℕ}
    (hruns : args.runs = 1) (hcsv : args.csv = false) (hmin : mode.minMsgSize ≤ size)
    (outcome : ℕ → Except String (Report α)) :
    (runSuite F args ⟨[mode], [size]⟩ outcome).printed.filter Line.ofTable =
      ⟨.header, header mode⟩ :: attemptLines F args size (outcome 0) := by
  obtain ⟨-, -, hprinted⟩ := runSuite_eq F args ⟨[mode], [size]⟩ outcome
  have hintro : (printIntro args ⟨[mode], [size]⟩).printed.filter Line.ofTable = [] := rfl
  have hheading : (headingLines args ⟨[mode], [size]⟩ mode).filter Line.ofTable =
      [⟨.header, header mode⟩] := by
    simp [headingLines, sizesOf, hmin, hcsv, Line.ofTable]
  have hsummary : ∀ texts : List String,
      (texts.map fun text => (⟨.summary, text⟩ : Line)).filter Line.ofTable = [] := by
    intro texts
    rw [List.filter_map]
    exact List.map_eq_nil_iff.mpr (List.filter_eq_nil_iff.mpr fun _ _ => by simp [Line.ofTable])
  rw [hprinted, hruns, slots_single, if_pos hmin, List.filter_append, List.filter_append, hintro,
    List.filter_cons_of_neg (by simp [Line.ofTable]), hsummary, List.append_nil, List.nil_append]
  simp only [number, List.flatMap_cons, List.flatMap_nil, List.append_nil, linesOf,
    List.filter_append, hheading, ofTable_attemptLines]
  rfl

/-- **The single run is the suite of its plan**, as long as the size is not below the
minimum of the mode: it makes the same attempt, ends well when the suite has no failure
to list, and, of a run with numbers, prints the same table.  A size below the minimum is
attempted by the single run alone, and the suite has nothing to complain about. -/
theorem single_as_suite (F : Floats α) {args : ClientArgs} {plan : Plan}
    (hsingle : args.isSingleRun plan = true) (outcome : ℕ → Except String (Report α)) :
    ∃ mode size, plan = ⟨[mode], [size]⟩ ∧
      (runSingle F plan outcome).attempted = [(mode, size)] ∧
      (runSuite F args plan outcome).attempted =
        (if mode.minMsgSize ≤ size then [(mode, size)] else []) ∧
      ((runSuite F args plan outcome).failures = [] ↔
        size < mode.minMsgSize ∨ (runSingle F plan outcome).ended = .ok ()) ∧
      (mode.minMsgSize ≤ size → ∀ report, outcome 0 = .ok report → report.hasNumbers = true →
        List.Forall₂ Line.Shows ((runSuite F args plan outcome).printed.filter Line.ofTable)
          (runSingle F plan outcome).out) := by
  obtain ⟨hruns, hcsv, mode, size, rfl⟩ := exists_of_isSingleRun hsingle
  obtain ⟨hattempted, hfailures, -⟩ := runSuite_eq F args ⟨[mode], [size]⟩ outcome
  rw [hruns, attempts_single] at hattempted hfailures
  refine ⟨mode, size, rfl, ?_, hattempted, ?_, fun hmin report hend hnumbers => ?_⟩
  · cases hend : outcome 0 <;> simp [runSingle, hend]
  · rw [hfailures]
    by_cases hmin : mode.minMsgSize ≤ size
    · cases hend : outcome 0 <;> simp [failed, runSingle, hend, hmin, Nat.not_lt.mpr hmin]
    · simp [failed, hmin, Nat.not_le.mp hmin]
  · obtain ⟨row, hrow⟩ := Option.isSome_iff_exists.mp ((isSome_row_iff F report).mpr hnumbers)
    rw [table_of_single F hruns hcsv hmin]
    simp only [runSingle, hend, printed, hrow, attemptLines, hcsv, Bool.false_eq_true, if_false,
      Option.getD_some]
    refine .cons rfl (.cons rfl ?_)
    cases report.notes with
    | none => exact .nil
    | some notes => exact .cons rfl .nil

/-- An accuracy run with a truncated message: both paths attempt it and count it as a
success, and both print a header, a row and a note. -/
theorem single_as_suite_truncated :
    let F : Floats ℕ := ⟨⟨List.sum, id, (· - ·), (· / ·), (· ^ 2), id, 0⟩, (· * ·), fun _ => toString⟩
    let args : ClientArgs := { mode := [.accuracy], size := 16 }
    let plan : Plan := ⟨[.accuracy], [16]⟩
    let report : Report ℕ := .accuracy
      { msgSize := 16, sent := 2, received := 2, truncated := 1, corrupted := 1 }
    let outcome : ℕ → Except String (Report ℕ) := fun _ => .ok report
    (runSingle F plan outcome).attempted = [(.accuracy, 16)] ∧
      (runSuite F args plan outcome).attempted = [(.accuracy, 16)] ∧
      (runSuite F args plan outcome).failures = [] ∧
      (runSingle F plan outcome).out.length = 3 ∧
      report.notes = some "unidentifiable: 0, truncated: 1" ∧
      List.Forall₂ Line.Shows ((runSuite F args plan outcome).printed.filter Line.ofTable)
        (runSingle F plan outcome).out := by
  intro F args plan report outcome
  obtain ⟨mode, size, hplan, hsingle, hsuite, hfailures, htable⟩ :=
    @single_as_suite ℕ F args plan rfl outcome
  obtain ⟨hmode, hsize⟩ := Plan.mk.inj hplan
  obtain rfl := (List.cons.inj hmode).1
  obtain rfl := (List.cons.inj hsize).1
  exact ⟨hsingle, hsuite, hfailures.mpr (.inr rfl), by decide +kernel, by decide +kernel,
    htable (by decide) report rfl rfl⟩

end Client
end RdmaBench
