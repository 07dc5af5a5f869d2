import RdmaBench.Cli
import RdmaBench.Report.Rows
import RdmaBench.Server.Limits

/-!
# A server that keeps listening

`server::run` accepts connections one after the other.  What a connection comes to is
up to its peer and its device: a `Connection` lists what the calls of
`handle_connection` answer, and what the benchmark has counted on the way.

An `Err` of `handle_connection` ends its connection, a panic ends the server.  So does
a failing `accept`.  `run_served` is what a listening server has done after any
sequence of connections: what stands on its terminal and on its standard error is a
function of the connections it has handled (`shown`, `errorsOf`).

## What a connection leaves behind

A benchmark may print on either side of its `sync`s.  `pong` reports the error of a
failed wait on the standard error; `pong` and `bandwidth::receive` say on the terminal
when messages were missing, after the last `sync`, so only when they return `Ok`.  With
`RDMA_BENCH_DEBUG` every `sync` is traced on the standard error.  Then comes the row,
or the error of the connection.

`last_mode` remembers the mode of the last row printed, over all connections.  Failed
connections, unsupported requests and runs without numbers leave it alone.  So every
row stands under the header of its own mode, and a header stands only where the mode
changes (`Tidy`, `tidy_shown`).
-/

namespace RdmaBench
namespace Server
namespace Listening

open Cli

/-! ## What a benchmark prints -/

/-- How a `sync` has gone, for its trace. -/
inductive SyncEnd where
  /-- Its byte could not be written. -/
  | unwritten
  | passed (waited : String)
  | failed (waited e : String)
  deriving DecidableEq

/-- The trace of a `sync`. -/
def SyncEnd.trace (label : String) : SyncEnd → List String
  | .unwritten => ["[sync] reached  " ++ label]
  | .passed waited =>
    ["[sync] reached  " ++ label, "[sync] passed   " ++ label ++ " (waited " ++ waited ++ ")"]
  | .failed waited e =>
    ["[sync] reached  " ++ label, "[sync] failed   " ++ label ++ " after " ++ waited ++ ": " ++ e]

/-- The labels of the `sync`s of a benchmark on the server. -/
def syncLabels : Mode → List String
  | .bandwidth =>
    ["bandwidth/receiver: warmup barrier", "bandwidth/receiver: warmup done",
      "bandwidth/receiver: receives posted", "bandwidth/receiver: drained"]
  | .latency =>
    ["latency/pong: warmup barrier", "latency/pong: warmup done", "latency/pong: receive posted",
      "latency/pong: echoing done"]
  | .accuracy => ["accuracy/receiver: receives posted", "accuracy/receiver: checking done"]
  | .rdmaWrite | .rdmaRead => ["rdma/responder: ready", "rdma/responder: initiator done"]

/-- What `bandwidth::receive` prints last. -/
def receiveNote (completed iterations : ℕ) : List String :=
  if completed < iterations then
    ["received " ++ toString completed ++ " of " ++ toString iterations ++ " messages (" ++
      toString (iterations - completed) ++ " never arrived)"]
  else []

/-- What `pong` prints last. -/
def pongNote (echoed iterations : ℕ) : List String :=
  if echoed ≠ iterations then
    ["only echoed " ++ toString echoed ++ " of " ++ toString iterations ++ " messages"]
  else []

/-- What the calls of `handle_connection` answer. -/
structure Connection where
  request : Except String BenchmarkRequest
  /-- Turning an unsupported request down. -/
  unsupported : Except String Unit := .ok ()
  /-- Creating the completion queue and the queue pair. -/
  prepare : Ended Unit := .ok ()
  ack : Except String Unit := .ok ()
  endpoint : Except String Unit := .ok ()
  handshake : Except String Unit := .ok ()
  bench : Ended Unit := .ok ()
  /-- The messages that the benchmark has received or echoed. -/
  counted : ℕ := 0
  /-- The error that has ended the loop of `pong`. -/
  waitError : Option String := none
  /-- How the `sync`s of the benchmark have gone. -/
  syncs : List SyncEnd := []
  row : Except String (Option String)

/-- What a benchmark that returns `Ok` has printed on the terminal. -/
def Connection.notes (c : Connection) (req : BenchmarkRequest) : List String :=
  match c.bench with
  | .ok _ =>
    match req.mode with
    | .bandwidth => receiveNote c.counted req.iterations.toNat
    | .latency => pongNote c.counted req.iterations.toNat
    | .accuracy | .rdmaWrite | .rdmaRead => []
  | .err _ | .panicked => []

/-- What a benchmark has printed on the standard error.  The loop of `pong` comes after
three of its `sync`s. -/
def Connection.warnings (tracing : Bool) (c : Connection) (mode : Mode) : List String :=
  let traces := if tracing then (syncLabels mode).zipWith SyncEnd.trace c.syncs else []
  let waiting := if mode = .latency then c.waitError.toList.map fun e => "Error: " ++ e else []
  (traces.take 3).flatten ++ waiting ++ (traces.drop 3).flatten

/-! ## `handle_connection` -/

/-- What a connection that is not an error has come to. -/
inductive Handled where
  | turnedDown
  | finished (mode : Mode) (row : Option String)
  deriving DecidableEq

/-- `?`. -/
def andThen {α β : Type} : Ended α → (α → Ended β) → Ended β
  | .ok a, f => f a
  | .err e, _ => .err e
  | .panicked, _ => .panicked

def ended {α : Type} : Except String α → Ended α
  | .ok a => .ok a
  | .error e => .err e

/-- `handle_connection` up to the benchmark, which an unsupported request does not come
to. -/
def untilBench (c : Connection) : Ended (Option BenchmarkRequest) :=
  andThen (ended c.request) fun req =>
    if supported req.transport req.mode then
      andThen c.prepare fun _ => andThen (ended c.ack) fun _ => andThen (ended c.endpoint) fun _ =>
        andThen (ended c.handshake) fun _ => .ok (some req)
    else andThen (ended c.unsupported) fun _ => .ok none

/-- `handle_connection`, up to what it prints. -/
def handleConnection (c : Connection) : Ended Handled :=
  andThen (untilBench c) fun
    | none => .ok .turnedDown
    | some req =>
      andThen c.bench fun _ => andThen (ended c.row) fun row => .ok (.finished req.mode row)

/-- A line on the server's terminal. -/
inductive Line where
  | listening (port : ℕ)
  /-- What a benchmark says. -/
  | note (text : String)
  | header (mode : Mode)
  /-- A row, for a run in `mode`. -/
  | row (mode : Mode) (text : String)
  | noResult
  deriving DecidableEq

def Line.text : Line → String
  | .listening port => "listening on port " ++ toString port
  | .note text => text
  | .header mode => Report.csvHeader mode
  | .row _ text => text
  | .noResult => "(no result)"

/-- What the server has printed, and `last_mode`. -/
structure Console where
  printed : List Line := []
  /-- On the standard error. -/
  errors : List String := []
  lastMode : Option Mode := none

/-- What `bench::run` prints, where it is called. -/
def Console.benchmark (tracing : Bool) (s : Console) (c : Connection) : Console :=
  match untilBench c with
  | .ok (some req) =>
    { s with
      printed := s.printed ++ (c.notes req).map .note
      errors := s.errors ++ c.warnings tracing req.mode }
  | _ => s

/-- What `handle_connection` prints after it. -/
def Console.report (s : Console) : Handled → Console
  | .turnedDown => s
  | .finished mode (some row) =>
    let old := s.lastMode
    let s := { s with lastMode := some mode }
    let s := if old = none ∨ old ≠ some mode then { s with printed := s.printed ++ [.header mode] }
      else s
    { s with printed := s.printed ++ [.row mode row] }
  | .finished _ none => { s with printed := s.printed ++ [.noResult] }

def Console.complain (s : Console) (e : String) : Console :=
  { s with errors := s.errors ++ ["connection error: " ++ e] }

/-- How far `run` has come. -/
inductive RunEnd where
  /-- It waits for the next connection. -/
  | accepting
  | returned
  | failed (e : String)
  | panicked
  deriving DecidableEq

/-- The loop of `run`, over what `accept_one` returns. -/
def loop (tracing listen : Bool) :
    List (Except String Connection) → Console → Console × RunEnd
  | [], s => (s, .accepting)
  | .error e :: _, s => (s, .failed e)
  | .ok c :: rest, s =>
    let s := s.benchmark tracing c
    match handleConnection c with
    | .panicked => (s, .panicked)
    | .err e =>
      if listen then loop tracing listen rest (s.complain e) else (s.complain e, .returned)
    | .ok h => if listen then loop tracing listen rest (s.report h) else (s.report h, .returned)

/-- `server::run`, once its device is open and its port bound; `tracing` says whether
`RDMA_BENCH_DEBUG` is set. -/
def run (tracing : Bool) (port : ℕ) (listen : Bool) (incoming : List (Except String Connection)) :
    Console × RunEnd :=
  loop tracing listen incoming { printed := [.listening port] }

/-! ## What a connection leaves behind -/

/-- The row a connection ends with. -/
def rowOf (c : Connection) : Option (Mode × String) :=
  match handleConnection c with
  | .ok (.finished mode (some row)) => some (mode, row)
  | _ => none

/-- The mode of the last row of some connections. -/
def lastRowMode (conns : List Connection) : Option Mode :=
  (conns.filterMap rowOf).getLast?.map Prod.fst

/-- What the benchmark of a connection says on the terminal. -/
def notesOf (c : Connection) : List Line :=
  match untilBench c with
  | .ok (some req) => (c.notes req).map .note
  | _ => []

/-- What the end of a connection leaves on the terminal, when the last row there is of
mode `last`. -/
def endingOf (last : Option Mode) (c : Connection) : List Line :=
  match handleConnection c with
  | .ok (.finished mode (some row)) =>
    if last = some mode then [.row mode row] else [.header mode, .row mode row]
  | .ok (.finished _ none) => [.noResult]
  | _ => []

/-- **The lines of some connections on the terminal**, `before` being those before
them. -/
def shown : List Connection → List Connection → List Line
  | _, [] => []
  | before, c :: conns =>
    notesOf c ++ endingOf (lastRowMode before) c ++ shown (before ++ [c]) conns

/-- **The lines of a connection on the standard error.** -/
def errorsOf (tracing : Bool) (c : Connection) : List String :=
  (match untilBench c with
    | .ok (some req) => c.warnings tracing req.mode
    | _ => []) ++
  match handleConnection c with
  | .err e => ["connection error: " ++ e]
  | _ => []

/-- The rows on a terminal. -/
def rows (lines : List Line) : List (Mode × String) :=
  lines.filterMap fun
    | .row mode text => some (mode, text)
    | _ => none

/-- What a connection makes of the console. -/
def Console.after (tracing : Bool) (s : Console) (c : Connection) : Console :=
  let s := s.benchmark tracing c
  match handleConnection c with
  | .panicked => s
  | .err e => s.complain e
  | .ok h => s.report h

theorem Console.benchmark_eq (tracing : Bool) (s : Console) (c : Connection) :
    s.benchmark tracing c =
      { s with
        printed := s.printed ++ notesOf c
        errors := s.errors ++ match untilBench c with
          | .ok (some req) => c.warnings tracing req.mode
          | _ => [] } := by
  rw [Console.benchmark, notesOf]
  split
  · rfl
  · simp only [List.append_nil]

theorem lastRowMode_append_singleton (before : List Connection) (c : Connection) :
    lastRowMode (before ++ [c]) = ((rowOf c).map Prod.fst).or (lastRowMode before) := by
  rw [lastRowMode, lastRowMode, List.filterMap_append, List.getLast?_append]
  cases hrow : rowOf c with
  | none => rw [List.filterMap_cons_none hrow]; rfl
  | some row => rw [List.filterMap_cons_some hrow]; rfl

/-- **What a connection adds.** -/
theorem Console.after_eq (tracing : Bool) {s : Console} {before : List Connection}
    (h : s.lastMode = lastRowMode before) (c : Connection) :
    (s.after tracing c).printed = s.printed ++ (notesOf c ++ endingOf (lastRowMode before) c) ∧
      (s.after tracing c).errors = s.errors ++ errorsOf tracing c ∧
      (s.after tracing c).lastMode = lastRowMode (before ++ [c]) := by
  rw [Console.after, s.benchmark_eq, endingOf, errorsOf, lastRowMode_append_singleton, rowOf, ← h]
  cases handleConnection c with
  | panicked => simp
  | err e => simp [Console.complain]
  | ok handled =>
    cases handled with
    | turnedDown => simp [Console.report]
    | finished mode row =>
      cases row with
      | none => simp [Console.report]
      | some text =>
        by_cases hsame : s.lastMode = some mode
        · simp [Console.report, hsame]
        · simp [Console.report, hsame]

/-- What any connections add. -/
theorem foldl_after (tracing : Bool) (conns : List Connection) {s : Console}
    {before : List Connection} (h : s.lastMode = lastRowMode before) :
    (conns.foldl (Console.after tracing) s).printed = s.printed ++ shown before conns ∧
      (conns.foldl (Console.after tracing) s).errors =
        s.errors ++ conns.flatMap (errorsOf tracing) := by
  induction conns generalizing s before with
  | nil => exact ⟨(List.append_nil _).symm, (List.append_nil _).symm⟩
  | cons c conns ih =>
    obtain ⟨hprinted, herrors, hlast⟩ := Console.after_eq tracing h c
    obtain ⟨ihprinted, iherrors⟩ := ih hlast
    rw [List.foldl_cons, List.flatMap_cons, shown]
    refine ⟨?_, ?_⟩
    · rw [ihprinted, hprinted, List.append_assoc]
    · rw [iherrors, herrors, List.append_assoc]

/-! ## The rows and their headers -/

theorem rows_append (lines more : List Line) : rows (lines ++ more) = rows lines ++ rows more :=
  List.filterMap_append

theorem rows_notesOf (c : Connection) : rows (notesOf c) = [] := by
  rw [notesOf]
  split
  · rw [rows, List.filterMap_map]
    exact List.filterMap_eq_nil_iff.mpr fun _ _ => rfl
  · rfl

theorem rows_endingOf (last : Option Mode) (c : Connection) :
    rows (endingOf last c) = (rowOf c).toList := by
  rw [endingOf, rowOf]
  cases handleConnection c with
  | panicked | err e => rfl
  | ok handled =>
    cases handled with
    | turnedDown => rfl
    | finished mode row =>
      cases row with
      | none => rfl
      | some text =>
        dsimp only
        split <;> rfl

/-- **The rows on the terminal are those of the connections**, in order. -/
theorem rows_shown (before conns : List Connection) :
    rows (shown before conns) = conns.filterMap rowOf := by
  induction conns generalizing before with
  | nil => rfl
  | cons c conns ih =>
    rw [shown, rows_append, rows_append, rows_notesOf, rows_endingOf, ih, List.filterMap_cons]
    cases rowOf c <;> rfl

/-- The mode of the last header, `m` before the first. -/
def lastHeader : Option Mode → List Line → Option Mode
  | m, [] => m
  | _, .header mode :: lines => lastHeader (some mode) lines
  | m, _ :: lines => lastHeader m lines

/-- Every row stands under the header of its mode, and a header stands only where the
mode changes, right above a row. -/
def Tidy : Option Mode → List Line → Prop
  | _, [] => True
  | m, .header mode :: lines =>
    m ≠ some mode ∧ (∃ text more, lines = .row mode text :: more) ∧ Tidy (some mode) lines
  | m, .row mode _ :: lines => m = some mode ∧ Tidy m lines
  | m, _ :: lines => Tidy m lines

theorem Tidy.append {m : Option Mode} {lines more : List Line} (h : Tidy m lines)
    (hmore : Tidy (lastHeader m lines) more) : Tidy m (lines ++ more) := by
  induction lines generalizing m with
  | nil => exact hmore
  | cons line lines ih =>
    cases line with
    | listening port | note text | noResult => exact ih h hmore
    | row mode text => exact ⟨h.1, ih h.2 hmore⟩
    | header mode =>
      obtain ⟨hne, ⟨text, rest, rfl⟩, htidy⟩ := h
      exact ⟨hne, ⟨text, rest ++ more, rfl⟩, ih htidy hmore⟩

/-- Notes are neither headers nor rows. -/
theorem tidy_notes (m : Option Mode) (texts : List String) :
    Tidy m (texts.map .note) ∧ lastHeader m (texts.map .note) = m := by
  induction texts with
  | nil => exact ⟨trivial, rfl⟩
  | cons text texts ih => exact ih

theorem tidy_notesOf (m : Option Mode) (c : Connection) :
    Tidy m (notesOf c) ∧ lastHeader m (notesOf c) = m := by
  rw [notesOf]
  split
  · exact tidy_notes m _
  · exact ⟨trivial, rfl⟩

/-- The end of a connection puts its header above its row, where it has to. -/
theorem tidy_endingOf (m : Option Mode) (c : Connection) :
    Tidy m (endingOf m c) ∧ lastHeader m (endingOf m c) = ((rowOf c).map Prod.fst).or m := by
  rw [endingOf, rowOf]
  cases handleConnection c with
  | panicked | err e => exact ⟨trivial, rfl⟩
  | ok handled =>
    cases handled with
    | turnedDown => exact ⟨trivial, rfl⟩
    | finished mode row =>
      cases row with
      | none => exact ⟨trivial, rfl⟩
      | some text =>
        dsimp only
        by_cases hsame : m = some mode
        · rw [if_pos hsame]
          exact ⟨⟨hsame, trivial⟩, hsame⟩
        · rw [if_neg hsame]
          exact ⟨⟨hsame, ⟨text, [], rfl⟩, rfl, trivial⟩, rfl⟩

/-- **The terminal is tidy**, whatever the connections. -/
theorem tidy_shown (before conns : List Connection) :
    Tidy (lastRowMode before) (shown before conns) := by
  induction conns generalizing before with
  | nil => trivial
  | cons c conns ih =>
    obtain ⟨hnotes, hkeep⟩ := tidy_notesOf (lastRowMode before) c
    obtain ⟨hending, hlast⟩ := tidy_endingOf (lastRowMode before) c
    have hrest := ih (before ++ [c])
    rw [lastRowMode_append_singleton, ← hlast] at hrest
    rw [shown, List.append_assoc]
    refine hnotes.append ?_
    rw [hkeep]
    exact hending.append hrest

/-! ## The loop -/

/-- The connections of a listening server are handled in order, up to the first panic
or failure to accept. -/
theorem loop_listening (tracing : Bool) (incoming : List (Except String Connection))
    (s : Console) :
    ∃ (served : List Connection) (rest : List (Except String Connection)),
      incoming = served.map Except.ok ++ rest ∧
      (loop tracing true incoming s).1 = served.foldl (Console.after tracing) s ∧
      match (loop tracing true incoming s).2 with
      | .accepting => rest = [] ∧ ∀ c ∈ served, handleConnection c ≠ .panicked
      | .returned => False
      | .failed e => (∃ more, rest = .error e :: more) ∧
          ∀ c ∈ served, handleConnection c ≠ .panicked
      | .panicked => ∃ calm c, served = calm ++ [c] ∧
          (∀ d ∈ calm, handleConnection d ≠ .panicked) ∧ handleConnection c = .panicked := by
  have hnone : ∀ c ∈ ([] : List Connection), handleConnection c ≠ .panicked :=
    fun _ h => absurd h List.not_mem_nil
  induction incoming generalizing s with
  | nil => exact ⟨[], [], rfl, rfl, rfl, hnone⟩
  | cons accepted incoming ih =>
    cases accepted with
    | error e => exact ⟨[], _, rfl, rfl, ⟨_, rfl⟩, hnone⟩
    | ok c =>
      cases hend : handleConnection c with
      | panicked =>
        have hafter : s.after tracing c = s.benchmark tracing c := by
          rw [Console.after, hend]
        rw [loop, hend]
        exact ⟨[c], incoming, rfl, hafter.symm, [], c, rfl, hnone, hend⟩
      | err e | ok h =>
        obtain ⟨served, rest, hsplit, hout, hlast⟩ := ih (s.after tracing c)
        have hloop : loop tracing true (.ok c :: incoming) s =
            loop tracing true incoming (s.after tracing c) := by
          rw [loop, Console.after, hend]
          rfl
        have hc : handleConnection c ≠ .panicked := by
          rw [hend]
          exact nofun
        rw [hloop]
        refine ⟨c :: served, rest, by rw [hsplit]; rfl, hout, ?_⟩
        split at hlast
        · next heq => exact ⟨hlast.1, List.forall_mem_cons.mpr ⟨hc, hlast.2⟩⟩
        · exact hlast
        · exact ⟨hlast.1, List.forall_mem_cons.mpr ⟨hc, hlast.2⟩⟩
        · obtain ⟨calm, d, rfl, hcalm, hd⟩ := hlast
          exact ⟨c :: calm, d, rfl, List.forall_mem_cons.mpr ⟨hc, hcalm⟩, hd⟩

/-- **What a listening server has done after any sequence of connections.**  It has
handled them in order, up to the first that panics or fails to be accepted, and what
it has printed is a function of the connections it has handled.  The rows on its
terminal are those they ended with, in order, each under the header of its mode, which
is printed where the mode changes and nowhere else. -/
theorem run_served (tracing : Bool) (port : ℕ) (incoming : List (Except String Connection)) :
    ∃ (served : List Connection) (rest : List (Except String Connection)),
      incoming = served.map Except.ok ++ rest ∧
      (run tracing port true incoming).1.printed = .listening port :: shown [] served ∧
      (run tracing port true incoming).1.errors = served.flatMap (errorsOf tracing) ∧
      rows (run tracing port true incoming).1.printed = served.filterMap rowOf ∧
      Tidy none (run tracing port true incoming).1.printed ∧
      match (run tracing port true incoming).2 with
      | .accepting => rest = [] ∧ ∀ c ∈ served, handleConnection c ≠ .panicked
      | .returned => False
      | .failed e => (∃ more, rest = .error e :: more) ∧
          ∀ c ∈ served, handleConnection c ≠ .panicked
      | .panicked => ∃ calm c, served = calm ++ [c] ∧
          (∀ d ∈ calm, handleConnection d ≠ .panicked) ∧ handleConnection c = .panicked := by
  obtain ⟨served, rest, hsplit, hout, hlast⟩ :=
    loop_listening tracing incoming { printed := [.listening port] }
  have hinit : ({ printed := [.listening port] } : Console).lastMode = lastRowMode [] := rfl
  obtain ⟨hprinted, herrors⟩ := foldl_after tracing served hinit
  rw [← hout] at hprinted herrors
  refine ⟨served, rest, hsplit, hprinted, herrors, ?_, ?_, hlast⟩
  · rw [run, hprinted]
    exact rows_shown [] served
  · rw [run, hprinted]
    exact tidy_shown [] served

/-- A bandwidth run that misses a message, a latency run whose wait times out, a request
without a queue pair, and a second bandwidth run. -/
def fourConnections : List Connection :=
  [{ request := .ok ⟨.uc, .bandwidth, 8, 2, 1, 1⟩, counted := 1, row := .ok (some "8,2,1,1,1") },
    { request := .ok ⟨.rc, .latency, 8, 1, 1, 1⟩,
      waitError := some "poll loop timed out after 2000ms", row := .ok none },
    { request := .ok ⟨.rc, .accuracy, 8, 1, 1, 1⟩, prepare := .err "no queue pair",
      row := .ok none },
    { request := .ok ⟨.rc, .bandwidth, 8, 1, 1, 1⟩, counted := 1, row := .ok (some "8,1,1,1,1") }]

theorem run_served_four :
    ((run false 18515 true (fourConnections.map .ok)).1.printed.map Line.text =
      ["listening on port 18515", "received 1 of 2 messages (1 never arrived)",
        "bytes,iterations,tx_depth,bw_avg,msgrate", "8,2,1,1,1",
        "only echoed 0 of 1 messages", "(no result)", "8,1,1,1,1"]) ∧
    (run false 18515 true (fourConnections.map .ok)).1.errors =
      ["Error: poll loop timed out after 2000ms", "connection error: no queue pair"] := by
  obtain ⟨served, rest, hsplit, hprinted, herrors, -, -, hend⟩ :=
    run_served false 18515 (fourConnections.map .ok)
  obtain ⟨rfl, -⟩ : rest = [] ∧ _ := hend
  rw [List.append_nil] at hsplit
  obtain rfl : fourConnections = served :=
    List.map_injective_iff.mpr (fun _ _ h => Except.ok.inj h) hsplit
  rw [hprinted, herrors]
  decide +kernel

end Listening
end Server
end RdmaBench
