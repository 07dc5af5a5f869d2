import RdmaBench.Client.Suite
import RdmaBench.Connection.Rows
import RdmaBench.Server.Survival

/-!
# A suite against a listening server

A suite makes a connection for each attempt, and a server that listens takes them one
after the other.  Each of the two prints its own table.  `suite_served` is what the two
tables have to do with each other.

What an attempt comes to is decided on one connection, and the two sides need not come
to the same (`Came`).  The attempt may fail before it is accepted; then the server has
no connection for it.  Otherwise the two have talked over bytes, cut in any way, and
either may have failed at any point.  What is used of that is what each knows of the
other when it has returned `Ok`, and that what the server has obtained is what the
client has sent.

## What keeps the server up

A plan that is accepted asks for positive numbers.  If there is also memory for what
they make, and the tallies do not overflow (`Moderate`), every request of the suite is
bearable, and a bearable request does not end the server.
-/

namespace RdmaBench
namespace Client

open Automaton Cli Report Framing Server.Listening

universe u

variable {α : Type u} {Endpoint E : Type}

/-! ## What the messages hold -/

/-- `RemoteMemoryRegion`, without its phantom. -/
structure RemoteMemoryRegion where
  addr : UInt64
  len : ℕ
  rkey : UInt32
  deriving DecidableEq

/-- The server's reply to a request. -/
inductive HandshakeAck (Endpoint : Type) where
  | ok (endpoint : Endpoint)
  | unsupported (reason : String)
  deriving DecidableEq

/-- The value of a message, `Endpoint` being the type of a queue pair's endpoint. -/
def Contents (Endpoint : Type) : Message → Type
  | .benchmarkRequest => BenchmarkRequest
  | .handshakeAck => HandshakeAck Endpoint
  | .clientEndpoint => Endpoint
  | .remoteBufferInfo => RemoteMemoryRegion
  | .accuracyReport => AccuracyReport
  | .resultRow => Option String

/-- The request of an attempt. -/
def requestOf (args : ClientArgs) (mode : Mode) (size : ℕ) : BenchmarkRequest where
  transport := args.transport
  mode := mode
  msgSize := .ofNat size
  iterations := .ofNat args.iterations
  txDepth := .ofNat args.txDepth
  rxDepth := .ofNat args.rxDepth

/-- What `run_once` puts into its two messages, `result` being what it returns. -/
structure Says (F : Floats α) (request : BenchmarkRequest) (result : Except String (Report α))
    (sent : List (Sent (Contents Endpoint))) : Prop where
  request : ∀ r : BenchmarkRequest, .message .benchmarkRequest r ∈ sent → r = request
  row : ∀ report, result = .ok report → ∀ r : Option String, .message .resultRow r ∈ sent →
    r = report.csvRow F

/-- How `run_once` has returned. -/
def Ends (result : Except String (Report α)) : Status :=
  match result with
  | .ok _ => .ok
  | .error _ => .err

/-! ## One attempt -/

/-- All calls have answered well; what the benchmark has to say is `c`'s. -/
def servedWell (r : BenchmarkRequest) (row : Option String) (c : Connection) : Connection :=
  { request := .ok r
    counted := c.counted
    waitError := c.waitError
    syncs := c.syncs
    row := .ok row }

/-- What the calls of `handle_connection` have answered, when it has returned. -/
structure Records (p : RunParams) {m : TwoSided}
    (s : Talk (ClientCtl (ClientBench m)) (ServerCtl (ServerBench m)) (Contents Endpoint))
    (c : Connection) : Prop where
  request : ∀ r : BenchmarkRequest, c.request = .ok r →
    .message .benchmarkRequest r ∈ s.server.got
  ok : serverEnd p s = .ok → ∃ (r : BenchmarkRequest) (row : Option String),
    .message .benchmarkRequest r ∈ s.server.got ∧ .message .resultRow row ∈ s.server.got ∧
      c = servedWell r row c
  err : serverEnd p s = .err → ∀ handled, handleConnection c ≠ .ok handled
  returned : serverEnd p s ≠ .running

/-- The parameters of a run are those of its attempt. -/
structure RunsWith (p : RunParams) (args : ClientArgs) (size : ℕ) : Prop where
  transport : p.transport = args.transport
  size : p.size = size
  iterations : p.iterations = args.iterations
  txDepth : p.txDepth = args.txDepth
  rxDepth : p.rxDepth = args.rxDepth

/-- What an attempt comes to, and the connection it makes. -/
inductive Came (F : Floats α) (J : Json Message (Contents Endpoint) E) (args : ClientArgs)
    (mode : Mode) (size : ℕ) : Except String (Report α) → Option Connection → Prop
  /-- It fails before the server has accepted it. -/
  | unconnected (e : String) : Came F J args mode size (.error e) none
  /-- A one-sided mode ends in an error on both sides. -/
  | oneSided (e : String) {c : Connection} (hmode : mode = .rdmaWrite ∨ mode = .rdmaRead)
      (hrequest : ∀ r, c.request = .ok r → r = requestOf args mode size)
      (herr : ∀ handled, handleConnection c ≠ .ok handled) :
      Came F J args mode size (.error e) (some c)
  | twoSided {m : TwoSided} {p : RunParams}
      {s : Talk (ClientCtl (ClientBench m)) (ServerCtl (ServerBench m)) (Contents Endpoint)}
      {result : Except String (Report α)} {c : Connection} (hmode : m.mode = mode)
      (hp : RunsWith p args size) (hs : (onBytes J p m).Reachable s) (hend : clientEnd p s = Ends result)
      (htold : Says F (requestOf args mode size) result s.client.sent) (hc : Records p s c) :
      Came F J args mode size result (some c)

section Came

variable {F : Floats α} {J : Json Message (Contents Endpoint) E} {args : ClientArgs} {mode : Mode}
  {size : ℕ} {result : Except String (Report α)} {incoming : Option Connection}

/-- The row that an attempt has for the server. -/
def rowFor (F : Floats α) (mode : Mode) : Except String (Report α) → Option (Mode × String)
  | .ok report => (report.csvRow F).map fun row => (mode, row)
  | .error _ => none

theorem rowOf_of_not_ok {c : Connection} (h : ∀ handled, handleConnection c ≠ .ok handled) :
    Server.Listening.rowOf c = none := by
  rw [Server.Listening.rowOf]
  cases hend : handleConnection c with
  | ok handled => exact absurd hend (h handled)
  | err e | panicked => rfl

/-- A connection all of whose calls have answered well ends with its row. -/
theorem rowOf_servedWell {r : BenchmarkRequest} (hs : supported r.transport r.mode = true)
    (row : Option String) (c : Connection) :
    Server.Listening.rowOf (servedWell r row c) = row.map fun text => (r.mode, text) := by
  have huntil : untilBench (servedWell r row c) = .ok (some r) := if_pos hs
  rw [Server.Listening.rowOf, handleConnection, huntil]
  cases row <;> rfl

/-- A connection asks for what its attempt asks for. -/
theorem Came.request_eq (hJ : J.Faithful) {c : Connection}
    (h : Came F J args mode size result (some c)) {r : BenchmarkRequest} (hr : c.request = .ok r) :
    r = requestOf args mode size := by
  cases h with
  | oneSided e hmode hrequest herr => exact hrequest r hr
  | twoSided hmode hp hs hend htold hc =>
    have hgot := (onBytes_sound hJ hs).1.toServer.got
    exact htold.request r (hgot.subset (hc.request r hr))

/-- **A connection that has been served to the end has the attempt's row**, and the
attempt was a success. -/
theorem Came.row_eq (hJ : J.Faithful) {c : Connection}
    (h : Came F J args mode size result (some c)) {handled : Handled}
    (hok : handleConnection c = .ok handled) :
    Server.Listening.rowOf c = rowFor F mode result := by
  cases h with
  | oneSided e hmode hrequest herr => exact absurd hok (herr handled)
  | @twoSided m p s _ _ hmode hp hs hend htold hc =>
    have hserver : serverEnd p s = .ok := by
      cases hend' : serverEnd p s with
      | ok => rfl
      | running => exact absurd hend' hc.returned
      | err => exact absurd hok (hc.err hend' handled)
    obtain ⟨hclient, hgot, -⟩ := agreed_of_server_ok hJ hs hserver
    obtain ⟨r, row, hr, hrow, hcalls⟩ := hc.ok hserver
    rw [hgot] at hr hrow
    obtain rfl := htold.request r hr
    cases result with
    | error e => exact absurd (hclient.symm.trans hend) (by simp [Ends])
    | ok report =>
      obtain rfl := htold.row report rfl row hrow
      have hsupported : supported args.transport mode = true := by
        rw [← hmode, ← hp.transport]
        exact p.supported m
      rw [hcalls, rowOf_servedWell hsupported, rowFor]
      cases report.csvRow F <;> rfl

/-- **For the server an attempt leaves its row or, where the server fails, none.** -/
theorem Came.rowOf_eq (hJ : J.Faithful) (h : Came F J args mode size result incoming) :
    incoming.bind Server.Listening.rowOf = rowFor F mode result ∨
      incoming.bind Server.Listening.rowOf = none ∧
        ∃ c, incoming = some c ∧ ∀ handled, handleConnection c ≠ .ok handled := by
  cases incoming with
  | none =>
    cases h with
    | unconnected e => exact .inl rfl
  | some c =>
    by_cases hok : ∃ handled, handleConnection c = .ok handled
    · obtain ⟨handled, hok⟩ := hok
      exact .inl (h.row_eq hJ hok)
    · have hnone := not_exists.mp hok
      exact .inr ⟨rowOf_of_not_ok hnone, c, rfl, hnone⟩

end Came

/-! ## A whole suite -/

/-- The attempts with their numbers. -/
def numbered (plan : Plan) (runs : ℕ) : List ((Mode × ℕ) × ℕ) := (attempts plan runs).zipIdx

/-- The rows of the attempts that succeed, in order. -/
def successRows (F : Floats α) (outcome : ℕ → Except String (Report α)) (plan : Plan)
    (runs : ℕ) : List (Mode × String) :=
  (numbered plan runs).filterMap fun a => rowFor F a.1.1 (outcome a.2)

/-- The connections that a suite makes, in order. -/
def connections (incoming : ℕ → Option Connection) (plan : Plan) (runs : ℕ) : List Connection :=
  (numbered plan runs).filterMap fun a => incoming a.2

/-- A server with `heap` bytes can afford every attempt of a suite. -/
structure Moderate (checks : Bool) (heap : ℕ) (args : ClientArgs) (plan : Plan) : Prop where
  depths : args.txDepth + args.rxDepth < usizeSize
  iterations : args.iterations < usizeSize
  affordable : ∀ mode ∈ plan.modes, ∀ size ∈ plan.sizes,
    Affordable checks heap mode size args.iterations args.txDepth args.rxDepth

theorem mem_attempts {plan : Plan} {runs : ℕ} {mode : Mode} {size : ℕ}
    (h : (mode, size) ∈ attempts plan runs) : mode ∈ plan.modes ∧ size ∈ plan.sizes := by
  obtain ⟨mode', hmode, h⟩ := List.mem_flatMap.mp h
  obtain ⟨size', hsize, h⟩ := List.mem_flatMap.mp h
  obtain ⟨rfl, rfl⟩ := Prod.ext_iff.mp (List.eq_of_mem_replicate h)
  exact ⟨hmode, (List.mem_filter.mp hsize).1⟩

theorem toNat_ofNat_of_lt {n : ℕ} (h : n < usizeSize) : (UInt64.ofNat n).toNat = n := by
  rw [UInt64.toNat_ofNat']
  exact Nat.mod_eq_of_lt h

/-- **Every request of a moderate plan is bearable.** -/
theorem bearable_requestOf {checks : Bool} {heap : ℕ} (hheap : heap ≤ isizeMax)
    {args : ClientArgs} {plan : Plan} {fuel : ℕ}
    (hplan : args.plan checks fuel = some (.ok plan)) (hmoderate : Moderate checks heap args plan)
    {mode : Mode} {size : ℕ} (h : (mode, size) ∈ attempts plan args.runs) :
    Bearable checks heap (requestOf args mode size) := by
  obtain ⟨hn, -, -, hwell⟩ := plan_wellFormed hplan
  obtain ⟨hmode, hmem⟩ := mem_attempts h
  have hpos := hwell.positive size hmem
  have hafford := hmoderate.affordable mode hmode size hmem
  have hdepths := hmoderate.depths
  have hsize : size < usizeSize := by
    have hle := le_sum_allocations hn mode size args.txDepth args.rxDepth
    have hsum := hafford.1
    unfold isizeMax at hheap
    unfold usizeSize
    omega
  have htx := toNat_ofNat_of_lt (Nat.lt_of_le_of_lt (Nat.le_add_right _ _) hdepths)
  have hrx := toNat_ofNat_of_lt (Nat.lt_of_le_of_lt (Nat.le_add_left _ _) hdepths)
  rw [Bearable]
  simp only [requestOf, htx, hrx, toNat_ofNat_of_lt hsize, toNat_ofNat_of_lt hmoderate.iterations]
  exact ⟨fun _ => hdepths, .inr (.inr ⟨allocations_pos hpos hn mode _ _, hafford⟩)⟩

/-- Where one function has a value only if the other has the same, it has fewer. -/
theorem filterMap_sublist {β : Type*} {γ : Type*} {f g : β → Option γ} {l : List β}
    (h : ∀ x ∈ l, f x = none ∨ f x = g x) : (l.filterMap f).Sublist (l.filterMap g) := by
  induction l with
  | nil => exact .slnil
  | cons x l ih =>
    have hl := ih fun y hy => h y (List.mem_cons_of_mem x hy)
    rw [List.filterMap_cons, List.filterMap_cons]
    rcases h x List.mem_cons_self with hnone | hsame
    · rw [hnone]
      cases g x with
      | none => exact hl
      | some y => exact hl.cons y
    · rw [hsame]
      cases g x with
      | none => exact hl
      | some y => exact hl.cons_cons y

/-! ### The two tables -/

/-- The row of a numbered slot, if it is an attempt that succeeds. -/
def slotRow (F : Floats α) (outcome : ℕ → Except String (Report α)) :
    Slot × ℕ → Option (Mode × String)
  | (.heading _, _) => none
  | (.run mode _, i) => rowFor F mode (outcome i)

theorem filterMap_slotRow (F : Floats α) (outcome : ℕ → Except String (Report α)) (i : ℕ)
    (slots : List Slot) :
    (number i slots).filterMap (slotRow F outcome) =
      ((slots.filterMap Slot.attempt).zipIdx i).filterMap fun a =>
        rowFor F a.1.1 (outcome a.2) := by
  induction slots generalizing i with
  | nil => rfl
  | cons slot slots ih =>
    cases slot with
    | heading mode =>
      rw [number, List.filterMap_cons_none rfl, List.filterMap_cons_none rfl, ih]
    | run mode size =>
      have hslot : (Slot.run mode size :: slots).filterMap Slot.attempt =
          (mode, size) :: slots.filterMap Slot.attempt := List.filterMap_cons_some rfl
      rw [number, hslot, List.zipIdx_cons, List.filterMap_cons, List.filterMap_cons, ih, slotRow]

/-- In CSV the lines of a slot hold its row. -/
theorem slotRow_sublist (F : Floats α) {args : ClientArgs} (hcsv : args.csv = true) (plan : Plan)
    (outcome : ℕ → Except String (Report α)) (slot : Slot × ℕ) :
    ((slotRow F outcome slot).toList.map fun r => (⟨.result, r.2⟩ : Line)).Sublist
      (linesOf F args plan outcome slot) := by
  obtain ⟨slot, i⟩ := slot
  cases slot with
  | heading mode => exact List.nil_sublist _
  | run mode size =>
    rw [slotRow, linesOf, rowFor.eq_def, attemptLines.eq_def]
    cases outcome i with
    | error e => exact List.nil_sublist _
    | ok report =>
      dsimp only
      rw [if_pos hcsv]
      cases report.csvRow F with
      | none => exact List.nil_sublist _
      | some row => exact List.Sublist.refl _

/-- **With `--csv` the client's terminal shows the row of every attempt that succeeds**,
in order. -/
theorem successRows_sublist (F : Floats α) {args : ClientArgs} (hcsv : args.csv = true)
    (plan : Plan) (outcome : ℕ → Except String (Report α)) :
    ((successRows F outcome plan args.runs).map fun r => (⟨.result, r.2⟩ : Line)).Sublist
      (runSuite F args plan outcome).printed := by
  have hslots : ∀ l : List (Slot × ℕ),
      ((l.filterMap (slotRow F outcome)).map fun r => (⟨.result, r.2⟩ : Line)).Sublist
        (l.flatMap (linesOf F args plan outcome)) := by
    intro l
    induction l with
    | nil => exact .slnil
    | cons slot l ih =>
      have hone := (slotRow_sublist F hcsv plan outcome slot).append ih
      rw [List.filterMap_cons, List.flatMap_cons]
      cases hrow : slotRow F outcome slot <;> rw [hrow] at hone <;> exact hone
  obtain ⟨-, -, hprinted⟩ := runSuite_eq F args plan outcome
  have hrows := hslots (number 0 (slots plan args.runs))
  rw [filterMap_slotRow, filterMap_attempt_slots] at hrows
  rw [hprinted, List.append_assoc]
  exact (hrows.trans (List.sublist_append_left _ _)).trans (List.sublist_append_right _ _)

/-- **What the two terminals show of a suite.**  Over any byte streams and wherever
either side fails, a listening server is still up after a suite of an accepted plan that
it can afford.  The rows it shows are rows of attempts that the client counts as
successes, in the order of the attempts, each under the header of its mode; it lacks one
only where its own side of the connection has failed.  With `--csv` the client shows the
same rows. -/
theorem suite_served {checks : Bool} {d : Server.Device} (hd : d.Documented) {heap : ℕ}
    (hheap : heap ≤ isizeMax) {F : Floats α} {J : Json Message (Contents Endpoint) E}
    (hJ : J.Faithful) {args : ClientArgs} {plan : Plan} {fuel : ℕ}
    (hplan : args.plan checks fuel = some (.ok plan)) (hmoderate : Moderate checks heap args plan)
    {outcome : ℕ → Except String (Report α)} {incoming : ℕ → Option Connection}
    (hcame : ∀ a ∈ numbered plan args.runs,
      Came F J args a.1.1 a.1.2 (outcome a.2) (incoming a.2))
    (hpossible : ∀ c ∈ connections incoming plan args.runs, c.Possible checks d heap)
    (tracing : Bool) (port : ℕ) :
    let run := Server.Listening.run tracing port true
      ((connections incoming plan args.runs).map .ok)
    run.2 = .accepting ∧
    (rows run.1.printed).Sublist (successRows F outcome plan args.runs) ∧
    ((∀ a ∈ numbered plan args.runs, ∀ report c, outcome a.2 = .ok report →
        incoming a.2 = some c → ∃ handled, handleConnection c = .ok handled) →
      rows run.1.printed = successRows F outcome plan args.runs) ∧
    Tidy none run.1.printed ∧
    (args.csv = true →
      ((successRows F outcome plan args.runs).map fun r => (⟨.result, r.2⟩ : Line)).Sublist
        (runSuite F args plan outcome).printed) := by
  have hcalm : ∀ c ∈ connections incoming plan args.runs,
      handleConnection c ≠ .panicked := by
    intro c hc
    refine ne_panicked_of_bearable hd hheap (hpossible c hc) fun r hr _ => ?_
    obtain ⟨a, ha, hin⟩ := List.mem_filterMap.mp hc
    have hattempt : a.1 ∈ attempts plan args.runs := List.fst_mem_of_mem_zipIdx ha
    have hone := hcame a ha
    rw [hin] at hone
    rw [hone.request_eq hJ hr]
    exact bearable_requestOf hheap hplan hmoderate hattempt
  obtain ⟨hup, hprinted, -⟩ := run_of_calm tracing port hcalm
  have hrows : rows (.listening port :: shown [] (connections incoming plan args.runs)) = _ :=
    rows_shown [] (connections incoming plan args.runs)
  have hbind : (connections incoming plan args.runs).filterMap Server.Listening.rowOf =
      (numbered plan args.runs).filterMap fun a =>
        (incoming a.2).bind Server.Listening.rowOf := List.filterMap_filterMap ..
  rw [← hprinted, hbind] at hrows
  have htidy : Tidy none (.listening port :: shown [] (connections incoming plan args.runs)) :=
    tidy_shown [] (connections incoming plan args.runs)
  rw [← hprinted] at htidy
  refine ⟨hup, ?_, fun hall => ?_, htidy, fun hcsv => successRows_sublist F hcsv plan outcome⟩
  · rw [hrows]
    refine filterMap_sublist fun a ha => ?_
    rcases (hcame a ha).rowOf_eq hJ with heq | ⟨hnone, -⟩
    · exact .inr heq
    · exact .inl hnone
  · rw [hrows]
    refine List.filterMap_congr fun a ha => ?_
    rcases (hcame a ha).rowOf_eq hJ with heq | ⟨hnone, c, hin, hfails⟩
    · exact heq
    · rw [hnone]
      cases hend : outcome a.2 with
      | error e => rfl
      | ok report =>
        -- a success whose connection has failed on the server's side
        obtain ⟨handled, hok⟩ := hall a ha report c hend hin
        exact absurd hok (hfails handled)

/-! ### One attempt -/

/-- `--csv --mode bandwidth --size 8 --iterations 1 --tx-depth 1 --rx-depth 1`. -/
def oneArgs : ClientArgs :=
  { mode := [.bandwidth], size := 8, iterations := 1, txDepth := 1, rxDepth := 1, csv := true }

/-- Its report. -/
def oneReport : Report ℕ := .bandwidth ⟨8, 1, 1, 1000⟩

instance (k : Message) : DecidableEq (Contents Unit k) :=
  match k with
  | .benchmarkRequest => inferInstanceAs (DecidableEq BenchmarkRequest)
  | .handshakeAck => inferInstanceAs (DecidableEq (HandshakeAck Unit))
  | .clientEndpoint => inferInstanceAs (DecidableEq Unit)
  | .remoteBufferInfo => inferInstanceAs (DecidableEq RemoteMemoryRegion)
  | .accuracyReport => inferInstanceAs (DecidableEq AccuracyReport)
  | .resultRow => inferInstanceAs (DecidableEq (Option String))

/-- Its four messages and their texts. -/
def oneMessages : (k : Message) → Option (Contents Unit k × String)
  | .benchmarkRequest => some (requestOf oneArgs .bandwidth 8,
      "\x7b\"transport\":\"Rc\",\"mode\":\"Bandwidth\",\"msg_size\":8," ++
        "\"iterations\":1,\"tx_depth\":1,\"rx_depth\":1\x7d")
  | .handshakeAck => some (.ok (), "\x7b\"Ok\":\x7b\"endpoint\":null\x7d\x7d")
  | .clientEndpoint => some ((), "\x7b\"endpoint\":null\x7d")
  | .resultRow => some (some "8,1,1,0,0", "\x7b\"row\":\"8,1,1,0,0\"\x7d")
  | .remoteBufferInfo | .accuracyReport => none

/-- `serde_json` on these messages. -/
def jsonOne : Json Message (Contents Unit) Unit where
  toString k x :=
    match oneMessages k with
    | some (y, text) => if x = y then .ok text else .error ()
    | none => .error ()
  fromStr k line :=
    match oneMessages k with
    | some (y, text) => if line = text.push '\n' then .ok y else .error ()
    | none => .error ()

theorem jsonOne_text {k : Message} {x : Contents Unit k} {text : String}
    (h : jsonOne.toString k x = .ok text) : oneMessages k = some (x, text) := by
  rw [jsonOne] at h
  dsimp only at h
  split at h
  · next y text' hk =>
    split at h
    · next hx => rw [hk, hx, Except.ok.inj h]
    · exact absurd h nofun
  · exact absurd h nofun

theorem jsonOne_faithful : jsonOne.Faithful where
  no_newline {k x text} h := by
    have hk := jsonOne_text h
    cases k with
    | benchmarkRequest | handshakeAck | clientEndpoint | resultRow =>
      obtain ⟨-, rfl⟩ := Prod.ext_iff.mp (Option.some.inj hk)
      decide +kernel
    | remoteBufferInfo | accuracyReport => exact absurd hk nofun
  fromStr_line {k x text} h := by
    rw [jsonOne]
    dsimp only
    rw [jsonOne_text h]
    exact if_pos rfl

/-- Whether an item is one of that attempt's. -/
def saysOne : Sent (Contents Unit) → Bool
  | .message k x => (oneMessages k).any fun y => decide (x = y.1)
  | .barrier => true

/-- A `sync` on both sides. -/
def oneRendezvous : List (TalkLabel (Contents Unit)) :=
  [.client (.send true .barrier), .server (.send true .barrier), .client (.arrive 1),
    .server (.arrive 1), .client (.receive .barrier), .server (.receive .barrier)]

/-- The whole attempt; the request comes in three pieces. -/
def oneRun : List (TalkLabel (Contents Unit)) :=
  [.client (.act .skip),
    .client (.send true (.message .benchmarkRequest (requestOf oneArgs .bandwidth 8))),
    .server (.arrive 40), .server (.arrive 51), .server (.arrive 1),
    .server (.receive (.message .benchmarkRequest)), .server (.act .skip),
    .server (.send true (.message .handshakeAck (.ok ()))), .client (.arrive 25),
    .client (.receive (.message .handshakeAck)), .client (.act .skip),
    .client (.send true (.message .clientEndpoint ())), .client (.act .skip),
    .server (.arrive 18), .server (.receive (.message .clientEndpoint)), .server (.act .skip),
    .server (.act .skip)] ++ oneRendezvous ++
  [.client (.act .skip), .server (.act .skip)] ++ oneRendezvous ++
  [.server (.act (.postReceive 0 0))] ++ oneRendezvous ++
  [.client (.act (.clock 0)), .client (.act (.postSend 0 0)),
    .client (.act (.poll [⟨0, 8, true⟩])), .client (.act (.clock 0)), .server (.act (.clock 0)),
    .server (.act (.poll [⟨0, 8, true⟩])), .server (.act (.clock 0)), .server (.act .skip)] ++
  oneRendezvous ++
  [.client (.send true (.message .resultRow (some "8,1,1,0,0"))), .server (.arrive 20),
    .server (.receive (.message .resultRow))]

theorem exists_oneRun : ∃ s, (onBytes jsonOne oneMessage .bandwidth).Reachable s ∧
    serverEnd oneMessage s = .ok ∧ s.client.sent.all saysOne = true := by
  obtain ⟨s, hs, hend⟩ := System.Reachable.exists_of_run
    (S := onBytes jsonOne oneMessage .bandwidth)
    (p := fun s => decide (serverEnd oneMessage s = .ok ∧ s.client.sent.all saysOne = true))
    oneRun (by decide +kernel)
  exact ⟨s, hs, of_decide_eq_true hend⟩

/-- Whole numbers for floating point. -/
def oneFloats : Floats ℕ :=
  ⟨⟨List.sum, id, (· - ·), (· / ·), (· ^ 2), id, 0⟩, (· * ·), fun _ => toString⟩

def onePlan : Plan := ⟨[.bandwidth], [8]⟩

def oneConnection : Connection :=
  { request := .ok (requestOf oneArgs .bandwidth 8), counted := 1,
    row := .ok (some "8,1,1,0,0") }

theorem mem_numbered_onePlan {a : (Mode × ℕ) × ℕ} (h : a ∈ numbered onePlan oneArgs.runs) :
    a = ((.bandwidth, 8), 0) :=
  List.mem_singleton.mp h

/-- It comes to a success on both sides. -/
theorem came_one : Came oneFloats jsonOne oneArgs .bandwidth 8 (.ok oneReport)
    (some oneConnection) := by
  obtain ⟨s, hs, hserver, htold⟩ := exists_oneRun
  obtain ⟨hclient, hgot, -⟩ := agreed_of_server_ok jsonOne_faithful hs hserver
  obtain ⟨r, row, between, hsent⟩ :=
    exists_handedOver hs (onBytes_kept jsonOne_faithful hs).1 hclient
  have hall := List.all_eq_true.mp htold
  have hrequest : ∀ r : BenchmarkRequest, .message .benchmarkRequest r ∈ s.client.sent →
      r = requestOf oneArgs .bandwidth 8 := fun r hr => of_decide_eq_true (hall _ hr)
  have hrow : ∀ row : Option String, .message .resultRow row ∈ s.client.sent →
      row = some "8,1,1,0,0" := fun row hr => of_decide_eq_true (hall _ hr)
  have hfirst : .message .benchmarkRequest r ∈ s.client.sent := by
    rw [hsent]
    exact List.mem_cons_self
  have hlast : .message .resultRow row ∈ s.client.sent := by
    rw [hsent]
    exact List.mem_append_right _ List.mem_cons_self
  refine .twoSided (m := .bandwidth) rfl ⟨rfl, rfl, rfl, rfl, rfl⟩ hs hclient ⟨hrequest, ?_⟩ ?_
  · intro report hreport row hmem
    rw [← Except.ok.inj hreport, hrow row hmem]
    decide +kernel
  · refine ⟨fun r' hr' => ?_, fun _ => ⟨r, row, hgot ▸ hfirst, hgot ▸ hlast, ?_⟩, fun herr => ?_,
      fun hrun => ?_⟩
    · rw [hgot, ← Except.ok.inj hr', ← hrequest r hfirst]
      exact hfirst
    · rw [hrequest r hfirst, hrow row hlast]
      rfl
    · exact absurd (hserver.symm.trans herr) nofun
    · exact absurd (hserver.symm.trans hrun) nofun

theorem suite_served_one :
    let run := Server.Listening.run false 18515 true [.ok oneConnection]
    run.2 = .accepting ∧ rows run.1.printed = [(.bandwidth, "8,1,1,0,0")] ∧
      (⟨.result, "8,1,1,0,0"⟩ : Line) ∈
        (runSuite oneFloats oneArgs onePlan fun _ => .ok oneReport).printed := by
  have hrow : oneReport.csvRow oneFloats = some "8,1,1,0,0" := by decide +kernel
  have hcame : ∀ a ∈ numbered onePlan oneArgs.runs,
      Came oneFloats jsonOne oneArgs a.1.1 a.1.2 (.ok oneReport) (some oneConnection) := by
    intro a ha
    rw [mem_numbered_onePlan ha]
    exact came_one
  have hpossible : ∀ c ∈ [oneConnection], c.Possible true Server.generous 4096 := by
    intro c hc
    obtain rfl := List.mem_singleton.mp hc
    refine ⟨fun r hr _ => ?_, fun r hr _ => ?_⟩ <;> obtain rfl := Except.ok.inj hr
    · exact ⟨2, by decide +kernel⟩
    · exact ⟨⟨8, 1, 0, 1, 0⟩, by decide +kernel⟩
  have hmoderate : Moderate true 4096 oneArgs onePlan := by
    refine ⟨by decide, by decide, fun mode hmode size hsize => ?_⟩
    obtain rfl := List.mem_singleton.mp hmode
    obtain rfl := List.mem_singleton.mp hsize
    exact ⟨by decide, fun _ => by decide⟩
  obtain ⟨hup, -, hrows, -, hshown⟩ := @suite_served ℕ Unit Unit true Server.generous
    Server.generous_documented 4096 (by decide) oneFloats jsonOne jsonOne_faithful oneArgs onePlan
    0 rfl hmoderate (fun _ => .ok oneReport) (fun _ => some oneConnection) hcame hpossible false
    18515
  have hsuccess : successRows oneFloats (fun _ => .ok oneReport) onePlan oneArgs.runs =
      [(.bandwidth, "8,1,1,0,0")] := by
    rw [show successRows oneFloats (fun _ => .ok oneReport) onePlan oneArgs.runs =
      (rowFor oneFloats .bandwidth (.ok oneReport)).toList from by decide +kernel, rowFor, hrow]
    rfl
  rw [hsuccess] at hrows hshown
  refine ⟨hup, hrows fun a ha report c _ hc => ?_, (hshown rfl).subset List.mem_cons_self⟩
  obtain rfl := Option.some.inj hc
  exact ⟨.finished .bandwidth (some "8,1,1,0,0"), rfl⟩

end Client
end RdmaBench
