import RdmaBench.Connection.Duo

/-!
# The responder of the one-sided modes

In the modes `rdma-write` and `rdma-read` the server registers a region, hands out
its address and waits behind two barriers while the other side reads or writes the
region without it.  `responderStep` is `handle_connection` with `rdma::run` in the
middle.

The initiator is another program, so what can be said of a whole run is said of any
program that keeps to the session the responder expects.  `transfer_in_region` is
the point of the two barriers: while the initiator is between reading the address
and announcing that it is done, the region is registered.

This client is no initiator.  It offers the two modes, goes through the handshake,
and turns the benchmark down when it gets there.  `initiatorStep` is that; its
session is the one it was heading for (`InitiatorCtl.todo`), so it is in step with
the responder as far as it goes.  `oneSided` puts the two together, with the ends of
the streams: a read that finds nothing and a closed peer fails.
-/

namespace RdmaBench

open Automaton Session

/-- The modes in which only one side posts. -/
inductive OneSided where
  | write
  | read
  deriving DecidableEq

def OneSided.mode : OneSided → Mode
  | .write => .rdmaWrite
  | .read => .rdmaRead

/-! ## The responder -/

/-- The program points of `handle_connection` with `rdma::run`. -/
inductive ResponderCtl where
  | recvRequest
  /-- About to turn an unsupported request down. -/
  | sendUnsupported
  | refused
  /-- About to build the queue pair. -/
  | build
  | sendAck
  | recvEndpoint
  | handshake
  /-- About to register the region. -/
  | allocate
  | sendInfo
  | ready (s : SyncPc)
  | initiatorDone (s : SyncPc)
  | recvRow
  | done
  deriving DecidableEq

section Responder

variable (transport : Transport) (mode : OneSided) (tracing : Bool)

/-- `handle_connection` in a one-sided mode, one contact at a time. -/
def responderStep : ResponderCtl → Act → Option ResponderCtl
  | .recvRequest, a =>
    expect a (.read .benchmarkRequest)
      (if supported transport mode.mode then .build else .sendUnsupported)
  | .sendUnsupported, a => expect a (.write .handshakeAck) .refused
  | .refused, _ => none
  | .build, a => expect a .skip .sendAck
  | .sendAck, a => expect a (.write .handshakeAck) .recvEndpoint
  | .recvEndpoint, a => expect a (.read .clientEndpoint) .handshake
  | .handshake, a => expect a .skip .allocate
  | .allocate, a => expect a .skip .sendInfo
  | .sendInfo, a => expect a (.write .remoteBufferInfo) (.ready (.enter tracing))
  | .ready s, a => syncThen tracing s a .ready (.initiatorDone (.enter tracing))
  | .initiatorDone s, a => syncThen tracing s a .initiatorDone .recvRow
  | .recvRow, a => expect a (.read .resultRow) .done
  | .done, _ => none

def responderProgram : Program ResponderCtl := ⟨.recvRequest, responderStep transport mode tracing⟩

end Responder

/-- What the responder still expects once it is about to register the region. -/
def responderRest : Session Item := .write .remoteBufferInfo :: (barriers 2 ++ [.read .resultRow])

/-- What the responder has still to do on the connection. -/
def ResponderCtl.todo : ResponderCtl → Session Item
  | .recvRequest =>
    .read .benchmarkRequest :: .write .handshakeAck :: .read .clientEndpoint :: responderRest
  | .sendUnsupported => [.write .handshakeAck]
  | .refused | .done => []
  | .build | .sendAck => .write .handshakeAck :: .read .clientEndpoint :: responderRest
  | .recvEndpoint => .read .clientEndpoint :: responderRest
  | .handshake | .allocate | .sendInfo => responderRest
  | .ready s => s.todo ++ (barriers 1 ++ [.read .resultRow])
  | .initiatorDone s => s.todo ++ [.read .resultRow]
  | .recvRow => [.read .resultRow]

/-- **The responder keeps to its session**, where the mode is supported. -/
theorem responder_keeps {transport : Transport} {mode : OneSided} (tracing : Bool)
    (hs : supported transport mode.mode = true) :
    Keeps (responderProgram transport mode tracing) ResponderCtl.todo := by
  intro c a t h
  cases c with
  | recvRequest =>
    obtain ⟨rfl, rfl⟩ := expect_eq_some.mp h
    rw [if_pos hs]
    rfl
  | sendUnsupported | build | sendAck | recvEndpoint | handshake | allocate | recvRow =>
    obtain ⟨rfl, rfl⟩ := expect_eq_some.mp h
    rfl
  | sendInfo =>
    obtain ⟨rfl, rfl⟩ := expect_eq_some.mp h
    rw [ResponderCtl.todo, ResponderCtl.todo, SyncPc.todo_enter]
    rfl
  | ready s =>
    rcases syncThen_cases h with ⟨s', hs, -, rfl⟩ | ⟨hs, -, rfl⟩
    · rw [ResponderCtl.todo, hs, List.append_assoc, ResponderCtl.todo]
    · rw [ResponderCtl.todo, hs, ResponderCtl.todo, SyncPc.todo_enter]
      rfl
  | initiatorDone s =>
    rcases syncThen_cases h with ⟨s', hs, -, rfl⟩ | ⟨hs, -, rfl⟩
    · rw [ResponderCtl.todo, hs, List.append_assoc, ResponderCtl.todo]
    · rw [ResponderCtl.todo, hs, ResponderCtl.todo]
  | refused | done => exact absurd h (by simp [responderProgram, responderStep])

/-! ## The region -/

/-- Whether the region is registered: `rdma::run` has allocated it and not returned. -/
def ResponderCtl.registered : ResponderCtl → Bool
  | .sendInfo | .ready _ | .initiatorDone _ => true
  | _ => false

/-- What an initiator does on the connection, in step with the responder. -/
def initiatorSession : Session Item :=
  .write .benchmarkRequest :: .read .handshakeAck :: .write .clientEndpoint ::
    .read .remoteBufferInfo :: (barriers 2 ++ [.write .resultRow])

theorem dual_initiator : Dual initiatorSession ResponderCtl.recvRequest.todo :=
  .send _ (.recv _ (.send _ (.recv _ ((dual_barriers 2).append (.send _ .done)))))

/-- An initiator may touch the region: it has read the address, and has not announced
that it is done. -/
def Transferring (todo : Session Item) : Prop :=
  .remoteBufferInfo ∉ reads todo ∧ .barrier ∈ writes todo

theorem ResponderCtl.registered_of {c : ResponderCtl}
    (hinfo : .remoteBufferInfo ∉ writes c.todo) (hbarrier : .barrier ∈ reads c.todo) :
    c.registered = true := by
  cases c with
  | ready s | initiatorDone s => rfl
  | sendInfo => rfl
  | recvRequest | build | sendAck | recvEndpoint | handshake | allocate =>
    exact absurd (by decide) hinfo
  | sendUnsupported | refused | recvRow | done => exact absurd hbarrier (by decide)

/-- **While an initiator may touch the region, the region is registered**, whatever
program the initiator is, as long as it keeps to the session and no call of the
responder fails.  A responder that fails drops its region and is not modelled: `duo`
has no failures. -/
theorem transfer_in_region {σ : Type} {C : Program σ} {todo : σ → Session Item}
    {transport : Transport} {mode : OneSided} {tracing : Bool} (hC : Keeps C todo)
    (hinit : todo C.init = initiatorSession) (hs : supported transport mode.mode = true)
    {s : Duo σ ResponderCtl} (h : (duo C (responderProgram transport mode tracing)).Reachable s)
    (htransfer : Transferring (todo s.client)) : s.server.registered = true := by
  have hlinked : Linked (todo C.init) ResponderCtl.recvRequest.todo [] [] := by
    rw [hinit]
    exact dual_initiator.linked
  have hin := duo_inStep hC (responder_keeps tracing hs) hlinked h
  refine ResponderCtl.registered_of (fun hmem => ?_) ?_
  · refine htransfer.1 ?_
    rw [hin.linked.left]
    exact List.mem_append_right _ hmem
  · rw [hin.linked.right]
    exact List.mem_append_right _ htransfer.2

/-- The program that does what a session says and nothing else. -/
def scripted (script : Session Item) : Program (Session Item) where
  init := script
  step rest a := match rest with
    | [] => none
    | io :: rest => if a.session = [io] then some rest else none

theorem scripted_keeps (script : Session Item) : Keeps (scripted script) id := by
  intro rest a t h
  cases rest with
  | nil => exact absurd h (by simp [scripted])
  | cons io rest =>
    obtain ⟨hio, rfl⟩ := Option.ite_none_right_eq_some.mp h |>.imp_right Option.some.inj
    rw [hio]
    rfl

/-- The initiator has passed the first barrier and is at work. -/
theorem transfer_in_region_scripted :
    ∃ s, (duo (scripted initiatorSession) (responderProgram .uc .write false)).Reachable s ∧
      s.client = [.write .barrier, .read .barrier, .write .resultRow] ∧
        s.server.registered = true := by
  obtain ⟨s, hs, hat⟩ := System.Reachable.exists_of_run
    (S := duo (scripted initiatorSession) (responderProgram .uc .write false))
    (p := fun s => decide (s.client = [.write .barrier, .read .barrier, .write .resultRow]))
    [.client (.write .benchmarkRequest), .server (.read .benchmarkRequest), .server .skip,
      .server (.write .handshakeAck), .client (.read .handshakeAck),
      .client (.write .clientEndpoint), .server (.read .clientEndpoint), .server .skip,
      .server .skip, .server (.write .remoteBufferInfo), .client (.read .remoteBufferInfo),
      .client (.write .barrier), .server (.write .barrier), .client (.read .barrier)] (by decide)
  have hclient := of_decide_eq_true hat
  refine ⟨s, hs, hclient, transfer_in_region (scripted_keeps _) rfl rfl hs ?_⟩
  rw [hclient]
  exact ⟨by decide, by decide⟩

/-! ## This crate's client -/

/-- The program points of `run_once` in a one-sided mode. -/
inductive InitiatorCtl where
  /-- About to build the queue pair and connect. -/
  | connect
  | sendRequest
  | recvAck
  | handshake
  | sendEndpoint
  /-- About to enter `bench::run`, which turns the client's side down. -/
  | start
  deriving DecidableEq

section Initiator

variable (transport : Transport) (mode : OneSided)

/-- `run_once` in a one-sided mode, one contact at a time. -/
def initiatorStep : InitiatorCtl → Act → Option InitiatorCtl
  | .connect, a => if supported transport mode.mode then expect a .skip .sendRequest else none
  | .sendRequest, a => expect a (.write .benchmarkRequest) .recvAck
  | .recvAck, a => expect a (.read .handshakeAck) .handshake
  | .handshake, a => expect a .skip .sendEndpoint
  | .sendEndpoint, a => expect a (.write .clientEndpoint) .start
  | .start, _ => none

def initiatorProgram : Program InitiatorCtl := ⟨.connect, initiatorStep transport mode⟩

end Initiator

/-- What the client has still to do on the connection, had it an initiator to run. -/
def InitiatorCtl.todo : InitiatorCtl → Session Item
  | .connect | .sendRequest => initiatorSession
  | .recvAck => initiatorSession.drop 1
  | .handshake | .sendEndpoint => initiatorSession.drop 2
  | .start => initiatorSession.drop 3

theorem initiator_keeps (transport : Transport) (mode : OneSided) :
    Keeps (initiatorProgram transport mode) InitiatorCtl.todo := by
  intro c a t h
  cases c with
  | connect =>
    obtain ⟨-, h⟩ := Option.ite_none_right_eq_some.mp h
    obtain ⟨rfl, rfl⟩ := expect_eq_some.mp h
    rfl
  | sendRequest | recvAck | handshake | sendEndpoint =>
    obtain ⟨rfl, rfl⟩ := expect_eq_some.mp h
    rfl
  | start => exact absurd h (by simp [initiatorProgram, initiatorStep])

/-- It never comes to announcing anything, nor to a row. -/
theorem InitiatorCtl.writes_todo (c : InitiatorCtl) :
    ∃ before, writes c.todo = before ++ [.barrier, .barrier, .resultRow] := by
  cases c with
  | connect | sendRequest => exact ⟨[.benchmarkRequest, .clientEndpoint], rfl⟩
  | recvAck | handshake | sendEndpoint => exact ⟨[.clientEndpoint], rfl⟩
  | start => exact ⟨[], rfl⟩

/-! ## The two together -/

/-- What a party waits for, when it is at a read. -/
def InitiatorCtl.reading : InitiatorCtl → Option Item
  | .recvAck => some .handshakeAck
  | _ => none

def ResponderCtl.reading : ResponderCtl → Option Item
  | .recvRequest => some .benchmarkRequest
  | .recvEndpoint => some .clientEndpoint
  | .ready .read | .initiatorDone .read => some .barrier
  | .recvRow => some .resultRow
  | _ => none

/-- The client, the responder and what is in flight between them. -/
structure OneSidedRun where
  client : InitiatorCtl := .connect
  server : ResponderCtl := .recvRequest
  wire : Wire := {}
  clientFailed : Bool := false
  serverFailed : Bool := false
  deriving DecidableEq

inductive OneSidedLabel where
  | client (a : Act)
  | server (a : Act)
  /-- `rdma::run` returns its error. -/
  | refuse
  /-- A read finds the end of the stream. -/
  | clientEof
  | serverEof
  /-- Any other failure. -/
  | clientFails
  | serverFails
  deriving DecidableEq

/-- Whether the client has returned; it has no way to return `Ok`. -/
def OneSidedRun.clientEnded (s : OneSidedRun) : Bool := s.clientFailed

/-- Whether the responder has returned `Ok`. -/
def ResponderCtl.isOk : ResponderCtl → Bool
  | .refused | .done => true
  | _ => false

def OneSidedRun.serverEnded (s : OneSidedRun) : Bool := s.serverFailed || s.server.isOk

section OneSidedRun

variable (transport : Transport) (mode : OneSided) (tracing : Bool)

/-- One step of either party. -/
def oneSidedStep (s : OneSidedRun) : OneSidedLabel → Option OneSidedRun
  | .client a =>
    if s.clientEnded then none
    else (s.wire.client a).bind fun w => (initiatorStep transport mode s.client a).map fun c =>
      { s with client := c, wire := w }
  | .server a =>
    if s.serverEnded then none
    else (s.wire.server a).bind fun w =>
      (responderStep transport mode tracing s.server a).map fun c =>
        { s with server := c, wire := w }
  | .refuse =>
    if s.clientEnded = false ∧ s.client = .start then some { s with clientFailed := true }
    else none
  | .clientEof =>
    if s.clientEnded = false ∧ s.client.reading ≠ none ∧ s.wire.toClient = [] ∧
        s.serverEnded = true then
      some { s with clientFailed := true }
    else none
  | .serverEof =>
    if s.serverEnded = false ∧ s.server.reading ≠ none ∧ s.wire.toServer = [] ∧
        s.clientEnded = true then
      some { s with serverFailed := true }
    else none
  | .clientFails => if s.clientEnded then none else some { s with clientFailed := true }
  | .serverFails => if s.serverEnded then none else some { s with serverFailed := true }

/-- A run of `run_once` against `handle_connection` in a one-sided mode. -/
def oneSided : System OneSidedRun OneSidedLabel := ⟨{}, oneSidedStep transport mode tracing⟩

end OneSidedRun

/-! ## It ends -/

/-- The acts ahead of the client. -/
def InitiatorCtl.ahead : InitiatorCtl → ℕ
  | .connect => 5
  | .sendRequest => 4
  | .recvAck => 3
  | .handshake => 2
  | .sendEndpoint => 1
  | .start => 0

/-- The acts ahead of the responder. -/
def ResponderCtl.ahead : ResponderCtl → ℕ
  | .recvRequest => 17
  | .build => 16
  | .sendAck => 15
  | .recvEndpoint => 14
  | .handshake => 13
  | .allocate => 12
  | .sendInfo => 11
  | .ready s => 7 + s.ahead
  | .initiatorDone s => 3 + s.ahead
  | .recvRow => 2
  | .sendUnsupported => 1
  | .refused | .done => 0

theorem InitiatorCtl.ahead_lt {transport : Transport} {mode : OneSided} {c t : InitiatorCtl}
    {a : Act} (h : initiatorStep transport mode c a = some t) : t.ahead < c.ahead := by
  cases c with
  | connect =>
    obtain ⟨-, h⟩ := Option.ite_none_right_eq_some.mp h
    obtain ⟨-, rfl⟩ := expect_eq_some.mp h
    decide
  | sendRequest | recvAck | handshake | sendEndpoint =>
    obtain ⟨-, rfl⟩ := expect_eq_some.mp h
    decide
  | start => exact absurd h (by simp [initiatorStep])

theorem ResponderCtl.ahead_lt {transport : Transport} {mode : OneSided} {tracing : Bool}
    {c t : ResponderCtl} {a : Act} (h : responderStep transport mode tracing c a = some t) :
    t.ahead < c.ahead := by
  have henter := SyncPc.ahead_le (.enter tracing)
  cases c with
  | recvRequest =>
    obtain ⟨-, rfl⟩ := expect_eq_some.mp h
    split <;> decide
  | sendUnsupported | build | sendAck | recvEndpoint | handshake | allocate | recvRow =>
    obtain ⟨-, rfl⟩ := expect_eq_some.mp h
    decide
  | sendInfo =>
    obtain ⟨-, rfl⟩ := expect_eq_some.mp h
    simp only [ResponderCtl.ahead]
    omega
  | ready s =>
    rcases syncThen_ahead h with ⟨s', hlt, rfl⟩ | rfl
    · simp only [ResponderCtl.ahead]
      omega
    · simp only [ResponderCtl.ahead]
      omega
  | initiatorDone s =>
    rcases syncThen_ahead h with ⟨s', hlt, rfl⟩ | rfl
    · simp only [ResponderCtl.ahead]
      omega
    · simp only [ResponderCtl.ahead]
      omega
  | refused | done => exact absurd h (by simp [responderStep])

/-- The acts ahead of both, an end counting as one. -/
def OneSidedRun.ahead (s : OneSidedRun) : ℕ :=
  (if s.clientFailed then 0 else 1 + s.client.ahead) +
    if s.serverFailed then 0 else 1 + s.server.ahead

section Run

variable {transport : Transport} {mode : OneSided} {tracing : Bool} {s t : OneSidedRun}

/-- **Every step gets on.** -/
theorem OneSidedRun.ahead_lt {l : OneSidedLabel}
    (h : oneSidedStep transport mode tracing s l = some t) : t.ahead < s.ahead := by
  cases l with
  | client a =>
    obtain ⟨hrun, h⟩ := Option.ite_none_left_eq_some.mp h
    obtain ⟨w, -, h⟩ := Option.bind_eq_some_iff.mp h
    obtain ⟨c, hc, rfl⟩ := Option.map_eq_some_iff.mp h
    have hlt := InitiatorCtl.ahead_lt hc
    rw [OneSidedRun.clientEnded] at hrun
    simp only [OneSidedRun.ahead, if_neg hrun]
    omega
  | server a =>
    obtain ⟨hrun, h⟩ := Option.ite_none_left_eq_some.mp h
    obtain ⟨w, -, h⟩ := Option.bind_eq_some_iff.mp h
    obtain ⟨c, hc, rfl⟩ := Option.map_eq_some_iff.mp h
    have hlt := ResponderCtl.ahead_lt hc
    have hfailed := (Bool.or_eq_false_iff.mp (Bool.eq_false_iff.mpr hrun)).1
    simp only [OneSidedRun.ahead, hfailed]
    simp only [Bool.false_eq_true, if_false]
    omega
  | refuse | clientEof =>
    obtain ⟨hrun, h⟩ := Option.ite_none_right_eq_some.mp h
    obtain rfl := Option.some.inj h
    have hfailed : s.clientFailed = false := hrun.1
    simp only [OneSidedRun.ahead, hfailed, if_true, Bool.false_eq_true, if_false]
    omega
  | clientFails =>
    obtain ⟨hrun, h⟩ := Option.ite_none_left_eq_some.mp h
    obtain rfl := Option.some.inj h
    rw [OneSidedRun.clientEnded] at hrun
    simp only [OneSidedRun.ahead, if_neg hrun, if_true]
    omega
  | serverEof =>
    obtain ⟨hrun, h⟩ := Option.ite_none_right_eq_some.mp h
    obtain rfl := Option.some.inj h
    have hfailed := (Bool.or_eq_false_iff.mp hrun.1).1
    simp only [OneSidedRun.ahead, hfailed, if_true, Bool.false_eq_true, if_false]
    omega
  | serverFails =>
    obtain ⟨hrun, h⟩ := Option.ite_none_left_eq_some.mp h
    obtain rfl := Option.some.inj h
    have hfailed := (Bool.or_eq_false_iff.mp (Bool.eq_false_iff.mpr hrun)).1
    simp only [OneSidedRun.ahead, hfailed, if_true, Bool.false_eq_true, if_false]
    omega

/-! ## Nobody is left waiting -/

/-- A responder that has not returned is at a read, or can do something else. -/
theorem ResponderCtl.moves (transport : Transport) (mode : OneSided) (tracing : Bool)
    (c : ResponderCtl) : c.isOk = true ∨
      (∃ k t, c.reading = some k ∧
        responderStep transport mode tracing c (.read k) = some t) ∨
      ∃ a t, (∀ i, a ≠ .read i) ∧ responderStep transport mode tracing c a = some t := by
  cases c with
  | refused | done => exact .inl rfl
  | recvRequest | recvEndpoint | recvRow => exact .inr (.inl ⟨_, _, rfl, rfl⟩)
  | sendUnsupported | sendAck =>
    exact .inr (.inr ⟨.write .handshakeAck, _, fun _ => Act.noConfusion, rfl⟩)
  | build | handshake | allocate =>
    exact .inr (.inr ⟨.skip, _, fun _ => Act.noConfusion, rfl⟩)
  | sendInfo => exact .inr (.inr ⟨.write .remoteBufferInfo, _, fun _ => Act.noConfusion, rfl⟩)
  | ready s | initiatorDone s =>
    cases s with
    | reached | passed => exact .inr (.inr ⟨.skip, _, fun _ => Act.noConfusion, rfl⟩)
    | write => exact .inr (.inr ⟨.write .barrier, _, fun _ => Act.noConfusion, rfl⟩)
    | read => exact .inr (.inl ⟨.barrier, _, rfl, rfl⟩)

/-- A client that has not returned is at a read, or turns the benchmark down, or can do
something else. -/
theorem InitiatorCtl.moves {transport : Transport} {mode : OneSided}
    (hs : supported transport mode.mode = true) (c : InitiatorCtl) : c = .start ∨
      (∃ k t, c.reading = some k ∧ initiatorStep transport mode c (.read k) = some t) ∨
      ∃ a t, (∀ i, a ≠ .read i) ∧ initiatorStep transport mode c a = some t := by
  cases c with
  | connect => exact .inr (.inr ⟨.skip, _, fun _ => Act.noConfusion, (if_pos hs).trans rfl⟩)
  | sendRequest =>
    exact .inr (.inr ⟨.write .benchmarkRequest, _, fun _ => Act.noConfusion, rfl⟩)
  | recvAck => exact .inr (.inl ⟨_, _, rfl, rfl⟩)
  | handshake => exact .inr (.inr ⟨.skip, _, fun _ => Act.noConfusion, rfl⟩)
  | sendEndpoint =>
    exact .inr (.inr ⟨.write .clientEndpoint, _, fun _ => Act.noConfusion, rfl⟩)
  | start => exact .inl rfl

/-- The parties as two programs over one connection. -/
def OneSidedRun.duo (s : OneSidedRun) : Duo InitiatorCtl ResponderCtl :=
  ⟨s.client, s.server, s.wire⟩

theorem oneSided_inStep (hs : supported transport mode.mode = true)
    (h : (oneSided transport mode tracing).Reachable s) :
    s.duo.InStep (initiatorProgram transport mode) (responderProgram transport mode tracing)
      InitiatorCtl.todo ResponderCtl.todo := by
  refine duo_inStep (initiator_keeps transport mode) (responder_keeps tracing hs)
    dual_initiator.linked (h.project OneSidedRun.duo rfl fun s l t hstep => ?_)
  cases l with
  | client a =>
    obtain ⟨-, hstep⟩ := Option.ite_none_left_eq_some.mp hstep
    obtain ⟨w, hw, hstep⟩ := Option.bind_eq_some_iff.mp hstep
    obtain ⟨c, hc, rfl⟩ := Option.map_eq_some_iff.mp hstep
    exact .inr ⟨.client a, duoStep_client (C := initiatorProgram transport mode)
      (S := responderProgram transport mode tracing) (s := s.duo) hw hc⟩
  | server a =>
    obtain ⟨-, hstep⟩ := Option.ite_none_left_eq_some.mp hstep
    obtain ⟨w, hw, hstep⟩ := Option.bind_eq_some_iff.mp hstep
    obtain ⟨c, hc, rfl⟩ := Option.map_eq_some_iff.mp hstep
    exact .inr ⟨.server a, duoStep_server (C := initiatorProgram transport mode)
      (S := responderProgram transport mode tracing) (s := s.duo) hw hc⟩
  | refuse | clientEof | serverEof =>
    obtain ⟨-, hstep⟩ := Option.ite_none_right_eq_some.mp hstep
    rw [← Option.some.inj hstep]
    exact .inl rfl
  | clientFails | serverFails =>
    obtain ⟨-, hstep⟩ := Option.ite_none_left_eq_some.mp hstep
    rw [← Option.some.inj hstep]
    exact .inl rfl

/-- The responder has two barriers and a row left to read, wherever it is. -/
theorem two_barriers_left (hs : supported transport mode.mode = true)
    (h : (oneSided transport mode tracing).Reachable s) :
    ∃ before, reads s.server.todo = before ++ [.barrier, .barrier, .resultRow] := by
  obtain ⟨before, hbefore⟩ := InitiatorCtl.writes_todo s.client
  have hright := (oneSided_inStep hs h).linked.right
  refine ⟨s.wire.toServer ++ before, ?_⟩
  rw [List.append_assoc, ← hbefore]
  exact hright

/-- So it never gets past its first barrier. -/
theorem ResponderCtl.entered_of {c : ResponderCtl} {before : List Item}
    (h : reads c.todo = before ++ [.barrier, .barrier, .resultRow]) :
    c.isOk = false ∧ c ≠ .recvRow ∧ ∀ q, c ≠ .initiatorDone q := by
  have hlen := congrArg List.length h
  rw [List.length_append] at hlen
  refine ⟨?_, ?_, ?_⟩
  · cases c with
    | refused | done => exact absurd hlen (by simp [ResponderCtl.todo])
    | _ => rfl
  · rintro rfl
    exact absurd hlen (by simp [ResponderCtl.todo])
  · rintro q rfl
    have hq : (reads q.todo).length ≤ 1 := by cases q <;> decide
    rw [ResponderCtl.todo, reads_append, List.length_append] at hlen
    simp only [reads_read, reads_nil, List.length_cons, List.length_nil] at hlen
    omega

/-- A read of a channel that is not empty goes on. -/
theorem serverRead_open (hs : supported transport mode.mode = true)
    (h : (oneSided transport mode tracing).Reachable s) (hrun : s.serverEnded = false) {k : Item}
    {c : ResponderCtl} (hc : responderStep transport mode tracing s.server (.read k) = some c)
    (hne : s.wire.toServer ≠ []) :
    ∃ t, oneSidedStep transport mode tracing s (.server (.read k)) = some t := by
  obtain ⟨j, rest, hj⟩ := List.exists_cons_of_ne_nil hne
  obtain rfl := (oneSided_inStep hs h).head_eq_server (responder_keeps tracing hs) hj (.here hc)
  refine ⟨{ s with server := c, wire := { s.wire with toServer := rest } }, ?_⟩
  rw [oneSidedStep, hrun, Wire.server_read hj, Option.bind_some, hc]
  rfl

theorem clientRead_open (hs : supported transport mode.mode = true)
    (h : (oneSided transport mode tracing).Reachable s) (hrun : s.clientEnded = false) {k : Item}
    {c : InitiatorCtl} (hc : initiatorStep transport mode s.client (.read k) = some c)
    (hne : s.wire.toClient ≠ []) :
    ∃ t, oneSidedStep transport mode tracing s (.client (.read k)) = some t := by
  obtain ⟨j, rest, hj⟩ := List.exists_cons_of_ne_nil hne
  obtain rfl :=
    (oneSided_inStep hs h).head_eq_client (initiator_keeps transport mode) hj (.here hc)
  refine ⟨{ s with client := c, wire := { s.wire with toClient := rest } }, ?_⟩
  rw [oneSidedStep, hrun, Wire.client_read hj, Option.bind_some, hc]
  rfl

/-- A failure that nothing in the run has caused. -/
def OneSidedLabel.spontaneous : OneSidedLabel → Bool
  | .clientFails | .serverFails => true
  | _ => false

/-- **Somebody can go on**, as long as somebody has not returned. -/
theorem exists_step (hs : supported transport mode.mode = true)
    (h : (oneSided transport mode tracing).Reachable s)
    (hrun : s.clientEnded = false ∨ s.serverEnded = false) :
    ∃ l t, l.spontaneous = false ∧ oneSidedStep transport mode tracing s l = some t := by
  have hserver : s.serverEnded = false → (s.wire.toServer ≠ [] ∨ s.clientEnded = true) →
      ∃ l t, l.spontaneous = false ∧ oneSidedStep transport mode tracing s l = some t := by
    intro hopen hwire
    rcases ResponderCtl.moves transport mode tracing s.server with hok | ⟨k, c, hk, hc⟩ |
      ⟨a, c, ha, hc⟩
    · exact absurd hok (by simp [(Bool.or_eq_false_iff.mp hopen).2])
    · by_cases hne : s.wire.toServer = []
      · refine ⟨.serverEof, { s with serverFailed := true }, rfl, if_pos ⟨hopen, ?_, hne, ?_⟩⟩
        · simp [hk]
        · exact hwire.resolve_left fun h => h hne
      · obtain ⟨t, ht⟩ := serverRead_open hs h hopen hc hne
        exact ⟨_, t, rfl, ht⟩
    · obtain ⟨w, hw⟩ := Wire.exists_server (w := s.wire) ha
      refine ⟨.server a, { s with server := c, wire := w }, rfl, ?_⟩
      rw [oneSidedStep, hopen, hw, Option.bind_some, hc]
      rfl
  cases hclient : s.clientEnded with
  | true =>
    exact hserver (hrun.resolve_left (by simp [hclient])) (.inr hclient)
  | false =>
    rcases InitiatorCtl.moves hs s.client with hstart | ⟨k, c, hk, hc⟩ | ⟨a, c, ha, hc⟩
    · exact ⟨.refuse, _, rfl, if_pos ⟨hclient, hstart⟩⟩
    · by_cases hne : s.wire.toClient = []
      · cases hend : s.serverEnded with
        | true =>
          refine ⟨.clientEof, { s with clientFailed := true }, rfl,
            if_pos ⟨hclient, ?_, hne, hend⟩⟩
          simp [hk]
        | false =>
          -- both would be waiting, which two programs in step never are
          rcases ResponderCtl.moves transport mode tracing s.server with hok | ⟨j, d, hj, hd⟩ |
            ⟨a, d, ha, hd⟩
          · exact absurd hok (by simp [(Bool.or_eq_false_iff.mp hend).2])
          · refine hserver hend (.inl fun hnil => ?_)
            exact (oneSided_inStep hs h).not_both_blocked (initiator_keeps transport mode)
              (responder_keeps tracing hs) dual_initiator ⟨c, hc⟩ ⟨d, hd⟩ ⟨hne, hnil⟩
          · obtain ⟨w, hw⟩ := Wire.exists_server (w := s.wire) ha
            refine ⟨.server a, { s with server := d, wire := w }, rfl, ?_⟩
            rw [oneSidedStep, hend, hw, Option.bind_some, hd]
            rfl
      · obtain ⟨t, ht⟩ := clientRead_open hs h hclient hc hne
        exact ⟨_, t, rfl, ht⟩
    · obtain ⟨w, hw⟩ := Wire.exists_client (w := s.wire) ha
      refine ⟨.client a, { s with client := c, wire := w }, rfl, ?_⟩
      rw [oneSidedStep, hclient, hw, Option.bind_some, hc]
      rfl

/-- **A run of this client in a one-sided mode is short and fails on both sides.**  Both
parties have taken at most eighteen and six steps between them when there is none left.
The responder never returns `Ok` and never gets past its first barrier, so no row is
printed; and a run that can only go on by a failure out of nowhere is one that both
parties have left with an error, so neither is stuck waiting for the other. -/
theorem one_sided_ends (tracing : Bool) (hs : supported transport mode.mode = true)
    {ls : List OneSidedLabel}
    (h : (oneSided transport mode tracing).run {} ls = some s) :
    ls.length ≤ 24 ∧ s.server.isOk = false ∧ s.server ≠ .recvRow ∧
    (∀ q, s.server ≠ .initiatorDone q) ∧
    ((∀ l, l.spontaneous = false → oneSidedStep transport mode tracing s l = none) →
      s.clientFailed = true ∧ s.serverFailed = true) := by
  have hreach : (oneSided transport mode tracing).Reachable s := .of_run .init h
  obtain ⟨before, hbefore⟩ := two_barriers_left hs hreach
  obtain ⟨hok, hrow, hdone⟩ := ResponderCtl.entered_of hbefore
  refine ⟨?_, hok, hrow, hdone, fun hstuck => ?_⟩
  · have hlen := System.length_add_le_of_run (S := oneSided transport mode tracing)
      (fun s l t => OneSidedRun.ahead_lt) h
    have hahead : OneSidedRun.ahead {} = 24 := rfl
    omega
  · by_contra hopen
    have hrun : s.clientEnded = false ∨ s.serverEnded = false := by
      rw [OneSidedRun.clientEnded, OneSidedRun.serverEnded, hok, Bool.or_false,
        ← Bool.not_eq_true, ← Bool.not_eq_true]
      exact not_and_or.mp hopen
    obtain ⟨l, t, hl, hstep⟩ := exists_step hs hreach hrun
    rw [hstuck l hl] at hstep
    exact absurd hstep (by simp)

/-- The client turns the benchmark down while the responder waits at its first barrier. -/
def refusedRun : List OneSidedLabel :=
  [.client .skip, .client (.write .benchmarkRequest), .server (.read .benchmarkRequest),
    .server .skip, .server (.write .handshakeAck), .client (.read .handshakeAck), .client .skip,
    .client (.write .clientEndpoint), .server (.read .clientEndpoint), .server .skip,
    .server .skip, .server (.write .remoteBufferInfo), .server (.write .barrier), .refuse,
    .serverEof]

theorem one_sided_ends_refused :
    ∃ s, (oneSided .rc .read false).run {} refusedRun = some s ∧ s.server.isOk = false ∧
      s.clientFailed = true ∧ s.serverFailed = true := by
  have hs : supported .rc OneSided.read.mode = true := rfl
  have hrun : (oneSided .rc .read false).run {} refusedRun =
      some ⟨.start, .ready .read, ⟨[], [.remoteBufferInfo, .barrier]⟩, true, true⟩ := rfl
  exact ⟨_, hrun, (one_sided_ends false hs hrun).2.1, rfl, rfl⟩

end Run

end RdmaBench
