import RdmaBench.Accuracy.Halves
import RdmaBench.Bandwidth.Halves
import RdmaBench.Latency.Halves

/-!
# `run_once` against `handle_connection`

One benchmark from the request to the result row.  `clientStep` and `serverStep` are
the two functions as automata over their contacts, with the half that `bench::run`
picks in the middle.  `parties` puts them on one connection: a party moves, or it fails
where it stands.  A party that has failed, or has returned, does not move again and has
closed its end.

A failure has no cause in the model; a verbs error, a refused handshake and a parameter
that `bench::run` turns down are all the same to the other side.  Where the code can
only fail, as at the start of a run whose parameters are turned down, no other step is
open.  The two sides have the same parameters: the server's are those of the request.
-/

namespace RdmaBench

open Automaton Session

/-- The modes in which both sides post and poll. -/
inductive TwoSided where
  | bandwidth
  | latency
  | accuracy
  deriving DecidableEq

def TwoSided.mode : TwoSided → Mode
  | .bandwidth => .bandwidth
  | .latency => .latency
  | .accuracy => .accuracy

/-- The parameters of a run over a connected transport, with the two switches that
each process sets for itself. -/
structure RunParams where
  transport : Transport
  size : ℕ
  iterations : ℕ
  txDepth : ℕ
  rxDepth : ℕ
  clientTraced : Bool
  serverTraced : Bool
  connected : transport ≠ .ud

theorem RunParams.supported (p : RunParams) (m : TwoSided) :
    RdmaBench.supported p.transport m.mode = true := by
  have hconnected := p.connected
  cases ht : p.transport with
  | rc => cases m <;> rfl
  | uc => cases m <;> rfl
  | ud => exact absurd ht hconnected

/-- The states of the client's half. -/
def ClientBench : TwoSided → Type
  | .bandwidth => Bandwidth.SendCtl
  | .latency => Latency.PingCtl
  | .accuracy => Accuracy.SendCtl

/-- The states of the server's half. -/
def ServerBench : TwoSided → Type
  | .bandwidth => Bandwidth.RecvCtl
  | .latency => Latency.PongCtl
  | .accuracy => Accuracy.RecvCtl

/-- What `accuracy::run` hands to a side. -/
def RunParams.accuracySetup (p : RunParams) (tracing : Bool) (role : Role) : Accuracy.Setup :=
  ⟨tracing, p.size, p.iterations, Accuracy.window role p.txDepth p.rxDepth p.iterations⟩

theorem RunParams.window_pos (p : RunParams) (tracing : Bool) (role : Role)
    (h : 0 < p.iterations) : 0 < (p.accuracySetup tracing role).window := by
  cases role <;> simp only [accuracySetup, Accuracy.window] <;> omega

/-- `bench::run`: the two halves of a mode. -/
def benchRun (p : RunParams) : (m : TwoSided) → Bench (ClientBench m) (ServerBench m)
  | .bandwidth => Bandwidth.bench ⟨p.clientTraced, p.iterations, p.txDepth, p.rxDepth⟩
      ⟨p.serverTraced, p.iterations, p.txDepth, p.rxDepth⟩
  | .latency => Latency.bench ⟨p.clientTraced, p.iterations⟩ ⟨p.serverTraced, p.iterations⟩
  | .accuracy => Accuracy.bench (p.accuracySetup p.clientTraced .client)
      (p.accuracySetup p.serverTraced .server) (p.window_pos p.clientTraced .client)

/-! ## The client -/

/-- The program points of `run_once`. -/
inductive ClientCtl (σ : Type) where
  /-- About to build the queue pair and connect. -/
  | connect
  | sendRequest
  | recvAck
  | handshake
  | sendEndpoint
  /-- About to enter `bench::run`. -/
  | start
  | bench (c : σ)
  /-- Returned `Ok`; the benchmark ended in `c`. -/
  | done (c : σ)

section Programs

variable (p : RunParams) (m : TwoSided)

/-- `client::run_once`, one contact at a time. -/
def clientStep : ClientCtl (ClientBench m) → Act → Option (ClientCtl (ClientBench m))
  | .connect, a => if supported p.transport m.mode then expect a .skip .sendRequest else none
  | .sendRequest, a => expect a (.write .benchmarkRequest) .recvAck
  | .recvAck, a => expect a (.read .handshakeAck) .handshake
  | .handshake, a => expect a .skip .sendEndpoint
  | .sendEndpoint, a => expect a (.write .clientEndpoint) .start
  | .start, a =>
    if (benchRun p m).admitted then expect a .skip (.bench (benchRun p m).client.program.init)
    else none
  | .bench c, a =>
    if (benchRun p m).client.finished c then expect a (.write .resultRow) (.done c)
    else ((benchRun p m).client.program.step c a).map .bench
  | .done _, _ => none

def clientProgram : Program (ClientCtl (ClientBench m)) := ⟨.connect, clientStep p m⟩

/-- What the client has still to do on the connection from `bench::run` on. -/
def clientRest : Session Item :=
  if (benchRun p m).admitted then
    (benchRun p m).client.todo (benchRun p m).client.program.init ++ [.write .resultRow]
  else []

/-- What the client has still to do on the connection. -/
def ClientCtl.todo : ClientCtl (ClientBench m) → Session Item
  | .connect | .sendRequest =>
    .write .benchmarkRequest :: .read .handshakeAck :: .write .clientEndpoint :: clientRest p m
  | .recvAck => .read .handshakeAck :: .write .clientEndpoint :: clientRest p m
  | .handshake | .sendEndpoint => .write .clientEndpoint :: clientRest p m
  | .start => clientRest p m
  | .bench c => (benchRun p m).client.todo c ++ [.write .resultRow]
  | .done _ => []

/-- One step of the client: from which point, by which act, to where. -/
inductive ClientMove : ClientCtl (ClientBench m) → Act → ClientCtl (ClientBench m) → Prop
  | connect : ClientMove .connect .skip .sendRequest
  | sendRequest : ClientMove .sendRequest (.write .benchmarkRequest) .recvAck
  | recvAck : ClientMove .recvAck (.read .handshakeAck) .handshake
  | handshake : ClientMove .handshake .skip .sendEndpoint
  | sendEndpoint : ClientMove .sendEndpoint (.write .clientEndpoint) .start
  | start (hadmitted : (benchRun p m).admitted = true) :
      ClientMove .start .skip (.bench (benchRun p m).client.program.init)
  | bench {c d : ClientBench m} {a : Act} (hd : (benchRun p m).client.program.step c a = some d) :
      ClientMove (.bench c) a (.bench d)
  | finish {c : ClientBench m} (hfinished : (benchRun p m).client.finished c = true) :
      ClientMove (.bench c) (.write .resultRow) (.done c)

variable {p m} in
/-- **Every step is one of the moves.** -/
theorem ClientMove.of_step {c t : ClientCtl (ClientBench m)} {a : Act}
    (h : clientStep p m c a = some t) : ClientMove p m c a t := by
  cases c with
  | connect =>
    obtain ⟨-, h⟩ := Option.ite_none_right_eq_some.mp h
    obtain ⟨rfl, rfl⟩ := expect_eq_some.mp h
    exact .connect
  | sendRequest =>
    obtain ⟨rfl, rfl⟩ := expect_eq_some.mp h
    exact .sendRequest
  | recvAck =>
    obtain ⟨rfl, rfl⟩ := expect_eq_some.mp h
    exact .recvAck
  | handshake =>
    obtain ⟨rfl, rfl⟩ := expect_eq_some.mp h
    exact .handshake
  | sendEndpoint =>
    obtain ⟨rfl, rfl⟩ := expect_eq_some.mp h
    exact .sendEndpoint
  | start =>
    obtain ⟨hadmitted, h⟩ := Option.ite_none_right_eq_some.mp h
    obtain ⟨rfl, rfl⟩ := expect_eq_some.mp h
    exact .start hadmitted
  | bench c =>
    rw [clientStep] at h
    split at h
    · next hfinished =>
      obtain ⟨rfl, rfl⟩ := expect_eq_some.mp h
      exact .finish hfinished
    · obtain ⟨d, hd, rfl⟩ := Option.map_eq_some_iff.mp h
      exact .bench hd
  | done c => exact absurd h (by simp [clientStep])

/-- **The client keeps to its session.** -/
theorem client_keeps : Keeps (clientProgram p m) (ClientCtl.todo p m) := by
  intro c a t h
  cases ClientMove.of_step h with
  | connect | sendRequest | recvAck | handshake | sendEndpoint => rfl
  | start hadmitted => exact if_pos hadmitted
  | bench hd =>
    rw [ClientCtl.todo, (benchRun p m).client.keeps _ _ _ hd, List.append_assoc, ClientCtl.todo]
  | finish hfinished =>
    rw [ClientCtl.todo, Half.todo_of_finished _ hfinished]
    rfl

end Programs

/-! ## The server -/

/-- The program points of `handle_connection`. -/
inductive ServerCtl (τ : Type) where
  | recvRequest
  /-- About to turn an unsupported request down. -/
  | sendUnsupported
  | refused
  /-- About to build the queue pair. -/
  | build
  | sendAck
  | recvEndpoint
  | handshake
  /-- About to enter `bench::run`. -/
  | start
  | bench (c : τ)
  /-- Returned `Ok`; the benchmark ended in `c`. -/
  | done (c : τ)

section Programs

variable (p : RunParams) (m : TwoSided)

/-- `server::handle_connection`, one contact at a time. -/
def serverStep : ServerCtl (ServerBench m) → Act → Option (ServerCtl (ServerBench m))
  | .recvRequest, a =>
    expect a (.read .benchmarkRequest)
      (if supported p.transport m.mode then .build else .sendUnsupported)
  | .sendUnsupported, a => expect a (.write .handshakeAck) .refused
  | .refused, _ => none
  | .build, a => expect a .skip .sendAck
  | .sendAck, a => expect a (.write .handshakeAck) .recvEndpoint
  | .recvEndpoint, a => expect a (.read .clientEndpoint) .handshake
  | .handshake, a => expect a .skip .start
  | .start, a =>
    if (benchRun p m).admitted then expect a .skip (.bench (benchRun p m).server.program.init)
    else none
  | .bench c, a =>
    if (benchRun p m).server.finished c then expect a (.read .resultRow) (.done c)
    else ((benchRun p m).server.program.step c a).map .bench
  | .done _, _ => none

def serverProgram : Program (ServerCtl (ServerBench m)) := ⟨.recvRequest, serverStep p m⟩

/-- What the server has still to do on the connection from `bench::run` on. -/
def serverRest : Session Item :=
  if (benchRun p m).admitted then
    (benchRun p m).server.todo (benchRun p m).server.program.init ++ [.read .resultRow]
  else []

/-- What the server has still to do on the connection. -/
def ServerCtl.todo : ServerCtl (ServerBench m) → Session Item
  | .recvRequest =>
    .read .benchmarkRequest :: .write .handshakeAck :: .read .clientEndpoint :: serverRest p m
  | .sendUnsupported => [.write .handshakeAck]
  | .refused => []
  | .build | .sendAck => .write .handshakeAck :: .read .clientEndpoint :: serverRest p m
  | .recvEndpoint => .read .clientEndpoint :: serverRest p m
  | .handshake | .start => serverRest p m
  | .bench c => (benchRun p m).server.todo c ++ [.read .resultRow]
  | .done _ => []

/-- One step of the server: from which point, by which act, to where. -/
inductive ServerMove : ServerCtl (ServerBench m) → Act → ServerCtl (ServerBench m) → Prop
  | recvRequest : ServerMove .recvRequest (.read .benchmarkRequest) .build
  | sendUnsupported : ServerMove .sendUnsupported (.write .handshakeAck) .refused
  | build : ServerMove .build .skip .sendAck
  | sendAck : ServerMove .sendAck (.write .handshakeAck) .recvEndpoint
  | recvEndpoint : ServerMove .recvEndpoint (.read .clientEndpoint) .handshake
  | handshake : ServerMove .handshake .skip .start
  | start (hadmitted : (benchRun p m).admitted = true) :
      ServerMove .start .skip (.bench (benchRun p m).server.program.init)
  | bench {c d : ServerBench m} {a : Act} (hd : (benchRun p m).server.program.step c a = some d) :
      ServerMove (.bench c) a (.bench d)
  | finish {c : ServerBench m} (hfinished : (benchRun p m).server.finished c = true) :
      ServerMove (.bench c) (.read .resultRow) (.done c)

variable {p m} in
/-- **Every step is one of the moves.**  The request is never turned down: the transport
is a connected one. -/
theorem ServerMove.of_step {c t : ServerCtl (ServerBench m)} {a : Act}
    (h : serverStep p m c a = some t) : ServerMove p m c a t := by
  cases c with
  | recvRequest =>
    obtain ⟨rfl, rfl⟩ := expect_eq_some.mp h
    rw [if_pos (p.supported m)]
    exact .recvRequest
  | sendUnsupported =>
    obtain ⟨rfl, rfl⟩ := expect_eq_some.mp h
    exact .sendUnsupported
  | refused => exact absurd h (by simp [serverStep])
  | build =>
    obtain ⟨rfl, rfl⟩ := expect_eq_some.mp h
    exact .build
  | sendAck =>
    obtain ⟨rfl, rfl⟩ := expect_eq_some.mp h
    exact .sendAck
  | recvEndpoint =>
    obtain ⟨rfl, rfl⟩ := expect_eq_some.mp h
    exact .recvEndpoint
  | handshake =>
    obtain ⟨rfl, rfl⟩ := expect_eq_some.mp h
    exact .handshake
  | start =>
    obtain ⟨hadmitted, h⟩ := Option.ite_none_right_eq_some.mp h
    obtain ⟨rfl, rfl⟩ := expect_eq_some.mp h
    exact .start hadmitted
  | bench c =>
    rw [serverStep] at h
    split at h
    · next hfinished =>
      obtain ⟨rfl, rfl⟩ := expect_eq_some.mp h
      exact .finish hfinished
    · obtain ⟨d, hd, rfl⟩ := Option.map_eq_some_iff.mp h
      exact .bench hd
  | done c => exact absurd h (by simp [serverStep])

/-- **The server keeps to its session.** -/
theorem server_keeps : Keeps (serverProgram p m) (ServerCtl.todo p m) := by
  intro c a t h
  cases ServerMove.of_step h with
  | recvRequest | sendUnsupported | build | sendAck | recvEndpoint | handshake => rfl
  | start hadmitted => exact if_pos hadmitted
  | bench hd =>
    rw [ServerCtl.todo, (benchRun p m).server.keeps _ _ _ hd, List.append_assoc, ServerCtl.todo]
  | finish hfinished =>
    rw [ServerCtl.todo, Half.todo_of_finished _ hfinished]
    rfl

/-- **The two sides are in step** from the request to the row. -/
theorem dual_todo : Dual (ClientCtl.todo p m .connect) (ServerCtl.todo p m .recvRequest) := by
  refine .send _ (.recv _ (.send _ ?_))
  unfold clientRest serverRest
  split
  · exact (benchRun p m).dual.append (.send _ .done)
  · exact .done

end Programs

/-! ## The two together -/

/-- Whether a party is still at it, or how it has returned. -/
inductive Status where
  | running
  | ok
  | err
  deriving DecidableEq

/-- A failed completion has made `bench::run` return, and `run_once` with it. -/
def ClientCtl.status {σ : Type} (h : Half σ) : ClientCtl σ → Status
  | .bench c => if h.failed c then .err else .running
  | .done _ => .ok
  | _ => .running

def ServerCtl.status {τ : Type} (h : Half τ) : ServerCtl τ → Status
  | .bench c => if h.failed c then .err else .running
  | .done _ | .refused => .ok
  | _ => .running

/-- Both parties and what is in flight between them.  `sends` and `receives` count what
the client and the server have posted. -/
structure Parties (m : TwoSided) where
  client : ClientCtl (ClientBench m)
  server : ServerCtl (ServerBench m)
  wire : Wire := {}
  clientFailed : Bool := false
  serverFailed : Bool := false
  sends : ℕ := 0
  receives : ℕ := 0

inductive PartyLabel where
  | client (a : Act)
  | server (a : Act)
  | clientFails
  | serverFails
  deriving DecidableEq

section Parties

variable (p : RunParams) {m : TwoSided}

def Parties.clientStatus (s : Parties m) : Status :=
  if s.clientFailed then .err else s.client.status (benchRun p m).client

def Parties.serverStatus (s : Parties m) : Status :=
  if s.serverFailed then .err else s.server.status (benchRun p m).server

/-- One step of either party. -/
def partiesStep (s : Parties m) : PartyLabel → Option (Parties m)
  | .client a =>
    if s.clientStatus p = .running then
      (s.wire.client a).bind fun w => (clientStep p m s.client a).map fun c =>
        { s with client := c, wire := w, sends := s.sends + a.sends }
    else none
  | .server a =>
    if s.serverStatus p = .running then
      (s.wire.server a).bind fun w => (serverStep p m s.server a).map fun c =>
        { s with server := c, wire := w, receives := s.receives + a.receives }
    else none
  | .clientFails => if s.clientStatus p = .running then some { s with clientFailed := true } else none
  | .serverFails => if s.serverStatus p = .running then some { s with serverFailed := true } else none

variable (m) in
/-- One benchmark between two parties. -/
def parties : System (Parties m) PartyLabel :=
  ⟨{ client := .connect, server := .recvRequest }, partiesStep p⟩

/-- One step of the parties, by who takes it. -/
inductive PartyMove (s : Parties m) : PartyLabel → Parties m → Prop
  | client {a : Act} {w : Wire} {c : ClientCtl (ClientBench m)} (hw : s.wire.client a = some w)
      (hc : clientStep p m s.client a = some c) :
      PartyMove s (.client a) { s with client := c, wire := w, sends := s.sends + a.sends }
  | server {a : Act} {w : Wire} {c : ServerCtl (ServerBench m)} (hw : s.wire.server a = some w)
      (hc : serverStep p m s.server a = some c) :
      PartyMove s (.server a) { s with server := c, wire := w, receives := s.receives + a.receives }
  | clientFails : PartyMove s .clientFails { s with clientFailed := true }
  | serverFails : PartyMove s .serverFails { s with serverFailed := true }

variable {p}

/-- **Every step is one of the moves.** -/
theorem PartyMove.of_step {s t : Parties m} {l : PartyLabel} (h : partiesStep p s l = some t) :
    PartyMove p s l t := by
  cases l with
  | client a =>
    obtain ⟨-, h⟩ := Option.ite_none_right_eq_some.mp h
    obtain ⟨w, hw, h⟩ := Option.bind_eq_some_iff.mp h
    obtain ⟨c, hc, rfl⟩ := Option.map_eq_some_iff.mp h
    exact .client hw hc
  | server a =>
    obtain ⟨-, h⟩ := Option.ite_none_right_eq_some.mp h
    obtain ⟨w, hw, h⟩ := Option.bind_eq_some_iff.mp h
    obtain ⟨c, hc, rfl⟩ := Option.map_eq_some_iff.mp h
    exact .server hw hc
  | clientFails =>
    obtain ⟨-, h⟩ := Option.ite_none_right_eq_some.mp h
    rw [← Option.some.inj h]
    exact .clientFails
  | serverFails =>
    obtain ⟨-, h⟩ := Option.ite_none_right_eq_some.mp h
    rw [← Option.some.inj h]
    exact .serverFails

/-- The parties as two programs over one connection. -/
def Parties.duo (s : Parties m) : Duo (ClientCtl (ClientBench m)) (ServerCtl (ServerBench m)) :=
  ⟨s.client, s.server, s.wire⟩

/-- **The two sessions stay in step**, whoever fails and when. -/
theorem parties_inStep {s : Parties m} (h : (parties p m).Reachable s) :
    s.duo.InStep (clientProgram p m) (serverProgram p m) (ClientCtl.todo p m)
      (ServerCtl.todo p m) := by
  refine duo_inStep (client_keeps p m) (server_keeps p m) (dual_todo p m).linked
    (h.project Parties.duo rfl fun s l t hstep => ?_)
  cases PartyMove.of_step hstep with
  | @client a w c hw hc =>
    exact .inr ⟨.client a, by simp [duo, duoStep, Parties.duo, hw, clientProgram, hc]⟩
  | @server a w c hw hc =>
    exact .inr ⟨.server a, by simp [duo, duoStep, Parties.duo, hw, serverProgram, hc]⟩
  | clientFails => exact .inl rfl
  | serverFails => exact .inl rfl

end Parties

/-! ## A schedule -/

/-- From the request to `bench::run` on both sides. -/
def opening : List PartyLabel :=
  [.client .skip, .client (.write .benchmarkRequest), .server (.read .benchmarkRequest),
    .server .skip, .server (.write .handshakeAck), .client (.read .handshakeAck), .client .skip,
    .client (.write .clientEndpoint), .client .skip, .server (.read .clientEndpoint),
    .server .skip, .server .skip]

/-- One `sync` on both sides, untraced. -/
def rendezvous : List PartyLabel :=
  [.client (.write .barrier), .server (.write .barrier), .client (.read .barrier),
    .server (.read .barrier)]

/-- One message at a time, untraced. -/
def oneMessage : RunParams where
  transport := .rc
  size := 8
  iterations := 1
  txDepth := 1
  rxDepth := 1
  clientTraced := false
  serverTraced := false
  connected := by decide

end RdmaBench
