import RdmaBench.Connection.Parties

/-!
# What a barrier is worth

The bytes of the barriers are all alike, so the third byte that a party reads is the
third that the other wrote only because neither ever writes one that the other does
not read.  With that, counting is enough: a `sync` that has returned has read as many
barriers as it is the how-manieth, and the other side has written those, each on
entering its own (`returned_le_entered`).

What the benchmarks want of it is one fact about each end of the loop.  The sync at the
gate stands after the server's first receives and before the client's first send, and
the last one after both loops.
-/

namespace RdmaBench

open Automaton Session

variable (p : RunParams) (m : TwoSided)

/-! ## Where a party stands -/

/-- Where the client stands among its syncs. -/
def ClientCtl.phase : ClientCtl (ClientBench m) → Phase
  | .bench c | .done c => (benchRun p m).client.phase c
  | _ => .between 0

/-- Where the server stands among its syncs. -/
def ServerCtl.phase : ServerCtl (ServerBench m) → Phase
  | .bench c | .done c => (benchRun p m).server.phase c
  | _ => .between 0

/-- Whether the client's `bench::run` has returned `Ok`. -/
def ClientCtl.ranOk : ClientCtl (ClientBench m) → Bool
  | .bench c => (benchRun p m).client.finished c
  | .done _ => true
  | _ => false

def ServerCtl.ranOk : ServerCtl (ServerBench m) → Bool
  | .bench c => (benchRun p m).server.finished c
  | .done _ => true
  | _ => false

/-- Whether the client has left its post-and-poll loop. -/
def ClientCtl.leftLoop : ClientCtl (ClientBench m) → Bool
  | .bench c | .done c => (benchRun p m).client.leftLoop c
  | _ => false

def ServerCtl.leftLoop : ServerCtl (ServerBench m) → Bool
  | .bench c | .done c => (benchRun p m).server.leftLoop c
  | _ => false

/-- How many receives the server has posted at least, where it stands. -/
def ServerCtl.posted : ServerCtl (ServerBench m) → ℕ
  | .bench c | .done c => (benchRun p m).posted c
  | _ => 0

/-- A benchmark runs only with parameters it takes, and a party that has returned `Ok`
has been through it. -/
def ClientCtl.Sound : ClientCtl (ClientBench m) → Prop
  | .bench _ => (benchRun p m).admitted = true
  | .done c => (benchRun p m).admitted = true ∧ (benchRun p m).client.finished c = true
  | _ => True

def ServerCtl.Sound : ServerCtl (ServerBench m) → Prop
  | .bench _ => (benchRun p m).admitted = true
  | .done c => (benchRun p m).admitted = true ∧ (benchRun p m).server.finished c = true
  | .sendUnsupported | .refused => False
  | _ => True

/-! ## Counting barriers -/

/-- A sync that has returned on the client's side has been read there. -/
theorem ClientCtl.reads_add_returned_le (c : ClientCtl (ClientBench m)) :
    (reads (c.todo p m)).count .barrier + (c.phase p m).returned ≤
      (benchRun p m).client.syncs := by
  have htail : Item.barrier ∉ reads [.write .resultRow] := List.not_mem_nil
  have hrest : (reads (clientRest p m)).count .barrier ≤ (benchRun p m).client.syncs := by
    unfold clientRest
    split
    · exact Nat.le_of_add_right_le ((benchRun p m).client.reads_add_returned_le htail _)
    · exact Nat.zero_le _
  cases c with
  | connect | sendRequest | recvAck | handshake | sendEndpoint | start => exact hrest
  | bench c => exact (benchRun p m).client.reads_add_returned_le htail c
  | done c =>
    rw [ClientCtl.todo, reads_nil, List.count_nil, Nat.zero_add]
    exact Nat.le_trans (Phase.returned_le_entered _) ((benchRun p m).client.entered_le c)

/-- A sync that has not been entered on the client's side is still to be written there,
if the parameters are taken. -/
theorem ClientCtl.le_writes_add_entered (hadmitted : (benchRun p m).admitted = true)
    {c : ClientCtl (ClientBench m)} (hc : c.Sound p m) :
    (benchRun p m).client.syncs ≤
      (writes (c.todo p m)).count .barrier + (c.phase p m).entered := by
  have hrest : (benchRun p m).client.syncs ≤ (writes (clientRest p m)).count .barrier := by
    rw [clientRest, if_pos hadmitted]
    exact (benchRun p m).client.le_writes_init
  cases c with
  | connect | sendRequest | recvAck | handshake | sendEndpoint | start => exact hrest
  | bench c => exact (benchRun p m).client.le_writes_add_entered c
  | done c =>
    have hphase : (ClientCtl.phase p m (.done c)).entered = (benchRun p m).client.syncs :=
      congrArg Phase.entered ((benchRun p m).client.of_finished c hc.2).1
    rw [hphase]
    exact Nat.le_add_left _ _

/-- A sync that has returned on the server's side has been read there. -/
theorem ServerCtl.reads_add_returned_le (c : ServerCtl (ServerBench m)) :
    (reads (c.todo p m)).count .barrier + (c.phase p m).returned ≤
      (benchRun p m).server.syncs := by
  have htail : Item.barrier ∉ reads [.read .resultRow] := by decide
  have hrest : (reads (serverRest p m)).count .barrier ≤ (benchRun p m).server.syncs := by
    unfold serverRest
    split
    · exact Nat.le_of_add_right_le ((benchRun p m).server.reads_add_returned_le htail _)
    · exact Nat.zero_le _
  cases c with
  | recvRequest | build | sendAck | recvEndpoint | handshake | start => exact hrest
  | sendUnsupported | refused => exact Nat.zero_le _
  | bench c => exact (benchRun p m).server.reads_add_returned_le htail c
  | done c =>
    rw [ServerCtl.todo, reads_nil, List.count_nil, Nat.zero_add]
    exact Nat.le_trans (Phase.returned_le_entered _) ((benchRun p m).server.entered_le c)

/-- A sync that has not been entered on the server's side is still to be written there,
if the parameters are taken. -/
theorem ServerCtl.le_writes_add_entered (hadmitted : (benchRun p m).admitted = true)
    {c : ServerCtl (ServerBench m)} (hc : c.Sound p m) :
    (benchRun p m).server.syncs ≤
      (writes (c.todo p m)).count .barrier + (c.phase p m).entered := by
  have hrest : (benchRun p m).server.syncs ≤ (writes (serverRest p m)).count .barrier := by
    rw [serverRest, if_pos hadmitted]
    exact (benchRun p m).server.le_writes_init
  cases c with
  | recvRequest | build | sendAck | recvEndpoint | handshake | start => exact hrest
  | sendUnsupported | refused => exact hc.elim
  | bench c => exact (benchRun p m).server.le_writes_add_entered c
  | done c =>
    have hphase : (ServerCtl.phase p m (.done c)).entered = (benchRun p m).server.syncs :=
      congrArg Phase.entered ((benchRun p m).server.of_finished c hc.2).1
    rw [hphase]
    exact Nat.le_add_left _ _

/-! ## One step -/

/-- What a step of the client keeps. -/
structure ClientCtl.Kept (c t : ClientCtl (ClientBench m)) (a : Act) : Prop where
  sound : c.Sound p m → t.Sound p m
  returned_le : (c.phase p m).returned ≤ (t.phase p m).returned
  gated : 0 < a.sends → (benchRun p m).gate ≤ (c.phase p m).returned

/-- What a step of the server keeps. -/
structure ServerCtl.Kept (c t : ServerCtl (ServerBench m)) (a : Act) : Prop where
  sound : c.Sound p m → t.Sound p m
  posted_le : t.posted p m ≤ c.posted p m + a.receives

theorem Act.eq_postSend {a : Act} (h : 0 < a.sends) : ∃ slot id, a = .postSend slot id := by
  cases a with
  | postSend slot id => exact ⟨slot, id, rfl⟩
  | _ => exact absurd h (Nat.lt_irrefl 0)

theorem ClientCtl.Kept.of_move {c t : ClientCtl (ClientBench m)} {a : Act}
    (h : ClientMove p m c a t) : ClientCtl.Kept p m c t a := by
  cases h with
  | connect | sendRequest | recvAck | handshake | sendEndpoint =>
    exact ⟨id, Nat.le_refl _, fun hpos => absurd hpos (Nat.lt_irrefl 0)⟩
  | start hadmitted =>
    exact ⟨fun _ => hadmitted, Nat.zero_le _, fun hpos => absurd hpos (Nat.lt_irrefl 0)⟩
  | bench hd =>
    refine ⟨id, (benchRun p m).client.returned_le hd, fun hpos => ?_⟩
    obtain ⟨slot, id, rfl⟩ := Act.eq_postSend hpos
    exact (benchRun p m).send_after _ _ _ _ hd
  | finish hfinished =>
    exact ⟨fun hs => ⟨hs, hfinished⟩, Nat.le_refl _, fun hpos => absurd hpos (Nat.lt_irrefl 0)⟩

theorem ServerCtl.Kept.of_move {c t : ServerCtl (ServerBench m)} {a : Act}
    (h : ServerMove p m c a t) : ServerCtl.Kept p m c t a := by
  cases h with
  | recvRequest | build | sendAck | recvEndpoint | handshake =>
    exact ⟨fun _ => trivial, Nat.zero_le _⟩
  | sendUnsupported => exact ⟨id, Nat.zero_le _⟩
  | start hadmitted =>
    refine ⟨fun _ => hadmitted, ?_⟩
    rw [ServerCtl.posted, (benchRun p m).posted_init]
    exact Nat.zero_le _
  | bench hd => exact ⟨id, (benchRun p m).posted_step _ _ _ hd⟩
  | finish hfinished => exact ⟨fun hs => ⟨hs, hfinished⟩, Nat.le_refl _⟩

/-! ## A whole run -/

/-- What holds of the two parties in every state reached. -/
structure Parties.Kept (s : Parties m) : Prop where
  client : s.client.Sound p m
  server : s.server.Sound p m
  gated : 0 < s.sends → (benchRun p m).gate ≤ (s.client.phase p m).returned
  posted_le : s.server.posted p m ≤ s.receives

variable {p m}

theorem parties_kept {s : Parties m} (h : (parties p m).Reachable s) : s.Kept p m := by
  refine h.invariant ⟨trivial, trivial, fun hpos => absurd hpos (Nat.lt_irrefl 0), Nat.le_refl _⟩
    fun s l t hs hstep => ?_
  cases PartyMove.of_step hstep with
  | @client a w c hw hc =>
    have hk := ClientCtl.Kept.of_move p m (.of_step hc)
    refine ⟨hk.sound hs.client, hs.server, fun hpos => ?_, hs.posted_le⟩
    refine Nat.le_trans ?_ hk.returned_le
    rcases Nat.eq_zero_or_pos a.sends with hzero | hsend
    · rw [hzero] at hpos
      exact hs.gated hpos
    · exact hk.gated hsend
  | @server a w c hw hc =>
    have hk := ServerCtl.Kept.of_move p m (.of_step hc)
    refine ⟨hs.client, hk.sound hs.server, hs.gated, ?_⟩
    exact Nat.le_trans hk.posted_le (Nat.add_le_add_right hs.posted_le _)
  | clientFails => exact ⟨hs.client, hs.server, hs.gated, hs.posted_le⟩
  | serverFails => exact ⟨hs.client, hs.server, hs.gated, hs.posted_le⟩

/-! ## The syncs of both sides -/

/-- Where the parameters are turned down, there are no syncs. -/
theorem ClientCtl.returned_of_not_admitted (hadmitted : ¬(benchRun p m).admitted = true)
    {c : ClientCtl (ClientBench m)} (hc : c.Sound p m) : (c.phase p m).returned = 0 := by
  cases c with
  | bench c => exact absurd hc hadmitted
  | done c => exact absurd hc.1 hadmitted
  | _ => rfl

theorem ServerCtl.returned_of_not_admitted (hadmitted : ¬(benchRun p m).admitted = true)
    {c : ServerCtl (ServerBench m)} (hc : c.Sound p m) : (c.phase p m).returned = 0 := by
  cases c with
  | bench c => exact absurd hc hadmitted
  | done c => exact absurd hc.1 hadmitted
  | _ => rfl

section Syncs

variable {s : Parties m} (h : (parties p m).Reachable s)
include h

/-- **The client's sync returns after the server's has been entered.** -/
theorem client_returned_le : (s.client.phase p m).returned ≤ (s.server.phase p m).entered := by
  have hk := parties_kept h
  by_cases hadmitted : (benchRun p m).admitted = true
  · have hwrites := ServerCtl.le_writes_add_entered p m hadmitted hk.server
    rw [(benchRun p m).syncs_eq] at hwrites
    exact returned_le_entered (parties_inStep h).linked
      (ClientCtl.reads_add_returned_le p m s.client) hwrites
  · rw [ClientCtl.returned_of_not_admitted hadmitted hk.client]
    exact Nat.zero_le _

/-- **The server's sync returns after the client's has been entered.** -/
theorem server_returned_le : (s.server.phase p m).returned ≤ (s.client.phase p m).entered := by
  have hk := parties_kept h
  by_cases hadmitted : (benchRun p m).admitted = true
  · have hreads := ServerCtl.reads_add_returned_le p m s.server
    rw [(benchRun p m).syncs_eq] at hreads
    exact returned_le_entered (parties_inStep h).linked.symm hreads
      (ClientCtl.le_writes_add_entered p m hadmitted hk.client)
  · rw [ServerCtl.returned_of_not_admitted hadmitted hk.server]
    exact Nat.zero_le _

end Syncs

/-! ## What follows for the benchmarks -/

theorem Bench.syncs_pos {σ τ : Type} (b : Bench σ τ) : 0 < b.client.syncs :=
  Nat.lt_of_lt_of_le b.gate_mem.1 b.gate_mem.2

/-- A server that has entered its sync at the gate has posted what it posts ahead. -/
theorem ServerCtl.ahead_le_posted {c : ServerCtl (ServerBench m)}
    (h : (benchRun p m).gate ≤ (c.phase p m).entered) :
    (benchRun p m).ahead ≤ c.posted p m := by
  cases c with
  | bench c => exact (benchRun p m).ahead_le_posted c h
  | done c => exact (benchRun p m).ahead_le_posted c h
  | _ => exact absurd (Nat.lt_of_lt_of_le (benchRun p m).gate_mem.1 h) (Nat.lt_irrefl 0)

theorem ClientCtl.returned_of_ranOk {c : ClientCtl (ClientBench m)} (hc : c.Sound p m)
    (h : c.ranOk p m = true) : (c.phase p m).returned = (benchRun p m).client.syncs := by
  cases c with
  | bench c => exact (benchRun p m).client.returned_of_finished h
  | done c => exact (benchRun p m).client.returned_of_finished hc.2
  | _ => exact absurd h Bool.noConfusion

theorem ServerCtl.returned_of_ranOk {c : ServerCtl (ServerBench m)} (hc : c.Sound p m)
    (h : c.ranOk p m = true) : (c.phase p m).returned = (benchRun p m).server.syncs := by
  cases c with
  | bench c => exact (benchRun p m).server.returned_of_finished h
  | done c => exact (benchRun p m).server.returned_of_finished hc.2
  | _ => exact absurd h Bool.noConfusion

theorem ClientCtl.leftLoop_of_entered {c : ClientCtl (ClientBench m)}
    (h : (benchRun p m).client.syncs ≤ (c.phase p m).entered) : c.leftLoop p m = true := by
  cases c with
  | bench c | done c =>
    exact (benchRun p m).client.leftLoop_of_entered c
      (Nat.le_antisymm ((benchRun p m).client.entered_le c) h)
  | _ => exact absurd (Nat.lt_of_lt_of_le (benchRun p m).syncs_pos h) (Nat.lt_irrefl 0)

theorem ServerCtl.leftLoop_of_entered {c : ServerCtl (ServerBench m)}
    (h : (benchRun p m).server.syncs ≤ (c.phase p m).entered) : c.leftLoop p m = true := by
  cases c with
  | bench c | done c =>
    exact (benchRun p m).server.leftLoop_of_entered c
      (Nat.le_antisymm ((benchRun p m).server.entered_le c) h)
  | _ =>
    rw [(benchRun p m).syncs_eq] at h
    exact absurd (Nat.lt_of_lt_of_le (benchRun p m).syncs_pos h) (Nat.lt_irrefl 0)

/-- The receives the server posts before anything is sent. -/
def initialReceives (p : RunParams) : TwoSided → ℕ
  | .bandwidth | .accuracy => min p.rxDepth p.iterations
  | .latency => 1

theorem initialReceives_le_ahead (p : RunParams) (m : TwoSided) :
    initialReceives p m ≤ (benchRun p m).ahead := by
  cases m with
  | bandwidth | latency => exact Nat.le_refl _
  | accuracy =>
    show min p.rxDepth p.iterations ≤ min (max p.rxDepth 1) p.iterations
    omega

/-- **A `sync` returns on one side only after it has been entered on the other**, the
`k`-th against the `k`-th, in every mode, for all parameters and in every interleaving.
So the client has sent nothing before the server has posted its initial receives, and
when `bench::run` has returned `Ok` on one side, the other is out of its loop. -/
theorem barriers_separate (p : RunParams) (m : TwoSided) {s : Parties m}
    (h : (parties p m).Reachable s) :
    (∀ k, k ≤ (s.client.phase p m).returned → k ≤ (s.server.phase p m).entered) ∧
    (∀ k, k ≤ (s.server.phase p m).returned → k ≤ (s.client.phase p m).entered) ∧
    (0 < s.sends → initialReceives p m ≤ s.receives) ∧
    (s.client.ranOk p m = true → s.server.leftLoop p m = true) ∧
    (s.server.ranOk p m = true → s.client.leftLoop p m = true) := by
  have hclient := client_returned_le h
  have hserver := server_returned_le h
  have hk := parties_kept h
  refine ⟨fun k hle => Nat.le_trans hle hclient, fun k hle => Nat.le_trans hle hserver,
    fun hpos => ?_, fun hok => ?_, fun hok => ?_⟩
  · have hposted := ServerCtl.ahead_le_posted (Nat.le_trans (hk.gated hpos) hclient)
    exact Nat.le_trans (initialReceives_le_ahead p m) (Nat.le_trans hposted hk.posted_le)
  · rw [ClientCtl.returned_of_ranOk hk.client hok, ← (benchRun p m).syncs_eq] at hclient
    exact ServerCtl.leftLoop_of_entered hclient
  · rw [ServerCtl.returned_of_ranOk hk.server hok, (benchRun p m).syncs_eq] at hserver
    exact ClientCtl.leftLoop_of_entered hserver

/-- One message in bandwidth mode, to the end on the client's side. -/
def oneSend : List PartyLabel :=
  opening ++ rendezvous ++ [.client .skip, .server .skip] ++ rendezvous ++
    [.server (.postReceive 0 0)] ++ rendezvous ++
    [.client (.clock 0), .client (.postSend 0 0), .client (.poll [⟨0, 8, true⟩]),
      .client (.clock 0), .server (.clock 0), .server (.poll [⟨0, 8, true⟩]), .server (.clock 0),
      .server .skip] ++ rendezvous

/-- There the client has sent, and its `bench::run` has returned. -/
theorem barriers_separate_oneSend :
    ∃ s, (parties oneMessage .bandwidth).Reachable s ∧ 0 < s.sends ∧
      initialReceives oneMessage .bandwidth = 1 ∧ 1 ≤ s.receives ∧
      s.client.ranOk oneMessage .bandwidth = true ∧
      s.server.leftLoop oneMessage .bandwidth = true := by
  obtain ⟨s, hs, hat⟩ := System.Reachable.exists_of_run (S := parties oneMessage .bandwidth)
    (p := fun s => decide (0 < s.sends ∧ s.client.ranOk oneMessage .bandwidth = true)) oneSend
    (by decide)
  obtain ⟨hpos, hok⟩ := of_decide_eq_true hat
  obtain ⟨-, -, hposted, hleft, -⟩ := barriers_separate oneMessage .bandwidth hs
  exact ⟨s, hs, hpos, rfl, hposted hpos, hok, hleft hok⟩

end RdmaBench
