import RdmaBench.Connection.Waiting
import RdmaBench.Latency.Ends

/-!
# The runs that end

A run can go on as long as a party has not returned.  That it does not go on for ever
is a matter of time: `timed` is a run over bytes with a clock beside each party, of
whose polls `parts` take a tick at least.

* `runsDown_server`, `runsDown_client` --- what a benchmark runs down, the party that
  runs it does.
* `contacts_server`, `contacts_client` --- so its contacts in a run are bounded.
* `exists_timed` --- the clocks are in nobody's way.
* `runs_end` --- the contacts of the server are bounded in every mode, those of the
  client in latency mode, and the arrivals by the bytes that were written.  A run that
  cannot go on is one that both have left.

The loop of a client in the other two modes has no timeout, so a run that does not end
is one in which it polls for ever (`Bandwidth.send_polls_on`).
-/

namespace RdmaBench

open Automaton

/-! ## From the benchmark to the party -/

section Programs

variable {p : RunParams} {m : TwoSided} {parts bound : ℕ}

/-- The contacts of the server that are still to come at most, given those of its half. -/
def ServerCtl.ahead {τ : Type} (μ : τ → ℕ → ℕ) (bound : ℕ) : ServerCtl τ → ℕ → ℕ
  | .recvRequest, _ => bound + 7
  | .build, _ => bound + 6
  | .sendAck, _ => bound + 5
  | .recvEndpoint, _ => bound + 4
  | .handshake, _ => bound + 3
  | .start, _ => bound + 2
  | .bench c, t => μ c t + 1
  | .sendUnsupported, _ => 1
  | .refused, _ | .done _, _ => 0

/-- The contacts of the client that are still to come at most, given those of its half. -/
def ClientCtl.ahead {σ : Type} (μ : σ → ℕ → ℕ) (bound : ℕ) : ClientCtl σ → ℕ → ℕ
  | .connect, _ => bound + 7
  | .sendRequest, _ => bound + 6
  | .recvAck, _ => bound + 5
  | .handshake, _ => bound + 4
  | .sendEndpoint, _ => bound + 3
  | .start, _ => bound + 2
  | .bench c, t => μ c t + 1
  | .done _, _ => 0

theorem runsDown_server (h : (benchRun p m).server.program.RunsDown polling parts bound) :
    (serverProgram p m).RunsDown polling parts (bound + 7) := by
  obtain ⟨μ, hμ, hinit⟩ := h
  refine ⟨ServerCtl.ahead μ bound, fun c d t t' a hstep ht => ?_, fun _ => Nat.le_refl _⟩
  cases ServerMove.of_step hstep with
  | recvRequest | sendUnsupported | build | sendAck | recvEndpoint | handshake =>
    exact Nat.lt_succ_self _
  | start hadmitted => exact Nat.succ_lt_succ (Nat.lt_succ_of_le (hinit t'))
  | bench hd => exact Nat.succ_lt_succ (hμ _ _ _ _ _ hd ht)
  | finish hfinished => exact Nat.succ_pos _

theorem runsDown_client (h : (benchRun p m).client.program.RunsDown polling parts bound) :
    (clientProgram p m).RunsDown polling parts (bound + 7) := by
  obtain ⟨μ, hμ, hinit⟩ := h
  refine ⟨ClientCtl.ahead μ bound, fun c d t t' a hstep ht => ?_, fun _ => Nat.le_refl _⟩
  cases ClientMove.of_step hstep with
  | connect | sendRequest | recvAck | handshake | sendEndpoint => exact Nat.lt_succ_self _
  | start hadmitted => exact Nat.succ_lt_succ (Nat.lt_succ_of_le (hinit t'))
  | bench hd => exact Nat.succ_lt_succ (hμ _ _ _ _ _ hd ht)
  | finish hfinished => exact Nat.succ_pos _

/-- The contacts of the server's half at most. -/
def RunParams.serverContacts (p : RunParams) (parts : ℕ) : TwoSided → ℕ
  | .bandwidth =>
    let q : Bandwidth.Setup := ⟨p.serverTraced, p.iterations, p.txDepth, p.rxDepth⟩
    q.perMessage parts * p.iterations + 2 * (parts * idleTimeout) + q.recvWindow + 21
  | .latency => Latency.perEcho parts * p.iterations + 18
  | .accuracy =>
    let q := p.accuracySetup p.serverTraced .server
    q.perMessage parts * p.iterations + 2 * (parts * idleTimeout) + q.window + 13

/-- The half of the server has a timeout in every mode. -/
theorem runsDown_bench (p : RunParams) (m : TwoSided) (parts : ℕ) :
    (benchRun p m).server.program.RunsDown polling parts (p.serverContacts parts m) := by
  cases m with
  | bandwidth => exact Bandwidth.receive_runsDown _ parts
  | latency => exact Latency.pong_runsDown _ parts
  | accuracy => exact Accuracy.receive_runsDown _ parts

/-! ### The clock -/

theorem Act.eq_of_reads {a : Act} {now : ℕ} (h : polling.reads a = some now) :
    a = .clock now := by
  cases a with
  | clock n => exact congrArg Act.clock (Option.some.inj h)
  | write _ | read _ | postSend _ _ | postReceive _ _ | poll _ | fill _ _ | inspect _ _ | skip =>
    exact absurd h (by simp [polling])

theorem bench_takesReadings (p : RunParams) (m : TwoSided) :
    TakesReadings (benchRun p m).client.program ∧ TakesReadings (benchRun p m).server.program := by
  cases m with
  | bandwidth => exact ⟨Bandwidth.send_takesReadings _, Bandwidth.recv_takesReadings _⟩
  | latency => exact ⟨Latency.ping_takesReadings _, Latency.pong_takesReadings _⟩
  | accuracy => exact ⟨Accuracy.send_takesReadings _, Accuracy.recv_takesReadings _⟩

theorem client_takesReadings (p : RunParams) (m : TwoSided) :
    TakesReadings (clientProgram p m) := by
  intro c d now h now'
  change clientStep p m c _ = _ at h
  show ∃ d', clientStep p m c _ = _
  cases c with
  | bench c =>
    rw [clientStep] at h ⊢
    split at h
    · exact absurd (expect_eq_some.mp h).1 (by simp)
    · next hfinished =>
      obtain ⟨d, hd, -⟩ := Option.map_eq_some_iff.mp h
      obtain ⟨d', hd'⟩ := (bench_takesReadings p m).1 hd now'
      exact ⟨_, (if_neg hfinished).trans (Option.map_eq_some_iff.mpr ⟨d', hd', rfl⟩)⟩
  | connect | sendRequest | recvAck | handshake | sendEndpoint | start | done c =>
    simp [clientStep, expect] at h

theorem server_takesReadings (p : RunParams) (m : TwoSided) :
    TakesReadings (serverProgram p m) := by
  intro c d now h now'
  change serverStep p m c _ = _ at h
  show ∃ d', serverStep p m c _ = _
  cases c with
  | bench c =>
    rw [serverStep] at h ⊢
    split at h
    · exact absurd (expect_eq_some.mp h).1 (by simp)
    · next hfinished =>
      obtain ⟨d, hd, -⟩ := Option.map_eq_some_iff.mp h
      obtain ⟨d', hd'⟩ := (bench_takesReadings p m).2 hd now'
      exact ⟨_, (if_neg hfinished).trans (Option.map_eq_some_iff.mpr ⟨d', hd', rfl⟩)⟩
  | recvRequest | sendUnsupported | refused | build | sendAck | recvEndpoint | handshake | start
  | done c => simp [serverStep, expect] at h

end Programs

namespace Framing

variable {M : Message → Type} {E : Type} {σ τ : Type}

/-! ## One party -/

/-- The contact that is not a message. -/
def PartyAct.plain : PartyAct M → Option Act
  | .act a => some a
  | _ => none

def PartyAct.arrival : PartyAct M → Bool
  | .arrive _ => true
  | _ => false

/-- The contacts of a party that are still to come at most, with the failure. -/
def Party.ahead (ended : σ → Bool) (μ : σ → ℕ → ℕ) (s : Party σ M) (t : ℕ) : ℕ :=
  if s.closed ended then 0 else μ s.ctl t + 1

section Party

variable {J : Json Message M E} {P : Program σ} {ended : σ → Bool} {unread : List UInt8}
  {closed : Bool} {s s' : Party σ M} {act : PartyAct M} {parts t t' : ℕ} {μ : σ → ℕ → ℕ}

theorem Party.ahead_le (ended : σ → Bool) (μ : σ → ℕ → ℕ) (s : Party σ M) (t : ℕ) :
    s.ahead ended μ t ≤ μ s.ctl t + 1 := by
  rw [Party.ahead]
  split
  · exact Nat.zero_le _
  · exact Nat.le_refl _

theorem Party.ahead_of_failed (h : s.failed = true) : s.ahead ended μ t = 0 :=
  if_pos (by simp [Party.closed, h])

/-- **Every contact of a party lowers what is ahead**, if every contact of its program
does; and an arrival leaves it alone. -/
theorem Party.ahead_lt (hμ : ∀ c d t t' a, P.step c a = some d →
      (polling.clock parts).step t a = some t' → μ d t' < μ c t)
    (h : s.step J P ended unread closed act = some s')
    (ht : ((polling.along PartyAct.plain).clock parts).step t act = some t') :
    (if !act.arrival then 1 else 0) + s'.ahead ended μ t' ≤ s.ahead ended μ t := by
  -- a contact on the connection takes no time
  have hquick : act.plain = none → t' = t := by
    intro hplain
    rw [Watch.step_along_none hplain] at ht
    exact (Option.some.inj ht).symm
  -- a party that was open is closed now, or where its program has come to
  have hless : s.closed ended = false → s'.failed = true ∨ μ s'.ctl t' < μ s.ctl t →
      1 + s'.ahead ended μ t' ≤ s.ahead ended μ t := by
    intro hopen hs'
    have heq : s.ahead ended μ t = μ s.ctl t + 1 := if_neg (Bool.eq_false_iff.mp hopen)
    rcases hs' with hfailed | hlt
    · rw [Party.ahead_of_failed hfailed, heq]
      omega
    · have hle := s'.ahead_le ended μ t'
      omega
  cases act with
  | arrive n =>
    obtain ⟨-, h⟩ := Option.ite_none_right_eq_some.mp h
    rw [← Option.some.inj h, hquick rfl]
    exact Nat.le_of_eq (Nat.zero_add _)
  | send taken item =>
    obtain rfl := hquick rfl
    obtain ⟨hopen, h⟩ := Option.ite_none_left_eq_some.mp h
    obtain ⟨c, hc, rfl⟩ := Option.map_eq_some_iff.mp h
    refine hless (Bool.eq_false_iff.mpr hopen) ?_
    rcases s.conn.emit J taken item with ⟨_ | _, conn⟩
    · exact .inl rfl
    · exact .inr (hμ _ _ _ _ _ hc rfl)
  | receive want =>
    obtain rfl := hquick rfl
    obtain ⟨hopen, h⟩ := Option.ite_none_left_eq_some.mp h
    obtain ⟨-, h⟩ := Option.ite_none_right_eq_some.mp h
    obtain ⟨c, hc, rfl⟩ := Option.map_eq_some_iff.mp h
    refine hless (Bool.eq_false_iff.mpr hopen) ?_
    rcases s.conn.take J want with ⟨_ | _, conn⟩
    · exact .inl rfl
    · exact .inr (hμ _ _ _ _ _ hc rfl)
  | act a =>
    obtain ⟨hopen, h⟩ := Option.ite_none_left_eq_some.mp h
    obtain ⟨-, h⟩ := Option.ite_none_right_eq_some.mp h
    obtain ⟨c, hc, rfl⟩ := Option.map_eq_some_iff.mp h
    have hclock : (polling.clock parts).step t a = some t' := (Watch.step_along rfl).symm.trans ht
    exact hless (Bool.eq_false_iff.mpr hopen) (.inr (hμ _ _ _ _ _ hc hclock))
  | fail =>
    obtain ⟨hopen, h⟩ := Option.ite_none_left_eq_some.mp h
    exact hless (Bool.eq_false_iff.mpr hopen) (.inl (by rw [← Option.some.inj h]))

/-- An arrival brings a byte at least. -/
theorem Party.arrived_of_step (h : s.step J P ended unread closed act = some s') :
    (if act.arrival then 1 else 0) + s.arrived ≤ s'.arrived := by
  cases act with
  | arrive n =>
    obtain ⟨hn, h⟩ := Option.ite_none_right_eq_some.mp h
    rw [← Option.some.inj h]
    show 1 + s.arrived ≤ s.arrived + n
    omega
  | send taken item =>
    obtain ⟨-, h⟩ := Option.ite_none_left_eq_some.mp h
    obtain ⟨c, -, rfl⟩ := Option.map_eq_some_iff.mp h
    rcases s.conn.emit J taken item with ⟨_ | _, conn⟩ <;> exact Nat.le_of_eq (Nat.zero_add _)
  | receive want =>
    obtain ⟨-, h⟩ := Option.ite_none_left_eq_some.mp h
    obtain ⟨-, h⟩ := Option.ite_none_right_eq_some.mp h
    obtain ⟨c, -, rfl⟩ := Option.map_eq_some_iff.mp h
    rcases s.conn.take J want with ⟨_ | _, conn⟩ <;> exact Nat.le_of_eq (Nat.zero_add _)
  | act a =>
    obtain ⟨-, h⟩ := Option.ite_none_left_eq_some.mp h
    obtain ⟨-, h⟩ := Option.ite_none_right_eq_some.mp h
    obtain ⟨c, -, rfl⟩ := Option.map_eq_some_iff.mp h
    exact Nat.le_of_eq (Nat.zero_add _)
  | fail =>
    obtain ⟨-, h⟩ := Option.ite_none_left_eq_some.mp h
    rw [← Option.some.inj h]
    exact Nat.le_of_eq (Nat.zero_add _)

/-- A party that has returned does nothing, when all the bytes have come to it. -/
theorem Party.step_closed {act : PartyAct M} {t : Party σ M} (h : s.closed ended = true) :
    s.step J P ended [] closed act ≠ some t := by
  cases act with
  | arrive n =>
    intro hc
    obtain ⟨⟨hpos, hle⟩, -⟩ := Option.ite_none_right_eq_some.mp hc
    exact absurd hle (Nat.not_le_of_lt hpos)
  | send taken item | receive want | act a | fail => simp [Party.step, h]

/-- **The clock is not in a party's way**: where it can read the clock, there is a
reading. -/
theorem Party.exists_timed (hP : TakesReadings P) (hparts : 0 < parts)
    (h : s.step J P ended unread closed act = some s') (t : ℕ) :
    ∃ (other : PartyAct M) (u : Party σ M) (t' : ℕ),
      PartyAct.spontaneous other = PartyAct.spontaneous act ∧
      s.step J P ended unread closed other = some u ∧
      ((polling.along PartyAct.plain).clock parts).step t other = some t' := by
  cases hreads : (polling.along PartyAct.plain).reads act with
  | none =>
    obtain ⟨t', ht'⟩ := Watch.exists_step hreads parts t
    exact ⟨act, s', t', rfl, h, ht'⟩
  | some now =>
    obtain ⟨a, hplain, hnow⟩ := Option.bind_eq_some_iff.mp hreads
    obtain rfl := Act.eq_of_reads hnow
    cases act with
    | act a =>
      obtain rfl := Option.some.inj hplain
      obtain ⟨hopen, h⟩ := Option.ite_none_left_eq_some.mp h
      obtain ⟨hsession, h⟩ := Option.ite_none_right_eq_some.mp h
      obtain ⟨c, hc, -⟩ := Option.map_eq_some_iff.mp h
      obtain ⟨now', hclock⟩ :=
        Watch.exists_reading (W := polling.along (PartyAct.plain (M := M))) hparts t
      obtain ⟨d, hd⟩ := hP hc now'
      obtain ⟨t', ht'⟩ := hclock (.act (.clock now')) rfl
      refine ⟨.act (.clock now'), { s with ctl := d }, t', rfl, ?_, ht'⟩
      exact (if_neg hopen).trans ((if_pos rfl).trans (Option.map_eq_some_iff.mpr ⟨d, hd, rfl⟩))
    | arrive n | send taken item | receive want | fail => exact absurd hplain (by simp [PartyAct.plain])

end Party

/-! ## Both parties -/

/-- The contact of the client that is not a message. -/
def TalkLabel.clientAct : TalkLabel M → Option Act
  | .client act => act.plain
  | .server _ => none

def TalkLabel.serverAct : TalkLabel M → Option Act
  | .client _ => none
  | .server act => act.plain

def TalkLabel.byClient : TalkLabel M → Bool
  | .client act => !act.arrival
  | .server _ => false

def TalkLabel.byServer : TalkLabel M → Bool
  | .client _ => false
  | .server act => !act.arrival

def TalkLabel.arrival : TalkLabel M → Bool
  | .client act | .server act => act.arrival

/-- A benchmark over bytes with a clock beside each party. -/
def timed (J : Json Message M E) (p : RunParams) (m : TwoSided) (parts : ℕ) :
    System ((Talk (ClientCtl (ClientBench m)) (ServerCtl (ServerBench m)) M × ℕ) × ℕ)
      (TalkLabel M) :=
  ((onBytes J p m).beside ((polling.along TalkLabel.clientAct).clock parts)).beside
    ((polling.along TalkLabel.serverAct).clock parts)

theorem length_eq_countP (ls : List (TalkLabel M)) :
    ls.length = ls.countP TalkLabel.byClient + ls.countP TalkLabel.byServer +
      ls.countP TalkLabel.arrival := by
  induction ls with
  | nil => rfl
  | cons l ls ih =>
    rw [List.length_cons, List.countP_cons, List.countP_cons, List.countP_cons, ih]
    cases l with
    | client act | server act =>
      cases hact : act.arrival <;>
        simp only [TalkLabel.byClient, TalkLabel.byServer, TalkLabel.arrival, hact, Bool.not_true,
          Bool.not_false, Bool.false_eq_true, if_true, if_false] <;> omega

section Both

variable {J : Json Message M E} {p : RunParams} {m : TwoSided} {parts bound : ℕ}
  {s t : (Talk (ClientCtl (ClientBench m)) (ServerCtl (ServerBench m)) M × ℕ) × ℕ}
  {l : TalkLabel M} {ls : List (TalkLabel M)}

/-- A step of `timed`, and what it is to either clock. -/
theorem timed_step (h : (timed J p m parts).step s l = some t) :
    (onBytes J p m).step s.1.1 l = some t.1.1 ∧
    ((polling.along TalkLabel.clientAct).clock parts).step s.1.2 l = some t.1.2 ∧
    ((polling.along TalkLabel.serverAct).clock parts).step s.2 l = some t.2 := by
  obtain ⟨hinner, hserver⟩ := System.of_beside h
  obtain ⟨hstep, hclient⟩ := System.of_beside hinner
  exact ⟨hstep, hclient, hserver⟩

/-- **The contacts of a server that runs down are bounded.** -/
theorem contacts_server (hserver : (serverProgram p m).RunsDown polling parts bound)
    (h : (timed J p m parts).run (timed J p m parts).init ls = some s) :
    ls.countP TalkLabel.byServer ≤ bound + 1 := by
  obtain ⟨μ, hμ, hinit⟩ := hserver
  let left : (Talk (ClientCtl (ClientBench m)) (ServerCtl (ServerBench m)) M × ℕ) × ℕ → ℕ :=
    fun s => s.1.1.server.ahead (fun c => c.status (benchRun p m).server ≠ .running) μ s.2
  have hleft : left (timed J p m parts).init ≤ bound + 1 :=
    Nat.le_trans (Party.ahead_le _ _ _ _) (Nat.succ_le_succ (hinit 0))
  have hcount := System.countP_add_le_of_run TalkLabel.byServer left (fun _ => 0)
    (fun s l t hstep => ?_) h
  · omega
  obtain ⟨hstep, -, hclock⟩ := timed_step hstep
  cases l with
  | client act =>
    obtain ⟨c, -, htalk⟩ := Option.map_eq_some_iff.mp hstep
    rw [Watch.step_along_none (f := TalkLabel.serverAct) rfl] at hclock
    have hsame : left t = left s := by
      show Party.ahead _ μ t.1.1.server t.2 = _
      rw [← htalk, ← Option.some.inj hclock]
    exact Nat.le_of_eq ((Nat.zero_add _).trans hsame)
  | server act =>
    obtain ⟨c, hc, htalk⟩ := Option.map_eq_some_iff.mp hstep
    have hless := Party.ahead_lt hμ hc hclock
    have hnext : left t = c.ahead (fun c => c.status (benchRun p m).server ≠ .running) μ t.2 := by
      show Party.ahead _ μ t.1.1.server t.2 = _
      rw [← htalk]
    rw [hnext]
    exact hless

/-- **The contacts of a client that runs down are bounded.** -/
theorem contacts_client (hclient : (clientProgram p m).RunsDown polling parts bound)
    (h : (timed J p m parts).run (timed J p m parts).init ls = some s) :
    ls.countP TalkLabel.byClient ≤ bound + 1 := by
  obtain ⟨μ, hμ, hinit⟩ := hclient
  let left : (Talk (ClientCtl (ClientBench m)) (ServerCtl (ServerBench m)) M × ℕ) × ℕ → ℕ :=
    fun s => s.1.1.client.ahead (fun c => c.status (benchRun p m).client ≠ .running) μ s.1.2
  have hleft : left (timed J p m parts).init ≤ bound + 1 :=
    Nat.le_trans (Party.ahead_le _ _ _ _) (Nat.succ_le_succ (hinit 0))
  have hcount := System.countP_add_le_of_run TalkLabel.byClient left (fun _ => 0)
    (fun s l t hstep => ?_) h
  · omega
  obtain ⟨hstep, hclock, -⟩ := timed_step hstep
  cases l with
  | client act =>
    obtain ⟨c, hc, htalk⟩ := Option.map_eq_some_iff.mp hstep
    have hless := Party.ahead_lt hμ hc hclock
    have hnext : left t = c.ahead (fun c => c.status (benchRun p m).client ≠ .running) μ t.1.2 := by
      show Party.ahead _ μ t.1.1.client t.1.2 = _
      rw [← htalk]
    rw [hnext]
    exact hless
  | server act =>
    obtain ⟨c, -, htalk⟩ := Option.map_eq_some_iff.mp hstep
    rw [Watch.step_along_none (f := TalkLabel.clientAct) rfl] at hclock
    have hsame : left t = left s := by
      show Party.ahead _ μ t.1.1.client t.1.2 = _
      rw [← htalk, ← Option.some.inj hclock]
    exact Nat.le_of_eq ((Nat.zero_add _).trans hsame)

/-- The arrivals are bounded by what was written. -/
theorem arrivals_le (hJ : J.Faithful)
    (h : (timed J p m parts).run (timed J p m parts).init ls = some s) :
    ls.countP TalkLabel.arrival ≤
      s.1.1.client.conn.written.length + s.1.1.server.conn.written.length := by
  have hcount := System.countP_add_le_of_run TalkLabel.arrival (fun _ => 0)
    (fun s => s.1.1.client.arrived + s.1.1.server.arrived) (fun s l t hstep => ?_) h
  · have hsound := (onBytes_sound hJ
      (System.Reachable.of_run .init h).of_beside.of_beside).1
    have hserver := hsound.toServer.arrived_le
    have hclient := hsound.toClient.arrived_le
    omega
  obtain ⟨hstep, -, -⟩ := timed_step hstep
  cases l with
  | client act =>
    obtain ⟨c, hc, htalk⟩ := Option.map_eq_some_iff.mp hstep
    have harrived := Party.arrived_of_step hc
    rw [← htalk]
    show (if act.arrival then 1 else 0) + 0 + (s.1.1.client.arrived + s.1.1.server.arrived) ≤
      0 + (c.arrived + s.1.1.server.arrived)
    omega
  | server act =>
    obtain ⟨c, hc, htalk⟩ := Option.map_eq_some_iff.mp hstep
    have harrived := Party.arrived_of_step hc
    rw [← htalk]
    show (if act.arrival then 1 else 0) + 0 + (s.1.1.client.arrived + s.1.1.server.arrived) ≤
      0 + (s.1.1.client.arrived + c.arrived)
    omega

/-- **The clocks are in nobody's way.** -/
theorem exists_timed (hparts : 0 < parts)
    {u : Talk (ClientCtl (ClientBench m)) (ServerCtl (ServerBench m)) M}
    (h : (onBytes J p m).step s.1.1 l = some u) : ∃ other t,
      TalkLabel.spontaneous other = TalkLabel.spontaneous l ∧
        (timed J p m parts).step s other = some t := by
  cases l with
  | client act =>
    obtain ⟨c, hc, -⟩ := Option.map_eq_some_iff.mp h
    obtain ⟨other, d, t', hother, hd, ht'⟩ :=
      Party.exists_timed (client_takesReadings p m) hparts hc s.1.2
    refine ⟨.client other, (({ s.1.1 with client := d }, t'), s.2), hother, ?_⟩
    exact System.beside_step (System.beside_step (Option.map_eq_some_iff.mpr ⟨d, hd, rfl⟩) ht')
      (Watch.step_along_none rfl)
  | server act =>
    obtain ⟨c, hc, -⟩ := Option.map_eq_some_iff.mp h
    obtain ⟨other, d, t', hother, hd, ht'⟩ :=
      Party.exists_timed (server_takesReadings p m) hparts hc s.2
    refine ⟨.server other, (({ s.1.1 with server := d }, s.1.2), t'), hother, ?_⟩
    exact System.beside_step (System.beside_step (Option.map_eq_some_iff.mpr ⟨d, hd, rfl⟩)
      (Watch.step_along_none rfl)) ht'

end Both

/-- **A run ends, unless its client waits for its device for ever**, in every mode that
takes its parameters, whatever is lost, however the streams are cut and wherever either
party fails.  The contacts of the server are bounded in every mode, those of the client
in latency mode, and there are no others but the arrivals of the bytes that were
written.  When a run cannot go on but by a failure out of nowhere, both parties have
returned. -/
theorem runs_end {M : Message → Type} {E : Type} {J : Json Message M E} (hJ : J.Faithful)
    (value : ∀ k, M k) (p : RunParams) (m : TwoSided) (hadmitted : (benchRun p m).admitted = true)
    {parts : ℕ} (hparts : 0 < parts)
    {s : (Talk (ClientCtl (ClientBench m)) (ServerCtl (ServerBench m)) M × ℕ) × ℕ}
    {ls : List (TalkLabel M)} (h : (timed J p m parts).run (timed J p m parts).init ls = some s) :
    ls.countP TalkLabel.byServer ≤ p.serverContacts parts m + 8 ∧
    (m = .latency →
      ls.countP TalkLabel.byClient ≤ Latency.perTrip parts * p.iterations + 26) ∧
    ls.length ≤ ls.countP TalkLabel.byClient + ls.countP TalkLabel.byServer +
      s.1.1.client.conn.written.length + s.1.1.server.conn.written.length ∧
    ((∀ l, TalkLabel.spontaneous l = false → (timed J p m parts).step s l = none) →
      clientEnd p s.1.1 ≠ .running ∧ serverEnd p s.1.1 ≠ .running) := by
  have hreach : (onBytes J p m).Reachable s.1.1 :=
    (System.Reachable.of_run .init h).of_beside.of_beside
  refine ⟨contacts_server (runsDown_server (runsDown_bench p m parts)) h, ?_, ?_, fun hstuck => ?_⟩
  · rintro rfl
    have hping : (benchRun p .latency).client.program.RunsDown polling parts
        (Latency.perTrip parts * p.iterations + 18) :=
      Latency.ping_runsDown ⟨p.clientTraced, p.iterations⟩ parts
    exact contacts_client (runsDown_client hping) h
  · have harrivals := arrivals_le hJ h
    rw [length_eq_countP]
    omega
  · have hnone : ∀ {l u}, TalkLabel.spontaneous l = false →
        (onBytes J p m).step s.1.1 l ≠ some u := by
      intro l u hl hu
      obtain ⟨other, t, hother, ht⟩ := exists_timed hparts hu
      rw [hstuck other (hother.trans hl)] at ht
      exact absurd ht (by simp)
    constructor
    · intro hclient
      obtain ⟨l, u, hl, hu⟩ := exists_step_of_client hJ value hadmitted hreach hclient
      exact hnone hl hu
    · intro hserver
      obtain ⟨l, u, hl, hu⟩ := exists_step_of_server hJ value hadmitted hreach hserver
      exact hnone hl hu

/-- One round trip in latency mode, to the row. -/
def bytesOneTrip : List (TalkLabel fun _ => Bool) :=
  bytesHandshake ++ bytesRendezvous ++ [.client (.act .skip), .server (.act .skip)] ++
  bytesRendezvous ++
  [.client (.act (.postReceive 0 2)), .server (.act (.postReceive 0 2))] ++ bytesRendezvous ++
  [.client (.act (.clock 0)), .client (.act (.postSend 0 1)), .client (.act (.clock 0)),
    .server (.act (.clock 0)), .server (.act (.poll [⟨2, 8, true⟩])), .server (.act (.clock 1)),
    .server (.act (.postSend 0 1)), .server (.act (.postReceive 0 2)),
    .client (.act (.poll [⟨1, 8, true⟩, ⟨2, 8, true⟩])), .client (.act (.clock 1)),
    .client (.act (.clock 1))] ++
  bytesRendezvous ++ bytesRow

theorem runs_end_one_trip :
    ∃ s, (timed jsonBools oneMessage .latency 1).run (timed jsonBools oneMessage .latency 1).init
        bytesOneTrip = some s ∧
      clientEnd oneMessage s.1.1 = .ok ∧ serverEnd oneMessage s.1.1 = .ok ∧
      bytesOneTrip.countP TalkLabel.byServer ≤ oneMessage.serverContacts 1 .latency + 8 ∧
      bytesOneTrip.countP TalkLabel.byClient ≤ Latency.perTrip 1 * 1 + 26 ∧
      bytesOneTrip.length ≤ 45 + s.1.1.client.conn.written.length +
        s.1.1.server.conn.written.length ∧
      (∀ l, (timed jsonBools oneMessage .latency 1).step s l = none) ∧
      clientEnd oneMessage s.1.1 ≠ .running ∧ serverEnd oneMessage s.1.1 ≠ .running := by
  have hrun : ((timed jsonBools oneMessage .latency 1).run
      (timed jsonBools oneMessage .latency 1).init bytesOneTrip).any
      (fun s => decide (clientEnd oneMessage s.1.1 = .ok ∧ serverEnd oneMessage s.1.1 = .ok ∧
        s.1.1.client.ctl.status (benchRun oneMessage .latency).client ≠ .running ∧
        s.1.1.server.ctl.status (benchRun oneMessage .latency).server ≠ .running ∧
        s.1.1.server.conn.written.drop s.1.1.client.arrived = [] ∧
        s.1.1.client.conn.written.drop s.1.1.server.arrived = [])) = true := by
    decide +kernel
  obtain ⟨s, hs, hends⟩ := (Option.any_eq_true _ _).mp hrun
  obtain ⟨hclientOk, hserverOk, hclient, hserver, hfromServer, hfromClient⟩ :=
    of_decide_eq_true hends
  have hnone : ∀ l, (timed jsonBools oneMessage .latency 1).step s l = none := by
    intro l
    refine Option.eq_none_iff_forall_ne_some.mpr fun t ht => ?_
    obtain ⟨hstep, -, -⟩ := timed_step ht
    cases l with
    | client act =>
      obtain ⟨c, hc, -⟩ := Option.map_eq_some_iff.mp hstep
      rw [hfromServer] at hc
      exact absurd hc (Party.step_closed (by simp [Party.closed, hclient]))
    | server act =>
      obtain ⟨c, hc, -⟩ := Option.map_eq_some_iff.mp hstep
      rw [hfromClient] at hc
      exact absurd hc (Party.step_closed (by simp [Party.closed, hserver]))
  obtain ⟨hbyServer, hbyClient, hlength, hover⟩ := runs_end jsonBools_faithful (fun _ => true)
    oneMessage .latency (by decide) Nat.one_pos hs
  exact ⟨s, hs, hclientOk, hserverOk, hbyServer, hbyClient rfl, hlength, hnone,
    hover fun l _ => hnone l⟩

end Framing
end RdmaBench
