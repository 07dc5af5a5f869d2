import RdmaBench.Connection.Rows

/-!
# Nobody is stuck at a read

A read blocks until the end of what it asks for has arrived, or until the stream has
ended.  A line may have arrived in part, so over bytes a party can wait where over items
it would not.  `never_stuck` is that there is no deadlock in this: as long as a party has
not returned, something can happen that is not a failure out of nowhere.  How long a
party can go on is another matter (`runs_end`).

At a hypothetical stuck state everything that was sent has arrived, since an arrival is
always possible.  Then a party at a read that blocks has nothing left to obtain
(`Carried.pending_eq_nil`) and the other has not closed its end.  So both are at reads
with nothing under way, and this the sessions rule out.
-/

namespace RdmaBench
namespace Framing

open Automaton Session

section Party

variable {M : Message → Type} {E : Type} {σ τ : Type} {J : Json Message M E} {P : Program σ}
  {ended : σ → Bool} {unread : List UInt8} {closed : Bool}

/-- A failure out of nowhere, or of the socket. -/
def PartyAct.spontaneous : PartyAct M → Bool
  | .fail => true
  | .send taken _ => !taken
  | _ => false

theorem exists_wanted (k : Item) : ∃ want : Wanted Message, want.item = k := by
  cases k with
  | benchmarkRequest => exact ⟨.message .benchmarkRequest, rfl⟩
  | handshakeAck => exact ⟨.message .handshakeAck, rfl⟩
  | clientEndpoint => exact ⟨.message .clientEndpoint, rfl⟩
  | remoteBufferInfo => exact ⟨.message .remoteBufferInfo, rfl⟩
  | accuracyReport => exact ⟨.message .accuracyReport, rfl⟩
  | resultRow => exact ⟨.message .resultRow, rfl⟩
  | barrier => exact ⟨.barrier, rfl⟩

/-- There is something to send of every kind. -/
theorem exists_sent (value : ∀ k, M k) (k : Item) : ∃ x : Sent M, x.item = k := by
  obtain ⟨want, rfl⟩ := exists_wanted k
  cases want with
  | message k => exact ⟨.message k (value k), rfl⟩
  | barrier => exact ⟨.barrier, rfl⟩

/-- At a read that blocks, when all that the other has written has arrived. -/
structure Party.Blocked (P : Program σ) (unread : List UInt8) (s : Party σ M)
    (want : Wanted Message) : Prop where
  reads : ∃ c, P.step s.ctl (.read want.item) = some c
  arrived : unread = []
  waits : ¬want.Ready s.conn.reader false

/-- **A party whose program can go on can move**, unless it is at a read that blocks
and the other has not closed its end. -/
theorem Party.exists_step (value : ∀ k, M k) {s : Party σ M} (hopen : s.closed ended = false)
    {a : Act} {c : σ} (hc : P.step s.ctl a = some c) :
    (∃ act t, PartyAct.spontaneous act = false ∧
      s.step J P ended unread closed act = some t) ∨
    (closed = false ∧ ∃ want, s.Blocked P unread want) := by
  have hnot : ¬s.closed ended = true := Bool.eq_false_iff.mp hopen
  have hplain : a.session = [] → ∃ act t, PartyAct.spontaneous act = false ∧
      s.step J P ended unread closed act = some t := by
    intro ha
    refine ⟨.act a, { s with ctl := c }, rfl, ?_⟩
    exact (if_neg hnot).trans
      ((if_pos ha).trans (Option.map_eq_some_iff.mpr ⟨c, hc, rfl⟩))
  cases a with
  | write k =>
    obtain ⟨x, rfl⟩ := exists_sent value k
    have hmoves : (s.step J P ended unread closed (.send true x)).isSome = true := by
      rw [Party.step, if_neg hnot, hc]
      rfl
    obtain ⟨t, ht⟩ := Option.isSome_iff_exists.mp hmoves
    exact .inl ⟨.send true x, t, rfl, ht⟩
  | read k =>
    obtain ⟨want, rfl⟩ := exists_wanted k
    by_cases hready : want.Ready s.conn.reader (closed && unread.isEmpty)
    · have hmoves : (s.step J P ended unread closed (.receive want)).isSome = true := by
        rw [Party.step, if_neg hnot, if_pos hready, hc]
        rfl
      obtain ⟨t, ht⟩ := Option.isSome_iff_exists.mp hmoves
      exact .inl ⟨.receive want, t, rfl, ht⟩
    cases unread with
    | cons b unread =>
      have hmoves : (s.step J P ended (b :: unread) closed (.arrive 1)).isSome = true := by
        rw [Party.step, if_pos ⟨Nat.one_pos, Nat.le_add_left 1 unread.length⟩]
        rfl
      obtain ⟨t, ht⟩ := Option.isSome_iff_exists.mp hmoves
      exact .inl ⟨.arrive 1, t, rfl, ht⟩
    | nil =>
      cases closed with
      | true => exact absurd (by cases want <;> exact .inr rfl) hready
      | false => exact .inr ⟨rfl, want, ⟨c, hc⟩, rfl, hready⟩
  | skip | clock now | postSend slot id | postReceive slot id | fill slot seq
  | poll wcs | inspect slot len => exact .inl (hplain rfl)

theorem Sent.exists_line {k : Message} {msg : M k} {bytes : List UInt8}
    (h : (Sent.message k msg).bytes J = .ok bytes) :
    ∃ line, J.toString k msg = .ok line ∧ asBytes (line.push '\n') = bytes := by
  rw [Sent.bytes] at h
  cases hline : J.toString k msg with
  | error e =>
    rw [hline] at h
    cases h
  | ok line =>
    rw [hline] at h
    exact ⟨line, rfl, Except.ok.inj h⟩

/-- When everything has arrived, a party at a read that blocks has nothing left to
obtain. -/
theorem Carried.pending_eq_nil {w : Party σ M} {r : Party τ M} (h : Carried J w r)
    {Q : Program τ} (hal : Aligned Q w r) (hr : r.failed = false) {want : Wanted Message}
    (hblocked : r.Blocked Q (w.conn.written.drop r.arrived) want) : pending w r = [] := by
  obtain ⟨⟨c, hc⟩, harrived, hwaits⟩ := hblocked
  cases hnext : pending w r with
  | nil => rfl
  | cons x rest =>
    obtain rfl := hal x rest hnext want c hc
    have hbytes := h.bytes hr
    rw [hnext, harrived, List.append_nil] at hbytes
    obtain ⟨front, back, hfront, -, heq⟩ := bytesOf_cons hbytes
    refine absurd ?_ hwaits
    cases x with
    | message k msg =>
      -- the line ends with its newline
      refine .inl (heq ▸ List.mem_append_left _ ?_)
      obtain ⟨line, -, rfl⟩ := Sent.exists_line hfront
      rw [asBytes_push_newline]
      exact List.mem_append_right _ List.mem_cons_self
    | barrier =>
      refine .inl ?_
      obtain rfl := Except.ok.inj hfront
      rw [heq]
      exact List.cons_ne_nil _ _

end Party

/-! ## The programs can go on -/

section Programs

variable {p : RunParams} {m : TwoSided}

/-- A half that has neither failed nor finished can go on. -/
theorem Half.exists_step {σ : Type} (h : Half σ) {c : σ} (hfailed : h.failed c = false)
    (hfinished : ¬h.finished c = true) : ∃ a d, h.program.step c a = some d := by
  cases h.toRead c hfailed with
  | read k hk => exact ⟨_, _, hk⟩
  | ended hend => exact absurd hend hfinished
  | step a ha _ _ => exact ⟨_, _, ha⟩

theorem client_can_go_on (hadmitted : (benchRun p m).admitted = true)
    {c : ClientCtl (ClientBench m)} (hc : c.status (benchRun p m).client = .running) :
    ∃ a d, clientStep p m c a = some d := by
  cases c with
  | connect => exact ⟨.skip, .sendRequest, if_pos (p.supported m)⟩
  | sendRequest => exact ⟨.write .benchmarkRequest, .recvAck, rfl⟩
  | recvAck => exact ⟨.read .handshakeAck, .handshake, rfl⟩
  | handshake => exact ⟨.skip, .sendEndpoint, rfl⟩
  | sendEndpoint => exact ⟨.write .clientEndpoint, .start, rfl⟩
  | start => exact ⟨.skip, _, if_pos hadmitted⟩
  | bench c =>
    by_cases hfinished : (benchRun p m).client.finished c = true
    · exact ⟨.write .resultRow, .done c, if_pos hfinished⟩
    · have hfailed : (benchRun p m).client.failed c = false := by
        refine Bool.eq_false_iff.mpr fun hf => ?_
        rw [ClientCtl.status, if_pos hf] at hc
        exact Status.noConfusion hc
      obtain ⟨a, d, hd⟩ := Half.exists_step _ hfailed hfinished
      refine ⟨a, .bench d, ?_⟩
      rw [clientStep, if_neg hfinished, hd]
      rfl
  | done c => exact Status.noConfusion hc

theorem server_can_go_on (hadmitted : (benchRun p m).admitted = true)
    {c : ServerCtl (ServerBench m)} (hc : c.status (benchRun p m).server = .running) :
    ∃ a d, serverStep p m c a = some d := by
  cases c with
  | recvRequest => exact ⟨.read .benchmarkRequest, _, rfl⟩
  | sendUnsupported => exact ⟨.write .handshakeAck, .refused, rfl⟩
  | build => exact ⟨.skip, .sendAck, rfl⟩
  | sendAck => exact ⟨.write .handshakeAck, .recvEndpoint, rfl⟩
  | recvEndpoint => exact ⟨.read .clientEndpoint, .handshake, rfl⟩
  | handshake => exact ⟨.skip, .start, rfl⟩
  | start => exact ⟨.skip, _, if_pos hadmitted⟩
  | bench c =>
    by_cases hfinished : (benchRun p m).server.finished c = true
    · exact ⟨.read .resultRow, .done c, if_pos hfinished⟩
    · have hfailed : (benchRun p m).server.failed c = false := by
        refine Bool.eq_false_iff.mpr fun hf => ?_
        rw [ServerCtl.status, if_pos hf] at hc
        exact Status.noConfusion hc
      obtain ⟨a, d, hd⟩ := Half.exists_step _ hfailed hfinished
      refine ⟨a, .bench d, ?_⟩
      rw [serverStep, if_neg hfinished, hd]
      rfl
  | refused | done c => exact Status.noConfusion hc

end Programs

/-! ## Both parties -/

/-- A failure out of nowhere. -/
def TalkLabel.spontaneous {M : Message → Type} : TalkLabel M → Bool
  | .client a | .server a => a.spontaneous

section Both

variable {M : Message → Type} {E : Type} {J : Json Message M E} {p : RunParams} {m : TwoSided}
  {s : Talk (ClientCtl (ClientBench m)) (ServerCtl (ServerBench m)) M}

/-- A client that has not returned moves, or waits for a server that has not closed. -/
theorem client_moves_or_waits (value : ∀ k, M k) (hadmitted : (benchRun p m).admitted = true)
    (hopen : s.client.closed (fun c => c.status (benchRun p m).client ≠ .running) = false) :
    (∃ l t, TalkLabel.spontaneous l = false ∧ (onBytes J p m).step s l = some t) ∨
    (s.server.closed (fun c => c.status (benchRun p m).server ≠ .running) = false ∧
      ∃ want, s.client.Blocked (clientProgram p m)
        (s.server.conn.written.drop s.client.arrived) want) := by
  have hrunning : s.client.ctl.status (benchRun p m).client = .running := by
    simpa using (Bool.or_eq_false_iff.mp hopen).2
  obtain ⟨a, c, hc⟩ := client_can_go_on hadmitted hrunning
  rcases Party.exists_step (J := J) (P := clientProgram p m) value hopen hc with
    ⟨act, t, hact, hstep⟩ | hblocked
  · exact .inl ⟨.client act, _, hact, Option.map_eq_some_iff.mpr ⟨t, hstep, rfl⟩⟩
  · exact .inr hblocked

theorem server_moves_or_waits (value : ∀ k, M k) (hadmitted : (benchRun p m).admitted = true)
    (hopen : s.server.closed (fun c => c.status (benchRun p m).server ≠ .running) = false) :
    (∃ l t, TalkLabel.spontaneous l = false ∧ (onBytes J p m).step s l = some t) ∨
    (s.client.closed (fun c => c.status (benchRun p m).client ≠ .running) = false ∧
      ∃ want, s.server.Blocked (serverProgram p m)
        (s.client.conn.written.drop s.server.arrived) want) := by
  have hrunning : s.server.ctl.status (benchRun p m).server = .running := by
    simpa using (Bool.or_eq_false_iff.mp hopen).2
  obtain ⟨a, c, hc⟩ := server_can_go_on hadmitted hrunning
  rcases Party.exists_step (J := J) (P := serverProgram p m) value hopen hc with
    ⟨act, t, hact, hstep⟩ | hblocked
  · exact .inl ⟨.server act, _, hact, Option.map_eq_some_iff.mpr ⟨t, hstep, rfl⟩⟩
  · exact .inr hblocked

/-- **The two do not wait for each other.** -/
theorem not_both_blocked (hJ : J.Faithful) (h : (onBytes J p m).Reachable s)
    (hclient : s.client.failed = false) (hserver : s.server.failed = false)
    {v w : Wanted Message}
    (hv : s.client.Blocked (clientProgram p m) (s.server.conn.written.drop s.client.arrived) v)
    (hw : s.server.Blocked (serverProgram p m) (s.client.conn.written.drop s.server.arrived) w) :
    False := by
  obtain ⟨hsound, hreach⟩ := onBytes_sound hJ h
  obtain ⟨halClient, halServer⟩ := onBytes_aligned hJ h
  have hToClient := hsound.toClient.pending_eq_nil halClient hclient hv
  have hToServer := hsound.toServer.pending_eq_nil halServer hserver hw
  obtain ⟨c, hc⟩ := hv.reads
  obtain ⟨d, hd⟩ := hw.reads
  -- as items, both wait at an empty channel
  have hstep := duo_inStep (client_keeps p m) (server_keeps p m) (dual_todo p m).linked hreach
  exact hstep.not_both_blocked (client_keeps p m) (server_keeps p m) (dual_todo p m) ⟨c, hc⟩
    ⟨d, hd⟩ ⟨congrArg (List.map Sent.item) hToClient, congrArg (List.map Sent.item) hToServer⟩

theorem client_open_of_running (h : clientEnd p s = .running) :
    s.client.closed (fun c => c.status (benchRun p m).client ≠ .running) = false := by
  rw [clientEnd] at h
  split at h
  · exact Status.noConfusion h
  · next hfailed => simp [Party.closed, hfailed, h]

theorem server_open_of_running (h : serverEnd p s = .running) :
    s.server.closed (fun c => c.status (benchRun p m).server ≠ .running) = false := by
  rw [serverEnd] at h
  split at h
  · exact Status.noConfusion h
  · next hfailed => simp [Party.closed, hfailed, h]

/-- While the client has not returned, a step is possible. -/
theorem exists_step_of_client (hJ : J.Faithful) (value : ∀ k, M k)
    (hadmitted : (benchRun p m).admitted = true) (h : (onBytes J p m).Reachable s)
    (hclient : clientEnd p s = .running) :
    ∃ l t, TalkLabel.spontaneous l = false ∧ (onBytes J p m).step s l = some t := by
  have hopen := client_open_of_running hclient
  rcases client_moves_or_waits value hadmitted hopen with hmoves | ⟨hother, v, hv⟩
  · exact hmoves
  rcases server_moves_or_waits value hadmitted hother with hmoves | ⟨-, w, hw⟩
  · exact hmoves
  exact (not_both_blocked hJ h (Bool.or_eq_false_iff.mp hopen).1
    (Bool.or_eq_false_iff.mp hother).1 hv hw).elim

/-- While the server has not returned, a step is possible. -/
theorem exists_step_of_server (hJ : J.Faithful) (value : ∀ k, M k)
    (hadmitted : (benchRun p m).admitted = true) (h : (onBytes J p m).Reachable s)
    (hserver : serverEnd p s = .running) :
    ∃ l t, TalkLabel.spontaneous l = false ∧ (onBytes J p m).step s l = some t := by
  have hopen := server_open_of_running hserver
  rcases server_moves_or_waits value hadmitted hopen with hmoves | ⟨hother, w, hw⟩
  · exact hmoves
  rcases client_moves_or_waits value hadmitted hother with hmoves | ⟨-, v, hv⟩
  · exact hmoves
  exact (not_both_blocked hJ h (Bool.or_eq_false_iff.mp hother).1
    (Bool.or_eq_false_iff.mp hopen).1 hv hw).elim

end Both

/-- **As long as a party has not returned, something can happen** that is not a failure
out of nowhere, in every mode that takes its parameters: however the streams are cut,
and also when the other party has failed or returned. -/
theorem never_stuck {M : Message → Type} {E : Type} {J : Json Message M E} (hJ : J.Faithful)
    (value : ∀ k, M k) (p : RunParams) (m : TwoSided) (hadmitted : (benchRun p m).admitted = true)
    {s : Talk (ClientCtl (ClientBench m)) (ServerCtl (ServerBench m)) M}
    (h : (onBytes J p m).Reachable s)
    (hrunning : clientEnd p s = .running ∨ serverEnd p s = .running) :
    ∃ l t, TalkLabel.spontaneous l = false ∧ (onBytes J p m).step s l = some t := by
  rcases hrunning with hclient | hserver
  · exact exists_step_of_client hJ value hadmitted h hclient
  · exact exists_step_of_server hJ value hadmitted h hserver

/-- The client has failed in the middle of its request. -/
theorem never_stuck_cut_short :
    ∃ s : Talk (ClientCtl (ClientBench .bandwidth)) (ServerCtl (ServerBench .bandwidth))
        (fun _ => Bool),
      (onBytes jsonBools oneMessage .bandwidth).Reachable s ∧ clientEnd oneMessage s = .err ∧
      ∃ l t, TalkLabel.spontaneous l = false ∧
        (onBytes jsonBools oneMessage .bandwidth).step s l = some t := by
  obtain ⟨s, hs, hends⟩ := System.Reachable.exists_of_run
    (S := onBytes jsonBools oneMessage .bandwidth)
    (p := fun s => decide (clientEnd oneMessage s = .err ∧ serverEnd oneMessage s = .running))
    [.client (.act .skip), .client (.send true (.message .benchmarkRequest true)),
      .server (.arrive 3), .client .fail] (by decide +kernel)
  obtain ⟨hclient, hserver⟩ := of_decide_eq_true hends
  exact ⟨s, hs, hclient, never_stuck jsonBools_faithful (fun _ => true) oneMessage .bandwidth
    (by decide) hs (.inr hserver)⟩

end Framing
end RdmaBench
