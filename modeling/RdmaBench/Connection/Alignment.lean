import RdmaBench.Connection.Parties

/-!
# Nothing is read for what it is not, and nobody waits for nobody

The connection carries JSON messages and bare barrier bytes, and nothing on it says
which is which.  What keeps them apart is that the two functions go through matching
sessions, whatever path each takes between two barriers: a timeout leads to the same
next barrier as a full run, and an error leads to no barrier at all.

So what is unread in either direction is what its reader reads next
(`client_reads_front`, `server_reads_front`), for a party that is still running; and
two running parties are never both at a read of an empty channel.
-/

namespace RdmaBench

open Automaton Session

section Reads

variable (p : RunParams) (m : TwoSided)

/-- **A running client can go on to its next read**, if it has one. -/
theorem ClientCtl.toRead {c : ClientCtl (ClientBench m)}
    (hc : c.status (benchRun p m).client = .running) :
    ToRead (clientProgram p m) (fun c => reads (c.todo p m) = []) c := by
  have hbench : ∀ c, (benchRun p m).client.failed c = false →
      ToRead (clientProgram p m) (fun c => reads (c.todo p m) = []) (.bench c) := by
    intro c hf
    refine ((benchRun p m).client.toRead c hf).lift (fun c hc => .ended ?_)
      fun c a t hc hstep => ?_
    · rw [ClientCtl.todo, Half.todo_of_finished _ hc]
      rfl
    · show (if _ then _ else _) = _
      rw [if_neg hc, hstep]
      rfl
  have hstart : ToRead (clientProgram p m) (fun c => reads (c.todo p m) = []) .start := by
    by_cases hadmitted : (benchRun p m).admitted = true
    · exact .step .skip ((if_pos hadmitted).trans (if_pos rfl)) (fun _ => Act.noConfusion)
        (hbench _ (benchRun p m).client.failed_init)
    · exact .ended (by rw [ClientCtl.todo, clientRest, if_neg hadmitted]; rfl)
  have hendpoint : ToRead (clientProgram p m) (fun c => reads (c.todo p m) = []) .sendEndpoint :=
    .step (.write .clientEndpoint) rfl (fun _ => Act.noConfusion) hstart
  have hack : ToRead (clientProgram p m) (fun c => reads (c.todo p m) = []) .recvAck :=
    .read .handshakeAck rfl
  have hrequest : ToRead (clientProgram p m) (fun c => reads (c.todo p m) = []) .sendRequest :=
    .step (.write .benchmarkRequest) rfl (fun _ => Act.noConfusion) hack
  cases c with
  | connect =>
    exact .step .skip ((if_pos (p.supported m)).trans (if_pos rfl)) (fun _ => Act.noConfusion)
      hrequest
  | sendRequest => exact hrequest
  | recvAck => exact hack
  | handshake => exact .step .skip rfl (fun _ => Act.noConfusion) hendpoint
  | sendEndpoint => exact hendpoint
  | start => exact hstart
  | bench c =>
    refine hbench c (Bool.eq_false_iff.mpr fun hf => ?_)
    rw [ClientCtl.status, if_pos hf] at hc
    exact Status.noConfusion hc
  | done c => exact Status.noConfusion hc

/-- **A running server can go on to its next read**, if it has one. -/
theorem ServerCtl.toRead {c : ServerCtl (ServerBench m)}
    (hc : c.status (benchRun p m).server = .running) :
    ToRead (serverProgram p m) (fun c => reads (c.todo p m) = []) c := by
  have hbench : ∀ c, (benchRun p m).server.failed c = false →
      ToRead (serverProgram p m) (fun c => reads (c.todo p m) = []) (.bench c) := by
    intro c hf
    refine ((benchRun p m).server.toRead c hf).lift (fun c hc => ?_) fun c a t hc hstep => ?_
    · have hrow : serverStep p m (.bench c) (.read .resultRow) = some (.done c) :=
        (if_pos hc).trans (if_pos rfl)
      exact .read .resultRow hrow
    · show (if _ then _ else _) = _
      rw [if_neg hc, hstep]
      rfl
  have hstart : ToRead (serverProgram p m) (fun c => reads (c.todo p m) = []) .start := by
    by_cases hadmitted : (benchRun p m).admitted = true
    · exact .step .skip ((if_pos hadmitted).trans (if_pos rfl)) (fun _ => Act.noConfusion)
        (hbench _ (benchRun p m).server.failed_init)
    · exact .ended (by rw [ServerCtl.todo, serverRest, if_neg hadmitted]; rfl)
  have hendpoint : ToRead (serverProgram p m) (fun c => reads (c.todo p m) = []) .recvEndpoint :=
    .read .clientEndpoint rfl
  have hack : ToRead (serverProgram p m) (fun c => reads (c.todo p m) = []) .sendAck :=
    .step (.write .handshakeAck) rfl (fun _ => Act.noConfusion) hendpoint
  cases c with
  | recvRequest => exact .read .benchmarkRequest rfl
  | sendUnsupported =>
    exact .step (.write .handshakeAck) rfl (fun _ => Act.noConfusion) (.ended rfl)
  | refused => exact .ended rfl
  | build => exact .step .skip rfl (fun _ => Act.noConfusion) hack
  | sendAck => exact hack
  | recvEndpoint => exact hendpoint
  | handshake => exact .step .skip rfl (fun _ => Act.noConfusion) hstart
  | start => exact hstart
  | bench c =>
    refine hbench c (Bool.eq_false_iff.mpr fun hf => ?_)
    rw [ServerCtl.status, if_pos hf] at hc
    exact Status.noConfusion hc
  | done c => exact Status.noConfusion hc

end Reads

section Front

variable {p : RunParams} {m : TwoSided} {s : Parties m}

theorem Parties.client_running (h : s.clientStatus p = .running) :
    s.client.status (benchRun p m).client = .running := by
  rw [Parties.clientStatus] at h
  split at h
  · exact Status.noConfusion h
  · exact h

theorem Parties.server_running (h : s.serverStatus p = .running) :
    s.server.status (benchRun p m).server = .running := by
  rw [Parties.serverStatus] at h
  split at h
  · exact Status.noConfusion h
  · exact h

/-- Nothing is in flight to a client that has returned `Ok`. -/
theorem Parties.client_not_ok (h : (parties p m).Reachable s) (hne : s.wire.toClient ≠ []) :
    s.clientStatus p ≠ .ok := by
  intro hok
  have hpre := (parties_inStep h).linked.prefix_left
  rw [Parties.clientStatus] at hok
  split at hok
  · exact Status.noConfusion hok
  · unfold ClientCtl.status at hok
    split at hok
    · split at hok <;> exact Status.noConfusion hok
    · next hdone =>
      simp only [Parties.duo, hdone, ClientCtl.todo] at hpre
      exact hne (List.prefix_nil.mp hpre)
    · exact Status.noConfusion hok

/-- Nothing is in flight to a server that has returned `Ok`. -/
theorem Parties.server_not_ok (h : (parties p m).Reachable s) (hne : s.wire.toServer ≠ []) :
    s.serverStatus p ≠ .ok := by
  intro hok
  have hpre := (parties_inStep h).linked.prefix_right
  rw [Parties.serverStatus] at hok
  split at hok
  · exact Status.noConfusion hok
  · unfold ServerCtl.status at hok
    split at hok
    · split at hok <;> exact Status.noConfusion hok
    · next hdone =>
      simp only [Parties.duo, hdone, ServerCtl.todo] at hpre
      exact hne (List.prefix_nil.mp hpre)
    · next hdone =>
      simp only [Parties.duo, hdone, ServerCtl.todo] at hpre
      exact hne (List.prefix_nil.mp hpre)
    · exact Status.noConfusion hok

/-- **What is unread is what a running client reads next.** -/
theorem client_reads_front (h : (parties p m).Reachable s) (hrun : s.clientStatus p = .running)
    {j : Item} {rest : List Item} (hj : s.wire.toClient = j :: rest) (k : Item) :
    NextRead (clientProgram p m) s.client k ↔ k = j := by
  have hin := parties_inStep h
  have honly : ∀ k, NextRead (clientProgram p m) s.client k → k = j :=
    fun k hk => (hin.head_eq_client (client_keeps p m) hj hk).symm
  constructor
  · exact honly k
  · rintro rfl
    have hreads : reads (s.client.todo p m) ≠ [] := by
      intro hnil
      have hpre := hin.linked.prefix_left
      simp only [Parties.duo, hnil, hj] at hpre
      exact List.cons_ne_nil _ _ (List.prefix_nil.mp hpre)
    obtain ⟨i, hi⟩ := (ClientCtl.toRead p m (Parties.client_running hrun)).exists_nextRead
      (client_keeps p m) (fun _ h => h) hreads
    exact honly i hi ▸ hi

/-- **What is unread is what a running server reads next.** -/
theorem server_reads_front (h : (parties p m).Reachable s) (hrun : s.serverStatus p = .running)
    {j : Item} {rest : List Item} (hj : s.wire.toServer = j :: rest) (k : Item) :
    NextRead (serverProgram p m) s.server k ↔ k = j := by
  have hin := parties_inStep h
  have honly : ∀ k, NextRead (serverProgram p m) s.server k → k = j :=
    fun k hk => (hin.head_eq_server (server_keeps p m) hj hk).symm
  constructor
  · exact honly k
  · rintro rfl
    have hreads : reads (s.server.todo p m) ≠ [] := by
      intro hnil
      have hpre := hin.linked.prefix_right
      simp only [Parties.duo, hnil, hj] at hpre
      exact List.cons_ne_nil _ _ (List.prefix_nil.mp hpre)
    obtain ⟨i, hi⟩ := (ServerCtl.toRead p m (Parties.server_running hrun)).exists_nextRead
      (server_keeps p m) (fun _ h => h) hreads
    exact honly i hi ▸ hi

end Front

/-! ## The stream and the wait -/

/-- The client is blocked: at a read, with nothing to read, and the server has not
closed its end. -/
def Parties.ClientBlocked (p : RunParams) {m : TwoSided} (s : Parties m) : Prop :=
  s.clientStatus p = .running ∧ (∃ k, AtRead (clientProgram p m) s.client k) ∧
    s.wire.toClient = [] ∧ s.serverStatus p = .running

/-- The server is blocked. -/
def Parties.ServerBlocked (p : RunParams) {m : TwoSided} (s : Parties m) : Prop :=
  s.serverStatus p = .running ∧ (∃ k, AtRead (serverProgram p m) s.server k) ∧
    s.wire.toServer = [] ∧ s.clientStatus p = .running

/-- **The stream stays aligned and the parties never block each other**, in every mode,
for all parameters, in every interleaving and wherever either party fails.  The next
unread item of a direction is of the one kind that its reader, still running, will read
next; a reader that has returned `Ok` has left nothing unread.  And the two are never
both at a read of an empty, open connection. -/
theorem stream_aligned (p : RunParams) (m : TwoSided) {s : Parties m}
    (h : (parties p m).Reachable s) :
    (∀ j rest, s.wire.toClient = j :: rest → s.clientStatus p ≠ .ok ∧
      (s.clientStatus p = .running → ∀ k, NextRead (clientProgram p m) s.client k ↔ k = j)) ∧
    (∀ j rest, s.wire.toServer = j :: rest → s.serverStatus p ≠ .ok ∧
      (s.serverStatus p = .running → ∀ k, NextRead (serverProgram p m) s.server k ↔ k = j)) ∧
    ¬(s.ClientBlocked p ∧ s.ServerBlocked p) := by
  refine ⟨fun j rest hj => ⟨?_, ?_⟩, fun j rest hj => ⟨?_, ?_⟩, ?_⟩
  · exact s.client_not_ok h (hj ▸ List.cons_ne_nil j rest)
  · exact fun hrun => client_reads_front h hrun hj
  · exact s.server_not_ok h (hj ▸ List.cons_ne_nil j rest)
  · exact fun hrun => server_reads_front h hrun hj
  · rintro ⟨⟨-, ⟨j, hj⟩, hempty, -⟩, -, ⟨k, hk⟩, hempty', -⟩
    exact (parties_inStep h).not_both_blocked (client_keeps p m) (server_keeps p m)
      (dual_todo p m) hj hk ⟨hempty, hempty'⟩

/-- The client writes its first barrier and fails; the server, still posting receives,
reads a barrier next, and that is what there is. -/
theorem stream_aligned_of_failed_client :
    ∃ s, (parties oneMessage .accuracy).Reachable s ∧ s.clientStatus oneMessage = .err ∧
      s.wire.toServer = [.barrier] ∧
      ∀ k, NextRead (serverProgram oneMessage .accuracy) s.server k ↔ k = .barrier := by
  obtain ⟨s, hs, hat⟩ := System.Reachable.exists_of_run (S := parties oneMessage .accuracy)
    (p := fun s => decide (s.clientStatus oneMessage = .err ∧ s.wire.toServer = [.barrier] ∧
      s.serverStatus oneMessage = .running))
    (opening ++ [.client (.write .barrier), .clientFails]) (by decide)
  obtain ⟨herr, hwire, hrun⟩ := of_decide_eq_true hat
  exact ⟨s, hs, herr, hwire, ((stream_aligned oneMessage .accuracy hs).2.1 _ _ hwire).2 hrun⟩

end RdmaBench
