import RdmaBench.Connection.Barriers
import RdmaBench.Connection.Contents

/-!
# What the two sides know of each other in the end

The last message of a benchmark goes one way: the client hands its row over and has
returned.  So the two cannot agree on how it ended, and one of them knows more than
the other.

* A server that has returned `Ok` knows that the client has.  It holds the request and
  the row that the client sent, and nothing is under way in either direction.
* A client that has returned `Ok` knows that the server has got everything it needs: no
  read of the server can fail any more.  Whether the server fails by itself, it does
  not know.

Both are read off the sessions.  What a party has sent is what its session has lost
(`Party.Told`), so a session that has come to its end was sent whole.
-/

namespace RdmaBench
namespace Framing

open Automaton Session

section Told

variable {M : Message → Type} {E : Type} {σ : Type} {J : Json Message M E} {P : Program σ}
  {ended : σ → Bool} {todo : σ → Session Item} {whole : Session Item} {s t : Party σ M}

/-- What a party has sent and obtained is what its session no longer holds, and a party
that has failed had not returned. -/
structure Party.Told (ended : σ → Bool) (todo : σ → Session Item) (whole : Session Item)
    (s : Party σ M) : Prop where
  sent : s.sent.map Sent.item ++ writes (todo s.ctl) = writes whole
  got : s.got.map Sent.item ++ reads (todo s.ctl) = reads whole
  open_of_failed : s.failed = true → ended s.ctl = false

theorem Party.Told.move (hP : Keeps P todo) (h : s.Told ended todo whole)
    {unread : List UInt8} {closed : Bool} (hmove : PartyMove J P ended unread closed s t) :
    t.Told ended todo whole := by
  cases hmove with
  | arrive hpos hle => exact ⟨h.sent, h.got, h.open_of_failed⟩
  | @send taken item c conn hopen hc hemit =>
    have htodo := hP _ _ _ hc
    have hfailed : s.failed = false := (Bool.or_eq_false_iff.mp hopen).1
    refine ⟨?_, ?_, fun hf => absurd (hfailed.symm.trans hf) Bool.noConfusion⟩
    · have hsent := h.sent
      rw [htodo] at hsent
      rw [List.map_append, List.append_assoc]
      exact hsent
    · have hgot := h.got
      rw [htodo] at hgot
      exact hgot
  | @receive want item c conn hopen hready hc htake =>
    have htodo := hP _ _ _ hc
    have hfailed : s.failed = false := (Bool.or_eq_false_iff.mp hopen).1
    have hwant : item.item = want.item := congrArg Wanted.item (Conn.wanted_of_take htake)
    refine ⟨?_, ?_, fun hf => absurd (hfailed.symm.trans hf) Bool.noConfusion⟩
    · have hsent := h.sent
      rw [htodo] at hsent
      exact hsent
    · have hgot := h.got
      rw [htodo, ← hwant] at hgot
      rw [List.map_append, List.append_assoc]
      exact hgot
  | @act a c hopen ha hc =>
    have htodo : todo s.ctl = todo c := by
      rw [hP _ _ _ hc, ha, List.nil_append]
    have hfailed : s.failed = false := (Bool.or_eq_false_iff.mp hopen).1
    refine ⟨?_, ?_, fun hf => absurd (hfailed.symm.trans hf) Bool.noConfusion⟩
    · exact htodo ▸ h.sent
    · exact htodo ▸ h.got
  | fail hopen => exact ⟨h.sent, h.got, fun _ => (Bool.or_eq_false_iff.mp hopen).2⟩
  | readFails hopen hready hc htake =>
    exact ⟨h.sent, h.got, fun _ => (Bool.or_eq_false_iff.mp hopen).2⟩

end Told

/-! ## The two parties of a benchmark -/

section

variable {M : Message → Type} {E : Type} {J : Json Message M E} {p : RunParams} {m : TwoSided}
  {s t : Talk (ClientCtl (ClientBench m)) (ServerCtl (ServerBench m)) M}

/-- Whether the client is still at it, or how it has returned. -/
def clientEnd (p : RunParams) (s : Talk (ClientCtl (ClientBench m)) (ServerCtl (ServerBench m)) M) :
    Status :=
  if s.client.failed then .err else s.client.ctl.status (benchRun p m).client

def serverEnd (p : RunParams) (s : Talk (ClientCtl (ClientBench m)) (ServerCtl (ServerBench m)) M) :
    Status :=
  if s.server.failed then .err else s.server.ctl.status (benchRun p m).server

/-- What holds of both. -/
structure Talk.Told (p : RunParams)
    (s : Talk (ClientCtl (ClientBench m)) (ServerCtl (ServerBench m)) M) : Prop where
  client : s.client.Told (fun c => c.status (benchRun p m).client ≠ .running)
    (ClientCtl.todo p m) (ClientCtl.todo p m .connect)
  server : s.server.Told (fun c => c.status (benchRun p m).server ≠ .running)
    (ServerCtl.todo p m) (ServerCtl.todo p m .recvRequest)

theorem onBytes_told (h : (onBytes J p m).Reachable s) : s.Told p := by
  refine h.invariant (I := Talk.Told p)
    ⟨⟨rfl, rfl, fun hf => absurd hf Bool.noConfusion⟩,
      ⟨rfl, rfl, fun hf => absurd hf Bool.noConfusion⟩⟩ fun s l t hs hstep => ?_
  cases l with
  | client a =>
    obtain ⟨c, hc, rfl⟩ := Option.map_eq_some_iff.mp hstep
    exact ⟨hs.client.move (client_keeps p m) (.of_step hc), hs.server⟩
  | server a =>
    obtain ⟨c, hc, rfl⟩ := Option.map_eq_some_iff.mp hstep
    exact ⟨hs.client, hs.server.move (server_keeps p m) (.of_step hc)⟩

/-- A client that has returned `Ok` is at the end of its session. -/
theorem client_done_of_ok (h : clientEnd p s = .ok) :
    s.client.failed = false ∧ ∃ c, s.client.ctl = .done c := by
  rw [clientEnd] at h
  split at h
  · exact Status.noConfusion h
  · next hf =>
    refine ⟨Bool.eq_false_iff.mpr hf, ?_⟩
    unfold ClientCtl.status at h
    split at h
    · split at h <;> exact Status.noConfusion h
    · next c hc => exact ⟨c, hc⟩
    · exact Status.noConfusion h

/-- And so is a server, which never turns a supported request down. -/
theorem server_done_of_ok (hsound : s.server.ctl.Sound p m) (h : serverEnd p s = .ok) :
    s.server.failed = false ∧ ∃ c, s.server.ctl = .done c := by
  rw [serverEnd] at h
  split at h
  · exact Status.noConfusion h
  · next hf =>
    refine ⟨Bool.eq_false_iff.mpr hf, ?_⟩
    unfold ServerCtl.status at h
    split at h
    · split at h <;> exact Status.noConfusion h
    · next c hc => exact ⟨c, hc⟩
    · next hc =>
      rw [hc] at hsound
      exact hsound.elim
    · exact Status.noConfusion h

/-- A client with nothing left to write has returned, if the parameters are taken. -/
theorem client_done_of_writes (hadmitted : (benchRun p m).admitted = true)
    {c : ClientCtl (ClientBench m)} (h : writes (c.todo p m) = []) : ∃ d, c = .done d := by
  have hrest : writes (clientRest p m) ≠ [] := by
    rw [clientRest, if_pos hadmitted, writes_append]
    exact List.append_ne_nil_of_right_ne_nil _ (List.cons_ne_nil _ _)
  cases c with
  | connect | sendRequest | recvAck | handshake | sendEndpoint =>
    exact absurd h (List.cons_ne_nil _ _)
  | start => exact absurd h hrest
  | bench c =>
    rw [ClientCtl.todo, writes_append] at h
    exact absurd (List.append_eq_nil_iff.mp h).2 (List.cons_ne_nil _ _)
  | done c => exact ⟨c, rfl⟩

/-- An item of the kind of a message is such a message. -/
theorem Sent.eq_message {x : Sent M} {k : Message} (h : x.item = k.item) :
    ∃ msg, x = .message k msg := by
  cases x with
  | message j msg =>
    obtain rfl := Message.item_injective h
    exact ⟨msg, rfl⟩
  | barrier => exact absurd h.symm k.item_ne_barrier

/-- The request comes first and the row last. -/
def HandedOver (request : M .benchmarkRequest) (row : M .resultRow) (sent : List (Sent M)) :
    Prop :=
  ∃ between, sent = .message .benchmarkRequest request :: between ++ [.message .resultRow row]

/-- **A client that has returned `Ok` has sent its whole session.** -/
theorem exists_handedOver (h : (onBytes J p m).Reachable s) (hsound : s.client.ctl.Sound p m)
    (hok : clientEnd p s = .ok) : ∃ request row, HandedOver request row s.client.sent := by
  obtain ⟨-, c, hc⟩ := client_done_of_ok hok
  have hsent := (onBytes_told h).client.sent
  rw [hc] at hsent hsound
  have hrest : writes (clientRest p m) =
      writes ((benchRun p m).client.todo (benchRun p m).client.program.init) ++ [.resultRow] := by
    rw [clientRest, if_pos hsound.1, writes_append]
    rfl
  rw [show writes (ClientCtl.todo p m (.done c)) = [] from rfl, List.append_nil,
    show writes (ClientCtl.todo p m .connect) = .benchmarkRequest :: ((.clientEndpoint ::
      writes ((benchRun p m).client.todo (benchRun p m).client.program.init)) ++ [.resultRow]) from
      congrArg (Item.benchmarkRequest :: Item.clientEndpoint :: ·) hrest] at hsent
  obtain ⟨x, xs, hx, hfirst, hmore⟩ := List.map_eq_cons_iff.mp hsent
  obtain ⟨between, last, hxs, -, hlast⟩ := List.map_eq_append_iff.mp hmore
  obtain ⟨y, hy, hrow⟩ := List.map_eq_singleton_iff.mp hlast
  obtain ⟨request, rfl⟩ := Sent.eq_message (k := .benchmarkRequest) hfirst
  obtain ⟨row, rfl⟩ := Sent.eq_message (k := .resultRow) hrow
  exact ⟨request, row, between, by rw [hx, hxs, hy]; rfl⟩

/-- The invariants of the run of `parties` that a run on bytes stands for. -/
theorem onBytes_kept (hJ : J.Faithful) (h : (onBytes J p m).Reachable s) :
    s.client.ctl.Sound p m ∧ s.server.ctl.Sound p m := by
  obtain ⟨u, hu, hmatch⟩ := exists_matches hJ h
  have hclient : u.client = s.client.ctl := congrArg Duo.client hmatch.duo
  have hserver : u.server = s.server.ctl := congrArg Duo.server hmatch.duo
  exact ⟨hclient ▸ (parties_kept hu).client, hserver ▸ (parties_kept hu).server⟩

theorem onBytes_linked (hJ : J.Faithful) (h : (onBytes J p m).Reachable s) :
    Linked (s.client.ctl.todo p m) (s.server.ctl.todo p m)
      ((pending s.client s.server).map Sent.item) ((pending s.server s.client).map Sent.item) :=
  (duo_inStep (client_keeps p m) (server_keeps p m) (dual_todo p m).linked
    (onBytes_sound hJ h).2).linked

/-- **A server that has returned `Ok` has outlasted the client**, which has returned `Ok`
as well, and nothing is under way between them. -/
theorem agreed_of_server_ok (hJ : J.Faithful) (h : (onBytes J p m).Reachable s)
    (hok : serverEnd p s = .ok) :
    clientEnd p s = .ok ∧ s.server.got = s.client.sent ∧ s.client.got = s.server.sent := by
  obtain ⟨hclient, hserver⟩ := onBytes_kept hJ h
  obtain ⟨hsound, -⟩ := onBytes_sound hJ h
  have hlinked := onBytes_linked hJ h
  obtain ⟨-, d, hd⟩ := server_done_of_ok hserver hok
  rw [hd] at hlinked hserver
  -- the server has nothing left to read, so the client has nothing left to write
  obtain ⟨hempty, hwrites⟩ := List.append_eq_nil_iff.mp hlinked.right.symm
  obtain ⟨c, hc⟩ := client_done_of_writes hserver.1 hwrites
  rw [hc] at hlinked
  have hempty' : (pending s.server s.client).map Sent.item = [] :=
    (List.append_eq_nil_iff.mp hlinked.left.symm).1
  have hopen : s.client.failed = false := by
    cases hf : s.client.failed with
    | false => rfl
    | true =>
      have hrunning := (onBytes_told h).client.open_of_failed hf
      rw [hc] at hrunning
      exact absurd hrunning (by simp [ClientCtl.status])
  refine ⟨?_, ?_, ?_⟩
  · rw [clientEnd, hopen, hc]
    rfl
  · have hsent := hsound.toServer.sent_eq
    rwa [List.map_eq_nil_iff.mp hempty, List.append_nil] at hsent
  · have hsent := hsound.toClient.sent_eq
    rwa [List.map_eq_nil_iff.mp hempty', List.append_nil] at hsent

/-- **Once the client has returned `Ok`, no read of the server fails.** -/
theorem server_reads_of_client_ok (hJ : J.Faithful) (h : (onBytes J p m).Reachable s)
    (hok : clientEnd p s = .ok) {want : Wanted Message}
    (hstep : (onBytes J p m).step s (.server (.receive want)) = some t) :
    t.server.failed = false := by
  obtain ⟨-, c, hc⟩ := client_done_of_ok hok
  obtain ⟨hsound, -⟩ := onBytes_sound hJ h
  have hlinked := onBytes_linked hJ h
  rw [hc] at hlinked
  cases hfail : t.server.failed with
  | false => rfl
  | true =>
    obtain ⟨r, hr, rfl⟩ := Option.map_eq_some_iff.mp hstep
    obtain ⟨-, hgot⟩ := hsound.toServer.of_receive hJ (onBytes_aligned hJ h).2 hr hfail
    have hpending : pending s.client s.server = [] := by
      rw [pending, hgot, List.drop_length]
    -- nothing is left to be read, and yet the server's program is at a read
    have hreads : reads (s.server.ctl.todo p m) = [] := by
      rw [hlinked.right, hpending]
      rfl
    obtain ⟨-, hr⟩ := Option.ite_none_left_eq_some.mp hr
    obtain ⟨-, hr⟩ := Option.ite_none_right_eq_some.mp hr
    obtain ⟨d, hd, -⟩ := Option.map_eq_some_iff.mp hr
    rw [server_keeps p m _ _ _ hd] at hreads
    exact absurd hreads (List.cons_ne_nil _ _)

/-- A client that has returned `Ok` has nothing more to come. -/
theorem client_got_of_ok (hJ : J.Faithful) (h : (onBytes J p m).Reachable s)
    (hok : clientEnd p s = .ok) : s.client.got = s.server.sent := by
  obtain ⟨-, c, hc⟩ := client_done_of_ok hok
  have hlinked := onBytes_linked hJ h
  rw [hc] at hlinked
  have hempty := (List.append_eq_nil_iff.mp hlinked.left.symm).1
  have hsent := (onBytes_sound hJ h).1.toClient.sent_eq
  rwa [List.map_eq_nil_iff.mp hempty, List.append_nil] at hsent

end

/-- **What each side knows of the other when it has returned `Ok`**, in every mode, for
all parameters, however the streams are cut and wherever either party fails.  A server
knows that the client has returned `Ok` and that it holds all that the client sent.  A
client has sent its request first and its row last, has obtained all that the server
sent, and knows that no read of the server will fail any more. -/
theorem rows_agreed {M : Message → Type} {E : Type} {J : Json Message M E} (hJ : J.Faithful)
    (p : RunParams) (m : TwoSided)
    {s : Talk (ClientCtl (ClientBench m)) (ServerCtl (ServerBench m)) M}
    (h : (onBytes J p m).Reachable s) :
    (serverEnd p s = .ok →
      clientEnd p s = .ok ∧ s.server.got = s.client.sent ∧ s.client.got = s.server.sent) ∧
    (clientEnd p s = .ok →
      (∃ request row, HandedOver request row s.client.sent) ∧ s.client.got = s.server.sent ∧
      ∀ want t, (onBytes J p m).step s (.server (.receive want)) = some t →
        t.server.failed = false) := by
  refine ⟨agreed_of_server_ok hJ h, fun hok => ⟨?_, client_got_of_ok hJ h hok, ?_⟩⟩
  · exact exists_handedOver h (onBytes_kept hJ h).1 hok
  · intro want t hstep
    exact server_reads_of_client_ok hJ h hok hstep

/-- A `sync` on both sides, byte by byte. -/
def bytesRendezvous : List (TalkLabel fun _ => Bool) :=
  [.client (.send true .barrier), .server (.send true .barrier), .client (.arrive 1),
    .server (.arrive 1), .client (.receive .barrier), .server (.receive .barrier)]

/-- What goes before the first `sync`. -/
def bytesHandshake : List (TalkLabel fun _ => Bool) :=
  [.client (.act .skip), .client (.send true (.message .benchmarkRequest true)),
    .server (.arrive 5), .server (.receive (.message .benchmarkRequest)), .server (.act .skip),
    .server (.send true (.message .handshakeAck false)), .client (.arrive 6),
    .client (.receive (.message .handshakeAck)), .client (.act .skip),
    .client (.send true (.message .clientEndpoint true)), .client (.act .skip),
    .server (.arrive 5), .server (.receive (.message .clientEndpoint)), .server (.act .skip),
    .server (.act .skip)]

def bytesRow : List (TalkLabel fun _ => Bool) :=
  [.client (.send true (.message .resultRow true)), .server (.arrive 5),
    .server (.receive (.message .resultRow))]

/-- One message in bandwidth mode, to the row. -/
def bytesOneSend : List (TalkLabel fun _ => Bool) :=
  bytesHandshake ++ bytesRendezvous ++ [.client (.act .skip), .server (.act .skip)] ++
  bytesRendezvous ++ [.server (.act (.postReceive 0 0))] ++ bytesRendezvous ++
  [.client (.act (.clock 0)), .client (.act (.postSend 0 0)),
    .client (.act (.poll [⟨0, 8, true⟩])), .client (.act (.clock 0)), .server (.act (.clock 0)),
    .server (.act (.poll [⟨0, 8, true⟩])), .server (.act (.clock 0)), .server (.act .skip)] ++
  bytesRendezvous ++ bytesRow

theorem rows_agreed_one_send :
    ∃ s, (onBytes jsonBools oneMessage .bandwidth).Reachable s ∧ serverEnd oneMessage s = .ok ∧
      clientEnd oneMessage s = .ok ∧ s.server.got = s.client.sent ∧
      ∃ request row, HandedOver request row s.client.sent := by
  obtain ⟨s, hs, hok⟩ := System.Reachable.exists_of_run
    (S := onBytes jsonBools oneMessage .bandwidth)
    (p := fun s => decide (serverEnd oneMessage s = .ok)) bytesOneSend (by decide +kernel)
  obtain ⟨hserver, hclient⟩ := rows_agreed jsonBools_faithful oneMessage .bandwidth hs
  obtain ⟨hclientOk, hgot, -⟩ := hserver (of_decide_eq_true hok)
  exact ⟨s, hs, of_decide_eq_true hok, hclientOk, hgot, (hclient hclientOk).1⟩

end Framing
end RdmaBench
