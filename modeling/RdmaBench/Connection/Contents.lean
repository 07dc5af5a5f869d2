import RdmaBench.Connection.Bytes
import RdmaBench.Connection.Parties

/-!
# A benchmark over bytes

`run_once` and `handle_connection` on two byte streams.  `onBytes` is the two of them
as a `Talk`: their reads and writes are those of `Conn`, with a value for every
message.  It refines `parties` (`bytes_refine`), in which the same two exchange items.

With that the values are settled as well.  What a party obtains is the front of what
the other sent, value by value, whatever came in one read and whatever was cut in two;
and the only read that fails is one that finds the end of the stream, when the other
has closed its end and has nothing left to be read.
-/

namespace RdmaBench
namespace Framing

open Automaton Session

variable {M : Message → Type} {E : Type}

/-- One benchmark between two parties over bytes. -/
def onBytes (J : Json Message M E) (p : RunParams) (m : TwoSided) :
    System (Talk (ClientCtl (ClientBench m)) (ServerCtl (ServerBench m)) M) (TalkLabel M) :=
  talk J (clientProgram p m) (serverProgram p m)
    (fun c => c.status (benchRun p m).client ≠ .running)
    (fun c => c.status (benchRun p m).server ≠ .running)

section

variable {J : Json Message M E} {p : RunParams} {m : TwoSided}
  {s : Talk (ClientCtl (ClientBench m)) (ServerCtl (ServerBench m)) M}

theorem onBytes_sound (hJ : J.Faithful) (h : (onBytes J p m).Reachable s) :
    s.Sound J ∧ (duo (clientProgram p m) (serverProgram p m)).Reachable s.items :=
  talk_refines hJ (client_keeps p m) (server_keeps p m) (dual_todo p m).linked h

theorem onBytes_aligned (hJ : J.Faithful) (h : (onBytes J p m).Reachable s) :
    Aligned (clientProgram p m) s.server s.client ∧
      Aligned (serverProgram p m) s.client s.server := by
  have hin := duo_inStep (client_keeps p m) (server_keeps p m) (dual_todo p m).linked
    (onBytes_sound hJ h).2
  exact ⟨aligned_client (client_keeps p m) hin, aligned_server (server_keeps p m) hin⟩

/-- The state of `parties` that a state on bytes stands for. -/
structure Matches (s : Talk (ClientCtl (ClientBench m)) (ServerCtl (ServerBench m)) M)
    (t : Parties m) : Prop where
  duo : t.duo = s.items
  clientFailed : t.clientFailed = s.client.failed
  serverFailed : t.serverFailed = s.server.failed

theorem Matches.client_running {t : Parties m} (h : Matches s t)
    (hopen : s.client.closed (fun c => c.status (benchRun p m).client ≠ .running) = false) :
    t.clientStatus p = .running := by
  obtain ⟨hfailed, hstatus⟩ := Bool.or_eq_false_iff.mp hopen
  have hctl : t.client = s.client.ctl := congrArg Duo.client h.duo
  rw [Parties.clientStatus, h.clientFailed, hfailed, hctl]
  simpa using hstatus

theorem Matches.server_running {t : Parties m} (h : Matches s t)
    (hopen : s.server.closed (fun c => c.status (benchRun p m).server ≠ .running) = false) :
    t.serverStatus p = .running := by
  obtain ⟨hfailed, hstatus⟩ := Bool.or_eq_false_iff.mp hopen
  have hctl : t.server = s.server.ctl := congrArg Duo.server h.duo
  rw [Parties.serverStatus, h.serverFailed, hfailed, hctl]
  simpa using hstatus

/-- A step of `duo` by a client that is running is one of `parties`. -/
theorem partiesStep_client {t : Parties m} {a : Act} {d : Duo _ _}
    (hrun : t.clientStatus p = .running)
    (h : duoStep (clientProgram p m) (serverProgram p m) t.duo (.client a) = some d) :
    ∃ u, partiesStep p t (.client a) = some u ∧ u.duo = d ∧ u.clientFailed = t.clientFailed ∧
      u.serverFailed = t.serverFailed := by
  obtain ⟨w, hw, h⟩ := Option.bind_eq_some_iff.mp h
  obtain ⟨c, hc, rfl⟩ := Option.map_eq_some_iff.mp h
  refine ⟨{ t with client := c, wire := w, sends := t.sends + a.sends }, ?_, rfl, rfl, rfl⟩
  have hw' : t.wire.client a = some w := hw
  have hc' : clientStep p m t.client a = some c := hc
  rw [partiesStep, if_pos hrun, hw', Option.bind_some, hc']
  rfl

theorem partiesStep_server {t : Parties m} {a : Act} {d : Duo _ _}
    (hrun : t.serverStatus p = .running)
    (h : duoStep (clientProgram p m) (serverProgram p m) t.duo (.server a) = some d) :
    ∃ u, partiesStep p t (.server a) = some u ∧ u.duo = d ∧ u.clientFailed = t.clientFailed ∧
      u.serverFailed = t.serverFailed := by
  obtain ⟨w, hw, h⟩ := Option.bind_eq_some_iff.mp h
  obtain ⟨c, hc, rfl⟩ := Option.map_eq_some_iff.mp h
  refine ⟨{ t with server := c, wire := w, receives := t.receives + a.receives }, ?_, rfl, rfl,
    rfl⟩
  have hw' : t.wire.server a = some w := hw
  have hc' : serverStep p m t.server a = some c := hc
  rw [partiesStep, if_pos hrun, hw', Option.bind_some, hc']
  rfl

/-- **Every run on bytes is a run of `parties`.** -/
theorem exists_matches (hJ : J.Faithful) (h : (onBytes J p m).Reachable s) :
    ∃ t : Parties m, (parties p m).Reachable t ∧ Matches s t := by
  induction h with
  | init => exact ⟨_, .init, ⟨rfl, rfl, rfl⟩⟩
  | @step s s' l hreach _ hstep ih =>
    obtain ⟨t, ht, hmatch⟩ := ih
    obtain ⟨hclient, hserver⟩ := onBytes_aligned hJ hreach
    obtain ⟨-, hfollows⟩ := (onBytes_sound hJ hreach).1.step hJ hclient hserver hstep
    cases hfollows with
    | stay hitems hc hs =>
      exact ⟨t, ht, ⟨hmatch.duo.trans hitems.symm, hmatch.clientFailed.trans hc.symm,
        hmatch.serverFailed.trans hs.symm⟩⟩
    | @client a hopen hduo hc hs =>
      rw [← hmatch.duo] at hduo
      obtain ⟨u, hu, hud, huc, hus⟩ := partiesStep_client (hmatch.client_running hopen) hduo
      exact ⟨u, ht.step (l := .client a) hu, ⟨hud, by rw [huc, hmatch.clientFailed, hc],
        by rw [hus, hmatch.serverFailed, hs]⟩⟩
    | @server a hopen hduo hc hs =>
      rw [← hmatch.duo] at hduo
      obtain ⟨u, hu, hud, huc, hus⟩ := partiesStep_server (hmatch.server_running hopen) hduo
      exact ⟨u, ht.step (l := .server a) hu, ⟨hud, by rw [huc, hmatch.clientFailed, hc],
        by rw [hus, hmatch.serverFailed, hs]⟩⟩
    | clientFails hopen hitems hc hs =>
      refine ⟨{ t with clientFailed := true }, ht.step (l := .clientFails) ?_, ⟨?_, hc.symm, ?_⟩⟩
      · exact if_pos (hmatch.client_running hopen)
      · exact hmatch.duo.trans hitems.symm
      · exact hmatch.serverFailed.trans hs.symm
    | serverFails hopen hitems hc hs =>
      refine ⟨{ t with serverFailed := true }, ht.step (l := .serverFails) ?_, ⟨?_, ?_, hs.symm⟩⟩
      · exact if_pos (hmatch.server_running hopen)
      · exact hmatch.duo.trans hitems.symm
      · exact hmatch.clientFailed.trans hc.symm

end

/-- **A benchmark over bytes is a benchmark over items, and its messages arrive as they
were sent**, in every mode, for all parameters, however the two streams are cut and
wherever either party fails.  What a party has obtained is the front of what the other
has sent, in order and with its contents; the programs, the failures and the items under
way are those of a run of `parties`; and a read fails only when the other has closed its
end and everything it sent has been obtained. -/
theorem contents_kept {J : Json Message M E} (hJ : J.Faithful) (p : RunParams) (m : TwoSided)
    {s : Talk (ClientCtl (ClientBench m)) (ServerCtl (ServerBench m)) M}
    (h : (onBytes J p m).Reachable s) :
    s.server.got <+: s.client.sent ∧ s.client.got <+: s.server.sent ∧
    (∃ t : Parties m, (parties p m).Reachable t ∧ Matches s t) ∧
    (∀ want t, (onBytes J p m).step s (.client (.receive want)) = some t →
      t.client.failed = true →
        s.server.closed (fun c => c.status (benchRun p m).server ≠ .running) = true ∧
          s.client.got = s.server.sent) ∧
    ∀ want t, (onBytes J p m).step s (.server (.receive want)) = some t →
      t.server.failed = true →
        s.client.closed (fun c => c.status (benchRun p m).client ≠ .running) = true ∧
          s.server.got = s.client.sent := by
  obtain ⟨hsound, -⟩ := onBytes_sound hJ h
  obtain ⟨hclient, hserver⟩ := onBytes_aligned hJ h
  refine ⟨hsound.toServer.got, hsound.toClient.got, exists_matches hJ h,
    fun want t hstep hfail => ?_, fun want t hstep hfail => ?_⟩
  · obtain ⟨c, hc, rfl⟩ := Option.map_eq_some_iff.mp hstep
    exact hsound.toClient.of_receive hJ hclient hc hfail
  · obtain ⟨c, hc, rfl⟩ := Option.map_eq_some_iff.mp hstep
    exact hsound.toServer.of_receive hJ hserver hc hfail

/-- `jsonBool` for every message type. -/
def jsonBools : Json Message (fun _ => Bool) String where
  toString _ := jsonBool.toString ()
  fromStr _ := jsonBool.fromStr ()

theorem jsonBools_faithful : jsonBools.Faithful where
  no_newline h := jsonBool_faithful.no_newline (k := ()) h
  fromStr_line h := jsonBool_faithful.fromStr_line (k := ()) h

/-- The server's endpoint line and the first barrier come to it in one read. -/
theorem contents_kept_coalesced :
    ∃ s, (onBytes jsonBools oneMessage .bandwidth).Reachable s ∧ s.server.got.length = 3 ∧
      s.server.got <+: s.client.sent := by
  obtain ⟨s, hs, hlen⟩ := System.Reachable.exists_of_run
    (S := onBytes jsonBools oneMessage .bandwidth) (p := fun s => decide (s.server.got.length = 3))
    [.client (.act .skip), .client (.send true (.message .benchmarkRequest true)),
      .server (.arrive 2), .server (.arrive 3), .server (.receive (.message .benchmarkRequest)),
      .server (.act .skip), .server (.send true (.message .handshakeAck false)),
      .client (.arrive 6), .client (.receive (.message .handshakeAck)), .client (.act .skip),
      .client (.send true (.message .clientEndpoint true)), .client (.act .skip),
      .client (.send true .barrier), .server (.arrive 6),
      .server (.receive (.message .clientEndpoint)), .server (.act .skip), .server (.act .skip),
      .server (.send true .barrier), .server (.receive .barrier)]
    (by decide +kernel)
  exact ⟨s, hs, of_decide_eq_true hlen, (contents_kept jsonBools_faithful oneMessage .bandwidth hs).1⟩

end Framing
end RdmaBench
