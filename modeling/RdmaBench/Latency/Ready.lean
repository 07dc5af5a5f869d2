import RdmaBench.Latency.Tally

/-!
# Whether a receive is posted when a message arrives

An echo always finds a receive: `ping` posts one before it sends, and an echo
answers a send.  A ping finds one except at one program point.  `pong` sends its
echo *before* it posts the receive for the next ping, and between the two, at
`repost`, it has none posted; the client needs no more than the echo to send again
(`ping_finds_receive`).

The proof is linear arithmetic over two laws.  `Flow` counts each kind of message
from its post to the receive it lands in; `pingPong_sound` gives the counts at the
program points.  What neither knows is that the server has posted its first
receive by the time the client sends at all: that is what the third `sync` is for,
and it comes from the two sessions being in step (`server_entered`).
-/

namespace RdmaBench
namespace Latency

open Automaton Session

/-! ## Messages from post to receive -/

/-- Each message posted is with the device, under way, lost, or in a receive. -/
structure Flow (s : PingPong) : Prop where
  pings : s.client.sends + s.server.free =
    s.client.unsent + s.pings + s.lostPings + s.server.recvs
  echoes : s.server.sends + s.client.free =
    s.server.unsent + s.echoes + s.lostEchoes + s.client.recvs

/-- An act posts to the device, and polls what is no longer with it. -/
theorem Side.perform_flow {σ : Type} {s q : Side σ} {a : Act} (h : s.perform a = some q) :
    q.sends + s.unsent = s.sends + q.unsent ∧ q.recvs + s.free = s.recvs + q.free := by
  cases a with
  | postSend slot id =>
    rw [← Option.some.inj h]
    exact ⟨Nat.succ_add_eq_add_succ _ _, rfl⟩
  | postReceive slot id =>
    rw [← Option.some.inj h]
    exact ⟨rfl, Nat.succ_add_eq_add_succ _ _⟩
  | poll wcs =>
    obtain ⟨-, h⟩ := Option.ite_none_right_eq_some.mp h
    rw [← Option.some.inj h]
    exact ⟨rfl, rfl⟩
  | clock now =>
    obtain ⟨-, h⟩ := Option.ite_none_right_eq_some.mp h
    rw [← Option.some.inj h]
    exact ⟨rfl, rfl⟩
  | _ =>
    rw [← Option.some.inj h]
    exact ⟨rfl, rfl⟩

theorem Side.act_flow {σ : Type} {step : σ → Act → Option σ} {s t : Side σ} {a : Act}
    (h : s.act step a = some t) :
    t.sends + s.unsent = s.sends + t.unsent ∧ t.recvs + s.free = s.recvs + t.free := by
  obtain ⟨q, c, hq, -, rfl⟩ := Side.act_eq_some h
  have hflow := Side.perform_flow hq
  exact hflow

/-- **The flow is kept** by every step. -/
theorem Flow.step {p : Pairing} {s t : PingPong} {l : Label} (h : Flow s) (hm : Move p s l t) :
    Flow t := by
  obtain ⟨hpings, hechoes⟩ := h
  cases hm with
  | client _ hc | server _ hc =>
    obtain ⟨hsends, hrecvs⟩ := Side.act_flow hc
    constructor <;> simp only <;> omega
  | transmitPing hpos | transmitEcho hpos =>
    constructor <;> simp only [Side.transmit] <;> omega
  | landPing hpos hfree | landEcho hpos hfree =>
    constructor <;> simp only [Side.land] <;> omega
  | losePing hpos hfree | loseEcho hpos hfree =>
    constructor <;> simp only <;> omega
  | completeClient ht | completeServer ht =>
    rcases Side.complete_cases ht with ⟨-, -, rfl⟩ | ⟨-, -, rfl⟩ <;> exact ⟨hpings, hechoes⟩

theorem pingPong_flow (p : Pairing) {s : PingPong} (h : (pingPong p).Reachable s) : Flow s :=
  h.invariant (I := Flow) ⟨rfl, rfl⟩ fun _ _ _ hs hstep => hs.step (.of_step hstep)

/-! ## The third `sync` -/

/-- The connection between the two, with the queues left out. -/
def PingPong.duo (s : PingPong) : Duo PingCtl PongCtl := ⟨s.client.ctl, s.server.ctl, s.wire⟩

theorem Side.complete_ctl {σ : Type} {s t : Side σ} {c : Wc} (h : s.complete c = some t) :
    t.ctl = s.ctl := by
  rcases Side.complete_cases h with ⟨-, -, rfl⟩ | ⟨-, -, rfl⟩ <;> rfl

/-- **The two sessions stay in step**, whatever the queues do. -/
theorem pingPong_inStep (p : Pairing) {s : PingPong} (h : (pingPong p).Reachable s) :
    s.duo.InStep (pingProgram p.client) (pongProgram p.server) PingCtl.todo PongCtl.todo := by
  have hclient : PingCtl.todo (pingProgram p.client).init = barriers 4 := todo_enter_append _ 3
  have hserver : PongCtl.todo (pongProgram p.server).init = barriers 4 := todo_enter_append _ 3
  refine duo_inStep (ping_keeps _) (pong_keeps _) ?_
    (h.project PingPong.duo rfl fun s l t hstep => ?_)
  · rw [hclient, hserver]
    exact (dual_barriers 4).linked
  · cases Move.of_step hstep with
    | @client a w c hw hc =>
      obtain ⟨q, d, -, hd, rfl⟩ := Side.act_eq_some hc
      exact .inr ⟨.client a, by simp [duo, duoStep, PingPong.duo, hw, pingProgram, hd]⟩
    | @server a w c hw hc =>
      obtain ⟨q, d, -, hd, rfl⟩ := Side.act_eq_some hc
      exact .inr ⟨.server a, by simp [duo, duoStep, PingPong.duo, hw, pongProgram, hd]⟩
    | completeClient ht => exact .inl (by simp only [PingPong.duo, Side.complete_ctl ht])
    | completeServer ht => exact .inl (by simp only [PingPong.duo, Side.complete_ctl ht])
    | _ => exact .inl rfl

/-- A client that has sent has returned from three syncs. -/
theorem PingSound.returned_of_sends {p : Setup} {s : Side PingCtl} (h : PingSound p s)
    (hpos : 0 < s.sends) : 3 ≤ s.ctl.pc.phase.returned := by
  have hat := h.at_pc
  unfold PingAt at hat
  unfold PingPc.phase
  split at hat <;> simp only [*, Phase.returned]
  case h_1 | h_2 | h_3 | h_4 | h_5 => exact absurd hat.2.1 (by omega)
  all_goals omega

/-- **The client sends only after the server has posted its first receive.** -/
theorem server_entered (p : Pairing) {s : PingPong} (h : (pingPong p).Reachable s)
    (hpos : 0 < s.client.sends) : s.server.ctl.pc.before = false := by
  by_contra hbefore
  have hreturned := (pingPong_sound p h).1.returned_of_sends hpos
  have hentered := PongPc.entered_of_before (Bool.not_eq_false _ ▸ hbefore)
  have hle : s.client.ctl.pc.phase.returned ≤ s.server.ctl.pc.phase.entered :=
    returned_le_entered (pingPong_inStep p h).linked
      (Phase.reads_add_returned_le (PingPc.phase_entered_le _))
      (Phase.le_writes_add_entered _ _)
  omega

/-! ## Who is ready -/

/-- Away from `repost`, the server has posted one more receive than it has sent. -/
theorem PongSound.recvs_eq {p : Setup} {s : Side PongCtl} (h : PongSound p s)
    (hbefore : s.ctl.pc.before = false) (hpc : s.ctl.pc ≠ .repost) : s.recvs = s.sends + 1 := by
  have hat := h.at_pc
  cases hs : s.ctl.pc with
  | warmup q | sleep | settled q | postFirst => exact absurd hbefore (by simp [hs, PongPc.before])
  | posted q =>
    simp only [PongAt, hs] at hat
    rw [hat.1, hat.2.1]
  | wait w | send =>
    simp only [PongAt, hs] at hat
    rw [hat.2.1, hat.2.2.1]
  | repost => exact absurd hs hpc
  | finish q | done => simpa only [PongAt, hs] using hat

/-- **An echo that arrives finds a receive posted.** -/
theorem echo_finds_receive (p : Pairing) {s : PingPong} (h : (pingPong p).Reachable s)
    (hpos : 0 < s.echoes) : 0 < s.client.free := by
  obtain ⟨hping, hpong⟩ := pingPong_sound p h
  obtain ⟨hpings, hechoes⟩ := pingPong_flow p h
  have hrecvs := hpong.balanced.recvs
  have hsends := hpong.sends_le
  have hle := hping.sends_le
  omega

/-- **A ping that arrives finds a receive posted, unless `pong` is between its
`post_send` and its `post_receive`.** -/
theorem ping_finds_receive (p : Pairing) {s : PingPong} (h : (pingPong p).Reachable s)
    (hpos : 0 < s.pings) : 0 < s.server.free ↔ s.server.ctl.pc ≠ .repost := by
  obtain ⟨hping, hpong⟩ := pingPong_sound p h
  obtain ⟨hpings, hechoes⟩ := pingPong_flow p h
  have hcrecvs := hping.balanced.recvs
  have hsrecvs := hpong.balanced.recvs
  have hsends := hping.sends_le
  have hpolled := hping.recvs_polled
  constructor
  · intro hfree hrepost
    have hat := hpong.at_pc
    simp only [PongAt, hrepost] at hat
    obtain ⟨-, -, hrecvs, hrp⟩ := hat
    omega
  · intro hrepost
    rcases Nat.eq_zero_or_pos s.client.sends with hzero | hsent
    · omega
    · have heq := hpong.recvs_eq (server_entered p h hsent) hrepost
      omega

end Latency
end RdmaBench
