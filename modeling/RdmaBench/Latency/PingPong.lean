import RdmaBench.Latency.Programs

/-!
# `ping` and `pong` over a fabric

A `Side` is one of the two programs with its queue pair and its completion queue.
A posted send is first in the hands of the device (`unsent`), then out
(`sent`), then its completion is on the queue, then polled; a posted receive is
first `free`, then has a message in it (`landed`), then its completion is on the
queue, then polled.  The payloads play no part in this mode and every send has the
one id and every receive the other, so the stations are numbers.  When a
completion reaches the queue is the device's choice, and so is the order of the
two kinds; an entry leaves the queue by a poll and in no other way.  `sends`,
`recvs` and the two `Polled` fields count what has ever been posted and polled.

The fabric loses nothing: a message that is out arrives.  It is lost only where
it finds no receive posted (`lostPings`, `lostEchoes`).
-/

namespace RdmaBench
namespace Latency

open Automaton

/-! ## One side -/

/-- The send completions of a batch. -/
def sendsIn (wcs : List Wc) : ℕ := wcs.countP fun c => c.wrId = wrSend

/-- The receive completions of a batch. -/
def recvsIn (wcs : List Wc) : ℕ := wcs.countP fun c => c.wrId = wrRecv

/-- A program with its queue pair and its completion queue. -/
structure Side (σ : Type) where
  ctl : σ
  /-- The last reading of the clock. -/
  clock : ℕ := 0
  unsent : ℕ := 0
  sent : ℕ := 0
  free : ℕ := 0
  landed : ℕ := 0
  cq : List Wc := []
  sends : ℕ := 0
  sendsPolled : ℕ := 0
  recvs : ℕ := 0
  recvsPolled : ℕ := 0
  deriving DecidableEq

section Side

variable {σ : Type}

/-- What an act does to the two queues.  These have no depth here and a post never
fails. -/
def Side.perform (s : Side σ) : Act → Option (Side σ)
  | .postSend _ _ => some { s with unsent := s.unsent + 1, sends := s.sends + 1 }
  | .postReceive _ _ => some { s with free := s.free + 1, recvs := s.recvs + 1 }
  | .poll wcs =>
    if wcs <+: s.cq then
      some { s with
        cq := s.cq.drop wcs.length
        sendsPolled := s.sendsPolled + sendsIn wcs
        recvsPolled := s.recvsPolled + recvsIn wcs }
    else none
  | .clock now => if s.clock ≤ now then some { s with clock := now } else none
  | _ => some s

/-- An act of the program `step`. -/
def Side.act (step : σ → Act → Option σ) (s : Side σ) (a : Act) : Option (Side σ) :=
  (s.perform a).bind fun q => (step s.ctl a).map fun c => { q with ctl := c }

/-- The device transmits a message. -/
def Side.transmit (s : Side σ) : Side σ := { s with unsent := s.unsent - 1, sent := s.sent + 1 }

/-- A message lands in a posted receive. -/
def Side.land (s : Side σ) : Side σ := { s with free := s.free - 1, landed := s.landed + 1 }

/-- The completion of a send that is out, or of a receive that has its message,
reaches the queue. -/
def Side.complete (s : Side σ) (c : Wc) : Option (Side σ) :=
  if c.wrId = wrSend ∧ 0 < s.sent then some { s with sent := s.sent - 1, cq := s.cq ++ [c] }
  else if c.wrId = wrRecv ∧ 0 < s.landed then
    some { s with landed := s.landed - 1, cq := s.cq ++ [c] }
  else none

/-- Where the posted requests are. -/
structure Side.Balanced (s : Side σ) : Prop where
  sends : s.sends = s.unsent + s.sent + sendsIn s.cq + s.sendsPolled
  recvs : s.recvs = s.free + s.landed + recvsIn s.cq + s.recvsPolled
  ids : ∀ c ∈ s.cq, c.wrId = wrSend ∨ c.wrId = wrRecv

theorem Side.act_eq_some {step : σ → Act → Option σ} {s t : Side σ} {a : Act}
    (h : s.act step a = some t) :
    ∃ q c, s.perform a = some q ∧ step s.ctl a = some c ∧ t = { q with ctl := c } := by
  obtain ⟨q, hq, h⟩ := Option.bind_eq_some_iff.mp h
  obtain ⟨c, hc, rfl⟩ := Option.map_eq_some_iff.mp h
  exact ⟨q, c, hq, hc, rfl⟩

theorem countP_prefix_drop {α : Type} {p : α → Bool} {l m : List α} (h : l <+: m) :
    m.countP p = l.countP p + (m.drop l.length).countP p := by
  obtain ⟨r, rfl⟩ := h
  rw [List.drop_left, List.countP_append]

/-- **A poll moves completions from the queue to the polled.** -/
theorem Side.Balanced.perform {s q : Side σ} (h : s.Balanced) {a : Act}
    (hq : s.perform a = some q) : q.Balanced := by
  have hsends := h.sends
  have hrecvs := h.recvs
  cases a with
  | postSend slot id =>
    rw [← Option.some.inj hq]
    exact { h with sends := by simp only; omega }
  | postReceive slot id =>
    rw [← Option.some.inj hq]
    exact { h with recvs := by simp only; omega }
  | poll wcs =>
    rw [Side.perform] at hq
    split at hq
    · next hpre =>
      have hs : sendsIn s.cq = sendsIn wcs + sendsIn (s.cq.drop wcs.length) :=
        countP_prefix_drop hpre
      have hr : recvsIn s.cq = recvsIn wcs + recvsIn (s.cq.drop wcs.length) :=
        countP_prefix_drop hpre
      rw [← Option.some.inj hq]
      exact
        { sends := by simp only; omega
          recvs := by simp only; omega
          ids := fun c hc => h.ids c (List.mem_of_mem_drop hc) }
    · exact absurd hq (by simp)
  | clock now =>
    rw [Side.perform] at hq
    split at hq
    · rw [← Option.some.inj hq]
      exact { h with }
    · exact absurd hq (by simp)
  | _ =>
    rw [← Option.some.inj hq]
    exact h

theorem Side.Balanced.act {step : σ → Act → Option σ} {s t : Side σ} (h : s.Balanced) {a : Act}
    (ht : s.act step a = some t) : t.Balanced := by
  obtain ⟨q, c, hq, -, rfl⟩ := Side.act_eq_some ht
  exact { h.perform hq with }

theorem Side.Balanced.transmit {s : Side σ} (h : s.Balanced) (hs : 0 < s.unsent) :
    s.transmit.Balanced := by
  have hsends := h.sends
  exact { h with sends := by simp only [Side.transmit]; omega }

theorem Side.Balanced.land {s : Side σ} (h : s.Balanced) (hs : 0 < s.free) :
    s.land.Balanced := by
  have hrecvs := h.recvs
  exact { h with recvs := by simp only [Side.land]; omega }

/-- **A completion reaches the queue**: of a send, or of a receive. -/
theorem Side.complete_cases {s t : Side σ} {c : Wc} (h : s.complete c = some t) :
    (c.wrId = wrSend ∧ 0 < s.sent ∧ t = { s with sent := s.sent - 1, cq := s.cq ++ [c] }) ∨
      (c.wrId = wrRecv ∧ 0 < s.landed ∧
        t = { s with landed := s.landed - 1, cq := s.cq ++ [c] }) := by
  rw [Side.complete] at h
  split at h
  · next hc => exact .inl ⟨hc.1, hc.2, (Option.some.inj h).symm⟩
  · split at h
    · next hc => exact .inr ⟨hc.1, hc.2, (Option.some.inj h).symm⟩
    · exact absurd h (by simp)

theorem sendsIn_append (l m : List Wc) : sendsIn (l ++ m) = sendsIn l + sendsIn m :=
  List.countP_append

theorem recvsIn_append (l m : List Wc) : recvsIn (l ++ m) = recvsIn l + recvsIn m :=
  List.countP_append

theorem Side.Balanced.complete {s t : Side σ} (h : s.Balanced) {c : Wc}
    (ht : s.complete c = some t) : t.Balanced := by
  have hsends := h.sends
  have hrecvs := h.recvs
  have hids : ∀ id, c.wrId = id → (id = wrSend ∨ id = wrRecv) →
      ∀ d ∈ s.cq ++ [c], d.wrId = wrSend ∨ d.wrId = wrRecv := by
    intro id hc hid d hd
    rcases List.mem_append.mp hd with hd | hd
    · exact h.ids d hd
    · rw [List.mem_singleton.mp hd, hc]
      exact hid
  rcases Side.complete_cases ht with ⟨hc, hpos, rfl⟩ | ⟨hc, hpos, rfl⟩
  · have hs : sendsIn [c] = 1 := by simp [sendsIn, hc]
    have hr : recvsIn [c] = 0 := by simp [recvsIn, hc, wrSend, wrRecv]
    exact
      { sends := by simp only [sendsIn_append]; omega
        recvs := by simp only [recvsIn_append]; omega
        ids := hids _ hc (.inl rfl) }
  · have hs : sendsIn [c] = 0 := by simp [sendsIn, hc, wrSend, wrRecv]
    have hr : recvsIn [c] = 1 := by simp [recvsIn, hc]
    exact
      { sends := by simp only [sendsIn_append]; omega
        recvs := by simp only [recvsIn_append]; omega
        ids := hids _ hc (.inr rfl) }

end Side

/-! ## The two together -/

/-- The parameters of a run.  Each side is traced or not on its own. -/
structure Pairing where
  clientTraced : Bool
  serverTraced : Bool
  iterations : ℕ

def Pairing.client (p : Pairing) : Setup := ⟨p.clientTraced, p.iterations⟩

def Pairing.server (p : Pairing) : Setup := ⟨p.serverTraced, p.iterations⟩

/-- Both sides and everything between them. -/
structure PingPong where
  client : Side PingCtl
  server : Side PongCtl
  wire : Wire := {}
  pings : ℕ := 0
  echoes : ℕ := 0
  lostPings : ℕ := 0
  lostEchoes : ℕ := 0
  deriving DecidableEq

/-- Who moves: a program, or the fabric.  `arrive` names the side a message
reaches. -/
inductive Label where
  | client (a : Act)
  | server (a : Act)
  | transmit (role : Role)
  | arrive (role : Role)
  | complete (role : Role) (c : Wc)
  deriving DecidableEq

def pingPongStep (p : Pairing) (s : PingPong) : Label → Option PingPong
  | .client a => (s.wire.client a).bind fun w =>
      (s.client.act (pingStep p.client) a).map fun c => { s with client := c, wire := w }
  | .server a => (s.wire.server a).bind fun w =>
      (s.server.act (pongStep p.server) a).map fun c => { s with server := c, wire := w }
  | .transmit .client =>
    if 0 < s.client.unsent then
      some { s with client := s.client.transmit, pings := s.pings + 1 }
    else none
  | .transmit .server =>
    if 0 < s.server.unsent then
      some { s with server := s.server.transmit, echoes := s.echoes + 1 }
    else none
  | .arrive .server =>
    if 0 < s.pings then
      if 0 < s.server.free then
        some { s with server := s.server.land, pings := s.pings - 1 }
      else some { s with pings := s.pings - 1, lostPings := s.lostPings + 1 }
    else none
  | .arrive .client =>
    if 0 < s.echoes then
      if 0 < s.client.free then
        some { s with client := s.client.land, echoes := s.echoes - 1 }
      else some { s with echoes := s.echoes - 1, lostEchoes := s.lostEchoes + 1 }
    else none
  | .complete .client c => (s.client.complete c).map fun t => { s with client := t }
  | .complete .server c => (s.server.complete c).map fun t => { s with server := t }

/-- `ping` on the client and `pong` on the server. -/
def pingPong (p : Pairing) : System PingPong Label :=
  ⟨{ client := { ctl := (pingProgram p.client).init }
     server := { ctl := (pongProgram p.server).init } }, pingPongStep p⟩

/-- One step of the two together. -/
inductive Move (p : Pairing) (s : PingPong) : Label → PingPong → Prop
  | client {a : Act} {w : Wire} {c : Side PingCtl} (hw : s.wire.client a = some w)
      (hc : s.client.act (pingStep p.client) a = some c) :
      Move p s (.client a) { s with client := c, wire := w }
  | server {a : Act} {w : Wire} {c : Side PongCtl} (hw : s.wire.server a = some w)
      (hc : s.server.act (pongStep p.server) a = some c) :
      Move p s (.server a) { s with server := c, wire := w }
  | transmitPing (hpos : 0 < s.client.unsent) :
      Move p s (.transmit .client) { s with client := s.client.transmit, pings := s.pings + 1 }
  | transmitEcho (hpos : 0 < s.server.unsent) :
      Move p s (.transmit .server) { s with server := s.server.transmit, echoes := s.echoes + 1 }
  | landPing (hpos : 0 < s.pings) (hfree : 0 < s.server.free) :
      Move p s (.arrive .server) { s with server := s.server.land, pings := s.pings - 1 }
  | losePing (hpos : 0 < s.pings) (hfree : s.server.free = 0) :
      Move p s (.arrive .server) { s with pings := s.pings - 1, lostPings := s.lostPings + 1 }
  | landEcho (hpos : 0 < s.echoes) (hfree : 0 < s.client.free) :
      Move p s (.arrive .client) { s with client := s.client.land, echoes := s.echoes - 1 }
  | loseEcho (hpos : 0 < s.echoes) (hfree : s.client.free = 0) :
      Move p s (.arrive .client) { s with echoes := s.echoes - 1, lostEchoes := s.lostEchoes + 1 }
  | completeClient {c : Wc} {t : Side PingCtl} (ht : s.client.complete c = some t) :
      Move p s (.complete .client c) { s with client := t }
  | completeServer {c : Wc} {t : Side PongCtl} (ht : s.server.complete c = some t) :
      Move p s (.complete .server c) { s with server := t }

theorem Move.of_step {p : Pairing} {s t : PingPong} {l : Label}
    (h : (pingPong p).step s l = some t) : Move p s l t := by
  change pingPongStep p s l = some t at h
  cases l with
  | client a =>
    obtain ⟨w, hw, h⟩ := Option.bind_eq_some_iff.mp h
    obtain ⟨c, hc, rfl⟩ := Option.map_eq_some_iff.mp h
    exact .client hw hc
  | server a =>
    obtain ⟨w, hw, h⟩ := Option.bind_eq_some_iff.mp h
    obtain ⟨c, hc, rfl⟩ := Option.map_eq_some_iff.mp h
    exact .server hw hc
  | transmit role =>
    cases role with
    | client =>
      simp only [pingPongStep, Option.ite_none_right_eq_some] at h
      obtain ⟨hpos, h⟩ := h
      rw [← Option.some.inj h]
      exact .transmitPing hpos
    | server =>
      simp only [pingPongStep, Option.ite_none_right_eq_some] at h
      obtain ⟨hpos, h⟩ := h
      rw [← Option.some.inj h]
      exact .transmitEcho hpos
  | arrive role =>
    cases role with
    | client =>
      simp only [pingPongStep, Option.ite_none_right_eq_some] at h
      obtain ⟨hpos, h⟩ := h
      split at h
      · next hfree =>
        rw [← Option.some.inj h]
        exact .landEcho hpos hfree
      · next hfree =>
        rw [← Option.some.inj h]
        exact .loseEcho hpos (Nat.eq_zero_of_not_pos hfree)
    | server =>
      simp only [pingPongStep, Option.ite_none_right_eq_some] at h
      obtain ⟨hpos, h⟩ := h
      split at h
      · next hfree =>
        rw [← Option.some.inj h]
        exact .landPing hpos hfree
      · next hfree =>
        rw [← Option.some.inj h]
        exact .losePing hpos (Nat.eq_zero_of_not_pos hfree)
  | complete role c =>
    cases role with
    | client =>
      obtain ⟨t, ht, rfl⟩ := Option.map_eq_some_iff.mp h
      exact .completeClient ht
    | server =>
      obtain ⟨t, ht, rfl⟩ := Option.map_eq_some_iff.mp h
      exact .completeServer ht

/-- An act of the client, from what it does to the stream, the queues and the program. -/
theorem step_client {p : Pairing} {s : PingPong} {a : Act} {w : Wire} {q : Side PingCtl}
    {c : PingCtl} (hw : s.wire.client a = some w) (hq : s.client.perform a = some q)
    (hc : pingStep p.client s.client.ctl a = some c) :
    (pingPong p).step s (.client a) =
      some { s with client := { q with ctl := c }, wire := w } := by
  show (s.wire.client a).bind _ = _
  rw [hw]
  show (Side.act _ _ _).map _ = _
  rw [Side.act, hq]
  show (Option.map _ _).map _ = _
  rw [hc]
  rfl

theorem step_server {p : Pairing} {s : PingPong} {a : Act} {w : Wire} {q : Side PongCtl}
    {c : PongCtl} (hw : s.wire.server a = some w) (hq : s.server.perform a = some q)
    (hc : pongStep p.server s.server.ctl a = some c) :
    (pingPong p).step s (.server a) =
      some { s with server := { q with ctl := c }, wire := w } := by
  show (s.wire.server a).bind _ = _
  rw [hw]
  show (Side.act _ _ _).map _ = _
  rw [Side.act, hq]
  show (Option.map _ _).map _ = _
  rw [hc]
  rfl

/-! ## A schedule

A run of two untraced sides in which nobody waits, up to the completions the
server is given. -/

/-- Both sides through one `sync`. -/
def meet : List Label :=
  [.client (.write .barrier), .server (.write .barrier), .client (.read .barrier),
    .server (.read .barrier)]

/-- Both sides up to the heads of their loops. -/
def toLoops : List Label :=
  meet ++ [.client .skip, .server .skip] ++ meet ++
    [.client (.postReceive 0 wrRecv), .server (.postReceive 0 wrRecv)] ++ meet

def sendDone : Wc := ⟨wrSend, 0, true⟩

def recvDone : Wc := ⟨wrRecv, 0, true⟩

/-- A ping goes out and arrives. -/
def pingOver : List Label :=
  [.client (.clock 0), .client (.postSend 0 wrSend), .client (.clock 0), .transmit .client,
    .arrive .server]

/-- The server waits and is given the completions `wcs`. -/
def pongWoken (wcs : List Wc) : List Label :=
  .server (.clock 0) :: wcs.map (.complete .server) ++ [.server (.poll wcs), .server (.clock 0)]

/-- The server echoes, posts its receive, and the echo arrives. -/
def echoOver : List Label :=
  [.server (.postSend 0 wrSend), .server (.postReceive 0 wrRecv), .transmit .server,
    .arrive .client]

/-- The client gets both its completions and takes its sample. -/
def pingWoken : List Label :=
  [.complete .client sendDone, .complete .client recvDone, .client (.poll [sendDone, recvDone]),
    .client (.clock 0), .client (.clock 0)]

end Latency
end RdmaBench
