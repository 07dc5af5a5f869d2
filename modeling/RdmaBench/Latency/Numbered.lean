import RdmaBench.Latency.Ready

/-!
# Round trips by number, over a fabric that drops

A completion says `SEND` or `RECV` and nothing else, so a side cannot tell which
round trip it belongs to.  Here every message carries what the programs do not
see: the number of the ping it is, or of the ping it answers.  The first ping has
number `0`, and an echo has the number of the ping that `pong` polled last
(`heard`).

The fabric hands a message over, or drops it; it makes none up and none twice, and
it need not keep their order.  A wait may run out at any point: `expire` ends it
whatever its clock says, and the runs without an `expire` are the programs' own.

`history` is what the client's timing is about: the readings of the clock around a
round trip, the post between them, and the completions polled, with their numbers.

Forgetting the numbers (`Numbered.side`) gives back a `Side`, act by act, so all
that is known of the counts of a `Side` is known here (`lossy_sound`).
-/

namespace RdmaBench
namespace Latency

open Automaton

/-! ## One side -/

/-- A program with its queue pair and its completion queue, every message under
its number.  The stations are those of `Side`. -/
structure Numbered (σ : Type) where
  ctl : σ
  clock : ℕ := 0
  unsent : List ℕ := []
  sent : List ℕ := []
  free : ℕ := 0
  landed : List ℕ := []
  cq : List (Wc × ℕ) := []
  sends : ℕ := 0
  sendsPolled : ℕ := 0
  recvs : ℕ := 0
  recvsPolled : ℕ := 0
  deriving DecidableEq

section Numbered

variable {σ : Type}

/-- What an act does to the two queues; `n` is the number of a message posted
now. -/
def Numbered.perform (s : Numbered σ) (n : ℕ) : Act → Option (Numbered σ)
  | .postSend _ _ => some { s with unsent := s.unsent ++ [n], sends := s.sends + 1 }
  | .postReceive _ _ => some { s with free := s.free + 1, recvs := s.recvs + 1 }
  | .poll wcs =>
    if wcs <+: s.cq.map Prod.fst then
      some { s with
        cq := s.cq.drop wcs.length
        sendsPolled := s.sendsPolled + sendsIn wcs
        recvsPolled := s.recvsPolled + recvsIn wcs }
    else none
  | .clock now => if s.clock ≤ now then some { s with clock := now } else none
  | _ => some s

/-- An act of the program `step`. -/
def Numbered.act (step : σ → Act → Option σ) (s : Numbered σ) (n : ℕ) (a : Act) :
    Option (Numbered σ) :=
  (s.perform n a).bind fun q => (step s.ctl a).map fun c => { q with ctl := c }

/-- The completions an act polls, with their numbers. -/
def Numbered.taken (s : Numbered σ) : Act → List (Wc × ℕ)
  | .poll wcs => s.cq.take wcs.length
  | _ => []

/-- The device transmits message `n`. -/
def Numbered.transmit (s : Numbered σ) (n : ℕ) : Numbered σ :=
  { s with unsent := s.unsent.erase n, sent := s.sent ++ [n] }

/-- Message `n` lands in a posted receive. -/
def Numbered.land (s : Numbered σ) (n : ℕ) : Numbered σ :=
  { s with free := s.free - 1, landed := s.landed ++ [n] }

/-- The completion of the send of message `n`, or of the receive it is in, reaches
the queue. -/
def Numbered.complete (s : Numbered σ) (c : Wc) (n : ℕ) : Option (Numbered σ) :=
  if c.wrId = wrSend ∧ n ∈ s.sent then
    some { s with sent := s.sent.erase n, cq := s.cq ++ [(c, n)] }
  else if c.wrId = wrRecv ∧ n ∈ s.landed then
    some { s with landed := s.landed.erase n, cq := s.cq ++ [(c, n)] }
  else none

/-- The side with the numbers forgotten. -/
def Numbered.side (s : Numbered σ) : Side σ where
  ctl := s.ctl
  clock := s.clock
  unsent := s.unsent.length
  sent := s.sent.length
  free := s.free
  landed := s.landed.length
  cq := s.cq.map Prod.fst
  sends := s.sends
  sendsPolled := s.sendsPolled
  recvs := s.recvs
  recvsPolled := s.recvsPolled

theorem Numbered.act_eq_some {step : σ → Act → Option σ} {s t : Numbered σ} {n : ℕ} {a : Act}
    (h : s.act step n a = some t) :
    ∃ q c, s.perform n a = some q ∧ step s.ctl a = some c ∧ t = { q with ctl := c } := by
  obtain ⟨q, hq, h⟩ := Option.bind_eq_some_iff.mp h
  obtain ⟨c, hc, rfl⟩ := Option.map_eq_some_iff.mp h
  exact ⟨q, c, hq, hc, rfl⟩

theorem Numbered.side_perform {s q : Numbered σ} {n : ℕ} {a : Act} (h : s.perform n a = some q) :
    s.side.perform a = some q.side := by
  cases a with
  | postSend slot id =>
    rw [← Option.some.inj h]
    simp only [Side.perform, Numbered.side, List.length_append, List.length_singleton]
  | poll wcs =>
    obtain ⟨hpre, h⟩ := Option.ite_none_right_eq_some.mp h
    rw [← Option.some.inj h, Side.perform]
    exact (if_pos hpre).trans (by simp only [Numbered.side, List.map_drop])
  | clock now =>
    obtain ⟨hle, h⟩ := Option.ite_none_right_eq_some.mp h
    rw [← Option.some.inj h, Side.perform]
    exact if_pos hle
  | _ =>
    rw [← Option.some.inj h]
    rfl

/-- **Forgetting the numbers keeps every act.** -/
theorem Numbered.side_act {step : σ → Act → Option σ} {s t : Numbered σ} {n : ℕ} {a : Act}
    (h : s.act step n a = some t) : s.side.act step a = some t.side := by
  obtain ⟨q, c, hq, hc, rfl⟩ := Numbered.act_eq_some h
  have hstep : step s.side.ctl a = some c := hc
  rw [Side.act, Numbered.side_perform hq, Option.bind_some, hstep]
  rfl

theorem Numbered.side_transmit {s : Numbered σ} {n : ℕ} (h : n ∈ s.unsent) :
    (s.transmit n).side = s.side.transmit := by
  simp only [Numbered.side, Numbered.transmit, Side.transmit, List.length_erase_of_mem h,
    List.length_append, List.length_singleton]

theorem Numbered.side_land (s : Numbered σ) (n : ℕ) : (s.land n).side = s.side.land := by
  simp only [Numbered.side, Numbered.land, Side.land, List.length_append, List.length_singleton]

/-- **A completion reaches the queue** under the number of its message. -/
theorem Numbered.complete_cases {s t : Numbered σ} {c : Wc} {n : ℕ}
    (h : s.complete c n = some t) :
    (c.wrId = wrSend ∧ n ∈ s.sent ∧
        t = { s with sent := s.sent.erase n, cq := s.cq ++ [(c, n)] }) ∨
      (c.wrId = wrRecv ∧ n ∈ s.landed ∧
        t = { s with landed := s.landed.erase n, cq := s.cq ++ [(c, n)] }) := by
  rw [Numbered.complete] at h
  split at h
  · next hc => exact .inl ⟨hc.1, hc.2, (Option.some.inj h).symm⟩
  · split at h
    · next hc => exact .inr ⟨hc.1, hc.2, (Option.some.inj h).symm⟩
    · exact absurd h (by simp)

theorem Numbered.side_complete {s t : Numbered σ} {c : Wc} {n : ℕ} (h : s.complete c n = some t) :
    s.side.complete c = some t.side := by
  rcases Numbered.complete_cases h with ⟨hc, hmem, rfl⟩ | ⟨hc, hmem, rfl⟩
  · have hpos : 0 < s.side.sent := List.length_pos_of_mem hmem
    rw [Side.complete, if_pos ⟨hc, hpos⟩]
    simp only [Numbered.side, List.length_erase_of_mem hmem, List.map_append, List.map_cons,
      List.map_nil]
  · have hpos : 0 < s.side.landed := List.length_pos_of_mem hmem
    have hne : ¬(c.wrId = wrSend ∧ 0 < s.side.sent) := by
      rw [hc]
      exact fun h => absurd h.1 (by decide)
    rw [Side.complete, if_neg hne, if_pos ⟨hc, hpos⟩]
    simp only [Numbered.side, List.length_erase_of_mem hmem, List.map_append, List.map_cons,
      List.map_nil]

/-- What a poll takes is what it returns. -/
theorem Numbered.map_taken {s q : Numbered σ} {n : ℕ} {wcs : List Wc}
    (h : s.perform n (.poll wcs) = some q) : (s.taken (.poll wcs)).map Prod.fst = wcs := by
  obtain ⟨hpre, -⟩ := Option.ite_none_right_eq_some.mp h
  rw [Numbered.taken, List.map_take]
  exact (List.prefix_iff_eq_take.mp hpre).symm

/-- What a poll takes was on the queue. -/
theorem Numbered.taken_subset (s : Numbered σ) (a : Act) : s.taken a ⊆ s.cq := by
  intro e he
  cases a with
  | poll wcs => exact List.mem_of_mem_take he
  | _ => exact absurd he (List.not_mem_nil)

end Numbered

/-! ## The two together -/

/-- What the client's timing is about. -/
inductive Happening where
  /-- The clock is read before a round trip. -/
  | began (now : ℕ)
  /-- Ping `n` is handed to the device. -/
  | posted (n : ℕ)
  /-- A completion of message `n` is polled. -/
  | reaped (c : Wc) (n : ℕ)
  /-- The clock is read for a sample. -/
  | sampled (now : ℕ)
  deriving DecidableEq

/-- Both sides and everything between them. -/
structure Lossy where
  client : Numbered PingCtl
  server : Numbered PongCtl
  wire : Wire := {}
  pings : List ℕ := []
  echoes : List ℕ := []
  /-- The ping the server has polled last. -/
  heard : ℕ := 0
  history : List Happening := []
  deriving DecidableEq

/-- Who moves: a program, or the fabric.  `arrive` and `drop` name the side a
message is bound for. -/
inductive LossyLabel where
  | client (a : Act)
  | server (a : Act)
  | expire (role : Role)
  | transmit (role : Role) (n : ℕ)
  | arrive (role : Role) (n : ℕ)
  | drop (role : Role) (n : ℕ)
  | complete (role : Role) (c : Wc) (n : ℕ)
  deriving DecidableEq

/-- What an act of the client adds to the history. -/
def happenings (s : Numbered PingCtl) : Act → List Happening
  | .clock now =>
    if s.ctl.pc = .head then [.began now]
    else if s.ctl.pc = .record then [.sampled now]
    else []
  | .postSend _ _ => [.posted s.sends]
  | .poll wcs => (s.taken (.poll wcs)).map fun e => .reaped e.1 e.2
  | _ => []

/-- The ping polled last, after a poll that took `es`. -/
def hear (heard : ℕ) (es : List (Wc × ℕ)) : ℕ :=
  es.foldl (fun n e => if e.1.wrId = wrRecv then e.2 else n) heard

/-- `ping` with its wait run out. -/
def PingCtl.expire (p : Setup) (c : PingCtl) : Option PingCtl :=
  match c.pc with
  | .wait _ => if c.failed then none else some (c.waited p .timedOut)
  | _ => none

/-- `pong` with its wait run out. -/
def PongCtl.expire (p : Setup) (c : PongCtl) : Option PongCtl :=
  match c.pc with
  | .wait _ => some (c.waited p .timedOut)
  | _ => none

def lossyStep (p : Pairing) (s : Lossy) : LossyLabel → Option Lossy
  | .client a => (s.wire.client a).bind fun w =>
      (s.client.act (pingStep p.client) s.client.sends a).map fun c =>
        { s with client := c, wire := w, history := s.history ++ happenings s.client a }
  | .server a => (s.wire.server a).bind fun w =>
      (s.server.act (pongStep p.server) s.heard a).map fun c =>
        { s with server := c, wire := w, heard := hear s.heard (s.server.taken a) }
  | .expire .client =>
      (s.client.ctl.expire p.client).map fun c => { s with client := { s.client with ctl := c } }
  | .expire .server =>
      (s.server.ctl.expire p.server).map fun c => { s with server := { s.server with ctl := c } }
  | .transmit .client n =>
    if n ∈ s.client.unsent then
      some { s with client := s.client.transmit n, pings := s.pings ++ [n] }
    else none
  | .transmit .server n =>
    if n ∈ s.server.unsent then
      some { s with server := s.server.transmit n, echoes := s.echoes ++ [n] }
    else none
  | .arrive .server n =>
    if n ∈ s.pings ∧ 0 < s.server.free then
      some { s with server := s.server.land n, pings := s.pings.erase n }
    else none
  | .arrive .client n =>
    if n ∈ s.echoes ∧ 0 < s.client.free then
      some { s with client := s.client.land n, echoes := s.echoes.erase n }
    else none
  | .drop .server n => if n ∈ s.pings then some { s with pings := s.pings.erase n } else none
  | .drop .client n => if n ∈ s.echoes then some { s with echoes := s.echoes.erase n } else none
  | .complete .client c n => (s.client.complete c n).map fun t => { s with client := t }
  | .complete .server c n => (s.server.complete c n).map fun t => { s with server := t }

/-- `ping` on the client and `pong` on the server, over a fabric that drops. -/
def lossy (p : Pairing) : System Lossy LossyLabel :=
  ⟨{ client := { ctl := (pingProgram p.client).init }
     server := { ctl := (pongProgram p.server).init } }, lossyStep p⟩

/-- One step of the two together. -/
inductive LossyMove (p : Pairing) (s : Lossy) : LossyLabel → Lossy → Prop
  | client {a : Act} {w : Wire} {c : Numbered PingCtl} (hw : s.wire.client a = some w)
      (hc : s.client.act (pingStep p.client) s.client.sends a = some c) :
      LossyMove p s (.client a)
        { s with client := c, wire := w, history := s.history ++ happenings s.client a }
  | server {a : Act} {w : Wire} {c : Numbered PongCtl} (hw : s.wire.server a = some w)
      (hc : s.server.act (pongStep p.server) s.heard a = some c) :
      LossyMove p s (.server a)
        { s with server := c, wire := w, heard := hear s.heard (s.server.taken a) }
  | expirePing {w : Wait} (hpc : s.client.ctl.pc = .wait w) (hrun : s.client.ctl.failed = false) :
      LossyMove p s (.expire .client)
        { s with client := { s.client with ctl := s.client.ctl.waited p.client .timedOut } }
  | expirePong {w : Wait} (hpc : s.server.ctl.pc = .wait w) :
      LossyMove p s (.expire .server)
        { s with server := { s.server with ctl := s.server.ctl.waited p.server .timedOut } }
  | transmitPing {n : ℕ} (hn : n ∈ s.client.unsent) :
      LossyMove p s (.transmit .client n)
        { s with client := s.client.transmit n, pings := s.pings ++ [n] }
  | transmitEcho {n : ℕ} (hn : n ∈ s.server.unsent) :
      LossyMove p s (.transmit .server n)
        { s with server := s.server.transmit n, echoes := s.echoes ++ [n] }
  | landPing {n : ℕ} (hn : n ∈ s.pings) (hfree : 0 < s.server.free) :
      LossyMove p s (.arrive .server n)
        { s with server := s.server.land n, pings := s.pings.erase n }
  | landEcho {n : ℕ} (hn : n ∈ s.echoes) (hfree : 0 < s.client.free) :
      LossyMove p s (.arrive .client n)
        { s with client := s.client.land n, echoes := s.echoes.erase n }
  | dropPing {n : ℕ} (hn : n ∈ s.pings) :
      LossyMove p s (.drop .server n) { s with pings := s.pings.erase n }
  | dropEcho {n : ℕ} (hn : n ∈ s.echoes) :
      LossyMove p s (.drop .client n) { s with echoes := s.echoes.erase n }
  | completeClient {c : Wc} {n : ℕ} {t : Numbered PingCtl} (ht : s.client.complete c n = some t) :
      LossyMove p s (.complete .client c n) { s with client := t }
  | completeServer {c : Wc} {n : ℕ} {t : Numbered PongCtl} (ht : s.server.complete c n = some t) :
      LossyMove p s (.complete .server c n) { s with server := t }

theorem PingCtl.expire_eq_some {p : Setup} {c t : PingCtl} (h : c.expire p = some t) :
    (∃ w, c.pc = .wait w) ∧ c.failed = false ∧ t = c.waited p .timedOut := by
  unfold PingCtl.expire at h
  split at h
  · next w hpc =>
    split at h
    · exact absurd h (by simp)
    · next hrun => exact ⟨⟨w, hpc⟩, Bool.eq_false_iff.mpr hrun, (Option.some.inj h).symm⟩
  · exact absurd h (by simp)

theorem PongCtl.expire_eq_some {p : Setup} {c t : PongCtl} (h : c.expire p = some t) :
    (∃ w, c.pc = .wait w) ∧ t = c.waited p .timedOut := by
  unfold PongCtl.expire at h
  split at h
  · next w hpc => exact ⟨⟨w, hpc⟩, (Option.some.inj h).symm⟩
  · exact absurd h (by simp)

/-- **Every step is one of the moves.** -/
theorem LossyMove.of_step {p : Pairing} {s t : Lossy} {l : LossyLabel}
    (h : (lossy p).step s l = some t) : LossyMove p s l t := by
  change lossyStep p s l = some t at h
  cases l with
  | client a =>
    obtain ⟨w, hw, h⟩ := Option.bind_eq_some_iff.mp h
    obtain ⟨c, hc, rfl⟩ := Option.map_eq_some_iff.mp h
    exact .client hw hc
  | server a =>
    obtain ⟨w, hw, h⟩ := Option.bind_eq_some_iff.mp h
    obtain ⟨c, hc, rfl⟩ := Option.map_eq_some_iff.mp h
    exact .server hw hc
  | expire role =>
    cases role with
    | client =>
      obtain ⟨c, hc, rfl⟩ := Option.map_eq_some_iff.mp h
      obtain ⟨⟨w, hpc⟩, hrun, rfl⟩ := PingCtl.expire_eq_some hc
      exact .expirePing hpc hrun
    | server =>
      obtain ⟨c, hc, rfl⟩ := Option.map_eq_some_iff.mp h
      obtain ⟨⟨w, hpc⟩, rfl⟩ := PongCtl.expire_eq_some hc
      exact .expirePong hpc
  | transmit role n =>
    cases role with
    | client =>
      obtain ⟨hn, h⟩ := Option.ite_none_right_eq_some.mp h
      rw [← Option.some.inj h]
      exact .transmitPing hn
    | server =>
      obtain ⟨hn, h⟩ := Option.ite_none_right_eq_some.mp h
      rw [← Option.some.inj h]
      exact .transmitEcho hn
  | arrive role n =>
    cases role with
    | client =>
      obtain ⟨⟨hn, hfree⟩, h⟩ := Option.ite_none_right_eq_some.mp h
      rw [← Option.some.inj h]
      exact .landEcho hn hfree
    | server =>
      obtain ⟨⟨hn, hfree⟩, h⟩ := Option.ite_none_right_eq_some.mp h
      rw [← Option.some.inj h]
      exact .landPing hn hfree
  | drop role n =>
    cases role with
    | client =>
      obtain ⟨hn, h⟩ := Option.ite_none_right_eq_some.mp h
      rw [← Option.some.inj h]
      exact .dropEcho hn
    | server =>
      obtain ⟨hn, h⟩ := Option.ite_none_right_eq_some.mp h
      rw [← Option.some.inj h]
      exact .dropPing hn
  | complete role c n =>
    cases role with
    | client =>
      obtain ⟨t, ht, rfl⟩ := Option.map_eq_some_iff.mp h
      exact .completeClient ht
    | server =>
      obtain ⟨t, ht, rfl⟩ := Option.map_eq_some_iff.mp h
      exact .completeServer ht

/-! ## The counts -/

/-- A wait that runs out leaves the counts of the client alone. -/
theorem PingSound.expire {p : Setup} {s : Side PingCtl} (h : PingSound p s) :
    PingSound p { s with ctl := s.ctl.waited p .timedOut } :=
  { h with balanced := { h.balanced with }, at_pc := trivial }

/-- So does one of the server. -/
theorem PongSound.expire {p : Setup} {s : Side PongCtl} {w : Wait} (h : PongSound p s)
    (hpc : s.ctl.pc = .wait w) : PongSound p { s with ctl := s.ctl.waited p .timedOut } := by
  have hat := h.at_pc
  simp only [PongAt, hpc] at hat
  have hrecvs : s.recvs = s.sends + 1 := hat.2.2.1.trans (by rw [hat.2.1])
  exact { h with balanced := { h.balanced with }, at_pc := hrecvs }

/-- **Both sides keep their counts**, whatever is dropped and whichever wait runs
out. -/
theorem lossy_sound (p : Pairing) {s : Lossy} (h : (lossy p).Reachable s) :
    PingSound p.client s.client.side ∧ PongSound p.server s.server.side := by
  refine h.invariant
    (I := fun s => PingSound p.client s.client.side ∧ PongSound p.server s.server.side) ⟨?_, ?_⟩
    fun s l t hs hstep => ?_
  · exact ⟨⟨rfl, rfl, by simp [lossy, Numbered.side]⟩, ⟨rfl, rfl, rfl, rfl, rfl⟩, Nat.le_refl 0,
      Nat.zero_le _, Nat.zero_le _⟩
  · exact ⟨⟨rfl, rfl, by simp [lossy, Numbered.side]⟩, ⟨rfl, rfl, rfl⟩, Nat.le_refl 0,
      Nat.zero_le _⟩
  · obtain ⟨hping, hpong⟩ := hs
    cases LossyMove.of_step hstep with
    | client _ hc => exact ⟨hping.act (Numbered.side_act hc), hpong⟩
    | server _ hc => exact ⟨hping, hpong.act (Numbered.side_act hc)⟩
    | expirePing _ _ => exact ⟨hping.expire, hpong⟩
    | expirePong hpc => exact ⟨hping, hpong.expire hpc⟩
    | transmitPing hn =>
      rw [Numbered.side_transmit hn]
      exact ⟨{ hping with balanced := hping.balanced.transmit (List.length_pos_of_mem hn) }, hpong⟩
    | transmitEcho hn =>
      rw [Numbered.side_transmit hn]
      exact ⟨hping, { hpong with balanced := hpong.balanced.transmit (List.length_pos_of_mem hn) }⟩
    | landPing _ hfree =>
      rw [Numbered.side_land]
      exact ⟨hping, { hpong with balanced := hpong.balanced.land hfree }⟩
    | landEcho _ hfree =>
      rw [Numbered.side_land]
      exact ⟨{ hping with balanced := hping.balanced.land hfree }, hpong⟩
    | dropPing _ | dropEcho _ => exact ⟨hping, hpong⟩
    | completeClient ht => exact ⟨hping.complete (Numbered.side_complete ht), hpong⟩
    | completeServer ht => exact ⟨hping, hpong.complete (Numbered.side_complete ht)⟩

/-- No more messages are under way and in receives than were posted: the rest is
dropped. -/
structure LossyFlow (s : Lossy) : Prop where
  pings : s.client.unsent.length + s.pings.length + s.server.recvs ≤
    s.client.sends + s.server.free
  echoes : s.server.unsent.length + s.echoes.length + s.client.recvs ≤
    s.server.sends + s.client.free

theorem LossyFlow.step {p : Pairing} {s t : Lossy} {l : LossyLabel} (h : LossyFlow s)
    (hm : LossyMove p s l t) : LossyFlow t := by
  obtain ⟨hpings, hechoes⟩ := h
  cases hm with
  | client _ hc | server _ hc =>
    obtain ⟨hsends, hrecvs⟩ := Side.act_flow (Numbered.side_act hc)
    simp only [Numbered.side] at hsends hrecvs
    constructor <;> simp only <;> omega
  | transmitPing hn | transmitEcho hn =>
    have hpos := List.length_pos_of_mem hn
    constructor <;>
      simp only [Numbered.transmit, List.length_erase_of_mem hn, List.length_append,
        List.length_singleton] <;> omega
  | landPing hn hfree | landEcho hn hfree =>
    have hpos := List.length_pos_of_mem hn
    constructor <;> simp only [Numbered.land, List.length_erase_of_mem hn] <;> omega
  | dropPing hn | dropEcho hn =>
    constructor <;> simp only [List.length_erase_of_mem hn] <;> omega
  | expirePing _ _ | expirePong _ => exact ⟨hpings, hechoes⟩
  | completeClient ht | completeServer ht =>
    rcases Numbered.complete_cases ht with ⟨-, -, rfl⟩ | ⟨-, -, rfl⟩ <;> exact ⟨hpings, hechoes⟩

theorem lossy_flow (p : Pairing) {s : Lossy} (h : (lossy p).Reachable s) : LossyFlow s := by
  refine h.invariant (I := LossyFlow) ⟨?_, ?_⟩ fun _ _ _ hs hstep => hs.step (.of_step hstep)
  · exact Nat.le_refl 0
  · exact Nat.le_refl 0

end Latency
end RdmaBench
