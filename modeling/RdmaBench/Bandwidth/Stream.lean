import RdmaBench.Bandwidth.Halves
import RdmaBench.Window.Device

/-!
# A whole bandwidth run

`Stream` is the client's `send` and the server's `receive` with their devices, the
connection between them, and a fabric that holds the messages under way.  All
messages are the same bytes and nobody looks at them, so the fabric counts them.

What the transport promises is in two places.  A drop is open on UC only.  And on RC
a send completes when its message has been delivered, on UC when it has been read.
Completions succeed: one that fails ends the run of its side with an error.

## Accounting

`Settling` says where the messages are, on either side of the fabric and in it.  It
holds in every run.  `QuietBreak` is the assumption on the receiver's clock, as in
an accuracy run: the idle break is not taken over an unpolled completion, and
nothing is delivered after it.  Under it the count the receiver ends with is the
number delivered (`stream_accounted`).

The sender's clock is the clock of the run, and `log` has what happens to the
messages with the time it happens.
-/

namespace RdmaBench
namespace Bandwidth

open Automaton Window

/-- What is asked for, over which transport, and whether each side traces. -/
structure StreamSetup where
  transport : Transport
  clientTracing : Bool
  serverTracing : Bool
  msgSize : ℕ
  iterations : ℕ
  txDepth : ℕ
  rxDepth : ℕ

/-- What `run` hands to `send`. -/
def StreamSetup.tx (q : StreamSetup) : Setup :=
  ⟨q.clientTracing, q.iterations, q.txDepth, q.rxDepth⟩

/-- What `run` hands to `receive`. -/
def StreamSetup.rx (q : StreamSetup) : Setup :=
  ⟨q.serverTracing, q.iterations, q.txDepth, q.rxDepth⟩

/-- What happens to a message. -/
inductive Station where
  | posted
  /-- The sender's device has read the buffer. -/
  | read
  | delivered
  /-- The sender has polled its completion. -/
  | polled
  deriving DecidableEq

/-- The two sides, the connection, the messages the sender's device has read, and the
clock. -/
structure Stream where
  tx : Node SendCtl
  rx : Node RecvCtl
  wire : Wire := {}
  /-- Read, neither delivered nor dropped. -/
  flight : ℕ := 0
  delivered : ℕ := 0
  dropped : ℕ := 0
  now : ℕ := 0
  log : List (Station × ℕ) := []
  deriving DecidableEq

inductive StreamLabel where
  | tx (a : Act)
  | rx (a : Act)
  | transmit
  | sent
  | deliver
  | drop
  | tick
  deriving DecidableEq

/-- A reading of the clock shows the time. -/
def onTime (now : ℕ) : Act → Bool
  | .clock t => decide (t = now)
  | _ => true

/-- What an act of the sender does to messages. -/
def stamps (now : ℕ) : Act → List (Station × ℕ)
  | .postSend _ _ => [(.posted, now)]
  | .poll wcs => List.replicate wcs.length (.polled, now)
  | _ => []

/-- One step of the run. -/
def streamStep (q : StreamSetup) (s : Stream) : StreamLabel → Option Stream
  | .tx a =>
    if onTime s.now a then
      (s.wire.client a).bind fun w => (s.tx.act (sendStep q.tx) a).map fun t =>
        { s with tx := t, wire := w, log := s.log ++ stamps s.now a }
    else none
  | .rx a => (s.wire.server a).bind fun w =>
      (s.rx.act (recvStep q.rx) a).map fun t => { s with rx := t, wire := w }
  | .transmit => s.tx.serve.map fun t =>
      { s with tx := t, flight := s.flight + 1, log := s.log ++ [(.read, s.now)] }
  | .sent =>
    -- on RC the messages served first are those delivered
    if q.transport = .rc → s.flight < s.tx.served.length then
      (s.tx.complete 0).map fun t => { s with tx := t }
    else none
  | .deliver =>
    if 0 < s.flight then
      (s.rx.serve.bind (Node.complete q.msgSize)).map fun t =>
        { s with
          rx := t
          flight := s.flight - 1
          delivered := s.delivered + 1
          log := s.log ++ [(.delivered, s.now)] }
    else none
  | .drop =>
    if q.transport ≠ .rc ∧ 0 < s.flight then
      some { s with flight := s.flight - 1, dropped := s.dropped + 1 }
    else none
  | .tick => some { s with now := s.now + 1 }

def stream (q : StreamSetup) : System Stream StreamLabel where
  init := { tx := { ctl := (sendProgram q.tx).init }, rx := { ctl := (recvProgram q.rx).init } }
  step := streamStep q

/-- The receiver gives up only over an empty completion queue, and nothing is
delivered once it has left its loop. -/
def QuietBreak (q : StreamSetup) (s : Stream) : StreamLabel → Prop
  | .rx a => s.rx.ctl.pc = .idle → (recvStep q.rx s.rx.ctl a).any (fun c => c.pc.past) = true →
      s.rx.cq = []
  | .deliver => s.rx.ctl.pc.past = false
  | _ => True

instance (q : StreamSetup) (s : Stream) : (l : StreamLabel) → Decidable (QuietBreak q s l)
  | .rx _ => inferInstanceAs (Decidable (_ → _ → _))
  | .deliver => inferInstanceAs (Decidable (_ = _))
  | .tx _ | .transmit | .sent | .drop | .tick => inferInstanceAs (Decidable True)

/-- The messages of the run that have neither been delivered nor dropped. -/
def Stream.pending (q : StreamSetup) (s : Stream) : ℕ :=
  (q.iterations - s.tx.posts.length) + s.tx.waiting.length + s.flight

/-! ## What a step counts -/

/-- Only a failed completion stops the sender. -/
theorem SendMove.failed {p : Setup} {c t : SendCtl} {a : Act} (hmove : SendMove p c a t)
    (hc : c.failed = false) :
    t.failed = false ∨ ∃ wcs, a = .poll wcs ∧ completionError wcs = true := by
  cases hmove with
  | pollError hpc hlt herr => exact .inr ⟨_, rfl, herr⟩
  | start hpc | prefill hpc =>
    refine .inl ?_
    rw [SendCtl.prefill]
    split <;> exact hc
  | poll hpc | refill hpc =>
    refine .inl ?_
    rw [SendCtl.refill]
    split <;> exact hc
  | _ => exact .inl hc

theorem RecvMove.failed {p : Setup} {c t : RecvCtl} {a : Act} (hmove : RecvMove p c a t)
    (hc : c.failed = false) :
    t.failed = false ∨ ∃ wcs, a = .poll wcs ∧ completionError wcs = true := by
  cases hmove with
  | pollError hpc hlt herr => exact .inr ⟨_, rfl, herr⟩
  | settled hpc | prefill hpc =>
    refine .inl ?_
    rw [RecvCtl.prefill]
    split <;> exact hc
  | progress hpc | refill hpc =>
    refine .inl ?_
    rw [RecvCtl.refill]
    split <;> exact hc
  | _ => exact .inl hc

/-- The sender counts what it polls. -/
theorem SendMove.completed_eq {p : Setup} {c t : SendCtl} {a : Act} (hmove : SendMove p c a t)
    (hok : t.failed = false) : t.completed = c.completed + a.reports := by
  cases hmove with
  | warming hpc ha | warmed hpc ha | settling hpc ha | settled hpc ha | waiting hpc ha
  | waited hpc ha | completing hpc ha | completed hpc ha =>
    rw [Act.reports_of_outOfBand ha]
    rfl
  | pollError hpc hlt herr => exact absurd hok (by simp)
  | start hpc | prefill hpc =>
    rw [SendCtl.prefill]
    split <;> rfl
  | poll hpc | refill hpc =>
    rw [SendCtl.refill]
    split <;> rfl
  | sleep hpc | leave hpc => rfl

/-- What the receiver has polled and not counted. -/
def RecvCtl.uncounted (c : RecvCtl) : ℕ :=
  match c.pc with
  | .progress n => n
  | _ => 0

/-- What the receiver has polled. -/
def RecvCtl.polled (c : RecvCtl) : ℕ := c.completed + c.uncounted

theorem RecvCtl.polled_eq {c : RecvCtl} (h : ∀ n, c.pc ≠ .progress n) :
    c.polled = c.completed := by
  rw [RecvCtl.polled, RecvCtl.uncounted]
  split
  · next n hpc => exact absurd hpc (h n)
  · rfl

theorem RecvCtl.polled_prefill (p : Setup) (c : RecvCtl) (i : ℕ) :
    (c.prefill p i).polled = c.completed := by
  rw [RecvCtl.prefill]
  split <;> rfl

theorem RecvCtl.polled_refill (p : Setup) (c : RecvCtl) (left : ℕ) :
    (c.refill p left).polled = c.completed := by
  rw [RecvCtl.refill]
  split <;> rfl

/-- So does the receiver, a step late. -/
theorem RecvMove.polled_eq {p : Setup} {c t : RecvCtl} {a : Act} (hmove : RecvMove p c a t)
    (hok : t.failed = false) : t.polled = c.polled + a.reports := by
  cases hmove with
  | warming hpc ha | warmed hpc ha | settling hpc ha | posting hpc ha | posted hpc ha
  | draining hpc ha | drained hpc ha =>
    rw [Act.reports_of_outOfBand ha, c.polled_eq (by simp [hpc])]
    rfl
  | settled hpc ha =>
    rw [Act.reports_of_outOfBand ha, c.polled_eq (by simp [hpc]), RecvCtl.polled_prefill]
    rfl
  | pollError hpc hlt herr => exact absurd hok (by simp)
  | prefill hpc =>
    rw [RecvCtl.polled_prefill, c.polled_eq (by simp [hpc])]
    rfl
  | refill hpc =>
    rw [RecvCtl.polled_refill, c.polled_eq (by simp [hpc])]
    rfl
  | progress hpc =>
    rw [RecvCtl.polled_refill, RecvCtl.polled, RecvCtl.uncounted, hpc]
    rfl
  | poll hpc =>
    rw [c.polled_eq (by simp [hpc])]
    rfl
  | sleep hpc | start hpc | pollEmpty hpc | leave hpc | timedOut hpc | retry hpc =>
    rw [c.polled_eq (by simp [hpc])]
    rfl

/-- How the receiver gets past its loop. -/
theorem RecvMove.to_past {p : Setup} {c t : RecvCtl} {a : Act} (hmove : RecvMove p c a t)
    (ht : t.pc.past = true) (hok : t.failed = false) :
    a.outOfBand = true ∧
      (c.pc.past = true ∨ c.pc = .idle ∨ c.pc = .head ∧ p.iterations ≤ c.completed) := by
  cases hmove with
  | settled hpc | prefill hpc =>
    rw [RecvCtl.prefill] at ht
    split at ht <;> exact absurd ht Bool.noConfusion
  | progress hpc | refill hpc =>
    rw [RecvCtl.refill] at ht
    split at ht <;> exact absurd ht Bool.noConfusion
  | pollError hpc hlt herr => exact absurd hok (by simp)
  | leave hpc hge => exact ⟨rfl, .inr (.inr ⟨hpc, hge⟩)⟩
  | timedOut hpc _ => exact ⟨rfl, .inr (.inl hpc)⟩
  | draining hpc ha | drained hpc ha => exact ⟨ha, .inl (by rw [hpc]; rfl)⟩
  | _ => exact absurd ht Bool.noConfusion

/-! ## Accounting -/

/-- Where every message of the run is. -/
structure Stream.Settling (q : StreamSetup) (s : Stream) : Prop where
  tx : s.tx.Counted sendView q.iterations q.tx.sendWindow s.tx.ctl.completed
  rx : s.rx.Counted (recvView q.iterations) q.iterations q.rx.recvWindow s.rx.ctl.polled
  accounted : s.tx.waiting.length + s.flight + s.delivered + s.dropped = s.tx.posts.length
  arrived : s.rx.waiting.length + s.delivered = s.rx.posts.length
  /-- An arrival is served and completed in one. -/
  landed : s.rx.served = []
  reliable : q.transport = .rc → s.dropped = 0 ∧ s.flight ≤ s.tx.served.length

section Steps

variable {q : StreamSetup} {s t : Stream}

theorem settling_init (q : StreamSetup) : (stream q).init.Settling q where
  tx := ⟨⟨⟨rfl, rfl, rfl, rfl⟩, Nat.zero_le _, rfl⟩, Nat.zero_le _, rfl, rfl,
    fun _ he => absurd he List.not_mem_nil⟩
  rx := ⟨⟨⟨rfl, rfl, rfl, rfl⟩, Nat.zero_le _, rfl⟩, Nat.zero_le _, rfl, rfl,
    fun _ he => absurd he List.not_mem_nil⟩
  accounted := rfl
  arrived := rfl
  landed := rfl
  reliable := fun _ => ⟨rfl, Nat.le_refl _⟩

/-- A step of the sending program. -/
theorem Stream.Settling.txAct (h : s.Settling q) {a : Act}
    (hstep : streamStep q s (.tx a) = some t) : t.Settling q := by
  obtain ⟨-, hstep⟩ := Option.ite_none_right_eq_some.mp hstep
  obtain ⟨w, -, hstep⟩ := Option.bind_eq_some_iff.mp hstep
  obtain ⟨u, hu, rfl⟩ := Option.map_eq_some_iff.mp hstep
  obtain ⟨n, c, -, hc, hctl⟩ := Node.act_eq_some hu
  have hmove := SendMove.of_step hc
  have hcu : u.ctl = c := by rw [hctl]
  obtain ⟨hserved, hwaiting, hposts⟩ := Node.act_stations hu
  have haccounted := h.accounted
  exact { h with
    tx := by
      refine h.tx.act (Nat.min_le_right _ _) hu (send_move (Node.act_toPosting hu)) ?_ ?_
      · rw [hcu]
        exact hmove.failed h.tx.running
      · rw [hcu]
        exact hmove.completed_eq
    accounted := by
      dsimp only
      omega
    reliable := fun hrc => by
      dsimp only
      rw [hserved]
      exact h.reliable hrc }

/-- A step of the receiving program. -/
theorem Stream.Settling.rxAct (h : s.Settling q) {a : Act}
    (hstep : streamStep q s (.rx a) = some t) : t.Settling q := by
  obtain ⟨w, -, hstep⟩ := Option.bind_eq_some_iff.mp hstep
  obtain ⟨u, hu, rfl⟩ := Option.map_eq_some_iff.mp hstep
  obtain ⟨n, c, -, hc, hctl⟩ := Node.act_eq_some hu
  have hmove := RecvMove.of_step hc
  have hcu : u.ctl = c := by rw [hctl]
  obtain ⟨hserved, hwaiting, hposts⟩ := Node.act_stations hu
  have harrived := h.arrived
  exact { h with
    rx := by
      refine h.rx.act (Nat.min_le_right _ _) hu (recv_move (Node.act_toPosting hu)) ?_ ?_
      · rw [hcu]
        exact hmove.failed h.rx.running
      · rw [hcu]
        exact hmove.polled_eq
    arrived := by
      dsimp only
      omega
    landed := hserved.trans h.landed }

/-- The sender's device reads the buffer. -/
theorem Stream.Settling.transmit (h : s.Settling q)
    (hstep : streamStep q s .transmit = some t) : t.Settling q := by
  obtain ⟨u, hu, rfl⟩ := Option.map_eq_some_iff.mp hstep
  have hsame := Node.serve_toPosting hu
  rw [Node.serve] at hu
  split at hu
  · next id rest hw =>
    have hu' := Option.some.inj hu
    have haccounted := h.accounted
    rw [hw, List.length_cons] at haccounted
    have htx := h.tx.device hsame (by rw [← hu']; exact h.tx.cq_ok)
    subst hu'
    exact { h with
      tx := htx
      accounted := by
        dsimp only
        omega
      reliable := fun hrc => by
        have hle := (h.reliable hrc).2
        refine ⟨(h.reliable hrc).1, ?_⟩
        dsimp only
        rw [List.length_append, List.length_singleton]
        omega }
  · exact absurd hu (by simp)

/-- The sender's device completes a send. -/
theorem Stream.Settling.sent (h : s.Settling q) (hstep : streamStep q s .sent = some t) :
    t.Settling q := by
  obtain ⟨hlt, hstep⟩ := Option.ite_none_right_eq_some.mp hstep
  obtain ⟨u, hu, rfl⟩ := Option.map_eq_some_iff.mp hstep
  have hsame := Node.complete_toPosting hu
  rw [Node.complete] at hu
  split at hu
  · next id rest hs =>
    have hu' := Option.some.inj hu
    have htx := h.tx.device hsame (by
      rw [← hu']
      intro e he
      rcases List.mem_append.mp he with he | he
      · exact h.tx.cq_ok e he
      · rw [List.mem_singleton.mp he])
    subst hu'
    exact { h with
      tx := htx
      reliable := fun hrc => by
        have hlt' := hlt hrc
        rw [hs, List.length_cons] at hlt'
        exact ⟨(h.reliable hrc).1, Nat.lt_succ_iff.mp hlt'⟩ }
  · exact absurd hu (by simp)

/-- The fabric delivers a message. -/
theorem Stream.Settling.deliver (h : s.Settling q) (hstep : streamStep q s .deliver = some t) :
    t.Settling q := by
  obtain ⟨hpos, hstep⟩ := Option.ite_none_right_eq_some.mp hstep
  obtain ⟨u, hu, rfl⟩ := Option.map_eq_some_iff.mp hstep
  obtain ⟨m, hm, hu⟩ := Option.bind_eq_some_iff.mp hu
  have hsame := (Node.complete_toPosting hu).trans (Node.serve_toPosting hm)
  rw [Node.serve] at hm
  split at hm
  · next id rest hw =>
    have hm' := Option.some.inj hm
    rw [← hm', Node.complete, h.landed] at hu
    have hu' := Option.some.inj hu
    have harrived := h.arrived
    have haccounted := h.accounted
    rw [hw, List.length_cons] at harrived
    have hrx := h.rx.device hsame (by
      rw [← hu']
      intro e he
      rcases List.mem_append.mp he with he | he
      · exact h.rx.cq_ok e he
      · rw [List.mem_singleton.mp he])
    subst hu'
    exact { h with
      rx := hrx
      accounted := by
        dsimp only
        omega
      arrived := by
        dsimp only
        omega
      landed := rfl
      reliable := fun hrc => ⟨(h.reliable hrc).1, Nat.le_trans (Nat.sub_le _ _)
        (h.reliable hrc).2⟩ }
  · exact absurd hm (by simp)

/-- The fabric drops a message. -/
theorem Stream.Settling.drop (h : s.Settling q) (hstep : streamStep q s .drop = some t) :
    t.Settling q := by
  obtain ⟨⟨huc, hpos⟩, hstep⟩ := Option.ite_none_right_eq_some.mp hstep
  have haccounted := h.accounted
  rw [← Option.some.inj hstep]
  exact { h with
    accounted := by
      dsimp only
      omega
    reliable := fun hrc => absurd hrc huc }

end Steps

/-- **Every run settles its accounts.** -/
theorem stream_settling {q : StreamSetup} {s : Stream} (h : (stream q).Reachable s) :
    s.Settling q := by
  refine h.invariant (settling_init q) fun s l t hs hstep => ?_
  cases l with
  | tx a => exact hs.txAct hstep
  | rx a => exact hs.rxAct hstep
  | transmit => exact hs.transmit hstep
  | sent => exact hs.sent hstep
  | deliver => exact hs.deliver hstep
  | drop => exact hs.drop hstep
  | tick =>
    rw [← Option.some.inj hstep]
    exact { hs with }

/-! ## What the receiver ends with -/

section Results

variable {q : StreamSetup} {s : Stream}

theorem Stream.Settling.delivered_add (h : s.Settling q) :
    s.delivered + (s.dropped + s.pending q) = q.iterations := by
  have haccounted := h.accounted
  have hle := h.tx.posts_le
  rw [Stream.pending]
  omega

/-- What has been delivered is waiting to be polled, or has been. -/
theorem Stream.Settling.polled_add (h : s.Settling q) :
    s.rx.ctl.polled + s.rx.cq.length = s.delivered := by
  have htally := h.rx.tally
  have harrived := h.arrived
  rw [h.landed, List.length_nil] at htally
  omega

/-- A sender out of its loop has polled the completion of every send. -/
theorem Stream.Settling.emptied (h : s.Settling q) (hleft : s.tx.ctl.pc.past = true) :
    s.tx.ctl.completed = q.iterations ∧ s.tx.posts.length = q.iterations ∧ s.tx.waiting = [] ∧
      s.tx.served = [] := by
  have hstage : (sendView.poster s.tx.toPosting).stage = .left := by
    refine sendView.stage_eq h.tx.running ?_
    change s.tx.ctl.pc.stage = .left
    cases hpc : s.tx.ctl.pc with
    | sendsCompleted | done => rfl
    | _ => exact absurd hleft (by simp [hpc, SendPc.past])
  have hat := h.tx.sound.stage_at
  simp only [StageAt, hstage] at hat
  have hcompleted : s.tx.ctl.completed = q.iterations := hat.1
  have htally := h.tx.tally
  have hle := h.tx.posts_le
  exact ⟨hcompleted, by omega, List.eq_nil_of_length_eq_zero (by omega),
    List.eq_nil_of_length_eq_zero (by omega)⟩

/-- **Once the receiver has left its loop, nothing waits to be polled.** -/
theorem stream_drained (h : (stream q).ReachableUnder (QuietBreak q) s) :
    s.rx.ctl.pc.past = true → s.rx.cq = [] := by
  induction h with
  | init => exact fun _ => rfl
  | @step s t l hreach hquiet hstep ih =>
    have hs := stream_settling hreach.reachable
    intro hpast
    cases l with
    | tx a =>
      obtain ⟨-, hstep⟩ := Option.ite_none_right_eq_some.mp hstep
      obtain ⟨w, -, hstep⟩ := Option.bind_eq_some_iff.mp hstep
      obtain ⟨u, -, rfl⟩ := Option.map_eq_some_iff.mp hstep
      exact ih hpast
    | rx a =>
      have ht := hs.rxAct hstep
      obtain ⟨w, -, hstep⟩ := Option.bind_eq_some_iff.mp hstep
      obtain ⟨u, hu, rfl⟩ := Option.map_eq_some_iff.mp hstep
      obtain ⟨n, c, hn, hc, hctl⟩ := Node.act_eq_some hu
      have hcu : u.ctl = c := by rw [hctl]
      have hrun : u.ctl.failed = false := ht.rx.running
      dsimp only at hpast
      rw [hcu] at hpast hrun
      obtain ⟨hband, hcase⟩ := (RecvMove.of_step hc).to_past hpast hrun
      rw [Node.perform_of_outOfBand hband] at hn
      have hcq : u.cq = s.rx.cq := by rw [hctl, ← Option.some.inj hn]
      dsimp only
      rw [hcq]
      rcases hcase with hold | hidle | ⟨hhead, hge⟩
      · exact ih hold
      · exact hquiet hidle (by rw [hc]; exact hpast)
      · -- everything has been counted, so nothing is waiting
        have hpolled := hs.polled_add
        have htotal := hs.delivered_add
        rw [s.rx.ctl.polled_eq (by simp [hhead])] at hpolled
        have hge' : q.iterations ≤ s.rx.ctl.completed := hge
        exact List.eq_nil_of_length_eq_zero (by omega)
    | transmit =>
      obtain ⟨u, -, rfl⟩ := Option.map_eq_some_iff.mp hstep
      exact ih hpast
    | sent =>
      obtain ⟨-, hstep⟩ := Option.ite_none_right_eq_some.mp hstep
      obtain ⟨u, -, rfl⟩ := Option.map_eq_some_iff.mp hstep
      exact ih hpast
    | deliver =>
      obtain ⟨-, hstep⟩ := Option.ite_none_right_eq_some.mp hstep
      obtain ⟨u, hu, rfl⟩ := Option.map_eq_some_iff.mp hstep
      obtain ⟨m, hm, hu⟩ := Option.bind_eq_some_iff.mp hu
      have hctl : u.ctl = s.rx.ctl :=
        congrArg Posting.ctl ((Node.complete_toPosting hu).trans (Node.serve_toPosting hm))
      dsimp only at hpast
      rw [hctl] at hpast
      exact absurd (hpast.symm.trans hquiet) Bool.noConfusion
    | drop =>
      obtain ⟨-, hstep⟩ := Option.ite_none_right_eq_some.mp hstep
      rw [← Option.some.inj hstep] at hpast ⊢
      exact ih hpast
    | tick =>
      rw [← Option.some.inj hstep] at hpast ⊢
      exact ih hpast

/-- How many messages the receiver says never arrived; it says nothing when all have. -/
def RecvCtl.shortfall (p : Setup) (c : RecvCtl) : Option ℕ :=
  if c.completed < p.iterations then some (p.iterations - c.completed) else none

/-- **The receiver's count is what was delivered.**  Once it has left its loop, the
messages it says never arrived are those that the fabric has dropped and those that
are still to come; and once the sender has left its own, the latter are the ones left
in the fabric.  Over RC a sender that has left its loop means that nothing is missing. -/
theorem stream_accounted (h : (stream q).ReachableUnder (QuietBreak q) s)
    (hleft : s.rx.ctl.pc.past = true) :
    s.rx.ctl.completed = s.delivered ∧
    s.rx.ctl.shortfall q.rx =
      (if s.dropped + s.pending q = 0 then none else some (s.dropped + s.pending q)) ∧
    (s.tx.ctl.pc.past = true → s.pending q = s.flight) ∧
    (s.tx.ctl.pc.past = true → q.transport = .rc → s.rx.ctl.shortfall q.rx = none) := by
  have hs := stream_settling h.reachable
  have hcompleted : s.rx.ctl.completed = s.delivered := by
    have hpolled := hs.polled_add
    rw [stream_drained h hleft, List.length_nil, s.rx.ctl.polled_eq] at hpolled
    · exact hpolled
    · intro n hpc
      exact absurd hleft (by simp [hpc, RecvPc.past])
  have htotal := hs.delivered_add
  have hshort : s.rx.ctl.shortfall q.rx =
      if s.dropped + s.pending q = 0 then none else some (s.dropped + s.pending q) := by
    rw [RecvCtl.shortfall, hcompleted]
    change (if s.delivered < q.iterations then some (q.iterations - s.delivered) else none) = _
    by_cases hzero : s.dropped + s.pending q = 0
    · rw [if_pos hzero, if_neg (by omega)]
    · rw [if_neg hzero, if_pos (by omega)]
      exact congrArg some (by omega)
  have hpending : s.tx.ctl.pc.past = true → s.pending q = s.flight := by
    intro hpast
    obtain ⟨-, hposts, hwaiting, -⟩ := hs.emptied hpast
    rw [Stream.pending, hposts, hwaiting, List.length_nil]
    omega
  refine ⟨hcompleted, hshort, hpending, fun hpast hrc => ?_⟩
  obtain ⟨hdropped, hflight⟩ := hs.reliable hrc
  obtain ⟨-, -, -, hserved⟩ := hs.emptied hpast
  rw [hserved, List.length_nil] at hflight
  rw [hshort, if_pos]
  rw [hpending hpast]
  omega

/-- Two messages over UC, of which the fabric drops one. -/
theorem stream_accounted_dropped :
    ∃ s, (stream ⟨.uc, false, false, 4, 2, 2, 2⟩).ReachableUnder
        (QuietBreak ⟨.uc, false, false, 4, 2, 2, 2⟩) s ∧
      s.rx.ctl.pc = .done ∧ s.dropped = 1 ∧ s.rx.ctl.completed = s.delivered := by
  obtain ⟨s, hs, hat⟩ := System.Reachable.exists_of_run
    (S := (stream ⟨.uc, false, false, 4, 2, 2, 2⟩).restrict
      (QuietBreak ⟨.uc, false, false, 4, 2, 2, 2⟩))
    (p := fun s => decide (s.rx.ctl.pc = .done ∧ s.dropped = 1))
    [.tx (.write .barrier), .rx (.write .barrier), .tx (.read .barrier), .rx (.read .barrier),
      .tx .skip, .rx .skip, .tx (.write .barrier), .rx (.write .barrier), .tx (.read .barrier),
      .rx (.read .barrier), .rx (.postReceive 0 0), .rx (.postReceive 0 1), .rx (.write .barrier),
      .tx (.write .barrier), .tx (.read .barrier), .rx (.read .barrier), .rx (.clock 0),
      .tx (.clock 0), .tx (.postSend 0 0), .tx (.postSend 0 1), .transmit, .transmit, .deliver,
      .drop, .sent, .sent, .tx (.poll [⟨0, 0, true⟩, ⟨1, 0, true⟩]), .tick, .tx (.clock 1),
      .tx (.write .barrier), .rx (.poll [⟨0, 4, true⟩]), .rx (.clock 5), .rx (.poll []),
      .rx (.clock 2010), .rx (.write .barrier), .rx (.read .barrier)] (by decide +kernel)
  have hquiet := System.ReachableUnder.of_restrict hs
  obtain ⟨hdone, hdropped⟩ := of_decide_eq_true hat
  exact ⟨s, hquiet, hdone, hdropped, (stream_accounted hquiet (by rw [hdone]; rfl)).1⟩

end Results

end Bandwidth
end RdmaBench
