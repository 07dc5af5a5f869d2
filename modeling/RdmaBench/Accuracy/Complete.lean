import RdmaBench.Accuracy.Halves
import RdmaBench.Accuracy.Stream

/-!
# An accuracy run can always be completed

As long as nothing is dropped, no completion fails and the receiver does not give up,
every run of the two sides can be continued to the point where both have returned
`Ok`, and the report is then that of a perfect run (`stream_completes`).

Nothing holds the sender's messages back here: its device reads a slot whether or not
a receive is posted, and completes it afterwards.  What has to be shown is that the
sender never polls with nothing posted (`SendCtl.Replenished`), and that a receiver
with nothing in hand has a receive posted for the next message, its slots being spread
over its queues without a gap (`ReceiverNode.Spread`).

The measure, `distance`, counts the points ahead of either side and the stations ahead
of every message: not posted, posted and not read, in the fabric, received and not
polled.
-/

namespace RdmaBench
namespace Accuracy

open Automaton Session

/-- Nothing is dropped, no send fails, and the receiver does not give up. -/
def Lossless (q : StreamSetup) (s : Stream) : StreamLabel → Prop
  | .rx a => s.rx.ctl.pc = .idle → (recvStep q.rx s.rx.ctl a).any (fun c => c.pc.past) = false
  | .sent ok => ok = true
  | .drop _ => False
  | _ => True

/-! ## What the programs keep -/

/-- The sender has posted all that its window allows, or is about to. -/
def SendCtl.Replenished (p : Setup) (c : SendCtl) : Prop :=
  match c.pc with
  | .waitReceives _ | .prefillFill _ | .prefillPost _ => True
  | .head | .refillFill _ | .refillPost _ =>
    min p.iterations (p.window + c.completed) ≤ c.posted + c.reserve
  | .sendsCompleted _ | .recvReport | .done => p.iterations ≤ c.completed

section Control

variable {p : Setup}

theorem replenished_prefill {c : SendCtl} (seq : ℕ) (hzero : c.completed = 0) :
    (c.prefill p seq).Replenished p := by
  rw [SendCtl.prefill]
  split
  · trivial
  · show min p.iterations (p.window + c.completed) ≤ p.window + 0
    omega

theorem replenished_refill {c : SendCtl} {left : ℕ}
    (h : min p.iterations (p.window + c.completed) ≤ c.posted + left) :
    (c.refill p left).Replenished p := by
  rw [SendCtl.refill]
  split
  · show min p.iterations (p.window + c.completed) ≤ c.posted + (left - 1 + 1)
    omega
  · show min p.iterations (p.window + c.completed) ≤ c.posted + 0
    omega

/-- **A step of `send` posts one more for each completion.** -/
theorem SendMove.replenished {c t : SendCtl} {a : Act} (hmove : SendMove p c a t)
    (hord : c.Ordered p) (h : c.Replenished p) : t.Replenished p := by
  unfold SendCtl.Replenished at h
  cases hmove with
  | waiting hpc => trivial
  | @waited s _ hpc => exact replenished_prefill 0 (hord.waiting s hpc)
  | prefillFill hpc => trivial
  | @prefillPost seq hpc => exact replenished_prefill _ (hord.posting seq hpc).2
  | @poll wcs hpc =>
    simp only [hpc, SendCtl.reserve] at h
    refine replenished_refill ?_
    dsimp only
    omega
  | pollError hpc =>
    simp only [hpc, SendCtl.reserve] at h
    simp only [SendCtl.Replenished, hpc, SendCtl.reserve]
    exact h
  | leave hpc hge => exact hge
  | refillFill hpc =>
    simp only [hpc, SendCtl.reserve] at h
    exact h
  | refillPost hpc =>
    simp only [hpc, SendCtl.reserve] at h
    refine replenished_refill ?_
    dsimp only
    omega
  | completing hpc | completed hpc | recvReport hpc =>
    simp only [hpc] at h
    exact h

theorem SendCtl.Replenished.completed_of_past {c : SendCtl} (h : c.Replenished p)
    (hpast : c.pc.past = true) : p.iterations ≤ c.completed := by
  unfold SendCtl.Replenished at h
  cases hpc : c.pc with
  | sendsCompleted | recvReport | done => simpa only [hpc] using h
  | _ =>
    rw [hpc] at hpast
    exact absurd hpast Bool.noConfusion

/-- A poll of successful completions stops nobody. -/
theorem SendMove.running {c t : SendCtl} {a : Act} (hmove : SendMove p c a t)
    (hrun : c.failed = false) (hok : ∀ wcs, a = .poll wcs → completionError wcs = false) :
    t.failed = false := by
  cases hmove with
  | waited | prefillPost =>
    rw [SendCtl.prefill]
    split <;> exact hrun
  | poll | refillPost =>
    rw [SendCtl.refill]
    split <;> exact hrun
  | pollError _ _ herr => exact absurd (hok _ rfl) (by rw [herr]; exact Bool.noConfusion)
  | _ => exact hrun

theorem RecvCtl.stage_eq_left {c : RecvCtl} : c.stage = .left ↔ c.pc.past = true := by
  unfold RecvCtl.stage RecvPc.past
  split <;> simp_all

end Control

/-- Every slot that has been posted is at the device, or in the hands of the
program. -/
def ReceiverNode.Spread (p : Setup) (s : ReceiverNode) : Prop :=
  s.rq.length + s.cq.length + s.ctl.inHand.length = s.ctl.covered p

/-- **A step of `receive` loses no slot.** -/
theorem spread_act {p : Setup} {s t : ReceiverNode} {a : Act}
    (hfill : ∀ slot, s.ctl.pc = .prefill slot → slot < p.window) (h : s.Spread p)
    (hrun : t.ctl.failed = false) (hstep : receiverStep p s (.act a) = some t) : t.Spread p := by
  obtain ⟨c, u, hc, hu, rfl⟩ := receiverStep_act hstep
  have hadv := (RecvMove.of_step hc).advance hfill
  unfold ReceiverNode.Spread at h ⊢
  cases a with
  | postReceive slot wrId =>
    rw [ReceiverNode.perform] at hu
    obtain ⟨-, hu⟩ := Option.ite_none_right_eq_some.mp hu
    obtain rfl := Option.some.inj hu
    obtain ⟨-, -, -, -, -, ⟨hslot, hcov, hhand, hhand'⟩ | ⟨hhand, hcov⟩⟩ := hadv
    · rw [hhand] at h
      simp only [hhand', hcov, List.length_append, List.length_singleton, List.length_nil] at h ⊢
      omega
    · rw [hhand] at h
      simp only [hcov, List.length_append, List.length_cons, List.length_nil] at h ⊢
      omega
  | poll wcs =>
    rw [ReceiverNode.perform] at hu
    obtain ⟨hpre, hu⟩ := Option.ite_none_right_eq_some.mp hu
    obtain rfl := Option.some.inj hu
    obtain ⟨-, hhand, -, -, -, hcov, ⟨hfail, -⟩ | ⟨-, hhand', -⟩⟩ := hadv
    · exact absurd (hrun.symm.trans hfail) Bool.noConfusion
    · have hle := hpre.length_le
      rw [hhand] at h
      simp only [hhand', hcov, List.length_drop, List.length_map, List.length_nil] at h hle ⊢
      omega
  | inspect slot got =>
    rw [ReceiverNode.perform] at hu
    obtain ⟨-, hu⟩ := Option.ite_none_right_eq_some.mp hu
    obtain rfl := Option.some.inj hu
    obtain ⟨len, -, -, -, -, -, -, hhand, hcov⟩ := hadv
    simp only [hhand, hcov]
    exact h
  | write _ | read _ | postSend _ _ | fill _ _ | clock _ | skip =>
    obtain rfl := Option.some.inj hu
    obtain ⟨-, hhand, hcov, -⟩ := hadv
    simp only [hhand, hcov]
    exact h

/-- An arrival takes a slot from one queue to the other. -/
theorem spread_complete {p : Setup} {s t : ReceiverNode} {j : ℕ} {bytes : List UInt8} {ok : Bool}
    (h : s.Spread p) (hstep : receiverStep p s (.complete j bytes ok) = some t) : t.Spread p := by
  rw [receiverStep] at hstep
  split at hstep
  · next wr hwr =>
    obtain ⟨-, hstep⟩ := Option.ite_none_right_eq_some.mp hstep
    obtain rfl := Option.some.inj hstep
    obtain ⟨hlt, -⟩ := List.getElem?_eq_some_iff.mp hwr
    unfold ReceiverNode.Spread at h ⊢
    simp only [List.length_append, List.length_singleton, List.length_eraseIdx_of_lt hlt]
    omega
  · exact absurd hstep (by simp)

/-! ## Lossless runs -/

/-- What a receiver that leaves its loop has counted. -/
theorem RecvMove.received_of_left {p : Setup} {c t : RecvCtl} {a : Act} (hmove : RecvMove p c a t)
    (hfill : ∀ slot, c.pc = .prefill slot → slot < p.window) (ht : t.stage = .left)
    (hrun : t.failed = false) : t.checker.report.received = c.checker.report.received := by
  obtain ⟨ha, -⟩ := hmove.to_left ht hrun
  have hadv := hmove.advance hfill
  cases a with
  | write _ | read _ | clock _ | skip =>
    obtain ⟨-, -, -, ⟨hchecker, -⟩ | ⟨-, -, hstage⟩ | ⟨rfl, -⟩⟩ := hadv
    · rw [hchecker]
    · exact absurd (ht.symm.trans hstage) RecvStage.noConfusion
    · rfl
  | _ => exact absurd ha Bool.noConfusion

/-- What holds as long as nothing is lost. -/
structure Stream.Smooth (q : StreamSetup) (s : Stream) : Prop where
  settling : s.Settling q
  running : s.tx.ctl.failed = false
  sent_ok : ∀ e ∈ s.tx.cq, e.2.ok = true
  replenished : s.tx.ctl.Replenished q.tx
  spread : s.rx.Spread q.rx
  undropped : s.dropped = []
  full : s.rx.ctl.stage = .left → q.iterations ≤ s.rx.ctl.checker.report.received

theorem smooth_init (q : StreamSetup) : (stream q).init.Smooth q where
  settling := settling_init q
  running := rfl
  sent_ok := fun _ he => absurd he List.not_mem_nil
  replenished := trivial
  spread := by
    obtain ⟨-, hhand, hcov, -⟩ := prefill_covered (p := q.rx)
      (c := { pc := .prefill 0, checker := Checker.fresh q.rx.msgSize q.rx.iterations })
      (Nat.zero_le _)
    show 0 + 0 + (RecvCtl.prefill q.rx _ 0).inHand.length = (RecvCtl.prefill q.rx _ 0).covered q.rx
    rw [hhand, hcov]
    rfl
  undropped := rfl
  full := fun hleft => by
    obtain ⟨-, -, -, hstage, -⟩ := prefill_covered (p := q.rx)
      (c := { pc := .prefill 0, checker := Checker.fresh q.rx.msgSize q.rx.iterations })
      (Nat.zero_le _)
    exact absurd (hleft.symm.trans hstage) RecvStage.noConfusion

section Steps

variable {q : StreamSetup} {s t : Stream}

/-- A poll takes from the front of the queue. -/
theorem sender_cq_act {p : Setup} {s t : SenderNode} {a : Act}
    (hstep : senderStep p s (.act a) = some t) :
    (∀ e ∈ t.cq, e ∈ s.cq) ∧ ∀ wcs, a = .poll wcs → wcs <+: s.cq.map Prod.snd := by
  obtain ⟨c, u, -, hu, rfl⟩ := senderStep_act hstep
  cases a with
  | poll wcs =>
    rw [SenderNode.perform] at hu
    obtain ⟨hpre, hu⟩ := Option.ite_none_right_eq_some.mp hu
    obtain rfl := Option.some.inj hu
    exact ⟨fun _ he => List.mem_of_mem_drop he, fun _ h => Act.poll.inj h ▸ hpre⟩
  | fill slot seq | postSend slot wrId =>
    rw [SenderNode.perform] at hu
    obtain ⟨-, hu⟩ := Option.ite_none_right_eq_some.mp hu
    obtain rfl := Option.some.inj hu
    exact ⟨fun _ he => he, fun _ => Act.noConfusion⟩
  | write _ | read _ | postReceive _ _ | inspect _ _ | clock _ | skip =>
    obtain rfl := Option.some.inj hu
    exact ⟨fun _ he => he, fun _ => Act.noConfusion⟩

section Sizes

variable (hm : headerLen ≤ q.msgSize) (hsize : q.msgSize < usizeSize)
  (hcount : q.iterations < usizeSize)
include hm hsize hcount

/-- A receiver out of its loop has everything. -/
theorem Stream.Smooth.all_delivered (h : s.Smooth q) (hleft : s.rx.ctl.stage = .left) :
    s.delivered.length = q.iterations ∧ s.flight = [] := by
  have hreport := (h.settling.report hm hsize hcount hleft).1
  have hfull := h.full hleft
  have htotal := h.settling.delivered_le
  rw [Stream.pending] at htotal
  exact ⟨by omega, List.eq_nil_of_length_eq_zero (by omega)⟩

/-- **A lossless run is quiet where it has to be.** -/
theorem Stream.Smooth.quietBreak (h : s.Smooth q) {l : StreamLabel} (hkeep : Lossless q s l)
    (hstep : streamStep q s l = some t) : QuietBreak q s l := by
  cases l with
  | rx a =>
    intro c hc hidle hleft
    have hno := hkeep hidle
    rw [hc] at hno
    exact absurd ((RecvCtl.stage_eq_left.mp hleft).symm.trans hno) Bool.noConfusion
  | deliver i j =>
    intro hleft
    rw [streamStep, (h.all_delivered hm hsize hcount hleft).2] at hstep
    exact absurd hstep (by simp)
  | _ => trivial

variable (hn : 1 ≤ q.iterations)
include hn

/-- **Every lossless step.** -/
theorem Stream.Smooth.step (h : s.Smooth q) {l : StreamLabel} (hkeep : Lossless q s l)
    (hstep : streamStep q s l = some t) : t.Smooth q := by
  have hquiet := h.quietBreak hm hsize hcount hkeep hstep
  cases l with
  | tx a =>
    have hsettling := h.settling.txAct hn hm hsize hstep
    obtain ⟨w, -, hstep⟩ := Option.bind_eq_some_iff.mp hstep
    obtain ⟨u, hu, rfl⟩ := Option.map_eq_some_iff.mp hstep
    obtain ⟨hcq, hpre⟩ := sender_cq_act hu
    obtain ⟨c, v, hc, -, hctl⟩ := senderStep_act hu
    have hmove := SendMove.of_step hc
    have hcu : u.ctl = c := by rw [hctl]
    refine { h with
      settling := hsettling
      running := ?_
      sent_ok := fun e he => h.sent_ok e (hcq e he)
      replenished := ?_ }
    · rw [hcu]
      refine hmove.running h.running fun wcs hwcs => ?_
      rw [completionError, List.any_eq_false]
      intro wc hwc
      obtain ⟨e, he, rfl⟩ := List.mem_map.mp ((hpre wcs hwcs).subset hwc)
      rw [h.sent_ok e he]
      exact Bool.noConfusion
    · rw [hcu]
      exact hmove.replenished h.settling.tx.ordered h.replenished
  | rx a =>
    have hsettling := h.settling.rxAct hsize hquiet hstep
    obtain ⟨w, -, hstep⟩ := Option.bind_eq_some_iff.mp hstep
    obtain ⟨u, hu, rfl⟩ := Option.map_eq_some_iff.mp hstep
    obtain ⟨c, v, hc, -, hctl⟩ := receiverStep_act hu
    have hmove := RecvMove.of_step hc
    have hcu : u.ctl = c := by rw [hctl]
    have hrun : u.ctl.failed = false := hsettling.healthy.1
    refine { h with
      settling := hsettling
      spread := spread_act h.settling.rx.filling h.spread hrun hu
      full := fun hleft => ?_ }
    change u.ctl.stage = .left at hleft
    change q.iterations ≤ u.ctl.checker.report.received
    rw [hcu] at hleft hrun ⊢
    rw [hmove.received_of_left h.settling.rx.filling hleft hrun]
    obtain ⟨-, hbefore | hidle | ⟨-, hge⟩⟩ := hmove.to_left hleft hrun
    · exact h.full hbefore
    · have hno := hkeep hidle
      rw [hc] at hno
      exact absurd ((RecvCtl.stage_eq_left.mp hleft).symm.trans hno) Bool.noConfusion
    · exact hge
  | transmit i =>
    have hsettling := h.settling.transmit hn hm hsize hstep
    rw [streamStep] at hstep
    split at hstep
    · next wr hwr =>
      obtain ⟨u, hu, rfl⟩ := Option.map_eq_some_iff.mp hstep
      simp only [senderStep, hwr] at hu
      obtain ⟨-, hu⟩ := Option.ite_none_left_eq_some.mp hu
      obtain rfl := Option.some.inj hu
      exact { h with settling := hsettling }
    · exact absurd hstep (by simp)
  | sent ok =>
    have hsettling := h.settling.sent hn hm hsize hstep
    obtain ⟨u, hu, rfl⟩ := Option.map_eq_some_iff.mp hstep
    rw [senderStep] at hu
    split at hu
    · obtain ⟨-, hu⟩ := Option.ite_none_right_eq_some.mp hu
      obtain rfl := Option.some.inj hu
      refine { h with settling := hsettling, sent_ok := fun e he => ?_ }
      rcases List.mem_append.mp he with he | he
      · exact h.sent_ok e he
      · rw [List.mem_singleton.mp he]
        exact hkeep
    · exact absurd hu (by simp)
  | deliver i j =>
    have hsettling := h.settling.deliver hsize hquiet hstep
    rw [streamStep] at hstep
    split at hstep
    · next msg hmsg =>
      obtain ⟨u, hu, rfl⟩ := Option.map_eq_some_iff.mp hstep
      have hspread := spread_complete h.spread hu
      rw [receiverStep] at hu
      split at hu
      · obtain ⟨-, hu⟩ := Option.ite_none_right_eq_some.mp hu
        obtain rfl := Option.some.inj hu
        exact { h with settling := hsettling, spread := hspread }
      · exact absurd hu (by simp)
    · exact absurd hstep (by simp)
  | drop i => exact absurd hkeep id

/-- **Every lossless run is smooth.** -/
theorem stream_smooth (h : (stream q).ReachableUnder (Lossless q) s) : s.Smooth q :=
  h.invariant (smooth_init q) fun _ _ _ hs hkeep hstep => hs.step hm hsize hcount hn hkeep hstep

end Sizes

end Steps

/-! ## The measure -/

/-- The points ahead of the sender. -/
def SendPc.rank : SendPc → ℕ
  | .waitReceives s => 13 + s.ahead
  | .prefillFill _ | .head | .refillFill _ => 12
  | .prefillPost _ | .refillPost _ => 11
  | .sendsCompleted s => 2 + s.ahead
  | .recvReport => 1
  | .done => 0

/-- The points ahead of the receiver, with those of the batch in hand. -/
def RecvPc.rank (p : Setup) : RecvPc → ℕ
  | .prefill slot => 17 + (p.window - slot)
  | .receivesPosted s => 14 + s.ahead
  | .start => 13
  | .head => 10
  | .idle => 11
  | .progress batch => 11 + 2 * batch.length
  | .inspect _ _ rest => 12 + 2 * rest.length
  | .repost _ rest => 11 + 2 * rest.length
  | .checkingDone s => 2 + s.ahead
  | .sendReport => 1
  | .done => 0

/-- What is ahead of the sender and of the requests at its device. -/
def txLoad (q : StreamSetup) (n : SenderNode) : ℕ :=
  n.ctl.pc.rank + 10 * (q.iterations - n.ctl.issued) + 6 * n.unsent.length + 2 * n.sq.length +
    n.cq.length

/-- What is ahead of the receiver and of its completions. -/
def rxLoad (q : StreamSetup) (n : ReceiverNode) : ℕ := n.ctl.pc.rank q.rx + 4 * n.cq.length

def distance (q : StreamSetup) (s : Stream) : ℕ :=
  txLoad q s.tx + rxLoad q s.rx + 5 * s.flight.length

/-- Some lossless step lowers the distance. -/
def Nears (q : StreamSetup) (s : Stream) : Prop :=
  ∃ l t, Lossless q s l ∧ streamStep q s l = some t ∧ distance q t < distance q s

theorem SendCtl.rank_prefill (p : Setup) (c : SendCtl) (seq : ℕ) :
    (c.prefill p seq).pc.rank = 12 := by
  rw [SendCtl.prefill]
  split <;> rfl

theorem SendCtl.rank_refill (p : Setup) (c : SendCtl) (left : ℕ) :
    (c.refill p left).pc.rank = 12 := by
  rw [SendCtl.refill]
  split <;> rfl

theorem RecvCtl.rank_prefill_le (p : Setup) (c : RecvCtl) (slot : ℕ) :
    (c.prefill p slot).pc.rank p ≤ 17 + (p.window - slot) := by
  rw [RecvCtl.prefill]
  split
  · exact Nat.le_refl _
  · have hle := SyncPc.ahead_le (.enter p.tracing)
    simp only [RecvPc.rank]
    omega

theorem RecvCtl.rank_next (p : Setup) (c : RecvCtl) (batch : List (ℕ × ℕ)) :
    (c.next batch).pc.rank p = 10 + 2 * batch.length := by
  cases batch with
  | nil => rfl
  | cons m rest =>
    show 12 + 2 * rest.length = 10 + 2 * (rest.length + 1)
    omega

/-! ## In step -/

/-- The two programs over their connection. -/
def Stream.duo (s : Stream) : Duo SendCtl RecvCtl := ⟨s.tx.ctl, s.rx.ctl, s.wire⟩

/-- What `send` has to do on the connection. -/
def SendCtl.todo (c : SendCtl) : Session Item := c.pc.phase.todo 2 ++ c.pc.closing

def RecvCtl.todo (c : RecvCtl) : Session Item := c.pc.phase.todo 2 ++ c.pc.closing

/-- The two programs are where their sessions say. -/
abbrev Stream.InStep (q : StreamSetup) (s : Stream) : Prop :=
  s.duo.InStep (sendProgram q.tx) (recvProgram q.rx) SendCtl.todo RecvCtl.todo

theorem StreamSetup.window_pos (q : StreamSetup) :
    0 < q.tx.iterations → 0 < q.tx.window := fun h => Accuracy.window_pos .client q.txDepth q.rxDepth h

theorem send_keeps (q : StreamSetup) : Keeps (sendProgram q.tx) SendCtl.todo :=
  (sendHalf q.tx q.window_pos).keeps

theorem recv_keeps (q : StreamSetup) : Keeps (recvProgram q.rx) RecvCtl.todo :=
  (recvHalf q.rx).keeps

/-- What the device does leaves the program alone. -/
theorem ctl_of_transmit {p : Setup} {n u : SenderNode} {i : ℕ}
    (h : senderStep p n (.transmit i) = some u) : u.ctl = n.ctl := by
  rw [senderStep] at h
  split at h
  · obtain ⟨-, h⟩ := Option.ite_none_left_eq_some.mp h
    obtain rfl := Option.some.inj h
    rfl
  · exact absurd h (by simp)

theorem ctl_of_sent {p : Setup} {n u : SenderNode} {ok : Bool}
    (h : senderStep p n (.complete ok) = some u) : u.ctl = n.ctl := by
  rw [senderStep] at h
  split at h
  · obtain ⟨-, h⟩ := Option.ite_none_right_eq_some.mp h
    obtain rfl := Option.some.inj h
    rfl
  · exact absurd h (by simp)

theorem ctl_of_arrival {p : Setup} {n u : ReceiverNode} {j : ℕ} {bytes : List UInt8} {ok : Bool}
    (h : receiverStep p n (.complete j bytes ok) = some u) : u.ctl = n.ctl := by
  rw [receiverStep] at h
  split at h
  · obtain ⟨-, h⟩ := Option.ite_none_right_eq_some.mp h
    obtain rfl := Option.some.inj h
    rfl
  · exact absurd h (by simp)

theorem stream_inStep {q : StreamSetup} {s : Stream} (h : (stream q).Reachable s) :
    s.InStep q := by
  refine duo_inStep (send_keeps q) (recv_keeps q) (bench q.tx q.rx q.window_pos).dual.linked
    (h.project Stream.duo rfl fun s l t hstep => ?_)
  change streamStep q s l = some t at hstep
  cases l with
  | tx a =>
    obtain ⟨w, hw, hstep⟩ := Option.bind_eq_some_iff.mp hstep
    obtain ⟨u, hu, rfl⟩ := Option.map_eq_some_iff.mp hstep
    obtain ⟨c, v, hc, -, rfl⟩ := senderStep_act hu
    exact .inr ⟨.client a, duoStep_client (C := sendProgram q.tx) (S := recvProgram q.rx)
      (s := s.duo) hw hc⟩
  | rx a =>
    obtain ⟨w, hw, hstep⟩ := Option.bind_eq_some_iff.mp hstep
    obtain ⟨u, hu, rfl⟩ := Option.map_eq_some_iff.mp hstep
    obtain ⟨c, v, hc, -, rfl⟩ := receiverStep_act hu
    exact .inr ⟨.server a, duoStep_server (C := sendProgram q.tx) (S := recvProgram q.rx)
      (s := s.duo) hw hc⟩
  | transmit i =>
    rw [streamStep] at hstep
    split at hstep
    · obtain ⟨u, hu, rfl⟩ := Option.map_eq_some_iff.mp hstep
      exact .inl (by rw [Stream.duo, Stream.duo, ctl_of_transmit hu])
    · exact absurd hstep (by simp)
  | sent ok =>
    obtain ⟨u, hu, rfl⟩ := Option.map_eq_some_iff.mp hstep
    exact .inl (by rw [Stream.duo, Stream.duo, ctl_of_sent hu])
  | deliver i j =>
    rw [streamStep] at hstep
    split at hstep
    · obtain ⟨u, hu, rfl⟩ := Option.map_eq_some_iff.mp hstep
      exact .inl (by rw [Stream.duo, Stream.duo, ctl_of_arrival hu])
    · exact absurd hstep (by simp)
  | drop i =>
    rw [streamStep] at hstep
    split at hstep
    · obtain rfl := Option.some.inj hstep
      exact .inl rfl
    · exact absurd hstep (by simp)

section Nears

variable {q : StreamSetup} {s : Stream}

/-- A slot of the window can be posted. -/
theorem slotFits_of_window {p : Setup} {slot len : ℕ} (hregion : p.window * p.msgSize < usizeSize)
    (hlen : len = regionLen p.window p.msgSize) (hlt : slot < p.window) :
    SlotFits len slot p.msgSize := by
  rw [regionLen_eq hregion] at hlen
  exact slotFits_of_le (hlen ▸ hregion) (hlen ▸ Nat.mul_le_mul_right _ hlt)

/-! ## The sender's side -/

theorem streamStep_tx {a : Act} {w : Wire} {n : SenderNode} {c : SendCtl}
    (hw : s.wire.client a = some w) (hn : s.tx.perform q.tx a = some n)
    (hc : sendStep q.tx s.tx.ctl a = some c) :
    streamStep q s (.tx a) = some { s with tx := { n with ctl := c }, wire := w } := by
  rw [streamStep, hw, Option.bind_some, senderStep, hc, Option.bind_some, hn]
  rfl

/-- An act of the sender that gets on. -/
theorem nears_tx {a : Act} {w : Wire} {n : SenderNode} {c : SendCtl}
    (hw : s.wire.client a = some w) (hn : s.tx.perform q.tx a = some n)
    (hc : sendStep q.tx s.tx.ctl a = some c)
    (hlt : txLoad q { n with ctl := c } < txLoad q s.tx) : Nears q s := by
  refine ⟨.tx a, _, trivial, streamStep_tx hw hn hc, ?_⟩
  simp only [distance]
  omega

/-- One that leaves the device alone. -/
theorem nears_tx_band {a : Act} {w : Wire} {c : SendCtl} (ha : a.outOfBand = true)
    (hw : s.wire.client a = some w) (hc : sendStep q.tx s.tx.ctl a = some c)
    (hissued : c.issued = s.tx.ctl.issued) (hlt : c.pc.rank < s.tx.ctl.pc.rank) : Nears q s := by
  have hn : s.tx.perform q.tx a = some s.tx := by
    cases a with
    | write _ | read _ | clock _ | skip => rfl
    | _ => exact absurd ha Bool.noConfusion
  refine nears_tx hw hn hc ?_
  show c.pc.rank + 10 * (q.iterations - c.issued) + 6 * s.tx.unsent.length +
    2 * s.tx.sq.length + s.tx.cq.length < _
  rw [hissued, txLoad]
  omega

/-- Filling a slot. -/
theorem nears_tx_fill (hregion : q.tx.window * q.tx.msgSize < usizeSize) (hs : s.Smooth q)
    (slot seq : ℕ) {c : SendCtl} (hlt : slot < q.tx.window)
    (hc : sendStep q.tx s.tx.ctl (.fill slot seq) = some c)
    (hissued : c.issued = s.tx.ctl.issued) (hrank : c.pc.rank < s.tx.ctl.pc.rank) :
    Nears q s := by
  have hfits := slotFits_of_window hregion hs.settling.tx.length_mr hlt
  have hn : s.tx.perform q.tx (.fill slot seq) =
      some { s.tx with mr := fillSlot s.tx.mr q.tx.msgSize slot seq } := if_pos hfits
  refine nears_tx rfl hn hc ?_
  show c.pc.rank + 10 * (q.iterations - c.issued) + 6 * s.tx.unsent.length +
    2 * s.tx.sq.length + s.tx.cq.length < _
  rw [hissued, txLoad]
  omega

/-- Posting it. -/
theorem nears_tx_post (hregion : q.tx.window * q.tx.msgSize < usizeSize) (hs : s.Smooth q)
    (slot id : ℕ) {c : SendCtl} (hlt : slot < q.tx.window)
    (hc : sendStep q.tx s.tx.ctl (.postSend slot id) = some c)
    (hreserve : 0 < s.tx.ctl.reserve) (hissued : c.issued = s.tx.ctl.issued + 1)
    (hrank : c.pc.rank ≤ s.tx.ctl.pc.rank + 1) : Nears q s := by
  have hfits := slotFits_of_window hregion hs.settling.tx.length_mr hlt
  have hleft : s.tx.ctl.issued < q.iterations := hs.settling.bounded.2 hreserve
  have hn : s.tx.perform q.tx (.postSend slot id) =
      some { s.tx with sq := s.tx.sq ++ [⟨id, slot, false⟩] } := if_pos hfits
  refine nears_tx rfl hn hc ?_
  have hunsent : SenderNode.unsent { s.tx with
      ctl := c, sq := s.tx.sq ++ [⟨id, slot, false⟩] } = s.tx.unsent ++ [id] := by
    rw [SenderNode.unsent, List.filter_append, List.map_append]
    rfl
  rw [txLoad, txLoad, hunsent, hissued]
  simp only [List.length_append, List.length_singleton]
  omega

/-- A sender at a `sync` gets on, or is at its read with nothing to read. -/
theorem nears_tx_sync {k : ℕ} {y : SyncPc} {f : SyncPc → SendCtl} {e : SendCtl}
    (hin : s.InStep q) (hphase : s.tx.ctl.pc.phase = .inside k y)
    (hstep : ∀ a, sendStep q.tx s.tx.ctl a = syncThen q.tx.tracing y a f e)
    (hstay : ∀ z : SyncPc, z.ahead < y.ahead →
      (f z).issued = s.tx.ctl.issued ∧ (f z).pc.rank < s.tx.ctl.pc.rank)
    (hleave : e.issued = s.tx.ctl.issued ∧ e.pc.rank < s.tx.ctl.pc.rank) :
    Nears q s ∨ (s.tx.ctl.pc.phase = .inside k .read ∧ s.wire.toClient = []) := by
  rcases hin.client_sync (send_keeps q) hstep with
    ⟨rfl, hwire⟩ | ⟨a, w, c, hband, -, hw, hc, hto⟩
  · exact .inr ⟨hphase, hwire⟩
  · have hgets : c.issued = s.tx.ctl.issued ∧ c.pc.rank < s.tx.ctl.pc.rank := by
      rcases hto with ⟨z, hz, rfl⟩ | rfl
      · exact hstay z hz
      · exact hleave
    exact .inl (nears_tx_band hband hw hc hgets.1 hgets.2)

theorem SendCtl.issued_refill (p : Setup) (c : SendCtl) (left : ℕ) :
    (c.refill p left).issued = c.posted := by
  rw [SendCtl.refill]
  split <;> rfl

/-- **A sender at the head of its loop has something posted.** -/
theorem Stream.Smooth.in_flight (hn : 1 ≤ q.iterations) (hs : s.Smooth q)
    (hpc : s.tx.ctl.pc = .head) (hlt : s.tx.ctl.completed < q.iterations) :
    0 < s.tx.cq.length + s.tx.sq.length := by
  have hW : 0 < q.tx.window := window_pos .client q.txDepth q.rxDepth hn
  have hreplenished := hs.replenished
  simp only [SendCtl.Replenished, hpc, SendCtl.reserve] at hreplenished
  have hmore : s.tx.ctl.completed < s.tx.ctl.posted := by
    have hmin : s.tx.ctl.completed < min q.tx.iterations (q.tx.window + s.tx.ctl.completed) :=
      Nat.lt_min.mpr ⟨hlt, by omega⟩
    omega
  obtain ⟨lo, -, -, heq, howned⟩ := hs.settling.tx.owned
  have hissued : s.tx.ctl.issued = s.tx.ctl.posted := by rw [SendCtl.issued, hpc]
  have hlen := congrArg List.length howned
  rw [heq hs.running, hissued, SenderNode.owned, windowOf, List.length_map, List.length_map,
    List.length_range', List.length_append, List.length_map] at hlen
  omega

/-- The device gets on with the oldest request. -/
theorem nears_device {wr : SendWr} {rest : List SendWr} (hsq : s.tx.sq = wr :: rest) :
    Nears q s := by
  cases hsent : wr.sent with
  | false =>
    have hwr : s.tx.sq[0]? = some wr := by rw [hsq]; rfl
    have hu : senderStep q.tx s.tx (.transmit 0) =
        some { s.tx with sq := { wr with sent := true } :: rest } := by
      simp [senderStep, hsq, hsent]
    refine ⟨.transmit 0, { s with
      tx := { s.tx with sq := { wr with sent := true } :: rest }
      flight := s.flight ++ [(wr.seq, s.tx.bytesOf q.tx wr)] }, trivial, ?_, ?_⟩
    · simp only [streamStep, hwr, hu, Option.map_some]
    · simp only [distance, txLoad, SenderNode.unsent, hsq, List.filter_cons, hsent, Bool.not_false,
        Bool.not_true, if_true, Bool.false_eq_true, if_false, List.map_cons, List.length_cons,
        List.length_append, List.length_nil]
      omega
  | true =>
    have hu : senderStep q.tx s.tx (.complete true) =
        some { s.tx with sq := rest, cq := s.tx.cq ++ [(wr, ⟨wr.seq, q.msgSize, true⟩)] } := by
      simp only [senderStep, hsq, hsent, if_true]
      rfl
    refine ⟨.sent true, _, rfl, by rw [streamStep, hu]; rfl, ?_⟩
    simp only [distance, txLoad, SenderNode.unsent, hsq, List.filter_cons, hsent, Bool.not_true,
      Bool.false_eq_true, if_false, List.length_cons, List.length_append, List.length_nil]
    omega

/-- A sender at the head of its loop gets on: it polls, or its device does something, or
it leaves. -/
theorem tx_head_nears (hn : 1 ≤ q.iterations) (hs : s.Smooth q) (hpc : s.tx.ctl.pc = .head) :
    Nears q s := by
  have hf : ¬s.tx.ctl.failed = true := Bool.eq_false_iff.mp hs.running
  have hW : 0 < q.tx.window := window_pos .client q.txDepth q.rxDepth hn
  have henter := SyncPc.ahead_le (.enter q.tx.tracing)
  by_cases hlt : s.tx.ctl.completed < q.iterations
  · cases hcq : s.tx.cq with
    | cons e rest =>
      have hok : completionError [e.2] = false := by
        have he := hs.sent_ok e (hcq ▸ List.mem_cons_self)
        simp [completionError, he]
      refine nears_tx (a := .poll [e.2]) (n := { s.tx with cq := rest })
        (c := { s.tx.ctl with completed := s.tx.ctl.completed + 1 }.refill q.tx 1) rfl ?_ ?_ ?_
      · rw [SenderNode.perform, hcq]
        exact if_pos ⟨rest.map Prod.snd, rfl⟩
      · unfold sendStep
        rw [if_neg hf, hpc]
        exact (if_pos hlt).trans ((if_pos hW).trans (if_neg (Bool.eq_false_iff.mp hok)))
      · have hissued : s.tx.ctl.issued = s.tx.ctl.posted := by rw [SendCtl.issued, hpc]
        rw [txLoad, txLoad, SendCtl.rank_refill, SendCtl.issued_refill, hissued, hpc, hcq]
        show 12 + 10 * (q.iterations - s.tx.ctl.posted) + 6 * s.tx.unsent.length +
          2 * s.tx.sq.length + rest.length < 12 + 10 * (q.iterations - s.tx.ctl.posted) +
          6 * s.tx.unsent.length + 2 * s.tx.sq.length + (rest.length + 1)
        omega
    | nil =>
      have hflying := hs.in_flight hn hpc hlt
      rw [hcq, List.length_nil] at hflying
      obtain ⟨wr, rest, hsq⟩ := List.exists_cons_of_length_pos (l := s.tx.sq) (by omega)
      exact nears_device hsq
  · refine nears_tx_band (a := .skip) rfl rfl
      (c := { s.tx.ctl with pc := .sendsCompleted (.enter q.tx.tracing) }) ?_ ?_ ?_
    · unfold sendStep
      rw [if_neg hf, hpc]
      exact (if_neg hlt).trans (if_pos rfl)
    · rw [SendCtl.issued, SendCtl.issued, hpc]
    · rw [hpc]
      simp only [SendPc.rank]
      omega

/-- **A sender gets on**, or it is done, or at a read with nothing to read. -/
theorem tx_nears (hn : 1 ≤ q.iterations) (hregion : q.tx.window * q.tx.msgSize < usizeSize)
    (hs : s.Smooth q) (hin : s.InStep q) : Nears q s ∨ s.tx.ctl.pc = .done ∨
      (∃ k, s.tx.ctl.pc.phase = .inside k .read ∧ s.wire.toClient = []) ∨
      (s.tx.ctl.pc = .recvReport ∧ s.wire.toClient = []) := by
  have hf : ¬s.tx.ctl.failed = true := Bool.eq_false_iff.mp hs.running
  have hW : 0 < q.tx.window := window_pos .client q.txDepth q.rxDepth hn
  have henter := SyncPc.ahead_le (.enter q.tx.tracing)
  cases hpc : s.tx.ctl.pc with
  | done => exact .inr (.inl rfl)
  | waitReceives y =>
    have hzero := hs.settling.tx.ordered.waiting y hpc
    obtain ⟨-, hissued, -⟩ := ordered_prefill (p := q.tx) (Nat.zero_le _) hzero
    have hbefore : s.tx.ctl.issued = 0 := by rw [SendCtl.issued, hpc]
    rcases nears_tx_sync (k := 0) (y := y)
      (f := fun z => { s.tx.ctl with pc := .waitReceives z }) (e := s.tx.ctl.prefill q.tx 0) hin
      (by rw [hpc]; rfl) (fun a => by unfold sendStep; rw [if_neg hf, hpc])
      (fun z hz => ⟨hbefore.symm, by rw [hpc]; exact Nat.add_lt_add_left hz 13⟩)
      ⟨hissued.trans hbefore.symm, by rw [SendCtl.rank_prefill, hpc, SendPc.rank]; omega⟩
      with hnears | hread
    · exact .inl hnears
    · rw [hpc] at hread
      exact .inr (.inr (.inl ⟨_, hread⟩))
  | sendsCompleted y =>
    have hbefore : s.tx.ctl.issued = s.tx.ctl.posted := by rw [SendCtl.issued, hpc]
    rcases nears_tx_sync (k := 1) (y := y)
      (f := fun z => { s.tx.ctl with pc := .sendsCompleted z })
      (e := { s.tx.ctl with pc := .recvReport }) hin
      (by rw [hpc]; rfl) (fun a => by unfold sendStep; rw [if_neg hf, hpc])
      (fun z hz => ⟨hbefore.symm, by rw [hpc]; exact Nat.add_lt_add_left hz 2⟩)
      ⟨hbefore.symm, by rw [hpc]; simp only [SendPc.rank]; omega⟩ with hnears | hread
    · exact .inl hnears
    · rw [hpc] at hread
      exact .inr (.inr (.inl ⟨_, hread⟩))
  | recvReport =>
    have hstep : sendStep q.tx s.tx.ctl (.read .accuracyReport) =
        some { s.tx.ctl with pc := .done } := by
      unfold sendStep
      rw [if_neg hf, hpc]
      rfl
    cases hwire : s.wire.toClient with
    | nil => exact .inr (.inr (.inr ⟨rfl, rfl⟩))
    | cons i rest =>
      obtain rfl := hin.head_eq_client (send_keeps q) hwire (.here hstep)
      refine .inl (nears_tx_band rfl (Wire.client_read hwire) hstep ?_ ?_)
      · rw [SendCtl.issued, SendCtl.issued, hpc]
      · rw [hpc]
        exact Nat.one_pos
  | prefillFill seq =>
    obtain ⟨hlt, -⟩ := hs.settling.tx.ordered.filling seq hpc
    refine .inl (nears_tx_fill hregion hs seq seq hlt
      (c := { s.tx.ctl with pc := .prefillPost seq }) ?_ ?_ ?_)
    · unfold sendStep
      rw [if_neg hf, hpc]
      exact if_pos rfl
    · rw [SendCtl.issued, SendCtl.issued, hpc]
    · rw [hpc]
      exact Nat.lt_succ_self 11
  | prefillPost seq =>
    obtain ⟨hlt, hzero⟩ := hs.settling.tx.ordered.posting seq hpc
    obtain ⟨-, hissued, -⟩ := ordered_prefill (p := q.tx) (show seq + 1 ≤ q.tx.window from hlt) hzero
    refine .inl (nears_tx_post hregion hs seq seq hlt
      (c := s.tx.ctl.prefill q.tx (seq + 1)) ?_ ?_ ?_ ?_)
    · unfold sendStep
      rw [if_neg hf, hpc]
      exact if_pos rfl
    · rw [SendCtl.reserve, hpc]
      exact Nat.one_pos
    · rw [hissued, SendCtl.issued, hpc]
    · rw [SendCtl.rank_prefill, hpc]
      exact Nat.le_refl _
  | refillFill left =>
    refine .inl (nears_tx_fill hregion hs _ s.tx.ctl.posted (Nat.mod_lt s.tx.ctl.posted hW)
      (c := { s.tx.ctl with pc := .refillPost left }) ?_ ?_ ?_)
    · unfold sendStep
      rw [if_neg hf, hpc]
      exact if_pos rfl
    · rw [SendCtl.issued, SendCtl.issued, hpc]
    · rw [hpc]
      exact Nat.lt_succ_self 11
  | refillPost left =>
    refine .inl (nears_tx_post hregion hs _ s.tx.ctl.posted (Nat.mod_lt s.tx.ctl.posted hW)
      (c := { s.tx.ctl with posted := s.tx.ctl.posted + 1 }.refill q.tx left) ?_ ?_ ?_ ?_)
    · unfold sendStep
      rw [if_neg hf, hpc]
      exact if_pos rfl
    · rw [SendCtl.reserve, hpc]
      exact Nat.succ_pos left
    · rw [SendCtl.issued_refill, SendCtl.issued, hpc]
    · rw [SendCtl.rank_refill, hpc]
      exact Nat.le_refl _
  | head => exact .inl (tx_head_nears hn hs hpc)

/-! ## The receiver's side -/

theorem streamStep_rx {a : Act} {w : Wire} {n : ReceiverNode} {c : RecvCtl}
    (hw : s.wire.server a = some w) (hn : s.rx.perform q.rx a = some n)
    (hc : recvStep q.rx s.rx.ctl a = some c) :
    streamStep q s (.rx a) = some { s with rx := { n with ctl := c }, wire := w } := by
  rw [streamStep, hw, Option.bind_some, receiverStep, hc, Option.bind_some, hn]
  rfl

/-- An act of the receiver that gets on and does not give up. -/
theorem nears_rx {a : Act} {w : Wire} {n : ReceiverNode} {c : RecvCtl}
    (hkeep : s.rx.ctl.pc = .idle → c.pc.past = false) (hw : s.wire.server a = some w)
    (hn : s.rx.perform q.rx a = some n) (hc : recvStep q.rx s.rx.ctl a = some c)
    (hlt : c.pc.rank q.rx + 4 * n.cq.length < s.rx.ctl.pc.rank q.rx + 4 * s.rx.cq.length) :
    Nears q s := by
  refine ⟨.rx a, _, ?_, streamStep_rx hw hn hc, ?_⟩
  · intro hidle
    rw [hc]
    exact hkeep hidle
  · simp only [distance, rxLoad]
    omega

theorem nears_rx_band {a : Act} {w : Wire} {c : RecvCtl}
    (hkeep : s.rx.ctl.pc = .idle → c.pc.past = false) (ha : a.outOfBand = true)
    (hw : s.wire.server a = some w) (hc : recvStep q.rx s.rx.ctl a = some c)
    (hlt : c.pc.rank q.rx < s.rx.ctl.pc.rank q.rx) : Nears q s := by
  have hn : s.rx.perform q.rx a = some s.rx := by
    cases a with
    | write _ | read _ | clock _ | skip => rfl
    | _ => exact absurd ha Bool.noConfusion
  exact nears_rx hkeep hw hn hc (Nat.add_lt_add_right hlt _)

theorem nears_rx_post (hregion : q.rx.window * q.rx.msgSize < usizeSize) (hs : s.Smooth q)
    {slot : ℕ} {c : RecvCtl} (hpc : s.rx.ctl.pc ≠ .idle) (hlt : slot < q.rx.window)
    (hc : recvStep q.rx s.rx.ctl (.postReceive slot slot) = some c)
    (hrank : c.pc.rank q.rx < s.rx.ctl.pc.rank q.rx) : Nears q s := by
  have hfits := slotFits_of_window hregion hs.settling.rx.length_mr hlt
  have hn : s.rx.perform q.rx (.postReceive slot slot) =
      some { s.rx with rq := s.rx.rq ++ [⟨slot, slot⟩] } := if_pos hfits
  exact nears_rx (fun hidle => absurd hidle hpc) rfl hn hc (Nat.add_lt_add_right hrank _)

/-- A receiver at a `sync` gets on, or is at its read with nothing to read. -/
theorem nears_rx_sync {k : ℕ} {y : SyncPc} {f : SyncPc → RecvCtl} {e : RecvCtl}
    (hin : s.InStep q) (hphase : s.rx.ctl.pc.phase = .inside k y)
    (hstep : ∀ a, recvStep q.rx s.rx.ctl a = syncThen q.rx.tracing y a f e)
    (hstay : ∀ z : SyncPc, z.ahead < y.ahead → (f z).pc.rank q.rx < s.rx.ctl.pc.rank q.rx)
    (hleave : e.pc.rank q.rx < s.rx.ctl.pc.rank q.rx) :
    Nears q s ∨ (s.rx.ctl.pc.phase = .inside k .read ∧ s.wire.toServer = []) := by
  have hidle : ∀ {c : RecvCtl}, s.rx.ctl.pc = .idle → c.pc.past = false := by
    intro c hpc
    rw [hpc] at hphase
    exact Phase.noConfusion hphase
  rcases hin.server_sync (recv_keeps q) hstep with
    ⟨rfl, hwire⟩ | ⟨a, w, c, hband, -, hw, hc, hto⟩
  · exact .inr ⟨hphase, hwire⟩
  · refine .inl (nears_rx_band hidle hband hw hc ?_)
    rcases hto with ⟨z, hz, rfl⟩ | rfl
    · exact hstay z hz
    · exact hleave

/-- The next message of a batch is in its slot. -/
theorem nears_rx_inspect (hs : s.Smooth q) {slot len : ℕ} {rest : List (ℕ × ℕ)}
    (hpc : s.rx.ctl.pc = .inspect slot len rest) : Nears q s := by
  have hrx := hs.settling.rx
  have hok := hs.settling.healthy.1
  have hbatch := hrx.batch hok
  rw [RecvCtl.batch, hpc] at hbatch
  obtain ⟨x, held, hheld, hx, -⟩ := List.map_eq_cons_iff.mp hbatch.symm
  obtain ⟨rfl, rfl⟩ := Prod.mk.inj hx
  obtain ⟨hle, hslice⟩ := hrx.held hok x (hheld ▸ List.mem_cons_self)
  have hin : x.1 < s.rx.ctl.covered q.rx :=
    hrx.inside x.1 (List.mem_append_right _ (by rw [RecvCtl.inHand, hpc]; exact List.mem_cons_self))
  have hend := hrx.end_le hin
  rw [Nat.succ_mul] at hend
  have hn : s.rx.perform q.rx (.inspect x.1 x.2) =
      some { s.rx with held := s.rx.held.tail, checked := s.rx.checked ++ [x.2] } := by
    refine if_pos ?_
    rw [hrx.slotRange_eq hin]
    exact ⟨by omega, hslice⟩
  refine nears_rx (a := .inspect x.1 x.2) (fun hidle => absurd (hpc.symm.trans hidle) (by simp)) rfl
    hn (c := { s.rx.ctl with
      pc := .repost x.1 rest, checker := check x.2 q.rx.msgSize s.rx.ctl.checker }) ?_ ?_
  · unfold recvStep
    rw [if_neg (Bool.eq_false_iff.mp hok), hpc]
    exact if_pos ⟨rfl, (Nat.min_eq_left hle).symm⟩
  · rw [hpc]
    show 11 + 2 * rest.length + 4 * s.rx.cq.length < 12 + 2 * rest.length + 4 * s.rx.cq.length
    omega

/-- A message comes to a posted receive. -/
theorem nears_arrival (hn : 1 ≤ q.iterations) (hm : headerLen ≤ q.msgSize) (hs : s.Smooth q)
    (hpc : s.rx.ctl.pc = .head) (hcq : s.rx.cq = []) {msg : ℕ × List UInt8}
    {rest : List (ℕ × List UInt8)} (hflight : s.flight = msg :: rest) : Nears q s := by
  have hspread := hs.spread
  have hW : 0 < q.rx.window := window_pos .server q.txDepth q.rxDepth hn
  rw [ReceiverNode.Spread, hcq, RecvCtl.inHand, RecvCtl.covered, hpc] at hspread
  obtain ⟨wr, wrs, hrq⟩ := List.exists_cons_of_length_pos (l := s.rx.rq) (by
    simp only [List.length_nil] at hspread
    omega)
  have hlen : msg.2.length ≤ q.rx.msgSize := by
    have hmem : msg ∈ s.flight := hflight ▸ List.mem_cons_self
    rw [hs.settling.payloads msg (List.mem_append_left _ hmem)]
    exact Nat.le_of_eq (length_payload hm msg.1)
  have hmsg : s.flight[0]? = some msg := by rw [hflight]; rfl
  have hwr : s.rx.rq[0]? = some wr := by rw [hrq]; rfl
  refine ⟨.deliver 0 0, _, trivial, by
    simp only [streamStep, hmsg, receiverStep, hwr, if_pos hlen, Option.map_some]; rfl, ?_⟩
  simp only [distance, rxLoad, hcq, hflight, List.eraseIdx_zero, List.tail_cons,
    List.length_append, List.length_cons, List.length_nil]
  omega

/-- A receiver at the head of its loop gets on: it polls, or a message comes, or it
leaves; unless there is nothing to poll and nothing to come. -/
theorem rx_head_nears (hn : 1 ≤ q.iterations) (hm : headerLen ≤ q.msgSize) (hs : s.Smooth q)
    (hpc : s.rx.ctl.pc = .head) : Nears q s ∨
      (s.rx.ctl.checker.report.received < q.iterations ∧ s.rx.cq = [] ∧ s.flight = []) := by
  have hf : ¬s.rx.ctl.failed = true := Bool.eq_false_iff.mp hs.settling.healthy.1
  have hW : 0 < q.rx.window := window_pos .server q.txDepth q.rxDepth hn
  have henter := SyncPc.ahead_le (.enter q.rx.tracing)
  by_cases hlt : s.rx.ctl.checker.report.received < q.iterations
  · cases hcq : s.rx.cq with
    | cons e rest =>
      have hgood : completionError [e.wc] = false := by
        have he := hs.settling.healthy.2 e (hcq ▸ List.mem_cons_self)
        simp [completionError, he]
      refine .inl (nears_rx (a := .poll [e.wc]) (by simp [hpc])
        (n := { s.rx with
          cq := rest, held := [(e.slot, e.bytes)], polls := s.rx.polls ++ [[e.bytes]] })
        (c := { s.rx.ctl with pc := .progress [(e.wc.wrId, e.wc.len)] }) rfl ?_ ?_ ?_)
      · rw [ReceiverNode.perform, hcq]
        exact if_pos ⟨rest.map Arrived.wc, rfl⟩
      · unfold recvStep
        rw [if_neg hf, hpc]
        exact (if_pos hlt).trans ((if_pos hW).trans (if_neg (Bool.eq_false_iff.mp hgood)))
      · rw [hpc, hcq, List.length_cons]
        show 11 + 2 * 1 + 4 * rest.length < 10 + 4 * (rest.length + 1)
        omega
    | nil =>
      cases hflight : s.flight with
      | nil => exact .inr ⟨hlt, rfl, rfl⟩
      | cons msg rest => exact .inl (nears_arrival hn hm hs hpc hcq hflight)
  · refine .inl (nears_rx_band (a := .skip) (by simp [hpc]) rfl rfl
      (c := s.rx.ctl.leave q.rx) ?_ ?_)
    · unfold recvStep
      rw [if_neg hf, hpc]
      exact (if_neg hlt).trans (if_pos rfl)
    · rw [hpc, RecvCtl.leave]
      simp only [RecvPc.rank]
      omega

/-- **A receiver gets on**, or it is done, or at a read with nothing to read, or at the
head of its loop while the fabric and its queue are empty. -/
theorem rx_nears (hn : 1 ≤ q.iterations) (hm : headerLen ≤ q.msgSize)
    (hregion : q.rx.window * q.rx.msgSize < usizeSize) (hs : s.Smooth q) (hin : s.InStep q) :
    Nears q s ∨ s.rx.ctl.pc = .done ∨
      (∃ k, s.rx.ctl.pc.phase = .inside k .read ∧ s.wire.toServer = []) ∨
      (s.rx.ctl.pc = .head ∧ s.rx.ctl.checker.report.received < q.iterations ∧ s.rx.cq = [] ∧
        s.flight = []) := by
  have hf : ¬s.rx.ctl.failed = true := Bool.eq_false_iff.mp hs.settling.healthy.1
  have henter := SyncPc.ahead_le (.enter q.rx.tracing)
  cases hpc : s.rx.ctl.pc with
  | done => exact .inr (.inl rfl)
  | receivesPosted y =>
    rcases nears_rx_sync (k := 0) (y := y)
      (f := fun z => { s.rx.ctl with pc := .receivesPosted z })
      (e := { s.rx.ctl with pc := .start }) hin (by rw [hpc]; rfl)
      (fun a => by unfold recvStep; rw [if_neg hf, hpc])
      (fun z hz => by rw [hpc]; exact Nat.add_lt_add_left hz 14)
      (by rw [hpc]; simp only [RecvPc.rank]; omega) with hnears | hread
    · exact .inl hnears
    · rw [hpc] at hread
      exact .inr (.inr (.inl ⟨_, hread⟩))
  | checkingDone y =>
    rcases nears_rx_sync (k := 1) (y := y)
      (f := fun z => { s.rx.ctl with pc := .checkingDone z })
      (e := { s.rx.ctl with pc := .sendReport }) hin (by rw [hpc]; rfl)
      (fun a => by unfold recvStep; rw [if_neg hf, hpc])
      (fun z hz => by rw [hpc]; exact Nat.add_lt_add_left hz 2)
      (by rw [hpc]; simp only [RecvPc.rank]; omega) with hnears | hread
    · exact .inl hnears
    · rw [hpc] at hread
      exact .inr (.inr (.inl ⟨_, hread⟩))
  | sendReport =>
    refine .inl (nears_rx_band (a := .write .accuracyReport) (by simp [hpc]) rfl rfl
      (c := { s.rx.ctl with pc := .done }) ?_ ?_)
    · unfold recvStep
      rw [if_neg hf, hpc]
      exact if_pos rfl
    · rw [hpc]
      exact Nat.one_pos
  | prefill slot =>
    have hlt := hs.settling.rx.filling slot hpc
    have hle := s.rx.ctl.rank_prefill_le q.rx (slot + 1)
    refine .inl (nears_rx_post hregion hs (by simp [hpc]) hlt
      (c := s.rx.ctl.prefill q.rx (slot + 1)) ?_ (Nat.lt_of_le_of_lt hle ?_))
    · unfold recvStep
      rw [if_neg hf, hpc]
      exact if_pos rfl
    · rw [hpc, RecvPc.rank]
      omega
  | repost slot rest =>
    have hin : slot < s.rx.ctl.covered q.rx := hs.settling.rx.inside slot
      (List.mem_append_right _ (by rw [RecvCtl.inHand, hpc]; exact List.mem_cons_self))
    rw [RecvCtl.covered, hpc] at hin
    refine .inl (nears_rx_post hregion hs (by simp [hpc]) hin (c := s.rx.ctl.next rest) ?_ ?_)
    · unfold recvStep
      rw [if_neg hf, hpc]
      exact if_pos rfl
    · rw [RecvCtl.rank_next, hpc, RecvPc.rank]
      omega
  | inspect slot len rest => exact .inl (nears_rx_inspect hs hpc)
  | start =>
    refine .inl (nears_rx_band (a := .clock 0) (by simp [hpc]) rfl rfl
      (c := { s.rx.ctl with pc := .head, lastProgress := 0 }) ?_ ?_)
    · unfold recvStep
      rw [if_neg hf, hpc]
    · rw [hpc]
      exact (by decide : 10 < 13)
  | idle =>
    -- the clock has not moved
    refine .inl (nears_rx_band (a := .clock s.rx.ctl.lastProgress) (fun _ => rfl) rfl rfl
      (c := { s.rx.ctl with pc := .head }) ?_ ?_)
    · unfold recvStep
      rw [if_neg hf, hpc]
      exact if_neg (by rw [Nat.sub_self]; decide)
    · rw [hpc]
      exact Nat.lt_succ_self 10
  | progress batch =>
    refine .inl (nears_rx_band (a := .clock 0) (by simp [hpc]) rfl rfl
      (c := { s.rx.ctl with
        lastProgress := 0
        checker := s.rx.ctl.checker.addReceived batch.length }.next batch) ?_ ?_)
    · unfold recvStep
      rw [if_neg hf, hpc]
      rfl
    · rw [RecvCtl.rank_next, hpc, RecvPc.rank]
      omega
  | head =>
    rcases rx_head_nears hn hm hs hpc with hnears | hwaits
    · exact .inl hnears
    · exact .inr (.inr (.inr ⟨rfl, hwaits⟩))

/-! ## The two together -/

/-- A sender out of its loop has left everything with the fabric. -/
theorem Stream.Smooth.all_sent (hs : s.Smooth q) (hpast : s.tx.ctl.pc.past = true) :
    s.delivered.length + s.flight.length = q.iterations := by
  have hcompleted : q.iterations ≤ s.tx.ctl.completed := hs.replenished.completed_of_past hpast
  obtain ⟨lo, hlo, hissued, -, howned⟩ := hs.settling.tx.owned
  have hbounded : s.tx.ctl.issued ≤ q.iterations := hs.settling.bounded.1
  have hlen := congrArg List.length howned
  rw [SenderNode.owned, windowOf, List.length_map, List.length_map, List.length_range',
    List.length_append, List.length_map] at hlen
  have hsq : s.tx.sq = [] := List.eq_nil_of_length_eq_zero (by omega)
  have hunsent : s.tx.unsent = [] := by
    rw [SenderNode.unsent, hsq]
    rfl
  have htotal := hs.settling.delivered_le
  rw [Stream.pending, hunsent, hs.undropped, List.length_nil] at htotal
  omega

/-- What a receiver with nothing in hand has counted. -/
theorem Stream.Smooth.received_at_head (hs : s.Smooth q) (hpc : s.rx.ctl.pc = .head)
    (hcq : s.rx.cq = []) : s.rx.ctl.checker.report.received = s.delivered.length := by
  have h := hs.settling
  have hfold := h.rx.folded h.healthy.1
  have hbatch := h.rx.batch h.healthy.1
  rw [RecvCtl.batch, hpc] at hbatch
  have hheld : s.rx.held = [] := List.map_eq_nil_iff.mp hbatch.symm
  rw [ReceiverNode.Folded, RecvCtl.stage, hpc, hheld] at hfold
  have horder := congrArg List.length h.order
  rw [hcq, List.map_nil, List.append_nil, List.length_map] at horder
  have hle : s.rx.polls.flatten.length ≤ q.rx.iterations := by
    rw [horder]
    exact Nat.le.intro ((Nat.add_assoc _ _ _).symm.trans h.delivered_le)
  have hreceived : s.rx.ctl.checker.report.received =
      (polled q.rx.iterations s.rx.polls).flatten.length := by
    rw [← received_receiveLoop q.rx.msgSize, ← hfold]
    rfl
  rw [hreceived, flatten_polled_of_length_le hle, horder]

/-- How many items a side has still to read and to write. -/
def todoLengths (p : Phase) (closing : Session Item) : ℕ × ℕ :=
  ((reads (p.todo 2)).length + (reads closing).length,
    (writes (p.todo 2)).length + (writes closing).length)

/-- The items still to come, on either side and in the channels. -/
theorem Stream.InStep.lengths (hin : s.InStep q) :
    (todoLengths s.rx.ctl.pc.phase s.rx.ctl.pc.closing).1 =
        s.wire.toServer.length + (todoLengths s.tx.ctl.pc.phase s.tx.ctl.pc.closing).2 ∧
      (todoLengths s.tx.ctl.pc.phase s.tx.ctl.pc.closing).1 =
        s.wire.toClient.length + (todoLengths s.rx.ctl.pc.phase s.rx.ctl.pc.closing).2 := by
  have hright := congrArg List.length hin.linked.right
  have hleft := congrArg List.length hin.linked.left
  simp only [SendCtl.todo, RecvCtl.todo, Stream.duo, reads_append, writes_append,
    List.length_append] at hright hleft
  exact ⟨hright, hleft⟩

/-- A sender at the read of a `sync` has that to read, the later ones and the report. -/
theorem SendPc.todoLengths_read {c : SendPc} {k : ℕ} (h : c.phase = .inside k .read) :
    todoLengths c.phase c.closing = (1 + (2 - (k + 1)) + 1, 2 - (k + 1)) := by
  have hclosing : c.closing = [.read .accuracyReport] := by
    cases c with
    | done => exact Phase.noConfusion h
    | _ => rfl
  rw [todoLengths, h, hclosing, (Phase.length_todo_read _ _).1, (Phase.length_todo_read _ _).2]
  rfl

theorem RecvPc.todoLengths_read {c : RecvPc} {k : ℕ} (h : c.phase = .inside k .read) :
    todoLengths c.phase c.closing = (1 + (2 - (k + 1)), 2 - (k + 1) + 1) := by
  have hclosing : c.closing = [.write .accuracyReport] := by
    cases c with
    | done => exact Phase.noConfusion h
    | _ => rfl
  rw [todoLengths, h, hclosing, (Phase.length_todo_read _ _).1, (Phase.length_todo_read _ _).2]
  rfl

/-- **Until both are done, something gets on.** -/
theorem nears (hn : 1 ≤ q.iterations) (hm : headerLen ≤ q.msgSize)
    (hsize : q.msgSize < usizeSize) (hcount : q.iterations < usizeSize)
    (htx : q.tx.window * q.tx.msgSize < usizeSize) (hrx : q.rx.window * q.rx.msgSize < usizeSize)
    (h : (stream q).ReachableUnder (Lossless q) s)
    (hgoal : ¬(s.tx.ctl.pc = .done ∧ s.rx.ctl.pc = .done)) : Nears q s := by
  have hs := stream_smooth hm hsize hcount hn h
  have hin := stream_inStep h.reachable
  obtain ⟨hrights, hlefts⟩ := hin.lengths
  rcases rx_nears hn hm hrx hs hin with hnears | hrxDone | ⟨j, hrxRead, hserver⟩ |
    ⟨hrxHead, hlt, hcq, hflight⟩
  · exact hnears
  · have hnone : todoLengths s.rx.ctl.pc.phase s.rx.ctl.pc.closing = (0, 0) := by
      rw [hrxDone]
      rfl
    rw [hnone] at hrights hlefts
    rcases tx_nears hn htx hs hin with hnears | htxDone | ⟨k, htxRead, hclient⟩ |
      ⟨htxLast, hclient⟩
    · exact hnears
    · exact absurd ⟨htxDone, hrxDone⟩ hgoal
    · rw [SendPc.todoLengths_read htxRead, hclient, List.length_nil] at hlefts
      omega
    · rw [htxLast, hclient] at hlefts
      exact absurd hlefts (by decide)
  · rw [RecvPc.todoLengths_read hrxRead] at hrights hlefts
    rw [hserver, List.length_nil] at hrights
    rcases tx_nears hn htx hs hin with hnears | htxDone | ⟨k, htxRead, hclient⟩ |
      ⟨htxLast, hclient⟩
    · exact hnears
    · have hnone : todoLengths s.tx.ctl.pc.phase s.tx.ctl.pc.closing = (0, 0) := by
        rw [htxDone]
        rfl
      rw [hnone] at hrights
      omega
    · rw [SendPc.todoLengths_read htxRead] at hrights hlefts
      rw [hclient, List.length_nil] at hlefts
      omega
    · have hlast : todoLengths s.tx.ctl.pc.phase s.tx.ctl.pc.closing = (1, 0) := by
        rw [htxLast]
        rfl
      rw [hlast] at hrights
      omega
  · have hboth : todoLengths s.rx.ctl.pc.phase s.rx.ctl.pc.closing = (1, 2) := by
      rw [hrxHead]
      rfl
    rw [hboth] at hrights hlefts
    rcases tx_nears hn htx hs hin with hnears | htxDone | ⟨k, htxRead, hclient⟩ |
      ⟨htxLast, hclient⟩
    · exact hnears
    · have hnone : todoLengths s.tx.ctl.pc.phase s.tx.ctl.pc.closing = (0, 0) := by
        rw [htxDone]
        rfl
      rw [hnone] at hlefts
      omega
    · -- the receiver is in its loop, so this is the sender's last `sync`
      rw [SendPc.todoLengths_read htxRead, hclient, List.length_nil] at hlefts
      have hle := s.tx.ctl.pc.phase_entered_le
      rw [htxRead, Phase.entered] at hle
      have hpast : s.tx.ctl.pc.past = true :=
        SendPc.past_of_entered (by rw [htxRead, Phase.entered]; omega)
      have hsent := hs.all_sent hpast
      rw [hs.received_at_head hrxHead hcq] at hlt
      rw [hflight, List.length_nil] at hsent
      omega
    · rw [htxLast, hclient] at hlefts
      exact absurd hlefts (by decide)

/-- **Every lossless run can be continued to its end**, where both sides have returned
`Ok`, and the report is the one of a run in which every message came as it was sent. -/
theorem perfect_run (hn : 1 ≤ q.iterations) (hm : headerLen ≤ q.msgSize)
    (hcount : q.iterations < usizeSize) (htx : q.tx.window * q.msgSize < usizeSize)
    (hrx : q.rx.window * q.msgSize < usizeSize) (h : (stream q).ReachableUnder (Lossless q) s) :
    ∃ t, ((stream q).startAt s).ReachableUnder (Lossless q) t ∧ t.tx.ctl.pc = .done ∧
      t.rx.ctl.pc = .done ∧ t.rx.ctl.checker.report = {
        msgSize := q.msgSize
        sent := q.iterations
        received := q.iterations
        correctBytes := UInt64.ofNat (q.iterations * q.msgSize)
        correctBits := UInt64.ofNat (8 * q.iterations * q.msgSize) } := by
  have hW : 0 < q.tx.window := window_pos .client q.txDepth q.rxDepth hn
  have hsize : q.msgSize < usizeSize :=
    Nat.lt_of_le_of_lt (Nat.le_mul_of_pos_left q.msgSize hW) htx
  obtain ⟨t, ht, htxDone, hrxDone⟩ := h.exists_goal
    (G := fun s => s.tx.ctl.pc = .done ∧ s.rx.ctl.pc = .done) (distance q)
    fun s hs hgoal => nears hn hm hsize hcount htx hrx hs hgoal
  refine ⟨t, ht, htxDone, hrxDone, ?_⟩
  have hs := stream_smooth hm hsize hcount hn (h.trans ht)
  have hleft : t.rx.ctl.stage = .left := by rw [RecvCtl.stage, hrxDone]
  obtain ⟨hdelivered, -⟩ := hs.all_delivered hm hsize hcount hleft
  obtain ⟨hreceived, hlost, hduplicated, hunidentifiable, htruncated, hcorrupted, hbytes, hbits⟩ :=
    hs.settling.report hm hsize hcount hleft
  rw [hdelivered] at hreceived hlost hbytes hbits
  have hfold := hs.settling.rx.folded hs.settling.healthy.1
  rw [ReceiverNode.Folded, hleft] at hfold
  obtain ⟨hmsg, hsent⟩ := receive_asked q.rx.msgSize q.rx.iterations t.rx.polls
  rw [← hfold.2] at hmsg hsent
  calc t.rx.ctl.checker.report
      = ⟨t.rx.ctl.checker.report.msgSize, t.rx.ctl.checker.report.sent,
          t.rx.ctl.checker.report.received, t.rx.ctl.checker.report.lost,
          t.rx.ctl.checker.report.duplicated, t.rx.ctl.checker.report.unidentifiable,
          t.rx.ctl.checker.report.truncated, t.rx.ctl.checker.report.corrupted,
          t.rx.ctl.checker.report.correctBytes, t.rx.ctl.checker.report.correctBits⟩ := rfl
    _ = _ := by
      rw [hmsg, hsent, hreceived, hlost, hduplicated, hunidentifiable, htruncated, hcorrupted,
        hbytes, hbits, Nat.sub_self]
      rfl

/-- From the start, with more sends in flight than there are slots to receive them. -/
theorem perfect_run_narrow :
    ∃ t, ((stream ⟨false, true, 4096, 1000, 16, 1⟩).startAt
        (stream ⟨false, true, 4096, 1000, 16, 1⟩).init).ReachableUnder
        (Lossless ⟨false, true, 4096, 1000, 16, 1⟩) t ∧ t.tx.ctl.pc = .done ∧
      t.rx.ctl.pc = .done ∧ t.rx.ctl.checker.report = {
        msgSize := 4096
        sent := 1000
        received := 1000
        correctBytes := UInt64.ofNat (1000 * 4096)
        correctBits := UInt64.ofNat (8 * 1000 * 4096) } :=
  perfect_run (q := ⟨false, true, 4096, 1000, 16, 1⟩) (by decide) (by decide) (by decide)
    (by decide) (by decide) .init

end Nears

end Accuracy
end RdmaBench
