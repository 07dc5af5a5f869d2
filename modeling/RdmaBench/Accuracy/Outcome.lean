import RdmaBench.Accuracy.Stream

/-!
# What a whole run reports

`stream_report` is the outcome of an accuracy run over a fabric that loses and
reorders but does not damage: whatever the interleaving, the report counts what
was delivered, and counts all of it as intact.  The two credit counters are `u64`,
so a run of `2 ^ 61` bytes or more carries them around.

That such a run exists is no accident of the statement.  The first half of this
file walks one message after another through windows of a single slot, to the end
of any run (`exists_lossless_run`).
-/

namespace RdmaBench
namespace Accuracy

open Automaton Memory

/-! ## One message at a time -/

section Lockstep

variable {p : Setup} {k : ℕ}

/-- A sender with a window of one slot, about to have message `k` sent. -/
def lockstepTx (k : ℕ) (mr : List UInt8) : SenderNode :=
  ⟨{ pc := .head, posted := k + 1, completed := k }, mr, [⟨k, 0, false⟩], []⟩

/-- The same sender with the message sent and polled. -/
def servedTx (p : Setup) (k : ℕ) (mr : List UInt8) : SenderNode :=
  ⟨SendCtl.refill p { pc := .head, posted := k + 1, completed := k + 1 } 1, mr, [], []⟩

/-- A receiver with a window of one slot, waiting for its next message. -/
structure Waiting (p : Setup) (k : ℕ) (s : ReceiverNode) : Prop where
  pc : s.ctl.pc = .head
  ok : s.ctl.failed = false
  received : s.ctl.checker.report.received = k
  rq : s.rq = [⟨0, 0⟩]
  cq : s.cq = []
  length_mr : s.mr.length = p.msgSize

/-- The device reads the slot and completes, and the sender polls. -/
theorem lockstepTx_served (hW : p.window = 1) (hk : k < p.iterations) (mr : List UInt8) :
    ∃ s₁ s₂, senderStep p (lockstepTx k mr) (.transmit 0) = some s₁ ∧
      senderStep p s₁ (.complete true) = some s₂ ∧
      senderStep p s₂ (.act (.poll [⟨k, p.msgSize, true⟩])) = some (servedTx p k mr) := by
  refine ⟨_, _, rfl, rfl, ?_⟩
  simp [senderStep, sendStep, SenderNode.perform, completionError, hW, hk, lockstepTx, servedTx]

/-- The sender refills its slot with the next message. -/
theorem servedTx_refilled (hW : p.window = 1) (hk : k + 1 < p.iterations) {mr : List UInt8}
    (hm : headerLen ≤ p.msgSize) (hsize : p.msgSize < usizeSize) (hmr : mr.length = p.msgSize) :
    ∃ s₁, senderStep p (servedTx p k mr) (.act (.fill 0 (k + 1))) = some s₁ ∧
      senderStep p s₁ (.act (.postSend 0 (k + 1))) =
        some (lockstepTx (k + 1) (fillSlot mr p.msgSize 0 (k + 1))) := by
  have hfits : SlotFits p.msgSize 0 p.msgSize := slotFits_of_le hsize (by omega)
  have hlen : (fillSlot mr p.msgSize 0 (k + 1)).length = p.msgSize := by
    rw [length_fillSlot (hmr ▸ hsize) hm (by omega), hmr]
  refine ⟨⟨{ pc := .refillPost 0, posted := k + 1, completed := k + 1 },
    fillSlot mr p.msgSize 0 (k + 1), [], []⟩, ?_, ?_⟩
  · simp [senderStep, sendStep, servedTx, SendCtl.refill, hk, expect, hW, Nat.mod_one,
      SenderNode.perform, hmr, hfits]
  · simp [senderStep, sendStep, lockstepTx, SendCtl.refill, expect, hW, Nat.mod_one,
      SenderNode.perform, hlen, hfits]

/-- A message arrives, and the receiver polls, counts, checks and reposts. -/
theorem Waiting.checked (hsize : p.msgSize < usizeSize) (hW : p.window = 1)
    (hk : k < p.iterations) {s : ReceiverNode} (h : Waiting p k s) {bytes : List UInt8}
    (hbytes : bytes.length = p.msgSize) :
    ∃ s₁ s₂ s₃ s₄ s₅, receiverStep p s (.complete 0 bytes true) = some s₁ ∧
      receiverStep p s₁ (.act (.poll [⟨0, p.msgSize, true⟩])) = some s₂ ∧
      receiverStep p s₂ (.act (.clock 0)) = some s₃ ∧
      receiverStep p s₃ (.act (.inspect 0 bytes)) = some s₄ ∧
      receiverStep p s₄ (.act (.postReceive 0 0)) = some s₅ ∧ Waiting p (k + 1) s₅ ∧
      s₁.ctl.pc ≠ .idle ∧ s₂.ctl.pc ≠ .idle ∧ s₃.ctl.pc ≠ .idle ∧ s₄.ctl.pc ≠ .idle := by
  have hfits : SlotFits p.msgSize 0 p.msgSize := slotFits_of_le hsize (by omega)
  have hrange : slotRange 0 p.msgSize = (0, p.msgSize) := by
    rw [slotRange_eq hsize (by omega), Nat.zero_mul, Nat.zero_add]
  obtain ⟨hpc, hok, hrecv, hrq, hcq, hmr⟩ := h
  obtain ⟨⟨pc, ck, last, failed⟩, mr, rq, cq, held, polls, checked⟩ := s
  simp only at hpc hok hrecv hrq hcq hmr
  subst hpc hok hrq hcq
  have hlen : (overwrite mr 0 bytes).length = p.msgSize := by
    rw [length_overwrite (by omega), hmr]
  have hslice : slice (overwrite mr 0 bytes) 0 p.msgSize = bytes :=
    slice_overwrite_self (by omega) hbytes
  refine ⟨⟨⟨.head, ck, last, false⟩, overwrite mr 0 bytes, [],
      [⟨0, bytes, ⟨0, p.msgSize, true⟩⟩], held, polls, checked⟩,
    ⟨⟨.progress [(0, p.msgSize)], ck, last, false⟩, overwrite mr 0 bytes, [], [],
      [(0, bytes)], polls ++ [[bytes]], checked⟩,
    ⟨⟨.inspect 0 p.msgSize [], ck.addReceived 1, 0, false⟩, overwrite mr 0 bytes, [], [],
      [(0, bytes)], polls ++ [[bytes]], checked⟩,
    ⟨⟨.repost 0 [], check bytes p.msgSize (ck.addReceived 1), 0, false⟩, overwrite mr 0 bytes,
      [], [], [], polls ++ [[bytes]], checked ++ [bytes]⟩,
    ⟨⟨.head, check bytes p.msgSize (ck.addReceived 1), 0, false⟩, overwrite mr 0 bytes,
      [⟨0, 0⟩], [], [], polls ++ [[bytes]], checked ++ [bytes]⟩,
    ?_, ?_, ?_, ?_, ?_, ?_, by simp, by simp, by simp, by simp⟩
  · simp [receiverStep, hbytes, hrange]
  · simp [receiverStep, recvStep, ReceiverNode.perform, completionError, hW, hrecv, hk]
  · simp [receiverStep, recvStep, ReceiverNode.perform, RecvCtl.next]
  · simp [receiverStep, recvStep, ReceiverNode.perform, hbytes, hrange, hlen, hslice]
  · simp [receiverStep, recvStep, ReceiverNode.perform, expect, RecvCtl.next, hlen, hfits]
  · refine ⟨rfl, rfl, ?_, rfl, rfl, hlen⟩
    rw [check_addReceived]
    exact congrArg (· + 1) ((frame_check _ _ _).2.2.1.trans hrecv)

/-- The sender up to its first post. -/
theorem senderInit_posted (ht : p.tracing = false) (hW : p.window = 1)
    (hm : headerLen ≤ p.msgSize) (hsize : p.msgSize < usizeSize) :
    ∃ s₁ s₂ s₃ mr, senderStep p (senderInit p) (.act (.write .barrier)) = some s₁ ∧
      senderStep p s₁ (.act (.read .barrier)) = some s₂ ∧
      senderStep p s₂ (.act (.fill 0 0)) = some s₃ ∧
      senderStep p s₃ (.act (.postSend 0 0)) = some (lockstepTx 0 mr) := by
  have hregion : regionLen p.window p.msgSize = p.msgSize := by
    rw [hW, regionLen_eq (by omega), Nat.one_mul]
  have hfits : SlotFits p.msgSize 0 p.msgSize := slotFits_of_le hsize (by omega)
  have hlen : (fillSlot (List.replicate p.msgSize 0) p.msgSize 0 0).length = p.msgSize := by
    rw [length_fillSlot (by rwa [List.length_replicate]) hm
      (by rw [List.length_replicate]; omega), List.length_replicate]
  refine ⟨⟨{ pc := .waitReceives .read }, List.replicate p.msgSize 0, [], []⟩,
    ⟨{ pc := .prefillFill 0 }, List.replicate p.msgSize 0, [], []⟩,
    ⟨{ pc := .prefillPost 0 }, fillSlot (List.replicate p.msgSize 0) p.msgSize 0 0, [], []⟩,
    fillSlot (List.replicate p.msgSize 0) p.msgSize 0 0, ?_, ?_, ?_, ?_⟩
  · simp [senderStep, senderInit, sendStep, syncThen, SyncPc.enter, SyncPc.step,
      SenderNode.perform, ht, hregion]
  · simp [senderStep, sendStep, syncThen, SyncPc.step, SenderNode.perform, ht,
      SendCtl.prefill, hW]
  · simp [senderStep, sendStep, expect, SenderNode.perform, hfits]
  · simp [senderStep, sendStep, expect, SenderNode.perform, SendCtl.prefill, hW, lockstepTx,
      hlen, hfits]

/-- The receiver up to the head of its loop. -/
theorem receiverInit_waiting (ht : p.tracing = false) (hW : p.window = 1)
    (hsize : p.msgSize < usizeSize) :
    ∃ s₁ s₂ s₃ s₄, receiverStep p (receiverInit p) (.act (.postReceive 0 0)) = some s₁ ∧
      receiverStep p s₁ (.act (.write .barrier)) = some s₂ ∧
      receiverStep p s₂ (.act (.read .barrier)) = some s₃ ∧
      receiverStep p s₃ (.act (.clock 0)) = some s₄ ∧ Waiting p 0 s₄ ∧
      (receiverInit p).ctl.pc ≠ .idle ∧ s₁.ctl.pc ≠ .idle ∧ s₂.ctl.pc ≠ .idle ∧
      s₃.ctl.pc ≠ .idle := by
  have hregion : regionLen p.window p.msgSize = p.msgSize := by
    rw [hW, regionLen_eq (by omega), Nat.one_mul]
  have hfits : SlotFits p.msgSize 0 p.msgSize := slotFits_of_le hsize (by omega)
  have hinit : receiverInit p = ⟨⟨.prefill 0, Checker.fresh p.msgSize p.iterations, 0, false⟩,
      List.replicate p.msgSize 0, [], [], [], [], []⟩ := by
    rw [receiverInit, hregion]
    simp [recvProgram, RecvCtl.prefill, hW]
  rw [hinit]
  refine ⟨⟨⟨.receivesPosted .write, Checker.fresh p.msgSize p.iterations, 0, false⟩,
      List.replicate p.msgSize 0, [⟨0, 0⟩], [], [], [], []⟩,
    ⟨⟨.receivesPosted .read, Checker.fresh p.msgSize p.iterations, 0, false⟩,
      List.replicate p.msgSize 0, [⟨0, 0⟩], [], [], [], []⟩,
    ⟨⟨.start, Checker.fresh p.msgSize p.iterations, 0, false⟩,
      List.replicate p.msgSize 0, [⟨0, 0⟩], [], [], [], []⟩,
    ⟨⟨.head, Checker.fresh p.msgSize p.iterations, 0, false⟩,
      List.replicate p.msgSize 0, [⟨0, 0⟩], [], [], [], []⟩,
    ?_, ?_, ?_, rfl, ⟨rfl, rfl, rfl, rfl, rfl, List.length_replicate⟩, by simp, by simp, by simp,
    by simp⟩
  · simp [receiverStep, recvStep, expect, RecvCtl.prefill, hW, ReceiverNode.perform, hfits,
      SyncPc.enter, ht]
  · simp [receiverStep, recvStep, syncThen, SyncPc.step, ReceiverNode.perform]
  · simp [receiverStep, recvStep, syncThen, SyncPc.step, ReceiverNode.perform, ht]

end Lockstep

/-! ## The run -/

section Run

variable {q : StreamSetup} {k : ℕ} {s : Stream}

/-- The states reached by runs that break only in quiet. -/
def Quietly (q : StreamSetup) (s : Stream) : Prop := (stream q).ReachableUnder (QuietBreak q) s

theorem Quietly.txStep (h : Quietly q s) {a : Act} {u : SenderNode} {w : Wire}
    (hw : s.wire.client a = some w) (hu : senderStep q.tx s.tx (.act a) = some u) :
    Quietly q { s with tx := u, wire := w } :=
  .step (l := .tx a) h True.intro (by simp only [stream, streamStep, hw, Option.bind_some, hu,
    Option.map_some])

theorem Quietly.rxStep (h : Quietly q s) {a : Act} {u : ReceiverNode} {w : Wire}
    (hidle : s.rx.ctl.pc ≠ .idle) (hw : s.wire.server a = some w)
    (hu : receiverStep q.rx s.rx (.act a) = some u) : Quietly q { s with rx := u, wire := w } :=
  .step (l := .rx a) h (fun _ _ hpc => absurd hpc hidle) (by simp only [stream, streamStep, hw,
    Option.bind_some, hu, Option.map_some])

/-- Both sides at the head of their loops, `k` messages behind them and the next
one posted. -/
structure Lockstep (q : StreamSetup) (k : ℕ) (s : Stream) : Prop where
  reach : Quietly q s
  tx : ∃ mr, s.tx = lockstepTx k mr
  rx : Waiting q.rx k s.rx
  fabric : s.flight = [] ∧ s.delivered.length = k ∧ s.dropped = []

variable (hn : 1 ≤ q.iterations) (hm : headerLen ≤ q.msgSize) (hsize : q.msgSize < usizeSize)
  (htx : q.txDepth = 1) (hrx : q.rxDepth = 1)

include hn htx hrx in
theorem window_one : q.tx.window = 1 ∧ q.rx.window = 1 := by
  constructor
  · rw [StreamSetup.tx, window, htx]
    exact Nat.min_eq_left hn
  · rw [StreamSetup.rx, window, hrx]
    exact Nat.min_eq_left hn

include hn hm hsize htx hrx in
/-- One message from slot to slot. -/
theorem Lockstep.turn (h : Lockstep q k s) (hk : k < q.iterations) :
    ∃ t mr, Quietly q t ∧ t.tx = servedTx q.tx k mr ∧ Waiting q.rx (k + 1) t.rx ∧
      t.flight = [] ∧ t.delivered.length = k + 1 ∧ t.dropped = [] := by
  obtain ⟨hW, hW'⟩ := window_one hn htx hrx
  obtain ⟨mr, hmr⟩ := h.tx
  obtain ⟨hfl, hdel, hdr⟩ := h.fabric
  obtain ⟨t₁, t₂, hs₁, hs₂, hs₃⟩ := lockstepTx_served (p := q.tx) hW hk mr
  have hset := stream_settling hn hm hsize h.reach
  have hbytes : (s.tx.bytesOf q.tx ⟨k, 0, false⟩).length = q.msgSize := by
    have hmem : (⟨k, 0, false⟩ : SendWr) ∈ s.tx.sq := by
      rw [hmr]
      exact List.mem_cons_self
    rw [(hset.tx.bytesOf_eq hmem).1]
    exact length_payload hm k
  obtain ⟨r₁, r₂, r₃, r₄, r₅, hr₁, hr₂, hr₃, hr₄, hr₅, hwait, hi₁, hi₂, hi₃, hi₄⟩ :=
    h.rx.checked hsize hW' hk hbytes
  have h₁ : Quietly q { s with
      tx := t₁, flight := s.flight ++ [(k, s.tx.bytesOf q.tx ⟨k, 0, false⟩)] } := by
    refine .step (l := .transmit 0) h.reach True.intro ?_
    have hget : s.tx.sq[0]? = some ⟨k, 0, false⟩ := by rw [hmr]; rfl
    simp only [stream, streamStep, hget]
    rw [hmr, hs₁]
    rfl
  have h₂ : Quietly q { s with
      tx := t₂, flight := s.flight ++ [(k, s.tx.bytesOf q.tx ⟨k, 0, false⟩)] } :=
    .step (l := .sent true) h₁ True.intro (by simp only [stream, streamStep, hs₂, Option.map_some])
  have h₃ := h₂.txStep (w := s.wire) rfl hs₃
  have h₄ : Quietly q { s with
      tx := servedTx q.tx k mr, rx := r₁
      delivered := s.delivered ++ [(k, s.tx.bytesOf q.tx ⟨k, 0, false⟩)] } := by
    refine .step (l := .deliver 0 0) h₃ (fun hleft => ?_) ?_
    · rw [RecvCtl.stage, h.rx.pc] at hleft
      exact absurd hleft (by simp)
    · simp only [stream, streamStep, hfl, List.nil_append, List.getElem?_cons_zero, hr₁,
        Option.map_some, List.eraseIdx_cons_zero]
  have h₈ := (((h₄.rxStep (w := s.wire) hi₁ rfl hr₂).rxStep (w := s.wire) hi₂ rfl hr₃).rxStep
    (w := s.wire) hi₃ rfl hr₄).rxStep (w := s.wire) hi₄ rfl hr₅
  refine ⟨_, mr, h₈, rfl, hwait, hfl, ?_, hdr⟩
  rw [List.length_append, hdel]
  rfl

include hn hm hsize htx hrx in
/-- The first message is posted, with a receive waiting for it. -/
theorem exists_lockstep_zero (hct : q.clientTracing = false) (hst : q.serverTracing = false) :
    ∃ s, Lockstep q 0 s := by
  obtain ⟨hW, hW'⟩ := window_one hn htx hrx
  obtain ⟨t₁, t₂, t₃, mr, hs₁, hs₂, hs₃, hs₄⟩ := senderInit_posted (p := q.tx) hct hW hm hsize
  obtain ⟨r₁, r₂, r₃, r₄, hr₁, hr₂, hr₃, hr₄, hwait, hi₀, hi₁, hi₂, hi₃⟩ :=
    receiverInit_waiting (p := q.rx) hst hW' hsize
  have h₀ : Quietly q (stream q).init := .init
  have h₂ := (h₀.rxStep (w := {}) hi₀ rfl hr₁).rxStep (w := { toClient := [.barrier] }) hi₁ rfl hr₂
  have h₃ := h₂.txStep (w := { toServer := [.barrier], toClient := [.barrier] }) rfl hs₁
  have h₄ := h₃.rxStep (w := { toClient := [.barrier] }) hi₂ rfl hr₃
  have h₅ := (h₄.txStep (w := {}) rfl hs₂).rxStep (w := {}) hi₃ rfl hr₄
  have h₇ := (h₅.txStep (w := {}) rfl hs₃).txStep (w := {}) rfl hs₄
  exact ⟨_, h₇, ⟨mr, rfl⟩, hwait, rfl, rfl, rfl⟩

include hn hm hsize htx hrx in
/-- Any number of messages short of the last. -/
theorem exists_lockstep (hct : q.clientTracing = false) (hst : q.serverTracing = false)
    (hk : k < q.iterations) : ∃ s, Lockstep q k s := by
  induction k with
  | zero => exact exists_lockstep_zero hn hm hsize htx hrx hct hst
  | succ k ih =>
    obtain ⟨hW, -⟩ := window_one hn htx hrx
    obtain ⟨s, hs⟩ := ih (by omega)
    obtain ⟨t, mr, ht, htx', hwait, hfl, hdel, hdr⟩ :=
      hs.turn hn hm hsize htx hrx (by omega)
    have hmr : mr.length = q.tx.msgSize := by
      have hlen := (stream_settling hn hm hsize ht).tx.length_mr
      rw [htx', hW, regionLen_eq (by rw [Nat.one_mul]; exact hsize), Nat.one_mul] at hlen
      exact hlen
    obtain ⟨u, hu, hu'⟩ := servedTx_refilled hW hk hm hsize hmr
    rw [← htx'] at hu
    exact ⟨_, (ht.txStep (w := t.wire) rfl hu).txStep (w := t.wire) rfl hu', ⟨_, rfl⟩, hwait,
      hfl, hdel, hdr⟩

include hn hm hsize htx hrx in
/-- **A run can lose nothing**, whatever its length. -/
theorem exists_lossless_run (hct : q.clientTracing = false) (hst : q.serverTracing = false) :
    ∃ s, Quietly q s ∧ s.rx.ctl.stage = .left ∧ s.delivered.length = q.iterations := by
  obtain ⟨s, hs⟩ := exists_lockstep hn hm hsize htx hrx hct hst
    (k := q.iterations - 1) (by omega)
  obtain ⟨t, mr, ht, -, hwait, -, hdel, -⟩ := hs.turn hn hm hsize htx hrx (by omega)
  rw [Nat.sub_add_cancel hn] at hwait hdel
  have hleave : receiverStep q.rx t.rx (.act .skip) =
      some { t.rx with ctl := t.rx.ctl.leave q.rx } := by
    have hge : ¬t.rx.ctl.checker.report.received < q.rx.iterations := by
      rw [hwait.received]
      exact lt_irrefl _
    simp [receiverStep, recvStep, hwait.ok, hwait.pc, hge, expect, ReceiverNode.perform]
  refine ⟨_, ht.rxStep (w := t.wire) (by simp [hwait.pc]) rfl hleave, rfl, hdel⟩

end Run

/-! ## The outcome -/

/-- **The outcome of a run.**  Over a fabric that may lose and reorder messages,
and for every interleaving in which the receiver does not give up too early, the
receiver leaves its loop with a report of what was delivered: the rest is lost,
nothing is duplicated, unidentifiable, truncated or corrupted, and every byte and
bit delivered is correct, counted in `u64`.  When every message has been delivered
or dropped, what is lost is what was dropped. -/
theorem stream_report {q : StreamSetup} (hn : 1 ≤ q.iterations) (hn' : q.iterations < usizeSize)
    (hm : headerLen ≤ q.msgSize) (hsize : q.msgSize < usizeSize) {s : Stream}
    (h : (stream q).ReachableUnder (QuietBreak q) s) (hleft : s.rx.ctl.stage = .left) :
    let report := s.rx.ctl.checker.report
    report.received = s.delivered.length ∧
    report.received + (s.dropped.length + s.pending q) = q.iterations ∧
    report.lost = s.dropped.length + s.pending q ∧
    (s.pending q = 0 → report.received = q.iterations - s.dropped.length ∧
      report.lost = s.dropped.length) ∧
    report.duplicated = 0 ∧ report.unidentifiable = 0 ∧ report.truncated = 0 ∧
    report.corrupted = 0 ∧
    report.correctBytes.toNat = report.received * q.msgSize % 2 ^ 64 ∧
    report.correctBits.toNat = 8 * report.received * q.msgSize % 2 ^ 64 ∧
    (8 * q.iterations * q.msgSize < 2 ^ 64 →
      report.correctBytes.toNat = report.received * q.msgSize ∧
      report.correctBits.toNat = 8 * report.received * q.msgSize) := by
  have hset := stream_settling hn hm hsize h
  obtain ⟨hrecv, hlost, hdup, hunid, htrunc, hcorr, hbytes, hbits⟩ :=
    hset.report hm hsize hn' hleft
  have htotal := hset.delivered_le
  have hbytes' := congrArg UInt64.toNat hbytes
  have hbits' := congrArg UInt64.toNat hbits
  rw [UInt64.toNat_ofNat', ← hrecv] at hbytes' hbits'
  refine ⟨hrecv, by omega, by omega, fun hzero => ⟨by omega, by omega⟩, hdup, hunid, htrunc,
    hcorr, hbytes', hbits', fun hfit => ?_⟩
  have hle : 8 * s.rx.ctl.checker.report.received * q.msgSize ≤ 8 * q.iterations * q.msgSize :=
    Nat.mul_le_mul_right _ (Nat.mul_le_mul_left _ (by omega))
  have hle' : s.rx.ctl.checker.report.received * q.msgSize ≤
      8 * s.rx.ctl.checker.report.received * q.msgSize := Nat.mul_le_mul_right _ (by omega)
  rw [hbytes', hbits', Nat.mod_eq_of_lt (by omega), Nat.mod_eq_of_lt (by omega)]
  exact ⟨rfl, rfl⟩

/-- Three messages of eight bytes, all of them delivered. -/
theorem stream_report_three :
    ∃ s, (stream ⟨false, false, 8, 3, 1, 1⟩).ReachableUnder
        (QuietBreak ⟨false, false, 8, 3, 1, 1⟩) s ∧ s.rx.ctl.stage = .left ∧
      s.rx.ctl.checker.report.received + (s.dropped.length + s.pending ⟨false, false, 8, 3, 1, 1⟩) =
        3 := by
  obtain ⟨s, hs, hleft, -⟩ := exists_lossless_run (q := ⟨false, false, 8, 3, 1, 1⟩)
    (by decide) (by decide) (by decide) rfl rfl rfl rfl
  exact ⟨s, hs, hleft,
    (stream_report (q := ⟨false, false, 8, 3, 1, 1⟩) (by decide) (by decide) (by decide) (by decide)
      hs hleft).2.1⟩

/-- `2 ^ 30` messages of `2 ^ 31` bytes, all of them delivered intact: the counter
of correct bits has come round to zero. -/
theorem correctBits_wraps :
    let q : StreamSetup := ⟨false, false, 2 ^ 31, 2 ^ 30, 1, 1⟩
    headerLen ≤ q.msgSize ∧ 1 ≤ q.iterations ∧ 1 ≤ q.txDepth ∧ 1 ≤ q.rxDepth ∧
    q.tx.window * q.msgSize < usizeSize ∧ q.rx.window * q.msgSize < usizeSize ∧
    ∃ s, (stream q).ReachableUnder (QuietBreak q) s ∧ s.rx.ctl.stage = .left ∧
      s.rx.ctl.checker.report.received = q.iterations ∧ s.dropped = [] ∧
      s.rx.ctl.checker.report.correctBits = 0 ∧
      s.rx.ctl.checker.report.correctBits.toNat ≠
        8 * s.rx.ctl.checker.report.received * q.msgSize := by
  intro q
  refine ⟨by decide, by decide, by decide, by decide, by decide, by decide, ?_⟩
  obtain ⟨s, hs, hleft, hdel⟩ := exists_lossless_run (q := q) (by decide) (by decide) (by decide)
    rfl rfl rfl rfl
  have hset := stream_settling (q := q) (by decide) (by decide) (by decide) hs
  obtain ⟨hrecv, -, -, -, -, -, -, hbits⟩ :=
    hset.report (by decide) (by decide) (by decide) hleft
  have htotal := hset.delivered_le
  rw [hdel] at hrecv hbits
  have hzero : s.rx.ctl.checker.report.correctBits = 0 := hbits.trans (by decide)
  refine ⟨s, hs, hleft, hrecv, List.eq_nil_of_length_eq_zero (by omega), hzero, ?_⟩
  rw [hzero, hrecv]
  decide

end Accuracy
end RdmaBench
