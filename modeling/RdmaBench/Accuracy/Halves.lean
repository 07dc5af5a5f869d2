import RdmaBench.Accuracy.Programs
import RdmaBench.Connection.Half

/-!
# The halves of an accuracy run

Two syncs, one after the receiver has posted its window and one after the loops, and
then the report, which the receiver writes and the sender reads.
-/

namespace RdmaBench
namespace Accuracy

open Automaton Session

/-! ## The sender -/

/-- Where `send` stands among its syncs. -/
def SendPc.phase : SendPc → Phase
  | .waitReceives s => .inside 0 s
  | .prefillFill _ | .prefillPost _ | .head | .refillFill _ | .refillPost _ => .between 1
  | .sendsCompleted s => .inside 1 s
  | .recvReport | .done => .between 2

/-- What `send` has to do after its syncs. -/
def SendPc.closing : SendPc → Session Item
  | .done => []
  | _ => [.read .accuracyReport]

/-- The points of `send` past its loop. -/
def SendPc.past : SendPc → Bool
  | .sendsCompleted _ | .recvReport | .done => true
  | _ => false

theorem SendPc.phase_entered_le (c : SendPc) : c.phase.entered ≤ 2 := by
  cases c <;> simp [SendPc.phase, Phase.entered]

theorem SendPc.past_of_entered {c : SendPc} (h : c.phase.entered = 2) : c.past = true := by
  cases c with
  | sendsCompleted | recvReport | done => rfl
  | _ => exact absurd h (by simp [SendPc.phase, Phase.entered])

theorem SendPc.closing_plain (c : SendPc) : .barrier ∉ reads c.closing := by
  unfold SendPc.closing
  split <;> decide

theorem SendCtl.prefill_phase (p : Setup) (c : SendCtl) (seq : ℕ) :
    (c.prefill p seq).pc.phase = .between 1 ∧
      (c.prefill p seq).pc.closing = [.read .accuracyReport] := by
  rw [SendCtl.prefill]
  split <;> exact ⟨rfl, rfl⟩

theorem SendCtl.refill_phase (p : Setup) (c : SendCtl) (left : ℕ) :
    (c.refill p left).pc.phase = .between 1 ∧
      (c.refill p left).pc.closing = [.read .accuracyReport] := by
  rw [SendCtl.refill]
  split <;> exact ⟨rfl, rfl⟩

/-- **A step of `send` goes through its syncs in order**, and reads the report
last. -/
theorem SendMove.half {p : Setup} {c t : SendCtl} {a : Act} (h : SendMove p c a t) :
    HalfMove 2 c.pc.phase c.pc.closing a t.pc.phase t.pc.closing := by
  cases h with
  | waiting hpc _ hs | completing hpc _ hs =>
    rw [hpc]
    exact .sync (.inside hs) rfl
  | waited hpc _ hs =>
    obtain ⟨hphase, hclosing⟩ := SendCtl.prefill_phase p c 0
    rw [hphase, hclosing, hpc]
    exact .sync (.leave hs) rfl
  | completed hpc _ hs =>
    rw [hpc]
    exact .sync (.leave hs) rfl
  | prefillFill hpc | refillFill hpc =>
    rw [hpc]
    exact .sync (.stay rfl) rfl
  | @prefillPost seq hpc =>
    obtain ⟨hphase, hclosing⟩ := SendCtl.prefill_phase p c (seq + 1)
    rw [hphase, hclosing, hpc]
    exact .sync (.stay rfl) rfl
  | poll hpc =>
    rw [(SendCtl.refill_phase p _ _).1, (SendCtl.refill_phase p _ _).2, hpc]
    exact .sync (.stay rfl) rfl
  | refillPost hpc =>
    rw [(SendCtl.refill_phase p _ _).1, (SendCtl.refill_phase p _ _).2, hpc]
    exact .sync (.stay rfl) rfl
  | pollError hpc =>
    rw [hpc]
    exact .sync (.stay rfl) rfl
  | leave hpc =>
    rw [hpc]
    exact .sync (.enter _ (by decide) rfl) rfl
  | recvReport hpc =>
    rw [hpc]
    exact .closing rfl rfl rfl

/-- The sender can go on to its next read, or to its end. -/
abbrev SendCtl.CanRead (p : Setup) (c : SendCtl) : Prop :=
  ToRead (sendProgram p) (fun c => decide (c.pc = .done) = true) c

section Send

variable {p : Setup} {c : SendCtl} (hf : ¬c.failed = true)
include hf

theorem SendCtl.canRead_recvReport : CanRead p { c with pc := .recvReport } :=
  .read .accuracyReport ((if_neg hf).trans (if_pos rfl))

theorem SendCtl.canRead_sendsCompleted (s : SyncPc) :
    CanRead p { c with pc := .sendsCompleted s } :=
  .sync p.tracing (fun s => { c with pc := .sendsCompleted s }) { c with pc := .recvReport }
    (fun _ _ => if_neg hf) (canRead_recvReport hf) s

theorem SendCtl.canRead_refillPost {left : ℕ}
    (hrefill : CanRead p ({ c with posted := c.posted + 1 }.refill p left)) :
    CanRead p { c with pc := .refillPost left } :=
  .step (.postSend (c.posted % p.window) c.posted) ((if_neg hf).trans (if_pos rfl))
    (fun _ => Act.noConfusion) hrefill

theorem SendCtl.canRead_refillFill {left : ℕ}
    (hrefill : CanRead p ({ c with posted := c.posted + 1 }.refill p left)) :
    CanRead p { c with pc := .refillFill left } :=
  .step (.fill (c.posted % p.window) c.posted) ((if_neg hf).trans (if_pos rfl))
    (fun _ => Act.noConfusion) (canRead_refillPost hf hrefill)

/-- A sender that refills its window gets back to the head of its loop. -/
theorem SendCtl.canRead_refill {m : ℕ} (hhead : ∀ d : SendCtl, ¬d.failed = true →
    d.completed = m → CanRead p { d with pc := .head }) (left : ℕ) (hm : c.completed = m) :
    CanRead p (c.refill p left) := by
  induction left generalizing c with
  | zero => exact hhead c hf hm
  | succ left ih =>
    rw [SendCtl.refill]
    split
    · exact canRead_refillFill hf (ih (c := { c with posted := c.posted + 1 }) hf hm)
    · exact hhead c hf hm

/-- A sender whose sends complete one at a time gets out of its loop. -/
theorem SendCtl.canRead_head (hwindow : 0 < p.iterations → 0 < p.window) (n : ℕ)
    (hn : p.iterations - c.completed = n) : CanRead p { c with pc := .head } := by
  induction n generalizing c with
  | zero =>
    have hge : ¬c.completed < p.iterations := by omega
    exact .step .skip ((if_neg hf).trans ((if_neg hge).trans (if_pos rfl)))
      (fun _ => Act.noConfusion) (canRead_sendsCompleted hf _)
  | succ n ih =>
    have hlt : c.completed < p.iterations := by omega
    refine .step (.poll [⟨0, 0, true⟩]) ((if_neg hf).trans ((if_pos hlt).trans
      (if_pos (hwindow (Nat.zero_lt_of_lt hlt))))) (fun _ => Act.noConfusion) ?_
    refine canRead_refill (c := { c with pc := .head, completed := c.completed + 1 }) hf
      (m := c.completed + 1) (fun d hd heq => ?_) 1 rfl
    exact ih (c := d) hd (by omega)

theorem SendCtl.canRead_prefill (hwindow : 0 < p.iterations → 0 < p.window) (n seq : ℕ)
    (hn : p.window - seq = n) : CanRead p (c.prefill p seq) := by
  induction n generalizing c seq with
  | zero =>
    rw [SendCtl.prefill, if_neg (by omega)]
    exact canRead_head (c := { c with posted := p.window }) hf hwindow _ rfl
  | succ n ih =>
    rw [SendCtl.prefill, if_pos (by omega)]
    refine .step (.fill seq seq) ((if_neg hf).trans (if_pos rfl)) (fun _ => Act.noConfusion) ?_
    exact .step (.postSend seq seq) ((if_neg hf).trans (if_pos rfl)) (fun _ => Act.noConfusion)
      (ih (c := { c with pc := .prefillPost seq }) hf (seq + 1) (by omega))

/-- **The sender can always go on**, unless a completion has failed. -/
theorem SendCtl.canRead (hwindow : 0 < p.iterations → 0 < p.window) : CanRead p c := by
  have hprefill : ∀ (d : SendCtl) (seq : ℕ), ¬d.failed = true → CanRead p (d.prefill p seq) :=
    fun d seq hd => canRead_prefill hd hwindow _ seq rfl
  have hrefill : ∀ (d : SendCtl) (left : ℕ), ¬d.failed = true → CanRead p (d.refill p left) :=
    fun d left hd => canRead_refill hd (fun e he _ => canRead_head he hwindow _ rfl) left rfl
  obtain ⟨pc, posted, completed, failed⟩ := c
  cases pc with
  | waitReceives s =>
    exact .sync p.tracing (fun s => ⟨.waitReceives s, posted, completed, failed⟩) _
      (fun _ _ => if_neg hf) (hprefill ⟨.waitReceives s, posted, completed, failed⟩ 0 hf) s
  | prefillFill seq =>
    refine .step (.fill seq seq) ((if_neg hf).trans (if_pos rfl)) (fun _ => Act.noConfusion) ?_
    exact .step (.postSend seq seq) ((if_neg hf).trans (if_pos rfl)) (fun _ => Act.noConfusion)
      (hprefill _ (seq + 1) hf)
  | prefillPost seq =>
    exact .step (.postSend seq seq) ((if_neg hf).trans (if_pos rfl)) (fun _ => Act.noConfusion)
      (hprefill _ (seq + 1) hf)
  | head => exact canRead_head hf hwindow _ rfl
  | refillFill left => exact canRead_refillFill hf (hrefill _ left hf)
  | refillPost left => exact canRead_refillPost hf (hrefill _ left hf)
  | sendsCompleted s => exact canRead_sendsCompleted hf s
  | recvReport => exact canRead_recvReport hf
  | done => exact .ended (decide_eq_true rfl)

end Send

/-- `send` as the client's half. -/
def sendHalf (p : Setup) (hwindow : 0 < p.iterations → 0 < p.window) : Half SendCtl where
  program := sendProgram p
  syncs := 2
  phase c := c.pc.phase
  closing c := c.pc.closing
  finished c := decide (c.pc = .done)
  failed c := c.failed
  leftLoop c := c.pc.past
  moves _ _ _ h := (SendMove.of_step h).half
  phase_init := todo_enter_append _ 1
  entered_le c := c.pc.phase_entered_le
  closing_plain c := c.pc.closing_plain
  of_finished c h := by
    rw [of_decide_eq_true h]
    exact ⟨rfl, rfl⟩
  leftLoop_of_entered _ h := SendPc.past_of_entered h
  failed_init := rfl
  toRead _ h := SendCtl.canRead (Bool.eq_false_iff.mp h) hwindow

/-- **The sender sends after its first `sync`.** -/
theorem SendMove.returned_of_send {p : Setup} {c t : SendCtl} {slot id : ℕ}
    (h : SendMove p c (.postSend slot id) t) : 1 ≤ c.pc.phase.returned := by
  cases h with
  | waiting _ ha | waited _ ha | completing _ ha | completed _ ha =>
    exact absurd ha Bool.noConfusion
  | prefillPost hpc | refillPost hpc =>
    rw [hpc]
    exact Nat.le_refl _

/-! ## The receiver -/

/-- Where `receive` stands among its syncs. -/
def RecvPc.phase : RecvPc → Phase
  | .prefill _ => .between 0
  | .receivesPosted s => .inside 0 s
  | .start | .head | .idle | .progress _ | .inspect _ _ _ | .repost _ _ => .between 1
  | .checkingDone s => .inside 1 s
  | .sendReport | .done => .between 2

/-- What `receive` has to do after its syncs. -/
def RecvPc.closing : RecvPc → Session Item
  | .done => []
  | _ => [.write .accuracyReport]

/-- The points of `receive` past its loop. -/
def RecvPc.past : RecvPc → Bool
  | .checkingDone _ | .sendReport | .done => true
  | _ => false

/-- How many receives have been posted at least at a point of `receive`. -/
def RecvPc.ahead (p : Setup) : RecvPc → ℕ
  | .prefill slot => slot
  | _ => p.window

theorem RecvPc.phase_entered_le (c : RecvPc) : c.phase.entered ≤ 2 := by
  cases c <;> simp [RecvPc.phase, Phase.entered]

theorem RecvPc.past_of_entered {c : RecvPc} (h : c.phase.entered = 2) : c.past = true := by
  cases c with
  | checkingDone | sendReport | done => rfl
  | _ => exact absurd h (by simp [RecvPc.phase, Phase.entered])

theorem RecvPc.closing_plain (c : RecvPc) : .barrier ∉ reads c.closing := by
  unfold RecvPc.closing
  split <;> decide

theorem RecvCtl.prefill_phase (p : Setup) (c : RecvCtl) (slot : ℕ) :
    ((c.prefill p slot).pc.phase = .between 0 ∨
      (c.prefill p slot).pc.phase = .inside 0 (.enter p.tracing)) ∧
      (c.prefill p slot).pc.closing = [.write .accuracyReport] := by
  rw [RecvCtl.prefill]
  split
  · exact ⟨.inl rfl, rfl⟩
  · exact ⟨.inr rfl, rfl⟩

theorem RecvCtl.next_phase (c : RecvCtl) (batch : List (ℕ × ℕ)) :
    (c.next batch).pc.phase = .between 1 ∧
      (c.next batch).pc.closing = [.write .accuracyReport] := by
  cases batch <;> exact ⟨rfl, rfl⟩

/-- **A step of `receive` goes through its syncs in order**, and writes the report
last. -/
theorem RecvMove.half {p : Setup} {c t : RecvCtl} {a : Act} (h : RecvMove p c a t) :
    HalfMove 2 c.pc.phase c.pc.closing a t.pc.phase t.pc.closing := by
  cases h with
  | @prefill slot hpc =>
    obtain ⟨hphase, hclosing⟩ := RecvCtl.prefill_phase p c (slot + 1)
    rcases hphase with hphase | hphase <;> rw [hphase, hclosing, hpc]
    · exact .sync (.stay rfl) rfl
    · exact .sync (.enter _ (by decide) rfl) rfl
  | posting hpc _ hs | finishing hpc _ hs =>
    rw [hpc]
    exact .sync (.inside hs) rfl
  | posted hpc _ hs | finished hpc _ hs =>
    rw [hpc]
    exact .sync (.leave hs) rfl
  | start hpc | pollEmpty hpc | poll hpc | pollError hpc | retry hpc | inspect hpc =>
    rw [hpc]
    exact .sync (.stay rfl) rfl
  | leave hpc | timedOut hpc =>
    rw [hpc]
    exact .sync (.enter _ (by decide) rfl) rfl
  | progress hpc | repost hpc =>
    rw [(RecvCtl.next_phase _ _).1, (RecvCtl.next_phase _ _).2, hpc]
    exact .sync (.stay rfl) rfl
  | sendReport hpc =>
    rw [hpc]
    exact .closing rfl rfl rfl

theorem RecvCtl.ahead_prefill_le (p : Setup) (c : RecvCtl) (slot : ℕ) :
    (c.prefill p slot).pc.ahead p ≤ slot := by
  rw [RecvCtl.prefill]
  split
  · exact Nat.le_refl _
  · next hslot => exact Nat.not_lt.mp hslot

/-- The receiver can go on to its next read, or to its end. -/
abbrev RecvCtl.CanRead (p : Setup) (c : RecvCtl) : Prop :=
  ToRead (recvProgram p) (fun c => decide (c.pc = .done) = true) c

section Recv

variable {p : Setup} {c : RecvCtl} (hf : ¬c.failed = true)
include hf

theorem RecvCtl.canRead_sendReport : CanRead p { c with pc := .sendReport } :=
  .step (.write .accuracyReport) ((if_neg hf).trans (if_pos rfl)) (fun _ => Act.noConfusion)
    (.ended (decide_eq_true rfl))

theorem RecvCtl.canRead_checkingDone (s : SyncPc) : CanRead p { c with pc := .checkingDone s } :=
  .sync p.tracing (fun s => { c with pc := .checkingDone s }) { c with pc := .sendReport }
    (fun _ _ => if_neg hf) (canRead_sendReport hf) s

theorem RecvCtl.canRead_leave : CanRead p (c.leave p) :=
  canRead_checkingDone (c := { c with checker := (c.leave p).checker }) hf _

theorem RecvCtl.canRead_idle : CanRead p { c with pc := .idle } :=
  .step (.clock (c.lastProgress + idleTimeout))
    ((if_neg hf).trans (if_pos (Nat.le_sub_of_add_le' (Nat.le_refl _))))
    (fun _ => Act.noConfusion) (canRead_leave hf)

/-- A receiver that polls nothing gives up in the end. -/
theorem RecvCtl.canRead_head : CanRead p { c with pc := .head } := by
  by_cases hlt : c.checker.report.received < p.iterations
  · exact .step (.poll []) ((if_neg hf).trans ((if_pos hlt).trans (if_pos (Nat.zero_le _))))
      (fun _ => Act.noConfusion) (canRead_idle hf)
  · exact .step .skip ((if_neg hf).trans ((if_neg hlt).trans (if_pos rfl)))
      (fun _ => Act.noConfusion) (canRead_leave hf)

theorem RecvCtl.canRead_repost {slot : ℕ} {rest : List (ℕ × ℕ)} (hnext : CanRead p (c.next rest)) :
    CanRead p { c with pc := .repost slot rest } := by
  refine .step (.postReceive slot slot) ((if_neg hf).trans (if_pos rfl))
    (fun _ => Act.noConfusion) ?_
  cases rest <;> exact hnext

theorem RecvCtl.canRead_inspect {slot len : ℕ} {rest : List (ℕ × ℕ)}
    (hnext : ∀ d : RecvCtl, ¬d.failed = true → CanRead p (d.next rest)) :
    CanRead p { c with pc := .inspect slot len rest } := by
  refine .step (.inspect slot (List.replicate (min len p.msgSize) 0)) ((if_neg hf).trans
    (if_pos ⟨rfl, List.length_replicate⟩)) (fun _ => Act.noConfusion) ?_
  exact canRead_repost
    (c := { c with checker := check (List.replicate (min len p.msgSize) 0) p.msgSize c.checker }) hf
    (hnext _ hf)

/-- The messages of a batch are looked at one after the other. -/
theorem RecvCtl.canRead_next (batch : List (ℕ × ℕ)) : CanRead p (c.next batch) := by
  induction batch generalizing c with
  | nil => exact canRead_head hf
  | cons m rest ih => exact canRead_inspect hf fun d hd => ih (c := d) hd

theorem RecvCtl.canRead_start : CanRead p { c with pc := .start } :=
  .step (.clock 0) (if_neg hf) (fun _ => Act.noConfusion)
    (canRead_head (c := { c with lastProgress := 0 }) hf)

theorem RecvCtl.canRead_receivesPosted (s : SyncPc) :
    CanRead p { c with pc := .receivesPosted s } :=
  .sync p.tracing (fun s => { c with pc := .receivesPosted s }) { c with pc := .start }
    (fun _ _ => if_neg hf) (canRead_start hf) s

theorem RecvCtl.canRead_prefill (n slot : ℕ) (hn : p.window - slot = n) :
    CanRead p (c.prefill p slot) := by
  induction n generalizing c slot with
  | zero =>
    rw [RecvCtl.prefill, if_neg (by omega)]
    exact canRead_receivesPosted hf _
  | succ n ih =>
    rw [RecvCtl.prefill, if_pos (by omega)]
    exact .step (.postReceive slot slot) ((if_neg hf).trans (if_pos rfl))
      (fun _ => Act.noConfusion) (ih (c := { c with pc := .prefill slot }) hf (slot + 1) (by omega))

/-- **The receiver can always go on**, unless a completion has failed. -/
theorem RecvCtl.canRead : CanRead p c := by
  obtain ⟨pc, checker, lastProgress, failed⟩ := c
  cases pc with
  | prefill slot =>
    exact .step (.postReceive slot slot) ((if_neg hf).trans (if_pos rfl))
      (fun _ => Act.noConfusion) (canRead_prefill hf _ (slot + 1) rfl)
  | receivesPosted s => exact canRead_receivesPosted hf s
  | start => exact canRead_start hf
  | head => exact canRead_head hf
  | idle => exact canRead_idle hf
  | progress batch =>
    exact .step (.clock 0) (if_neg hf) (fun _ => Act.noConfusion)
      (canRead_next (c := ⟨.progress batch, checker.addReceived batch.length, 0, failed⟩) hf batch)
  | inspect slot len rest => exact canRead_inspect hf fun d hd => canRead_next hd rest
  | repost slot rest => exact canRead_repost hf (canRead_next hf rest)
  | checkingDone s => exact canRead_checkingDone hf s
  | sendReport => exact canRead_sendReport hf
  | done => exact .ended (decide_eq_true rfl)

end Recv

/-- `receive` as the server's half. -/
def recvHalf (p : Setup) : Half RecvCtl where
  program := recvProgram p
  syncs := 2
  phase c := c.pc.phase
  closing c := c.pc.closing
  finished c := decide (c.pc = .done)
  failed c := c.failed
  leftLoop c := c.pc.past
  moves _ _ _ h := (RecvMove.of_step h).half
  phase_init := by
    rcases (RecvCtl.prefill_phase p
      { pc := .prefill 0, checker := Checker.fresh p.msgSize p.iterations } 0).1 with h | h
    · exact congrArg (Phase.todo 2) h
    · exact (congrArg (Phase.todo 2) h).trans (todo_enter_append _ 1)
  entered_le c := c.pc.phase_entered_le
  closing_plain c := c.pc.closing_plain
  of_finished c h := by
    rw [of_decide_eq_true h]
    exact ⟨rfl, rfl⟩
  leftLoop_of_entered _ h := RecvPc.past_of_entered h
  failed_init := by
    show (RecvCtl.prefill p _ 0).failed = false
    rw [RecvCtl.prefill]
    split <;> rfl
  toRead _ h := RecvCtl.canRead (Bool.eq_false_iff.mp h)

theorem RecvCtl.ahead_next (p : Setup) (c : RecvCtl) (batch : List (ℕ × ℕ)) :
    (c.next batch).pc.ahead p = p.window := by
  cases batch <;> rfl

/-- The receives of the window are posted one at a time. -/
theorem RecvMove.ahead_le {p : Setup} {c t : RecvCtl} {a : Act} (h : RecvMove p c a t) :
    t.pc.ahead p ≤ c.pc.ahead p + a.receives := by
  cases h with
  | @prefill slot hpc =>
    rw [hpc]
    exact RecvCtl.ahead_prefill_le p c (slot + 1)
  | progress hpc | repost hpc =>
    rw [RecvCtl.ahead_next, hpc]
    exact Nat.le_add_right _ _
  | posting hpc | posted hpc | start hpc | pollEmpty hpc | poll hpc | pollError hpc | leave hpc
  | timedOut hpc | retry hpc | inspect hpc | finishing hpc | finished hpc | sendReport hpc =>
    rw [hpc]
    exact Nat.le_add_right _ _

/-- **A receiver that has entered its first `sync` has posted its window.** -/
theorem RecvPc.ahead_of_entered {p : Setup} {c : RecvPc} (h : 1 ≤ c.phase.entered) :
    p.window ≤ c.ahead p := by
  cases c with
  | prefill => exact absurd h (by simp [RecvPc.phase, Phase.entered])
  | _ => exact Nat.le_refl _

/-! ## The two together -/

/-- The halves of an accuracy run, which takes at least one iteration and messages
that hold a header. -/
def bench (client server : Setup) (hwindow : 0 < client.iterations → 0 < client.window) :
    Bench SendCtl RecvCtl where
  client := sendHalf client hwindow
  server := recvHalf server
  admitted := decide (0 < client.iterations ∧ headerLen ≤ client.msgSize)
  syncs_eq := rfl
  closing_dual := by
    show Dual [.read .accuracyReport] (RecvCtl.prefill server _ 0).pc.closing
    rw [(RecvCtl.prefill_phase server _ 0).2]
    exact .recv _ .done
  gate := 1
  gate_mem := ⟨Nat.succ_pos 0, Nat.le_succ 1⟩
  ahead := server.window
  posted c := c.pc.ahead server
  send_after _ _ _ _ h := (SendMove.of_step h).returned_of_send
  posted_init := Nat.le_zero.mp (RecvCtl.ahead_prefill_le server _ 0)
  posted_step _ _ _ h := (RecvMove.of_step h).ahead_le
  ahead_le_posted _ h := RecvPc.ahead_of_entered h

end Accuracy
end RdmaBench
