import RdmaBench.Bandwidth.Programs
import RdmaBench.Connection.Half

/-!
# The syncs of a bandwidth run

Four on either side: around the settling pause, after the receiver has posted its
window, and after the loops.  The sender has nothing to do between its second and
its third and goes straight through.
-/

namespace RdmaBench
namespace Bandwidth

open Automaton Session

/-! ## The sender -/

/-- Where `send` stands among its syncs. -/
def SendPc.phase : SendPc → Phase
  | .warmup s => .inside 0 s
  | .sleep => .between 1
  | .settled s => .inside 1 s
  | .waitReceives s => .inside 2 s
  | .start | .prefill _ | .head | .refill _ => .between 3
  | .sendsCompleted s => .inside 3 s
  | .done => .between 4

/-- The points of `send` past its loop. -/
def SendPc.past : SendPc → Bool
  | .sendsCompleted _ | .done => true
  | _ => false

theorem SendPc.phase_entered_le (c : SendPc) : c.phase.entered ≤ 4 := by
  cases c <;> simp [SendPc.phase, Phase.entered]

theorem SendPc.past_of_entered {c : SendPc} (h : c.phase.entered = 4) : c.past = true := by
  cases c with
  | sendsCompleted | done => rfl
  | _ => exact absurd h (by simp [SendPc.phase, Phase.entered])

theorem SendCtl.phase_prefill (p : Setup) (c : SendCtl) (i : ℕ) :
    (c.prefill p i).pc.phase = .between 3 := by
  rw [SendCtl.prefill]
  split <;> rfl

theorem SendCtl.phase_refill (p : Setup) (c : SendCtl) (left : ℕ) :
    (c.refill p left).pc.phase = .between 3 := by
  rw [SendCtl.refill]
  split <;> rfl

/-- **A step of `send` goes through its syncs in order.** -/
theorem SendMove.phase {p : Setup} {c t : SendCtl} {a : Act} (h : SendMove p c a t) :
    Phase.Move 4 c.pc.phase a t.pc.phase := by
  cases h with
  | warming hpc _ hs | settling hpc _ hs | waiting hpc _ hs | completing hpc _ hs =>
    rw [hpc]
    exact .inside hs
  | warmed hpc _ hs | waited hpc _ hs | completed hpc _ hs =>
    rw [hpc]
    exact .leave hs
  | settled hpc _ hs =>
    rw [hpc]
    exact .through _ (by decide) hs
  | sleep hpc | leave hpc =>
    rw [hpc]
    exact .enter _ (by decide) rfl
  | start hpc | prefill hpc =>
    rw [SendCtl.phase_prefill, hpc]
    exact .stay rfl
  | poll hpc | refill hpc =>
    rw [SendCtl.phase_refill, hpc]
    exact .stay rfl
  | pollError hpc =>
    rw [hpc]
    exact .stay rfl

/-- The sender can go on to its next read, or to its end. -/
abbrev SendCtl.CanRead (p : Setup) (c : SendCtl) : Prop :=
  ToRead (sendProgram p) (fun c => decide (c.pc = .done) = true) c

section CanRead

variable {p : Setup} {c : SendCtl} (hf : ¬c.failed = true)
include hf

theorem SendCtl.canRead_sendsCompleted (s : SyncPc) :
    CanRead p { c with pc := .sendsCompleted s } :=
  .sync p.tracing (fun s => { c with pc := .sendsCompleted s }) { c with pc := .done }
    (fun _ _ => if_neg hf) (.ended (decide_eq_true rfl)) s

/-- A sender that refills its window gets back to the head of its loop. -/
theorem SendCtl.canRead_refill {m : ℕ} (hhead : ∀ c : SendCtl, ¬c.failed = true → c.completed = m →
    CanRead p { c with pc := .head }) (left : ℕ) (hm : c.completed = m) :
    CanRead p (c.refill p left) := by
  induction left generalizing c with
  | zero => exact hhead c hf hm
  | succ left ih =>
    rw [SendCtl.refill]
    split
    · exact .step (.postSend 0 c.posted) ((if_neg hf).trans (if_pos rfl))
        (fun _ => Act.noConfusion) (ih (c := { c with pc := .refill left, posted := c.posted + 1 })
          hf hm)
    · exact hhead c hf hm

/-- A sender whose sends complete one at a time gets out of its loop. -/
theorem SendCtl.canRead_head (n : ℕ) (hn : p.iterations - c.completed = n) :
    CanRead p { c with pc := .head } := by
  induction n generalizing c with
  | zero =>
    have hge : ¬c.completed < p.iterations := by omega
    exact .step (.clock 0) ((if_neg hf).trans (if_neg hge)) (fun _ => Act.noConfusion)
      (canRead_sendsCompleted (c := { c with t1 := 0 }) hf _)
  | succ n ih =>
    have hlt : c.completed < p.iterations := by omega
    refine .step (.poll [⟨0, 0, true⟩]) ((if_neg hf).trans ((if_pos hlt).trans
      (if_pos (Nat.le_max_right _ _)))) (fun _ => Act.noConfusion) ?_
    refine canRead_refill (c := { c with pc := .head, completed := c.completed + 1 }) hf
      (m := c.completed + 1) (fun d hd heq => ?_) 1 rfl
    exact ih (c := d) hd (by omega)

theorem SendCtl.canRead_prefill (n i : ℕ) (hn : p.sendWindow - i = n) :
    CanRead p (c.prefill p i) := by
  induction n generalizing c i with
  | zero =>
    rw [SendCtl.prefill, if_neg (by omega)]
    exact canRead_head (c := { c with posted := p.sendWindow }) hf _ rfl
  | succ n ih =>
    rw [SendCtl.prefill, if_pos (by omega)]
    exact .step (.postSend 0 i) ((if_neg hf).trans (if_pos rfl)) (fun _ => Act.noConfusion)
      (ih (c := { c with pc := .prefill i }) hf (i + 1) (by omega))

theorem SendCtl.canRead_start : CanRead p { c with pc := .start } :=
  .step (.clock 0) (if_neg hf) (fun _ => Act.noConfusion)
    (canRead_prefill (c := { c with pc := .start, t0 := 0 }) hf _ 0 rfl)

theorem SendCtl.canRead_waitReceives (s : SyncPc) : CanRead p { c with pc := .waitReceives s } :=
  .sync p.tracing (fun s => { c with pc := .waitReceives s }) { c with pc := .start }
    (fun _ _ => if_neg hf) (canRead_start hf) s

theorem SendCtl.canRead_settled (s : SyncPc) : CanRead p { c with pc := .settled s } :=
  .sync p.tracing (fun s => { c with pc := .settled s })
    { c with pc := .waitReceives (.enter p.tracing) } (fun _ _ => if_neg hf)
    (canRead_waitReceives hf _) s

theorem SendCtl.canRead_sleep : CanRead p { c with pc := .sleep } :=
  .step .skip ((if_neg hf).trans (if_pos rfl)) (fun _ => Act.noConfusion) (canRead_settled hf _)

theorem SendCtl.canRead_warmup (s : SyncPc) : CanRead p { c with pc := .warmup s } :=
  .sync p.tracing (fun s => { c with pc := .warmup s }) { c with pc := .sleep }
    (fun _ _ => if_neg hf) (canRead_sleep hf) s

/-- **The sender can always go on**, unless a completion has failed. -/
theorem SendCtl.canRead : CanRead p c := by
  obtain ⟨pc, t0, t1, posted, completed, failed⟩ := c
  cases pc with
  | warmup s => exact canRead_warmup hf s
  | sleep => exact canRead_sleep hf
  | settled s => exact canRead_settled hf s
  | waitReceives s => exact canRead_waitReceives hf s
  | start => exact canRead_start hf
  | prefill i =>
    exact .step (.postSend 0 i) ((if_neg hf).trans (if_pos rfl)) (fun _ => Act.noConfusion)
      (canRead_prefill hf _ (i + 1) rfl)
  | head => exact canRead_head hf _ rfl
  | refill left =>
    exact .step (.postSend 0 posted) ((if_neg hf).trans (if_pos rfl)) (fun _ => Act.noConfusion)
      (canRead_refill (c := ⟨.refill left, t0, t1, posted + 1, completed, failed⟩) hf
        (fun d hd _ => canRead_head (c := d) hd _ rfl) left rfl)
  | sendsCompleted s => exact canRead_sendsCompleted hf s
  | done => exact .ended (decide_eq_true rfl)

end CanRead

/-- `send` as the client's half. -/
def sendHalf (p : Setup) : Half SendCtl where
  program := sendProgram p
  syncs := 4
  phase c := c.pc.phase
  closing _ := []
  finished c := decide (c.pc = .done)
  failed c := c.failed
  leftLoop c := c.pc.past
  moves _ _ _ h := .sync (SendMove.of_step h).phase rfl
  phase_init := todo_enter_append _ 3
  entered_le c := c.pc.phase_entered_le
  closing_plain _ := List.not_mem_nil
  of_finished c h := ⟨by rw [of_decide_eq_true h]; rfl, rfl⟩
  leftLoop_of_entered _ h := SendPc.past_of_entered h
  failed_init := rfl
  toRead _ h := SendCtl.canRead (Bool.eq_false_iff.mp h)

/-- **The sender sends after its third `sync`.** -/
theorem SendMove.returned_of_send {p : Setup} {c t : SendCtl} {slot id : ℕ}
    (h : SendMove p c (.postSend slot id) t) : 3 ≤ c.pc.phase.returned := by
  cases h with
  | warming _ ha | warmed _ ha | settling _ ha | settled _ ha | waiting _ ha | waited _ ha
  | completing _ ha | completed _ ha => exact absurd ha Bool.noConfusion
  | prefill hpc | refill hpc =>
    rw [hpc]
    exact Nat.le_refl _

/-! ## The receiver -/

/-- Where `receive` stands among its syncs. -/
def RecvPc.phase : RecvPc → Phase
  | .warmup s => .inside 0 s
  | .sleep => .between 1
  | .settled s => .inside 1 s
  | .prefill _ => .between 2
  | .receivesPosted s => .inside 2 s
  | .start | .head | .idle | .progress _ | .refill _ => .between 3
  | .drained s => .inside 3 s
  | .done => .between 4

/-- The points of `receive` past its loop. -/
def RecvPc.past : RecvPc → Bool
  | .drained _ | .done => true
  | _ => false

/-- How many receives have been posted at least at a point of `receive`. -/
def RecvPc.ahead (p : Setup) : RecvPc → ℕ
  | .warmup _ | .sleep | .settled _ => 0
  | .prefill i => i
  | _ => p.recvWindow

theorem RecvPc.phase_entered_le (c : RecvPc) : c.phase.entered ≤ 4 := by
  cases c <;> simp [RecvPc.phase, Phase.entered]

theorem RecvPc.past_of_entered {c : RecvPc} (h : c.phase.entered = 4) : c.past = true := by
  cases c with
  | drained | done => rfl
  | _ => exact absurd h (by simp [RecvPc.phase, Phase.entered])

theorem RecvCtl.phase_prefill (p : Setup) (c : RecvCtl) (i : ℕ) :
    (c.prefill p i).pc.phase = .between 2 ∨
      (c.prefill p i).pc.phase = .inside 2 (.enter p.tracing) := by
  rw [RecvCtl.prefill]
  split
  · exact .inl rfl
  · exact .inr rfl

theorem RecvCtl.phase_refill (p : Setup) (c : RecvCtl) (left : ℕ) :
    (c.refill p left).pc.phase = .between 3 := by
  rw [RecvCtl.refill]
  split <;> rfl

/-- **A step of `receive` goes through its syncs in order.** -/
theorem RecvMove.phase {p : Setup} {c t : RecvCtl} {a : Act} (h : RecvMove p c a t) :
    Phase.Move 4 c.pc.phase a t.pc.phase := by
  cases h with
  | warming hpc _ hs | settling hpc _ hs | posting hpc _ hs | draining hpc _ hs =>
    rw [hpc]
    exact .inside hs
  | warmed hpc _ hs | posted hpc _ hs | drained hpc _ hs =>
    rw [hpc]
    exact .leave hs
  | settled hpc _ hs =>
    rcases RecvCtl.phase_prefill p c 0 with hq | hq <;> rw [hq, hpc]
    · exact .leave hs
    · exact .through _ (by decide) hs
  | @prefill i hpc =>
    rcases RecvCtl.phase_prefill p c (i + 1) with hq | hq <;> rw [hq, hpc]
    · exact .stay rfl
    · exact .enter _ (by decide) rfl
  | sleep hpc | leave hpc | timedOut hpc =>
    rw [hpc]
    exact .enter _ (by decide) rfl
  | progress hpc | refill hpc =>
    rw [RecvCtl.phase_refill, hpc]
    exact .stay rfl
  | start hpc | pollEmpty hpc | poll hpc | pollError hpc | retry hpc =>
    rw [hpc]
    exact .stay rfl

/-- The receiver can go on to its next read, or to its end. -/
abbrev RecvCtl.CanRead (p : Setup) (c : RecvCtl) : Prop :=
  ToRead (recvProgram p) (fun c => decide (c.pc = .done) = true) c

section CanRead

variable {p : Setup} {c : RecvCtl} (hf : ¬c.failed = true)
include hf

theorem RecvCtl.canRead_drained (s : SyncPc) : CanRead p { c with pc := .drained s } :=
  .sync p.tracing (fun s => { c with pc := .drained s }) { c with pc := .done }
    (fun _ _ => if_neg hf) (.ended (decide_eq_true rfl)) s

theorem RecvCtl.canRead_idle : CanRead p { c with pc := .idle } :=
  .step (.clock (c.lastProgress + idleTimeout))
    ((if_neg hf).trans (if_pos (Nat.le_sub_of_add_le' (Nat.le_refl _))))
    (fun _ => Act.noConfusion) (canRead_drained hf _)

/-- A receiver that polls nothing gives up in the end. -/
theorem RecvCtl.canRead_head : CanRead p { c with pc := .head } := by
  by_cases hlt : c.completed < p.iterations
  · exact .step (.poll []) ((if_neg hf).trans ((if_pos hlt).trans (if_pos (Nat.zero_le _))))
      (fun _ => Act.noConfusion) (canRead_idle hf)
  · exact .step .skip ((if_neg hf).trans ((if_neg hlt).trans (if_pos rfl)))
      (fun _ => Act.noConfusion) (canRead_drained hf _)

theorem RecvCtl.canRead_refill (left : ℕ) : CanRead p (c.refill p left) := by
  induction left generalizing c with
  | zero => exact canRead_head hf
  | succ left ih =>
    rw [RecvCtl.refill]
    split
    · exact .step (.postReceive 0 c.posted) ((if_neg hf).trans (if_pos rfl))
        (fun _ => Act.noConfusion)
        (ih (c := { c with pc := .refill left, posted := c.posted + 1 }) hf)
    · exact canRead_head hf

theorem RecvCtl.canRead_start : CanRead p { c with pc := .start } :=
  .step (.clock 0) (if_neg hf) (fun _ => Act.noConfusion)
    (canRead_head (c := { c with lastProgress := 0 }) hf)

theorem RecvCtl.canRead_receivesPosted (s : SyncPc) :
    CanRead p { c with pc := .receivesPosted s } :=
  .sync p.tracing (fun s => { c with pc := .receivesPosted s }) { c with pc := .start }
    (fun _ _ => if_neg hf) (canRead_start hf) s

theorem RecvCtl.canRead_prefill (n i : ℕ) (hn : p.recvWindow - i = n) :
    CanRead p (c.prefill p i) := by
  induction n generalizing c i with
  | zero =>
    rw [RecvCtl.prefill, if_neg (by omega)]
    exact canRead_receivesPosted (c := { c with posted := p.recvWindow }) hf _
  | succ n ih =>
    rw [RecvCtl.prefill, if_pos (by omega)]
    exact .step (.postReceive 0 i) ((if_neg hf).trans (if_pos rfl)) (fun _ => Act.noConfusion)
      (ih (c := { c with pc := .prefill i }) hf (i + 1) (by omega))

theorem RecvCtl.canRead_settled (s : SyncPc) : CanRead p { c with pc := .settled s } :=
  .sync p.tracing (fun s => { c with pc := .settled s }) (c.prefill p 0) (fun _ _ => if_neg hf)
    (canRead_prefill hf _ 0 rfl) s

theorem RecvCtl.canRead_sleep : CanRead p { c with pc := .sleep } :=
  .step .skip ((if_neg hf).trans (if_pos rfl)) (fun _ => Act.noConfusion) (canRead_settled hf _)

theorem RecvCtl.canRead_warmup (s : SyncPc) : CanRead p { c with pc := .warmup s } :=
  .sync p.tracing (fun s => { c with pc := .warmup s }) { c with pc := .sleep }
    (fun _ _ => if_neg hf) (canRead_sleep hf) s

/-- **The receiver can always go on**, unless a completion has failed. -/
theorem RecvCtl.canRead : CanRead p c := by
  obtain ⟨pc, posted, completed, lastProgress, failed⟩ := c
  cases pc with
  | warmup s => exact canRead_warmup hf s
  | sleep => exact canRead_sleep hf
  | settled s => exact canRead_settled hf s
  | prefill i =>
    exact .step (.postReceive 0 i) ((if_neg hf).trans (if_pos rfl)) (fun _ => Act.noConfusion)
      (canRead_prefill hf _ (i + 1) rfl)
  | receivesPosted s => exact canRead_receivesPosted hf s
  | start => exact canRead_start hf
  | head => exact canRead_head hf
  | idle => exact canRead_idle hf
  | progress n =>
    exact .step (.clock 0) (if_neg hf) (fun _ => Act.noConfusion)
      (canRead_refill (c := ⟨.progress n, posted, completed + n, 0, failed⟩) hf n)
  | refill left =>
    exact .step (.postReceive 0 posted) ((if_neg hf).trans (if_pos rfl))
      (fun _ => Act.noConfusion)
      (canRead_refill (c := ⟨.refill left, posted + 1, completed, lastProgress, failed⟩) hf left)
  | drained s => exact canRead_drained hf s
  | done => exact .ended (decide_eq_true rfl)

end CanRead

/-- `receive` as the server's half. -/
def recvHalf (p : Setup) : Half RecvCtl where
  program := recvProgram p
  syncs := 4
  phase c := c.pc.phase
  closing _ := []
  finished c := decide (c.pc = .done)
  failed c := c.failed
  leftLoop c := c.pc.past
  moves _ _ _ h := .sync (RecvMove.of_step h).phase rfl
  phase_init := todo_enter_append _ 3
  entered_le c := c.pc.phase_entered_le
  closing_plain _ := List.not_mem_nil
  of_finished c h := ⟨by rw [of_decide_eq_true h]; rfl, rfl⟩
  leftLoop_of_entered _ h := RecvPc.past_of_entered h
  failed_init := rfl
  toRead _ h := RecvCtl.canRead (Bool.eq_false_iff.mp h)

theorem RecvCtl.ahead_prefill_le (p : Setup) (c : RecvCtl) (i : ℕ) :
    (c.prefill p i).pc.ahead p ≤ i := by
  rw [RecvCtl.prefill]
  split
  · exact Nat.le_refl _
  · next hi => exact Nat.not_lt.mp hi

theorem RecvCtl.ahead_refill (p : Setup) (c : RecvCtl) (left : ℕ) :
    (c.refill p left).pc.ahead p = p.recvWindow := by
  rw [RecvCtl.refill]
  split <;> rfl

/-- The receives of the window are posted one at a time. -/
theorem RecvMove.ahead_le {p : Setup} {c t : RecvCtl} {a : Act} (h : RecvMove p c a t) :
    t.pc.ahead p ≤ c.pc.ahead p + a.receives := by
  cases h with
  | warming hpc | warmed hpc | sleep hpc | settling hpc => exact Nat.zero_le _
  | settled hpc =>
    exact Nat.le_trans (RecvCtl.ahead_prefill_le p c 0) (Nat.zero_le _)
  | @prefill i hpc =>
    rw [hpc]
    exact RecvCtl.ahead_prefill_le p c (i + 1)
  | progress hpc | refill hpc =>
    rw [RecvCtl.ahead_refill, hpc]
    exact Nat.le_add_right _ _
  | posting hpc | posted hpc | start hpc | pollEmpty hpc | poll hpc | pollError hpc | leave hpc
  | timedOut hpc | retry hpc | draining hpc | drained hpc =>
    rw [hpc]
    exact Nat.le_add_right _ _

/-- **A receiver that has entered its third `sync` has posted its window.** -/
theorem RecvPc.ahead_of_entered {p : Setup} {c : RecvPc} (h : 3 ≤ c.phase.entered) :
    p.recvWindow ≤ c.ahead p := by
  cases c with
  | warmup | sleep | settled | prefill => exact absurd h (by simp [RecvPc.phase, Phase.entered])
  | _ => exact Nat.le_refl _

/-! ## The two together -/

/-- The halves of a bandwidth run.  It takes any parameters. -/
def bench (client server : Setup) : Bench SendCtl RecvCtl where
  client := sendHalf client
  server := recvHalf server
  admitted := true
  syncs_eq := rfl
  closing_dual := .done
  gate := 3
  gate_mem := ⟨Nat.succ_pos 2, Nat.le_succ 3⟩
  ahead := server.recvWindow
  posted c := c.pc.ahead server
  send_after _ _ _ _ h := (SendMove.of_step h).returned_of_send
  posted_init := rfl
  posted_step _ _ _ h := (RecvMove.of_step h).ahead_le
  ahead_le_posted _ h := RecvPc.ahead_of_entered h

end Bandwidth
end RdmaBench
