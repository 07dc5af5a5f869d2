import RdmaBench.Latency.Programs
import RdmaBench.Connection.Half

/-!
# The halves of a latency run

`ping` and `pong` have their four syncs at the same places, and the one receive each
posts ahead stands between its second and its third.
-/

namespace RdmaBench
namespace Latency

open Automaton Session

theorem PingPc.past_of_entered {c : PingPc} (h : c.phase.entered = 4) : c.past = true := by
  cases c with
  | finish | done => rfl
  | _ => exact absurd h (by simp [PingPc.phase, Phase.entered])

theorem PongPc.past_of_entered {c : PongPc} (h : c.phase.entered = 4) : c.past = true := by
  cases c with
  | finish | done => rfl
  | _ => exact absurd h (by simp [PongPc.phase, Phase.entered])

/-- A wait comes to its end: the clock passes the deadline, or a poll returns what is
still pending. -/
theorem ToRead.wait {σ : Type} {P : Program σ} {ended : σ → Prop} (stay : Wait → σ)
    {leave : Wait → WaitEnd → σ} (hstep : ∀ w a, P.step (stay w) a = waitThen w a stay (leave w))
    (hok : ∀ w, ToRead P ended (leave w .ok)) (hlate : ∀ w, ToRead P ended (leave w .timedOut))
    (w : Wait) : ToRead P ended (stay w) := by
  have hmove : ∀ {w : Wait} {a : Act} {r : Wait ⊕ WaitEnd}, WaitMove w a r →
      ToRead P ended (Sum.elim stay (leave w) r) → ToRead P ended (stay w) := by
    intro w a r hw hr
    refine .step a ((hstep w a).trans ?_) (fun i ha => ?_) hr
    · rw [waitThen, hw.step]
      rfl
    · have hnone := hw.session_eq
      rw [ha] at hnone
      exact List.cons_ne_nil _ _ hnone
  have hcheck : ∀ w : Wait, w.pc = .check → ToRead P ended (stay w) := by
    intro w hpc
    exact hmove (.timedOut hpc (Nat.le_refl _)) (hlate w)
  have hpoll : ∀ w : Wait, w.pc = .poll → ToRead P ended (stay w) := by
    intro w hpc
    have hlen : [(⟨w.pending.toNat, 0, true⟩ : Wc)].length ≤ 2 := Nat.le_succ 1
    have habsorb : absorb w.pending [⟨w.pending.toNat, 0, true⟩] = some 0 := by
      simp [absorb]
    by_cases hturn : w.turn % 100 = 0
    · exact hmove (.pollCheck hpc hlen habsorb hturn) (hcheck _ rfl)
    · exact hmove (.poll hpc hlen habsorb hturn) (hok w)
  cases hpc : w.pc with
  | start =>
    refine hmove (@WaitMove.start w 0 hpc) ?_
    rw [Wait.head]
    split
    · exact hok w
    · exact hpoll _ rfl
  | poll => exact hpoll w hpc
  | check => exact hcheck w hpc

/-! ## `ping` -/

/-- `ping` can go on to its next read, or to its end. -/
abbrev PingCtl.CanRead (p : Setup) (c : PingCtl) : Prop :=
  ToRead (pingProgram p) (fun c => decide (c.pc = .done) = true) c

section Ping

variable {p : Setup} {c : PingCtl} (hf : ¬c.failed = true)
include hf

theorem PingCtl.canRead_finish (s : SyncPc) : CanRead p { c with pc := .finish s } :=
  .sync p.tracing (fun s => { c with pc := .finish s }) { c with pc := .done }
    (fun _ _ => if_neg hf) (.ended (decide_eq_true rfl)) s

section Turn

variable (hnext : ∀ d : PingCtl, ¬d.failed = true → PingCtl.CanRead p (d.next p (c.i + 1)))
include hnext

/-- A turn of the loop comes to the next one. -/
theorem PingCtl.canRead_repost : CanRead p { c with pc := .repost } :=
  .step (.postReceive 0 wrRecv) ((if_neg hf).trans (expect_eq_some.mpr ⟨rfl, rfl⟩))
    (fun _ => Act.noConfusion) (hnext { c with pc := .repost } hf)

theorem PingCtl.canRead_record : CanRead p { c with pc := .record } := by
  refine .step (.clock 0) (if_neg hf) (fun _ => Act.noConfusion) ?_
  rw [PingCtl.recorded]
  split
  · exact canRead_repost (c := { c with samples := c.samples ++ [(c.t0, 0)] }) hf hnext
  · exact hnext { c with pc := .record, samples := c.samples ++ [(c.t0, 0)] } hf

theorem PingCtl.canRead_wait (w : Wait) : CanRead p { c with pc := .wait w } :=
  ToRead.wait (fun w => { c with pc := .wait w }) (fun _ _ => if_neg hf)
    (fun _ => canRead_record hf hnext) (fun _ => canRead_finish hf _) w

theorem PingCtl.canRead_send : CanRead p { c with pc := .send } :=
  .step (.postSend 0 wrSend) ((if_neg hf).trans (expect_eq_some.mpr ⟨rfl, rfl⟩))
    (fun _ => Act.noConfusion) (canRead_wait hf hnext _)

theorem PingCtl.canRead_head : CanRead p { c with pc := .head } :=
  .step (.clock 0) (if_neg hf) (fun _ => Act.noConfusion)
    (canRead_send (c := { c with t0 := 0 }) hf hnext)

end Turn

theorem PingCtl.canRead_next (n i : ℕ) (hn : p.iterations - i = n) : CanRead p (c.next p i) := by
  induction n generalizing c i with
  | zero =>
    rw [PingCtl.next, if_neg (by omega)]
    exact canRead_finish (c := { c with i := i }) hf _
  | succ n ih =>
    rw [PingCtl.next, if_pos (by omega)]
    exact canRead_head (c := { c with i := i }) hf fun d hd => ih (c := d) hd (i + 1) (by omega)

theorem PingCtl.canRead_posted (s : SyncPc) : CanRead p { c with pc := .posted s } :=
  .sync p.tracing (fun s => { c with pc := .posted s }) (c.next p 0) (fun _ _ => if_neg hf)
    (canRead_next hf _ 0 rfl) s

theorem PingCtl.canRead_postFirst : CanRead p { c with pc := .postFirst } :=
  .step (.postReceive 0 wrRecv) ((if_neg hf).trans (expect_eq_some.mpr ⟨rfl, rfl⟩))
    (fun _ => Act.noConfusion) (canRead_posted hf _)

theorem PingCtl.canRead_settled (s : SyncPc) : CanRead p { c with pc := .settled s } :=
  .sync p.tracing (fun s => { c with pc := .settled s }) { c with pc := .postFirst }
    (fun _ _ => if_neg hf) (canRead_postFirst hf) s

theorem PingCtl.canRead_sleep : CanRead p { c with pc := .sleep } :=
  .step .skip ((if_neg hf).trans (expect_eq_some.mpr ⟨rfl, rfl⟩)) (fun _ => Act.noConfusion)
    (canRead_settled hf _)

theorem PingCtl.canRead_warmup (s : SyncPc) : CanRead p { c with pc := .warmup s } :=
  .sync p.tracing (fun s => { c with pc := .warmup s }) { c with pc := .sleep }
    (fun _ _ => if_neg hf) (canRead_sleep hf) s

/-- **`ping` can always go on**, unless a completion has failed. -/
theorem PingCtl.canRead : CanRead p c := by
  have hnext : ∀ d : PingCtl, ¬d.failed = true → CanRead p (d.next p (c.i + 1)) :=
    fun d hd => canRead_next hd _ _ rfl
  obtain ⟨pc, i, t0, samples, failed⟩ := c
  cases pc with
  | warmup s => exact canRead_warmup hf s
  | sleep => exact canRead_sleep hf
  | settled s => exact canRead_settled hf s
  | postFirst => exact canRead_postFirst hf
  | posted s => exact canRead_posted hf s
  | head => exact canRead_head hf hnext
  | send => exact canRead_send hf hnext
  | wait w => exact canRead_wait hf hnext w
  | record => exact canRead_record hf hnext
  | repost => exact canRead_repost hf hnext
  | finish s => exact canRead_finish hf s
  | done => exact .ended (decide_eq_true rfl)

end Ping

/-! ## `pong` -/

/-- `pong` can go on to its next read, or to its end. -/
abbrev PongCtl.CanRead (p : Setup) (c : PongCtl) : Prop :=
  ToRead (pongProgram p) (fun c => decide (c.pc = .done) = true) c

section Pong

variable {p : Setup} (c : PongCtl)

theorem PongCtl.canRead_finish (s : SyncPc) : CanRead p { c with pc := .finish s } :=
  .sync p.tracing (fun s => { c with pc := .finish s }) { c with pc := .done }
    (fun _ _ => rfl) (.ended (decide_eq_true rfl)) s

section Turn

variable (hnext : ∀ d : PongCtl, PongCtl.CanRead p (d.next p (c.turn + 1)))
include hnext

/-- A turn of the loop comes to the next one. -/
theorem PongCtl.canRead_repost : CanRead p { c with pc := .repost } :=
  .step (.postReceive 0 wrRecv) rfl (fun _ => Act.noConfusion)
    (hnext { c with pc := .repost, echoed := c.echoed + 1 })

theorem PongCtl.canRead_send : CanRead p { c with pc := .send } :=
  .step (.postSend 0 wrSend) rfl (fun _ => Act.noConfusion)
    (canRead_repost c hnext)

theorem PongCtl.canRead_wait (w : Wait) : CanRead p { c with pc := .wait w } :=
  ToRead.wait (fun w => { c with pc := .wait w }) (fun _ _ => rfl)
    (fun _ => canRead_send c hnext) (fun _ => canRead_finish c _) w

end Turn

theorem PongCtl.canRead_next (n i : ℕ) (hn : p.iterations - i = n) : CanRead p (c.next p i) := by
  induction n generalizing c i with
  | zero =>
    rw [PongCtl.next, if_neg (by omega)]
    exact canRead_finish { c with turn := i } _
  | succ n ih =>
    rw [PongCtl.next, if_pos (by omega)]
    exact canRead_wait { c with turn := i } (fun d => ih d (i + 1) (by omega)) _

theorem PongCtl.canRead_posted (s : SyncPc) : CanRead p { c with pc := .posted s } :=
  .sync p.tracing (fun s => { c with pc := .posted s }) (c.next p 0) (fun _ _ => rfl)
    (canRead_next c _ 0 rfl) s

theorem PongCtl.canRead_postFirst : CanRead p { c with pc := .postFirst } :=
  .step (.postReceive 0 wrRecv) rfl (fun _ => Act.noConfusion)
    (canRead_posted c _)

theorem PongCtl.canRead_settled (s : SyncPc) : CanRead p { c with pc := .settled s } :=
  .sync p.tracing (fun s => { c with pc := .settled s }) { c with pc := .postFirst }
    (fun _ _ => rfl) (canRead_postFirst c) s

theorem PongCtl.canRead_sleep : CanRead p { c with pc := .sleep } :=
  .step .skip rfl (fun _ => Act.noConfusion) (canRead_settled c _)

theorem PongCtl.canRead_warmup (s : SyncPc) : CanRead p { c with pc := .warmup s } :=
  .sync p.tracing (fun s => { c with pc := .warmup s }) { c with pc := .sleep }
    (fun _ _ => rfl) (canRead_sleep c) s

/-- **`pong` can always go on.** -/
theorem PongCtl.canRead : CanRead p c := by
  have hnext : ∀ d : PongCtl, CanRead p (d.next p (c.turn + 1)) :=
    fun d => canRead_next d _ _ rfl
  obtain ⟨pc, turn, echoed⟩ := c
  cases pc with
  | warmup s => exact canRead_warmup ⟨.sleep, turn, echoed⟩ s
  | sleep => exact canRead_sleep ⟨.sleep, turn, echoed⟩
  | settled s => exact canRead_settled ⟨.sleep, turn, echoed⟩ s
  | postFirst => exact canRead_postFirst ⟨.sleep, turn, echoed⟩
  | posted s => exact canRead_posted ⟨.sleep, turn, echoed⟩ s
  | wait w => exact canRead_wait ⟨.sleep, turn, echoed⟩ hnext w
  | send => exact canRead_send ⟨.sleep, turn, echoed⟩ hnext
  | repost => exact canRead_repost ⟨.sleep, turn, echoed⟩ hnext
  | finish s => exact canRead_finish ⟨.sleep, turn, echoed⟩ s
  | done => exact .ended (decide_eq_true rfl)

end Pong

/-! ## The two halves -/

/-- `ping` as the client's half. -/
def pingHalf (p : Setup) : Half PingCtl where
  program := pingProgram p
  syncs := 4
  phase c := c.pc.phase
  closing _ := []
  finished c := decide (c.pc = .done)
  failed c := c.failed
  leftLoop c := c.pc.past
  moves _ _ _ h := .sync (PingMove.of_step h).2.phase rfl
  phase_init := todo_enter_append _ 3
  entered_le c := c.pc.phase_entered_le
  closing_plain _ := List.not_mem_nil
  of_finished c h := ⟨by rw [of_decide_eq_true h]; rfl, rfl⟩
  leftLoop_of_entered _ h := PingPc.past_of_entered h
  failed_init := rfl
  toRead _ h := PingCtl.canRead (Bool.eq_false_iff.mp h)

/-- `pong` as the server's half.  No failed completion gets out of it. -/
def pongHalf (p : Setup) : Half PongCtl where
  program := pongProgram p
  syncs := 4
  phase c := c.pc.phase
  closing _ := []
  finished c := decide (c.pc = .done)
  failed _ := false
  leftLoop c := c.pc.past
  moves _ _ _ h := .sync (PongMove.of_step h).phase rfl
  phase_init := todo_enter_append _ 3
  entered_le c := c.pc.phase_entered_le
  closing_plain _ := List.not_mem_nil
  of_finished c h := ⟨by rw [of_decide_eq_true h]; rfl, rfl⟩
  leftLoop_of_entered _ h := PongPc.past_of_entered h
  failed_init := rfl
  toRead c _ := c.canRead

/-- **`ping` sends after its third `sync`.** -/
theorem PingMove.returned_of_send {p : Setup} {c t : PingCtl} {slot id : ℕ}
    (h : PingMove p c (.postSend slot id) t) : 3 ≤ c.pc.phase.returned := by
  cases h with
  | warming _ ha | warmed _ ha | settling _ ha | settled _ ha | posting _ ha | posted _ ha
  | finishing _ ha | finished _ ha => exact absurd ha Bool.noConfusion
  | send hpc | waiting hpc | waited hpc =>
    rw [hpc]
    exact Nat.le_refl _

/-- How many receives `pong` has posted at least where it stands. -/
def PongPc.ahead (c : PongPc) : ℕ := if c.before then 0 else 1

theorem PongPc.ahead_le_one (c : PongPc) : c.ahead ≤ 1 := by
  unfold PongPc.ahead
  split <;> decide

theorem PongMove.ahead_le {p : Setup} {c t : PongCtl} {a : Act} (h : PongMove p c a t) :
    t.pc.ahead ≤ c.pc.ahead + a.receives := by
  cases h with
  | warming hpc | warmed hpc | sleep hpc | settling hpc | settled hpc => exact Nat.zero_le _
  | postFirst hpc =>
    rw [hpc]
    exact Nat.le_refl _
  | posting hpc | posted hpc | waiting hpc | waited hpc | send hpc | repost hpc | finishing hpc
  | finished hpc =>
    rw [hpc]
    exact Nat.le_trans (PongPc.ahead_le_one _) (Nat.le_add_right _ _)

/-- **A `pong` that has entered its third `sync` has posted its first receive.** -/
theorem PongPc.ahead_of_entered {c : PongPc} (h : 3 ≤ c.phase.entered) : 1 ≤ c.ahead := by
  cases hbefore : c.before with
  | true =>
    have hle := PongPc.entered_of_before hbefore
    omega
  | false =>
    rw [PongPc.ahead, hbefore]
    exact Nat.le_refl _

/-- The halves of a latency run, which takes at least one iteration. -/
def bench (client server : Setup) : Bench PingCtl PongCtl where
  client := pingHalf client
  server := pongHalf server
  admitted := decide (0 < client.iterations)
  syncs_eq := rfl
  closing_dual := .done
  gate := 3
  gate_mem := ⟨Nat.succ_pos 2, Nat.le_succ 3⟩
  ahead := 1
  posted c := c.pc.ahead
  send_after _ _ _ _ h := (PingMove.of_step h).2.returned_of_send
  posted_init := rfl
  posted_step _ _ _ h := (PongMove.of_step h).ahead_le
  ahead_le_posted _ h := PongPc.ahead_of_entered h

end Latency
end RdmaBench
