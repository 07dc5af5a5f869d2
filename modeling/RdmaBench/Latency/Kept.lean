import RdmaBench.Latency.Ready

/-!
# What is kept while nothing gives up

What can go wrong between two sides that lose nothing by themselves is a ping that
arrives at `repost`, and a wait that gives up.  `wait_for` looks at the clock
*after* the poll of a turn and before it tests what is still pending, so a wait
that has just got its last completion can still report a timeout.  `Timely` rules
out these two; `Steady` is what the environment owes: no failed completion, and no
wait that runs out while something is pending.

Under the first, nothing is lost (`nothing_lost`).  Under both, every wait ends
with `Ok` (`WaitMove.end_eq`), so the client leaves its loop with a sample of every
round trip and the server with every echo sent (`pingPong_kept`).
-/

namespace RdmaBench
namespace Latency

open Automaton Session

/-! ## The conditions -/

/-- The wait a program is in. -/
def PingPc.waiting : PingPc → Option Wait
  | .wait w => some w
  | _ => none

def PongPc.waiting : PongPc → Option Wait
  | .wait w => some w
  | _ => none

/-- Whether this act is a wait's giving up. -/
def Expires (w : Wait) (a : Act) : Prop := waitStep w a = some (.inr .timedOut)

instance (w : Wait) (a : Act) : Decidable (Expires w a) := inferInstanceAs (Decidable (_ = _))

/-- No completion fails, and no wait gives up while something is pending.  A wait that
is entered before the peer has posted runs out as any other: what it waits for counts
as still to come. -/
def Steady (s : PingPong) : Label → Prop
  | .client a => ∀ w ∈ s.client.ctl.pc.waiting, w.pending ≠ 0 → ¬Expires w a
  | .server a => ∀ w ∈ s.server.ctl.pc.waiting, w.pending ≠ 0 → ¬Expires w a
  | .complete _ c => c.ok = true
  | _ => True

/-- No ping arrives at `repost`, and no wait gives up with nothing pending. -/
def Timely (s : PingPong) : Label → Prop
  | .client a => ∀ w ∈ s.client.ctl.pc.waiting, w.pending = 0 → ¬Expires w a
  | .server a => ∀ w ∈ s.server.ctl.pc.waiting, w.pending = 0 → ¬Expires w a
  | .arrive .server => s.server.ctl.pc ≠ .repost
  | _ => True

instance (s : PingPong) : (l : Label) → Decidable (Steady s l)
  | .client a => inferInstanceAs
      (Decidable (∀ w ∈ s.client.ctl.pc.waiting, w.pending ≠ 0 → ¬Expires w a))
  | .server a => inferInstanceAs
      (Decidable (∀ w ∈ s.server.ctl.pc.waiting, w.pending ≠ 0 → ¬Expires w a))
  | .complete _ _ => inferInstanceAs (Decidable (_ = true))
  | .transmit _ | .arrive _ => inferInstanceAs (Decidable True)

/-- Both conditions. -/
def Orderly (s : PingPong) (l : Label) : Prop := Steady s l ∧ Timely s l

theorem Orderly.client {s : PingPong} {a : Act} (h : Orderly s (.client a)) {w : Wait}
    (hpc : s.client.ctl.pc = .wait w) : ¬Expires w a := by
  have hmem : w ∈ s.client.ctl.pc.waiting := by
    rw [hpc]
    exact rfl
  by_cases hw : w.pending = 0
  · exact h.2 w hmem hw
  · exact h.1 w hmem hw

theorem Orderly.server {s : PingPong} {a : Act} (h : Orderly s (.server a)) {w : Wait}
    (hpc : s.server.ctl.pc = .wait w) : ¬Expires w a := by
  have hmem : w ∈ s.server.ctl.pc.waiting := by
    rw [hpc]
    exact rfl
  by_cases hw : w.pending = 0
  · exact h.2 w hmem hw
  · exact h.1 w hmem hw

/-! ## What is kept -/

theorem absorb_ne_none {wcs : List Wc} (hok : ∀ c ∈ wcs, c.ok = true) (pending : UInt64) :
    absorb pending wcs ≠ none := by
  induction wcs generalizing pending with
  | nil => exact Option.some_ne_none _
  | cons c wcs ih =>
    rw [absorb, if_pos (hok c List.mem_cons_self)]
    exact ih (fun d hd => hok d (List.mem_cons_of_mem _ hd)) _

theorem Wait.head_eq {w : Wait} {r : WaitEnd} (h : w.head = .inr r) : r = .ok := by
  unfold Wait.head at h
  split at h
  · exact (Sum.inr.inj h).symm
  · exact absurd h (by simp)

section Side

variable {σ : Type} {s q : Side σ}

/-- **A wait that ends ends well**, when no completion has failed and it does not
give up. -/
theorem WaitMove.end_eq {w : Wait} {a : Act} {r : WaitEnd} (h : WaitMove w a (.inr r))
    (hq : s.perform a = some q) (hok : ∀ c ∈ s.cq, c.ok = true) (hexp : ¬Expires w a) :
    r = .ok := by
  have hstep := h.step
  generalize hres : (Sum.inr r : Wait ⊕ WaitEnd) = res at h
  cases h with
  | start hpc | poll hpc _ _ _ | retry hpc _ => exact Wait.head_eq hres.symm
  | pollCheck hpc _ _ _ => exact absurd hres (by simp)
  | pollError hpc hlen herr =>
    obtain ⟨-, -, hpre⟩ := polled_of_poll hq
    exact absurd herr (absorb_ne_none (fun c hc => hok c (hpre.subset hc)) _)
  | timedOut hpc ht =>
    rw [hres] at hstep
    exact absurd hstep hexp

/-- An act leaves no new entry on the queue. -/
theorem Side.cq_subset {a : Act} (h : s.perform a = some q) : q.cq ⊆ s.cq := by
  cases a with
  | poll wcs =>
    obtain ⟨-, h⟩ := Option.ite_none_right_eq_some.mp h
    rw [← Option.some.inj h]
    exact List.drop_subset _ _
  | clock now =>
    obtain ⟨-, h⟩ := Option.ite_none_right_eq_some.mp h
    rw [← Option.some.inj h]
    exact List.Subset.refl _
  | _ =>
    rw [← Option.some.inj h]
    exact List.Subset.refl _

end Side

/-- The client has not failed, and past its loop it has all its samples. -/
structure PingKept (p : Setup) (s : Side PingCtl) : Prop where
  running : s.ctl.failed = false
  ok : ∀ c ∈ s.cq, c.ok = true
  collected : s.ctl.pc.past = true → s.ctl.samples.length = p.iterations

/-- Past its loop the server has sent all its echoes. -/
structure PongKept (p : Setup) (s : Side PongCtl) : Prop where
  ok : ∀ c ∈ s.cq, c.ok = true
  echoed : s.ctl.pc.past = true → s.sends = p.iterations

/-- Leaving the loop at its head means that all turns are done. -/
theorem PingCtl.next_kept {p : Setup} {c : PingCtl} {i : ℕ} (hrun : c.failed = false)
    (hsamples : c.samples.length = i) (hle : i ≤ p.iterations) :
    (c.next p i).failed = false ∧
      ((c.next p i).pc.past = true → (c.next p i).samples.length = p.iterations) := by
  unfold PingCtl.next
  split
  · exact ⟨hrun, fun hpast => absurd hpast Bool.noConfusion⟩
  · next hge => exact ⟨hrun, fun _ => hsamples.trans (Nat.le_antisymm hle (Nat.not_lt.mp hge))⟩

/-- **An act of the client keeps it on course.** -/
theorem PingKept.act {p : Setup} {s t : Side PingCtl} (h : PingKept p s) (hs : PingSound p s)
    {a : Act} (hexp : ∀ w, s.ctl.pc = .wait w → ¬Expires w a)
    (ht : s.act (pingStep p) a = some t) : PingKept p t := by
  obtain ⟨q, c, hq, hc, rfl⟩ := Side.act_eq_some ht
  have hok : ∀ c ∈ q.cq, c.ok = true := fun c hc => h.ok c (Side.cq_subset hq hc)
  have hat := hs.at_pc
  cases (PingMove.of_step hc).2 with
  | posted hpc _ _ =>
    simp only [PingAt, hpc] at hat
    obtain ⟨hrun, hpast⟩ :=
      PingCtl.next_kept (p := p) h.running (List.length_eq_zero_iff.mpr hat.1) (Nat.zero_le _)
    exact ⟨hrun, hok, hpast⟩
  | @waited w r a hpc hw =>
    obtain rfl := hw.end_eq hq h.ok (hexp w hpc)
    exact ⟨h.running, hok, fun hpast => absurd hpast Bool.noConfusion⟩
  | @record now hpc =>
    simp only [PingAt, hpc] at hat
    obtain ⟨hi, hsamples, -⟩ := hat
    unfold PingCtl.recorded
    split
    · exact ⟨h.running, hok, fun hpast => absurd hpast Bool.noConfusion⟩
    · have hlen : (s.ctl.samples ++ [(s.ctl.t0, now)]).length = s.ctl.i + 1 := by
        rw [List.length_append, hsamples, List.length_singleton]
      obtain ⟨hrun, hpast⟩ := PingCtl.next_kept (p := p)
        (c := { s.ctl with samples := s.ctl.samples ++ [(s.ctl.t0, now)] }) h.running hlen hi
      exact ⟨hrun, hok, hpast⟩
  | repost hpc =>
    simp only [PingAt, hpc] at hat
    obtain ⟨hi, hsamples, -⟩ := hat
    obtain ⟨hrun, hpast⟩ := PingCtl.next_kept h.running hsamples (Nat.le_of_lt hi)
    exact ⟨hrun, hok, hpast⟩
  | finishing hpc _ _ | finished hpc _ _ =>
    exact ⟨h.running, hok, fun _ => h.collected (by rw [hpc]; rfl)⟩
  | _ => exact ⟨h.running, hok, fun hpast => absurd hpast Bool.noConfusion⟩

/-- Leaving the loop at its head means that all echoes are sent. -/
theorem PongCtl.sends_of_past {p : Setup} {c : PongCtl} {turn sends : ℕ} (hsends : sends = turn)
    (hle : turn ≤ p.iterations) (hpast : (c.next p turn).pc.past = true) :
    sends = p.iterations := by
  unfold PongCtl.next at hpast
  split at hpast
  · exact absurd hpast Bool.noConfusion
  · next hge => exact hsends.trans (Nat.le_antisymm hle (Nat.not_lt.mp hge))

/-- **An act of the server keeps it on course.** -/
theorem PongKept.act {p : Setup} {s t : Side PongCtl} (h : PongKept p s) (hs : PongSound p s)
    {a : Act} (hexp : ∀ w, s.ctl.pc = .wait w → ¬Expires w a)
    (ht : s.act (pongStep p) a = some t) : PongKept p t := by
  obtain ⟨q, c, hq, hc, rfl⟩ := Side.act_eq_some ht
  have hok : ∀ c ∈ q.cq, c.ok = true := fun c hc => h.ok c (Side.cq_subset hq hc)
  have hat := hs.at_pc
  cases PongMove.of_step hc with
  | posted hpc ha _ =>
    simp only [PongAt, hpc] at hat
    refine ⟨hok, fun hpast => ?_⟩
    have hsends := (polled_of_outOfBand ha hq).sends.trans hat.1
    exact PongCtl.sends_of_past hsends (Nat.zero_le _) hpast
  | @waited w r a hpc hw =>
    obtain rfl := hw.end_eq hq h.ok (hexp w hpc)
    exact ⟨hok, fun hpast => absurd hpast Bool.noConfusion⟩
  | repost hpc =>
    simp only [PongAt, hpc] at hat
    refine ⟨hok, fun hpast => ?_⟩
    rw [← Option.some.inj hq] at hpast ⊢
    exact PongCtl.sends_of_past hat.2.1 hat.1 hpast
  | finishing hpc ha _ | finished hpc ha _ =>
    refine ⟨hok, fun _ => ?_⟩
    exact (polled_of_outOfBand ha hq).sends.trans (h.echoed (by rw [hpc]; rfl))
  | _ => exact ⟨hok, fun hpast => absurd hpast Bool.noConfusion⟩

theorem Side.complete_ok {σ : Type} {s t : Side σ} (hok : ∀ c ∈ s.cq, c.ok = true) {c : Wc}
    (hc : c.ok = true) (ht : s.complete c = some t) : ∀ d ∈ t.cq, d.ok = true := by
  have hcq : t.cq = s.cq ++ [c] := by
    rcases Side.complete_cases ht with ⟨-, -, rfl⟩ | ⟨-, -, rfl⟩ <;> rfl
  intro d hd
  rw [hcq] at hd
  rcases List.mem_append.mp hd with hd | hd
  · exact hok d hd
  · rwa [List.mem_singleton.mp hd]

theorem PingKept.complete {p : Setup} {s t : Side PingCtl} (h : PingKept p s) {c : Wc}
    (hc : c.ok = true) (ht : s.complete c = some t) : PingKept p t := by
  have hok := Side.complete_ok h.ok hc ht
  rcases Side.complete_cases ht with ⟨-, -, rfl⟩ | ⟨-, -, rfl⟩ <;> exact { h with ok := hok }

theorem PongKept.complete {p : Setup} {s t : Side PongCtl} (h : PongKept p s) {c : Wc}
    (hc : c.ok = true) (ht : s.complete c = some t) : PongKept p t := by
  have hok := Side.complete_ok h.ok hc ht
  rcases Side.complete_cases ht with ⟨-, -, rfl⟩ | ⟨-, -, rfl⟩ <;> exact { h with ok := hok }

/-- **Both sides stay on course** in every run under the conditions. -/
theorem pingPong_kept (p : Pairing) {s : PingPong} (h : (pingPong p).ReachableUnder Orderly s) :
    PingKept p.client s.client ∧ PongKept p.server s.server := by
  induction h with
  | init => exact ⟨⟨rfl, by simp [pingPong], Bool.noConfusion⟩, ⟨by simp [pingPong],
      Bool.noConfusion⟩⟩
  | step hs hC hstep ih =>
    obtain ⟨hping, hpong⟩ := ih
    obtain ⟨hsping, hspong⟩ := pingPong_sound p hs.reachable
    cases Move.of_step hstep with
    | client _ hc => exact ⟨hping.act hsping (fun _ => hC.client) hc, hpong⟩
    | server _ hc => exact ⟨hping, hpong.act hspong (fun _ => hC.server) hc⟩
    | completeClient ht => exact ⟨hping.complete hC.1 ht, hpong⟩
    | completeServer ht => exact ⟨hping, hpong.complete hC.1 ht⟩
    | transmitPing _ | landEcho _ _ => exact ⟨{ hping with }, hpong⟩
    | transmitEcho _ | landPing _ _ => exact ⟨hping, { hpong with }⟩
    | losePing _ _ | loseEcho _ _ => exact ⟨hping, hpong⟩

/-- **Nothing is lost** as long as no ping arrives at `repost`. -/
theorem nothing_lost (p : Pairing) {s : PingPong} (h : (pingPong p).ReachableUnder Timely s) :
    s.lostPings = 0 ∧ s.lostEchoes = 0 := by
  induction h with
  | init => exact ⟨rfl, rfl⟩
  | step hs hC hstep ih =>
    cases Move.of_step hstep with
    | losePing hpos hfree =>
      have hready := (ping_finds_receive p hs.reachable hpos).mpr hC
      exact absurd hfree (Nat.pos_iff_ne_zero.mp hready)
    | loseEcho hpos hfree =>
      have hready := echo_finds_receive p hs.reachable hpos
      exact absurd hfree (Nat.pos_iff_ne_zero.mp hready)
    | _ => exact ih

end Latency
end RdmaBench
