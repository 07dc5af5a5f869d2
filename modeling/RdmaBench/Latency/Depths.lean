import RdmaBench.Latency.Tally

/-!
# The depths of the queue pair

A work request occupies its queue entry until its completion is polled.  `ping`
waits for its send and its receive before it posts again, so it never has more
than one of either outstanding; `pong` never has more than one receive.  But
`pong` waits for its receive alone: the completion of an echo is polled only if it
happens to stand in the queue when the next ping's does.  With `txDepth = 1` a
second echo is posted over the first (`echo_posted_over_echo`).

How many of its sends are outstanding is up to the device.  One that holds back the
completions of all echoes lets every one of them stand (`piled`), so that the depth
is kept in all runs only if it is as large as their number (`within_depths_iff`).
One that hands over the completion of a ping only when fewer than `txDepth` echoes
are still to be completed keeps the depth in runs of any length
(`within_depths_of_prompt`).
-/

namespace RdmaBench
namespace Latency

open Automaton

/-- Neither queue holds more than it was built for. -/
def Side.WithinDepths {σ : Type} (s : Side σ) (txDepth rxDepth : ℕ) : Prop :=
  s.sends ≤ s.sendsPolled + txDepth ∧ s.recvs ≤ s.recvsPolled + rxDepth

instance {σ : Type} (s : Side σ) (txDepth rxDepth : ℕ) :
    Decidable (s.WithinDepths txDepth rxDepth) :=
  inferInstanceAs (Decidable (_ ∧ _))

/-! ## What is never exceeded -/

theorem WaitMove.ne_postSend {w : Wait} {a : Act} {r : Wait ⊕ WaitEnd} (h : WaitMove w a r)
    (slot id : ℕ) : a ≠ .postSend slot id := by
  cases h <;> exact Act.noConfusion

/-- `pong` posts its sends at one point. -/
theorem PongMove.pc_of_postSend {p : Setup} {c t : PongCtl} {slot id : ℕ}
    (h : PongMove p c (.postSend slot id) t) : c.pc = .send := by
  cases h with
  | send hpc => exact hpc
  | warming _ ha | warmed _ ha | settling _ ha | settled _ ha | posting _ ha | posted _ ha
  | finishing _ ha | finished _ ha => exact absurd ha (by simp [Act.outOfBand])
  | waiting _ hw | waited _ hw => exact absurd rfl (hw.ne_postSend slot id)

/-- An act that is no post of a send keeps the sends. -/
theorem Side.sends_of_perform {σ : Type} {s q : Side σ} {a : Act} (hq : s.perform a = some q)
    (ha : ∀ slot id, a ≠ .postSend slot id) : q.sends = s.sends := by
  cases a with
  | postSend slot id => exact absurd rfl (ha slot id)
  | poll wcs => exact (polled_of_poll hq).1.sends
  | clock now => exact (polled_of_clock hq).1.sends
  | _ => rw [← Option.some.inj hq]

/-- **There are no more echoes than iterations.** -/
theorem sends_le_iterations (p : Pairing) {s : PingPong} (h : (pingPong p).Reachable s) :
    s.server.sends ≤ p.iterations := by
  induction h with
  | init => exact Nat.zero_le _
  | @step s t l hs _ hstep ih =>
    cases Move.of_step hstep with
    | @server a w c hw hc =>
      obtain ⟨q, d, hq, hd, rfl⟩ := Side.act_eq_some hc
      by_cases ha : ∃ slot id, a = .postSend slot id
      · obtain ⟨slot, id, rfl⟩ := ha
        have hat := (pingPong_sound p hs).2.at_pc
        rw [PongAt, (PongMove.of_step hd).pc_of_postSend] at hat
        rw [← Option.some.inj hq]
        show s.server.sends + 1 ≤ p.iterations
        rw [hat.2.1]
        exact hat.1
      · have hsends := Side.sends_of_perform hq fun slot id heq => ha ⟨slot, id, heq⟩
        exact Nat.le_trans (Nat.le_of_eq hsends) ih
    | completeServer ht =>
      rcases Side.complete_cases ht with ⟨-, -, rfl⟩ | ⟨-, -, rfl⟩ <;> exact ih
    | _ => exact ih

/-! ## A device that holds the completions of the echoes back -/

/-- What the traced sides print on entering a `sync`, or on leaving it. -/
def Pairing.prints (p : Pairing) : List Label :=
  (if p.clientTraced then [.client .skip] else []) ++
    (if p.serverTraced then [.server .skip] else [])

/-- Both sides through one `sync`. -/
def Pairing.meet (p : Pairing) : List Label := p.prints ++ Latency.meet ++ p.prints

/-- Both sides up to the heads of their loops. -/
def Pairing.toLoops (p : Pairing) : List Label :=
  p.meet ++ [.client .skip, .server .skip] ++ p.meet ++
    [.client (.postReceive 0 wrRecv), .server (.postReceive 0 wrRecv)] ++ p.meet

/-- Both sides at the heads of their loops after `k` round trips, every echo still
without a completion. -/
def piled (k : ℕ) : PingPong where
  client :=
    { ctl := { pc := .head, i := k, samples := List.replicate k (0, 0) }
      free := 1, sends := k, sendsPolled := k, recvs := k + 1, recvsPolled := k }
  server :=
    { ctl := { pc := .wait (.enter 2), turn := k, echoed := k }
      sent := k, free := 1, sends := k, recvs := k + 1, recvsPolled := k }

/-- The next echo has been posted. -/
def echoing (k : ℕ) : PingPong where
  client :=
    { ctl := { pc := .wait ⟨.poll, 3, idleTimeout, 0⟩, i := k, samples := List.replicate k (0, 0) }
      sent := 1, free := 1, sends := k + 1, sendsPolled := k, recvs := k + 1, recvsPolled := k }
  server :=
    { ctl := { pc := .repost, turn := k, echoed := k }
      unsent := 1, sent := k, sends := k + 1, recvs := k + 1, recvsPolled := k + 1 }

/-- It has arrived, and the client is about to take its sample. -/
def sampling (k : ℕ) : PingPong where
  client :=
    { ctl := { pc := .record, i := k, samples := List.replicate k (0, 0) }
      sends := k + 1, sendsPolled := k + 1, recvs := k + 1, recvsPolled := k + 1 }
  server := (piled (k + 1)).server

/-- The sample is taken. -/
def sampled (k : ℕ) : PingPong :=
  { sampling k with
    client := { (sampling k).client with
      ctl := { pc := .repost, i := k, samples := List.replicate (k + 1) (0, 0) } } }

section Piled

variable {p : Pairing} {k : ℕ}

theorem run_toLoops (hn : 0 < p.iterations) :
    (pingPong p).run (pingPong p).init p.toLoops = some (piled 0) := by
  obtain ⟨clientTraced, serverTraced, n⟩ := p
  obtain ⟨m, rfl⟩ := Nat.exists_eq_add_of_le' hn
  cases clientTraced <;> cases serverTraced <;> rfl

theorem run_echoing : (pingPong p).run (piled k)
    (pingOver ++ pongWoken [recvDone] ++ [.server (.postSend 0 wrSend)]) = some (echoing k) :=
  rfl

theorem run_sampling (hk : k + 1 < p.iterations) :
    (pingPong p).run (echoing k) ([.server (.postReceive 0 wrRecv), .transmit .server,
      .arrive .client] ++ pingWoken.take 4) = some (sampling k) := by
  have hnext : pongStep p.server (echoing k).server.ctl (.postReceive 0 wrRecv) =
      some (piled (k + 1)).server.ctl := congrArg some (if_pos hk)
  rw [List.cons_append, System.run_cons, step_server rfl rfl hnext]
  rfl

/-- **One more round trip**, without a completion for its echo. -/
theorem reachable_piled_succ (hk : k + 1 < p.iterations)
    (h : (pingPong p).Reachable (piled k)) : (pingPong p).Reachable (piled (k + 1)) := by
  have hsampling := (h.of_run run_echoing).of_run (run_sampling hk)
  have hrecord : pingStep p.client (sampling k).client.ctl (.clock 0) =
      some (sampled k).client.ctl := by
    rw [sampled, List.replicate_succ']
    exact congrArg some (if_pos hk)
  have hrepost : pingStep p.client (sampled k).client.ctl (.postReceive 0 wrRecv) =
      some (piled (k + 1)).client.ctl := congrArg some (if_pos hk)
  have hsampled : (pingPong p).Reachable (sampled k) := hsampling.step (step_client rfl rfl hrecord)
  exact hsampled.step (step_client rfl rfl hrepost)

theorem reachable_piled (hk : k < p.iterations) : (pingPong p).Reachable (piled k) := by
  induction k with
  | zero => exact System.Reachable.init.of_run (run_toLoops hk)
  | succ k ih => exact reachable_piled_succ hk (ih (Nat.lt_of_succ_lt hk))

end Piled

/-- **Both sides keep to their depths in every run exactly when there are no more
iterations than entries in the send queue**: the bound on the receives, and both on
the client's side, hold in any case. -/
theorem within_depths_iff (p : Pairing) {txDepth rxDepth : ℕ} (htx : 1 ≤ txDepth)
    (hrx : 1 ≤ rxDepth) :
    (∀ s, (pingPong p).Reachable s →
      s.client.WithinDepths txDepth rxDepth ∧ s.server.WithinDepths txDepth rxDepth) ↔
    p.iterations ≤ txDepth := by
  constructor
  · intro h
    by_contra hlt
    have hreach : (pingPong p).Reachable (echoing txDepth) :=
      (reachable_piled (Nat.not_le.mp hlt)).of_run run_echoing
    have hsends : txDepth + 1 ≤ 0 + txDepth := (h _ hreach).2.1
    omega
  · intro hle s h
    obtain ⟨hping, hpong⟩ := pingPong_sound p h
    have h₁ := hping.sends_polled
    have h₂ := hping.recvs_polled
    have h₃ := hpong.recvs_polled
    have h₄ := sends_le_iterations p h
    exact ⟨⟨by omega, by omega⟩, ⟨by omega, by omega⟩⟩

/-- Two echoes, the completion of neither polled: a send queue of two entries holds
them, one of a single entry does not. -/
theorem within_depths_iff_two :
    (∃ s, (pingPong ⟨false, true, 2⟩).Reachable s ∧ s.server.sends = 2 ∧
      s.server.sendsPolled = 0 ∧ s.client.WithinDepths 2 1 ∧ s.server.WithinDepths 2 1) ∧
    ¬∀ s, (pingPong ⟨false, true, 2⟩).Reachable s →
      s.client.WithinDepths 1 1 ∧ s.server.WithinDepths 1 1 := by
  have hreach : (pingPong ⟨false, true, 2⟩).Reachable (echoing 1) :=
    (reachable_piled (Nat.lt_succ_self 1)).of_run run_echoing
  refine ⟨⟨echoing 1, hreach, rfl, rfl, ?_⟩, fun h => ?_⟩
  · exact (within_depths_iff ⟨false, true, 2⟩ (by decide) (Nat.le_refl 1)).mpr (Nat.le_refl 2) _
      hreach
  · have hle := (within_depths_iff ⟨false, true, 2⟩ (Nat.le_refl 1) (Nat.le_refl 1)).mp h
    exact absurd hle (by decide)

/-- **An echo posted over an echo.**  With a send queue of one entry, the second
echo is posted while the first one's completion has not been polled. -/
theorem echo_posted_over_echo :
    ∃ s, (pingPong ⟨false, false, 2⟩).Reachable s ∧ ¬s.server.WithinDepths 1 1 := by
  obtain ⟨s, hs, hfull⟩ := System.Reachable.exists_of_run
    (S := pingPong ⟨false, false, 2⟩) (p := fun s => decide ¬s.server.WithinDepths 1 1)
    (toLoops ++ pingOver ++ pongWoken [recvDone] ++ echoOver ++ pingWoken ++
      .client (.postReceive 0 wrRecv) :: pingOver ++ pongWoken [recvDone] ++ echoOver)
    (by decide)
  exact ⟨s, hs, of_decide_eq_true hfull⟩

/-! ## A device that hands them over in time -/

/-- The completion of a ping's receive is handed over only when fewer than `txDepth`
echoes are still without theirs. -/
def Prompt (txDepth : ℕ) (s : PingPong) : Label → Prop
  | .complete .server c => c.wrId = wrRecv → s.server.unsent + s.server.sent < txDepth
  | _ => True

/-- What holds of the server as long as the device is prompt. -/
structure Ahead (txDepth : ℕ) (s : Side PongCtl) : Prop where
  sends : s.sends ≤ s.sendsPolled + txDepth
  /-- Few echoes can be completed after a ping. -/
  behind : ∀ pre c post, s.cq = pre ++ c :: post → c.wrId = wrRecv →
    s.unsent + s.sent + sendsIn post < txDepth
  /-- A ping whose completion has been polled can be echoed. -/
  room : s.ctl.pc ≠ .repost → s.recvs = s.recvsPolled → s.sends < s.sendsPolled + txDepth

section Prompt

variable {txDepth : ℕ} {s q : Side PongCtl} {c : PongCtl}

/-- A batch holds no receive, or splits at one. -/
theorem recvsIn_cases (wcs : List Wc) :
    recvsIn wcs = 0 ∨ ∃ pre c post, wcs = pre ++ c :: post ∧ c.wrId = wrRecv := by
  by_cases h : ∃ c ∈ wcs, c.wrId = wrRecv
  · obtain ⟨c, hmem, hc⟩ := h
    obtain ⟨pre, post, rfl⟩ := List.append_of_mem hmem
    exact .inr ⟨pre, c, post, rfl, hc⟩
  · refine .inl (List.countP_eq_zero.mpr fun c hc hid => h ⟨c, hc, ?_⟩)
    exact of_decide_eq_true hid

/-- An act that takes nothing off the queue and posts nothing. -/
theorem Ahead.keep (h : Ahead txDepth s) (hq : q = { s with clock := q.clock })
    (hpc : s.ctl.pc ≠ .repost) : Ahead txDepth { q with ctl := c } := by
  rw [hq]
  exact ⟨h.sends, h.behind, fun _ => h.room hpc⟩

/-- A poll takes everything ahead of a ping along with it. -/
theorem Ahead.poll (h : Ahead txDepth s) (hbal : s.Balanced) {wcs : List Wc}
    (hq : s.perform (.poll wcs) = some q) (hpc : s.ctl.pc ≠ .repost) :
    Ahead txDepth { q with ctl := c } := by
  have hq' := hbal.perform hq
  simp only [Side.perform, Option.ite_none_right_eq_some] at hq
  obtain ⟨⟨rest, hrest⟩, hq⟩ := hq
  rw [← Option.some.inj hq] at hq' ⊢
  have hcq : s.cq.drop wcs.length = rest := by rw [← hrest, List.drop_left]
  have hsum : s.sends = s.unsent + s.sent + sendsIn rest + (s.sendsPolled + sendsIn wcs) := by
    rw [← hcq]
    exact hq'.sends
  have hsends := h.sends
  refine ⟨by simp only; omega, fun pre d post heq hd => ?_, fun _ hrecvs => ?_⟩
  · simp only [hcq] at heq
    refine h.behind (wcs ++ pre) d post ?_ hd
    rw [← hrest, heq, List.append_assoc]
  · simp only at hrecvs ⊢
    rcases recvsIn_cases wcs with hnone | ⟨pre, d, post, rfl, hd⟩
    · rw [hnone] at hrecvs
      have := h.room hpc hrecvs
      omega
    · have hlt := h.behind pre d (post ++ rest) (by rw [← hrest, List.append_assoc]; rfl) hd
      rw [sendsIn_append] at hlt
      omega

theorem recvsIn_pos {cq pre post : List Wc} {d : Wc} (heq : cq = pre ++ d :: post)
    (hd : d.wrId = wrRecv) : 0 < recvsIn cq := by
  have hmem : d ∈ cq := by
    rw [heq]
    exact List.mem_append_right _ List.mem_cons_self
  exact List.countP_pos_iff.mpr ⟨d, hmem, decide_eq_true hd⟩

/-- With no receive outstanding there is none on the queue. -/
theorem Side.Balanced.no_recv (h : s.Balanced) (hrecvs : s.recvs = s.recvsPolled) {pre post : List Wc}
    {d : Wc} (heq : s.cq = pre ++ d :: post) : d.wrId ≠ wrRecv := by
  intro hd
  have hbal := h.recvs
  have hpos := recvsIn_pos heq hd
  omega

/-- **An act of the server.** -/
theorem Ahead.act {p : Setup} {t : Side PongCtl} (h : Ahead txDepth s) (hs : PongSound p s)
    {a : Act} (ht : s.act (pongStep p) a = some t) : Ahead txDepth t := by
  obtain ⟨q, c, hq, hc, rfl⟩ := Side.act_eq_some ht
  have hbal := hs.balanced
  have hrepost : s.ctl.pc = .repost → a = .postReceive 0 wrRecv := by
    intro hpc
    rw [pongStep, hpc] at hc
    exact (expect_eq_some.mp hc).1
  cases a with
  | poll wcs => exact h.poll hbal hq fun hpc => absurd (hrepost hpc) Act.noConfusion
  | postSend slot id =>
    have hpc := (PongMove.of_step hc).pc_of_postSend
    have hat := hs.at_pc
    rw [PongAt, hpc] at hat
    have hrecvs : s.recvs = s.recvsPolled := hat.2.2.1.trans hat.2.2.2.symm
    have hroom := h.room (by simp [hpc]) hrecvs
    rw [pongStep, hpc] at hc
    rw [← Option.some.inj hq, ← (expect_eq_some.mp hc).2]
    exact
      { sends := hroom
        behind := fun pre d post heq hd => absurd hd (hbal.no_recv hrecvs heq)
        room := fun hne => absurd rfl hne }
  | postReceive slot id =>
    have hle := hbal.recvs
    rw [← Option.some.inj hq]
    refine { sends := h.sends, behind := h.behind, room := fun _ hrecvs => ?_ }
    simp only at hrecvs
    omega
  | clock now =>
    rw [Side.perform, Option.ite_none_right_eq_some] at hq
    rw [← Option.some.inj hq.2]
    exact h.keep rfl fun hpc => absurd (hrepost hpc) Act.noConfusion
  | _ =>
    rw [← Option.some.inj hq]
    exact h.keep rfl fun hpc => absurd (hrepost hpc) Act.noConfusion

/-- A queue that is prolonged at its end splits as it did, or there. -/
theorem append_singleton_split {cq pre post : List Wc} {d c : Wc}
    (h : cq ++ [c] = pre ++ d :: post) :
    (∃ post', post = post' ++ [c] ∧ cq = pre ++ d :: post') ∨ post = [] ∧ d = c := by
  rcases List.eq_nil_or_concat post with rfl | ⟨post', e, rfl⟩
  · exact .inr ⟨rfl, (List.append_singleton_inj.mp h).2.symm⟩
  · rw [List.concat_eq_append, ← List.cons_append, ← List.append_assoc] at h
    obtain ⟨hcq, rfl⟩ := List.append_singleton_inj.mp h
    exact .inl ⟨post', List.concat_eq_append, hcq⟩

/-- **A completion reaches the queue.**  Where it is a ping's, the device is prompt. -/
theorem Ahead.complete {t : Side PongCtl} (h : Ahead txDepth s) (hbal : s.Balanced)
    (hone : s.recvs ≤ s.recvsPolled + 1) {d : Wc} (ht : s.complete d = some t)
    (hprompt : d.wrId = wrRecv → s.unsent + s.sent < txDepth) : Ahead txDepth t := by
  rcases Side.complete_cases ht with ⟨hd, hpos, rfl⟩ | ⟨hd, hpos, rfl⟩
  · refine ⟨h.sends, fun pre e post heq he => ?_, h.room⟩
    rcases append_singleton_split heq with ⟨post', rfl, hcq⟩ | ⟨-, rfl⟩
    · have hlt := h.behind pre e post' hcq he
      have hsend : sendsIn [d] = 1 := by simp [sendsIn, hd]
      simp only [sendsIn_append, hsend]
      omega
    · exact absurd (hd.symm.trans he) (by decide)
  · refine ⟨h.sends, fun pre e post heq he => ?_, h.room⟩
    rcases append_singleton_split heq with ⟨post', rfl, hcq⟩ | ⟨rfl, -⟩
    · -- a second completion of a ping cannot be on the queue
      have hrecvs := hbal.recvs
      have hqueued := recvsIn_pos hcq he
      omega
    · exact hprompt hd

end Prompt

/-- **Over a prompt device the depths are kept in every run**, of any length. -/
theorem within_depths_of_prompt (p : Pairing) {txDepth rxDepth : ℕ} (htx : 1 ≤ txDepth)
    (hrx : 1 ≤ rxDepth) {s : PingPong}
    (h : (pingPong p).ReachableUnder (Prompt txDepth) s) :
    s.client.WithinDepths txDepth rxDepth ∧ s.server.WithinDepths txDepth rxDepth := by
  have hahead : (pingPong p).Reachable s ∧ Ahead txDepth s.server := by
    refine h.invariant (I := fun s => (pingPong p).Reachable s ∧ Ahead txDepth s.server)
      ⟨.init, ⟨Nat.zero_le _, fun pre d post heq => ?_, fun _ _ => ?_⟩⟩
      fun s l t ⟨hs, hs'⟩ hC hstep => ⟨hs.step hstep, ?_⟩
    · exact absurd heq (by simp [pingPong])
    · exact Nat.lt_of_lt_of_le Nat.one_pos (by simpa [pingPong] using htx)
    · have hpong := (pingPong_sound p hs).2
      cases Move.of_step hstep with
      | server hw hc => exact hs'.act hpong hc
      | transmitEcho hpos =>
        refine ⟨hs'.sends, fun pre d post heq hd => ?_, hs'.room⟩
        have := hs'.behind pre d post heq hd
        simp only [Side.transmit]
        omega
      | landPing hpos hfree => exact ⟨hs'.sends, hs'.behind, hs'.room⟩
      | completeServer ht => exact hs'.complete hpong.balanced hpong.recvs_polled ht hC
      | _ => exact hs'
  obtain ⟨hping, hpong⟩ := pingPong_sound p hahead.1
  have h₁ := hping.sends_polled
  have h₂ := hping.recvs_polled
  have h₃ := hpong.recvs_polled
  exact ⟨⟨by omega, by omega⟩, ⟨hahead.2.sends, by omega⟩⟩

end Latency
end RdmaBench
