import RdmaBench.Bandwidth.Programs

/-!
# The receiver gives up

Whatever the device does, `receive` ends.  A poll that returns something counts
towards `iterations`, and polls that return nothing end the loop when the idle timeout
is over, so the polls are bounded by how many of them there can be in that time.
`RecvCtl.ahead` counts the contacts that can still come, and every contact lowers it.

Nothing of the sort holds of `send`, which has no timeout: a completion that does not
come keeps it polling (`send_polls_on`).
-/

namespace RdmaBench
namespace Bandwidth

open Automaton

variable {p : Setup} {parts t t' : ℕ} {c d : RecvCtl} {a : Act}

/-- The contacts for one message at most, with those of the idle timeout that follows. -/
def Setup.perMessage (p : Setup) (parts : ℕ) : ℕ :=
  2 * (parts * idleTimeout) + max p.rxDepth 1 + 2

/-- The contacts at most once `completed` messages have come, from the head of the loop
on and with `x` parts of the idle timeout left. -/
def Setup.loop (p : Setup) (parts completed x : ℕ) : ℕ :=
  loopCost 4 (p.perMessage parts) (p.iterations - completed) x

/-- The contacts from the start of the loop on. -/
def Setup.fromStart (p : Setup) (parts completed : ℕ) : ℕ :=
  1 + p.loop parts completed (parts * idleTimeout)

/-- The contacts from the window on. -/
def Setup.fromWindow (p : Setup) (parts completed : ℕ) : ℕ :=
  p.recvWindow + 5 + p.fromStart parts completed

/-- The contacts from a point on, after `completed` messages and with `x` parts of the
idle timeout left. -/
def RecvPc.onward (p : Setup) (parts completed x : ℕ) : RecvPc → ℕ
  | .warmup s => 5 + p.fromWindow parts completed + 1 + s.ahead
  | .sleep => 5 + p.fromWindow parts completed
  | .settled s => p.fromWindow parts completed + 1 + s.ahead
  | .prefill i => p.recvWindow - i + 5 + p.fromStart parts completed
  | .receivesPosted s => p.fromStart parts completed + 1 + s.ahead
  | .start => p.fromStart parts completed
  | .head => p.loop parts completed x
  | .idle => 4 + p.perMessage parts * (p.iterations - completed) + idleCost x
  | .progress n => p.loop parts (completed + n) (parts * idleTimeout) + n + 1
  | .refill left => p.loop parts completed x + left + 1
  | .drained s => 0 + 1 + s.ahead
  | .done => 0

def RecvCtl.onward (p : Setup) (parts : ℕ) (c : RecvCtl) (t : ℕ) : ℕ :=
  c.pc.onward p parts c.completed (partsLeft parts (c.lastProgress + idleTimeout) t)

theorem RecvCtl.onward_eq {pc : RecvPc} (h : c.pc = pc) : c.onward p parts t =
    pc.onward p parts c.completed (partsLeft parts (c.lastProgress + idleTimeout) t) := by
  rw [RecvCtl.onward, h]

/-- The contacts that are still to come at most. -/
def RecvCtl.ahead (p : Setup) (parts : ℕ) (c : RecvCtl) (t : ℕ) : ℕ :=
  if c.failed then 0 else c.onward p parts t

theorem RecvCtl.ahead_le (c : RecvCtl) : c.ahead p parts t ≤ c.onward p parts t := by
  rw [RecvCtl.ahead]
  split
  · exact Nat.zero_le _
  · exact Nat.le_refl _

theorem RecvCtl.onward_prefill (c : RecvCtl) (i : ℕ) :
    (c.prefill p i).onward p parts t ≤
      p.recvWindow + 1 - i + 4 + p.fromStart parts c.completed := by
  have henter := (SyncPc.enter p.tracing).ahead_le
  rw [RecvCtl.prefill]
  split
  · show p.recvWindow - i + 5 + p.fromStart parts c.completed ≤ _
    omega
  · show p.fromStart parts c.completed + 1 + (SyncPc.enter p.tracing).ahead ≤ _
    omega

theorem RecvCtl.onward_refill (c : RecvCtl) (left : ℕ) :
    (c.refill p left).onward p parts t ≤
      p.loop parts c.completed (partsLeft parts (c.lastProgress + idleTimeout) t) + left := by
  rw [RecvCtl.refill]
  split
  · next h =>
    show p.loop parts c.completed (partsLeft parts (c.lastProgress + idleTimeout) t) +
      (left - 1) + 1 ≤ _
    omega
  · exact Nat.le_add_right _ _

theorem RecvCtl.onward_leave (c : RecvCtl) : (c.leave p).onward p parts t ≤ 4 := by
  have henter := (SyncPc.enter p.tracing).ahead_le
  show 0 + 1 + (SyncPc.enter p.tracing).ahead ≤ 4
  omega

/-- An empty poll takes time. -/
theorem pollEmpty_onward {wcs : List Wc} (hpc : c.pc = .head)
    (ht : (polling.clock parts).step t (.poll wcs) = some t') :
    { c with pc := RecvPc.idle }.onward p parts t' < c.onward p parts t := by
  rw [RecvCtl.onward_eq hpc]
  show 4 + p.perMessage parts * (p.iterations - c.completed) +
    idleCost (partsLeft parts (c.lastProgress + idleTimeout) t') < _
  rw [partsLeft_of_takes rfl rfl ht]
  exact Nat.add_lt_add_left (idleCost_lt_headCost _) _

/-- Before the idle timeout is over there is time left, and less of it. -/
theorem retry_onward {now : ℕ} (hpc : c.pc = .idle)
    (hearly : ¬idleTimeout ≤ now - c.lastProgress)
    (ht : (polling.clock parts).step t (.clock now) = some t') :
    { c with pc := RecvPc.head }.onward p parts t' < c.onward p parts t := by
  rw [RecvCtl.onward_eq hpc]
  have hnow : now < c.lastProgress + idleTimeout := by omega
  obtain ⟨hpos, hle⟩ := partsLeft_of_lt rfl ht hnow
  exact Nat.add_lt_add_left (headCost_lt_idleCost hpos hle) _

theorem timedOut_onward (hpc : c.pc = .idle) :
    (c.leave p).onward p parts t' < c.onward p parts t := by
  have hleave : (c.leave p).onward p parts t' ≤ 4 := c.onward_leave
  have hidle := idleCost_pos (partsLeft parts (c.lastProgress + idleTimeout) t)
  rw [RecvCtl.onward_eq hpc]
  show _ < 4 + _ + idleCost _
  omega

/-- **Every contact lowers what is ahead.** -/
theorem recvStep_ahead (h : recvStep p c a = some d)
    (ht : (polling.clock parts).step t a = some t') :
    d.ahead p parts t' < c.ahead p parts t := by
  unfold recvStep at h
  rw [Option.ite_none_left_eq_some] at h
  obtain ⟨hopen, h⟩ := h
  rw [show c.ahead p parts t = _ from if_neg hopen]
  suffices hlt : (d.failed = true ∧ 0 < c.onward p parts t) ∨
      d.onward p parts t' < c.onward p parts t by
    rcases hlt with ⟨hfailed, hpos⟩ | hlt
    · rwa [show d.ahead p parts t' = _ from if_pos hfailed]
    · exact Nat.lt_of_le_of_lt d.ahead_le hlt
  cases hpc : c.pc with
  | warmup s =>
    simp only [hpc] at h
    rw [RecvCtl.onward_eq hpc]
    exact .inr (syncThen_lt h (RecvCtl.onward p parts · t') (fun _ => rfl) (Nat.le_refl _))
  | sleep =>
    simp only [hpc] at h
    obtain ⟨rfl, rfl⟩ := expect_eq_some.mp h
    have henter := (SyncPc.enter p.tracing).ahead_le
    rw [RecvCtl.onward_eq hpc]
    refine .inr ?_
    show p.fromWindow parts c.completed + 1 + (SyncPc.enter p.tracing).ahead <
      5 + p.fromWindow parts c.completed
    omega
  | settled s =>
    simp only [hpc] at h
    rw [RecvCtl.onward_eq hpc]
    exact .inr (syncThen_lt h (RecvCtl.onward p parts · t') (fun _ => rfl) (c.onward_prefill 0))
  | prefill i =>
    simp only [hpc] at h
    obtain ⟨rfl, rfl⟩ := expect_eq_some.mp h
    have hle : (c.prefill p (i + 1)).onward p parts t' ≤
        p.recvWindow + 1 - (i + 1) + 4 + p.fromStart parts c.completed := c.onward_prefill (i + 1)
    rw [RecvCtl.onward_eq hpc]
    refine .inr (Nat.lt_of_le_of_lt hle ?_)
    show _ < p.recvWindow - i + 5 + p.fromStart parts c.completed
    omega
  | receivesPosted s =>
    simp only [hpc] at h
    rw [RecvCtl.onward_eq hpc]
    exact .inr (syncThen_lt h (RecvCtl.onward p parts · t') (fun _ => rfl) (Nat.le_refl _))
  | start =>
    simp only [hpc] at h
    split at h
    · next now =>
      obtain rfl := Option.some.inj h
      have hle : partsLeft parts (now + idleTimeout) t' ≤ parts * idleTimeout :=
        partsLeft_of_reading rfl ht
      rw [RecvCtl.onward_eq hpc]
      exact .inr (Nat.lt_of_le_of_lt (loopCost_mono hle) (Nat.lt_one_add_iff.mpr (Nat.le_refl _)))
    · exact absurd h (by simp)
  | head =>
    simp only [hpc] at h
    split at h
    · next hlt =>
      split at h
      · next wcs =>
        obtain ⟨hlen, h⟩ := Option.ite_none_right_eq_some.mp h
        split at h
        · obtain rfl := Option.some.inj h
          refine .inl ⟨rfl, ?_⟩
          rw [RecvCtl.onward_eq hpc]
          exact Nat.zero_lt_of_lt exit_lt_loopCost
        split at h
        · obtain rfl := Option.some.inj h
          exact .inr (pollEmpty_onward hpc ht)
        · next hne =>
          obtain rfl := Option.some.inj h
          have hpos : 0 < wcs.length := List.length_pos_iff.mpr fun h => hne (h ▸ rfl)
          rw [RecvCtl.onward_eq hpc]
          have hless : p.iterations - (c.completed + wcs.length) + 1 ≤
              p.iterations - c.completed := by omega
          have heach : 2 * (parts * idleTimeout) + (wcs.length + 1) < p.perMessage parts := by
            rw [Setup.perMessage]
            omega
          exact .inr (loopCost_add_lt hless heach)
      · exact absurd h (by simp)
    · obtain ⟨rfl, rfl⟩ := expect_eq_some.mp h
      rw [RecvCtl.onward_eq hpc]
      exact .inr (Nat.lt_of_le_of_lt c.onward_leave exit_lt_loopCost)
  | idle =>
    simp only [hpc] at h
    split at h
    · next now =>
      split at h
      · obtain rfl := Option.some.inj h
        exact .inr (timedOut_onward hpc)
      · next hearly =>
        obtain rfl := Option.some.inj h
        exact .inr (retry_onward hpc hearly ht)
    · exact absurd h (by simp)
  | progress n =>
    simp only [hpc] at h
    split at h
    · next now =>
      obtain rfl := Option.some.inj h
      have hle : partsLeft parts (now + idleTimeout) t' ≤ parts * idleTimeout :=
        partsLeft_of_reading rfl ht
      rw [RecvCtl.onward_eq hpc]
      refine .inr (Nat.lt_of_le_of_lt (RecvCtl.onward_refill _ _) (Nat.lt_succ_of_le ?_))
      exact Nat.add_le_add_right (loopCost_mono hle) n
    · exact absurd h (by simp)
  | refill left =>
    simp only [hpc] at h
    obtain ⟨rfl, rfl⟩ := expect_eq_some.mp h
    obtain rfl := Watch.of_quick rfl rfl ht
    rw [RecvCtl.onward_eq hpc]
    exact .inr (Nat.lt_of_le_of_lt (RecvCtl.onward_refill _ _) (Nat.lt_succ_self _))
  | drained s =>
    simp only [hpc] at h
    rw [RecvCtl.onward_eq hpc]
    exact .inr (syncThen_lt h (RecvCtl.onward p parts · t') (fun _ => rfl) (Nat.le_refl _))
  | done =>
    simp only [hpc] at h
    exact absurd h (by simp)

/-- **Every run of `receive` ends**, whatever the polls return and whenever. -/
theorem receive_runsDown (p : Setup) (parts : ℕ) :
    (recvProgram p).RunsDown polling parts
      (p.perMessage parts * p.iterations + 2 * (parts * idleTimeout) + p.recvWindow + 21) := by
  refine ⟨RecvCtl.ahead p parts, fun _ _ _ _ _ => recvStep_ahead, fun t => ?_⟩
  have henter := (SyncPc.enter p.tracing).ahead_le
  have hinit : RecvCtl.ahead p parts (recvProgram p).init t =
      5 + (p.recvWindow + 5 + (1 + (4 + p.perMessage parts * (p.iterations - 0) +
        (2 * (parts * idleTimeout) + 2)))) + 1 + (SyncPc.enter p.tracing).ahead := rfl
  rw [Nat.sub_zero] at hinit
  omega

/-- **`send` has no timeout**: it polls for as long as a completion does not come. -/
theorem send_polls_on (p : Setup) {c : SendCtl} (hpc : c.pc = .head) (hopen : c.failed = false)
    (hlt : c.completed < p.iterations) (n : ℕ) :
    (sendProgram p).run c (List.replicate n (.poll [])) = some c := by
  have hstep : sendStep p c (.poll []) = some c := by
    obtain ⟨pc, t0, t1, posted, completed, failed⟩ := c
    obtain rfl : pc = .head := hpc
    obtain rfl : failed = false := hopen
    exact (if_pos hlt).trans (if_pos (Nat.zero_le _))
  induction n with
  | zero => rfl
  | succ n ih =>
    rw [List.replicate_succ, System.run_cons]
    exact (congrArg (Option.bind · _) hstep).trans ih

theorem recv_takesReadings (p : Setup) : TakesReadings (recvProgram p) := by
  intro c d now h now'
  change recvStep p c _ = _ at h
  show ∃ d', recvStep p c _ = _
  unfold recvStep at h ⊢
  obtain ⟨hopen, h⟩ := Option.ite_none_left_eq_some.mp h
  rw [if_neg hopen]
  cases hpc : c.pc <;> simp [hpc, syncThen_clock, expect] at h ⊢
  -- the comparison with the deadline
  split <;> simp

theorem send_takesReadings (p : Setup) : TakesReadings (sendProgram p) := by
  intro c d now h now'
  change sendStep p c _ = _ at h
  show ∃ d', sendStep p c _ = _
  unfold sendStep at h ⊢
  obtain ⟨hopen, h⟩ := Option.ite_none_left_eq_some.mp h
  rw [if_neg hopen]
  cases hpc : c.pc <;> simp [hpc, syncThen_clock, expect] at h ⊢
  -- the reading that ends the loop
  exact h.1

end Bandwidth
end RdmaBench
