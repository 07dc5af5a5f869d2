import RdmaBench.Accuracy.Programs
import RdmaBench.Accuracy.Tallies

/-!
# The receiver gives up

As in bandwidth mode: every message that a poll returns counts towards `iterations`,
and an idle timeout without one ends the loop.  A message costs two contacts more here,
since it is looked at and its slot posted again.
-/

namespace RdmaBench
namespace Accuracy

open Automaton

variable {p : Setup} {parts t t' : ℕ} {c d : RecvCtl} {a : Act}

/-- The contacts for one message at most, with those of the idle timeout that follows. -/
def Setup.perMessage (p : Setup) (parts : ℕ) : ℕ := 2 * (parts * idleTimeout) + 2 * p.window + 2

/-- The contacts at most once `received` messages have come, from the head of the loop on
and with `x` parts of the idle timeout left. -/
def Setup.loop (p : Setup) (parts received x : ℕ) : ℕ :=
  loopCost 5 (p.perMessage parts) (p.iterations - received) x

/-- The contacts from the start of the loop on. -/
def Setup.fromStart (p : Setup) (parts received : ℕ) : ℕ :=
  1 + p.loop parts received (parts * idleTimeout)

/-- The contacts from a point on, after `received` messages and with `x` parts of the idle
timeout left. -/
def RecvPc.onward (p : Setup) (parts received x : ℕ) : RecvPc → ℕ
  | .prefill slot => p.window - slot + 5 + p.fromStart parts received
  | .receivesPosted s => p.fromStart parts received + 1 + s.ahead
  | .start => p.fromStart parts received
  | .head => p.loop parts received x
  | .idle => 5 + p.perMessage parts * (p.iterations - received) + idleCost x
  | .progress batch =>
    p.loop parts (received + batch.length) (parts * idleTimeout) + (2 * batch.length + 1)
  | .inspect _ _ rest => p.loop parts received x + 2 * rest.length + 2
  | .repost _ rest => p.loop parts received x + 2 * rest.length + 1
  | .checkingDone s => 1 + 1 + s.ahead
  | .sendReport => 1
  | .done => 0

def RecvCtl.onward (p : Setup) (parts : ℕ) (c : RecvCtl) (t : ℕ) : ℕ :=
  c.pc.onward p parts c.checker.report.received
    (partsLeft parts (c.lastProgress + idleTimeout) t)

theorem RecvCtl.onward_eq {pc : RecvPc} (h : c.pc = pc) : c.onward p parts t =
    pc.onward p parts c.checker.report.received
      (partsLeft parts (c.lastProgress + idleTimeout) t) := by
  rw [RecvCtl.onward, h]

/-- The contacts that are still to come at most. -/
def RecvCtl.ahead (p : Setup) (parts : ℕ) (c : RecvCtl) (t : ℕ) : ℕ :=
  if c.failed then 0 else c.onward p parts t

theorem RecvCtl.ahead_le (c : RecvCtl) : c.ahead p parts t ≤ c.onward p parts t := by
  rw [RecvCtl.ahead]
  split
  · exact Nat.zero_le _
  · exact Nat.le_refl _

theorem RecvCtl.onward_prefill (c : RecvCtl) (slot : ℕ) :
    (c.prefill p slot).onward p parts t ≤
      p.window + 1 - slot + 4 + p.fromStart parts c.checker.report.received := by
  have henter := (SyncPc.enter p.tracing).ahead_le
  rw [RecvCtl.prefill]
  split
  · show p.window - slot + 5 + p.fromStart parts c.checker.report.received ≤ _
    omega
  · show p.fromStart parts c.checker.report.received + 1 + (SyncPc.enter p.tracing).ahead ≤ _
    omega

theorem RecvCtl.onward_next (c : RecvCtl) (rest : List (ℕ × ℕ)) :
    (c.next rest).onward p parts t = p.loop parts c.checker.report.received
      (partsLeft parts (c.lastProgress + idleTimeout) t) + 2 * rest.length := by
  cases rest <;> rfl

theorem RecvCtl.onward_leave (c : RecvCtl) : (c.leave p).onward p parts t ≤ 5 := by
  have henter := (SyncPc.enter p.tracing).ahead_le
  show 1 + 1 + (SyncPc.enter p.tracing).ahead ≤ 5
  omega

/-- An empty poll takes time. -/
theorem pollEmpty_onward {wcs : List Wc} (hpc : c.pc = .head)
    (ht : (polling.clock parts).step t (.poll wcs) = some t') :
    { c with pc := RecvPc.idle }.onward p parts t' < c.onward p parts t := by
  rw [RecvCtl.onward_eq hpc]
  show 5 + p.perMessage parts * (p.iterations - c.checker.report.received) +
    idleCost (partsLeft parts (c.lastProgress + idleTimeout) t') < _
  rw [partsLeft_of_takes rfl rfl ht]
  exact Nat.add_lt_add_left (idleCost_lt_headCost _) _

/-- A poll that returns something is worth the contacts it leads to. -/
theorem poll_onward {wcs : List Wc} (hpc : c.pc = .head)
    (hlt : c.checker.report.received < p.iterations) (hlen : wcs.length ≤ p.window)
    (hne : ¬wcs.isEmpty = true) :
    { c with pc := RecvPc.progress (wcs.map fun w : Wc => (w.wrId, w.len)) }.onward p parts t' <
      c.onward p parts t := by
  have hpos : 0 < wcs.length := List.length_pos_iff.mpr fun h => hne (h ▸ rfl)
  have hless : p.iterations - (c.checker.report.received + wcs.length) + 1 ≤
      p.iterations - c.checker.report.received := by omega
  have heach : 2 * (parts * idleTimeout) + (2 * wcs.length + 1) < p.perMessage parts := by
    rw [Setup.perMessage]
    omega
  rw [RecvCtl.onward_eq hpc]
  show p.loop parts (c.checker.report.received + (wcs.map fun w : Wc => (w.wrId, w.len)).length)
    (parts * idleTimeout) + (2 * (wcs.map fun w : Wc => (w.wrId, w.len)).length + 1) < _
  rw [List.length_map]
  exact loopCost_add_lt hless heach

/-- Looking at a message does not count it. -/
theorem inspect_onward {slot len : ℕ} {rest : List (ℕ × ℕ)} (hpc : c.pc = .inspect slot len rest)
    (got : List UInt8) :
    { c with pc := RecvPc.repost slot rest, checker := check got p.msgSize c.checker }.onward
      p parts t < c.onward p parts t := by
  obtain ⟨-, -, hreceived, -⟩ := frame_check got p.msgSize c.checker
  rw [RecvCtl.onward_eq hpc]
  show p.loop parts (check got p.msgSize c.checker).report.received
    (partsLeft parts (c.lastProgress + idleTimeout) t) + 2 * rest.length + 1 < _
  rw [hreceived]
  exact Nat.lt_succ_self _

/-- Before the idle timeout is over there is time left, and less of it. -/
theorem retry_onward {now : ℕ} (hpc : c.pc = .idle)
    (hearly : ¬idleTimeout ≤ now - c.lastProgress)
    (ht : (polling.clock parts).step t (.clock now) = some t') :
    { c with pc := RecvPc.head }.onward p parts t' < c.onward p parts t := by
  rw [RecvCtl.onward_eq hpc]
  have hnow : now < c.lastProgress + idleTimeout := by omega
  obtain ⟨hpos, hle⟩ := partsLeft_of_lt rfl ht hnow
  exact Nat.add_lt_add_left (headCost_lt_idleCost hpos hle) _

theorem timedOut_onward (hpc : c.pc = .idle) :
    (c.leave p).onward p parts t' < c.onward p parts t := by
  have hleave : (c.leave p).onward p parts t' ≤ 5 := c.onward_leave
  have hidle := idleCost_pos (partsLeft parts (c.lastProgress + idleTimeout) t)
  rw [RecvCtl.onward_eq hpc]
  show _ < 5 + _ + idleCost _
  omega

/-- **Every contact lowers what is ahead.** -/
theorem recvStep_ahead (h : recvStep p c a = some d)
    (ht : (polling.clock parts).step t a = some t') :
    d.ahead p parts t' < c.ahead p parts t := by
  unfold recvStep at h
  rw [Option.ite_none_left_eq_some] at h
  obtain ⟨hopen, h⟩ := h
  rw [show c.ahead p parts t = _ from if_neg hopen]
  suffices hlt : (d.failed = true ∧ 0 < c.onward p parts t) ∨
      d.onward p parts t' < c.onward p parts t by
    rcases hlt with ⟨hfailed, hpos⟩ | hlt
    · rwa [show d.ahead p parts t' = _ from if_pos hfailed]
    · exact Nat.lt_of_le_of_lt d.ahead_le hlt
  cases hpc : c.pc with
  | prefill slot =>
    simp only [hpc] at h
    obtain ⟨rfl, rfl⟩ := expect_eq_some.mp h
    have hle : (c.prefill p (slot + 1)).onward p parts t' ≤
        p.window + 1 - (slot + 1) + 4 + p.fromStart parts c.checker.report.received :=
      c.onward_prefill (slot + 1)
    rw [RecvCtl.onward_eq hpc]
    refine .inr (Nat.lt_of_le_of_lt hle ?_)
    show _ < p.window - slot + 5 + p.fromStart parts c.checker.report.received
    omega
  | receivesPosted s =>
    simp only [hpc] at h
    rw [RecvCtl.onward_eq hpc]
    exact .inr (syncThen_lt h (RecvCtl.onward p parts · t') (fun _ => rfl) (Nat.le_refl _))
  | start =>
    simp only [hpc] at h
    split at h
    · next now =>
      obtain rfl := Option.some.inj h
      have hle : partsLeft parts (now + idleTimeout) t' ≤ parts * idleTimeout :=
        partsLeft_of_reading rfl ht
      rw [RecvCtl.onward_eq hpc]
      exact .inr (Nat.lt_of_le_of_lt (loopCost_mono hle) (Nat.lt_one_add_iff.mpr (Nat.le_refl _)))
    · exact absurd h (by simp)
  | head =>
    simp only [hpc] at h
    split at h
    · next hlt =>
      split at h
      · next wcs =>
        obtain ⟨hlen, h⟩ := Option.ite_none_right_eq_some.mp h
        split at h
        · obtain rfl := Option.some.inj h
          refine .inl ⟨rfl, ?_⟩
          rw [RecvCtl.onward_eq hpc]
          exact Nat.zero_lt_of_lt exit_lt_loopCost
        split at h
        · obtain rfl := Option.some.inj h
          exact .inr (pollEmpty_onward hpc ht)
        · next hne =>
          obtain rfl := Option.some.inj h
          exact .inr (poll_onward hpc hlt hlen hne)
      · exact absurd h (by simp)
    · obtain ⟨rfl, rfl⟩ := expect_eq_some.mp h
      rw [RecvCtl.onward_eq hpc]
      exact .inr (Nat.lt_of_le_of_lt c.onward_leave exit_lt_loopCost)
  | idle =>
    simp only [hpc] at h
    split at h
    · next now =>
      split at h
      · obtain rfl := Option.some.inj h
        exact .inr (timedOut_onward hpc)
      · next hearly =>
        obtain rfl := Option.some.inj h
        exact .inr (retry_onward hpc hearly ht)
    · exact absurd h (by simp)
  | progress batch =>
    simp only [hpc] at h
    split at h
    · next now =>
      obtain rfl := Option.some.inj h
      have hle : partsLeft parts (now + idleTimeout) t' ≤ parts * idleTimeout :=
        partsLeft_of_reading rfl ht
      rw [RecvCtl.onward_next, RecvCtl.onward_eq hpc]
      refine .inr (Nat.lt_of_le_of_lt ?_ (Nat.lt_succ_self _))
      exact Nat.add_le_add_right (loopCost_mono hle) _
    · exact absurd h (by simp)
  | inspect slot len rest =>
    simp only [hpc] at h
    split at h
    · next s got =>
      obtain ⟨-, h⟩ := Option.ite_none_right_eq_some.mp h
      obtain rfl := Option.some.inj h
      obtain rfl := Watch.of_quick rfl rfl ht
      exact .inr (inspect_onward hpc got)
    · exact absurd h (by simp)
  | repost slot rest =>
    simp only [hpc] at h
    obtain ⟨rfl, rfl⟩ := expect_eq_some.mp h
    obtain rfl := Watch.of_quick rfl rfl ht
    rw [RecvCtl.onward_next, RecvCtl.onward_eq hpc]
    exact .inr (Nat.lt_succ_self _)
  | checkingDone s =>
    simp only [hpc] at h
    rw [RecvCtl.onward_eq hpc]
    exact .inr (syncThen_lt h (RecvCtl.onward p parts · t') (fun _ => rfl) (Nat.le_refl _))
  | sendReport =>
    simp only [hpc] at h
    obtain ⟨rfl, rfl⟩ := expect_eq_some.mp h
    rw [RecvCtl.onward_eq hpc]
    exact .inr Nat.one_pos
  | done =>
    simp only [hpc] at h
    exact absurd h (by simp)

/-- **Every run of `receive` ends**, whatever the polls return and whenever. -/
theorem receive_runsDown (p : Setup) (parts : ℕ) :
    (recvProgram p).RunsDown polling parts
      (p.perMessage parts * p.iterations + 2 * (parts * idleTimeout) + p.window + 13) := by
  refine ⟨RecvCtl.ahead p parts, fun _ _ _ _ _ => recvStep_ahead, fun t => ?_⟩
  have hinit : RecvCtl.ahead p parts (recvProgram p).init t ≤ p.window + 1 - 0 + 4 +
      (1 + (5 + p.perMessage parts * (p.iterations - 0) + (2 * (parts * idleTimeout) + 2))) :=
    Nat.le_trans (RecvCtl.ahead_le _) (RecvCtl.onward_prefill _ 0)
  rw [Nat.sub_zero, Nat.sub_zero] at hinit
  omega

theorem recv_takesReadings (p : Setup) : TakesReadings (recvProgram p) := by
  intro c d now h now'
  change recvStep p c _ = _ at h
  show ∃ d', recvStep p c _ = _
  unfold recvStep at h ⊢
  obtain ⟨hopen, h⟩ := Option.ite_none_left_eq_some.mp h
  rw [if_neg hopen]
  cases hpc : c.pc <;> simp [hpc, syncThen_clock, expect] at h ⊢
  -- the comparison with the deadline
  split <;> simp

/-- `send` does not read the clock. -/
theorem send_takesReadings (p : Setup) : TakesReadings (sendProgram p) := by
  intro c d now h now'
  change sendStep p c _ = _ at h
  unfold sendStep at h
  obtain ⟨-, h⟩ := Option.ite_none_left_eq_some.mp h
  cases hpc : c.pc <;> simp [hpc, syncThen_clock, expect] at h

end Accuracy
end RdmaBench
