import RdmaBench.Accuracy.Ends
import RdmaBench.Bandwidth.Ends
import RdmaBench.Latency.Programs

/-!
# The waits end

`wait_for` compares the clock with its deadline on every hundredth turn only, so it can
poll up to a hundred times after the deadline.  `Wait.ahead` counts with that: what is
left before the deadline, and the turns up to the next comparison.  The count of turns is
a `u64` that wraps, and it wraps to a turn that compares.

A run of `ping` or `pong` makes at most `iterations` waits, and what lies between them is
a fixed number of contacts.
-/

namespace RdmaBench
namespace Latency

open Automaton

variable {p : Setup} {parts t t' : ℕ} {a : Act}

/-! ## `wait_for` -/

/-- The polls before the next turn that compares. -/
def pollsLeft (turn : UInt64) : ℕ := (100 - turn.toNat % 100) % 100

theorem pollsLeft_lt (turn : UInt64) : pollsLeft turn < 100 := Nat.mod_lt _ (by decide)

theorem pollsLeft_succ {turn : UInt64} (h : turn % 100 ≠ 0) :
    pollsLeft (turn + 1) < pollsLeft turn := by
  have hmod : turn.toNat % 100 ≠ 0 := fun h0 => h (UInt64.toNat_inj.mp h0)
  have hnext : (turn + 1).toNat = (turn.toNat + 1) % 2 ^ 64 := UInt64.toNat_add turn 1
  rw [pollsLeft, pollsLeft, hnext]
  by_cases hwrap : turn.toNat + 1 < 2 ^ 64
  · rw [Nat.mod_eq_of_lt hwrap]
    omega
  · have hlast : turn.toNat + 1 = 2 ^ 64 := by
      have hlt := turn.toNat_lt
      omega
    rw [hlast, Nat.mod_self]
    omega

/-- The contacts of a wait, from its first turn on. -/
def waitBound (parts : ℕ) : ℕ := 102 * (parts * idleTimeout) + 3

/-- The contacts of a wait that are still to come at most. -/
def Wait.ahead (parts : ℕ) (w : Wait) (t : ℕ) : ℕ :=
  match w.pc with
  | .start => waitBound parts + pollsLeft w.turn
  | .poll => 102 * partsLeft parts w.deadline t + pollsLeft w.turn + 2
  | .check =>
    if partsLeft parts w.deadline t = 0 then 1 else 102 * partsLeft parts w.deadline t + 102

theorem Wait.ahead_eq {w : Wait} {pc : WaitPc} (h : w.pc = pc) : w.ahead parts t =
    { w with pc := pc }.ahead parts t := by
  rw [← h]

theorem Wait.ahead_pos (w : Wait) : 0 < w.ahead parts t := by
  rw [Wait.ahead]
  split
  · exact Nat.add_pos_left (Nat.succ_pos _) _
  · exact Nat.succ_pos _
  · split
    · exact Nat.one_pos
    · exact Nat.succ_pos _

theorem Wait.eq_of_head {w w' : Wait} (h : w.head = .inl w') : { w with pc := .poll } = w' := by
  rw [Wait.head] at h
  split at h
  · exact absurd h (by simp)
  · exact Sum.inl.inj h

/-- **Every contact of a wait lowers what is ahead.** -/
theorem WaitMove.ahead_lt {w w' : Wait} (h : WaitMove w a (.inl w'))
    (ht : (polling.clock parts).step t a = some t') : w'.ahead parts t' < w.ahead parts t := by
  generalize hr : Sum.inl w' = r at h
  cases h with
  | @start now hpc =>
    obtain rfl := Wait.eq_of_head hr.symm
    have hle : partsLeft parts (now + idleTimeout) t' ≤ parts * idleTimeout :=
      partsLeft_of_reading rfl ht
    rw [Wait.ahead_eq hpc]
    show 102 * partsLeft parts (now + idleTimeout) t' + pollsLeft w.turn + 2 <
      waitBound parts + pollsLeft w.turn
    rw [waitBound]
    omega
  | poll hpc hlen hok hturn =>
    obtain rfl := Wait.eq_of_head hr.symm
    have hless := pollsLeft_succ hturn
    rw [Wait.ahead_eq hpc]
    show 102 * partsLeft parts w.deadline t' + pollsLeft (w.turn + 1) + 2 <
      102 * partsLeft parts w.deadline t + pollsLeft w.turn + 2
    rw [partsLeft_of_takes rfl rfl ht]
    omega
  | pollCheck hpc hlen hok hturn =>
    obtain rfl := Sum.inl.inj hr
    rw [Wait.ahead_eq hpc]
    show (if partsLeft parts w.deadline t' = 0 then 1
      else 102 * partsLeft parts w.deadline t' + 102) <
      102 * partsLeft parts w.deadline t + pollsLeft w.turn + 2
    rw [partsLeft_of_takes rfl rfl ht]
    split <;> omega
  | pollError hpc hlen herr => exact absurd hr (by simp)
  | timedOut hpc hnow => exact absurd hr (by simp)
  | @retry now hpc hnow =>
    obtain rfl := Wait.eq_of_head hr.symm
    obtain ⟨hpos, hle⟩ := partsLeft_of_lt rfl ht hnow
    have hturn := pollsLeft_lt (w.turn + 1)
    rw [Wait.ahead_eq hpc]
    show 102 * partsLeft parts w.deadline t' + pollsLeft (w.turn + 1) + 2 <
      if partsLeft parts w.deadline t = 0 then 1 else 102 * partsLeft parts w.deadline t + 102
    rw [if_neg (by omega)]
    omega

/-- A program inside a wait gets on, in a measure of its own. -/
theorem waitThen_lt {σ : Type} {w : Wait} {stay : Wait → σ} {leave : WaitEnd → σ} {c : σ}
    (h : waitThen w a stay leave = some c) (ht : (polling.clock parts).step t a = some t')
    (μ : σ → ℕ) {after : ℕ} (hstay : ∀ w, μ (stay w) = after + w.ahead parts t')
    (hleave : ∀ r, μ (leave r) ≤ after) : μ c < after + w.ahead parts t := by
  obtain ⟨r, hr, rfl⟩ := Option.map_eq_some_iff.mp h
  cases r with
  | inl w' =>
    have hlt := WaitMove.ahead_lt (.of_step hr) ht
    show μ (stay w') < _
    rw [hstay]
    exact Nat.add_lt_add_left hlt after
  | inr r => exact Nat.lt_of_le_of_lt (hleave r) (Nat.lt_add_of_pos_right w.ahead_pos)

/-! ## `ping` -/

/-- The contacts of one round trip at most. -/
def perTrip (parts : ℕ) : ℕ := waitBound parts + 4

/-- The contacts after `i` round trips. -/
def Setup.afterTrips (p : Setup) (parts i : ℕ) : ℕ := 4 + perTrip parts * (p.iterations - i)

/-- The contacts from a point of `ping` on, in round trip `i`. -/
def PingPc.onward (p : Setup) (parts i t : ℕ) : PingPc → ℕ
  | .warmup s => 10 + p.afterTrips parts 0 + 1 + s.ahead
  | .sleep => 10 + p.afterTrips parts 0
  | .settled s => 5 + p.afterTrips parts 0 + 1 + s.ahead
  | .postFirst => 5 + p.afterTrips parts 0
  | .posted s => p.afterTrips parts 0 + 1 + s.ahead
  | .head => p.afterTrips parts (i + 1) + perTrip parts
  | .send => p.afterTrips parts (i + 1) + waitBound parts + 3
  | .wait w => p.afterTrips parts (i + 1) + 2 + w.ahead parts t
  | .record => p.afterTrips parts (i + 1) + 2
  | .repost => p.afterTrips parts (i + 1) + 1
  | .finish s => 0 + 1 + s.ahead
  | .done => 0

/-- The contacts of `ping` that are still to come at most. -/
def PingCtl.ahead (p : Setup) (parts : ℕ) (c : PingCtl) (t : ℕ) : ℕ :=
  if c.failed then 0 else c.pc.onward p parts c.i t

theorem PingCtl.ahead_le (c : PingCtl) : c.ahead p parts t ≤ c.pc.onward p parts c.i t := by
  rw [PingCtl.ahead]
  split
  · exact Nat.zero_le _
  · exact Nat.le_refl _

theorem Setup.afterTrips_succ {i : ℕ} (h : i < p.iterations) :
    p.afterTrips parts (i + 1) + perTrip parts = p.afterTrips parts i := by
  rw [Setup.afterTrips, Setup.afterTrips, show p.iterations - i = p.iterations - (i + 1) + 1 by omega,
    Nat.mul_add, Nat.mul_one, Nat.add_assoc]

theorem PingCtl.ahead_next (c : PingCtl) (i : ℕ) :
    (c.next p i).ahead p parts t ≤ p.afterTrips parts i := by
  refine Nat.le_trans (PingCtl.ahead_le _) ?_
  have henter := (SyncPc.enter p.tracing).ahead_le
  rw [PingCtl.next]
  split
  · next hlt => exact Nat.le_of_eq (Setup.afterTrips_succ hlt)
  · show 0 + 1 + (SyncPc.enter p.tracing).ahead ≤ p.afterTrips parts i
    rw [Setup.afterTrips]
    omega

theorem PingCtl.ahead_waited (c : PingCtl) (r : WaitEnd) :
    (c.waited p r).ahead p parts t ≤ p.afterTrips parts (c.i + 1) + 2 := by
  have henter := (SyncPc.enter p.tracing).ahead_le
  cases r with
  | ok => exact PingCtl.ahead_le _
  | timedOut =>
    refine Nat.le_trans (PingCtl.ahead_le _) ?_
    show 0 + 1 + (SyncPc.enter p.tracing).ahead ≤ p.afterTrips parts (c.i + 1) + 2
    rw [Setup.afterTrips]
    omega
  | error => exact Nat.zero_le _

theorem PingCtl.ahead_recorded (c : PingCtl) (now : ℕ) :
    (c.recorded p now).ahead p parts t ≤ p.afterTrips parts (c.i + 1) + 1 := by
  rw [PingCtl.recorded]
  split
  · exact PingCtl.ahead_le _
  · exact Nat.le_trans (PingCtl.ahead_next _ _) (Nat.le_succ _)

/-- **Every contact of `ping` lowers what is ahead.** -/
theorem pingStep_ahead {c d : PingCtl} (h : pingStep p c a = some d)
    (ht : (polling.clock parts).step t a = some t') :
    d.ahead p parts t' < c.ahead p parts t := by
  have henter := (SyncPc.enter p.tracing).ahead_le
  unfold pingStep at h
  rw [Option.ite_none_left_eq_some] at h
  obtain ⟨hopen, h⟩ := h
  rw [show c.ahead p parts t = _ from if_neg hopen]
  cases hpc : c.pc with
  | warmup s =>
    simp only [hpc] at h
    exact syncThen_lt h (PingCtl.ahead p parts · t') (fun _ => if_neg hopen) (PingCtl.ahead_le _)
  | sleep =>
    simp only [hpc] at h
    obtain ⟨rfl, rfl⟩ := expect_eq_some.mp h
    refine Nat.lt_of_le_of_lt (PingCtl.ahead_le _) ?_
    show 5 + p.afterTrips parts 0 + 1 + (SyncPc.enter p.tracing).ahead <
      10 + p.afterTrips parts 0
    omega
  | settled s =>
    simp only [hpc] at h
    exact syncThen_lt h (PingCtl.ahead p parts · t') (fun _ => if_neg hopen) (PingCtl.ahead_le _)
  | postFirst =>
    simp only [hpc] at h
    obtain ⟨rfl, rfl⟩ := expect_eq_some.mp h
    refine Nat.lt_of_le_of_lt (PingCtl.ahead_le _) ?_
    show p.afterTrips parts 0 + 1 + (SyncPc.enter p.tracing).ahead < 5 + p.afterTrips parts 0
    omega
  | posted s =>
    simp only [hpc] at h
    exact syncThen_lt h (PingCtl.ahead p parts · t') (fun _ => if_neg hopen) (c.ahead_next 0)
  | head =>
    simp only [hpc] at h
    split at h
    · obtain rfl := Option.some.inj h
      refine Nat.lt_of_le_of_lt (PingCtl.ahead_le _) ?_
      show p.afterTrips parts (c.i + 1) + waitBound parts + 3 <
        p.afterTrips parts (c.i + 1) + (waitBound parts + 4)
      omega
    · exact absurd h (by simp)
  | send =>
    simp only [hpc] at h
    obtain ⟨rfl, rfl⟩ := expect_eq_some.mp h
    refine Nat.lt_of_le_of_lt (PingCtl.ahead_le _) ?_
    show p.afterTrips parts (c.i + 1) + 2 + (waitBound parts + 0) <
      p.afterTrips parts (c.i + 1) + waitBound parts + 3
    omega
  | wait w =>
    simp only [hpc] at h
    exact waitThen_lt h ht (PingCtl.ahead p parts · t') (fun _ => if_neg hopen) c.ahead_waited
  | record =>
    simp only [hpc] at h
    split at h
    · obtain rfl := Option.some.inj h
      exact Nat.lt_of_le_of_lt (c.ahead_recorded _) (Nat.lt_succ_self _)
    · exact absurd h (by simp)
  | repost =>
    simp only [hpc] at h
    obtain ⟨rfl, rfl⟩ := expect_eq_some.mp h
    exact Nat.lt_of_le_of_lt (c.ahead_next _) (Nat.lt_succ_self _)
  | finish s =>
    simp only [hpc] at h
    exact syncThen_lt h (PingCtl.ahead p parts · t') (fun _ => if_neg hopen) (PingCtl.ahead_le _)
  | done =>
    simp only [hpc] at h
    exact absurd h (by simp)

/-- **Every run of `ping` ends.** -/
theorem ping_runsDown (p : Setup) (parts : ℕ) :
    (pingProgram p).RunsDown polling parts (perTrip parts * p.iterations + 18) := by
  refine ⟨PingCtl.ahead p parts, fun _ _ _ _ _ => pingStep_ahead, fun t => ?_⟩
  have henter := (SyncPc.enter p.tracing).ahead_le
  have hinit : PingCtl.ahead p parts (pingProgram p).init t =
      10 + (4 + perTrip parts * (p.iterations - 0)) + 1 + (SyncPc.enter p.tracing).ahead := rfl
  rw [Nat.sub_zero] at hinit
  omega

/-! ## `pong` -/

/-- The contacts of one echo at most. -/
def perEcho (parts : ℕ) : ℕ := waitBound parts + 2

/-- The contacts after `turn` turns of the loop. -/
def Setup.afterTurns (p : Setup) (parts turn : ℕ) : ℕ := 4 + perEcho parts * (p.iterations - turn)

/-- The contacts from a point of `pong` on, in a turn of its loop. -/
def PongPc.onward (p : Setup) (parts turn t : ℕ) : PongPc → ℕ
  | .warmup s => 10 + p.afterTurns parts 0 + 1 + s.ahead
  | .sleep => 10 + p.afterTurns parts 0
  | .settled s => 5 + p.afterTurns parts 0 + 1 + s.ahead
  | .postFirst => 5 + p.afterTurns parts 0
  | .posted s => p.afterTurns parts 0 + 1 + s.ahead
  | .wait w => p.afterTurns parts (turn + 1) + 2 + w.ahead parts t
  | .send => p.afterTurns parts (turn + 1) + 2
  | .repost => p.afterTurns parts (turn + 1) + 1
  | .finish s => 0 + 1 + s.ahead
  | .done => 0

/-- The contacts of `pong` that are still to come at most. -/
def PongCtl.ahead (p : Setup) (parts : ℕ) (c : PongCtl) (t : ℕ) : ℕ :=
  c.pc.onward p parts c.turn t

theorem PongCtl.ahead_eq {c : PongCtl} {pc : PongPc} (h : c.pc = pc) :
    c.ahead p parts t = pc.onward p parts c.turn t := by
  rw [PongCtl.ahead, h]

theorem Setup.afterTurns_succ {turn : ℕ} (h : turn < p.iterations) :
    p.afterTurns parts (turn + 1) + perEcho parts = p.afterTurns parts turn := by
  rw [Setup.afterTurns, Setup.afterTurns,
    show p.iterations - turn = p.iterations - (turn + 1) + 1 by omega, Nat.mul_add, Nat.mul_one,
    Nat.add_assoc]

theorem PongCtl.ahead_next (c : PongCtl) (turn : ℕ) :
    (c.next p turn).ahead p parts t ≤ p.afterTurns parts turn := by
  have henter := (SyncPc.enter p.tracing).ahead_le
  rw [PongCtl.next]
  split
  · next hlt =>
    have hsucc : p.afterTurns parts (turn + 1) + perEcho parts = p.afterTurns parts turn :=
      Setup.afterTurns_succ hlt
    show p.afterTurns parts (turn + 1) + 2 + (waitBound parts + 0) ≤ _
    rw [perEcho] at hsucc
    omega
  · show 0 + 1 + (SyncPc.enter p.tracing).ahead ≤ p.afterTurns parts turn
    rw [Setup.afterTurns]
    omega

theorem PongCtl.ahead_waited (c : PongCtl) (r : WaitEnd) :
    (c.waited p r).ahead p parts t ≤ p.afterTurns parts (c.turn + 1) + 2 := by
  have henter := (SyncPc.enter p.tracing).ahead_le
  cases r with
  | ok => exact Nat.le_refl _
  | timedOut | error =>
    show 0 + 1 + (SyncPc.enter p.tracing).ahead ≤ p.afterTurns parts (c.turn + 1) + 2
    rw [Setup.afterTurns]
    omega

/-- **Every contact of `pong` lowers what is ahead.** -/
theorem pongStep_ahead {c d : PongCtl} (h : pongStep p c a = some d)
    (ht : (polling.clock parts).step t a = some t') :
    d.ahead p parts t' < c.ahead p parts t := by
  have henter := (SyncPc.enter p.tracing).ahead_le
  unfold pongStep at h
  cases hpc : c.pc with
  | warmup s =>
    simp only [hpc] at h
    rw [PongCtl.ahead_eq hpc]
    exact syncThen_lt h (PongCtl.ahead p parts · t') (fun _ => rfl) (Nat.le_refl _)
  | sleep =>
    simp only [hpc] at h
    obtain ⟨rfl, rfl⟩ := expect_eq_some.mp h
    rw [PongCtl.ahead_eq hpc]
    show 5 + p.afterTurns parts 0 + 1 + (SyncPc.enter p.tracing).ahead <
      10 + p.afterTurns parts 0
    omega
  | settled s =>
    simp only [hpc] at h
    rw [PongCtl.ahead_eq hpc]
    exact syncThen_lt h (PongCtl.ahead p parts · t') (fun _ => rfl) (Nat.le_refl _)
  | postFirst =>
    simp only [hpc] at h
    obtain ⟨rfl, rfl⟩ := expect_eq_some.mp h
    rw [PongCtl.ahead_eq hpc]
    show p.afterTurns parts 0 + 1 + (SyncPc.enter p.tracing).ahead < 5 + p.afterTurns parts 0
    omega
  | posted s =>
    simp only [hpc] at h
    rw [PongCtl.ahead_eq hpc]
    exact syncThen_lt h (PongCtl.ahead p parts · t') (fun _ => rfl) (c.ahead_next 0)
  | wait w =>
    simp only [hpc] at h
    rw [PongCtl.ahead_eq hpc]
    exact waitThen_lt h ht (PongCtl.ahead p parts · t') (fun _ => rfl) c.ahead_waited
  | send =>
    simp only [hpc] at h
    obtain ⟨rfl, rfl⟩ := expect_eq_some.mp h
    rw [PongCtl.ahead_eq hpc]
    exact Nat.lt_succ_self _
  | repost =>
    simp only [hpc] at h
    obtain ⟨rfl, rfl⟩ := expect_eq_some.mp h
    rw [PongCtl.ahead_eq hpc]
    exact Nat.lt_of_le_of_lt (PongCtl.ahead_next _ _) (Nat.lt_succ_self _)
  | finish s =>
    simp only [hpc] at h
    rw [PongCtl.ahead_eq hpc]
    exact syncThen_lt h (PongCtl.ahead p parts · t') (fun _ => rfl) (Nat.le_refl _)
  | done =>
    simp only [hpc] at h
    exact absurd h (by simp)

/-- **Every run of `pong` ends.** -/
theorem pong_runsDown (p : Setup) (parts : ℕ) :
    (pongProgram p).RunsDown polling parts (perEcho parts * p.iterations + 18) := by
  refine ⟨PongCtl.ahead p parts, fun _ _ _ _ _ => pongStep_ahead, fun t => ?_⟩
  have henter := (SyncPc.enter p.tracing).ahead_le
  have hinit : PongCtl.ahead p parts (pongProgram p).init t =
      10 + (4 + perEcho parts * (p.iterations - 0)) + 1 + (SyncPc.enter p.tracing).ahead := rfl
  rw [Nat.sub_zero] at hinit
  omega

theorem waitThen_clock {σ : Type} {w : Wait} {now : ℕ} {stay : Wait → σ} {leave : WaitEnd → σ}
    {c : σ} (h : waitThen w (.clock now) stay leave = some c) (now' : ℕ) :
    ∃ d, waitThen w (.clock now') stay leave = some d := by
  obtain ⟨r, hr, -⟩ := Option.map_eq_some_iff.mp h
  suffices hstep : ∃ r', waitStep w (.clock now') = some r' by
    obtain ⟨r', hr'⟩ := hstep
    exact ⟨_, Option.map_eq_some_iff.mpr ⟨r', hr', rfl⟩⟩
  unfold waitStep at hr ⊢
  cases hpc : w.pc with
  | start => exact ⟨_, rfl⟩
  | poll =>
    simp only [hpc] at hr
    exact absurd hr (by simp)
  | check =>
    dsimp only
    split
    · exact ⟨_, rfl⟩
    · exact ⟨_, rfl⟩

theorem ping_takesReadings (p : Setup) : TakesReadings (pingProgram p) := by
  intro c d now h now'
  change pingStep p c _ = _ at h
  show ∃ d', pingStep p c _ = _
  unfold pingStep at h ⊢
  obtain ⟨hopen, h⟩ := Option.ite_none_left_eq_some.mp h
  rw [if_neg hopen]
  cases hpc : c.pc <;> simp [hpc, syncThen_clock, expect] at h ⊢
  exact waitThen_clock h now'

theorem pong_takesReadings (p : Setup) : TakesReadings (pongProgram p) := by
  intro c d now h now'
  change pongStep p c _ = _ at h
  show ∃ d', pongStep p c _ = _
  unfold pongStep at h ⊢
  cases hpc : c.pc <;> simp [hpc, syncThen_clock, expect] at h ⊢
  exact waitThen_clock h now'

end Latency

/-- **Nobody waits for the fabric for ever.**  When `parts` polls take a tick at least,
whatever is lost or delayed, every run of a receiver of bandwidth or accuracy mode and of
either side of latency mode is at most so many contacts long. -/
theorem waits_end (parts : ℕ) :
    (∀ p : Bandwidth.Setup, (Bandwidth.recvProgram p).EndsWithin polling parts
      (p.perMessage parts * p.iterations + 2 * (parts * idleTimeout) + p.recvWindow + 21)) ∧
    (∀ p : Accuracy.Setup, (Accuracy.recvProgram p).EndsWithin polling parts
      (p.perMessage parts * p.iterations + 2 * (parts * idleTimeout) + p.window + 13)) ∧
    (∀ p : Latency.Setup, (Latency.pingProgram p).EndsWithin polling parts
      (Latency.perTrip parts * p.iterations + 18)) ∧
    ∀ p : Latency.Setup, (Latency.pongProgram p).EndsWithin polling parts
      (Latency.perEcho parts * p.iterations + 18) :=
  ⟨fun p => (Bandwidth.receive_runsDown p parts).endsWithin,
    fun p => (Accuracy.receive_runsDown p parts).endsWithin,
    fun p => (Latency.ping_runsDown p parts).endsWithin,
    fun p => (Latency.pong_runsDown p parts).endsWithin⟩

/-- A receiver to which nothing comes. -/
example : (((Bandwidth.recvProgram ⟨false, 1, 1, 1⟩).beside (polling.clock 1)).run
    ({ pc := .warmup .write }, 0)
    [.write .barrier, .read .barrier, .skip, .write .barrier, .read .barrier, .postReceive 0 0,
      .write .barrier, .read .barrier, .clock 0, .poll [], .clock 2000, .write .barrier,
      .read .barrier]).isSome = true := by
  decide

end RdmaBench
