import RdmaBench.Latency.PingPong

/-!
# What either side has posted and polled

At every program point the four counts of a side are functions of the turn of its
loop, up to the completions a wait is still pending on.  A wait is pending on a
set of completions, kept as a mask: `mask a b` has the bit of the send if `a` and
the bit of the receive if `b`.  A poll that takes `k` of a kind lowers what is
pending of that kind by `k` (`settle`), because no more than what is pending is
outstanding.

`ping` is pending on its send *and* its receive, so past its wait nothing of it is
outstanding.  `pong` is pending on its receive only: nothing bounds its sends.
-/

namespace RdmaBench
namespace Latency

open Automaton

/-! ## A wait and its mask -/

/-- The mask of a pending send and a pending receive. -/
def mask (a b : Bool) : UInt64 := (if a then 1 else 0) ||| (if b then 2 else 0)

theorem mask_eq_zero {a b : Bool} : mask a b = 0 ↔ a = false ∧ b = false := by
  cases a <;> cases b <;> decide

theorem mask_clear_send (a b : Bool) : mask a b &&& ~~~UInt64.ofNat wrSend = mask false b := by
  cases a <;> cases b <;> decide

theorem mask_clear_recv (a b : Bool) : mask a b &&& ~~~UInt64.ofNat wrRecv = mask a false := by
  cases a <;> cases b <;> decide

/-- **A batch clears the bits of the kinds it holds.** -/
theorem absorb_mask {wcs : List Wc} (hids : ∀ c ∈ wcs, c.wrId = wrSend ∨ c.wrId = wrRecv)
    {a b : Bool} {pending : UInt64} (h : absorb (mask a b) wcs = some pending) :
    pending = mask (a && decide (sendsIn wcs = 0)) (b && decide (recvsIn wcs = 0)) := by
  induction wcs generalizing a b with
  | nil =>
    rw [← Option.some.inj h]
    simp [sendsIn, recvsIn]
  | cons c wcs ih =>
    have hrest := fun d hd => hids d (List.mem_cons_of_mem _ hd)
    rw [absorb] at h
    split at h
    · rcases hids c (List.mem_cons_self ..) with hc | hc
      · rw [hc, mask_clear_send] at h
        rw [ih hrest h]
        simp [sendsIn, recvsIn, hc, wrSend, wrRecv]
      · rw [hc, mask_clear_recv] at h
        rw [ih hrest h]
        simp [sendsIn, recvsIn, hc, wrSend, wrRecv]
    · exact absurd h (by simp)

theorem settle {a : Bool} {k : ℕ} (h : k ≤ a.toNat) : (a && decide (k = 0)).toNat + k = a.toNat := by
  cases a
  · rw [Bool.toNat_false] at h
    simp [Nat.le_zero.mp h]
  · rw [Bool.toNat_true] at h
    rcases Nat.le_one_iff_eq_zero_or_eq_one.mp h with rfl | rfl <;> rfl

/-- A wait that is pending on `mask a b`, at a time when the clock stands at
`clock`. -/
structure Wait.Awaits (w : Wait) (clock : ℕ) (a b : Bool) : Prop where
  pending : w.pending = mask a b
  polling : w.pc = .poll → w.pending ≠ 0
  deadline : w.pc ≠ .start → clock < w.deadline

theorem Wait.awaits_enter (clock : ℕ) (a b : Bool) : (Wait.enter (mask a b)).Awaits clock a b where
  pending := rfl
  polling h := absurd h (by simp [Wait.enter])
  deadline h := absurd rfl h

/-- A wait that goes on, or has been satisfied. -/
def AwaitsOrOk (clock : ℕ) (a b : Bool) : Wait ⊕ WaitEnd → Prop
  | .inl w => w.Awaits clock a b
  | .inr .ok => a = false ∧ b = false
  | .inr _ => True

theorem Wait.awaitsOrOk_head {w : Wait} {clock : ℕ} {a b : Bool} (h : w.pending = mask a b)
    (ht : clock < w.deadline) : AwaitsOrOk clock a b w.head := by
  rw [Wait.head]
  split
  · next hz => exact mask_eq_zero.mp (h ▸ hz)
  · next hz => exact ⟨h, fun _ => hz, fun _ => ht⟩

section Side

variable {σ : Type} {s q : Side σ}

/-- The act took `k` send completions and `m` receive completions off the queue,
and posted nothing. -/
structure Polled (s q : Side σ) (k m : ℕ) : Prop where
  sends : q.sends = s.sends
  recvs : q.recvs = s.recvs
  sendsPolled : q.sendsPolled = s.sendsPolled + k
  recvsPolled : q.recvsPolled = s.recvsPolled + m
  sends_le : k ≤ sendsIn s.cq
  recvs_le : m ≤ recvsIn s.cq

theorem polled_of_clock {now : ℕ} (h : s.perform (.clock now) = some q) :
    Polled s q 0 0 ∧ q.clock = now := by
  simp only [Side.perform, Option.ite_none_right_eq_some] at h
  rw [← Option.some.inj h.2]
  exact ⟨⟨rfl, rfl, rfl, rfl, Nat.zero_le _, Nat.zero_le _⟩, rfl⟩

theorem polled_of_poll {wcs : List Wc} (h : s.perform (.poll wcs) = some q) :
    Polled s q (sendsIn wcs) (recvsIn wcs) ∧ q.clock = s.clock ∧ wcs <+: s.cq := by
  simp only [Side.perform, Option.ite_none_right_eq_some] at h
  obtain ⟨hpre, h⟩ := h
  rw [← Option.some.inj h]
  exact ⟨⟨rfl, rfl, rfl, rfl, hpre.sublist.countP_le, hpre.sublist.countP_le⟩, rfl, hpre⟩

/-- **One contact of a wait**: what it takes off the queue is no longer pending,
and it returns `Ok` only with nothing pending. -/
theorem Wait.Awaits.step {w : Wait} {a b : Bool} {act : Act} {r : Wait ⊕ WaitEnd}
    (h : w.Awaits s.clock a b) (hs : s.Balanced) (hq : s.perform act = some q)
    (hm : WaitMove w act r) :
    ∃ k m, Polled s q k m ∧ AwaitsOrOk q.clock (a && decide (k = 0)) (b && decide (m = 0)) r := by
  cases hm with
  | start hpc =>
    obtain ⟨hpoll, hclock⟩ := polled_of_clock hq
    refine ⟨0, 0, hpoll, ?_⟩
    simp only [decide_true, Bool.and_true]
    exact Wait.awaitsOrOk_head h.pending (by simp only [hclock, idleTimeout]; omega)
  | poll hpc hlen hok _ =>
    obtain ⟨hpoll, hclock, hpre⟩ := polled_of_poll hq
    rw [h.pending] at hok
    refine ⟨_, _, hpoll, Wait.awaitsOrOk_head (absorb_mask ?_ hok) ?_⟩
    · exact fun c hc => hs.ids c (hpre.subset hc)
    · rw [hclock]
      exact h.deadline (by simp [hpc])
  | pollCheck hpc hlen hok _ =>
    obtain ⟨hpoll, hclock, hpre⟩ := polled_of_poll hq
    rw [h.pending] at hok
    refine ⟨_, _, hpoll, absorb_mask (fun c hc => hs.ids c (hpre.subset hc)) hok,
      fun h => absurd h (by simp), fun _ => ?_⟩
    rw [hclock]
    exact h.deadline (by simp [hpc])
  | pollError hpc hlen herr =>
    obtain ⟨hpoll, -, -⟩ := polled_of_poll hq
    exact ⟨_, _, hpoll, trivial⟩
  | timedOut hpc ht =>
    obtain ⟨hpoll, -⟩ := polled_of_clock hq
    exact ⟨0, 0, hpoll, trivial⟩
  | retry hpc ht =>
    obtain ⟨hpoll, hclock⟩ := polled_of_clock hq
    refine ⟨0, 0, hpoll, ?_⟩
    simp only [decide_true, Bool.and_true]
    exact Wait.awaitsOrOk_head h.pending (hclock ▸ ht)

/-- An act out of band changes none of the counts. -/
theorem polled_of_outOfBand {a : Act} (ha : a.outOfBand = true) (h : s.perform a = some q) :
    Polled s q 0 0 := by
  have hself : Polled s s 0 0 := ⟨rfl, rfl, rfl, rfl, Nat.zero_le _, Nat.zero_le _⟩
  cases a with
  | write i | read i | skip =>
    rw [← Option.some.inj h]
    exact hself
  | clock now => exact (polled_of_clock h).1
  | _ => exact absurd ha (by simp [Act.outOfBand])

end Side

/-! ## `ping` -/

/-- The four counts of a side. -/
def Counts {σ : Type} (s : Side σ) (sends sendsPolled recvs recvsPolled : ℕ) : Prop :=
  s.sends = sends ∧ s.sendsPolled = sendsPolled ∧ s.recvs = recvs ∧ s.recvsPolled = recvsPolled

/-- The counts of the client, program point by program point. -/
def PingAt (p : Setup) (s : Side PingCtl) : Prop :=
  match s.ctl.pc with
  | .warmup _ | .sleep | .settled _ | .postFirst => s.ctl.samples = [] ∧ Counts s 0 0 0 0
  | .posted _ => s.ctl.samples = [] ∧ Counts s 0 0 1 0
  | .head | .send =>
    s.ctl.i < p.iterations ∧ s.ctl.samples.length = s.ctl.i ∧
      Counts s s.ctl.i s.ctl.i (s.ctl.i + 1) s.ctl.i
  | .wait w =>
    s.ctl.i < p.iterations ∧ s.ctl.samples.length = s.ctl.i ∧ s.sends = s.ctl.i + 1 ∧
      s.recvs = s.ctl.i + 1 ∧ (s.ctl.failed = false → ∃ a b, w.Awaits s.clock a b ∧
        s.sendsPolled + a.toNat = s.ctl.i + 1 ∧ s.recvsPolled + b.toNat = s.ctl.i + 1)
  | .record =>
    s.ctl.i < p.iterations ∧ s.ctl.samples.length = s.ctl.i ∧
      Counts s (s.ctl.i + 1) (s.ctl.i + 1) (s.ctl.i + 1) (s.ctl.i + 1)
  | .repost =>
    s.ctl.i + 1 < p.iterations ∧ s.ctl.samples.length = s.ctl.i + 1 ∧
      Counts s (s.ctl.i + 1) (s.ctl.i + 1) (s.ctl.i + 1) (s.ctl.i + 1)
  | .finish _ | .done => True

/-- What holds of the client in every state. -/
structure PingSound (p : Setup) (s : Side PingCtl) : Prop where
  balanced : s.Balanced
  at_pc : PingAt p s
  sends_le : s.sends ≤ s.recvs
  sends_polled : s.sends ≤ s.sendsPolled + 1
  recvs_polled : s.recvs ≤ s.recvsPolled + 1

/-- An act that posts nothing keeps the bounds. -/
theorem PingSound.of_polled {p : Setup} {s q : Side PingCtl} {c : PingCtl} {k m : ℕ}
    (h : PingSound p s) (hbal : Side.Balanced { q with ctl := c }) (hq : Polled s q k m)
    (hat : PingAt p { q with ctl := c }) : PingSound p { q with ctl := c } where
  balanced := hbal
  at_pc := hat
  sends_le := by simp only [hq.sends, hq.recvs, h.sends_le]
  sends_polled := by
    have := h.sends_polled
    simp only [hq.sends, hq.sendsPolled]
    omega
  recvs_polled := by
    have := h.recvs_polled
    simp only [hq.recvs, hq.recvsPolled]
    omega

/-- No more is outstanding than what a wait is pending on. -/
theorem PingSound.pending_le {p : Setup} {s q : Side PingCtl} (h : PingSound p s) {n k m : ℕ}
    {a b : Bool} (hsends : s.sends = n) (hrecvs : s.recvs = n) (ha : s.sendsPolled + a.toNat = n)
    (hb : s.recvsPolled + b.toNat = n) (hq : Polled s q k m) : k ≤ a.toNat ∧ m ≤ b.toNat := by
  have hs := h.balanced.sends
  have hr := h.balanced.recvs
  have hk := hq.sends_le
  have hm := hq.recvs_le
  omega

/-- Posting a receive, where none is outstanding. -/
theorem PingSound.of_postReceive {p : Setup} {s : Side PingCtl} {c : PingCtl} {k : ℕ}
    (h : PingSound p s)
    (hbal : Side.Balanced { s with free := s.free + 1, recvs := s.recvs + 1, ctl := c })
    (hcounts : Counts s k k k k)
    (hat : PingAt p { s with free := s.free + 1, recvs := s.recvs + 1, ctl := c }) :
    PingSound p { s with free := s.free + 1, recvs := s.recvs + 1, ctl := c } where
  balanced := hbal
  at_pc := hat
  sends_le := Nat.le_succ_of_le h.sends_le
  sends_polled := h.sends_polled
  recvs_polled := by simp only [hcounts.2.2.1, hcounts.2.2.2, Nat.le_refl]

theorem Counts.polled {σ : Type} {s q : Side σ} {a b c d k m : ℕ} (h : Counts s a b c d)
    (hq : Polled s q k m) : Counts q a (b + k) c (d + m) :=
  ⟨hq.sends.trans h.1, by rw [hq.sendsPolled, h.2.1], hq.recvs.trans h.2.2.1,
    by rw [hq.recvsPolled, h.2.2.2]⟩

/-- Entering turn `i` of the loop, or leaving it. -/
theorem PingAt.next {p : Setup} {q : Side PingCtl} {c : PingCtl} {i : ℕ}
    (hsamples : c.samples.length = i) (h : Counts q i i (i + 1) i) :
    PingAt p { q with ctl := c.next p i } := by
  rw [PingCtl.next]
  split
  · next hi => exact ⟨hi, hsamples, h⟩
  · trivial

/-- **An act of the client.** -/
theorem PingSound.act {p : Setup} {s t : Side PingCtl} (h : PingSound p s) {a : Act}
    (ht : s.act (pingStep p) a = some t) : PingSound p t := by
  have hbal := h.balanced.act ht
  obtain ⟨q, c, hq, hc, rfl⟩ := Side.act_eq_some ht
  obtain ⟨hfail, hmove⟩ := PingMove.of_step hc
  have hat := h.at_pc
  cases hmove with
  | warming hpc ha _ | settling hpc ha _ | warmed hpc ha _ | settled hpc ha _
  | posting hpc ha _ =>
    have hpoll := polled_of_outOfBand ha hq
    simp only [PingAt, hpc] at hat
    exact h.of_polled hbal hpoll ⟨hat.1, hat.2.polled hpoll⟩
  | sleep hpc =>
    have hpoll := polled_of_outOfBand rfl hq
    simp only [PingAt, hpc] at hat
    exact h.of_polled hbal hpoll ⟨hat.1, hat.2.polled hpoll⟩
  | postFirst hpc =>
    simp only [PingAt, hpc] at hat
    obtain ⟨hsamples, hcounts⟩ := hat
    rw [← Option.some.inj hq] at hbal ⊢
    exact h.of_postReceive hbal hcounts
      ⟨hsamples, hcounts.1, hcounts.2.1, by simp only [hcounts.2.2.1], hcounts.2.2.2⟩
  | posted hpc ha _ =>
    have hpoll := polled_of_outOfBand ha hq
    simp only [PingAt, hpc] at hat
    exact h.of_polled hbal hpoll (.next (by rw [hat.1]; rfl) (hat.2.polled hpoll))
  | head hpc =>
    have hpoll := polled_of_outOfBand rfl hq
    simp only [PingAt, hpc] at hat
    obtain ⟨hi, hsamples, hcounts⟩ := hat
    exact h.of_polled hbal hpoll ⟨hi, hsamples, hcounts.polled hpoll⟩
  | send hpc =>
    simp only [PingAt, hpc] at hat
    obtain ⟨hi, hsamples, hcounts⟩ := hat
    rw [← Option.some.inj hq] at hbal ⊢
    have hsends : s.sends + 1 = s.ctl.i + 1 := by rw [hcounts.1]
    exact
      { balanced := hbal
        at_pc := ⟨hi, hsamples, hsends, hcounts.2.2.1, fun _ =>
          ⟨true, true, Wait.awaits_enter _ true true, by rw [Bool.toNat_true, ← hcounts.2.1],
            by rw [Bool.toNat_true, ← hcounts.2.2.2]⟩⟩
        sends_le := Nat.le_of_eq (hsends.trans hcounts.2.2.1.symm)
        sends_polled := Nat.le_of_eq (hsends.trans (by rw [hcounts.2.1]))
        recvs_polled := h.recvs_polled }
  | @waiting w w' _ hpc hw =>
    simp only [PingAt, hpc] at hat
    obtain ⟨hi, hsamples, hsends, hrecvs, hwait⟩ := hat
    obtain ⟨a, b, hawaits, hsp, hrp⟩ := hwait hfail
    obtain ⟨k, m, hpoll, hnext⟩ := hawaits.step h.balanced hq hw
    obtain ⟨hk, hm⟩ := h.pending_le hsends hrecvs hsp hrp hpoll
    refine h.of_polled hbal hpoll ⟨hi, hsamples, hpoll.sends.trans hsends,
      hpoll.recvs.trans hrecvs, fun _ => ⟨_, _, { hnext with }, ?_, ?_⟩⟩
    · have := settle hk
      simp only [hpoll.sendsPolled]
      omega
    · have := settle hm
      simp only [hpoll.recvsPolled]
      omega
  | @waited w r _ hpc hw =>
    simp only [PingAt, hpc] at hat
    obtain ⟨hi, hsamples, hsends, hrecvs, hwait⟩ := hat
    obtain ⟨a, b, hawaits, hsp, hrp⟩ := hwait hfail
    obtain ⟨k, m, hpoll, hnext⟩ := hawaits.step h.balanced hq hw
    obtain ⟨hk, hm⟩ := h.pending_le hsends hrecvs hsp hrp hpoll
    refine h.of_polled hbal hpoll ?_
    cases r with
    | ok =>
      obtain ⟨ha, hb⟩ := hnext
      refine ⟨hi, hsamples, hpoll.sends.trans hsends, ?_, hpoll.recvs.trans hrecvs, ?_⟩
      · have := settle hk
        rw [ha, Bool.toNat_false] at this
        simp only [hpoll.sendsPolled, PingCtl.waited]
        omega
      · have := settle hm
        rw [hb, Bool.toNat_false] at this
        simp only [hpoll.recvsPolled, PingCtl.waited]
        omega
    | timedOut => trivial
    | error =>
      simp only [PingCtl.waited, PingAt, hpc]
      exact ⟨hi, hsamples, hpoll.sends.trans hsends, hpoll.recvs.trans hrecvs,
        fun h => absurd h (by simp)⟩
  | record hpc =>
    have hpoll := polled_of_outOfBand rfl hq
    simp only [PingAt, hpc] at hat
    obtain ⟨hi, hsamples, hcounts⟩ := hat
    refine h.of_polled hbal hpoll ?_
    rw [PingCtl.recorded]
    split
    · next hlt => exact ⟨hlt, by simp [hsamples], hcounts.polled hpoll⟩
    · next hge =>
      rw [PingCtl.next, if_neg hge]
      trivial
  | repost hpc =>
    simp only [PingAt, hpc] at hat
    obtain ⟨hi, hsamples, hcounts⟩ := hat
    rw [← Option.some.inj hq] at hbal ⊢
    have hnext : Counts { s with free := s.free + 1, recvs := s.recvs + 1 }
        (s.ctl.i + 1) (s.ctl.i + 1) (s.ctl.i + 1 + 1) (s.ctl.i + 1) :=
      ⟨hcounts.1, hcounts.2.1, by simp only [hcounts.2.2.1], hcounts.2.2.2⟩
    exact h.of_postReceive hbal hcounts (.next hsamples hnext)
  | finishing hpc ha _ | finished hpc ha _ =>
    exact h.of_polled hbal (polled_of_outOfBand ha hq) trivial

/-- A completion changes none of the counts. -/
theorem PingSound.complete {p : Setup} {s t : Side PingCtl} (h : PingSound p s) {c : Wc}
    (ht : s.complete c = some t) : PingSound p t := by
  have hbal := h.balanced.complete ht
  rcases Side.complete_cases ht with ⟨-, -, rfl⟩ | ⟨-, -, rfl⟩ <;>
    exact { h with balanced := hbal }

/-! ## `pong` -/

/-- The counts of the server, program point by program point.  Nothing is said
about the sends it has polled. -/
def PongAt (p : Setup) (s : Side PongCtl) : Prop :=
  match s.ctl.pc with
  | .warmup _ | .sleep | .settled _ | .postFirst => s.sends = 0 ∧ s.recvs = 0 ∧ s.recvsPolled = 0
  | .posted _ => s.sends = 0 ∧ s.recvs = 1 ∧ s.recvsPolled = 0
  | .wait w =>
    s.ctl.turn < p.iterations ∧ s.sends = s.ctl.turn ∧ s.recvs = s.ctl.turn + 1 ∧
      ∃ b, w.Awaits s.clock false b ∧ s.recvsPolled + b.toNat = s.ctl.turn + 1
  | .send =>
    s.ctl.turn < p.iterations ∧ s.sends = s.ctl.turn ∧ s.recvs = s.ctl.turn + 1 ∧
      s.recvsPolled = s.ctl.turn + 1
  | .repost =>
    s.ctl.turn < p.iterations ∧ s.sends = s.ctl.turn + 1 ∧ s.recvs = s.ctl.turn + 1 ∧
      s.recvsPolled = s.ctl.turn + 1
  | .finish _ | .done => s.recvs = s.sends + 1

/-- What holds of the server in every state. -/
structure PongSound (p : Setup) (s : Side PongCtl) : Prop where
  balanced : s.Balanced
  at_pc : PongAt p s
  sends_le : s.sends ≤ s.recvsPolled
  recvs_polled : s.recvs ≤ s.recvsPolled + 1

/-- An act that posts nothing keeps the bounds. -/
theorem PongSound.of_polled {p : Setup} {s q : Side PongCtl} {c : PongCtl} {k m : ℕ}
    (h : PongSound p s) (hbal : Side.Balanced { q with ctl := c }) (hq : Polled s q k m)
    (hat : PongAt p { q with ctl := c }) : PongSound p { q with ctl := c } where
  balanced := hbal
  at_pc := hat
  sends_le := by
    have := h.sends_le
    simp only [hq.sends, hq.recvsPolled]
    omega
  recvs_polled := by
    have := h.recvs_polled
    simp only [hq.recvs, hq.recvsPolled]
    omega

/-- Entering a turn of the loop, or leaving it. -/
theorem PongAt.next {p : Setup} {q : Side PongCtl} {c : PongCtl} {turn : ℕ}
    (hsends : q.sends = turn) (hrecvs : q.recvs = turn + 1) (hpolled : q.recvsPolled = turn) :
    PongAt p { q with ctl := c.next p turn } := by
  rw [PongCtl.next]
  split
  · next hi =>
    exact ⟨hi, hsends, hrecvs, true, Wait.awaits_enter _ false true, by
      rw [Bool.toNat_true, ← hpolled]⟩
  · exact hrecvs.trans (by rw [hsends])

/-- No more receives are outstanding than a wait is pending on. -/
theorem PongSound.pending_le {p : Setup} {s q : Side PongCtl} (h : PongSound p s) {n k m : ℕ}
    {b : Bool} (hrecvs : s.recvs = n) (hb : s.recvsPolled + b.toNat = n) (hq : Polled s q k m) :
    m ≤ b.toNat := by
  have hr := h.balanced.recvs
  have hm := hq.recvs_le
  omega

/-- **An act of the server.** -/
theorem PongSound.act {p : Setup} {s t : Side PongCtl} (h : PongSound p s) {a : Act}
    (ht : s.act (pongStep p) a = some t) : PongSound p t := by
  have hbal := h.balanced.act ht
  obtain ⟨q, c, hq, hc, rfl⟩ := Side.act_eq_some ht
  have hat := h.at_pc
  cases PongMove.of_step hc with
  | warming hpc ha _ | settling hpc ha _ | warmed hpc ha _ | settled hpc ha _
  | posting hpc ha _ =>
    have hpoll := polled_of_outOfBand ha hq
    simp only [PongAt, hpc] at hat
    exact h.of_polled hbal hpoll ⟨hpoll.sends.trans hat.1, hpoll.recvs.trans hat.2.1,
      hpoll.recvsPolled.trans hat.2.2⟩
  | sleep hpc =>
    have hpoll := polled_of_outOfBand rfl hq
    simp only [PongAt, hpc] at hat
    exact h.of_polled hbal hpoll ⟨hpoll.sends.trans hat.1, hpoll.recvs.trans hat.2.1,
      hpoll.recvsPolled.trans hat.2.2⟩
  | postFirst hpc =>
    simp only [PongAt, hpc] at hat
    obtain ⟨hsends, hrecvs, hpolled⟩ := hat
    rw [← Option.some.inj hq] at hbal ⊢
    have hone : s.recvs + 1 = 1 := by rw [hrecvs]
    exact
      { balanced := hbal
        at_pc := ⟨hsends, hone, hpolled⟩
        sends_le := h.sends_le
        recvs_polled := Nat.le_of_eq (hone.trans (by rw [hpolled])) }
  | posted hpc ha _ =>
    have hpoll := polled_of_outOfBand ha hq
    simp only [PongAt, hpc] at hat
    obtain ⟨hsends, hrecvs, hpolled⟩ := hat
    exact h.of_polled hbal hpoll (.next (hpoll.sends.trans hsends) (hpoll.recvs.trans hrecvs)
      (hpoll.recvsPolled.trans hpolled))
  | @waiting w w' _ hpc hw =>
    simp only [PongAt, hpc] at hat
    obtain ⟨hi, hsends, hrecvs, b, hawaits, hrp⟩ := hat
    obtain ⟨k, m, hpoll, hnext⟩ := hawaits.step h.balanced hq hw
    have hm := settle (h.pending_le hrecvs hrp hpoll)
    refine h.of_polled hbal hpoll ⟨hi, hpoll.sends.trans hsends, hpoll.recvs.trans hrecvs, _,
      { hnext with }, ?_⟩
    simp only [hpoll.recvsPolled]
    omega
  | @waited w r _ hpc hw =>
    simp only [PongAt, hpc] at hat
    obtain ⟨hi, hsends, hrecvs, b, hawaits, hrp⟩ := hat
    obtain ⟨k, m, hpoll, hnext⟩ := hawaits.step h.balanced hq hw
    have hm := settle (h.pending_le hrecvs hrp hpoll)
    refine h.of_polled hbal hpoll ?_
    have hfinish : q.recvs = q.sends + 1 := by rw [hpoll.recvs, hpoll.sends, hrecvs, hsends]
    cases r with
    | ok =>
      rw [hnext.2, Bool.toNat_false] at hm
      refine ⟨hi, hpoll.sends.trans hsends, hpoll.recvs.trans hrecvs, ?_⟩
      simp only [hpoll.recvsPolled, PongCtl.waited]
      omega
    | timedOut | error => exact hfinish
  | send hpc =>
    simp only [PongAt, hpc] at hat
    obtain ⟨hi, hsends, hrecvs, hpolled⟩ := hat
    rw [← Option.some.inj hq] at hbal ⊢
    have hone : s.sends + 1 = s.ctl.turn + 1 := by rw [hsends]
    exact
      { balanced := hbal
        at_pc := ⟨hi, hone, hrecvs, hpolled⟩
        sends_le := Nat.le_of_eq (hone.trans hpolled.symm)
        recvs_polled := h.recvs_polled }
  | repost hpc =>
    simp only [PongAt, hpc] at hat
    obtain ⟨hi, hsends, hrecvs, hpolled⟩ := hat
    rw [← Option.some.inj hq] at hbal ⊢
    have hone : s.recvs + 1 = s.ctl.turn + 1 + 1 := by rw [hrecvs]
    have hnext : PongAt p { s with
        free := s.free + 1, recvs := s.recvs + 1
        ctl := PongCtl.next p { s.ctl with echoed := s.ctl.echoed + 1 } (s.ctl.turn + 1) } :=
      PongAt.next (q := { s with free := s.free + 1, recvs := s.recvs + 1 }) hsends hone hpolled
    exact
      { balanced := hbal
        at_pc := hnext
        sends_le := h.sends_le
        recvs_polled := Nat.le_of_eq (hone.trans (by rw [hpolled])) }
  | finishing hpc ha _ | finished hpc ha _ =>
    have hpoll := polled_of_outOfBand ha hq
    simp only [PongAt, hpc] at hat
    refine h.of_polled hbal hpoll ?_
    simp only [PongAt, hpoll.recvs, hpoll.sends, hat]

/-- A completion changes none of the counts. -/
theorem PongSound.complete {p : Setup} {s t : Side PongCtl} (h : PongSound p s) {c : Wc}
    (ht : s.complete c = some t) : PongSound p t := by
  have hbal := h.balanced.complete ht
  rcases Side.complete_cases ht with ⟨-, -, rfl⟩ | ⟨-, -, rfl⟩ <;>
    exact { h with balanced := hbal }

/-! ## Along a run -/

/-- **Both sides keep their counts** in every state of every run. -/
theorem pingPong_sound (p : Pairing) {s : PingPong} (h : (pingPong p).Reachable s) :
    PingSound p.client s.client ∧ PongSound p.server s.server := by
  refine h.invariant
    (I := fun s => PingSound p.client s.client ∧ PongSound p.server s.server) ⟨?_, ?_⟩
    fun s l t ⟨hping, hpong⟩ hstep => ?_
  · exact ⟨⟨rfl, rfl, by simp [pingPong]⟩, ⟨rfl, rfl, rfl, rfl, rfl⟩, Nat.le_refl 0,
      Nat.zero_le _, Nat.zero_le _⟩
  · exact ⟨⟨rfl, rfl, by simp [pingPong]⟩, ⟨rfl, rfl, rfl⟩, Nat.le_refl 0, Nat.zero_le _⟩
  cases Move.of_step hstep with
  | client hw hc => exact ⟨hping.act hc, hpong⟩
  | server hw hc => exact ⟨hping, hpong.act hc⟩
  | transmitPing hpos => exact ⟨{ hping with balanced := hping.balanced.transmit hpos }, hpong⟩
  | transmitEcho hpos => exact ⟨hping, { hpong with balanced := hpong.balanced.transmit hpos }⟩
  | landPing _ hfree => exact ⟨hping, { hpong with balanced := hpong.balanced.land hfree }⟩
  | landEcho _ hfree => exact ⟨{ hping with balanced := hping.balanced.land hfree }, hpong⟩
  | losePing _ _ | loseEcho _ _ => exact ⟨hping, hpong⟩
  | completeClient ht => exact ⟨hping.complete ht, hpong⟩
  | completeServer ht => exact ⟨hping, hpong.complete ht⟩

end Latency
end RdmaBench
