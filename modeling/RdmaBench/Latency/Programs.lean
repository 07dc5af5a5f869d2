import RdmaBench.Connection.Duo

/-!
# The two sides of a latency run, as programs

`wait_for` is a loop of its own, so it is an automaton of its own: `Wait` is its
state and `waitStep` one contact of it, a poll or a reading of the clock.  The
clock is read on every hundredth turn only, after the poll of that turn, and a
clock past the deadline ends the wait whatever that poll has returned.  `absorb`
is the loop over one batch: a failed completion ends it, a good one clears the
bits of its `wr_id`.

`ping` and `pong` are the client's and the server's halves.  They post in opposite
orders: `ping` posts the receive for the next echo before it sends, `pong` sends
its echo and then posts the receive for the next ping.  `ping` waits for its send
and its receive, `pong` for its receive alone; and where `ping` hands a failed
completion on, `pong` leaves its loop.
-/

namespace RdmaBench
namespace Latency

open Automaton

/-- The id of the one send a side can have outstanding. -/
def wrSend : ℕ := 1

/-- The id of the one receive. -/
def wrRecv : ℕ := 2

/-! ## `wait_for` -/

inductive WaitPc where
  /-- About to compute the deadline. -/
  | start
  | poll
  /-- About to compare the clock with the deadline. -/
  | check
  deriving DecidableEq

/-- The local state of `wait_for`. -/
structure Wait where
  pc : WaitPc
  pending : UInt64
  deadline : ℕ := 0
  turn : UInt64 := 0
  deriving DecidableEq

/-- How `wait_for` returns. -/
inductive WaitEnd where
  | ok
  | timedOut
  | error
  deriving DecidableEq

/-- Entering `wait_for`. -/
def Wait.enter (want : UInt64) : Wait := { pc := .start, pending := want }

/-- The loop over one batch of completions. -/
def absorb (pending : UInt64) : List Wc → Option UInt64
  | [] => some pending
  | c :: wcs => if c.ok then absorb (pending &&& ~~~UInt64.ofNat c.wrId) wcs else none

/-- The test `while pending != 0`. -/
def Wait.head (w : Wait) : Wait ⊕ WaitEnd :=
  if w.pending = 0 then .inr .ok else .inl { w with pc := .poll }

/-- One contact of `wait_for`. -/
def waitStep (w : Wait) (a : Act) : Option (Wait ⊕ WaitEnd) :=
  match w.pc with
  | .start =>
    match a with
    | .clock now => some { w with deadline := now + idleTimeout }.head
    | _ => none
  | .poll =>
    match a with
    | .poll wcs =>
      if wcs.length ≤ 2 then
        match absorb w.pending wcs with
        | some pending =>
          if w.turn % 100 = 0 then some (.inl { w with pc := .check, pending := pending })
          else some { w with pending := pending, turn := w.turn + 1 }.head
        | none => some (.inr .error)
      else none
    | _ => none
  | .check =>
    match a with
    | .clock now =>
      if w.deadline ≤ now then some (.inr .timedOut)
      else some { w with turn := w.turn + 1 }.head
    | _ => none

/-- One contact of `wait_for`: from which point, by which act, to what. -/
inductive WaitMove (w : Wait) : Act → Wait ⊕ WaitEnd → Prop
  | start {now : ℕ} (hpc : w.pc = .start) :
      WaitMove w (.clock now) { w with deadline := now + idleTimeout }.head
  | poll {wcs : List Wc} {pending : UInt64} (hpc : w.pc = .poll) (hlen : wcs.length ≤ 2)
      (hok : absorb w.pending wcs = some pending) (hturn : w.turn % 100 ≠ 0) :
      WaitMove w (.poll wcs) { w with pending := pending, turn := w.turn + 1 }.head
  | pollCheck {wcs : List Wc} {pending : UInt64} (hpc : w.pc = .poll) (hlen : wcs.length ≤ 2)
      (hok : absorb w.pending wcs = some pending) (hturn : w.turn % 100 = 0) :
      WaitMove w (.poll wcs) (.inl { w with pc := .check, pending := pending })
  | pollError {wcs : List Wc} (hpc : w.pc = .poll) (hlen : wcs.length ≤ 2)
      (herr : absorb w.pending wcs = none) : WaitMove w (.poll wcs) (.inr .error)
  | timedOut {now : ℕ} (hpc : w.pc = .check) (ht : w.deadline ≤ now) :
      WaitMove w (.clock now) (.inr .timedOut)
  | retry {now : ℕ} (hpc : w.pc = .check) (ht : now < w.deadline) :
      WaitMove w (.clock now) { w with turn := w.turn + 1 }.head

theorem WaitMove.of_step {w : Wait} {a : Act} {r : Wait ⊕ WaitEnd} (h : waitStep w a = some r) :
    WaitMove w a r := by
  unfold waitStep at h
  cases hpc : w.pc with
  | start =>
    simp only [hpc] at h
    split at h
    · rw [← Option.some.inj h]
      exact .start hpc
    · exact absurd h (by simp)
  | poll =>
    simp only [hpc] at h
    split at h
    · next wcs =>
      split at h
      · next hlen =>
        split at h
        · next pending hok =>
          split at h
          · next hturn =>
            rw [← Option.some.inj h]
            exact .pollCheck hpc hlen hok hturn
          · next hturn =>
            rw [← Option.some.inj h, ← hpc]
            exact .poll hpc hlen hok hturn
        · next herr =>
          rw [← Option.some.inj h]
          exact .pollError hpc hlen herr
      · exact absurd h (by simp)
    · exact absurd h (by simp)
  | check =>
    simp only [hpc] at h
    split at h
    · split at h
      · next ht =>
        rw [← Option.some.inj h]
        exact .timedOut hpc ht
      · next ht =>
        rw [← Option.some.inj h, ← hpc]
        exact .retry hpc (Nat.not_le.mp ht)
    · exact absurd h (by simp)

/-- Every move is a step. -/
theorem WaitMove.step {w : Wait} {a : Act} {r : Wait ⊕ WaitEnd} (h : WaitMove w a r) :
    waitStep w a = some r := by
  cases h with
  | start hpc => simp only [waitStep, hpc]
  | poll hpc hlen hok hturn => simp only [waitStep, hpc, hlen, hok, hturn, if_true, if_false]
  | pollCheck hpc hlen hok hturn => simp only [waitStep, hpc, hlen, hok, hturn, if_true]
  | pollError hpc hlen herr => simp only [waitStep, hpc, hlen, herr, if_true]
  | timedOut hpc ht => simp only [waitStep, hpc, ht, if_true]
  | retry hpc ht => simp only [waitStep, hpc, Nat.not_le.mpr ht, if_false]

/-- A wait does nothing on the connection. -/
theorem WaitMove.session_eq {w : Wait} {a : Act} {r : Wait ⊕ WaitEnd} (h : WaitMove w a r) :
    a.session = [] := by
  cases h <;> rfl

/-- A program inside a wait: it stays there, or goes on with its result. -/
def waitThen {σ : Type} (w : Wait) (a : Act) (stay : Wait → σ) (leave : WaitEnd → σ) : Option σ :=
  (waitStep w a).map (Sum.elim stay leave)

/-! ## `ping` -/

/-- What `run` hands to either side. -/
structure Setup where
  tracing : Bool
  iterations : ℕ

/-- The program points of `ping`. -/
inductive PingPc where
  | warmup (s : SyncPc)
  | sleep
  | settled (s : SyncPc)
  | postFirst
  | posted (s : SyncPc)
  /-- About to read the clock for a round trip. -/
  | head
  | send
  | wait (w : Wait)
  /-- About to read the clock for the sample. -/
  | record
  | repost
  | finish (s : SyncPc)
  | done
  deriving DecidableEq

/-- A state of `ping`.  A sample is kept as the two readings of the clock it is
the difference of. -/
structure PingCtl where
  pc : PingPc
  i : ℕ := 0
  t0 : ℕ := 0
  samples : List (ℕ × ℕ) := []
  failed : Bool := false
  deriving DecidableEq

/-- The head of `for i in 0..iterations`. -/
def PingCtl.next (p : Setup) (c : PingCtl) (i : ℕ) : PingCtl :=
  if i < p.iterations then { c with pc := .head, i := i }
  else { c with pc := .finish (.enter p.tracing), i := i }

/-- After the wait for a round trip. -/
def PingCtl.waited (p : Setup) (c : PingCtl) : WaitEnd → PingCtl
  | .ok => { c with pc := .record }
  | .timedOut => { c with pc := .finish (.enter p.tracing) }
  | .error => { c with failed := true }

/-- Recording a sample, and what comes after it. -/
def PingCtl.recorded (p : Setup) (c : PingCtl) (now : ℕ) : PingCtl :=
  if c.i + 1 < p.iterations then
    { c with pc := .repost, samples := c.samples ++ [(c.t0, now)] }
  else PingCtl.next p { c with samples := c.samples ++ [(c.t0, now)] } (c.i + 1)

/-- `latency::ping`, one contact at a time. -/
def pingStep (p : Setup) (c : PingCtl) (a : Act) : Option PingCtl :=
  if c.failed then none
  else match c.pc with
    | .warmup s => syncThen p.tracing s a (fun s => { c with pc := .warmup s }) { c with pc := .sleep }
    | .sleep => expect a .skip { c with pc := .settled (.enter p.tracing) }
    | .settled s =>
      syncThen p.tracing s a (fun s => { c with pc := .settled s }) { c with pc := .postFirst }
    | .postFirst =>
      expect a (.postReceive 0 wrRecv) { c with pc := .posted (.enter p.tracing) }
    | .posted s => syncThen p.tracing s a (fun s => { c with pc := .posted s }) (c.next p 0)
    | .head =>
      match a with
      | .clock now => some { c with pc := .send, t0 := now }
      | _ => none
    | .send => expect a (.postSend 0 wrSend) { c with pc := .wait (.enter 3) }
    | .wait w => waitThen w a (fun w => { c with pc := .wait w }) (c.waited p)
    | .record =>
      match a with
      | .clock now => some (c.recorded p now)
      | _ => none
    | .repost => expect a (.postReceive 0 wrRecv) (c.next p (c.i + 1))
    | .finish s => syncThen p.tracing s a (fun s => { c with pc := .finish s }) { c with pc := .done }
    | .done => none

/-- `latency::ping` as a program. -/
def pingProgram (p : Setup) : Program PingCtl :=
  ⟨{ pc := .warmup (.enter p.tracing) }, pingStep p⟩

/-- One step of `ping`: from which point, by which act, to where. -/
inductive PingMove (p : Setup) (c : PingCtl) : Act → PingCtl → Prop
  | warming {s s' : SyncPc} {a : Act} (hpc : c.pc = .warmup s) (ha : a.outOfBand = true)
      (hs : s.todo = a.session ++ s'.todo) : PingMove p c a { c with pc := .warmup s' }
  | warmed {s : SyncPc} {a : Act} (hpc : c.pc = .warmup s) (ha : a.outOfBand = true)
      (hs : s.todo = a.session) : PingMove p c a { c with pc := .sleep }
  | sleep (hpc : c.pc = .sleep) : PingMove p c .skip { c with pc := .settled (.enter p.tracing) }
  | settling {s s' : SyncPc} {a : Act} (hpc : c.pc = .settled s) (ha : a.outOfBand = true)
      (hs : s.todo = a.session ++ s'.todo) : PingMove p c a { c with pc := .settled s' }
  | settled {s : SyncPc} {a : Act} (hpc : c.pc = .settled s) (ha : a.outOfBand = true)
      (hs : s.todo = a.session) : PingMove p c a { c with pc := .postFirst }
  | postFirst (hpc : c.pc = .postFirst) :
      PingMove p c (.postReceive 0 wrRecv) { c with pc := .posted (.enter p.tracing) }
  | posting {s s' : SyncPc} {a : Act} (hpc : c.pc = .posted s) (ha : a.outOfBand = true)
      (hs : s.todo = a.session ++ s'.todo) : PingMove p c a { c with pc := .posted s' }
  | posted {s : SyncPc} {a : Act} (hpc : c.pc = .posted s) (ha : a.outOfBand = true)
      (hs : s.todo = a.session) : PingMove p c a (c.next p 0)
  | head {now : ℕ} (hpc : c.pc = .head) :
      PingMove p c (.clock now) { c with pc := .send, t0 := now }
  | send (hpc : c.pc = .send) :
      PingMove p c (.postSend 0 wrSend) { c with pc := .wait (.enter 3) }
  | waiting {w w' : Wait} {a : Act} (hpc : c.pc = .wait w) (hw : WaitMove w a (.inl w')) :
      PingMove p c a { c with pc := .wait w' }
  | waited {w : Wait} {r : WaitEnd} {a : Act} (hpc : c.pc = .wait w)
      (hw : WaitMove w a (.inr r)) : PingMove p c a (c.waited p r)
  | record {now : ℕ} (hpc : c.pc = .record) : PingMove p c (.clock now) (c.recorded p now)
  | repost (hpc : c.pc = .repost) : PingMove p c (.postReceive 0 wrRecv) (c.next p (c.i + 1))
  | finishing {s s' : SyncPc} {a : Act} (hpc : c.pc = .finish s) (ha : a.outOfBand = true)
      (hs : s.todo = a.session ++ s'.todo) : PingMove p c a { c with pc := .finish s' }
  | finished {s : SyncPc} {a : Act} (hpc : c.pc = .finish s) (ha : a.outOfBand = true)
      (hs : s.todo = a.session) : PingMove p c a { c with pc := .done }

/-- **Every step is one of the moves.** -/
theorem PingMove.of_step {p : Setup} {c t : PingCtl} {a : Act} (h : pingStep p c a = some t) :
    c.failed = false ∧ PingMove p c a t := by
  unfold pingStep at h
  split at h
  · exact absurd h (by simp)
  · next hfail =>
    refine ⟨Bool.eq_false_iff.mpr hfail, ?_⟩
    cases hpc : c.pc with
    | warmup s =>
      simp only [hpc] at h
      rcases syncThen_cases h with ⟨s', hs, ha, rfl⟩ | ⟨hs, ha, rfl⟩
      · exact .warming hpc ha hs
      · exact .warmed hpc ha hs
    | sleep =>
      simp only [hpc] at h
      obtain ⟨rfl, rfl⟩ := expect_eq_some.mp h
      exact .sleep hpc
    | settled s =>
      simp only [hpc] at h
      rcases syncThen_cases h with ⟨s', hs, ha, rfl⟩ | ⟨hs, ha, rfl⟩
      · exact .settling hpc ha hs
      · exact .settled hpc ha hs
    | postFirst =>
      simp only [hpc] at h
      obtain ⟨rfl, rfl⟩ := expect_eq_some.mp h
      exact .postFirst hpc
    | posted s =>
      simp only [hpc] at h
      rcases syncThen_cases h with ⟨s', hs, ha, rfl⟩ | ⟨hs, ha, rfl⟩
      · exact .posting hpc ha hs
      · exact .posted hpc ha hs
    | head =>
      simp only [hpc] at h
      split at h
      · rw [← Option.some.inj h]
        exact .head hpc
      · exact absurd h (by simp)
    | send =>
      simp only [hpc] at h
      obtain ⟨rfl, rfl⟩ := expect_eq_some.mp h
      exact .send hpc
    | wait w =>
      simp only [hpc] at h
      obtain ⟨r, hr, rfl⟩ := Option.map_eq_some_iff.mp h
      cases r with
      | inl w' => exact .waiting hpc (.of_step hr)
      | inr r => exact .waited hpc (.of_step hr)
    | record =>
      simp only [hpc] at h
      split at h
      · rw [← Option.some.inj h]
        exact .record hpc
      · exact absurd h (by simp)
    | repost =>
      simp only [hpc] at h
      obtain ⟨rfl, rfl⟩ := expect_eq_some.mp h
      exact .repost hpc
    | finish s =>
      simp only [hpc] at h
      rcases syncThen_cases h with ⟨s', hs, ha, rfl⟩ | ⟨hs, ha, rfl⟩
      · exact .finishing hpc ha hs
      · exact .finished hpc ha hs
    | done =>
      simp only [hpc] at h
      exact absurd h (by simp)

/-- Where `ping` stands among its four syncs. -/
def PingPc.phase : PingPc → Phase
  | .warmup s => .inside 0 s
  | .sleep => .between 1
  | .settled s => .inside 1 s
  | .postFirst => .between 2
  | .posted s => .inside 2 s
  | .head | .send | .wait _ | .record | .repost => .between 3
  | .finish s => .inside 3 s
  | .done => .between 4

/-- The points of `ping` past its loop. -/
def PingPc.past : PingPc → Bool
  | .finish _ | .done => true
  | _ => false

theorem PingPc.phase_entered_le (c : PingPc) : c.phase.entered ≤ 4 := by
  cases c <;> simp [PingPc.phase, Phase.entered]

theorem PingCtl.phase_next (p : Setup) (c : PingCtl) (i : ℕ) :
    (c.next p i).pc.phase = .between 3 ∨ (c.next p i).pc.phase = .inside 3 (.enter p.tracing) := by
  rw [PingCtl.next]
  split
  · exact .inl rfl
  · exact .inr rfl

/-- **A step of `ping` goes through its syncs in order.** -/
theorem PingMove.phase {p : Setup} {c t : PingCtl} {a : Act} (h : PingMove p c a t) :
    Phase.Move 4 c.pc.phase a t.pc.phase := by
  cases h with
  | warming hpc _ hs | settling hpc _ hs | posting hpc _ hs | finishing hpc _ hs =>
    rw [hpc]
    exact .inside hs
  | warmed hpc _ hs | settled hpc _ hs | finished hpc _ hs =>
    rw [hpc]
    exact .leave hs
  | sleep hpc | postFirst hpc =>
    rw [hpc]
    exact .enter _ (by decide) rfl
  | head hpc | send hpc =>
    rw [hpc]
    exact .stay rfl
  | posted hpc _ hs =>
    rw [hpc]
    rcases PingCtl.phase_next p c 0 with hq | hq <;> rw [hq]
    · exact .leave hs
    · exact .through _ (by decide) hs
  | waiting hpc hw =>
    rw [hpc]
    exact .stay hw.session_eq
  | @waited w r a hpc hw =>
    rw [hpc]
    cases r with
    | ok => exact .stay hw.session_eq
    | timedOut => exact .enter _ (by decide) hw.session_eq
    | error =>
      rw [PingCtl.waited, hpc]
      exact .stay hw.session_eq
  | record hpc =>
    rw [hpc, PingCtl.recorded]
    split
    · exact .stay rfl
    · rcases PingCtl.phase_next p _ (c.i + 1) with hq | hq <;> rw [hq]
      · exact .stay rfl
      · exact .enter _ (by decide) rfl
  | repost hpc =>
    rw [hpc]
    rcases PingCtl.phase_next p c (c.i + 1) with hq | hq <;> rw [hq]
    · exact .stay rfl
    · exact .enter _ (by decide) rfl

/-- What `ping` has still to do on the connection. -/
def PingCtl.todo (c : PingCtl) : Session Item := c.pc.phase.todo 4

/-- **`ping` keeps to its session**: four rendezvous, whatever happens between
them. -/
theorem ping_keeps (p : Setup) : Keeps (pingProgram p) PingCtl.todo := by
  intro c a t h
  exact (PingMove.of_step h).2.phase.todo_eq

/-! ## `pong` -/

/-- The program points of `pong`. -/
inductive PongPc where
  | warmup (s : SyncPc)
  | sleep
  | settled (s : SyncPc)
  | postFirst
  | posted (s : SyncPc)
  | wait (w : Wait)
  | send
  | repost
  | finish (s : SyncPc)
  | done
  deriving DecidableEq

/-- A state of `pong`; `turn` counts the turns of its loop. -/
structure PongCtl where
  pc : PongPc
  turn : ℕ := 0
  echoed : ℕ := 0
  deriving DecidableEq

/-- The head of `for _ in 0..iterations`. -/
def PongCtl.next (p : Setup) (c : PongCtl) (turn : ℕ) : PongCtl :=
  if turn < p.iterations then { c with pc := .wait (.enter 2), turn := turn }
  else { c with pc := .finish (.enter p.tracing), turn := turn }

/-- After the wait for a ping: any error ends the loop. -/
def PongCtl.waited (p : Setup) (c : PongCtl) : WaitEnd → PongCtl
  | .ok => { c with pc := .send }
  | .timedOut => { c with pc := .finish (.enter p.tracing) }
  | .error => { c with pc := .finish (.enter p.tracing) }

/-- `latency::pong`, one contact at a time. -/
def pongStep (p : Setup) (c : PongCtl) (a : Act) : Option PongCtl :=
  match c.pc with
  | .warmup s => syncThen p.tracing s a (fun s => { c with pc := .warmup s }) { c with pc := .sleep }
  | .sleep => expect a .skip { c with pc := .settled (.enter p.tracing) }
  | .settled s =>
    syncThen p.tracing s a (fun s => { c with pc := .settled s }) { c with pc := .postFirst }
  | .postFirst => expect a (.postReceive 0 wrRecv) { c with pc := .posted (.enter p.tracing) }
  | .posted s => syncThen p.tracing s a (fun s => { c with pc := .posted s }) (c.next p 0)
  | .wait w => waitThen w a (fun w => { c with pc := .wait w }) (c.waited p)
  | .send => expect a (.postSend 0 wrSend) { c with pc := .repost }
  | .repost =>
    expect a (.postReceive 0 wrRecv) (PongCtl.next p { c with echoed := c.echoed + 1 } (c.turn + 1))
  | .finish s => syncThen p.tracing s a (fun s => { c with pc := .finish s }) { c with pc := .done }
  | .done => none

/-- `latency::pong` as a program. -/
def pongProgram (p : Setup) : Program PongCtl :=
  ⟨{ pc := .warmup (.enter p.tracing) }, pongStep p⟩

/-- One step of `pong`: from which point, by which act, to where. -/
inductive PongMove (p : Setup) (c : PongCtl) : Act → PongCtl → Prop
  | warming {s s' : SyncPc} {a : Act} (hpc : c.pc = .warmup s) (ha : a.outOfBand = true)
      (hs : s.todo = a.session ++ s'.todo) : PongMove p c a { c with pc := .warmup s' }
  | warmed {s : SyncPc} {a : Act} (hpc : c.pc = .warmup s) (ha : a.outOfBand = true)
      (hs : s.todo = a.session) : PongMove p c a { c with pc := .sleep }
  | sleep (hpc : c.pc = .sleep) : PongMove p c .skip { c with pc := .settled (.enter p.tracing) }
  | settling {s s' : SyncPc} {a : Act} (hpc : c.pc = .settled s) (ha : a.outOfBand = true)
      (hs : s.todo = a.session ++ s'.todo) : PongMove p c a { c with pc := .settled s' }
  | settled {s : SyncPc} {a : Act} (hpc : c.pc = .settled s) (ha : a.outOfBand = true)
      (hs : s.todo = a.session) : PongMove p c a { c with pc := .postFirst }
  | postFirst (hpc : c.pc = .postFirst) :
      PongMove p c (.postReceive 0 wrRecv) { c with pc := .posted (.enter p.tracing) }
  | posting {s s' : SyncPc} {a : Act} (hpc : c.pc = .posted s) (ha : a.outOfBand = true)
      (hs : s.todo = a.session ++ s'.todo) : PongMove p c a { c with pc := .posted s' }
  | posted {s : SyncPc} {a : Act} (hpc : c.pc = .posted s) (ha : a.outOfBand = true)
      (hs : s.todo = a.session) : PongMove p c a (c.next p 0)
  | waiting {w w' : Wait} {a : Act} (hpc : c.pc = .wait w) (hw : WaitMove w a (.inl w')) :
      PongMove p c a { c with pc := .wait w' }
  | waited {w : Wait} {r : WaitEnd} {a : Act} (hpc : c.pc = .wait w)
      (hw : WaitMove w a (.inr r)) : PongMove p c a (c.waited p r)
  | send (hpc : c.pc = .send) : PongMove p c (.postSend 0 wrSend) { c with pc := .repost }
  | repost (hpc : c.pc = .repost) :
      PongMove p c (.postReceive 0 wrRecv)
        (PongCtl.next p { c with echoed := c.echoed + 1 } (c.turn + 1))
  | finishing {s s' : SyncPc} {a : Act} (hpc : c.pc = .finish s) (ha : a.outOfBand = true)
      (hs : s.todo = a.session ++ s'.todo) : PongMove p c a { c with pc := .finish s' }
  | finished {s : SyncPc} {a : Act} (hpc : c.pc = .finish s) (ha : a.outOfBand = true)
      (hs : s.todo = a.session) : PongMove p c a { c with pc := .done }

/-- **Every step is one of the moves.** -/
theorem PongMove.of_step {p : Setup} {c t : PongCtl} {a : Act} (h : pongStep p c a = some t) :
    PongMove p c a t := by
  unfold pongStep at h
  cases hpc : c.pc with
  | warmup s =>
    simp only [hpc] at h
    rcases syncThen_cases h with ⟨s', hs, ha, rfl⟩ | ⟨hs, ha, rfl⟩
    · exact .warming hpc ha hs
    · exact .warmed hpc ha hs
  | sleep =>
    simp only [hpc] at h
    obtain ⟨rfl, rfl⟩ := expect_eq_some.mp h
    exact .sleep hpc
  | settled s =>
    simp only [hpc] at h
    rcases syncThen_cases h with ⟨s', hs, ha, rfl⟩ | ⟨hs, ha, rfl⟩
    · exact .settling hpc ha hs
    · exact .settled hpc ha hs
  | postFirst =>
    simp only [hpc] at h
    obtain ⟨rfl, rfl⟩ := expect_eq_some.mp h
    exact .postFirst hpc
  | posted s =>
    simp only [hpc] at h
    rcases syncThen_cases h with ⟨s', hs, ha, rfl⟩ | ⟨hs, ha, rfl⟩
    · exact .posting hpc ha hs
    · exact .posted hpc ha hs
  | wait w =>
    simp only [hpc] at h
    obtain ⟨r, hr, rfl⟩ := Option.map_eq_some_iff.mp h
    cases r with
    | inl w' => exact .waiting hpc (.of_step hr)
    | inr r => exact .waited hpc (.of_step hr)
  | send =>
    simp only [hpc] at h
    obtain ⟨rfl, rfl⟩ := expect_eq_some.mp h
    exact .send hpc
  | repost =>
    simp only [hpc] at h
    obtain ⟨rfl, rfl⟩ := expect_eq_some.mp h
    exact .repost hpc
  | finish s =>
    simp only [hpc] at h
    rcases syncThen_cases h with ⟨s', hs, ha, rfl⟩ | ⟨hs, ha, rfl⟩
    · exact .finishing hpc ha hs
    · exact .finished hpc ha hs
  | done =>
    simp only [hpc] at h
    exact absurd h (by simp)

/-- Where `pong` stands among its four syncs. -/
def PongPc.phase : PongPc → Phase
  | .warmup s => .inside 0 s
  | .sleep => .between 1
  | .settled s => .inside 1 s
  | .postFirst => .between 2
  | .posted s => .inside 2 s
  | .wait _ | .send | .repost => .between 3
  | .finish s => .inside 3 s
  | .done => .between 4

/-- The points of `pong` past its loop. -/
def PongPc.past : PongPc → Bool
  | .finish _ | .done => true
  | _ => false

/-- The points of `pong` up to its first receive. -/
def PongPc.before : PongPc → Bool
  | .warmup _ | .sleep | .settled _ | .postFirst => true
  | _ => false

theorem PongPc.phase_entered_le (c : PongPc) : c.phase.entered ≤ 4 := by
  cases c <;> simp [PongPc.phase, Phase.entered]

/-- A server short of its first receive has entered two syncs at most. -/
theorem PongPc.entered_of_before {c : PongPc} (h : c.before = true) : c.phase.entered ≤ 2 := by
  cases c with
  | warmup | sleep | settled | postFirst => simp only [PongPc.phase, Phase.entered]; omega
  | _ => exact absurd h Bool.noConfusion

theorem PongCtl.phase_next (p : Setup) (c : PongCtl) (turn : ℕ) :
    (c.next p turn).pc.phase = .between 3 ∨
      (c.next p turn).pc.phase = .inside 3 (.enter p.tracing) := by
  rw [PongCtl.next]
  split
  · exact .inl rfl
  · exact .inr rfl

/-- **A step of `pong` goes through its syncs in order.** -/
theorem PongMove.phase {p : Setup} {c t : PongCtl} {a : Act} (h : PongMove p c a t) :
    Phase.Move 4 c.pc.phase a t.pc.phase := by
  cases h with
  | warming hpc _ hs | settling hpc _ hs | posting hpc _ hs | finishing hpc _ hs =>
    rw [hpc]
    exact .inside hs
  | warmed hpc _ hs | settled hpc _ hs | finished hpc _ hs =>
    rw [hpc]
    exact .leave hs
  | sleep hpc | postFirst hpc =>
    rw [hpc]
    exact .enter _ (by decide) rfl
  | send hpc =>
    rw [hpc]
    exact .stay rfl
  | posted hpc _ hs =>
    rw [hpc]
    rcases PongCtl.phase_next p c 0 with hq | hq <;> rw [hq]
    · exact .leave hs
    · exact .through _ (by decide) hs
  | waiting hpc hw =>
    rw [hpc]
    exact .stay hw.session_eq
  | @waited w r a hpc hw =>
    rw [hpc]
    cases r with
    | ok => exact .stay hw.session_eq
    | timedOut | error => exact .enter _ (by decide) hw.session_eq
  | repost hpc =>
    rcases PongCtl.phase_next p { c with echoed := c.echoed + 1 } (c.turn + 1) with hq | hq <;>
      rw [hq, hpc]
    · exact .stay rfl
    · exact .enter _ (by decide) rfl

/-- What `pong` has still to do on the connection. -/
def PongCtl.todo (c : PongCtl) : Session Item := c.pc.phase.todo 4

/-- **`pong` keeps to its session.** -/
theorem pong_keeps (p : Setup) : Keeps (pongProgram p) PongCtl.todo := by
  intro c a t h
  exact (PongMove.of_step h).phase.todo_eq

end Latency
end RdmaBench
