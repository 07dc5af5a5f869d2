import RdmaBench.Accuracy.Check
import RdmaBench.Conn

/-!
# The two sides of an accuracy run, as programs

`accuracy::send` and `accuracy::receive` as automata over their contacts.  A
state is a program point with the local variables that are live there; `?` on a
failed completion sets `failed`, and a failed program does not move.

A `for` loop whose body is several calls has a point for each call.  `prefill` is
the head of the loop that fills the window, `refill` the head of the loop that
runs once per completion: a turn that finds everything posted does nothing, and
neither do the turns after it, so `refill` goes straight on.

`SendMove` and `RecvMove` list what one step can do, one constructor for each
point and outcome, and `SendMove.of_step` and `RecvMove.of_step` say that the
list is complete.  Everything else about the programs is by cases on a move.
-/

namespace RdmaBench
namespace Accuracy

open Automaton

/-- What `run` hands to either side. -/
structure Setup where
  tracing : Bool
  msgSize : ℕ
  iterations : ℕ
  window : ℕ

/-- The window of a side, from the depth of the queue it drives. -/
def window (role : Role) (txDepth rxDepth iterations : ℕ) : ℕ :=
  match role with
  | .client => min (max txDepth 1) iterations
  | .server => min (max rxDepth 1) iterations

/-! ## The sender -/

/-- The program points of `send`. -/
inductive SendPc where
  | waitReceives (s : SyncPc)
  /-- About to fill slot `seq` of the initial window. -/
  | prefillFill (seq : ℕ)
  | prefillPost (seq : ℕ)
  | head
  /-- About to refill a slot, with `left` turns of the loop to come after. -/
  | refillFill (left : ℕ)
  | refillPost (left : ℕ)
  | sendsCompleted (s : SyncPc)
  | recvReport
  | done
  deriving DecidableEq

/-- A state of `send`. -/
structure SendCtl where
  pc : SendPc
  posted : ℕ := 0
  completed : ℕ := 0
  failed : Bool := false
  deriving DecidableEq

/-- The head of `for seq in 0..window`. -/
def SendCtl.prefill (p : Setup) (c : SendCtl) (seq : ℕ) : SendCtl :=
  if seq < p.window then { c with pc := .prefillFill seq }
  else { c with pc := .head, posted := p.window }

/-- The head of `for _ in 0..n`, with `left` turns to go. -/
def SendCtl.refill (p : Setup) (c : SendCtl) (left : ℕ) : SendCtl :=
  if 0 < left ∧ c.posted < p.iterations then { c with pc := .refillFill (left - 1) }
  else { c with pc := .head }

/-- `accuracy::send`, one contact at a time. -/
def sendStep (p : Setup) (c : SendCtl) (a : Act) : Option SendCtl :=
  if c.failed then none
  else match c.pc with
    | .waitReceives s =>
      syncThen p.tracing s a (fun s => { c with pc := .waitReceives s }) (c.prefill p 0)
    | .prefillFill seq => expect a (.fill seq seq) { c with pc := .prefillPost seq }
    | .prefillPost seq => expect a (.postSend seq seq) (c.prefill p (seq + 1))
    | .head =>
      if c.completed < p.iterations then
        match a with
        | .poll wcs =>
          if wcs.length ≤ p.window then
            if completionError wcs then some { c with failed := true }
            else some ({ c with completed := c.completed + wcs.length }.refill p wcs.length)
          else none
        | _ => none
      else expect a .skip { c with pc := .sendsCompleted (.enter p.tracing) }
    | .refillFill left =>
      expect a (.fill (c.posted % p.window) c.posted) { c with pc := .refillPost left }
    | .refillPost left =>
      expect a (.postSend (c.posted % p.window) c.posted)
        ({ c with posted := c.posted + 1 }.refill p left)
    | .sendsCompleted s =>
      syncThen p.tracing s a (fun s => { c with pc := .sendsCompleted s }) { c with pc := .recvReport }
    | .recvReport => expect a (.read .accuracyReport) { c with pc := .done }
    | .done => none

/-- `accuracy::send` as a program. -/
def sendProgram (p : Setup) : Program SendCtl where
  init := { pc := .waitReceives (.enter p.tracing) }
  step := sendStep p

/-- One step of `send`: from which point, by which act, to where. -/
inductive SendMove (p : Setup) (c : SendCtl) : Act → SendCtl → Prop
  | waiting {s s' : SyncPc} {a : Act} (hpc : c.pc = .waitReceives s)
      (ha : a.outOfBand = true) (hs : s.todo = a.session ++ s'.todo) :
      SendMove p c a { c with pc := .waitReceives s' }
  | waited {s : SyncPc} {a : Act} (hpc : c.pc = .waitReceives s) (ha : a.outOfBand = true)
      (hs : s.todo = a.session) : SendMove p c a (c.prefill p 0)
  | prefillFill {seq : ℕ} (hpc : c.pc = .prefillFill seq) :
      SendMove p c (.fill seq seq) { c with pc := .prefillPost seq }
  | prefillPost {seq : ℕ} (hpc : c.pc = .prefillPost seq) :
      SendMove p c (.postSend seq seq) (c.prefill p (seq + 1))
  | poll {wcs : List Wc} (hpc : c.pc = .head) (hlt : c.completed < p.iterations)
      (hlen : wcs.length ≤ p.window) (hok : completionError wcs = false) :
      SendMove p c (.poll wcs)
        ({ c with completed := c.completed + wcs.length }.refill p wcs.length)
  | pollError {wcs : List Wc} (hpc : c.pc = .head) (hlt : c.completed < p.iterations)
      (herr : completionError wcs = true) : SendMove p c (.poll wcs) { c with failed := true }
  | leave (hpc : c.pc = .head) (hge : p.iterations ≤ c.completed) :
      SendMove p c .skip { c with pc := .sendsCompleted (.enter p.tracing) }
  | refillFill {left : ℕ} (hpc : c.pc = .refillFill left) :
      SendMove p c (.fill (c.posted % p.window) c.posted) { c with pc := .refillPost left }
  | refillPost {left : ℕ} (hpc : c.pc = .refillPost left) :
      SendMove p c (.postSend (c.posted % p.window) c.posted)
        ({ c with posted := c.posted + 1 }.refill p left)
  | completing {s s' : SyncPc} {a : Act} (hpc : c.pc = .sendsCompleted s)
      (ha : a.outOfBand = true) (hs : s.todo = a.session ++ s'.todo) :
      SendMove p c a { c with pc := .sendsCompleted s' }
  | completed {s : SyncPc} {a : Act} (hpc : c.pc = .sendsCompleted s) (ha : a.outOfBand = true)
      (hs : s.todo = a.session) : SendMove p c a { c with pc := .recvReport }
  | recvReport (hpc : c.pc = .recvReport) :
      SendMove p c (.read .accuracyReport) { c with pc := .done }

/-- **Every step is one of the moves.** -/
theorem SendMove.of_step {p : Setup} {c t : SendCtl} {a : Act} (h : sendStep p c a = some t) :
    SendMove p c a t := by
  unfold sendStep at h
  split at h
  · exact absurd h (by simp)
  · cases hpc : c.pc with
    | waitReceives s =>
      simp only [hpc] at h
      rcases syncThen_cases h with ⟨s', hs, ha, rfl⟩ | ⟨hs, ha, rfl⟩
      · exact .waiting hpc ha hs
      · exact .waited hpc ha hs
    | prefillFill seq =>
      simp only [hpc] at h
      obtain ⟨rfl, rfl⟩ := expect_eq_some.mp h
      exact .prefillFill hpc
    | prefillPost seq =>
      simp only [hpc] at h
      obtain ⟨rfl, rfl⟩ := expect_eq_some.mp h
      exact .prefillPost hpc
    | head =>
      simp only [hpc] at h
      split at h
      · next hlt =>
        split at h
        · next wcs =>
          split at h
          · next hlen =>
            split at h
            · next herr =>
              rw [← Option.some.inj h, ← hpc]
              exact .pollError hpc hlt herr
            · next hok =>
              rw [← Option.some.inj h]
              exact .poll hpc hlt hlen (Bool.eq_false_iff.mpr hok)
          · exact absurd h (by simp)
        · exact absurd h (by simp)
      · next hge =>
        obtain ⟨rfl, rfl⟩ := expect_eq_some.mp h
        exact .leave hpc (Nat.not_lt.mp hge)
    | refillFill left =>
      simp only [hpc] at h
      obtain ⟨rfl, rfl⟩ := expect_eq_some.mp h
      exact .refillFill hpc
    | refillPost left =>
      simp only [hpc] at h
      obtain ⟨rfl, rfl⟩ := expect_eq_some.mp h
      exact .refillPost hpc
    | sendsCompleted s =>
      simp only [hpc] at h
      rcases syncThen_cases h with ⟨s', hs, ha, rfl⟩ | ⟨hs, ha, rfl⟩
      · exact .completing hpc ha hs
      · exact .completed hpc ha hs
    | recvReport =>
      simp only [hpc] at h
      obtain ⟨rfl, rfl⟩ := expect_eq_some.mp h
      exact .recvReport hpc
    | done =>
      simp only [hpc] at h
      exact absurd h (by simp)

/-! ## The receiver -/

/-- The program points of `receive`.  A batch is carried as the source carries
it: the slot and the length of each message. -/
inductive RecvPc where
  | prefill (slot : ℕ)
  | receivesPosted (s : SyncPc)
  /-- About to read the clock for the first time. -/
  | start
  | head
  /-- After an empty poll. -/
  | idle
  /-- After a poll that returned something. -/
  | progress (batch : List (ℕ × ℕ))
  /-- About to look at a message, with the rest of the batch to come. -/
  | inspect (slot len : ℕ) (rest : List (ℕ × ℕ))
  | repost (slot : ℕ) (rest : List (ℕ × ℕ))
  | checkingDone (s : SyncPc)
  | sendReport
  | done
  deriving DecidableEq

/-- A state of `receive`. -/
structure RecvCtl where
  pc : RecvPc
  checker : Checker
  lastProgress : ℕ := 0
  failed : Bool := false
  deriving DecidableEq

/-- The head of `for slot in 0..window`. -/
def RecvCtl.prefill (p : Setup) (c : RecvCtl) (slot : ℕ) : RecvCtl :=
  if slot < p.window then { c with pc := .prefill slot }
  else { c with pc := .receivesPosted (.enter p.tracing) }

/-- The head of `for &(slot, len) in &batch`. -/
def RecvCtl.next (c : RecvCtl) : List (ℕ × ℕ) → RecvCtl
  | [] => { c with pc := .head }
  | (slot, len) :: rest => { c with pc := .inspect slot len rest }

/-- Leaving the loop: what was not seen is lost. -/
def RecvCtl.leave (p : Setup) (c : RecvCtl) : RecvCtl :=
  { c with
    pc := .checkingDone (.enter p.tracing)
    checker := { c.checker with report :=
      { c.checker.report with lost := c.checker.seen.countP fun s => !s } } }

/-- `accuracy::receive`, one contact at a time. -/
def recvStep (p : Setup) (c : RecvCtl) (a : Act) : Option RecvCtl :=
  if c.failed then none
  else match c.pc with
    | .prefill slot => expect a (.postReceive slot slot) (c.prefill p (slot + 1))
    | .receivesPosted s =>
      syncThen p.tracing s a (fun s => { c with pc := .receivesPosted s }) { c with pc := .start }
    | .start =>
      match a with
      | .clock now => some { c with pc := .head, lastProgress := now }
      | _ => none
    | .head =>
      if c.checker.report.received < p.iterations then
        match a with
        | .poll wcs =>
          if wcs.length ≤ p.window then
            if completionError wcs then some { c with failed := true }
            else if wcs.isEmpty then some { c with pc := .idle }
            else some { c with pc := .progress (wcs.map fun w => (w.wrId, w.len)) }
          else none
        | _ => none
      else expect a .skip (c.leave p)
    | .idle =>
      match a with
      | .clock now =>
        if idleTimeout ≤ now - c.lastProgress then some (c.leave p)
        else some { c with pc := .head }
      | _ => none
    | .progress batch =>
      match a with
      | .clock now =>
        some ({ c with
          lastProgress := now
          checker := c.checker.addReceived batch.length }.next batch)
      | _ => none
    | .inspect slot len rest =>
      match a with
      | .inspect s got =>
        if s = slot ∧ got.length = min len p.msgSize then
          some { c with pc := .repost slot rest, checker := check got p.msgSize c.checker }
        else none
      | _ => none
    | .repost slot rest => expect a (.postReceive slot slot) (c.next rest)
    | .checkingDone s =>
      syncThen p.tracing s a (fun s => { c with pc := .checkingDone s }) { c with pc := .sendReport }
    | .sendReport => expect a (.write .accuracyReport) { c with pc := .done }
    | .done => none

/-- `accuracy::receive` as a program. -/
def recvProgram (p : Setup) : Program RecvCtl where
  init := RecvCtl.prefill p
    { pc := .prefill 0, checker := Checker.fresh p.msgSize p.iterations } 0
  step := recvStep p

/-- One step of `receive`: from which point, by which act, to where. -/
inductive RecvMove (p : Setup) (c : RecvCtl) : Act → RecvCtl → Prop
  | prefill {slot : ℕ} (hpc : c.pc = .prefill slot) :
      RecvMove p c (.postReceive slot slot) (c.prefill p (slot + 1))
  | posting {s s' : SyncPc} {a : Act} (hpc : c.pc = .receivesPosted s)
      (ha : a.outOfBand = true) (hs : s.todo = a.session ++ s'.todo) :
      RecvMove p c a { c with pc := .receivesPosted s' }
  | posted {s : SyncPc} {a : Act} (hpc : c.pc = .receivesPosted s) (ha : a.outOfBand = true)
      (hs : s.todo = a.session) : RecvMove p c a { c with pc := .start }
  | start {now : ℕ} (hpc : c.pc = .start) :
      RecvMove p c (.clock now) { c with pc := .head, lastProgress := now }
  | pollEmpty (hpc : c.pc = .head) (hlt : c.checker.report.received < p.iterations) :
      RecvMove p c (.poll []) { c with pc := .idle }
  | poll {wcs : List Wc} (hpc : c.pc = .head) (hlt : c.checker.report.received < p.iterations)
      (hlen : wcs.length ≤ p.window) (hok : completionError wcs = false) (hne : wcs ≠ []) :
      RecvMove p c (.poll wcs) { c with pc := .progress (wcs.map fun w => (w.wrId, w.len)) }
  | pollError {wcs : List Wc} (hpc : c.pc = .head)
      (hlt : c.checker.report.received < p.iterations) (herr : completionError wcs = true) :
      RecvMove p c (.poll wcs) { c with failed := true }
  | leave (hpc : c.pc = .head) (hge : p.iterations ≤ c.checker.report.received) :
      RecvMove p c .skip (c.leave p)
  | timedOut {now : ℕ} (hpc : c.pc = .idle) (ht : idleTimeout ≤ now - c.lastProgress) :
      RecvMove p c (.clock now) (c.leave p)
  | retry {now : ℕ} (hpc : c.pc = .idle) : RecvMove p c (.clock now) { c with pc := .head }
  | progress {batch : List (ℕ × ℕ)} {now : ℕ} (hpc : c.pc = .progress batch) :
      RecvMove p c (.clock now)
        ({ c with
          lastProgress := now
          checker := c.checker.addReceived batch.length }.next batch)
  | inspect {slot len : ℕ} {rest : List (ℕ × ℕ)} {got : List UInt8}
      (hpc : c.pc = .inspect slot len rest) (hlen : got.length = min len p.msgSize) :
      RecvMove p c (.inspect slot got)
        { c with pc := .repost slot rest, checker := check got p.msgSize c.checker }
  | repost {slot : ℕ} {rest : List (ℕ × ℕ)} (hpc : c.pc = .repost slot rest) :
      RecvMove p c (.postReceive slot slot) (c.next rest)
  | finishing {s s' : SyncPc} {a : Act} (hpc : c.pc = .checkingDone s)
      (ha : a.outOfBand = true) (hs : s.todo = a.session ++ s'.todo) :
      RecvMove p c a { c with pc := .checkingDone s' }
  | finished {s : SyncPc} {a : Act} (hpc : c.pc = .checkingDone s) (ha : a.outOfBand = true)
      (hs : s.todo = a.session) : RecvMove p c a { c with pc := .sendReport }
  | sendReport (hpc : c.pc = .sendReport) :
      RecvMove p c (.write .accuracyReport) { c with pc := .done }

/-- **Every step is one of the moves.** -/
theorem RecvMove.of_step {p : Setup} {c t : RecvCtl} {a : Act} (h : recvStep p c a = some t) :
    RecvMove p c a t := by
  unfold recvStep at h
  split at h
  · exact absurd h (by simp)
  · cases hpc : c.pc with
    | prefill slot =>
      simp only [hpc] at h
      obtain ⟨rfl, rfl⟩ := expect_eq_some.mp h
      exact .prefill hpc
    | receivesPosted s =>
      simp only [hpc] at h
      rcases syncThen_cases h with ⟨s', hs, ha, rfl⟩ | ⟨hs, ha, rfl⟩
      · exact .posting hpc ha hs
      · exact .posted hpc ha hs
    | start =>
      simp only [hpc] at h
      split at h
      · rw [← Option.some.inj h]
        exact .start hpc
      · exact absurd h (by simp)
    | head =>
      simp only [hpc] at h
      split at h
      · next hlt =>
        split at h
        · next wcs =>
          split at h
          · next hlen =>
            split at h
            · next herr =>
              rw [← Option.some.inj h, ← hpc]
              exact .pollError hpc hlt herr
            · next hok =>
              split at h
              · next hempty =>
                rw [← Option.some.inj h, List.isEmpty_iff.mp hempty]
                exact .pollEmpty hpc hlt
              · next hne =>
                rw [← Option.some.inj h]
                exact .poll hpc hlt hlen (Bool.eq_false_iff.mpr hok)
                  (mt List.isEmpty_iff.mpr hne)
          · exact absurd h (by simp)
        · exact absurd h (by simp)
      · next hge =>
        obtain ⟨rfl, rfl⟩ := expect_eq_some.mp h
        exact .leave hpc (Nat.not_lt.mp hge)
    | idle =>
      simp only [hpc] at h
      split at h
      · split at h
        · next ht =>
          rw [← Option.some.inj h]
          exact .timedOut hpc ht
        · rw [← Option.some.inj h]
          exact .retry hpc
      · exact absurd h (by simp)
    | progress batch =>
      simp only [hpc] at h
      split at h
      · rw [← Option.some.inj h]
        exact .progress hpc
      · exact absurd h (by simp)
    | inspect slot len rest =>
      simp only [hpc] at h
      split at h
      · split at h
        · next heq =>
          rw [← Option.some.inj h, heq.1]
          exact .inspect hpc heq.2
        · exact absurd h (by simp)
      · exact absurd h (by simp)
    | repost slot rest =>
      simp only [hpc] at h
      obtain ⟨rfl, rfl⟩ := expect_eq_some.mp h
      exact .repost hpc
    | checkingDone s =>
      simp only [hpc] at h
      rcases syncThen_cases h with ⟨s', hs, ha, rfl⟩ | ⟨hs, ha, rfl⟩
      · exact .finishing hpc ha hs
      · exact .finished hpc ha hs
    | sendReport =>
      simp only [hpc] at h
      obtain ⟨rfl, rfl⟩ := expect_eq_some.mp h
      exact .sendReport hpc
    | done =>
      simp only [hpc] at h
      exact absurd h (by simp)

end Accuracy
end RdmaBench
