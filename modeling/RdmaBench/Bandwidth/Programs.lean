import RdmaBench.Connection.Duo

/-!
# The two sides of a bandwidth run, as programs

`bandwidth::send` and `bandwidth::receive`.  Both keep a window of work requests
posted and post one more for each completion; the id of a request is its number.
The receiver posts its window between its second and its third `sync`, the sender
after its third, so three barriers stand before the first send.  The receiver gives
up after an idle timeout, the sender never does.

The whole buffer is one slot here, slot `0`.
-/

namespace RdmaBench
namespace Bandwidth

open Automaton

/-- What `run` hands to either side. -/
structure Setup where
  tracing : Bool
  iterations : ℕ
  txDepth : ℕ
  rxDepth : ℕ

/-! ## The receiver -/

/-- The program points of `receive`. -/
inductive RecvPc where
  | warmup (s : SyncPc)
  | sleep
  | settled (s : SyncPc)
  /-- About to post receive `i` of the window. -/
  | prefill (i : ℕ)
  | receivesPosted (s : SyncPc)
  /-- About to read the clock for the first time. -/
  | start
  | head
  /-- After an empty poll. -/
  | idle
  /-- After a poll of `n` completions. -/
  | progress (n : ℕ)
  /-- About to post one more, with `left` turns of the loop to come after. -/
  | refill (left : ℕ)
  | drained (s : SyncPc)
  | done
  deriving DecidableEq

/-- A state of `receive`. -/
structure RecvCtl where
  pc : RecvPc
  posted : ℕ := 0
  completed : ℕ := 0
  lastProgress : ℕ := 0
  failed : Bool := false
  deriving DecidableEq

/-- The number of receives posted ahead. -/
def Setup.recvWindow (p : Setup) : ℕ := min p.rxDepth p.iterations

/-- The head of `for i in 0..window`. -/
def RecvCtl.prefill (p : Setup) (c : RecvCtl) (i : ℕ) : RecvCtl :=
  if i < p.recvWindow then { c with pc := .prefill i }
  else { c with pc := .receivesPosted (.enter p.tracing), posted := p.recvWindow }

/-- The head of `for _ in 0..n`, with `left` turns to go. -/
def RecvCtl.refill (p : Setup) (c : RecvCtl) (left : ℕ) : RecvCtl :=
  if 0 < left ∧ c.posted < p.iterations then { c with pc := .refill (left - 1) }
  else { c with pc := .head }

/-- Leaving the loop. -/
def RecvCtl.leave (p : Setup) (c : RecvCtl) : RecvCtl :=
  { c with pc := .drained (.enter p.tracing) }

/-- `bandwidth::receive`, one contact at a time. -/
def recvStep (p : Setup) (c : RecvCtl) (a : Act) : Option RecvCtl :=
  if c.failed then none
  else match c.pc with
    | .warmup s => syncThen p.tracing s a (fun s => { c with pc := .warmup s }) { c with pc := .sleep }
    | .sleep => expect a .skip { c with pc := .settled (.enter p.tracing) }
    | .settled s =>
      syncThen p.tracing s a (fun s => { c with pc := .settled s }) (c.prefill p 0)
    | .prefill i => expect a (.postReceive 0 i) (c.prefill p (i + 1))
    | .receivesPosted s =>
      syncThen p.tracing s a (fun s => { c with pc := .receivesPosted s }) { c with pc := .start }
    | .start =>
      match a with
      | .clock now => some { c with pc := .head, lastProgress := now }
      | _ => none
    | .head =>
      if c.completed < p.iterations then
        match a with
        | .poll wcs =>
          if wcs.length ≤ max p.rxDepth 1 then
            if completionError wcs then some { c with failed := true }
            else if wcs.isEmpty then some { c with pc := .idle }
            else some { c with pc := .progress wcs.length }
          else none
        | _ => none
      else expect a .skip (c.leave p)
    | .idle =>
      match a with
      | .clock now =>
        if idleTimeout ≤ now - c.lastProgress then some (c.leave p)
        else some { c with pc := .head }
      | _ => none
    | .progress n =>
      match a with
      | .clock now =>
        some ({ c with lastProgress := now, completed := c.completed + n }.refill p n)
      | _ => none
    | .refill left =>
      expect a (.postReceive 0 c.posted) ({ c with posted := c.posted + 1 }.refill p left)
    | .drained s =>
      syncThen p.tracing s a (fun s => { c with pc := .drained s }) { c with pc := .done }
    | .done => none

/-- `bandwidth::receive` as a program. -/
def recvProgram (p : Setup) : Program RecvCtl where
  init := { pc := .warmup (.enter p.tracing) }
  step := recvStep p

/-- One step of `receive`: from which point, by which act, to where. -/
inductive RecvMove (p : Setup) (c : RecvCtl) : Act → RecvCtl → Prop
  | warming {s s' : SyncPc} {a : Act} (hpc : c.pc = .warmup s) (ha : a.outOfBand = true)
      (hs : s.todo = a.session ++ s'.todo) : RecvMove p c a { c with pc := .warmup s' }
  | warmed {s : SyncPc} {a : Act} (hpc : c.pc = .warmup s) (ha : a.outOfBand = true)
      (hs : s.todo = a.session) : RecvMove p c a { c with pc := .sleep }
  | sleep (hpc : c.pc = .sleep) : RecvMove p c .skip { c with pc := .settled (.enter p.tracing) }
  | settling {s s' : SyncPc} {a : Act} (hpc : c.pc = .settled s) (ha : a.outOfBand = true)
      (hs : s.todo = a.session ++ s'.todo) : RecvMove p c a { c with pc := .settled s' }
  | settled {s : SyncPc} {a : Act} (hpc : c.pc = .settled s) (ha : a.outOfBand = true)
      (hs : s.todo = a.session) : RecvMove p c a (c.prefill p 0)
  | prefill {i : ℕ} (hpc : c.pc = .prefill i) :
      RecvMove p c (.postReceive 0 i) (c.prefill p (i + 1))
  | posting {s s' : SyncPc} {a : Act} (hpc : c.pc = .receivesPosted s) (ha : a.outOfBand = true)
      (hs : s.todo = a.session ++ s'.todo) : RecvMove p c a { c with pc := .receivesPosted s' }
  | posted {s : SyncPc} {a : Act} (hpc : c.pc = .receivesPosted s) (ha : a.outOfBand = true)
      (hs : s.todo = a.session) : RecvMove p c a { c with pc := .start }
  | start {now : ℕ} (hpc : c.pc = .start) :
      RecvMove p c (.clock now) { c with pc := .head, lastProgress := now }
  | pollEmpty (hpc : c.pc = .head) (hlt : c.completed < p.iterations) :
      RecvMove p c (.poll []) { c with pc := .idle }
  | poll {wcs : List Wc} (hpc : c.pc = .head) (hlt : c.completed < p.iterations)
      (hlen : wcs.length ≤ max p.rxDepth 1) (hok : completionError wcs = false) (hne : wcs ≠ []) :
      RecvMove p c (.poll wcs) { c with pc := .progress wcs.length }
  | pollError {wcs : List Wc} (hpc : c.pc = .head) (hlt : c.completed < p.iterations)
      (herr : completionError wcs = true) : RecvMove p c (.poll wcs) { c with failed := true }
  | leave (hpc : c.pc = .head) (hge : p.iterations ≤ c.completed) : RecvMove p c .skip (c.leave p)
  | timedOut {now : ℕ} (hpc : c.pc = .idle) (ht : idleTimeout ≤ now - c.lastProgress) :
      RecvMove p c (.clock now) (c.leave p)
  | retry {now : ℕ} (hpc : c.pc = .idle) : RecvMove p c (.clock now) { c with pc := .head }
  | progress {n now : ℕ} (hpc : c.pc = .progress n) :
      RecvMove p c (.clock now)
        ({ c with lastProgress := now, completed := c.completed + n }.refill p n)
  | refill {left : ℕ} (hpc : c.pc = .refill left) :
      RecvMove p c (.postReceive 0 c.posted) ({ c with posted := c.posted + 1 }.refill p left)
  | draining {s s' : SyncPc} {a : Act} (hpc : c.pc = .drained s) (ha : a.outOfBand = true)
      (hs : s.todo = a.session ++ s'.todo) : RecvMove p c a { c with pc := .drained s' }
  | drained {s : SyncPc} {a : Act} (hpc : c.pc = .drained s) (ha : a.outOfBand = true)
      (hs : s.todo = a.session) : RecvMove p c a { c with pc := .done }

/-- **Every step is one of the moves.** -/
theorem RecvMove.of_step {p : Setup} {c t : RecvCtl} {a : Act} (h : recvStep p c a = some t) :
    RecvMove p c a t := by
  unfold recvStep at h
  split at h
  · exact absurd h (by simp)
  · cases hpc : c.pc with
    | warmup s =>
      simp only [hpc] at h
      rcases syncThen_cases h with ⟨s', hs, ha, rfl⟩ | ⟨hs, ha, rfl⟩
      · exact .warming hpc ha hs
      · exact .warmed hpc ha hs
    | sleep =>
      simp only [hpc] at h
      obtain ⟨rfl, rfl⟩ := expect_eq_some.mp h
      exact .sleep hpc
    | settled s =>
      simp only [hpc] at h
      rcases syncThen_cases h with ⟨s', hs, ha, rfl⟩ | ⟨hs, ha, rfl⟩
      · exact .settling hpc ha hs
      · exact .settled hpc ha hs
    | prefill i =>
      simp only [hpc] at h
      obtain ⟨rfl, rfl⟩ := expect_eq_some.mp h
      exact .prefill hpc
    | receivesPosted s =>
      simp only [hpc] at h
      rcases syncThen_cases h with ⟨s', hs, ha, rfl⟩ | ⟨hs, ha, rfl⟩
      · exact .posting hpc ha hs
      · exact .posted hpc ha hs
    | start =>
      simp only [hpc] at h
      split at h
      · rw [← Option.some.inj h]
        exact .start hpc
      · exact absurd h (by simp)
    | head =>
      simp only [hpc] at h
      split at h
      · next hlt =>
        split at h
        · next wcs =>
          split at h
          · next hlen =>
            split at h
            · next herr =>
              rw [← Option.some.inj h, ← hpc]
              exact .pollError hpc hlt herr
            · next hok =>
              split at h
              · next hempty =>
                rw [← Option.some.inj h, List.isEmpty_iff.mp hempty]
                exact .pollEmpty hpc hlt
              · next hempty =>
                rw [← Option.some.inj h]
                exact .poll hpc hlt hlen (Bool.eq_false_iff.mpr hok)
                  fun hnil => hempty (List.isEmpty_iff.mpr hnil)
          · exact absurd h (by simp)
        · exact absurd h (by simp)
      · next hge =>
        obtain ⟨rfl, rfl⟩ := expect_eq_some.mp h
        exact .leave hpc (Nat.not_lt.mp hge)
    | idle =>
      simp only [hpc] at h
      split at h
      · split at h
        · next ht =>
          rw [← Option.some.inj h]
          exact .timedOut hpc ht
        · rw [← Option.some.inj h]
          exact .retry hpc
      · exact absurd h (by simp)
    | progress n =>
      simp only [hpc] at h
      split at h
      · rw [← Option.some.inj h, ← hpc]
        exact .progress hpc
      · exact absurd h (by simp)
    | refill left =>
      simp only [hpc] at h
      obtain ⟨rfl, rfl⟩ := expect_eq_some.mp h
      rw [← hpc]
      exact .refill hpc
    | drained s =>
      simp only [hpc] at h
      rcases syncThen_cases h with ⟨s', hs, ha, rfl⟩ | ⟨hs, ha, rfl⟩
      · exact .draining hpc ha hs
      · exact .drained hpc ha hs
    | done =>
      simp only [hpc] at h
      exact absurd h (by simp)

/-! ## The sender -/

/-- The program points of `send`. -/
inductive SendPc where
  | warmup (s : SyncPc)
  | sleep
  | settled (s : SyncPc)
  | waitReceives (s : SyncPc)
  /-- About to read the clock for the start. -/
  | start
  /-- About to post send `i` of the window. -/
  | prefill (i : ℕ)
  | head
  | refill (left : ℕ)
  | sendsCompleted (s : SyncPc)
  | done
  deriving DecidableEq

/-- A state of `send`.  The elapsed time is kept as the two readings of the clock it
is the difference of. -/
structure SendCtl where
  pc : SendPc
  t0 : ℕ := 0
  t1 : ℕ := 0
  posted : ℕ := 0
  completed : ℕ := 0
  failed : Bool := false
  deriving DecidableEq

/-- The number of sends posted ahead. -/
def Setup.sendWindow (p : Setup) : ℕ := min p.txDepth p.iterations

/-- The head of `for i in 0..window`. -/
def SendCtl.prefill (p : Setup) (c : SendCtl) (i : ℕ) : SendCtl :=
  if i < p.sendWindow then { c with pc := .prefill i }
  else { c with pc := .head, posted := p.sendWindow }

/-- The head of `for _ in 0..n`, with `left` turns to go. -/
def SendCtl.refill (p : Setup) (c : SendCtl) (left : ℕ) : SendCtl :=
  if 0 < left ∧ c.posted < p.iterations then { c with pc := .refill (left - 1) }
  else { c with pc := .head }

/-- `bandwidth::send`, one contact at a time. -/
def sendStep (p : Setup) (c : SendCtl) (a : Act) : Option SendCtl :=
  if c.failed then none
  else match c.pc with
    | .warmup s => syncThen p.tracing s a (fun s => { c with pc := .warmup s }) { c with pc := .sleep }
    | .sleep => expect a .skip { c with pc := .settled (.enter p.tracing) }
    | .settled s =>
      syncThen p.tracing s a (fun s => { c with pc := .settled s })
        { c with pc := .waitReceives (.enter p.tracing) }
    | .waitReceives s =>
      syncThen p.tracing s a (fun s => { c with pc := .waitReceives s }) { c with pc := .start }
    | .start =>
      match a with
      | .clock now => some ({ c with t0 := now }.prefill p 0)
      | _ => none
    | .prefill i => expect a (.postSend 0 i) (c.prefill p (i + 1))
    | .head =>
      if c.completed < p.iterations then
        match a with
        | .poll wcs =>
          if wcs.length ≤ max p.txDepth 1 then
            if completionError wcs then some { c with failed := true }
            else some ({ c with completed := c.completed + wcs.length }.refill p wcs.length)
          else none
        | _ => none
      else
        match a with
        | .clock now => some { c with pc := .sendsCompleted (.enter p.tracing), t1 := now }
        | _ => none
    | .refill left =>
      expect a (.postSend 0 c.posted) ({ c with posted := c.posted + 1 }.refill p left)
    | .sendsCompleted s =>
      syncThen p.tracing s a (fun s => { c with pc := .sendsCompleted s }) { c with pc := .done }
    | .done => none

/-- `bandwidth::send` as a program. -/
def sendProgram (p : Setup) : Program SendCtl where
  init := { pc := .warmup (.enter p.tracing) }
  step := sendStep p

/-- One step of `send`: from which point, by which act, to where. -/
inductive SendMove (p : Setup) (c : SendCtl) : Act → SendCtl → Prop
  | warming {s s' : SyncPc} {a : Act} (hpc : c.pc = .warmup s) (ha : a.outOfBand = true)
      (hs : s.todo = a.session ++ s'.todo) : SendMove p c a { c with pc := .warmup s' }
  | warmed {s : SyncPc} {a : Act} (hpc : c.pc = .warmup s) (ha : a.outOfBand = true)
      (hs : s.todo = a.session) : SendMove p c a { c with pc := .sleep }
  | sleep (hpc : c.pc = .sleep) : SendMove p c .skip { c with pc := .settled (.enter p.tracing) }
  | settling {s s' : SyncPc} {a : Act} (hpc : c.pc = .settled s) (ha : a.outOfBand = true)
      (hs : s.todo = a.session ++ s'.todo) : SendMove p c a { c with pc := .settled s' }
  | settled {s : SyncPc} {a : Act} (hpc : c.pc = .settled s) (ha : a.outOfBand = true)
      (hs : s.todo = a.session) :
      SendMove p c a { c with pc := .waitReceives (.enter p.tracing) }
  | waiting {s s' : SyncPc} {a : Act} (hpc : c.pc = .waitReceives s) (ha : a.outOfBand = true)
      (hs : s.todo = a.session ++ s'.todo) : SendMove p c a { c with pc := .waitReceives s' }
  | waited {s : SyncPc} {a : Act} (hpc : c.pc = .waitReceives s) (ha : a.outOfBand = true)
      (hs : s.todo = a.session) : SendMove p c a { c with pc := .start }
  | start {now : ℕ} (hpc : c.pc = .start) :
      SendMove p c (.clock now) ({ c with t0 := now }.prefill p 0)
  | prefill {i : ℕ} (hpc : c.pc = .prefill i) :
      SendMove p c (.postSend 0 i) (c.prefill p (i + 1))
  | poll {wcs : List Wc} (hpc : c.pc = .head) (hlt : c.completed < p.iterations)
      (hlen : wcs.length ≤ max p.txDepth 1) (hok : completionError wcs = false) :
      SendMove p c (.poll wcs)
        ({ c with completed := c.completed + wcs.length }.refill p wcs.length)
  | pollError {wcs : List Wc} (hpc : c.pc = .head) (hlt : c.completed < p.iterations)
      (herr : completionError wcs = true) : SendMove p c (.poll wcs) { c with failed := true }
  | leave {now : ℕ} (hpc : c.pc = .head) (hge : p.iterations ≤ c.completed) :
      SendMove p c (.clock now) { c with pc := .sendsCompleted (.enter p.tracing), t1 := now }
  | refill {left : ℕ} (hpc : c.pc = .refill left) :
      SendMove p c (.postSend 0 c.posted) ({ c with posted := c.posted + 1 }.refill p left)
  | completing {s s' : SyncPc} {a : Act} (hpc : c.pc = .sendsCompleted s) (ha : a.outOfBand = true)
      (hs : s.todo = a.session ++ s'.todo) : SendMove p c a { c with pc := .sendsCompleted s' }
  | completed {s : SyncPc} {a : Act} (hpc : c.pc = .sendsCompleted s) (ha : a.outOfBand = true)
      (hs : s.todo = a.session) : SendMove p c a { c with pc := .done }

/-- **Every step is one of the moves.** -/
theorem SendMove.of_step {p : Setup} {c t : SendCtl} {a : Act} (h : sendStep p c a = some t) :
    SendMove p c a t := by
  unfold sendStep at h
  split at h
  · exact absurd h (by simp)
  · cases hpc : c.pc with
    | warmup s =>
      simp only [hpc] at h
      rcases syncThen_cases h with ⟨s', hs, ha, rfl⟩ | ⟨hs, ha, rfl⟩
      · exact .warming hpc ha hs
      · exact .warmed hpc ha hs
    | sleep =>
      simp only [hpc] at h
      obtain ⟨rfl, rfl⟩ := expect_eq_some.mp h
      exact .sleep hpc
    | settled s =>
      simp only [hpc] at h
      rcases syncThen_cases h with ⟨s', hs, ha, rfl⟩ | ⟨hs, ha, rfl⟩
      · exact .settling hpc ha hs
      · exact .settled hpc ha hs
    | waitReceives s =>
      simp only [hpc] at h
      rcases syncThen_cases h with ⟨s', hs, ha, rfl⟩ | ⟨hs, ha, rfl⟩
      · exact .waiting hpc ha hs
      · exact .waited hpc ha hs
    | start =>
      simp only [hpc] at h
      split at h
      · rw [← Option.some.inj h, ← hpc]
        exact .start hpc
      · exact absurd h (by simp)
    | prefill i =>
      simp only [hpc] at h
      obtain ⟨rfl, rfl⟩ := expect_eq_some.mp h
      exact .prefill hpc
    | head =>
      simp only [hpc] at h
      split at h
      · next hlt =>
        split at h
        · next wcs =>
          split at h
          · next hlen =>
            split at h
            · next herr =>
              rw [← Option.some.inj h, ← hpc]
              exact .pollError hpc hlt herr
            · next hok =>
              rw [← Option.some.inj h]
              exact .poll hpc hlt hlen (Bool.eq_false_iff.mpr hok)
          · exact absurd h (by simp)
        · exact absurd h (by simp)
      · next hge =>
        split at h
        · rw [← Option.some.inj h]
          exact .leave hpc (Nat.not_lt.mp hge)
        · exact absurd h (by simp)
    | refill left =>
      simp only [hpc] at h
      obtain ⟨rfl, rfl⟩ := expect_eq_some.mp h
      rw [← hpc]
      exact .refill hpc
    | sendsCompleted s =>
      simp only [hpc] at h
      rcases syncThen_cases h with ⟨s', hs, ha, rfl⟩ | ⟨hs, ha, rfl⟩
      · exact .completing hpc ha hs
      · exact .completed hpc ha hs
    | done =>
      simp only [hpc] at h
      exact absurd h (by simp)

end Bandwidth
end RdmaBench
