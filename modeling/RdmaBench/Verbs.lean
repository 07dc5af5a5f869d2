import RdmaBench.Comm
import RdmaBench.Automaton.Runs
import RdmaBench.Automaton.Session
import RdmaBench.Automaton.Watch

/-!
# What a benchmark does next

A benchmark is sequential code whose every contact with the outside is a call:
on the connection, on the queue pair, on the completion queue, on the clock.
`Act` lists these contacts.  A program is then an automaton whose labels are
`Act`s, the call and the answer in one: `poll wcs` is a poll that returned the
completions `wcs`, `clock now` a reading of the clock, `read item` a read that
got `item`.

Filling a slot and looking at what arrived in one are listed as well.  They are
no calls, but they touch memory that the device may be using, and *when* they
happen is what several results are about.  Everything else is `skip`.

Work request ids are `u64` in the verbs and slot numbers and sequence numbers
`usize` or `u64` in the programs; on a 64-bit target the casts between the two
are identities, and all three are `ℕ` here.
-/

namespace RdmaBench

open Automaton

/-- A work completion, as far as the programs read it. -/
structure Wc where
  wrId : ℕ
  /-- The number of bytes received. -/
  len : ℕ
  /-- Whether the status is `IBV_WC_SUCCESS`. -/
  ok : Bool
  deriving DecidableEq, Repr

/-- `completion_error` over a whole batch: whether some completion failed. -/
def completionError (wcs : List Wc) : Bool := wcs.any fun c => !c.ok

/-- One contact with the outside, with its answer.  The programs that register
one buffer and use it whole call it slot `0`. -/
inductive Act where
  | write (item : Item)
  | read (item : Item)
  | postSend (slot wrId : ℕ)
  | postReceive (slot wrId : ℕ)
  | poll (wcs : List Wc)
  | fill (slot seq : ℕ)
  | inspect (slot : ℕ) (got : List UInt8)
  | clock (now : ℕ)
  | skip
  deriving DecidableEq

/-- Whether an act touches neither registered memory nor a queue. -/
def Act.outOfBand : Act → Bool
  | .write _ | .read _ | .clock _ | .skip => true
  | _ => false

/-- What an act does on the connection. -/
def Act.session : Act → Session Item
  | .write item => [.write item]
  | .read item => [.read item]
  | _ => []

/-- A program: sequential code as an automaton over its contacts. -/
abbrev Program (σ : Type) := System.{0, 0} σ Act

/-- The step of a program at a point where only one act can come next. -/
def expect {σ : Type} (a expected : Act) (t : σ) : Option σ := if a = expected then some t else none

theorem expect_eq_some {σ : Type} {a expected : Act} {t u : σ} :
    expect a expected t = some u ↔ a = expected ∧ t = u := by
  rw [expect]
  split <;> simp_all

/-- `IDLE_TIMEOUT`, in milliseconds: how long a poll loop spins without a
completion before it gives up. -/
def idleTimeout : ℕ := 2000

/-- Where a program reads the clock, it takes any reading. -/
def TakesReadings {σ : Type} (P : Program σ) : Prop :=
  ∀ ⦃c d now⦄, P.step c (.clock now) = some d → ∀ now', ∃ d', P.step c (.clock now') = some d'

/-- A poll takes time. -/
def polling : Watch Act where
  takes
    | .poll _ => true
    | _ => false
  reads
    | .clock now => some now
    | _ => none

end RdmaBench
