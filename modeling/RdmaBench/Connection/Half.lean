import RdmaBench.Connection.Duo

/-!
# The two halves of a benchmark

`bench::run` is one function for both sides, and what it runs on either side is a
program that goes through a fixed number of syncs.  `Half` is such a program with
what the rest of the connection needs to know of it: where its syncs are, what it
still says after the last of them, and where its post-and-poll loop ends.  `Bench`
is two of them that belong together, with the sync that separates the receives the
server posts ahead from the first send of the client.

The laws are fields.  `Half.moves` is the one that carries the weight: a step goes
through the syncs in order, or says a bit of what comes after the last.  A half
keeps to its session by it (`Half.keeps`), and its phase counts what it has written
and read of barriers (`Half.reads_add_returned_le`, `Half.le_writes_add_entered`).
`Half.toRead` is what keeps statements about its next read from being about nothing:
wherever it stands, it can get there.
-/

namespace RdmaBench

open Automaton Session

/-- What a step does to a phase and to what is left to say after the last sync. -/
inductive HalfMove (total : ℕ) (p : Phase) (r : Session Item) (a : Act) (q : Phase)
    (r' : Session Item) : Prop
  | sync (h : Phase.Move total p a q) (hr : r' = r)
  | closing (hp : p = .between total) (hq : q = .between total) (hr : r = a.session ++ r')

/-- One side of a benchmark. -/
structure Half (σ : Type) where
  program : Program σ
  /-- How many times it calls `sync`. -/
  syncs : ℕ
  phase : σ → Phase
  /-- What it has still to say once it has returned from its last `sync`. -/
  closing : σ → Session Item
  /-- Whether `run` has returned `Ok`. -/
  finished : σ → Bool
  /-- Whether `run` has returned `Err` for a failed completion. -/
  failed : σ → Bool
  /-- Whether the post-and-poll loop is over. -/
  leftLoop : σ → Bool
  moves : ∀ c a t, program.step c a = some t →
    HalfMove syncs (phase c) (closing c) a (phase t) (closing t)
  phase_init : (phase program.init).todo syncs = barriers syncs
  entered_le : ∀ c, (phase c).entered ≤ syncs
  closing_plain : ∀ c, .barrier ∉ reads (closing c)
  of_finished : ∀ c, finished c = true → phase c = .between syncs ∧ closing c = []
  leftLoop_of_entered : ∀ c, (phase c).entered = syncs → leftLoop c = true
  failed_init : failed program.init = false
  toRead : ∀ c, failed c = false → ToRead program (fun c => finished c = true) c

namespace Half

variable {σ : Type} (h : Half σ)

/-- What a half has still to do on the connection. -/
def todo (c : σ) : Session Item := (h.phase c).todo h.syncs ++ h.closing c

/-- **A half keeps to its session.** -/
theorem keeps : Keeps h.program h.todo := by
  intro c a t hstep
  unfold todo
  cases h.moves c a t hstep with
  | sync hmove hr => rw [hmove.todo_eq, hr, List.append_assoc]
  | closing hp hq hr =>
    rw [hp, hq, hr, Phase.todo, Nat.sub_self]
    rfl

theorem todo_init : h.todo h.program.init = barriers h.syncs ++ h.closing h.program.init := by
  rw [todo, h.phase_init]

theorem todo_of_finished {c : σ} (hc : h.finished c = true) : h.todo c = [] := by
  obtain ⟨hphase, hclosing⟩ := h.of_finished c hc
  rw [todo, hphase, hclosing, Phase.todo, Nat.sub_self]
  rfl

theorem returned_of_finished {c : σ} (hc : h.finished c = true) :
    (h.phase c).returned = h.syncs := by
  rw [(h.of_finished c hc).1]
  rfl

/-- Syncs that have returned stay so. -/
theorem returned_le {c t : σ} {a : Act} (hstep : h.program.step c a = some t) :
    (h.phase c).returned ≤ (h.phase t).returned := by
  cases h.moves c a t hstep with
  | sync hmove _ => exact hmove.returned_le
  | closing hp hq _ => exact Nat.le_of_eq (congrArg Phase.returned (hp.trans hq.symm))

/-! ### Counting barriers

What the party says after the benchmark holds no barrier, so it does not count. -/

variable {tail : Session Item}

/-- A sync that has returned has been read. -/
theorem reads_add_returned_le (htail : .barrier ∉ reads tail) (c : σ) :
    (reads (h.todo c ++ tail)).count .barrier + (h.phase c).returned ≤ h.syncs := by
  rw [todo, reads_append, reads_append, List.count_append, List.count_append,
    List.count_eq_zero_of_not_mem (h.closing_plain c), List.count_eq_zero_of_not_mem htail]
  exact Phase.reads_add_returned_le (h.entered_le c)

/-- A sync that has not been entered is still to be written. -/
theorem le_writes_add_entered (c : σ) :
    h.syncs ≤ (writes (h.todo c ++ tail)).count .barrier + (h.phase c).entered := by
  have hphase := Phase.le_writes_add_entered (h.phase c) h.syncs
  rw [todo, writes_append, writes_append, List.count_append, List.count_append]
  omega

/-- At the start all are. -/
theorem le_writes_init :
    h.syncs ≤ (writes (h.todo h.program.init ++ tail)).count .barrier := by
  rw [h.todo_init, writes_append, writes_append, writes_barriers, List.count_append,
    List.count_append, List.count_replicate_self]
  omega

end Half

/-- How many sends an act posts. -/
def Act.sends : Act → ℕ
  | .postSend _ _ => 1
  | _ => 0

/-- How many receives an act posts. -/
def Act.receives : Act → ℕ
  | .postReceive _ _ => 1
  | _ => 0

/-- The two halves of a benchmark. -/
structure Bench (σ τ : Type) where
  client : Half σ
  server : Half τ
  /-- Whether `run` takes the parameters at all. -/
  admitted : Bool
  syncs_eq : server.syncs = client.syncs
  closing_dual : Dual (client.closing client.program.init) (server.closing server.program.init)
  /-- How many syncs stand before the client's first send. -/
  gate : ℕ
  gate_mem : 0 < gate ∧ gate ≤ client.syncs
  /-- How many receives the server posts ahead. -/
  ahead : ℕ
  /-- How many receives the server has posted at least, where it stands. -/
  posted : τ → ℕ
  send_after : ∀ c slot id t, client.program.step c (.postSend slot id) = some t →
    gate ≤ (client.phase c).returned
  posted_init : posted server.program.init = 0
  posted_step : ∀ c a t, server.program.step c a = some t → posted t ≤ posted c + a.receives
  ahead_le_posted : ∀ c, gate ≤ (server.phase c).entered → ahead ≤ posted c

/-- **The two halves of a benchmark are in step.** -/
theorem Bench.dual {σ τ : Type} (b : Bench σ τ) :
    Dual (b.client.todo b.client.program.init) (b.server.todo b.server.program.init) := by
  rw [b.client.todo_init, b.server.todo_init, b.syncs_eq]
  exact (dual_barriers _).append b.closing_dual

end RdmaBench
