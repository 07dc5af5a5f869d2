import RdmaBench.Verbs

/-!
# The out-of-band connection

`Conn::sync` writes one byte and then reads one.  With tracing on it also prints
a line before the write and one after the read, so a traced party can be inside
`sync` before it has written and after it has read; `SyncPc` has a point for
each.  The byte carries no label.

`Wire` is the TCP stream: two FIFO channels of items.  `Wire.client` and
`Wire.server` say what an act of either side does to it.  A read is open when the
front item is of the kind that is read; that no item of another kind ever stands
there is a theorem about the programs, not a rule of the channel.
-/

namespace RdmaBench

open Automaton

/-! ## `Conn::sync` -/

/-- Where control stands inside `Conn::sync`. -/
inductive SyncPc where
  | reached
  | write
  | read
  | passed
  deriving DecidableEq, Repr

/-- Entering `sync`; a traced one prints first. -/
def SyncPc.enter (tracing : Bool) : SyncPc := if tracing then .reached else .write

/-- One act inside `sync`: where it leads, or `none` inside when `sync` has
returned. -/
def SyncPc.step (tracing : Bool) : SyncPc → Act → Option (Option SyncPc)
  | .reached, .skip => some (some .write)
  | .write, .write .barrier => some (some .read)
  | .read, .read .barrier => some (if tracing then some .passed else none)
  | .passed, .skip => some none
  | _, _ => none

/-- What `sync` has still to do on the connection. -/
def SyncPc.todo : SyncPc → Session Item
  | .reached => [.write .barrier, .read .barrier]
  | .write => [.write .barrier, .read .barrier]
  | .read => [.read .barrier]
  | .passed => []

/-- A program inside a `sync`: it stays there, or goes on. -/
def syncThen {σ : Type} (tracing : Bool) (s : SyncPc) (a : Act) (stay : SyncPc → σ) (leave : σ) :
    Option σ :=
  (s.step tracing a).map fun r => match r with
    | some s' => stay s'
    | none => leave

/-- **One act of a `sync`**: it moves on inside, having done that much of the
session, or it returns with nothing left of it.  Either way it stays out of
band. -/
theorem syncThen_cases {σ : Type} {tracing : Bool} {s : SyncPc} {a : Act} {stay : SyncPc → σ}
    {leave t : σ} (h : syncThen tracing s a stay leave = some t) :
    (∃ s', s.todo = a.session ++ s'.todo ∧ a.outOfBand = true ∧ t = stay s') ∨
      (s.todo = a.session ∧ a.outOfBand = true ∧ t = leave) := by
  rw [syncThen, Option.map_eq_some_iff] at h
  obtain ⟨r, hr, ht⟩ := h
  unfold SyncPc.step at hr
  split at hr
  · rw [← Option.some.inj hr] at ht
    exact .inl ⟨.write, rfl, rfl, ht.symm⟩
  · rw [← Option.some.inj hr] at ht
    exact .inl ⟨.read, rfl, rfl, ht.symm⟩
  · cases tracing with
    | true =>
      rw [← Option.some.inj hr] at ht
      exact .inl ⟨.passed, rfl, rfl, ht.symm⟩
    | false =>
      rw [← Option.some.inj hr] at ht
      exact .inr ⟨rfl, rfl, ht.symm⟩
  · rw [← Option.some.inj hr] at ht
    exact .inr ⟨rfl, rfl, ht.symm⟩
  · exact absurd hr (by simp)

/-- A `sync` does not read the clock. -/
theorem syncThen_clock {σ : Type} {tracing : Bool} {s : SyncPc} {now : ℕ} {stay : SyncPc → σ}
    {leave : σ} : syncThen tracing s (.clock now) stay leave = none := by
  cases s <;> rfl

theorem SyncPc.todo_enter (tracing : Bool) :
    (SyncPc.enter tracing).todo = [.write .barrier, .read .barrier] := by
  cases tracing <;> rfl

/-- The acts ahead inside a `sync`. -/
def SyncPc.ahead : SyncPc → ℕ
  | .reached => 3
  | .write => 2
  | .read => 1
  | .passed => 0

theorem SyncPc.ahead_le (s : SyncPc) : s.ahead ≤ 3 := by
  cases s <;> decide

/-- A `sync` gets on. -/
theorem syncThen_ahead {σ : Type} {tracing : Bool} {s : SyncPc} {a : Act} {stay : SyncPc → σ}
    {leave t : σ} (h : syncThen tracing s a stay leave = some t) :
    (∃ s', s'.ahead < s.ahead ∧ t = stay s') ∨ t = leave := by
  rw [syncThen, Option.map_eq_some_iff] at h
  obtain ⟨r, hr, rfl⟩ := h
  unfold SyncPc.step at hr
  split at hr
  · rw [← Option.some.inj hr]
    exact .inl ⟨.write, by decide, rfl⟩
  · rw [← Option.some.inj hr]
    exact .inl ⟨.read, by decide, rfl⟩
  · cases tracing with
    | true =>
      rw [← Option.some.inj hr]
      exact .inl ⟨.passed, by decide, rfl⟩
    | false =>
      rw [← Option.some.inj hr]
      exact .inr rfl
  · rw [← Option.some.inj hr]
    exact .inr rfl
  · exact absurd hr (by simp)

/-- A `sync` gets on, in a measure of the program it is a part of. -/
theorem syncThen_lt {σ : Type} {tracing : Bool} {s : SyncPc} {a : Act} {stay : SyncPc → σ}
    {leave t : σ} (h : syncThen tracing s a stay leave = some t) (μ : σ → ℕ) {after : ℕ}
    (hstay : ∀ s, μ (stay s) = after + 1 + s.ahead) (hleave : μ leave ≤ after) :
    μ t < after + 1 + s.ahead := by
  rcases syncThen_ahead h with ⟨s', hlt, rfl⟩ | rfl
  · rw [hstay]
    exact Nat.add_lt_add_left hlt _
  · omega

/-- A `sync` is at its read, or can get on by itself. -/
theorem syncThen_moves {σ : Type} (tracing : Bool) (s : SyncPc) (stay : SyncPc → σ) (leave : σ) :
    s = .read ∨ ∃ a t, (∀ i, a ≠ .read i) ∧ a.outOfBand = true ∧ (∀ now, a ≠ .clock now) ∧
      syncThen tracing s a stay leave = some t := by
  cases s with
  | reached | passed =>
    exact .inr ⟨.skip, _, fun _ => Act.noConfusion, rfl, fun _ => Act.noConfusion, rfl⟩
  | write =>
    exact .inr ⟨.write .barrier, _, fun _ => Act.noConfusion, rfl, fun _ => Act.noConfusion, rfl⟩
  | read => exact .inl rfl

/-- The session of `n` syncs in a row. -/
def barriers : ℕ → Session Item
  | 0 => []
  | n + 1 => .write .barrier :: .read .barrier :: barriers n

theorem reads_barriers (n : ℕ) : Session.reads (barriers n) = List.replicate n .barrier := by
  induction n with
  | zero => rfl
  | succ n ih =>
    rw [barriers, Session.reads_write, Session.reads_read, ih]
    rfl

theorem writes_barriers (n : ℕ) : Session.writes (barriers n) = List.replicate n .barrier := by
  induction n with
  | zero => rfl
  | succ n ih =>
    rw [barriers, Session.writes_write, Session.writes_read, ih]
    rfl

/-- Syncs against syncs are in step. -/
theorem dual_barriers (n : ℕ) : Session.Dual (barriers n) (barriers n) := by
  induction n with
  | zero => exact .done
  | succ n ih => exact .swap _ _ ih

theorem todo_enter_append (tracing : Bool) (n : ℕ) :
    (SyncPc.enter tracing).todo ++ barriers n = barriers (n + 1) := by
  rw [SyncPc.todo_enter]
  rfl

/-! ## Where a program stands among its syncs -/

/-- A program that goes through a fixed number of syncs is inside the one with index
`k`, or has returned from `k` of them and not entered the next. -/
inductive Phase where
  | inside (k : ℕ) (s : SyncPc)
  | between (k : ℕ)
  deriving DecidableEq

/-- How many syncs have been entered. -/
def Phase.entered : Phase → ℕ
  | .inside k _ => k + 1
  | .between k => k

/-- How many syncs have returned. -/
def Phase.returned : Phase → ℕ
  | .inside k _ => k
  | .between k => k

theorem Phase.returned_le_entered (p : Phase) : p.returned ≤ p.entered := by
  cases p <;> simp [Phase.returned, Phase.entered]

/-- What is left of `total` syncs. -/
def Phase.todo (total : ℕ) : Phase → Session Item
  | .inside k s => s.todo ++ barriers (total - (k + 1))
  | .between k => barriers (total - k)

/-- What one step does to a phase, when there are `total` syncs to go through: one
that is entered comes next after those that have returned. -/
inductive Phase.Move (total : ℕ) : Phase → Act → Phase → Prop
  | stay {k : ℕ} {a : Act} (ha : a.session = []) : Phase.Move total (.between k) a (.between k)
  | enter {k : ℕ} {a : Act} (tracing : Bool) (hk : k < total) (ha : a.session = []) :
      Phase.Move total (.between k) a (.inside k (.enter tracing))
  | inside {k : ℕ} {s s' : SyncPc} {a : Act} (hs : s.todo = a.session ++ s'.todo) :
      Phase.Move total (.inside k s) a (.inside k s')
  | leave {k : ℕ} {s : SyncPc} {a : Act} (hs : s.todo = a.session) :
      Phase.Move total (.inside k s) a (.between (k + 1))
  | through {k : ℕ} {s : SyncPc} {a : Act} (tracing : Bool) (hk : k + 1 < total)
      (hs : s.todo = a.session) :
      Phase.Move total (.inside k s) a (.inside (k + 1) (.enter tracing))

theorem Phase.todo_enter (tracing : Bool) {k total : ℕ} (h : k < total) :
    (Phase.inside k (.enter tracing)).todo total = (Phase.between k).todo total := by
  rw [Phase.todo, Phase.todo, todo_enter_append]
  congr 1
  omega

/-- **A step does the first bit of what is left.** -/
theorem Phase.Move.todo_eq {total : ℕ} {p q : Phase} {a : Act} (h : Phase.Move total p a q) :
    p.todo total = a.session ++ q.todo total := by
  cases h with
  | stay ha => rw [ha, List.nil_append]
  | enter tracing hk ha => rw [ha, List.nil_append, Phase.todo_enter tracing hk]
  | inside hs => rw [Phase.todo, hs, List.append_assoc, Phase.todo]
  | leave hs => rw [Phase.todo, hs, Phase.todo]
  | through tracing hk hs => rw [Phase.todo_enter tracing hk, Phase.todo, hs, Phase.todo]

/-- A sync that has returned stays so. -/
theorem Phase.Move.returned_le {total : ℕ} {p q : Phase} {a : Act} (h : Phase.Move total p a q) :
    p.returned ≤ q.returned := by
  cases h <;> simp [Phase.returned]

/-- **A sync that has not been entered is still to be written.** -/
theorem Phase.le_writes_add_entered (p : Phase) (total : ℕ) :
    total ≤ (Session.writes (p.todo total)).count .barrier + p.entered := by
  cases p with
  | inside k s =>
    simp only [Phase.todo, Session.writes_append, writes_barriers, List.count_append,
      List.count_replicate_self, Phase.entered]
    omega
  | between k =>
    simp only [Phase.todo, writes_barriers, List.count_replicate_self, Phase.entered]
    omega

/-- **A sync that has returned has been read.** -/
theorem Phase.reads_add_returned_le {p : Phase} {total : ℕ} (h : p.entered ≤ total) :
    (Session.reads (p.todo total)).count .barrier + p.returned ≤ total := by
  cases p with
  | inside k s =>
    have hs : (Session.reads s.todo).count .barrier ≤ 1 := by cases s <;> decide
    simp only [Phase.todo, Session.reads_append, reads_barriers, List.count_append,
      List.count_replicate_self, Phase.returned, Phase.entered] at h ⊢
    omega
  | between k =>
    simp only [Phase.todo, reads_barriers, List.count_replicate_self, Phase.returned,
      Phase.entered] at h ⊢
    omega

/-- What a program at a read has still to read and to write. -/
theorem Phase.length_todo_read (k total : ℕ) :
    (Session.reads ((Phase.inside k .read).todo total)).length = 1 + (total - (k + 1)) ∧
      (Session.writes ((Phase.inside k .read).todo total)).length = total - (k + 1) := by
  rw [Phase.todo, Session.reads_append, Session.writes_append, reads_barriers, writes_barriers,
    List.length_append, List.length_append, List.length_replicate]
  exact ⟨rfl, Nat.zero_add _⟩

theorem Phase.length_todo_between (k total : ℕ) :
    (Session.reads ((Phase.between k).todo total)).length = total - k ∧
      (Session.writes ((Phase.between k).todo total)).length = total - k := by
  rw [Phase.todo, reads_barriers, writes_barriers, List.length_replicate]
  exact ⟨rfl, rfl⟩

/-! ## The stream -/

/-- The items written and not yet read, in each direction. -/
structure Wire where
  toServer : List Item := []
  toClient : List Item := []
  deriving DecidableEq, Repr

/-- What an act of the client does to the stream. -/
def Wire.client (w : Wire) : Act → Option Wire
  | .write i => some { w with toServer := w.toServer ++ [i] }
  | .read i => if w.toClient.head? = some i then some { w with toClient := w.toClient.tail }
    else none
  | _ => some w

/-- What an act of the server does to the stream. -/
def Wire.server (w : Wire) : Act → Option Wire
  | .write i => some { w with toClient := w.toClient ++ [i] }
  | .read i => if w.toServer.head? = some i then some { w with toServer := w.toServer.tail }
    else none
  | _ => some w

/-- Other contacts leave the stream alone. -/
theorem Wire.client_of_session {w : Wire} {a : Act} (ha : a.session = []) :
    w.client a = some w := by
  cases a with
  | write i | read i => exact absurd ha (by simp [Act.session])
  | _ => rfl

theorem Wire.server_of_session {w : Wire} {a : Act} (ha : a.session = []) :
    w.server a = some w := by
  cases a with
  | write i | read i => exact absurd ha (by simp [Act.session])
  | _ => rfl

/-- A read takes the front item. -/
theorem Wire.client_read {w : Wire} {i : Item} {rest : List Item} (h : w.toClient = i :: rest) :
    w.client (.read i) = some { w with toClient := rest } := by
  rw [Wire.client, h]
  exact if_pos rfl

theorem Wire.server_read {w : Wire} {i : Item} {rest : List Item} (h : w.toServer = i :: rest) :
    w.server (.read i) = some { w with toServer := rest } := by
  rw [Wire.server, h]
  exact if_pos rfl

/-- Anything but a read is open to a program that comes to it. -/
theorem Wire.exists_client {w : Wire} {a : Act} (ha : ∀ i, a ≠ .read i) :
    ∃ w', w.client a = some w' := by
  cases a with
  | read i => exact absurd rfl (ha i)
  | _ => exact ⟨_, rfl⟩

theorem Wire.exists_server {w : Wire} {a : Act} (ha : ∀ i, a ≠ .read i) :
    ∃ w', w.server a = some w' := by
  cases a with
  | read i => exact absurd rfl (ha i)
  | _ => exact ⟨_, rfl⟩

end RdmaBench
