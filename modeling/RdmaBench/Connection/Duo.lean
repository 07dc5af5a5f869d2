import RdmaBench.Conn

/-!
# Two programs over one connection

`duo C S` runs a client program and a server program over one `Wire`, in every
interleaving.  All that matters here about a program is its session: a function
`todo` from its states to what it has still to do on the connection, such that
every step does the first bit of it (`Keeps`).

From that alone: the unread items of each direction are the next ones their reader
will read (`duo_linked`, `NextRead.head_eq`); if the two sessions are in step, the
two programs never both wait at an empty channel (`not_both_blocked`); and a
program has read at most as many barriers as the other has written
(`Linked.count_le`, used through `duo_linked`).
-/

namespace RdmaBench

open Automaton Session

/-- Two programs and what is in flight between them. -/
structure Duo (σ τ : Type) where
  client : σ
  server : τ
  wire : Wire

inductive DuoLabel where
  | client (a : Act)
  | server (a : Act)
  deriving DecidableEq

section Duo

variable {σ τ : Type} {C : Program σ} {S : Program τ}

/-- One step of either program. -/
def duoStep (C : Program σ) (S : Program τ) (s : Duo σ τ) : DuoLabel → Option (Duo σ τ)
  | .client a => (s.wire.client a).bind fun w =>
      (C.step s.client a).map fun c => { s with client := c, wire := w }
  | .server a => (s.wire.server a).bind fun w =>
      (S.step s.server a).map fun c => { s with server := c, wire := w }

theorem duoStep_client {s : Duo σ τ} {a : Act} {w : Wire} {c : σ} (hw : s.wire.client a = some w)
    (hc : C.step s.client a = some c) :
    duoStep C S s (.client a) = some { s with client := c, wire := w } := by
  rw [duoStep, hw, Option.bind_some, hc]
  rfl

theorem duoStep_server {s : Duo σ τ} {a : Act} {w : Wire} {c : τ} (hw : s.wire.server a = some w)
    (hc : S.step s.server a = some c) :
    duoStep C S s (.server a) = some { s with server := c, wire := w } := by
  rw [duoStep, hw, Option.bind_some, hc]
  rfl

def duo (C : Program σ) (S : Program τ) : System (Duo σ τ) DuoLabel :=
  ⟨⟨C.init, S.init, {}⟩, duoStep C S⟩

/-- `todo` is a session that the program keeps to. -/
def Keeps (P : Program σ) (todo : σ → Session Item) : Prop :=
  ∀ s a t, P.step s a = some t → todo s = a.session ++ todo t

/-- A program that is at a read of a `k`. -/
def AtRead (P : Program σ) (s : σ) (k : Item) : Prop := ∃ t, P.step s (.read k) = some t

/-- The next thing the program will read, whatever comes before, is a `k`. -/
inductive NextRead (P : Program σ) : σ → Item → Prop
  | here {s t : σ} {k : Item} (h : P.step s (.read k) = some t) : NextRead P s k
  | later {s t : σ} {a : Act} {k : Item} (h : P.step s a = some t) (ha : ∀ i, a ≠ .read i)
      (ht : NextRead P t k) : NextRead P s k

theorem reads_session {a : Act} (ha : ∀ i, a ≠ .read i) : reads a.session = [] := by
  cases a with
  | read i => exact absurd rfl (ha i)
  | _ => rfl

/-- A program reads next what its session says. -/
theorem NextRead.head_eq {P : Program σ} {todo : σ → Session Item} (hP : Keeps P todo) {s : σ}
    {k : Item} (h : NextRead P s k) : ∃ rest, reads (todo s) = k :: rest := by
  induction h with
  | here h =>
    rw [hP _ _ _ h]
    exact ⟨_, rfl⟩
  | later h ha ht ih =>
    rw [hP _ _ _ h, reads_append, reads_session ha]
    exact ih

/-- A program that can go on by itself to its next read, or to its end. -/
inductive ToRead (P : Program σ) (ended : σ → Prop) : σ → Prop
  | read {s t : σ} (k : Item) (h : P.step s (.read k) = some t) : ToRead P ended s
  | ended {s : σ} (h : ended s) : ToRead P ended s
  | step {s t : σ} (a : Act) (h : P.step s a = some t) (ha : ∀ i, a ≠ .read i)
      (ht : ToRead P ended t) : ToRead P ended s

/-- A `sync` leads to its own read, and past it to what comes after. -/
theorem ToRead.sync {P : Program σ} {ended : σ → Prop} (tracing : Bool) (stay : SyncPc → σ)
    (leave : σ) (hstep : ∀ q a, P.step (stay q) a = syncThen tracing q a stay leave)
    (hleave : ToRead P ended leave) (q : SyncPc) : ToRead P ended (stay q) := by
  have hread : ToRead P ended (stay .read) := .read .barrier (hstep .read (.read .barrier))
  have hwrite : ToRead P ended (stay .write) :=
    .step (.write .barrier) (hstep .write (.write .barrier)) (fun _ => Act.noConfusion) hread
  cases q with
  | reached => exact .step .skip (hstep .reached .skip) (fun _ => Act.noConfusion) hwrite
  | write => exact hwrite
  | read => exact hread
  | passed => exact .step .skip (hstep .passed .skip) (fun _ => Act.noConfusion) hleave

/-- A program short of its end that still has something to read can go on to
reading it. -/
theorem ToRead.exists_nextRead {P : Program σ} {todo : σ → Session Item} (hP : Keeps P todo)
    {ended : σ → Prop} (hended : ∀ s, ended s → reads (todo s) = []) {s : σ}
    (h : ToRead P ended s) (hs : reads (todo s) ≠ []) : ∃ k, NextRead P s k := by
  induction h with
  | read k h => exact ⟨k, .here h⟩
  | ended h => exact absurd (hended _ h) hs
  | step a h ha ht ih =>
    rw [hP _ _ _ h, reads_append, reads_session ha] at hs
    obtain ⟨k, hk⟩ := ih hs
    exact ⟨k, .later h ha hk⟩

/-- A part of a program leads to a read of the whole. -/
theorem ToRead.lift {P : Program σ} {Q : Program τ} {ended : σ → Prop} {done : τ → Prop}
    {f : σ → τ} (hended : ∀ s, ended s → ToRead Q done (f s))
    (hstep : ∀ s a t, ¬ended s → P.step s a = some t → Q.step (f s) a = some (f t)) {s : σ}
    (h : ToRead P ended s) : ToRead Q done (f s) := by
  induction h with
  | @read s t k h =>
    by_cases hs : ended s
    · exact hended _ hs
    · exact .read k (hstep _ _ _ hs h)
  | ended h => exact hended _ h
  | @step s t a h ha ht ih =>
    by_cases hs : ended s
    · exact hended _ hs
    · exact .step a (hstep _ _ _ hs h) ha ih

/-- **A sync returns on one side only once it has been entered on the other.**  A
party that has returned from `r` of `n` syncs has at most `n - r` barriers left to
read, one that has entered `e` has at least `n - e` left to write. -/
theorem returned_le_entered {p q : Session Item} {c d : List Item} {n r e : ℕ}
    (h : Linked p q c d) (hr : (reads p).count .barrier + r ≤ n)
    (he : n ≤ (writes q).count .barrier + e) : r ≤ e := by
  have hcount := h.symm.count_le .barrier
  omega

variable {cTodo : σ → Session Item} {sTodo : τ → Session Item}

/-- What holds of two programs that started in step. -/
structure Duo.InStep (C : Program σ) (S : Program τ) (cTodo : σ → Session Item)
    (sTodo : τ → Session Item) (s : Duo σ τ) : Prop where
  linked : Linked (cTodo s.client) (sTodo s.server) s.wire.toServer s.wire.toClient
  client : cTodo s.client <:+ cTodo C.init
  server : sTodo s.server <:+ sTodo S.init

/-- An act of the client moves the balance along. -/
theorem linked_client {a : Act} {p q : Session Item} {w w' : Wire}
    (h : Linked (a.session ++ p) q w.toServer w.toClient) (hw : w.client a = some w') :
    Linked p q w'.toServer w'.toClient := by
  cases a with
  | write i =>
    rw [← Option.some.inj hw]
    exact h.writeLeft
  | read i =>
    rw [Wire.client] at hw
    split at hw
    · next hhead =>
      rw [← Option.some.inj hw]
      obtain ⟨d, hd⟩ := List.head?_eq_some_iff.mp hhead
      rw [hd] at h ⊢
      exact h.readLeft
    · exact absurd hw (by simp)
  | _ =>
    rw [← Option.some.inj hw]
    exact h

/-- An act of the server moves the balance along. -/
theorem linked_server {a : Act} {p q : Session Item} {w w' : Wire}
    (h : Linked p (a.session ++ q) w.toServer w.toClient) (hw : w.server a = some w') :
    Linked p q w'.toServer w'.toClient := by
  cases a with
  | write i =>
    rw [← Option.some.inj hw]
    exact h.writeRight
  | read i =>
    rw [Wire.server] at hw
    split at hw
    · next hhead =>
      rw [← Option.some.inj hw]
      obtain ⟨c, hc⟩ := List.head?_eq_some_iff.mp hhead
      rw [hc] at h ⊢
      exact h.readRight
    · exact absurd hw (by simp)
  | _ =>
    rw [← Option.some.inj hw]
    exact h

/-- **The balance holds along every run.** -/
theorem duo_inStep (hC : Keeps C cTodo) (hS : Keeps S sTodo)
    (h₀ : Linked (cTodo C.init) (sTodo S.init) [] []) {s : Duo σ τ}
    (h : (duo C S).Reachable s) : s.InStep C S cTodo sTodo := by
  refine h.invariant ⟨h₀, List.suffix_refl _, List.suffix_refl _⟩ fun s l t hs hstep => ?_
  cases l with
  | client a =>
    obtain ⟨w, hw, hstep⟩ := Option.bind_eq_some_iff.mp hstep
    obtain ⟨c, hc, rfl⟩ := Option.map_eq_some_iff.mp hstep
    have htodo := hC _ _ _ hc
    refine ⟨linked_client (htodo ▸ hs.linked) hw, ?_, hs.server⟩
    exact (List.suffix_append _ _).trans (htodo ▸ hs.client)
  | server a =>
    obtain ⟨w, hw, hstep⟩ := Option.bind_eq_some_iff.mp hstep
    obtain ⟨c, hc, rfl⟩ := Option.map_eq_some_iff.mp hstep
    have htodo := hS _ _ _ hc
    refine ⟨linked_server (htodo ▸ hs.linked) hw, hs.client, ?_⟩
    exact (List.suffix_append _ _).trans (htodo ▸ hs.server)

/-- **What is unread is what will be read.** -/
theorem Duo.InStep.head_eq_client {s : Duo σ τ} (hC : Keeps C cTodo)
    (h : s.InStep C S cTodo sTodo) {j k : Item} {rest : List Item}
    (hj : s.wire.toClient = j :: rest) (hk : NextRead C s.client k) : j = k := by
  obtain ⟨more, hmore⟩ := hk.head_eq hC
  have hpre := h.linked.prefix_left
  rw [hj, hmore] at hpre
  exact (List.cons_prefix_cons.mp hpre).1

theorem Duo.InStep.head_eq_server {s : Duo σ τ} (hS : Keeps S sTodo)
    (h : s.InStep C S cTodo sTodo) {j k : Item} {rest : List Item}
    (hj : s.wire.toServer = j :: rest) (hk : NextRead S s.server k) : j = k := by
  obtain ⟨more, hmore⟩ := hk.head_eq hS
  have hpre := h.linked.prefix_right
  rw [hj, hmore] at hpre
  exact (List.cons_prefix_cons.mp hpre).1

/-- **A program inside a `sync` gets on**, or is at its read with nothing to read. -/
theorem Duo.InStep.client_sync {s : Duo σ τ} (hC : Keeps C cTodo) (h : s.InStep C S cTodo sTodo)
    {tracing : Bool} {y : SyncPc} {stay : SyncPc → σ} {leave : σ}
    (hstep : ∀ a, C.step s.client a = syncThen tracing y a stay leave) :
    (y = .read ∧ s.wire.toClient = []) ∨
      ∃ a w c, a.outOfBand = true ∧ (∀ now, a ≠ .clock now) ∧ s.wire.client a = some w ∧
        C.step s.client a = some c ∧
          ((∃ z : SyncPc, z.ahead < y.ahead ∧ c = stay z) ∨ c = leave) := by
  rcases syncThen_moves tracing y stay leave with rfl | ⟨a, c, ha, hband, hclock, hc⟩
  · cases hwire : s.wire.toClient with
    | nil => exact .inl ⟨rfl, rfl⟩
    | cons i rest =>
      obtain ⟨c, hc⟩ : ∃ c, C.step s.client (.read .barrier) = some c := ⟨_, hstep _⟩
      obtain rfl := h.head_eq_client hC hwire (.here hc)
      exact .inr ⟨.read .barrier, _, c, rfl, fun _ => Act.noConfusion, Wire.client_read hwire, hc,
        syncThen_ahead (hstep _ ▸ hc)⟩
  · obtain ⟨w, hw⟩ := Wire.exists_client (w := s.wire) ha
    exact .inr ⟨a, w, c, hband, hclock, hw, (hstep a).trans hc, syncThen_ahead hc⟩

theorem Duo.InStep.server_sync {s : Duo σ τ} (hS : Keeps S sTodo) (h : s.InStep C S cTodo sTodo)
    {tracing : Bool} {y : SyncPc} {stay : SyncPc → τ} {leave : τ}
    (hstep : ∀ a, S.step s.server a = syncThen tracing y a stay leave) :
    (y = .read ∧ s.wire.toServer = []) ∨
      ∃ a w c, a.outOfBand = true ∧ (∀ now, a ≠ .clock now) ∧ s.wire.server a = some w ∧
        S.step s.server a = some c ∧
          ((∃ z : SyncPc, z.ahead < y.ahead ∧ c = stay z) ∨ c = leave) := by
  rcases syncThen_moves tracing y stay leave with rfl | ⟨a, c, ha, hband, hclock, hc⟩
  · cases hwire : s.wire.toServer with
    | nil => exact .inl ⟨rfl, rfl⟩
    | cons i rest =>
      obtain ⟨c, hc⟩ : ∃ c, S.step s.server (.read .barrier) = some c := ⟨_, hstep _⟩
      obtain rfl := h.head_eq_server hS hwire (.here hc)
      exact .inr ⟨.read .barrier, _, c, rfl, fun _ => Act.noConfusion, Wire.server_read hwire, hc,
        syncThen_ahead (hstep _ ▸ hc)⟩
  · obtain ⟨w, hw⟩ := Wire.exists_server (w := s.wire) ha
    exact .inr ⟨a, w, c, hband, hclock, hw, (hstep a).trans hc, syncThen_ahead hc⟩

/-- **Two programs in step are never both blocked.** -/
theorem Duo.InStep.not_both_blocked {s : Duo σ τ} (hC : Keeps C cTodo) (hS : Keeps S sTodo)
    (h₀ : Dual (cTodo C.init) (sTodo S.init)) (h : s.InStep C S cTodo sTodo) {j k : Item}
    (hj : AtRead C s.client j) (hk : AtRead S s.server k) :
    ¬(s.wire.toClient = [] ∧ s.wire.toServer = []) := by
  rintro ⟨hd, hc⟩
  obtain ⟨c, hc'⟩ := hj
  obtain ⟨t, ht'⟩ := hk
  have hlinked := h.linked
  have hclient := h.client
  have hserver := h.server
  rw [hd, hc, hC _ _ _ hc', hS _ _ _ ht'] at hlinked
  rw [hC _ _ _ hc'] at hclient
  rw [hS _ _ _ ht'] at hserver
  exact h₀.not_both_reading hclient hserver hlinked

end Duo

end RdmaBench
