import RdmaBench.Latency.Kept

/-!
# Every round trip completes

That the client leaves its loop is a measure, `distance`: the program points still
ahead of either side and the stations still ahead of every work request and every
message.  A post costs less than the point it is made at is worth, and an empty
poll is the only step of a wait that gains nothing.

As long as the client is in its loop, some step lowers the distance.  Whatever is
under way can move on; so if nothing lowers it, nothing is under way, and both
sides stand at an empty queue or at an empty channel.  That they never do both
(`not_both_stuck`) is the counts, where both wait, and the two sessions, where one
of them reads.
-/

namespace RdmaBench
namespace Latency

open Automaton Session

/-! ## The measure -/

def SyncPc.rank : SyncPc → ℕ
  | .reached => 4
  | .write => 3
  | .read => 2
  | .passed => 1

theorem SyncPc.rank_pos (s : SyncPc) : 0 < SyncPc.rank s := by
  cases s <;> decide

def Wait.rank (w : Wait) : ℕ :=
  match w.pc with
  | .start => 3
  | .check => 2
  | .poll => 1

theorem SyncPc.rank_enter (tracing : Bool) : SyncPc.rank (.enter tracing) ≤ 4 := by
  cases tracing <;> decide

/-- The points ahead of the client. -/
def PingCtl.rank (p : Setup) (c : PingCtl) : ℕ :=
  match c.pc with
  | .warmup s => 100 * p.iterations + 80 + SyncPc.rank s
  | .sleep => 100 * p.iterations + 80
  | .settled s => 100 * p.iterations + 75 + SyncPc.rank s
  | .postFirst => 100 * p.iterations + 75
  | .posted s => 100 * p.iterations + 70 + SyncPc.rank s
  | .head => 100 * (p.iterations - c.i) + 60
  | .send => 100 * (p.iterations - c.i) + 59
  | .wait w => 100 * (p.iterations - c.i) + 30 + w.rank
  | .record => 100 * (p.iterations - c.i) + 30
  | .repost => 100 * (p.iterations - c.i) + 29
  | .finish _ | .done => 0

/-- The points ahead of the server. -/
def PongCtl.rank (p : Setup) (c : PongCtl) : ℕ :=
  match c.pc with
  | .warmup s => 100 * p.iterations + 80 + SyncPc.rank s
  | .sleep => 100 * p.iterations + 80
  | .settled s => 100 * p.iterations + 75 + SyncPc.rank s
  | .postFirst => 100 * p.iterations + 75
  | .posted s => 100 * p.iterations + 70 + SyncPc.rank s
  | .wait w => 100 * (p.iterations - c.turn) + 60 + w.rank
  | .send => 100 * (p.iterations - c.turn) + 60
  | .repost => 100 * (p.iterations - c.turn) + 29
  | .finish _ | .done => 0

/-- The stations ahead of the requests of a side. -/
def Side.load {σ : Type} (s : Side σ) : ℕ :=
  24 * s.unsent + 8 * s.sent + 8 * s.landed + 4 * s.cq.length

def distance (p : Pairing) (s : PingPong) : ℕ :=
  s.client.ctl.rank p.client + s.server.ctl.rank p.server + s.client.load + s.server.load +
    12 * (s.pings + s.echoes)

/-- Some step under the conditions lowers the distance. -/
def Nears (p : Pairing) (s : PingPong) : Prop :=
  ∃ l t, Orderly s l ∧ (pingPong p).step s l = some t ∧ distance p t < distance p s

section Steps

variable {p : Pairing} {s : PingPong}

/-! ## What is under way moves on -/

theorem nears_transmit_ping (h : 0 < s.client.unsent) : Nears p s := by
  refine ⟨.transmit .client, _, ⟨trivial, trivial⟩, if_pos h, ?_⟩
  simp only [distance, Side.load, Side.transmit]
  omega

theorem nears_transmit_echo (h : 0 < s.server.unsent) : Nears p s := by
  refine ⟨.transmit .server, _, ⟨trivial, trivial⟩, if_pos h, ?_⟩
  simp only [distance, Side.load, Side.transmit]
  omega

theorem nears_land_ping (hpos : 0 < s.pings) (hpc : s.server.ctl.pc ≠ .repost)
    (hfree : 0 < s.server.free) : Nears p s := by
  refine ⟨.arrive .server, _, ⟨trivial, hpc⟩, (if_pos hpos).trans (if_pos hfree), ?_⟩
  simp only [distance, Side.load, Side.land]
  omega

theorem nears_land_echo (hpos : 0 < s.echoes) (hfree : 0 < s.client.free) : Nears p s := by
  refine ⟨.arrive .client, _, ⟨trivial, trivial⟩, (if_pos hpos).trans (if_pos hfree), ?_⟩
  simp only [distance, Side.load, Side.land]
  omega

/-- The device can complete what it has. -/
theorem Side.exists_complete {σ : Type} {q : Side σ} (h : 0 < q.sent ∨ 0 < q.landed) :
    ∃ c t, c.ok = true ∧ q.complete c = some t ∧ t.load < q.load ∧ t.ctl = q.ctl := by
  by_cases hsent : 0 < q.sent
  · refine ⟨sendDone, _, rfl, if_pos ⟨rfl, hsent⟩, ?_, rfl⟩
    simp only [Side.load, List.length_append, List.length_singleton]
    omega
  · have hlanded : 0 < q.landed := h.resolve_left hsent
    refine ⟨recvDone, _, rfl, (if_neg fun h => hsent h.2).trans (if_pos ⟨rfl, hlanded⟩), ?_, rfl⟩
    simp only [Side.load, List.length_append, List.length_singleton]
    omega

theorem nears_complete_client (h : 0 < s.client.sent ∨ 0 < s.client.landed) : Nears p s := by
  obtain ⟨c, t, hok, ht, hload, hctl⟩ := Side.exists_complete h
  refine ⟨.complete .client c, { s with client := t }, ⟨hok, trivial⟩, ?_, ?_⟩
  · show (s.client.complete c).map _ = _
    rw [ht]
    rfl
  · simp only [distance, hctl]
    omega

theorem nears_complete_server (h : 0 < s.server.sent ∨ 0 < s.server.landed) : Nears p s := by
  obtain ⟨c, t, hok, ht, hload, hctl⟩ := Side.exists_complete h
  refine ⟨.complete .server c, { s with server := t }, ⟨hok, trivial⟩, ?_, ?_⟩
  · show (s.server.complete c).map _ = _
    rw [ht]
    rfl
  · simp only [distance, hctl]
    omega

/-! ## A side that can move -/

/-- An act of the client that lowers its rank by more than it adds to its load. -/
theorem nears_client {a : Act} {w : Wire} {q : Side PingCtl} {c : PingCtl}
    (hC : Orderly s (.client a)) (hw : s.wire.client a = some w)
    (hq : s.client.perform a = some q) (hc : pingStep p.client s.client.ctl a = some c)
    (hlt : c.rank p.client + q.load < s.client.ctl.rank p.client + s.client.load) : Nears p s := by
  refine ⟨.client a, _, hC, step_client hw hq hc, ?_⟩
  simp only [distance, Side.load] at hlt ⊢
  omega

theorem nears_server {a : Act} {w : Wire} {q : Side PongCtl} {c : PongCtl}
    (hC : Orderly s (.server a)) (hw : s.wire.server a = some w)
    (hq : s.server.perform a = some q) (hc : pongStep p.server s.server.ctl a = some c)
    (hlt : c.rank p.server + q.load < s.server.ctl.rank p.server + s.server.load) : Nears p s := by
  refine ⟨.server a, _, hC, step_server hw hq hc, ?_⟩
  simp only [distance, Side.load] at hlt ⊢
  omega

/-! ## Inside a `sync` -/

theorem orderly_client {a : Act} (h : s.client.ctl.pc.waiting = none) :
    Orderly s (.client a) := by
  constructor <;> intro w hw <;> rw [h] at hw <;> exact absurd hw (Option.not_mem_none w)

theorem orderly_server {a : Act} (h : s.server.ctl.pc.waiting = none) :
    Orderly s (.server a) := by
  constructor <;> intro w hw <;> rw [h] at hw <;> exact absurd hw (Option.not_mem_none w)

/-- The client inside a `sync`, not at an empty channel. -/
theorem nears_client_sync {q : SyncPc} {stay : SyncPc → PingCtl} {leave : PingCtl}
    (hstep : ∀ a, pingStep p.client s.client.ctl a =
      syncThen p.client.tracing q a stay leave)
    (hwait : s.client.ctl.pc.waiting = none)
    (hread : q = .read → s.wire.toClient.head? = some .barrier)
    (hstay : ∀ r, SyncPc.rank r < SyncPc.rank q →
      (stay r).rank p.client < s.client.ctl.rank p.client)
    (hleave : leave.rank p.client < s.client.ctl.rank p.client) : Nears p s := by
  cases q with
  | reached =>
    exact nears_client (orderly_client hwait) (a := .skip) rfl rfl ((hstep _).trans rfl)
      (Nat.add_lt_add_right (hstay .write (by decide)) _)
  | write =>
    exact nears_client (orderly_client hwait) (a := .write .barrier) rfl rfl
      ((hstep _).trans rfl) (Nat.add_lt_add_right (hstay .read (by decide)) _)
  | read =>
    have hw : s.wire.client (.read .barrier) =
        some { s.wire with toClient := s.wire.toClient.tail } := if_pos (hread rfl)
    cases htr : p.client.tracing with
    | true =>
      refine nears_client (orderly_client hwait) hw rfl ((hstep _).trans ?_)
        (Nat.add_lt_add_right (hstay .passed (by decide)) _)
      rw [htr]
      rfl
    | false =>
      refine nears_client (orderly_client hwait) hw rfl ((hstep _).trans ?_)
        (Nat.add_lt_add_right hleave _)
      rw [htr]
      rfl
  | passed =>
    exact nears_client (orderly_client hwait) (a := .skip) rfl rfl ((hstep _).trans rfl)
      (Nat.add_lt_add_right hleave _)

/-- The server inside a `sync`, not at an empty channel. -/
theorem nears_server_sync {q : SyncPc} {stay : SyncPc → PongCtl} {leave : PongCtl}
    (hstep : ∀ a, pongStep p.server s.server.ctl a =
      syncThen p.server.tracing q a stay leave)
    (hwait : s.server.ctl.pc.waiting = none)
    (hread : q = .read → s.wire.toServer.head? = some .barrier)
    (hstay : ∀ r, SyncPc.rank r < SyncPc.rank q →
      (stay r).rank p.server < s.server.ctl.rank p.server)
    (hleave : leave.rank p.server < s.server.ctl.rank p.server) : Nears p s := by
  cases q with
  | reached =>
    exact nears_server (orderly_server hwait) (a := .skip) rfl rfl ((hstep _).trans rfl)
      (Nat.add_lt_add_right (hstay .write (by decide)) _)
  | write =>
    exact nears_server (orderly_server hwait) (a := .write .barrier) rfl rfl
      ((hstep _).trans rfl) (Nat.add_lt_add_right (hstay .read (by decide)) _)
  | read =>
    have hw : s.wire.server (.read .barrier) =
        some { s.wire with toServer := s.wire.toServer.tail } := if_pos (hread rfl)
    cases htr : p.server.tracing with
    | true =>
      refine nears_server (orderly_server hwait) hw rfl ((hstep _).trans ?_)
        (Nat.add_lt_add_right (hstay .passed (by decide)) _)
      rw [htr]
      rfl
    | false =>
      refine nears_server (orderly_server hwait) hw rfl ((hstep _).trans ?_)
        (Nat.add_lt_add_right hleave _)
      rw [htr]
      rfl
  | passed =>
    exact nears_server (orderly_server hwait) (a := .skip) rfl rfl ((hstep _).trans rfl)
      (Nat.add_lt_add_right hleave _)

/-! ## Inside a wait -/

/-- A contact of a wait that gains something: it ends well, or it lowers the rank by
more than it adds to the load. -/
def Wait.Gains {σ : Type} (w : Wait) (s q : Side σ) : Wait ⊕ WaitEnd → Prop
  | .inl v => v.rank + q.load < w.rank + s.load
  | .inr .ok => q.load < w.rank + s.load
  | .inr _ => False

theorem Wait.gains_head {σ : Type} {w v : Wait} {s q : Side σ}
    (h : 1 + q.load < v.rank + s.load) : v.Gains s q w.head := by
  unfold Wait.head
  split
  · show q.load < v.rank + s.load
    omega
  · exact h

/-- **A wait can gain something**, unless it polls an empty queue.  The clock need
not move for it. -/
theorem Wait.Awaits.exists_gain {σ : Type} {w : Wait} {s : Side σ} {a b : Bool}
    (h : w.Awaits s.clock a b) (hok : ∀ c ∈ s.cq, c.ok = true)
    (hcq : w.pc = .poll → s.cq ≠ []) :
    ∃ act q r, s.perform act = some q ∧ waitStep w act = some r ∧ w.Gains s q r ∧
      ∀ v : Wire, v.client act = some v ∧ v.server act = some v := by
  cases hpc : w.pc with
  | start =>
    refine ⟨.clock s.clock, s, { w with deadline := s.clock + idleTimeout }.head,
      if_pos (Nat.le_refl _), ?_, Wait.gains_head ?_, fun v => ⟨rfl, rfl⟩⟩
    · simp only [waitStep, hpc]
    · simp only [Wait.rank, hpc]
      omega
  | check =>
    have hdead := h.deadline (by rw [hpc]; exact WaitPc.noConfusion)
    refine ⟨.clock s.clock, s, { w with turn := w.turn + 1 }.head,
      if_pos (Nat.le_refl _), ?_, Wait.gains_head ?_, fun v => ⟨rfl, rfl⟩⟩
    · simp only [waitStep, hpc, if_neg (Nat.not_le.mpr hdead)]
    · simp only [Wait.rank, hpc]
      omega
  | poll =>
    obtain ⟨c, rest, hc⟩ := List.exists_cons_of_ne_nil (hcq hpc)
    have hpre : [c] <+: s.cq := ⟨rest, hc.symm⟩
    have hlen : [c].length ≤ 2 := Nat.le_succ 1
    have habs : absorb w.pending [c] = some (w.pending &&& ~~~UInt64.ofNat c.wrId) := by
      rw [absorb, if_pos (hok c (by rw [hc]; exact List.mem_cons_self)), absorb]
    have hload : ∀ q : Side σ, s.perform (.poll [c]) = some q → q.load + 4 = s.load := by
      intro q hq
      rw [Side.perform, if_pos hpre] at hq
      rw [← Option.some.inj hq]
      simp only [Side.load, hc, List.length_cons, List.length_nil, List.drop_succ_cons,
        List.drop_zero]
      omega
    by_cases hturn : w.turn % 100 = 0
    · refine ⟨.poll [c], _, _, if_pos hpre,
        (WaitMove.pollCheck hpc hlen habs hturn).step, ?_, fun v => ⟨rfl, rfl⟩⟩
      have := hload _ (if_pos hpre)
      simp only [Wait.Gains, Wait.rank, hpc]
      omega
    · refine ⟨.poll [c], _, _, if_pos hpre,
        (WaitMove.poll hpc hlen habs hturn).step, Wait.gains_head ?_,
        fun v => ⟨rfl, rfl⟩⟩
      have := hload _ (if_pos hpre)
      simp only [Wait.rank, hpc]
      omega

/-! ## Who can be stuck -/

/-- The client at a read before its loop with nothing to read, or polling an empty
queue. -/
def PingStuck (p : Pairing) (s : PingPong) : Prop :=
  (AtRead (pingProgram p.client) s.client.ctl .barrier ∧
    2 ≤ (reads s.client.ctl.todo).length ∧ s.wire.toClient = []) ∨
  ∃ w, s.client.ctl.pc = .wait w ∧ w.pc = .poll ∧ s.client.cq = []

/-- The server the same, or past its loop. -/
def PongStuck (p : Pairing) (s : PingPong) : Prop :=
  (AtRead (pongProgram p.server) s.server.ctl .barrier ∧
    2 ≤ (reads s.server.ctl.todo).length ∧ s.wire.toServer = []) ∨
  (∃ w, s.server.ctl.pc = .wait w ∧ w.pc = .poll ∧ s.server.cq = []) ∨
  s.server.ctl.pc.past = true

theorem PingCtl.rank_next_lt (p : Setup) (c : PingCtl) {i n : ℕ}
    (h : 100 * (p.iterations - i) + 60 < n) : (c.next p i).rank p < n := by
  unfold PingCtl.next
  split
  · exact h
  · show 0 < n
    omega

theorem PongCtl.rank_next_lt (p : Setup) (c : PongCtl) {turn n : ℕ}
    (h : 100 * (p.iterations - turn) + 63 < n) : (c.next p turn).rank p < n := by
  unfold PongCtl.next
  split
  · exact h
  · show 0 < n
    omega

/-- The client at a `sync` before its loop: it can move, or it is stuck. -/
theorem ping_sync (hin : s.duo.InStep (pingProgram p.client) (pongProgram p.server)
      PingCtl.todo PongCtl.todo) {q : SyncPc} (stay : SyncPc → PingCtl) (leave : PingCtl) {n : ℕ}
    (hstep : ∀ a, pingStep p.client s.client.ctl a = syncThen p.client.tracing q a stay leave)
    (hwait : s.client.ctl.pc.waiting = none)
    (htodo : s.client.ctl.todo = q.todo ++ barriers (n + 1))
    (hstay : ∀ r, SyncPc.rank r < SyncPc.rank q →
      (stay r).rank p.client < s.client.ctl.rank p.client)
    (hleave : leave.rank p.client < s.client.ctl.rank p.client) :
    Nears p s ∨ PingStuck p s := by
  by_cases hq : q = .read
  · subst hq
    have hat : AtRead (pingProgram p.client) s.client.ctl .barrier := by
      show ∃ t, pingStep p.client s.client.ctl (.read .barrier) = some t
      rw [hstep]
      exact ⟨_, rfl⟩
    cases hch : s.wire.toClient with
    | nil =>
      refine .inr (.inl ⟨hat, ?_, hch⟩)
      rw [htodo, reads_append, reads_barriers]
      simp [SyncPc.todo]
    | cons j rest =>
      obtain ⟨t, ht⟩ := hat
      obtain rfl := hin.head_eq_client (ping_keeps _) hch (.here ht)
      exact .inl (nears_client_sync hstep hwait (fun _ => by rw [hch]; rfl) hstay hleave)
  · exact .inl (nears_client_sync hstep hwait (fun h => absurd h hq) hstay hleave)

/-- **The client can move, or it is stuck**, as long as it is in its loop or before
it. -/
theorem ping_nears_or_stuck (hs : PingSound p.client s.client) (hk : PingKept p.client s.client)
    (hin : s.duo.InStep (pingProgram p.client) (pongProgram p.server)
      PingCtl.todo PongCtl.todo)
    (hpast : s.client.ctl.pc.past = false) : Nears p s ∨ PingStuck p s := by
  have hrun := hk.running
  have hat := hs.at_pc
  have hnorun : ¬s.client.ctl.failed = true := by rw [hrun]; exact Bool.noConfusion
  cases hpc : s.client.ctl.pc with
  | warmup q =>
    have hq := SyncPc.rank_pos q
    refine ping_sync hin (q := q) (fun q => { s.client.ctl with pc := .warmup q })
      { s.client.ctl with pc := .sleep } (n := 2) (fun a => ?_) (by rw [hpc]; rfl) ?_
      (fun r hr => ?_) ?_
    · simp only [pingStep, hpc, if_neg hnorun]
    · rw [PingCtl.todo, hpc]
      rfl
    · simp only [PingCtl.rank, hpc]
      omega
    · simp only [PingCtl.rank, hpc]
      omega
  | sleep =>
    refine .inl (nears_client (orderly_client (by rw [hpc]; rfl)) (a := .skip) rfl rfl
      (c := { s.client.ctl with pc := .settled (.enter p.client.tracing) }) ?_ ?_)
    · simp only [pingStep, hpc, if_neg hnorun, expect, if_true]
    · have hq := SyncPc.rank_enter p.client.tracing
      simp only [PingCtl.rank, hpc]
      omega
  | settled q =>
    have hq := SyncPc.rank_pos q
    refine ping_sync hin (q := q) (fun q => { s.client.ctl with pc := .settled q })
      { s.client.ctl with pc := .postFirst } (n := 1) (fun a => ?_) (by rw [hpc]; rfl) ?_
      (fun r hr => ?_) ?_
    · simp only [pingStep, hpc, if_neg hnorun]
    · rw [PingCtl.todo, hpc]
      rfl
    · simp only [PingCtl.rank, hpc]
      omega
    · simp only [PingCtl.rank, hpc]
      omega
  | postFirst =>
    refine .inl (nears_client (orderly_client (by rw [hpc]; rfl)) (a := .postReceive 0 wrRecv)
      rfl rfl (c := { s.client.ctl with pc := .posted (.enter p.client.tracing) }) ?_ ?_)
    · simp only [pingStep, hpc, if_neg hnorun, expect, if_true]
    · have hq := SyncPc.rank_enter p.client.tracing
      simp only [PingCtl.rank, hpc, Side.load]
      omega
  | posted q =>
    have hq := SyncPc.rank_pos q
    refine ping_sync hin (q := q) (fun q => { s.client.ctl with pc := .posted q })
      (s.client.ctl.next p.client 0) (n := 0) (fun a => ?_) (by rw [hpc]; rfl) ?_
      (fun r hr => ?_) (PingCtl.rank_next_lt _ _ ?_)
    · simp only [pingStep, hpc, if_neg hnorun]
    · rw [PingCtl.todo, hpc]
      rfl
    · simp only [PingCtl.rank, hpc]
      omega
    · simp only [PingCtl.rank, hpc]
      omega
  | head =>
    refine .inl (nears_client (orderly_client (by rw [hpc]; rfl)) (a := .clock s.client.clock)
      rfl (if_pos (Nat.le_refl _))
      (c := { s.client.ctl with pc := .send, t0 := s.client.clock }) ?_ ?_)
    · simp only [pingStep, hpc, if_neg hnorun]
    · simp only [PingCtl.rank, hpc, Side.load]
      omega
  | send =>
    refine .inl (nears_client (orderly_client (by rw [hpc]; rfl)) (a := .postSend 0 wrSend)
      rfl rfl (c := { s.client.ctl with pc := .wait (.enter 3) }) ?_ ?_)
    · simp only [pingStep, hpc, if_neg hnorun, expect, if_true]
    · simp only [PingCtl.rank, hpc, Side.load, Wait.rank, Wait.enter]
      omega
  | wait w =>
    simp only [PingAt, hpc] at hat
    obtain ⟨-, -, -, -, hwait⟩ := hat
    obtain ⟨a, b, hawaits, -, -⟩ := hwait hrun
    by_cases hempty : w.pc = .poll ∧ s.client.cq = []
    · exact .inr (.inr ⟨w, hpc, hempty⟩)
    · obtain ⟨act, q, r, hq, hr, hgain, hwire⟩ :=
        hawaits.exists_gain hk.ok fun h hcq => hempty ⟨h, hcq⟩
      refine .inl (nears_client ?_ (hwire _).1 hq
        (c := Sum.elim (fun w => { s.client.ctl with pc := .wait w })
          (s.client.ctl.waited p.client) r) ?_ ?_)
      · refine ⟨fun v hv _ hexp => ?_, fun v hv _ hexp => ?_⟩ <;>
        · rw [hpc] at hv
          obtain rfl := Option.some.inj hv
          rw [Expires, hr] at hexp
          rw [Option.some.inj hexp] at hgain
          exact hgain
      · simp only [pingStep, hpc, if_neg hnorun, waitThen, hr, Option.map_some]
      · cases r with
        | inl v =>
          have hlt : v.rank + q.load < w.rank + s.client.load := hgain
          simp only [Sum.elim_inl, PingCtl.rank, hpc]
          omega
        | inr e =>
          cases e with
          | ok =>
            have hlt : q.load < w.rank + s.client.load := hgain
            simp only [Sum.elim_inr, PingCtl.waited, PingCtl.rank, hpc]
            omega
          | timedOut | error => exact hgain.elim
  | record =>
    simp only [PingAt, hpc] at hat
    refine .inl (nears_client (orderly_client (by rw [hpc]; rfl)) (a := .clock s.client.clock)
      rfl (if_pos (Nat.le_refl _)) (c := s.client.ctl.recorded p.client s.client.clock) ?_ ?_)
    · simp only [pingStep, hpc, if_neg hnorun]
    · unfold PingCtl.recorded
      split
      · simp only [PingCtl.rank, hpc, Side.load]
        omega
      · refine Nat.add_lt_add_right (PingCtl.rank_next_lt _ _ ?_) _
        simp only [PingCtl.rank, hpc]
        omega
  | repost =>
    simp only [PingAt, hpc] at hat
    refine .inl (nears_client (orderly_client (by rw [hpc]; rfl)) (a := .postReceive 0 wrRecv)
      rfl rfl (c := s.client.ctl.next p.client (s.client.ctl.i + 1)) ?_ ?_)
    · simp only [pingStep, hpc, if_neg hnorun, expect, if_true]
    · refine Nat.add_lt_add_right (PingCtl.rank_next_lt _ _ ?_) _
      simp only [PingCtl.rank, hpc]
      omega
  | finish q | done =>
    rw [hpc] at hpast
    exact absurd hpast Bool.noConfusion

/-- The server at a `sync` before its loop. -/
theorem pong_sync (hin : s.duo.InStep (pingProgram p.client) (pongProgram p.server)
      PingCtl.todo PongCtl.todo) {q : SyncPc} (stay : SyncPc → PongCtl) (leave : PongCtl) {n : ℕ}
    (hstep : ∀ a, pongStep p.server s.server.ctl a = syncThen p.server.tracing q a stay leave)
    (hwait : s.server.ctl.pc.waiting = none)
    (htodo : s.server.ctl.todo = q.todo ++ barriers (n + 1))
    (hstay : ∀ r, SyncPc.rank r < SyncPc.rank q →
      (stay r).rank p.server < s.server.ctl.rank p.server)
    (hleave : leave.rank p.server < s.server.ctl.rank p.server) :
    Nears p s ∨ PongStuck p s := by
  by_cases hq : q = .read
  · subst hq
    have hat : AtRead (pongProgram p.server) s.server.ctl .barrier := by
      show ∃ t, pongStep p.server s.server.ctl (.read .barrier) = some t
      rw [hstep]
      exact ⟨_, rfl⟩
    cases hch : s.wire.toServer with
    | nil =>
      refine .inr (.inl ⟨hat, ?_, hch⟩)
      rw [htodo, reads_append, reads_barriers]
      simp [SyncPc.todo]
    | cons j rest =>
      obtain ⟨t, ht⟩ := hat
      obtain rfl := hin.head_eq_server (pong_keeps _) hch (.here ht)
      exact .inl (nears_server_sync hstep hwait (fun _ => by rw [hch]; rfl) hstay hleave)
  · exact .inl (nears_server_sync hstep hwait (fun h => absurd h hq) hstay hleave)

/-- **The server can move, or it is stuck.** -/
theorem pong_nears_or_stuck (hs : PongSound p.server s.server) (hk : PongKept p.server s.server)
    (hin : s.duo.InStep (pingProgram p.client) (pongProgram p.server)
      PingCtl.todo PongCtl.todo) : Nears p s ∨ PongStuck p s := by
  have hat := hs.at_pc
  cases hpc : s.server.ctl.pc with
  | warmup q =>
    have hq := SyncPc.rank_pos q
    refine pong_sync hin (q := q) (fun q => { s.server.ctl with pc := .warmup q })
      { s.server.ctl with pc := .sleep } (n := 2) (fun a => ?_) (by rw [hpc]; rfl) ?_
      (fun r hr => ?_) ?_
    · simp only [pongStep, hpc]
    · rw [PongCtl.todo, hpc]
      rfl
    · simp only [PongCtl.rank, hpc]
      omega
    · simp only [PongCtl.rank, hpc]
      omega
  | sleep =>
    refine .inl (nears_server (orderly_server (by rw [hpc]; rfl)) (a := .skip) rfl rfl
      (c := { s.server.ctl with pc := .settled (.enter p.server.tracing) }) ?_ ?_)
    · simp only [pongStep, hpc, expect, if_true]
    · have hq := SyncPc.rank_enter p.server.tracing
      simp only [PongCtl.rank, hpc]
      omega
  | settled q =>
    have hq := SyncPc.rank_pos q
    refine pong_sync hin (q := q) (fun q => { s.server.ctl with pc := .settled q })
      { s.server.ctl with pc := .postFirst } (n := 1) (fun a => ?_) (by rw [hpc]; rfl) ?_
      (fun r hr => ?_) ?_
    · simp only [pongStep, hpc]
    · rw [PongCtl.todo, hpc]
      rfl
    · simp only [PongCtl.rank, hpc]
      omega
    · simp only [PongCtl.rank, hpc]
      omega
  | postFirst =>
    refine .inl (nears_server (orderly_server (by rw [hpc]; rfl)) (a := .postReceive 0 wrRecv)
      rfl rfl (c := { s.server.ctl with pc := .posted (.enter p.server.tracing) }) ?_ ?_)
    · simp only [pongStep, hpc, expect, if_true]
    · have hq := SyncPc.rank_enter p.server.tracing
      simp only [PongCtl.rank, hpc, Side.load]
      omega
  | posted q =>
    have hq := SyncPc.rank_pos q
    refine pong_sync hin (q := q) (fun q => { s.server.ctl with pc := .posted q })
      (s.server.ctl.next p.server 0) (n := 0) (fun a => ?_) (by rw [hpc]; rfl) ?_
      (fun r hr => ?_) (PongCtl.rank_next_lt _ _ ?_)
    · simp only [pongStep, hpc]
    · rw [PongCtl.todo, hpc]
      rfl
    · simp only [PongCtl.rank, hpc]
      omega
    · simp only [PongCtl.rank, hpc]
      omega
  | wait w =>
    simp only [PongAt, hpc] at hat
    obtain ⟨-, -, -, b, hawaits, -⟩ := hat
    by_cases hempty : w.pc = .poll ∧ s.server.cq = []
    · exact .inr (.inr (.inl ⟨w, hpc, hempty⟩))
    · obtain ⟨act, q, r, hq, hr, hgain, hwire⟩ :=
        hawaits.exists_gain hk.ok fun h hcq => hempty ⟨h, hcq⟩
      refine .inl (nears_server ?_ (hwire _).2 hq
        (c := Sum.elim (fun w => { s.server.ctl with pc := .wait w })
          (s.server.ctl.waited p.server) r) ?_ ?_)
      · refine ⟨fun v hv _ hexp => ?_, fun v hv _ hexp => ?_⟩ <;>
        · rw [hpc] at hv
          obtain rfl := Option.some.inj hv
          rw [Expires, hr] at hexp
          rw [Option.some.inj hexp] at hgain
          exact hgain
      · simp only [pongStep, hpc, waitThen, hr, Option.map_some]
      · cases r with
        | inl v =>
          have hlt : v.rank + q.load < w.rank + s.server.load := hgain
          simp only [Sum.elim_inl, PongCtl.rank, hpc]
          omega
        | inr e =>
          cases e with
          | ok =>
            have hlt : q.load < w.rank + s.server.load := hgain
            simp only [Sum.elim_inr, PongCtl.waited, PongCtl.rank, hpc]
            omega
          | timedOut | error => exact hgain.elim
  | send =>
    refine .inl (nears_server (orderly_server (by rw [hpc]; rfl)) (a := .postSend 0 wrSend)
      rfl rfl (c := { s.server.ctl with pc := .repost }) ?_ ?_)
    · simp only [pongStep, hpc, expect, if_true]
    · simp only [PongCtl.rank, hpc, Side.load]
      omega
  | repost =>
    simp only [PongAt, hpc] at hat
    have hturn : s.server.ctl.turn < p.server.iterations := hat.1
    refine .inl (nears_server (orderly_server (by rw [hpc]; rfl)) (a := .postReceive 0 wrRecv)
      rfl rfl (c := PongCtl.next p.server { s.server.ctl with echoed := s.server.ctl.echoed + 1 }
        (s.server.ctl.turn + 1)) ?_ ?_)
    · simp only [pongStep, hpc, expect, if_true]
    · refine Nat.add_lt_add_right (PongCtl.rank_next_lt _ _ ?_) _
      simp only [PongCtl.rank, hpc]
      omega
  | finish q | done =>
    refine .inr (.inr (.inr ?_))
    rw [hpc]
    rfl

/-- A wait that polls is pending on something. -/
theorem Wait.Awaits.pending_of_poll {w : Wait} {clock : ℕ} {a b : Bool} (h : w.Awaits clock a b)
    (hpc : w.pc = .poll) : ¬(a = false ∧ b = false) := by
  intro hab
  exact h.polling hpc (h.pending.trans (mask_eq_zero.mpr hab))

theorem length_writes_todo_le (s : SyncPc) : (writes s.todo).length ≤ 1 := by
  cases s <;> decide

/-- A server in its loop or past it has at most one barrier left to write. -/
theorem PongCtl.writes_le_one {c : PongCtl} (h : (∃ w, c.pc = .wait w) ∨ c.pc.past = true) :
    (writes c.todo).length ≤ 1 := by
  rcases h with ⟨w, hpc⟩ | hpast
  · rw [PongCtl.todo, hpc, PongPc.phase]
    decide
  · unfold PongCtl.todo
    unfold PongPc.past at hpast
    split at hpast
    · next hpc =>
      rw [hpc, PongPc.phase, Phase.todo, barriers, List.append_nil]
      exact length_writes_todo_le _
    · next hpc =>
      rw [hpc]
      exact Nat.zero_le _
    · exact absurd hpast Bool.noConfusion

/-- One of them at a read before its loop: the other is not beyond it, nor at a read
too. -/
theorem not_stuck_at_read (hin : s.duo.InStep (pingProgram p.client) (pongProgram p.server)
      PingCtl.todo PongCtl.todo) (hping : PingStuck p s) (hpong : PongStuck p s) :
    (∃ w, s.client.ctl.pc = .wait w ∧ w.pc = .poll ∧ s.client.cq = []) ∧
      ((∃ w, s.server.ctl.pc = .wait w ∧ w.pc = .poll ∧ s.server.cq = []) ∨
        s.server.ctl.pc.past = true) := by
  have hleft := congrArg List.length hin.linked.left
  have hright := congrArg List.length hin.linked.right
  simp only [PingPong.duo, List.length_append] at hleft hright
  rcases hping with ⟨hat, hreads, hempty⟩ | ⟨w, hpc, hw⟩
  · exfalso
    rcases hpong with ⟨hat', -, hempty'⟩ | hpong
    · have hdual : Dual (PingCtl.todo (pingProgram p.client).init)
          (PongCtl.todo (pongProgram p.server).init) := by
        show Dual ((SyncPc.enter _).todo ++ barriers 3) ((SyncPc.enter _).todo ++ barriers 3)
        rw [todo_enter_append, todo_enter_append]
        exact dual_barriers 4
      exact hin.not_both_blocked (ping_keeps _) (pong_keeps _) hdual hat hat' ⟨hempty, hempty'⟩
    · have hwrites := PongCtl.writes_le_one (hpong.imp_left fun h => h.imp fun _ hw => hw.1)
      rw [hempty, List.length_nil] at hleft
      omega
  · refine ⟨⟨w, hpc, hw⟩, hpong.resolve_left fun hread => ?_⟩
    obtain ⟨-, hreads, hempty⟩ := hread
    have hwrites : (writes s.client.ctl.todo).length = 1 := by
      rw [PingCtl.todo, hpc]
      rfl
    rw [hempty, List.length_nil] at hright
    omega

/-- The device has nothing in hand. -/
def Side.Idle {σ : Type} (s : Side σ) : Prop := s.unsent = 0 ∧ s.sent = 0 ∧ s.landed = 0

/-- **With nothing under way, the two are never both stuck.** -/
theorem not_both_stuck (h : (pingPong p).ReachableUnder Orderly s) (hclient : s.client.Idle)
    (hidle : s.server.Idle) (hpings : s.pings = 0) (hechoes : s.echoes = 0)
    (hping : PingStuck p s) (hpong : PongStuck p s) : False := by
  obtain ⟨hcunsent, hcsent, hclanded⟩ := hclient
  obtain ⟨hsunsent, hssent, hslanded⟩ := hidle
  obtain ⟨hsping, hspong⟩ := pingPong_sound p h.reachable
  obtain ⟨hkping, hkpong⟩ := pingPong_kept p h
  obtain ⟨hflowp, hflowe⟩ := pingPong_flow p h.reachable
  obtain ⟨hlostp, hloste⟩ := nothing_lost p (h.mono fun _ _ hC => hC.2)
  obtain ⟨⟨w, hpc, hpoll, hcq⟩, hserver⟩ :=
    not_stuck_at_read (pingPong_inStep p h.reachable) hping hpong
  have hcsends := hsping.balanced.sends
  have hcrecvs := hsping.balanced.recvs
  have hssends := hspong.balanced.sends
  have hsrecvs := hspong.balanced.recvs
  have hat := hsping.at_pc
  simp only [PingAt, hpc] at hat
  obtain ⟨hi, -, hsends, hrecvs, hwait⟩ := hat
  obtain ⟨a, b, hawaits, hsp, hrp⟩ := hwait hkping.running
  rw [hcq] at hcsends hcrecvs
  have hzero : sendsIn [] = 0 ∧ recvsIn [] = 0 := ⟨rfl, rfl⟩
  -- the client's send is polled, so it is the echo that it waits for
  have ha : a.toNat = 0 := by omega
  have hb : b.toNat = 1 := by
    have hpend := hawaits.pending_of_poll hpoll
    cases a <;> cases b <;> simp_all
  rcases hserver with ⟨v, hpc', hpoll', hscq⟩ | hpast
  · have hat' := hspong.at_pc
    simp only [PongAt, hpc'] at hat'
    obtain ⟨-, hsends', hrecvs', b', hawaits', hrp'⟩ := hat'
    have hb' : b'.toNat = 1 := by
      have hpend := hawaits'.pending_of_poll hpoll'
      cases b' <;> simp_all
    rw [hscq] at hssends hsrecvs
    omega
  · have hechoed := hkpong.echoed hpast
    have hn : p.client.iterations = p.server.iterations := rfl
    omega

/-- **As long as the client is in its loop or before it, some step brings the end
nearer.** -/
theorem nears_of_not_past (h : (pingPong p).ReachableUnder Orderly s)
    (hpast : ¬s.client.ctl.pc.past = true) : Nears p s := by
  obtain ⟨hsping, hspong⟩ := pingPong_sound p h.reachable
  obtain ⟨hkping, hkpong⟩ := pingPong_kept p h
  have hin := pingPong_inStep p h.reachable
  by_contra hno
  have hping :=
    (ping_nears_or_stuck hsping hkping hin (Bool.not_eq_true _ ▸ hpast)).resolve_left hno
  have hpong := (pong_nears_or_stuck hspong hkpong hin).resolve_left hno
  have hclient : s.client.Idle := by
    refine ⟨?_, ?_, ?_⟩ <;> refine Nat.eq_zero_of_not_pos fun hpos => hno ?_
    · exact nears_transmit_ping hpos
    · exact nears_complete_client (.inl hpos)
    · exact nears_complete_client (.inr hpos)
  have hidle : s.server.Idle := by
    refine ⟨?_, ?_, ?_⟩ <;> refine Nat.eq_zero_of_not_pos fun hpos => hno ?_
    · exact nears_transmit_echo hpos
    · exact nears_complete_server (.inl hpos)
    · exact nears_complete_server (.inr hpos)
  have hechoes : s.echoes = 0 := Nat.eq_zero_of_not_pos fun hpos =>
    hno (nears_land_echo hpos (echo_finds_receive p h.reachable hpos))
  have hrepost : s.server.ctl.pc ≠ .repost := by
    intro hpc
    rcases hpong with ⟨⟨t, ht⟩, -⟩ | ⟨w, hw, -⟩ | hpast
    · have hstep : pongStep p.server s.server.ctl (.read .barrier) = some t := ht
      simp [pongStep, hpc, expect] at hstep
    · rw [hpc] at hw
      exact PongPc.noConfusion hw
    · rw [hpc] at hpast
      exact Bool.noConfusion hpast
  have hpings : s.pings = 0 := Nat.eq_zero_of_not_pos fun hpos =>
    hno (nears_land_ping hpos hrepost ((ping_finds_receive p h.reachable hpos).mpr hrepost))
  exact not_both_stuck h hclient hidle hpings hechoes hping hpong

end Steps

/-! ## The whole run -/

/-- **Every round trip completes.**  As long as no ping arrives at `repost`, every
message that arrives finds a receive posted and none is lost.  If besides no
completion fails and no wait gives up, the client leaves its loop only with a
sample of every round trip, and it can always come to that. -/
theorem round_trips_complete (p : Pairing) :
    (∀ s, (pingPong p).ReachableUnder Timely s →
      (∀ l t, Timely s l → (pingPong p).step s l = some t →
        (l = .arrive .server → 0 < s.server.free) ∧ (l = .arrive .client → 0 < s.client.free)) ∧
      s.lostPings = 0 ∧ s.lostEchoes = 0) ∧
    ∀ s, (pingPong p).ReachableUnder (fun s l => Steady s l ∧ Timely s l) s →
      (s.client.ctl.pc.past = true → s.client.ctl.samples.length = p.iterations) ∧
      ∃ t, ((pingPong p).startAt s).ReachableUnder (fun s l => Steady s l ∧ Timely s l) t ∧
        t.client.ctl.pc.past = true ∧ t.client.ctl.samples.length = p.iterations := by
  refine ⟨fun s h => ⟨fun l t hC hstep => ⟨?_, ?_⟩, nothing_lost p h⟩, fun s h => ⟨?_, ?_⟩⟩
  · rintro rfl
    have hpos : 0 < s.pings := by
      cases Move.of_step hstep with
      | landPing hpos _ | losePing hpos _ => exact hpos
    exact (ping_finds_receive p h.reachable hpos).mpr hC
  · rintro rfl
    have hpos : 0 < s.echoes := by
      cases Move.of_step hstep with
      | landEcho hpos _ | loseEcho hpos _ => exact hpos
    exact echo_finds_receive p h.reachable hpos
  · exact (pingPong_kept p h).1.collected
  · obtain ⟨t, ht, hpast⟩ := h.exists_goal (distance p) (fun s hs => nears_of_not_past hs)
    have hreach : (pingPong p).ReachableUnder Orderly t := h.trans ht
    exact ⟨t, ht, hpast, (pingPong_kept p hreach).1.collected hpast⟩

/-- **A ping that comes too early, and a sample that comes too late.**  In a run of
two round trips in which no wait gives up, the second ping is lost at `repost`.  In
a run of one, the client has got both its completions and leaves its loop without
the sample. -/
theorem ping_lost_and_sample_missed :
    (∃ s, (pingPong ⟨false, false, 2⟩).ReachableUnder Steady s ∧ s.lostPings = 1) ∧
      ∃ s, (pingPong ⟨false, false, 1⟩).ReachableUnder Steady s ∧
        s.client.ctl.pc.past = true ∧ s.client.ctl.samples.length = 0 := by
  constructor
  · obtain ⟨s, hs, hlost⟩ := System.Reachable.exists_of_run
      (S := (pingPong ⟨false, false, 2⟩).restrict Steady) (p := fun s => decide (s.lostPings = 1))
      (toLoops ++ pingOver ++ pongWoken [recvDone] ++
        [.server (.postSend 0 wrSend), .transmit .server, .arrive .client] ++ pingWoken ++
        .client (.postReceive 0 wrRecv) :: pingOver) (by decide)
    exact ⟨s, .of_restrict hs, of_decide_eq_true hlost⟩
  · obtain ⟨s, hs, hmissed⟩ := System.Reachable.exists_of_run
      (S := (pingPong ⟨false, false, 1⟩).restrict Steady)
      (p := fun s => decide (s.client.ctl.pc.past = true ∧ s.client.ctl.samples.length = 0))
      (toLoops ++ pingOver ++ pongWoken [recvDone] ++ echoOver ++
        [.complete .client sendDone, .complete .client recvDone,
          .client (.poll [sendDone, recvDone]), .client (.clock idleTimeout)]) (by decide)
    exact ⟨s, .of_restrict hs, of_decide_eq_true hmissed⟩

end Latency
end RdmaBench
