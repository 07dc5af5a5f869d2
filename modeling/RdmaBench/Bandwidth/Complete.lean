import RdmaBench.Bandwidth.Stream

/-!
# A bandwidth run can always be completed

As long as nothing is dropped and the receiver does not give up, every run of the two
sides can be continued to the point where both have returned `Ok` and everything has
arrived, whatever the two depths are.  So neither side's loop is ever without a way
on: not the sender's, which over RC waits for the receiver to take its messages, and
not the receiver's, which waits for the sender's next.

The measure, `distance`, counts the program points still ahead of either side and the
stations still ahead of every message.  Some step lowers it until both are done.  A
side with nothing to do is at a read of an empty channel, or at the head of its loop
with nothing coming (`tx_nears`, `rx_nears`); that the two are never both without
anything to do is the windows, where both are in their loops, and a count of the
barriers, where one is not.
-/

namespace RdmaBench
namespace Bandwidth

open Automaton Session Window

/-- Nothing is dropped, and the receiver does not give up. -/
def Lossless (q : StreamSetup) (s : Stream) : StreamLabel → Prop
  | .rx a => s.rx.ctl.pc = .idle → (recvStep q.rx s.rx.ctl a).any (fun c => c.pc.past) = false
  | .drop => False
  | _ => True

/-! ## The measure -/

/-- The points ahead of the sender. -/
def SendPc.rank : SendPc → ℕ
  | .warmup s => 25 + s.ahead
  | .sleep => 24
  | .settled s => 20 + s.ahead
  | .waitReceives s => 15 + s.ahead
  | .start => 14
  | .prefill _ | .head | .refill _ => 10
  | .sendsCompleted s => 1 + s.ahead
  | .done => 0

/-- The points ahead of the receiver. -/
def RecvPc.rank : RecvPc → ℕ
  | .warmup s => 25 + s.ahead
  | .sleep => 24
  | .settled s => 20 + s.ahead
  | .prefill _ => 19
  | .receivesPosted s => 15 + s.ahead
  | .start => 14
  | .idle | .progress _ => 11
  | .head | .refill _ => 10
  | .drained s => 1 + s.ahead
  | .done => 0

/-- What is ahead of the sender and of the requests at its device. -/
def txLoad (q : StreamSetup) (n : Node SendCtl) : ℕ :=
  n.ctl.pc.rank + 8 * (q.iterations - n.posts.length) + 7 * n.waiting.length +
    2 * n.served.length + n.cq.length

/-- What is ahead of the receiver and of its completions. -/
def rxLoad (q : StreamSetup) (n : Node RecvCtl) : ℕ :=
  n.ctl.pc.rank + (q.iterations - n.posts.length) + 3 * n.cq.length

def distance (q : StreamSetup) (s : Stream) : ℕ := txLoad q s.tx + rxLoad q s.rx + 4 * s.flight

/-- Some step under the conditions lowers the distance. -/
def Nears (q : StreamSetup) (s : Stream) : Prop :=
  ∃ l t, Lossless q s l ∧ streamStep q s l = some t ∧ distance q t < distance q s

theorem SendCtl.rank_prefill (p : Setup) (c : SendCtl) (i : ℕ) : (c.prefill p i).pc.rank = 10 := by
  rw [SendCtl.prefill]
  split <;> rfl

theorem SendCtl.rank_refill (p : Setup) (c : SendCtl) (left : ℕ) :
    (c.refill p left).pc.rank = 10 := by
  rw [SendCtl.refill]
  split <;> rfl

theorem RecvCtl.rank_prefill_le (p : Setup) (c : RecvCtl) (i : ℕ) :
    (c.prefill p i).pc.rank ≤ 19 := by
  rw [RecvCtl.prefill]
  split
  · exact Nat.le_refl _
  · have hle := SyncPc.ahead_le (.enter p.tracing)
    simp only [RecvPc.rank]
    omega

theorem RecvCtl.rank_refill (p : Setup) (c : RecvCtl) (left : ℕ) :
    (c.refill p left).pc.rank = 10 := by
  rw [RecvCtl.refill]
  split <;> rfl

/-! ## In step -/

/-- The two programs over their connection. -/
def Stream.duo (s : Stream) : Duo SendCtl RecvCtl := ⟨s.tx.ctl, s.rx.ctl, s.wire⟩

/-- The two programs are where their sessions say. -/
abbrev Stream.InStep (q : StreamSetup) (s : Stream) : Prop :=
  s.duo.InStep (sendProgram q.tx) (recvProgram q.rx) (sendHalf q.tx).todo (recvHalf q.rx).todo

theorem stream_inStep {q : StreamSetup} {s : Stream} (h : (stream q).Reachable s) :
    s.InStep q := by
  refine duo_inStep (sendHalf q.tx).keeps (recvHalf q.rx).keeps (bench q.tx q.rx).dual.linked
    (h.project Stream.duo rfl fun s l t hstep => ?_)
  cases l with
  | tx a =>
    obtain ⟨-, hstep⟩ := Option.ite_none_right_eq_some.mp hstep
    obtain ⟨w, hw, hstep⟩ := Option.bind_eq_some_iff.mp hstep
    obtain ⟨u, hu, rfl⟩ := Option.map_eq_some_iff.mp hstep
    obtain ⟨n, c, -, hc, rfl⟩ := Node.act_eq_some hu
    exact .inr ⟨.client a, duoStep_client (C := sendProgram q.tx) (S := recvProgram q.rx)
      (s := s.duo) hw hc⟩
  | rx a =>
    obtain ⟨w, hw, hstep⟩ := Option.bind_eq_some_iff.mp hstep
    obtain ⟨u, hu, rfl⟩ := Option.map_eq_some_iff.mp hstep
    obtain ⟨n, c, -, hc, rfl⟩ := Node.act_eq_some hu
    exact .inr ⟨.server a, duoStep_server (C := sendProgram q.tx) (S := recvProgram q.rx)
      (s := s.duo) hw hc⟩
  | transmit =>
    obtain ⟨u, hu, rfl⟩ := Option.map_eq_some_iff.mp hstep
    have hctl : u.ctl = s.tx.ctl := congrArg Posting.ctl (Node.serve_toPosting hu)
    exact .inl (by rw [Stream.duo, Stream.duo, hctl])
  | sent =>
    obtain ⟨-, hstep⟩ := Option.ite_none_right_eq_some.mp hstep
    obtain ⟨u, hu, rfl⟩ := Option.map_eq_some_iff.mp hstep
    have hctl : u.ctl = s.tx.ctl := congrArg Posting.ctl (Node.complete_toPosting hu)
    exact .inl (by rw [Stream.duo, Stream.duo, hctl])
  | deliver =>
    obtain ⟨-, hstep⟩ := Option.ite_none_right_eq_some.mp hstep
    obtain ⟨u, hu, rfl⟩ := Option.map_eq_some_iff.mp hstep
    obtain ⟨m, hm, hu⟩ := Option.bind_eq_some_iff.mp hu
    have hctl : u.ctl = s.rx.ctl :=
      congrArg Posting.ctl ((Node.complete_toPosting hu).trans (Node.serve_toPosting hm))
    exact .inl (by rw [Stream.duo, Stream.duo, hctl])
  | drop =>
    obtain ⟨-, hstep⟩ := Option.ite_none_right_eq_some.mp hstep
    rw [← Option.some.inj hstep]
    exact .inl rfl
  | tick =>
    rw [← Option.some.inj hstep]
    exact .inl rfl

section Steps

variable {q : StreamSetup} {s : Stream}

/-! ## The sender's side -/

theorem streamStep_tx {a : Act} {w : Wire} {n : Node SendCtl} {c : SendCtl}
    (htime : onTime s.now a = true) (hw : s.wire.client a = some w)
    (hn : s.tx.perform a = some n) (hc : sendStep q.tx s.tx.ctl a = some c) :
    streamStep q s (.tx a) = some { s with
      tx := { n with ctl := c }, wire := w, log := s.log ++ stamps s.now a } := by
  rw [streamStep, if_pos htime, hw, Option.bind_some, Node.act, hn, Option.bind_some, hc]
  rfl

/-- An act of the sender that gets on. -/
theorem nears_tx {a : Act} {w : Wire} {n : Node SendCtl} {c : SendCtl}
    (htime : onTime s.now a = true) (hw : s.wire.client a = some w)
    (hn : s.tx.perform a = some n) (hc : sendStep q.tx s.tx.ctl a = some c)
    (hlt : txLoad q { n with ctl := c } < txLoad q s.tx) : Nears q s := by
  refine ⟨.tx a, _, trivial, streamStep_tx htime hw hn hc, ?_⟩
  simp only [distance]
  omega

/-- One that leaves the device alone. -/
theorem nears_tx_band {a : Act} {w : Wire} {c : SendCtl} (ha : a.outOfBand = true)
    (htime : onTime s.now a = true) (hw : s.wire.client a = some w)
    (hc : sendStep q.tx s.tx.ctl a = some c) (hlt : c.pc.rank < s.tx.ctl.pc.rank) :
    Nears q s := by
  refine nears_tx htime hw (Node.perform_of_outOfBand ha) hc ?_
  simp only [txLoad]
  omega

/-- A post. -/
theorem nears_tx_post (hs : s.Settling q) {j : ℕ} {c : SendCtl}
    (hc : sendStep q.tx s.tx.ctl (.postSend 0 j) = some c)
    (hle : c.pc.rank ≤ s.tx.ctl.pc.rank) : Nears q s := by
  have hw : s.wire.client (.postSend 0 j) = some s.wire := rfl
  have hposts := (hs.txAct (streamStep_tx rfl hw rfl hc)).tx.posts_le
  refine nears_tx rfl hw rfl hc ?_
  simp only [txLoad, List.length_append, List.length_singleton] at hposts ⊢
  omega

/-- A sender at a `sync` gets on, or is at its read with nothing to read. -/
theorem nears_tx_sync {k : ℕ} {y : SyncPc} {f : SyncPc → SendCtl} {e : SendCtl}
    (hs : s.InStep q)
    (hphase : s.tx.ctl.pc.phase = .inside k y)
    (hstep : ∀ a, sendStep q.tx s.tx.ctl a = syncThen q.tx.tracing y a f e)
    (hstay : ∀ z : SyncPc, z.ahead < y.ahead → (f z).pc.rank < s.tx.ctl.pc.rank)
    (hleave : e.pc.rank < s.tx.ctl.pc.rank) :
    Nears q s ∨ (s.tx.ctl.pc.phase = .inside k .read ∧ s.wire.toClient = []) := by
  rcases hs.client_sync (sendHalf q.tx).keeps hstep with
    ⟨rfl, hwire⟩ | ⟨a, w, c, hband, hclock, hw, hc, hto⟩
  · exact .inr ⟨hphase, hwire⟩
  · have htime : onTime s.now a = true := by
      cases a with
      | clock t => exact absurd rfl (hclock t)
      | _ => rfl
    refine .inl (nears_tx_band hband htime hw hc ?_)
    rcases hto with ⟨z, hz, rfl⟩ | rfl
    · exact hstay z hz
    · exact hleave

/-- **A sender gets on**, or it is done, or at a read with nothing to read, or at the
head of its loop while the fabric holds a message. -/
theorem tx_nears (hn : 1 ≤ q.iterations) (htx : 1 ≤ q.txDepth) (hs : s.Settling q)
    (hin : s.InStep q) : Nears q s ∨ s.tx.ctl.pc = .done ∨
      (∃ k, s.tx.ctl.pc.phase = .inside k .read ∧ s.wire.toClient = []) ∨
      (s.tx.ctl.pc = .head ∧ 0 < s.flight) := by
  have hf : ¬s.tx.ctl.failed = true := Bool.eq_false_iff.mp hs.tx.running
  have henter := SyncPc.ahead_le (.enter q.tx.tracing)
  cases hpc : s.tx.ctl.pc with
  | done => exact .inr (.inl rfl)
  | warmup y =>
    rcases nears_tx_sync (k := 0) (y := y) (f := fun z => { s.tx.ctl with pc := .warmup z })
      (e := { s.tx.ctl with pc := .sleep }) hin (by rw [hpc]; rfl)
      (fun a => by unfold sendStep; rw [if_neg hf, hpc])
      (fun z hz => by rw [hpc]; simp only [SendPc.rank]; omega)
      (by rw [hpc]; simp only [SendPc.rank]; omega) with hnears | hread
    · exact .inl hnears
    · rw [hpc] at hread
      exact .inr (.inr (.inl ⟨_, hread⟩))
  | settled y =>
    rcases nears_tx_sync (k := 1) (y := y) (f := fun z => { s.tx.ctl with pc := .settled z })
      (e := { s.tx.ctl with pc := .waitReceives (.enter q.tx.tracing) }) hin
      (by rw [hpc]; rfl) (fun a => by unfold sendStep; rw [if_neg hf, hpc])
      (fun z hz => by rw [hpc]; simp only [SendPc.rank]; omega)
      (by rw [hpc]; simp only [SendPc.rank]; omega) with hnears | hread
    · exact .inl hnears
    · rw [hpc] at hread
      exact .inr (.inr (.inl ⟨_, hread⟩))
  | waitReceives y =>
    rcases nears_tx_sync (k := 2) (y := y)
      (f := fun z => { s.tx.ctl with pc := .waitReceives z })
      (e := { s.tx.ctl with pc := .start }) hin (by rw [hpc]; rfl)
      (fun a => by unfold sendStep; rw [if_neg hf, hpc])
      (fun z hz => by rw [hpc]; simp only [SendPc.rank]; omega)
      (by rw [hpc]; simp only [SendPc.rank]; omega) with hnears | hread
    · exact .inl hnears
    · rw [hpc] at hread
      exact .inr (.inr (.inl ⟨_, hread⟩))
  | sendsCompleted y =>
    rcases nears_tx_sync (k := 3) (y := y)
      (f := fun z => { s.tx.ctl with pc := .sendsCompleted z })
      (e := { s.tx.ctl with pc := .done }) hin (by rw [hpc]; rfl)
      (fun a => by unfold sendStep; rw [if_neg hf, hpc])
      (fun z hz => by rw [hpc]; simp only [SendPc.rank]; omega)
      (by rw [hpc]; simp only [SendPc.rank]; omega) with hnears | hread
    · exact .inl hnears
    · rw [hpc] at hread
      exact .inr (.inr (.inl ⟨_, hread⟩))
  | sleep =>
    refine .inl (nears_tx_band (a := .skip) rfl rfl rfl
      (c := { s.tx.ctl with pc := .settled (.enter q.tx.tracing) }) ?_ ?_)
    · unfold sendStep
      rw [if_neg hf, hpc]
      rfl
    · rw [hpc]
      simp only [SendPc.rank]
      omega
  | start =>
    refine .inl (nears_tx_band (a := .clock s.now) rfl (decide_eq_true rfl) rfl
      (c := { s.tx.ctl with t0 := s.now }.prefill q.tx 0) ?_ ?_)
    · unfold sendStep
      rw [if_neg hf, hpc]
      rfl
    · rw [SendCtl.rank_prefill, hpc]
      decide
  | prefill i =>
    refine .inl (nears_tx_post hs (j := i) (c := s.tx.ctl.prefill q.tx (i + 1)) ?_ ?_)
    · unfold sendStep
      rw [if_neg hf, hpc]
      exact if_pos rfl
    · rw [SendCtl.rank_prefill, hpc]
      exact Nat.le_refl _
  | refill left =>
    refine .inl (nears_tx_post hs (j := s.tx.ctl.posted)
      (c := { s.tx.ctl with posted := s.tx.ctl.posted + 1 }.refill q.tx left) ?_ ?_)
    · unfold sendStep
      rw [if_neg hf, hpc]
      exact if_pos rfl
    · rw [SendCtl.rank_refill, hpc]
      exact Nat.le_refl _
  | head =>
    by_cases hlt : s.tx.ctl.completed < q.iterations
    · cases hcq : s.tx.cq with
      | cons e rest =>
        -- one completion is polled
        have hok : completionError [e] = false :=
          completionError_eq_false (r := rest) (by
            rw [List.singleton_append, ← hcq]
            exact hs.tx.cq_ok)
        refine .inl (nears_tx (a := .poll [e]) (n := { s.tx with cq := rest })
          (c := { s.tx.ctl with completed := s.tx.ctl.completed + 1 }.refill q.tx 1) rfl rfl ?_ ?_ ?_)
        · rw [Node.perform, hcq]
          exact if_pos ⟨rest, rfl⟩
        · unfold sendStep
          rw [if_neg hf, hpc]
          exact (if_pos hlt).trans ((if_pos (Nat.le_max_right _ _)).trans
            (if_neg (Bool.eq_false_iff.mp hok)))
        · simp only [txLoad, SendCtl.rank_refill, hcq, List.length_cons]
          rw [hpc, SendPc.rank]
          omega
      | nil =>
        have hstage : (sendView.poster s.tx.toPosting).stage = .head :=
          sendView.stage_eq hs.tx.running (congrArg SendPc.stage hpc)
        have hflying := (hs.tx.sound.kept hn htx).in_flight hstage hlt
        change 0 < s.tx.toPosting.outstanding.card at hflying
        rw [Node.card_outstanding, hcq, List.length_nil] at hflying
        cases hwaiting : s.tx.waiting with
        | cons id rest =>
          refine .inl ⟨.transmit, { s with
            tx := { s.tx with waiting := rest, served := s.tx.served ++ [id] }
            flight := s.flight + 1, log := s.log ++ [(.read, s.now)] }, trivial, ?_, ?_⟩
          · rw [streamStep, Node.serve, hwaiting]
            rfl
          · simp only [distance, txLoad, hwaiting, List.length_append, List.length_cons,
              List.length_nil]
            omega
        | nil =>
          rw [hwaiting, List.length_nil] at hflying
          obtain ⟨id, rest, hserved⟩ := List.exists_cons_of_length_pos (l := s.tx.served) (by omega)
          by_cases hguard : q.transport = .rc → s.flight < s.tx.served.length
          · refine .inl ⟨.sent, { s with
              tx := { s.tx with served := rest, cq := s.tx.cq ++ [⟨id, 0, true⟩] } }, trivial,
              ?_, ?_⟩
            · rw [streamStep, if_pos hguard, Node.complete, hserved]
              rfl
            · simp only [distance, txLoad, hserved, List.length_append, List.length_cons,
                List.length_nil]
              omega
          · -- over RC the message has still to be delivered
            rw [Classical.not_imp] at hguard
            exact .inr (.inr (.inr ⟨rfl, by omega⟩))
    · refine .inl (nears_tx_band (a := .clock s.now) rfl (decide_eq_true rfl) rfl
        (c := { s.tx.ctl with pc := .sendsCompleted (.enter q.tx.tracing), t1 := s.now }) ?_ ?_)
      · unfold sendStep
        rw [if_neg hf, hpc]
        exact if_neg hlt
      · rw [hpc]
        simp only [SendPc.rank]
        omega

/-! ## The receiver's side -/

theorem streamStep_rx {a : Act} {w : Wire} {n : Node RecvCtl} {c : RecvCtl}
    (hw : s.wire.server a = some w) (hn : s.rx.perform a = some n)
    (hc : recvStep q.rx s.rx.ctl a = some c) :
    streamStep q s (.rx a) = some { s with rx := { n with ctl := c }, wire := w } := by
  rw [streamStep, hw, Option.bind_some, Node.act, hn, Option.bind_some, hc]
  rfl

/-- An act of the receiver that gets on and does not give up. -/
theorem nears_rx {a : Act} {w : Wire} {n : Node RecvCtl} {c : RecvCtl}
    (hkeep : s.rx.ctl.pc = .idle → c.pc.past = false) (hw : s.wire.server a = some w)
    (hn : s.rx.perform a = some n) (hc : recvStep q.rx s.rx.ctl a = some c)
    (hlt : rxLoad q { n with ctl := c } < rxLoad q s.rx) : Nears q s := by
  refine ⟨.rx a, _, ?_, streamStep_rx hw hn hc, ?_⟩
  · intro hidle
    rw [hc]
    exact hkeep hidle
  · simp only [distance]
    omega

theorem nears_rx_band {a : Act} {w : Wire} {c : RecvCtl}
    (hkeep : s.rx.ctl.pc = .idle → c.pc.past = false) (ha : a.outOfBand = true)
    (hw : s.wire.server a = some w) (hc : recvStep q.rx s.rx.ctl a = some c)
    (hlt : c.pc.rank < s.rx.ctl.pc.rank) : Nears q s := by
  refine nears_rx hkeep hw (Node.perform_of_outOfBand ha) hc ?_
  simp only [rxLoad]
  omega

theorem nears_rx_post (hs : s.Settling q) (hpc : s.rx.ctl.pc ≠ .idle) {j : ℕ} {c : RecvCtl}
    (hc : recvStep q.rx s.rx.ctl (.postReceive 0 j) = some c)
    (hle : c.pc.rank ≤ s.rx.ctl.pc.rank) : Nears q s := by
  have hw : s.wire.server (.postReceive 0 j) = some s.wire := rfl
  have hposts := (hs.rxAct (streamStep_rx hw rfl hc)).rx.posts_le
  refine nears_rx (fun hidle => absurd hidle hpc) hw rfl hc ?_
  simp only [rxLoad, List.length_append, List.length_singleton] at hposts ⊢
  omega

/-- A receiver at a `sync` gets on, or is at its read with nothing to read. -/
theorem nears_rx_sync {k : ℕ} {y : SyncPc} {f : SyncPc → RecvCtl} {e : RecvCtl}
    (hs : s.InStep q) (hphase : s.rx.ctl.pc.phase = .inside k y)
    (hstep : ∀ a, recvStep q.rx s.rx.ctl a = syncThen q.rx.tracing y a f e)
    (hstay : ∀ z : SyncPc, z.ahead < y.ahead → (f z).pc.rank < s.rx.ctl.pc.rank)
    (hleave : e.pc.rank < s.rx.ctl.pc.rank) :
    Nears q s ∨ (s.rx.ctl.pc.phase = .inside k .read ∧ s.wire.toServer = []) := by
  have hidle : ∀ {c : RecvCtl}, s.rx.ctl.pc = .idle → c.pc.past = false := by
    intro c hpc
    rw [hpc] at hphase
    exact Phase.noConfusion hphase
  rcases hs.server_sync (recvHalf q.rx).keeps hstep with
    ⟨rfl, hwire⟩ | ⟨a, w, c, hband, -, hw, hc, hto⟩
  · exact .inr ⟨hphase, hwire⟩
  · refine .inl (nears_rx_band hidle hband hw hc ?_)
    rcases hto with ⟨z, hz, rfl⟩ | rfl
    · exact hstay z hz
    · exact hleave

/-- **A receiver gets on**, or it is done, or at a read with nothing to read, or at the
head of its loop while the fabric and its queue are empty. -/
theorem rx_nears (hn : 1 ≤ q.iterations) (hrx : 1 ≤ q.rxDepth) (hs : s.Settling q)
    (hin : s.InStep q) : Nears q s ∨ s.rx.ctl.pc = .done ∨
      (∃ k, s.rx.ctl.pc.phase = .inside k .read ∧ s.wire.toServer = []) ∨
      (s.rx.ctl.pc = .head ∧ s.rx.ctl.completed < q.iterations ∧ s.rx.cq = [] ∧
        s.flight = 0) := by
  have hf : ¬s.rx.ctl.failed = true := Bool.eq_false_iff.mp hs.rx.running
  have henter := SyncPc.ahead_le (.enter q.rx.tracing)
  cases hpc : s.rx.ctl.pc with
  | done => exact .inr (.inl rfl)
  | warmup y =>
    rcases nears_rx_sync (k := 0) (y := y) (f := fun z => { s.rx.ctl with pc := .warmup z })
      (e := { s.rx.ctl with pc := .sleep }) hin (by rw [hpc]; rfl)
      (fun a => by unfold recvStep; rw [if_neg hf, hpc])
      (fun z hz => by rw [hpc]; simp only [RecvPc.rank]; omega)
      (by rw [hpc]; simp only [RecvPc.rank]; omega) with hnears | hread
    · exact .inl hnears
    · rw [hpc] at hread
      exact .inr (.inr (.inl ⟨_, hread⟩))
  | settled y =>
    have hprefill := s.rx.ctl.rank_prefill_le q.rx 0
    rcases nears_rx_sync (k := 1) (y := y) (f := fun z => { s.rx.ctl with pc := .settled z })
      (e := s.rx.ctl.prefill q.rx 0) hin (by rw [hpc]; rfl)
      (fun a => by unfold recvStep; rw [if_neg hf, hpc])
      (fun z hz => by rw [hpc]; simp only [RecvPc.rank]; omega)
      (Nat.lt_of_le_of_lt hprefill (by rw [hpc, RecvPc.rank]; omega)) with hnears | hread
    · exact .inl hnears
    · rw [hpc] at hread
      exact .inr (.inr (.inl ⟨_, hread⟩))
  | receivesPosted y =>
    rcases nears_rx_sync (k := 2) (y := y)
      (f := fun z => { s.rx.ctl with pc := .receivesPosted z })
      (e := { s.rx.ctl with pc := .start }) hin (by rw [hpc]; rfl)
      (fun a => by unfold recvStep; rw [if_neg hf, hpc])
      (fun z hz => by rw [hpc]; simp only [RecvPc.rank]; omega)
      (by rw [hpc]; simp only [RecvPc.rank]; omega) with hnears | hread
    · exact .inl hnears
    · rw [hpc] at hread
      exact .inr (.inr (.inl ⟨_, hread⟩))
  | drained y =>
    rcases nears_rx_sync (k := 3) (y := y) (f := fun z => { s.rx.ctl with pc := .drained z })
      (e := { s.rx.ctl with pc := .done }) hin (by rw [hpc]; rfl)
      (fun a => by unfold recvStep; rw [if_neg hf, hpc])
      (fun z hz => by rw [hpc]; simp only [RecvPc.rank]; omega)
      (by rw [hpc]; simp only [RecvPc.rank]; omega) with hnears | hread
    · exact .inl hnears
    · rw [hpc] at hread
      exact .inr (.inr (.inl ⟨_, hread⟩))
  | sleep =>
    refine .inl (nears_rx_band (a := .skip) (by simp [hpc]) rfl rfl
      (c := { s.rx.ctl with pc := .settled (.enter q.rx.tracing) }) ?_ ?_)
    · unfold recvStep
      rw [if_neg hf, hpc]
      rfl
    · rw [hpc]
      simp only [RecvPc.rank]
      omega
  | start =>
    refine .inl (nears_rx_band (a := .clock 0) (by simp [hpc]) rfl rfl
      (c := { s.rx.ctl with pc := .head, lastProgress := 0 }) ?_ ?_)
    · unfold recvStep
      rw [if_neg hf, hpc]
    · rw [hpc]
      exact (by decide : 10 < 14)
  | idle =>
    -- the clock has not moved
    refine .inl (nears_rx_band (a := .clock s.rx.ctl.lastProgress) (fun _ => rfl) rfl rfl
      (c := { s.rx.ctl with pc := .head }) ?_ ?_)
    · unfold recvStep
      rw [if_neg hf, hpc]
      exact if_neg (by rw [Nat.sub_self]; decide)
    · rw [hpc]
      exact (by decide : 10 < 11)
  | progress n =>
    refine .inl (nears_rx_band (a := .clock 0) (by simp [hpc]) rfl rfl
      (c := { s.rx.ctl with
        lastProgress := 0, completed := s.rx.ctl.completed + n }.refill q.rx n) ?_ ?_)
    · unfold recvStep
      rw [if_neg hf, hpc]
      rfl
    · rw [RecvCtl.rank_refill, hpc]
      exact (by decide : 10 < 11)
  | prefill i =>
    have hle := s.rx.ctl.rank_prefill_le q.rx (i + 1)
    refine .inl (nears_rx_post hs (by simp [hpc]) (j := i)
      (c := s.rx.ctl.prefill q.rx (i + 1)) ?_ ?_)
    · unfold recvStep
      rw [if_neg hf, hpc]
      exact if_pos rfl
    · rw [hpc]
      exact hle
  | refill left =>
    refine .inl (nears_rx_post hs (by simp [hpc]) (j := s.rx.ctl.posted)
      (c := { s.rx.ctl with posted := s.rx.ctl.posted + 1 }.refill q.rx left) ?_ ?_)
    · unfold recvStep
      rw [if_neg hf, hpc]
      exact if_pos rfl
    · rw [RecvCtl.rank_refill, hpc]
      exact Nat.le_refl _
  | head =>
    by_cases hlt : s.rx.ctl.completed < q.iterations
    · cases hcq : s.rx.cq with
      | cons e rest =>
        have hok : completionError [e] = false :=
          completionError_eq_false (r := rest) (by
            rw [List.singleton_append, ← hcq]
            exact hs.rx.cq_ok)
        refine .inl (nears_rx (a := .poll [e]) (by simp [hpc]) (n := { s.rx with cq := rest })
          (c := { s.rx.ctl with pc := .progress 1 }) rfl ?_ ?_ ?_)
        · rw [Node.perform, hcq]
          exact if_pos ⟨rest, rfl⟩
        · unfold recvStep
          rw [if_neg hf, hpc]
          exact (if_pos hlt).trans ((if_pos (Nat.le_max_right _ _)).trans
            (if_neg (Bool.eq_false_iff.mp hok)))
        · simp only [rxLoad, hcq, List.length_cons, hpc, RecvPc.rank]
          omega
      | nil =>
        have hstage : ((recvView q.iterations).poster s.rx.toPosting).stage = .head := by
          refine (recvView q.iterations).stage_eq hs.rx.running ?_
          change s.rx.ctl.point q.iterations = .head
          rw [RecvCtl.point, hpc]
        have hflying := (hs.rx.sound.kept hn hrx).in_flight hstage hlt
        change 0 < s.rx.toPosting.outstanding.card at hflying
        rw [Node.card_outstanding, hcq, hs.landed, List.length_nil] at hflying
        obtain ⟨id, rest, hwaiting⟩ := List.exists_cons_of_length_pos (l := s.rx.waiting) (by omega)
        by_cases hpos : 0 < s.flight
        · -- a message has come to a posted receive
          refine .inl ⟨.deliver, { s with
            rx := { s.rx with waiting := rest, served := [], cq := [⟨id, q.msgSize, true⟩] }
            flight := s.flight - 1, delivered := s.delivered + 1
            log := s.log ++ [(.delivered, s.now)] }, trivial, ?_, ?_⟩
          · rw [streamStep, if_pos hpos, Node.serve, hwaiting, Option.bind_some, Node.complete,
              hs.landed, hcq]
            rfl
          · simp only [distance, rxLoad, hcq, List.length_cons, List.length_nil]
            omega
        · exact .inr (.inr (.inr ⟨rfl, hlt, rfl, Nat.eq_zero_of_not_pos hpos⟩))
    · refine .inl (nears_rx_band (a := .skip) (by simp [hpc]) rfl rfl
        (c := s.rx.ctl.leave q.rx) ?_ ?_)
      · unfold recvStep
        rw [if_neg hf, hpc]
        exact (if_neg hlt).trans (if_pos rfl)
      · rw [hpc, RecvCtl.leave]
        simp only [RecvPc.rank]
        omega

end Steps

/-! ## The two together -/

/-- A receiver that does not give up leaves its loop when it has counted everything. -/
theorem lossless_full {q : StreamSetup} {s : Stream}
    (h : (stream q).ReachableUnder (Lossless q) s) :
    s.dropped = 0 ∧ (s.rx.ctl.pc.past = true → q.iterations ≤ s.rx.ctl.completed) := by
  induction h with
  | init => exact ⟨rfl, fun hpast => absurd hpast (by simp [stream, recvProgram, RecvPc.past])⟩
  | @step s t l hreach hkeep hstep ih =>
    have hs := stream_settling hreach.reachable
    cases l with
    | tx a =>
      obtain ⟨-, hstep⟩ := Option.ite_none_right_eq_some.mp hstep
      obtain ⟨w, -, hstep⟩ := Option.bind_eq_some_iff.mp hstep
      obtain ⟨u, -, rfl⟩ := Option.map_eq_some_iff.mp hstep
      exact ih
    | rx a =>
      have ht := hs.rxAct hstep
      obtain ⟨w, -, hstep⟩ := Option.bind_eq_some_iff.mp hstep
      obtain ⟨u, hu, rfl⟩ := Option.map_eq_some_iff.mp hstep
      obtain ⟨n, c, -, hc, rfl⟩ := Node.act_eq_some hu
      refine ⟨ih.1, fun hpast => ?_⟩
      have hmove := RecvMove.of_step hc
      have hrun : c.failed = false := ht.rx.running
      change c.pc.past = true at hpast
      obtain ⟨hband, hcase⟩ := hmove.to_past hpast hrun
      have hpolled := hmove.polled_eq hrun
      have hafter : ∀ n, c.pc ≠ .progress n := fun n hpc => by simp [hpc, RecvPc.past] at hpast
      rw [Act.reports_of_outOfBand hband, c.polled_eq hafter] at hpolled
      change q.iterations ≤ c.completed
      rcases hcase with hold | hidle | ⟨hhead, hge⟩
      · have hbefore : ∀ n, s.rx.ctl.pc ≠ .progress n := fun n hpc => by
          simp [hpc, RecvPc.past] at hold
        rw [hpolled, s.rx.ctl.polled_eq hbefore]
        exact ih.2 hold
      · have hno := hkeep hidle
        rw [hc] at hno
        exact absurd (hpast.symm.trans hno) Bool.noConfusion
      · rw [hpolled, s.rx.ctl.polled_eq (by simp [hhead])]
        exact hge
    | transmit =>
      obtain ⟨u, -, rfl⟩ := Option.map_eq_some_iff.mp hstep
      exact ih
    | sent =>
      obtain ⟨-, hstep⟩ := Option.ite_none_right_eq_some.mp hstep
      obtain ⟨u, -, rfl⟩ := Option.map_eq_some_iff.mp hstep
      exact ih
    | deliver =>
      obtain ⟨-, hstep⟩ := Option.ite_none_right_eq_some.mp hstep
      obtain ⟨u, hu, rfl⟩ := Option.map_eq_some_iff.mp hstep
      obtain ⟨m, hm, hu⟩ := Option.bind_eq_some_iff.mp hu
      have hctl : u.ctl = s.rx.ctl :=
        congrArg Posting.ctl ((Node.complete_toPosting hu).trans (Node.serve_toPosting hm))
      dsimp only
      rw [hctl]
      exact ih
    | drop => exact absurd hkeep id
    | tick =>
      rw [← Option.some.inj hstep]
      exact ih

section Together

variable {q : StreamSetup} {s : Stream}

/-- The barriers still to come, on either side and in the channels. -/
theorem Stream.InStep.lengths (hin : s.InStep q) :
    (reads (s.rx.ctl.pc.phase.todo 4)).length =
        s.wire.toServer.length + (writes (s.tx.ctl.pc.phase.todo 4)).length ∧
      (reads (s.tx.ctl.pc.phase.todo 4)).length =
        s.wire.toClient.length + (writes (s.rx.ctl.pc.phase.todo 4)).length := by
  have hright := congrArg List.length hin.linked.right
  have hleft := congrArg List.length hin.linked.left
  simp only [Half.todo, sendHalf, recvHalf, Stream.duo, List.append_nil, List.length_append]
    at hright hleft
  exact ⟨hright, hleft⟩

/-- **Until both are done, something gets on.** -/
theorem nears (hn : 1 ≤ q.iterations) (htx : 1 ≤ q.txDepth) (hrx : 1 ≤ q.rxDepth)
    (h : (stream q).ReachableUnder (Lossless q) s)
    (hgoal : ¬(s.tx.ctl.pc = .done ∧ s.rx.ctl.pc = .done)) : Nears q s := by
  have hs := stream_settling h.reachable
  have hin := stream_inStep h.reachable
  obtain ⟨hdropped, hfull⟩ := lossless_full h
  obtain ⟨hrights, hlefts⟩ := hin.lengths
  have htotal := hs.delivered_add
  have hpolled := hs.polled_add
  -- a receiver out of its loop has everything
  have hleft : s.rx.ctl.pc.past = true → s.flight = 0 := by
    intro hpast
    have hge := hfull hpast
    have hlt : ∀ n, s.rx.ctl.pc ≠ .progress n := fun n hpc => by
      simp [hpc, RecvPc.past] at hpast
    rw [s.rx.ctl.polled_eq hlt] at hpolled
    have haccounted := hs.accounted
    have hle := hs.tx.posts_le
    omega
  -- a sender out of its loop has left everything with the fabric
  have hsent : s.tx.ctl.pc.past = true → s.delivered + s.flight = q.iterations := by
    intro hpast
    obtain ⟨-, hposts, hwaiting, -⟩ := hs.emptied hpast
    have haccounted := hs.accounted
    rw [hwaiting, List.length_nil] at haccounted
    omega
  rcases tx_nears hn htx hs hin with hnears | htxDone | ⟨k, htxRead, hclient⟩ | ⟨htxHead, hpos⟩
  · exact hnears
  · rcases rx_nears hn hrx hs hin with hnears | hrxDone | ⟨j, hrxRead, hserver⟩ |
      ⟨hrxHead, hlt, hcq, hzero⟩
    · exact hnears
    · exact absurd ⟨htxDone, hrxDone⟩ hgoal
    · rw [hrxRead, htxDone, hserver, (Phase.length_todo_read _ _).1] at hrights
      simp only [SendPc.phase, (Phase.length_todo_between _ _).2, List.length_nil] at hrights
      omega
    · rw [hcq, List.length_nil, s.rx.ctl.polled_eq (by simp [hrxHead])] at hpolled
      have hdelivered := hsent (by rw [htxDone]; rfl)
      omega
  · rcases rx_nears hn hrx hs hin with hnears | hrxDone | ⟨j, hrxRead, hserver⟩ |
      ⟨hrxHead, hlt, hcq, hzero⟩
    · exact hnears
    · rw [htxRead, hrxDone, hclient, (Phase.length_todo_read _ _).1] at hlefts
      simp only [RecvPc.phase, (Phase.length_todo_between _ _).2, List.length_nil] at hlefts
      omega
    · rw [hrxRead, htxRead, hserver, (Phase.length_todo_read _ _).1, (Phase.length_todo_read _ _).2]
        at hrights
      rw [hrxRead, htxRead, hclient, (Phase.length_todo_read _ _).1, (Phase.length_todo_read _ _).2]
        at hlefts
      simp only [List.length_nil] at hrights hlefts
      omega
    · -- the receiver has entered its third `sync`, so this is the sender's last
      rw [htxRead, hrxHead, hclient, (Phase.length_todo_read _ _).1] at hlefts
      simp only [RecvPc.phase, (Phase.length_todo_between _ _).2, List.length_nil] at hlefts
      have hle := s.tx.ctl.pc.phase_entered_le
      rw [htxRead, Phase.entered] at hle
      have hpast : s.tx.ctl.pc.past = true :=
        SendPc.past_of_entered (by rw [htxRead, Phase.entered]; omega)
      rw [hcq, List.length_nil, s.rx.ctl.polled_eq (by simp [hrxHead])] at hpolled
      have hdelivered := hsent hpast
      omega
  · rcases rx_nears hn hrx hs hin with hnears | hrxDone | ⟨j, hrxRead, hserver⟩ |
      ⟨hrxHead, hlt, hcq, hzero⟩
    · exact hnears
    · exact absurd (hleft (by rw [hrxDone]; rfl)) (by omega)
    · rw [hrxRead, htxHead, hserver, (Phase.length_todo_read _ _).1] at hrights
      simp only [SendPc.phase, (Phase.length_todo_between _ _).2, List.length_nil] at hrights
      have hle := s.rx.ctl.pc.phase_entered_le
      rw [hrxRead, Phase.entered] at hle
      exact absurd (hleft (RecvPc.past_of_entered (by rw [hrxRead, Phase.entered]; omega)))
        (by omega)
    · omega

/-- **Every lossless run can be continued to its end**, where both sides have returned
`Ok` and everything has been delivered and counted. -/
theorem stream_completes (hn : 1 ≤ q.iterations) (htx : 1 ≤ q.txDepth) (hrx : 1 ≤ q.rxDepth)
    (h : (stream q).ReachableUnder (Lossless q) s) :
    ∃ t, ((stream q).startAt s).ReachableUnder (Lossless q) t ∧ t.tx.ctl.pc = .done ∧
      t.rx.ctl.pc = .done ∧ t.tx.ctl.completed = q.iterations ∧
      t.rx.ctl.completed = q.iterations ∧ t.delivered = q.iterations := by
  obtain ⟨t, ht, htx', hrx'⟩ := h.exists_goal
    (G := fun s => s.tx.ctl.pc = .done ∧ s.rx.ctl.pc = .done) (distance q)
    fun s hs hgoal => nears hn htx hrx hs hgoal
  have hreach := h.trans ht
  have hs := stream_settling hreach.reachable
  have hge := (lossless_full hreach).2 (by rw [hrx']; rfl)
  have hpolled := hs.polled_add
  have htotal := hs.delivered_add
  rw [t.rx.ctl.polled_eq (by simp [hrx'])] at hpolled
  exact ⟨t, ht, htx', hrx', (hs.emptied (by rw [htx']; rfl)).1, by omega, by omega⟩

end Together

/-- From the start, with one receive for three sends in flight. -/
theorem stream_completes_narrow :
    ∃ t, ((stream ⟨.rc, false, true, 4096, 1000, 3, 1⟩).startAt
        (stream ⟨.rc, false, true, 4096, 1000, 3, 1⟩).init).ReachableUnder
        (Lossless ⟨.rc, false, true, 4096, 1000, 3, 1⟩) t ∧ t.tx.ctl.pc = .done ∧
      t.rx.ctl.pc = .done ∧ t.tx.ctl.completed = 1000 ∧ t.rx.ctl.completed = 1000 ∧
      t.delivered = 1000 :=
  stream_completes (q := ⟨.rc, false, true, 4096, 1000, 3, 1⟩) (by decide) (by decide) (by decide)
    .init

end Bandwidth
end RdmaBench
