import RdmaBench.Bandwidth.Stream

/-!
# The elapsed time of a bandwidth run

`send` reads the clock before its first post and after its last completion, and the
throughput is what was asked for over the difference.  `elapsed_covers` is why that
is a throughput: whatever happens to the messages on the sender's side happens
between the two readings, to each of them once.  Over RC their delivery is among it;
over UC a message may arrive, or get lost, after the second reading.

The log of a run is exact (`stream_timed`), and it is closed by the second reading
because a sender out of its loop has nothing left at its device.
-/

namespace RdmaBench
namespace Bandwidth

open Automaton Window

/-- How often something has happened to a message. -/
def Stream.stamped (s : Stream) (k : Station) : ℕ := (s.log.map Prod.fst).count k

/-- The sender's first reading is the one at the start. -/
theorem SendMove.t0_eq {p : Setup} {c t : SendCtl} {a : Act} (hmove : SendMove p c a t) :
    t.t0 = c.t0 ∨ c.pc = .start ∧ a = .clock t.t0 := by
  cases hmove with
  | start hpc =>
    rw [SendCtl.prefill]
    split <;> exact .inr ⟨hpc, rfl⟩
  | prefill hpc =>
    rw [SendCtl.prefill]
    split <;> exact .inl rfl
  | poll hpc | refill hpc =>
    rw [SendCtl.refill]
    split <;> exact .inl rfl
  | _ => exact .inl rfl

/-- Its second is the one it leaves its loop by. -/
theorem SendMove.to_past {p : Setup} {c t : SendCtl} {a : Act} (hmove : SendMove p c a t)
    (ht : t.pc.past = true) (hok : t.failed = false) :
    a.outOfBand = true ∧ (c.pc.past = true ∧ t.t1 = c.t1 ∨ a = .clock t.t1) := by
  cases hmove with
  | start hpc | prefill hpc =>
    rw [SendCtl.prefill] at ht
    split at ht <;> exact absurd ht Bool.noConfusion
  | poll hpc | refill hpc =>
    rw [SendCtl.refill] at ht
    split at ht <;> exact absurd ht Bool.noConfusion
  | pollError hpc hlt herr => exact absurd hok (by simp)
  | leave hpc hge => exact ⟨rfl, .inr rfl⟩
  | completing hpc ha | completed hpc ha => exact ⟨ha, .inl ⟨by rw [hpc]; rfl, rfl⟩⟩
  | _ => exact absurd ht Bool.noConfusion

theorem stamps_of_outOfBand {now : ℕ} {a : Act} (ha : a.outOfBand = true) : stamps now a = [] := by
  cases a with
  | postSend slot id | poll wcs => exact absurd ha Bool.noConfusion
  | _ => rfl

theorem snd_of_mem_stamps {now : ℕ} {a : Act} {e : Station × ℕ} (h : e ∈ stamps now a) :
    e.2 = now := by
  cases a with
  | postSend slot id => rw [List.mem_singleton.mp h]
  | poll wcs => rw [List.eq_of_mem_replicate h]
  | _ => exact absurd h List.not_mem_nil

/-- What an act of the sender adds to the log. -/
theorem count_stamps {p : Setup} {c t : SendCtl} {a : Act} (hmove : SendMove p c a t) (now : ℕ) :
    ((stamps now a).map Prod.fst).count .posted = a.posts ∧
      ((stamps now a).map Prod.fst).count .polled = a.reports ∧
      ((stamps now a).map Prod.fst).count .read = 0 ∧
      ((stamps now a).map Prod.fst).count .delivered = 0 := by
  cases a with
  | postReceive slot id =>
    cases hmove with
    | warming _ ha | warmed _ ha | settling _ ha | settled _ ha | waiting _ ha | waited _ ha
    | completing _ ha | completed _ ha => exact absurd ha Bool.noConfusion
  | poll wcs =>
    simp only [stamps, List.map_replicate, List.count_replicate]
    exact ⟨rfl, rfl, rfl, rfl⟩
  | _ => exact ⟨rfl, rfl, rfl, rfl⟩

/-- The log counts what the devices and the fabric count, and is kept in time. -/
structure Stream.Timed (q : StreamSetup) (s : Stream) : Prop where
  posted : s.stamped .posted = s.tx.posts.length
  read : s.stamped .read + s.tx.waiting.length = s.tx.posts.length
  delivered : s.stamped .delivered = s.delivered
  polled : s.stamped .polled = s.tx.ctl.completed
  started : s.tx.ctl.t0 ≤ s.now
  within : ∀ e ∈ s.log, s.tx.ctl.t0 ≤ e.2 ∧ e.2 ≤ s.now
  closed : s.tx.ctl.pc.past = true → s.tx.ctl.t0 ≤ s.tx.ctl.t1 ∧
    ∀ e ∈ s.log, (e.1 = .delivered → q.transport = .rc) → e.2 ≤ s.tx.ctl.t1

section Timed

variable {q : StreamSetup} {s t : Stream}

/-- Before the first post there is nothing in the log. -/
theorem Stream.Timed.log_eq_nil (hs : s.Settling q) (h : s.Timed q) (hposts : s.tx.posts = []) :
    s.log = [] := by
  refine List.eq_nil_iff_forall_not_mem.mpr fun e he => ?_
  have hcount : 0 < s.stamped e.1 := List.count_pos_iff.mpr (List.mem_map_of_mem he)
  have hposted := h.posted
  have hread := h.read
  have hdelivered := h.delivered
  have hpolled := h.polled
  have haccounted := hs.accounted
  have htally := hs.tx.tally
  rw [hposts, List.length_nil] at hposted hread haccounted htally
  cases hk : e.1 <;> rw [hk] at hcount <;> omega

/-- An event while the sender is in its loop, or one that may come later. -/
theorem within_append {k : Station} {log : List (Station × ℕ)} {t0 t1 now : ℕ} {past : Bool}
    {rc : Prop} (hlt : t0 ≤ now) (hwithin : ∀ e ∈ log, t0 ≤ e.2 ∧ e.2 ≤ now)
    (hclosed : past = true → t0 ≤ t1 ∧ ∀ e ∈ log, (e.1 = .delivered → rc) → e.2 ≤ t1)
    (hlate : past = true → k = .delivered ∧ ¬rc) :
    (∀ e ∈ log ++ [(k, now)], t0 ≤ e.2 ∧ e.2 ≤ now) ∧
      (past = true → t0 ≤ t1 ∧
        ∀ e ∈ log ++ [(k, now)], (e.1 = .delivered → rc) → e.2 ≤ t1) := by
  refine ⟨fun e he => ?_, fun hpast => ⟨(hclosed hpast).1, fun e he hrc => ?_⟩⟩
  · rcases List.mem_append.mp he with he | he
    · exact hwithin e he
    · rw [List.mem_singleton.mp he]
      exact ⟨hlt, Nat.le_refl _⟩
  · rcases List.mem_append.mp he with he | he
    · exact (hclosed hpast).2 e he hrc
    · rw [List.mem_singleton.mp he] at hrc
      exact absurd (hrc (hlate hpast).1) (hlate hpast).2

theorem stamped_append (s : Stream) (more : List (Station × ℕ)) (k : Station) :
    ((s.log ++ more).map Prod.fst).count k = s.stamped k + (more.map Prod.fst).count k := by
  rw [List.map_append, List.count_append, Stream.stamped]

/-- A step of the sending program. -/
theorem Stream.Timed.txAct (hs : s.Settling q) (h : s.Timed q) {a : Act}
    (hstep : streamStep q s (.tx a) = some t) : t.Timed q := by
  have ht := hs.txAct hstep
  obtain ⟨htime, hstep⟩ := Option.ite_none_right_eq_some.mp hstep
  obtain ⟨w, -, hstep⟩ := Option.bind_eq_some_iff.mp hstep
  obtain ⟨u, hu, rfl⟩ := Option.map_eq_some_iff.mp hstep
  obtain ⟨n, c, -, hc, hctl⟩ := Node.act_eq_some hu
  have hmove := SendMove.of_step hc
  have hcu : u.ctl = c := by rw [hctl]
  have hrun : c.failed = false := hcu ▸ ht.tx.running
  obtain ⟨-, hwaiting, hposts⟩ := Node.act_stations hu
  obtain ⟨hposted, hpolled, hread, hdelivered⟩ := count_stamps hmove s.now
  have hreports := hmove.completed_eq hrun
  have hold := h.posted
  have hold' := h.read
  -- the first reading comes before anything has been posted
  have ht0 : c.t0 = s.tx.ctl.t0 ∨ s.log = [] ∧ c.t0 = s.now := by
    rcases hmove.t0_eq with heq | ⟨hpc, ha⟩
    · exact .inl heq
    · refine .inr ⟨h.log_eq_nil hs ?_, ?_⟩
      · have hat := hs.tx.sound.stage_at
        have hstage : (sendView.poster s.tx.toPosting).stage = .before :=
          sendView.stage_eq hs.tx.running (congrArg SendPc.stage hpc)
        simp only [StageAt, hstage] at hat
        exact hat.1
      · rw [ha] at htime
        exact of_decide_eq_true htime
  refine ⟨?_, ?_, ?_, ?_, ?_, ?_, ?_⟩
  · rw [Stream.stamped, stamped_append, hposted]
    dsimp only
    omega
  · rw [Stream.stamped, stamped_append, hread]
    dsimp only
    omega
  · rw [Stream.stamped, stamped_append, hdelivered]
    exact h.delivered
  · rw [Stream.stamped, stamped_append, hpolled, h.polled]
    dsimp only
    rw [hcu, hreports]
  · dsimp only
    rw [hcu]
    rcases ht0 with heq | ⟨-, heq⟩
    · rw [heq]
      exact h.started
    · exact Nat.le_of_eq heq
  · intro e he
    dsimp only at he ⊢
    rw [hcu]
    rcases ht0 with heq | ⟨hnil, heq⟩
    · rw [heq]
      rcases List.mem_append.mp he with he | he
      · exact h.within e he
      · rw [snd_of_mem_stamps he]
        exact ⟨h.started, Nat.le_refl _⟩
    · rw [hnil, List.nil_append] at he
      rw [snd_of_mem_stamps he]
      exact ⟨Nat.le_of_eq heq, Nat.le_refl _⟩
  · intro hpast
    dsimp only at hpast ⊢
    rw [hcu] at hpast ⊢
    obtain ⟨hband, hcase⟩ := hmove.to_past hpast hrun
    rw [stamps_of_outOfBand hband, List.append_nil]
    rcases hcase with ⟨hwas, heq⟩ | ha
    · have hsame : c.t0 = s.tx.ctl.t0 := by
        rcases hmove.t0_eq with h0 | ⟨hpc, -⟩
        · exact h0
        · exact absurd hwas (by simp [hpc, SendPc.past])
      rw [heq, hsame]
      exact h.closed hwas
    · rw [ha] at htime
      rw [of_decide_eq_true htime]
      refine ⟨?_, fun e he _ => (h.within e he).2⟩
      rcases ht0 with heq | ⟨-, heq⟩
      · rw [heq]
        exact h.started
      · exact Nat.le_of_eq heq

/-- The sender's device reads the buffer. -/
theorem Stream.Timed.transmit (hs : s.Settling q) (h : s.Timed q)
    (hstep : streamStep q s .transmit = some t) : t.Timed q := by
  obtain ⟨u, hu, rfl⟩ := Option.map_eq_some_iff.mp hstep
  rw [Node.serve] at hu
  split at hu
  · next id rest hw =>
    have hread := h.read
    rw [hw, List.length_cons] at hread
    obtain ⟨hwithin, hclosed⟩ := within_append (k := .read) h.started h.within h.closed
      fun hpast => absurd (hs.emptied hpast).2.2.1 (by simp [hw])
    rw [← Option.some.inj hu]
    refine ⟨?_, ?_, ?_, ?_, h.started, hwithin, hclosed⟩
    · rw [Stream.stamped, stamped_append]
      exact h.posted
    · rw [Stream.stamped, stamped_append]
      change _ + 1 + _ = _
      dsimp only
      omega
    · rw [Stream.stamped, stamped_append]
      exact h.delivered
    · rw [Stream.stamped, stamped_append]
      exact h.polled
  · exact absurd hu (by simp)

/-- The fabric delivers a message.  Over RC that is before the sender leaves its loop. -/
theorem Stream.Timed.deliver (hs : s.Settling q) (h : s.Timed q)
    (hstep : streamStep q s .deliver = some t) : t.Timed q := by
  obtain ⟨hpos, hstep⟩ := Option.ite_none_right_eq_some.mp hstep
  obtain ⟨u, -, rfl⟩ := Option.map_eq_some_iff.mp hstep
  obtain ⟨hwithin, hclosed⟩ := within_append (k := .delivered) h.started h.within h.closed
    fun hpast => ⟨rfl, fun hrc => by
      have hle := (hs.reliable hrc).2
      rw [(hs.emptied hpast).2.2.2, List.length_nil] at hle
      omega⟩
  refine ⟨?_, ?_, ?_, ?_, h.started, hwithin, hclosed⟩
  · rw [Stream.stamped, stamped_append]
    exact h.posted
  · rw [Stream.stamped, stamped_append]
    exact h.read
  · rw [Stream.stamped, stamped_append, h.delivered]
    rfl
  · rw [Stream.stamped, stamped_append]
    exact h.polled

/-- The sender's device completes a send. -/
theorem Stream.Timed.sent (h : s.Timed q) (hstep : streamStep q s .sent = some t) :
    t.Timed q := by
  obtain ⟨-, hstep⟩ := Option.ite_none_right_eq_some.mp hstep
  obtain ⟨u, hu, rfl⟩ := Option.map_eq_some_iff.mp hstep
  rw [Node.complete] at hu
  split at hu
  · rw [← Option.some.inj hu]
    exact { h with }
  · exact absurd hu (by simp)

end Timed

/-- **The log is kept along every run.** -/
theorem stream_timed {q : StreamSetup} {s : Stream} (h : (stream q).Reachable s) : s.Timed q := by
  induction h with
  | init =>
    exact ⟨rfl, rfl, rfl, rfl, Nat.le_refl _, fun _ he => absurd he List.not_mem_nil,
      fun _ => ⟨Nat.le_refl _, fun _ he => absurd he List.not_mem_nil⟩⟩
  | @step s t l hreach _ hstep ih =>
    have hs := stream_settling hreach
    cases l with
    | tx a => exact ih.txAct hs hstep
    | rx a =>
      obtain ⟨w, -, hstep⟩ := Option.bind_eq_some_iff.mp hstep
      obtain ⟨u, -, rfl⟩ := Option.map_eq_some_iff.mp hstep
      exact { ih with }
    | transmit => exact ih.transmit hs hstep
    | sent => exact ih.sent hstep
    | deliver => exact ih.deliver hs hstep
    | drop =>
      obtain ⟨-, hstep⟩ := Option.ite_none_right_eq_some.mp hstep
      rw [← Option.some.inj hstep]
      exact { ih with }
    | tick =>
      rw [← Option.some.inj hstep]
      exact { ih with
        started := Nat.le_succ_of_le ih.started
        within := fun e he => ⟨(ih.within e he).1, Nat.le_succ_of_le (ih.within e he).2⟩ }

/-- **The elapsed time covers the sends, all of them and nothing else.**  Once the
sender has left its loop, each of its messages has been posted, read by its device and
seen to complete between the two readings of the clock; over RC each has been delivered
between them too, so what is divided by the elapsed time has really arrived. -/
theorem elapsed_covers {q : StreamSetup} {s : Stream} (h : (stream q).Reachable s)
    (hleft : s.tx.ctl.pc.past = true) :
    s.tx.ctl.t0 ≤ s.tx.ctl.t1 ∧
    (∀ k, (k = .delivered → q.transport = .rc) → s.stamped k = q.iterations) ∧
    ∀ e ∈ s.log, (e.1 = .delivered → q.transport = .rc) →
      s.tx.ctl.t0 ≤ e.2 ∧ e.2 ≤ s.tx.ctl.t1 := by
  have hs := stream_settling h
  have htimed := stream_timed h
  obtain ⟨hle, hclosed⟩ := htimed.closed hleft
  obtain ⟨hcompleted, hposts, hwaiting, hserved⟩ := hs.emptied hleft
  refine ⟨hle, fun k hk => ?_, fun e he hrc => ⟨(htimed.within e he).1, hclosed e he hrc⟩⟩
  cases k with
  | posted => exact htimed.posted.trans hposts
  | read =>
    have hread := htimed.read
    rw [hwaiting, List.length_nil] at hread
    exact hread.trans hposts
  | polled => exact htimed.polled.trans hcompleted
  | delivered =>
    obtain ⟨hdropped, hflight⟩ := hs.reliable (hk rfl)
    have haccounted := hs.accounted
    rw [hserved, List.length_nil] at hflight
    rw [hwaiting, List.length_nil] at haccounted
    rw [htimed.delivered]
    omega

/-- One message over RC, in five ticks. -/
theorem elapsed_covers_one :
    ∃ s, (stream ⟨.rc, false, false, 4, 1, 1, 1⟩).Reachable s ∧ s.tx.ctl.pc = .done ∧
      s.tx.ctl.t1 = 5 ∧ s.stamped .delivered = 1 := by
  obtain ⟨s, hs, hat⟩ := System.Reachable.exists_of_run
    (S := stream ⟨.rc, false, false, 4, 1, 1, 1⟩)
    (p := fun s => decide (s.tx.ctl.pc = .done ∧ s.tx.ctl.t1 = 5))
    [.tx (.write .barrier), .rx (.write .barrier), .tx (.read .barrier), .rx (.read .barrier),
      .tx .skip, .rx .skip, .tx (.write .barrier), .rx (.write .barrier), .tx (.read .barrier),
      .rx (.read .barrier), .rx (.postReceive 0 0), .rx (.write .barrier), .tx (.write .barrier),
      .tx (.read .barrier), .rx (.read .barrier), .rx (.clock 0), .tx (.clock 0),
      .tx (.postSend 0 0), .tick, .tick, .transmit, .tick, .deliver, .tick, .sent,
      .tx (.poll [⟨0, 0, true⟩]), .tick, .tx (.clock 5), .tx (.write .barrier),
      .rx (.poll [⟨0, 4, true⟩]), .rx (.clock 5), .rx .skip, .rx (.write .barrier),
      .tx (.read .barrier)] (by decide +kernel)
  obtain ⟨hdone, htime⟩ := of_decide_eq_true hat
  exact ⟨s, hs, hdone, htime, (elapsed_covers hs (by rw [hdone]; rfl)).2.1 .delivered fun _ => rfl⟩

end Bandwidth
end RdmaBench
