import RdmaBench.Accuracy.Ownership

/-!
# A whole accuracy run

`Stream` is the client's `send` and the server's `receive` with their devices, the
connection between them, and a fabric that drops and reorders messages but never
alters, truncates or duplicates one.  The fabric takes a message when the
sender's device reads its slot (`transmit`), and then either drops it or writes it
into any posted receive (`deliver`).

The receiver gives up when the stream has gone quiet, and a clock alone does not
know that.  `QuietBreak` is the assumption that it does: the idle break is not
taken over an unpolled completion, and no message is delivered once the receiver
has left its loop.

## Accounting

Two windows of different sizes, two devices and a fabric share one invariant,
`Settling`: every message posted is still to be read from its slot, in the fabric,
delivered or dropped, and none is two of these; what is in the fabric or has been
delivered is the payload of its number; and what the receiver has polled, followed
by what is waiting to be polled, is what has been delivered, in order.  The
contents come from the soundness of the two nodes, and nothing here looks into a
buffer.
-/

namespace RdmaBench
namespace Accuracy

open Automaton Memory Arrivals

/-! ## The report of a list of payloads -/

section Payloads

variable {m n : ℕ} {ks : List ℕ} (hm : headerLen ≤ m) (hn : n < usizeSize) (hks : ∀ k ∈ ks, k < n)

include hm hn hks

theorem headerSeq_of_mem_payloads {msg : List UInt8} {k : ℕ} (hmsg : msg ∈ ks.map (payload m))
    (hk : headerSeq msg = some k) : k ∈ ks ∧ msg = payload m k := by
  obtain ⟨j, hj, rfl⟩ := List.mem_map.mp hmsg
  rw [headerSeq_payload hm ((hks j hj).trans hn)] at hk
  obtain rfl := Option.some.inj hk
  exact ⟨hj, rfl⟩

theorem identified_payloads : identified n (ks.map (payload m)) = ks.toFinset := by
  ext k
  rw [mem_identified, List.mem_toFinset]
  constructor
  · rintro ⟨-, msg, hmsg, hk⟩
    exact (headerSeq_of_mem_payloads hm hn hks hmsg hk).1
  · intro hk
    exact ⟨hks k hk, payload m k, List.mem_map_of_mem hk,
      headerSeq_payload hm ((hks k hk).trans hn)⟩

theorem firstArrival_payloads {k : ℕ} (hk : k ∈ ks) :
    firstArrival (ks.map (payload m)) k = payload m k := by
  have hid : k ∈ identified n (ks.map (payload m)) := by
    rw [identified_payloads hm hn hks, List.mem_toFinset]
    exact hk
  obtain ⟨hmem, hhead⟩ := firstArrival_mem hid
  exact (headerSeq_of_mem_payloads hm hn hks hmem hhead).2

/-- **Different payloads give a clean report.** -/
theorem receive_payloads (hsize : m < usizeSize) (hnodup : ks.Nodup)
    {polls : List (List (List UInt8))} (hpolls : polls.flatten = ks.map (payload m)) :
    (receive m n polls).received = ks.length ∧ (receive m n polls).lost = n - ks.length ∧
      (receive m n polls).duplicated = 0 ∧ (receive m n polls).unidentifiable = 0 ∧
      (receive m n polls).truncated = 0 ∧ (receive m n polls).corrupted = 0 ∧
      (receive m n polls).correctBytes = UInt64.ofNat (ks.length * m) ∧
      (receive m n polls).correctBits = UInt64.ofNat (8 * ks.length * m) := by
  have hcard : ks.toFinset.card = ks.length := List.toFinset_card_of_nodup hnodup
  have hle : ks.length ≤ n := by
    have := card_identified_le n (ks.map (payload m))
    rwa [identified_payloads hm hn hks, hcard] at this
  have hlen : ∀ msg ∈ polls.flatten, msg.length ≤ m := by
    intro msg hmsg
    rw [hpolls] at hmsg
    obtain ⟨k, -, rfl⟩ := List.mem_map.mp hmsg
    exact Nat.le_of_eq (length_payload hm k)
  have hall : (polled n polls).flatten = ks.map (payload m) := by
    rw [flatten_polled_of_length_le (by rwa [hpolls, List.length_map]), hpolls]
  obtain ⟨-, hrecv, hsplit, hlost⟩ := receive_counts (n := n) hm hsize polls hlen
  obtain ⟨htrunc, hcorr, hbytes, hbits⟩ := receive_judged (n := n) hm hsize polls hlen
  rw [hall] at hrecv hsplit hlost htrunc hcorr hbytes hbits
  rw [identified_payloads hm hn hks] at hsplit hlost htrunc hcorr hbytes hbits
  rw [List.length_map] at hrecv
  have hfa : ∀ k ∈ ks.toFinset, firstArrival (ks.map (payload m)) k = payload m k :=
    fun k hk => firstArrival_payloads hm hn hks (List.mem_toFinset.mp hk)
  refine ⟨hrecv, by omega, by omega, by omega, ?_, ?_, ?_, ?_⟩
  · rw [htrunc, Finset.card_eq_zero, Finset.filter_eq_empty_iff]
    intro k hk
    rw [hfa k hk, length_payload hm]
    exact lt_irrefl m
  · rw [hcorr, Finset.card_eq_zero, Finset.filter_eq_empty_iff]
    intro k hk
    rw [hfa k hk]
    exact not_not.mpr rfl
  · rw [hbytes, Finset.sum_congr rfl fun k hk => by rw [hfa k hk, correctBytesOf, matching_self,
      length_payload hm], Finset.sum_const, hcard, Nat.nsmul_eq_mul]
  · rw [hbits, Finset.sum_congr rfl fun k hk => by rw [hfa k hk, correctBitsOf, agreeing_self,
      length_payload hm], Finset.sum_const, hcard, Nat.nsmul_eq_mul]
    exact congrArg UInt64.ofNat (by rw [Nat.mul_left_comm, Nat.mul_assoc])

end Payloads

/-! ## The run -/

/-- What is asked for, and whether each side traces. -/
structure StreamSetup where
  clientTracing : Bool
  serverTracing : Bool
  msgSize : ℕ
  iterations : ℕ
  txDepth : ℕ
  rxDepth : ℕ

/-- What `run` hands to `send`. -/
def StreamSetup.tx (q : StreamSetup) : Setup :=
  ⟨q.clientTracing, q.msgSize, q.iterations, window .client q.txDepth q.rxDepth q.iterations⟩

/-- What `run` hands to `receive`. -/
def StreamSetup.rx (q : StreamSetup) : Setup :=
  ⟨q.serverTracing, q.msgSize, q.iterations, window .server q.txDepth q.rxDepth q.iterations⟩

/-- The two sides, the connection, the fabric, and what became of the messages
that have left it. -/
structure Stream where
  tx : SenderNode
  rx : ReceiverNode
  wire : Wire := {}
  /-- Read from their slots, neither delivered nor dropped. -/
  flight : List (ℕ × List UInt8) := []
  delivered : List (ℕ × List UInt8) := []
  dropped : List ℕ := []
  deriving DecidableEq

inductive StreamLabel where
  | tx (a : Act)
  | rx (a : Act)
  | transmit (i : ℕ)
  | sent (ok : Bool)
  | deliver (i j : ℕ)
  | drop (i : ℕ)
  deriving DecidableEq

/-- One step of the run. -/
def streamStep (q : StreamSetup) (s : Stream) : StreamLabel → Option Stream
  | .tx a => (s.wire.client a).bind fun w =>
      (senderStep q.tx s.tx (.act a)).map fun t => { s with tx := t, wire := w }
  | .rx a => (s.wire.server a).bind fun w =>
      (receiverStep q.rx s.rx (.act a)).map fun t => { s with rx := t, wire := w }
  | .transmit i =>
    match s.tx.sq[i]? with
    | some wr => (senderStep q.tx s.tx (.transmit i)).map fun t =>
        { s with tx := t, flight := s.flight ++ [(wr.seq, s.tx.bytesOf q.tx wr)] }
    | none => none
  | .sent ok => (senderStep q.tx s.tx (.complete ok)).map fun t => { s with tx := t }
  | .deliver i j =>
    match s.flight[i]? with
    | some msg => (receiverStep q.rx s.rx (.complete j msg.2 true)).map fun t =>
        { s with
          rx := t
          flight := s.flight.eraseIdx i
          delivered := s.delivered ++ [msg] }
    | none => none
  | .drop i =>
    match s.flight[i]? with
    | some msg => some { s with
        flight := s.flight.eraseIdx i
        dropped := s.dropped ++ [msg.1] }
    | none => none

def stream (q : StreamSetup) : System Stream StreamLabel where
  init := { tx := senderInit q.tx, rx := receiverInit q.rx }
  step := streamStep q

/-- The receiver gives up only over an empty completion queue, and nothing is
delivered once it has left its loop. -/
def QuietBreak (q : StreamSetup) (s : Stream) : StreamLabel → Prop
  | .rx a => ∀ c, recvStep q.rx s.rx.ctl a = some c → s.rx.ctl.pc = .idle → c.stage = .left →
      s.rx.cq = []
  | .deliver _ _ => s.rx.ctl.stage ≠ .left
  | _ => True

/-! ## Accounting -/

/-- The messages posted whose slot the device has not read. -/
def SenderNode.unsent (s : SenderNode) : List ℕ :=
  (s.sq.filter fun wr => !wr.sent).map SendWr.seq

/-- The messages of the run that have neither been delivered nor dropped: not
posted, not read from their slots, or in the fabric. -/
def Stream.pending (q : StreamSetup) (s : Stream) : ℕ :=
  (q.iterations - s.tx.ctl.issued) + s.tx.unsent.length + s.flight.length

/-- The sender never posts more than it was asked to send. -/
def SendCtl.Bounded (p : Setup) (c : SendCtl) : Prop :=
  c.issued ≤ p.iterations ∧ (0 < c.reserve → c.issued < p.iterations)

theorem window_le (role : Role) (txDepth rxDepth iterations : ℕ) :
    window role txDepth rxDepth iterations ≤ iterations := by
  cases role <;> exact Nat.min_le_right _ _

theorem window_pos (role : Role) (txDepth rxDepth : ℕ) {iterations : ℕ} (h : 1 ≤ iterations) :
    0 < window role txDepth rxDepth iterations := by
  cases role
  · exact Nat.lt_min.mpr ⟨lt_of_lt_of_le Nat.one_pos (Nat.le_max_right _ _), h⟩
  · exact Nat.lt_min.mpr ⟨lt_of_lt_of_le Nat.one_pos (Nat.le_max_right _ _), h⟩

theorem SendMove.bounded {p : Setup} {c t : SendCtl} {a : Act} (hW : p.window ≤ p.iterations)
    (hmove : SendMove p c a t) (hord : c.Ordered p) (h : c.Bounded p) : t.Bounded p := by
  have hprefill : ∀ seq ≤ p.window, (c.prefill p seq).Bounded p := by
    intro seq hle
    rw [SendCtl.prefill]
    split
    · exact ⟨by simp only [SendCtl.issued]; omega, fun _ => by simp only [SendCtl.issued]; omega⟩
    · exact ⟨hW, fun hr => absurd hr (by simp [SendCtl.reserve])⟩
  have hrefill : ∀ (d : SendCtl) left, d.posted ≤ p.iterations → (d.refill p left).Bounded p := by
    intro d left hle
    rw [SendCtl.refill]
    split
    · next hlt => exact ⟨hle, fun _ => hlt.2⟩
    · exact ⟨hle, fun hr => absurd hr (by simp [SendCtl.reserve])⟩
  obtain ⟨hle, hlt⟩ := h
  cases hmove with
  | waiting hpc ha hs => exact ⟨Nat.zero_le _, fun hr => absurd hr (by simp [SendCtl.reserve])⟩
  | waited hpc ha hs => exact hprefill 0 (Nat.zero_le _)
  | prefillFill hpc =>
    simp only [SendCtl.issued, SendCtl.reserve, hpc] at hle hlt
    exact ⟨hle, fun _ => hlt Nat.one_pos⟩
  | prefillPost hpc => exact hprefill _ (hord.posting _ hpc).1
  | poll hpc hlt' hlen hok =>
    simp only [SendCtl.issued, hpc] at hle
    exact hrefill _ _ hle
  | pollError hpc hlt' herr => exact ⟨hle, hlt⟩
  | refillFill hpc =>
    simp only [SendCtl.issued, SendCtl.reserve, hpc] at hle hlt
    exact ⟨hle, fun _ => hlt (Nat.succ_pos _)⟩
  | refillPost hpc =>
    simp only [SendCtl.issued, SendCtl.reserve, hpc] at hlt
    exact hrefill _ _ (hlt (Nat.succ_pos _))
  | leave hpc | completing hpc | completed hpc | recvReport hpc =>
    simp only [SendCtl.issued, hpc] at hle
    exact ⟨hle, fun hr => absurd hr (by simp [SendCtl.reserve])⟩

/-- A step of the sending program posts the next message, or posts none. -/
theorem unsent_act {p : Setup} {s t : SenderNode} {a : Act} (hW : 0 < p.window)
    (hord : s.ctl.Ordered p) (hstep : senderStep p s (.act a) = some t) :
    t.ctl.issued = s.ctl.issued ∧ t.unsent = s.unsent ∨
      t.ctl.issued = s.ctl.issued + 1 ∧ t.unsent = s.unsent ++ [s.ctl.issued] := by
  obtain ⟨c, u, hc, hu, rfl⟩ := senderStep_act hstep
  obtain ⟨-, hadv⟩ := (SendMove.of_step hc).advance hW hord
  cases a with
  | fill slot seq =>
    rw [SenderNode.perform] at hu
    split at hu
    · rw [← Option.some.inj hu]
      exact .inl ⟨hadv.2.2.1, rfl⟩
    · exact absurd hu (by simp)
  | postSend slot wrId =>
    rw [SenderNode.perform] at hu
    split at hu
    · rw [← Option.some.inj hu]
      refine .inr ⟨hadv.2.2.1, ?_⟩
      rw [SenderNode.unsent, SenderNode.unsent, List.filter_append, List.map_append, ← hadv.2.1]
      rfl
    · exact absurd hu (by simp)
  | poll wcs =>
    rw [SenderNode.perform] at hu
    split at hu
    · rw [← Option.some.inj hu]
      exact .inl ⟨hadv.1, rfl⟩
    · exact absurd hu (by simp)
  | write _ | read _ | postReceive _ _ | inspect _ _ | clock _ | skip =>
    rw [← Option.some.inj hu]
    exact .inl ⟨hadv.1, rfl⟩

/-- A step of the receiving program polls from the front of the queue, or leaves
it alone. -/
theorem order_act {p : Setup} {s t : ReceiverNode} {a : Act}
    (hstep : receiverStep p s (.act a) = some t) :
    t.polls.flatten ++ t.cq.map Arrived.bytes = s.polls.flatten ++ s.cq.map Arrived.bytes ∧
      (∀ e ∈ t.cq, e ∈ s.cq) ∧ (a.outOfBand = true → t.cq = s.cq) := by
  obtain ⟨c, u, hc, hu, rfl⟩ := receiverStep_act hstep
  cases a with
  | postReceive slot wrId =>
    rw [ReceiverNode.perform] at hu
    split at hu
    · rw [← Option.some.inj hu]
      exact ⟨rfl, fun _ he => he, fun _ => rfl⟩
    · exact absurd hu (by simp)
  | poll wcs =>
    rw [ReceiverNode.perform] at hu
    split at hu
    · rw [← Option.some.inj hu]
      refine ⟨?_, fun e he => List.mem_of_mem_drop he,
        fun ha => absurd ha (by simp [Act.outOfBand])⟩
      dsimp only
      rw [List.flatten_append, List.append_assoc, List.flatten_singleton, ← List.map_append,
        List.take_append_drop]
    · exact absurd hu (by simp)
  | inspect slot got =>
    rw [ReceiverNode.perform] at hu
    split at hu
    · rw [← Option.some.inj hu]
      exact ⟨rfl, fun _ he => he, fun _ => rfl⟩
    · exact absurd hu (by simp)
  | write _ | read _ | postSend _ _ | fill _ _ | clock _ | skip =>
    rw [← Option.some.inj hu]
    exact ⟨rfl, fun _ he => he, fun _ => rfl⟩

/-- How the receiver gets past its loop. -/
theorem RecvMove.to_left {p : Setup} {c t : RecvCtl} {a : Act} (hmove : RecvMove p c a t)
    (ht : t.stage = .left) (hok : t.failed = false) :
    a.outOfBand = true ∧ (c.stage = .left ∨ c.pc = .idle ∨
      c.pc = .head ∧ p.iterations ≤ c.checker.report.received) := by
  have hprefill : ∀ k, (c.prefill p k).stage ≠ .left := by
    intro k
    rw [RecvCtl.prefill]
    split <;> simp [RecvCtl.stage]
  have hnext : ∀ (d : RecvCtl) batch, (d.next batch).stage ≠ .left := by
    intro d batch
    cases batch <;> simp [RecvCtl.next, RecvCtl.stage]
  cases hmove with
  | prefill hpc => exact absurd ht (hprefill _)
  | progress hpc => exact absurd ht (hnext _ _)
  | repost hpc => exact absurd ht (hnext _ _)
  | pollError hpc hlt herr => exact absurd hok (by simp)
  | leave hpc hge => exact ⟨rfl, .inr (.inr ⟨hpc, hge⟩)⟩
  | timedOut hpc _ => exact ⟨rfl, .inr (.inl hpc)⟩
  | finishing hpc ha hs => exact ⟨ha, .inl (by rw [RecvCtl.stage, hpc])⟩
  | finished hpc ha hs => exact ⟨ha, .inl (by rw [RecvCtl.stage, hpc])⟩
  | sendReport hpc => exact ⟨rfl, .inl (by rw [RecvCtl.stage, hpc])⟩
  | _ => exact absurd ht (by simp [RecvCtl.stage])

/-- Only a failed completion stops the receiver. -/
theorem RecvMove.failed {p : Setup} {c t : RecvCtl} {a : Act} (hmove : RecvMove p c a t)
    (hc : c.failed = false) :
    t.failed = false ∨ ∃ wcs, a = .poll wcs ∧ completionError wcs = true := by
  cases hmove with
  | pollError hpc hlt herr => exact .inr ⟨_, rfl, herr⟩
  | prefill hpc =>
    refine .inl ?_
    rw [RecvCtl.prefill]
    split <;> exact hc
  | @progress batch _ hpc =>
    refine .inl ?_
    cases batch <;> exact hc
  | @repost _ rest hpc =>
    refine .inl ?_
    cases rest <;> exact hc
  | _ => exact .inl hc

/-- Where every message of the run is, and what the receiver has of it. -/
structure Stream.Settling (q : StreamSetup) (s : Stream) : Prop where
  tx : s.tx.Sound q.tx
  rx : s.rx.Sound q.rx
  bounded : s.tx.ctl.Bounded q.tx
  accounted : (s.tx.unsent ++ (s.flight.map Prod.fst ++
    (s.delivered.map Prod.fst ++ s.dropped))).Perm (List.range s.tx.ctl.issued)
  payloads : ∀ x ∈ s.flight ++ s.delivered, x.2 = payload q.msgSize x.1
  order : s.rx.polls.flatten ++ s.rx.cq.map Arrived.bytes = s.delivered.map Prod.snd
  healthy : s.rx.ctl.failed = false ∧ ∀ e ∈ s.rx.cq, e.wc.ok = true
  drained : s.rx.ctl.stage = .left → s.rx.cq = []

section Steps

variable {q : StreamSetup} {s t : Stream}

theorem Stream.Settling.delivered_le (h : s.Settling q) :
    s.delivered.length + s.dropped.length + s.pending q = q.iterations := by
  have hlen := h.accounted.length_eq
  have hle : s.tx.ctl.issued ≤ q.iterations := h.bounded.1
  simp only [List.length_append, List.length_map, List.length_range] at hlen
  rw [Stream.pending]
  omega

theorem settling_init (q : StreamSetup) : (stream q).init.Settling q where
  tx := sound_init q.tx
  rx := receiver_sound_init q.rx
  bounded := ⟨Nat.zero_le _, fun hr => absurd hr (by simp [SendCtl.reserve, stream, senderInit])⟩
  accounted := List.Perm.refl []
  payloads := fun x hx => absurd hx List.not_mem_nil
  order := rfl
  healthy := by
    refine ⟨?_, fun e he => absurd he List.not_mem_nil⟩
    change (RecvCtl.prefill q.rx _ 0).failed = false
    rw [RecvCtl.prefill]
    split <;> rfl
  drained := fun _ => rfl

/-- A step of the sending program. -/
theorem Stream.Settling.txAct (hn : 1 ≤ q.iterations) (hm : headerLen ≤ q.msgSize)
    (hsize : q.msgSize < usizeSize) (h : s.Settling q) {a : Act}
    (hstep : streamStep q s (.tx a) = some t) : t.Settling q := by
  rw [streamStep, Option.bind_eq_some_iff] at hstep
  obtain ⟨w, -, hstep⟩ := hstep
  obtain ⟨u, hu, rfl⟩ := Option.map_eq_some_iff.mp hstep
  have hW : 0 < q.tx.window := window_pos .client q.txDepth q.rxDepth hn
  obtain ⟨c, v, hc, -, hctl⟩ := senderStep_act hu
  exact { h with
    tx := h.tx.act hW hm hsize hu
    bounded := by
      rw [hctl]
      exact (SendMove.of_step hc).bounded (window_le .client q.txDepth q.rxDepth _) h.tx.ordered
        h.bounded
    accounted := by
      dsimp only
      rcases unsent_act hW h.tx.ordered hu with ⟨hi, hun⟩ | ⟨hi, hun⟩
      · rw [hi, hun]
        exact h.accounted
      · rw [hi, hun, List.range_succ, List.append_assoc]
        refine List.Perm.trans ?_ (h.accounted.append_right _)
        rw [List.append_assoc]
        exact List.perm_append_comm.append_left _ }

/-- A step of the receiving program. -/
theorem Stream.Settling.rxAct (hsize : q.msgSize < usizeSize) (h : s.Settling q) {a : Act}
    (hquiet : QuietBreak q s (.rx a)) (hstep : streamStep q s (.rx a) = some t) :
    t.Settling q := by
  rw [streamStep, Option.bind_eq_some_iff] at hstep
  obtain ⟨w, -, hstep⟩ := hstep
  obtain ⟨u, hu, rfl⟩ := Option.map_eq_some_iff.mp hstep
  obtain ⟨horder, hcq, hkeep⟩ := order_act hu
  obtain ⟨c, v, hc, hv, hctl⟩ := receiverStep_act hu
  have hmove := RecvMove.of_step hc
  have hcu : u.ctl = c := by rw [hctl]
  have hok : u.ctl.failed = false := by
    rw [hcu]
    rcases hmove.failed h.healthy.1 with hf | ⟨wcs, rfl, herr⟩
    · exact hf
    · -- every completion in the queue is a success
      rw [ReceiverNode.perform] at hv
      split at hv
      · next hwcs =>
        obtain ⟨w, hw, hbad⟩ := List.any_eq_true.mp herr
        obtain ⟨e, he, rfl⟩ := List.mem_map.mp (hwcs.subset hw)
        rw [h.healthy.2 e he] at hbad
        exact absurd hbad (by simp)
      · exact absurd hv (by simp)
  exact { h with
    rx := h.rx.act hsize hu
    order := horder.trans h.order
    healthy := ⟨hok, fun e he => h.healthy.2 e (hcq e he)⟩
    drained := fun hleft => by
      dsimp only at hleft ⊢
      rw [hcu] at hleft hok
      obtain ⟨ha, hcase⟩ := hmove.to_left hleft hok
      rw [hkeep ha]
      rcases hcase with hleft' | hidle | ⟨hhead, hge⟩
      · exact h.drained hleft'
      · exact hquiet c hc hidle hleft
      · -- everything has been received, so nothing is waiting
        have hfold := h.rx.folded h.healthy.1
        have hheld := h.rx.batch h.healthy.1
        rw [RecvCtl.batch, hhead] at hheld
        have hnil : s.rx.held = [] := List.map_eq_nil_iff.mp hheld.symm
        rw [ReceiverNode.Folded, RecvCtl.stage, hhead, hnil] at hfold
        have hrecv : s.rx.ctl.checker.report.received =
            (polled q.rx.iterations s.rx.polls).flatten.length := by
          rw [← received_receiveLoop q.rx.msgSize, ← hfold]
          rfl
        have hle := length_polled_le q.rx.iterations s.rx.polls
        have htotal := h.delivered_le
        have horder' := congrArg List.length h.order
        rw [List.length_append, List.length_map, List.length_map] at horder'
        have hn : q.rx.iterations = q.iterations := rfl
        exact List.eq_nil_of_length_eq_zero (by omega) }

/-- Reading a slot takes its message off the list of those to be read. -/
theorem perm_unsent {l : List SendWr} {i : ℕ} {wr : SendWr} (hi : l[i]? = some wr)
    (hsent : wr.sent = false) :
    (wr.seq :: ((l.set i { wr with sent := true }).filter fun w => !w.sent).map SendWr.seq).Perm
      ((l.filter fun w => !w.sent).map SendWr.seq) := by
  induction l generalizing i with
  | nil => exact absurd hi (by simp)
  | cons x l ih =>
    cases i with
    | zero =>
      obtain rfl : x = wr := Option.some.inj hi
      simp [hsent]
    | succ i =>
      have hrest := ih (i := i) hi
      rw [List.set_cons_succ, List.filter_cons, List.filter_cons]
      split
      · exact (List.Perm.swap _ _ _).trans (hrest.cons _)
      · exact hrest

/-- The device reads a slot: the fabric gets the payload of its message. -/
theorem Stream.Settling.transmit (hn : 1 ≤ q.iterations) (hm : headerLen ≤ q.msgSize)
    (hsize : q.msgSize < usizeSize) (h : s.Settling q) {i : ℕ}
    (hstep : streamStep q s (.transmit i) = some t) : t.Settling q := by
  have hW : 0 < q.tx.window := window_pos .client q.txDepth q.rxDepth hn
  rw [streamStep] at hstep
  split at hstep
  · next wr hwr =>
    obtain ⟨u, hu, rfl⟩ := Option.map_eq_some_iff.mp hstep
    have htx := h.tx.step hW hm hsize hu
    have hbytes := (h.tx.bytesOf_eq (List.mem_of_getElem? hwr)).1
    rw [senderStep, hwr] at hu
    dsimp only at hu
    split at hu
    · exact absurd hu (by simp)
    · next hsent =>
      have hu' := Option.some.inj hu
      have hunsent : (wr.seq :: u.unsent).Perm s.tx.unsent := by
        rw [← hu']
        exact perm_unsent hwr (Bool.eq_false_iff.mpr hsent)
      have hctl : u.ctl = s.tx.ctl := by rw [← hu']
      exact { h with
        tx := htx
        bounded := by
          dsimp only
          rw [hctl]
          exact h.bounded
        accounted := by
          dsimp only
          rw [hctl, List.map_append]
          refine List.Perm.trans (List.perm_iff_count.mpr fun k => ?_) h.accounted
          have hcount := hunsent.count_eq k
          simp only [List.count_append, List.count_cons, List.map_cons, List.map_nil,
            List.count_nil] at hcount ⊢
          omega
        payloads := fun x hx => by
          simp only [List.mem_append, List.mem_singleton] at hx
          rcases hx with (hx | rfl) | hx
          · exact h.payloads x (List.mem_append_left _ hx)
          · exact hbytes
          · exact h.payloads x (List.mem_append_right _ hx) }
  · exact absurd hstep (by simp)

/-- The device completes a send. -/
theorem Stream.Settling.sent (hn : 1 ≤ q.iterations) (hm : headerLen ≤ q.msgSize)
    (hsize : q.msgSize < usizeSize) (h : s.Settling q) {ok : Bool}
    (hstep : streamStep q s (.sent ok) = some t) : t.Settling q := by
  have hW : 0 < q.tx.window := window_pos .client q.txDepth q.rxDepth hn
  obtain ⟨u, hu, rfl⟩ := Option.map_eq_some_iff.mp hstep
  have htx := h.tx.step hW hm hsize hu
  rw [senderStep] at hu
  split at hu
  · next wr rest hsq =>
    split at hu
    · next hsent =>
      have hu' := Option.some.inj hu
      have hctl : u.ctl = s.tx.ctl := by rw [← hu']
      have hunsent : u.unsent = s.tx.unsent := by
        rw [← hu', SenderNode.unsent, SenderNode.unsent, hsq, List.filter_cons, hsent]
        rfl
      exact { h with
        tx := htx
        bounded := by
          dsimp only
          rw [hctl]
          exact h.bounded
        accounted := by
          dsimp only
          rw [hctl, hunsent]
          exact h.accounted }
    · exact absurd hu (by simp)
  · exact absurd hu (by simp)

/-- A message leaves the fabric. -/
theorem perm_flight {i : ℕ} {msg : ℕ × List UInt8} (hi : s.flight[i]? = some msg) :
    (msg.1 :: (s.flight.eraseIdx i).map Prod.fst).Perm (s.flight.map Prod.fst) := by
  obtain ⟨hlt, rfl⟩ := List.getElem?_eq_some_iff.mp hi
  exact (List.getElem_cons_eraseIdx_perm hlt).map Prod.fst

/-- The fabric delivers a message. -/
theorem Stream.Settling.deliver (hsize : q.msgSize < usizeSize) (h : s.Settling q) {i j : ℕ}
    (hquiet : QuietBreak q s (.deliver i j)) (hstep : streamStep q s (.deliver i j) = some t) :
    t.Settling q := by
  rw [streamStep] at hstep
  split at hstep
  · next msg hmsg =>
    obtain ⟨u, hu, rfl⟩ := Option.map_eq_some_iff.mp hstep
    have hrx := h.rx.step hsize hu
    have hperm := perm_flight hmsg
    rw [receiverStep] at hu
    split at hu
    · next wr hwr =>
      split at hu
      · have hu' := Option.some.inj hu
        have hctl : u.ctl = s.rx.ctl := by rw [← hu']
        exact { h with
          rx := hrx
          accounted := by
            dsimp only
            refine List.Perm.trans (List.perm_iff_count.mpr fun k => ?_) h.accounted
            have hcount := hperm.count_eq k
            simp only [List.count_append, List.count_cons, List.map_append, List.map_cons,
              List.map_nil, List.count_nil] at hcount ⊢
            omega
          payloads := fun x hx => by
            simp only [List.mem_append, List.mem_singleton] at hx
            rcases hx with hx | hx | rfl
            · exact h.payloads x (List.mem_append_left _ (List.mem_of_mem_eraseIdx hx))
            · exact h.payloads x (List.mem_append_right _ hx)
            · exact h.payloads x (List.mem_append_left _ (List.mem_of_getElem? hmsg))
          order := by
            dsimp only
            rw [← hu', List.map_append, List.map_append, ← List.append_assoc]
            exact congrArg (· ++ [msg.2]) h.order
          healthy := by
            dsimp only
            rw [hctl]
            refine ⟨h.healthy.1, fun e he => ?_⟩
            rw [← hu'] at he
            rcases List.mem_append.mp he with he | he
            · exact h.healthy.2 e he
            · rw [List.mem_singleton.mp he]
          drained := fun hleft => by
            dsimp only at hleft
            rw [hctl] at hleft
            exact absurd hleft hquiet }
      · exact absurd hu (by simp)
    · exact absurd hu (by simp)
  · exact absurd hstep (by simp)

/-- The fabric drops a message. -/
theorem Stream.Settling.drop (h : s.Settling q) {i : ℕ}
    (hstep : streamStep q s (.drop i) = some t) : t.Settling q := by
  rw [streamStep] at hstep
  split at hstep
  · next msg hmsg =>
    rw [← Option.some.inj hstep]
    have hperm := perm_flight hmsg
    exact { h with
      accounted := by
        dsimp only
        refine List.Perm.trans (List.perm_iff_count.mpr fun k => ?_) h.accounted
        have hcount := hperm.count_eq k
        simp only [List.count_append, List.count_cons, List.count_nil] at hcount ⊢
        omega
      payloads := fun x hx => by
        rcases List.mem_append.mp hx with hx | hx
        · exact h.payloads x (List.mem_append_left _ (List.mem_of_mem_eraseIdx hx))
        · exact h.payloads x (List.mem_append_right _ hx) }
  · exact absurd hstep (by simp)

end Steps

/-- **Every run settles its accounts**, as long as the idle break waits for
quiet. -/
theorem stream_settling {q : StreamSetup} (hn : 1 ≤ q.iterations) (hm : headerLen ≤ q.msgSize)
    (hsize : q.msgSize < usizeSize) {s : Stream}
    (h : (stream q).ReachableUnder (QuietBreak q) s) : s.Settling q := by
  refine h.invariant (settling_init q) fun s l t hs hquiet hstep => ?_
  cases l with
  | tx a => exact hs.txAct hn hm hsize hstep
  | rx a => exact hs.rxAct hsize hquiet hstep
  | transmit i => exact hs.transmit hn hm hsize hstep
  | sent ok => exact hs.sent hn hm hsize hstep
  | deliver i j => exact hs.deliver hsize hquiet hstep
  | drop i => exact hs.drop hstep

/-- What the receiver reports once it has left its loop. -/
theorem Stream.Settling.report {q : StreamSetup} {s : Stream} (h : s.Settling q)
    (hm : headerLen ≤ q.msgSize) (hsize : q.msgSize < usizeSize) (hn : q.iterations < usizeSize)
    (hleft : s.rx.ctl.stage = .left) :
    let report := s.rx.ctl.checker.report
    report.received = s.delivered.length ∧ report.lost = q.iterations - s.delivered.length ∧
    report.duplicated = 0 ∧ report.unidentifiable = 0 ∧ report.truncated = 0 ∧
    report.corrupted = 0 ∧
    report.correctBytes = UInt64.ofNat (s.delivered.length * q.msgSize) ∧
    report.correctBits = UInt64.ofNat (8 * s.delivered.length * q.msgSize) := by
  have hfold := h.rx.folded h.healthy.1
  rw [ReceiverNode.Folded, hleft] at hfold
  have hpolls : s.rx.polls.flatten = (s.delivered.map Prod.fst).map (payload q.msgSize) := by
    have horder := h.order
    rw [h.drained hleft, List.map_nil, List.append_nil] at horder
    rw [horder, List.map_map]
    exact List.map_congr_left fun x hx => h.payloads x (List.mem_append_right _ hx)
  have hnodup := (h.accounted.nodup_iff.mpr List.nodup_range)
  have hdel : (s.delivered.map Prod.fst).Nodup :=
    (List.nodup_append.mp (List.nodup_append.mp (List.nodup_append.mp hnodup).2.1).2.1).1
  have hlt : ∀ k ∈ s.delivered.map Prod.fst, k < q.iterations := by
    intro k hk
    have hmem : k ∈ List.range s.tx.ctl.issued := h.accounted.mem_iff.mp
      (List.mem_append_right _ (List.mem_append_right _ (List.mem_append_left _ hk)))
    exact lt_of_lt_of_le (List.mem_range.mp hmem) h.bounded.1
  have hrep := receive_payloads hm hn hlt hsize hdel hpolls
  rw [List.length_map] at hrep
  rw [hfold.2]
  exact hrep

end Accuracy
end RdmaBench
