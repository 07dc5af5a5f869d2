import RdmaBench.Accuracy.Programs
import RdmaBench.Accuracy.Receive
import RdmaBench.Accuracy.Slots

/-!
# The receiver and its device

`ReceiverNode` is a running `receive` with its registered region and queues.  The
device writes into posted slots as it likes (`dma`), in any order and with any
bytes, and completes any of them (`complete`); what a completion reports is the
bytes written last, possibly fewer than a slot holds.

Three fields are history and read by no step: what the polls have returned
(`polls`), the part of the last batch that has not been checked (`held`), and what
`check` has been given (`checked`).  `Sound` relates the program to them.  A slot
is posted, completed, or in the hands of the program, and never two of these; the
slots in hand still hold what the device wrote; and the checker in the program is
the one that `receiveLoop` computes from the polls, as soon as the rest of the
batch has been folded in.  So the report that is sent back is `receive` of what
the polls returned (`receiver_report`).
-/

namespace RdmaBench
namespace Accuracy

open Automaton Memory

/-- A work request on the receive queue. -/
structure RecvWr where
  slot : ℕ
  wrId : ℕ
  deriving DecidableEq

/-- A receive completion, with the bytes the device wrote for it. -/
structure Arrived where
  slot : ℕ
  bytes : List UInt8
  wc : Wc
  deriving DecidableEq

/-- A running `receive` and its device. -/
structure ReceiverNode where
  ctl : RecvCtl
  mr : List UInt8
  /-- Posted and not completed. -/
  rq : List RecvWr
  /-- Completed and not polled, oldest first. -/
  cq : List Arrived
  /-- Polled and not checked, with their slots. -/
  held : List (ℕ × List UInt8) := []
  /-- What the polls have returned. -/
  polls : List (List (List UInt8)) := []
  /-- What has been checked. -/
  checked : List (List UInt8) := []
  deriving DecidableEq

/-- What can happen at the receiver. -/
inductive ReceiverLabel where
  | act (a : Act)
  | dma (i off : ℕ) (bytes : List UInt8)
  | complete (i : ℕ) (bytes : List UInt8) (ok : Bool)
  deriving DecidableEq

/-- What an act does to memory, queues and history. -/
def ReceiverNode.perform (p : Setup) (s : ReceiverNode) : Act → Option ReceiverNode
  | .postReceive slot wrId =>
    if SlotFits s.mr.length slot p.msgSize then some { s with rq := s.rq ++ [⟨slot, wrId⟩] }
    else none
  | .poll wcs =>
    if wcs <+: s.cq.map Arrived.wc then
      some { s with
        cq := s.cq.drop wcs.length
        held := (s.cq.take wcs.length).map fun e => (e.slot, e.bytes)
        polls := s.polls ++ [(s.cq.take wcs.length).map Arrived.bytes] }
    else none
  | .inspect slot got =>
    if (slotRange slot p.msgSize).1 + got.length ≤ s.mr.length ∧
        slice s.mr (slotRange slot p.msgSize).1 got.length = got then
      some { s with held := s.held.tail, checked := s.checked ++ [got] }
    else none
  | _ => some s

/-- One step of the receiver or of its device. -/
def receiverStep (p : Setup) (s : ReceiverNode) : ReceiverLabel → Option ReceiverNode
  | .act a =>
    (recvStep p s.ctl a).bind fun c => (s.perform p a).map fun t => { t with ctl := c }
  | .dma i off bytes =>
    match s.rq[i]? with
    | some wr =>
      if off + bytes.length ≤ p.msgSize then
        some { s with mr := overwrite s.mr ((slotRange wr.slot p.msgSize).1 + off) bytes }
      else none
    | none => none
  | .complete i bytes ok =>
    match s.rq[i]? with
    | some wr =>
      if bytes.length ≤ p.msgSize then
        some { s with
          mr := overwrite s.mr (slotRange wr.slot p.msgSize).1 bytes
          rq := s.rq.eraseIdx i
          cq := s.cq ++ [⟨wr.slot, bytes, ⟨wr.wrId, bytes.length, ok⟩⟩] }
      else none
    | none => none

/-- A receiver that has just allocated its region. -/
def receiverInit (p : Setup) : ReceiverNode where
  ctl := (recvProgram p).init
  mr := List.replicate (regionLen p.window p.msgSize) 0
  rq := []
  cq := []

def receiver (p : Setup) : System ReceiverNode ReceiverLabel := ⟨receiverInit p, receiverStep p⟩

/-- The slots posted and not yet polled. -/
def ReceiverNode.owned (s : ReceiverNode) : List ℕ :=
  s.rq.map RecvWr.slot ++ s.cq.map Arrived.slot

/-! ## The bookkeeping of the program -/

/-- The slots polled and not yet reposted. -/
def RecvCtl.inHand (c : RecvCtl) : List ℕ :=
  match c.pc with
  | .progress batch => batch.map Prod.fst
  | .inspect slot _ rest => slot :: rest.map Prod.fst
  | .repost slot rest => slot :: rest.map Prod.fst
  | _ => []

/-- The messages polled and not yet checked. -/
def RecvCtl.batch (c : RecvCtl) : List (ℕ × ℕ) :=
  match c.pc with
  | .progress batch => batch
  | .inspect slot len rest => (slot, len) :: rest
  | .repost _ rest => rest
  | _ => []

/-- How many slots have been indexed without a panic. -/
def RecvCtl.covered (p : Setup) (c : RecvCtl) : ℕ :=
  match c.pc with
  | .prefill slot => slot
  | _ => p.window

/-- How far the program is with the last batch: it has yet to count it, is
checking it or has nothing to do, or has left the loop. -/
inductive RecvStage where
  | counting
  | checking
  | left
  deriving DecidableEq

def RecvCtl.stage (c : RecvCtl) : RecvStage :=
  match c.pc with
  | .progress _ => .counting
  | .checkingDone _ => .left
  | .sendReport => .left
  | .done => .left
  | _ => .checking

section Control

variable {p : Setup} {c t : RecvCtl} {a : Act}

/-- What one step of the program does to its bookkeeping, act by act. -/
def RecvCtl.Advance (p : Setup) (c t : RecvCtl) : Act → Prop
  | .postReceive slot wrId => wrId = slot ∧ t.checker = c.checker ∧ c.stage = .checking ∧
      t.stage = .checking ∧ t.batch = c.batch ∧
      (slot = c.covered p ∧ t.covered p = slot + 1 ∧ c.inHand = [] ∧ t.inHand = [] ∨
        c.inHand = slot :: t.inHand ∧ t.covered p = c.covered p)
  | .inspect slot got => ∃ len, c.batch = (slot, len) :: t.batch ∧
      got.length = min len p.msgSize ∧ t.checker = check got p.msgSize c.checker ∧
      c.stage = .checking ∧ t.stage = .checking ∧ slot ∈ c.inHand ∧ t.inHand = c.inHand ∧
      t.covered p = c.covered p
  | .poll wcs => c.batch = [] ∧ c.inHand = [] ∧ c.stage = .checking ∧
      c.checker.report.received < p.iterations ∧ t.checker = c.checker ∧
      t.covered p = c.covered p ∧
      (t.failed = true ∧ t.inHand = [] ∨
        t.batch = (wcs.map fun w => (w.wrId, w.len)) ∧ t.inHand = wcs.map Wc.wrId ∧
          (wcs = [] ∧ t.stage = .checking ∨ t.stage = .counting))
  | _ => t.batch = c.batch ∧ t.inHand = c.inHand ∧ t.covered p = c.covered p ∧
      (t.checker = c.checker ∧ t.stage = c.stage ∨
        t.checker = c.checker.addReceived c.batch.length ∧ c.stage = .counting ∧
          t.stage = .checking ∨
        t = c.leave p ∧ c.batch = [] ∧ c.stage = .checking)

theorem RecvCtl.Advance.of_outOfBand (ha : a.outOfBand = true) (hb : t.batch = c.batch)
    (hh : t.inHand = c.inHand) (hcov : t.covered p = c.covered p) (hk : t.checker = c.checker)
    (hs : t.stage = c.stage) : c.Advance p t a := by
  cases a <;>
    first | exact ⟨hb, hh, hcov, .inl ⟨hk, hs⟩⟩ | exact absurd ha (by simp [Act.outOfBand])

theorem next_batch (batch : List (ℕ × ℕ)) :
    (c.next batch).batch = batch ∧ (c.next batch).inHand = batch.map Prod.fst ∧
      (c.next batch).covered p = p.window ∧ (c.next batch).stage = .checking ∧
      (c.next batch).checker = c.checker := by
  cases batch <;> exact ⟨rfl, rfl, rfl, rfl, rfl⟩

theorem prefill_covered {slot : ℕ} (hle : slot ≤ p.window) :
    (c.prefill p slot).batch = [] ∧ (c.prefill p slot).inHand = [] ∧
      (c.prefill p slot).covered p = slot ∧ (c.prefill p slot).stage = .checking ∧
      (c.prefill p slot).checker = c.checker := by
  rw [RecvCtl.prefill]
  split
  · exact ⟨rfl, rfl, rfl, rfl, rfl⟩
  · exact ⟨rfl, rfl, (by omega : p.window = slot), rfl, rfl⟩

/-- **One step of the program** does to its bookkeeping what `Advance` says. -/
theorem RecvMove.advance (hmove : RecvMove p c a t)
    (hfill : ∀ slot, c.pc = .prefill slot → slot < p.window) : c.Advance p t a := by
  cases hmove with
  | @prefill slot hpc =>
    obtain ⟨hb, hh, hcov, hs, hk⟩ := prefill_covered (p := p) (c := c) (hfill slot hpc)
    refine ⟨rfl, hk, ?_, hs, ?_, .inl ⟨?_, hcov, ?_, hh⟩⟩
    · rw [RecvCtl.stage, hpc]
    · rw [RecvCtl.batch.eq_def c, hpc, hb]
    · rw [RecvCtl.covered, hpc]
    · rw [RecvCtl.inHand, hpc]
  | posting hpc ha hs =>
    refine .of_outOfBand ha ?_ ?_ ?_ rfl ?_ <;>
      simp [RecvCtl.stage, RecvCtl.batch, RecvCtl.covered, RecvCtl.inHand, hpc]
  | posted hpc ha hs =>
    refine .of_outOfBand ha ?_ ?_ ?_ rfl ?_ <;>
      simp [RecvCtl.stage, RecvCtl.batch, RecvCtl.covered, RecvCtl.inHand, hpc]
  | start hpc =>
    refine ⟨?_, ?_, ?_, .inl ⟨rfl, ?_⟩⟩ <;>
      simp [RecvCtl.stage, RecvCtl.batch, RecvCtl.covered, RecvCtl.inHand, hpc]
  | pollEmpty hpc hlt =>
    refine ⟨?_, ?_, ?_, hlt, rfl, ?_, .inr ⟨rfl, rfl, .inl ⟨rfl, rfl⟩⟩⟩ <;>
      simp [RecvCtl.stage, RecvCtl.batch, RecvCtl.covered, RecvCtl.inHand, hpc]
  | @poll wcs hpc hlt hlen hok hne =>
    refine ⟨?_, ?_, ?_, hlt, rfl, ?_, .inr ⟨rfl, ?_, .inr rfl⟩⟩ <;>
      simp [RecvCtl.stage, RecvCtl.batch, RecvCtl.covered, RecvCtl.inHand, hpc]
  | pollError hpc hlt herr =>
    refine ⟨?_, ?_, ?_, hlt, rfl, ?_, .inl ⟨rfl, ?_⟩⟩ <;>
      simp [RecvCtl.stage, RecvCtl.batch, RecvCtl.covered, RecvCtl.inHand, hpc]
  | leave hpc hge =>
    refine ⟨?_, ?_, ?_, .inr (.inr ⟨rfl, ?_, ?_⟩)⟩ <;>
      simp [RecvCtl.stage, RecvCtl.batch, RecvCtl.covered, RecvCtl.inHand, RecvCtl.leave, hpc]
  | timedOut hpc ht =>
    refine ⟨?_, ?_, ?_, .inr (.inr ⟨rfl, ?_, ?_⟩)⟩ <;>
      simp [RecvCtl.stage, RecvCtl.batch, RecvCtl.covered, RecvCtl.inHand, RecvCtl.leave, hpc]
  | retry hpc =>
    refine ⟨?_, ?_, ?_, .inl ⟨rfl, ?_⟩⟩ <;>
      simp [RecvCtl.stage, RecvCtl.batch, RecvCtl.covered, RecvCtl.inHand, hpc]
  | @progress batch now hpc =>
    obtain ⟨hb, hh, hcov, hs, hk⟩ := next_batch (p := p) (c := { c with
      lastProgress := now
      checker := c.checker.addReceived batch.length }) batch
    have hcb : c.batch = batch := by rw [RecvCtl.batch, hpc]
    refine ⟨hb.trans hcb.symm, ?_, ?_, .inr (.inl ⟨?_, ?_, hs⟩)⟩
    · rw [hh, RecvCtl.inHand, hpc]
    · rw [hcov, RecvCtl.covered, hpc]
    · rw [hk, hcb]
    · rw [RecvCtl.stage, hpc]
  | @inspect slot len rest got hpc hlen =>
    refine ⟨len, ?_, hlen, rfl, ?_, rfl, ?_, ?_, ?_⟩ <;>
      simp [RecvCtl.stage, RecvCtl.batch, RecvCtl.covered, RecvCtl.inHand, hpc]
  | @repost slot rest hpc =>
    obtain ⟨hb, hh, hcov, hs, hk⟩ := next_batch (p := p) (c := c) rest
    refine ⟨rfl, hk, ?_, hs, ?_, .inr ⟨?_, ?_⟩⟩
    · rw [RecvCtl.stage, hpc]
    · rw [hb, RecvCtl.batch, hpc]
    · rw [hh, RecvCtl.inHand, hpc]
    · rw [hcov, RecvCtl.covered, hpc]
  | finishing hpc ha hs =>
    refine .of_outOfBand ha ?_ ?_ ?_ rfl ?_ <;>
      simp [RecvCtl.stage, RecvCtl.batch, RecvCtl.covered, RecvCtl.inHand, hpc]
  | finished hpc ha hs =>
    refine .of_outOfBand ha ?_ ?_ ?_ rfl ?_ <;>
      simp [RecvCtl.stage, RecvCtl.batch, RecvCtl.covered, RecvCtl.inHand, hpc]
  | sendReport hpc =>
    refine ⟨?_, ?_, ?_, .inl ⟨rfl, ?_⟩⟩ <;>
      simp [RecvCtl.stage, RecvCtl.batch, RecvCtl.covered, RecvCtl.inHand, hpc]

/-- What has not been checked is in hand. -/
theorem fst_mem_inHand {x : ℕ × ℕ} (hx : x ∈ c.batch) : x.1 ∈ c.inHand := by
  unfold RecvCtl.batch at hx
  unfold RecvCtl.inHand
  split at hx
  · exact List.mem_map_of_mem hx
  · exact List.mem_map_of_mem (f := Prod.fst) hx
  · exact List.mem_cons_of_mem _ (List.mem_map_of_mem hx)
  · exact absurd hx List.not_mem_nil

/-- The loop that posts the window stays inside it. -/
theorem RecvMove.filling (hmove : RecvMove p c a t) {slot : ℕ} (ht : t.pc = .prefill slot) :
    slot < p.window := by
  have hprefill : ∀ k, (c.prefill p k).pc = .prefill slot → slot < p.window := by
    intro k hk
    rw [RecvCtl.prefill] at hk
    split at hk
    · next hlt =>
      obtain rfl : k = slot := by simpa using hk
      exact hlt
    · exact absurd hk (by simp)
  have hnext : ∀ (d : RecvCtl) batch, (d.next batch).pc ≠ .prefill slot := by
    intro d batch
    cases batch <;> simp [RecvCtl.next]
  cases hmove with
  | prefill hpc => exact hprefill _ ht
  | pollError hpc hlt herr => exact absurd (hpc.symm.trans ht) (by simp)
  | progress hpc => exact absurd ht (hnext _ _)
  | repost hpc => exact absurd ht (hnext _ _)
  | _ => exact absurd ht (by simp [RecvCtl.leave])

end Control

/-! ## Who owns a slot -/

/-- The checker of the program, once the batch in hand has been folded in, is the
one `receiveLoop` ends with; past the loop, the report is the final one. -/
def ReceiverNode.Folded (p : Setup) (s : ReceiverNode) : Prop :=
  match s.ctl.stage with
  | .counting =>
    checkAll p.msgSize (s.ctl.checker.addReceived s.held.length) (s.held.map Prod.snd) =
      receiveLoop p.msgSize p.iterations s.polls (Checker.fresh p.msgSize p.iterations)
  | .checking =>
    checkAll p.msgSize s.ctl.checker (s.held.map Prod.snd) =
      receiveLoop p.msgSize p.iterations s.polls (Checker.fresh p.msgSize p.iterations)
  | .left => s.held = [] ∧ s.ctl.checker.report = receive p.msgSize p.iterations s.polls

/-- The relation between the program, the region, the queues and the history. -/
structure ReceiverNode.Sound (p : Setup) (s : ReceiverNode) : Prop where
  filling : ∀ slot, s.ctl.pc = .prefill slot → slot < p.window
  length_mr : s.mr.length = regionLen p.window p.msgSize
  limit : s.ctl.covered p * p.msgSize ≤ regionLen p.window p.msgSize
  nodup : (s.owned ++ s.ctl.inHand).Nodup
  inside : ∀ slot ∈ s.owned ++ s.ctl.inHand, slot < s.ctl.covered p
  posted : ∀ wr ∈ s.rq, wr.wrId = wr.slot
  arrived : ∀ e ∈ s.cq, e.wc.wrId = e.slot ∧ e.wc.len = e.bytes.length ∧
    e.bytes.length ≤ p.msgSize ∧ slice s.mr (e.slot * p.msgSize) e.bytes.length = e.bytes
  batch : s.ctl.failed = false → s.ctl.batch = s.held.map fun x => (x.1, x.2.length)
  held : s.ctl.failed = false → ∀ x ∈ s.held, x.2.length ≤ p.msgSize ∧
    slice s.mr (x.1 * p.msgSize) x.2.length = x.2
  history : s.polls.flatten = s.checked ++ s.held.map Prod.snd
  folded : s.ctl.failed = false → s.Folded p

section Loop

variable {m n : ℕ} {c : Checker}

/-- One more batch at the end. -/
theorem receiveLoop_append (polls : List (List (List UInt8))) (batch : List (List UInt8)) :
    receiveLoop m n (polls ++ [batch]) c =
      if (receiveLoop m n polls c).report.received < n then
        takeBatch m batch (receiveLoop m n polls c)
      else receiveLoop m n polls c := by
  induction polls generalizing c with
  | nil => rfl
  | cons first polls ih =>
    rw [List.cons_append, receiveLoop, receiveLoop]
    split
    · exact ih
    · rfl

end Loop

section Node

variable {p : Setup} {s t : ReceiverNode}

theorem failed_eq_false_of_recvStep {c t : RecvCtl} {a : Act} (h : recvStep p c a = some t) :
    c.failed = false := by
  unfold recvStep at h
  split at h
  · exact absurd h (by simp)
  · next hf => exact Bool.eq_false_iff.mpr hf

/-- What a step of the program amounts to. -/
theorem receiverStep_act {a : Act} (h : receiverStep p s (.act a) = some t) :
    ∃ c u, recvStep p s.ctl a = some c ∧ s.perform p a = some u ∧ t = { u with ctl := c } := by
  rw [receiverStep, Option.bind_eq_some_iff] at h
  obtain ⟨c, hc, hu⟩ := h
  obtain ⟨u, hu', rfl⟩ := Option.map_eq_some_iff.mp hu
  exact ⟨c, u, hc, hu', rfl⟩

theorem ReceiverNode.Sound.length_lt (h : s.Sound p) : s.mr.length < usizeSize := by
  rw [h.length_mr]
  exact regionLen_lt _ _

/-- A slot below the covered part ends inside the region. -/
theorem ReceiverNode.Sound.end_le (h : s.Sound p) {slot : ℕ} (hlt : slot < s.ctl.covered p) :
    (slot + 1) * p.msgSize ≤ s.mr.length := by
  rw [h.length_mr]
  exact le_trans (Nat.mul_le_mul_right _ hlt) h.limit

theorem ReceiverNode.Sound.slotRange_eq (h : s.Sound p) {slot : ℕ}
    (hlt : slot < s.ctl.covered p) :
    slotRange slot p.msgSize = (slot * p.msgSize, slot * p.msgSize + p.msgSize) :=
  Accuracy.slotRange_eq h.length_lt (h.end_le hlt)

/-- Posting a slot in hand, or the next one of the window. -/
theorem ReceiverNode.Sound.post (hsize : p.msgSize < usizeSize) (h : s.Sound p) {c : RecvCtl}
    {slot wrId : ℕ} (hfilling : ∀ k, c.pc = .prefill k → k < p.window)
    (hadv : s.ctl.Advance p c (.postReceive slot wrId)) (hfail : s.ctl.failed = false)
    (hfits : SlotFits s.mr.length slot p.msgSize) :
    ReceiverNode.Sound p { s with ctl := c, rq := s.rq ++ [⟨slot, wrId⟩] } := by
  obtain ⟨hid, hk, hs, hs', hb, hcase⟩ := hadv
  have hperm : (ReceiverNode.owned { s with ctl := c, rq := s.rq ++ [⟨slot, wrId⟩] } ++
      c.inHand).Perm (s.owned ++ slot :: c.inHand) := by
    rw [ReceiverNode.owned, ReceiverNode.owned, List.map_append, List.append_assoc,
      List.append_assoc, List.append_assoc]
    refine List.Perm.append_left _ ?_
    change (slot :: (s.cq.map Arrived.slot ++ c.inHand)).Perm _
    exact List.perm_middle.symm
  have hcov : s.ctl.covered p ≤ c.covered p ∧ slot < c.covered p ∧
      c.covered p * p.msgSize ≤ regionLen p.window p.msgSize := by
    rcases hcase with ⟨hslot, hc, -, -⟩ | ⟨hh, hc⟩
    · refine ⟨by omega, by omega, ?_⟩
      have hstart : slot * p.msgSize ≤ s.mr.length := by
        rw [h.length_mr, hslot]
        exact h.limit
      rw [hc, ← h.length_mr]
      exact end_le_of_slotFits h.length_lt hsize hstart hfits
    · rw [hc]
      refine ⟨Nat.le_refl _, h.inside slot ?_, h.limit⟩
      rw [hh]
      exact List.mem_append_right _ List.mem_cons_self
  have hsub : ∀ x ∈ s.owned ++ slot :: c.inHand, x = slot ∨ x ∈ s.owned ++ s.ctl.inHand := by
    intro x hx
    rcases hcase with ⟨-, -, hh, hh'⟩ | ⟨hh, -⟩
    · rw [hh', List.mem_append, List.mem_singleton] at hx
      rcases hx with hx | hx
      · exact .inr (List.mem_append_left _ hx)
      · exact .inl hx
    · exact .inr (hh ▸ hx)
  exact {
    filling := hfilling
    length_mr := h.length_mr
    limit := hcov.2.2
    nodup := by
      refine hperm.nodup_iff.mpr ?_
      rcases hcase with ⟨hslot, -, hh, hh'⟩ | ⟨hh, -⟩
      · -- the next slot of the window is above every slot out so far
        have hold := h.nodup
        rw [hh, List.append_nil] at hold
        rw [hh', ← List.concat_eq_append]
        refine hold.concat fun hmem => ?_
        have := h.inside slot (List.mem_append_left _ hmem)
        omega
      · exact hh ▸ h.nodup
    inside := fun x hx => by
      rcases hsub x (hperm.mem_iff.mp hx) with rfl | hx'
      · exact hcov.2.1
      · exact lt_of_lt_of_le (h.inside x hx') hcov.1
    posted := fun wr hwr => by
      rcases List.mem_append.mp hwr with hwr | hwr
      · exact h.posted wr hwr
      · rw [List.mem_singleton.mp hwr]
        exact hid
    arrived := h.arrived
    batch := fun _ => hb.trans (h.batch hfail)
    held := fun _ => h.held hfail
    history := h.history
    folded := fun _ => by
      have hf := h.folded hfail
      rw [ReceiverNode.Folded, hs] at hf
      rw [ReceiverNode.Folded]
      dsimp only
      rw [hs', hk]
      exact hf }

/-- A batch that has just been polled is in hand. -/
theorem ReceiverNode.Sound.poll (h : s.Sound p) {c : RecvCtl} {wcs : List Wc}
    (hfilling : ∀ k, c.pc = .prefill k → k < p.window)
    (hadv : s.ctl.Advance p c (.poll wcs)) (hfail : s.ctl.failed = false)
    (hwcs : wcs <+: s.cq.map Arrived.wc) :
    ReceiverNode.Sound p { s with
      ctl := c
      cq := s.cq.drop wcs.length
      held := (s.cq.take wcs.length).map fun e => (e.slot, e.bytes)
      polls := s.polls ++ [(s.cq.take wcs.length).map Arrived.bytes] } := by
  obtain ⟨hb, hh, hs, hlt, hk, hcov, hcase⟩ := hadv
  have hwc : wcs = (s.cq.take wcs.length).map Arrived.wc := by
    rw [List.map_take]
    exact List.prefix_iff_eq_take.mp hwcs
  have hheld : s.held = [] := by
    have := h.batch hfail
    rw [hb] at this
    exact List.map_eq_nil_iff.mp this.symm
  have htake : ∀ e ∈ s.cq.take wcs.length, e ∈ s.cq := fun e he => List.mem_of_mem_take he
  have hids : wcs.map Wc.wrId = (s.cq.take wcs.length).map Arrived.slot := by
    rw [hwc, List.map_map, ← hwc]
    exact List.map_congr_left fun e he => (h.arrived e (htake e he)).1
  -- the slots polled leave the queue for the hands of the program
  have hperm : s.owned.Perm (s.rq.map RecvWr.slot ++ (s.cq.drop wcs.length).map Arrived.slot ++
      (s.cq.take wcs.length).map Arrived.slot) := by
    rw [ReceiverNode.owned, List.append_assoc]
    refine List.Perm.append_left _ ?_
    rw [← List.map_append]
    refine List.Perm.map _ ?_
    rw [List.Perm.congr_left (List.Perm.of_eq (List.take_append_drop wcs.length s.cq).symm)]
    exact List.perm_append_comm
  have hsub : (ReceiverNode.owned { s with
      ctl := c
      cq := s.cq.drop wcs.length
      held := (s.cq.take wcs.length).map fun e => (e.slot, e.bytes)
      polls := s.polls ++ [(s.cq.take wcs.length).map Arrived.bytes] } ++ c.inHand).Subperm
      (s.owned ++ s.ctl.inHand) := by
    rw [hh, List.append_nil]
    refine List.Subperm.trans ?_ hperm.symm.subperm
    rcases hcase with ⟨-, hh'⟩ | ⟨-, hh', -⟩
    · rw [hh', List.append_nil]
      exact (List.sublist_append_left _ _).subperm
    · rw [hh', hids]
      exact List.Subperm.refl _
  exact {
    filling := hfilling
    length_mr := h.length_mr
    limit := by rw [hcov]; exact h.limit
    nodup := by
      obtain ⟨l, hl, hsub⟩ := hsub
      exact hl.nodup_iff.mp (h.nodup.sublist hsub)
    inside := fun x hx => by
      rw [hcov]
      exact h.inside x (hsub.subset hx)
    posted := h.posted
    arrived := fun e he => h.arrived e (List.mem_of_mem_drop he)
    batch := fun hf => by
      rcases hcase with ⟨hf', -⟩ | ⟨hb', -, -⟩
      · rw [hf'] at hf
        exact absurd hf (by simp)
      · dsimp only
        rw [hb', List.map_map, hwc, List.map_map, ← hwc]
        refine List.map_congr_left fun e he => ?_
        obtain ⟨hid, hlen, -⟩ := h.arrived e (htake e he)
        exact Prod.ext hid hlen
    held := fun _ x hx => by
      obtain ⟨e, he, rfl⟩ := List.mem_map.mp hx
      exact (h.arrived e (htake e he)).2.2
    history := by
      dsimp only
      rw [List.flatten_append, h.history, hheld, List.map_nil, List.append_nil, List.map_map]
      simp [Function.comp_def]
    folded := fun hf => by
      have hfold := h.folded hfail
      rw [ReceiverNode.Folded, hs, hheld] at hfold
      have hfold' : s.ctl.checker = receiveLoop p.msgSize p.iterations s.polls
        (Checker.fresh p.msgSize p.iterations) := hfold
      have hbytes : ((s.cq.take wcs.length).map Arrived.bytes).map (List.take p.msgSize) =
          (s.cq.take wcs.length).map Arrived.bytes := by
        rw [List.map_map]
        refine List.map_congr_left fun e he => ?_
        exact List.take_of_length_le (h.arrived e (htake e he)).2.2.1
      have hloop : receiveLoop p.msgSize p.iterations
          (s.polls ++ [(s.cq.take wcs.length).map Arrived.bytes])
          (Checker.fresh p.msgSize p.iterations) =
          checkAll p.msgSize (s.ctl.checker.addReceived (s.cq.take wcs.length).length)
            ((s.cq.take wcs.length).map Arrived.bytes) := by
        rw [receiveLoop_append, ← hfold', if_pos hlt, takeBatch, hbytes, List.length_map]
      rw [ReceiverNode.Folded]
      rcases hcase with ⟨hf', -⟩ | ⟨-, -, ⟨hnil, hs'⟩ | hs'⟩
      · rw [hf'] at hf
        exact absurd hf (by simp)
      · dsimp only
        rw [hs', hloop, hnil, hk]
        rfl
      · dsimp only
        rw [hs', hloop, hk, List.map_map, List.length_map]
        rfl }

/-- Checking the next message of the batch: what the program looks at is what the
device wrote. -/
theorem ReceiverNode.Sound.inspect (h : s.Sound p) {c : RecvCtl} {slot : ℕ} {got : List UInt8}
    (hfilling : ∀ k, c.pc = .prefill k → k < p.window)
    (hadv : s.ctl.Advance p c (.inspect slot got)) (hfail : s.ctl.failed = false)
    (hgot : slice s.mr (slotRange slot p.msgSize).1 got.length = got) :
    ReceiverNode.Sound p { s with
        ctl := c, held := s.held.tail, checked := s.checked ++ [got] } ∧
      s.held = (slot, got) :: s.held.tail := by
  obtain ⟨len, hb, hlen, hk, hs, hs', hin, hh, hcov⟩ := hadv
  have hbatch := h.batch hfail
  rw [hb] at hbatch
  obtain ⟨x, rest, hheld, hx, hrest⟩ := List.map_eq_cons_iff.mp hbatch.symm
  have hlt := h.inside slot (List.mem_append_right _ hin)
  have hmem : x ∈ s.held := hheld ▸ List.mem_cons_self
  obtain ⟨hle, hslice⟩ := h.held hfail x hmem
  have hx1 : x.1 = slot := congrArg Prod.fst hx
  have hx2 : x.2.length = len := congrArg Prod.snd hx
  -- the slot still holds the bytes of its completion, and they fit
  have hbytes : x.2 = got := by
    rw [h.slotRange_eq hlt, hlen, Nat.min_eq_left (hx2 ▸ hle)] at hgot
    rw [hx1, hx2] at hslice
    rw [← hslice, hgot]
  have hhead : s.held = (slot, got) :: s.held.tail := by
    rw [hheld, List.tail_cons]
    exact congrArg (· :: rest) (Prod.ext hx1 hbytes)
  refine ⟨?_, hhead⟩
  exact {
    filling := hfilling
    length_mr := h.length_mr
    limit := by rw [hcov]; exact h.limit
    nodup := by
      dsimp only
      rw [hh]
      exact h.nodup
    inside := fun y hy => by
      dsimp only at hy ⊢
      rw [hh] at hy
      rw [hcov]
      exact h.inside y hy
    posted := h.posted
    arrived := h.arrived
    batch := fun _ => by
      dsimp only
      rw [hheld, List.tail_cons, hrest]
    held := fun _ y hy => h.held hfail y (List.mem_of_mem_tail hy)
    history := by
      dsimp only
      rw [h.history, hhead, List.append_assoc]
      rfl
    folded := fun _ => by
      have hfold := h.folded hfail
      rw [ReceiverNode.Folded, hs, hhead] at hfold
      rw [ReceiverNode.Folded]
      dsimp only
      rw [hs', hk]
      exact hfold }

/-- A step that stays out of band; among these are counting a batch and leaving
the loop. -/
theorem ReceiverNode.Sound.talk (h : s.Sound p) {c : RecvCtl}
    (hfilling : ∀ k, c.pc = .prefill k → k < p.window) (hfail : s.ctl.failed = false)
    (hb : c.batch = s.ctl.batch) (hh : c.inHand = s.ctl.inHand)
    (hcov : c.covered p = s.ctl.covered p)
    (hcase : c.checker = s.ctl.checker ∧ c.stage = s.ctl.stage ∨
      c.checker = s.ctl.checker.addReceived s.ctl.batch.length ∧ s.ctl.stage = .counting ∧
        c.stage = .checking ∨
      c = s.ctl.leave p ∧ s.ctl.batch = [] ∧ s.ctl.stage = .checking) :
    ReceiverNode.Sound p { s with ctl := c } where
  filling := hfilling
  length_mr := h.length_mr
  limit := by rw [hcov]; exact h.limit
  nodup := by
    dsimp only
    rw [hh]
    exact h.nodup
  inside := fun x hx => by
    dsimp only at hx ⊢
    rw [hh] at hx
    rw [hcov]
    exact h.inside x hx
  posted := h.posted
  arrived := h.arrived
  batch := fun _ => hb.trans (h.batch hfail)
  held := fun _ => h.held hfail
  history := h.history
  folded := fun _ => by
    have hfold := h.folded hfail
    have hbatch := h.batch hfail
    rw [ReceiverNode.Folded] at hfold ⊢
    rcases hcase with ⟨hk, hs⟩ | ⟨hk, hs, hs'⟩ | ⟨rfl, hnil, hs⟩
    · dsimp only
      rw [hk, hs]
      exact hfold
    · dsimp only
      rw [hs] at hfold
      rw [hs', hk, hbatch, List.length_map]
      exact hfold
    · rw [hs] at hfold
      have hheld : s.held = [] := by
        rw [hnil] at hbatch
        exact List.map_eq_nil_iff.mp hbatch.symm
      rw [hheld] at hfold
      refine ⟨hheld, ?_⟩
      rw [receive, ← hfold]
      rfl

/-- The device writes into a posted slot: every other slot keeps what it
holds. -/
theorem ReceiverNode.Sound.slice_dma (h : s.Sound p) {wr : RecvWr} (hwr : wr ∈ s.rq)
    {off : ℕ} {bytes : List UInt8} (hlen : off + bytes.length ≤ p.msgSize) :
    (overwrite s.mr ((slotRange wr.slot p.msgSize).1 + off) bytes).length = s.mr.length ∧
      ∀ slot n, slot ≠ wr.slot → n ≤ p.msgSize →
        slice (overwrite s.mr ((slotRange wr.slot p.msgSize).1 + off) bytes)
          (slot * p.msgSize) n = slice s.mr (slot * p.msgSize) n := by
  have hlt : wr.slot < s.ctl.covered p :=
    h.inside _ (List.mem_append_left _ (List.mem_append_left _ (List.mem_map_of_mem hwr)))
  have hend := h.end_le hlt
  rw [Nat.succ_mul] at hend
  rw [h.slotRange_eq hlt]
  dsimp only
  refine ⟨length_overwrite (by omega), fun slot n hne hn => ?_⟩
  refine slice_overwrite_of_disjoint (by omega) ?_
  rcases slot_disjoint hne hn with hbefore | hafter
  · left
    omega
  · right
    omega

/-- A slot with the device is no other slot that is out or in hand. -/
theorem ReceiverNode.Sound.ne_of_posted (h : s.Sound p) {wr : RecvWr} (hwr : wr ∈ s.rq) :
    (∀ e ∈ s.cq, e.slot ≠ wr.slot) ∧ ∀ slot ∈ s.ctl.inHand, slot ≠ wr.slot := by
  obtain ⟨hout, -, hapart⟩ := List.nodup_append.mp h.nodup
  obtain ⟨-, -, hapart'⟩ := List.nodup_append.mp hout
  have hmem : wr.slot ∈ s.rq.map RecvWr.slot := List.mem_map_of_mem hwr
  constructor
  · exact fun e he heq => hapart' _ hmem e.slot (List.mem_map_of_mem he) heq.symm
  · exact fun slot hs heq => hapart _ (List.mem_append_left _ hmem) slot hs heq.symm

/-- What has not been checked is in a slot in hand. -/
theorem ReceiverNode.Sound.held_inHand (h : s.Sound p) (hfail : s.ctl.failed = false)
    {x : ℕ × List UInt8} (hx : x ∈ s.held) : x.1 ∈ s.ctl.inHand := by
  refine fst_mem_inHand (x := (x.1, x.2.length)) ?_
  rw [h.batch hfail]
  exact List.mem_map_of_mem (f := fun x : ℕ × List UInt8 => (x.1, x.2.length)) hx

/-- A write of the device that completes nothing. -/
theorem ReceiverNode.Sound.dma (h : s.Sound p) {wr : RecvWr} (hwr : wr ∈ s.rq) {off : ℕ}
    {bytes : List UInt8} (hlen : off + bytes.length ≤ p.msgSize) :
    ReceiverNode.Sound p { s with
      mr := overwrite s.mr ((slotRange wr.slot p.msgSize).1 + off) bytes } := by
  obtain ⟨hmr, hslice⟩ := h.slice_dma hwr hlen
  obtain ⟨hcq, hhand⟩ := h.ne_of_posted hwr
  exact { h with
    length_mr := hmr.trans h.length_mr
    arrived := fun e he => by
      obtain ⟨hid, hl, hle, hbytes⟩ := h.arrived e he
      exact ⟨hid, hl, hle, (hslice _ _ (hcq e he) hle).trans hbytes⟩
    held := fun hfail x hx => by
      obtain ⟨hle, hbytes⟩ := h.held hfail x hx
      exact ⟨hle, (hslice _ _ (hhand _ (h.held_inHand hfail hx)) hle).trans hbytes⟩ }

/-- A completion: the slot holds the bytes it reports. -/
theorem ReceiverNode.Sound.complete (h : s.Sound p) {i : ℕ} {wr : RecvWr}
    (hi : s.rq[i]? = some wr) {bytes : List UInt8} (hlen : bytes.length ≤ p.msgSize) (ok : Bool) :
    ReceiverNode.Sound p { s with
      mr := overwrite s.mr (slotRange wr.slot p.msgSize).1 bytes
      rq := s.rq.eraseIdx i
      cq := s.cq ++ [⟨wr.slot, bytes, ⟨wr.wrId, bytes.length, ok⟩⟩] } := by
  obtain ⟨hlt, hget⟩ := List.getElem?_eq_some_iff.mp hi
  have hwr : wr ∈ s.rq := hget ▸ List.getElem_mem hlt
  have hdma := h.dma hwr (show 0 + bytes.length ≤ p.msgSize by rwa [Nat.zero_add])
  rw [Nat.add_zero] at hdma
  have hperm : ((s.rq.eraseIdx i).map RecvWr.slot ++ (s.cq.map Arrived.slot ++ [wr.slot])).Perm
      (s.rq.map RecvWr.slot ++ s.cq.map Arrived.slot) := by
    have hout : (wr.slot :: (s.rq.eraseIdx i).map RecvWr.slot).Perm (s.rq.map RecvWr.slot) := by
      rw [← List.map_cons (f := RecvWr.slot) (a := wr), ← hget]
      exact (List.getElem_cons_eraseIdx_perm hlt).map _
    rw [← List.append_assoc]
    refine List.perm_append_comm.trans ?_
    rw [← List.append_assoc]
    exact hout.append_right _
  have howned : (ReceiverNode.owned { s with
      mr := overwrite s.mr (slotRange wr.slot p.msgSize).1 bytes
      rq := s.rq.eraseIdx i
      cq := s.cq ++ [⟨wr.slot, bytes, ⟨wr.wrId, bytes.length, ok⟩⟩] } ++ s.ctl.inHand).Perm
      (s.owned ++ s.ctl.inHand) := by
    rw [ReceiverNode.owned, List.map_append]
    exact hperm.append_right _
  have hin : wr.slot < s.ctl.covered p :=
    h.inside _ (List.mem_append_left _ (List.mem_append_left _ (List.mem_map_of_mem hwr)))
  have hend := h.end_le hin
  rw [Nat.succ_mul] at hend
  exact { hdma with
    nodup := howned.nodup_iff.mpr h.nodup
    inside := fun x hx => h.inside x (howned.mem_iff.mp hx)
    posted := fun wr' hwr' => h.posted wr' ((List.eraseIdx_sublist _ _).subset hwr')
    arrived := fun e he => by
      rcases List.mem_append.mp he with he | he
      · exact hdma.arrived e he
      · rw [List.mem_singleton.mp he]
        refine ⟨h.posted wr hwr, rfl, hlen, ?_⟩
        dsimp only
        rw [h.slotRange_eq hin]
        exact slice_overwrite_self (by dsimp only; omega) rfl }

theorem receiver_sound_init (p : Setup) : (receiverInit p).Sound p := by
  obtain ⟨hb, hh, hcov, hs, hk⟩ := prefill_covered (p := p)
    (c := { pc := .prefill 0, checker := Checker.fresh p.msgSize p.iterations })
    (Nat.zero_le p.window)
  have hctl : (receiverInit p).ctl = RecvCtl.prefill p
    { pc := .prefill 0, checker := Checker.fresh p.msgSize p.iterations } 0 := rfl
  rw [← hctl] at hb hh hcov hs hk
  exact {
    filling := fun slot hslot => by
      rw [hctl, RecvCtl.prefill] at hslot
      split at hslot
      · next hlt =>
        obtain rfl : 0 = slot := by simpa using hslot
        exact hlt
      · exact absurd hslot (by simp)
    length_mr := List.length_replicate
    limit := by
      rw [hcov, Nat.zero_mul]
      exact Nat.zero_le _
    nodup := by
      rw [hh]
      exact List.nodup_nil
    inside := fun x hx => by
      rw [hh] at hx
      exact absurd hx List.not_mem_nil
    posted := fun wr hwr => absurd hwr List.not_mem_nil
    arrived := fun e he => absurd he List.not_mem_nil
    batch := fun _ => hb
    held := fun _ x hx => absurd hx List.not_mem_nil
    history := rfl
    folded := fun _ => by
      rw [ReceiverNode.Folded, hs, hk]
      rfl }

/-- **One step of the program.** -/
theorem ReceiverNode.Sound.act (hsize : p.msgSize < usizeSize) (h : s.Sound p) {a : Act}
    (hstep : receiverStep p s (.act a) = some t) : t.Sound p := by
  obtain ⟨c, u, hc, hu, rfl⟩ := receiverStep_act hstep
  have hfail := failed_eq_false_of_recvStep hc
  have hmove := RecvMove.of_step hc
  have hadv := hmove.advance h.filling
  have hfilling : ∀ k, c.pc = .prefill k → k < p.window := fun _ hk => hmove.filling hk
  cases a with
  | postReceive slot wrId =>
    rw [ReceiverNode.perform] at hu
    split at hu
    · next hfits =>
      rw [← Option.some.inj hu]
      exact h.post hsize hfilling hadv hfail hfits
    · exact absurd hu (by simp)
  | poll wcs =>
    rw [ReceiverNode.perform] at hu
    split at hu
    · next hwcs =>
      rw [← Option.some.inj hu]
      exact h.poll hfilling hadv hfail hwcs
    · exact absurd hu (by simp)
  | inspect slot got =>
    rw [ReceiverNode.perform] at hu
    split at hu
    · next hgot =>
      rw [← Option.some.inj hu]
      exact (h.inspect hfilling hadv hfail hgot.2).1
    · exact absurd hu (by simp)
  | write _ | read _ | postSend _ _ | fill _ _ | clock _ | skip =>
    rw [← Option.some.inj hu]
    obtain ⟨hb, hh, hcov, hcase⟩ := hadv
    exact h.talk hfilling hfail hb hh hcov hcase

/-- **Every step.** -/
theorem ReceiverNode.Sound.step (hsize : p.msgSize < usizeSize) (h : s.Sound p)
    {l : ReceiverLabel} (hstep : receiverStep p s l = some t) : t.Sound p := by
  cases l with
  | act a => exact h.act hsize hstep
  | dma i off bytes =>
    rw [receiverStep] at hstep
    split at hstep
    · next wr hwr =>
      split at hstep
      · next hlen =>
        rw [← Option.some.inj hstep]
        exact h.dma (List.mem_of_getElem? hwr) hlen
      · exact absurd hstep (by simp)
    · exact absurd hstep (by simp)
  | complete i bytes ok =>
    rw [receiverStep] at hstep
    split at hstep
    · next wr hwr =>
      split at hstep
      · next hlen =>
        rw [← Option.some.inj hstep]
        exact h.complete hwr hlen ok
      · exact absurd hstep (by simp)
    · exact absurd hstep (by simp)

end Node

/-- **Every reachable receiver is sound.** -/
theorem receiver_sound {p : Setup} (hsize : p.msgSize < usizeSize) {s : ReceiverNode}
    (h : (receiver p).Reachable s) : s.Sound p :=
  h.invariant (receiver_sound_init p) fun _ _ _ hs hstep => hs.step hsize hstep

/-- **The report is `receive` of what the polls returned.** -/
theorem receiver_report {p : Setup} (hsize : p.msgSize < usizeSize) {s : ReceiverNode}
    (h : (receiver p).Reachable s) (hleft : s.ctl.stage = .left) (hok : s.ctl.failed = false) :
    s.ctl.checker.report = receive p.msgSize p.iterations s.polls ∧ s.checked = s.polls.flatten := by
  have hs := receiver_sound hsize h
  have hfold := hs.folded hok
  rw [ReceiverNode.Folded, hleft] at hfold
  refine ⟨hfold.2, ?_⟩
  rw [hs.history, hfold.1, List.map_nil, List.append_nil]

end Accuracy
end RdmaBench
