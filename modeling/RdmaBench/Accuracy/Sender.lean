import RdmaBench.Accuracy.Programs
import RdmaBench.Accuracy.Slots

/-!
# The sender and its device

`SenderNode` is a running `send` together with what its verbs reach: the
registered region, the work requests that have not completed, oldest first, and
the completions that have not been polled.  The device acts on its own.  It may
read the slot of any work request that has not completed (`transmit`), and it
completes the oldest one once it has read it (`complete`).

Nothing in the program says who owns a slot.  It fills slot `posted % window`
because, completions being in order, the `posted - completed` slots before it are
the only ones still out.  `Sound` says this in full: the outstanding work
requests carry the numbers from `completed` to `issued`, each in the slot of its
number, each slot still holding the payload of its number.  `owned` counts a slot
as the device's until its completion has been *polled*, which is later than the
device is done with it.
-/

namespace RdmaBench
namespace Accuracy

open Automaton Memory

/-- A work request on the send queue. -/
structure SendWr where
  seq : ℕ
  slot : ℕ
  /-- Whether the device has read the slot. -/
  sent : Bool
  deriving DecidableEq

/-- A running `send` and its device. -/
structure SenderNode where
  ctl : SendCtl
  mr : List UInt8
  /-- Posted and not completed, oldest first. -/
  sq : List SendWr
  /-- Completed and not polled, oldest first. -/
  cq : List (SendWr × Wc)
  deriving DecidableEq

/-- What can happen at the sender: an act of the program, or one of the
device. -/
inductive SenderLabel where
  | act (a : Act)
  | transmit (i : ℕ)
  | complete (ok : Bool)
  deriving DecidableEq

/-- What an act does to memory and queues. -/
def SenderNode.perform (p : Setup) (s : SenderNode) : Act → Option SenderNode
  | .fill slot seq =>
    if SlotFits s.mr.length slot p.msgSize then
      some { s with mr := fillSlot s.mr p.msgSize slot seq }
    else none
  | .postSend slot wrId =>
    if SlotFits s.mr.length slot p.msgSize then
      some { s with sq := s.sq ++ [⟨wrId, slot, false⟩] }
    else none
  | .poll wcs =>
    if wcs <+: s.cq.map Prod.snd then some { s with cq := s.cq.drop wcs.length } else none
  | _ => some s

/-- One step of the sender or of its device. -/
def senderStep (p : Setup) (s : SenderNode) : SenderLabel → Option SenderNode
  | .act a =>
    (sendStep p s.ctl a).bind fun c => (s.perform p a).map fun t => { t with ctl := c }
  | .transmit i =>
    match s.sq[i]? with
    | some wr =>
      if wr.sent then none else some { s with sq := s.sq.set i { wr with sent := true } }
    | none => none
  | .complete ok =>
    match s.sq with
    | wr :: rest =>
      if wr.sent then some { s with sq := rest, cq := s.cq ++ [(wr, ⟨wr.seq, p.msgSize, ok⟩)] }
      else none
    | [] => none

/-- A sender that has just allocated its region. -/
def senderInit (p : Setup) : SenderNode where
  ctl := { pc := .waitReceives (.enter p.tracing) }
  mr := List.replicate (regionLen p.window p.msgSize) 0
  sq := []
  cq := []

def sender (p : Setup) : System SenderNode SenderLabel := ⟨senderInit p, senderStep p⟩

/-- The numbers and slots of the work requests the program has not seen
completed, oldest first. -/
def SenderNode.owned (s : SenderNode) : List (ℕ × ℕ) :=
  (s.cq.map Prod.fst ++ s.sq).map fun wr => (wr.seq, wr.slot)

/-- The bytes the device reads for a work request. -/
def SenderNode.bytesOf (p : Setup) (s : SenderNode) (wr : SendWr) : List UInt8 :=
  slice s.mr (slotRange wr.slot p.msgSize).1 p.msgSize

/-! ## The bookkeeping of the program -/

/-- How many work requests have been posted. -/
def SendCtl.issued (c : SendCtl) : ℕ :=
  match c.pc with
  | .waitReceives _ => 0
  | .prefillFill seq => seq
  | .prefillPost seq => seq
  | _ => c.posted

/-- How many the current loop will still post before it looks at the queue
again, or may. -/
def SendCtl.reserve (c : SendCtl) : ℕ :=
  match c.pc with
  | .prefillFill _ => 1
  | .prefillPost _ => 1
  | .refillFill left => left + 1
  | .refillPost left => left + 1
  | _ => 0

/-- How many slots have been indexed without a panic. -/
def SendCtl.covered (p : Setup) (c : SendCtl) : ℕ :=
  match c.pc with
  | .waitReceives _ => 0
  | .prefillFill seq => seq
  | .prefillPost seq => seq + 1
  | _ => p.window

/-- Whether the next slot has been filled and waits to be posted. -/
def SendCtl.filled (c : SendCtl) : Bool :=
  match c.pc with
  | .prefillPost _ => true
  | .refillPost _ => true
  | _ => false

/-- What the program knows at its points. -/
structure SendCtl.Ordered (p : Setup) (c : SendCtl) : Prop where
  room : c.issued + c.reserve ≤ p.window + c.completed
  filling : ∀ seq, c.pc = .prefillFill seq → seq < p.window ∧ c.completed = 0
  posting : ∀ seq, c.pc = .prefillPost seq → seq < p.window ∧ c.completed = 0
  waiting : ∀ s, c.pc = .waitReceives s → c.completed = 0

section Control

variable {p : Setup} {c t : SendCtl} {a : Act}

theorem ordered_prefill {seq : ℕ} (hle : seq ≤ p.window) (hzero : c.completed = 0) :
    (c.prefill p seq).Ordered p ∧ (c.prefill p seq).issued = seq ∧
      (c.prefill p seq).completed = 0 ∧ (c.prefill p seq).covered p = seq ∧
      (c.prefill p seq).filled = false := by
  rw [SendCtl.prefill]
  split
  · next hlt =>
    refine ⟨⟨?_, ?_, ?_, ?_⟩, rfl, hzero, rfl, rfl⟩
    · simp only [SendCtl.issued, SendCtl.reserve]
      omega
    · intro k hk
      obtain rfl : seq = k := by simpa using hk
      exact ⟨hlt, hzero⟩
    · exact fun k hk => absurd hk (by simp)
    · exact fun s hs => absurd hs (by simp)
  · next hge =>
    have heq : p.window = seq := by omega
    refine ⟨⟨?_, ?_, ?_, ?_⟩, heq, hzero, heq, rfl⟩
    · exact Nat.le_add_right _ _
    · exact fun k hk => absurd hk (by simp)
    · exact fun k hk => absurd hk (by simp)
    · exact fun s hs => absurd hs (by simp)

theorem ordered_refill (left : ℕ) (hroom : c.posted + left ≤ p.window + c.completed) :
    (c.refill p left).Ordered p ∧ (c.refill p left).issued = c.posted ∧
      (c.refill p left).completed = c.completed ∧ (c.refill p left).covered p = p.window ∧
      (c.refill p left).filled = false := by
  rw [SendCtl.refill]
  split
  · next hlt =>
    refine ⟨⟨?_, ?_, ?_, ?_⟩, rfl, rfl, rfl, rfl⟩
    · simp only [SendCtl.issued, SendCtl.reserve]
      omega
    · exact fun k hk => absurd hk (by simp)
    · exact fun k hk => absurd hk (by simp)
    · exact fun s hs => absurd hs (by simp)
  · refine ⟨⟨?_, ?_, ?_, ?_⟩, rfl, rfl, rfl, rfl⟩
    · simp only [SendCtl.issued, SendCtl.reserve]
      omega
    · exact fun k hk => absurd hk (by simp)
    · exact fun k hk => absurd hk (by simp)
    · exact fun s hs => absurd hs (by simp)

/-- What one step of the program does to its bookkeeping, act by act. -/
def SendCtl.Advance (p : Setup) (c t : SendCtl) : Act → Prop
  | .fill slot seq => slot = c.issued % p.window ∧ seq = c.issued ∧ t.issued = c.issued ∧
      t.completed = c.completed ∧ c.issued < p.window + c.completed ∧ t.filled = true ∧
      slot ≤ c.covered p ∧ c.covered p ≤ t.covered p ∧ t.covered p ≤ max (c.covered p) (slot + 1) ∧
      slot < t.covered p
  | .postSend slot wrId => slot = c.issued % p.window ∧ wrId = c.issued ∧
      t.issued = c.issued + 1 ∧ t.completed = c.completed ∧
      c.issued < p.window + c.completed ∧ c.filled = true ∧ t.filled = false ∧
      slot < c.covered p ∧ t.covered p = c.covered p
  | .poll wcs => t.issued = c.issued ∧ t.filled = false ∧ t.covered p = c.covered p ∧
      (t.failed = true ∧ t.completed = c.completed ∨ t.completed = c.completed + wcs.length)
  | _ => t.issued = c.issued ∧ t.completed = c.completed ∧ t.filled = false ∧
      t.covered p = c.covered p

theorem SendCtl.Advance.of_outOfBand (ha : a.outOfBand = true) (hi : t.issued = c.issued)
    (hc : t.completed = c.completed) (hf : t.filled = false)
    (hcov : t.covered p = c.covered p) : c.Advance p t a := by
  cases a <;> first | exact ⟨hi, hc, hf, hcov⟩ | exact absurd ha (by simp [Act.outOfBand])

/-- A point that belongs to no loop over the window keeps the order it finds. -/
theorem SendCtl.Ordered.of_reserve_eq_zero (h : c.Ordered p) (hi : t.issued = c.issued)
    (hc : t.completed = c.completed) (hr : t.reserve = 0)
    (hw : ∀ s, t.pc = .waitReceives s → ∃ s', c.pc = .waitReceives s') : t.Ordered p := by
  refine ⟨?_, fun k hk => ?_, fun k hk => ?_, fun s hs => ?_⟩
  · have := h.room
    omega
  · rw [SendCtl.reserve, hk] at hr
    exact absurd hr (by simp)
  · rw [SendCtl.reserve, hk] at hr
    exact absurd hr (by simp)
  · obtain ⟨s', hs'⟩ := hw s hs
    rw [hc]
    exact h.waiting s' hs'

/-- **One step of the program** keeps its bookkeeping in order and does to it
what `Advance` says. -/
theorem SendMove.advance (hW : 0 < p.window) (hmove : SendMove p c a t) (h : c.Ordered p) :
    t.Ordered p ∧ c.Advance p t a := by
  have hroom := h.room
  cases hmove with
  | waiting hpc ha hs =>
    refine ⟨h.of_reserve_eq_zero ?_ rfl rfl fun _ _ => ⟨_, hpc⟩, .of_outOfBand ha ?_ rfl rfl ?_⟩ <;>
      simp [SendCtl.issued, SendCtl.covered, hpc]
  | @waited s _ hpc ha hs =>
    obtain ⟨hord, hi, hc, hcov, hf⟩ := ordered_prefill (p := p) (Nat.zero_le _) (h.waiting s hpc)
    refine ⟨hord, .of_outOfBand ha ?_ (hc.trans (h.waiting s hpc).symm) hf ?_⟩
    · rw [hi, SendCtl.issued, hpc]
    · rw [hcov, SendCtl.covered, hpc]
  | @prefillFill seq hpc =>
    obtain ⟨hlt, hzero⟩ := h.filling seq hpc
    refine ⟨⟨?_, ?_, ?_, ?_⟩, ?_⟩
    · simp only [SendCtl.issued, SendCtl.reserve]
      omega
    · exact fun k hk => absurd hk (by simp)
    · intro k hk
      obtain rfl : seq = k := by simpa using hk
      exact ⟨hlt, hzero⟩
    · exact fun s hs => absurd hs (by simp)
    · simp only [SendCtl.Advance, SendCtl.issued, SendCtl.covered, SendCtl.filled, hpc,
        Nat.mod_eq_of_lt hlt]
      refine ⟨trivial, trivial, trivial, trivial, ?_, trivial, ?_, ?_, ?_, ?_⟩ <;> omega
  | @prefillPost seq hpc =>
    obtain ⟨hlt, hzero⟩ := h.posting seq hpc
    obtain ⟨hord, hi, hc, hcov, hf⟩ := ordered_prefill (show seq + 1 ≤ p.window from hlt) hzero
    refine ⟨hord, ?_⟩
    simp only [SendCtl.Advance, hi, hc, hcov, hf]
    simp only [SendCtl.issued, SendCtl.covered, SendCtl.filled, hpc, Nat.mod_eq_of_lt hlt]
    refine ⟨trivial, trivial, trivial, hzero.symm, ?_, trivial, trivial, ?_, trivial⟩ <;> omega
  | @poll wcs hpc hlt hlen hok =>
    simp only [SendCtl.issued, SendCtl.reserve, hpc] at hroom
    obtain ⟨hord, hi, hc, hcov, hf⟩ :=
      ordered_refill wcs.length (p := p) (c := { c with completed := c.completed + wcs.length })
        (by dsimp only; omega)
    refine ⟨hord, ?_, hf, ?_, .inr hc⟩
    · rw [hi, SendCtl.issued, hpc]
    · rw [hcov, SendCtl.covered, hpc]
  | pollError hpc hlt herr =>
    refine ⟨⟨hroom, h.filling, h.posting, h.waiting⟩, rfl, ?_, rfl, .inl ⟨rfl, rfl⟩⟩
    simp [SendCtl.filled, hpc]
  | leave hpc hge =>
    refine ⟨h.of_reserve_eq_zero ?_ rfl rfl fun _ hs => absurd hs (by simp), ?_, rfl, rfl, ?_⟩ <;>
      simp [SendCtl.issued, SendCtl.covered, hpc]
  | @refillFill left hpc =>
    simp only [SendCtl.issued, SendCtl.reserve, hpc] at hroom
    have hslot := Nat.mod_lt c.posted hW
    refine ⟨⟨?_, ?_, ?_, ?_⟩, ?_⟩
    · simpa only [SendCtl.issued, SendCtl.reserve] using hroom
    · exact fun k hk => absurd hk (by simp)
    · exact fun k hk => absurd hk (by simp)
    · exact fun s hs => absurd hs (by simp)
    · simp only [SendCtl.Advance, SendCtl.issued, SendCtl.covered, SendCtl.filled, hpc]
      refine ⟨trivial, trivial, trivial, trivial, ?_, trivial, ?_, ?_, ?_, ?_⟩ <;> omega
  | @refillPost left hpc =>
    simp only [SendCtl.issued, SendCtl.reserve, hpc] at hroom
    have hslot := Nat.mod_lt c.posted hW
    obtain ⟨hord, hi, hc, hcov, hf⟩ :=
      ordered_refill left (p := p) (c := { c with posted := c.posted + 1 })
        (by dsimp only; omega)
    refine ⟨hord, ?_⟩
    simp only [SendCtl.Advance, hi, hc, hcov, hf]
    simp only [SendCtl.issued, SendCtl.covered, SendCtl.filled, hpc]
    refine ⟨trivial, trivial, trivial, trivial, ?_, trivial, trivial, ?_, trivial⟩ <;> omega
  | completing hpc ha hs =>
    refine ⟨h.of_reserve_eq_zero ?_ rfl rfl fun _ hs => absurd hs (by simp),
      .of_outOfBand ha ?_ rfl rfl ?_⟩ <;> simp [SendCtl.issued, SendCtl.covered, hpc]
  | completed hpc ha hs =>
    refine ⟨h.of_reserve_eq_zero ?_ rfl rfl fun _ hs => absurd hs (by simp),
      .of_outOfBand ha ?_ rfl rfl ?_⟩ <;> simp [SendCtl.issued, SendCtl.covered, hpc]
  | recvReport hpc =>
    refine ⟨h.of_reserve_eq_zero ?_ rfl rfl fun _ hs => absurd hs (by simp), ?_, rfl, rfl, ?_⟩ <;>
      simp [SendCtl.issued, SendCtl.covered, hpc]

end Control

/-! ## Who owns a slot -/

/-- The numbers from `lo` up to `hi`, each with its slot. -/
def windowOf (w lo hi : ℕ) : List (ℕ × ℕ) := (List.range' lo (hi - lo)).map fun k => (k, k % w)

theorem mem_windowOf {w lo hi : ℕ} {x : ℕ × ℕ} :
    x ∈ windowOf w lo hi ↔ lo ≤ x.1 ∧ x.1 < hi ∧ x.2 = x.1 % w := by
  rw [windowOf, List.mem_map]
  constructor
  · rintro ⟨k, hk, rfl⟩
    rw [List.mem_range'_1] at hk
    exact ⟨hk.1, by omega, rfl⟩
  · rintro ⟨hlo, hhi, hslot⟩
    exact ⟨x.1, List.mem_range'_1.mpr ⟨hlo, by omega⟩, Prod.ext rfl hslot.symm⟩

theorem windowOf_succ {w lo hi : ℕ} (h : lo ≤ hi) :
    windowOf w lo (hi + 1) = windowOf w lo hi ++ [(hi, hi % w)] := by
  rw [windowOf, windowOf, Nat.succ_sub h, List.range'_1_concat, List.map_append,
    Nat.add_sub_cancel' h]
  rfl

theorem drop_windowOf (w lo hi n : ℕ) : (windowOf w lo hi).drop n = windowOf w (lo + n) hi := by
  rw [windowOf, windowOf, ← List.map_drop, List.drop_range', Nat.mul_one, Nat.sub_add_eq]

/-- The relation between the program, the region and the queues.  A poll that
finds an error takes its completions without counting them, and is the last thing
the program does. -/
structure SenderNode.Sound (p : Setup) (s : SenderNode) : Prop where
  ordered : s.ctl.Ordered p
  length_mr : s.mr.length = regionLen p.window p.msgSize
  owned : ∃ lo, s.ctl.completed ≤ lo ∧ lo ≤ s.ctl.issued ∧
    (s.ctl.failed = false → lo = s.ctl.completed) ∧
    s.owned = windowOf p.window lo s.ctl.issued
  limit : s.ctl.covered p * p.msgSize ≤ regionLen p.window p.msgSize
  inside : ∀ x ∈ s.owned, x.2 < s.ctl.covered p
  bytes : ∀ x ∈ s.owned, slice s.mr (x.2 * p.msgSize) p.msgSize = payload p.msgSize x.1
  ready : s.ctl.filled = true →
    slice s.mr (s.ctl.issued % p.window * p.msgSize) p.msgSize = payload p.msgSize s.ctl.issued

section Node

variable {p : Setup} {s t : SenderNode}

theorem failed_eq_false {c t : SendCtl} {a : Act} (h : sendStep p c a = some t) :
    c.failed = false := by
  unfold sendStep at h
  split at h
  · exact absurd h (by simp)
  · next hf => exact Bool.eq_false_iff.mpr hf

/-- What a step of the program amounts to. -/
theorem senderStep_act {a : Act} (h : senderStep p s (.act a) = some t) :
    ∃ c u, sendStep p s.ctl a = some c ∧ s.perform p a = some u ∧ t = { u with ctl := c } := by
  rw [senderStep, Option.bind_eq_some_iff] at h
  obtain ⟨c, hc, hu⟩ := h
  obtain ⟨u, hu', rfl⟩ := Option.map_eq_some_iff.mp hu
  exact ⟨c, u, hc, hu', rfl⟩

/-- The slot about to be filled, or just filled, is not out. -/
theorem SenderNode.Sound.next_free (h : s.Sound p)
    (hlt : s.ctl.issued < p.window + s.ctl.completed) :
    ∀ x ∈ s.owned, x.2 ≠ s.ctl.issued % p.window := by
  intro x hx
  obtain ⟨lo, hlo, -, -, howned⟩ := h.owned
  rw [howned] at hx
  obtain ⟨hle, hhi, hslot⟩ := mem_windowOf.mp hx
  rw [hslot]
  exact mod_ne_mod_of_lt hhi (by omega)

/-- A slot below the covered part ends inside the region. -/
theorem SenderNode.Sound.end_le (h : s.Sound p) {slot : ℕ} (hlt : slot < s.ctl.covered p) :
    (slot + 1) * p.msgSize ≤ s.mr.length := by
  rw [h.length_mr]
  exact le_trans (Nat.mul_le_mul_right _ hlt) h.limit

theorem SenderNode.Sound.length_lt (h : s.Sound p) : s.mr.length < usizeSize := by
  rw [h.length_mr]
  exact regionLen_lt _ _

/-- Filling the next slot. -/
theorem SenderNode.Sound.fill (hm : headerLen ≤ p.msgSize) (hsize : p.msgSize < usizeSize)
    (h : s.Sound p) {c : SendCtl} {slot seq : ℕ} (hord : c.Ordered p)
    (hadv : s.ctl.Advance p c (.fill slot seq)) (hfail : s.ctl.failed = false)
    (hfits : SlotFits s.mr.length slot p.msgSize) :
    SenderNode.Sound p { s with ctl := c, mr := fillSlot s.mr p.msgSize slot seq } := by
  obtain ⟨hslot, hseq, hi, hc, hlt, hfilled, hcov, hle, hmax, hin⟩ := hadv
  have hfree := h.next_free hlt
  have hstart : slot * p.msgSize ≤ s.mr.length := by
    rw [h.length_mr]
    exact le_trans (Nat.mul_le_mul_right _ hcov) h.limit
  have hend := end_le_of_slotFits h.length_lt hsize hstart hfits
  exact {
    ordered := hord
    length_mr := (length_fillSlot h.length_lt hm hend seq).trans h.length_mr
    owned := by
      obtain ⟨lo, hlo, hhi, heq, howned⟩ := h.owned
      dsimp only
      rw [hi, hc]
      exact ⟨lo, hlo, hhi, fun _ => heq hfail, howned⟩
    limit := by
      rcases Nat.le_total (s.ctl.covered p) (slot + 1) with hs | hs
      · rw [Nat.max_eq_right hs] at hmax
        exact le_trans (Nat.mul_le_mul_right _ hmax) (h.length_mr ▸ hend)
      · rw [Nat.max_eq_left hs] at hmax
        exact le_trans (Nat.mul_le_mul_right _ hmax) h.limit
    inside := fun x hx => lt_of_lt_of_le (h.inside x hx) hle
    bytes := fun x hx => by
      dsimp only
      rw [slice_fillSlot_of_ne h.length_lt hm hend seq (hslot ▸ hfree x hx)]
      exact h.bytes x hx
    ready := fun _ => by
      dsimp only
      rw [hi, ← hslot, ← hseq]
      exact slice_fillSlot_self h.length_lt hm hend seq }

/-- Posting the slot just filled. -/
theorem SenderNode.Sound.post (h : s.Sound p) {c : SendCtl} {slot wrId : ℕ} (hord : c.Ordered p)
    (hadv : s.ctl.Advance p c (.postSend slot wrId)) (hfail : s.ctl.failed = false) :
    SenderNode.Sound p { s with ctl := c, sq := s.sq ++ [⟨wrId, slot, false⟩] } := by
  obtain ⟨hslot, hid, hi, hc, hlt, hfilled, hnot, hin, hcov⟩ := hadv
  have hadd : SenderNode.owned { s with ctl := c, sq := s.sq ++ [⟨wrId, slot, false⟩] } =
      s.owned ++ [(s.ctl.issued, s.ctl.issued % p.window)] := by
    rw [SenderNode.owned, SenderNode.owned, ← List.append_assoc, List.map_append, hid, hslot]
    rfl
  exact {
    ordered := hord
    length_mr := h.length_mr
    owned := by
      obtain ⟨lo, hlo, hhi, heq, howned⟩ := h.owned
      rw [hadd, howned, ← windowOf_succ hhi]
      dsimp only
      rw [hi, hc]
      exact ⟨lo, hlo, by omega, fun _ => heq hfail, rfl⟩
    limit := by rw [hcov]; exact h.limit
    inside := fun x hx => by
      rw [hadd, List.mem_append, List.mem_singleton] at hx
      rw [hcov]
      rcases hx with hx | rfl
      · exact h.inside x hx
      · rwa [← hslot]
    bytes := fun x hx => by
      rw [hadd, List.mem_append, List.mem_singleton] at hx
      rcases hx with hx | rfl
      · exact h.bytes x hx
      · exact h.ready hfilled
    ready := fun hf => absurd hf (by rw [hnot]; simp) }

/-- Polling some completions. -/
theorem SenderNode.Sound.poll (h : s.Sound p) {c : SendCtl} {wcs : List Wc} (hord : c.Ordered p)
    (hadv : s.ctl.Advance p c (.poll wcs)) (hfail : s.ctl.failed = false)
    (hwcs : wcs <+: s.cq.map Prod.snd) :
    SenderNode.Sound p { s with ctl := c, cq := s.cq.drop wcs.length } := by
  obtain ⟨hi, hnot, hcov, hcomp⟩ := hadv
  have hlen : wcs.length ≤ s.cq.length := by
    have := hwcs.length_le
    rwa [List.length_map] at this
  have hdrop : SenderNode.owned { s with ctl := c, cq := s.cq.drop wcs.length } =
      s.owned.drop wcs.length := by
    rw [SenderNode.owned, SenderNode.owned, ← List.map_drop, List.map_drop,
      List.drop_append_of_le_length (by rwa [List.length_map])]
  have hmem : ∀ x ∈ SenderNode.owned { s with ctl := c, cq := s.cq.drop wcs.length },
      x ∈ s.owned := fun x hx => List.mem_of_mem_drop (hdrop ▸ hx)
  exact {
    ordered := hord
    length_mr := h.length_mr
    owned := by
      obtain ⟨lo, hlo, hhi, heq, howned⟩ := h.owned
      have hcount : wcs.length ≤ s.ctl.issued - lo := by
        have hown : s.owned.length = s.ctl.issued - lo := by
          rw [howned, windowOf, List.length_map, List.length_range']
        rw [SenderNode.owned, List.length_map, List.length_append, List.length_map] at hown
        omega
      rw [hdrop, howned, drop_windowOf]
      dsimp only
      rw [hi]
      refine ⟨lo + wcs.length, ?_, by omega, fun hf => ?_, rfl⟩
      · rcases hcomp with ⟨-, hc⟩ | hc <;> omega
      · rcases hcomp with ⟨hf', -⟩ | hc
        · rw [hf'] at hf
          exact absurd hf (by simp)
        · rw [hc, heq hfail]
    limit := by rw [hcov]; exact h.limit
    inside := fun x hx => by
      rw [hcov]
      exact h.inside x (hmem x hx)
    bytes := fun x hx => h.bytes x (hmem x hx)
    ready := fun hf => absurd hf (by rw [hnot]; simp) }

/-- A step that stays out of band. -/
theorem SenderNode.Sound.talk (h : s.Sound p) {c : SendCtl} (hord : c.Ordered p)
    (hi : c.issued = s.ctl.issued) (hc : c.completed = s.ctl.completed) (hf : c.filled = false)
    (hcov : c.covered p = s.ctl.covered p) (hfail : s.ctl.failed = false) :
    SenderNode.Sound p { s with ctl := c } where
  ordered := hord
  length_mr := h.length_mr
  owned := by
    obtain ⟨lo, hlo, hhi, heq, howned⟩ := h.owned
    dsimp only
    rw [hi, hc]
    exact ⟨lo, hlo, hhi, fun _ => heq hfail, howned⟩
  limit := by rw [hcov]; exact h.limit
  inside := fun x hx => by
    rw [hcov]
    exact h.inside x hx
  bytes := h.bytes
  ready := fun hf' => absurd hf' (by rw [hf]; simp)

/-- The device moves work requests along without touching them. -/
theorem SenderNode.Sound.device (h : s.Sound p) (hctl : t.ctl = s.ctl) (hmr : t.mr = s.mr)
    (howned : t.owned = s.owned) : t.Sound p where
  ordered := hctl ▸ h.ordered
  length_mr := hmr ▸ h.length_mr
  owned := by rw [hctl, howned]; exact h.owned
  limit := hctl ▸ h.limit
  inside := by rw [hctl, howned]; exact h.inside
  bytes := by rw [hmr, howned]; exact h.bytes
  ready := by rw [hctl, hmr]; exact h.ready

theorem sound_init (p : Setup) : (senderInit p).Sound p where
  ordered := ⟨Nat.zero_le _, fun _ hs => absurd hs (by simp [senderInit]),
    fun _ hs => absurd hs (by simp [senderInit]), fun _ _ => rfl⟩
  length_mr := List.length_replicate
  owned := ⟨0, Nat.le_refl 0, Nat.le_refl 0, fun _ => rfl, rfl⟩
  limit := by
    rw [show (senderInit p).ctl.covered p = 0 from rfl, Nat.zero_mul]
    exact Nat.zero_le _
  inside := fun x hx => absurd hx (by simp [SenderNode.owned, senderInit])
  bytes := fun x hx => absurd hx (by simp [SenderNode.owned, senderInit])
  ready := fun hf => absurd hf (by simp [SendCtl.filled, senderInit])

/-- **One step of the program.** -/
theorem SenderNode.Sound.act (hW : 0 < p.window) (hm : headerLen ≤ p.msgSize)
    (hsize : p.msgSize < usizeSize) (h : s.Sound p) {a : Act}
    (hstep : senderStep p s (.act a) = some t) : t.Sound p := by
  obtain ⟨c, u, hc, hu, rfl⟩ := senderStep_act hstep
  have hfail := failed_eq_false hc
  obtain ⟨hord, hadv⟩ := (SendMove.of_step hc).advance hW h.ordered
  cases a with
  | fill slot seq =>
    rw [SenderNode.perform] at hu
    split at hu
    · next hfits =>
      rw [← Option.some.inj hu]
      exact h.fill hm hsize hord hadv hfail hfits
    · exact absurd hu (by simp)
  | postSend slot wrId =>
    rw [SenderNode.perform] at hu
    split at hu
    · rw [← Option.some.inj hu]
      exact h.post hord hadv hfail
    · exact absurd hu (by simp)
  | poll wcs =>
    rw [SenderNode.perform] at hu
    split at hu
    · next hwcs =>
      rw [← Option.some.inj hu]
      exact h.poll hord hadv hfail hwcs
    · exact absurd hu (by simp)
  | write _ | read _ | postReceive _ _ | inspect _ _ | clock _ | skip =>
    rw [← Option.some.inj hu]
    obtain ⟨hi, hc, hf, hcov⟩ := hadv
    exact h.talk hord hi hc hf hcov hfail

/-- **Every step.** -/
theorem SenderNode.Sound.step (hW : 0 < p.window) (hm : headerLen ≤ p.msgSize)
    (hsize : p.msgSize < usizeSize) (h : s.Sound p) {l : SenderLabel}
    (hstep : senderStep p s l = some t) : t.Sound p := by
  cases l with
  | act a => exact h.act hW hm hsize hstep
  | transmit i =>
    rw [senderStep] at hstep
    split at hstep
    · next wr hwr =>
      split at hstep
      · exact absurd hstep (by simp)
      · rw [← Option.some.inj hstep]
        obtain ⟨hi, rfl⟩ := List.getElem?_eq_some_iff.mp hwr
        refine h.device rfl rfl ?_
        rw [SenderNode.owned, SenderNode.owned, List.map_append, List.map_append, List.map_set]
        refine congrArg (_ ++ ·) ?_
        refine List.ext_getElem (by simp) fun j hj _ => ?_
        rw [List.getElem_set]
        split
        · next hij => simp [hij]
        · rfl
    · exact absurd hstep (by simp)
  | complete ok =>
    rw [senderStep] at hstep
    split at hstep
    · next wr rest hsq =>
      split at hstep
      · rw [← Option.some.inj hstep]
        refine h.device rfl rfl ?_
        rw [SenderNode.owned, SenderNode.owned, hsq]
        refine congrArg (List.map _) ?_
        dsimp only
        rw [List.map_append, List.append_assoc]
        rfl
      · exact absurd hstep (by simp)
    · exact absurd hstep (by simp)

end Node

/-- **Every reachable sender is sound.** -/
theorem sender_sound {p : Setup} (hW : 0 < p.window) (hm : headerLen ≤ p.msgSize)
    (hsize : p.msgSize < usizeSize) {s : SenderNode} (h : (sender p).Reachable s) : s.Sound p :=
  h.invariant (sound_init p) fun _ _ _ hs hstep => hs.step hW hm hsize hstep

end Accuracy
end RdmaBench
