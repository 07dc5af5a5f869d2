import RdmaBench.Accuracy.Receiver
import RdmaBench.Accuracy.Sender

/-!
# No slot is shared

Between the post of a work request and the poll of its completion the slot is the
device's.  The two programs never track this; they infer it, the sender from a
completion count and the receiver from the ids of a batch.  Soundness of the two
nodes says that the inference is right at every program point, and this file
reads it off: what the programs touch is not the device's, and what the device
reads or wrote is what was meant.

`Placed` is the range of a slot as it is meant.  The region may be shorter than
the window asks for, when `window * msg_size` overflows; then the program panics
at the first slot that does not fit, so the slots it does touch are placed in any
case.
-/

namespace RdmaBench
namespace Accuracy

open Automaton Memory

/-- The range of `slot` is the `slot`-th stretch of `msg_size` bytes, and lies
inside the region. -/
def Placed (p : Setup) (slot : ℕ) : Prop :=
  slotRange slot p.msgSize = (slot * p.msgSize, slot * p.msgSize + p.msgSize) ∧
    slot * p.msgSize + p.msgSize ≤ regionLen p.window p.msgSize

/-- Two ranges with no byte in common. -/
def Apart (a b : ℕ × ℕ) : Prop := a.2 ≤ b.1 ∨ b.2 ≤ a.1

theorem Placed.apart {p : Setup} {a b : ℕ} (ha : Placed p a) (hb : Placed p b) (hab : a ≠ b) :
    Apart (slotRange a p.msgSize) (slotRange b p.msgSize) := by
  rw [Apart, ha.1, hb.1]
  exact slot_disjoint hab (Nat.le_refl _)

/-- A slot that ends inside the region is placed. -/
theorem placed_of_le {p : Setup} {slot : ℕ}
    (h : (slot + 1) * p.msgSize ≤ regionLen p.window p.msgSize) : Placed p slot :=
  ⟨slotRange_eq (regionLen_lt _ _) h, Nat.succ_mul slot p.msgSize ▸ h⟩

section Sender

variable {p : Setup} {s t : SenderNode}

theorem SenderNode.Sound.placed (h : s.Sound p) {slot : ℕ} (hlt : slot < s.ctl.covered p) :
    Placed p slot :=
  placed_of_le (h.length_mr ▸ h.end_le hlt)

/-- The slots out are all different. -/
theorem SenderNode.Sound.nodup (h : s.Sound p) : (s.owned.map Prod.snd).Nodup := by
  obtain ⟨lo, hlo, hhi, -, howned⟩ := h.owned
  have hroom := h.ordered.room
  rw [howned, windowOf, List.map_map]
  refine (List.nodup_map_iff_inj_on List.nodup_range').mpr fun a ha b hb hab => ?_
  rw [List.mem_range'_1] at ha hb
  by_contra hne
  rcases Nat.lt_or_gt_of_ne hne with hlt | hgt
  · exact mod_ne_mod_of_lt hlt (by omega : b < a + p.window) hab
  · exact mod_ne_mod_of_lt hgt (by omega : a < b + p.window) hab.symm

/-- **The sender touches no slot that is out.** -/
theorem SenderNode.Sound.fill_not_owned (hW : 0 < p.window) (hm : headerLen ≤ p.msgSize)
    (hsize : p.msgSize < usizeSize) (h : s.Sound p) {slot seq : ℕ}
    (hstep : senderStep p s (.act (.fill slot seq)) = some t) :
    slot ∉ s.owned.map Prod.snd ∧ Placed p slot := by
  obtain ⟨c, u, hc, hu, rfl⟩ := senderStep_act hstep
  obtain ⟨-, hslot, -, -, -, hlt, -, -, -, -, hin⟩ := (SendMove.of_step hc).advance hW h.ordered
  refine ⟨fun hmem => ?_, (h.act hW hm hsize hstep).placed hin⟩
  obtain ⟨x, hx, heq⟩ := List.mem_map.mp hmem
  exact h.next_free hlt x hx (heq.trans hslot)

theorem SenderNode.Sound.post_not_owned (hW : 0 < p.window) (h : s.Sound p) {slot wrId : ℕ}
    (hstep : senderStep p s (.act (.postSend slot wrId)) = some t) :
    slot ∉ s.owned.map Prod.snd ∧ Placed p slot := by
  obtain ⟨c, u, hc, hu, rfl⟩ := senderStep_act hstep
  obtain ⟨-, hslot, -, -, -, hlt, -, -, hin, -⟩ := (SendMove.of_step hc).advance hW h.ordered
  refine ⟨fun hmem => ?_, h.placed hin⟩
  obtain ⟨x, hx, heq⟩ := List.mem_map.mp hmem
  exact h.next_free hlt x hx (heq.trans hslot)

/-- **The device reads payloads.** -/
theorem SenderNode.Sound.bytesOf_eq (h : s.Sound p) {wr : SendWr} (hwr : wr ∈ s.sq) :
    s.bytesOf p wr = payload p.msgSize wr.seq ∧ Placed p wr.slot := by
  have hmem : (wr.seq, wr.slot) ∈ s.owned :=
    List.mem_map_of_mem (f := fun wr : SendWr => (wr.seq, wr.slot))
      (List.mem_append_right _ hwr)
  have hplaced : Placed p wr.slot := h.placed (h.inside _ hmem)
  refine ⟨?_, hplaced⟩
  rw [SenderNode.bytesOf, hplaced.1]
  exact h.bytes _ hmem

end Sender

section Receiver

variable {p : Setup} {s t : ReceiverNode}

theorem ReceiverNode.Sound.placed (h : s.Sound p) {slot : ℕ} (hlt : slot < s.ctl.covered p) :
    Placed p slot :=
  placed_of_le (h.length_mr ▸ h.end_le hlt)

/-- **The receiver looks at no slot that is out**, and what it sees there is what
the device wrote for the completion. -/
theorem ReceiverNode.Sound.inspect_not_owned (h : s.Sound p) {slot : ℕ} {got : List UInt8}
    (hstep : receiverStep p s (.act (.inspect slot got)) = some t) :
    slot ∉ s.owned ∧ Placed p slot ∧ s.held = (slot, got) :: t.held ∧
      t.checked = s.checked ++ [got] := by
  obtain ⟨c, u, hc, hu, rfl⟩ := receiverStep_act hstep
  have hadv := (RecvMove.of_step hc).advance h.filling
  obtain ⟨-, -, -, -, -, -, hin, -⟩ := id hadv
  rw [ReceiverNode.perform] at hu
  split at hu
  · next hgot =>
    rw [← Option.some.inj hu]
    have hhead := (h.inspect (fun _ hk => (RecvMove.of_step hc).filling hk) hadv
      (failed_eq_false_of_recvStep hc) hgot.2).2
    refine ⟨fun hmem => ?_, h.placed (h.inside _ (List.mem_append_right _ hin)), hhead, rfl⟩
    exact (List.nodup_append.mp h.nodup).2.2 _ hmem _ hin rfl
  · exact absurd hu (by simp)

/-- **The receiver posts no slot that is out.** -/
theorem ReceiverNode.Sound.post_not_owned (hsize : p.msgSize < usizeSize) (h : s.Sound p)
    {slot wrId : ℕ} (hstep : receiverStep p s (.act (.postReceive slot wrId)) = some t) :
    slot ∉ s.owned ∧ Placed p slot := by
  have ht := h.act hsize hstep
  obtain ⟨c, u, hc, hu, rfl⟩ := receiverStep_act hstep
  rw [ReceiverNode.perform] at hu
  split at hu
  · rw [← Option.some.inj hu] at ht
    have hmem : slot ∈ (s.rq ++ [(⟨slot, wrId⟩ : RecvWr)]).map RecvWr.slot := by simp
    refine ⟨fun howned => ?_, ht.placed (ht.inside slot (List.mem_append_left _
      (List.mem_append_left _ hmem)))⟩
    have hnodup := (List.nodup_append.mp ht.nodup).1
    rw [ReceiverNode.owned, List.map_append, List.append_assoc] at hnodup
    obtain ⟨-, hrest, hapart⟩ := List.nodup_append.mp hnodup
    rcases List.mem_append.mp howned with hrq | hcq
    · exact hapart slot hrq slot (List.mem_append_left _ List.mem_cons_self) rfl
    · exact (List.nodup_append.mp hrest).2.2 slot List.mem_cons_self slot hcq rfl
  · exact absurd hu (by simp)

/-- Between batches nothing is unchecked. -/
theorem ReceiverNode.Sound.checked_eq (h : s.Sound p) (hok : s.ctl.failed = false)
    (hbatch : s.ctl.batch = []) : s.checked = s.polls.flatten := by
  have hheld := h.batch hok
  rw [hbatch] at hheld
  rw [h.history, List.map_eq_nil_iff.mp hheld.symm, List.map_nil, List.append_nil]

end Receiver

/-- **No slot is shared between a program and its device**, in any reachable state
of the sender and of the receiver.  What is filled, posted or checked is not out,
distinct slots have disjoint ranges inside the region, the device only ever reads
the payload of the number it transmits, and the polled messages are checked in
order, each once, as the device wrote them. -/
theorem slots_never_shared {p : Setup} (hW : 0 < p.window) (hm : headerLen ≤ p.msgSize)
    (hsize : p.msgSize < usizeSize) :
    (∀ s, (sender p).Reachable s →
      (s.owned.map Prod.snd).Nodup ∧
      (∀ slot seq t, senderStep p s (.act (.fill slot seq)) = some t →
        slot ∉ s.owned.map Prod.snd ∧ Placed p slot) ∧
      (∀ slot wrId t, senderStep p s (.act (.postSend slot wrId)) = some t →
        slot ∉ s.owned.map Prod.snd ∧ Placed p slot) ∧
      ∀ wr ∈ s.sq, s.bytesOf p wr = payload p.msgSize wr.seq ∧ Placed p wr.slot) ∧
    (∀ s, (receiver p).Reachable s →
      s.owned.Nodup ∧ (∀ slot ∈ s.owned, Placed p slot) ∧
      (∀ slot got t, receiverStep p s (.act (.inspect slot got)) = some t →
        slot ∉ s.owned ∧ Placed p slot ∧ s.held = (slot, got) :: t.held ∧
          t.checked = s.checked ++ [got]) ∧
      (∀ slot wrId t, receiverStep p s (.act (.postReceive slot wrId)) = some t →
        slot ∉ s.owned ∧ Placed p slot) ∧
      s.polls.flatten = s.checked ++ s.held.map Prod.snd ∧
      (s.ctl.failed = false → s.ctl.batch = [] → s.checked = s.polls.flatten)) ∧
    ∀ a b, Placed p a → Placed p b → a ≠ b →
      Apart (slotRange a p.msgSize) (slotRange b p.msgSize) := by
  refine ⟨fun s hs => ?_, fun s hs => ?_, fun a b ha hb hab => ha.apart hb hab⟩
  · have h := sender_sound hW hm hsize hs
    exact ⟨h.nodup, fun _ _ _ hstep => h.fill_not_owned hW hm hsize hstep,
      fun _ _ _ hstep => h.post_not_owned hW hstep, fun _ hwr => h.bytesOf_eq hwr⟩
  · have h := receiver_sound hsize hs
    exact ⟨(List.nodup_append.mp h.nodup).1,
      fun slot hslot => h.placed (h.inside slot (List.mem_append_left _ hslot)),
      fun _ _ _ hstep => h.inspect_not_owned hstep, fun _ _ _ hstep => h.post_not_owned hsize hstep,
      h.history, h.checked_eq⟩

/-- Two slots, three messages; message 0 is through. -/
def refilling : List SenderLabel :=
  [.act (.write .barrier), .act (.read .barrier), .act (.fill 0 0), .act (.postSend 0 0),
    .act (.fill 1 1), .act (.postSend 1 1), .transmit 0, .complete true,
    .act (.poll [⟨0, 8, true⟩])]

/-- The same on the other side. -/
def reposting : List ReceiverLabel :=
  [.act (.postReceive 0 0), .act (.postReceive 1 1), .act (.write .barrier),
    .act (.read .barrier), .act (.clock 0), .complete 0 (payload 8 0) true,
    .act (.poll [⟨0, 8, true⟩]), .act (.clock 0), .act (.inspect 0 (payload 8 0))]

/-- A sender that refills slot 0 while message 1 is out, the sender that has posted it
again, and a receiver that has checked slot 0 and is about to post it again. -/
theorem slots_never_shared_refilled :
    let p : Setup := ⟨false, 8, 3, 2⟩
    (∃ s t, (sender p).Reachable s ∧ s.owned = [(1, 1)] ∧
      senderStep p s (.act (.fill 0 2)) = some t ∧ 0 ∉ s.owned.map Prod.snd ∧ Placed p 0) ∧
    (∃ s, (sender p).Reachable s ∧ s.owned = [(1, 1), (2, 0)] ∧
      ∀ wr ∈ s.sq, s.bytesOf p wr = payload 8 wr.seq ∧ Placed p wr.slot) ∧
    ∃ s t, (receiver p).Reachable s ∧ s.owned = [1] ∧ s.checked = [payload 8 0] ∧
      receiverStep p s (.act (.postReceive 0 0)) = some t ∧ 0 ∉ s.owned ∧ Placed p 0 := by
  intro p
  obtain ⟨hsend, hrecv, -⟩ :=
    slots_never_shared (p := p) (by decide) (by decide) (by decide)
  obtain ⟨s, hs, hs'⟩ := System.Reachable.exists_of_run (S := sender p) (p := fun s =>
    decide (s.owned = [(1, 1)] ∧ (senderStep p s (.act (.fill 0 2))).isSome = true))
    refilling (by decide +kernel)
  obtain ⟨howned, hfill⟩ := of_decide_eq_true hs'
  obtain ⟨t, ht⟩ := Option.isSome_iff_exists.mp hfill
  obtain ⟨u, hu, huowned⟩ := System.Reachable.exists_of_run (S := sender p)
    (p := fun u => decide (u.owned = [(1, 1), (2, 0)]))
    (refilling ++ [.act (.fill 0 2), .act (.postSend 0 2)]) (by decide +kernel)
  obtain ⟨r, hr, hr'⟩ := System.Reachable.exists_of_run (S := receiver p) (p := fun r =>
    decide (r.owned = [1] ∧ r.checked = [payload 8 0] ∧
      (receiverStep p r (.act (.postReceive 0 0))).isSome = true))
    reposting (by decide +kernel)
  obtain ⟨hrowned, hchecked, hrepost⟩ := of_decide_eq_true hr'
  obtain ⟨v, hv⟩ := Option.isSome_iff_exists.mp hrepost
  exact ⟨⟨s, t, hs, howned, ht, (hsend s hs).2.1 0 2 t ht⟩,
    ⟨u, hu, of_decide_eq_true huowned, (hsend u hu).2.2.2⟩,
    r, v, hr, hrowned, hchecked, hv, (hrecv r hr).2.2.2.1 0 0 v hv⟩

end Accuracy
end RdmaBench
