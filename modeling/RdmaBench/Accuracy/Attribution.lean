import RdmaBench.Accuracy.Receive

/-!
# What the header attributes, and what it cannot

The receiver knows a message by its header and by nothing else, and its loop
counts completions, not numbers.  This file says exactly how far the two carry.

## Loss

`report.lost` is counted when the loop ends, and the loop ends once `iterations`
completions have been taken, duplicates and strays among them.  What is still to
be polled then is `unpolled`, and the loss count is right exactly when nothing in
it carries a number that the polled messages lack (`lost_eq_missing_iff`).

## Credit

A `Delivery` remembers which message was sent, so that damage can be told from
arrival: `bytes` is what stands in the slot, `seq` whose payload it set out as.
An intact delivery loses its credit to any earlier one whose damaged header
happens to spell its number, and to nothing else (`intact_credited_iff`).
-/

namespace RdmaBench
namespace Accuracy

open Arrivals

/-! ## Loss -/

/-- The numbers of the run that no message carries in its header. -/
def missing (n : ℕ) (msgs : List (List UInt8)) : Finset ℕ :=
  (Finset.range n).filter fun k => ∀ msg ∈ msgs, headerSeq msg ≠ some k

theorem card_missing (n : ℕ) (msgs : List (List UInt8)) :
    (identified n msgs).card + (missing n msgs).card = n := by
  have hneg : missing n msgs =
      (Finset.range n).filter fun k => ¬∃ msg ∈ msgs, headerSeq msg = some k := by
    refine Finset.filter_congr fun k _ => ?_
    push Not
    rfl
  rw [hneg, identified, Finset.card_filter_add_card_filter_not, Finset.card_range]

/-- A slot of at least eight bytes keeps the header of what arrives in it. -/
theorem headerSeq_take {m : ℕ} (hm : headerLen ≤ m) (msg : List UInt8) :
    headerSeq (msg.take m) = headerSeq msg := by
  have hlen : (msg.take m).length < headerLen ↔ msg.length < headerLen := by
    rw [List.length_take]
    omega
  rw [headerSeq, headerSeq, List.take_take, Nat.min_eq_left hm]
  simp only [hlen]

theorem identified_map_take {m : ℕ} (hm : headerLen ≤ m) (n : ℕ) (msgs : List (List UInt8)) :
    identified n (msgs.map (List.take m)) = identified n msgs := by
  ext k
  rw [mem_identified, mem_identified]
  simp only [List.mem_map, exists_exists_and_eq_and, headerSeq_take hm]

/-- The loss count goes by the polled messages. -/
theorem card_identified_add_lost {m : ℕ} (hm : headerLen ≤ m) (hsize : m < usizeSize) (n : ℕ)
    (polls : List (List (List UInt8))) :
    (identified n (polled n polls).flatten).card + (receive m n polls).lost = n := by
  have hT := tallies_checkAll (n := n) hm hsize ((polled n polls).flatten.map (List.take m))
    fun msg hmsg => by
      obtain ⟨x, -, rfl⟩ := List.mem_map.mp hmsg
      exact List.length_take_le _ _
  rw [receive_eq, ← identified_map_take hm, ← length_firsts, Nat.add_comm]
  exact hT.countP_not_seen (nodup_keys _)

theorem identified_append (n : ℕ) (msgs rest : List (List UInt8)) :
    identified n (msgs ++ rest) = identified n msgs ∪ identified n rest := by
  ext k
  rw [Finset.mem_union, mem_identified, mem_identified, mem_identified, ← and_or_left]
  simp only [List.mem_append, or_and_right, exists_or]

/-- **When the loss count is right.**  The receiver reports as lost exactly the
numbers nobody carries just when every number that a message past the first
`iterations` completions carries is carried by one of those completions too. -/
theorem lost_eq_missing_iff {m n : ℕ} (hm : headerLen ≤ m) (hsize : m < usizeSize)
    (polls : List (List (List UInt8))) :
    (receive m n polls).lost = (missing n polls.flatten).card ↔
      ∀ msg ∈ (unpolled n polls).flatten, ∀ k < n, headerSeq msg = some k →
        ∃ early ∈ (polled n polls).flatten, headerSeq early = some k := by
  have hlost := card_identified_add_lost hm hsize n polls
  have hmissing := card_missing n polls.flatten
  have hall : identified n polls.flatten =
      identified n (polled n polls).flatten ∪ identified n (unpolled n polls).flatten := by
    rw [← identified_append, ← List.flatten_append, polled_append_unpolled]
  -- the two counts agree when the tail identifies nothing new
  have hcard : (receive m n polls).lost = (missing n polls.flatten).card ↔
      identified n (unpolled n polls).flatten ⊆ identified n (polled n polls).flatten := by
    rw [← Finset.union_eq_left, ← hall]
    constructor
    · intro h
      refine (Finset.eq_of_subset_of_card_le ?_ (by omega)).symm
      rw [hall]
      exact Finset.subset_union_left
    · intro h
      rw [h] at hmissing
      omega
  rw [hcard]
  constructor
  · intro hsub msg hmsg k hk hhead
    exact (mem_identified.mp (hsub (mem_identified.mpr ⟨hk, msg, hmsg, hhead⟩))).2
  · intro h k hk
    obtain ⟨hkn, msg, hmsg, hhead⟩ := mem_identified.mp hk
    exact mem_identified.mpr ⟨hkn, h msg hmsg k hkn hhead⟩

/-- Two copies of message 0 and message 1 come with the first poll, which ends the loop,
and a third copy of message 0 comes too late; message 2 never comes. -/
theorem lost_eq_missing_iff_late_copy :
    let polls := [[payload 8 0, payload 8 0, payload 8 1], [payload 8 0]]
    (polled 3 polls).flatten = [payload 8 0, payload 8 0, payload 8 1] ∧
      (unpolled 3 polls).flatten = [payload 8 0] ∧
      (receive 8 3 polls).lost = (missing 3 polls.flatten).card ∧
      (missing 3 polls.flatten).card = 1 := by
  intro polls
  have hlate : ∀ msg ∈ (unpolled 3 polls).flatten, ∀ k < 3, headerSeq msg = some k →
      ∃ early ∈ (polled 3 polls).flatten, headerSeq early = some k := by
    decide +kernel
  exact ⟨by decide +kernel, by decide +kernel,
    (lost_eq_missing_iff (by decide) (by decide) polls).mpr hlate, by decide +kernel⟩

/-- Message 0 and a duplicate of it arrive together, and message 1 behind them:
the loop has its two completions and reports message 1 as lost. -/
theorem lost_of_duplicate :
    (receive 8 2 [[payload 8 0, payload 8 0], [payload 8 1]]).lost = 1 ∧
      (missing 2 [[payload 8 0, payload 8 0], [payload 8 1]].flatten).card = 0 := by
  decide +kernel

/-! ## Credit -/

/-- A message on its way: whose payload it was sent as, and what arrives. -/
structure Delivery where
  seq : ℕ
  bytes : List UInt8
  deriving DecidableEq

/-- Each message of the run arrives at most once and whole, with any of its bytes
changed. -/
structure AtMostOnce (m n : ℕ) (ds : List Delivery) : Prop where
  once : (ds.map Delivery.seq).Nodup
  sent : ∀ d ∈ ds, d.seq < n
  whole : ∀ d ∈ ds, d.bytes.length = m

/-- Checking `msg` gives full credit for it and does not count it as a
duplicate. -/
def Credited (m : ℕ) (c : Checker) (msg : List UInt8) : Prop :=
  (check msg m c).report.correctBytes = c.report.correctBytes + UInt64.ofNat m ∧
    (check msg m c).report.correctBits = c.report.correctBits + UInt64.ofNat (8 * m) ∧
    (check msg m c).report.duplicated = c.report.duplicated

instance (m : ℕ) (c : Checker) (msg : List UInt8) : Decidable (Credited m c msg) :=
  inferInstanceAs (Decidable (_ ∧ _))

/-- Every intact delivery is credited at its turn. -/
def IntactCredited (m n : ℕ) (ds : List Delivery) : Prop :=
  ∀ front d back, ds = front ++ d :: back → d.bytes = payload m d.seq →
    Credited m (checkAll m (Checker.fresh m n) (front.map Delivery.bytes)) d.bytes

/-- An intact message of the run is credited unless its number has been seen. -/
theorem credited_payload_iff {m n k : ℕ} {c : Checker} {L : Ledger ℕ (List UInt8)}
    (h : Tallies m n c L) (hm : headerLen ≤ m) (hsize : m < usizeSize) (hn : n < usizeSize)
    (hk : k < n) : Credited m c (payload m k) ↔ k ∉ L.keys := by
  have hid : identify c.seen.length (payload m k) = some k := by
    rw [h.length_seen]
    exact identify_payload hm hk (hk.trans hn)
  by_cases hmem : k ∈ L.keys
  · refine ⟨fun hcred => absurd hcred.2.2 ?_, fun hnot => absurd hmem hnot⟩
    rw [check_duplicate hid (by rw [h.seen, decide_eq_true hmem])]
    exact Nat.succ_ne_self _
  · refine ⟨fun _ => hmem, fun _ => ?_⟩
    have hfirst : check (payload m k) m c = c.judge (payload m k) m (UInt64.ofNat k) k :=
      check_first hid (by rw [h.seen, decide_eq_false hmem])
    have hrep := judge_report (n := k) h.expected hsize (Nat.le_of_eq (length_payload hm k)) hm
    rw [Credited, hfirst, hrep, Memory.matching_self, Memory.agreeing_self, length_payload hm]
    exact ⟨rfl, rfl, rfl⟩

/-- At most `n` messages are never too many for the loop. -/
theorem receiveLoop_of_length_le {m n : ℕ} (polls : List (List (List UInt8)))
    (hn : polls.flatten.length ≤ n) (hlen : ∀ msg ∈ polls.flatten, msg.length ≤ m) :
    receiveLoop m n polls (Checker.fresh m n) =
      (checkAll m (Checker.fresh m n) polls.flatten).addReceived polls.flatten.length := by
  have hloop := receiveLoop_eq m n polls (Checker.fresh m n)
  rw [show n - (Checker.fresh m n).report.received = n from rfl,
    flatten_polled_of_length_le hn] at hloop
  rwa [List.map_congr_left fun _ hmsg => List.take_of_length_le (hlen _ hmsg),
    List.map_id'] at hloop

/-- Deliveries of different numbers of the run are no more than its messages. -/
theorem AtMostOnce.length_le {m n : ℕ} {ds : List Delivery} (h : AtMostOnce m n ds) :
    ds.length ≤ n := by
  have hsub : (ds.map Delivery.seq).toFinset ⊆ Finset.range n := by
    intro k hk
    obtain ⟨d, hd, rfl⟩ := List.mem_map.mp (List.mem_toFinset.mp hk)
    exact Finset.mem_range.mpr (h.sent d hd)
  have hcard := Finset.card_le_card hsub
  rwa [List.toFinset_card_of_nodup h.once, List.length_map, Finset.card_range] at hcard

/-- **Who takes whose credit.**  When each message arrives at most once, the loop
checks every delivery, and the intact ones are all credited exactly when none of
them comes after a delivery that carries its number in its header --- which only
a damaged header can do. -/
theorem intact_credited_iff {m n : ℕ} (hm : headerLen ≤ m) (hsize : m < usizeSize)
    (hn : n < usizeSize) (polls : List (List Delivery)) (h : AtMostOnce m n polls.flatten) :
    receiveLoop m n (polls.map (List.map Delivery.bytes)) (Checker.fresh m n) =
        (checkAll m (Checker.fresh m n) (polls.flatten.map Delivery.bytes)).addReceived
          polls.flatten.length ∧
      (IntactCredited m n polls.flatten ↔
        ∀ front d back, polls.flatten = front ++ d :: back → d.bytes = payload m d.seq →
          ∀ e ∈ front, headerSeq e.bytes ≠ some d.seq) := by
  have hbytes : ∀ msg ∈ polls.flatten.map Delivery.bytes, msg.length ≤ m := by
    intro msg hmsg
    obtain ⟨d, hd, rfl⟩ := List.mem_map.mp hmsg
    exact Nat.le_of_eq (h.whole d hd)
  refine ⟨?_, forall_congr' fun front => forall_congr' fun d => forall_congr' fun back =>
    forall_congr' fun heq => forall_congr' fun hintact => ?_⟩
  · have hloop := receiveLoop_of_length_le (m := m) (n := n)
      (polls.map (List.map Delivery.bytes))
    rw [← List.map_flatten, List.length_map] at hloop
    exact hloop h.length_le hbytes
  · -- an earlier delivery carries the number exactly when the ledger holds it
    have hT := tallies_checkAll (n := n) hm hsize (front.map Delivery.bytes)
      fun msg hmsg => hbytes msg (by
        rw [heq, List.map_append]
        exact List.mem_append_left _ hmsg)
    have hd : d.seq < n := h.sent d (heq ▸ List.mem_append_right _ List.mem_cons_self)
    rw [hintact, credited_payload_iff hT hm hsize hn hd, mem_keys_iff]
    simp only [List.mem_map, exists_exists_and_eq_and, identify_eq_some_iff, hd, and_true,
      not_exists, not_and, ne_eq]

/-- Two intact messages out of order. -/
theorem intact_credited_iff_reordered :
    headerLen ≤ 16 ∧ 16 < usizeSize ∧ 2 < usizeSize ∧
      AtMostOnce 16 2 [[⟨1, payload 16 1⟩], [⟨0, payload 16 0⟩]].flatten ∧
      IntactCredited 16 2 [[⟨1, payload 16 1⟩], [⟨0, payload 16 0⟩]].flatten := by
  have h : AtMostOnce 16 2 [[⟨1, payload 16 1⟩], [⟨0, payload 16 0⟩]].flatten :=
    ⟨by decide, by decide, by decide⟩
  refine ⟨by decide, by decide, by decide, h, (intact_credited_iff (by decide) (by decide)
    (by decide) [[⟨1, payload 16 1⟩], [⟨0, payload 16 0⟩]] h).2.mpr ?_⟩
  rintro front d back heq -
  match front, heq with
  | [], _ => exact fun e he => absurd he (List.not_mem_nil)
  | [_], rfl => decide +kernel
  | _ :: _ :: _, heq => simp at heq

/-- One bit of message 0 flips on the way, in the header, and makes it message 1:
the real message 1, which arrives next and intact, is taken for a duplicate. -/
theorem not_intactCredited_of_damaged_header :
    AtMostOnce 16 2 [⟨0, (payload 16 0).set 0 1⟩, ⟨1, payload 16 1⟩] ∧
      ¬IntactCredited 16 2 [⟨0, (payload 16 0).set 0 1⟩, ⟨1, payload 16 1⟩] := by
  refine ⟨⟨by decide, by decide, by decide⟩, fun h => ?_⟩
  have hcred := h [⟨0, (payload 16 0).set 0 1⟩] ⟨1, payload 16 1⟩ [] rfl rfl
  revert hcred
  decide +kernel

end Accuracy
end RdmaBench
