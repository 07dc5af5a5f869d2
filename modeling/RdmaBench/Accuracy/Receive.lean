import RdmaBench.Accuracy.Tallies
import Mathlib.Algebra.Order.BigOperators.Ring.Finset
import Mathlib.Data.List.Infix

/-!
# The receive loop as a function of what the polls return

`accuracy::receive` sees the fabric only through `cq.poll`: each call hands it a
batch of completed messages, perhaps empty.  `receiveLoop` is the loop over such
a list of batches.  It takes the next batch while fewer than `iterations`
messages have been received; a list that runs out stands for the idle break,
which comes when the fabric has gone quiet.

## Which batches are taken

The exit test counts *completions*, whatever they carry, so how far the loop
reads is a matter of the sizes of the batches alone.  `polled n polls` is the
shortest front of the list with at least `n` messages, `unpolled` the rest, and
`receiveLoop_eq` says that the loop is the fold of `check` over the polled
messages and nothing else.

## The balances

`receive_balance` puts the final report beside the ledger of the polled
messages, written out as sums over the set of identified numbers.
-/

namespace RdmaBench
namespace Accuracy

open Memory Arrivals

/-- What the loop does with one batch: counts it, then checks each message in
turn, as far as it fits the slot. -/
def takeBatch (msgSize : ℕ) (batch : List (List UInt8)) (c : Checker) : Checker :=
  checkAll msgSize (c.addReceived batch.length) (batch.map (List.take msgSize))

/-- The loop `while report.received < iterations`, over what the polls return. -/
def receiveLoop (msgSize iterations : ℕ) : List (List (List UInt8)) → Checker → Checker
  | [], c => c
  | batch :: polls, c =>
    if c.report.received < iterations then
      receiveLoop msgSize iterations polls (takeBatch msgSize batch c)
    else c

/-- The report the receiver sends back. -/
def receive (msgSize iterations : ℕ) (polls : List (List (List UInt8))) : AccuracyReport :=
  let c := receiveLoop msgSize iterations polls (Checker.fresh msgSize iterations)
  { c.report with lost := c.seen.countP fun s => !s }

/-! ## Which batches are taken -/

/-- The shortest front of a list of batches that holds `n` messages, or all of
it. -/
def polled {α : Type*} : ℕ → List (List α) → List (List α)
  | 0, _ => []
  | _ + 1, [] => []
  | n + 1, batch :: polls => batch :: polled (n + 1 - batch.length) polls

/-- The batches after it. -/
def unpolled {α : Type*} (n : ℕ) (polls : List (List α)) : List (List α) :=
  polls.drop (polled n polls).length

theorem polled_append_unpolled {α : Type*} (n : ℕ) (polls : List (List α)) :
    polled n polls ++ unpolled n polls = polls := by
  have h : polled n polls <+: polls := by
    induction polls generalizing n with
    | nil => cases n <;> exact List.prefix_rfl
    | cons batch polls ih =>
      cases n with
      | zero => exact List.nil_prefix
      | succ n => exact List.prefix_cons_inj batch |>.mpr (ih _)
  rw [unpolled]
  exact (List.prefix_append_drop h).symm

/-- Nothing is left over while fewer than `n` messages have been taken. -/
theorem unpolled_eq_nil {α : Type*} {n : ℕ} {polls : List (List α)}
    (h : (polled n polls).flatten.length < n) : unpolled n polls = [] := by
  induction polls generalizing n with
  | nil => exact List.drop_nil
  | cons batch polls ih =>
    cases n with
    | zero => exact absurd h (Nat.not_lt_zero _)
    | succ n =>
      rw [polled, List.flatten_cons, List.length_append] at h
      rw [unpolled, polled, List.length_cons, List.drop_succ_cons]
      exact ih (by omega)

/-- At most `n` messages are all taken. -/
theorem flatten_polled_of_length_le {α : Type*} {n : ℕ} {polls : List (List α)}
    (h : polls.flatten.length ≤ n) : (polled n polls).flatten = polls.flatten := by
  have hsplit : (polled n polls).flatten ++ (unpolled n polls).flatten = polls.flatten := by
    rw [← List.flatten_append, polled_append_unpolled]
  rcases Nat.lt_or_ge (polled n polls).flatten.length n with hlt | hge
  · rwa [unpolled_eq_nil hlt, List.flatten_nil, List.append_nil] at hsplit
  · have hrest : (unpolled n polls).flatten.length = 0 := by
      have := congrArg List.length hsplit
      rw [List.length_append] at this
      omega
    rwa [List.eq_nil_of_length_eq_zero hrest, List.append_nil] at hsplit

theorem length_polled_le {α : Type*} (n : ℕ) (polls : List (List α)) :
    (polled n polls).flatten.length ≤ polls.flatten.length := by
  nth_rewrite 2 [← polled_append_unpolled n polls]
  rw [List.flatten_append, List.length_append]
  exact Nat.le_add_right _ _

/-! ## The loop is a fold -/

theorem checkAll_addReceived (m k : ℕ) (c : Checker) (msgs : List (List UInt8)) :
    checkAll m (c.addReceived k) msgs = (checkAll m c msgs).addReceived k := by
  induction msgs generalizing c with
  | nil => rfl
  | cons got msgs ih =>
    rw [checkAll, List.foldl_cons, check_addReceived]
    exact ih _

theorem received_checkAll (m : ℕ) (c : Checker) (msgs : List (List UInt8)) :
    (checkAll m c msgs).report.received = c.report.received := by
  induction msgs generalizing c with
  | nil => rfl
  | cons got msgs ih =>
    rw [checkAll, List.foldl_cons]
    exact (ih _).trans (frame_check got m c).2.2.1

theorem msgSize_checkAll (m : ℕ) (c : Checker) (msgs : List (List UInt8)) :
    (checkAll m c msgs).report.msgSize = c.report.msgSize := by
  induction msgs generalizing c with
  | nil => rfl
  | cons got msgs ih =>
    rw [checkAll, List.foldl_cons]
    exact (ih _).trans (frame_check got m c).1

theorem sent_checkAll (m : ℕ) (c : Checker) (msgs : List (List UInt8)) :
    (checkAll m c msgs).report.sent = c.report.sent := by
  induction msgs generalizing c with
  | nil => rfl
  | cons got msgs ih =>
    rw [checkAll, List.foldl_cons]
    exact (ih _).trans (frame_check got m c).2.1

/-- **The loop is the fold of `check` over the polled messages**, and counts
them. -/
theorem receiveLoop_eq (m n : ℕ) (polls : List (List (List UInt8))) (c : Checker) :
    receiveLoop m n polls c =
      (checkAll m c ((polled (n - c.report.received) polls).flatten.map
        (List.take m))).addReceived (polled (n - c.report.received) polls).flatten.length := by
  induction polls generalizing c with
  | nil =>
    cases n - c.report.received <;> rfl
  | cons batch polls ih =>
    rw [receiveLoop]
    by_cases hlt : c.report.received < n
    · obtain ⟨k, hk⟩ : ∃ k, n - c.report.received = k + 1 := ⟨n - c.report.received - 1, by omega⟩
      have hrec : (takeBatch m batch c).report.received = c.report.received + batch.length := by
        rw [takeBatch, received_checkAll]
        rfl
      rw [if_pos hlt, ih, hrec, hk, polled, List.flatten_cons, List.map_append,
        show n - (c.report.received + batch.length) = k + 1 - batch.length by omega, takeBatch,
        checkAll_addReceived, checkAll_addReceived, List.length_append]
      rw [checkAll, checkAll, checkAll, List.foldl_append]
      simp only [Checker.addReceived, Nat.add_assoc]
    · rw [if_neg hlt, show n - c.report.received = 0 by omega]
      rfl

/-- The loop counts what it has taken. -/
theorem received_receiveLoop (m n : ℕ) (polls : List (List (List UInt8))) :
    (receiveLoop m n polls (Checker.fresh m n)).report.received =
      (polled n polls).flatten.length := by
  have h := receiveLoop_eq m n polls (Checker.fresh m n)
  rw [show n - (Checker.fresh m n).report.received = n from rfl] at h
  rw [h]
  simp only [Checker.addReceived, received_checkAll]
  exact Nat.zero_add _

/-- **The final report**, in terms of the polled messages. -/
theorem receive_eq (m n : ℕ) (polls : List (List (List UInt8))) :
    receive m n polls =
      { (checkAll m (Checker.fresh m n) ((polled n polls).flatten.map (List.take m))).report with
        received := (polled n polls).flatten.length
        lost := (checkAll m (Checker.fresh m n)
          ((polled n polls).flatten.map (List.take m))).seen.countP fun s => !s } := by
  have h := receiveLoop_eq m n polls (Checker.fresh m n)
  rw [show n - (Checker.fresh m n).report.received = n from rfl] at h
  rw [receive, h]
  simp only [Checker.addReceived, received_checkAll]
  rw [show (Checker.fresh m n).report.received = 0 from rfl, Nat.zero_add]

/-- A report says what was asked for. -/
theorem receive_asked (m n : ℕ) (polls : List (List (List UInt8))) :
    (receive m n polls).msgSize = m ∧ (receive m n polls).sent = n := by
  rw [receive_eq]
  exact ⟨msgSize_checkAll m _ _, sent_checkAll m _ _⟩

/-! ## The balances -/

/-- The numbers of the run that some message carries in its header. -/
def identified (n : ℕ) (msgs : List (List UInt8)) : Finset ℕ :=
  (Finset.range n).filter fun k => ∃ msg ∈ msgs, headerSeq msg = some k

/-- The earliest message that carries `k` in its header. -/
def firstArrival (msgs : List (List UInt8)) (k : ℕ) : List UInt8 :=
  (first headerSeq msgs k).getD []

theorem mem_identified {n k : ℕ} {msgs : List (List UInt8)} :
    k ∈ identified n msgs ↔ k < n ∧ ∃ msg ∈ msgs, headerSeq msg = some k := by
  rw [identified, Finset.mem_filter, Finset.mem_range]

theorem identified_subset (n : ℕ) (msgs : List (List UInt8)) :
    identified n msgs ⊆ Finset.range n :=
  Finset.filter_subset _ _

theorem card_identified_le (n : ℕ) (msgs : List (List UInt8)) : (identified n msgs).card ≤ n :=
  le_of_le_of_eq (Finset.card_le_card (identified_subset n msgs)) (Finset.card_range n)

/-- The keys of the ledger are the identified numbers. -/
theorem keys_toFinset (n : ℕ) (msgs : List (List UInt8)) :
    (ledger (identify n) msgs).keys.toFinset = identified n msgs := by
  ext k
  rw [List.mem_toFinset, mem_keys_iff, mem_identified]
  simp only [identify_eq_some_iff]
  constructor
  · rintro ⟨msg, hmsg, hk, hlt⟩
    exact ⟨hlt, msg, hmsg, hk⟩
  · rintro ⟨hlt, msg, hmsg, hk⟩
    exact ⟨msg, hmsg, hk, hlt⟩

theorem length_firsts (n : ℕ) (msgs : List (List UInt8)) :
    (ledger (identify n) msgs).firsts.length = (identified n msgs).card := by
  rw [← keys_toFinset, List.toFinset_card_of_nodup (nodup_keys msgs), Ledger.keys,
    List.length_map]

/-- Within the run, the ledger's first message is the first to carry the
number. -/
theorem first_identify {n k : ℕ} (hk : k < n) (msgs : List (List UInt8)) :
    (first (identify n) msgs k).getD [] = firstArrival msgs k := by
  have hfun : (fun msg => decide (identify n msg = some k)) =
      fun msg => decide (headerSeq msg = some k) := by
    funext msg
    exact decide_eq_decide.mpr (identify_eq_some_iff.trans (and_iff_left hk))
  rw [firstArrival, first, first, hfun]

/-- A first arrival is one of the messages. -/
theorem firstArrival_mem {n k : ℕ} {msgs : List (List UInt8)} (hk : k ∈ identified n msgs) :
    firstArrival msgs k ∈ msgs ∧ headerSeq (firstArrival msgs k) = some k := by
  obtain ⟨-, msg, hmsg, hhead⟩ := mem_identified.mp hk
  obtain ⟨m', hm'⟩ : ∃ m', first headerSeq msgs k = some m' := by
    refine Option.isSome_iff_exists.mp (List.find?_isSome.mpr ⟨msg, hmsg, ?_⟩)
    exact decide_eq_true hhead
  rw [firstArrival, hm', Option.getD_some]
  exact ⟨List.mem_of_find?_eq_some hm', of_decide_eq_true
    (List.find?_some (p := fun msg => decide (headerSeq msg = some k)) hm')⟩

theorem sum_firsts_eq (n : ℕ) (msgs : List (List UInt8)) (f : ℕ → List UInt8 → ℕ) :
    ((ledger (identify n) msgs).firsts.map fun p => f p.1 p.2).sum =
      ∑ k ∈ identified n msgs, f k (firstArrival msgs k) := by
  rw [sum_firsts msgs [] f, keys_toFinset]
  refine Finset.sum_congr rfl fun k hk => ?_
  rw [first_identify (mem_identified.mp hk).1]

theorem countP_firsts_eq (n : ℕ) (msgs : List (List UInt8)) (P : ℕ → List UInt8 → Bool) :
    (ledger (identify n) msgs).firsts.countP (fun p => P p.1 p.2) =
      ((identified n msgs).filter fun k => P k (firstArrival msgs k) = true).card := by
  rw [countP_firsts msgs [] P, keys_toFinset]
  refine congrArg Finset.card (Finset.filter_congr fun k hk => ?_)
  rw [first_identify (mem_identified.mp hk).1]

/-- A sum of terms of at most `m` is `m` for each exactly when every term is. -/
theorem sum_eq_mul_card_iff {s : Finset ℕ} {f : ℕ → ℕ} {m : ℕ} (h : ∀ k ∈ s, f k ≤ m) :
    ∑ k ∈ s, f k = m * s.card ↔ ∀ k ∈ s, f k = m := by
  have hconst : ∑ _k ∈ s, m = m * s.card := by
    rw [Finset.sum_const, Nat.nsmul_eq_mul, Nat.mul_comm]
  rw [← hconst]
  exact Finset.sum_eq_sum_iff_of_le h

theorem sum_le_mul_card {s : Finset ℕ} {f : ℕ → ℕ} {m : ℕ} (h : ∀ k ∈ s, f k ≤ m) :
    ∑ k ∈ s, f k ≤ m * s.card := by
  rw [Nat.mul_comm, ← Nat.nsmul_eq_mul]
  exact Finset.sum_le_card_nsmul s f m h

section Balance

variable {m n : ℕ} (hm : headerLen ≤ m) (hsize : m < 2 ^ 64) (polls : List (List (List UInt8)))
  (hlen : ∀ msg ∈ polls.flatten, msg.length ≤ m)

include hlen

theorem length_le_of_mem_polled {msg : List UInt8} (h : msg ∈ (polled n polls).flatten) :
    msg.length ≤ m := by
  refine hlen msg ?_
  rw [← polled_append_unpolled n polls, List.flatten_append]
  exact List.mem_append_left _ h

/-- Messages that fit their slots are checked whole. -/
theorem map_take_polled :
    (polled n polls).flatten.map (List.take m) = (polled n polls).flatten :=
  (List.map_congr_left fun _ hmsg =>
    List.take_of_length_le (length_le_of_mem_polled polls hlen hmsg)).trans (List.map_id _)

theorem length_firstArrival_le {k : ℕ} (hk : k ∈ identified n (polled n polls).flatten) :
    (firstArrival (polled n polls).flatten k).length ≤ m :=
  length_le_of_mem_polled polls hlen (firstArrival_mem hk).1

include hm hsize

/-- The checker the loop ends with, beside the ledger of the polled messages. -/
theorem tallies_polled :
    Tallies m n (checkAll m (Checker.fresh m n) (polled n polls).flatten)
      (ledger (identify n) (polled n polls).flatten) :=
  tallies_checkAll hm hsize _ fun _ hmsg => length_le_of_mem_polled polls hlen hmsg

/-- The message counters of the final report. -/
theorem receive_counts :
    (receive m n polls).sent = n ∧
      (receive m n polls).received = (polled n polls).flatten.length ∧
      (receive m n polls).received =
        (identified n (polled n polls).flatten).card + (receive m n polls).duplicated +
          (receive m n polls).unidentifiable ∧
      (identified n (polled n polls).flatten).card + (receive m n polls).lost = n := by
  have hT := tallies_polled (n := n) hm hsize polls hlen
  have hmap := map_take_polled (n := n) polls hlen
  refine ⟨?_, ?_, ?_, ?_⟩
  · rw [receive_eq]
    exact sent_checkAll m _ _
  · rw [receive_eq]
  · rw [receive_eq, hmap]
    dsimp only
    rw [hT.duplicated, hT.unidentifiable, ← length_firsts]
    exact length_eq _
  · rw [receive_eq, hmap]
    dsimp only
    rw [← length_firsts, Nat.add_comm]
    exact hT.countP_not_seen (nodup_keys _)

/-- The judgement counters of the final report. -/
theorem receive_judged :
    (receive m n polls).truncated = ((identified n (polled n polls).flatten).filter
        fun k => (firstArrival (polled n polls).flatten k).length < m).card ∧
      (receive m n polls).corrupted = ((identified n (polled n polls).flatten).filter
        fun k => firstArrival (polled n polls).flatten k ≠ payload m k).card ∧
      (receive m n polls).correctBytes = UInt64.ofNat
        (∑ k ∈ identified n (polled n polls).flatten,
          correctBytesOf m k (firstArrival (polled n polls).flatten k)) ∧
      (receive m n polls).correctBits = UInt64.ofNat
        (∑ k ∈ identified n (polled n polls).flatten,
          correctBitsOf m k (firstArrival (polled n polls).flatten k)) := by
  have hT := tallies_polled (n := n) hm hsize polls hlen
  have hmap := map_take_polled (n := n) polls hlen
  refine ⟨?_, ?_, ?_, ?_⟩
  · rw [receive_eq, hmap]
    refine (hT.truncated.trans (countP_firsts_eq n _ fun _ msg => decide (msg.length < m))).trans ?_
    simp only [decide_eq_true_eq]
  · rw [receive_eq, hmap]
    refine (hT.corrupted.trans
      (countP_firsts_eq n _ fun k msg => decide (msg ≠ payload m k))).trans ?_
    simp only [decide_eq_true_eq]
  · rw [receive_eq, hmap]
    exact hT.correctBytes.trans
      (congrArg UInt64.ofNat (sum_firsts_eq n _ fun k msg => correctBytesOf m k msg))
  · rw [receive_eq, hmap]
    exact hT.correctBits.trans
      (congrArg UInt64.ofNat (sum_firsts_eq n _ fun k msg => correctBitsOf m k msg))

end Balance

/-- Bounds on what is added up along a set of numbers, one first arrival each. -/
theorem credit_bounds {m : ℕ} (hm : headerLen ≤ m) {ids : Finset ℕ} {fa : ℕ → List UInt8}
    (hfa : ∀ k ∈ ids, (fa k).length ≤ m) :
    (∑ k ∈ ids, correctBitsOf m k (fa k)) ≤ 8 * m * ids.card ∧
      (∑ k ∈ ids, correctBytesOf m k (fa k)) + (ids.filter fun k => fa k ≠ payload m k).card ≤
        m * ids.card ∧
      8 * (∑ k ∈ ids, correctBytesOf m k (fa k)) ≤ ∑ k ∈ ids, correctBitsOf m k (fa k) ∧
      (ids.filter fun k => (fa k).length < m).card ≤
        (ids.filter fun k => fa k ≠ payload m k).card := by
  refine ⟨sum_le_mul_card fun k hk => correctBitsOf_le hm (hfa k hk), ?_, ?_, ?_⟩
  · rw [Finset.card_filter, ← Finset.sum_add_distrib]
    refine sum_le_mul_card fun k hk => ?_
    have hle := correctBytesOf_le (k := k) (hfa k hk)
    have hiff := correctBytesOf_eq_iff (k := k) hm (hfa k hk)
    by_cases heq : fa k = payload m k
    · rw [if_neg (not_not.mpr heq)]
      exact hle
    · rw [if_pos heq]
      have hne := mt hiff.mp heq
      omega
  · rw [Finset.mul_sum]
    exact Finset.sum_le_sum fun k _ => correctBytesOf_le_correctBitsOf
  · -- a short message is not the whole payload
    refine Finset.card_le_card (Finset.monotone_filter_right _ fun k _ hk heq => ?_)
    rw [heq, length_payload hm] at hk
    exact lt_irrefl m hk

/-- Full credit along a set of numbers is intact arrival of all of them. -/
theorem full_credit_iff {m : ℕ} (hm : headerLen ≤ m) {ids : Finset ℕ} {fa : ℕ → List UInt8}
    (hfa : ∀ k ∈ ids, (fa k).length ≤ m) :
    ((ids.filter fun k => fa k ≠ payload m k).card = 0 ↔
        ∑ k ∈ ids, correctBytesOf m k (fa k) = m * ids.card) ∧
      ((ids.filter fun k => fa k ≠ payload m k).card = 0 ↔
        ∑ k ∈ ids, correctBitsOf m k (fa k) = 8 * m * ids.card) := by
  have hzero : (ids.filter fun k => fa k ≠ payload m k).card = 0 ↔
      ∀ k ∈ ids, fa k = payload m k := by
    rw [Finset.card_eq_zero, Finset.filter_eq_empty_iff]
    simp only [not_not]
  constructor
  · rw [hzero, sum_eq_mul_card_iff fun k hk => correctBytesOf_le (hfa k hk)]
    exact forall₂_congr fun k hk => (correctBytesOf_eq_iff hm (hfa k hk)).symm
  · rw [hzero, sum_eq_mul_card_iff fun k hk => correctBitsOf_le hm (hfa k hk)]
    exact forall₂_congr fun k hk => (correctBitsOf_eq_iff hm (hfa k hk)).symm

/-- A `u64` counter of at most `8 m` per identified number does not wrap. -/
theorem toNat_credit {m n x : ℕ} (hfit : 8 * n * m < 2 ^ 64) {ids : Finset ℕ}
    (hcard : ids.card ≤ n) (hx : x ≤ 8 * m * ids.card) : (UInt64.ofNat x).toNat = x := by
  rw [UInt64.toNat_ofNat', Nat.mod_eq_of_lt]
  calc x ≤ 8 * m * ids.card := hx
    _ ≤ 8 * m * n := Nat.mul_le_mul_left _ hcard
    _ = 8 * n * m := by ring
    _ < 2 ^ 64 := hfit

/-- Full marks over the whole run: a total of at most `c` for each identified
number is `c` for each of the `n` numbers exactly when none is lost and none fell
short. -/
theorem full_marks_iff {c n x ids lost corrupted : ℕ} (hc : 0 < c) (hlost : ids + lost = n)
    (hle : x ≤ c * ids) (hfull : corrupted = 0 ↔ x = c * ids) :
    x = c * n ↔ lost = 0 ∧ corrupted = 0 := by
  constructor
  · intro hx
    have hids : c * n ≤ c * ids := hx ▸ hle
    have hn : ids = n := Nat.le_antisymm (by omega) (Nat.le_of_mul_le_mul_left hids hc)
    exact ⟨by omega, hfull.mpr (hn ▸ hx)⟩
  · rintro ⟨hzero, hcorr⟩
    rw [hfull.mp hcorr, show ids = n by omega]

/-- **The balances of an accuracy report.**  Whatever was received, in whatever
batches, the counters of the final report are the ledger of the polled messages:
each is identified, duplicated or unidentifiable, each number is identified or
lost, and the judgement counters are added up along the first arrivals.  Full
marks mean that everything arrived intact. -/
theorem receive_balance {m n : ℕ} (hm : headerLen ≤ m) (hn : 1 ≤ n)
    (hfit : 8 * n * m < 2 ^ 64) (polls : List (List (List UInt8)))
    (hlen : ∀ msg ∈ polls.flatten, msg.length ≤ m) :
    let report := receive m n polls
    let msgs := (polled n polls).flatten
    let ids := identified n msgs
    report.sent = n ∧ report.received = msgs.length ∧
    report.received = ids.card + report.duplicated + report.unidentifiable ∧
    ids.card + report.lost = report.sent ∧
    report.correctBytes.toNat =
      ∑ k ∈ ids, matching (firstArrival msgs k) (payload m k) ∧
    report.correctBits.toNat =
      ∑ k ∈ ids, (8 * (firstArrival msgs k).length -
        hamming (firstArrival msgs k) (payload m k)) ∧
    report.truncated = (ids.filter fun k => (firstArrival msgs k).length < m).card ∧
    report.corrupted = (ids.filter fun k => firstArrival msgs k ≠ payload m k).card ∧
    report.truncated ≤ report.corrupted ∧ report.corrupted ≤ ids.card ∧
    8 * report.correctBytes.toNat ≤ report.correctBits.toNat ∧
    report.correctBits.toNat ≤ 8 * m * ids.card ∧
    report.correctBytes.toNat + report.corrupted ≤ m * ids.card ∧
    (report.corrupted = 0 ↔ report.correctBytes.toNat = m * ids.card) ∧
    (report.corrupted = 0 ↔ report.correctBits.toNat = 8 * m * ids.card) ∧
    (report.correctBytes.toNat = m * report.sent ↔ report.lost = 0 ∧ report.corrupted = 0) ∧
    (report.correctBits.toNat = 8 * m * report.sent ↔
      report.lost = 0 ∧ report.corrupted = 0) := by
  intro report msgs ids
  have hsize : m < 2 ^ 64 := by
    refine lt_of_le_of_lt ?_ hfit
    calc m = 1 * m := (Nat.one_mul m).symm
      _ ≤ 8 * n * m := Nat.mul_le_mul_right m (by omega)
  have hfa : ∀ k ∈ ids, (firstArrival msgs k).length ≤ m := fun k hk =>
    length_firstArrival_le polls hlen hk
  have hcard : ids.card ≤ n := card_identified_le n msgs
  obtain ⟨hsent, hrecv, hsplit, hlost⟩ := receive_counts (n := n) hm hsize polls hlen
  obtain ⟨htrunc, hcorr, hbytes, hbits⟩ := receive_judged (n := n) hm hsize polls hlen
  obtain ⟨hle, hadd, hmul, hshort⟩ := credit_bounds hm hfa
  obtain ⟨hfull, hfull'⟩ := full_credit_iff hm hfa
  have hbytesNat : report.correctBytes.toNat =
      ∑ k ∈ ids, correctBytesOf m k (firstArrival msgs k) :=
    (congrArg UInt64.toNat hbytes).trans (toNat_credit hfit hcard (by
      have := Nat.mul_le_mul_right ids.card (show m ≤ 8 * m by omega)
      exact le_trans (le_trans (Nat.le_add_right _ _) hadd) this))
  have hbitsNat : report.correctBits.toNat =
      ∑ k ∈ ids, correctBitsOf m k (firstArrival msgs k) :=
    (congrArg UInt64.toNat hbits).trans (toNat_credit hfit hcard hle)
  have hcorr' : report.corrupted =
      (ids.filter fun k => firstArrival msgs k ≠ payload m k).card := hcorr
  have hcorrCard : report.corrupted ≤ ids.card := hcorr' ▸ Finset.card_filter_le _ _
  have hlost' : ids.card + report.lost = n := hlost
  rw [← hcorr', ← hbytesNat] at hfull hadd
  rw [← hcorr', ← hbitsNat] at hfull'
  rw [← hbitsNat] at hle
  have hpos : 0 < m := lt_of_lt_of_le (by decide) hm
  refine ⟨hsent, hrecv, hsplit, hlost.trans hsent.symm, hbytesNat, ?_, htrunc, hcorr, ?_, hcorrCard,
    ?_, hle, hadd, hfull, hfull', ?_, ?_⟩
  · exact hbitsNat.trans (Finset.sum_congr rfl fun k hk => correctBitsOf_eq hm (hfa k hk))
  · exact le_of_eq_of_le htrunc (hshort.trans hcorr'.ge)
  · rw [hbytesNat, hbitsNat]
    exact hmul
  · rw [hsent]
    exact full_marks_iff hpos hlost' (by omega) hfull
  · rw [hsent]
    exact full_marks_iff (by omega) hlost' hle hfull'

/-- Two copies of message 0, the second one byte short of its slot, and message 1
missing. -/
theorem receive_balance_lost_one :
    headerLen ≤ 9 ∧ 1 ≤ 2 ∧ 8 * 2 * 9 < 2 ^ 64 ∧
    (receive 9 2 [[payload 9 0], [(payload 9 0).take 8]]).sent = 2 :=
  ⟨by decide, by decide, by decide,
    (receive_balance (m := 9) (n := 2) (by decide) (by decide) (by decide)
      [[payload 9 0], [(payload 9 0).take 8]] (by decide)).1⟩

end Accuracy
end RdmaBench
