import RdmaBench.Accuracy.Check
import RdmaBench.Arrivals.Ledger

/-!
# The checker keeps a ledger of first arrivals

Ten counters and a bitmap are what the source carries through its loop.  What
they are *for* is a ledger: the first message of each number of the run, how
many later ones there were, how many messages carried no number at all.
`Tallies` is the relation between the two --- `seen` marks the keys of the
ledger, two counters are its repeats and strays, and the four judgement counters
are added up along its first arrivals, the last two of them in `u64`.

`tallies_check` is the one step, by the three outcomes of `check`;
`tallies_checkAll` is the fold.  The report fields that `check` does not touch
are `frame_check`.
-/

namespace RdmaBench
namespace Accuracy

open Memory Arrivals

/-- The bytes of `msg` that equal the payload of `k`. -/
def correctBytesOf (m k : ℕ) (msg : List UInt8) : ℕ := matching msg (payload m k)

/-- The bits of `msg` that equal the payload of `k`. -/
def correctBitsOf (m k : ℕ) (msg : List UInt8) : ℕ := agreeing msg (payload m k)

section Credit

variable {m k : ℕ} {msg : List UInt8}

theorem correctBytesOf_le (h : msg.length ≤ m) : correctBytesOf m k msg ≤ m :=
  le_trans (matching_le_left _ _) h

/-- Full credit in bytes is credit for the payload itself. -/
theorem correctBytesOf_eq_iff (hm : headerLen ≤ m) (h : msg.length ≤ m) :
    correctBytesOf m k msg = m ↔ msg = payload m k := by
  have hpay : (payload m k).length = m := length_payload hm k
  rw [correctBytesOf]
  nth_rewrite 2 [← hpay]
  exact matching_eq_length_iff (by rwa [hpay])

/-- The bits of a message, less those in which it differs. -/
theorem correctBitsOf_eq (hm : headerLen ≤ m) (h : msg.length ≤ m) :
    correctBitsOf m k msg = 8 * msg.length - hamming msg (payload m k) := by
  have hsum := agreeing_add_hamming msg (payload m k)
  rw [List.length_zip, length_payload hm, Nat.min_eq_left h] at hsum
  rw [correctBitsOf]
  omega

theorem correctBitsOf_le (hm : headerLen ≤ m) (h : msg.length ≤ m) :
    correctBitsOf m k msg ≤ 8 * m := by
  rw [correctBitsOf_eq hm h]
  omega

/-- Full credit in bits is credit for the payload itself. -/
theorem correctBitsOf_eq_iff (hm : headerLen ≤ m) (h : msg.length ≤ m) :
    correctBitsOf m k msg = 8 * m ↔ msg = payload m k := by
  have hpay : (payload m k).length = m := length_payload hm k
  rw [correctBitsOf]
  nth_rewrite 2 [← hpay]
  exact agreeing_eq_length_iff (by rwa [hpay])

theorem correctBytesOf_le_correctBitsOf : 8 * correctBytesOf m k msg ≤ correctBitsOf m k msg :=
  matching_le_agreeing _ _

end Credit

/-- The checker `c` holds what the ledger `L` of a run of `n` messages of `m`
bytes says. -/
structure Tallies (m n : ℕ) (c : Checker) (L : Ledger ℕ (List UInt8)) : Prop where
  expected : c.expected.length = m
  length_seen : c.seen.length = n
  keys_lt : ∀ k ∈ L.keys, k < n
  seen : ∀ k, c.seen.getD k false = decide (k ∈ L.keys)
  duplicated : c.report.duplicated = L.repeats
  unidentifiable : c.report.unidentifiable = L.strays
  truncated : c.report.truncated = L.firsts.countP fun p => decide (p.2.length < m)
  corrupted : c.report.corrupted = L.firsts.countP fun p => decide (p.2 ≠ payload m p.1)
  correctBytes : c.report.correctBytes =
    UInt64.ofNat (L.firsts.map fun p => correctBytesOf m p.1 p.2).sum
  correctBits : c.report.correctBits =
    UInt64.ofNat (L.firsts.map fun p => correctBitsOf m p.1 p.2).sum

variable {m n : ℕ} {c : Checker} {L : Ledger ℕ (List UInt8)} {got : List UInt8}

/-- An empty report goes with an empty ledger. -/
theorem tallies_fresh (m n : ℕ) : Tallies m n (Checker.fresh m n) ⟨[], 0, 0⟩ where
  expected := List.length_replicate
  length_seen := List.length_replicate
  keys_lt := fun _ hk => absurd hk (by simp [Ledger.keys])
  seen := fun k => by
    rw [Checker.fresh, List.getD_eq_getElem?_getD, List.getElem?_replicate]
    split <;> simp [Ledger.keys]
  duplicated := rfl
  unidentifiable := rfl
  truncated := rfl
  corrupted := rfl
  correctBytes := rfl
  correctBits := rfl

/-- Marking one more number. -/
theorem getD_set (l : List Bool) {k : ℕ} (hk : k < l.length) (j : ℕ) :
    (l.set k true).getD j false = (decide (j = k) || l.getD j false) := by
  rw [List.getD_eq_getElem?_getD, List.getElem?_set, List.getD_eq_getElem?_getD]
  by_cases h : k = j
  · subst h
    rw [if_pos rfl, if_pos hk]
    simp
  · rw [if_neg h, decide_eq_false (Ne.symm h), Bool.false_or]

/-- **One message.**  A stray, a duplicate and a first arrival each move the
report the way they move the ledger. -/
theorem tallies_check (h : Tallies m n c L) (hm : headerLen ≤ m) (hsize : m < 2 ^ 64)
    (hgot : got.length ≤ m) : Tallies m n (check got m c) (enter (identify n) L got) := by
  cases hid : identify n got with
  | none =>
    rw [check_stray (by rw [h.length_seen]; exact hid), enter_stray hid]
    exact { h with unidentifiable := congrArg (· + 1) h.unidentifiable }
  | some k =>
    have hid' : identify c.seen.length got = some k := by rw [h.length_seen]; exact hid
    have hk : k < n := (identify_eq_some_iff.mp hid).2
    by_cases hmem : k ∈ L.keys
    · rw [check_duplicate hid' (by rw [h.seen, decide_eq_true hmem]), enter_repeat hid hmem]
      exact { h with duplicated := congrArg (· + 1) h.duplicated }
    · rw [check_first hid' (by rw [h.seen, decide_eq_false hmem]), enter_first hid hmem]
      have hrep := judge_report (n := k) h.expected hsize hgot hm
      have hkeys : Ledger.keys { L with firsts := L.firsts ++ [(k, got)] } = L.keys ++ [k] := by
        rw [Ledger.keys, List.map_append]
        rfl
      exact {
        expected := (length_fillPayload (by rwa [h.expected]) _).trans h.expected
        length_seen := List.length_set.trans h.length_seen
        keys_lt := fun j hj => by
          rw [hkeys, List.mem_append, List.mem_singleton] at hj
          rcases hj with hj | rfl
          · exact h.keys_lt j hj
          · exact hk
        seen := fun j => by
          rw [Checker.judge]
          dsimp only
          rw [getD_set _ (by rwa [h.length_seen]), h.seen, hkeys]
          simp [or_comm]
        duplicated := by rw [hrep]; exact h.duplicated
        unidentifiable := by rw [hrep]; exact h.unidentifiable
        truncated := by
          rw [hrep, List.countP_append, List.countP_singleton, ← h.truncated]
          simp
        corrupted := by
          rw [hrep, List.countP_append, List.countP_singleton, ← h.corrupted]
          simp
        correctBytes := by
          rw [hrep, List.map_append, List.sum_append, UInt64.ofNat_add, ← h.correctBytes]
          simp [correctBytesOf]
        correctBits := by
          rw [hrep, List.map_append, List.sum_append, UInt64.ofNat_add, ← h.correctBits]
          simp [correctBitsOf] }

/-- **Any list of messages.** -/
theorem tallies_checkAll (hm : headerLen ≤ m) (hsize : m < 2 ^ 64) (msgs : List (List UInt8))
    (hmsgs : ∀ msg ∈ msgs, msg.length ≤ m) :
    Tallies m n (checkAll m (Checker.fresh m n) msgs) (ledger (identify n) msgs) := by
  induction msgs using List.reverseRecOn with
  | nil => exact tallies_fresh m n
  | append_singleton msgs msg ih =>
    rw [checkAll, List.foldl_append, ledger_snoc]
    refine tallies_check (ih fun x hx => hmsgs x (List.mem_append_left _ hx)) hm hsize ?_
    exact hmsgs msg (List.mem_append_right _ (List.mem_singleton_self msg))

/-! ## The rest of the report -/

/-- `check` does not touch the four fields the loop itself keeps. -/
theorem frame_check (got : List UInt8) (m : ℕ) (c : Checker) :
    (check got m c).report.msgSize = c.report.msgSize ∧
      (check got m c).report.sent = c.report.sent ∧
      (check got m c).report.received = c.report.received ∧
      (check got m c).report.lost = c.report.lost := by
  rw [check_eq]
  split
  · exact ⟨rfl, rfl, rfl, rfl⟩
  · split
    · exact ⟨rfl, rfl, rfl, rfl⟩
    · exact ⟨rfl, rfl, rfl, rfl⟩

/-- **The unmarked numbers** are those of the run that the ledger does not
hold. -/
theorem Tallies.countP_not_seen (h : Tallies m n c L) (hnodup : L.keys.Nodup) :
    (c.seen.countP fun s => !s) + L.firsts.length = n := by
  have hseen : c.seen = (List.range n).map fun k => decide (k ∈ L.keys) := by
    refine List.ext_getElem (by rw [h.length_seen, List.length_map, List.length_range]) ?_
    intro i h₁ h₂
    rw [List.getElem_map, List.getElem_range, ← h.seen i, List.getD_eq_getElem?_getD,
      List.getElem?_eq_getElem h₁, Option.getD_some]
  have hcount := countP_mem_range hnodup h.keys_lt
  have hsplit := List.length_eq_countP_add_countP (fun k => decide (k ∈ L.keys))
    (l := List.range n)
  have hneg : (c.seen.countP fun s => !s) =
      (List.range n).countP fun k => decide ¬decide (k ∈ L.keys) = true := by
    rw [hseen, List.countP_map]
    exact List.countP_congr fun k _ => by simp
  rw [List.length_range, hcount, Ledger.keys, List.length_map] at hsplit
  rw [hneg, Ledger.keys]
  omega

end Accuracy
end RdmaBench
