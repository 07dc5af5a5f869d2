import RdmaBench.Accuracy.Payload

/-!
# Judging one message

`check` attributes a received message to a sequence number and folds it into the
report.  Its three `&mut` arguments --- the scratch message, the `seen` bitmap
and the report --- travel together as a `Checker`, and `check` is its step, with
the source's exits in the source's order: too short for a header, a number that
is no `usize`, a number outside the run, a number already seen, and otherwise a
judged first arrival.

## The five exits are three

For the arithmetic of the report it only matters whether the message identifies
a number of this run, and whether that number was seen.  `identify` is the first
question as a function of the message; `check_stray`, `check_duplicate` and
`check_first` are the three resulting equations, and nothing after this file
opens `check` again.
-/

namespace RdmaBench
namespace Accuracy

open Memory

/-- The three pieces of state `check` is handed by reference. -/
structure Checker where
  /-- Scratch space, one message long. -/
  expected : List UInt8
  seen : List Bool
  report : AccuracyReport
  deriving DecidableEq

/-- `usize::try_from` of a `u64`. -/
def usizeTryFrom (v : UInt64) : Option ℕ :=
  if v.toNat < usizeSize then some v.toNat else none

/-- The body of the loop over `got.iter().zip(expected.iter())`, on the two `u64`
counters `correct_bytes` and `correct_bits`. -/
def compareByte (correct : UInt64 × UInt64) (p : UInt8 × UInt8) : UInt64 × UInt64 :=
  let diff := p.1 ^^^ p.2
  (if diff = 0 then correct.1 + 1 else correct.1,
    correct.2 + UInt64.ofNat (8 - countOnes diff))

/-- The loop itself. -/
def compareBytes (got expected : List UInt8) : UInt64 × UInt64 :=
  (got.zip expected).foldl compareByte (0, 0)

/-- The report with one more message that could not be attributed. -/
def Checker.addUnidentifiable (c : Checker) : Checker :=
  { c with report := { c.report with unidentifiable := c.report.unidentifiable + 1 } }

/-- The report with `k` more messages received. -/
def Checker.addReceived (k : ℕ) (c : Checker) : Checker :=
  { c with report := { c.report with received := c.report.received + k } }

/-- The report with one more message whose number had been seen. -/
def Checker.addDuplicated (c : Checker) : Checker :=
  { c with report := { c.report with duplicated := c.report.duplicated + 1 } }

/-- What `check` does with the first message of a number: marks it, and compares
what arrived with what the number should have held. -/
def Checker.judge (c : Checker) (got : List UInt8) (msgSize : ℕ) (seq : UInt64) (seqIdx : ℕ) :
    Checker :=
  let expected := fillPayload c.expected seq
  let correct := compareBytes got expected
  { expected := expected
    seen := c.seen.set seqIdx true
    report :=
      { c.report with
        truncated := if got.length < msgSize then c.report.truncated + 1 else c.report.truncated
        corrupted :=
          if correct.1.toNat ≠ msgSize then c.report.corrupted + 1 else c.report.corrupted
        correctBytes := c.report.correctBytes + correct.1
        correctBits := c.report.correctBits + correct.2 } }

/-- Attributes one received message to a sequence number and folds it into the
report.  `got` is the prefix that actually arrived. -/
def check (got : List UInt8) (msgSize : ℕ) (c : Checker) : Checker :=
  if got.length < headerLen then c.addUnidentifiable
  else
    let seq := fromLeBytes (got.take headerLen)
    match usizeTryFrom seq with
    | none => c.addUnidentifiable
    | some seqIdx =>
      if c.seen.length ≤ seqIdx then c.addUnidentifiable
      else if c.seen.getD seqIdx false then c.addDuplicated
      else c.judge got msgSize seq seqIdx

/-- The checker the receiver starts with: scratch space for one message, nothing
seen, an empty report. -/
def Checker.fresh (msgSize iterations : ℕ) : Checker :=
  { expected := List.replicate msgSize 0
    seen := List.replicate iterations false
    report := { msgSize := msgSize, sent := iterations } }

/-- A list of messages folded through `check`. -/
def checkAll (msgSize : ℕ) (c : Checker) (msgs : List (List UInt8)) : Checker :=
  msgs.foldl (fun c got => check got msgSize c) c

/-! ## What identifies a message -/

/-- The number of this run that a message carries in its header, if any. -/
def identify (iterations : ℕ) (msg : List UInt8) : Option ℕ :=
  (headerSeq msg).filter fun n => decide (n < iterations)

theorem identify_eq_some_iff {iterations n : ℕ} {msg : List UInt8} :
    identify iterations msg = some n ↔ headerSeq msg = some n ∧ n < iterations := by
  rw [identify, Option.filter_eq_some_iff, decide_eq_true_eq]

theorem identify_payload {m iterations n : ℕ} (hm : headerLen ≤ m) (hn : n < iterations)
    (hlt : n < 2 ^ 64) : identify iterations (payload m n) = some n :=
  identify_eq_some_iff.mpr ⟨headerSeq_payload hm hlt, hn⟩

/-! ## The comparison loop -/

theorem foldl_compareByte (l : List (UInt8 × UInt8)) (x y : ℕ) :
    l.foldl compareByte (UInt64.ofNat x, UInt64.ofNat y) =
      (UInt64.ofNat (x + l.countP fun p => p.1 == p.2),
        UInt64.ofNat (y + (l.map fun p => 8 - countOnes (p.1 ^^^ p.2)).sum)) := by
  induction l generalizing x y with
  | nil => rfl
  | cons p l ih =>
    have hstep : compareByte (UInt64.ofNat x, UInt64.ofNat y) p =
        (UInt64.ofNat (x + if p.1 == p.2 then 1 else 0),
          UInt64.ofNat (y + (8 - countOnes (p.1 ^^^ p.2)))) := by
      rw [compareByte, UInt64.ofNat_add y]
      by_cases hp : p.1 = p.2
      · rw [if_pos (UInt8.xor_eq_zero_iff.mpr hp), if_pos (beq_iff_eq.mpr hp), UInt64.ofNat_add]
        rfl
      · rw [if_neg (mt UInt8.xor_eq_zero_iff.mp hp), if_neg (by simpa using hp), Nat.add_zero]
    rw [List.foldl_cons, hstep, ih, List.countP_cons, List.map_cons, List.sum_cons,
      Nat.add_assoc, Nat.add_assoc, Nat.add_comm (List.countP _ l)]

/-- **What the comparison loop counts**: the agreeing bytes and the agreeing
bits, in `u64`. -/
theorem compareBytes_eq (got expected : List UInt8) :
    compareBytes got expected =
      (UInt64.ofNat (matching got expected), UInt64.ofNat (agreeing got expected)) := by
  have h := foldl_compareByte (got.zip expected) 0 0
  rw [Nat.zero_add, Nat.zero_add] at h
  exact h

/-! ## The three outcomes -/

variable {msgSize n : ℕ} {c : Checker} {got : List UInt8}

/-- The exits of `check`, in terms of what identifies the message. -/
theorem check_eq (got : List UInt8) (msgSize : ℕ) (c : Checker) :
    check got msgSize c =
      match identify c.seen.length got with
      | none => c.addUnidentifiable
      | some n =>
        if c.seen.getD n false then c.addDuplicated
        else c.judge got msgSize (UInt64.ofNat n) n := by
  by_cases hlen : got.length < headerLen
  · rw [check, if_pos hlen, identify, headerSeq, if_pos hlen]
    rfl
  · have hlt : leValue (got.take headerLen) < 2 ^ 64 :=
      headerSeq_lt (headerSeq_of_le (Nat.not_lt.mp hlen))
    have hseq : (fromLeBytes (got.take headerLen)).toNat = leValue (got.take headerLen) := by
      rw [fromLeBytes, UInt64.toNat_ofNat', Nat.mod_eq_of_lt hlt]
    have htry : usizeTryFrom (fromLeBytes (got.take headerLen)) =
        some (leValue (got.take headerLen)) := by
      rw [usizeTryFrom, hseq]
      exact if_pos hlt
    rw [check, if_neg hlen]
    dsimp only
    rw [htry, identify, headerSeq_of_le (Nat.not_lt.mp hlen), Option.filter_some]
    by_cases hn : leValue (got.take headerLen) < c.seen.length
    · rw [if_pos (decide_eq_true hn)]
      dsimp only
      rw [if_neg (Nat.not_le.mpr hn)]
      rfl
    · have hfalse : decide (leValue (got.take headerLen) < c.seen.length) = false :=
        decide_eq_false hn
      rw [hfalse]
      exact if_pos (Nat.not_lt.mp hn)

theorem check_stray (h : identify c.seen.length got = none) :
    check got msgSize c = c.addUnidentifiable := by
  rw [check_eq, h]

theorem check_duplicate (h : identify c.seen.length got = some n)
    (hseen : c.seen.getD n false = true) : check got msgSize c = c.addDuplicated := by
  rw [check_eq, h]
  exact if_pos hseen

theorem check_first (h : identify c.seen.length got = some n)
    (hseen : c.seen.getD n false = false) :
    check got msgSize c = c.judge got msgSize (UInt64.ofNat n) n := by
  rw [check_eq, h]
  dsimp only
  rw [hseen]
  rfl

/-- What a message judged as number `k` adds to the report. -/
def credit (m : ℕ) (x : List UInt8) (k : ℕ) (r : AccuracyReport) : AccuracyReport :=
  let correct := compareBytes x (payload m k)
  { r with
    truncated := r.truncated + if x.length < m then 1 else 0
    corrupted := r.corrupted + if correct.1.toNat ≠ m then 1 else 0
    correctBytes := r.correctBytes + correct.1
    correctBits := r.correctBits + correct.2 }

/-- **The judgement does not depend on what is in the scratch message.** -/
theorem judge_report_eq_credit (hc : c.expected.length = msgSize) (x : List UInt8) (k : ℕ) :
    (c.judge x msgSize (UInt64.ofNat k) k).report = credit msgSize x k c.report := by
  rw [Checker.judge, credit]
  dsimp only
  rw [fillPayload_eq_payload hc]
  congr 1
  · split <;> rfl
  · split <;> rfl

/-- The same in numbers, for a message that fits. -/
theorem judge_report (hexp : c.expected.length = msgSize) (hsize : msgSize < 2 ^ 64)
    (hgot : got.length ≤ msgSize) (hm : headerLen ≤ msgSize) :
    (c.judge got msgSize (UInt64.ofNat n) n).report =
      { c.report with
        truncated := c.report.truncated + if got.length < msgSize then 1 else 0
        corrupted := c.report.corrupted + if got ≠ payload msgSize n then 1 else 0
        correctBytes := c.report.correctBytes + UInt64.ofNat (matching got (payload msgSize n))
        correctBits :=
          c.report.correctBits + UInt64.ofNat (agreeing got (payload msgSize n)) } := by
  have hlen : (payload msgSize n).length = msgSize := length_payload hm n
  have hmatch : (UInt64.ofNat (matching got (payload msgSize n))).toNat ≠ msgSize ↔
      got ≠ payload msgSize n := by
    have hle : matching got (payload msgSize n) ≤ msgSize :=
      le_trans (matching_le_left _ _) hgot
    rw [UInt64.toNat_ofNat', Nat.mod_eq_of_lt (by omega), not_iff_not]
    nth_rewrite 2 [← hlen]
    exact matching_eq_length_iff (by rwa [hlen])
  rw [judge_report_eq_credit hexp, credit, compareBytes_eq]
  dsimp only
  rw [if_congr hmatch rfl rfl]

/-! ## What `check` leaves alone -/

/-- A first arrival leaves other numbers as they were. -/
theorem getD_seen_judge {j k : ℕ} (hjk : j ≠ k) :
    (c.judge got msgSize (UInt64.ofNat j) j).seen.getD k false = c.seen.getD k false := by
  rw [Checker.judge]
  dsimp only
  rw [List.getD_eq_getElem?_getD, List.getElem?_set_ne hjk, ← List.getD_eq_getElem?_getD]

/-- It marks its own. -/
theorem getD_seen_judge_self {k : ℕ} (hk : k < c.seen.length) :
    (c.judge got msgSize (UInt64.ofNat k) k).seen.getD k false = true := by
  rw [Checker.judge]
  dsimp only
  rw [List.getD_eq_getElem?_getD, List.getElem?_set_self hk, Option.getD_some]

@[simp] theorem length_seen_check (got : List UInt8) (msgSize : ℕ) (c : Checker) :
    (check got msgSize c).seen.length = c.seen.length := by
  rw [check_eq]
  split
  · rfl
  · split
    · rfl
    · exact List.length_set

theorem length_expected_check (hexp : c.expected.length = msgSize) (hm : headerLen ≤ msgSize) :
    (check got msgSize c).expected.length = msgSize := by
  rw [check_eq]
  split
  · exact hexp
  · split
    · exact hexp
    · exact (length_fillPayload (by rwa [hexp]) _).trans hexp

/-- The checker with its report changed. -/
def Checker.onReport (f : AccuracyReport → AccuracyReport) (c : Checker) : Checker :=
  { c with report := f c.report }

/-- **A change of the report that changes places with each of the three outcomes
changes places with `check`.** -/
theorem check_onReport {f : AccuracyReport → AccuracyReport}
    (hstray : ∀ c : Checker, (c.onReport f).addUnidentifiable = c.addUnidentifiable.onReport f)
    (hduplicate : ∀ c : Checker, (c.onReport f).addDuplicated = c.addDuplicated.onReport f)
    (hjudge : ∀ (c : Checker) seq seqIdx, (c.onReport f).judge got msgSize seq seqIdx =
      (c.judge got msgSize seq seqIdx).onReport f) (c : Checker) :
    check got msgSize (c.onReport f) = (check got msgSize c).onReport f := by
  rw [check_eq, check_eq, show (c.onReport f).seen = c.seen from rfl]
  cases identify c.seen.length got with
  | none => exact hstray c
  | some k =>
    dsimp only
    by_cases hk : c.seen.getD k false = true
    · rw [if_pos hk, if_pos hk]
      exact hduplicate c
    · rw [if_neg hk, if_neg hk]
      exact hjudge c _ k

theorem check_addReceived (got : List UInt8) (m k : ℕ) (c : Checker) :
    check got m (c.addReceived k) = (check got m c).addReceived k :=
  check_onReport (f := fun r => { r with received := r.received + k }) (fun _ => rfl)
    (fun _ => rfl) (fun _ _ _ => rfl) c

theorem check_addUnidentifiable (got : List UInt8) (m : ℕ) (c : Checker) :
    check got m c.addUnidentifiable = (check got m c).addUnidentifiable :=
  check_onReport (f := fun r => { r with unidentifiable := r.unidentifiable + 1 }) (fun _ => rfl)
    (fun _ => rfl) (fun _ _ _ => rfl) c

theorem check_addDuplicated (got : List UInt8) (m : ℕ) (c : Checker) :
    check got m c.addDuplicated = (check got m c).addDuplicated :=
  check_onReport (f := fun r => { r with duplicated := r.duplicated + 1 }) (fun _ => rfl)
    (fun _ => rfl) (fun _ _ _ => rfl) c

/-- A list of messages keeps both lengths. -/
theorem lengths_checkAll (hm : headerLen ≤ msgSize) (hexp : c.expected.length = msgSize)
    (hseen : c.seen.length = n) (msgs : List (List UInt8)) :
    (checkAll msgSize c msgs).expected.length = msgSize ∧
      (checkAll msgSize c msgs).seen.length = n := by
  induction msgs generalizing c with
  | nil => exact ⟨hexp, hseen⟩
  | cons x msgs ih =>
    refine ih (c := check x msgSize c) (length_expected_check hexp hm) ?_
    rw [length_seen_check, hseen]

end Accuracy
end RdmaBench
