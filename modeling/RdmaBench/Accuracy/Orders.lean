import RdmaBench.Accuracy.Receive
import RdmaBench.Arrivals.Exchange

/-!
# The order of arrival

Which copy of a duplicate is judged and which is only counted depends on which
comes first, and so do the scratch message and every intermediate report.  The
question is what of all this is left when everything has arrived.

## What changes places with what

A message that is only counted (`Counted`: it carries no number of the run, or
one that was seen) moves one counter and nothing that anyone reads, so it
changes places with any other (`check_comm_of_counted`).  What is left is two
first arrivals.  With different numbers they mark different cells and add to the
same counters (`check_comm_of_ne`).  With one number, either of them is judged
and the other is counted as a duplicate; the judgements differ, unless the two
are one message (`arrivals_check_comm`).

So there are two relations to look through, `SameArrivals` --- who has arrived,
how many duplicates and strays --- for any two orders, and `SameReport` ---
everything but the scratch message --- for orders of messages that never
disagree under one number.
-/

namespace RdmaBench
namespace Accuracy

open Memory Arrivals

/-- The report when the loop is over: the numbers not seen are lost. -/
def Checker.final (c : Checker) : AccuracyReport :=
  { c.report with lost := c.seen.countP fun s => !s }

/-- Two checkers that agree on who has arrived. -/
structure SameArrivals (c d : Checker) : Prop where
  seen : c.seen = d.seen
  duplicated : c.report.duplicated = d.report.duplicated
  unidentifiable : c.report.unidentifiable = d.report.unidentifiable

/-- Two checkers that agree on everything but what is in the scratch message. -/
structure SameReport (m n : ℕ) (c d : Checker) : Prop where
  left : c.expected.length = m
  right : d.expected.length = m
  length_seen : c.seen.length = n
  seen : c.seen = d.seen
  report : c.report = d.report

/-- The message will only be counted: it carries no number of the run, or one
that was seen. -/
def Counted (c : Checker) (got : List UInt8) : Prop :=
  ∀ k, identify c.seen.length got = some k → c.seen.getD k false = true

variable {m n : ℕ} {c d : Checker} {x y : List UInt8}

theorem SameArrivals.symm (h : SameArrivals c d) : SameArrivals d c :=
  ⟨h.seen.symm, h.duplicated.symm, h.unidentifiable.symm⟩

theorem SameArrivals.trans {e : Checker} (h : SameArrivals c d) (h' : SameArrivals d e) :
    SameArrivals c e :=
  ⟨h.seen.trans h'.seen, h.duplicated.trans h'.duplicated,
    h.unidentifiable.trans h'.unidentifiable⟩

theorem SameReport.symm (h : SameReport m n c d) : SameReport m n d c :=
  ⟨h.right, h.left, h.seen ▸ h.length_seen, h.seen.symm, h.report.symm⟩

theorem SameReport.trans {e : Checker} (h : SameReport m n c d) (h' : SameReport m n d e) :
    SameReport m n c e :=
  ⟨h.left, h'.right, h.length_seen, h.seen.trans h'.seen, h.report.trans h'.report⟩

/-- A message that is not only counted is the first of its number. -/
theorem exists_first_of_not_counted (h : ¬Counted c x) :
    ∃ k, identify c.seen.length x = some k ∧ c.seen.getD k false = false := by
  by_contra hnone
  push Not at hnone
  refine h fun k hk => ?_
  have hseen := hnone k hk
  rwa [ne_eq, Bool.not_eq_false] at hseen

/-! ## `check` respects both relations -/

theorem sameArrivals_check (h : SameArrivals c d) (x : List UInt8) :
    SameArrivals (check x m c) (check x m d) := by
  rw [check_eq, check_eq, h.seen]
  cases identify d.seen.length x with
  | none => exact ⟨h.seen, h.duplicated, congrArg (· + 1) h.unidentifiable⟩
  | some k =>
    dsimp only
    by_cases hk : d.seen.getD k false = true
    · rw [if_pos hk, if_pos hk]
      exact ⟨h.seen, congrArg (· + 1) h.duplicated, h.unidentifiable⟩
    · rw [if_neg hk, if_neg hk]
      exact ⟨congrArg (List.set · k true) h.seen, h.duplicated, h.unidentifiable⟩

theorem sameReport_check (hm : headerLen ≤ m) (h : SameReport m n c d) (x : List UInt8) :
    SameReport m n (check x m c) (check x m d) := by
  refine ⟨length_expected_check h.left hm, length_expected_check h.right hm, ?_, ?_, ?_⟩
  · rw [length_seen_check, h.length_seen]
  · exact (sameArrivals_check ⟨h.seen, congrArg _ h.report, congrArg _ h.report⟩ x).seen
  · rw [check_eq, check_eq, h.seen]
    cases identify d.seen.length x with
    | none => exact congrArg (fun r => { r with unidentifiable := r.unidentifiable + 1 }) h.report
    | some k =>
      dsimp only
      by_cases hk : d.seen.getD k false = true
      · rw [if_pos hk, if_pos hk]
        exact congrArg (fun r => { r with duplicated := r.duplicated + 1 }) h.report
      · rw [if_neg hk, if_neg hk]
        rw [judge_report_eq_credit h.left, judge_report_eq_credit h.right, h.report]

/-! ## A message that is only counted -/

/-- A number that was seen stays seen. -/
theorem getD_seen_check {k : ℕ} (h : c.seen.getD k false = true) (y : List UInt8) :
    (check y m c).seen.getD k false = true := by
  rw [check_eq]
  split
  · exact h
  · split
    · exact h
    · rename_i j _ hj
      have hne : j ≠ k := by
        rintro rfl
        exact hj h
      rw [Checker.judge]
      dsimp only
      rw [List.getD_eq_getElem?_getD, List.getElem?_set_ne hne, ← List.getD_eq_getElem?_getD]
      exact h

/-- **A message that is only counted changes places with any other.** -/
theorem check_comm_of_counted (h : Counted c x) :
    check y m (check x m c) = check x m (check y m c) := by
  cases hid : identify c.seen.length x with
  | none =>
    have hid' : identify (check y m c).seen.length x = none := by rwa [length_seen_check]
    rw [check_stray hid, check_addUnidentifiable, check_stray hid']
  | some k =>
    have hid' : identify (check y m c).seen.length x = some k := by rwa [length_seen_check]
    have hk := h k hid
    rw [check_duplicate hid hk, check_addDuplicated, check_duplicate hid' (getD_seen_check hk y)]

/-! ## Two first arrivals -/

theorem credit_comm (m : ℕ) (x y : List UInt8) (j k : ℕ) (r : AccuracyReport) :
    credit m y k (credit m x j r) = credit m x j (credit m y k r) := by
  simp only [credit, Nat.add_right_comm, UInt64.add_assoc, UInt64.add_comm (compareBytes y _).1,
    UInt64.add_comm (compareBytes y _).2]

/-- Two first arrivals of different numbers are both judged. -/
theorem check_check_of_ne {j k : ℕ} (hx : identify c.seen.length x = some j)
    (hj : c.seen.getD j false = false) (hy : identify c.seen.length y = some k)
    (hk : c.seen.getD k false = false) (hjk : j ≠ k) :
    check y m (check x m c) =
      (c.judge x m (UInt64.ofNat j) j).judge y m (UInt64.ofNat k) k := by
  have hy' : identify (check x m c).seen.length y = some k := by rwa [length_seen_check]
  have hk' : (check x m c).seen.getD k false = false := by
    rwa [check_first hx hj, getD_seen_judge hjk]
  rw [check_first hy' hk', check_first hx hj]

/-- **First arrivals of different numbers change places** in the report. -/
theorem check_check_report_comm (hm : headerLen ≤ m) (hc : c.expected.length = m) {j k : ℕ}
    (hx : identify c.seen.length x = some j) (hj : c.seen.getD j false = false)
    (hy : identify c.seen.length y = some k) (hk : c.seen.getD k false = false) (hjk : j ≠ k) :
    (check y m (check x m c)).report = (check x m (check y m c)).report := by
  have hscratch (z : List UInt8) (i : ℕ) :
      (c.judge z m (UInt64.ofNat i) i).expected.length = m :=
    (length_fillPayload (by rwa [hc]) _).trans hc
  rw [check_check_of_ne hx hj hy hk hjk, check_check_of_ne hy hk hx hj hjk.symm,
    judge_report_eq_credit (hscratch x j), judge_report_eq_credit hc,
    judge_report_eq_credit (hscratch y k), judge_report_eq_credit hc, credit_comm]

/-- **Of two first arrivals of one number, one is judged and one is a
duplicate.** -/
theorem check_check_of_eq {k : ℕ} (hx : identify c.seen.length x = some k)
    (hk : c.seen.getD k false = false) (hy : identify c.seen.length y = some k) :
    check y m (check x m c) = (c.judge x m (UInt64.ofNat k) k).addDuplicated := by
  have hlt : k < c.seen.length := (identify_eq_some_iff.mp hx).2
  have hy' : identify (check x m c).seen.length y = some k := by rwa [length_seen_check]
  have hk' : (check x m c).seen.getD k false = true := by
    rw [check_first hx hk, getD_seen_judge_self hlt]
  rw [check_duplicate hy' hk', check_first hx hk]

/-! ## Any two neighbours -/

/-- **Any two messages change places**, as far as who has arrived is
concerned. -/
theorem sameArrivals_swap (x y : List UInt8) (c : Checker) :
    SameArrivals (check y m (check x m c)) (check x m (check y m c)) := by
  by_cases hx : Counted c x
  · rw [check_comm_of_counted hx]
    exact ⟨rfl, rfl, rfl⟩
  · by_cases hy : Counted c y
    · rw [check_comm_of_counted hy]
      exact ⟨rfl, rfl, rfl⟩
    · obtain ⟨j, hxj, hj⟩ := exists_first_of_not_counted hx
      obtain ⟨k, hyk, hk⟩ := exists_first_of_not_counted hy
      by_cases hjk : j = k
      · subst hjk
        rw [check_check_of_eq hxj hj hyk, check_check_of_eq hyk hk hxj]
        exact ⟨rfl, rfl, rfl⟩
      · rw [check_check_of_ne hxj hj hyk hk hjk, check_check_of_ne hyk hk hxj hj (Ne.symm hjk)]
        exact ⟨List.set_comm true true hjk, rfl, rfl⟩

/-- **Messages that do not disagree under one number change places**, up to the
scratch message. -/
theorem sameReport_swap (hm : headerLen ≤ m) (hc : SameReport m n c c)
    (hxy : ∀ k < n, headerSeq x = some k → headerSeq y = some k → x = y) :
    SameReport m n (check y m (check x m c)) (check x m (check y m c)) := by
  have hlen (z w : List UInt8) : (check z m (check w m c)).expected.length = m :=
    length_expected_check (length_expected_check hc.left hm) hm
  refine ⟨hlen y x, hlen x y, ?_, (sameArrivals_swap x y c).seen, ?_⟩
  · rw [length_seen_check, length_seen_check, hc.length_seen]
  · by_cases hx : Counted c x
    · rw [check_comm_of_counted hx]
    · by_cases hy : Counted c y
      · rw [check_comm_of_counted hy]
      · obtain ⟨j, hxj, hj⟩ := exists_first_of_not_counted hx
        obtain ⟨k, hyk, hk⟩ := exists_first_of_not_counted hy
        by_cases hjk : j = k
        · subst hjk
          rw [hc.length_seen, identify_eq_some_iff] at hxj hyk
          rw [hxy j hxj.2 hxj.1 hyk.1]
        · exact check_check_report_comm hm hc.left hxj hj hyk hk hjk

/-! ## Whole lists -/

theorem sameReport_fresh (m n : ℕ) :
    SameReport m n (Checker.fresh m n) (Checker.fresh m n) :=
  ⟨List.length_replicate, List.length_replicate, List.length_replicate, rfl, rfl⟩

variable {xs ys : List (List UInt8)}

/-- The same arrivals in any order. -/
theorem sameArrivals_checkAll (hperm : xs.Perm ys) :
    SameArrivals (checkAll m c xs) (checkAll m c ys) :=
  foldl_perm (r := SameArrivals) (fun _ _ h => h.symm) (fun _ _ _ h h' => h.trans h')
    (fun _ _ x h => sameArrivals_check h x) hperm (fun x _ y _ s _ => sameArrivals_swap x y s)
    ⟨rfl, rfl, rfl⟩

/-- The same report in any order of messages that do not disagree. -/
theorem sameReport_checkAll (hm : headerLen ≤ m) (hc : SameReport m n c c)
    (hperm : xs.Perm ys)
    (hxs : ∀ x ∈ xs, ∀ y ∈ xs, ∀ k < n, headerSeq x = some k → headerSeq y = some k → x = y) :
    SameReport m n (checkAll m c xs) (checkAll m c ys) :=
  foldl_perm (r := SameReport m n) (fun _ _ h => h.symm) (fun _ _ _ h h' => h.trans h')
    (fun _ _ x h => sameReport_check hm h x) hperm
    (fun x hx y hy _ hs => sameReport_swap hm hs (hxs x hx y hy)) hc

/-- **Two orders of the same messages** leave the same numbers seen and the same
duplicates and strays, hence the same losses; and the same report, when no two
of the messages disagree under one number of the run. -/
theorem order_of_arrival (hm : headerLen ≤ m) (hperm : xs.Perm ys) :
    let c := checkAll m (Checker.fresh m n) xs
    let d := checkAll m (Checker.fresh m n) ys
    (c.seen = d.seen ∧ c.final.duplicated = d.final.duplicated ∧
      c.final.unidentifiable = d.final.unidentifiable ∧ c.final.lost = d.final.lost) ∧
    ((∀ x ∈ xs, ∀ y ∈ xs, ∀ k < n, headerSeq x = some k → headerSeq y = some k → x = y) →
      c.final = d.final) := by
  intro c d
  have harr : SameArrivals c d := sameArrivals_checkAll hperm
  refine ⟨⟨harr.seen, harr.duplicated, harr.unidentifiable, ?_⟩, fun hxs => ?_⟩
  · exact congrArg (List.countP _) harr.seen
  · have hrep : SameReport m n c d := sameReport_checkAll hm (sameReport_fresh m n) hperm hxs
    rw [Checker.final, Checker.final, hrep.report, hrep.seen]

/-- Two messages and a copy of the first, with the copy before or after the
second. -/
theorem order_of_arrival_copy :
    (checkAll 9 (Checker.fresh 9 3) [payload 9 0, payload 9 1, payload 9 0]).final =
      (checkAll 9 (Checker.fresh 9 3) [payload 9 0, payload 9 0, payload 9 1]).final :=
  (order_of_arrival (by decide) (.cons _ (.swap _ _ _))).2 (by decide)

/-- **The report the receiver sends back** does not depend on the batches nor on
the order in them, as long as the same messages are polled and no two of them
disagree under one number. -/
theorem receive_eq_of_perm (hm : headerLen ≤ m) {polls polls' : List (List (List UInt8))}
    (hperm : ((polled n polls).flatten.map (List.take m)).Perm
      ((polled n polls').flatten.map (List.take m)))
    (hxs : ∀ x ∈ (polled n polls).flatten.map (List.take m),
      ∀ y ∈ (polled n polls).flatten.map (List.take m),
      ∀ k < n, headerSeq x = some k → headerSeq y = some k → x = y) :
    receive m n polls = receive m n polls' := by
  have hrep := sameReport_checkAll hm (sameReport_fresh m n) hperm hxs
  have hlen : (polled n polls).flatten.length = (polled n polls').flatten.length := by
    have h := hperm.length_eq
    rwa [List.length_map, List.length_map] at h
  rw [receive_eq, receive_eq, hrep.report, hrep.seen, hlen]

end Accuracy
end RdmaBench
