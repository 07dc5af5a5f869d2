import RdmaBench.Latency.Programs
import Mathlib.Order.Monotone.Basic

/-!
# What `wait_for` returns

`wait_for` as a function of what it is given: the batches its polls return and the
readings of its clock, turn by turn (`Turns`).  `waitLoop` is its loop; it returns
the number of polls made along with the result.  That `waitStep` goes through the
same turns is `Wait.drive_eq`.

It returns as soon as it has a reason to, and what it returns is what it should be
except in one case (`WaitsRight`).  The deadline is tested after the poll, on every
hundredth turn, and the test does not look at what that poll has returned.  When it
returned the last completion waited for, and the clock has reached the deadline, the
wait is over and is reported as timed out (`Missed`, `waited_right_iff`).
-/

namespace RdmaBench
namespace Latency

open Automaton

/-! ## The function -/

/-- What the turns of a wait find: the completions, and the clock if it is read. -/
structure Turns where
  /-- The clock when the deadline is computed. -/
  start : ℕ
  batch : ℕ → List Wc
  now : ℕ → ℕ
  start_le : start ≤ now 0
  now_mono : Monotone now
  ids : ∀ j, ∀ c ∈ batch j, c.wrId = wrSend ∨ c.wrId = wrRecv

/-- What `wait_for` returns. -/
inductive WaitResult where
  | ok (pending : UInt64)
  | timedOut
  /-- The error of a completion. -/
  | error (c : Wc)
  deriving DecidableEq

/-- The loop over one batch. -/
def takeAll (pending : UInt64) : List Wc → UInt64 ⊕ Wc
  | [] => .inl pending
  | c :: wcs => if c.ok then takeAll (pending &&& ~~~UInt64.ofNat c.wrId) wcs else .inr c

/-- Whether turn `j` reads the clock. -/
def checked (j : ℕ) : Prop := UInt64.ofNat j % 100 = 0

instance (j : ℕ) : Decidable (checked j) := inferInstanceAs (Decidable (_ = _))

/-- The body of the loop, in turn `j`. -/
def Turns.turn (t : Turns) (timeout j : ℕ) (pending : UInt64) : UInt64 ⊕ WaitResult :=
  match takeAll pending (t.batch j) with
  | .inr c => .inr (.error c)
  | .inl rest => if checked j ∧ t.start + timeout ≤ t.now j then .inr .timedOut else .inl rest

/-- `while pending != 0`, for `fuel` turns at most. -/
def waitLoop (t : Turns) (timeout : ℕ) : ℕ → ℕ → UInt64 → Option (ℕ × WaitResult)
  | 0, j, pending => if pending = 0 then some (j, .ok pending) else none
  | fuel + 1, j, pending =>
    if pending = 0 then some (j, .ok pending)
    else match t.turn timeout j pending with
      | .inr r => some (j + 1, r)
      | .inl rest => waitLoop t timeout fuel (j + 1) rest

@[simp] theorem waitLoop_zero (t : Turns) (timeout fuel j : ℕ) :
    waitLoop t timeout fuel j 0 = some (j, .ok 0) := by
  cases fuel <;> exact if_pos rfl

/-- `wait_for`, with the number of polls it has made. -/
def waitFor (want : UInt64) (timeout : ℕ) (t : Turns) (fuel : ℕ) : Option (ℕ × WaitResult) :=
  waitLoop t timeout fuel 0 want

/-! ## The automaton goes through the same turns -/

def WaitResult.ending : WaitResult → WaitEnd
  | .ok _ => .ok
  | .timedOut => .timedOut
  | .error _ => .error

theorem absorb_eq (pending : UInt64) (wcs : List Wc) :
    absorb pending wcs = (takeAll pending wcs).getLeft? := by
  induction wcs generalizing pending with
  | nil => rfl
  | cons c wcs ih =>
    rw [absorb, takeAll]
    split
    · exact ih _
    · rfl

/-- The contacts of one turn of the automaton. -/
def Wait.round (t : Turns) (j : ℕ) (w : Wait) : Option (Wait ⊕ WaitEnd) :=
  (waitStep w (.poll (t.batch j))).bind fun
    | .inr e => some (.inr e)
    | .inl v => if v.pc = .check then waitStep v (.clock (t.now j)) else some (.inl v)

/-- The turns of the automaton, `fuel` at most. -/
def Wait.drive (t : Turns) : ℕ → ℕ → Wait → Option WaitEnd
  | 0, _, _ => none
  | fuel + 1, j, w => (Wait.round t j w).bind fun
    | .inr e => some e
    | .inl v => Wait.drive t fuel (j + 1) v

/-- The head of the loop, in turn `j`, with `pending` left. -/
def Wait.atHead (t : Turns) (j : ℕ) (pending : UInt64) : Wait :=
  { pc := .poll, pending := pending, deadline := t.start + idleTimeout, turn := UInt64.ofNat j }

theorem Wait.head_atHead {t : Turns} {j : ℕ} {pending : UInt64} {w : Wait}
    (h : { w with pc := .poll } = Wait.atHead t j pending) :
    w.head = if pending = 0 then .inr .ok else .inl (Wait.atHead t j pending) := by
  have hpending : w.pending = pending := congrArg Wait.pending h
  rw [Wait.head, h, hpending]

/-- The head of the next turn. -/
theorem Wait.head_next (t : Turns) (j : ℕ) (pc : WaitPc) (pending rest : UInt64) :
    ({ Wait.atHead t j pending with
        pc := pc, pending := rest, turn := UInt64.ofNat j + 1 } : Wait).head =
      if rest = 0 then .inr .ok else .inl (Wait.atHead t (j + 1) rest) :=
  Wait.head_atHead (congrArg (fun turn => (⟨.poll, rest, t.start + idleTimeout, turn⟩ : Wait))
    (UInt64.ofNat_add j 1).symm)

/-- **One turn of the automaton is one turn of the loop.** -/
theorem Wait.round_eq {t : Turns} {j : ℕ} (hlen : (t.batch j).length ≤ 2) (pending : UInt64) :
    Wait.round t j (Wait.atHead t j pending) = some (match t.turn idleTimeout j pending with
      | .inr r => .inr r.ending
      | .inl rest => if rest = 0 then .inr .ok else .inl (Wait.atHead t (j + 1) rest)) := by
  rw [Wait.round, Turns.turn]
  cases hbatch : takeAll pending (t.batch j) with
  | inr c =>
    have herr : absorb pending (t.batch j) = none := by rw [absorb_eq, hbatch]; rfl
    rw [(WaitMove.pollError rfl hlen herr).step]
    rfl
  | inl rest =>
    have hok : absorb pending (t.batch j) = some rest := by rw [absorb_eq, hbatch]; rfl
    by_cases hcheck : checked j
    · have hmove : WaitMove (Wait.atHead t j pending) (.poll (t.batch j)) _ :=
        .pollCheck rfl hlen hok hcheck
      rw [hmove.step, Option.bind_some]
      by_cases hlate : t.start + idleTimeout ≤ t.now j
      · simp only [hcheck, hlate, and_self, if_true]
        exact (WaitMove.timedOut rfl hlate).step
      · simp only [hcheck, hlate, and_false, if_true, if_false]
        rw [(WaitMove.retry rfl (Nat.not_le.mp hlate)).step]
        exact congrArg some (Wait.head_next t j .check pending rest)
    · have hmove : WaitMove (Wait.atHead t j pending) (.poll (t.batch j)) _ :=
        .poll rfl hlen hok hcheck
      have hstep := hmove.step.trans (congrArg some (Wait.head_next t j .poll pending rest))
      rw [hstep, Option.bind_some]
      simp only [hcheck, false_and, if_false]
      by_cases hzero : rest = 0
      · rw [if_pos hzero]
      · rw [if_neg hzero]
        rfl

/-- **The automaton returns what the function returns.** -/
theorem Wait.drive_eq {t : Turns} (hlen : ∀ j, (t.batch j).length ≤ 2) (fuel j : ℕ)
    (pending : UInt64) :
    (if pending = 0 then some .ok else Wait.drive t fuel j (Wait.atHead t j pending)) =
      (waitLoop t idleTimeout fuel j pending).map fun r => r.2.ending := by
  induction fuel generalizing j pending with
  | zero =>
    rw [waitLoop]
    split
    · rfl
    · rfl
  | succ fuel ih =>
    rw [waitLoop]
    split
    · rfl
    · rw [Wait.drive, Wait.round_eq (hlen j), Option.bind_some]
      cases t.turn idleTimeout j pending with
      | inr r => rfl
      | inl rest =>
        rw [← ih]
        by_cases hzero : rest = 0
        · simp only [hzero, if_true]
        · simp only [hzero, if_false]

/-- Entering the automaton computes the deadline. -/
theorem Wait.enter_eq (t : Turns) (want : UInt64) :
    waitStep (.enter want) (.clock t.start) =
      some (if want = 0 then .inr .ok else .inl (Wait.atHead t 0 want)) :=
  congrArg some (Wait.head_atHead rfl)

/-! ## What has been polled -/

/-- The wanted ids: a bit of `want` each. -/
def Wanted (want : UInt64) (id : ℕ) : Prop := ∃ k, id = 2 ^ k ∧ want.toNat.testBit k = true

/-- Whether one of the first `n` polls has reported `id`, by a completion for which
`p` holds. -/
def Turns.Reported (t : Turns) (p : Wc → Prop) (n id : ℕ) : Prop :=
  ∃ j, j < n ∧ ∃ c ∈ t.batch j, c.wrId = id ∧ p c

/-- Whether one of the first `n` polls has returned a failed completion. -/
def Turns.Failed (t : Turns) (n : ℕ) : Prop := ∃ j, j < n ∧ ∃ c ∈ t.batch j, c.ok = false

/-- `c` is the first failed completion of all, and poll `j` returns it. -/
def Turns.FirstFailed (t : Turns) (j : ℕ) (c : Wc) : Prop :=
  ¬t.Failed j ∧ (t.batch j).find? (fun c => !c.ok) = some c

/-- Whether the first `n` polls have reported all that is wanted. -/
def Turns.Covered (t : Turns) (want : UInt64) (n : ℕ) : Prop :=
  ∀ id, Wanted want id → t.Reported (fun c => c.ok = true) n id

/-- No turn before turn `j` has read a clock at the deadline. -/
def Turns.Early (t : Turns) (timeout j : ℕ) : Prop :=
  ∀ i, i < j → checked i → t.now i < t.start + timeout

/-- The result of a wait that has made `n` polls is right. -/
structure Right (t : Turns) (want : UInt64) (n : ℕ) (r : WaitResult) : Prop where
  ok : ∀ pending, r = .ok pending → pending = 0 ∧ t.Covered want n
  timedOut : r = .timedOut → ∃ id, Wanted want id ∧ ¬t.Reported (fun _ => True) n id
  error_iff : (∃ c, r = .error c) ↔ t.Failed n
  error : ∀ c, r = .error c → ∃ j, n = j + 1 ∧ t.FirstFailed j c

/-- The first `n` turns hold a reason to return. -/
def Turns.Decided (t : Turns) (want : UInt64) (timeout n : ℕ) : Prop :=
  t.Covered want n ∨ t.Failed n ∨ ¬t.Early timeout n

/-- **What is asked of `wait_for`.** -/
structure WaitsRight (t : Turns) (want : UInt64) (timeout : ℕ) : Prop where
  right : ∀ fuel n r, waitFor want timeout t fuel = some (n, r) → Right t want n r
  /-- It returns as soon as there is a reason to. -/
  returns : ∀ n, t.Decided want timeout n →
    ∃ m ≤ n, ∃ r, ∀ fuel, n ≤ fuel → waitFor want timeout t fuel = some (m, r)
  /-- It does not outlast a clock that reaches the deadline. -/
  ends : ∀ j, t.start + timeout ≤ t.now j →
    ∃ n m r, ∀ fuel, n ≤ fuel → waitFor want timeout t fuel = some (m, r)
  /-- It returns the error of the first failed completion exactly when that is polled
  before the wait is satisfied or times out. -/
  error_iff : ∀ j c,
    (∀ fuel, j < fuel → waitFor want timeout t fuel = some (j + 1, .error c)) ↔
      t.FirstFailed j c ∧ ¬t.Covered want j ∧ t.Early timeout j

/-- The completion that the wait was for is polled on a turn that then finds the
clock at the deadline. -/
def Turns.Missed (t : Turns) (want : UInt64) (timeout : ℕ) : Prop :=
  ∃ j, checked j ∧ t.start + timeout ≤ t.now j ∧ ¬t.Failed (j + 1) ∧ t.Covered want (j + 1) ∧
    ¬t.Covered want j ∧ t.Early timeout j

theorem testBit_clear (pending : UInt64) {id : ℕ} (hid : id = wrSend ∨ id = wrRecv) (k : ℕ) :
    (pending &&& ~~~UInt64.ofNat id).toNat.testBit k =
      (pending.toNat.testBit k && !decide (id = 2 ^ k)) := by
  have hbit : ∀ x : UInt64, x.toNat.testBit k = x.toBitVec.getLsbD k := fun _ => rfl
  rw [hbit, hbit, UInt64.toBitVec_and, UInt64.toBitVec_not, BitVec.getLsbD_and,
    BitVec.getLsbD_not]
  cases hp : pending.toBitVec.getLsbD k with
  | false => rfl
  | true =>
    have hk : k < 64 := BitVec.lt_of_getLsbD hp
    rw [decide_eq_true hk, Bool.true_and, Bool.true_and, Bool.true_and]
    have hpow : ∃ m, m < 64 ∧ id = 2 ^ m ∧ (UInt64.ofNat id).toBitVec = BitVec.twoPow 64 m := by
      rcases hid with rfl | rfl
      · exact ⟨0, by decide, rfl, by decide⟩
      · exact ⟨1, by decide, rfl, by decide⟩
    obtain ⟨m, hm, hid, hword⟩ := hpow
    have hinj : id = 2 ^ k ↔ m = k := by
      rw [hid]
      exact (Nat.pow_right_injective (Nat.le_refl 2)).eq_iff
    rw [hword, BitVec.getLsbD_twoPow, decide_eq_true hm, Bool.true_and]
    simp only [hinj]

/-- **A batch clears the bits of its ids**, when all its completions succeeded; else
its first failure is the error. -/
theorem takeAll_spec {wcs : List Wc} (hids : ∀ c ∈ wcs, c.wrId = wrSend ∨ c.wrId = wrRecv)
    (pending : UInt64) :
    match takeAll pending wcs with
    | .inr c => wcs.find? (fun c => !c.ok) = some c
    | .inl rest => (∀ c ∈ wcs, c.ok = true) ∧
      ∀ k, rest.toNat.testBit k = true ↔
        pending.toNat.testBit k = true ∧ ¬∃ c ∈ wcs, c.wrId = 2 ^ k := by
  induction wcs generalizing pending with
  | nil => exact ⟨fun _ h => absurd h List.not_mem_nil, by simp⟩
  | cons c wcs ih =>
    rw [takeAll]
    have hrest := fun d hd => hids d (List.mem_cons_of_mem _ hd)
    by_cases hok : c.ok = true
    · rw [if_pos hok]
      have hind := ih hrest (pending &&& ~~~UInt64.ofNat c.wrId)
      cases hr : takeAll (pending &&& ~~~UInt64.ofNat c.wrId) wcs with
      | inr d =>
        rw [hr] at hind
        rwa [List.find?_cons_of_neg (by simp [hok])]
      | inl rest =>
        rw [hr] at hind
        refine ⟨List.forall_mem_cons.mpr ⟨hok, hind.1⟩, fun k => ?_⟩
        rw [hind.2 k, testBit_clear pending (hids c (List.mem_cons_self ..)) k]
        simp [and_assoc]
    · rw [if_neg hok]
      exact List.find?_cons_of_pos (by simp [hok])

/-! ## The loop -/

/-- The head of the loop in turn `j`, reached with `pending` left. -/
structure Turns.Reached (t : Turns) (want : UInt64) (timeout j : ℕ) (pending : UInt64) :
    Prop where
  bits : ∀ k, pending.toNat.testBit k = true ↔
    want.toNat.testBit k = true ∧ ¬t.Reported (fun c => c.ok = true) j (2 ^ k)
  ok : ¬t.Failed j
  early : t.Early timeout j

section Loop

variable {t : Turns} {want pending rest : UInt64} {timeout j : ℕ}

theorem Turns.reported_succ {p : Wc → Prop} {id : ℕ} :
    t.Reported p (j + 1) id ↔ t.Reported p j id ∨ ∃ c ∈ t.batch j, c.wrId = id ∧ p c := by
  constructor
  · rintro ⟨i, hi, h⟩
    rcases Nat.lt_succ_iff_lt_or_eq.mp hi with hlt | rfl
    · exact .inl ⟨i, hlt, h⟩
    · exact .inr h
  · rintro (⟨i, hi, h⟩ | h)
    · exact ⟨i, Nat.lt_succ_of_lt hi, h⟩
    · exact ⟨j, Nat.lt_succ_self j, h⟩

theorem Turns.failed_succ :
    t.Failed (j + 1) ↔ t.Failed j ∨ ∃ c ∈ t.batch j, c.ok = false := by
  constructor
  · rintro ⟨i, hi, h⟩
    rcases Nat.lt_succ_iff_lt_or_eq.mp hi with hlt | rfl
    · exact .inl ⟨i, hlt, h⟩
    · exact .inr h
  · rintro (⟨i, hi, h⟩ | h)
    · exact ⟨i, Nat.lt_succ_of_lt hi, h⟩
    · exact ⟨j, Nat.lt_succ_self j, h⟩

theorem Turns.FirstFailed.failed {c : Wc} (h : t.FirstFailed j c) : t.Failed (j + 1) := by
  have hfail : c.ok = false := by simpa using List.find?_some h.2
  exact Turns.failed_succ.mpr (.inr ⟨c, List.mem_of_find?_eq_some h.2, hfail⟩)

theorem Turns.early_succ :
    t.Early timeout (j + 1) ↔
      t.Early timeout j ∧ (checked j → t.now j < t.start + timeout) := by
  constructor
  · intro h
    exact ⟨fun i hi => h i (Nat.lt_succ_of_lt hi), h j (Nat.lt_succ_self j)⟩
  · rintro ⟨h, hlast⟩ i hi
    rcases Nat.lt_succ_iff_lt_or_eq.mp hi with hlt | rfl
    · exact h i hlt
    · exact hlast

theorem Turns.reached_zero (t : Turns) (want : UInt64) (timeout : ℕ) :
    t.Reached want timeout 0 want where
  bits _ := ⟨fun h => ⟨h, fun ⟨i, hi, _⟩ => absurd hi (Nat.not_lt_zero i)⟩, fun h => h.1⟩
  ok := fun ⟨i, hi, _⟩ => absurd hi (Nat.not_lt_zero i)
  early i hi := absurd hi (Nat.not_lt_zero i)

/-- **Nothing is pending when all that is wanted has been reported.** -/
theorem Turns.Reached.pending_eq_zero (h : t.Reached want timeout j pending) :
    pending = 0 ↔ t.Covered want j := by
  constructor
  · rintro rfl id ⟨k, rfl, hk⟩
    by_contra hmissing
    exact absurd ((h.bits k).mpr ⟨hk, hmissing⟩) (by simp)
  · intro hcov
    refine UInt64.toNat_inj.mp (Nat.eq_of_testBit_eq fun k => ?_)
    have hbit : ¬pending.toNat.testBit k = true := by
      intro hk
      obtain ⟨hwant, hmissing⟩ := (h.bits k).mp hk
      exact hmissing (hcov _ ⟨k, rfl, hwant⟩)
    simpa using hbit

/-- What a turn does from a head that is reached. -/
inductive TurnCase (t : Turns) (want : UInt64) (timeout j : ℕ) (pending : UInt64) :
    UInt64 ⊕ WaitResult → Prop
  /-- A failed completion is polled. -/
  | error {c : Wc} (hfirst : t.FirstFailed j c) :
      TurnCase t want timeout j pending (.inr (.error c))
  /-- The clock has reached the deadline. -/
  | late (hok : ¬t.Failed (j + 1)) (hcheck : checked j)
      (hlate : t.start + timeout ≤ t.now j) : TurnCase t want timeout j pending (.inr .timedOut)
  /-- The loop goes on to its next head. -/
  | next {rest : UInt64} (h : t.Reached want timeout (j + 1) rest)
      (hearly : checked j → t.now j < t.start + timeout) :
      TurnCase t want timeout j pending (.inl rest)

/-- **One turn.** -/
theorem Turns.Reached.turn (h : t.Reached want timeout j pending) :
    TurnCase t want timeout j pending (t.turn timeout j pending) := by
  have hspec := takeAll_spec (t.ids j) pending
  rw [Turns.turn]
  cases hbatch : takeAll pending (t.batch j) with
  | inr c =>
    rw [hbatch] at hspec
    exact .error ⟨h.ok, hspec⟩
  | inl rest =>
    rw [hbatch] at hspec
    obtain ⟨hall, hbits⟩ := hspec
    have hok : ¬t.Failed (j + 1) := by
      rw [Turns.failed_succ]
      rintro (hfail | ⟨c, hc, hfail⟩)
      · exact h.ok hfail
      · exact absurd (hall c hc) (by simp [hfail])
    by_cases hlate : checked j ∧ t.start + timeout ≤ t.now j
    · simp only [hlate, and_self, if_true]
      exact .late hok hlate.1 hlate.2
    · simp only [hlate, if_false]
      have hearly : checked j → t.now j < t.start + timeout := fun hcheck =>
        Nat.not_le.mp fun hle => hlate ⟨hcheck, hle⟩
      refine .next ⟨fun k => ?_, hok, Turns.early_succ.mpr ⟨h.early, hearly⟩⟩ hearly
      rw [hbits k, h.bits k, Turns.reported_succ, and_assoc, not_or]
      refine and_congr_right fun _ => and_congr_right fun _ => not_congr ?_
      exact ⟨fun ⟨c, hc, hid⟩ => ⟨c, hc, hid, hall c hc⟩, fun ⟨c, hc, hid, _⟩ => ⟨c, hc, hid⟩⟩

end Loop

/-- How a wait has ended after `n` polls. -/
inductive WaitEnded (t : Turns) (want : UInt64) (timeout n : ℕ) : WaitResult → Prop
  | ok (hcov : t.Covered want n) (hok : ¬t.Failed n) : WaitEnded t want timeout n (.ok 0)
  | timedOut {j : ℕ} (hn : n = j + 1) (hcov : ¬t.Covered want j) (hok : ¬t.Failed n)
      (hcheck : checked j) (hlate : t.start + timeout ≤ t.now j) (hearly : t.Early timeout j) :
      WaitEnded t want timeout n .timedOut
  | error {j : ℕ} {c : Wc} (hn : n = j + 1) (hcov : ¬t.Covered want j)
      (hfirst : t.FirstFailed j c) (hearly : t.Early timeout j) :
      WaitEnded t want timeout n (.error c)

/-- **How the loop ends**, from any head it reaches. -/
theorem Turns.Reached.ended {t : Turns} {want pending : UInt64} {timeout fuel j n : ℕ}
    {r : WaitResult} (h : t.Reached want timeout j pending)
    (hrun : waitLoop t timeout fuel j pending = some (n, r)) : WaitEnded t want timeout n r := by
  induction fuel generalizing j pending with
  | zero =>
    obtain ⟨hzero, hrun⟩ := Option.ite_none_right_eq_some.mp hrun
    obtain ⟨rfl, rfl⟩ := Prod.mk.inj (Option.some.inj hrun)
    rw [hzero]
    exact .ok (h.pending_eq_zero.mp hzero) h.ok
  | succ fuel ih =>
    rw [waitLoop] at hrun
    split at hrun
    · next hzero =>
      obtain ⟨rfl, rfl⟩ := Prod.mk.inj (Option.some.inj hrun)
      rw [hzero]
      exact .ok (h.pending_eq_zero.mp hzero) h.ok
    · next hne =>
      have hturn := h.turn
      split at hrun
      · next hr =>
        rw [hr] at hturn
        obtain ⟨rfl, rfl⟩ := Prod.mk.inj (Option.some.inj hrun)
        have hcov : ¬t.Covered want j := fun hcov => hne (h.pending_eq_zero.mpr hcov)
        cases hturn with
        | error hfirst => exact .error rfl hcov hfirst h.early
        | late hok hcheck hlate => exact .timedOut rfl hcov hok hcheck hlate h.early
      · next hr =>
        rw [hr] at hturn
        cases hturn with
        | next hreach _ => exact ih hreach hrun

theorem Turns.Reported.mono {t : Turns} {p : Wc → Prop} {m n id : ℕ} (h : t.Reported p m id)
    (hmn : m ≤ n) : t.Reported p n id := by
  obtain ⟨j, hj, hc⟩ := h
  exact ⟨j, Nat.lt_of_lt_of_le hj hmn, hc⟩

theorem Turns.Failed.mono {t : Turns} {m n : ℕ} (h : t.Failed m) (hmn : m ≤ n) : t.Failed n := by
  obtain ⟨j, hj, hc⟩ := h
  exact ⟨j, Nat.lt_of_lt_of_le hj hmn, hc⟩

theorem Turns.Covered.mono {t : Turns} {want : UInt64} {m n : ℕ} (h : t.Covered want m)
    (hmn : m ≤ n) : t.Covered want n := fun id hid => (h id hid).mono hmn

/-- **The loop comes to turn `j`**, when no turn before it gives it a reason to return. -/
theorem Turns.Reached.forward {t : Turns} {want pending : UInt64} {timeout d i j : ℕ}
    (h : t.Reached want timeout i pending) (hij : i + d = j) (hok : ¬t.Failed j)
    (hcov : ¬t.Covered want j) (hearly : t.Early timeout j) :
    ∃ rest, rest ≠ 0 ∧ t.Reached want timeout j rest ∧
      ∀ fuel, waitLoop t timeout (d + fuel) i pending = waitLoop t timeout fuel j rest := by
  have hne : pending ≠ 0 := fun hzero => hcov ((h.pending_eq_zero.mp hzero).mono (by omega))
  induction d generalizing i pending with
  | zero =>
    obtain rfl : i = j := hij
    exact ⟨pending, hne, h, fun fuel => by rw [Nat.zero_add]⟩
  | succ d ih =>
    have hturn := h.turn
    cases hr : t.turn timeout i pending with
    | inr r =>
      rw [hr] at hturn
      cases hturn with
      | error hfirst => exact absurd (hfirst.failed.mono (by omega)) hok
      | late _ hci hli => exact absurd hli (Nat.not_le.mpr (hearly i (by omega) hci))
    | inl next =>
      rw [hr] at hturn
      cases hturn with
      | next hreach _ =>
        have hnext : next ≠ 0 := fun hzero =>
          hcov ((hreach.pending_eq_zero.mp hzero).mono (by omega))
        obtain ⟨rest, hrest, hlast, hloop⟩ := ih hreach (by omega) hnext
        refine ⟨rest, hrest, hlast, fun fuel => ?_⟩
        rw [Nat.succ_add_eq_add_succ, Nat.add_succ, waitLoop, if_neg hne, hr]
        exact hloop fuel

/-- What turn `j` returns is what the loop returns, when it comes to that turn. -/
theorem Turns.waitFor_of_turn {t : Turns} {want : UInt64} {timeout j : ℕ} {r : WaitResult}
    (hok : ¬t.Failed j) (hcov : ¬t.Covered want j) (hearly : t.Early timeout j)
    (hturn : ∀ pending, t.Reached want timeout j pending →
      t.turn timeout j pending = .inr r) {fuel : ℕ} (hfuel : j < fuel) :
    waitFor want timeout t fuel = some (j + 1, r) := by
  obtain ⟨rest, hne, hreach, hloop⟩ :=
    (t.reached_zero want timeout).forward (Nat.zero_add j) hok hcov hearly
  obtain ⟨more, rfl⟩ := Nat.exists_eq_add_of_lt hfuel
  rw [waitFor, Nat.add_assoc, hloop, waitLoop, if_neg hne, hturn rest hreach]

/-- **A missed wait is reported as timed out.** -/
theorem Turns.waitFor_missed {t : Turns} {want : UInt64} {timeout j : ℕ} (hcheck : checked j)
    (hlate : t.start + timeout ≤ t.now j) (hok : ¬t.Failed (j + 1)) (hcov : ¬t.Covered want j)
    (hearly : t.Early timeout j) {fuel : ℕ} (hfuel : j < fuel) :
    waitFor want timeout t fuel = some (j + 1, .timedOut) := by
  refine Turns.waitFor_of_turn (fun hfail => hok (hfail.mono (Nat.le_succ j))) hcov hearly
    (fun pending hreach => ?_) hfuel
  have hturn := hreach.turn
  generalize t.turn timeout j pending = x at hturn ⊢
  cases hturn with
  | error hfirst => exact absurd hfirst.failed hok
  | late _ _ _ => rfl
  | next _ hlt => exact absurd hlate (Nat.not_le.mpr (hlt hcheck))

/-- **A failed completion that is polled in time is returned.** -/
theorem Turns.waitFor_error {t : Turns} {want : UInt64} {timeout j : ℕ} {c : Wc}
    (hfirst : t.FirstFailed j c) (hcov : ¬t.Covered want j) (hearly : t.Early timeout j)
    {fuel : ℕ} (hfuel : j < fuel) : waitFor want timeout t fuel = some (j + 1, .error c) := by
  refine Turns.waitFor_of_turn hfirst.1 hcov hearly (fun pending hreach => ?_) hfuel
  have hturn := hreach.turn
  generalize t.turn timeout j pending = x at hturn ⊢
  cases hturn with
  | error h => rw [Option.some.inj (h.2.symm.trans hfirst.2)]
  | late hok _ _ => exact absurd hfirst.failed hok
  | next h _ => exact absurd hfirst.failed h.ok

/-- **The loop returns** by the turn before which there is a reason to, from any head it
reaches. -/
theorem Turns.Reached.returns {t : Turns} {want pending : UInt64} {timeout d i n : ℕ}
    (h : t.Reached want timeout i pending) (hin : i + d = n)
    (hdecided : t.Decided want timeout n) :
    ∃ m ≤ n, ∃ r, ∀ fuel, d ≤ fuel → waitLoop t timeout fuel i pending = some (m, r) := by
  induction d generalizing i pending with
  | zero =>
    obtain rfl : i = n := hin
    have hzero : pending = 0 := by
      rcases hdecided with hcov | hfail | hlate
      · exact h.pending_eq_zero.mpr hcov
      · exact absurd hfail h.ok
      · exact absurd h.early hlate
    rw [hzero]
    exact ⟨i, Nat.le_refl i, .ok 0, fun fuel _ => waitLoop_zero t timeout fuel i⟩
  | succ d ih =>
    by_cases hzero : pending = 0
    · rw [hzero]
      exact ⟨i, by omega, .ok 0, fun fuel _ => waitLoop_zero t timeout fuel i⟩
    have hturn := h.turn
    cases hr : t.turn timeout i pending with
    | inr r =>
      refine ⟨i + 1, by omega, r, fun fuel hfuel => ?_⟩
      obtain ⟨more, rfl⟩ := Nat.exists_eq_add_of_le' hfuel
      rw [← Nat.add_assoc, waitLoop, if_neg hzero, hr]
    | inl rest =>
      rw [hr] at hturn
      cases hturn with
      | next hreach _ =>
        obtain ⟨m, hm, r, hloop⟩ := ih hreach (by omega)
        refine ⟨m, hm, r, fun fuel hfuel => ?_⟩
        obtain ⟨more, rfl⟩ := Nat.exists_eq_add_of_le' hfuel
        rw [← Nat.add_assoc, waitLoop, if_neg hzero, hr]
        exact hloop _ (Nat.le_add_left d more)

/-- Some turn after turn `j` reads the clock. -/
theorem exists_checked (j : ℕ) : ∃ i, j ≤ i ∧ checked i := by
  refine ⟨UInt64.size * j, Nat.le_mul_of_pos_left j (by decide), ?_⟩
  have hzero : UInt64.ofNat (UInt64.size * j) = 0 := by
    refine UInt64.toNat_inj.mp ?_
    rw [UInt64.toNat_ofNat']
    exact Nat.mul_mod_right _ _
  rw [checked, hzero]
  rfl

/-- A clock at the deadline is a reason to return, soon. -/
theorem Turns.exists_decided {t : Turns} {timeout j : ℕ} (want : UInt64)
    (hlate : t.start + timeout ≤ t.now j) : ∃ n, t.Decided want timeout n := by
  obtain ⟨i, hji, hcheck⟩ := exists_checked j
  refine ⟨i + 1, .inr (.inr fun hearly => ?_)⟩
  have hnow := hearly i (Nat.lt_succ_self i) hcheck
  have := t.now_mono hji
  omega

/-- A wait that has ended is right, unless it is the one that was missed. -/
theorem WaitEnded.right {t : Turns} {want : UInt64} {timeout n : ℕ} {r : WaitResult}
    (h : WaitEnded t want timeout n r) (hmissed : ¬t.Missed want timeout) : Right t want n r := by
  cases h with
  | ok hcov hok =>
    exact
      { ok := fun pending heq => ⟨(WaitResult.ok.inj heq).symm, hcov⟩
        timedOut := fun heq => absurd heq (by simp)
        error_iff := ⟨fun ⟨c, heq⟩ => absurd heq (by simp), fun hfail => absurd hfail hok⟩
        error := fun c heq => absurd heq (by simp) }
  | @error j c hn hcov hfirst hearly =>
    refine
      { ok := fun pending heq => absurd heq (by simp)
        timedOut := fun heq => absurd heq (by simp)
        error_iff := ⟨fun _ => hn ▸ hfirst.failed, fun _ => ⟨c, rfl⟩⟩
        error := fun d heq => ⟨j, hn, ?_⟩ }
    rwa [← WaitResult.error.inj heq]
  | @timedOut j hn hcov hok hcheck hlate hearly =>
    rw [hn] at hok ⊢
    refine
      { ok := fun pending heq => absurd heq (by simp)
        timedOut := fun _ => ?_
        error_iff := ⟨fun ⟨c, heq⟩ => absurd heq (by simp), fun hfail => absurd hfail hok⟩
        error := fun c heq => absurd heq (by simp) }
    have hopen : ¬t.Covered want (j + 1) := fun hdone =>
      hmissed ⟨j, hcheck, hlate, hok, hdone, hcov, hearly⟩
    obtain ⟨id, hid⟩ := not_forall.mp hopen
    obtain ⟨hwanted, hmissing⟩ := Classical.not_imp.mp hid
    refine ⟨id, hwanted, fun ⟨i, hi, c, hc, hcid, _⟩ => hmissing ⟨i, hi, c, hc, hcid, ?_⟩⟩
    by_contra hfail
    exact hok ⟨i, hi, c, hc, Bool.eq_false_iff.mpr hfail⟩

/-- An error that has been returned is that of the first failed completion. -/
theorem WaitEnded.error_spec {t : Turns} {want : UInt64} {timeout j : ℕ} {c : Wc}
    (h : WaitEnded t want timeout (j + 1) (.error c)) :
    t.FirstFailed j c ∧ ¬t.Covered want j ∧ t.Early timeout j := by
  cases h with
  | error hn hcov hfirst hearly =>
    obtain rfl := Nat.succ.inj hn
    exact ⟨hfirst, hcov, hearly⟩

/-- **When `wait_for` does what is asked of it**, on given polls and a given clock:
exactly when the wait is not missed. -/
theorem waited_right_iff (want : UInt64) (timeout : ℕ) (t : Turns) :
    WaitsRight t want timeout ↔ ¬t.Missed want timeout := by
  have hstart := t.reached_zero want timeout
  constructor
  · rintro h ⟨j, hcheck, hlate, hok, hdone, hcov, hearly⟩
    have hrun := Turns.waitFor_missed hcheck hlate hok hcov hearly (Nat.lt_succ_self j)
    obtain ⟨id, hwanted, hmissing⟩ := (h.right _ _ _ hrun).timedOut rfl
    obtain ⟨i, hi, c, hc, hcid, -⟩ := hdone id hwanted
    exact hmissing ⟨i, hi, c, hc, hcid, trivial⟩
  · intro hmissed
    have hreturns : ∀ n, t.Decided want timeout n →
        ∃ m ≤ n, ∃ r, ∀ fuel, n ≤ fuel → waitFor want timeout t fuel = some (m, r) :=
      fun n hn => hstart.returns (Nat.zero_add n) hn
    refine ⟨fun fuel n r hrun => (hstart.ended hrun).right hmissed, hreturns, fun j hlate => ?_,
      fun j c => ⟨fun hrun => ?_, fun ⟨hfirst, hcov, hearly⟩ fuel hfuel => ?_⟩⟩
    · obtain ⟨n, hn⟩ := t.exists_decided want hlate
      obtain ⟨m, -, r, hrun⟩ := hreturns n hn
      exact ⟨n, m, r, hrun⟩
    · exact (hstart.ended (hrun (j + 1) (Nat.lt_succ_self j))).error_spec
    · exact Turns.waitFor_error hfirst hcov hearly hfuel

/-- Both completions arrive on the first turn, by which the clock has reached the
deadline. -/
def lateTurns : Turns where
  start := 0
  batch j := if j = 0 then [⟨wrSend, 0, true⟩, ⟨wrRecv, 0, true⟩] else []
  now _ := idleTimeout
  start_le := Nat.zero_le _
  now_mono _ _ _ := Nat.le_refl _
  ids j := by
    intro c hc
    split at hc
    · rcases List.mem_cons.mp hc with rfl | hc
      · exact .inl rfl
      · exact .inr (by rw [List.mem_singleton.mp hc])
    · exact absurd hc List.not_mem_nil

/-- **A wait that is satisfied and reported as timed out.** -/
theorem satisfied_and_timed_out :
    waitFor 3 idleTimeout lateTurns 1 = some (1, .timedOut) ∧
      ¬Right lateTurns 3 1 .timedOut := by
  refine ⟨by decide, fun h => ?_⟩
  obtain ⟨id, ⟨k, hid, hbit⟩, hmissing⟩ := h.timedOut rfl
  have hk : k = 0 ∨ k = 1 := by
    by_contra hk
    have hlt : (3 : UInt64).toNat < 2 ^ k := Nat.lt_of_lt_of_le (by decide)
      (Nat.pow_le_pow_right (n := 2) (by decide) (show 2 ≤ k by omega))
    exact absurd hbit (by rw [Nat.testBit_lt_two_pow hlt]; exact Bool.false_ne_true)
  refine hmissing ⟨0, Nat.one_pos, ?_⟩
  rcases hk with rfl | rfl
  · exact ⟨⟨wrSend, 0, true⟩, by simp [lateTurns], hid.symm, trivial⟩
  · exact ⟨⟨wrRecv, 0, true⟩, by simp [lateTurns], hid.symm, trivial⟩

end Latency
end RdmaBench
