import RdmaBench.Automaton.Runs

/-!
# Automata that read a clock

A loop that polls until a deadline has passed ends because time passes, and for no
other reason: how often it polls depends on how fast it is.  A `Watch` says which
labels take time and which read the clock.  `Watch.clock` is the automaton of the
readings there can be when any `parts` labels that take time take one tick at least,
and `beside` puts it next to the automaton that is watched.  A measure of both that
every step lowers (`RunsDown`) then bounds the runs (`RunsDown.endsWithin`).

* `partsLeft` --- how far off a deadline is, and what a step does to it.
* `headCost`, `idleCost` --- the two points of a loop that polls and, when a poll has
  returned nothing, compares the clock with the deadline.
* `loopCost` --- such a loop when an item that comes starts the timeout again.
-/

namespace RdmaBench
namespace Automaton

universe u v w

variable {σ : Type u} {τ : Type w} {ℓ : Type v}

/-- Two automata that take every step together. -/
def System.beside (S : System σ ℓ) (T : System τ ℓ) : System (σ × τ) ℓ where
  init := (S.init, T.init)
  step s l := (S.step s.1 l).bind fun s' => (T.step s.2 l).map fun t' => (s', t')

theorem System.of_beside {S : System σ ℓ} {T : System τ ℓ} {s s' : σ × τ} {l : ℓ}
    (h : (S.beside T).step s l = some s') :
    S.step s.1 l = some s'.1 ∧ T.step s.2 l = some s'.2 := by
  obtain ⟨c, hc, h⟩ := Option.bind_eq_some_iff.mp h
  obtain ⟨t, ht, rfl⟩ := Option.map_eq_some_iff.mp h
  exact ⟨hc, ht⟩

theorem System.beside_step {S : System σ ℓ} {T : System τ ℓ} {s s' : σ} {t t' : τ} {l : ℓ}
    (hs : S.step s l = some s') (ht : T.step t l = some t') :
    (S.beside T).step (s, t) l = some (s', t') :=
  Option.bind_eq_some_iff.mpr ⟨s', hs, Option.map_eq_some_iff.mpr ⟨t', ht, rfl⟩⟩

theorem System.Reachable.of_beside {S : System σ ℓ} {T : System τ ℓ} {s : σ × τ}
    (h : (S.beside T).Reachable s) : S.Reachable s.1 :=
  .project Prod.fst rfl (fun _ l _ hs => .inr ⟨l, (System.of_beside hs).1⟩) h

/-- Which labels take time, and which read the clock. -/
structure Watch (ℓ : Type v) where
  takes : ℓ → Bool
  reads : ℓ → Option ℕ

namespace Watch

/-- The clock, in parts of a tick.  A label that takes time takes a part at least, and
a reading is the number of whole ticks that have passed, or more. -/
def clock (W : Watch ℓ) (parts : ℕ) : System ℕ ℓ where
  init := 0
  step t l :=
    match W.reads l with
    | some now => if t < parts * (now + 1) then some (max t (parts * now)) else none
    | none => if W.takes l then some (t + 1) else some t

variable {W : Watch ℓ} {parts t t' now : ℕ} {l : ℓ}

theorem of_reads (hl : W.reads l = some now) (h : (W.clock parts).step t l = some t') :
    t < parts * (now + 1) ∧ max t (parts * now) = t' := by
  simp only [clock, hl] at h
  obtain ⟨hlt, h⟩ := Option.ite_none_right_eq_some.mp h
  exact ⟨hlt, Option.some.inj h⟩

theorem of_takes (hl : W.reads l = none) (htakes : W.takes l = true)
    (h : (W.clock parts).step t l = some t') : t + 1 = t' := by
  simp only [clock, hl, htakes, if_true] at h
  exact Option.some.inj h

theorem of_quick (hl : W.reads l = none) (htakes : W.takes l = false)
    (h : (W.clock parts).step t l = some t') : t = t' := by
  simp only [clock, hl, htakes, Bool.false_eq_true, if_false] at h
  exact Option.some.inj h

/-- A label that does not read the clock can come at any time. -/
theorem exists_step (hl : W.reads l = none) (parts t : ℕ) :
    ∃ t', (W.clock parts).step t l = some t' := by
  simp only [clock, hl]
  split
  · exact ⟨_, rfl⟩
  · exact ⟨_, rfl⟩

/-- At any time there is a reading of the clock. -/
theorem exists_reading (hparts : 0 < parts) (t : ℕ) :
    ∃ now, ∀ l, W.reads l = some now → ∃ t', (W.clock parts).step t l = some t' := by
  refine ⟨t / parts, fun l hl => ⟨max t (parts * (t / parts)), ?_⟩⟩
  simp only [clock, hl]
  exact if_pos (Nat.lt_mul_div_succ t hparts)

/-- The watch on labels some of which stand for labels of `W`. -/
def along {κ : Type w} (W : Watch κ) (f : ℓ → Option κ) : Watch ℓ where
  takes l := (f l).any W.takes
  reads l := (f l).bind W.reads

variable {κ : Type w} {V : Watch κ} {f : ℓ → Option κ}

theorem step_along {k : κ} (hf : f l = some k) :
    ((V.along f).clock parts).step t l = (V.clock parts).step t k := by
  simp [clock, along, hf]

theorem step_along_none (hf : f l = none) : ((V.along f).clock parts).step t l = some t := by
  simp [clock, along, hf]

end Watch

/-- Every run is at most `bound` steps long, when `parts` labels that take time take a
tick at least. -/
def System.EndsWithin (S : System σ ℓ) (W : Watch ℓ) (parts bound : ℕ) : Prop :=
  ∀ ls s, (S.beside (W.clock parts)).run (S.beside (W.clock parts)).init ls = some s →
    ls.length ≤ bound

/-- There is a measure of state and time that every step lowers, at most `bound` where
runs start. -/
def System.RunsDown (S : System σ ℓ) (W : Watch ℓ) (parts bound : ℕ) : Prop :=
  ∃ μ : σ → ℕ → ℕ, (∀ c d t t' l, S.step c l = some d → (W.clock parts).step t l = some t' →
    μ d t' < μ c t) ∧ ∀ t, μ S.init t ≤ bound

theorem System.RunsDown.endsWithin {S : System σ ℓ} {W : Watch ℓ} {parts bound : ℕ}
    (h : S.RunsDown W parts bound) : S.EndsWithin W parts bound := by
  obtain ⟨μ, hstep, hinit⟩ := h
  intro ls s hrun
  have hle : ls.length + μ s.1 s.2 ≤ μ S.init 0 :=
    length_add_le_of_run (fun s l t h => hstep _ _ _ _ _ (of_beside h).1 (of_beside h).2) hrun
  exact Nat.le_trans (Nat.le_trans (Nat.le_add_right _ _) hle) (hinit 0)

/-! ## Deadlines -/

/-- The parts of a tick that are left before a deadline. -/
def partsLeft (parts deadline t : ℕ) : ℕ := parts * deadline - t

section Deadline

variable {W : Watch ℓ} {parts deadline timeout t t' now : ℕ} {l : ℓ}

/-- A reading short of the deadline leaves something, and no more than there was. -/
theorem partsLeft_of_lt (hl : W.reads l = some now) (h : (W.clock parts).step t l = some t')
    (hnow : now < deadline) :
    0 < partsLeft parts deadline t' ∧ partsLeft parts deadline t' ≤ partsLeft parts deadline t := by
  obtain ⟨hlt, rfl⟩ := Watch.of_reads hl h
  have hparts : 0 < parts := by
    rcases Nat.eq_zero_or_pos parts with rfl | hpos
    · rw [Nat.zero_mul] at hlt
      exact absurd hlt (Nat.not_lt_zero t)
    · exact hpos
  have hnext : parts * (now + 1) ≤ parts * deadline := Nat.mul_le_mul_left parts hnow
  have hthis : parts * now < parts * (now + 1) :=
    Nat.mul_lt_mul_of_pos_left (Nat.lt_succ_self now) hparts
  simp only [partsLeft]
  omega

/-- Counted from a reading, a timeout is at most its parts away. -/
theorem partsLeft_of_reading (hl : W.reads l = some now)
    (h : (W.clock parts).step t l = some t') :
    partsLeft parts (now + timeout) t' ≤ parts * timeout := by
  obtain ⟨-, rfl⟩ := Watch.of_reads hl h
  rw [partsLeft, Nat.mul_add]
  omega

theorem partsLeft_of_takes (hl : W.reads l = none) (htakes : W.takes l = true)
    (h : (W.clock parts).step t l = some t') :
    partsLeft parts deadline t' = partsLeft parts deadline t - 1 := by
  obtain rfl := Watch.of_takes hl htakes h
  exact Nat.sub_add_eq ..

end Deadline

/-! ## A loop that gives up -/

/-- The steps to come at the head of the loop, `x` parts before the deadline. -/
def headCost (x : ℕ) : ℕ := 2 * x + 2

/-- The steps to come before the comparison of an idle turn. -/
def idleCost (x : ℕ) : ℕ := if x = 0 then 1 else 2 * x + 3

theorem idleCost_pos (x : ℕ) : 0 < idleCost x := by
  rw [idleCost]
  split <;> omega

theorem idleCost_lt_headCost (x : ℕ) : idleCost (x - 1) < headCost x := by
  rw [idleCost, headCost]
  split <;> omega

/-- A comparison that fails has found something left. -/
theorem headCost_lt_idleCost {x y : ℕ} (hy : 0 < y) (hle : y ≤ x) : headCost y < idleCost x := by
  rw [headCost, idleCost, if_neg (by omega)]
  omega

section Loop

variable {exit each left left' x y full steps : ℕ}

/-- The steps to come at the head of a loop with `left` items to wait for, each worth
`each` steps, and `exit` steps after the loop. -/
def loopCost (exit each left x : ℕ) : ℕ := exit + each * left + headCost x

theorem exit_lt_loopCost : exit < loopCost exit each left x := by
  rw [loopCost, headCost]
  omega

theorem loopCost_mono (h : x ≤ y) : loopCost exit each left x ≤ loopCost exit each left y := by
  rw [loopCost, loopCost, headCost, headCost]
  omega

/-- **An item that comes pays for its steps**, and for the whole timeout that starts
again. -/
theorem loopCost_add_lt (hleft : left' + 1 ≤ left) (heach : 2 * full + steps < each) :
    loopCost exit each left' full + steps < loopCost exit each left x := by
  have hmul := Nat.mul_le_mul_left each hleft
  rw [Nat.mul_add, Nat.mul_one] at hmul
  rw [loopCost, loopCost, headCost, headCost]
  omega

end Loop

end Automaton
end RdmaBench
