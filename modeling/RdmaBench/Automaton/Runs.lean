import Mathlib.Order.Basic
import Mathlib.Data.Nat.Init

/-!
# Runs of a labelled automaton

An automaton here is one starting state and a *partial* step function: a label
names both who moves and how the environment answers, and `none` says that the
move is not open in that state.  Keeping the step a function means that a run is
evaluated, not searched for, once its labels are written down.

* `ReachableUnder C` --- the states of the runs all of whose steps meet the
  condition `C`; `Reachable` is the case with no condition.
* `ReachableUnder.invariant` --- the one induction over runs of the
  development.  Every safety statement is an instance of it.
* `ReachableUnder.exists_goal` --- a measure that some step always lowers turns
  into a run to the goal.
* `length_add_le_of_run` --- a measure that every step lowers bounds the runs.
* `ReachableUnder.project` --- an automaton that is a part of a larger one keeps
  its own invariants there: a step of the larger one is a step of the part, or
  leaves the part alone.
* `run` evaluates a list of labels, and `ReachableUnder.of_run` reads off its
  result as a reachable state.
-/

namespace RdmaBench
namespace Automaton

universe u v w x

/-- An automaton: a starting state and a partial, labelled step function. -/
structure System (σ : Type u) (ℓ : Type v) where
  /-- Where every run starts. -/
  init : σ
  /-- The move named by a label, when it is open. -/
  step : σ → ℓ → Option σ

namespace System

variable {σ : Type u} {ℓ : Type v} (S : System σ ℓ)

/-- The states reached by runs whose every step, judged before it is taken,
meets `C`. -/
inductive ReachableUnder (C : σ → ℓ → Prop) : σ → Prop
  | init : ReachableUnder C S.init
  | step {s t : σ} {l : ℓ} : ReachableUnder C s → C s l → S.step s l = some t →
      ReachableUnder C t

/-- The states reached by any run. -/
def Reachable (s : σ) : Prop := S.ReachableUnder (fun _ _ => True) s

variable {S}

/-- **An inductive invariant holds in every state reached.** -/
theorem ReachableUnder.invariant {C : σ → ℓ → Prop} {I : σ → Prop} (hinit : I S.init)
    (hstep : ∀ s l t, I s → C s l → S.step s l = some t → I t) {s : σ}
    (h : S.ReachableUnder C s) : I s := by
  induction h with
  | init => exact hinit
  | step _ hC hs ih => exact hstep _ _ _ ih hC hs

/-- The unconditional form. -/
theorem Reachable.invariant {I : σ → Prop} (hinit : I S.init)
    (hstep : ∀ s l t, I s → S.step s l = some t → I t) {s : σ} (h : S.Reachable s) : I s :=
  ReachableUnder.invariant hinit (fun s l t hs _ => hstep s l t hs) h

/-- Weakening the condition keeps the states reached. -/
theorem ReachableUnder.mono {C D : σ → ℓ → Prop} (hCD : ∀ s l, C s l → D s l) {s : σ}
    (h : S.ReachableUnder C s) : S.ReachableUnder D s := by
  induction h with
  | init => exact .init
  | step _ hC hs ih => exact .step ih (hCD _ _ hC) hs

theorem ReachableUnder.reachable {C : σ → ℓ → Prop} {s : σ} (h : S.ReachableUnder C s) :
    S.Reachable s :=
  h.mono fun _ _ _ => trivial

theorem Reachable.init : S.Reachable S.init := ReachableUnder.init

theorem Reachable.step {s t : σ} {l : ℓ} (h : S.Reachable s) (hs : S.step s l = some t) :
    S.Reachable t :=
  ReachableUnder.step h trivial hs

/-! ## What a run can still reach -/

variable (S) in
/-- The same automaton, started elsewhere. -/
def startAt (s : σ) : System σ ℓ := { S with init := s }

theorem ReachableUnder.head {C : σ → ℓ → Prop} {s t u : σ} {l : ℓ} (hC : C s l)
    (hs : S.step s l = some t) (h : (S.startAt t).ReachableUnder C u) :
    (S.startAt s).ReachableUnder C u := by
  induction h with
  | init => exact .step .init hC hs
  | step _ hC' hs' ih => exact .step ih hC' hs'

theorem ReachableUnder.trans {C : σ → ℓ → Prop} {s t : σ} (hs : S.ReachableUnder C s)
    (h : (S.startAt s).ReachableUnder C t) : S.ReachableUnder C t := by
  induction h with
  | init => exact hs
  | step _ hC hstep ih => exact ih.step hC hstep

/-- **A goal that can always be approached can always be reached.**  When every
state short of the goal has a step that lowers the measure, every run can be
continued to the goal. -/
theorem ReachableUnder.exists_goal {C : σ → ℓ → Prop} {G : σ → Prop} (μ : σ → ℕ)
    (hstep : ∀ s, S.ReachableUnder C s → ¬G s →
      ∃ l t, C s l ∧ S.step s l = some t ∧ μ t < μ s)
    {s : σ} (h : S.ReachableUnder C s) : ∃ t, (S.startAt s).ReachableUnder C t ∧ G t := by
  induction hn : μ s using Nat.strongRecOn generalizing s with
  | _ n ih =>
    by_cases hG : G s
    · exact ⟨s, .init, hG⟩
    · obtain ⟨l, t, hC, hs, hlt⟩ := hstep s h hG
      obtain ⟨u, hu, hGu⟩ := ih (μ t) (hn ▸ hlt) (h.step hC hs) rfl
      exact ⟨u, hu.head hC hs, hGu⟩

/-! ## A part of a larger automaton -/

/-- **A part keeps its own runs.**  When every step of `S` is, seen through `f`,
a step of `T` that meets `D` or no step at all, the runs of `S` are runs of
`T`. -/
theorem ReachableUnder.project {τ : Type w} {m : Type x} {T : System τ m}
    {C : σ → ℓ → Prop} {D : τ → m → Prop} (f : σ → τ) (hinit : f S.init = T.init)
    (hstep : ∀ s l t, C s l → S.step s l = some t →
      f t = f s ∨ ∃ k, D (f s) k ∧ T.step (f s) k = some (f t))
    {s : σ} (h : S.ReachableUnder C s) : T.ReachableUnder D (f s) := by
  induction h with
  | init => rw [hinit]; exact .init
  | step _ hC hs ih =>
    rcases hstep _ _ _ hC hs with heq | ⟨k, hD, hk⟩
    · rw [heq]; exact ih
    · exact .step ih hD hk

/-- The unconditional form. -/
theorem Reachable.project {τ : Type w} {m : Type x} {T : System τ m} (f : σ → τ)
    (hinit : f S.init = T.init)
    (hstep : ∀ s l t, S.step s l = some t → f t = f s ∨ ∃ k, T.step (f s) k = some (f t))
    {s : σ} (h : S.Reachable s) : T.Reachable (f s) :=
  ReachableUnder.project f hinit (fun s l t _ hs => (hstep s l t hs).imp id
    fun ⟨k, hk⟩ => ⟨k, trivial, hk⟩) h

/-! ## Evaluating a run -/

variable (S)

/-- The state a list of labels leads to, when every one of its moves is open. -/
def run : σ → List ℓ → Option σ
  | s, [] => some s
  | s, l :: ls => (S.step s l).bind fun t => run t ls

variable {S}

@[simp] theorem run_nil (s : σ) : S.run s [] = some s := rfl

theorem run_cons (s : σ) (l : ℓ) (ls : List ℓ) :
    S.run s (l :: ls) = (S.step s l).bind fun t => S.run t ls := rfl

/-- What a list of labels leads to from a reachable state is reachable. -/
theorem Reachable.of_run {s t : σ} {ls : List ℓ} (hs : S.Reachable s)
    (h : S.run s ls = some t) : S.Reachable t := by
  induction ls generalizing s with
  | nil =>
    rw [run_nil] at h
    rwa [← Option.some.inj h]
  | cons l ls ih =>
    rw [run_cons] at h
    obtain ⟨r, hr, hrun⟩ := Option.bind_eq_some_iff.mp h
    exact ih (hs.step hr) hrun

/-- **A measure that every step lowers bounds every run.** -/
theorem length_add_le_of_run {μ : σ → ℕ} (hstep : ∀ s l t, S.step s l = some t → μ t < μ s)
    {s t : σ} {ls : List ℓ} (h : S.run s ls = some t) : ls.length + μ t ≤ μ s := by
  induction ls generalizing s with
  | nil =>
    rw [run_nil] at h
    rw [Option.some.inj h]
    exact Nat.le_of_eq (Nat.zero_add _)
  | cons l ls ih =>
    rw [run_cons] at h
    obtain ⟨r, hr, hrun⟩ := Option.bind_eq_some_iff.mp h
    have hlt := hstep s l r hr
    have hle := ih hrun
    rw [List.length_cons]
    omega

/-- **Counting labels.**  When a label that is counted lowers `μ` or raises `ν`, and no
label does the opposite, the count is bounded by what either has changed. -/
theorem countP_add_le_of_run (C : ℓ → Bool) (μ ν : σ → ℕ)
    (hstep : ∀ s l t, S.step s l = some t → (if C l then 1 else 0) + μ t + ν s ≤ μ s + ν t)
    {s t : σ} {ls : List ℓ} (h : S.run s ls = some t) :
    ls.countP C + μ t + ν s ≤ μ s + ν t := by
  induction ls generalizing s with
  | nil =>
    rw [run_nil] at h
    rw [Option.some.inj h, List.countP_nil]
    omega
  | cons l ls ih =>
    rw [run_cons] at h
    obtain ⟨r, hr, hrun⟩ := Option.bind_eq_some_iff.mp h
    have hone := hstep s l r hr
    have hle := ih hrun
    rw [List.countP_cons]
    omega

/-- A run whose end passes a test. -/
theorem Reachable.exists_of_run {p : σ → Bool} (ls : List ℓ)
    (h : (S.run S.init ls).any p = true) : ∃ s, S.Reachable s ∧ p s = true := by
  obtain ⟨s, hs, hp⟩ := (Option.any_eq_true _ _).mp h
  exact ⟨s, .of_run .init hs, hp⟩

variable (S) in
/-- The same automaton with the steps that do not meet `C` taken out. -/
def restrict (C : σ → ℓ → Prop) [∀ s l, Decidable (C s l)] : System σ ℓ :=
  ⟨S.init, fun s l => if C s l then S.step s l else none⟩

/-- Evaluating a run with its condition checked on the way. -/
theorem ReachableUnder.of_restrict {C : σ → ℓ → Prop} [∀ s l, Decidable (C s l)] {s : σ}
    (h : (S.restrict C).Reachable s) : S.ReachableUnder C s := by
  refine Reachable.invariant .init (fun s l t hs hstep => ?_) h
  obtain ⟨hC, hstep⟩ := Option.ite_none_right_eq_some.mp hstep
  exact hs.step hC hstep

end System
end Automaton
end RdmaBench
