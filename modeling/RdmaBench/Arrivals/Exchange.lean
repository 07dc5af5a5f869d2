import Mathlib.Data.List.Perm.Basic

/-!
# Folds in another order

A fold over a stream whose states differ in any two orders may still leave the
same thing behind, as far as one looks.  What one looks at is a partial
equivalence `r` of states: a state that is not related to itself is one the fold
does not meet.

`foldl_perm` asks two things of the step, that it respects `r`, and that two
neighbours may change places up to `r`.  The second is asked only of members of
the list, so it may rest on what the list as a whole is like.
-/

namespace RdmaBench
namespace Arrivals

universe u v

variable {σ : Type u} {μ : Type v} {r : σ → σ → Prop} {step : σ → μ → σ}

/-- A step that respects the relation is a fold that does. -/
theorem foldl_congr (hstep : ∀ s t x, r s t → r (step s x) (step t x)) (xs : List μ) {s t : σ}
    (h : r s t) : r (xs.foldl step s) (xs.foldl step t) := by
  induction xs generalizing s t with
  | nil => exact h
  | cons x xs ih =>
    rw [List.foldl_cons, List.foldl_cons]
    exact ih (hstep s t x h)

/-- **A fold whose neighbours may change places does not see the order.** -/
theorem foldl_perm (hsymm : ∀ s t, r s t → r t s) (htrans : ∀ s t u, r s t → r t u → r s u)
    (hstep : ∀ s t x, r s t → r (step s x) (step t x)) {xs ys : List μ} (hperm : xs.Perm ys)
    (hswap : ∀ x ∈ xs, ∀ y ∈ xs, ∀ s, r s s → r (step (step s x) y) (step (step s y) x))
    {s t : σ} (h : r s t) : r (xs.foldl step s) (ys.foldl step t) := by
  induction hperm generalizing s t with
  | nil => exact h
  | cons x _ ih =>
    rw [List.foldl_cons, List.foldl_cons]
    refine ih (fun y hy z hz => hswap y ?_ z ?_) (hstep s t x h)
    · exact List.mem_cons_of_mem x hy
    · exact List.mem_cons_of_mem x hz
  | swap x y xs =>
    have hself : r s s := htrans _ _ _ h (hsymm _ _ h)
    have hy : y ∈ y :: x :: xs := List.mem_cons_self
    have hx : x ∈ y :: x :: xs := List.mem_cons_of_mem y List.mem_cons_self
    have hhead : r (step (step s y) x) (step (step t x) y) :=
      htrans _ _ _ (hswap y hy x hx s hself) (hstep _ _ y (hstep s t x h))
    exact foldl_congr hstep xs hhead
  | trans hxy _ ih₁ ih₂ =>
    have hself : r t t := htrans _ _ _ (hsymm _ _ h) h
    refine htrans _ _ _ (ih₁ hswap h) (ih₂ (fun x hx y hy => hswap x ?_ y ?_) hself)
    · exact hxy.mem_iff.mpr hx
    · exact hxy.mem_iff.mpr hy

end Arrivals
end RdmaBench
