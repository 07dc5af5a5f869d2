import Mathlib.Algebra.BigOperators.Group.Finset.Piecewise
import Mathlib.Algebra.Order.BigOperators.Ring.Finset
import Mathlib.Data.List.Nodup

/-!
# First arrivals

A stream of messages is sorted by a *key*: some messages have none, and of those
that share a key only the first counts.  The ledger keeps the first arrival of
each key in order of arrival, and two numbers: how many messages came after
another of their key (`repeats`), how many had no key at all (`strays`).

Everything is a fold over the stream, so each fact is one about entering one
more message and then an induction:

* `length_eq` --- every message is a first arrival, a repeat or a stray;
* `mem_keys_iff`, `mem_firsts_iff` --- the ledger holds the key `k` exactly when
  some message carries it, and holds it with the message `first` finds;
* `sum_firsts`, `countP_firsts` --- what is added up along the ledger is a sum
  over the set of keys that arrived, so it does not mention the order.
-/

namespace RdmaBench
namespace Arrivals

universe u v

variable {κ : Type u} {μ : Type v} [DecidableEq κ] (key : μ → Option κ)

/-- The first arrivals with their keys, and the numbers of later and of keyless
messages. -/
structure Ledger (κ : Type u) (μ : Type v) where
  firsts : List (κ × μ)
  repeats : ℕ
  strays : ℕ

/-- The keys a ledger holds, in order of arrival. -/
def Ledger.keys (L : Ledger κ μ) : List κ := L.firsts.map Prod.fst

/-- One more message. -/
def enter (L : Ledger κ μ) (m : μ) : Ledger κ μ :=
  match key m with
  | none => { L with strays := L.strays + 1 }
  | some k =>
    if k ∈ L.keys then { L with repeats := L.repeats + 1 }
    else { L with firsts := L.firsts ++ [(k, m)] }

/-- The ledger of a stream. -/
def ledger (ms : List μ) : Ledger κ μ := ms.foldl (enter key) ⟨[], 0, 0⟩

/-- The earliest message of a key. -/
def first (ms : List μ) (k : κ) : Option μ := ms.find? fun m => key m = some k

variable {key}

@[simp] theorem ledger_nil : ledger key [] = ⟨[], 0, 0⟩ := rfl

theorem ledger_snoc (ms : List μ) (m : μ) :
    ledger key (ms ++ [m]) = enter key (ledger key ms) m := by
  rw [ledger, List.foldl_append]
  rfl

theorem enter_stray {L : Ledger κ μ} {m : μ} (h : key m = none) :
    enter key L m = { L with strays := L.strays + 1 } := by
  rw [enter, h]

theorem enter_repeat {L : Ledger κ μ} {m : μ} {k : κ} (h : key m = some k) (hk : k ∈ L.keys) :
    enter key L m = { L with repeats := L.repeats + 1 } := by
  rw [enter, h]
  exact if_pos hk

theorem enter_first {L : Ledger κ μ} {m : μ} {k : κ} (h : key m = some k) (hk : k ∉ L.keys) :
    enter key L m = { L with firsts := L.firsts ++ [(k, m)] } := by
  rw [enter, h]
  exact if_neg hk

/-! ## What the ledger holds -/

/-- **Every message is a first arrival, a repeat or a stray.** -/
theorem length_eq (ms : List μ) :
    ms.length = (ledger key ms).firsts.length + (ledger key ms).repeats +
      (ledger key ms).strays := by
  induction ms using List.reverseRecOn with
  | nil => rfl
  | append_singleton ms m ih =>
    rw [List.length_append, List.length_singleton, ledger_snoc]
    cases hm : key m with
    | none =>
      rw [enter_stray hm]
      dsimp only
      omega
    | some k =>
      by_cases hk : k ∈ (ledger key ms).keys
      · rw [enter_repeat hm hk]
        dsimp only
        omega
      · rw [enter_first hm hk]
        simp only [List.length_append, List.length_singleton]
        omega

/-- **The ledger holds the keys that arrived.** -/
theorem mem_keys_iff {ms : List μ} {k : κ} :
    k ∈ (ledger key ms).keys ↔ ∃ m ∈ ms, key m = some k := by
  induction ms using List.reverseRecOn with
  | nil => simp [Ledger.keys]
  | append_singleton ms m ih =>
    have hsplit : (∃ m' ∈ ms ++ [m], key m' = some k) ↔
        (∃ m' ∈ ms, key m' = some k) ∨ key m = some k := by
      simp only [List.mem_append, List.mem_singleton, or_and_right, exists_or, exists_eq_left]
    rw [ledger_snoc, hsplit]
    cases hm : key m with
    | none =>
      rw [enter_stray hm, show k ∈ Ledger.keys { ledger key ms with
        strays := (ledger key ms).strays + 1 } ↔ k ∈ (ledger key ms).keys from Iff.rfl, ih]
      simp
    | some j =>
      by_cases hj : j ∈ (ledger key ms).keys
      · rw [enter_repeat hm hj, show k ∈ Ledger.keys { ledger key ms with
          repeats := (ledger key ms).repeats + 1 } ↔ k ∈ (ledger key ms).keys from Iff.rfl, ih]
        refine ⟨Or.inl, fun h => h.elim id fun hjk => ?_⟩
        obtain rfl : j = k := Option.some.inj hjk
        exact ih.mp hj
      · rw [enter_first hm hj]
        simp only [Ledger.keys, List.map_append, List.map_cons, List.map_nil, List.mem_append,
          List.mem_singleton, Option.some.injEq]
        rw [show k ∈ List.map Prod.fst (ledger key ms).firsts ↔ k ∈ (ledger key ms).keys from
          Iff.rfl, ih, eq_comm (a := k)]

/-- No key is held twice. -/
theorem nodup_keys (ms : List μ) : (ledger key ms).keys.Nodup := by
  induction ms using List.reverseRecOn with
  | nil => exact List.nodup_nil
  | append_singleton ms m ih =>
    rw [ledger_snoc]
    cases hm : key m with
    | none =>
      rw [enter_stray hm]
      exact ih
    | some k =>
      by_cases hk : k ∈ (ledger key ms).keys
      · rw [enter_repeat hm hk]
        exact ih
      · rw [enter_first hm hk, Ledger.keys, List.map_append, List.map_singleton,
          ← List.concat_eq_append]
        exact List.Nodup.concat hk ih

/-- **A key is held with its earliest message.** -/
theorem first_of_mem_firsts {ms : List μ} {p : κ × μ} (hp : p ∈ (ledger key ms).firsts) :
    first key ms p.1 = some p.2 := by
  induction ms using List.reverseRecOn with
  | nil => exact absurd hp (by simp)
  | append_singleton ms m ih =>
    rw [ledger_snoc] at hp
    have hold : p ∈ (ledger key ms).firsts → first key (ms ++ [m]) p.1 = some p.2 := by
      intro h
      rw [first, List.find?_append]
      rw [show ms.find? (fun m => key m = some p.1) = some p.2 from ih h]
      rfl
    cases hm : key m with
    | none =>
      rw [enter_stray hm] at hp
      exact hold hp
    | some k =>
      by_cases hk : k ∈ (ledger key ms).keys
      · rw [enter_repeat hm hk] at hp
        exact hold hp
      · rw [enter_first hm hk] at hp
        rcases List.mem_append.mp hp with h | h
        · exact hold h
        · have hpk : p = (k, m) := List.mem_singleton.mp h
          have hnone : ms.find? (fun m => key m = some k) = none := by
            refine List.find?_eq_none.mpr fun m' hm' => ?_
            rw [decide_eq_true_eq]
            exact fun he => hk (mem_keys_iff.mpr ⟨m', hm', he⟩)
          rw [hpk, first, List.find?_append, hnone, Option.none_or]
          simp [hm]

/-- A duplicate-free list of numbers below `n` is found in full among them. -/
theorem countP_mem_range {l : List ℕ} {n : ℕ} (hl : l.Nodup) (hlt : ∀ k ∈ l, k < n) :
    (List.range n).countP (fun k => decide (k ∈ l)) = l.length := by
  have hperm : ((List.range n).filter fun k => decide (k ∈ l)).Perm l := by
    refine (List.perm_ext_iff_of_nodup (List.nodup_range.filter _) hl).mpr fun k => ?_
    rw [List.mem_filter, List.mem_range, decide_eq_true_eq]
    exact ⟨And.right, fun hk => ⟨hlt k hk, hk⟩⟩
  rw [List.countP_eq_length_filter, hperm.length_eq]

/-! ## Adding up along the ledger -/

/-- **A sum along the ledger is a sum over the keys that arrived.** -/
theorem sum_firsts (ms : List μ) (d : μ) (f : κ → μ → ℕ) :
    ((ledger key ms).firsts.map fun p => f p.1 p.2).sum =
      ∑ k ∈ (ledger key ms).keys.toFinset, f k ((first key ms k).getD d) := by
  rw [List.sum_toFinset _ (nodup_keys ms), Ledger.keys, List.map_map]
  refine congrArg List.sum (List.map_congr_left fun p hp => ?_)
  rw [Function.comp_apply, first_of_mem_firsts hp, Option.getD_some]

/-- The same for a count. -/
theorem countP_firsts (ms : List μ) (d : μ) (P : κ → μ → Bool) :
    (ledger key ms).firsts.countP (fun p => P p.1 p.2) =
      ((ledger key ms).keys.toFinset.filter
        fun k => P k ((first key ms k).getD d) = true).card := by
  rw [Finset.card_filter, ← sum_firsts ms d fun k m => if P k m = true then 1 else 0]
  induction (ledger key ms).firsts with
  | nil => rfl
  | cons p l ih => rw [List.countP_cons, List.map_cons, List.sum_cons, ih, Nat.add_comm]

end Arrivals
end RdmaBench
