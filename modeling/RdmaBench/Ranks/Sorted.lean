import Mathlib.Algebra.Order.Floor.Semiring
import Mathlib.Data.List.Sort
import Mathlib.Data.Rat.Floor
import Mathlib.Order.Bounds.Basic

/-!
# Ranks in a list

The `r`-th smallest member of a list is what stands at place `r - 1` once the
list is sorted.  Said without sorting: it is the smallest member that has at
least `r` members at or below it.  The two agree with ties and without
(`isLeast_getElem_sorted`), because the members at or below the one at place `i`
are at least the `i + 1` up to it, and those at or below anything smaller are at
most the `i` before it.

Sorting by a linear order forgets the order of the list (`sorted_congr`).

The nearest-rank percentile of a fraction `p` is the member of rank `⌈p * n⌉`.
For `0 < p ≤ 1` that rank is a place of the list (`rank_pos`, `rank_le`), and
`nearestRank_getElem` reads the percentile off it.
-/

namespace RdmaBench
namespace Ranks

universe u

variable {α : Type u} [LinearOrder α]

/-- The list in order. -/
def sorted (l : List α) : List α := l.mergeSort (· ≤ ·)

variable {l l' : List α} {i : ℕ}

theorem perm_sorted (l : List α) : (sorted l).Perm l := List.mergeSort_perm l _

@[simp] theorem length_sorted (l : List α) : (sorted l).length = l.length :=
  (perm_sorted l).length_eq

theorem sortedLE_sorted (l : List α) : (sorted l).SortedLE := List.sortedLE_mergeSort

/-- **Sorting forgets the order.** -/
theorem sorted_congr (h : l.Perm l') : sorted l = sorted l' :=
  List.Perm.eq_of_sortedLE (sortedLE_sorted l) (sortedLE_sorted l')
    (((perm_sorted l).trans h).trans (perm_sorted l').symm)

/-! ## What stands at a place -/

/-- At or below the member at place `i` are the `i + 1` up to it. -/
theorem succ_le_countP (h : l.SortedLE) (hi : i < l.length) :
    i + 1 ≤ l.countP fun x => decide (x ≤ l[i]) := by
  have hall : ∀ x ∈ l.take (i + 1), decide (x ≤ l[i]) = true := by
    intro x hx
    obtain ⟨j, hj, rfl⟩ := List.mem_take_iff_getElem.mp hx
    exact decide_eq_true (h.getElem_le_getElem_of_le (by omega))
  have hfront : (l.take (i + 1)).countP (fun x => decide (x ≤ l[i])) = i + 1 := by
    rw [List.countP_eq_length.mpr hall, List.length_take]
    omega
  calc i + 1 = (l.take (i + 1)).countP fun x => decide (x ≤ l[i]) := hfront.symm
    _ ≤ l.countP fun x => decide (x ≤ l[i]) := (List.take_sublist _ _).countP_le

/-- At or below anything smaller are at most the `i` before it. -/
theorem countP_le_of_lt (h : l.SortedLE) (hi : i < l.length) {v : α} (hv : v < l[i]) :
    (l.countP fun x => decide (x ≤ v)) ≤ i := by
  have hback : (l.drop i).countP (fun x => decide (x ≤ v)) = 0 := by
    refine List.countP_eq_zero.mpr fun x hx => ?_
    obtain ⟨j, hj, rfl⟩ := List.mem_drop_iff_getElem.mp hx
    have hle : l[i] ≤ l[i + j] := h.getElem_le_getElem_of_le (by omega)
    rw [decide_eq_true_eq, not_le]
    exact lt_of_lt_of_le hv hle
  have hfront : (l.take i).countP (fun x => decide (x ≤ v)) ≤ i :=
    List.countP_le_length.trans (List.length_take_le i l)
  calc (l.countP fun x => decide (x ≤ v))
      = (l.take i).countP (fun x => decide (x ≤ v)) +
          (l.drop i).countP fun x => decide (x ≤ v) := by
        rw [← List.countP_append, List.take_append_drop]
    _ ≤ i := by rw [hback]; exact hfront

/-- **The member at place `i` of a sorted list** is the least that has `i + 1`
members at or below it. -/
theorem isLeast_getElem (h : l.SortedLE) (hi : i < l.length) :
    IsLeast {v | v ∈ l ∧ i + 1 ≤ l.countP fun x => decide (x ≤ v)} l[i] := by
  refine ⟨⟨List.getElem_mem hi, succ_le_countP h hi⟩, ?_⟩
  rintro v ⟨-, hv⟩
  by_contra hlt
  have := countP_le_of_lt h hi (not_le.mp hlt)
  omega

/-- **Ranks without sorting.** -/
theorem isLeast_getElem_sorted (hi : i < (sorted l).length) :
    IsLeast {v | v ∈ l ∧ i + 1 ≤ l.countP fun x => decide (x ≤ v)} (sorted l)[i] := by
  have h := isLeast_getElem (sortedLE_sorted l) hi
  simpa only [(perm_sorted l).mem_iff, (perm_sorted l).countP_eq] using h

/-! ## Nearest-rank percentiles -/

/-- The rank of the fraction `p` among `n` members. -/
def rank (n : ℕ) (p : ℚ) : ℕ := ⌈(n : ℚ) * p⌉₊

/-- The nearest-rank percentile: the smallest member with at least `⌈n * p⌉` of
the `n` members at or below it. -/
def NearestRank (l : List α) (p : ℚ) (v : α) : Prop :=
  IsLeast {v | v ∈ l ∧ rank l.length p ≤ l.countP fun x => decide (x ≤ v)} v

theorem rank_pos {n : ℕ} {p : ℚ} (hn : 0 < n) (hp : 0 < p) : 0 < rank n p :=
  Nat.ceil_pos.mpr (mul_pos (Nat.cast_pos.mpr hn) hp)

theorem rank_le {n : ℕ} {p : ℚ} (hp : p ≤ 1) : rank n p ≤ n := by
  refine Nat.ceil_le.mpr ?_
  calc (n : ℚ) * p ≤ n * 1 := mul_le_mul_of_nonneg_left hp n.cast_nonneg
    _ = n := mul_one _

/-- A larger fraction has no smaller rank. -/
theorem rank_mono {n : ℕ} {p q : ℚ} (h : p ≤ q) : rank n p ≤ rank n q :=
  Nat.ceil_mono (mul_le_mul_of_nonneg_left h n.cast_nonneg)

/-- **The percentile stands at the place before its rank.** -/
theorem nearestRank_getElem {p : ℚ} (hp : 0 < p) (hi : rank l.length p - 1 < (sorted l).length) :
    NearestRank l p (sorted l)[rank l.length p - 1] := by
  have hpos : 0 < l.length := by
    rw [length_sorted] at hi
    omega
  have hrank : rank l.length p - 1 + 1 = rank l.length p := Nat.sub_add_cancel (rank_pos hpos hp)
  have h := isLeast_getElem_sorted hi
  rwa [hrank] at h

end Ranks
end RdmaBench
