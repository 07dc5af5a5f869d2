import Mathlib.Data.List.Basic

/-!
# Ranges of a buffer

A registered buffer is a list, and the programs touch it one range at a time:
`slice l s n` is what stands in the `n` cells from `s` on, `overwrite l s b`
puts `b` there.  Four facts carry everything a windowed buffer needs, and all of
them ask only that the written range lie inside the buffer:

* `length_overwrite` --- writing does not move the end of the buffer;
* `slice_overwrite_front`, `slice_overwrite_self` --- the written cells read
  back;
* `slice_overwrite_of_disjoint` --- a range apart from the written one does not
  notice;
* `slot_disjoint` --- the ranges `i * m, …, i * m + m` of two different slots
  are apart.
-/

namespace RdmaBench
namespace Memory

universe u

variable {α : Type u}

/-- The `n` cells from `s` on. -/
def slice (l : List α) (s n : ℕ) : List α := (l.drop s).take n

/-- The buffer with `b` written from `s` on. -/
def overwrite (l : List α) (s : ℕ) (b : List α) : List α :=
  l.take s ++ (b ++ l.drop (s + b.length))

theorem length_slice {l : List α} {s n : ℕ} (h : s + n ≤ l.length) :
    (slice l s n).length = n := by
  rw [slice, List.length_take, List.length_drop]
  omega

theorem length_overwrite {l b : List α} {s : ℕ} (h : s + b.length ≤ l.length) :
    (overwrite l s b).length = l.length := by
  rw [overwrite, List.length_append, List.length_append, List.length_take, List.length_drop]
  omega

theorem drop_overwrite {l b : List α} {s : ℕ} (h : s + b.length ≤ l.length) :
    (overwrite l s b).drop s = b ++ l.drop (s + b.length) := by
  have hs : (l.take s).length = s := by
    rw [List.length_take]
    omega
  rw [overwrite, List.drop_append, hs, Nat.sub_self, List.drop_zero,
    List.drop_eq_nil_of_le (by omega), List.nil_append]

/-- **The written cells read back**, also through a shorter read. -/
theorem slice_overwrite_front {l b : List α} {s n : ℕ} (h : s + b.length ≤ l.length)
    (hn : n ≤ b.length) : slice (overwrite l s b) s n = b.take n := by
  rw [slice, drop_overwrite h, List.take_append_of_le_length hn]

theorem slice_overwrite_self {l b : List α} {s n : ℕ} (h : s + b.length ≤ l.length)
    (hn : b.length = n) : slice (overwrite l s b) s n = b := by
  rw [slice_overwrite_front h (Nat.le_of_eq hn.symm), ← hn, List.take_length]

/-- **A range apart from the written one does not notice the write.** -/
theorem slice_overwrite_of_disjoint {l b : List α} {s t n : ℕ}
    (h : s + b.length ≤ l.length) (hd : t + n ≤ s ∨ s + b.length ≤ t) :
    slice (overwrite l s b) t n = slice l t n := by
  have hs : (l.take s).length = s := by
    rw [List.length_take]
    omega
  rcases hd with hbefore | hafter
  · have hlen : n ≤ ((l.take s).drop t).length := by
      rw [List.length_drop, hs]
      omega
    rw [slice, overwrite, List.drop_append_of_le_length (by omega),
      List.take_append_of_le_length hlen, List.drop_take, List.take_take,
      Nat.min_eq_left (by omega), slice]
  · obtain ⟨k, rfl⟩ := Nat.exists_eq_add_of_le hafter
    have hdrop : (overwrite l s b).drop (s + b.length + k) = l.drop (s + b.length + k) := by
      rw [show s + b.length + k = s + (b.length + k) by omega, ← List.drop_drop,
        drop_overwrite h, List.drop_append, List.drop_eq_nil_of_le (by omega), List.nil_append,
        List.drop_drop]
      congr 1
      omega
    rw [slice, hdrop, slice]

/-- **The ranges of two different slots are apart.** -/
theorem slot_disjoint {i j m n : ℕ} (hij : i ≠ j) (hn : n ≤ m) :
    i * m + n ≤ j * m ∨ j * m + m ≤ i * m := by
  rcases Nat.lt_or_gt_of_ne hij with hlt | hgt
  · left
    calc i * m + n ≤ i * m + m := Nat.add_le_add_left hn _
      _ = (i + 1) * m := (Nat.succ_mul i m).symm
      _ ≤ j * m := Nat.mul_le_mul_right m hlt
  · right
    calc j * m + m = (j + 1) * m := (Nat.succ_mul j m).symm
      _ ≤ i * m := Nat.mul_le_mul_right m hgt

end Memory
end RdmaBench
