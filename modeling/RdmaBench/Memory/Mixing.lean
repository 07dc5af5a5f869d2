import RdmaBench.Memory.LittleEndian
import Mathlib.Logic.Function.Iterate

/-!
# Words that tell apart what they are made from

Mixing functions of 64-bit words are built from a few steps, each of which loses
nothing: adding a constant, multiplying by an odd constant, and taking the
exclusive or with one's own high bits.  The first is `UInt64.add_left_inj`; the
second is undone by the inverse constant (`mul_injective`); the third by the
shift itself, since a word that equals its own right shift is `0`
(`xorShift_injective`).

What words tell apart can be counted in bytes: two strings of one length that
differ in each of `w` words agree in at most all but `w` bytes
(`matching_add_le`).
-/

namespace RdmaBench
namespace Memory

/-! ## Injective steps -/

/-- **Multiplying by a constant that has an inverse.** -/
theorem mul_injective {c d : UInt64} (h : c * d = 1) :
    Function.Injective fun z : UInt64 => z * c := by
  intro a b hab
  have hcancel (z : UInt64) : z * c * d = z := by rw [UInt64.mul_assoc, h, UInt64.mul_one]
  calc a = a * c * d := (hcancel a).symm
    _ = b * c * d := congrArg (· * d) hab
    _ = b := hcancel b

/-- A word that equals its own right shift is `0`. -/
theorem eq_zero_of_eq_shiftRight {z k : UInt64} (hk : 0 < k.toNat % 64) (h : z = z >>> k) :
    z = 0 := by
  have hnat : z.toNat = z.toNat / 2 ^ (k.toNat % 64) := by
    have h' := congrArg UInt64.toNat h
    rwa [UInt64.toNat_shiftRight, Nat.shiftRight_eq_div_pow] at h'
  have hpow : 1 < 2 ^ (k.toNat % 64) := Nat.one_lt_two_pow hk.ne'
  rw [← UInt64.toNat_inj]
  by_contra hne
  have hlt := Nat.div_lt_self (Nat.pos_of_ne_zero hne) hpow
  omega

/-- **Taking the exclusive or with one's own high bits.** -/
theorem xorShift_injective {k : UInt64} (hk : 0 < k.toNat % 64) :
    Function.Injective fun z : UInt64 => z ^^^ (z >>> k) := by
  intro a b hab
  have hdiff : a ^^^ b = (a ^^^ b) >>> k := by
    have hzero : (a ^^^ (a >>> k)) ^^^ (b ^^^ (b >>> k)) = 0 := UInt64.xor_eq_zero_iff.mpr hab
    rw [UInt64.shiftRight_xor, ← UInt64.xor_eq_zero_iff, ← hzero]
    ac_rfl
  exact UInt64.xor_eq_zero_iff.mp (eq_zero_of_eq_shiftRight hk hdiff)

/-! ## Words of a byte string -/

/-- The `j`-th of the words of `s` bytes that a string is cut into. -/
def wordAt (s j : ℕ) (bytes : List UInt8) : List UInt8 := (bytes.drop (s * j)).take s

theorem wordAt_zero (s : ℕ) (bytes : List UInt8) : wordAt s 0 bytes = bytes.take s := by
  rw [wordAt, Nat.mul_zero, List.drop_zero]

theorem wordAt_succ (s j : ℕ) (bytes : List UInt8) :
    wordAt s (j + 1) bytes = wordAt s j (bytes.drop s) := by
  rw [wordAt, wordAt, List.drop_drop, Nat.mul_succ, Nat.add_comm s]

theorem matching_append {a b c d : List UInt8} (h : a.length = c.length) :
    matching (a ++ b) (c ++ d) = matching a c + matching b d := by
  rw [matching, List.zip_append h, List.countP_append, matching, matching]

/-- Strings of one length that differ do not agree everywhere. -/
theorem matching_lt {a b : List UInt8} (hlen : a.length = b.length) (h : a ≠ b) :
    matching a b < a.length := by
  refine lt_of_le_of_ne (matching_le_left a b) fun heq => h ?_
  exact (matching_eq_length_iff hlen.le).mp (heq.trans hlen)

/-- **Each word that differs costs a byte.** -/
theorem matching_add_le {s w : ℕ} {a b : List UInt8} (hlen : a.length = b.length)
    (hw : s * w ≤ a.length) (hne : ∀ j < w, wordAt s j a ≠ wordAt s j b) :
    matching a b + w ≤ a.length := by
  induction w generalizing a b with
  | zero => exact matching_le_left a b
  | succ w ih =>
    rw [Nat.mul_succ] at hw
    have hfront : (a.take s).length = (b.take s).length := by
      rw [List.length_take, List.length_take, hlen]
    have hback : (a.drop s).length = (b.drop s).length := by
      rw [List.length_drop, List.length_drop, hlen]
    have hfirst : matching (a.take s) (b.take s) < (a.take s).length := by
      refine matching_lt hfront ?_
      have h := hne 0 w.succ_pos
      rwa [wordAt_zero, wordAt_zero] at h
    have hrest : matching (a.drop s) (b.drop s) + w ≤ (a.drop s).length := by
      refine ih hback (by rw [List.length_drop]; omega) fun j hj => ?_
      have h := hne (j + 1) (Nat.succ_lt_succ hj)
      rwa [wordAt_succ, wordAt_succ] at h
    have hsplit : matching a b =
        matching (a.take s) (b.take s) + matching (a.drop s) (b.drop s) := by
      rw [← matching_append hfront, List.take_append_drop, List.take_append_drop]
    rw [List.length_take] at hfirst
    rw [List.length_drop] at hrest
    omega

end Memory
end RdmaBench
