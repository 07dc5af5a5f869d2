import Mathlib.Data.List.Basic
import Mathlib.Tactic.Ring

/-!
# Little-endian words and differing bits

`leBytes n v` writes the low `n` bytes of a number, least significant first, and
`leValue` reads such bytes back, as far as the width allows (`leValue_leBytes`),
which is all that a fixed-width header needs.

Two equally placed bytes are compared bit by bit through their exclusive or:
`countOnes (a ^^^ b)` is the number of places where `a` and `b` differ, so it is
`0` exactly for equal bytes and never more than `8`.  `hamming`, `agreeing` and
`matching` add up, along two byte strings, the differing bits, the agreeing bits
and the agreeing bytes.
-/

namespace RdmaBench
namespace Memory

/-! ## Words as bytes -/

/-- The low `n` bytes of `v`, least significant first. -/
def leBytes : ℕ → ℕ → List UInt8
  | 0, _ => []
  | n + 1, v => UInt8.ofNat v :: leBytes n (v / 256)

/-- The number a little-endian byte string stands for. -/
def leValue : List UInt8 → ℕ
  | [] => 0
  | b :: bs => b.toNat + 256 * leValue bs

@[simp] theorem length_leBytes (n v : ℕ) : (leBytes n v).length = n := by
  induction n generalizing v with
  | zero => rfl
  | succ n ih => rw [leBytes, List.length_cons, ih]

theorem leValue_leBytes {n v : ℕ} (h : v < 256 ^ n) : leValue (leBytes n v) = v := by
  induction n generalizing v with
  | zero =>
    rw [pow_zero] at h
    rw [leBytes, leValue]
    omega
  | succ n ih =>
    rw [leBytes, leValue, ih (by rw [pow_succ] at h; omega), UInt8.toNat_ofNat']
    omega

theorem leValue_lt (bs : List UInt8) : leValue bs < 256 ^ bs.length := by
  induction bs with
  | nil => exact Nat.one_pos
  | cons b bs ih =>
    have hb : b.toNat < 256 := b.toNat_lt
    rw [leValue, List.length_cons, pow_succ]
    omega

/-! ## Differing bits -/

/-- The number of one bits of a byte. -/
def countOnes (b : UInt8) : ℕ := (List.range 8).countP fun i => b.toNat.testBit i

theorem countOnes_le (b : UInt8) : countOnes b ≤ 8 := by
  have h := List.countP_le_length (p := fun i => b.toNat.testBit i) (l := List.range 8)
  rwa [List.length_range] at h

theorem countOnes_eq_zero_iff {b : UInt8} : countOnes b = 0 ↔ b = 0 := by
  constructor
  · intro h
    rw [countOnes, List.countP_eq_zero] at h
    rw [← UInt8.toNat_inj]
    refine Nat.eq_of_testBit_eq fun i => ?_
    rw [show (0 : UInt8).toNat = 0 from rfl, Nat.zero_testBit]
    by_cases hi : i < 8
    · exact Bool.eq_false_iff.mpr (h i (List.mem_range.mpr hi))
    · have hb : b.toNat < 2 ^ i :=
        lt_of_lt_of_le b.toNat_lt (Nat.pow_le_pow_right (by norm_num) (Nat.le_of_not_lt hi))
      exact Nat.testBit_lt_two_pow hb
  · rintro rfl
    decide

/-- The number of bits in which two byte strings differ, as far as both reach. -/
def hamming (a b : List UInt8) : ℕ := ((a.zip b).map fun p => countOnes (p.1 ^^^ p.2)).sum

/-- The number of positions at which two byte strings agree. -/
def matching (a b : List UInt8) : ℕ := (a.zip b).countP fun p => p.1 == p.2

theorem hamming_self (a : List UInt8) : hamming a a = 0 := by
  induction a with
  | nil => rfl
  | cons x a ih =>
    rw [hamming, List.zip_cons_cons, List.map_cons, List.sum_cons,
      show ((a.zip a).map fun p => countOnes (p.1 ^^^ p.2)).sum = 0 from ih,
      UInt8.xor_self, countOnes_eq_zero_iff.mpr rfl]

theorem matching_self (a : List UInt8) : matching a a = a.length := by
  induction a with
  | nil => rfl
  | cons x a ih =>
    rw [matching, List.zip_cons_cons, List.countP_cons,
      show ((a.zip a).countP fun p => p.1 == p.2) = a.length from ih]
    simp

theorem matching_le_left (a b : List UInt8) : matching a b ≤ a.length := by
  refine le_trans List.countP_le_length ?_
  rw [List.length_zip]
  exact Nat.min_le_left _ _

/-- **Agreement everywhere is equality.**  Among strings no longer than `b`, only
`b` itself agrees with `b` at `b.length` positions. -/
theorem matching_eq_length_iff {a b : List UInt8} (h : a.length ≤ b.length) :
    matching a b = b.length ↔ a = b := by
  constructor
  · intro hm
    have hlen : a.length = b.length :=
      le_antisymm h (hm ▸ matching_le_left a b)
    have hall : ∀ p ∈ a.zip b, (p.1 == p.2) = true := by
      refine List.countP_eq_length.mp ?_
      rw [List.length_zip, hlen, Nat.min_self]
      exact hm
    refine List.ext_getElem hlen fun i h₁ h₂ => ?_
    have hmem : (a[i], b[i]) ∈ a.zip b := by
      have hz : i < (a.zip b).length := by rw [List.length_zip]; omega
      rw [← List.getElem_zip (h := hz)]
      exact List.getElem_mem hz
    exact eq_of_beq (hall _ hmem)
  · rintro rfl
    exact matching_self a

/-- The number of bits in which two byte strings agree, as far as both reach. -/
def agreeing (a b : List UInt8) : ℕ :=
  ((a.zip b).map fun p => 8 - countOnes (p.1 ^^^ p.2)).sum

/-- Each bit compared either agrees or differs. -/
theorem agreeing_add_hamming (a b : List UInt8) :
    agreeing a b + hamming a b = 8 * (a.zip b).length := by
  rw [agreeing, hamming]
  induction a.zip b with
  | nil => rfl
  | cons p l ih =>
    have hle := countOnes_le (p.1 ^^^ p.2)
    simp only [List.map_cons, List.sum_cons, List.length_cons]
    omega

theorem agreeing_self (a : List UInt8) : agreeing a a = 8 * a.length := by
  have h := agreeing_add_hamming a a
  rwa [hamming_self, List.length_zip, Nat.min_self, Nat.add_zero] at h

/-- An agreeing byte agrees in all of its eight bits. -/
theorem matching_le_agreeing (a b : List UInt8) : 8 * matching a b ≤ agreeing a b := by
  rw [agreeing, matching]
  induction a.zip b with
  | nil => exact Nat.le_refl _
  | cons p l ih =>
    rw [List.countP_cons, List.map_cons, List.sum_cons]
    by_cases hp : p.1 = p.2
    · have hzero : countOnes (p.1 ^^^ p.2) = 0 :=
        countOnes_eq_zero_iff.mpr (UInt8.xor_eq_zero_iff.mpr hp)
      rw [hzero, if_pos (beq_iff_eq.mpr hp)]
      omega
    · rw [if_neg (by simpa using hp)]
      omega

/-- No differing bit means agreement at every position compared. -/
theorem matching_eq_of_hamming_eq_zero {a b : List UInt8} (h : hamming a b = 0) :
    matching a b = (a.zip b).length := by
  refine List.countP_eq_length.mpr fun p hp => ?_
  have hzero := List.sum_eq_zero_iff_forall_eq_nat.mp h (countOnes (p.1 ^^^ p.2))
    (List.mem_map.mpr ⟨p, hp, rfl⟩)
  rw [beq_iff_eq]
  exact UInt8.xor_eq_zero_iff.mp (countOnes_eq_zero_iff.mp hzero)

/-- **Agreement in every bit is equality.** -/
theorem agreeing_eq_length_iff {a b : List UInt8} (h : a.length ≤ b.length) :
    agreeing a b = 8 * b.length ↔ a = b := by
  constructor
  · intro ha
    have hsum := agreeing_add_hamming a b
    rw [List.length_zip, Nat.min_eq_left h] at hsum
    have hzero : hamming a b = 0 := by omega
    have hmatch := matching_eq_of_hamming_eq_zero hzero
    rw [List.length_zip, Nat.min_eq_left h] at hmatch
    exact (matching_eq_length_iff h).mp (by omega)
  · rintro rfl
    exact agreeing_self a

end Memory
end RdmaBench
