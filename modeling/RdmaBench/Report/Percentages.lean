import RdmaBench.Accuracy.Receive
import RdmaBench.Report.Rows

/-!
# The percentages of an accuracy row

The two percentages are three `f64` operations each, on two counters and a product.
`Rounded` is what is used of `f64` here: an operation is the exact one and then a
rounding, which keeps the order, leaves the numbers that have a representation, and
commutes with a multiplication by eight.

That is enough for the order of the row (`percentages`): the bytes that are right are
never more, in percent, than the bits, and neither is more than a hundred.  The
counters bring it in, since a right byte is eight right bits.  That a hundred percent
means that nothing was lost or damaged is a matter of the exact quotient alone.
-/

namespace RdmaBench
namespace Accuracy

open Report

/-- What the counters of a report are to each other. -/
structure Marks (m n : ℕ) (r : AccuracyReport) : Prop where
  msgSize : r.msgSize = m
  sent : r.sent = n
  bits : 8 * r.correctBytes.toNat ≤ r.correctBits.toNat
  bits_le : r.correctBits.toNat ≤ 8 * (n * m)
  full : r.correctBytes.toNat = n * m ↔ r.lost = 0 ∧ r.corrupted = 0
  full_bits : r.correctBits.toNat = 8 * (n * m) ↔ r.lost = 0 ∧ r.corrupted = 0

/-- **Every report has them.** -/
theorem receive_marks {m n : ℕ} (hm : headerLen ≤ m) (hfit : 8 * n * m < 2 ^ 64) (hn : 1 ≤ n)
    (polls : List (List (List UInt8))) (hlen : ∀ msg ∈ polls.flatten, msg.length ≤ m) :
    Marks m n (receive m n polls) := by
  have hsize : m < 2 ^ 64 := by
    have hle : 1 * m ≤ 8 * n * m := Nat.mul_le_mul_right m (by omega)
    omega
  have hcard := card_identified_le n (polled n polls).flatten
  have hfa : ∀ k ∈ identified n (polled n polls).flatten,
      (firstArrival (polled n polls).flatten k).length ≤ m :=
    fun k hk => length_firstArrival_le polls hlen hk
  obtain ⟨hsent, -, -, hlost⟩ := receive_counts (n := n) hm hsize polls hlen
  obtain ⟨-, hcorr, hbytes, hbits⟩ := receive_judged (n := n) hm hsize polls hlen
  obtain ⟨hle, hadd, hmul, -⟩ := credit_bounds hm hfa
  obtain ⟨hfull, hfullBits⟩ := full_credit_iff hm hfa
  have hbytesNat := (congrArg UInt64.toNat hbytes).trans (toNat_credit hfit hcard (by omega))
  have hbitsNat := (congrArg UInt64.toNat hbits).trans (toNat_credit hfit hcard hle)
  rw [← hcorr, ← hbytesNat] at hfull hadd
  rw [← hcorr, ← hbitsNat] at hfullBits
  rw [← hbytesNat, ← hbitsNat] at hmul
  rw [← hbitsNat] at hle
  have hrun : 8 * m * (identified n (polled n polls).flatten).card ≤ 8 * (n * m) := by
    calc 8 * m * (identified n (polled n polls).flatten).card ≤ 8 * m * n :=
          Nat.mul_le_mul_left _ hcard
      _ = 8 * (n * m) := by ring
  refine ⟨?_, hsent, hmul, Nat.le_trans hle hrun, ?_, ?_⟩
  · exact (receive_asked m n polls).1
  · rw [Nat.mul_comm n m]
    exact full_marks_iff (Nat.lt_of_lt_of_le (by decide) hm) hlost (by omega) hfull
  · rw [show 8 * (n * m) = 8 * m * n by ring]
    have hpos : 0 < 8 * m := Nat.mul_pos (by decide) (Nat.lt_of_lt_of_le (by decide) hm)
    exact full_marks_iff hpos hlost hle hfullBits

end Accuracy

namespace Report

open Accuracy

/-- The operations of the percentages are exact ones with a rounding after each. -/
structure Floats.Rounded (F : Floats ℚ) (round : ℚ → ℚ) : Prop where
  ofNat : ∀ n, F.ofNat n = round n
  mul : ∀ x y, F.mul x y = round (x * y)
  div : ∀ x y, y ≠ 0 → F.div x y = round (x / y)
  mono : Monotone round
  idem : ∀ x, round (round x) = round x
  zero : round 0 = 0
  one : round 1 = 1
  hundred : round 100 = 100
  eight : ∀ n : ℕ, n < usizeSize → round (8 * n) = 8 * round n

section

variable {F : Floats ℚ} {round : ℚ → ℚ} {r : AccuracyReport} {m n : ℕ}

/-- A rounded percentage of `x` in `t`. -/
def percent (round : ℚ → ℚ) (x t : ℚ) : ℚ := round (round (x / t) * 100)

theorem percent_mono (hF : F.Rounded round) {x y t : ℚ} (ht : 0 < t) (h : x ≤ y) :
    percent round x t ≤ percent round y t := by
  refine hF.mono ?_
  have hdiv : round (x / t) ≤ round (y / t) := hF.mono (by gcongr)
  linarith

theorem percent_zero (hF : F.Rounded round) (t : ℚ) : percent round 0 t = 0 := by
  rw [percent, zero_div, hF.zero, zero_mul, hF.zero]

theorem percent_self (hF : F.Rounded round) {t : ℚ} (ht : 0 < t) : percent round t t = 100 := by
  rw [percent, div_self ht.ne', hF.one, one_mul, hF.hundred]

theorem one_le_round (hF : F.Rounded round) {k : ℕ} (hk : 0 < k) : 1 ≤ round k := by
  have hle : round 1 ≤ round k := hF.mono (by exact_mod_cast hk)
  rwa [hF.one] at hle

theorem round_eight (hF : F.Rounded round) : round 8 = 8 := by
  have h := hF.eight 1 (by decide)
  rwa [Nat.cast_one, hF.one, mul_one] at h

theorem totalBytes_eq (hF : F.Rounded round) (hr : Marks m n r)
    (hfit : n * m < usizeSize) : totalBytes F r = round (n * m : ℕ) := by
  rw [totalBytes, hr.msgSize, hr.sent, Nat.mod_eq_of_lt hfit, hF.ofNat]

theorem byteAcc_eq (hF : F.Rounded round) (hr : Marks m n r)
    (hfit : n * m < usizeSize) (hpos : 0 < n * m) :
    byteAcc F r = percent round (round r.correctBytes.toNat) (round (n * m : ℕ)) := by
  have htotal := one_le_round hF hpos
  rw [byteAcc, totalBytes_eq hF hr hfit, hF.ofNat, hF.ofNat, hF.div _ _ (by linarith), hF.mul,
    Nat.cast_ofNat, hF.hundred, percent]

/-- The divisor of the bits is eight times the one of the bytes. -/
theorem bitAcc_eq (hF : F.Rounded round) (hr : Marks m n r)
    (hfit : n * m < usizeSize) (hpos : 0 < n * m) :
    bitAcc F r = percent round (round r.correctBits.toNat) (8 * round (n * m : ℕ)) := by
  have htotal := one_le_round hF hpos
  have hdivisor : F.mul (round (n * m : ℕ)) (F.ofNat 8) = 8 * round (n * m : ℕ) := by
    rw [hF.mul, hF.ofNat, Nat.cast_ofNat, round_eight hF, mul_comm, ← hF.eight _ hfit, hF.idem]
  rw [bitAcc, totalBytes_eq hF hr hfit, hdivisor, hF.ofNat, hF.ofNat,
    hF.div _ _ (by linarith), hF.mul, Nat.cast_ofNat, hF.hundred, percent]

/-- The bytes, counted in bits. -/
theorem byteAcc_eq_eight (hF : F.Rounded round) (hr : Marks m n r)
    (hfit : n * m < usizeSize) (hpos : 0 < n * m) :
    byteAcc F r = percent round (round (8 * r.correctBytes.toNat)) (8 * round (n * m : ℕ)) := by
  have hlt : r.correctBytes.toNat < usizeSize := r.correctBytes.toNat_lt
  rw [byteAcc_eq hF hr hfit hpos, hF.eight _ hlt, percent, percent,
    mul_div_mul_left _ _ (by norm_num : (8 : ℚ) ≠ 0)]

theorem percent_eq_hundred_iff (hid : ∀ x, round x = x) {x t : ℕ} (ht : 0 < t) :
    percent round x t = 100 ↔ x = t := by
  have htq : (t : ℚ) ≠ 0 := by exact_mod_cast ht.ne'
  rw [percent, hid, hid]
  constructor
  · intro h
    have hone : (x : ℚ) / t = 1 := by linarith
    exact_mod_cast (div_eq_one_iff_eq htq).mp hone
  · rintro rfl
    rw [div_self htq]
    norm_num

end

/-- **The percentages of every accuracy report are in order.**  Both are between nothing
and a hundred, the bytes come to no more than the bits, and they are a hundred when
nothing was lost or damaged.  Only in exact arithmetic do they say so as well. -/
theorem percentages {F : Floats ℚ} {round : ℚ → ℚ} (hF : F.Rounded round) {m n : ℕ}
    (hm : headerLen ≤ m) (hn : 1 ≤ n) (hfit : 8 * n * m < 2 ^ 64)
    (polls : List (List (List UInt8))) (hlen : ∀ msg ∈ polls.flatten, msg.length ≤ m) :
    let r := receive m n polls
    0 ≤ byteAcc F r ∧ byteAcc F r ≤ bitAcc F r ∧ bitAcc F r ≤ 100 ∧
    (r.lost = 0 ∧ r.corrupted = 0 → byteAcc F r = 100 ∧ bitAcc F r = 100) ∧
    ((∀ x, round x = x) → (byteAcc F r = 100 ↔ r.lost = 0 ∧ r.corrupted = 0) ∧
      (bitAcc F r = 100 ↔ r.lost = 0 ∧ r.corrupted = 0)) := by
  intro r
  have hr : Marks m n r := receive_marks hm hfit hn polls hlen
  have hsize : n * m < usizeSize := by
    have hle : 1 * (n * m) ≤ 8 * (n * m) := Nat.mul_le_mul_right _ (by decide)
    rw [Nat.mul_assoc] at hfit
    show n * m < 2 ^ 64
    omega
  have hpos : 0 < n * m := Nat.mul_pos hn (Nat.lt_of_lt_of_le (by decide) hm)
  have htotal := one_le_round hF hpos
  have hdivisor : 0 < 8 * round (n * m : ℕ) := by linarith
  have hbyte := byteAcc_eq hF hr hsize hpos
  have hbit := bitAcc_eq hF hr hsize hpos
  refine ⟨?_, ?_, ?_, ?_, ?_⟩
  · have hnonneg : 0 ≤ round r.correctBytes.toNat := by
      rw [← hF.zero]
      exact hF.mono (Nat.cast_nonneg _)
    rw [hbyte, ← percent_zero hF (round (n * m : ℕ))]
    exact percent_mono hF (by linarith) hnonneg
  · rw [byteAcc_eq_eight hF hr hsize hpos, hbit]
    exact percent_mono hF hdivisor (hF.mono (by exact_mod_cast hr.bits))
  · have hle : round r.correctBits.toNat ≤ 8 * round (n * m : ℕ) := by
      rw [← hF.eight _ hsize]
      exact hF.mono (by exact_mod_cast hr.bits_le)
    rw [hbit, ← percent_self hF hdivisor]
    exact percent_mono hF hdivisor hle
  · intro hfull
    rw [hbyte, hbit, hr.full.mpr hfull, hr.full_bits.mpr hfull]
    refine ⟨percent_self hF (by linarith), ?_⟩
    rw [Nat.cast_mul, Nat.cast_ofNat, hF.eight _ hsize]
    exact percent_self hF hdivisor
  · intro hid
    rw [hbyte, hbit, hid, hid, hid]
    refine ⟨(percent_eq_hundred_iff hid hpos).trans hr.full, ?_⟩
    rw [show 8 * ((n * m : ℕ) : ℚ) = (8 * (n * m) : ℕ) by push_cast; ring]
    exact (percent_eq_hundred_iff hid (Nat.mul_pos (by decide) hpos)).trans hr.full_bits

/-- Exact arithmetic. -/
def exactFloats : Floats ℚ :=
  { sum := List.sum, ofNat := fun n => n, sub := fun x y => x - y, div := fun x y => x / y,
    square := fun x => x * x, sqrt := id, zero := 0, mul := fun x y => x * y,
    fixed := fun _ x => toString x }

theorem exactFloats_rounded : exactFloats.Rounded id :=
  ⟨fun _ => rfl, fun _ _ => rfl, fun _ _ _ => rfl, monotone_id, fun _ => rfl, rfl, rfl, rfl,
    fun _ _ => rfl⟩

/-- One of two messages, whole. -/
theorem percentages_lost_one :
    byteAcc exactFloats (receive 8 2 [[payload 8 0]]) ≤
      bitAcc exactFloats (receive 8 2 [[payload 8 0]]) :=
  (percentages exactFloats_rounded (m := 8) (n := 2) (by decide) (by decide) (by decide)
    [[payload 8 0]] (by decide)).2.1

end Report
end RdmaBench
