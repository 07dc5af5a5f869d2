import RdmaBench.Accuracy.Payload
import RdmaBench.Memory.Slices

/-!
# The slots of the windowed region

An accuracy run registers one region of `window * msg_size` bytes and addresses
it by slots.  All of this is `usize` arithmetic, which wraps in a release build,
and indexing the region by a range panics unless the range is in order and ends
inside.  `SlotFits` is that check.

A wrapped product never gets past it, as long as the slots are visited in order:
a slot that begins inside the region either ends inside or fails the check
(`end_le_of_slotFits`).  With overflow checks the multiplication panics instead,
so in both builds a program that gets past slot `k` has a region that reaches to
the end of slot `k`.
-/

namespace RdmaBench
namespace Accuracy

open Memory

/-- The size of the region a side registers: `window * msg_size`. -/
def regionLen (window msgSize : ℕ) : ℕ := window * msgSize % usizeSize

/-- Byte range of `slot` within the windowed memory region. -/
def slotRange (slot msgSize : ℕ) : ℕ × ℕ :=
  let start := slot * msgSize % usizeSize
  (start, (start + msgSize) % usizeSize)

/-- Whether indexing a region of `len` bytes by the range of `slot` succeeds. -/
def SlotFits (len slot msgSize : ℕ) : Prop :=
  (slotRange slot msgSize).1 ≤ (slotRange slot msgSize).2 ∧ (slotRange slot msgSize).2 ≤ len

instance (len slot msgSize : ℕ) : Decidable (SlotFits len slot msgSize) :=
  inferInstanceAs (Decidable (_ ∧ _))

/-- `fill_payload(&mut mr[slot_range(slot, msg_size)], seq)`. -/
def fillSlot (mr : List UInt8) (msgSize slot seq : ℕ) : List UInt8 :=
  overwrite mr (slotRange slot msgSize).1
    (fillPayload (slice mr (slotRange slot msgSize).1 msgSize) (UInt64.ofNat seq))

theorem regionLen_lt (window msgSize : ℕ) : regionLen window msgSize < usizeSize :=
  Nat.mod_lt _ (by decide)

theorem regionLen_eq {window msgSize : ℕ} (h : window * msgSize < usizeSize) :
    regionLen window msgSize = window * msgSize :=
  Nat.mod_eq_of_lt h

variable {len slot m : ℕ}

/-- A slot inside the region has its range where it should be. -/
theorem slotRange_eq (hlen : len < usizeSize) (h : (slot + 1) * m ≤ len) :
    slotRange slot m = (slot * m, slot * m + m) := by
  rw [Nat.succ_mul] at h
  rw [slotRange, Nat.mod_eq_of_lt (by omega : slot * m < usizeSize), Nat.mod_eq_of_lt (by omega)]

theorem slotFits_of_le (hlen : len < usizeSize) (h : (slot + 1) * m ≤ len) :
    SlotFits len slot m := by
  rw [SlotFits, slotRange_eq hlen h]
  rw [Nat.succ_mul] at h
  exact ⟨Nat.le_add_right _ _, h⟩

/-- **The range check is the bounds check**, for a slot that begins inside the
region: a sum that wraps ends before it starts. -/
theorem end_le_of_slotFits (hlen : len < usizeSize) (hm : m < usizeSize) (hstart : slot * m ≤ len)
    (h : SlotFits len slot m) : (slot + 1) * m ≤ len := by
  obtain ⟨hle, hend⟩ := h
  have hs : slot * m % usizeSize = slot * m := Nat.mod_eq_of_lt (by omega)
  rw [slotRange] at hle hend
  dsimp only at hle hend
  rw [hs] at hle hend
  rw [Nat.succ_mul]
  rcases Nat.lt_or_ge (slot * m + m) usizeSize with hlt | hge
  · rwa [Nat.mod_eq_of_lt hlt] at hend
  · rw [Nat.mod_eq_sub_mod hge, Nat.mod_eq_of_lt (by omega)] at hle
    omega

/-! ## What filling a slot does -/

section Fill

variable {mr : List UInt8} (hlen : mr.length < usizeSize) (hm : headerLen ≤ m)
  (h : (slot + 1) * m ≤ mr.length)

include hlen h

theorem fillSlot_eq (seq : ℕ) :
    fillSlot mr m slot seq = overwrite mr (slot * m) (payload m seq) := by
  rw [fillSlot, slotRange_eq hlen h]
  dsimp only
  rw [fillPayload_eq_payload (m := m) (length_slice (by rw [Nat.succ_mul] at h; exact h))]

include hm

theorem length_fillSlot (seq : ℕ) : (fillSlot mr m slot seq).length = mr.length := by
  rw [fillSlot_eq hlen h, length_overwrite]
  rw [length_payload hm, ← Nat.succ_mul]
  exact h

/-- The slot holds the payload. -/
theorem slice_fillSlot_self (seq : ℕ) :
    slice (fillSlot mr m slot seq) (slot * m) m = payload m seq := by
  rw [fillSlot_eq hlen h, slice_overwrite_self _ (length_payload hm seq)]
  rw [length_payload hm, ← Nat.succ_mul]
  exact h

/-- The other slots are as before. -/
theorem slice_fillSlot_of_ne (seq : ℕ) {other : ℕ} (hne : other ≠ slot) :
    slice (fillSlot mr m slot seq) (other * m) m = slice mr (other * m) m := by
  have hpay : (payload m seq).length = m := length_payload hm seq
  rw [fillSlot_eq hlen h, slice_overwrite_of_disjoint]
  · rw [hpay, ← Nat.succ_mul]
    exact h
  · rw [hpay]
    exact slot_disjoint hne (Nat.le_refl m)

end Fill

/-- Two numbers less than a window apart have different slots. -/
theorem mod_ne_mod_of_lt {a b w : ℕ} (hab : a < b) (hb : b < a + w) : a % w ≠ b % w := by
  intro h
  have hdvd : w ∣ b - a := Nat.dvd_of_mod_eq_zero (Nat.sub_mod_eq_zero_of_mod_eq h.symm)
  exact absurd (Nat.le_of_dvd (by omega) hdvd) (by omega)

end Accuracy
end RdmaBench
