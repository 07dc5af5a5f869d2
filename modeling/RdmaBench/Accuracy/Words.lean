import RdmaBench.Accuracy.Check
import RdmaBench.Memory.Mixing

/-!
# A message under another's number

When a header is corrupted into another number of the run, the message is judged
against that number's payload.  It counts as damaged only if the two payloads
differ in their bodies, and it earns little only if they differ nearly
everywhere.

The words of a body are splitmix64 outputs, started from the sequence number.
Each step of the generator is injective (`nextWord_fst_injective`,
`nextWord_snd_injective`), so at one and the same position two numbers never
yield one word (`wordOf_injective`), and `fillPayload` writes these words
(`wordAt_fillPayload`).  A message readdressed to `b` therefore differs from the
payload of `b` in every full word of the body, and loses a byte for each.
-/

namespace RdmaBench
namespace Accuracy

open Memory

/-! ## The generator tells numbers apart -/

theorem nextWord_fst_injective : Function.Injective fun state => (nextWord state).1 := by
  intro a b hab
  exact (UInt64.add_left_inj _).mp hab

/-- **The yielded word determines the state.** -/
theorem nextWord_snd_injective : Function.Injective fun state => (nextWord state).2 := by
  have hshift30 : Function.Injective fun z : UInt64 => z ^^^ (z >>> 30) :=
    xorShift_injective (by decide)
  have hshift27 : Function.Injective fun z : UInt64 => z ^^^ (z >>> 27) :=
    xorShift_injective (by decide)
  have hshift31 : Function.Injective fun z : UInt64 => z ^^^ (z >>> 31) :=
    xorShift_injective (by decide)
  have hmul₁ : Function.Injective fun z : UInt64 => z * 0xBF58476D1CE4E5B9 :=
    mul_injective (d := 0x96DE1B173F119089) (by decide)
  have hmul₂ : Function.Injective fun z : UInt64 => z * 0x94D049BB133111EB :=
    mul_injective (d := 0x319642B2D24D8EC3) (by decide)
  intro a b hab
  exact nextWord_fst_injective (hshift30 (hmul₁ (hshift27 (hmul₂ (hshift31 hab)))))

/-- The `j`-th word of the body of message `seq`. -/
def wordOf (j : ℕ) (seq : UInt64) : UInt64 :=
  (nextWord ((fun state => (nextWord state).1)^[j] seq)).2

theorem wordOf_zero (seq : UInt64) : wordOf 0 seq = (nextWord seq).2 := rfl

theorem wordOf_succ (j : ℕ) (seq : UInt64) : wordOf (j + 1) seq = wordOf j (nextWord seq).1 := by
  rw [wordOf, Function.iterate_succ_apply, wordOf]

/-- **At one position, different numbers have different words.** -/
theorem wordOf_injective (j : ℕ) : Function.Injective (wordOf j) :=
  nextWord_snd_injective.comp (nextWord_fst_injective.iterate j)

theorem toLeBytes_injective : Function.Injective toLeBytes :=
  Function.LeftInverse.injective fromLeBytes_toLeBytes

/-! ## The words `fillPayload` writes -/

/-- The full words of the body, from any state. -/
theorem wordAt_fillBody {buf : List UInt8} {j : ℕ} (h : 8 * j + 8 ≤ buf.length)
    (state : UInt64) : wordAt 8 j (fillBody buf state) = toLeBytes (wordOf j state) := by
  induction j generalizing buf state with
  | zero =>
    rw [wordAt_zero, fillBody_of_le (by omega), List.take_left' (length_toLeBytes _), wordOf_zero]
  | succ j ih =>
    rw [wordAt_succ, fillBody_of_le (by omega), List.drop_left' (length_toLeBytes _), wordOf_succ]
    exact ih (by rw [List.length_drop]; omega) _

/-- **The word at offset `8 * (j + 1)` of a message.** -/
theorem wordAt_fillPayload {buf : List UInt8} {j : ℕ} (h : 8 * (j + 1) + 8 ≤ buf.length)
    (seq : UInt64) : wordAt 8 (j + 1) (fillPayload buf seq) = toLeBytes (wordOf j seq) := by
  rw [wordAt_succ, fillPayload, List.drop_left' (length_toLeBytes _)]
  refine wordAt_fillBody ?_ seq
  rw [List.length_drop, headerLen]
  omega

/-! ## A readdressed message -/

/-- The message with its header changed to `b` and its body untouched. -/
def readdress (b : UInt64) (msg : List UInt8) : List UInt8 := toLeBytes b ++ msg.drop headerLen

variable {m n : ℕ} {a b : UInt64} {buf : List UInt8}

theorem headerSeq_readdress (b : UInt64) (msg : List UInt8) :
    headerSeq (readdress b msg) = some b.toNat := by
  have hlen : headerLen ≤ (readdress b msg).length := by
    rw [readdress, List.length_append, length_toLeBytes, headerLen]
    omega
  have hhead : (readdress b msg).take headerLen = toLeBytes b :=
    List.take_left' (length_toLeBytes b)
  rw [headerSeq_of_le hlen, hhead, toLeBytes, leValue_leBytes b.toNat_lt]

theorem readdress_fillPayload (a b : UInt64) (buf : List UInt8) :
    readdress b (fillPayload buf a) = toLeBytes b ++ fillBody (buf.drop headerLen) a := by
  rw [readdress, fillPayload, show headerLen = 8 from rfl, List.drop_left' (length_toLeBytes a)]

/-- **It agrees with the payload it claims in at most one byte less for each full
word.** -/
theorem matching_readdress_le (hab : a ≠ b) (hm : headerLen ≤ m) (hbuf : buf.length = m) :
    matching (readdress b (fillPayload buf a)) (payload m b.toNat) + (m - headerLen) / 8 ≤ m := by
  have hbody : (buf.drop headerLen).length = m - headerLen := by rw [List.length_drop, hbuf]
  have hwords : matching (fillBody (buf.drop headerLen) a) (fillBody (buf.drop headerLen) b) +
      (m - headerLen) / 8 ≤ (fillBody (buf.drop headerLen) a).length := by
    refine matching_add_le (s := 8) ?_ ?_ fun j hj => ?_
    · rw [length_fillBody, length_fillBody]
    · rw [length_fillBody, hbody]
      exact Nat.mul_div_le _ 8
    · have hfull : 8 * j + 8 ≤ (buf.drop headerLen).length := by
        rw [hbody]
        omega
      rw [wordAt_fillBody hfull, wordAt_fillBody hfull]
      exact fun h => hab (wordOf_injective j (toLeBytes_injective h))
  rw [length_fillBody, hbody] at hwords
  have hpay : payload m b.toNat = toLeBytes b ++ fillBody (buf.drop headerLen) b := by
    rw [← fillPayload_eq_payload hbuf, UInt64.ofNat_toNat, fillPayload]
  rw [readdress_fillPayload, hpay, matching_append rfl, matching_self, length_toLeBytes]
  rw [headerLen] at *
  omega

/-- Messages that do not carry `k` in their header leave `k` unseen. -/
theorem getD_seen_checkAll {k : ℕ} {c : Checker} {msgs : List (List UInt8)}
    (hmsgs : ∀ x ∈ msgs, headerSeq x ≠ some k) :
    (checkAll m c msgs).seen.getD k false = c.seen.getD k false := by
  induction msgs generalizing c with
  | nil => rfl
  | cons x msgs ih =>
    have hx : headerSeq x ≠ some k := hmsgs x List.mem_cons_self
    have hrest : ∀ y ∈ msgs, headerSeq y ≠ some k := fun y hy =>
      hmsgs y (List.mem_cons_of_mem x hy)
    refine (ih (c := check x m c) hrest).trans ?_
    cases hid : identify c.seen.length x with
    | none => rw [check_stray hid]; rfl
    | some j =>
      have hjk : j ≠ k := by
        rintro rfl
        exact hx (identify_eq_some_iff.mp hid).1
      cases hj : c.seen.getD j false with
      | true => rw [check_duplicate hid hj]; rfl
      | false => rw [check_first hid hj, getD_seen_judge hjk]

/-- **Different numbers, different words; so a message under another's number is
corrupted.**  In the full words of a body two numbers never agree.  A message
filled for `a` and readdressed to `b`, the first to claim `b`, counts as
corrupted, and of its `m` bytes at least one for each full word of the body is
not credited. -/
theorem readdressed_is_corrupted (hab : a ≠ b) :
    (∀ buf buf' : List UInt8, ∀ j, 8 * (j + 1) + 8 ≤ buf.length → buf.length = buf'.length →
      wordAt 8 (j + 1) (fillPayload buf a) ≠ wordAt 8 (j + 1) (fillPayload buf' b)) ∧
    ∀ (m n : ℕ) (buf : List UInt8) (msgs : List (List UInt8)), 16 ≤ m → buf.length = m →
      b.toNat < n → (∀ x ∈ msgs, headerSeq x ≠ some b.toNat) →
      let c := checkAll m (Checker.fresh m n) msgs
      let d := check (readdress b (fillPayload buf a)) m c
      d.report.corrupted = c.report.corrupted + 1 ∧
        ∃ k ≤ m - (m - 8) / 8, d.report.correctBytes = c.report.correctBytes + UInt64.ofNat k := by
  refine ⟨fun buf buf' j hfull hlen => ?_, fun m n buf msgs hm hbuf hb hmsgs => ?_⟩
  · rw [wordAt_fillPayload hfull, wordAt_fillPayload (by omega)]
    exact fun h => hab (wordOf_injective j (toLeBytes_injective h))
  · intro c d
    have hm' : headerLen ≤ m := by
      rw [headerLen]
      omega
    obtain ⟨hscratch, hlen⟩ : c.expected.length = m ∧ c.seen.length = n :=
      lengths_checkAll hm' List.length_replicate List.length_replicate msgs
    have hunseen : c.seen.getD b.toNat false = false := by
      rw [getD_seen_checkAll hmsgs]
      show (List.replicate n false).getD b.toNat false = false
      rw [List.getD_eq_getElem?_getD, List.getElem?_replicate_of_lt hb, Option.getD_some]
    have hid : identify c.seen.length (readdress b (fillPayload buf a)) = some b.toNat :=
      identify_eq_some_iff.mpr ⟨headerSeq_readdress b _, by rwa [hlen]⟩
    have hreport : d.report = credit m (readdress b (fillPayload buf a)) b.toNat c.report := by
      rw [← judge_report_eq_credit hscratch, ← check_first hid hunseen]
    have hle := matching_readdress_le hab hm' hbuf
    rw [headerLen] at hle
    have hne : (UInt64.ofNat (matching (readdress b (fillPayload buf a))
        (payload m b.toNat))).toNat ≠ m := by
      rw [UInt64.toNat_ofNat']
      have hmod :=
        Nat.mod_le (matching (readdress b (fillPayload buf a)) (payload m b.toNat)) (2 ^ 64)
      omega
    rw [hreport, credit, compareBytes_eq]
    exact ⟨congrArg _ (if_pos hne), _, by omega, rfl⟩

/-- The second of two messages of sixteen bytes, readdressed to the third. -/
theorem readdressed_is_corrupted_third :
    let c := checkAll 16 (Checker.fresh 16 3) [payload 16 0]
    let d := check (readdress 2 (payload 16 1)) 16 c
    d.report.corrupted = c.report.corrupted + 1 ∧
      ∃ k ≤ 15, d.report.correctBytes = c.report.correctBytes + UInt64.ofNat k :=
  (readdressed_is_corrupted (a := 1) (b := 2) (by decide)).2 16 3 (List.replicate 16 0)
    [payload 16 0] (by decide) List.length_replicate (by decide) (by decide)

end Accuracy
end RdmaBench
