import RdmaBench.Comm
import RdmaBench.Memory.LittleEndian

/-!
# The payload of a message

A message carries its sequence number in its first `headerLen` bytes and then a
splitmix64 stream started from it.  `fillPayload` is the source's loop over
`chunks_mut(8)`: eight cells at a time take one word each, and what is left at
the end takes the front of one more.

The buffer is scratch space: `fillPayload_eq_payload` says that nothing of its
old contents survives, only its length matters.  `payload m seq` names the
result, the message of `m` bytes that `seq` must carry, and `headerSeq_payload`
reads the number back from it.
-/

namespace RdmaBench
namespace Accuracy

open Memory

/-- Bytes at the front of every message holding its sequence number. -/
def headerLen : ℕ := 8

/-- One step of splitmix64: the new state and the word it yields. -/
def nextWord (state : UInt64) : UInt64 × UInt64 :=
  let state := state + 0x9E3779B97F4A7C15
  let z := state
  let z := (z ^^^ (z >>> 30)) * 0xBF58476D1CE4E5B9
  let z := (z ^^^ (z >>> 27)) * 0x94D049BB133111EB
  (state, z ^^^ (z >>> 31))

/-- `u64::to_le_bytes`. -/
def toLeBytes (w : UInt64) : List UInt8 := leBytes 8 w.toNat

/-- `u64::from_le_bytes`. -/
def fromLeBytes (bs : List UInt8) : UInt64 := UInt64.ofNat (leValue bs)

@[simp] theorem length_toLeBytes (w : UInt64) : (toLeBytes w).length = 8 := length_leBytes 8 _

theorem fromLeBytes_toLeBytes (w : UInt64) : fromLeBytes (toLeBytes w) = w := by
  rw [fromLeBytes, toLeBytes, leValue_leBytes w.toNat_lt, UInt64.ofNat_toNat]

/-- The loop over `chunks_mut(8)`: a full chunk takes a word, the last one the
front of a word. -/
def fillBody : List UInt8 → UInt64 → List UInt8
  | _ :: _ :: _ :: _ :: _ :: _ :: _ :: _ :: rest, state =>
    toLeBytes (nextWord state).2 ++ fillBody rest (nextWord state).1
  | chunk, state => (toLeBytes (nextWord state).2).take chunk.length

/-- Writes the payload message `seq` must carry into a buffer one message
long. -/
def fillPayload (buf : List UInt8) (seq : UInt64) : List UInt8 :=
  toLeBytes seq ++ fillBody (buf.drop headerLen) seq

/-- The message of `m` bytes that `seq` must carry. -/
def payload (m : ℕ) (seq : ℕ) : List UInt8 :=
  fillPayload (List.replicate m 0) (UInt64.ofNat seq)

/-! ## Only the length of the buffer matters -/

/-- A buffer has eight cells in front, or is a last chunk. -/
theorem exists_eight_of_le {buf : List UInt8} (h : 8 ≤ buf.length) :
    ∃ a b c d e f g i rest, buf = a :: b :: c :: d :: e :: f :: g :: i :: rest := by
  match buf, h with
  | a :: b :: c :: d :: e :: f :: g :: i :: rest, _ =>
    exact ⟨a, b, c, d, e, f, g, i, rest, rfl⟩

theorem fillBody_of_lt {chunk : List UInt8} (h : chunk.length < 8) (state : UInt64) :
    fillBody chunk state = (toLeBytes (nextWord state).2).take chunk.length := by
  rw [fillBody]
  rintro a b c d e f g i rest rfl
  simp only [List.length_cons] at h
  omega

theorem fillBody_of_le {buf : List UInt8} (h : 8 ≤ buf.length) (state : UInt64) :
    fillBody buf state =
      toLeBytes (nextWord state).2 ++ fillBody (buf.drop 8) (nextWord state).1 := by
  obtain ⟨a, b, c, d, e, f, g, i, rest, rfl⟩ := exists_eight_of_le h
  rfl

theorem length_fillBody (buf : List UInt8) (state : UInt64) :
    (fillBody buf state).length = buf.length := by
  induction hn : buf.length using Nat.strongRecOn generalizing buf state with
  | ind n ih =>
    subst hn
    rcases Nat.lt_or_ge buf.length 8 with hlt | hge
    · rw [fillBody_of_lt hlt, List.length_take, length_toLeBytes]
      omega
    · have hdrop : (buf.drop 8).length < buf.length := by
        rw [List.length_drop]
        omega
      rw [fillBody_of_le hge, List.length_append, length_toLeBytes, ih _ hdrop _ _ rfl,
        List.length_drop]
      omega

/-- Two buffers of one length are filled alike. -/
theorem fillBody_congr {buf buf' : List UInt8} (h : buf.length = buf'.length)
    (state : UInt64) : fillBody buf state = fillBody buf' state := by
  induction hn : buf.length using Nat.strongRecOn generalizing buf buf' state with
  | ind n ih =>
    subst hn
    rcases Nat.lt_or_ge buf.length 8 with hlt | hge
    · rw [fillBody_of_lt hlt, fillBody_of_lt (h ▸ hlt), h]
    · have hdrop : (buf.drop 8).length < buf.length := by
        rw [List.length_drop]
        omega
      have hlen : (buf.drop 8).length = (buf'.drop 8).length := by
        rw [List.length_drop, List.length_drop, h]
      have hge' : 8 ≤ buf'.length := h ▸ hge
      rw [fillBody_of_le hge, fillBody_of_le hge', ih _ hdrop hlen _ rfl]

theorem length_fillPayload {buf : List UInt8} (h : headerLen ≤ buf.length) (seq : UInt64) :
    (fillPayload buf seq).length = buf.length := by
  rw [fillPayload, List.length_append, length_toLeBytes, length_fillBody, List.length_drop]
  unfold headerLen at *
  omega

/-- **Nothing of the old contents survives.** -/
theorem fillPayload_eq_payload {buf : List UInt8} {m seq : ℕ} (h : buf.length = m) :
    fillPayload buf (UInt64.ofNat seq) = payload m seq := by
  rw [fillPayload, payload, fillPayload]
  refine congrArg (toLeBytes _ ++ ·) (fillBody_congr ?_ _)
  rw [List.length_drop, List.length_drop, List.length_replicate, h]

@[simp] theorem length_payload {m : ℕ} (h : headerLen ≤ m) (seq : ℕ) :
    (payload m seq).length = m := by
  rw [payload, length_fillPayload (by rwa [List.length_replicate]), List.length_replicate]

/-! ## The header -/

/-- The number the header of a message holds, when it is long enough to have
one. -/
def headerSeq (msg : List UInt8) : Option ℕ :=
  if msg.length < headerLen then none else some (leValue (msg.take headerLen))

theorem headerSeq_of_le {msg : List UInt8} (h : headerLen ≤ msg.length) :
    headerSeq msg = some (leValue (msg.take headerLen)) :=
  if_neg (Nat.not_lt.mpr h)

/-- Every header value is a 64-bit number. -/
theorem headerSeq_lt {msg : List UInt8} {n : ℕ} (h : headerSeq msg = some n) : n < 2 ^ 64 := by
  have hge : headerLen ≤ msg.length := by
    by_contra hlt
    rw [headerSeq, if_pos (Nat.not_le.mp hlt)] at h
    exact absurd h (by simp)
  rw [headerSeq_of_le hge] at h
  have hlt := leValue_lt (msg.take headerLen)
  rw [List.length_take, Nat.min_eq_left hge] at hlt
  rw [← Option.some.inj h]
  exact hlt

/-- **A payload carries its own sequence number.** -/
theorem headerSeq_payload {m seq : ℕ} (hm : headerLen ≤ m) (hseq : seq < 2 ^ 64) :
    headerSeq (payload m seq) = some seq := by
  have hlen : (payload m seq).length = m := length_payload hm seq
  rw [headerSeq_of_le (by rwa [hlen]), payload, fillPayload,
    List.take_append_of_le_length (by rw [length_toLeBytes]; exact Nat.le_refl _),
    List.take_of_length_le (by rw [length_toLeBytes]; exact Nat.le_refl _), toLeBytes,
    leValue_leBytes (UInt64.toNat_lt _), UInt64.toNat_ofNat', Nat.mod_eq_of_lt hseq]

end Accuracy
end RdmaBench
