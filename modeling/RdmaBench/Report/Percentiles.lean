import RdmaBench.Ranks.Sorted

/-!
# The statistics of a latency run

`LatencyStats::from_samples` sorts the samples and reads five of its numbers off
the sorted list: the two ends, and three percentiles at the place
`(n * p).ceil().clamp(1, n) - 1`.  Each of these is an index, and an index out of
range panics; here it is `none`.  The outer `Option` is that panic, the inner one
is the source's own, for no samples at all.

The samples are of any linearly ordered type, and the product `n as f64 * p` is
the exact one.  The average and the deviation are in floating point: the
operations they use are a parameter, `Arith`, of which nothing is assumed.

For `0 < p ≤ 1` the clamp never does anything (`clamp_rank`), so a percentile is
what `Ranks` calls the nearest rank (`percentile_eq`).
-/

namespace RdmaBench
namespace Report

open Ranks

universe u

/-- The `f64` operations of the average and the deviation. -/
structure Arith (α : Type u) where
  sum : List α → α
  ofNat : ℕ → α
  sub : α → α → α
  div : α → α → α
  /-- `powi(2)`. -/
  square : α → α
  sqrt : α → α
  zero : α

structure LatencyStats (α : Type u) where
  msgSize : ℕ
  samples : ℕ
  min : α
  max : α
  typical : α
  avg : α
  stdev : α
  p99 : α
  p999 : α
  deriving DecidableEq

/-- `Ord::clamp`. -/
def clamp (lo hi x : ℕ) : ℕ := if x < lo then lo else if hi < x then hi else x

variable {α : Type u} [LinearOrder α]

/-- The closure `percentile`. -/
def percentile (sorted : List α) (p : ℚ) : Option α :=
  let n := sorted.length
  sorted[clamp 1 n ⌈(n : ℚ) * p⌉₊ - 1]?

/-- Nearest-rank percentiles over the samples; no statistics when nothing was
measured at all. -/
def fromSamples (F : Arith α) (msgSize : ℕ) (samples : List α) :
    Option (Option (LatencyStats α)) :=
  if samples.isEmpty then some none
  else do
    let sorted := sorted samples
    let n := sorted.length
    let avg := F.div (F.sum sorted) (F.ofNat n)
    let stdev :=
      if 1 < n then
        F.sqrt (F.div (F.sum (sorted.map fun s => F.square (F.sub s avg))) (F.ofNat (n - 1)))
      else F.zero
    let min ← sorted[0]?
    let max ← sorted[n - 1]?
    let typical ← percentile sorted (1 / 2)
    let p99 ← percentile sorted (99 / 100)
    let p999 ← percentile sorted (999 / 1000)
    return some ⟨msgSize, n, min, max, typical, avg, stdev, p99, p999⟩

/-! ## The ranks are places -/

/-- **The clamp does nothing.** -/
theorem clamp_rank {n : ℕ} {p : ℚ} (hn : 0 < n) (hp : 0 < p) (hp' : p ≤ 1) :
    clamp 1 n ⌈(n : ℚ) * p⌉₊ = rank n p := by
  have hpos := rank_pos hn hp
  have hle : rank n p ≤ n := rank_le hp'
  rw [show ⌈(n : ℚ) * p⌉₊ = rank n p from rfl, clamp, if_neg (by omega), if_neg (by omega)]

variable {l : List α}

/-- The place of a percentile is in the list. -/
theorem rank_sub_one_lt {p : ℚ} (hl : 0 < l.length) (hp' : p ≤ 1) :
    rank l.length p - 1 < (sorted l).length := by
  have hle : rank l.length p ≤ l.length := rank_le hp'
  rw [length_sorted]
  omega

/-- **A percentile is the member at the place before its rank.** -/
theorem percentile_eq {p : ℚ} (hl : 0 < l.length) (hp : 0 < p) (hp' : p ≤ 1) :
    ∃ hi : rank l.length p - 1 < (sorted l).length,
      percentile (sorted l) p = some (sorted l)[rank l.length p - 1] := by
  refine ⟨rank_sub_one_lt hl hp', ?_⟩
  rw [percentile, length_sorted, clamp_rank hl hp hp']
  exact List.getElem?_eq_getElem _

/-! ## The five numbers -/

/-- **No index is out of range**, and the five numbers are these places of the
sorted list. -/
theorem fromSamples_eq (F : Arith α) (msgSize : ℕ) (hl : 0 < l.length) :
    ∃ stats, fromSamples F msgSize l = some (some stats) ∧
      (sorted l)[0]? = some stats.min ∧
      (sorted l)[rank l.length (1 / 2) - 1]? = some stats.typical ∧
      (sorted l)[rank l.length (99 / 100) - 1]? = some stats.p99 ∧
      (sorted l)[rank l.length (999 / 1000) - 1]? = some stats.p999 ∧
      (sorted l)[l.length - 1]? = some stats.max := by
  have hempty : l.isEmpty = false := by
    rw [List.isEmpty_eq_false_iff]
    exact List.ne_nil_of_length_pos hl
  have h₀ : 0 < (sorted l).length := by rwa [length_sorted]
  have h₁ : (sorted l).length - 1 < (sorted l).length := Nat.sub_lt h₀ Nat.one_pos
  obtain ⟨ht, htyp⟩ := percentile_eq hl (p := 1 / 2) (by norm_num) (by norm_num)
  obtain ⟨hn, hninety⟩ := percentile_eq hl (p := 99 / 100) (by norm_num) (by norm_num)
  obtain ⟨hm, hmille⟩ := percentile_eq hl (p := 999 / 1000) (by norm_num) (by norm_num)
  have hlast : (sorted l)[l.length - 1]? = (sorted l)[(sorted l).length - 1]? := by
    rw [length_sorted]
  rw [fromSamples, hempty, hlast]
  simp only [Bool.false_eq_true, if_false, List.getElem?_eq_getElem h₀,
    List.getElem?_eq_getElem h₁, htyp, hninety, hmille]
  exact ⟨_, rfl, rfl, List.getElem?_eq_getElem ht, List.getElem?_eq_getElem hn,
    List.getElem?_eq_getElem hm, rfl⟩

/-- Sorting forgets the order, and so do the statistics. -/
theorem fromSamples_congr (F : Arith α) (msgSize : ℕ) {l' : List α} (h : l.Perm l') :
    fromSamples F msgSize l = fromSamples F msgSize l' := by
  rw [fromSamples, fromSamples, h.isEmpty_eq, sorted_congr h]

/-- What stands later in the sorted list is not smaller. -/
theorem le_of_places {i j : ℕ} {v w : α} (hij : i ≤ j) (hv : (sorted l)[i]? = some v)
    (hw : (sorted l)[j]? = some w) : v ≤ w := by
  obtain ⟨hi, rfl⟩ := List.getElem?_eq_some_iff.mp hv
  obtain ⟨hj, rfl⟩ := List.getElem?_eq_some_iff.mp hw
  exact (sortedLE_sorted l).getElem_le_getElem_of_le hij

/-- Every member stands at some place. -/
theorem exists_place {x : α} (hx : x ∈ l) : ∃ i < l.length, (sorted l)[i]? = some x := by
  obtain ⟨i, hi, rfl⟩ := List.mem_iff_getElem.mp ((perm_sorted l).mem_iff.mpr hx)
  exact ⟨i, by rwa [length_sorted] at hi, List.getElem?_eq_getElem hi⟩

/-- The percentile of `p` is the nearest rank. -/
theorem nearestRank_of_place {p : ℚ} {v : α} (hp : 0 < p)
    (hv : (sorted l)[rank l.length p - 1]? = some v) : NearestRank l p v := by
  obtain ⟨hi, rfl⟩ := List.getElem?_eq_some_iff.mp hv
  exact nearestRank_getElem hp hi

/-- **The statistics of a latency run.**  For any samples at all there are
statistics; the three percentiles are nearest ranks; the five numbers are in
order, the outer two bound every sample, and the order of the samples does not
matter. -/
theorem latency_stats (F : Arith α) (msgSize : ℕ) {samples : List α} (h : samples ≠ []) :
    ∃ stats, fromSamples F msgSize samples = some (some stats) ∧
      NearestRank samples (1 / 2) stats.typical ∧
      NearestRank samples (99 / 100) stats.p99 ∧
      NearestRank samples (999 / 1000) stats.p999 ∧
      (stats.min ≤ stats.typical ∧ stats.typical ≤ stats.p99 ∧ stats.p99 ≤ stats.p999 ∧
        stats.p999 ≤ stats.max) ∧
      (∀ x ∈ samples, stats.min ≤ x ∧ x ≤ stats.max) ∧
      ∀ samples', samples.Perm samples' → fromSamples F msgSize samples' = some (some stats) := by
  have hlen : 0 < samples.length := List.length_pos_of_ne_nil h
  obtain ⟨stats, hstats, hmin, htyp, hninety, hmille, hmax⟩ := fromSamples_eq F msgSize hlen
  have hhalf : rank samples.length (1 / 2) ≤ rank samples.length (99 / 100) :=
    rank_mono (by norm_num)
  have htail : rank samples.length (99 / 100) ≤ rank samples.length (999 / 1000) :=
    rank_mono (by norm_num)
  have hlast : rank samples.length (999 / 1000) ≤ samples.length := rank_le (by norm_num)
  refine ⟨stats, hstats, nearestRank_of_place (by norm_num) htyp,
    nearestRank_of_place (by norm_num) hninety, nearestRank_of_place (by norm_num) hmille,
    ⟨?_, ?_, ?_, ?_⟩, fun x hx => ?_, fun samples' hperm => ?_⟩
  · exact le_of_places (Nat.zero_le _) hmin htyp
  · exact le_of_places (by omega) htyp hninety
  · exact le_of_places (by omega) hninety hmille
  · exact le_of_places (by omega) hmille hmax
  · obtain ⟨i, hi, hx⟩ := exists_place hx
    exact ⟨le_of_places (Nat.zero_le i) hmin hx, le_of_places (by omega) hx hmax⟩
  · rw [← fromSamples_congr F msgSize hperm, hstats]

/-- Five samples, three of them the same, in two orders. -/
theorem latency_stats_ties :
    let F : Arith ℕ := ⟨List.sum, id, (· - ·), (· / ·), (· ^ 2), id, 0⟩
    ∃ stats, fromSamples F 8 [9, 4, 7, 4, 4] = some (some stats) ∧
      fromSamples F 8 [4, 7, 4, 9, 4] = some (some stats) ∧ stats.typical = 4 ∧
      stats.p99 = 9 ∧ ∀ x ∈ [9, 4, 7, 4, 4], stats.min ≤ x ∧ x ≤ stats.max := by
  intro F
  have hperm : [9, 4, 7, 4, 4].Perm [4, 7, 4, 9, 4] := by decide
  obtain ⟨stats, hstats, htypical, hninety, -, -, hbounds, horder⟩ :=
    latency_stats F 8 (show [9, 4, 7, 4, 4] ≠ [] by decide)
  refine ⟨stats, hstats, horder _ hperm, htypical.unique ?_, hninety.unique ?_, hbounds⟩
  · -- the third smallest of five
    have hrank : rank [9, 4, 7, 4, 4].length (1 / 2) = 3 :=
      (Nat.ceil_eq_iff (by decide)).mpr (by norm_num)
    rw [hrank]
    have hleast : ∀ v ∈ [9, 4, 7, 4, 4], 4 ≤ v := by decide
    exact ⟨by decide, fun v hv => hleast v hv.1⟩
  · have hrank : rank [9, 4, 7, 4, 4].length (99 / 100) = 5 :=
      (Nat.ceil_eq_iff (by decide)).mpr (by norm_num)
    rw [hrank]
    have hlast : ∀ v ∈ [9, 4, 7, 4, 4],
        5 ≤ ([9, 4, 7, 4, 4].countP fun x => decide (x ≤ v)) → 9 ≤ v := by decide
    exact ⟨by decide, fun v hv => hlast v hv.1 hv.2⟩

end Report
end RdmaBench
