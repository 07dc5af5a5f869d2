import RdmaBench.Comm
import Mathlib.Data.Nat.Log

/-!
# The benchmark matrix

`plan` resolves the arguments of a client into the matrix of modes and sizes that a
suite runs.  With `--all` the sizes are the powers of two of an interval, collected
by a loop that starts at `min` rounded up and doubles.

The doubling is checked, the rounding up is not.  Past `2 ^ 63` no power of two is
left to round up to: `next_power_of_two` panics in a build with overflow checks and
is `0` in one without, and from `0` the loop never ends.  So the loop has fuel here,
and returning is a result (`Returns`), not an assumption.
-/

namespace RdmaBench

/-- `Mode::ALL`: the modes that a client can drive. -/
def Mode.all : List Mode := [.bandwidth, .latency, .accuracy]

def Mode.name : Mode → String
  | .bandwidth => "bandwidth"
  | .latency => "latency"
  | .accuracy => "accuracy"
  | .rdmaWrite => "rdma-write"
  | .rdmaRead => "rdma-read"

/-- The smallest message size a mode can be run with: an accuracy message needs
room for its header. -/
def Mode.minMsgSize : Mode → ℕ
  | .accuracy => 8
  | _ => 1

namespace Cli

/-! ## How a function returns -/

/-- How a function of this module ends.  Every `Err` is an `InvalidInput`. -/
inductive Ended (α : Type) where
  | ok (a : α)
  | err (message : String)
  | panicked
  deriving DecidableEq

/-- A computation with fuel returns `a`. -/
def Returns {α : Type} (run : ℕ → Option α) (a : α) : Prop := ∃ n, ∀ fuel, n ≤ fuel → run fuel = some a

/-! ## The sizes of a sweep -/

/-- `usize::next_power_of_two`, in a build with overflow checks or without. -/
def nextPowerOfTwo (checks : Bool) (n : ℕ) : Ended ℕ :=
  if 2 ^ Nat.clog 2 n < usizeSize then .ok (2 ^ Nat.clog 2 n)
  else if checks then .panicked
  else .ok 0

/-- `usize::checked_mul`. -/
def checkedMul (a b : ℕ) : Option ℕ := if a * b < usizeSize then some (a * b) else none

/-- The loop `while size <= max`. -/
def sizesLoop (max : ℕ) : ℕ → List ℕ → ℕ → Option (List ℕ)
  | 0, _, _ => none
  | fuel + 1, sizes, size =>
    if size ≤ max then
      match checkedMul size 2 with
      | some next => sizesLoop max fuel (sizes ++ [size]) next
      | none => some (sizes ++ [size])
    else some sizes

/-- What becomes of the sizes collected. -/
def collected (min max : ℕ) (sizes : List ℕ) : Ended (List ℕ) :=
  if sizes = [] then .err s!"no power-of-two message size lies between {min} and {max}"
  else .ok sizes

/-- `power_of_two_sizes`. -/
def powerOfTwoSizes (checks : Bool) (min max fuel : ℕ) : Option (Ended (List ℕ)) :=
  if min = 0 then some (.err "--min-size must be greater than zero")
  else if max < min then some (.err "--max-size must not be smaller than --min-size")
  else match nextPowerOfTwo checks min with
    | .ok size => (sizesLoop max fuel [] size).map (collected min max)
    | .err message => some (.err message)
    | .panicked => some .panicked

/-- The `n` powers of two from `2 ^ k` on, as far as they are at most `max`. -/
def powersFrom (max k n : ℕ) : List ℕ :=
  ((List.range' k n).filter fun j => 2 ^ j ≤ max).map fun j => 2 ^ j

theorem powersFrom_of_lt {max k n : ℕ} (h : max < 2 ^ k) : powersFrom max k n = [] := by
  have hnone : ∀ j ∈ List.range' k n, ¬decide (2 ^ j ≤ max) = true := by
    intro j hj
    have hkj : 2 ^ k ≤ 2 ^ j := Nat.pow_le_pow_right (by decide) (List.mem_range'_1.mp hj).1
    simpa using Nat.lt_of_lt_of_le h hkj
  rw [powersFrom, List.filter_eq_nil_iff.mpr hnone, List.map_nil]

theorem powersFrom_of_le {max k n : ℕ} (h : 2 ^ k ≤ max) :
    powersFrom max k (n + 1) = 2 ^ k :: powersFrom max (k + 1) n := by
  rw [powersFrom, List.range'_succ, List.filter_cons, if_pos (decide_eq_true h), List.map_cons,
    powersFrom]

theorem checkedMul_two_pow {k : ℕ} :
    checkedMul (2 ^ k) 2 = if k + 1 < 64 then some (2 ^ (k + 1)) else none := by
  have h : 2 ^ k * 2 < usizeSize ↔ k + 1 < 64 := by
    rw [← Nat.pow_succ]
    exact Nat.pow_lt_pow_iff_right (by decide)
  rw [checkedMul, Nat.pow_succ]
  simp only [h]

/-- **The loop collects the powers of two up to `max`**, and ends by its condition or
at the top of `usize`. -/
theorem sizesLoop_two_pow {max k n fuel : ℕ} (hk : k + n = 64) (hn : 0 < n) (hfuel : n ≤ fuel)
    (sizes : List ℕ) :
    sizesLoop max fuel sizes (2 ^ k) = some (sizes ++ powersFrom max k n) := by
  induction n generalizing k fuel sizes with
  | zero => exact absurd hn (Nat.lt_irrefl 0)
  | succ n ih =>
    obtain ⟨fuel, rfl⟩ : ∃ f, fuel = f + 1 := ⟨fuel - 1, by omega⟩
    rw [sizesLoop]
    by_cases hle : 2 ^ k ≤ max
    · rw [if_pos hle, checkedMul_two_pow, powersFrom_of_le hle]
      by_cases hlast : k + 1 < 64
      · rw [if_pos hlast]
        exact (ih (by omega) (by omega) (by omega) _).trans (by rw [List.append_assoc]; rfl)
      · rw [if_neg hlast]
        obtain rfl : n = 0 := by omega
        rfl
    · rw [if_neg hle, powersFrom_of_lt (Nat.not_le.mp hle), List.append_nil]

/-- **From `0` the loop does not end.** -/
theorem sizesLoop_zero (max fuel : ℕ) (sizes : List ℕ) : sizesLoop max fuel sizes 0 = none := by
  induction fuel generalizing sizes with
  | zero => rfl
  | succ fuel ih =>
    rw [sizesLoop, if_pos (Nat.zero_le max)]
    exact ih _

theorem mem_powersFrom {max k n p : ℕ} :
    p ∈ powersFrom max k n ↔ ∃ j, k ≤ j ∧ j < k + n ∧ 2 ^ j ≤ max ∧ 2 ^ j = p := by
  simp only [powersFrom, List.mem_map, List.mem_filter, List.mem_range'_1, decide_eq_true_eq,
    and_assoc]

theorem pairwise_powersFrom (max k n : ℕ) : (powersFrom max k n).Pairwise (· < ·) := by
  refine List.Pairwise.map _ (fun i j hij => ?_) ((List.pairwise_lt_range' ..).filter _)
  exact Nat.pow_lt_pow_right (by decide) hij

/-- What the sweep is to return: an `Err` exactly when there is no size to return,
and else the powers of two of the interval, ascending. -/
structure Sweep (min max : ℕ) (r : Ended (List ℕ)) : Prop where
  no_panic : r ≠ .panicked
  err_iff : (∃ message, r = .err message) ↔
    min = 0 ∨ max < min ∨ ∀ p : ℕ, p.isPowerOfTwo → ¬(min ≤ p ∧ p ≤ max)
  ascending : ∀ sizes, r = .ok sizes → sizes.Pairwise (· < ·)
  mem_iff : ∀ sizes, r = .ok sizes → ∀ p, p ∈ sizes ↔ p.isPowerOfTwo ∧ min ≤ p ∧ p ≤ max

theorem Sweep.of_err {min max : ℕ} {message : String}
    (h : min = 0 ∨ max < min ∨ ∀ p : ℕ, p.isPowerOfTwo → ¬(min ≤ p ∧ p ≤ max)) :
    Sweep min max (.err message) where
  no_panic h := absurd h (by simp)
  err_iff := ⟨fun _ => h, fun _ => ⟨message, rfl⟩⟩
  ascending _ h := absurd h (by simp)
  mem_iff _ h := absurd h (by simp)

theorem Sweep.collected {min max : ℕ} {sizes : List ℕ} (hpos : min ≠ 0) (hle : ¬max < min)
    (hsorted : sizes.Pairwise (· < ·))
    (hmem : ∀ p, p ∈ sizes ↔ p.isPowerOfTwo ∧ min ≤ p ∧ p ≤ max) :
    Sweep min max (collected min max sizes) := by
  rw [Cli.collected]
  split
  · next hnil =>
    refine .of_err (.inr (.inr fun p hp hin => ?_))
    exact absurd ((hmem p).mpr ⟨hp, hin⟩) (hnil ▸ List.not_mem_nil)
  · next hne =>
    obtain ⟨p, hp⟩ := List.exists_mem_of_ne_nil _ hne
    obtain ⟨hpow, hin⟩ := (hmem p).mp hp
    have hsome : ¬(min = 0 ∨ max < min ∨ ∀ p : ℕ, p.isPowerOfTwo → ¬(min ≤ p ∧ p ≤ max)) := by
      rintro (h | h | h)
      · exact hpos h
      · exact hle h
      · exact h p hpow hin
    exact
      { no_panic := fun h => absurd h (by simp)
        err_iff := ⟨fun h => absurd h (by simp), fun h => absurd h hsome⟩
        ascending := fun _ h => Ended.ok.inj h ▸ hsorted
        mem_iff := fun _ h => Ended.ok.inj h ▸ hmem }

/-- The powers from the rounded-up bound on are those of the interval. -/
theorem mem_powersFrom_clog {min max p : ℕ} (hmin : Nat.clog 2 min ≤ 63) (hmax : max < usizeSize) :
    p ∈ powersFrom max (Nat.clog 2 min) (64 - Nat.clog 2 min) ↔
      p.isPowerOfTwo ∧ min ≤ p ∧ p ≤ max := by
  rw [mem_powersFrom]
  constructor
  · rintro ⟨j, hj, -, hle, rfl⟩
    exact ⟨⟨j, rfl⟩, (Nat.clog_le_iff_le_pow (by decide)).mp hj, hle⟩
  · rintro ⟨⟨j, rfl⟩, hge, hle⟩
    have htop : j < 64 := by
      have hlt : 2 ^ j < 2 ^ 64 := Nat.lt_of_le_of_lt hle hmax
      exact (Nat.pow_lt_pow_iff_right (by decide)).mp hlt
    have hj := (Nat.clog_le_iff_le_pow (by decide)).mpr hge
    exact ⟨j, hj, by omega, hle, rfl⟩

/-- The rounded-up bound fits unless it is past the largest power of two. -/
theorem clog_le_iff {min : ℕ} : Nat.clog 2 min ≤ 63 ↔ min ≤ 2 ^ 63 :=
  Nat.clog_le_iff_le_pow (by decide)

theorem nextPowerOfTwo_of_le {checks : Bool} {min : ℕ} (h : min ≤ 2 ^ 63) :
    nextPowerOfTwo checks min = .ok (2 ^ Nat.clog 2 min) := by
  have hlog := clog_le_iff.mpr h
  exact if_pos (Nat.pow_lt_pow_right (by decide) (by omega))

theorem nextPowerOfTwo_of_lt {checks : Bool} {min : ℕ} (h : 2 ^ 63 < min) :
    nextPowerOfTwo checks min = if checks then .panicked else .ok 0 := by
  have hlog : 64 ≤ Nat.clog 2 min := (Nat.lt_clog_iff_pow_lt (by decide)).mpr h
  have hle : 2 ^ 64 ≤ 2 ^ Nat.clog 2 min := Nat.pow_le_pow_right (by decide) hlog
  exact if_neg (Nat.not_lt.mpr hle)

/-- **Up to `2 ^ 63` the sweep is right.** -/
theorem returns_sweep {checks : Bool} {min max : ℕ} (hmin : min ≤ 2 ^ 63) (hmax : max < usizeSize)
    (hpos : min ≠ 0) (hle : ¬max < min) :
    ∃ r, Returns (powerOfTwoSizes checks min max) r ∧ Sweep min max r := by
  have hlog := clog_le_iff.mpr hmin
  have hmem := fun p => mem_powersFrom_clog (p := p) hlog hmax
  refine ⟨_, ⟨64 - Nat.clog 2 min, fun fuel hfuel => ?_⟩,
    .collected hpos hle (pairwise_powersFrom max _ _) hmem⟩
  rw [powerOfTwoSizes, if_neg hpos, if_neg hle, nextPowerOfTwo_of_le hmin]
  exact congrArg (Option.map (Cli.collected min max))
    (sizesLoop_two_pow (by omega) (by omega) hfuel [])

/-- **Past `2 ^ 63` there is no sweep**: a panic with overflow checks, and without
them a loop that does not end. -/
theorem eq_panicked_of_returns {checks : Bool} {min max : ℕ} (hmin : 2 ^ 63 < min) (hle : ¬max < min)
    {r : Ended (List ℕ)} (h : Returns (powerOfTwoSizes checks min max) r) : r = .panicked := by
  obtain ⟨n, hn⟩ := h
  have hrun := hn n (Nat.le_refl n)
  have hpos : min ≠ 0 := by omega
  rw [powerOfTwoSizes, if_neg hpos, if_neg hle, nextPowerOfTwo_of_lt hmin] at hrun
  cases checks with
  | true => exact (Option.some.inj hrun).symm
  | false =>
    simp only [if_false, Bool.false_eq_true, sizesLoop_zero, Option.map_none] at hrun
    exact absurd hrun (by simp)

/-- **When the sweep is what it is to be.** -/
theorem sweep_iff (checks : Bool) {min max : ℕ} (hmax : max < usizeSize) :
    (∃ r, Returns (powerOfTwoSizes checks min max) r ∧ Sweep min max r) ↔
      min = 0 ∨ max < min ∨ min ≤ 2 ^ 63 := by
  constructor
  · rintro ⟨r, hr, hsweep⟩
    by_contra hbad
    obtain ⟨hpos, hle, hmin⟩ : min ≠ 0 ∧ ¬max < min ∧ ¬min ≤ 2 ^ 63 := by
      simpa only [not_or] using hbad
    exact hsweep.no_panic (eq_panicked_of_returns (Nat.not_le.mp hmin) hle hr)
  · intro h
    by_cases hpos : min = 0
    · exact ⟨_, ⟨0, fun _ _ => if_pos hpos⟩, .of_err (.inl hpos)⟩
    by_cases hle : max < min
    · exact ⟨_, ⟨0, fun _ _ => (if_neg hpos).trans (if_pos hle)⟩, .of_err (.inr (.inl hle))⟩
    · exact returns_sweep (h.resolve_left hpos |>.resolve_left hle) hmax hpos hle

/-- `4000 ..= 100000` sweeps from `4096` to `65536`. -/
theorem sweep_iff_four_thousand :
    ∃ r, Returns (powerOfTwoSizes true 4000 100000) r ∧ Sweep 4000 100000 r :=
  (sweep_iff true (by decide)).mpr (.inr (.inr (by decide)))

/-- **A bound past the last power of two**: the sweep of the one size `2 ^ 63 + 1`
panics with overflow checks and does not end without them. -/
theorem no_sweep_past_last_power :
    powerOfTwoSizes true 9223372036854775809 9223372036854775809 1 = some .panicked ∧
    (¬∃ r, Returns (powerOfTwoSizes true 9223372036854775809 9223372036854775809) r ∧
      Sweep 9223372036854775809 9223372036854775809 r) ∧
    ¬∃ r, Returns (powerOfTwoSizes false 9223372036854775809 9223372036854775809) r ∧
      Sweep 9223372036854775809 9223372036854775809 r := by
  refine ⟨?_, ?_, ?_⟩
  · rw [powerOfTwoSizes, nextPowerOfTwo_of_lt (by decide)]
    rfl
  · rintro ⟨r, hr, hsweep⟩
    exact hsweep.no_panic (eq_panicked_of_returns (by decide) (by decide) hr)
  · rintro ⟨r, hr, hsweep⟩
    exact hsweep.no_panic (eq_panicked_of_returns (by decide) (by decide) hr)

/-! ## The plan -/

/-- The arguments of a client, as far as `plan` and `run_suite` read them. -/
structure ClientArgs where
  transport : Transport := .rc
  /-- Left out, all modes run. -/
  mode : List Mode := []
  size : ℕ := 4096
  all : Bool := false
  minSize : ℕ := 8
  maxSize : ℕ := 131072
  iterations : ℕ := 1000
  txDepth : ℕ := 32
  rxDepth : ℕ := 128
  csv : Bool := false
  runs : ℕ := 1
  /-- The argument parser takes no other value. -/
  runs_pos : 1 ≤ runs := by decide

/-- The benchmark matrix: every mode once per size. -/
structure Plan where
  modes : List Mode
  sizes : List ℕ
  deriving DecidableEq

/-- `Plan::is_single_pair`. -/
def Plan.isSinglePair (plan : Plan) : Bool := plan.modes.length == 1 && plan.sizes.length == 1

/-- `ClientArgs::is_single_run`. -/
def ClientArgs.isSingleRun (args : ClientArgs) (plan : Plan) : Bool :=
  plan.isSinglePair && args.runs == 1 && !args.csv

/-- The sizes of the plan. -/
def ClientArgs.sizes (checks : Bool) (args : ClientArgs) (fuel : ℕ) : Option (Ended (List ℕ)) :=
  if args.all then powerOfTwoSizes checks args.minSize args.maxSize fuel
  else if args.size = 0 then some (.err "--size must be greater than zero")
  else some (.ok [args.size])

/-- `ClientArgs::plan`. -/
def ClientArgs.plan (checks : Bool) (args : ClientArgs) (fuel : ℕ) : Option (Ended Plan) :=
  if args.iterations = 0 then some (.err "--iterations must be greater than zero")
  else if args.txDepth = 0 ∨ args.rxDepth = 0 then
    some (.err "--tx-depth and --rx-depth must be greater than zero")
  else (args.sizes checks fuel).map fun
    | .ok sizes => .ok ⟨if args.mode = [] then Mode.all else args.mode, sizes⟩
    | .err message => .err message
    | .panicked => .panicked

/-- What `plan` promises of a plan it returns. -/
structure Plan.WellFormed (plan : Plan) : Prop where
  modes : plan.modes ≠ []
  sizes : plan.sizes ≠ []
  ascending : plan.sizes.Pairwise (· < ·)
  positive : ∀ size ∈ plan.sizes, 0 < size

theorem sizesLoop_wellFormed {max fuel size : ℕ} {sizes out : List ℕ}
    (h : sizesLoop max fuel sizes size = some out) (hpos : 0 < size)
    (hsorted : sizes.Pairwise (· < ·)) (hbelow : ∀ x ∈ sizes, 0 < x ∧ x < size) :
    out.Pairwise (· < ·) ∧ ∀ x ∈ out, 0 < x := by
  induction fuel generalizing sizes size with
  | zero => exact absurd h (by simp [sizesLoop])
  | succ fuel ih =>
    have hpush : (sizes ++ [size]).Pairwise (· < ·) :=
      List.pairwise_append.mpr ⟨hsorted, List.pairwise_singleton _ _, fun x hx y hy =>
        List.mem_singleton.mp hy ▸ (hbelow x hx).2⟩
    have hall : ∀ x ∈ sizes ++ [size], 0 < x ∧ x < size * 2 := by
      intro x hx
      rcases List.mem_append.mp hx with hx | hx
      · exact ⟨(hbelow x hx).1, by have := (hbelow x hx).2; omega⟩
      · rw [List.mem_singleton.mp hx]
        omega
    rw [sizesLoop, checkedMul] at h
    split at h
    · split at h
      · next next hnext =>
        obtain ⟨-, rfl⟩ := Option.ite_some_none_eq_some.mp hnext
        exact ih h (by omega) hpush hall
      · rw [← Option.some.inj h]
        exact ⟨hpush, fun x hx => (hall x hx).1⟩
    · rw [← Option.some.inj h]
      exact ⟨hsorted, fun x hx => (hbelow x hx).1⟩

theorem powerOfTwoSizes_wellFormed {checks : Bool} {min max fuel : ℕ} {sizes : List ℕ}
    (h : powerOfTwoSizes checks min max fuel = some (.ok sizes)) :
    sizes ≠ [] ∧ sizes.Pairwise (· < ·) ∧ ∀ x ∈ sizes, 0 < x := by
  rw [powerOfTwoSizes] at h
  split at h
  · exact absurd h (by simp)
  split at h
  · exact absurd h (by simp)
  split at h
  · next size hsize =>
    obtain ⟨out, hout, heq⟩ := Option.map_eq_some_iff.mp h
    have hpos : 0 < size := by
      refine Nat.pos_of_ne_zero fun hzero => ?_
      rw [hzero, sizesLoop_zero] at hout
      exact absurd hout (by simp)
    have hloop := sizesLoop_wellFormed hout hpos .nil fun _ hmem => absurd hmem List.not_mem_nil
    rw [collected] at heq
    split at heq
    · exact absurd heq (by simp)
    · next hne => exact Ended.ok.inj heq ▸ ⟨hne, hloop⟩
  · exact absurd h (by simp)
  · exact absurd h (by simp)

/-- **A plan that is returned is well formed**, and a client that has one exchanges
a positive number of messages over queues of positive depths. -/
theorem plan_wellFormed {checks : Bool} {args : ClientArgs} {fuel : ℕ} {plan : Plan}
    (h : args.plan checks fuel = some (.ok plan)) :
    0 < args.iterations ∧ 0 < args.txDepth ∧ 0 < args.rxDepth ∧ plan.WellFormed := by
  rw [ClientArgs.plan] at h
  split at h
  · exact absurd h (by simp)
  split at h
  · exact absurd h (by simp)
  next hiterations hdepths =>
    obtain ⟨r, hr, heq⟩ := Option.map_eq_some_iff.mp h
    cases r with
    | err message | panicked => exact absurd heq (by simp)
    | ok sizes =>
      rw [← Ended.ok.inj heq]
      have hsizes : sizes ≠ [] ∧ sizes.Pairwise (· < ·) ∧ ∀ x ∈ sizes, 0 < x := by
        rw [ClientArgs.sizes] at hr
        split at hr
        · exact powerOfTwoSizes_wellFormed hr
        split at hr
        · exact absurd hr (by simp)
        next hsize =>
          rw [← Ended.ok.inj (Option.some.inj hr)]
          exact ⟨List.cons_ne_nil _ _, List.pairwise_singleton _ _, fun x hx =>
            List.mem_singleton.mp hx ▸ Nat.pos_of_ne_zero hsize⟩
      refine ⟨by omega, by omega, by omega, ?_, hsizes.1, hsizes.2.1, hsizes.2.2⟩
      change (if args.mode = [] then Mode.all else args.mode) ≠ []
      split
      · exact List.cons_ne_nil _ _
      · assumption

end Cli
end RdmaBench
