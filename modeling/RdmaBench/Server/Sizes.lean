import RdmaBench.Accuracy.Programs
import RdmaBench.Accuracy.Slots

/-!
# The sizes a request turns into

`handle_connection` takes four 64-bit numbers from its peer and derives from them,
unchecked, the entries of a completion queue (`i32`), the depths of a queue pair
(`u32` each), the length of a memory region and of several vectors (`usize`).  A
sum or a product may overflow, which panics in a build with overflow checks and
wraps in one without; a cast truncates in both; a vector of more than `isize::MAX`
bytes panics.  An `Outcome` says which of this happened.

The device and the crate that drives it are a parameter.  `Device.Documented` is
what the path relies on: a completion queue needs a positive number of entries,
and `allocate` registers a region only of a positive number of bytes that a vector
can hold, and panics on no other.  Whether it panics or refuses on those is open,
and so is whatever else the device refuses.

`Holds` is the precondition calculus for `Outcome`: what a path must be given so
that it does not panic and ends, if it is not refused, as it should.
-/

namespace RdmaBench
namespace Server

open Accuracy

/-! ## Outcomes -/

/-- How a piece of the server path ends: with a value, with an `Err`, which ends
the connection, or with a panic, which ends the server. -/
inductive Outcome (α : Type) where
  | done (a : α)
  | refused
  | panicked
  deriving DecidableEq

namespace Outcome

variable {α β : Type}

protected def bind : Outcome α → (α → Outcome β) → Outcome β
  | done a, f => f a
  | refused, _ => refused
  | panicked, _ => panicked

instance : Monad Outcome where
  pure := done
  bind := Outcome.bind

/-- No panic, and `P` of the value if there is one. -/
def Holds (P : α → Prop) : Outcome α → Prop
  | done a => P a
  | refused => True
  | panicked => False

@[simp] theorem holds_pure {P : α → Prop} {a : α} : (pure a : Outcome α).Holds P ↔ P a := Iff.rfl

@[simp] theorem holds_done {P : α → Prop} {a : α} : (done a).Holds P ↔ P a := Iff.rfl

@[simp] theorem holds_refused {P : α → Prop} : (refused : Outcome α).Holds P ↔ True := Iff.rfl

@[simp] theorem holds_panicked {P : α → Prop} : (panicked : Outcome α).Holds P ↔ False := Iff.rfl

/-- **One after the other.** -/
@[simp] theorem holds_bind {P : β → Prop} {x : Outcome α} {f : α → Outcome β} :
    (x >>= f).Holds P ↔ x.Holds fun a => (f a).Holds P := by
  cases x <;> exact Iff.rfl

theorem Holds.mono {P Q : α → Prop} {x : Outcome α} (h : x.Holds P) (hPQ : ∀ a, P a → Q a) :
    x.Holds Q := by
  cases x with
  | done a => exact hPQ a h
  | refused => trivial
  | panicked => exact h

theorem Holds.ne_panicked {P : α → Prop} {x : Outcome α} (h : x.Holds P) : x ≠ panicked := by
  rintro rfl
  exact h

end Outcome

open Outcome

/-- An `Err` unless `c`. -/
def require (c : Bool) : Outcome Unit := if c then done () else refused

@[simp] theorem holds_require {c : Bool} {P : Unit → Prop} :
    (require c).Holds P ↔ (c = true → P ()) := by
  cases c <;> simp [require]

/-- A panic unless `c`. -/
def expecting (c : Bool) : Outcome Unit := if c then done () else panicked

@[simp] theorem holds_expecting {c : Bool} {P : Unit → Prop} :
    (expecting c).Holds P ↔ c = true ∧ P () := by
  cases c <;> simp [expecting]

/-- The result `n` of `usize` arithmetic, in a build with overflow checks or
without. -/
def usize (checks : Bool) (n : ℕ) : Outcome ℕ :=
  if n < usizeSize then done n else if checks then panicked else done (n % usizeSize)

@[simp] theorem holds_usize {checks : Bool} {n : ℕ} {P : ℕ → Prop} :
    (usize checks n).Holds P ↔
      (n < usizeSize ∧ P n) ∨ (usizeSize ≤ n ∧ checks = false ∧ P (n % usizeSize)) := by
  unfold usize
  by_cases hn : n < usizeSize
  · simp [hn, Nat.not_le.mpr hn]
  · cases checks <;> simp [hn, Nat.not_lt.mp hn]

/-- `as i32`. -/
def castI32 (n : ℕ) : ℤ := Int.bmod n u32Size

/-- `as u32`. -/
def castU32 (n : ℕ) : ℕ := n % u32Size

/-- Allocating a vector of `n` elements of `size` bytes. -/
def vec (size n : ℕ) : Outcome Unit := expecting (size * n ≤ isizeMax)

/-! ## The device -/

/-- What `ibverbs` and the device behind it do with the sizes they are given. -/
structure Device where
  createCq : ℤ → Bool
  createQp : ℕ → ℕ → Bool
  allocate : ℕ → Outcome Unit

/-- What is documented of them. -/
structure Device.Documented (d : Device) : Prop where
  createCq_pos : ∀ n, d.createCq n = true → 0 < n
  allocate_done : ∀ n, d.allocate n = done () → 0 < n ∧ n ≤ isizeMax
  allocate_panicked : ∀ n, d.allocate n = panicked → n = 0 ∨ isizeMax < n

/-- A device that refuses nothing it need not refuse, under a crate that panics
where it may. -/
def generous : Device where
  createCq n := 0 < n
  createQp _ _ := true
  allocate n := expecting (0 < n ∧ n ≤ isizeMax)

theorem generous_documented : generous.Documented where
  createCq_pos n h := of_decide_eq_true h
  allocate_done n h := by
    by_contra hn
    simp [generous, expecting, hn] at h
  allocate_panicked n h := by
    by_contra hn
    have hfits : 0 < n ∧ n ≤ isizeMax := by omega
    simp [generous, expecting, hfits] at h

/-! ## The server path -/

/-- What a benchmark allocates and can have outstanding. -/
structure Buffers where
  /-- The length in bytes of a registered region. -/
  region : ℕ
  /-- How many messages it is to hold. -/
  slots : ℕ
  /-- The most sends that are ever outstanding. -/
  sends : ℕ := 0
  recvs : ℕ := 0
  /-- The entries of `seen`. -/
  seen : ℕ := 0
  deriving DecidableEq

/-- The size of an `ibv_wc`. -/
def wcSize : ℕ := 48

/-- `bandwidth::run` on the server, and `receive`. -/
def bandwidthRun (d : Device) (msgSize iterations rxDepth : ℕ) : Outcome Buffers := do
  d.allocate msgSize
  vec wcSize (max rxDepth 1)
  pure { region := msgSize, slots := 1, recvs := min rxDepth iterations }

/-- `latency::run` on the server, and `pong`: it has one receive outstanding, but as it
waits for receives alone, any number of its echoes. -/
def latencyRun (d : Device) (msgSize iterations : ℕ) : Outcome Buffers := do
  require (iterations ≠ 0)
  d.allocate msgSize
  d.allocate msgSize
  pure { region := msgSize, slots := 1, sends := iterations, recvs := 1 }

/-- `accuracy::run` on the server, and `receive` up to its loop. -/
def accuracyRun (checks : Bool) (d : Device) (msgSize iterations txDepth rxDepth : ℕ) :
    Outcome Buffers := do
  require (iterations ≠ 0)
  require (headerLen ≤ msgSize)
  let len ← usize checks (window .server txDepth rxDepth iterations * msgSize)
  d.allocate len
  vec wcSize (window .server txDepth rxDepth iterations)
  expecting (∀ slot < window .server txDepth rxDepth iterations, SlotFits len slot msgSize)
  vec 1 msgSize
  vec 1 iterations
  vec 16 (window .server txDepth rxDepth iterations)
  pure
    { region := len
      slots := window .server txDepth rxDepth iterations
      recvs := window .server txDepth rxDepth iterations
      seen := iterations }

/-- `rdma::run` on the server: it registers what the initiator will address and
posts nothing. -/
def rdmaRun (checks : Bool) (d : Device) (msgSize iterations txDepth : ℕ) : Outcome Buffers := do
  let len ← usize checks (min (max txDepth 1) iterations * msgSize)
  d.allocate len
  pure { region := len, slots := min (max txDepth 1) iterations }

/-- `bench::run` on the server. -/
def benchRun (checks : Bool) (d : Device) (mode : Mode) (msgSize iterations txDepth rxDepth : ℕ) :
    Outcome Buffers :=
  match mode with
  | .bandwidth => bandwidthRun d msgSize iterations rxDepth
  | .latency => latencyRun d msgSize iterations
  | .accuracy => accuracyRun checks d msgSize iterations txDepth rxDepth
  | .rdmaWrite | .rdmaRead => rdmaRun checks d msgSize iterations txDepth

/-- A buffer holds the messages that are to go into it, no queue is smaller than the
window that is driven over it, and `seen` can be allocated. -/
structure Buffers.Exact (msgSize maxSendWr maxRecvWr : ℕ) (b : Buffers) : Prop where
  region : b.region = b.slots * msgSize
  slots : ∀ slot < b.slots, SlotFits b.region slot msgSize
  sends : b.sends ≤ maxSendWr
  recvs : b.recvs ≤ maxRecvWr
  seen : b.seen ≤ isizeMax

/-- Every size the server path derives from a request. -/
structure Sizes where
  cqEntries : ℤ
  maxSendWr : ℕ
  maxRecvWr : ℕ
  buffers : Buffers
  deriving DecidableEq

/-- Every size is the number it stands for. -/
structure Sizes.Exact (req : BenchmarkRequest) (z : Sizes) : Prop where
  entries : z.cqEntries = (req.txDepth.toNat + req.rxDepth.toNat : ℕ)
  sendWr : z.maxSendWr = req.txDepth.toNat
  recvWr : z.maxRecvWr = req.rxDepth.toNat
  buffers : z.buffers.Exact req.msgSize.toNat z.maxSendWr z.maxRecvWr

/-- `handle_connection`, as far as the sizes go. -/
def handleConnection (checks : Bool) (d : Device) (req : BenchmarkRequest) : Outcome Sizes := do
  require (supported req.transport req.mode)
  let entries ← usize checks (req.txDepth.toNat + req.rxDepth.toNat)
  require (d.createCq (castI32 entries))
  require (d.createQp (castU32 req.txDepth.toNat) (castU32 req.rxDepth.toNat))
  let buffers ← benchRun checks d req.mode req.msgSize.toNat req.iterations.toNat
    req.txDepth.toNat req.rxDepth.toNat
  pure
    { cqEntries := castI32 entries
      maxSendWr := castU32 req.txDepth.toNat
      maxRecvWr := castU32 req.rxDepth.toNat
      buffers := buffers }

end Server
end RdmaBench
