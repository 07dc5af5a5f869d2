import RdmaBench.Server.Listening

/-!
# A server that stays up

Three things end the server in the middle of a connection: a size that panics, memory
that runs out, which aborts the process, and, in a build with overflow checks, a tally
of an accuracy run that overflows.  The first is decided by the sizes of the request
(`Server.handleConnection`).  Of the memory it is known only that `heap` bytes are
enough for the allocations of one connection, if these come to no more, and nothing is
said of a connection that asks for more: it may be served and it may end the server.
`Possible` says that nothing else panics.

A request that ends no server (`Bearable`) is not the same as one that is taken as it is
(`Fits`).  Queues too small for what is driven over them cost the connection at most,
while a request may derive all its sizes exactly and ask for more memory than there is.

The memory of the messages and of the device's own queues is not counted, and a
terminal that can no longer be written to is left out.
-/

namespace RdmaBench
namespace Server
namespace Listening

open Accuracy Cli Outcome

/-! ## What a benchmark needs -/

/-- The bytes of every allocation of a benchmark on the server, in order. -/
def allocations (mode : Mode) (msgSize iterations txDepth rxDepth : ℕ) : List ℕ :=
  match mode with
  | .bandwidth => [msgSize, wcSize * max rxDepth 1]
  | .latency => [msgSize, msgSize]
  | .accuracy =>
    [window .server txDepth rxDepth iterations * msgSize,
      wcSize * window .server txDepth rxDepth iterations, msgSize, iterations,
      16 * window .server txDepth rxDepth iterations]
  | .rdmaWrite | .rdmaRead => [min (max txDepth 1) iterations * msgSize]

/-- A benchmark with messages to send allocates nothing of size zero. -/
theorem allocations_pos {m n : ℕ} (hm : 0 < m) (hn : 0 < n) (mode : Mode) (tx rx : ℕ) :
    ∀ k ∈ allocations mode m n tx rx, 0 < k := by
  have hserver : 0 < window .server tx rx n := by
    simp only [window]
    omega
  have hclient : 0 < min (max tx 1) n := by omega
  have hregion := Nat.mul_pos hserver hm
  have hresponder := Nat.mul_pos hclient hm
  cases mode <;>
    simp only [allocations, List.forall_mem_cons, List.not_mem_nil, false_implies, implies_true,
      and_true, wcSize] <;>
    omega

/-- A message is no longer than what is allocated. -/
theorem le_sum_allocations {n : ℕ} (hn : 0 < n) (mode : Mode) (m tx rx : ℕ) :
    m ≤ (allocations mode m n tx rx).sum := by
  have hclient : 0 < min (max tx 1) n := by omega
  have hresponder := Nat.le_mul_of_pos_left m hclient
  cases mode <;> simp only [allocations, List.sum_cons, List.sum_nil] <;> omega

/-- The bits that a benchmark may have to tally. -/
def tallied (mode : Mode) (msgSize iterations : ℕ) : ℕ :=
  match mode with
  | .accuracy => 8 * iterations * msgSize
  | _ => 0

/-- There is memory for all of a benchmark, and its tallies do not panic. -/
def Affordable (checks : Bool) (heap : ℕ) (mode : Mode)
    (msgSize iterations txDepth rxDepth : ℕ) : Prop :=
  (allocations mode msgSize iterations txDepth rxDepth).sum ≤ heap ∧
    (checks = true → tallied mode msgSize iterations < usizeSize)

/-- **A request that ends no server**: the sum of its depths does not panic, and then
either it is refused before anything is allocated, or every allocation is of a positive
size and all of them can be afforded. -/
def Bearable (checks : Bool) (heap : ℕ) (req : BenchmarkRequest) : Prop :=
  (checks = true → req.txDepth.toNat + req.rxDepth.toNat < usizeSize) ∧
    (castI32 (req.txDepth.toNat + req.rxDepth.toNat) ≤ 0 ∨
      ModeRefuses req.mode req.msgSize.toNat req.iterations.toNat ∨
      (∀ n ∈ allocations req.mode req.msgSize.toNat req.iterations.toNat req.txDepth.toNat
        req.rxDepth.toNat, 0 < n) ∧
      Affordable checks heap req.mode req.msgSize.toNat req.iterations.toNat req.txDepth.toNat
        req.rxDepth.toNat)

/-! ## What a device and its peer can answer -/

/-- What a request makes of the queues: `handle_connection` up to the ack. -/
def prepareSizes (checks : Bool) (d : Device) (req : BenchmarkRequest) : Outcome ℤ := do
  let entries ← usize checks (req.txDepth.toNat + req.rxDepth.toNat)
  require (d.createCq (castI32 entries))
  require (d.createQp (castU32 req.txDepth.toNat) (castU32 req.rxDepth.toNat))
  pure (castI32 entries)

/-- What a step can answer, `o` being what becomes of the sizes it derives: it ends well
only if they do, and it panics only if they do or for a reason of its own.  An `Err` may
come from elsewhere. -/
def Answers {α : Type} (o : Outcome α) (reason : Prop) : Ended Unit → Prop
  | .ok _ => ∃ a, o = .done a
  | .err _ => True
  | .panicked => o = .panicked ∨ reason

/-- A connection as the device `d` has it, in a process that has `heap` bytes. -/
structure Connection.Possible (checks : Bool) (d : Device) (heap : ℕ) (c : Connection) :
    Prop where
  prepare : ∀ req, c.request = .ok req → supported req.transport req.mode = true →
    Answers (prepareSizes checks d req) False c.prepare
  bench : ∀ req, c.request = .ok req → supported req.transport req.mode = true →
    Answers
      (benchRun checks d req.mode req.msgSize.toNat req.iterations.toNat req.txDepth.toNat
        req.rxDepth.toNat)
      (¬ModeRefuses req.mode req.msgSize.toNat req.iterations.toNat ∧
        ¬Affordable checks heap req.mode req.msgSize.toNat req.iterations.toNat
          req.txDepth.toNat req.rxDepth.toNat)
      c.bench

theorem andThen_eq_panicked {α β : Type} {x : Ended α} {f : α → Ended β} :
    andThen x f = .panicked ↔ x = .panicked ∨ ∃ a, x = .ok a ∧ f a = .panicked := by
  cases x <;> simp [andThen]

theorem andThen_eq_ok {α β : Type} {x : Ended α} {f : α → Ended β} {b : β} :
    andThen x f = .ok b ↔ ∃ a, x = .ok a ∧ f a = .ok b := by
  cases x <;> simp [andThen]

theorem ended_ne_panicked {α : Type} (x : Except String α) : ended x ≠ .panicked := by
  cases x <;> simp [ended]

theorem ended_eq_ok {α : Type} {x : Except String α} {a : α} : ended x = .ok a ↔ x = .ok a := by
  cases x <;> simp [ended]

/-- Before the benchmark only the queues panic. -/
theorem panics_of_untilBench {c : Connection} (h : untilBench c = .panicked) :
    ∃ req, c.request = .ok req ∧ supported req.transport req.mode = true ∧
      c.prepare = .panicked := by
  rw [untilBench, andThen_eq_panicked] at h
  obtain h | ⟨req, hreq, h⟩ := h
  · exact absurd h (ended_ne_panicked _)
  split at h
  · next hs =>
    simp only [andThen_eq_panicked, ended_ne_panicked, false_or] at h
    obtain h | ⟨_, -, _, -, _, -, _, -, h⟩ := h
    · exact ⟨req, ended_eq_ok.mp hreq, hs, h⟩
    · exact absurd h (by simp)
  · simp only [andThen_eq_panicked, ended_ne_panicked, false_or] at h
    obtain ⟨_, -, h⟩ := h
    exact absurd h (by simp)

/-- A request that comes to the benchmark is a supported one that has its queues. -/
theorem prepared_of_untilBench {c : Connection} {req : BenchmarkRequest}
    (h : untilBench c = .ok (some req)) :
    c.request = .ok req ∧ supported req.transport req.mode = true ∧ c.prepare = .ok () := by
  rw [untilBench, andThen_eq_ok] at h
  obtain ⟨r, hr, h⟩ := h
  split at h
  · next hs =>
    simp only [andThen_eq_ok] at h
    obtain ⟨_, hprepare, _, -, _, -, _, -, heq⟩ := h
    obtain rfl := Option.some.inj (Ended.ok.inj heq)
    exact ⟨ended_eq_ok.mp hr, hs, hprepare⟩
  · simp only [andThen_eq_ok] at h
    obtain ⟨_, -, heq⟩ := h
    exact absurd (Ended.ok.inj heq) (by simp)

/-- **Only two steps panic**: the one that builds the queues, and the benchmark. -/
theorem panics_of_handleConnection {c : Connection} (h : handleConnection c = .panicked) :
    ∃ req, c.request = .ok req ∧ supported req.transport req.mode = true ∧
      (c.prepare = .panicked ∨ c.prepare = .ok () ∧ c.bench = .panicked) := by
  rw [handleConnection, andThen_eq_panicked] at h
  obtain h | ⟨req?, hreq, h⟩ := h
  · obtain ⟨req, hreq, hs, hprepare⟩ := panics_of_untilBench h
    exact ⟨req, hreq, hs, .inl hprepare⟩
  cases req? with
  | none => exact absurd h (by simp)
  | some req =>
    obtain ⟨hrequest, hs, hprepare⟩ := prepared_of_untilBench hreq
    simp only [andThen_eq_panicked, ended_ne_panicked, false_or] at h
    obtain h | ⟨_, -, _, -, h⟩ := h
    · exact ⟨req, hrequest, hs, .inr ⟨hprepare, h⟩⟩
    · exact absurd h (by simp)

/-! ## A bearable request -/

/-- **Allocations that are positive and not too many panic nowhere.** -/
theorem benchRun_calm {checks : Bool} {d : Device} (hd : d.Documented) {mode : Mode}
    {m n tx rx : ℕ} (hpos : ∀ k ∈ allocations mode m n tx rx, 0 < k)
    (hsum : (allocations mode m n tx rx).sum ≤ isizeMax) :
    (benchRun checks d mode m n tx rx).Holds fun _ => True := by
  have husize : ∀ {k}, k ≤ isizeMax → k < usizeSize := by
    intro k hk
    unfold isizeMax at hk
    unfold usizeSize
    omega
  cases mode with
  | bandwidth =>
    simp only [allocations, List.sum_cons, List.forall_mem_cons] at hpos hsum
    simp only [benchRun, bandwidthRun, holds_bind, holds_vec, holds_pure]
    exact hd.holds_allocate hpos.1 (by omega) ⟨by omega, trivial⟩
  | latency =>
    simp only [allocations, List.sum_cons, List.forall_mem_cons] at hpos hsum
    simp only [benchRun, latencyRun, holds_bind, holds_require, holds_pure]
    intro _
    exact hd.holds_allocate hpos.1 (by omega) (hd.holds_allocate hpos.1 (by omega) trivial)
  | accuracy =>
    simp only [allocations, List.sum_cons, List.forall_mem_cons] at hpos hsum
    have hregion : window .server tx rx n * m ≤ isizeMax := by omega
    simp only [benchRun, accuracyRun, holds_bind, holds_require, holds_usize, holds_vec,
      holds_expecting, holds_pure, decide_eq_true_iff, Nat.one_mul]
    intro _ _
    exact .inl ⟨husize hregion, hd.holds_allocate hpos.1 hregion
      ⟨by omega, slotFits_all hregion, by omega, by omega, by omega, trivial⟩⟩
  | rdmaWrite | rdmaRead =>
    simp only [allocations, List.sum_cons, List.sum_nil, Nat.add_zero,
      List.forall_mem_cons] at hpos hsum
    simp only [benchRun, rdmaRun, holds_bind, holds_usize, holds_pure]
    exact .inl ⟨husize hsum, hd.holds_allocate hpos.1 hsum trivial⟩

/-- The queues of a request whose depths do not overflow panic nowhere; where there are
some, they have been asked for a positive number of entries. -/
theorem prepareSizes_calm {checks : Bool} {d : Device} (hd : d.Documented)
    {req : BenchmarkRequest}
    (h : checks = true → req.txDepth.toNat + req.rxDepth.toNat < usizeSize) :
    (prepareSizes checks d req).Holds fun _ =>
      0 < castI32 (req.txDepth.toNat + req.rxDepth.toNat) := by
  simp only [prepareSizes, holds_bind, holds_usize, holds_require, holds_pure]
  rcases Nat.lt_or_ge (req.txDepth.toNat + req.rxDepth.toNat) usizeSize with hlt | hge
  · exact .inl ⟨hlt, fun hcq _ => hd.createCq_pos _ hcq⟩
  · refine .inr ⟨hge, ?_, fun hcq _ => ?_⟩
    · cases checks with
      | false => rfl
      | true => exact absurd (h rfl) (Nat.not_lt.mpr hge)
    · rw [castI32_mod] at hcq
      exact hd.createCq_pos _ hcq

/-- **A bearable request does not end the server.** -/
theorem ne_panicked_of_bearable {checks : Bool} {d : Device} (hd : d.Documented) {heap : ℕ}
    (hheap : heap ≤ isizeMax) {c : Connection} (hc : c.Possible checks d heap)
    (hbear : ∀ req, c.request = .ok req → supported req.transport req.mode = true →
      Bearable checks heap req) : handleConnection c ≠ .panicked := by
  intro h
  obtain ⟨req, hreq, hs, hpanic⟩ := panics_of_handleConnection h
  obtain ⟨hover, hcase⟩ := hbear req hreq hs
  have hqueues := prepareSizes_calm hd hover
  have hprepare := hc.prepare req hreq hs
  have hbench := hc.bench req hreq hs
  rcases hpanic with hpanic | ⟨hok, hpanic⟩
  · rw [hpanic] at hprepare
    exact hqueues.ne_panicked (hprepare.resolve_right id)
  · rw [hok] at hprepare
    rw [hpanic] at hbench
    obtain ⟨entries, hentries⟩ := hprepare
    rw [hentries] at hqueues
    have hpos : 0 < castI32 (req.txDepth.toNat + req.rxDepth.toNat) := hqueues
    rcases hcase with hneg | hrefused | ⟨hall, hafford⟩
    · exact absurd hpos (Int.not_lt.mpr hneg)
    · rcases hbench with hsizes | ⟨hno, -⟩
      · exact (benchRun_refused hrefused fun _ => True).ne_panicked hsizes
      · exact hno hrefused
    · rcases hbench with hsizes | ⟨-, hno⟩
      · exact (benchRun_calm hd hall (Nat.le_trans hafford.1 hheap)).ne_panicked hsizes
      · exact hno hafford

/-! ## The server -/

/-- A server that nothing panics handles every connection and waits for the next. -/
theorem loop_of_calm (tracing : Bool) {conns : List Connection}
    (h : ∀ c ∈ conns, handleConnection c ≠ .panicked) (s : Console) :
    loop tracing true (conns.map .ok) s =
      (conns.foldl (Console.after tracing) s, .accepting) := by
  induction conns generalizing s with
  | nil => rfl
  | cons c conns ih =>
    have hrest := ih (fun c hc => h c (List.mem_cons_of_mem _ hc)) (s.after tracing c)
    rw [List.map_cons, List.foldl_cons, ← hrest, loop, Console.after]
    cases hend : handleConnection c with
    | panicked => exact absurd hend (h c List.mem_cons_self)
    | err e | ok handled => rfl

/-- What it has printed by then. -/
theorem run_of_calm (tracing : Bool) (port : ℕ) {conns : List Connection}
    (h : ∀ c ∈ conns, handleConnection c ≠ .panicked) :
    (run tracing port true (conns.map .ok)).2 = .accepting ∧
    (run tracing port true (conns.map .ok)).1.printed = .listening port :: shown [] conns ∧
    (run tracing port true (conns.map .ok)).1.errors = conns.flatMap (errorsOf tracing) := by
  have hinit : ({ printed := [.listening port] } : Console).lastMode = lastRowMode [] := rfl
  rw [run, loop_of_calm tracing h]
  exact ⟨rfl, foldl_after tracing conns hinit⟩

/-- **A listening server outlives every connection whose request is bearable**, on every
documented device, however the connections end.  It has handled all of them, and what
it has printed is what they leave behind. -/
theorem run_survives {checks : Bool} {d : Device} (hd : d.Documented) {heap : ℕ}
    (hheap : heap ≤ isizeMax) (tracing : Bool) (port : ℕ) {conns : List Connection}
    (hconns : ∀ c ∈ conns, c.Possible checks d heap)
    (hbear : ∀ c ∈ conns, ∀ req, c.request = .ok req →
      supported req.transport req.mode = true → Bearable checks heap req) :
    (run tracing port true (conns.map .ok)).2 = .accepting ∧
    (run tracing port true (conns.map .ok)).1.printed = .listening port :: shown [] conns ∧
    rows (run tracing port true (conns.map .ok)).1.printed = conns.filterMap rowOf ∧
    (run tracing port true (conns.map .ok)).1.errors = conns.flatMap (errorsOf tracing) := by
  have hcalm : ∀ c ∈ conns, handleConnection c ≠ .panicked := by
    intro c hc
    exact ne_panicked_of_bearable hd hheap (hconns c hc) (hbear c hc)
  obtain ⟨hup, hprinted, herrors⟩ := run_of_calm tracing port hcalm
  refine ⟨hup, hprinted, ?_, herrors⟩
  rw [hprinted]
  exact rows_shown [] conns

/-- A latency run with the numbers of the command line, which is not taken as it is, and
a bandwidth run that the device has no queue pair for. -/
def twoRuns : List Connection :=
  [{ request := .ok ⟨.rc, .latency, 4096, 1000, 32, 128⟩, counted := 1000,
      row := .ok (some "4096,1000") },
    { request := .ok ⟨.uc, .bandwidth, 8, 1, 1, 1⟩, prepare := .err "no queue pair",
      row := .ok none }]

theorem run_survives_two_runs :
    (run false 18515 true (twoRuns.map .ok)).2 = .accepting ∧
      rows (run false 18515 true (twoRuns.map .ok)).1.printed = [(.latency, "4096,1000")] ∧
      (run false 18515 true (twoRuns.map .ok)).1.errors = ["connection error: no queue pair"] := by
  have hbear : ∀ c ∈ twoRuns, ∀ req, c.request = .ok req →
      supported req.transport req.mode = true → Bearable true 65536 req := by
    intro c hc req hreq _
    obtain rfl | rfl := List.mem_pair.mp hc <;> obtain rfl := Except.ok.inj hreq <;>
      exact ⟨fun _ => by decide, .inr (.inr ⟨by decide, by decide, fun _ => by decide⟩)⟩
  have hpossible : ∀ c ∈ twoRuns, c.Possible true generous 65536 := by
    intro c hc
    obtain rfl | rfl := List.mem_pair.mp hc
    · refine ⟨fun req hreq _ => ?_, fun req hreq _ => ?_⟩
      · obtain rfl := Except.ok.inj hreq
        exact ⟨160, by decide +kernel⟩
      · obtain rfl := Except.ok.inj hreq
        exact ⟨⟨4096, 1, 1000, 1, 0⟩, by decide +kernel⟩
    · refine ⟨fun req _ _ => trivial, fun req hreq _ => ?_⟩
      obtain rfl := Except.ok.inj hreq
      exact ⟨⟨8, 1, 0, 1, 0⟩, by decide +kernel⟩
  obtain ⟨hup, -, hrows, herrors⟩ :=
    run_survives generous_documented (by decide) false 18515 hpossible hbear
  exact ⟨hup, hrows, herrors⟩

end Listening
end Server
end RdmaBench
