import RdmaBench.Server.Sizes

/-!
# Which requests the server takes as they are

`Fits` is the arithmetic of a request that the server path handles exactly, on
every device: the sum of the depths does not overflow where that panics, and then
either the request is refused in any case or its numbers stay inside the narrowest
type they pass through.  `sizes_exact_iff` says that it is no more than that.  A
request that does not fit panics or gets queues and buffers of other sizes than it
asked for, on the device that refuses nothing.
-/

namespace RdmaBench
namespace Server

open Accuracy Outcome

/-! ## Casts -/

theorem castI32_eq_self {n : ℕ} : castI32 n = n ↔ n ≤ i32Max := by
  rw [castI32, Int.bmod_def, u32Size, i32Max]
  split <;> omega

/-- A sum that has wrapped is cast to the same number. -/
theorem castI32_mod (n : ℕ) : castI32 (n % usizeSize) = castI32 n := by
  have h : (n % usizeSize) % u32Size = n % u32Size := Nat.mod_mod_of_dvd n ⟨u32Size, by decide⟩
  have hcast : ((n % usizeSize : ℕ) : ℤ) % u32Size = (n : ℤ) % u32Size := by
    rw [← Int.natCast_mod, ← Int.natCast_mod, h]
  rw [castI32, castI32, Int.bmod_def, Int.bmod_def, hcast]

theorem castU32_eq_self {n : ℕ} (h : n < u32Size) : castU32 n = n := Nat.mod_eq_of_lt h

theorem castU32_le (n : ℕ) : castU32 n ≤ n := Nat.mod_le _ _

/-! ## The condition -/

/-- What each mode needs of the numbers. -/
def ModeFits (mode : Mode) (msgSize iterations txDepth rxDepth : ℕ) : Prop :=
  match mode with
  | .bandwidth => 0 < msgSize ∧ msgSize ≤ isizeMax
  | .latency => 0 < msgSize ∧ msgSize ≤ isizeMax ∧ iterations ≤ txDepth ∧ 0 < rxDepth
  | .accuracy => 0 < rxDepth ∧ min rxDepth iterations * msgSize ≤ isizeMax ∧ iterations ≤ isizeMax
  | .rdmaWrite | .rdmaRead =>
    0 < min (max txDepth 1) iterations * msgSize ∧
      min (max txDepth 1) iterations * msgSize ≤ isizeMax

/-- What each mode refuses. -/
def ModeRefuses (mode : Mode) (msgSize iterations : ℕ) : Prop :=
  match mode with
  | .latency => iterations = 0
  | .accuracy => iterations = 0 ∨ msgSize < headerLen
  | _ => False

/-- A request that the server refuses or handles exactly on every device. -/
def Fits (checks : Bool) (req : BenchmarkRequest) : Prop :=
  (checks = true → req.txDepth.toNat + req.rxDepth.toNat < usizeSize) ∧
    (castI32 (req.txDepth.toNat + req.rxDepth.toNat) ≤ 0 ∨
      ModeRefuses req.mode req.msgSize.toNat req.iterations.toNat ∨
      req.txDepth.toNat + req.rxDepth.toNat ≤ i32Max ∧
        ModeFits req.mode req.msgSize.toNat req.iterations.toNat req.txDepth.toNat
          req.rxDepth.toNat)

/-! ## A request that fits -/

/-- A region of a size that a vector can hold is registered or refused. -/
theorem Device.Documented.holds_allocate {d : Device} (hd : d.Documented) {n : ℕ}
    {P : Unit → Prop} (h₀ : 0 < n) (hn : n ≤ isizeMax) (h : P ()) : (d.allocate n).Holds P := by
  cases hres : d.allocate n with
  | done a => exact h
  | refused => trivial
  | panicked =>
    have := hd.allocate_panicked n hres
    omega

@[simp] theorem holds_vec {size n : ℕ} {P : Unit → Prop} :
    (vec size n).Holds P ↔ size * n ≤ isizeMax ∧ P () := by
  unfold vec
  rw [holds_expecting, decide_eq_true_iff]

/-- What a mode refuses, it refuses before it allocates anything. -/
theorem benchRun_refused {checks : Bool} {d : Device} {mode : Mode} {m n tx rx : ℕ}
    (h : ModeRefuses mode m n) (P : Buffers → Prop) :
    (benchRun checks d mode m n tx rx).Holds P := by
  cases mode with
  | latency =>
    have hn : n = 0 := h
    simp [benchRun, latencyRun, hn]
  | accuracy =>
    have hn : n = 0 ∨ m < headerLen := h
    simp only [benchRun, accuracyRun, holds_bind, holds_require, decide_eq_true_iff]
    intro h₁ h₂
    omega
  | bandwidth | rdmaWrite | rdmaRead => exact h.elim

/-- One slot in a region of its size. -/
theorem slotFits_one {m : ℕ} (hm : m ≤ isizeMax) : ∀ slot < 1, SlotFits m slot m := by
  intro slot hslot
  obtain rfl := Nat.lt_one_iff.mp hslot
  exact slotFits_of_le (by unfold usizeSize; unfold isizeMax at hm; omega) (by omega)

/-- The slots of a region of the exact size. -/
theorem slotFits_all {w m : ℕ} (hlen : w * m ≤ isizeMax) :
    ∀ slot < w, SlotFits (w * m) slot m := by
  intro slot hslot
  refine slotFits_of_le (by unfold usizeSize; unfold isizeMax at hlen; omega) ?_
  exact Nat.mul_le_mul_right m hslot

/-- **A mode whose numbers fit allocates exactly what it drives**, or is refused. -/
theorem benchRun_exact {checks : Bool} {d : Device} (hd : d.Documented) {mode : Mode}
    {m n tx rx : ℕ} (hlt : tx + rx ≤ i32Max) (h : ModeFits mode m n tx rx) :
    (benchRun checks d mode m n tx rx).Holds (Buffers.Exact m tx rx) := by
  cases mode with
  | bandwidth =>
    obtain ⟨hpos, hm⟩ := h
    simp only [benchRun, bandwidthRun, holds_bind, holds_vec, holds_pure]
    refine hd.holds_allocate hpos hm ⟨by unfold wcSize isizeMax; unfold i32Max at hlt; omega, ?_⟩
    exact ⟨(Nat.one_mul m).symm, slotFits_one hm, Nat.zero_le _, Nat.min_le_left _ _,
      Nat.zero_le _⟩
  | latency =>
    obtain ⟨hpos, hm, htx, hrx⟩ := h
    simp only [benchRun, latencyRun, holds_bind, holds_require, holds_pure]
    intro _
    refine hd.holds_allocate hpos hm (hd.holds_allocate hpos hm ?_)
    exact ⟨(Nat.one_mul m).symm, slotFits_one hm, htx, hrx, Nat.zero_le _⟩
  | accuracy =>
    obtain ⟨hrx, hlen, hn⟩ := h
    have hw : window .server tx rx n = min rx n := by
      simp only [window]
      omega
    simp only [benchRun, accuracyRun, hw, holds_bind, holds_require, holds_usize, holds_vec,
      holds_expecting, holds_pure, decide_eq_true_iff]
    intro hpos hhead
    have hpos' : 0 < min rx n * m := Nat.mul_pos (by omega) (by unfold headerLen at hhead; omega)
    have hm : m ≤ isizeMax := Nat.le_trans (Nat.le_mul_of_pos_left m (by omega)) hlen
    refine .inl ⟨by unfold usizeSize; unfold isizeMax at hlen; omega,
      hd.holds_allocate hpos' hlen ⟨?_, slotFits_all hlen, ?_, ?_, ?_, ?_⟩⟩
    · unfold wcSize isizeMax
      unfold i32Max at hlt
      omega
    · rwa [Nat.one_mul]
    · rwa [Nat.one_mul]
    · unfold isizeMax
      unfold i32Max at hlt
      omega
    · exact ⟨rfl, slotFits_all hlen, Nat.zero_le _, Nat.min_le_left _ _, hn⟩
  | rdmaWrite | rdmaRead =>
    obtain ⟨hpos, hlen⟩ := h
    simp only [benchRun, rdmaRun, holds_bind, holds_usize, holds_pure]
    refine .inl ⟨by unfold usizeSize; unfold isizeMax at hlen; omega,
      hd.holds_allocate hpos hlen ?_⟩
    exact ⟨rfl, slotFits_all hlen, Nat.zero_le _, Nat.zero_le _, Nat.zero_le _⟩

/-! ## A request that does not fit -/

@[simp] theorem holds_generous {n : ℕ} {P : Unit → Prop} :
    (generous.allocate n).Holds P ↔ (0 < n ∧ n ≤ isizeMax) ∧ P () := by
  unfold generous
  rw [holds_expecting, decide_eq_true_iff]

theorem generous_createCq {n : ℤ} (h : 0 < n) : generous.createCq n = true := decide_eq_true h

/-- **On the generous device a mode that is not refused needs what `ModeFits`
says.** -/
theorem modeFits_of_generous {checks : Bool} {mode : Mode} {m n tx rx tx' rx' : ℕ} {Q : Prop}
    (hrefuse : ¬ModeRefuses mode m n) (htx : tx' ≤ tx) (hrx : rx' ≤ rx)
    (h : (benchRun checks generous mode m n tx rx).Holds fun b => Q ∧ b.Exact m tx' rx') :
    Q ∧ ModeFits mode m n tx rx := by
  cases mode with
  | bandwidth =>
    simp only [benchRun, bandwidthRun, holds_bind, holds_generous, holds_pure] at h
    exact ⟨(holds_vec.mp h.2).2.1, h.1⟩
  | latency =>
    simp only [benchRun, latencyRun, holds_bind, holds_require, holds_generous, holds_pure,
      decide_eq_true_iff] at h
    obtain ⟨hm, -, hQ, hex⟩ := h hrefuse
    exact ⟨hQ, hm.1, hm.2, Nat.le_trans hex.sends htx, Nat.lt_of_lt_of_le hex.recvs hrx⟩
  | accuracy =>
    obtain ⟨hn, hm⟩ := not_or.mp hrefuse
    simp only [benchRun, accuracyRun, holds_bind, holds_require, holds_usize, holds_vec,
      holds_expecting, holds_generous, holds_pure, decide_eq_true_iff, Nat.one_mul] at h
    have hm' : headerLen ≤ m := Nat.not_lt.mp hm
    have hlen := Nat.mod_lt (window .server tx rx n * m) (by decide : 0 < usizeSize)
    rcases h hn hm' with ⟨-, hlen', -, -, -, hseen, -, hQ, hex⟩ | ⟨hge, -, -, -, -, -, -, -, -, hex⟩
    · have hrecvs : window .server tx rx n ≤ rx' := hex.recvs
      simp only [window] at hrecvs hlen'
      have hpos : 0 < rx := by omega
      rw [Nat.max_eq_left hpos] at hlen'
      exact ⟨hQ, hpos, hlen'.2, hseen⟩
    · have hregion : window .server tx rx n * m % usizeSize = window .server tx rx n * m :=
        hex.region
      omega
  | rdmaWrite | rdmaRead =>
    simp only [benchRun, rdmaRun, holds_bind, holds_usize, holds_generous, holds_pure] at h
    have hlen := Nat.mod_lt (min (max tx 1) n * m) (by decide : 0 < usizeSize)
    rcases h with ⟨-, hlen', hQ, -⟩ | ⟨hge, -, -, -, hex⟩
    · exact ⟨hQ, hlen'⟩
    · have hregion : min (max tx 1) n * m % usizeSize = min (max tx 1) n * m := hex.region
      omega

/-! ## Exactly the requests that fit -/

theorem Sizes.exact_iff {req : BenchmarkRequest} {e : ℤ} {x y : ℕ} {b : Buffers} :
    Sizes.Exact req ⟨e, x, y, b⟩ ↔ e = (req.txDepth.toNat + req.rxDepth.toNat : ℕ) ∧
      x = req.txDepth.toNat ∧ y = req.rxDepth.toNat ∧ b.Exact req.msgSize.toNat x y :=
  ⟨fun ⟨h₁, h₂, h₃, h₄⟩ => ⟨h₁, h₂, h₃, h₄⟩, fun ⟨h₁, h₂, h₃, h₄⟩ => ⟨h₁, h₂, h₃, h₄⟩⟩

/-- What is asked of a request: it is refused, or every size is exact. -/
def TakenAsIs (checks : Bool) (d : Device) (req : BenchmarkRequest) : Prop :=
  (handleConnection checks d req).Holds (Sizes.Exact req)

/-- The generous device takes as they are only requests that fit. -/
theorem fits_of_takenAsIs {checks : Bool} {req : BenchmarkRequest}
    (hs : supported req.transport req.mode = true) (h : TakenAsIs checks generous req) :
    Fits checks req := by
  simp only [TakenAsIs, handleConnection, holds_bind, holds_require, holds_usize,
    holds_pure] at h
  have hgen := h hs
  refine ⟨fun hchecks => ?_, ?_⟩
  · rcases hgen with ⟨hlt, -⟩ | ⟨-, hno, -⟩
    · exact hlt
    · exact absurd (hchecks.symm.trans hno) Bool.noConfusion
  · by_cases hpos : castI32 (req.txDepth.toNat + req.rxDepth.toNat) ≤ 0
    · exact .inl hpos
    by_cases href : ModeRefuses req.mode req.msgSize.toNat req.iterations.toNat
    · exact .inr (.inl href)
    -- the device accepts both queues, so the rest of the path is taken
    have hcq := generous_createCq (Int.not_le.mp hpos)
    have hlast : (benchRun checks generous req.mode req.msgSize.toNat req.iterations.toNat
        req.txDepth.toNat req.rxDepth.toNat).Holds fun b =>
        castI32 (req.txDepth.toNat + req.rxDepth.toNat) =
          (req.txDepth.toNat + req.rxDepth.toNat : ℕ) ∧
        b.Exact req.msgSize.toNat (castU32 req.txDepth.toNat) (castU32 req.rxDepth.toNat) := by
      rcases hgen with ⟨-, h⟩ | ⟨-, -, h⟩
      · refine (h hcq rfl).mono fun b hb => ?_
        obtain ⟨hentries, -, -, hbuffers⟩ := Sizes.exact_iff.mp hb
        exact ⟨hentries, hbuffers⟩
      · rw [castI32_mod] at h
        refine (h hcq rfl).mono fun b hb => ?_
        obtain ⟨hentries, -, -, hbuffers⟩ := Sizes.exact_iff.mp hb
        exact ⟨hentries, hbuffers⟩
    obtain ⟨heq, hfit⟩ := modeFits_of_generous href (castU32_le _) (castU32_le _) hlast
    exact .inr (.inr ⟨castI32_eq_self.mp heq, hfit⟩)

/-- Every documented device takes a request that fits as it is. -/
theorem takenAsIs_of_fits {checks : Bool} {req : BenchmarkRequest} {d : Device}
    (hd : d.Documented) (h : Fits checks req) : TakenAsIs checks d req := by
  obtain ⟨hover, hcase⟩ := h
  simp only [TakenAsIs, handleConnection, holds_bind, holds_require, holds_usize, holds_pure]
  intro _
  have hrest : d.createCq (castI32 (req.txDepth.toNat + req.rxDepth.toNat)) = true →
      (benchRun checks d req.mode req.msgSize.toNat req.iterations.toNat
        req.txDepth.toNat req.rxDepth.toNat).Holds fun b => Sizes.Exact req
          { cqEntries := castI32 (req.txDepth.toNat + req.rxDepth.toNat)
            maxSendWr := castU32 req.txDepth.toNat
            maxRecvWr := castU32 req.rxDepth.toNat
            buffers := b } := by
    intro hcq
    have hpos := hd.createCq_pos _ hcq
    rcases hcase with hneg | href | ⟨hlt, hfit⟩
    · exact absurd hpos (Int.not_lt.mpr hneg)
    · exact benchRun_refused href _
    · have hsmall : ∀ {n : ℕ}, n ≤ i32Max → n < u32Size := by
        intro n hn
        unfold u32Size
        unfold i32Max at hn
        omega
      have htx := castU32_eq_self (hsmall (Nat.le_of_add_right_le hlt))
      have hrx := castU32_eq_self (hsmall (Nat.le_of_add_left_le hlt))
      refine (benchRun_exact hd hlt hfit).mono fun b hb => Sizes.exact_iff.mpr ?_
      rw [htx, hrx]
      exact ⟨castI32_eq_self.mpr hlt, rfl, rfl, hb⟩
  rcases Nat.lt_or_ge (req.txDepth.toNat + req.rxDepth.toNat) usizeSize with hlt | hge
  · exact .inl ⟨hlt, fun hcq _ => hrest hcq⟩
  · refine .inr ⟨hge, ?_, ?_⟩
    · cases checks with
      | false => rfl
      | true => exact absurd (hover rfl) (Nat.not_lt.mpr hge)
    · rw [castI32_mod]
      exact fun hcq _ => hrest hcq

/-- **The server takes a request as it is, on every documented device, exactly when
its numbers fit.** -/
theorem sizes_exact_iff (checks : Bool) (req : BenchmarkRequest)
    (hs : supported req.transport req.mode = true) :
    (∀ d : Device, d.Documented → TakenAsIs checks d req) ↔ Fits checks req := by
  constructor
  · intro h
    exact fits_of_takenAsIs hs (h generous generous_documented)
  · intro h d hd
    exact takenAsIs_of_fits hd h

/-- The defaults of the command line fit, and the device that refuses nothing takes
them as they are. -/
theorem sizes_exact_iff_defaults :
    Fits true ⟨.rc, .accuracy, 4096, 1000, 32, 128⟩ ∧
      TakenAsIs true generous ⟨.rc, .accuracy, 4096, 1000, 32, 128⟩ := by
  have hfits : Fits true ⟨.rc, .accuracy, 4096, 1000, 32, 128⟩ :=
    ⟨fun _ => by decide, .inr (.inr ⟨by decide, by decide, by decide, by decide⟩)⟩
  exact ⟨hfits, (sizes_exact_iff true ⟨.rc, .accuracy, 4096, 1000, 32, 128⟩ rfl).mpr hfits
    generous generous_documented⟩

/-- **A request that panics the server, and two that get queues too small.**  The first
asks for an accuracy run of `2 ^ 63` messages, the second for `2 ^ 32 + 1` sends in
flight, the third for two echoes over a send queue of one; the device is documented,
and none depends on the build. -/
theorem requests_not_taken_as_is : generous.Documented ∧ ∀ checks : Bool,
    handleConnection checks generous ⟨.rc, .accuracy, 8, 0x8000000000000000, 1, 1⟩ = panicked ∧
    ¬TakenAsIs checks generous ⟨.rc, .accuracy, 8, 0x8000000000000000, 1, 1⟩ ∧
    handleConnection checks generous ⟨.rc, .bandwidth, 8, 1, 0x100000001, 1⟩ =
      done ⟨2, 1, 1, { region := 8, slots := 1, recvs := 1 }⟩ ∧
    ¬TakenAsIs checks generous ⟨.rc, .bandwidth, 8, 1, 0x100000001, 1⟩ ∧
    handleConnection checks generous ⟨.rc, .latency, 8, 2, 1, 1⟩ =
      done ⟨2, 1, 1, { region := 8, slots := 1, sends := 2, recvs := 1 }⟩ ∧
    ¬TakenAsIs checks generous ⟨.rc, .latency, 8, 2, 1, 1⟩ := by
  refine ⟨generous_documented, fun checks => ?_⟩
  have hpanic :
      handleConnection checks generous ⟨.rc, .accuracy, 8, 0x8000000000000000, 1, 1⟩ = panicked := by
    cases checks <;> decide +kernel
  have hsmall : handleConnection checks generous ⟨.rc, .bandwidth, 8, 1, 0x100000001, 1⟩ =
      done ⟨2, 1, 1, { region := 8, slots := 1, recvs := 1 }⟩ := by
    cases checks <;> decide +kernel
  have hechoes : handleConnection checks generous ⟨.rc, .latency, 8, 2, 1, 1⟩ =
      done ⟨2, 1, 1, { region := 8, slots := 1, sends := 2, recvs := 1 }⟩ := by
    cases checks <;> decide +kernel
  refine ⟨hpanic, fun h => ?_, hsmall, fun h => ?_, hechoes, fun h => ?_⟩
  · rw [TakenAsIs, hpanic] at h
    exact h
  · rw [TakenAsIs, hsmall] at h
    exact absurd (Sizes.exact_iff.mp h).1 (by decide)
  · rw [TakenAsIs, hechoes] at h
    exact absurd (Sizes.exact_iff.mp h).2.2.2.sends (by decide)

end Server
end RdmaBench
