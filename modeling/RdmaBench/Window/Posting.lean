import RdmaBench.Accuracy.Programs
import RdmaBench.Bandwidth.Programs
import RdmaBench.Window.Poster

/-!
# The three windowed loops

`bandwidth::send`, `bandwidth::receive` and `accuracy::send` keep a window posted,
each with a loop of its own.  A `Posting` is a program with the queue it posts to: a
poll returns completions of requests that are outstanding, each at most once, in any
order and in batches up to the size of the poll buffer.

Each program is a `Poster`, seen through a `View`: which of its points is which
stage, and where its two counters are.  A step of the program is a move of the poster
(`Bandwidth.send_move`, `Bandwidth.recv_move`, `Accuracy.send_move`), so the counters
of all three are exact for the one reason given there.  They differ in two things.
`bandwidth::receive` counts a batch after a look at the clock, not in the poll; and
it can give up, so that leaving its loop does not mean that all has arrived.
-/

namespace RdmaBench

open Automaton Window

/-- A program with the queue it posts to. -/
structure Posting (σ : Type) where
  ctl : σ
  outstanding : Multiset ℕ := 0
  /-- The ids of all requests posted so far. -/
  posts : List ℕ := []

/-- The ids a batch reports. -/
def wrIds (wcs : List Wc) : Multiset ℕ := wcs.map Wc.wrId

section Posting

variable {σ : Type}

/-- What an act does to the queue. -/
def Posting.perform (s : Posting σ) : Act → Option (Posting σ)
  | .postSend _ id => some { s with outstanding := id ::ₘ s.outstanding, posts := s.posts ++ [id] }
  | .postReceive _ id =>
    some { s with outstanding := id ::ₘ s.outstanding, posts := s.posts ++ [id] }
  | .poll wcs =>
    if wrIds wcs ≤ s.outstanding then some { s with outstanding := s.outstanding - wrIds wcs }
    else none
  | _ => some s

/-- An act of the program `step`. -/
def Posting.act (step : σ → Act → Option σ) (s : Posting σ) (a : Act) : Option (Posting σ) :=
  (s.perform a).bind fun q => (step s.ctl a).map fun c => { q with ctl := c }

/-- A program and its queue. -/
def posting (P : Program σ) : System (Posting σ) Act := ⟨⟨P.init, 0, []⟩, Posting.act P.step⟩

/-- Where the window is in a program. -/
structure View (σ : Type) where
  failed : σ → Bool
  /-- The stage of a program that has not failed. -/
  point : σ → Stage
  posted : σ → ℕ
  completed : σ → ℕ

/-- A program and its queue as a windowed loop. -/
def View.poster (v : View σ) (s : Posting σ) : Poster where
  stage := if v.failed s.ctl then .over else v.point s.ctl
  posted := v.posted s.ctl
  completed := v.completed s.ctl
  outstanding := s.outstanding
  posts := s.posts

theorem Posting.act_eq_some {step : σ → Act → Option σ} {s t : Posting σ} {a : Act}
    (h : s.act step a = some t) :
    ∃ q c, s.perform a = some q ∧ step s.ctl a = some c ∧ t = { q with ctl := c } := by
  obtain ⟨q, hq, h⟩ := Option.bind_eq_some_iff.mp h
  obtain ⟨c, hc, rfl⟩ := Option.map_eq_some_iff.mp h
  exact ⟨q, c, hq, hc, rfl⟩

theorem Posting.perform_of_outOfBand {s q : Posting σ} {a : Act} (ha : a.outOfBand = true)
    (h : s.perform a = some q) : q = s := by
  cases a with
  | write i | read i | clock now | skip => exact (Option.some.inj h).symm
  | _ => exact absurd ha Bool.noConfusion

theorem Posting.perform_poll {s q : Posting σ} {wcs : List Wc}
    (h : s.perform (.poll wcs) = some q) :
    wrIds wcs ≤ s.outstanding ∧ q = { s with outstanding := s.outstanding - wrIds wcs } := by
  obtain ⟨hle, h⟩ := Option.ite_none_right_eq_some.mp h
  exact ⟨hle, (Option.some.inj h).symm⟩

/-- A program that has failed takes no step. -/
theorem running_of_guard {failed : Bool} {next : Option σ} {t : σ}
    (h : (if failed then none else next) = some t) : failed = false :=
  Bool.eq_false_iff.mpr (Option.ite_none_left_eq_some.mp h).1

theorem card_wrIds (wcs : List Wc) : (wrIds wcs).card = wcs.length := by
  rw [wrIds, Multiset.coe_card, List.length_map]

section View

variable (v : View σ) {n w : ℕ} {c : σ} {o : Multiset ℕ} {posts : List ℕ}

theorem View.poster_eq (hrun : v.failed c = false) :
    v.poster ⟨c, o, posts⟩ = ⟨v.point c, v.posted c, v.completed c, o, posts⟩ :=
  congrArg (fun stage => Poster.mk stage (v.posted c) (v.completed c) o posts)
    (if_neg (Bool.eq_false_iff.mp hrun))

theorem View.stage_eq (hrun : v.failed c = false) {stage : Stage} (h : v.point c = stage) :
    (v.poster ⟨c, o, posts⟩).stage = stage :=
  (congrArg Poster.stage (v.poster_eq hrun)).trans h

/-- An act that neither posts nor polls, and stays at its stage. -/
theorem View.move_stay {d : σ} (hrun : v.failed c = false) (hd : v.failed d = false)
    (hpoint : v.point d = v.point c) (hposted : v.posted d = v.posted c)
    (hcompleted : v.completed d = v.completed c) :
    Move n w (v.poster ⟨c, o, posts⟩) (v.poster ⟨d, o, posts⟩) := by
  refine .of_eq ?_
  rw [v.poster_eq hrun, v.poster_eq hd, hpoint, hposted, hcompleted]

/-- The next of the first posts, or what comes after them. -/
theorem View.poster_fillFrom {next : Stage} {i : ℕ} {d e : σ}
    (hd : v.poster ⟨d, o, posts⟩ = { v.poster ⟨c, o, posts⟩ with stage := .fill i })
    (he : v.poster ⟨e, o, posts⟩ = { v.poster ⟨c, o, posts⟩ with stage := next, posted := w }) :
    v.poster ⟨if i < w then d else e, o, posts⟩ =
      Poster.fillFrom w next (v.poster ⟨c, o, posts⟩) i := by
  rw [Poster.fillFrom]
  split
  · exact hd
  · exact he

/-- The next of the refills, or the loop head. -/
theorem View.poster_refillFrom {left : ℕ} {d e : σ}
    (hd : v.poster ⟨d, o, posts⟩ = { v.poster ⟨c, o, posts⟩ with stage := .refill (left - 1) })
    (he : v.poster ⟨e, o, posts⟩ = { v.poster ⟨c, o, posts⟩ with stage := .head }) :
    v.poster ⟨if 0 < left ∧ v.posted c < n then d else e, o, posts⟩ =
      Poster.refillFrom n (v.poster ⟨c, o, posts⟩) left := by
  by_cases h : 0 < left ∧ v.posted c < n
  · rw [if_pos h, hd]
    exact (if_pos h).symm
  · rw [if_neg h, he]
    exact (if_neg h).symm

end View

/-- **Every run is one of a windowed loop**, when every step is a move of one. -/
theorem posting_sound {P : Program σ} {v : View σ} {n w : ℕ} (hw : w ≤ n)
    (hinit : v.poster ⟨P.init, 0, []⟩ = {})
    (hstep : ∀ s a t, Posting.act P.step s a = some t → Move n w (v.poster s) (v.poster t))
    {s : Posting σ} (h : (posting P).Reachable s) : Sound n w (v.poster s) := by
  refine h.invariant (I := fun s => Sound n w (v.poster s)) ?_
    fun s a t hs ht => hs.move hw (hstep s a t ht)
  change Sound n w (v.poster ⟨P.init, 0, []⟩)
  rw [hinit]
  exact ⟨⟨rfl, rfl, rfl, rfl⟩, Nat.zero_le w, rfl⟩

end Posting

/-! ## `bandwidth::send` -/

namespace Bandwidth

def SendPc.stage : SendPc → Stage
  | .warmup _ | .sleep | .settled _ | .waitReceives _ | .start => .before
  | .prefill i => .fill i
  | .head => .head
  | .refill left => .refill left
  | .sendsCompleted _ | .done => .left

def sendView : View SendCtl where
  failed := SendCtl.failed
  point c := c.pc.stage
  posted := SendCtl.posted
  completed := SendCtl.completed

theorem running_of_sendStep {p : Setup} {c t : SendCtl} {a : Act} (h : sendStep p c a = some t) :
    c.failed = false := by
  unfold sendStep at h
  exact running_of_guard h

theorem poster_prefill (p : Setup) {c : SendCtl} {o : Multiset ℕ} {posts : List ℕ}
    (hrun : c.failed = false) (i : ℕ) :
    sendView.poster ⟨c.prefill p i, o, posts⟩ =
      Poster.fillFrom p.sendWindow .head (sendView.poster ⟨c, o, posts⟩) i :=
  sendView.poster_fillFrom (sendView.poster_eq (c := { c with pc := .prefill i }) hrun)
    (sendView.poster_eq (c := { c with pc := .head, posted := p.sendWindow }) hrun)

theorem poster_refill (p : Setup) {c : SendCtl} {o : Multiset ℕ} {posts : List ℕ}
    (hrun : c.failed = false) (left : ℕ) :
    sendView.poster ⟨c.refill p left, o, posts⟩ =
      Poster.refillFrom p.iterations (sendView.poster ⟨c, o, posts⟩) left :=
  sendView.poster_refillFrom
    (sendView.poster_eq (c := { c with pc := .refill (left - 1) }) hrun)
    (sendView.poster_eq (c := { c with pc := .head }) hrun)

/-- **A step of `send` is a move of a windowed loop.** -/
theorem send_move {p : Setup} {s t : Posting SendCtl} {a : Act}
    (h : s.act (sendStep p) a = some t) :
    Move p.iterations p.sendWindow (sendView.poster s) (sendView.poster t) := by
  obtain ⟨q, c, hq, hc, rfl⟩ := Posting.act_eq_some h
  have hrun := running_of_sendStep hc
  have hpoint : ∀ {pc : SendPc}, s.ctl.pc = pc → sendView.point s.ctl = pc.stage :=
    fun h => congrArg SendPc.stage h
  cases SendMove.of_step hc with
  | warming hpc ha _ | warmed hpc ha _ | settling hpc ha _ | settled hpc ha _ | waiting hpc ha _
  | waited hpc ha _ | completing hpc ha _ | completed hpc ha _ =>
    rw [Posting.perform_of_outOfBand ha hq]
    exact sendView.move_stay hrun hrun (hpoint hpc).symm rfl rfl
  | sleep hpc =>
    rw [Posting.perform_of_outOfBand rfl hq]
    exact sendView.move_stay hrun hrun (hpoint hpc).symm rfl rfl
  | @start now hpc =>
    rw [Posting.perform_of_outOfBand rfl hq]
    exact (Move.start (sendView.stage_eq hrun (hpoint hpc)) (.inl rfl)).to
      (poster_prefill p (c := { s.ctl with t0 := now }) hrun 0)
  | @prefill i hpc =>
    rw [← Option.some.inj hq]
    exact (Move.fill (sendView.stage_eq hrun (hpoint hpc)) (.inl rfl)).to (poster_prefill p hrun _)
  | @poll wcs hpc hlt _ _ =>
    obtain ⟨hids, rfl⟩ := Posting.perform_poll hq
    have hmove : Move p.iterations p.sendWindow _ _ :=
      .pollCount (sendView.stage_eq hrun (hpoint hpc)) hlt hids
    rw [card_wrIds] at hmove
    exact hmove.to
      (poster_refill p (c := { s.ctl with completed := s.ctl.completed + wcs.length }) hrun _)
  | pollError hpc _ _ =>
    obtain ⟨hids, rfl⟩ := Posting.perform_poll hq
    exact .quit hids
  | @leave now hpc hge =>
    rw [Posting.perform_of_outOfBand rfl hq]
    have hmove : Move p.iterations p.sendWindow (sendView.poster s) _ :=
      .leave (.inl (sendView.stage_eq hrun (hpoint hpc))) hge
    exact hmove.to (sendView.poster_eq
      (c := { s.ctl with pc := .sendsCompleted (.enter p.tracing), t1 := now }) hrun)
  | @refill left hpc =>
    rw [← Option.some.inj hq]
    exact (Move.refill (sendView.stage_eq hrun (hpoint hpc))).to
      (poster_refill p (c := { s.ctl with posted := s.ctl.posted + 1 }) hrun _)

/-! ## `bandwidth::receive` -/

/-- The stage of each point of `receive`.  The loop has been left by its condition
if all has been counted. -/
def RecvCtl.point (iterations : ℕ) (c : RecvCtl) : Stage :=
  match c.pc with
  | .warmup _ | .sleep | .settled _ => .before
  | .prefill i => .fill i
  | .receivesPosted _ | .start | .idle => .between 0
  | .head => .head
  | .progress n => .between n
  | .refill left => .refill left
  | .drained _ | .done => if c.completed < iterations then .over else .left

def recvView (iterations : ℕ) : View RecvCtl where
  failed := RecvCtl.failed
  point := RecvCtl.point iterations
  posted := RecvCtl.posted
  completed := RecvCtl.completed

theorem running_of_recvStep {p : Setup} {c t : RecvCtl} {a : Act} (h : recvStep p c a = some t) :
    c.failed = false := by
  unfold recvStep at h
  exact running_of_guard h

theorem poster_recvPrefill (p : Setup) {c : RecvCtl} {o : Multiset ℕ} {posts : List ℕ}
    (hrun : c.failed = false) (i : ℕ) :
    (recvView p.iterations).poster ⟨c.prefill p i, o, posts⟩ =
      Poster.fillFrom p.recvWindow (.between 0)
        ((recvView p.iterations).poster ⟨c, o, posts⟩) i :=
  (recvView p.iterations).poster_fillFrom
    ((recvView p.iterations).poster_eq (c := { c with pc := .prefill i }) hrun)
    ((recvView p.iterations).poster_eq
      (c := { c with pc := .receivesPosted (.enter p.tracing), posted := p.recvWindow }) hrun)

theorem poster_recvRefill (p : Setup) {c : RecvCtl} {o : Multiset ℕ} {posts : List ℕ}
    (hrun : c.failed = false) (left : ℕ) :
    (recvView p.iterations).poster ⟨c.refill p left, o, posts⟩ =
      Poster.refillFrom p.iterations ((recvView p.iterations).poster ⟨c, o, posts⟩) left :=
  (recvView p.iterations).poster_refillFrom
    ((recvView p.iterations).poster_eq (c := { c with pc := .refill (left - 1) }) hrun)
    ((recvView p.iterations).poster_eq (c := { c with pc := .head }) hrun)

/-- **A step of `receive` is a move of a windowed loop.** -/
theorem recv_move {p : Setup} {s t : Posting RecvCtl} {a : Act}
    (h : s.act (recvStep p) a = some t) :
    Move p.iterations p.recvWindow ((recvView p.iterations).poster s)
      ((recvView p.iterations).poster t) := by
  obtain ⟨q, c, hq, hc, rfl⟩ := Posting.act_eq_some h
  have hrun := running_of_recvStep hc
  have hpoint : ∀ {stage : Stage}, s.ctl.point p.iterations = stage →
      ((recvView p.iterations).poster s).stage = stage :=
    fun h => (recvView p.iterations).stage_eq hrun h
  have hleave : ((recvView p.iterations).poster s).stage = .head ∨
      ((recvView p.iterations).poster s).stage = .between 0 → Move p.iterations p.recvWindow
        ((recvView p.iterations).poster s)
        ((recvView p.iterations).poster { s with ctl := s.ctl.leave p }) := by
    intro hstage
    have hpost : (recvView p.iterations).poster { s with ctl := s.ctl.leave p } =
        ⟨if s.ctl.completed < p.iterations then .over else .left, s.ctl.posted, s.ctl.completed,
          s.outstanding, s.posts⟩ := (recvView p.iterations).poster_eq (c := s.ctl.leave p) hrun
    rw [hpost]
    split
    · have hmove : Move p.iterations p.recvWindow ((recvView p.iterations).poster s) _ :=
        .quit (Multiset.zero_le _)
      exact hmove.to (by rw [Poster.report, Multiset.sub_zero]; rfl)
    · next hge => exact .leave hstage (Nat.not_lt.mp hge)
  cases RecvMove.of_step hc with
  | warming hpc ha _ | warmed hpc ha _ | settling hpc ha _ | posting hpc ha _ | posted hpc ha _
  | draining hpc ha _ | drained hpc ha _ =>
    rw [Posting.perform_of_outOfBand ha hq]
    refine (recvView p.iterations).move_stay hrun hrun ?_ rfl rfl
    simp only [recvView, RecvCtl.point, hpc]
  | sleep hpc =>
    rw [Posting.perform_of_outOfBand rfl hq]
    refine (recvView p.iterations).move_stay hrun hrun ?_ rfl rfl
    simp only [recvView, RecvCtl.point, hpc]
  | settled hpc ha _ =>
    rw [Posting.perform_of_outOfBand ha hq]
    exact (Move.start (hpoint (by rw [RecvCtl.point, hpc])) (.inr rfl)).to
      (poster_recvPrefill p hrun 0)
  | @prefill i hpc =>
    rw [← Option.some.inj hq]
    exact (Move.fill (hpoint (by rw [RecvCtl.point, hpc])) (.inr rfl)).to
      (poster_recvPrefill p hrun _)
  | @start now hpc =>
    rw [Posting.perform_of_outOfBand rfl hq]
    have hmove : Move p.iterations p.recvWindow _ _ := .count (hpoint (by rw [RecvCtl.point, hpc]))
    exact hmove.to ((recvView p.iterations).poster_eq
      (c := { s.ctl with pc := .head, lastProgress := now }) hrun)
  | pollEmpty hpc hlt =>
    obtain ⟨hids, rfl⟩ := Posting.perform_poll hq
    have hmove : Move p.iterations p.recvWindow _ _ :=
      .poll (hpoint (by rw [RecvCtl.point, hpc])) hlt hids
    exact hmove.to ((recvView p.iterations).poster_eq (c := { s.ctl with pc := .idle }) hrun)
  | @poll wcs hpc hlt _ _ _ =>
    obtain ⟨hids, rfl⟩ := Posting.perform_poll hq
    have hmove : Move p.iterations p.recvWindow _ _ :=
      .poll (hpoint (by rw [RecvCtl.point, hpc])) hlt hids
    rw [card_wrIds] at hmove
    exact hmove.to ((recvView p.iterations).poster_eq
      (c := { s.ctl with pc := .progress wcs.length }) hrun)
  | pollError hpc _ _ =>
    obtain ⟨hids, rfl⟩ := Posting.perform_poll hq
    exact .quit hids
  | leave hpc _ =>
    rw [Posting.perform_of_outOfBand rfl hq]
    exact hleave (.inl (hpoint (by rw [RecvCtl.point, hpc])))
  | timedOut hpc _ =>
    rw [Posting.perform_of_outOfBand rfl hq]
    exact hleave (.inr (hpoint (by rw [RecvCtl.point, hpc])))
  | retry hpc =>
    rw [Posting.perform_of_outOfBand rfl hq]
    have hmove : Move p.iterations p.recvWindow _ _ := .count (hpoint (by rw [RecvCtl.point, hpc]))
    exact hmove.to ((recvView p.iterations).poster_eq (c := { s.ctl with pc := .head }) hrun)
  | @progress n now hpc =>
    rw [Posting.perform_of_outOfBand rfl hq]
    have hmove : Move p.iterations p.recvWindow _ _ := .count (hpoint (by rw [RecvCtl.point, hpc]))
    exact hmove.to (poster_recvRefill p
      (c := { s.ctl with lastProgress := now, completed := s.ctl.completed + n }) hrun _)
  | @refill left hpc =>
    rw [← Option.some.inj hq]
    exact (Move.refill (hpoint (by rw [RecvCtl.point, hpc]))).to
      (poster_recvRefill p (c := { s.ctl with posted := s.ctl.posted + 1 }) hrun _)

end Bandwidth

/-! ## `accuracy::send` -/

namespace Accuracy

def SendPc.stage : SendPc → Stage
  | .waitReceives _ => .before
  | .prefillFill seq | .prefillPost seq => .fill seq
  | .head => .head
  | .refillFill left | .refillPost left => .refill left
  | .sendsCompleted _ | .recvReport | .done => .left

def sendView : View SendCtl where
  failed := SendCtl.failed
  point c := c.pc.stage
  posted := SendCtl.posted
  completed := SendCtl.completed

theorem running_of_sendStep {p : Setup} {c t : SendCtl} {a : Act} (h : sendStep p c a = some t) :
    c.failed = false := by
  unfold sendStep at h
  exact running_of_guard h

theorem poster_prefill (p : Setup) {c : SendCtl} {o : Multiset ℕ} {posts : List ℕ}
    (hrun : c.failed = false) (seq : ℕ) :
    sendView.poster ⟨c.prefill p seq, o, posts⟩ =
      Poster.fillFrom p.window .head (sendView.poster ⟨c, o, posts⟩) seq :=
  sendView.poster_fillFrom (sendView.poster_eq (c := { c with pc := .prefillFill seq }) hrun)
    (sendView.poster_eq (c := { c with pc := .head, posted := p.window }) hrun)

theorem poster_refill (p : Setup) {c : SendCtl} {o : Multiset ℕ} {posts : List ℕ}
    (hrun : c.failed = false) (left : ℕ) :
    sendView.poster ⟨c.refill p left, o, posts⟩ =
      Poster.refillFrom p.iterations (sendView.poster ⟨c, o, posts⟩) left :=
  sendView.poster_refillFrom
    (sendView.poster_eq (c := { c with pc := .refillFill (left - 1) }) hrun)
    (sendView.poster_eq (c := { c with pc := .head }) hrun)

/-- **A step of `send` is a move of a windowed loop.** -/
theorem send_move {p : Setup} {s t : Posting SendCtl} {a : Act}
    (h : s.act (sendStep p) a = some t) :
    Move p.iterations p.window (sendView.poster s) (sendView.poster t) := by
  obtain ⟨q, c, hq, hc, rfl⟩ := Posting.act_eq_some h
  have hrun := running_of_sendStep hc
  have hpoint : ∀ {pc : SendPc}, s.ctl.pc = pc → sendView.point s.ctl = pc.stage :=
    fun h => congrArg SendPc.stage h
  cases SendMove.of_step hc with
  | waiting hpc ha _ | completing hpc ha _ | completed hpc ha _ =>
    rw [Posting.perform_of_outOfBand ha hq]
    exact sendView.move_stay hrun hrun (hpoint hpc).symm rfl rfl
  | recvReport hpc =>
    rw [Posting.perform_of_outOfBand rfl hq]
    exact sendView.move_stay hrun hrun (hpoint hpc).symm rfl rfl
  | prefillFill hpc | refillFill hpc =>
    rw [← Option.some.inj hq]
    exact sendView.move_stay hrun hrun (hpoint hpc).symm rfl rfl
  | waited hpc ha _ =>
    rw [Posting.perform_of_outOfBand ha hq]
    exact (Move.start (sendView.stage_eq hrun (hpoint hpc)) (.inl rfl)).to
      (poster_prefill p hrun 0)
  | @prefillPost seq hpc =>
    rw [← Option.some.inj hq]
    exact (Move.fill (sendView.stage_eq hrun (hpoint hpc)) (.inl rfl)).to (poster_prefill p hrun _)
  | @poll wcs hpc hlt _ _ =>
    obtain ⟨hids, rfl⟩ := Posting.perform_poll hq
    have hmove : Move p.iterations p.window _ _ :=
      .pollCount (sendView.stage_eq hrun (hpoint hpc)) hlt hids
    rw [card_wrIds] at hmove
    exact hmove.to
      (poster_refill p (c := { s.ctl with completed := s.ctl.completed + wcs.length }) hrun _)
  | pollError hpc _ _ =>
    obtain ⟨hids, rfl⟩ := Posting.perform_poll hq
    exact .quit hids
  | leave hpc hge =>
    rw [Posting.perform_of_outOfBand rfl hq]
    have hmove : Move p.iterations p.window (sendView.poster s) _ :=
      .leave (.inl (sendView.stage_eq hrun (hpoint hpc))) hge
    exact hmove.to (sendView.poster_eq
      (c := { s.ctl with pc := .sendsCompleted (.enter p.tracing) }) hrun)
  | @refillPost left hpc =>
    rw [← Option.some.inj hq]
    exact (Move.refill (sendView.stage_eq hrun (hpoint hpc))).to
      (poster_refill p (c := { s.ctl with posted := s.ctl.posted + 1 }) hrun _)

end Accuracy

/-! ## The result -/

/-- **The three loops keep to their windows**, in every state of every run, whatever
the polls return of what is outstanding. -/
theorem windows_kept (tracing : Bool) (msgSize : ℕ) {iterations txDepth rxDepth : ℕ}
    (hiterations : 1 ≤ iterations) (htx : 1 ≤ txDepth) (hrx : 1 ≤ rxDepth) :
    (∀ s, (posting (Bandwidth.sendProgram ⟨tracing, iterations, txDepth, rxDepth⟩)).Reachable s →
      Kept iterations txDepth (Bandwidth.sendView.poster s)) ∧
    (∀ s, (posting (Bandwidth.recvProgram ⟨tracing, iterations, txDepth, rxDepth⟩)).Reachable s →
      Kept iterations rxDepth ((Bandwidth.recvView iterations).poster s)) ∧
    ∀ s, (posting (Accuracy.sendProgram ⟨tracing, msgSize, iterations,
      Accuracy.window .client txDepth rxDepth iterations⟩)).Reachable s →
      Kept iterations txDepth (Accuracy.sendView.poster s) := by
  refine ⟨fun s h => ?_, fun s h => ?_, fun s h => ?_⟩
  · exact (posting_sound (Nat.min_le_right ..) rfl (fun _ _ _ => Bandwidth.send_move) h).kept
      hiterations htx
  · exact (posting_sound (v := Bandwidth.recvView iterations) (Nat.min_le_right ..) rfl
      (fun _ _ _ => Bandwidth.recv_move) h).kept hiterations hrx
  · have hwindow : Accuracy.window .client txDepth rxDepth iterations = min txDepth iterations := by
      rw [Accuracy.window, Nat.max_eq_left htx]
    rw [hwindow] at h
    exact (posting_sound (Nat.min_le_right ..) rfl (fun _ _ _ => Accuracy.send_move) h).kept
      hiterations htx

/-- Three sends over a queue of two, the second of them reported first. -/
theorem windows_kept_three :
    ∃ s, (posting (Bandwidth.sendProgram ⟨false, 3, 2, 2⟩)).Reachable s ∧ s.posts = [0, 1, 2] ∧
      Kept 3 2 (Bandwidth.sendView.poster s) := by
  obtain ⟨s, hs, hposts⟩ := System.Reachable.exists_of_run
    (S := posting (Bandwidth.sendProgram ⟨false, 3, 2, 2⟩))
    (p := fun s => decide (s.posts = [0, 1, 2]))
    [.write .barrier, .read .barrier, .skip, .write .barrier, .read .barrier, .write .barrier,
      .read .barrier, .clock 0, .postSend 0 0, .postSend 0 1, .poll [⟨1, 0, true⟩],
      .postSend 0 2, .poll [⟨2, 0, true⟩, ⟨0, 0, true⟩], .clock 5]
    (by decide)
  have hkept := (windows_kept false 0 (by decide) (by decide) (by decide)).1 s hs
  exact ⟨s, hs, of_decide_eq_true hposts, hkept⟩

end RdmaBench
