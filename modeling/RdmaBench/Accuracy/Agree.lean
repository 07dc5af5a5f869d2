import RdmaBench.Accuracy.Orders
import RdmaBench.Accuracy.Receiver

/-!
# The report does not depend on how the messages come

`order_of_arrival` is about `check`, folded over a list.  The receiver that a device
drives has more to vary: how deep its window is, which slot a message lands in, which
receive the device completes next, how many completions a poll returns, and when.
`reports_agree` is that none of it shows.  Two receivers of the same run that have been
given the same messages report the same.

That the program is `receive` of its polls is `receiver_report`.  What is left to see is
that `receive` takes every batch there was (`Taken`): the program polls only as long as
messages are missing.
-/

namespace RdmaBench
namespace Accuracy

open Automaton

theorem polled_snoc {α : Type*} {n : ℕ} {polls : List (List α)} (batch : List α)
    (h : polled n polls = polls) (hlt : polls.flatten.length < n) :
    polled n (polls ++ [batch]) = polls ++ [batch] := by
  induction polls generalizing n with
  | nil =>
    obtain ⟨k, rfl⟩ : ∃ k, n = k + 1 := ⟨n - 1, by omega⟩
    rw [List.nil_append, polled]
    cases k + 1 - batch.length <;> rfl
  | cons first polls ih =>
    obtain ⟨k, rfl⟩ : ∃ k, n = k + 1 := ⟨n - 1, by omega⟩
    rw [polled] at h
    rw [List.flatten_cons, List.length_append] at hlt
    rw [List.cons_append, polled, ih (List.cons.inj h).2 (by omega)]

variable {p q : Setup} {s t : ReceiverNode}

/-- Every batch polled is one the loop takes, and fits the slots. -/
structure ReceiverNode.Taken (p : Setup) (s : ReceiverNode) : Prop where
  polled : polled p.iterations s.polls = s.polls
  fits : ∀ x ∈ s.polls.flatten, x.length ≤ p.msgSize

/-- While the program polls, messages are missing. -/
theorem ReceiverNode.Taken.length_lt (h : s.Taken p) (hs : s.Sound p)
    (hopen : s.ctl.failed = false) (hstage : s.ctl.stage = .checking) (hbatch : s.ctl.batch = [])
    (hlt : s.ctl.checker.report.received < p.iterations) :
    s.polls.flatten.length < p.iterations := by
  have hheld : s.held = [] := by
    have hb := hs.batch hopen
    rw [hbatch] at hb
    exact List.map_eq_nil_iff.mp hb.symm
  have hfold := hs.folded hopen
  rw [ReceiverNode.Folded, hstage, hheld] at hfold
  have hreceived : s.ctl.checker.report.received = s.polls.flatten.length := by
    have hloop : s.ctl.checker = receiveLoop p.msgSize p.iterations s.polls
      (Checker.fresh p.msgSize p.iterations) := hfold
    rw [hloop, received_receiveLoop, h.polled]
  omega

/-- Only a poll adds to what has been polled. -/
theorem polls_of_step {l : ReceiverLabel} (h : receiverStep p s l = some t) :
    t.polls = s.polls ∨ ∃ wcs, l = .act (.poll wcs) ∧
      t.polls = s.polls ++ [(s.cq.take wcs.length).map Arrived.bytes] := by
  cases l with
  | act a =>
    obtain ⟨c, u, hc, hu, rfl⟩ := receiverStep_act h
    cases a with
    | postReceive slot wrId | inspect slot got =>
      obtain ⟨-, hu⟩ := Option.ite_none_right_eq_some.mp hu
      rw [← Option.some.inj hu]
      exact .inl rfl
    | poll wcs =>
      obtain ⟨-, hu⟩ := Option.ite_none_right_eq_some.mp hu
      rw [← Option.some.inj hu]
      exact .inr ⟨wcs, rfl, rfl⟩
    | write _ | read _ | postSend _ _ | fill _ _ | clock _ | skip =>
      rw [← Option.some.inj hu]
      exact .inl rfl
  | dma i off bytes | complete i bytes ok =>
    rw [receiverStep] at h
    split at h
    · obtain ⟨-, h⟩ := Option.ite_none_right_eq_some.mp h
      rw [← Option.some.inj h]
      exact .inl rfl
    · exact absurd h (by simp)

theorem ReceiverNode.Taken.step (h : s.Taken p) (hs : s.Sound p) {l : ReceiverLabel}
    (hstep : receiverStep p s l = some t) : t.Taken p := by
  rcases polls_of_step hstep with hpolls | ⟨wcs, rfl, hpolls⟩
  · exact ⟨hpolls ▸ h.polled, hpolls ▸ h.fits⟩
  · obtain ⟨c, u, hc, -, rfl⟩ := receiverStep_act hstep
    have hopen := failed_eq_false_of_recvStep hc
    obtain ⟨hbatch, -, hstage, hlt, -⟩ := (RecvMove.of_step hc).advance hs.filling
    refine ⟨?_, fun x hx => ?_⟩
    · rw [hpolls]
      exact polled_snoc _ h.polled (h.length_lt hs hopen hstage hbatch hlt)
    · rw [hpolls, List.flatten_append, List.mem_append] at hx
      rcases hx with hx | hx
      · exact h.fits x hx
      · rw [List.flatten_singleton] at hx
        obtain ⟨e, he, rfl⟩ := List.mem_map.mp hx
        exact (hs.arrived e (List.mem_of_mem_take he)).2.2.1

theorem receiver_taken_init (p : Setup) : (receiverInit p).Taken p where
  polled := by
    show polled p.iterations [] = []
    cases p.iterations <;> rfl
  fits _ hx := absurd hx List.not_mem_nil

theorem receiver_taken (hsize : p.msgSize < usizeSize) (h : (receiver p).Reachable s) :
    s.Taken p := by
  have hboth : s.Sound p ∧ s.Taken p :=
    h.invariant (I := fun s => s.Sound p ∧ s.Taken p)
      ⟨receiver_sound_init p, receiver_taken_init p⟩
      fun _ _ _ hs hstep => ⟨hs.1.step hsize hstep, hs.2.step hs.1 hstep⟩
  exact hboth.2

/-- **The report is the one of the messages that were checked**, in one go and in the
order in which they were. -/
theorem report_of_checked (hsize : p.msgSize < usizeSize) (h : (receiver p).Reachable s)
    (hleft : s.ctl.stage = .left) (hopen : s.ctl.failed = false) :
    s.ctl.checker.report =
      { (checkAll p.msgSize (Checker.fresh p.msgSize p.iterations) s.checked).report with
        received := s.checked.length
        lost := (checkAll p.msgSize (Checker.fresh p.msgSize p.iterations)
          s.checked).seen.countP fun b => !b } := by
  obtain ⟨hreport, hchecked⟩ := receiver_report hsize h hleft hopen
  have htaken := receiver_taken hsize h
  have hfits : s.polls.flatten.map (List.take p.msgSize) = s.polls.flatten := by
    have hid : s.polls.flatten.map (List.take p.msgSize) = s.polls.flatten.map id :=
      List.map_congr_left fun x hx => List.take_of_length_le (htaken.fits x hx)
    rw [hid, List.map_id]
  rw [hreport, receive_eq, htaken.polled, hfits, hchecked]

/-- **Two receivers that were given the same messages.**  Whatever their windows, their
slots, their devices and the polls of either: they agree on what was received, lost,
duplicated and not to be identified, and on the whole report if no two of the messages
disagree under one number of the run. -/
theorem reports_agree (hm : headerLen ≤ p.msgSize) (hsize : p.msgSize < usizeSize)
    (hmsg : q.msgSize = p.msgSize) (hiter : q.iterations = p.iterations)
    (hs : (receiver p).Reachable s) (ht : (receiver q).Reachable t)
    (hsleft : s.ctl.stage = .left) (htleft : t.ctl.stage = .left)
    (hsopen : s.ctl.failed = false) (htopen : t.ctl.failed = false)
    (hperm : s.checked.Perm t.checked) :
    (s.ctl.checker.report.received = t.ctl.checker.report.received ∧
      s.ctl.checker.report.lost = t.ctl.checker.report.lost ∧
      s.ctl.checker.report.duplicated = t.ctl.checker.report.duplicated ∧
      s.ctl.checker.report.unidentifiable = t.ctl.checker.report.unidentifiable) ∧
    ((∀ x ∈ s.checked, ∀ y ∈ s.checked, ∀ k < p.iterations,
        headerSeq x = some k → headerSeq y = some k → x = y) →
      s.ctl.checker.report = t.ctl.checker.report) := by
  have hsreport := report_of_checked hsize hs hsleft hsopen
  have htreport := report_of_checked (hmsg ▸ hsize) ht htleft htopen
  rw [hmsg, hiter] at htreport
  rw [hsreport, htreport]
  have harr := sameArrivals_checkAll (m := p.msgSize) (c := Checker.fresh p.msgSize p.iterations)
    hperm
  refine ⟨⟨hperm.length_eq, congrArg (List.countP _) harr.seen, harr.duplicated,
    harr.unidentifiable⟩, fun hsame => ?_⟩
  have hrep := sameReport_checkAll hm (sameReport_fresh p.msgSize p.iterations) hperm hsame
  rw [hrep.report, hrep.seen, hperm.length_eq]

/-- The acts of a receiver with slots for two messages, to which `first` and then `second`
come, in one poll. -/
def twoAtOnce (first second : List UInt8) : List ReceiverLabel :=
  [.act (.postReceive 0 0), .act (.postReceive 1 1), .act (.write .barrier), .act (.read .barrier),
    .act (.clock 0), .complete 0 first true, .complete 0 second true,
    .act (.poll [⟨0, first.length, true⟩, ⟨1, second.length, true⟩]), .act (.clock 1),
    .act (.inspect 0 first), .act (.postReceive 0 0), .act (.inspect 1 second),
    .act (.postReceive 1 1), .act .skip]

/-- The acts of one with a slot for one, to which they come one by one. -/
def oneByOne (first second : List UInt8) : List ReceiverLabel :=
  [.act (.postReceive 0 0), .act (.write .barrier), .act (.read .barrier), .act (.clock 0),
    .complete 0 first true, .act (.poll [⟨0, first.length, true⟩]), .act (.clock 1),
    .act (.inspect 0 first), .act (.postReceive 0 0), .complete 0 second true,
    .act (.poll [⟨0, second.length, true⟩]), .act (.clock 2), .act (.inspect 0 second),
    .act (.postReceive 0 0), .act .skip]

/-- A whole message and a stray byte, in one order and in the other. -/
theorem reports_agree_stray :
    ∃ s t, (receiver ⟨false, 8, 2, 2⟩).Reachable s ∧ (receiver ⟨false, 8, 2, 1⟩).Reachable t ∧
      s.checked = t.checked.reverse ∧ s.checked.length = 2 ∧
      s.ctl.checker.report = t.ctl.checker.report := by
  obtain ⟨s, hs, hsend⟩ := System.Reachable.exists_of_run (S := receiver ⟨false, 8, 2, 2⟩)
    (p := fun s => decide (s.ctl.stage = .left ∧ s.ctl.failed = false ∧
      s.checked = [payload 8 0, [7]]))
    (twoAtOnce (payload 8 0) [7]) (by decide +kernel)
  obtain ⟨t, ht, htend⟩ := System.Reachable.exists_of_run (S := receiver ⟨false, 8, 2, 1⟩)
    (p := fun t => decide (t.ctl.stage = .left ∧ t.ctl.failed = false ∧
      t.checked = [[7], payload 8 0]))
    (oneByOne [7] (payload 8 0)) (by decide +kernel)
  obtain ⟨hsleft, hsopen, hschecked⟩ := of_decide_eq_true hsend
  obtain ⟨htleft, htopen, htchecked⟩ := of_decide_eq_true htend
  have hperm : s.checked.Perm t.checked := by
    rw [hschecked, htchecked]
    exact .swap _ _ _
  refine ⟨s, t, hs, ht, ?_, ?_, ?_⟩
  · rw [hschecked, htchecked]
    rfl
  · rw [hschecked]
    rfl
  · refine (reports_agree (p := ⟨false, 8, 2, 2⟩) (q := ⟨false, 8, 2, 1⟩) (by decide) (by decide)
      rfl rfl hs ht hsleft htleft hsopen htopen hperm).2 ?_
    rw [hschecked]
    decide +kernel

end Accuracy
end RdmaBench
