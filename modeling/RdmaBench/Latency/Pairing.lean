import RdmaBench.Latency.Depths
import RdmaBench.Latency.Numbered

/-!
# Which completions a sample is made of

A late echo could end the wait of a later round trip, and the sample would be too
short.  It cannot happen.  A lost message leaves `ping` waiting until it leaves its
loop, so `ping` sends again only after the echo of its last ping has been polled;
and there is at most one echo to a ping.  When it sends again nothing is under way
in either direction (`quiet_of_counts`), so every message under way belongs to the
ping sent last (`Current`), and so does every completion that `ping` polls.

`Rounds` is what that makes of the history: the readings of the clock that are
sample `i` enclose the post of ping `i` and exactly one completion of its send and
one of its echo.
-/

namespace RdmaBench
namespace Latency

open Automaton

/-! ## Between two round trips -/

/-- Nothing is under way in either direction. -/
structure Quiet (s : Lossy) : Prop where
  unsent : s.client.unsent = []
  sent : s.client.sent = []
  free : s.client.free = 1
  landed : s.client.landed = []
  cq : s.client.cq = []
  pings : s.pings = []
  arrived : s.server.landed = []
  waking : recvsIn s.server.side.cq = 0
  answered : s.server.sends = s.server.recvsPolled
  answers : s.server.unsent = []
  echoes : s.echoes = []

theorem cq_eq_nil {cq : List Wc} (hids : ∀ c ∈ cq, c.wrId = wrSend ∨ c.wrId = wrRecv)
    (hsends : sendsIn cq = 0) (hrecvs : recvsIn cq = 0) : cq = [] := by
  refine List.eq_nil_iff_forall_not_mem.mpr fun c hc => ?_
  rcases hids c hc with h | h
  · exact List.countP_eq_zero.mp hsends c hc (decide_eq_true h)
  · exact List.countP_eq_zero.mp hrecvs c hc (decide_eq_true h)

/-- **Nothing is under way once `ping` has polled what it sent for.** -/
theorem quiet_of_counts {p : Pairing} {s : Lossy} (hping : PingSound p.client s.client.side)
    (hpong : PongSound p.server s.server.side) (hflow : LossyFlow s) {i : ℕ}
    (h : Counts s.client.side i i (i + 1) i) : Quiet s := by
  obtain ⟨hsends, hsendsPolled, hrecvs, hrecvsPolled⟩ := h
  have hcs := hping.balanced.sends
  have hcr := hping.balanced.recvs
  have hsr := hpong.balanced.recvs
  have hle := hpong.sends_le
  obtain ⟨hpings, hechoes⟩ := hflow
  simp only [Numbered.side] at hsends hsendsPolled hrecvs hrecvsPolled hcs hcr hsr hle
  have hcq : s.client.cq.map Prod.fst = [] :=
    cq_eq_nil hping.balanced.ids (by omega) (by omega)
  exact
    { unsent := List.length_eq_zero_iff.mp (by omega)
      sent := List.length_eq_zero_iff.mp (by omega)
      free := by omega
      landed := List.length_eq_zero_iff.mp (by omega)
      cq := List.map_eq_nil_iff.mp hcq
      pings := List.length_eq_zero_iff.mp (by omega)
      arrived := List.length_eq_zero_iff.mp (by omega)
      waking := by simp only [Numbered.side]; omega
      answered := by omega
      answers := List.length_eq_zero_iff.mp (by omega)
      echoes := List.length_eq_zero_iff.mp (by omega) }

/-! ## Every message under way is of the last ping -/

/-- Every message under way has the number of the ping sent last.  The server's
own sends are left out: once transmitted, nothing waits for them. -/
structure Current (s : Lossy) : Prop where
  unsent : ∀ n ∈ s.client.unsent, n + 1 = s.client.sends
  sent : ∀ n ∈ s.client.sent, n + 1 = s.client.sends
  pings : ∀ n ∈ s.pings, n + 1 = s.client.sends
  arrived : ∀ n ∈ s.server.landed, n + 1 = s.client.sends
  waking : ∀ e ∈ s.server.cq, e.1.wrId = wrRecv → e.2 + 1 = s.client.sends
  heard : s.server.sends < s.server.recvsPolled → s.heard + 1 = s.client.sends
  answers : ∀ n ∈ s.server.unsent, n + 1 = s.client.sends
  echoes : ∀ n ∈ s.echoes, n + 1 = s.client.sends
  landed : ∀ n ∈ s.client.landed, n + 1 = s.client.sends
  cq : ∀ e ∈ s.client.cq, e.2 + 1 = s.client.sends

/-- Where nothing is under way, the next ping is the only message. -/
theorem Quiet.current {s : Lossy} (h : Quiet s) {slot id : ℕ} {q : Numbered PingCtl} {c : PingCtl}
    {w : Wire} {hs : List Happening}
    (hq : s.client.perform s.client.sends (.postSend slot id) = some q) :
    Current { s with client := { q with ctl := c }, wire := w, history := hs } := by
  rw [← Option.some.inj hq]
  constructor
  case unsent =>
    simp only [h.unsent, List.nil_append, List.mem_singleton]
    rintro n rfl
    rfl
  case waking =>
    intro e he hid
    have hmem : e.1 ∈ s.server.side.cq := List.mem_map_of_mem he
    exact absurd (decide_eq_true hid) (List.countP_eq_zero.mp h.waking e.1 hmem)
  case heard => exact fun hlt => absurd hlt (by simp only [h.answered]; omega)
  all_goals
    simp only [h.sent, h.pings, h.arrived, h.answers, h.echoes, h.landed, h.cq]
    exact fun _ hmem => absurd hmem List.not_mem_nil

section Frame

variable {σ : Type} {s q : Numbered σ} {n : ℕ}

/-- What an act that posts no send leaves alone. -/
theorem Numbered.perform_frame {a : Act} (h : s.perform n a = some q)
    (ha : ∀ slot id, a ≠ .postSend slot id) :
    q.unsent = s.unsent ∧ q.sent = s.sent ∧ q.landed = s.landed ∧ q.sends = s.sends ∧
      q.cq ⊆ s.cq := by
  cases a with
  | postSend slot id => exact absurd rfl (ha slot id)
  | postReceive slot id =>
    rw [← Option.some.inj h]
    exact ⟨rfl, rfl, rfl, rfl, List.Subset.refl _⟩
  | poll wcs =>
    obtain ⟨-, h⟩ := Option.ite_none_right_eq_some.mp h
    rw [← Option.some.inj h]
    exact ⟨rfl, rfl, rfl, rfl, List.drop_subset _ _⟩
  | clock now =>
    obtain ⟨-, h⟩ := Option.ite_none_right_eq_some.mp h
    rw [← Option.some.inj h]
    exact ⟨rfl, rfl, rfl, rfl, List.Subset.refl _⟩
  | _ =>
    rw [← Option.some.inj h]
    exact ⟨rfl, rfl, rfl, rfl, List.Subset.refl _⟩

/-- What has been polled grows by what an act takes. -/
theorem Numbered.perform_polled {a : Act} (h : s.perform n a = some q) :
    q.sendsPolled = s.sendsPolled + sendsIn ((s.taken a).map Prod.fst) ∧
      q.recvsPolled = s.recvsPolled + recvsIn ((s.taken a).map Prod.fst) := by
  cases a with
  | poll wcs =>
    rw [Numbered.map_taken h]
    obtain ⟨-, h⟩ := Option.ite_none_right_eq_some.mp h
    rw [← Option.some.inj h]
    exact ⟨rfl, rfl⟩
  | clock now =>
    obtain ⟨-, h⟩ := Option.ite_none_right_eq_some.mp h
    rw [← Option.some.inj h]
    exact ⟨rfl, rfl⟩
  | _ =>
    rw [← Option.some.inj h]
    exact ⟨rfl, rfl⟩

end Frame

/-- What holds of the receives polled, and of the ping polled before them if there
are none, holds of the ping polled last. -/
theorem hear_of {P : ℕ → Prop} {es : List (Wc × ℕ)} {heard : ℕ}
    (hes : ∀ e ∈ es, e.1.wrId = wrRecv → P e.2)
    (h : recvsIn (es.map Prod.fst) = 0 → P heard) : P (hear heard es) := by
  induction es generalizing heard with
  | nil => exact h rfl
  | cons e es ih =>
    have hrest := fun d hd => hes d (List.mem_cons_of_mem _ hd)
    rw [hear, List.foldl_cons]
    split
    · next he => exact ih hrest fun _ => hes e (List.mem_cons_self ..) he
    · next he =>
      refine ih hrest fun hz => h ?_
      rw [List.map_cons, recvsIn, List.countP_cons_of_neg (by simpa using he)]
      exact hz

/-- `ping` posts its sends at one point. -/
theorem PingMove.pc_of_postSend {p : Setup} {c t : PingCtl} {slot id : ℕ}
    (h : PingMove p c (.postSend slot id) t) : c.pc = .send := by
  cases h with
  | send hpc => exact hpc
  | waiting _ hw | waited _ hw => exact absurd rfl (hw.ne_postSend slot id)
  | warming _ ha | warmed _ ha | settling _ ha | settled _ ha | posting _ ha | posted _ ha
  | finishing _ ha | finished _ ha => exact absurd ha Bool.noConfusion

/-- **An act of the client keeps the messages current.** -/
theorem Current.client {p : Pairing} {s : Lossy} (h : Current s)
    (hping : PingSound p.client s.client.side) (hpong : PongSound p.server s.server.side)
    (hflow : LossyFlow s) {a : Act} {w : Wire} {t : Numbered PingCtl} {hs : List Happening}
    (hc : s.client.act (pingStep p.client) s.client.sends a = some t) :
    Current { s with client := t, wire := w, history := hs } := by
  obtain ⟨q, c, hq, hstep, rfl⟩ := Numbered.act_eq_some hc
  by_cases ha : ∃ slot id, a = .postSend slot id
  · obtain ⟨slot, id, rfl⟩ := ha
    have hpc := (PingMove.of_step hstep).2.pc_of_postSend
    have hat := hping.at_pc
    simp only [PingAt, Numbered.side, hpc] at hat
    exact (quiet_of_counts hping hpong hflow hat.2.2).current hq
  · have hne : ∀ slot id, a ≠ .postSend slot id := fun slot id heq => ha ⟨slot, id, heq⟩
    obtain ⟨hunsent, hsent, hlanded, hsends, hcq⟩ := Numbered.perform_frame hq hne
    constructor <;> simp only [hunsent, hsent, hlanded, hsends]
    case cq => exact fun e he => h.cq e (hcq he)
    exacts [h.unsent, h.sent, h.pings, h.arrived, h.waking, h.heard, h.answers, h.echoes, h.landed]

/-- **An act of the server keeps the messages current.** -/
theorem Current.server {p : Pairing} {s : Lossy} (h : Current s)
    (hpong : PongSound p.server s.server.side) {a : Act} {w : Wire} {t : Numbered PongCtl}
    (hc : s.server.act (pongStep p.server) s.heard a = some t) :
    Current { s with server := t, wire := w, heard := hear s.heard (s.server.taken a) } := by
  obtain ⟨q, c, hq, hstep, rfl⟩ := Numbered.act_eq_some hc
  by_cases ha : ∃ slot id, a = .postSend slot id
  · obtain ⟨slot, id, rfl⟩ := ha
    have hpc := (PongMove.of_step hstep).pc_of_postSend
    have hat := hpong.at_pc
    simp only [PongAt, Numbered.side, hpc] at hat
    obtain ⟨-, hsends, -, hpolled⟩ := hat
    have hheard : s.heard + 1 = s.client.sends := h.heard (by omega)
    rw [← Option.some.inj hq]
    refine { h with heard := fun _ => hheard, answers := fun n hn => ?_ }
    rcases List.mem_append.mp hn with hn | hn
    · exact h.answers n hn
    · rw [List.mem_singleton.mp hn]
      exact hheard
  · have hne : ∀ slot id, a ≠ .postSend slot id := fun slot id heq => ha ⟨slot, id, heq⟩
    obtain ⟨hunsent, hsent, hlanded, hsends, hcq⟩ := Numbered.perform_frame hq hne
    have hpolled := (Numbered.perform_polled hq).2
    constructor <;> simp only [hunsent, hlanded, hsends]
    case waking => exact fun e he => h.waking e (hcq he)
    case heard =>
      intro hlt
      refine hear_of (P := fun n => n + 1 = s.client.sends) (fun e he => ?_) fun hz => ?_
      · exact h.waking e (s.server.taken_subset a he)
      · rw [hz, Nat.add_zero] at hpolled
        exact h.heard (hpolled ▸ hlt)
    exacts [h.unsent, h.sent, h.pings, h.arrived, h.answers, h.echoes, h.landed, h.cq]

/-- What holds of a list and of one entry more. -/
theorem forall_mem_concat {α : Type} {P : α → Prop} {l : List α} {a : α} (hl : ∀ x ∈ l, P x)
    (ha : P a) : ∀ x ∈ l ++ [a], P x := by
  intro x hx
  rcases List.mem_append.mp hx with hx | hx
  · exact hl x hx
  · rw [List.mem_singleton.mp hx]
    exact ha

theorem forall_mem_erase {P : ℕ → Prop} {l : List ℕ} (hl : ∀ x ∈ l, P x) (n : ℕ) :
    ∀ x ∈ l.erase n, P x := fun x hx => hl x (List.mem_of_mem_erase hx)

/-- **Every step keeps the messages current.** -/
theorem Current.step {p : Pairing} {s t : Lossy} {l : LossyLabel} (h : Current s)
    (hping : PingSound p.client s.client.side) (hpong : PongSound p.server s.server.side)
    (hflow : LossyFlow s) (hm : LossyMove p s l t) : Current t := by
  cases hm with
  | client _ hc => exact h.client hping hpong hflow hc
  | server _ hc => exact h.server hpong hc
  | expirePing _ _ | expirePong _ => exact { h with }
  | transmitPing hn =>
    have hnum := h.unsent _ hn
    exact { h with
      unsent := forall_mem_erase h.unsent _
      sent := forall_mem_concat h.sent hnum
      pings := forall_mem_concat h.pings hnum }
  | transmitEcho hn =>
    exact { h with
      answers := forall_mem_erase h.answers _
      echoes := forall_mem_concat h.echoes (h.answers _ hn) }
  | landPing hn _ =>
    exact { h with
      pings := forall_mem_erase h.pings _
      arrived := forall_mem_concat h.arrived (h.pings _ hn) }
  | landEcho hn _ =>
    exact { h with
      echoes := forall_mem_erase h.echoes _
      landed := forall_mem_concat h.landed (h.echoes _ hn) }
  | dropPing hn => exact { h with pings := forall_mem_erase h.pings _ }
  | dropEcho hn => exact { h with echoes := forall_mem_erase h.echoes _ }
  | completeClient ht =>
    rcases Numbered.complete_cases ht with ⟨-, hmem, rfl⟩ | ⟨-, hmem, rfl⟩
    · exact { h with
        sent := forall_mem_erase h.sent _
        cq := forall_mem_concat h.cq (h.sent _ hmem) }
    · exact { h with
        landed := forall_mem_erase h.landed _
        cq := forall_mem_concat h.cq (h.landed _ hmem) }
  | completeServer ht =>
    rcases Numbered.complete_cases ht with ⟨hid, hmem, rfl⟩ | ⟨-, hmem, rfl⟩
    · refine { h with waking := forall_mem_concat h.waking fun hrecv => ?_ }
      exact absurd (hid.symm.trans hrecv) (by decide)
    · exact { h with
        arrived := forall_mem_erase h.arrived _
        waking := forall_mem_concat h.waking fun _ => h.arrived _ hmem }

/-- **Every message under way is of the ping sent last**, in every state of every
run. -/
theorem lossy_current (p : Pairing) {s : Lossy} (h : (lossy p).Reachable s) : Current s := by
  refine (h.invariant (I := fun s => (lossy p).Reachable s ∧ Current s) ⟨.init, ?_⟩
    fun s l t hs hstep => ⟨hs.1.step hstep, ?_⟩).2
  · constructor
    case heard => exact fun h => absurd h (Nat.lt_irrefl 0)
    all_goals exact fun _ hmem => absurd hmem List.not_mem_nil
  · obtain ⟨hping, hpong⟩ := lossy_sound p hs.1
    exact hs.2.step hping hpong (lossy_flow p hs.1) (.of_step hstep)

/-! ## The history, round by round -/

/-- The completions `es` are those of round trip `n`: one of its send and one of
its echo, both successful. -/
structure Complete (n : ℕ) (es : List (Wc × ℕ)) : Prop where
  send : sendsIn (es.map Prod.fst) = 1
  recv : recvsIn (es.map Prod.fst) = 1
  ids : ∀ e ∈ es, e.1.wrId = wrSend ∨ e.1.wrId = wrRecv
  numbers : ∀ e ∈ es, e.2 = n
  ok : ∀ e ∈ es, e.1.ok = true

/-- Round trip `n` as far as its completions `es`. -/
def opened (t0 n : ℕ) (es : List (Wc × ℕ)) : List Happening :=
  .began t0 :: .posted n :: es.map fun e => .reaped e.1 e.2

/-- **The history of the recorded samples**: sample `i` is taken around the post of
ping `i` and the completions of round trip `i`, and nothing else happens in
between. -/
inductive Rounds : List (ℕ × ℕ) → List Happening → Prop
  | nil : Rounds [] []
  | snoc {samples : List (ℕ × ℕ)} {hs : List Happening} {t0 now : ℕ} {es : List (Wc × ℕ)}
      (h : Rounds samples hs) (hes : Complete samples.length es) :
      Rounds (samples ++ [(t0, now)]) (hs ++ (opened t0 samples.length es ++ [.sampled now]))

/-- The completions `es` are all that has been polled since ping `i` was posted. -/
structure Gathered (s : Numbered PingCtl) (es : List (Wc × ℕ)) : Prop where
  sends : s.sendsPolled = s.ctl.i + sendsIn (es.map Prod.fst)
  recvs : s.recvsPolled = s.ctl.i + recvsIn (es.map Prod.fst)
  ids : ∀ e ∈ es, e.1.wrId = wrSend ∨ e.1.wrId = wrRecv
  numbers : ∀ e ∈ es, e.2 = s.ctl.i
  ok : s.ctl.failed = false → ∀ e ∈ es, e.1.ok = true

/-- The history ends in a round trip that has no sample yet. -/
def InRound (s : Numbered PingCtl) (history : List Happening) : Prop :=
  ∃ hs es, Rounds s.ctl.samples hs ∧ history = hs ++ opened s.ctl.t0 s.ctl.i es ∧ Gathered s es

/-- The history of the client, program point by program point. -/
def HistoryAt (s : Numbered PingCtl) (history : List Happening) : Prop :=
  match s.ctl.pc with
  | .send => ∃ hs, Rounds s.ctl.samples hs ∧ history = hs ++ [.began s.ctl.t0]
  | .wait _ | .record => InRound s history
  | .finish _ | .done => ∃ hs tail, Rounds s.ctl.samples hs ∧ history = hs ++ tail ∧
      ∀ now, .sampled now ∉ tail
  | _ => Rounds s.ctl.samples history

theorem sampled_not_mem_opened (t0 n now : ℕ) (es : List (Wc × ℕ)) :
    .sampled now ∉ opened t0 n es := by
  simp [opened]

/-- Entering turn `i` of the loop, or leaving it. -/
theorem HistoryAt.next {p : Setup} {q : Numbered PingCtl} {c : PingCtl} {i : ℕ}
    {history : List Happening} (h : Rounds c.samples history) :
    HistoryAt { q with ctl := c.next p i } history := by
  rw [PingCtl.next]
  split
  · exact h
  · exact ⟨history, [], h, (List.append_nil _).symm, fun _ => List.not_mem_nil⟩

/-- Away from the two readings around a round trip, an act out of band is nothing
to the history. -/
theorem happenings_of_outOfBand {s : Numbered PingCtl} {a : Act} (ha : a.outOfBand = true)
    (hhead : s.ctl.pc ≠ .head) (hrecord : s.ctl.pc ≠ .record) : happenings s a = [] := by
  cases a with
  | clock now => simp only [happenings, hhead, hrecord, if_false]
  | write i | read i | skip => rfl
  | _ => exact absurd ha Bool.noConfusion

/-- A wait adds the completions it polls. -/
theorem happenings_of_wait {s : Numbered PingCtl} {v w : Wait} {a : Act} {r : Wait ⊕ WaitEnd}
    (hpc : s.ctl.pc = .wait v) (hw : WaitMove w a r) :
    happenings s a = (s.taken a).map fun e => .reaped e.1 e.2 := by
  have hclock : ∀ now, happenings s (.clock now) = [] := fun now =>
    happenings_of_outOfBand rfl (by simp [hpc]) (by simp [hpc])
  cases hw with
  | start _ | timedOut _ _ | retry _ _ => exact hclock _
  | poll _ _ _ _ | pollCheck _ _ _ _ | pollError _ _ _ => rfl

theorem ok_of_absorb {wcs : List Wc} {pending rest : UInt64} (h : absorb pending wcs = some rest) :
    ∀ c ∈ wcs, c.ok = true := by
  induction wcs generalizing pending with
  | nil => exact fun _ hmem => absurd hmem List.not_mem_nil
  | cons c wcs ih =>
    obtain ⟨hok, h⟩ := Option.ite_none_right_eq_some.mp h
    exact List.forall_mem_cons.mpr ⟨hok, ih h⟩

/-- A wait that does not fail has polled no failed completion. -/
theorem ok_of_taken {s q : Numbered PingCtl} {n : ℕ} {w : Wait} {a : Act} {r : Wait ⊕ WaitEnd}
    (hq : s.perform n a = some q) (hw : WaitMove w a r) (hr : r ≠ .inr .error) :
    ∀ e ∈ s.taken a, e.1.ok = true := by
  have hpoll : ∀ wcs rest, a = .poll wcs → absorb w.pending wcs = some rest →
      ∀ e ∈ s.taken a, e.1.ok = true := by
    intro wcs rest ha hok e he
    rw [ha] at hq he
    refine ok_of_absorb hok e.1 ?_
    rw [← Numbered.map_taken hq]
    exact List.mem_map_of_mem he
  cases hw with
  | start _ | timedOut _ _ | retry _ _ => exact fun _ hmem => absurd hmem List.not_mem_nil
  | poll _ _ hok _ | pollCheck _ _ hok _ => exact hpoll _ _ rfl hok
  | pollError _ _ _ => exact absurd rfl hr

theorem opened_append (t0 n : ℕ) (es ds : List (Wc × ℕ)) :
    opened t0 n es ++ ds.map (fun e => .reaped e.1 e.2) = opened t0 n (es ++ ds) := by
  rw [opened, opened, List.map_append, List.cons_append, List.cons_append]

/-- **A wait gathers what it polls.** -/
theorem InRound.wait {p : Setup} {s : Lossy} (h : InRound s.client s.history)
    (hping : PingSound p s.client.side) (hcur : Current s) {v : Wait} {a : Act}
    {r : Wait ⊕ WaitEnd} {q : Numbered PingCtl} {c : PingCtl} (hpc : s.client.ctl.pc = .wait v)
    (hq : s.client.perform s.client.sends a = some q) (hw : WaitMove v a r)
    (hsamples : c.samples = s.client.ctl.samples) (ht0 : c.t0 = s.client.ctl.t0)
    (hi : c.i = s.client.ctl.i)
    (hfail : c.failed = false → s.client.ctl.failed = false ∧ r ≠ .inr .error) :
    InRound { q with ctl := c } (s.history ++ happenings s.client a) := by
  obtain ⟨hs, es, hrounds, hhist, hes⟩ := h
  obtain ⟨hsends, hrecvs⟩ := Numbered.perform_polled hq
  have hcq := s.client.taken_subset a
  refine ⟨hs, es ++ s.client.taken a, by rw [hsamples]; exact hrounds, ?_, ?_⟩
  · rw [happenings_of_wait hpc hw, hhist, List.append_assoc, opened_append, ht0, hi]
  constructor
  case sends =>
    simp only [List.map_append, sendsIn_append, hi, hsends, hes.sends]
    omega
  case recvs =>
    simp only [List.map_append, recvsIn_append, hi, hrecvs, hes.recvs]
    omega
  case ids =>
    intro e he
    rcases List.mem_append.mp he with he | he
    · exact hes.ids e he
    · exact hping.balanced.ids e.1 (List.mem_map_of_mem (hcq he))
  case numbers =>
    have hat := hping.at_pc
    simp only [PingAt, Numbered.side, hpc] at hat
    intro e he
    rcases List.mem_append.mp he with he | he
    · exact (hes.numbers e he).trans hi.symm
    · have hnum : e.2 + 1 = s.client.sends := hcur.cq e (hcq he)
      exact Nat.succ.inj (hnum.trans (hat.2.2.1.trans (by rw [hi])))
  case ok =>
    intro hrun e he
    obtain ⟨hrun, hr⟩ := hfail hrun
    rcases List.mem_append.mp he with he | he
    · exact hes.ok hrun e he
    · exact ok_of_taken hq hw hr e he

/-- A round trip that is given up leaves no sample. -/
theorem InRound.finish {s : Numbered PingCtl} {history : List Happening} (h : InRound s history) :
    ∃ hs tail, Rounds s.ctl.samples hs ∧ history = hs ++ tail ∧ ∀ now, .sampled now ∉ tail := by
  obtain ⟨hs, es, hrounds, hhist, -⟩ := h
  exact ⟨hs, _, hrounds, hhist, fun now => sampled_not_mem_opened _ _ now es⟩

/-- **A sample is taken of its own round trip.** -/
theorem InRound.sample {s : Numbered PingCtl} {history : List Happening} (h : InRound s history)
    (hsamples : s.ctl.samples.length = s.ctl.i) (hsends : s.sendsPolled = s.ctl.i + 1)
    (hrecvs : s.recvsPolled = s.ctl.i + 1) (hrun : s.ctl.failed = false) (now : ℕ) :
    Rounds (s.ctl.samples ++ [(s.ctl.t0, now)]) (history ++ [.sampled now]) := by
  obtain ⟨hs, es, hrounds, hhist, hes⟩ := h
  rw [hhist, List.append_assoc, ← hsamples]
  have h₁ := hes.sends
  have h₂ := hes.recvs
  exact hrounds.snoc
    { send := by omega
      recv := by omega
      ids := hes.ids
      numbers := fun e he => (hes.numbers e he).trans hsamples.symm
      ok := hes.ok hrun }

/-- **An act of the client keeps the history.** -/
theorem HistoryAt.act {p : Setup} {s : Lossy} (h : HistoryAt s.client s.history)
    (hping : PingSound p s.client.side) (hcur : Current s) {a : Act} {t : Numbered PingCtl}
    (hc : s.client.act (pingStep p) s.client.sends a = some t) :
    HistoryAt t (s.history ++ happenings s.client a) := by
  obtain ⟨q, c, hq, hstep, rfl⟩ := Numbered.act_eq_some hc
  obtain ⟨hrun, hmove⟩ := PingMove.of_step hstep
  have hat := hping.at_pc
  cases hmove with
  | warming hpc ha _ | settling hpc ha _ | warmed hpc ha _ | settled hpc ha _
  | posting hpc ha _ =>
    simp only [HistoryAt, hpc] at h
    rw [happenings_of_outOfBand ha (by simp [hpc]) (by simp [hpc]), List.append_nil]
    exact h
  | sleep hpc | postFirst hpc =>
    simp only [HistoryAt, hpc] at h
    exact (List.append_nil _).symm ▸ h
  | posted hpc ha _ =>
    simp only [HistoryAt, hpc] at h
    rw [happenings_of_outOfBand ha (by simp [hpc]) (by simp [hpc]), List.append_nil]
    exact .next h
  | head hpc =>
    simp only [HistoryAt, hpc] at h
    rw [happenings, if_pos hpc]
    exact ⟨_, h, rfl⟩
  | send hpc =>
    simp only [HistoryAt, hpc] at h
    simp only [PingAt, Numbered.side, hpc] at hat
    obtain ⟨hs, hrounds, hhist⟩ := h
    obtain ⟨-, -, hsends, hsendsPolled, -, hrecvsPolled⟩ := hat
    rw [← Option.some.inj hq, hhist]
    refine ⟨hs, [], hrounds, ?_, hsendsPolled, hrecvsPolled, ?_, ?_, fun _ => ?_⟩
    · rw [List.append_assoc]
      exact congrArg (fun n => hs ++ [.began s.client.ctl.t0, .posted n]) hsends
    all_goals exact fun _ hmem => absurd hmem List.not_mem_nil
  | waiting hpc hw =>
    simp only [HistoryAt, hpc] at h
    exact h.wait hping hcur hpc hq hw rfl rfl rfl fun hf => ⟨hf, by simp⟩
  | @waited w r _ hpc hw =>
    simp only [HistoryAt, hpc] at h
    cases r with
    | ok => exact h.wait hping hcur hpc hq hw rfl rfl rfl fun hf => ⟨hf, by simp⟩
    | timedOut =>
      exact (h.wait (c := s.client.ctl) hping hcur hpc hq hw rfl rfl rfl
        fun hf => ⟨hf, by simp⟩).finish
    | error =>
      simp only [PingCtl.waited, HistoryAt, hpc]
      exact h.wait hping hcur hpc hq hw rfl rfl rfl fun hf => absurd hf (by simp)
  | @record now hpc =>
    simp only [HistoryAt, hpc] at h
    simp only [PingAt, Numbered.side, hpc] at hat
    obtain ⟨-, hsamples, -, hsends, -, hrecvs⟩ := hat
    have hsampled := h.sample hsamples hsends hrecvs hrun now
    rw [happenings, if_neg (by simp [hpc]), if_pos hpc, PingCtl.recorded]
    split
    · exact hsampled
    · exact .next hsampled
  | repost hpc =>
    simp only [HistoryAt, hpc] at h
    exact (List.append_nil _).symm ▸ HistoryAt.next h
  | finishing hpc ha _ | finished hpc ha _ =>
    simp only [HistoryAt, hpc] at h
    rw [happenings_of_outOfBand ha (by simp [hpc]) (by simp [hpc]), List.append_nil]
    exact h

/-- The history is about what the program knows and what has been polled. -/
theorem HistoryAt.congr {s t : Numbered PingCtl} {history : List Happening}
    (h : HistoryAt s history) (hctl : t.ctl = s.ctl) (hsends : t.sendsPolled = s.sendsPolled)
    (hrecvs : t.recvsPolled = s.recvsPolled) : HistoryAt t history := by
  have hround : InRound s history → InRound t history := by
    rintro ⟨hs, es, hrounds, hhist, hes⟩
    refine ⟨hs, es, by rwa [hctl], by rwa [hctl], ?_⟩
    exact
      { sends := by rw [hctl, hsends, hes.sends]
        recvs := by rw [hctl, hrecvs, hes.recvs]
        ids := hes.ids
        numbers := by rw [hctl]; exact hes.numbers
        ok := by rw [hctl]; exact hes.ok }
  cases hpc : s.ctl.pc with
  | wait w | record =>
    simp only [HistoryAt, hctl, hpc] at h ⊢
    exact hround h
  | _ =>
    simp only [HistoryAt, hctl, hpc] at h ⊢
    exact h

/-- **The history is kept** by every step. -/
theorem HistoryAt.step {p : Pairing} {s t : Lossy} {l : LossyLabel}
    (h : HistoryAt s.client s.history) (hping : PingSound p.client s.client.side)
    (hcur : Current s) (hm : LossyMove p s l t) : HistoryAt t.client t.history := by
  cases hm with
  | client _ hc => exact h.act hping hcur hc
  | expirePing hpc _ =>
    simp only [HistoryAt, hpc] at h
    exact h.finish
  | transmitPing _ | landEcho _ _ => exact h.congr rfl rfl rfl
  | completeClient ht =>
    rcases Numbered.complete_cases ht with ⟨-, -, rfl⟩ | ⟨-, -, rfl⟩ <;>
      exact h.congr rfl rfl rfl
  | server _ _ | expirePong _ | transmitEcho _ | landPing _ _ | dropPing _ | dropEcho _
  | completeServer _ => exact h

theorem lossy_history (p : Pairing) {s : Lossy} (h : (lossy p).Reachable s) :
    HistoryAt s.client s.history := by
  refine (h.invariant
    (I := fun s => (lossy p).Reachable s ∧ HistoryAt s.client s.history) ⟨.init, .nil⟩
    fun s l t hs hstep => ⟨hs.1.step hstep, ?_⟩).2
  exact hs.2.step (lossy_sound p hs.1).1 (lossy_current p hs.1) (.of_step hstep)

/-- **The history of the samples**, at every program point. -/
theorem HistoryAt.exists_rounds {s : Numbered PingCtl} {history : List Happening}
    (h : HistoryAt s history) :
    ∃ hs tail, Rounds s.ctl.samples hs ∧ history = hs ++ tail ∧ ∀ now, .sampled now ∉ tail := by
  cases hpc : s.ctl.pc with
  | send =>
    simp only [HistoryAt, hpc] at h
    obtain ⟨hs, hrounds, hhist⟩ := h
    exact ⟨hs, _, hrounds, hhist, by simp⟩
  | wait w | record =>
    simp only [HistoryAt, hpc] at h
    exact h.finish
  | finish q | done =>
    simp only [HistoryAt, hpc] at h
    exact h
  | _ =>
    simp only [HistoryAt, hpc] at h
    exact ⟨history, [], h, (List.append_nil _).symm, fun _ => List.not_mem_nil⟩

/-! ## How many echoes -/

/-- The samples of the client against what it has sent and polled. -/
structure PingTally (p : Setup) (s : Side PingCtl) : Prop where
  samples_le : s.ctl.samples.length ≤ p.iterations
  samples_le_polled : s.ctl.samples.length ≤ s.recvsPolled
  sends_le : s.sends ≤ s.ctl.samples.length + 1

/-- An act that sends nothing and takes no sample keeps the tally. -/
theorem PingTally.of_polled {p : Setup} {s q : Side PingCtl} {c : PingCtl} {k m : ℕ}
    (h : PingTally p s) (hq : Polled s q k m) (hc : c.samples = s.ctl.samples) :
    PingTally p { q with ctl := c } where
  samples_le := by rw [hc]; exact h.samples_le
  samples_le_polled := by
    have := h.samples_le_polled
    simp only [hc, hq.recvsPolled]
    omega
  sends_le := by simp only [hc, hq.sends, h.sends_le]

theorem PingCtl.next_samples (p : Setup) (c : PingCtl) (i : ℕ) :
    (c.next p i).samples = c.samples := by
  rw [PingCtl.next]
  split <;> rfl

/-- **An act of the client keeps the tally.** -/
theorem PingTally.act {p : Setup} {s t : Side PingCtl} (h : PingTally p s) (hs : PingSound p s)
    {a : Act} (ht : s.act (pingStep p) a = some t) : PingTally p t := by
  obtain ⟨q, c, hq, hc, rfl⟩ := Side.act_eq_some ht
  obtain ⟨hrun, hmove⟩ := PingMove.of_step hc
  have hat := hs.at_pc
  cases hmove with
  | warming _ ha _ | settling _ ha _ | warmed _ ha _ | settled _ ha _ | posting _ ha _
  | finishing _ ha _ | finished _ ha _ => exact h.of_polled (polled_of_outOfBand ha hq) rfl
  | sleep _ | head _ => exact h.of_polled (polled_of_outOfBand rfl hq) rfl
  | posted _ ha _ => exact h.of_polled (polled_of_outOfBand ha hq) (PingCtl.next_samples ..)
  | postFirst _ =>
    rw [← Option.some.inj hq]
    exact { h with }
  | repost _ =>
    rw [← Option.some.inj hq]
    exact
      { samples_le := by rw [PingCtl.next_samples]; exact h.samples_le
        samples_le_polled := by rw [PingCtl.next_samples]; exact h.samples_le_polled
        sends_le := by rw [PingCtl.next_samples]; exact h.sends_le }
  | send hpc =>
    simp only [PingAt, hpc] at hat
    obtain ⟨hi, hsamples, hsends, -⟩ := hat
    rw [← Option.some.inj hq]
    exact { h with sends_le := by simp only [hsends, hsamples, Nat.le_refl] }
  | waiting hpc hw =>
    simp only [PingAt, hpc] at hat
    obtain ⟨-, -, -, -, hwait⟩ := hat
    obtain ⟨b, d, hawaits, -⟩ := hwait hrun
    obtain ⟨k, m, hpoll, -⟩ := hawaits.step hs.balanced hq hw
    exact h.of_polled hpoll rfl
  | @waited w r _ hpc hw =>
    simp only [PingAt, hpc] at hat
    obtain ⟨-, -, -, -, hwait⟩ := hat
    obtain ⟨b, d, hawaits, -⟩ := hwait hrun
    obtain ⟨k, m, hpoll, -⟩ := hawaits.step hs.balanced hq hw
    cases r <;> exact h.of_polled hpoll rfl
  | @record now hpc =>
    have hpoll := polled_of_outOfBand rfl hq
    simp only [PingAt, hpc] at hat
    obtain ⟨hi, hsamples, hsends, -, -, hrecvs⟩ := hat
    have hlen : ∀ c : PingCtl, c.samples = s.ctl.samples ++ [(s.ctl.t0, now)] →
        PingTally p { q with ctl := c } := by
      intro c hc
      have hc : c.samples.length = s.ctl.i + 1 := by
        rw [hc, List.length_append, List.length_singleton, hsamples]
      exact
        { samples_le := hc ▸ hi
          samples_le_polled := by simp only [hc, hpoll.recvsPolled, hrecvs]; omega
          sends_le := by simp only [hc, hpoll.sends, hsends]; omega }
    rw [PingCtl.recorded]
    split
    · exact hlen _ rfl
    · exact hlen _ (PingCtl.next_samples ..)

/-- The echoes `pong` counts are those it has posted, up to the one whose turn is
not over. -/
def PongTally (s : Side PongCtl) : Prop :=
  s.sends = s.ctl.echoed + if s.ctl.pc = .repost then 1 else 0

theorem PongCtl.next_ne_repost (p : Setup) (c : PongCtl) (turn : ℕ) :
    (c.next p turn).pc ≠ .repost := by
  rw [PongCtl.next]
  split <;> exact PongPc.noConfusion

theorem PongCtl.next_echoed (p : Setup) (c : PongCtl) (turn : ℕ) :
    (c.next p turn).echoed = c.echoed := by
  rw [PongCtl.next]
  split <;> rfl

/-- An act at which no echo is posted or counted keeps the tally. -/
theorem PongTally.of_polled {s q : Side PongCtl} {c : PongCtl} (h : PongTally s)
    (hsends : q.sends = s.sends) (hpc : s.ctl.pc ≠ .repost) (hc : c.pc ≠ .repost)
    (hechoed : c.echoed = s.ctl.echoed) : PongTally { q with ctl := c } := by
  rw [PongTally, if_neg hpc] at h
  rw [PongTally, if_neg hc, hechoed]
  exact hsends.trans h

/-- **An act of the server keeps the tally.** -/
theorem PongTally.act {p : Setup} {s t : Side PongCtl} (h : PongTally s) {a : Act}
    (ht : s.act (pongStep p) a = some t) : PongTally t := by
  obtain ⟨q, c, hq, hc, rfl⟩ := Side.act_eq_some ht
  cases PongMove.of_step hc with
  | warming hpc ha _ | settling hpc ha _ | warmed hpc ha _ | settled hpc ha _
  | posting hpc ha _ | finishing hpc ha _ | finished hpc ha _ =>
    exact h.of_polled (polled_of_outOfBand ha hq).sends (by simp [hpc]) (by simp) rfl
  | sleep hpc => exact h.of_polled (polled_of_outOfBand rfl hq).sends (by simp [hpc]) (by simp) rfl
  | posted hpc ha _ =>
    exact h.of_polled (polled_of_outOfBand ha hq).sends (by simp [hpc])
      (PongCtl.next_ne_repost _ _ _) (PongCtl.next_echoed ..)
  | postFirst hpc =>
    rw [← Option.some.inj hq]
    exact h.of_polled (q := { s with free := s.free + 1, recvs := s.recvs + 1 }) rfl
      (by simp [hpc]) (by simp) rfl
  | waiting hpc hw =>
    exact h.of_polled (Side.sends_of_perform hq hw.ne_postSend) (by simp [hpc]) (by simp) rfl
  | @waited w r _ hpc hw =>
    have hsends := Side.sends_of_perform hq hw.ne_postSend
    cases r <;> exact h.of_polled hsends (by simp [hpc]) (by simp [PongCtl.waited]) rfl
  | send hpc =>
    rw [PongTally, if_neg (by simp [hpc])] at h
    rw [← Option.some.inj hq]
    exact congrArg Nat.succ h
  | repost hpc =>
    rw [PongTally, if_pos hpc] at h
    rw [← Option.some.inj hq, PongTally, if_neg (PongCtl.next_ne_repost _ _ _), PongCtl.next_echoed]
    exact h

theorem lossy_tally (p : Pairing) {s : Lossy} (h : (lossy p).Reachable s) :
    PingTally p.client s.client.side ∧ PongTally s.server.side := by
  refine (h.invariant (I := fun s => (lossy p).Reachable s ∧
    PingTally p.client s.client.side ∧ PongTally s.server.side) ⟨.init, ⟨?_, ?_, ?_⟩, ?_⟩
    fun s l t hs hstep => ⟨hs.1.step hstep, ?_⟩).2
  · exact Nat.zero_le _
  · exact Nat.zero_le _
  · exact Nat.zero_le _
  · rfl
  · obtain ⟨hreach, hping, hpong⟩ := hs
    cases LossyMove.of_step hstep with
    | client _ hc => exact ⟨hping.act (lossy_sound p hreach).1 (Numbered.side_act hc), hpong⟩
    | server _ hc => exact ⟨hping, hpong.act (Numbered.side_act hc)⟩
    | expirePing _ _ => exact ⟨{ hping with }, hpong⟩
    | expirePong hpc =>
      exact ⟨hping, hpong.of_polled (q := s.server.side) rfl (by simp [Numbered.side, hpc])
        (by simp [PongCtl.waited]) rfl⟩
    | transmitPing _ | landEcho _ _ => exact ⟨{ hping with }, hpong⟩
    | transmitEcho _ | landPing _ _ | dropPing _ | dropEcho _ => exact ⟨hping, hpong⟩
    | completeClient ht =>
      rcases Numbered.complete_cases ht with ⟨-, -, rfl⟩ | ⟨-, -, rfl⟩ <;>
        exact ⟨{ hping with }, hpong⟩
    | completeServer ht =>
      rcases Numbered.complete_cases ht with ⟨-, -, rfl⟩ | ⟨-, -, rfl⟩ <;> exact ⟨hping, hpong⟩

/-! ## The result -/

/-- **Every round trip is timed by its own completions.**  Whatever the fabric drops
and whichever waits run out: before ping `i` the client has no send outstanding, one
receive, and nothing on its completion queue; the history of the samples is that of
round trips `0 .. k`; and when both sides are done the server has counted `k` or
`k + 1` echoes. -/
theorem round_trips_paired (p : Pairing) {s : Lossy} (h : (lossy p).Reachable s) :
    ((s.client.ctl.pc = .head ∨ s.client.ctl.pc = .send) →
      s.client.sends = s.client.ctl.i ∧ s.client.unsent = [] ∧ s.client.sent = [] ∧
        s.client.free = 1 ∧ s.client.landed = [] ∧ s.client.cq = []) ∧
    (∃ hs tail, Rounds s.client.ctl.samples hs ∧ s.history = hs ++ tail ∧
      ∀ now, .sampled now ∉ tail) ∧
    s.client.ctl.samples.length ≤ p.iterations ∧
    (s.client.ctl.pc = .done → s.server.ctl.pc = .done →
      s.server.ctl.echoed = s.client.ctl.samples.length ∨
        s.server.ctl.echoed = s.client.ctl.samples.length + 1) := by
  obtain ⟨hping, hpong⟩ := lossy_sound p h
  have hflow := lossy_flow p h
  obtain ⟨hptally, hstally⟩ := lossy_tally p h
  refine ⟨fun hpc => ?_, (lossy_history p h).exists_rounds, hptally.samples_le,
    fun _ hdone => ?_⟩
  · have hcounts : Counts s.client.side s.client.ctl.i s.client.ctl.i (s.client.ctl.i + 1)
        s.client.ctl.i := by
      have hat := hping.at_pc
      rcases hpc with hpc | hpc <;> simp only [PingAt, Numbered.side, hpc] at hat <;> exact hat.2.2
    have hquiet := quiet_of_counts hping hpong hflow hcounts
    exact ⟨hcounts.1, hquiet.unsent, hquiet.sent, hquiet.free, hquiet.landed, hquiet.cq⟩
  · have hechoed : s.server.sends = s.server.ctl.echoed :=
      hstally.trans (by rw [if_neg (by simp [Numbered.side, hdone])]; rfl)
    have hcrecvs := hping.balanced.recvs
    have hsrecvs := hpong.balanced.recvs
    have hanswered := hpong.sends_le
    have hsampled := hptally.samples_le_polled
    have hsent := hptally.sends_le
    have hpings := hflow.pings
    have hechoes := hflow.echoes
    simp only [Numbered.side] at hcrecvs hsrecvs hanswered hsampled hsent
    omega

/-- Both sides through one `sync`. -/
def meetBoth : List LossyLabel :=
  [.client (.write .barrier), .server (.write .barrier), .client (.read .barrier),
    .server (.read .barrier)]

/-- One round trip, then a ping that is dropped: both waits run out, and both sides
are done with one sample and one echo. -/
def firstThenLost : List LossyLabel :=
  meetBoth ++ [.client .skip, .server .skip] ++ meetBoth ++
    [.client (.postReceive 0 wrRecv), .server (.postReceive 0 wrRecv)] ++ meetBoth ++
    [.client (.clock 0), .client (.postSend 0 wrSend), .client (.clock 0), .transmit .client 0,
      .arrive .server 0, .server (.clock 0), .complete .server recvDone 0,
      .server (.poll [recvDone]), .server (.clock 0), .server (.postSend 0 wrSend),
      .server (.postReceive 0 wrRecv), .transmit .server 0, .arrive .client 0,
      .complete .client recvDone 0, .complete .client sendDone 0,
      .client (.poll [recvDone, sendDone]), .client (.clock 0), .client (.clock 7),
      .client (.postReceive 0 wrRecv), .client (.clock 7), .client (.postSend 0 wrSend),
      .transmit .client 1, .drop .server 1, .expire .client, .expire .server] ++ meetBoth

theorem round_trips_paired_first_then_lost :
    ∃ s, (lossy ⟨false, false, 2⟩).Reachable s ∧ s.client.ctl.samples = [(0, 7)] ∧
      (∃ hs tail, Rounds [(0, 7)] hs ∧ s.history = hs ++ tail ∧ ∀ now, .sampled now ∉ tail) ∧
      (s.server.ctl.echoed = 1 ∨ s.server.ctl.echoed = 2) := by
  obtain ⟨s, hs, hend⟩ := System.Reachable.exists_of_run (S := lossy ⟨false, false, 2⟩)
    (p := fun s => decide (s.client.ctl.samples = [(0, 7)] ∧ s.client.ctl.pc = .done ∧
      s.server.ctl.pc = .done))
    firstThenLost (by decide)
  obtain ⟨hsamples, hclient, hserver⟩ := of_decide_eq_true hend
  obtain ⟨-, hrounds, -, hechoed⟩ := round_trips_paired _ hs
  rw [hsamples] at hrounds hechoed
  exact ⟨s, hs, hsamples, hrounds, hechoed hclient hserver⟩

end Latency
end RdmaBench
