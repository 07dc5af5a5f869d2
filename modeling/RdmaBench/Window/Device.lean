import Mathlib.Algebra.Order.Group.Multiset
import RdmaBench.Window.Posting

/-!
# A program and its device

A `Posting` reports any request that is outstanding.  A `Node` has the device in
between: a request that is posted waits, is served, and is completed, each in the
order of the posts, and a poll takes completions from the front of the queue the
device puts them in.  What a device does to serve a request is the business of
whatever the node is a part of.

Seen from the program it is a `Posting` all the same (`Node.act_toPosting`), whose
outstanding requests are those at the three stations, so the windows that a program
keeps it keeps here.  `Node.Counted` adds what the program knows of it: it has polled
what has been posted and is at none of the stations.
-/

namespace RdmaBench

open Automaton Window

/-- A program, its requests at the device, and the completions it has not polled. -/
structure Node (σ : Type) where
  ctl : σ
  /-- Posted and not served. -/
  waiting : List ℕ := []
  /-- Served and not completed. -/
  served : List ℕ := []
  cq : List Wc := []
  /-- The ids of all requests posted so far. -/
  posts : List ℕ := []
  deriving DecidableEq

section Node

variable {σ : Type}

/-- What an act of the program does at the device. -/
def Node.perform (s : Node σ) : Act → Option (Node σ)
  | .postSend _ id => some { s with waiting := s.waiting ++ [id], posts := s.posts ++ [id] }
  | .postReceive _ id => some { s with waiting := s.waiting ++ [id], posts := s.posts ++ [id] }
  | .poll wcs => if wcs <+: s.cq then some { s with cq := s.cq.drop wcs.length } else none
  | _ => some s

/-- An act of the program `step`. -/
def Node.act (step : σ → Act → Option σ) (s : Node σ) (a : Act) : Option (Node σ) :=
  (s.perform a).bind fun n => (step s.ctl a).map fun c => { n with ctl := c }

/-- A node as the program sees it. -/
def Node.toPosting (s : Node σ) : Posting σ where
  ctl := s.ctl
  outstanding := s.waiting + s.served + wrIds s.cq
  posts := s.posts

theorem Node.act_eq_some {step : σ → Act → Option σ} {s t : Node σ} {a : Act}
    (h : s.act step a = some t) :
    ∃ n c, s.perform a = some n ∧ step s.ctl a = some c ∧ t = { n with ctl := c } := by
  obtain ⟨n, hn, h⟩ := Option.bind_eq_some_iff.mp h
  obtain ⟨c, hc, rfl⟩ := Option.map_eq_some_iff.mp h
  exact ⟨n, c, hn, hc, rfl⟩

/-- An act at the device, and nothing of it for one that is not. -/
theorem Node.perform_of_outOfBand {s : Node σ} {a : Act} (ha : a.outOfBand = true) :
    s.perform a = some s := by
  cases a with
  | write i | read i | clock now | skip => rfl
  | _ => exact absurd ha Bool.noConfusion

theorem Node.perform_poll {s n : Node σ} {wcs : List Wc} (h : s.perform (.poll wcs) = some n) :
    ∃ rest, s.cq = wcs ++ rest ∧ n = { s with cq := rest } := by
  obtain ⟨⟨rest, hrest⟩, h⟩ := Option.ite_none_right_eq_some.mp h
  refine ⟨rest, hrest.symm, ?_⟩
  rw [← Option.some.inj h, ← hrest, List.drop_left]

theorem wrIds_append (wcs more : List Wc) : wrIds (wcs ++ more) = wrIds wcs + wrIds more := by
  rw [wrIds, List.map_append, ← Multiset.coe_add]
  rfl

/-- A request that is posted joins those outstanding. -/
theorem Node.toPosting_post (s : Node σ) (id : ℕ) :
    Node.toPosting { s with waiting := s.waiting ++ [id], posts := s.posts ++ [id] } =
      { s.toPosting with outstanding := id ::ₘ s.toPosting.outstanding, posts := s.posts ++ [id] } := by
  refine congrArg (fun o => Posting.mk s.ctl o (s.posts ++ [id])) ?_
  rw [Node.toPosting, ← Multiset.coe_add, Multiset.coe_singleton, ← Multiset.singleton_add]
  dsimp only
  ac_rfl

/-- How many requests an act posts. -/
def Act.posts : Act → ℕ
  | .postSend _ _ | .postReceive _ _ => 1
  | _ => 0

/-- How many completions an act polls. -/
def Act.reports : Act → ℕ
  | .poll wcs => wcs.length
  | _ => 0

theorem Act.reports_of_outOfBand {a : Act} (ha : a.outOfBand = true) : a.reports = 0 := by
  cases a with
  | poll wcs => exact absurd ha Bool.noConfusion
  | _ => rfl

/-- **The queue has what was posted and not polled.** -/
theorem Posting.card_perform {s q : Posting σ} {a : Act} (h : s.perform a = some q) :
    q.outstanding.card + a.reports = s.outstanding.card + a.posts ∧
      q.posts.length = s.posts.length + a.posts := by
  cases a with
  | postSend slot id | postReceive slot id =>
    rw [← Option.some.inj h]
    exact ⟨Multiset.card_cons _ _, List.length_append⟩
  | poll wcs =>
    obtain ⟨hle, rfl⟩ := Posting.perform_poll h
    have hcard := Multiset.card_le_card hle
    rw [card_wrIds] at hcard
    refine ⟨?_, rfl⟩
    dsimp only
    rw [Multiset.card_sub hle, card_wrIds]
    exact Nat.sub_add_cancel hcard
  | write i | read i | fill slot seq | inspect slot got | clock now | skip =>
    rw [← Option.some.inj h]
    exact ⟨rfl, rfl⟩

/-- **A node is a posting**, to its program. -/
theorem Node.act_toPosting {step : σ → Act → Option σ} {s t : Node σ} {a : Act}
    (h : s.act step a = some t) : Posting.act step s.toPosting a = some t.toPosting := by
  obtain ⟨n, c, hn, hc, rfl⟩ := Node.act_eq_some h
  have hperform : s.toPosting.perform a = some n.toPosting := by
    cases a with
    | postSend slot id | postReceive slot id =>
      rw [← Option.some.inj hn, Node.toPosting_post]
      rfl
    | poll wcs =>
      obtain ⟨rest, hcq, rfl⟩ := Node.perform_poll hn
      have hout : s.toPosting.outstanding = wrIds wcs + (s.waiting + s.served + wrIds rest) := by
        rw [Node.toPosting, hcq, wrIds_append]
        dsimp only
        ac_rfl
      refine (if_pos (hout ▸ Multiset.le_add_right _ _)).trans (congrArg some ?_)
      rw [hout]
      exact congrArg (fun o => Posting.mk s.ctl o s.posts) (add_tsub_cancel_left _ _)
    | write i | read i | fill slot seq | inspect slot got | clock now | skip =>
      rw [← Option.some.inj hn]
      rfl
  rw [Posting.act, hperform, Option.bind_some]
  exact congrArg (Option.map _) hc

/-- What an act of a program leaves of the stations. -/
theorem Node.act_stations {step : σ → Act → Option σ} {s t : Node σ} {a : Act}
    (h : s.act step a = some t) :
    t.served = s.served ∧ t.waiting.length = s.waiting.length + a.posts ∧
      t.posts.length = s.posts.length + a.posts := by
  obtain ⟨n, c, hn, -, rfl⟩ := Node.act_eq_some h
  cases a with
  | postSend slot id | postReceive slot id =>
    rw [← Option.some.inj hn]
    exact ⟨rfl, List.length_append, List.length_append⟩
  | poll wcs =>
    obtain ⟨rest, -, rfl⟩ := Node.perform_poll hn
    exact ⟨rfl, rfl, rfl⟩
  | write i | read i | fill slot seq | inspect slot got | clock now | skip =>
    rw [← Option.some.inj hn]
    exact ⟨rfl, rfl, rfl⟩

/-- The device serves the request that has waited longest. -/
def Node.serve (s : Node σ) : Option (Node σ) :=
  match s.waiting with
  | id :: rest => some { s with waiting := rest, served := s.served ++ [id] }
  | [] => none

/-- The device completes the request that was served first. -/
def Node.complete (len : ℕ) (s : Node σ) : Option (Node σ) :=
  match s.served with
  | id :: rest => some { s with served := rest, cq := s.cq ++ [⟨id, len, true⟩] }
  | [] => none

/-- What the device does the program does not see. -/
theorem Node.serve_toPosting {s t : Node σ} (h : s.serve = some t) :
    t.toPosting = s.toPosting := by
  rw [Node.serve] at h
  split at h
  · next id rest hw =>
    rw [← Option.some.inj h, Node.toPosting, Node.toPosting, hw, ← Multiset.coe_add,
      Multiset.coe_singleton, ← Multiset.cons_coe, ← Multiset.singleton_add]
    refine congrArg (fun o => Posting.mk s.ctl o s.posts) ?_
    dsimp only
    ac_rfl
  · exact absurd h (by simp)

theorem Node.complete_toPosting {s t : Node σ} {len : ℕ} (h : s.complete len = some t) :
    t.toPosting = s.toPosting := by
  rw [Node.complete] at h
  split at h
  · next id rest hs =>
    rw [← Option.some.inj h, Node.toPosting, Node.toPosting, hs, wrIds_append, ← Multiset.cons_coe,
      ← Multiset.singleton_add]
    refine congrArg (fun o => Posting.mk s.ctl o s.posts) ?_
    change _ + (_ + {id}) = _
    ac_rfl
  · exact absurd h (by simp)

/-- How many requests there are at the three stations. -/
theorem Node.card_outstanding (s : Node σ) :
    s.toPosting.outstanding.card = s.waiting.length + s.served.length + s.cq.length := by
  rw [Node.toPosting, Multiset.card_add, Multiset.card_add, card_wrIds, Multiset.coe_card,
    Multiset.coe_card]

/-! ## The counters of a loop at its device -/

/-- A program at a device whose completions succeed, with the counters of its loop. -/
structure Node.Counted (v : View σ) (n w polled : ℕ) (s : Node σ) : Prop where
  sound : Sound n w (v.poster s.toPosting)
  posts_le : s.posts.length ≤ n
  tally : polled + (s.waiting.length + s.served.length + s.cq.length) = s.posts.length
  running : v.failed s.ctl = false
  cq_ok : ∀ e ∈ s.cq, e.ok = true

/-- What the device does leaves the counters alone. -/
theorem Node.Counted.device {v : View σ} {n w polled : ℕ} {s t : Node σ}
    (h : s.Counted v n w polled) (ht : t.toPosting = s.toPosting)
    (hcq : ∀ e ∈ t.cq, e.ok = true) : t.Counted v n w polled where
  sound := by rw [ht]; exact h.sound
  posts_le := by
    have hposts : t.posts = s.posts := congrArg Posting.posts ht
    rw [hposts]
    exact h.posts_le
  tally := by
    have hposts : t.posts = s.posts := congrArg Posting.posts ht
    have hcard := congrArg (fun p => p.outstanding.card) ht
    rw [Node.card_outstanding, Node.card_outstanding] at hcard
    rw [hposts, hcard]
    exact h.tally
  running := by
    have hctl : t.ctl = s.ctl := congrArg Posting.ctl ht
    rw [hctl]
    exact h.running
  cq_ok := hcq

/-- A poll of completions that succeed is no error. -/
theorem completionError_eq_false {wcs r : List Wc} (h : ∀ e ∈ wcs ++ r, e.ok = true) :
    completionError wcs = false := by
  refine List.any_eq_false.mpr fun e he => ?_
  rw [h e (List.mem_append_left _ he)]
  exact Bool.false_ne_true

/-- **An act of the program keeps the counters exact.** -/
theorem Node.Counted.act {v : View σ} {n w polled more : ℕ} {step : σ → Act → Option σ} {s t : Node σ} {a : Act} (hw : w ≤ n)
    (h : s.Counted v n w polled) (hstep : s.act step a = some t)
    (hmove : Move n w (v.poster s.toPosting) (v.poster t.toPosting))
    (hrun : v.failed t.ctl = false ∨ ∃ wcs, a = .poll wcs ∧ completionError wcs = true)
    (hmore : v.failed t.ctl = false → more = polled + a.reports) :
    t.Counted v n w more := by
  obtain ⟨m, c, hm, hc, rfl⟩ := Node.act_eq_some hstep
  have hok : v.failed c = false := by
    rcases hrun with hrun | ⟨wcs, rfl, herr⟩
    · exact hrun
    · obtain ⟨rest, hcq, -⟩ := Node.perform_poll hm
      rw [completionError_eq_false (hcq ▸ h.cq_ok)] at herr
      exact absurd herr Bool.noConfusion
  obtain ⟨q, d, hq, -, heq⟩ := Posting.act_eq_some (Node.act_toPosting hstep)
  obtain ⟨hcard, hposts⟩ := Posting.card_perform hq
  have hout : q.outstanding.card = m.waiting.length + m.served.length + m.cq.length := by
    rw [← Node.card_outstanding]
    exact congrArg (fun p => p.outstanding.card) heq.symm
  have hqposts : q.posts = m.posts := congrArg Posting.posts heq.symm
  have htally := h.tally
  rw [Node.card_outstanding, hout] at hcard
  rw [hqposts] at hposts
  change m.posts.length = s.posts.length + a.posts at hposts
  refine ⟨h.sound.move hw hmove, h.sound.length_posts_le hw h.posts_le hmove, ?_, hok, ?_⟩
  · rw [hmore hok]
    dsimp only
    omega
  · intro e he
    refine h.cq_ok e ?_
    cases a with
    | poll wcs =>
      obtain ⟨rest, hcq, rfl⟩ := Node.perform_poll hm
      rw [hcq]
      exact List.mem_append_right _ he
    | _ =>
      rw [← Option.some.inj hm] at he
      exact he

end Node

end RdmaBench
