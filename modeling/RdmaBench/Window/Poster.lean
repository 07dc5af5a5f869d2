import Mathlib.Data.Multiset.AddSub
import Mathlib.Data.List.Range

/-!
# Keeping a window of requests posted

A loop that has `n` requests to get through a queue posts the first `w` of them
ahead, and from then on one more for each completion it polls.  `Poster` is such a
loop with its queue: the two counters `posted` and `completed`, what is outstanding,
and everything it has posted, in order.  The queue reports a request only while it
is outstanding, in batches of any size and in any order.

`Move` lists what the loop and its queue can do.  How a loop counts a batch, in the
act that polls it or in a later one, is left open, and so is whether it can give up.

The invariant is `Sound`: the counters are exact, so at the head of the loop
`posted = min n (w + completed)` and `posted - completed` requests are outstanding.
In the middle of a refill the difference to the window is the number of turns that
are left.
-/

namespace RdmaBench
namespace Window

/-- Where the loop stands. -/
inductive Stage where
  | before
  /-- About to post request `i` of the window. -/
  | fill (i : ℕ)
  /-- At the head of the loop. -/
  | head
  /-- Off the head, with `k` completions polled and not yet counted. -/
  | between (k : ℕ)
  /-- About to post one more, with `left` turns of the refill to come after. -/
  | refill (left : ℕ)
  /-- Out of the loop, with nothing left to count. -/
  | left
  /-- Out of the loop in another way. -/
  | over
  deriving DecidableEq

/-- The loop and its queue. -/
structure Poster where
  stage : Stage := .before
  posted : ℕ := 0
  completed : ℕ := 0
  outstanding : Multiset ℕ := 0
  /-- The ids of all requests posted so far. -/
  posts : List ℕ := []

namespace Poster

/-- The request `id` is posted. -/
def post (s : Poster) (id : ℕ) : Poster :=
  { s with outstanding := id ::ₘ s.outstanding, posts := s.posts ++ [id] }

/-- The requests `ids` are reported. -/
def report (s : Poster) (ids : Multiset ℕ) : Poster :=
  { s with outstanding := s.outstanding - ids }

@[simp] theorem post_completed (s : Poster) (id : ℕ) : (s.post id).completed = s.completed := rfl

@[simp] theorem report_posted (s : Poster) (ids : Multiset ℕ) :
    (s.report ids).posted = s.posted := rfl

@[simp] theorem report_completed (s : Poster) (ids : Multiset ℕ) :
    (s.report ids).completed = s.completed := rfl

/-- The head of the loop over the window, which goes on to `next`. -/
def fillFrom (w : ℕ) (next : Stage) (s : Poster) (i : ℕ) : Poster :=
  if i < w then { s with stage := .fill i } else { s with stage := next, posted := w }

/-- The head of the refill, with `left` turns to go. -/
def refillFrom (n : ℕ) (s : Poster) (left : ℕ) : Poster :=
  if 0 < left ∧ s.posted < n then { s with stage := .refill (left - 1) }
  else { s with stage := .head }

end Poster

open Poster

/-- What the loop and its queue can do, with a window of `w` for `n` requests. -/
inductive Move (n w : ℕ) (s : Poster) : Poster → Prop
  | stay : Move n w s s
  | start {next : Stage} (h : s.stage = .before) (hnext : next = .head ∨ next = .between 0) :
      Move n w s (fillFrom w next s 0)
  | fill {i : ℕ} {next : Stage} (h : s.stage = .fill i)
      (hnext : next = .head ∨ next = .between 0) :
      Move n w s (fillFrom w next (s.post i) (i + 1))
  /-- A poll whose completions are counted later. -/
  | poll {ids : Multiset ℕ} (h : s.stage = .head) (hlt : s.completed < n)
      (hids : ids ≤ s.outstanding) :
      Move n w s { s.report ids with stage := .between ids.card }
  | count {k : ℕ} (h : s.stage = .between k) :
      Move n w s (refillFrom n { s with completed := s.completed + k } k)
  /-- A poll whose completions are counted at once. -/
  | pollCount {ids : Multiset ℕ} (h : s.stage = .head) (hlt : s.completed < n)
      (hids : ids ≤ s.outstanding) :
      Move n w s (refillFrom n { s.report ids with completed := s.completed + ids.card } ids.card)
  | refill {left : ℕ} (h : s.stage = .refill left) :
      Move n w s (refillFrom n { s.post s.posted with posted := s.posted + 1 } left)
  | leave (h : s.stage = .head ∨ s.stage = .between 0) (hge : n ≤ s.completed) :
      Move n w s { s with stage := .left }
  | quit {ids : Multiset ℕ} (hids : ids ≤ s.outstanding) :
      Move n w s { s.report ids with stage := .over }

theorem Move.of_eq {n w : ℕ} {s t : Poster} (h : t = s) : Move n w s t := h ▸ .stay

theorem Move.to {n w : ℕ} {s t u : Poster} (h : Move n w s t) (heq : u = t) : Move n w s u :=
  heq ▸ h

/-- The counters at each stage. -/
def StageAt (n w : ℕ) (s : Poster) : Prop :=
  match s.stage with
  | .before => s.posts = [] ∧ s.outstanding.card = 0 ∧ s.posted = 0 ∧ s.completed = 0
  | .fill i => i < w ∧ s.posts.length = i ∧ s.outstanding.card = i ∧ s.completed = 0
  | .head =>
    s.posts.length = s.posted ∧ s.outstanding.card + s.completed = s.posted ∧
      s.posted = min n (w + s.completed)
  | .between k =>
    s.posts.length = s.posted ∧ s.outstanding.card + s.completed + k = s.posted ∧
      s.posted = min n (w + s.completed)
  | .refill left =>
    s.posts.length = s.posted ∧ s.outstanding.card + s.completed = s.posted ∧ s.posted < n ∧
      s.posted + left + 1 = w + s.completed
  | .left => s.completed = n ∧ s.posted = n
  | .over => True

/-- What holds of the loop and its queue in every state. -/
structure Sound (n w : ℕ) (s : Poster) : Prop where
  stage_at : StageAt n w s
  outstanding_le : s.outstanding.card ≤ w
  posts_eq : s.posts = List.range s.posts.length

section Sound

variable {n w : ℕ} {s : Poster}

theorem card_report {ids : Multiset ℕ} (h : ids ≤ s.outstanding) :
    (s.report ids).outstanding.card + ids.card = s.outstanding.card := by
  have hle := Multiset.card_le_card h
  rw [report, Multiset.card_sub h]
  omega

theorem card_post (s : Poster) (id : ℕ) :
    (s.post id).outstanding.card = s.outstanding.card + 1 := Multiset.card_cons _ _

theorem length_post (s : Poster) (id : ℕ) : (s.post id).posts.length = s.posts.length + 1 := by
  rw [post, List.length_append, List.length_singleton]

/-- **Posting the next number keeps the ids in order.** -/
theorem posts_post (h : s.posts = List.range s.posts.length) :
    (s.post s.posts.length).posts = List.range (s.post s.posts.length).posts.length := by
  rw [length_post, List.range_succ, ← h]
  rfl

/-- The head of the loop over the window. -/
theorem Sound.fillFrom {next : Stage} {i : ℕ} (hw : w ≤ n) (hi : i ≤ w)
    (hposts : s.posts = List.range s.posts.length) (hlen : s.posts.length = i)
    (hcard : s.outstanding.card = i) (hcompleted : s.completed = 0)
    (hnext : next = .head ∨ next = .between 0) : Sound n w (fillFrom w next s i) := by
  rw [Poster.fillFrom]
  split
  · next hlt => exact ⟨⟨hlt, hlen, hcard, hcompleted⟩, by simp only; omega, hposts⟩
  · next hge =>
    have hposted : w = min n (w + s.completed) := by omega
    refine ⟨?_, by simp only; omega, hposts⟩
    rcases hnext with rfl | rfl
    · exact ⟨by simp only; omega, by simp only; omega, hposted⟩
    · exact ⟨by simp only; omega, by simp only; omega, hposted⟩

/-- The head of the refill. -/
theorem Sound.refillFrom {k : ℕ} (hposts : s.posts = List.range s.posts.length)
    (hlen : s.posts.length = s.posted) (hcard : s.outstanding.card + s.completed = s.posted)
    (hle : s.posted ≤ n) (hwindow : s.posted + k = w + s.completed ∨
      (s.posted = n ∧ n ≤ w + s.completed)) : Sound n w (refillFrom n s k) := by
  rw [Poster.refillFrom]
  split
  · next h => exact ⟨⟨hlen, hcard, h.2, by simp only; omega⟩, by simp only; omega, hposts⟩
  · next h => exact ⟨⟨hlen, hcard, by simp only; omega⟩, by simp only; omega, hposts⟩

/-- **Every move keeps the counters exact.** -/
theorem Sound.move (hw : w ≤ n) {t : Poster} (h : Sound n w s) (hm : Move n w s t) :
    Sound n w t := by
  obtain ⟨hat, hout, hposts⟩ := h
  cases hm with
  | stay => exact ⟨hat, hout, hposts⟩
  | start hstage hnext =>
    simp only [StageAt, hstage] at hat
    obtain ⟨hnil, hcard, -, hcompleted⟩ := hat
    exact .fillFrom hw (Nat.zero_le w) hposts (by rw [hnil]; rfl) hcard hcompleted hnext
  | fill hstage hnext =>
    simp only [StageAt, hstage] at hat
    obtain ⟨hi, rfl, hcard, hcompleted⟩ := hat
    exact .fillFrom hw hi (posts_post hposts) (length_post _ _)
      (by rw [card_post, hcard]) hcompleted hnext
  | poll hstage hlt hids =>
    simp only [StageAt, hstage] at hat
    obtain ⟨hlen, hcard, hposted⟩ := hat
    have hreport := card_report hids
    refine ⟨⟨hlen, ?_, hposted⟩, by simp only; omega, hposts⟩
    simp only [report_posted, report_completed]
    omega
  | count hstage =>
    simp only [StageAt, hstage] at hat
    obtain ⟨hlen, hcard, hposted⟩ := hat
    refine .refillFrom hposts hlen ?_ ?_ ?_ <;> simp only <;> omega
  | pollCount hstage hlt hids =>
    simp only [StageAt, hstage] at hat
    obtain ⟨hlen, hcard, hposted⟩ := hat
    have hreport := card_report hids
    refine .refillFrom hposts hlen ?_ ?_ ?_ <;> simp only [report_posted] <;> omega
  | refill hstage =>
    simp only [StageAt, hstage] at hat
    obtain ⟨hlen, hcard, hlt, hwindow⟩ := hat
    have hcons := card_post s s.posted
    have hsucc := length_post s s.posted
    refine .refillFrom (hlen ▸ posts_post hposts) ?_ ?_ ?_ ?_ <;> simp only [post_completed] <;>
      omega
  | leave hstage hge =>
    rcases hstage with hstage | hstage <;> simp only [StageAt, hstage] at hat <;>
      exact ⟨⟨by simp only; omega, by simp only; omega⟩, hout, hposts⟩
  | quit hids =>
    have hreport := card_report hids
    exact ⟨trivial, by simp only; omega, hposts⟩

theorem fillFrom_posts (w : ℕ) (next : Stage) (s : Poster) (i : ℕ) :
    (Poster.fillFrom w next s i).posts = s.posts := by
  rw [Poster.fillFrom]
  split <;> rfl

theorem refillFrom_posts (n : ℕ) (s : Poster) (left : ℕ) :
    (Poster.refillFrom n s left).posts = s.posts := by
  rw [Poster.refillFrom]
  split <;> rfl

/-- **No more is posted than there is to post.** -/
theorem Sound.length_posts_le (hw : w ≤ n) {t : Poster} (h : Sound n w s)
    (hle : s.posts.length ≤ n) (hm : Move n w s t) : t.posts.length ≤ n := by
  have hat := h.stage_at
  cases hm with
  | fill hstage =>
    simp only [StageAt, hstage] at hat
    rw [fillFrom_posts, length_post]
    omega
  | refill hstage =>
    simp only [StageAt, hstage] at hat
    rw [refillFrom_posts]
    simp only [length_post]
    omega
  | start => rwa [fillFrom_posts]
  | count | pollCount => rwa [refillFrom_posts]
  | stay | poll | leave | quit => exact hle

/-- What the counters say to the outside. -/
structure Kept (n depth : ℕ) (s : Poster) : Prop where
  posted_eq : s.stage = .head → s.posted = min n (min depth n + s.completed)
  ahead_le : s.stage = .head → s.posted - s.completed ≤ min depth n
  outstanding_le : s.outstanding.card ≤ depth
  /-- The loop never polls with nothing in flight. -/
  in_flight : s.stage = .head → s.completed < n → 0 < s.outstanding.card
  posts_eq : s.posts = List.range s.posts.length
  exact_of_left : s.stage = .left → s.completed = n ∧ s.posted = n

/-- **A sound loop keeps to its window.** -/
theorem Sound.kept {depth : ℕ} (hn : 0 < n) (hdepth : 0 < depth) (h : Sound n (min depth n) s) :
    Kept n depth s := by
  obtain ⟨hat, hout, hposts⟩ := h
  have hhead : s.stage = .head → s.posts.length = s.posted ∧
      s.outstanding.card + s.completed = s.posted ∧ s.posted = min n (min depth n + s.completed) := by
    intro hstage
    simpa only [StageAt, hstage] using hat
  have hleft : s.stage = .left → s.completed = n ∧ s.posted = n := by
    intro hstage
    simpa only [StageAt, hstage] using hat
  constructor
  case posted_eq => exact fun hstage => (hhead hstage).2.2
  case ahead_le =>
    intro hstage
    obtain ⟨-, -, hposted⟩ := hhead hstage
    omega
  case outstanding_le => omega
  case in_flight =>
    intro hstage hlt
    obtain ⟨-, hcard, hposted⟩ := hhead hstage
    omega
  case posts_eq => exact hposts
  case exact_of_left => exact hleft

end Sound

end Window
end RdmaBench
