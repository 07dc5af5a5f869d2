import Mathlib.Data.List.Basic

/-!
# Two parties over two FIFO channels

What a sequential party has still to do on a connection is a list of writes and
reads, its *session*.  Two parties `p` and `q` talk over two FIFO channels: `c`
holds what `p` wrote and `q` has not read, `d` what `q` wrote and `p` has not
read.  The items carry a kind and nothing else; a barrier byte is an item like
any other.

## The balance

`Linked p q c d` says that what `q` will still read is what is in the channel
followed by what `p` will still write, and the same the other way round.  Every
write and every read keeps it (`Linked.writeLeft` and its three siblings), so it
holds along any run that starts in it, whatever the relative speed of the two.
It is worth two things.  The unread items are a prefix of what the reader will
read, in order, so none is ever taken for another (`Linked.head_eq`); and
counting any one kind of item on both sides of it compares how far the two
parties have come (`Linked.count_le`).

## Nobody waits for nobody

Balance alone allows both parties to wait.  `Dual P Q` rules it out: the two
sessions are made of blocks in which one side writes what the other reads, or
both write first and then both read --- a rendezvous.  `Dual.not_both_reading`
is by induction on the blocks: a party that has left a block has written all of
its share of it, so the party behind finds its item in the channel.
-/

namespace RdmaBench
namespace Automaton

universe u

/-- One action of a party on the connection. -/
inductive Io (κ : Type u) where
  | write : κ → Io κ
  | read : κ → Io κ
  deriving DecidableEq

/-- What a party has still to do on the connection. -/
abbrev Session (κ : Type u) := List (Io κ)

namespace Session

variable {κ : Type u}

/-- The items a session will still write, in order. -/
def writes : Session κ → List κ
  | [] => []
  | .write k :: p => k :: writes p
  | .read _ :: p => writes p

/-- The items a session will still read, in order. -/
def reads : Session κ → List κ
  | [] => []
  | .write _ :: p => reads p
  | .read k :: p => k :: reads p

@[simp] theorem writes_write (k : κ) (p : Session κ) : writes (.write k :: p) = k :: writes p :=
  rfl

@[simp] theorem writes_read (k : κ) (p : Session κ) : writes (.read k :: p) = writes p := rfl

@[simp] theorem reads_nil : reads ([] : Session κ) = [] := rfl

@[simp] theorem reads_write (k : κ) (p : Session κ) : reads (.write k :: p) = reads p := rfl

@[simp] theorem reads_read (k : κ) (p : Session κ) : reads (.read k :: p) = k :: reads p := rfl

theorem writes_append (p q : Session κ) : writes (p ++ q) = writes p ++ writes q := by
  induction p with
  | nil => rfl
  | cons a p ih => cases a <;> simp [ih]

theorem reads_append (p q : Session κ) : reads (p ++ q) = reads p ++ reads q := by
  induction p with
  | nil => rfl
  | cons a p ih => cases a <;> simp [ih]

/-- A session that has come further has less to write. -/
theorem length_writes_le {p P : Session κ} (h : p <:+ P) :
    (writes p).length ≤ (writes P).length := by
  obtain ⟨s, rfl⟩ := h
  rw [writes_append, List.length_append]
  exact Nat.le_add_left _ _

/-! ## The balance -/

/-- What each party will still read is what is in flight to it and then what the
other will still write. -/
structure Linked (p q : Session κ) (c d : List κ) : Prop where
  right : reads q = c ++ writes p
  left : reads p = d ++ writes q

variable {p q : Session κ} {c d : List κ} {k : κ}

theorem Linked.symm (h : Linked p q c d) : Linked q p d c := ⟨h.left, h.right⟩

theorem Linked.writeLeft (h : Linked (.write k :: p) q c d) : Linked p q (c ++ [k]) d := by
  refine ⟨?_, h.left⟩
  rw [h.right, writes_write, List.append_assoc]
  rfl

theorem Linked.readRight {j : κ} (h : Linked p (.read j :: q) (k :: c) d) :
    Linked p q c d := by
  refine ⟨?_, h.left⟩
  have hr := h.right
  rw [reads_read, List.cons_append] at hr
  exact (List.cons.inj hr).2

theorem Linked.writeRight (h : Linked p (.write k :: q) c d) : Linked p q c (d ++ [k]) :=
  h.symm.writeLeft.symm

theorem Linked.readLeft {j : κ} (h : Linked (.read j :: p) q c (k :: d)) : Linked p q c d :=
  h.symm.readRight.symm

/-- **The unread items are the next ones to be read**, in order. -/
theorem Linked.prefix_right (h : Linked p q c d) : c <+: reads q :=
  ⟨writes p, h.right.symm⟩

theorem Linked.prefix_left (h : Linked p q c d) : d <+: reads p :=
  ⟨writes q, h.left.symm⟩

/-- **An item is read as what it is.**  The item at the front of the channel is
of the kind the reader is about to read. -/
theorem Linked.head_eq {j : κ} (h : Linked p (.read j :: q) (k :: c) d) : k = j := by
  have hr := h.right
  rw [reads_read, List.cons_append] at hr
  exact (List.cons.inj hr).1.symm

/-- **Reads lag behind writes.**  Of each kind, a party has at least as many left
to read as the other has left to write. -/
theorem Linked.count_le [DecidableEq κ] (h : Linked p q c d) (k : κ) :
    (writes p).count k ≤ (reads q).count k := by
  rw [h.right, List.count_append]
  exact Nat.le_add_left _ _

/-! ## Sessions that never deadlock -/

/-- Two sessions in step: one writes what the other reads, or both write and
then both read. -/
inductive Dual : Session κ → Session κ → Prop
  | done : Dual [] []
  | send {p q : Session κ} (k : κ) : Dual p q → Dual (.write k :: p) (.read k :: q)
  | recv {p q : Session κ} (k : κ) : Dual p q → Dual (.read k :: p) (.write k :: q)
  | swap {p q : Session κ} (j k : κ) : Dual p q →
      Dual (.write j :: .read k :: p) (.write k :: .read j :: q)

theorem Dual.symm (h : Dual p q) : Dual q p := by
  induction h with
  | done => exact .done
  | send k _ ih => exact .recv k ih
  | recv k _ ih => exact .send k ih
  | swap j k _ ih => exact .swap k j ih

/-- Sessions in step, one after the other. -/
theorem Dual.append {p' q' : Session κ} (h : Dual p q) (h' : Dual p' q') :
    Dual (p ++ p') (q ++ q') := by
  induction h with
  | done => exact h'
  | send k _ ih => exact .send k ih
  | recv k _ ih => exact .recv k ih
  | swap j k _ ih => exact .swap j k ih

/-- In-step sessions start balanced, with nothing in flight. -/
theorem Dual.linked (h : Dual p q) : Linked p q [] [] := by
  induction h with
  | done => exact ⟨rfl, rfl⟩
  | send k _ ih => exact ⟨congrArg (k :: ·) ih.right, ih.left⟩
  | recv k _ ih => exact ⟨ih.right, congrArg (k :: ·) ih.left⟩
  | swap j k _ ih => exact ⟨congrArg (j :: ·) ih.right, congrArg (k :: ·) ih.left⟩

/-- A party at a read that the other has already served finds its item in
flight: the other has less left to write than this one has to read. -/
theorem Dual.not_linked_of_behind (h : Dual p q) {p' q' : Session κ} (hp : reads p' = k :: reads p)
    (hq : q' <:+ q) : ¬ Linked p' q' [] [] := by
  intro hl
  have hlen : (reads p').length ≤ (writes q).length := by
    rw [hl.left, List.nil_append]
    exact length_writes_le hq
  rw [hp, h.linked.left, List.nil_append, List.length_cons] at hlen
  omega

/-- **Two parties in step are never both waiting.**  Wherever the two have come
in their sessions, they are not both at a read with nothing in flight. -/
theorem Dual.not_both_reading {P Q : Session κ} (h : Dual P Q) {j k : κ} {p q : Session κ}
    (hp : .read j :: p <:+ P) (hq : .read k :: q <:+ Q) :
    ¬ Linked (.read j :: p) (.read k :: q) [] [] := by
  induction h with
  | done => exact absurd (List.suffix_nil.mp hp) (by simp)
  | @send P Q i hPQ ih =>
    rcases List.suffix_cons_iff.mp hp with heq | hp'
    · exact absurd heq (by simp)
    · rcases List.suffix_cons_iff.mp hq with heq | hq'
      · obtain ⟨hik, hqQ⟩ := List.cons.inj heq
        intro hl
        refine hPQ.symm.not_linked_of_behind (k := k) ?_ hp' hl.symm
        rw [reads_read, hqQ]
      · exact ih hp' hq'
  | @recv P Q i hPQ ih =>
    rcases List.suffix_cons_iff.mp hq with heq | hq'
    · exact absurd heq (by simp)
    · rcases List.suffix_cons_iff.mp hp with heq | hp'
      · obtain ⟨hij, hpP⟩ := List.cons.inj heq
        refine hPQ.not_linked_of_behind (k := j) ?_ hq'
        rw [reads_read, hpP]
      · exact ih hp' hq'
  | @swap P Q i l hPQ ih =>
    rcases List.suffix_cons_iff.mp hp with heq | hp₁
    · exact absurd heq (by simp)
    rcases List.suffix_cons_iff.mp hq with heq | hq₁
    · exact absurd heq (by simp)
    rcases List.suffix_cons_iff.mp hp₁ with heq | hp'
    · obtain ⟨hjl, hpP⟩ := List.cons.inj heq
      have hreads : reads (.read j :: p) = j :: reads P := by rw [reads_read, hpP]
      rcases List.suffix_cons_iff.mp hq₁ with heq' | hq'
      · -- both have written and wait for the other's half of the rendezvous
        obtain ⟨hki, hqQ⟩ := List.cons.inj heq'
        intro hl
        have hleft := hl.left
        rw [hreads, writes_read, hqQ, hPQ.linked.left] at hleft
        simpa using congrArg List.length hleft
      · exact hPQ.not_linked_of_behind hreads hq'
    · rcases List.suffix_cons_iff.mp hq₁ with heq' | hq'
      · obtain ⟨hki, hqQ⟩ := List.cons.inj heq'
        intro hl
        refine hPQ.symm.not_linked_of_behind (k := k) ?_ hp' hl.symm
        rw [reads_read, hqQ]
      · exact ih hp' hq'

end Session
end Automaton
end RdmaBench
