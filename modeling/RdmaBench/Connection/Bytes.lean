import RdmaBench.Connection.Duo
import RdmaBench.Connection.Framing

/-!
# Two programs over two byte streams

`Duo` puts two programs on two channels of items.  What the processes really have
is a TCP stream in each direction: bytes written at one end, handed over in pieces
of any size, and read at the other through a `BufReader` by whoever asks for a line
or for a byte.  `Talk` is that system.  Every read and write is one of `Conn`'s, the
network cuts the stream where it likes, and a party that fails closes its end, so
that the other's next read may find the end of the stream.

## What a channel of items stands for

`Carried` is the relation between the two: the bytes that a party has still to take,
in its buffer, in pieces that have arrived and on their way, are the bytes of the
items it has still to obtain.  A read takes exactly one item's bytes, provided it
asks for that item; this is where the sessions come in, since nothing on the stream
says what it is.  So `Talk` refines `Duo` (`talk_refines`), and everything that is
known of two programs in step holds of the bytes.
-/

namespace RdmaBench
namespace Framing

open Automaton Session Streams

/-- The message types of the protocol. -/
inductive Message where
  | benchmarkRequest
  | handshakeAck
  | clientEndpoint
  | remoteBufferInfo
  | accuracyReport
  | resultRow
  deriving DecidableEq

def Message.item : Message → Item
  | .benchmarkRequest => .benchmarkRequest
  | .handshakeAck => .handshakeAck
  | .clientEndpoint => .clientEndpoint
  | .remoteBufferInfo => .remoteBufferInfo
  | .accuracyReport => .accuracyReport
  | .resultRow => .resultRow

variable {M : Message → Type} {E : Type} {σ τ : Type}

/-- What kind of item a party asks for. -/
def Wanted.item : Wanted Message → Item
  | .message k => k.item
  | .barrier => .barrier

def Sent.item (x : Sent M) : Item := x.wanted.item

theorem Message.item_injective : Function.Injective Message.item := by
  intro j k h
  cases j <;> cases k <;> first | rfl | exact absurd h (by decide)

theorem Message.item_ne_barrier (k : Message) : k.item ≠ .barrier := by
  cases k <;> decide

theorem Wanted.item_injective : Function.Injective Wanted.item := by
  intro v w h
  cases v with
  | message j =>
    cases w with
    | message k => exact congrArg Wanted.message (Message.item_injective h)
    | barrier => exact absurd h (Message.item_ne_barrier j)
  | barrier =>
    cases w with
    | message k => exact absurd h.symm (Message.item_ne_barrier k)
    | barrier => rfl

/-! ## The two halves of a `sync`, and of an exchange -/

/-- A `send_msg`, or the write of a `sync`. -/
def Conn.emit (J : Json Message M E) (taken : Bool) : Sent M → Conn → Except (Error E) Unit × Conn
  | .message k msg, c => c.sendMsg J taken k msg
  | .barrier, c => c.writeAll taken [0]

/-- A `recv_msg`, or the read of a `sync`. -/
def Conn.take (J : Json Message M E) : Wanted Message → Conn → Except (Error E) (Sent M) × Conn
  | .message k, c =>
    match c.recvMsg J k with
    | (.ok msg, c) => (.ok (.message k msg), c)
    | (.error e, c) => (.error e, c)
  | .barrier, c =>
    match c.reader.readOne with
    | (none, reader) =>
      (.error (.unexpectedEof "failed to fill whole buffer"), { c with reader := reader })
    | (some _, reader) => (.ok .barrier, { c with reader := reader })

/-- **A `sync` is its write and then its read.** -/
theorem Conn.sync_eq (J : Json Message M E) (taken : Bool) (c : Conn) :
    c.sync (E := E) taken =
      match c.emit J taken .barrier with
      | (.error e, c) => (.error e, c)
      | (.ok (), c) =>
        match c.take J .barrier with
        | (.error e, c) => (.error e, c)
        | (.ok _, c) => (.ok (), c) := by
  rw [Conn.sync, Conn.emit]
  rcases c.writeAll (E := E) taken [0] with ⟨r, d⟩
  cases r with
  | error e => rfl
  | ok u =>
    dsimp only [Conn.take]
    rcases d.reader.readOne with ⟨b, reader⟩
    cases b <;> rfl

/-- Bytes arrive in one piece. -/
def Conn.arrive (piece : List UInt8) (c : Conn) : Conn :=
  { c with reader := { c.reader with stream := c.reader.stream ++ [piece] } }

/-! ## One party -/

/-- A party: its program, its end of the connection, and what has gone through
it. -/
structure Party (σ : Type) (M : Message → Type) where
  ctl : σ
  conn : Conn := ⟨[], ⟨[], []⟩⟩
  /-- How many of the other party's bytes have arrived. -/
  arrived : ℕ := 0
  failed : Bool := false
  sent : List (Sent M) := []
  got : List (Sent M) := []

inductive PartyAct (M : Message → Type) where
  /-- `taken` is whether the socket takes the bytes. -/
  | send (taken : Bool) (item : Sent M)
  | receive (want : Wanted Message)
  /-- Any other contact. -/
  | act (a : Act)
  /-- The next `n` bytes arrive. -/
  | arrive (n : ℕ)
  | fail

/-- Whether a party has closed its end: it has failed or has returned. -/
def Party.closed (ended : σ → Bool) (s : Party σ M) : Bool := s.failed || ended s.ctl

/-- Whether a read returns instead of blocking: what ends it is there, or nothing
more will come. -/
def Wanted.Ready (want : Wanted Message) (r : Reader UInt8) (atEnd : Bool) : Prop :=
  match want with
  | .message _ => newline ∈ r.rest ∨ atEnd = true
  | .barrier => r.rest ≠ [] ∨ atEnd = true

instance (want : Wanted Message) (r : Reader UInt8) (atEnd : Bool) :
    Decidable (want.Ready r atEnd) := by
  unfold Wanted.Ready
  cases want <;> infer_instance

/-- One step of a party.  `unread` are the other's bytes that have not arrived, and
`closed` is whether the other has closed its end. -/
def Party.step (J : Json Message M E) (P : Program σ) (ended : σ → Bool) (unread : List UInt8)
    (closed : Bool) (s : Party σ M) : PartyAct M → Option (Party σ M)
  | .arrive n =>
    if 0 < n ∧ n ≤ unread.length then
      some { s with conn := s.conn.arrive (unread.take n), arrived := s.arrived + n }
    else none
  | .send taken item =>
    if s.closed ended then none
    else (P.step s.ctl (.write item.item)).map fun c =>
      match s.conn.emit J taken item with
      | (.ok (), conn) => { s with ctl := c, conn := conn, sent := s.sent ++ [item] }
      | (.error _, conn) => { s with conn := conn, failed := true }
  | .receive want =>
    if s.closed ended then none
    else if want.Ready s.conn.reader (closed && unread.isEmpty) then
      (P.step s.ctl (.read want.item)).map fun c =>
        match s.conn.take J want with
        | (.ok item, conn) => { s with ctl := c, conn := conn, got := s.got ++ [item] }
        | (.error _, conn) => { s with conn := conn, failed := true }
    else none
  | .act a =>
    if s.closed ended then none
    else if a.session = [] then (P.step s.ctl a).map fun c => { s with ctl := c }
    else none
  | .fail => if s.closed ended then none else some { s with failed := true }

/-- One step of a party, by what comes of it. -/
inductive PartyMove (J : Json Message M E) (P : Program σ) (ended : σ → Bool)
    (unread : List UInt8) (closed : Bool) (s : Party σ M) : Party σ M → Prop
  | arrive {n : ℕ} (hpos : 0 < n) (hle : n ≤ unread.length) :
      PartyMove J P ended unread closed s
        { s with conn := s.conn.arrive (unread.take n), arrived := s.arrived + n }
  | send {taken : Bool} {item : Sent M} {c : σ} {conn : Conn} (hopen : s.closed ended = false)
      (hc : P.step s.ctl (.write item.item) = some c)
      (hemit : s.conn.emit J taken item = (.ok (), conn)) :
      PartyMove J P ended unread closed s
        { s with ctl := c, conn := conn, sent := s.sent ++ [item] }
  | receive {want : Wanted Message} {item : Sent M} {c : σ} {conn : Conn}
      (hopen : s.closed ended = false)
      (hready : want.Ready s.conn.reader (closed && unread.isEmpty))
      (hc : P.step s.ctl (.read want.item) = some c)
      (htake : s.conn.take J want = (.ok item, conn)) :
      PartyMove J P ended unread closed s
        { s with ctl := c, conn := conn, got := s.got ++ [item] }
  | act {a : Act} {c : σ} (hopen : s.closed ended = false) (ha : a.session = [])
      (hc : P.step s.ctl a = some c) : PartyMove J P ended unread closed s { s with ctl := c }
  /-- A failure, of its own or of a write. -/
  | fail (hopen : s.closed ended = false) :
      PartyMove J P ended unread closed s { s with failed := true }
  /-- A read has failed. -/
  | readFails {want : Wanted Message} {c : σ} {conn : Conn} {e : Error E}
      (hopen : s.closed ended = false)
      (hready : want.Ready s.conn.reader (closed && unread.isEmpty))
      (hc : P.step s.ctl (.read want.item) = some c)
      (htake : s.conn.take J want = (.error e, conn)) :
      PartyMove J P ended unread closed s { s with conn := conn, failed := true }

/-- A write that fails leaves the connection as it was. -/
theorem Conn.emit_error {J : Json Message M E} {taken : Bool} {item : Sent M} {c d : Conn}
    {e : Error E} (h : c.emit J taken item = (.error e, d)) : d = c := by
  cases item with
  | message k msg =>
    rw [Conn.emit, Conn.sendMsg] at h
    split at h
    · exact (congrArg Prod.snd h).symm
    · rw [Conn.writeAll] at h
      split at h
      · exact absurd (congrArg Prod.fst h) (by simp)
      · exact (congrArg Prod.snd h).symm
  | barrier =>
    rw [Conn.emit, Conn.writeAll] at h
    split at h
    · exact absurd (congrArg Prod.fst h) (by simp)
    · exact (congrArg Prod.snd h).symm

/-- **Every step is one of the moves.** -/
theorem PartyMove.of_step {J : Json Message M E} {P : Program σ} {ended : σ → Bool}
    {unread : List UInt8} {closed : Bool} {s t : Party σ M} {a : PartyAct M}
    (h : s.step J P ended unread closed a = some t) : PartyMove J P ended unread closed s t := by
  cases a with
  | arrive n =>
    obtain ⟨hn, h⟩ := Option.ite_none_right_eq_some.mp h
    rw [← Option.some.inj h]
    exact .arrive hn.1 hn.2
  | send taken item =>
    obtain ⟨hopen, h⟩ := Option.ite_none_left_eq_some.mp h
    obtain ⟨c, hc, h⟩ := Option.map_eq_some_iff.mp h
    rw [← h]
    rcases hemit : s.conn.emit J taken item with ⟨_ | _, conn⟩
    · rw [Conn.emit_error hemit]
      exact .fail (Bool.eq_false_iff.mpr hopen)
    · exact .send (Bool.eq_false_iff.mpr hopen) hc hemit
  | receive want =>
    obtain ⟨hopen, h⟩ := Option.ite_none_left_eq_some.mp h
    obtain ⟨hready, h⟩ := Option.ite_none_right_eq_some.mp h
    obtain ⟨c, hc, h⟩ := Option.map_eq_some_iff.mp h
    rw [← h]
    rcases htake : s.conn.take J want with ⟨_ | _, conn⟩
    · exact .readFails (Bool.eq_false_iff.mpr hopen) hready hc htake
    · exact .receive (Bool.eq_false_iff.mpr hopen) hready hc htake
  | act a =>
    obtain ⟨hopen, h⟩ := Option.ite_none_left_eq_some.mp h
    obtain ⟨ha, h⟩ := Option.ite_none_right_eq_some.mp h
    obtain ⟨c, hc, h⟩ := Option.map_eq_some_iff.mp h
    rw [← h]
    exact .act (Bool.eq_false_iff.mpr hopen) ha hc
  | fail =>
    obtain ⟨hopen, h⟩ := Option.ite_none_left_eq_some.mp h
    rw [← Option.some.inj h]
    exact .fail (Bool.eq_false_iff.mpr hopen)

/-! ## One direction of the stream -/

/-- What `w` has sent and `r` has not obtained. -/
def pending (w : Party σ M) (r : Party τ M) : List (Sent M) := w.sent.drop r.got.length

/-- What holds of what `w` writes and `r` reads. -/
structure Carried (J : Json Message M E) (w : Party σ M) (r : Party τ M) : Prop where
  /-- What has been obtained is the front of what was sent. -/
  got : r.got <+: w.sent
  arrived_le : r.arrived ≤ w.conn.written.length
  /-- The bytes still to be taken are those of the items still to be obtained. -/
  bytes : r.failed = false → bytesOf J (pending w r) =
    .ok (r.conn.reader.rest ++ w.conn.written.drop r.arrived)
  live : r.failed = false → r.conn.reader.Live

theorem bytesOf_append {J : Json Message M E} {xs ys : List (Sent M)} {a b : List UInt8}
    (hx : bytesOf J xs = .ok a) (hy : bytesOf J ys = .ok b) :
    bytesOf J (xs ++ ys) = .ok (a ++ b) := by
  induction xs generalizing a with
  | nil =>
    rw [← Except.ok.inj hx]
    exact hy
  | cons x xs ih =>
    rw [bytesOf] at hx
    rw [List.cons_append, bytesOf]
    cases hfront : x.bytes J with
    | error e =>
      rw [hfront] at hx
      exact absurd hx (by simp [bind, Except.bind])
    | ok front =>
      cases hback : bytesOf J xs with
      | error e =>
        rw [hfront, hback] at hx
        exact absurd hx (by simp [bind, Except.bind])
      | ok back =>
        rw [hfront, hback] at hx
        rw [ih hback, ← Except.ok.inj hx, List.append_assoc]
        rfl

/-- The bytes of a sequence begin with those of its first item. -/
theorem bytesOf_cons {J : Json Message M E} {x : Sent M} {xs : List (Sent M)} {bytes : List UInt8}
    (h : bytesOf J (x :: xs) = .ok bytes) :
    ∃ front back, x.bytes J = .ok front ∧ bytesOf J xs = .ok back ∧ bytes = front ++ back := by
  rw [bytesOf] at h
  cases hfront : x.bytes J with
  | error e =>
    rw [hfront] at h
    exact absurd h (by simp [bind, Except.bind])
  | ok front =>
    cases hback : bytesOf J xs with
    | error e =>
      rw [hfront, hback] at h
      exact absurd h (by simp [bind, Except.bind])
    | ok back =>
      rw [hfront, hback] at h
      exact ⟨front, back, rfl, rfl, (Except.ok.inj h).symm⟩

/-- A write that succeeds puts the item's bytes at the end of the stream. -/
theorem Conn.emit_ok {J : Json Message M E} {taken : Bool} {item : Sent M} {c d : Conn}
    (h : c.emit J taken item = (.ok (), d)) :
    ∃ bytes, item.bytes J = .ok bytes ∧ d.written = c.written ++ bytes ∧ d.reader = c.reader := by
  have hwrite : ∀ bytes, c.writeAll (E := E) taken bytes = (.ok (), d) →
      d.written = c.written ++ bytes ∧ d.reader = c.reader := by
    intro bytes h
    rw [Conn.writeAll] at h
    split at h
    · obtain rfl := (Prod.ext_iff.mp h).2
      exact ⟨rfl, rfl⟩
    · exact absurd (congrArg Prod.fst h) (by simp)
  cases item with
  | message k msg =>
    rw [Conn.emit, Conn.sendMsg] at h
    split at h
    · exact absurd (congrArg Prod.fst h) (by simp)
    · next line hline =>
      obtain ⟨hwritten, hreader⟩ := hwrite _ h
      refine ⟨_, ?_, hwritten, hreader⟩
      rw [Sent.bytes, hline]
      rfl
  | barrier =>
    obtain ⟨hwritten, hreader⟩ := hwrite _ h
    exact ⟨[0], rfl, hwritten, hreader⟩

/-- A read leaves what was written. -/
theorem Conn.written_take {J : Json Message M E} {want : Wanted Message} {c d : Conn}
    {r : Except (Error E) (Sent M)} (h : c.take J want = (r, d)) : d.written = c.written := by
  obtain rfl : (c.take J want).2 = d := congrArg Prod.snd h
  cases want with
  | message k =>
    have hrecv := written_recvMsg J k c
    rw [Conn.take]
    rcases hres : c.recvMsg J k with ⟨_ | _, d⟩ <;>
      · rw [hres] at hrecv
        exact hrecv
  | barrier =>
    rw [Conn.take]
    rcases c.reader.readOne with ⟨_ | _, reader⟩ <;> rfl

/-- A read obtains what it asks for, or nothing. -/
theorem Conn.wanted_of_take {J : Json Message M E} {want : Wanted Message} {c d : Conn}
    {item : Sent M} (h : c.take J want = (.ok item, d)) : item.wanted = want := by
  cases want with
  | message k =>
    rw [Conn.take] at h
    rcases hres : c.recvMsg J k with ⟨_ | _, conn⟩
    · rw [hres] at h
      exact absurd (congrArg Prod.fst h) (by simp)
    · rw [hres] at h
      rw [← Except.ok.inj (congrArg Prod.fst h)]
      rfl
  | barrier =>
    rw [Conn.take] at h
    rcases hres : c.reader.readOne with ⟨_ | _, reader⟩
    · rw [hres] at h
      exact absurd (congrArg Prod.fst h) (by simp)
    · rw [hres] at h
      rw [← Except.ok.inj (congrArg Prod.fst h)]
      rfl

/-- **A read that asks for the item obtains it**, and takes its bytes. -/
theorem Conn.take_of_rest {J : Json Message M E} (hJ : J.Faithful) {c : Conn}
    (hlive : c.reader.Live) {item : Sent M} {front more : List UInt8}
    (hfront : item.bytes J = .ok front) (hrest : c.reader.rest = front ++ more) :
    ∃ d : Conn, c.take J item.wanted = (.ok item, d) ∧ d.reader.rest = more ∧ d.reader.Live := by
  cases item with
  | message k msg =>
    rw [Sent.bytes] at hfront
    cases hline : J.toString k msg with
    | error e =>
      rw [hline] at hfront
      exact absurd hfront (by simp [Except.map])
    | ok line =>
      rw [hline] at hfront
      rw [← Except.ok.inj hfront] at hrest
      obtain ⟨d, hrecv, hmore, hlive'⟩ := Conn.recvMsg_of_rest hJ hlive hline hrest
      exact ⟨d, by rw [Sent.wanted, Conn.take, hrecv], hmore, hlive'⟩
  | barrier =>
    rw [← Except.ok.inj hfront] at hrest
    obtain ⟨reader, hread, hmore, hlive'⟩ := Reader.readOne_of_rest hlive hrest
    exact ⟨{ c with reader := reader }, by rw [Sent.wanted, Conn.take, hread], hmore, hlive'⟩

/-- At the end of the stream every read fails. -/
theorem Conn.take_of_end (J : Json Message M E) (want : Wanted Message) {c : Conn}
    (hlive : c.reader.Live) (hrest : c.reader.rest = []) :
    ∃ e, (c.take J want).1 = .error e := by
  cases want with
  | message k =>
    have hrecv := Conn.recvMsg_of_end J k hlive hrest
    rw [Conn.take]
    rcases hres : c.recvMsg J k with ⟨_ | _, d⟩
    · exact ⟨_, rfl⟩
    · rw [hres] at hrecv
      exact absurd hrecv (by simp)
  | barrier =>
    rw [Conn.take, Reader.readOne_of_end hlive hrest]
    exact ⟨_, rfl⟩

/-- A read that does not block has the whole of its item at hand. -/
theorem Wanted.Ready.front {J : Json Message M E} (hJ : J.Faithful) {r : Reader UInt8}
    {atEnd : Bool} {item : Sent M} {front more unread : List UInt8}
    (h : item.wanted.Ready r atEnd) (hend : atEnd = true → unread = [])
    (hfront : item.bytes J = .ok front) (hbytes : r.rest ++ unread = front ++ more) :
    ∃ more', r.rest = front ++ more' ∧ more = more' ++ unread := by
  have hall : atEnd = true → ∃ more', r.rest = front ++ more' ∧ more = more' ++ unread := by
    intro hatEnd
    rw [hend hatEnd, List.append_nil] at hbytes
    exact ⟨more, hbytes, by rw [hend hatEnd, List.append_nil]⟩
  cases item with
  | message k msg =>
    rcases h with hmem | hatEnd
    · rw [Sent.bytes] at hfront
      cases hline : J.toString k msg with
      | error e =>
        rw [hline] at hfront
        exact absurd hfront (by simp [Except.map])
      | ok line =>
        rw [hline] at hfront
        obtain rfl : asBytes (line.push '\n') = front := Except.ok.inj hfront
        rw [asBytes_push_newline] at hbytes ⊢
        rw [List.append_assoc, List.singleton_append] at hbytes
        rcases Reader.line_cases hbytes with ⟨after, hcut, -⟩ | ⟨after, hrest, hmore⟩
        · have hnot := hJ.no_newline hline
          rw [hcut, List.mem_append, not_or] at hnot
          exact absurd hmem hnot.1
        · exact ⟨after, by rw [hrest, List.append_assoc]; rfl, hmore⟩
    · exact hall hatEnd
  | barrier =>
    rcases h with hne | hatEnd
    · obtain ⟨b, after, hrest⟩ := List.exists_cons_of_ne_nil hne
      rw [← Except.ok.inj hfront, hrest] at hbytes
      obtain ⟨rfl, hmore⟩ := List.cons_eq_cons.mp hbytes
      exact ⟨after, by rw [← Except.ok.inj hfront, hrest]; rfl, hmore.symm⟩
    · exact hall hatEnd

section Carried

variable {J : Json Message M E} {P : Program σ} {ended : σ → Bool} {unread : List UInt8}
  {closed : Bool} {w v : Party σ M} {r t : Party τ M}

theorem Carried.length_got_le (h : Carried J w r) : r.got.length ≤ w.sent.length :=
  h.got.length_le

theorem Carried.sent_eq (h : Carried J w r) : r.got ++ pending w r = w.sent := by
  obtain ⟨rest, hrest⟩ := h.got
  rw [pending, ← hrest, List.drop_left]

/-- A write that succeeds adds its item. -/
theorem Carried.send (h : Carried J w r) {taken : Bool} {item : Sent M} {c : σ} {conn : Conn}
    (hemit : w.conn.emit J taken item = (.ok (), conn)) :
    Carried J { w with ctl := c, conn := conn, sent := w.sent ++ [item] } r ∧
      pending { w with ctl := c, conn := conn, sent := w.sent ++ [item] } r =
        pending w r ++ [item] := by
  obtain ⟨bytes, hbytes, hwritten, -⟩ := Conn.emit_ok hemit
  have hpending : (w.sent ++ [item]).drop r.got.length = pending w r ++ [item] :=
    List.drop_append_of_le_length h.length_got_le
  have hle := h.arrived_le
  refine ⟨⟨h.got.trans (List.prefix_append _ _), ?_, fun hr => ?_, h.live⟩, hpending⟩
  · rw [hwritten, List.length_append]
    exact Nat.le_add_right_of_le hle
  · have hone : bytesOf J [item] = .ok bytes := by
      rw [bytesOf, hbytes]
      exact congrArg Except.ok (List.append_nil bytes)
    dsimp only
    rw [pending, hpending, bytesOf_append (h.bytes hr) hone, hwritten,
      List.drop_append_of_le_length hle, List.append_assoc]

/-- A read that does not block obtains the next item, if it asks for it. -/
theorem Carried.take (hJ : J.Faithful) (h : Carried J w r) (hr : r.failed = false)
    {item : Sent M} {rest : List (Sent M)} (hpending : pending w r = item :: rest)
    (hready : item.wanted.Ready r.conn.reader
      (closed && (w.conn.written.drop r.arrived).isEmpty)) {c : τ} :
    ∃ conn, r.conn.take J item.wanted = (.ok item, conn) ∧
      Carried J w { r with ctl := c, conn := conn, got := r.got ++ [item] } ∧
      pending w { r with ctl := c, conn := conn, got := r.got ++ [item] } = rest := by
  have hbytes := h.bytes hr
  rw [hpending] at hbytes
  obtain ⟨front, back, hfront, hback, heq⟩ := bytesOf_cons hbytes
  obtain ⟨more, hrest, hmore⟩ := hready.front hJ
    (fun hend => List.isEmpty_iff.mp (Bool.and_eq_true_iff.mp hend).2) hfront heq
  obtain ⟨conn, htake, hconn, hlive⟩ := Conn.take_of_rest hJ (h.live hr) hfront hrest
  have hsent : w.sent = (r.got ++ [item]) ++ rest := by
    rw [← h.sent_eq, hpending, List.append_assoc]
    rfl
  have hdrop : w.sent.drop (r.got ++ [item]).length = rest := by rw [hsent, List.drop_left]
  refine ⟨conn, htake, ⟨⟨rest, hsent.symm⟩, h.arrived_le, fun _ => ?_, fun _ => hlive⟩, hdrop⟩
  dsimp only
  rw [pending, hdrop, hback, hmore, hconn]

/-- When everything has been obtained, a read finds the end of the stream. -/
theorem Carried.take_of_nil (h : Carried J w r) (hr : r.failed = false)
    (hpending : pending w r = []) (want : Wanted Message) :
    ∃ e, (r.conn.take J want).1 = .error e := by
  have hbytes := h.bytes hr
  rw [hpending] at hbytes
  have hnil := (Except.ok.inj hbytes).symm
  exact Conn.take_of_end J want (h.live hr) (List.append_eq_nil_iff.mp hnil).1

/-- What else a writer does is nothing to the reader. -/
theorem Carried.of_writer (h : Carried J w r) (hsent : v.sent = w.sent)
    (hwritten : v.conn.written = w.conn.written) :
    Carried J v r ∧ pending v r = pending w r := by
  have hpending : pending v r = pending w r := by rw [pending, hsent, pending]
  refine ⟨⟨hsent ▸ h.got, hwritten ▸ h.arrived_le, fun hr => ?_, h.live⟩, hpending⟩
  rw [hpending, hwritten]
  exact h.bytes hr

/-- And what else a reader does, as long as it leaves its buffer alone or has
failed. -/
theorem Carried.of_reader (h : Carried J w r) (hgot : t.got = r.got)
    (harrived : t.arrived = r.arrived)
    (hreader : t.failed = false → r.failed = false ∧ t.conn.reader = r.conn.reader) :
    Carried J w t ∧ pending w t = pending w r := by
  have hpending : pending w t = pending w r := by rw [pending, hgot, pending]
  refine ⟨⟨hgot ▸ h.got, harrived ▸ h.arrived_le, fun hr => ?_, fun hr => ?_⟩, hpending⟩
  · obtain ⟨hfailed, heq⟩ := hreader hr
    rw [hpending, harrived, heq]
    exact h.bytes hfailed
  · obtain ⟨hfailed, heq⟩ := hreader hr
    rw [heq]
    exact h.live hfailed

/-- A piece that arrives is no longer on its way. -/
theorem Carried.arrive (h : Carried J w r) {n : ℕ} (hpos : 0 < n)
    (hle : n ≤ (w.conn.written.drop r.arrived).length) :
    Carried J w { r with
        conn := r.conn.arrive ((w.conn.written.drop r.arrived).take n)
        arrived := r.arrived + n } ∧
      pending w { r with
        conn := r.conn.arrive ((w.conn.written.drop r.arrived).take n)
        arrived := r.arrived + n } = pending w r := by
  have hlen := hle
  rw [List.length_drop] at hlen
  have harrived := h.arrived_le
  refine ⟨⟨h.got, ?_, fun hr => ?_, fun hr piece hmem => ?_⟩, rfl⟩
  · dsimp only
    omega
  · have hrest : (r.conn.arrive ((w.conn.written.drop r.arrived).take n)).reader.rest =
        r.conn.reader.rest ++ (w.conn.written.drop r.arrived).take n := by
      rw [Conn.arrive, Reader.rest, Reader.rest, List.flatten_append, List.flatten_singleton,
        List.append_assoc]
    refine (h.bytes hr).trans (congrArg Except.ok ?_)
    dsimp only
    rw [hrest, List.append_assoc, ← List.drop_drop, List.take_append_drop]
  · rcases List.mem_append.mp hmem with hold | hnew
    · exact h.live hr piece hold
    · rw [List.mem_singleton.mp hnew]
      refine List.ne_nil_of_length_pos ?_
      rw [List.length_take]
      omega

/-- What a move of a party is to the items: nothing, a write, a read, another act of
its program, or a failure. -/
inductive Effect (P : Program σ) (ended : σ → Bool) (w w' : Party σ M) (r : Party τ M) : Prop
  | stay (hctl : w'.ctl = w.ctl) (hfailed : w'.failed = w.failed)
      (hout : pending w' r = pending w r) (hin : pending r w' = pending r w)
  | write {item : Sent M} (hopen : w.closed ended = false)
      (hc : P.step w.ctl (.write item.item) = some w'.ctl) (hfailed : w'.failed = w.failed)
      (hout : pending w' r = pending w r ++ [item]) (hin : pending r w' = pending r w)
  | read {item : Sent M} (hopen : w.closed ended = false)
      (hc : P.step w.ctl (.read item.item) = some w'.ctl) (hfailed : w'.failed = w.failed)
      (hout : pending w' r = pending w r) (hin : pending r w = item :: pending r w')
  | act {a : Act} (hopen : w.closed ended = false) (ha : a.session = [])
      (hc : P.step w.ctl a = some w'.ctl) (hfailed : w'.failed = w.failed)
      (hout : pending w' r = pending w r) (hin : pending r w' = pending r w)
  | fail (hopen : w.closed ended = false) (hctl : w'.ctl = w.ctl) (hfailed : w'.failed = true)
      (hout : pending w' r = pending w r) (hin : pending r w' = pending r w)

/-- The program of a party asks for the item that comes next. -/
def Aligned (P : Program σ) (r : Party τ M) (w : Party σ M) : Prop :=
  ∀ x rest, pending r w = x :: rest → ∀ want c,
    P.step w.ctl (.read (Wanted.item want)) = some c → want = x.wanted

/-- **A move of a party**, on the bytes and on the items. -/
theorem PartyMove.effect (hJ : J.Faithful) {w w' : Party σ M} {r : Party τ M}
    (hout : Carried J w r) (hin : Carried J r w) (hal : Aligned P r w)
    (hmove : PartyMove J P ended (r.conn.written.drop w.arrived) closed w w') :
    Carried J w' r ∧ Carried J r w' ∧ Effect P ended w w' r := by
  cases hmove with
  | @arrive n hpos hle =>
    obtain ⟨hout', hsame⟩ := hout.of_writer (v := { w with
      conn := w.conn.arrive ((r.conn.written.drop w.arrived).take n)
      arrived := w.arrived + n }) rfl rfl
    obtain ⟨hin', hsame'⟩ := hin.arrive hpos hle
    exact ⟨hout', hin', .stay rfl rfl hsame hsame'⟩
  | @send taken item c conn hopen hc hemit =>
    obtain ⟨-, -, -, hreader⟩ := Conn.emit_ok hemit
    obtain ⟨hout', hmore⟩ := hout.send (c := c) hemit
    obtain ⟨hin', hsame⟩ := hin.of_reader (t := { w with
      ctl := c, conn := conn, sent := w.sent ++ [item] }) rfl rfl fun hw => ⟨hw, hreader⟩
    exact ⟨hout', hin', .write hopen hc rfl hmore hsame⟩
  | @receive want item c conn hopen hready hc htake =>
    have hfailed : w.failed = false := (Bool.or_eq_false_iff.mp hopen).1
    obtain ⟨hout', hsame⟩ := hout.of_writer (v := { w with
      ctl := c, conn := conn, got := w.got ++ [item] }) rfl (Conn.written_take htake)
    cases hnext : pending r w with
    | nil =>
      obtain ⟨e, he⟩ := hin.take_of_nil hfailed hnext want
      rw [htake] at he
      exact absurd he (by simp)
    | cons x rest =>
      obtain rfl := hal x rest hnext want c hc
      obtain ⟨conn', htake', hin', hrest⟩ := hin.take hJ hfailed hnext hready (c := c)
      obtain ⟨hx, rfl⟩ := Prod.ext_iff.mp (htake'.symm.trans htake)
      obtain rfl := Except.ok.inj hx
      exact ⟨hout', hin', .read hopen hc rfl hsame (hnext.trans (congrArg _ hrest.symm))⟩
  | @act a c hopen ha hc =>
    obtain ⟨hout', hsame⟩ := hout.of_writer (v := { w with ctl := c }) rfl rfl
    obtain ⟨hin', hsame'⟩ := hin.of_reader (t := { w with ctl := c }) rfl rfl
      fun hw => ⟨hw, rfl⟩
    exact ⟨hout', hin', .act hopen ha hc rfl hsame hsame'⟩
  | fail hopen =>
    obtain ⟨hout', hsame⟩ := hout.of_writer (v := { w with failed := true }) rfl rfl
    obtain ⟨hin', hsame'⟩ := hin.of_reader (t := { w with failed := true }) rfl rfl
      fun hw => absurd hw Bool.noConfusion
    exact ⟨hout', hin', .fail hopen rfl rfl hsame hsame'⟩
  | @readFails want c conn e hopen hready hc htake =>
    obtain ⟨hout', hsame⟩ := hout.of_writer (v := { w with conn := conn, failed := true }) rfl
      (Conn.written_take htake)
    obtain ⟨hin', hsame'⟩ := hin.of_reader (t := { w with conn := conn, failed := true }) rfl rfl
      fun hw => absurd hw Bool.noConfusion
    exact ⟨hout', hin', .fail hopen rfl rfl hsame hsame'⟩

/-- **A read fails only at the end of the stream**: when the other has closed its end
and everything it sent has been obtained. -/
theorem Carried.of_receive (hJ : J.Faithful) {w : Party σ M} {r r' : Party τ M}
    (h : Carried J w r) {Q : Program τ} {ended : τ → Bool} (hal : Aligned Q w r)
    {want : Wanted Message}
    (hstep : r.step J Q ended (w.conn.written.drop r.arrived) closed (.receive want) = some r')
    (hfail : r'.failed = true) : closed = true ∧ r.got = w.sent := by
  obtain ⟨hopen, hstep⟩ := Option.ite_none_left_eq_some.mp hstep
  obtain ⟨hready, hstep⟩ := Option.ite_none_right_eq_some.mp hstep
  obtain ⟨c, hc, hstep⟩ := Option.map_eq_some_iff.mp hstep
  have hr : r.failed = false := (Bool.or_eq_false_iff.mp (Bool.eq_false_iff.mpr hopen)).1
  cases hnext : pending w r with
  | cons x rest =>
    obtain rfl := hal x rest hnext want c hc
    obtain ⟨conn, htake, -⟩ := h.take hJ hr hnext hready (c := c)
    rw [htake] at hstep
    rw [← hstep, hr] at hfail
    exact absurd hfail Bool.noConfusion
  | nil =>
    have hsent := h.sent_eq
    rw [hnext, List.append_nil] at hsent
    refine ⟨?_, hsent⟩
    have hbytes := h.bytes hr
    rw [hnext] at hbytes
    have hrest := (List.append_eq_nil_iff.mp (Except.ok.inj hbytes).symm).1
    cases want with
    | message k =>
      rcases hready with hmem | hend
      · exact absurd (hrest ▸ hmem) List.not_mem_nil
      · exact (Bool.and_eq_true_iff.mp hend).1
    | barrier =>
      rcases hready with hne | hend
      · exact absurd hrest hne
      · exact (Bool.and_eq_true_iff.mp hend).1

end Carried

/-! ## Both parties -/

/-- Two parties on one connection. -/
structure Talk (σ τ : Type) (M : Message → Type) where
  client : Party σ M
  server : Party τ M

inductive TalkLabel (M : Message → Type) where
  | client (a : PartyAct M)
  | server (a : PartyAct M)

section Talk

variable (J : Json Message M E) (C : Program σ) (S : Program τ) (endC : σ → Bool)
  (endS : τ → Bool)

/-- One step of either party. -/
def talkStep (s : Talk σ τ M) : TalkLabel M → Option (Talk σ τ M)
  | .client a =>
    (s.client.step J C endC (s.server.conn.written.drop s.client.arrived)
      (s.server.closed endS) a).map fun c => { s with client := c }
  | .server a =>
    (s.server.step J S endS (s.client.conn.written.drop s.server.arrived)
      (s.client.closed endC) a).map fun c => { s with server := c }

def talk : System (Talk σ τ M) (TalkLabel M) :=
  ⟨⟨{ ctl := C.init }, { ctl := S.init }⟩, talkStep J C S endC endS⟩

/-- What the bytes stand for: the programs, and the items not yet obtained. -/
def Talk.items (s : Talk σ τ M) : Duo σ τ :=
  ⟨s.client.ctl, s.server.ctl,
    ⟨(pending s.client s.server).map Sent.item, (pending s.server s.client).map Sent.item⟩⟩

/-- Both directions carry what they should. -/
structure Talk.Sound (s : Talk σ τ M) : Prop where
  toServer : Carried J s.client s.server
  toClient : Carried J s.server s.client

/-- What a step is to the items: nothing, a step of either program, or a
failure. -/
inductive Follows (s t : Talk σ τ M) : Prop
  | stay (hitems : t.items = s.items) (hc : t.client.failed = s.client.failed)
      (hs : t.server.failed = s.server.failed)
  | client {a : Act} (hopen : s.client.closed endC = false)
      (hstep : duoStep C S s.items (.client a) = some t.items)
      (hc : t.client.failed = s.client.failed) (hs : t.server.failed = s.server.failed)
  | server {a : Act} (hopen : s.server.closed endS = false)
      (hstep : duoStep C S s.items (.server a) = some t.items)
      (hc : t.client.failed = s.client.failed) (hs : t.server.failed = s.server.failed)
  | clientFails (hopen : s.client.closed endC = false) (hitems : t.items = s.items)
      (hc : t.client.failed = true) (hs : t.server.failed = s.server.failed)
  | serverFails (hopen : s.server.closed endS = false) (hitems : t.items = s.items)
      (hc : t.client.failed = s.client.failed) (hs : t.server.failed = true)

variable {J C S endC endS}

theorem Talk.Sound.client (hJ : J.Faithful) {s : Talk σ τ M} (h : s.Sound J) {c : Party σ M}
    (hal : Aligned C s.server s.client)
    (hmove : PartyMove J C endC (s.server.conn.written.drop s.client.arrived)
      (s.server.closed endS) s.client c) :
    Talk.Sound J { s with client := c } ∧ Follows C S endC endS s { s with client := c } := by
  obtain ⟨hout, hin, heffect⟩ := hmove.effect hJ h.toServer h.toClient hal
  refine ⟨⟨hout, hin⟩, ?_⟩
  cases heffect with
  | stay hctl hfailed hout hin =>
    exact .stay (by rw [Talk.items, Talk.items, hctl, hout, hin]) hfailed rfl
  | @write item hopen hc hfailed hout hin =>
    refine .client (a := .write item.item) hopen ?_ hfailed rfl
    refine (duoStep_client (s := s.items) rfl hc).trans (congrArg some ?_)
    rw [Talk.items, Talk.items, hout, hin, List.map_append]
    rfl
  | @read item hopen hc hfailed hout hin =>
    refine .client (a := .read item.item) hopen ?_ hfailed rfl
    have hwire : s.items.wire.toClient = item.item :: (pending s.server c).map Sent.item :=
      congrArg (List.map Sent.item) hin
    refine (duoStep_client (Wire.client_read hwire) hc).trans (congrArg some ?_)
    rw [Talk.items, Talk.items, hout]
  | @act a hopen ha hc hfailed hout hin =>
    refine .client (a := a) hopen ?_ hfailed rfl
    refine (duoStep_client (s := s.items) (Wire.client_of_session ha) hc).trans (congrArg some ?_)
    rw [Talk.items, Talk.items, hout, hin]
  | fail hopen hctl hfailed hout hin =>
    exact .clientFails hopen (by rw [Talk.items, Talk.items, hctl, hout, hin]) hfailed rfl

theorem Talk.Sound.server (hJ : J.Faithful) {s : Talk σ τ M} (h : s.Sound J) {c : Party τ M}
    (hal : Aligned S s.client s.server)
    (hmove : PartyMove J S endS (s.client.conn.written.drop s.server.arrived)
      (s.client.closed endC) s.server c) :
    Talk.Sound J { s with server := c } ∧ Follows C S endC endS s { s with server := c } := by
  obtain ⟨hout, hin, heffect⟩ := hmove.effect hJ h.toClient h.toServer hal
  refine ⟨⟨hin, hout⟩, ?_⟩
  cases heffect with
  | stay hctl hfailed hout hin =>
    exact .stay (by rw [Talk.items, Talk.items, hctl, hout, hin]) rfl hfailed
  | @write item hopen hc hfailed hout hin =>
    refine .server (a := .write item.item) hopen ?_ rfl hfailed
    refine (duoStep_server (s := s.items) rfl hc).trans (congrArg some ?_)
    rw [Talk.items, Talk.items, hout, hin, List.map_append]
    rfl
  | @read item hopen hc hfailed hout hin =>
    refine .server (a := .read item.item) hopen ?_ rfl hfailed
    have hwire : s.items.wire.toServer = item.item :: (pending s.client c).map Sent.item :=
      congrArg (List.map Sent.item) hin
    refine (duoStep_server (Wire.server_read hwire) hc).trans (congrArg some ?_)
    rw [Talk.items, Talk.items, hout]
  | @act a hopen ha hc hfailed hout hin =>
    refine .server (a := a) hopen ?_ rfl hfailed
    refine (duoStep_server (s := s.items) (Wire.server_of_session ha) hc).trans (congrArg some ?_)
    rw [Talk.items, Talk.items, hout, hin]
  | fail hopen hctl hfailed hout hin =>
    exact .serverFails hopen (by rw [Talk.items, Talk.items, hctl, hout, hin]) rfl hfailed

/-- **A step on the bytes is a step on the items**, or none. -/
theorem Talk.Sound.step (hJ : J.Faithful) {s t : Talk σ τ M} {l : TalkLabel M} (h : s.Sound J)
    (hclient : Aligned C s.server s.client) (hserver : Aligned S s.client s.server)
    (hstep : talkStep J C S endC endS s l = some t) :
    t.Sound J ∧ Follows C S endC endS s t := by
  cases l with
  | client a =>
    obtain ⟨c, hc, rfl⟩ := Option.map_eq_some_iff.mp hstep
    exact h.client hJ hclient (.of_step hc)
  | server a =>
    obtain ⟨c, hc, rfl⟩ := Option.map_eq_some_iff.mp hstep
    exact h.server hJ hserver (.of_step hc)

/-! ## Every run -/

variable {cTodo : σ → Session Item} {sTodo : τ → Session Item} {s : Talk σ τ M}

/-- Programs in step ask for what comes next. -/
theorem aligned_client (hC : Keeps C cTodo) (h : s.items.InStep C S cTodo sTodo) :
    Aligned C s.server s.client := by
  intro x rest hnext want c hc
  have hwire : s.items.wire.toClient = x.item :: rest.map Sent.item :=
    congrArg (List.map Sent.item) hnext
  exact (Wanted.item_injective (h.head_eq_client hC hwire (.here hc))).symm

theorem aligned_server (hS : Keeps S sTodo) (h : s.items.InStep C S cTodo sTodo) :
    Aligned S s.client s.server := by
  intro x rest hnext want c hc
  have hwire : s.items.wire.toServer = x.item :: rest.map Sent.item :=
    congrArg (List.map Sent.item) hnext
  exact (Wanted.item_injective (h.head_eq_server hS hwire (.here hc))).symm

theorem talk_sound_init (J : Json Message M E) (C : Program σ) (S : Program τ) :
    Talk.Sound J (⟨{ ctl := C.init }, { ctl := S.init }⟩ : Talk σ τ M) := by
  have hempty : ∀ piece ∈ ([] : List (List UInt8)), piece ≠ [] := by simp
  exact ⟨⟨List.nil_prefix, Nat.le_refl 0, fun _ => rfl, fun _ => hempty⟩,
    ⟨List.nil_prefix, Nat.le_refl 0, fun _ => rfl, fun _ => hempty⟩⟩

/-- **Two byte streams are two channels of items**, for programs in step: however
the streams are cut and whoever fails, the bytes are those of the items that are
under way, and what the programs do is a run on these. -/
theorem talk_refines (hJ : J.Faithful) (hC : Keeps C cTodo) (hS : Keeps S sTodo)
    (h₀ : Linked (cTodo C.init) (sTodo S.init) [] [])
    (h : (talk J C S endC endS).Reachable s) : s.Sound J ∧ (duo C S).Reachable s.items := by
  refine h.invariant (I := fun s => s.Sound J ∧ (duo C S).Reachable s.items)
    ⟨talk_sound_init J C S, .init⟩ fun s l t hs hstep => ?_
  obtain ⟨hsound, hreach⟩ := hs
  have hin := duo_inStep hC hS h₀ hreach
  obtain ⟨hsound', hfollows⟩ :=
    hsound.step hJ (aligned_client hC hin) (aligned_server hS hin) hstep
  refine ⟨hsound', ?_⟩
  cases hfollows with
  | stay hitems | clientFails _ hitems | serverFails _ hitems => rwa [hitems]
  | @client a _ hduo => exact hreach.step (l := .client a) hduo
  | @server a _ hduo => exact hreach.step (l := .server a) hduo

end Talk

end Framing
end RdmaBench
