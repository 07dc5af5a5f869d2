import RdmaBench.Streams.Buffered

/-!
# The bytes of the out-of-band connection

A message goes over the connection as its JSON on a line of its own, a barrier as
one byte.  Neither is marked: what is read next is a matter of what the reader
asks for.  Both `recv_msg` and `sync` read through the one `BufReader` of the
`Conn`, which is `Streams.Reader`.

The rest of the development takes the connection for a channel of items
(`Wire`).  Here is why it may: `Conn.recvMsg_of_rest` and `Conn.sync_of_rest` say
that a read takes exactly one item's bytes off what the reader will still
deliver, however the stream is cut.

`serde_json` is a parameter, `Json`, with one message type for each kind.  What
is relied on is `Json.Faithful`: no raw newline in the text of a value, and the
value back from the line that holds it.  A `write_all` is told whether the socket
takes the bytes.
-/

namespace RdmaBench
namespace Framing

open Streams

/-! ## Text -/

/-- `str::as_bytes`. -/
def asBytes (s : String) : List UInt8 := s.toUTF8.data.toList

/-- `str::from_utf8`. -/
def fromUtf8 (bytes : List UInt8) : Option String := String.fromUTF8? bytes.toByteArray

/-- `b'\n'`. -/
def newline : UInt8 := 10

theorem fromUtf8_asBytes (s : String) : fromUtf8 (asBytes s) = some s := by
  have h : (asBytes s).toByteArray = s.toByteArray := by
    ext1
    simp [asBytes]
  rw [fromUtf8, h, String.fromUTF8?, dif_pos s.isValidUTF8]
  rfl

theorem asBytes_push_newline (s : String) : asBytes (s.push '\n') = asBytes s ++ [newline] := by
  have h : ['\n'].utf8Encode.data.toList = [newline] := by decide
  rw [asBytes, String.toUTF8_eq_toByteArray, String.toByteArray_push, asBytes, ← h]
  simp

/-! ## `Conn` -/

/-- `serde_json` on the message types of the protocol, one for each kind. -/
structure Json (κ : Type) (M : κ → Type) (E : Type) where
  toString : (k : κ) → M k → Except E String
  fromStr : (k : κ) → String → Except E (M k)

variable {κ : Type} {M : κ → Type} {E : Type}

/-- What is relied on of `serde_json`. -/
structure Json.Faithful (J : Json κ M E) : Prop where
  no_newline : ∀ {k x s}, J.toString k x = .ok s → newline ∉ asBytes s
  fromStr_line : ∀ {k x s}, J.toString k x = .ok s → J.fromStr k (s.push '\n') = .ok x

/-- The errors of a `Conn`. -/
inductive Error (E : Type) where
  | json (e : E)
  | invalidData (message : String)
  | unexpectedEof (message : String)
  | notWritten
  deriving DecidableEq

/-- The connection: what has been handed to the socket, and the buffered
reader. -/
structure Conn where
  written : List UInt8
  reader : Reader UInt8

/-- A new connection, whose stream will come in these pieces. -/
def Conn.new (pieces : List (List UInt8)) : Conn := ⟨[], ⟨[], pieces⟩⟩

/-- `write_all`; `taken` is whether the socket takes the bytes.  It takes all of them or
none: a write that fails half way, whose first bytes the peer may still read, is left
out. -/
def Conn.writeAll (taken : Bool) (bytes : List UInt8) (c : Conn) : Except (Error E) Unit × Conn :=
  if taken then (.ok (), { c with written := c.written ++ bytes }) else (.error .notWritten, c)

def Conn.sendMsg (J : Json κ M E) (taken : Bool) (k : κ) (msg : M k) (c : Conn) :
    Except (Error E) Unit × Conn :=
  match J.toString k msg with
  | .error e => (.error (.json e), c)
  | .ok line => c.writeAll taken (asBytes (line.push '\n'))

def Conn.recvMsg (J : Json κ M E) (k : κ) (c : Conn) : Except (Error E) (M k) × Conn :=
  let (bytes, reader) := c.reader.readUntil newline
  let c := { c with reader := reader }
  match fromUtf8 bytes with
  | none => (.error (.invalidData "stream did not contain valid UTF-8"), c)
  | some line =>
    if line = "" then
      (.error (.unexpectedEof "peer closed the connection while waiting for a message"), c)
    else
      match J.fromStr k line with
      | .ok msg => (.ok msg, c)
      | .error e => (.error (.json e), c)

/-- `sync`: its byte is written, and one byte is read, whatever it is.  Tracing
adds no more than lines on the error stream. -/
def Conn.sync (taken : Bool) (c : Conn) : Except (Error E) Unit × Conn :=
  match c.writeAll (E := E) taken [0] with
  | (.error e, c) => (.error e, c)
  | (.ok (), c) =>
    match c.reader.readOne with
    | (none, reader) =>
      (.error (.unexpectedEof "failed to fill whole buffer"), { c with reader := reader })
    | (some _, reader) => (.ok (), { c with reader := reader })

/-! ## Items and their bytes -/

/-- What one party sends. -/
inductive Sent (M : κ → Type) where
  | message (k : κ) (msg : M k)
  | barrier

/-- What the other party asks for. -/
inductive Wanted (κ : Type) where
  | message (k : κ)
  | barrier
  deriving DecidableEq

/-- The read that matches an item. -/
def Sent.wanted : Sent M → Wanted κ
  | .message k _ => .message k
  | .barrier => .barrier

/-- The bytes an item stands for on the connection. -/
def Sent.bytes (J : Json κ M E) : Sent M → Except E (List UInt8)
  | .message k msg => (J.toString k msg).map fun line => asBytes (line.push '\n')
  | .barrier => .ok [0]

/-- The bytes of a sequence of items. -/
def bytesOf (J : Json κ M E) : List (Sent M) → Except E (List UInt8)
  | [] => .ok []
  | item :: items => do
    let front ← item.bytes J
    let back ← bytesOf J items
    return front ++ back

/-- A party sends these items in this order, `d` being its connection
afterwards.  In between it may receive what it likes, and a `sync` whose read
fails has still sent its byte. -/
inductive Writes (J : Json κ M E) : Conn → List (Sent M) → Conn → Prop where
  | done (c : Conn) : Writes J c [] c
  | message {c c' d : Conn} {k : κ} {msg : M k} {items : List (Sent M)}
      (hsend : c.sendMsg J true k msg = (.ok (), c')) (hrest : Writes J c' items d) :
      Writes J c (.message k msg :: items) d
  | barrier {c d : Conn} {items : List (Sent M)}
      (hrest : Writes J (c.sync (E := E) true).2 items d) : Writes J c (.barrier :: items) d
  | receive {c d : Conn} {k : κ} {items : List (Sent M)}
      (hrest : Writes J (c.recvMsg J k).2 items d) : Writes J c items d

/-- One matching read: the item obtained. -/
def Conn.obtain (J : Json κ M E) : Wanted κ → Conn → Except (Error E) (Sent M) × Conn
  | .message k, c =>
    match c.recvMsg J k with
    | (.ok msg, c) => (.ok (.message k msg), c)
    | (.error e, c) => (.error e, c)
  | .barrier, c =>
    match c.sync (E := E) true with
    | (.ok (), c) => (.ok .barrier, c)
    | (.error e, c) => (.error e, c)

/-- The matching reads one after the other, as far as none fails. -/
def Conn.obtainAll (J : Json κ M E) :
    List (Wanted κ) → Conn → Except (Error E) (List (Sent M)) × Conn
  | [], c => (.ok [], c)
  | want :: wants, c =>
    match c.obtain J want with
    | (.error e, c) => (.error e, c)
    | (.ok item, c) =>
      match c.obtainAll J wants with
      | (.error e, c) => (.error e, c)
      | (.ok items, c) => (.ok (item :: items), c)

variable {J : Json κ M E} {c d : Conn} {items : List (Sent M)}

/-! ## What is written -/

/-- Receiving writes nothing. -/
theorem written_recvMsg (J : Json κ M E) (k : κ) (c : Conn) :
    (c.recvMsg J k).2.written = c.written := by
  rw [Conn.recvMsg]
  dsimp only
  split
  · rfl
  · split
    · rfl
    · split <;> rfl

/-- A barrier writes its byte, whatever its read does. -/
theorem written_sync (c : Conn) : (c.sync (E := E) true).2.written = c.written ++ [0] := by
  rw [Conn.sync, Conn.writeAll, if_pos rfl]
  dsimp only
  split <;> rfl

/-- A message writes its line. -/
theorem written_sendMsg {k : κ} {msg : M k} {c' : Conn}
    (h : c.sendMsg J true k msg = (.ok (), c')) :
    ∃ front, (Sent.message k msg).bytes J = .ok front ∧ c'.written = c.written ++ front := by
  rw [Conn.sendMsg] at h
  cases hline : J.toString k msg with
  | error e =>
    rw [hline] at h
    exact absurd (congrArg Prod.fst h) (by simp)
  | ok line =>
    rw [hline] at h
    dsimp only at h
    rw [Conn.writeAll, if_pos rfl] at h
    refine ⟨asBytes (line.push '\n'), by rw [Sent.bytes, hline]; rfl, ?_⟩
    exact (congrArg (fun p => p.2.written) h).symm

/-- **A party writes the bytes of its items**, in their order. -/
theorem Writes.written_eq (h : Writes J c items d) :
    ∃ bytes, bytesOf J items = .ok bytes ∧ d.written = c.written ++ bytes := by
  induction h with
  | done c => exact ⟨[], rfl, (List.append_nil _).symm⟩
  | message hsend _ ih =>
    obtain ⟨front, hfront, hc'⟩ := written_sendMsg hsend
    obtain ⟨back, hback, hd⟩ := ih
    refine ⟨front ++ back, by rw [bytesOf, hfront, hback]; rfl, ?_⟩
    rw [hd, hc', List.append_assoc]
  | barrier _ ih =>
    obtain ⟨back, hback, hd⟩ := ih
    refine ⟨[0] ++ back, by rw [bytesOf, hback]; rfl, ?_⟩
    rw [hd, written_sync, List.append_assoc]
  | receive _ ih =>
    obtain ⟨bytes, hbytes, hd⟩ := ih
    exact ⟨bytes, hbytes, by rw [hd, written_recvMsg]⟩

/-! ## What is read -/

/-- **A message is read off the front**, with its newline and nothing more. -/
theorem Conn.recvMsg_of_rest (hJ : J.Faithful) (hlive : c.reader.Live) {k : κ} {msg : M k}
    {line : String} (hline : J.toString k msg = .ok line) {more : List UInt8}
    (hrest : c.reader.rest = asBytes (line.push '\n') ++ more) :
    ∃ c' : Conn, c.recvMsg J k = (.ok msg, c') ∧ c'.reader.rest = more ∧ c'.reader.Live := by
  rw [asBytes_push_newline, List.append_assoc, List.singleton_append] at hrest
  obtain ⟨reader, hread, hmore, hlive'⟩ :=
    Reader.readUntil_of_rest hlive (hJ.no_newline hline) hrest
  have hutf : fromUtf8 (asBytes line ++ [newline]) = some (line.push '\n') := by
    rw [← asBytes_push_newline, fromUtf8_asBytes]
  have hne : line.push '\n' ≠ "" := by simp
  refine ⟨{ c with reader := reader }, ?_, hmore, hlive'⟩
  rw [Conn.recvMsg, hread]
  dsimp only
  rw [hutf]
  dsimp only
  rw [if_neg hne, hJ.fromStr_line hline]

/-- **A barrier is one byte off the front.** -/
theorem Conn.sync_of_rest (hlive : c.reader.Live) {b : UInt8} {more : List UInt8}
    (hrest : c.reader.rest = b :: more) :
    ∃ c' : Conn, c.sync (E := E) true = (.ok (), c') ∧ c'.reader.rest = more ∧
      c'.reader.Live := by
  obtain ⟨reader, hread, hmore, hlive'⟩ := Reader.readOne_of_rest hlive hrest
  refine ⟨⟨c.written ++ [0], reader⟩, ?_, hmore, hlive'⟩
  rw [Conn.sync, Conn.writeAll, if_pos rfl]
  dsimp only
  rw [hread]

/-- **The matching read obtains the item**, and takes its bytes. -/
theorem Conn.obtain_of_rest (hJ : J.Faithful) (hlive : c.reader.Live) {item : Sent M}
    {front more : List UInt8} (hfront : item.bytes J = .ok front)
    (hrest : c.reader.rest = front ++ more) :
    ∃ c' : Conn, c.obtain J item.wanted = (.ok item, c') ∧ c'.reader.rest = more ∧
      c'.reader.Live := by
  cases item with
  | message k msg =>
    rw [Sent.bytes] at hfront
    cases hline : J.toString k msg with
    | error e =>
      rw [hline] at hfront
      exact absurd hfront (by simp [Except.map])
    | ok line =>
      rw [hline] at hfront
      rw [← Except.ok.inj hfront] at hrest
      obtain ⟨c', hrecv, hmore, hlive'⟩ := Conn.recvMsg_of_rest hJ hlive hline hrest
      exact ⟨c', by rw [Sent.wanted, Conn.obtain, hrecv], hmore, hlive'⟩
  | barrier =>
    rw [← Except.ok.inj hfront] at hrest
    obtain ⟨c', hsync, hmore, hlive'⟩ := Conn.sync_of_rest (E := E) hlive hrest
    exact ⟨c', by rw [Sent.wanted, Conn.obtain, hsync], hmore, hlive'⟩

/-- **Any front of the items is obtained**, and the bytes of the others are
left. -/
theorem Conn.obtainAll_of_rest (hJ : J.Faithful) (hlive : c.reader.Live)
    {before after : List (Sent M)} {bytes : List UInt8}
    (hbytes : bytesOf J (before ++ after) = .ok bytes) (hrest : c.reader.rest = bytes) :
    ∃ c' : Conn, c.obtainAll J (before.map Sent.wanted) = (.ok before, c') ∧
      bytesOf J after = .ok c'.reader.rest ∧ c'.reader.Live := by
  induction before generalizing c bytes with
  | nil => exact ⟨c, rfl, hrest ▸ hbytes, hlive⟩
  | cons item before ih =>
    rw [List.cons_append, bytesOf] at hbytes
    cases hfront : item.bytes J with
    | error e =>
      rw [hfront] at hbytes
      exact absurd hbytes (by simp [bind, Except.bind])
    | ok front =>
      cases hback : bytesOf J (before ++ after) with
      | error e =>
        rw [hfront, hback] at hbytes
        exact absurd hbytes (by simp [bind, Except.bind])
      | ok back =>
        rw [hfront, hback] at hbytes
        rw [← Except.ok.inj hbytes] at hrest
        obtain ⟨c', hone, hmore, hlive'⟩ := Conn.obtain_of_rest hJ hlive hfront hrest
        obtain ⟨c'', hall, hafter, hlive''⟩ := ih hlive' hback hmore
        refine ⟨c'', ?_, hafter, hlive''⟩
        rw [List.map_cons, Conn.obtainAll, hone]
        dsimp only
        rw [hall]

/-- When the writer has closed and everything is read, `recv_msg` fails. -/
theorem Conn.recvMsg_of_end (J : Json κ M E) (k : κ) (hlive : c.reader.Live)
    (hrest : c.reader.rest = []) :
    (c.recvMsg J k).1 =
      .error (.unexpectedEof "peer closed the connection while waiting for a message") := by
  have hutf : fromUtf8 [] = some "" := fromUtf8_asBytes ""
  rw [Conn.recvMsg, Reader.readUntil_of_end hlive hrest]
  dsimp only
  rw [hutf]
  rfl

/-- And so does `sync`, on its write or on its read. -/
theorem Conn.sync_of_end (taken : Bool) (hlive : c.reader.Live) (hrest : c.reader.rest = []) :
    ∃ e, (c.sync (E := E) taken).1 = .error e := by
  cases taken with
  | false => exact ⟨.notWritten, rfl⟩
  | true =>
    refine ⟨.unexpectedEof "failed to fill whole buffer", ?_⟩
    rw [Conn.sync, Conn.writeAll, if_pos rfl]
    dsimp only
    rw [Reader.readOne_of_end hlive hrest]

/-! ## From one party to the other -/

/-- **The items arrive**, in order, whatever they are and however the stream is
cut.  After any number of matching reads exactly the bytes of the other items
are left; when the writer has closed and all have been read, `recv_msg` and
`sync` return an error. -/
theorem items_arrive (hJ : J.Faithful) {pieces writerPieces : List (List UInt8)}
    (hwrites : Writes J (Conn.new writerPieces) items d) (hcut : pieces.flatten = d.written)
    (hpieces : ∀ piece ∈ pieces, piece ≠ []) :
    (∀ before after, items = before ++ after →
      ∃ c : Conn, (Conn.new pieces).obtainAll J (before.map Sent.wanted) = (.ok before, c) ∧
        bytesOf J after = .ok c.reader.rest) ∧
    ∃ c : Conn, (Conn.new pieces).obtainAll J (items.map Sent.wanted) = (.ok items, c) ∧
      (∀ k, ∃ e, (c.recvMsg J k).1 = .error e) ∧
      ∀ taken, ∃ e, (c.sync (E := E) taken).1 = .error e := by
  obtain ⟨bytes, hbytes, hd⟩ := hwrites.written_eq
  have hlive₀ : (Conn.new pieces).reader.Live := hpieces
  have hrest : (Conn.new pieces).reader.rest = bytes := hcut.trans hd
  refine ⟨fun before after hsplit => ?_, ?_⟩
  · obtain ⟨c, hall, hafter, -⟩ := Conn.obtainAll_of_rest hJ hlive₀ (hsplit ▸ hbytes) hrest
    exact ⟨c, hall, hafter⟩
  · have hnil : bytesOf J (items ++ []) = .ok bytes := by rwa [List.append_nil]
    obtain ⟨c, hall, hafter, hlive⟩ := Conn.obtainAll_of_rest hJ hlive₀ hnil hrest
    have hend : c.reader.rest = [] := (Except.ok.inj hafter).symm
    refine ⟨c, hall, fun k => ⟨_, Conn.recvMsg_of_end J k hlive hend⟩, fun taken => ?_⟩
    exact Conn.sync_of_end taken hlive hend

/-- `serde_json` on one message type, `bool`. -/
def jsonBool : Json Unit (fun _ => Bool) String where
  toString _ b := .ok (if b then "true" else "false")
  fromStr _ line :=
    if line = "true\n" then .ok true
    else if line = "false\n" then .ok false
    else .error "expected a boolean"

theorem jsonBool_faithful : jsonBool.Faithful where
  no_newline := by
    rintro ⟨⟩ b s hs
    obtain rfl := Except.ok.inj hs
    cases b <;> decide
  fromStr_line := by
    rintro ⟨⟩ b s hs
    obtain rfl := Except.ok.inj hs
    cases b <;> decide

/-- A message, two barriers and a message, all in two reads with the cut inside
the first line. -/
theorem items_arrive_coalesced :
    ∃ c : Conn, (Conn.new [[116, 114], [117, 101, 10, 0, 0, 102, 97, 108, 115, 101, 10]]).obtainAll
        jsonBool [.message (), .barrier, .barrier, .message ()] =
      (.ok [.message () true, .barrier, .barrier, .message () false], c) ∧
      (∀ k, ∃ e, (c.recvMsg jsonBool k).1 = .error e) ∧
      ∀ taken, ∃ e, (c.sync (E := String) taken).1 = .error e := by
  have hwrites : Writes jsonBool (Conn.new [])
      [.message () true, .barrier, .barrier, .message () false]
      ⟨[116, 114, 117, 101, 10, 0, 0, 102, 97, 108, 115, 101, 10], ⟨[], []⟩⟩ :=
    .message rfl (.barrier (.barrier (.message rfl (.done _))))
  exact (items_arrive jsonBool_faithful hwrites (by decide) (by decide)).2

end Framing
end RdmaBench
