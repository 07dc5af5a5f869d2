import Mathlib.Algebra.Ring.Nat
import Mathlib.Data.List.Basic

/-!
# The wire types

The types that `cli` and `comm` declare and the rest of the program passes
around: the transport and the mode a client asks for, the request, the report
an accuracy run sends back, and the kinds of items that travel on the
out-of-band connection.

Sizes and counts are `ℕ` where the program keeps them far from the end of
`usize`; where it does not, the place says so.  `correctBytes` and `correctBits`
are the two counters that are `u64` in the source and that a long enough run
does carry around, so they are `UInt64` here.
-/

namespace RdmaBench

/-- The number of values of `usize` on the 64-bit targets the program runs on. -/
def usizeSize : ℕ := 2 ^ 64

/-- The number of values of a 32-bit integer. -/
def u32Size : ℕ := 4294967296

/-- `i32::MAX`. -/
def i32Max : ℕ := 2147483647

/-- The largest size in bytes of one allocation, `isize::MAX`. -/
def isizeMax : ℕ := 2 ^ 63 - 1

inductive Transport where
  | rc
  | uc
  | ud
  deriving DecidableEq, Repr

inductive Mode where
  | bandwidth
  | latency
  | accuracy
  | rdmaWrite
  | rdmaRead
  deriving DecidableEq, Repr

/-- Which side of the connection a process is playing. -/
inductive Role where
  | client
  | server
  deriving DecidableEq, Repr

/-- Whether `(transport, mode)` is implemented. -/
def supported : Transport → Mode → Bool
  | .ud, _ => false
  | .uc, .rdmaRead => false
  | .rc, _ => true
  | .uc, _ => true

/-- What a client asks for.  The four numbers are whatever the peer wrote in its
JSON: any 64-bit value. -/
structure BenchmarkRequest where
  transport : Transport
  mode : Mode
  msgSize : UInt64
  iterations : UInt64
  txDepth : UInt64
  rxDepth : UInt64
  deriving DecidableEq, Repr

/-- What the receiver of an accuracy run observed. -/
structure AccuracyReport where
  msgSize : ℕ := 0
  /-- Messages the sender was asked to transmit. -/
  sent : ℕ := 0
  /-- Receive completions reaped, duplicates and unidentifiable ones included. -/
  received : ℕ := 0
  /-- Sequence numbers that never showed up. -/
  lost : ℕ := 0
  /-- Messages whose sequence number had already been seen. -/
  duplicated : ℕ := 0
  /-- Messages whose header holds no sequence number of this run. -/
  unidentifiable : ℕ := 0
  /-- Identified messages shorter than `msgSize`. -/
  truncated : ℕ := 0
  /-- Identified messages that differ from their payload in some byte. -/
  corrupted : ℕ := 0
  /-- Bytes that arrived exactly as sent. -/
  correctBytes : UInt64 := 0
  /-- Bits that arrived exactly as sent. -/
  correctBits : UInt64 := 0
  deriving DecidableEq, Repr

/-- The items on the out-of-band connection: one constructor for each message
type, and the byte of a barrier. -/
inductive Item where
  | benchmarkRequest
  | handshakeAck
  | clientEndpoint
  | remoteBufferInfo
  | barrier
  | accuracyReport
  | resultRow
  deriving DecidableEq, Repr

end RdmaBench
