import RdmaBench.Cli
import RdmaBench.Report.Percentiles

/-!
# What a report prints

Every report has three texts: its row in the table of its mode, the same fields
as a CSV row, and notes below the table.  A run without numbers has no row of
either kind (`isSome_row_iff`); only the table has anything else to say about it,
and that is said elsewhere, in the suite.

A number in floating point is known by the operations that make it and by its
decimals: `Floats` is that interface, and nothing is assumed of it.
-/

namespace RdmaBench

universe u

namespace Report

variable {α : Type u}

/-- The `f64` operations of the rows. -/
structure Floats (α : Type u) extends Arith α where
  mul : α → α → α
  /-- `{:.n}`. -/
  fixed : ℕ → α → String

structure BandwidthStats where
  msgSize : ℕ
  iterations : ℕ
  txDepth : ℕ
  elapsedUs : ℕ
  deriving DecidableEq

def BandwidthStats.secs (F : Floats α) (s : BandwidthStats) : α :=
  F.div (F.ofNat s.elapsedUs) (F.ofNat 1000000)

def BandwidthStats.bwGbps (F : Floats α) (s : BandwidthStats) : α :=
  F.div
    (F.div (F.mul (F.mul (F.ofNat s.iterations) (F.ofNat s.msgSize)) (F.ofNat 8)) (s.secs F))
    (F.ofNat 1000000000)

def BandwidthStats.msgRateMpps (F : Floats α) (s : BandwidthStats) : α :=
  F.div (F.div (F.ofNat s.iterations) (s.secs F)) (F.ofNat 1000000)

end Report

/-- What one benchmark run produced. -/
inductive Report (α : Type u) where
  | bandwidth (s : Report.BandwidthStats)
  /-- `none` when every round trip timed out before a sample could be taken. -/
  | latency (s : Option (Report.LatencyStats α))
  | accuracy (r : AccuracyReport)
  /-- The passive side of a run. -/
  | peer

namespace Report

variable {α : Type u}

/-- `(r.sent * r.msg_size) as f64`.  A product too large for a `usize` wraps: where
it would panic, it has done so before the run returned its report, when the CSV
row was sent to the server. -/
def totalBytes (F : Floats α) (r : AccuracyReport) : α :=
  F.ofNat (r.sent * r.msgSize % usizeSize)

def byteAcc (F : Floats α) (r : AccuracyReport) : α :=
  F.mul (F.div (F.ofNat r.correctBytes.toNat) (totalBytes F r)) (F.ofNat 100)

def bitAcc (F : Floats α) (r : AccuracyReport) : α :=
  F.mul (F.div (F.ofNat r.correctBits.toNat) (F.mul (totalBytes F r) (F.ofNat 8))) (F.ofNat 100)

/-! ## Layout -/

/-- `{:>width}`. -/
def cell (width : ℕ) (text : String) : String :=
  "".pushn ' ' (width - text.length) ++ text

/-- The cells of a table row. -/
def columns (cells : List (ℕ × String)) : String :=
  String.intercalate "  " (cells.map fun c => cell c.1 c.2)

/-- The fields of a CSV row. -/
def commas (fields : List String) : String := String.intercalate "," fields

/-- The row this report contributes to its mode's table. -/
def row (F : Floats α) : Report α → Option String
  | .bandwidth s =>
    some (columns [(8, toString s.msgSize), (12, toString s.iterations), (10, toString s.txDepth),
      (18, F.fixed 6 (s.bwGbps F)), (14, F.fixed 6 (s.msgRateMpps F))])
  | .latency (some s) =>
    some (columns [(8, toString s.msgSize), (12, toString s.samples), (12, F.fixed 2 s.min),
      (12, F.fixed 2 s.max), (16, F.fixed 2 s.typical), (12, F.fixed 2 s.avg),
      (14, F.fixed 2 s.stdev), (10, F.fixed 2 s.p99), (12, F.fixed 2 s.p999)])
  | .latency none => none
  | .accuracy r =>
    some (columns [(8, toString r.msgSize), (12, toString r.sent), (10, toString r.received),
      (8, toString r.lost), (6, toString r.duplicated), (10, toString r.corrupted),
      (12, F.fixed 4 (byteAcc F r)), (12, F.fixed 4 (bitAcc F r))])
  | .peer => none

/-- Extra lines worth showing below the row. -/
def notes : Report α → Option String
  | .accuracy r =>
    if 0 < r.unidentifiable ∨ 0 < r.truncated then
      some ("unidentifiable: " ++ toString r.unidentifiable ++ ", truncated: " ++
        toString r.truncated)
    else none
  | .latency none => some "no samples collected"
  | _ => none

/-- The same fields as `row`, comma-separated and unpadded. -/
def csvRow (F : Floats α) : Report α → Option String
  | .bandwidth s =>
    some (commas [toString s.msgSize, toString s.iterations, toString s.txDepth,
      F.fixed 6 (s.bwGbps F), F.fixed 6 (s.msgRateMpps F)])
  | .latency (some s) =>
    some (commas [toString s.msgSize, toString s.samples, F.fixed 2 s.min, F.fixed 2 s.max,
      F.fixed 2 s.typical, F.fixed 2 s.avg, F.fixed 2 s.stdev, F.fixed 2 s.p99, F.fixed 2 s.p999])
  | .latency none => none
  | .accuracy r =>
    some (commas [toString r.msgSize, toString r.sent, toString r.received, toString r.lost,
      toString r.duplicated, toString r.corrupted, F.fixed 4 (byteAcc F r), F.fixed 4 (bitAcc F r)])
  | .peer => none

/-- The column header of a mode's table. -/
def header : Mode → String
  | .bandwidth | .rdmaWrite | .rdmaRead =>
    columns [(8, "#bytes"), (12, "#iterations"), (10, "tx_depth"), (18, "BW avg[Gb/sec]"),
      (14, "MsgRate[Mpps]")]
  | .latency =>
    columns [(8, "#bytes"), (12, "#iterations"), (12, "t_min[usec]"), (12, "t_max[usec]"),
      (16, "t_typical[usec]"), (12, "t_avg[usec]"), (14, "t_stdev[usec]"), (10, "99%[usec]"),
      (12, "99.9%[usec]")]
  | .accuracy =>
    columns [(8, "#bytes"), (12, "#iterations"), (10, "#received"), (8, "#lost"), (6, "#dup"),
      (10, "#corrupt"), (12, "ByteAcc[%]"), (12, "BitAcc[%]")]

/-- The column header of a mode's CSV rows. -/
def csvHeader : Mode → String
  | .bandwidth | .rdmaWrite | .rdmaRead => "bytes,iterations,tx_depth,bw_avg,msgrate"
  | .latency => "bytes,iterations,t_min,t_max,t_typical,t_avg,t_stdev,99%,99.9%"
  | .accuracy => "bytes,iterations,received,lost,dup,corrupt,byte_acc,bit_acc"

/-! ## Reports without numbers -/

/-- Whether the run produced numbers. -/
def hasNumbers : Report α → Bool
  | .latency none => false
  | .peer => false
  | _ => true

variable (F : Floats α)

/-- **A report has a row exactly when it has numbers.** -/
theorem isSome_row_iff (r : Report α) : (r.row F).isSome = true ↔ r.hasNumbers = true := by
  cases r with
  | latency s => cases s <;> simp [row, hasNumbers]
  | bandwidth s | accuracy s | peer => simp [row, hasNumbers]

/-- **And so for the CSV row.** -/
theorem isSome_csvRow_iff (r : Report α) : (r.csvRow F).isSome = true ↔ r.hasNumbers = true := by
  cases r with
  | latency s => cases s <;> simp [csvRow, hasNumbers]
  | bandwidth s | accuracy s | peer => simp [csvRow, hasNumbers]

end Report
end RdmaBench
