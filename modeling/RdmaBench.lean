import RdmaBench.Accuracy.Agree
import RdmaBench.Accuracy.Attribution
import RdmaBench.Accuracy.Check
import RdmaBench.Accuracy.Complete
import RdmaBench.Accuracy.Ends
import RdmaBench.Accuracy.Halves
import RdmaBench.Accuracy.Orders
import RdmaBench.Accuracy.Outcome
import RdmaBench.Accuracy.Ownership
import RdmaBench.Accuracy.Payload
import RdmaBench.Accuracy.Programs
import RdmaBench.Accuracy.Receive
import RdmaBench.Accuracy.Receiver
import RdmaBench.Accuracy.Sender
import RdmaBench.Accuracy.Slots
import RdmaBench.Accuracy.Stream
import RdmaBench.Accuracy.Tallies
import RdmaBench.Accuracy.Words
import RdmaBench.Arrivals.Exchange
import RdmaBench.Arrivals.Ledger
import RdmaBench.Automaton.Runs
import RdmaBench.Automaton.Session
import RdmaBench.Automaton.Watch
import RdmaBench.Bandwidth.Complete
import RdmaBench.Bandwidth.Elapsed
import RdmaBench.Bandwidth.Ends
import RdmaBench.Bandwidth.Halves
import RdmaBench.Bandwidth.Programs
import RdmaBench.Bandwidth.Stream
import RdmaBench.Cli
import RdmaBench.Client.Command
import RdmaBench.Client.Served
import RdmaBench.Client.Suite
import RdmaBench.Comm
import RdmaBench.Conn
import RdmaBench.Connection.Alignment
import RdmaBench.Connection.Barriers
import RdmaBench.Connection.Bytes
import RdmaBench.Connection.Contents
import RdmaBench.Connection.Duo
import RdmaBench.Connection.Ends
import RdmaBench.Connection.Framing
import RdmaBench.Connection.Half
import RdmaBench.Connection.OneSided
import RdmaBench.Connection.Parties
import RdmaBench.Connection.Rows
import RdmaBench.Connection.Waiting
import RdmaBench.Latency.Depths
import RdmaBench.Latency.Ends
import RdmaBench.Latency.Halves
import RdmaBench.Latency.Kept
import RdmaBench.Latency.Numbered
import RdmaBench.Latency.Pairing
import RdmaBench.Latency.PingPong
import RdmaBench.Latency.Programs
import RdmaBench.Latency.Progress
import RdmaBench.Latency.Ready
import RdmaBench.Latency.Tally
import RdmaBench.Latency.WaitFor
import RdmaBench.Memory.LittleEndian
import RdmaBench.Memory.Mixing
import RdmaBench.Memory.Slices
import RdmaBench.Ranks.Sorted
import RdmaBench.Report.Layout
import RdmaBench.Report.Percentages
import RdmaBench.Report.Percentiles
import RdmaBench.Report.Rows
import RdmaBench.Server.Limits
import RdmaBench.Server.Listening
import RdmaBench.Server.Sizes
import RdmaBench.Server.Survival
import RdmaBench.Streams.Buffered
import RdmaBench.Text.Columns
import RdmaBench.Verbs
import RdmaBench.Window.Device
import RdmaBench.Window.Poster
import RdmaBench.Window.Posting
