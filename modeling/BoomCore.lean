import BoomCore.Library.Along
import BoomCore.Library.ByteMemory
import BoomCore.Library.Compaction
import BoomCore.Library.Greedy
import BoomCore.Library.ImmediateFormat
import BoomCore.Library.KeyedText
import BoomCore.Library.LittleEndian
import BoomCore.Library.Numeral
import BoomCore.Library.Occurrences
import BoomCore.Library.Opcodes
import BoomCore.Library.Ordered
import BoomCore.Library.Renaming
import BoomCore.Library.Rv64
import BoomCore.Library.SignExtension
import BoomCore.Library.Text
import BoomCore.Model.Checked
import BoomCore.Model.CompareTraces
import BoomCore.Model.DynamicUop
import BoomCore.Model.Loadmem
import BoomCore.Model.Normalize
import BoomCore.Model.PrefixTrace
import BoomCore.Model.TraceJson
import BoomCore.Model.TraceJsonUtil
import BoomCore.Model.TraceRecord
import BoomCore.Model.TraceValue
import BoomCore.Proof.Allocation
import BoomCore.Proof.Bounds
import BoomCore.Proof.Checked
import BoomCore.Proof.Control
import BoomCore.Proof.Decode
import BoomCore.Proof.Departure
import BoomCore.Proof.Dispatch
import BoomCore.Proof.DynamicInstance
import BoomCore.Proof.DynamicUop
import BoomCore.Proof.Encoding
import BoomCore.Proof.Frame
import BoomCore.Proof.History
import BoomCore.Proof.Immediate
import BoomCore.Proof.Integer
import BoomCore.Proof.LoadFree
import BoomCore.Proof.LoadedImage
import BoomCore.Proof.Loadmem
import BoomCore.Proof.MemoryQueues
import BoomCore.Proof.Normalize
import BoomCore.Proof.Opcodes
import BoomCore.Proof.Outstanding
import BoomCore.Proof.Pipeline
import BoomCore.Proof.Ports
import BoomCore.Proof.PrefixRecords
import BoomCore.Proof.PrefixRun
import BoomCore.Proof.PrefixTrace
import BoomCore.Proof.Progress
import BoomCore.Proof.PromptMemory
import BoomCore.Proof.Refinement
import BoomCore.Proof.Registers
import BoomCore.Proof.Retirement
import BoomCore.Proof.Simulation
import BoomCore.Proof.Streams
import BoomCore.Proof.TraceText
import BoomCore.Proof.Trap
import BoomCore.Proof.Word
import BoomCore.Proof.Writeback
import BoomCore.Properties.ArrayBounds
import BoomCore.Properties.Backpressure
import BoomCore.Properties.CommitOrder
import BoomCore.Properties.ComparatorAgreement
import BoomCore.Properties.ControlTransfer
import BoomCore.Properties.DecoderExact
import BoomCore.Properties.Dependence
import BoomCore.Properties.Destination
import BoomCore.Properties.DynamicIdentity
import BoomCore.Properties.FetchFault
import BoomCore.Properties.FetchProtocol
import BoomCore.Properties.FreeList
import BoomCore.Properties.HeadProgress
import BoomCore.Properties.ImmediateRoundTrip
import BoomCore.Properties.InOrder
import BoomCore.Properties.IntegerResult
import BoomCore.Properties.IssueQueue
import BoomCore.Properties.LoadProtocol
import BoomCore.Properties.MemoryOrder
import BoomCore.Properties.MemoryRefinement
import BoomCore.Properties.Misaligned
import BoomCore.Properties.PortCompleteness
import BoomCore.Properties.PrefixTrace
import BoomCore.Properties.PrefixVerdict
import BoomCore.Properties.ProgramImage
import BoomCore.Properties.PromptMemory
import BoomCore.Properties.QueueTracking
import BoomCore.Properties.Reclaim
import BoomCore.Properties.Redirect
import BoomCore.Properties.RobRing
import BoomCore.Properties.Stores
import BoomCore.Properties.TraceComparison
import BoomCore.Properties.Trap
import BoomCore.Properties.Verdict
import BoomCore.Properties.WordResult
import BoomCore.Run.Environment
import BoomCore.Run.Interpreter
import BoomCore.Run.Machine
import BoomCore.Run.Memory
import BoomCore.Run.System
import BoomCore.Run.Top
