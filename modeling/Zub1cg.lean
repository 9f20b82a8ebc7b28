import Zub1cg.Library.GrayCode
import Zub1cg.Library.Clocked
import Zub1cg.Rtl.AsyncFifo.Correctness
import Zub1cg.Rtl.AxiRegs.Interrupts
import Zub1cg.Rtl.AxiRegs.Writes
import Zub1cg.Model.Wire
import Zub1cg.Rtl.AxiRegs
import Zub1cg.Firmware.FrameDecoder
import Zub1cg.Firmware.Controller
import Zub1cg.Firmware.Controller.Command
import Zub1cg.Firmware.Controller.Language
import Zub1cg.Firmware.Connection
import Zub1cg.Firmware.FrameDecoder.Streaming
import Zub1cg.Firmware.Connection.Atomicity
import Zub1cg.Firmware.Service
import Zub1cg.Firmware.Service.Refinement
import Zub1cg.Firmware.Service.Fragmentation
import Zub1cg.Firmware.Service.Isolation
import Zub1cg.Rtl.AxiRegs.Mailbox
import Zub1cg.Rtl.DapEngine
import Zub1cg.Rtl.DapEngine.Packet
import Zub1cg.Library.Packets
import Zub1cg.Rtl.Pl
import Zub1cg.System.Board
import Zub1cg.System.Board.Access
import Zub1cg.System.Mailbox
import Zub1cg.System.Mailbox.Exchange
import Zub1cg.Library.SplitRead
import Zub1cg.System.Statistics
import Zub1cg.Library.Cobs
import Zub1cg.Model.Orbflow
import Zub1cg.Model.Orbflow.RoundTrip
import Zub1cg.Rtl.OrbflowEncoder
import Zub1cg.Model.Orbflow.Capture
import Zub1cg.Library.Cobs.Blocks
import Zub1cg.Model.Orbflow.Acceptance
import Zub1cg.Rtl.AxiRegs.Response
import Zub1cg.System.Mailbox.Recovery
import Zub1cg.Model.Tpiu
import Zub1cg.Model.ParallelDdr
import Zub1cg.Rtl.DdrCapture.Reference
import Zub1cg.Rtl.TpiuDemux
import Zub1cg.Rtl.TpiuDemux.Simulation
import Zub1cg.Rtl.TpiuDemux.Streams
import Zub1cg.Rtl.TestPath
import Zub1cg.Firmware.DmaRing
import Zub1cg.Firmware.DmaRing.Fifo
import Zub1cg.Firmware.TraceDma
import Zub1cg.Firmware.TraceDma.Custody
import Zub1cg.Firmware.TraceDma.Sessions
import Zub1cg.Firmware.TraceDma.Engine
import Zub1cg.Firmware.TraceDma.Engine.Safety
import Zub1cg.Library.MemoryRegion
import Zub1cg.Rtl.OrbflowEncoder.Loader
import Zub1cg.Rtl.OrbflowEncoder.Emitter
import Zub1cg.Rtl.OrbflowEncoder.Refinement
import Zub1cg.Rtl.OrbflowEncoder.Frames
import Zub1cg.Rtl.OrbflowEncoder.Accounting
import Zub1cg.Rtl.ChannelPacketizer
import Zub1cg.Rtl.FrameChain
import Zub1cg.Rtl.FrameChain.Lossless
import Zub1cg.Rtl.FrameChain.Contents
import Zub1cg.Model.Host
import Zub1cg.Model.RemoteBitbang
import Zub1cg.Model.SyntheticDap
import Zub1cg.Rtl.DapEngine.Exchange
import Zub1cg.Rtl.DapEngine.Reference
import Zub1cg.Rtl.DapEngine.History
import Zub1cg.Firmware.M3Bram
import Zub1cg.Model.LoadM3
import Zub1cg.System.M3Image
import Zub1cg.Rtl.SwoNrz.Stalls
import Zub1cg.Rtl.SwoManchester.BackToBack
import Zub1cg.Model.Tpiu.Resync
import Zub1cg.Rtl.TpiuDemux.ResetSync
import Zub1cg.Rtl.TracePath.Isolation
import Zub1cg.Firmware.Workload
import Zub1cg.Firmware.RpuTimer
import Zub1cg.Firmware.RpuTimer.Ticks
import Zub1cg.System.Postmortem
import Zub1cg.Model.Itm
import Zub1cg.System.SequenceGaps
import Zub1cg.Rtl.AxisPacker.Transfers
import Zub1cg.Rtl.Core.Transfers
import Zub1cg.Rtl.AsyncFifo.Level
import Zub1cg.Rtl.CaptureChain.Tracking
import Zub1cg.Rtl.CaptureChain.HighWater
import Zub1cg.Rtl.TracePath.Chains
import Zub1cg.Rtl.TracePath.HighWater
import Zub1cg.Rtl.CaptureChain.DropCounter
import Zub1cg.Rtl.TracePath.LossCounters
import Zub1cg.Rtl.TpiuDemux.Gate
import Zub1cg.Rtl.TracePath.NoSilentLoss
import Zub1cg.Library.FractionalDivider
import Zub1cg.Library.ReflectedCrc
import Zub1cg.Library.Json
import Zub1cg.Firmware.M3Bram.Accesses
import Zub1cg.Rtl.BaudTick.Rate
import Zub1cg.Rtl.DapEngine.Clocking
import Zub1cg.Model.Itm.Inverse
import Zub1cg.Model.Itm.Trace
import Zub1cg.Model.Wire.RoundTrip
import Zub1cg.Model.Perfetto
import Zub1cg.System.FaultLabels
import Zub1cg.System.Postmortem.Bursts
import Zub1cg.System.Postmortem.Print
import Zub1cg.Library.Utf8
import Zub1cg.Library.Tcl
import Zub1cg.Library.Checked
import Zub1cg.Library.Scan
import Zub1cg.Library.ByteRecord
import Zub1cg.Library.FileTree
import Zub1cg.Library.Words
import Zub1cg.Library.Json.CodeUnits
import Zub1cg.Rtl.BaudTick.Exact
import Zub1cg.Tooling.ZubCtl
import Zub1cg.Tooling.ZubCtl.Lines
import Zub1cg.Tooling.ZubCtl.Matching
import Zub1cg.Tooling.ZubCtl.Xsct
import Zub1cg.Model.Hex
import Zub1cg.Firmware.Uart
import Zub1cg.Tooling.ElfCheck
import Zub1cg.Tooling.ElfCheck.Safety
import Zub1cg.Tooling.ElfCheck.Layout
import Zub1cg.Tooling.ElfCheck.Artifacts
import Zub1cg.Tooling.ElfCheck.Outline
import Zub1cg.Tooling.DocsTool
import Zub1cg.Tooling.DocsTool.Convert
import Zub1cg.Tooling.DocsTool.Ascii
import Zub1cg.Tooling.DocsTool.Manifest
import Zub1cg.Tooling.DocsTool.Incremental
import Zub1cg.Tooling.DocsTool.Rows
import Zub1cg.Firmware.Gem2
import Zub1cg.Firmware.Gem2.Link
import Zub1cg.Firmware.Gem2.Receive
import Zub1cg.Firmware.Gem2.Order
import Zub1cg.Firmware.Gem2.Frames
import Zub1cg.Firmware.Gem2.Arp
import Zub1cg.Firmware.Gem2.Transmit
import Zub1cg.Firmware.Gem2.Wire
import Zub1cg.Library.Watchdog
import Zub1cg.Firmware.Gem2.Watchdogs
import Zub1cg.Rtl.DapEngine.Latency
import Zub1cg.System.Mailbox.Answer
import Zub1cg.System.DapServer
import Zub1cg.Rtl.Core.Frames
import Zub1cg.System.TraceServer
import Zub1cg.Library.Receiver
import Zub1cg.Library.Sequential
import Zub1cg.Rtl.AxiRegs.Linearization
import Zub1cg.Model.Swo
import Zub1cg.Rtl.SwoNrz.Reference
import Zub1cg.Rtl.SwoManchester.Reference
import Zub1cg.Library.GatedClock
import Zub1cg.Rtl.Core.Decoded
import Zub1cg.System.TraceCapture
import Zub1cg.System.SwoCapture
import Zub1cg.System.Calls
import Zub1cg.System.ControlServer
