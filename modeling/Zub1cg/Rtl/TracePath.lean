import Zub1cg.Rtl.CaptureChain
import Zub1cg.Rtl.StreamSide

/-!
# The trace path (`orbtrace_pl.v`)

The capture chains of the two trace ports and the stream side behind them. One `Input` is one
instant at which `aclk`, the trace clocks or several of them have an edge; the three clocks are
unrelated. What belongs to one port, its pins and what the flops between its clock and `aclk`
catch, is a `Port`.

## Main definitions

- `TracePath.Port`, `TracePath.Input`, `TracePath.State` — one instant's inputs, the registers
- `TracePath.step`, `TracePath.run` — one instant, and the trace path after a reset
- `TracePath.droppedBytes`, `irqOverrun`, `stream` — what software gets to see
-/

namespace TracePath

open DdrCapture (Edge)
open SourceMux (Source)
open StreamSide (Config)

/-- One instant at one of the trace ports. -/
structure Port where
  traceClk : Option Edge
  traceData : BitVec 4
  runningCatch : Bool
  rdGrayCatch : BitVec (CaptureChain.CDC_DEPTH_LOG2 + 1)
  wrGrayCatch : BitVec (CaptureChain.CDC_DEPTH_LOG2 + 1)
  overrunCatch : Bool
  dropsGrayCatch : BitVec 64

/-- One instant; `trace` is the port with `trace_clk` and `trace_data`, `m3` the one with
`trace_clk_m3` and `trace_data_m3`. -/
structure Input where
  aclk : Bool
  aresetn : Bool
  startPulse : Bool
  stopPulse : Bool
  resetPulse : Bool
  mAxisTready : Bool
  trace : Port
  m3 : Port

structure State where
  trace : CaptureChain.State
  m3 : CaptureChain.State
  side : StreamSide.State

/-! ### Wires -/

/-- The read side of a chain's FIFO. -/
def readSide (s : CaptureChain.State) : Source :=
  ⟨AsyncFifo.readData s.fifo, AsyncFifo.readValid s.fifo⟩

/-- The ports of the stream side. -/
def sideInput (i : Input) (s : State) : StreamSide.Input where
  aresetn := i.aresetn
  startPulse := i.startPulse
  stopPulse := i.stopPulse
  resetPulse := i.resetPulse
  traceData := i.trace.traceData
  traceDataM3 := i.m3.traceData
  cdc := readSide s.trace
  m3Cdc := readSide s.m3
  mAxisTready := i.mAxisTready

/-- The stream side after the instant. -/
def sideNext (c : Config) (i : Input) (s : State) : StreamSide.State :=
  if i.aclk then StreamSide.step c (sideInput i s) s.side else s.side

/-- The ports of a capture chain, with `running` before and after the instant. -/
def chainInput (c : Config) (i : Input) (p : Port) (running runningNext readReady : Bool) :
    CaptureChain.Input where
  aclk := i.aclk
  aresetn := i.aresetn
  traceClk := p.traceClk
  traceData := p.traceData
  traceFormat := c.traceFormat
  -- a change at this very instant is caught or missed
  running := if p.runningCatch then runningNext else running
  readReady := readReady
  rdGrayCatch := p.rdGrayCatch
  wrGrayCatch := p.wrGrayCatch
  overrunCatch := p.overrunCatch
  dropsGrayCatch := p.dropsGrayCatch

def traceInput (c : Config) (i : Input) (s : State) : CaptureChain.Input :=
  chainInput c i i.trace s.side.running (sideNext c i s).running
    (StreamSide.cdcReady c (sideInput i s) s.side)

def m3Input (c : Config) (i : Input) (s : State) : CaptureChain.Input :=
  chainInput c i i.m3 s.side.running (sideNext c i s).running
    (StreamSide.m3CdcReady c (sideInput i s) s.side)

/-- One instant. -/
def step (c : Config) (i : Input) (s : State) : State where
  trace := CaptureChain.step (traceInput c i s) s.trace
  m3 := CaptureChain.step (m3Input c i s) s.m3
  side := sideNext c i s

/-- What the registers and memories without a reset hold before the run. -/
structure Leftover where
  traceMem : BitVec CaptureChain.CDC_DEPTH_LOG2 → UInt8
  m3Mem : BitVec CaptureChain.CDC_DEPTH_LOG2 → UInt8
  demux : TpiuDemux.State
  encoder : OrbflowEncoder.State

def resetState (l : Leftover) : State where
  trace := CaptureChain.resetState l.traceMem
  m3 := CaptureChain.resetState l.m3Mem
  side := StreamSide.resetState l.demux l.encoder

/-- The trace path after a reset, driven by the schedule `inp`. -/
def run (c : Config) (l : Leftover) (inp : ℕ → Input) : Clocked.Run Input State where
  step := step c
  start := resetState l
  input := inp

/-! ### What software gets to see -/

/-- `core_dropped+cdc_drops_sync+m3_cdc_drops_sync` -/
def droppedBytes (s : State) : BitVec 64 :=
  s.side.frames.encoder.droppedBytes + CaptureChain.dropsSync s.trace +
    CaptureChain.dropsSync s.m3

/-- `core_overrun|overrun_s2|m3_overrun_s2` -/
def irqOverrun (s : State) : Bool :=
  s.side.frames.encoder.overrun || s.trace.overrunS2 || s.m3.overrunS2

/-- A beat of the AXI stream: `m_axis_tdata`, `m_axis_tkeep` and `m_axis_tlast`. -/
structure Beat where
  data : Fin 8 → UInt8
  keep : Fin 8 → Bool
  last : Bool

/-- The beat offered on the AXI stream, if `m_axis_tvalid` is high. -/
def stream (s : State) : Option Beat :=
  if s.side.packer.outputValid then
    some ⟨s.side.packer.outputData, s.side.packer.outputKeep, s.side.packer.outputLast⟩
  else none

/-- The beat handed over at this instant. -/
def handedOver (i : Input) (s : State) : List Beat :=
  if i.aclk && i.mAxisTready then (stream s).toList else []

end TracePath
