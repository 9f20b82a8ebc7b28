import Zub1cg.Rtl.StreamSide

/-!
# The core (`orbtrace_core.sv`)

From the sources to the frames: the selection of a source, the TPIU demultiplexer, or the way
around it, and packetizer and encoder. Everything on the ports may change from edge to edge. What
is behind the core in `orbtrace_pl.v`, the packer of the AXI stream, is connected to it here.

## Main definitions

- `Core.Input`, `Core.State`, `Core.step` — the core
- `Stream.Input`, `Stream.State`, `Stream.step` — the core and the packer behind it

## Main results

- `Stream.step_side` — the stream side of the trace path is a core with its packer
-/

namespace Core

open SourceMux (Source)

/-- The input ports sampled at one edge of `clk`. -/
structure Input where
  resetN : Bool
  sourceSelect : BitVec 2
  traceFormat : BitVec 3
  resetSync : Bool
  m3 : Source
  coresight : Source
  test : Source
  mAxisTready : Bool

structure State where
  demux : TpiuDemux.State
  frames : FrameChain.State

/-! ### Wires -/

/-- `trace_format >= 3` -/
def bypassTpiu (i : Input) : Bool := i.traceFormat ≥ 3

/-- `selected_data` and `selected_valid` -/
def selected (i : Input) : Source := SourceMux.output i.sourceSelect i.m3 i.coresight i.test

/-- The ports of `packetizer` and `m_axis_tready`. -/
def framesInput (i : Input) (s : State) : FrameChain.Input where
  resetN := i.resetN
  inputChannel := if bypassTpiu i then 1 else s.demux.channel
  inputData := if bypassTpiu i then (selected i).data else TpiuDemux.unmangled s.demux
  inputValid := if bypassTpiu i then (selected i).valid else TpiuDemux.outputValid s.demux
  mAxisTready := i.mAxisTready

def demuxReady (i : Input) (s : State) : Bool :=
  ChannelPacketizer.inputReady FrameChain.ORBFLOW_PAYLOAD
    (FrameChain.packetizerInput (framesInput i s) s.frames) s.frames.packetizer

/-- The ports of `demux`. -/
def demuxInput (i : Input) (s : State) : TpiuDemux.Input where
  resetN := i.resetN
  resetSync := i.resetSync
  inputData := (selected i).data
  inputValid := (selected i).valid && !bypassTpiu i
  outputReady := demuxReady i s
  m3Source := i.sourceSelect == 0

/-- `bypass_tpiu ? demux_ready : tpiu_input_ready` -/
def selectedReady (i : Input) (s : State) : Bool :=
  if bypassTpiu i then demuxReady i s else TpiuDemux.inputReady s.demux

/-- `m3_ready`, `coresight_ready` and `test_ready` -/
def sourcesReady (i : Input) (s : State) : Bool × Bool × Bool :=
  SourceMux.ready i.sourceSelect (selectedReady i s)

/-- One edge of `clk`. -/
def step (packetTimeout : ℕ) (i : Input) (s : State) : State where
  demux := TpiuDemux.step (demuxInput i s) s.demux
  frames := FrameChain.step packetTimeout (framesInput i s) s.frames

end Core

/-! ### The packer behind the core (`orbtrace_pl.v`) -/

namespace Stream

open SourceMux (Source)
open StreamSide (FRAMES_PER_TRANSFER PACKET_TIMEOUT)

/-- The ports at one edge of `aclk`: those of the core towards the sources, and
`m_axis_tready`. -/
structure Input where
  aresetn : Bool
  sourceSelect : BitVec 2
  traceFormat : BitVec 3
  resetPulse : Bool
  m3 : Source
  coresight : Source
  test : Source
  mAxisTready : Bool

structure State where
  core : Core.State
  packer : AxisPacker.State

/-- The ports of `stream_packer`. -/
def packerInput (i : Input) (s : State) : AxisPacker.Input where
  resetN := i.aresetn
  inputData := OrbflowEncoder.outputData s.core.frames.encoder
  inputValid := OrbflowEncoder.outputValid s.core.frames.encoder
  inputLast := OrbflowEncoder.outputLast s.core.frames.encoder
  outputReady := i.mAxisTready

/-- The ports of `core`. -/
def coreInput (i : Input) (s : State) : Core.Input where
  resetN := i.aresetn
  sourceSelect := i.sourceSelect
  traceFormat := i.traceFormat
  resetSync := i.resetPulse
  m3 := i.m3
  coresight := i.coresight
  test := i.test
  mAxisTready := AxisPacker.inputReady (packerInput i s) s.packer

/-- One edge of `aclk`. -/
def step (i : Input) (s : State) : State where
  core := Core.step PACKET_TIMEOUT (coreInput i s) s.core
  packer := AxisPacker.step FRAMES_PER_TRANSFER (packerInput i s) s.packer

/-- Core and packer after a reset, driven by the schedule `inp`; `demux` and `encoder` are what
the memories held before. -/
def run (demux : TpiuDemux.State) (encoder : OrbflowEncoder.State) (inp : ℕ → Input) :
    Clocked.Run Input State where
  step := step
  start :=
    { core :=
        { demux := TpiuDemux.resetState demux
          frames :=
            { packetizer := ChannelPacketizer.resetState
              encoder := OrbflowEncoder.resetState encoder } }
      packer := AxisPacker.resetState }
  input := inp

/-! ### The stream side of the trace path -/

/-- Core and packer of the stream side. -/
def ofSide (s : StreamSide.State) : State where
  core := { demux := s.path.demux, frames := s.frames }
  packer := s.packer

/-- What they are connected to there. -/
def sideInput (c : StreamSide.Config) (i : StreamSide.Input) (s : StreamSide.State) : Input where
  aresetn := i.aresetn
  sourceSelect := c.sourceSelect
  traceFormat := c.traceFormat
  resetPulse := i.resetPulse
  m3 := StreamSide.m3 c i s
  coresight := StreamSide.selectedCapture c i s
  test := StreamSide.test c s
  mAxisTready := i.mAxisTready

/-- The stream side of the trace path is a core with its packer, and its sources. -/
theorem step_side (c : StreamSide.Config) (i : StreamSide.Input) (s : StreamSide.State) :
    ofSide (StreamSide.step c i s) = step (sideInput c i s) (ofSide s) := rfl

end Stream
