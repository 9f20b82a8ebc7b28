import Zub1cg.Rtl.TestPath
import Zub1cg.Rtl.FrameChain
import Zub1cg.Rtl.SwoNrz
import Zub1cg.Rtl.SwoManchester
import Zub1cg.Rtl.AxisPacker
import Zub1cg.Rtl.BaudTick

/-!
# The trace path's stream side (`orbtrace_pl.v`, `orbtrace_core.sv`)

What is clocked by `aclk` between the two capture FIFOs and the AXI stream: the run bit, the
two SWO receivers on the selected port's pin, the built-in source, and the core from the source
selection to the packer. The registers that configure a trace are constants.

## Main definitions

- `StreamSide.Config` — the configuration registers
- `StreamSide.State`, `StreamSide.Input` — the registers and the ports at one edge
- `StreamSide.step` — one edge of `aclk`
- `StreamSide.cdcReady`, `m3CdcReady` — which FIFO is read

## Main results

- `step_congr` — the stream side sees the selected port only
- `unselected_not_ready` — in a TPIU format the other port's FIFO is not read
-/

namespace StreamSide

open SourceMux (Source)

def PACKET_TIMEOUT : ℕ := 7500000

def FRAMES_PER_TRANSFER : ℕ := 2

/-- `source_select`, `trace_format` and `swo_baud` -/
structure Config where
  sourceSelect : BitVec 2
  traceFormat : BitVec 3
  swoBaud : BitVec 32

/-- The ports sampled at one edge of `aclk`: `cdc` and `m3Cdc` are the read sides of the two
FIFOs. -/
structure Input where
  aresetn : Bool
  startPulse : Bool
  stopPulse : Bool
  resetPulse : Bool
  traceData : BitVec 4
  traceDataM3 : BitVec 4
  cdc : Source
  m3Cdc : Source
  mAxisTready : Bool

structure State where
  running : Bool
  baud : BaudTick.State
  nrz : SwoNrz.State
  manchester : SwoManchester.State
  path : TestPath.State
  frames : FrameChain.State
  packer : AxisPacker.State

/-! ### Wires -/

/-- `source_select==0 ? trace_data_m3[0] : trace_data[0]` -/
def swo (c : Config) (i : Input) : Bool :=
  if c.sourceSelect == 0 then i.traceDataM3.getLsbD 0 else i.traceData.getLsbD 0

/-- What the format takes in the place of the bytes of a FIFO. -/
def decoded (c : Config) (fifo : Source) (s : State) : Source :=
  if c.traceFormat = 3 then ⟨s.nrz.outputData, s.nrz.outputValid⟩
  else if c.traceFormat = 4 then ⟨s.manchester.outputData, s.manchester.outputValid⟩
  else fifo

/-- `selected_capture_data` and `selected_capture_valid` -/
def selectedCapture (c : Config) (i : Input) (s : State) : Source :=
  ⟨(decoded c i.cdc s).data, s.running && c.sourceSelect != 0 && (decoded c i.cdc s).valid⟩

/-- `m3_data` and `m3_valid` -/
def m3 (c : Config) (i : Input) (s : State) : Source :=
  ⟨(decoded c i.m3Cdc s).data, s.running && c.sourceSelect == 0 && (decoded c i.m3Cdc s).valid⟩

/-- `test_data` and `test_valid` -/
def test (c : Config) (s : State) : Source :=
  ⟨TestSource.outputData TestPath.RAW_BASE (c.traceFormat < 3) s.path.source,
    s.running && c.sourceSelect == 3⟩

/-- `selected_data` and `selected_valid` -/
def selected (c : Config) (i : Input) (s : State) : Source :=
  SourceMux.output c.sourceSelect (m3 c i s) (selectedCapture c i s) (test c s)

/-- `trace_format >= 3` -/
def bypassTpiu (c : Config) : Bool := c.traceFormat ≥ 3

/-- The ports of `stream_packer`; the frames come from the encoder. -/
def packerInput (i : Input) (s : State) : AxisPacker.Input where
  resetN := i.aresetn
  inputData := OrbflowEncoder.outputData s.frames.encoder
  inputValid := OrbflowEncoder.outputValid s.frames.encoder
  inputLast := OrbflowEncoder.outputLast s.frames.encoder
  outputReady := i.mAxisTready

/-- The ports of `packetizer` and `core_axis_tready`. -/
def framesInput (c : Config) (i : Input) (s : State) : FrameChain.Input where
  resetN := i.aresetn
  inputChannel := if bypassTpiu c then 1 else s.path.demux.channel
  inputData := if bypassTpiu c then (selected c i s).data else TpiuDemux.unmangled s.path.demux
  inputValid := if bypassTpiu c then (selected c i s).valid else TpiuDemux.outputValid s.path.demux
  mAxisTready := AxisPacker.inputReady (packerInput i s) s.packer

def demuxReady (c : Config) (i : Input) (s : State) : Bool :=
  ChannelPacketizer.inputReady FrameChain.ORBFLOW_PAYLOAD
    (FrameChain.packetizerInput (framesInput c i s) s.frames) s.frames.packetizer

/-- What the generator and the demultiplexer are connected to. -/
def pathInput (c : Config) (i : Input) (s : State) : TestPath.Input where
  resetN := i.aresetn
  resetSync := i.resetPulse
  running := s.running
  sourceSelect := c.sourceSelect
  traceFormat := c.traceFormat
  m3 := m3 c i s
  coresight := selectedCapture c i s
  demuxReady := demuxReady c i s

/-- `selected_ready` -/
def selectedReady (c : Config) (i : Input) (s : State) : Bool :=
  TestPath.selectedReady (pathInput c i s) s.path

def m3Ready (c : Config) (i : Input) (s : State) : Bool :=
  (SourceMux.ready c.sourceSelect (selectedReady c i s)).1

def selectedCaptureReady (c : Config) (i : Input) (s : State) : Bool :=
  (SourceMux.ready c.sourceSelect (selectedReady c i s)).2.1

/-- `trace_format<3 ? selected_capture_ready : 1'b1` -/
def cdcReady (c : Config) (i : Input) (s : State) : Bool :=
  -- a format that does not use the FIFO throws its contents away
  if c.traceFormat < 3 then selectedCaptureReady c i s else true

/-- `trace_format<3 ? m3_ready : 1'b1` -/
def m3CdcReady (c : Config) (i : Input) (s : State) : Bool :=
  if c.traceFormat < 3 then m3Ready c i s else true

def nrzManchesterReady (c : Config) (i : Input) (s : State) : Bool :=
  if c.sourceSelect == 0 then m3Ready c i s else selectedCaptureReady c i s

/-- The ports of `nrz`. -/
def nrzInput (c : Config) (i : Input) (s : State) : SwoNrz.Input where
  resetN := i.aresetn
  swo := swo c i
  sampleTick := s.baud.tick
  outputReady := if c.traceFormat = 3 then nrzManchesterReady c i s else false

/-- The ports of `manchester`. -/
def manchesterInput (c : Config) (i : Input) (s : State) : SwoManchester.Input where
  resetN := i.aresetn
  swo := swo c i
  sampleTick := s.baud.tick
  outputReady := if c.traceFormat = 4 then nrzManchesterReady c i s else false

/-! ### The clocked blocks -/

def runningNext (i : Input) (s : State) : Bool :=
  if !i.aresetn then false
  -- the later assignment of the block wins over a start
  else if i.stopPulse || i.resetPulse then false
  else if i.startPulse then true
  else s.running

/-- One edge of `aclk`. -/
def step (c : Config) (i : Input) (s : State) : State where
  running := runningNext i s
  baud := BaudTick.step i.aresetn c.swoBaud s.baud
  nrz := SwoNrz.step (nrzInput c i s) s.nrz
  manchester := SwoManchester.step (manchesterInput c i s) s.manchester
  path := TestPath.step (pathInput c i s) s.path
  frames := FrameChain.step PACKET_TIMEOUT (framesInput c i s) s.frames
  packer := AxisPacker.step FRAMES_PER_TRANSFER (packerInput i s) s.packer

/-- The registers after a reset; what the reset leaves alone in the demultiplexer and the
encoder keeps what it held. -/
def resetState (demux : TpiuDemux.State) (encoder : OrbflowEncoder.State) : State where
  running := false
  baud := BaudTick.resetState
  nrz := SwoNrz.resetState
  manchester := SwoManchester.resetState
  path := { source := TestSource.resetState, demux := TpiuDemux.resetState demux }
  frames :=
    { packetizer := ChannelPacketizer.resetState, encoder := OrbflowEncoder.resetState encoder }
  packer := AxisPacker.resetState

/-! ### The selected port -/

/-- The pins and the FIFO of the port that is selected. -/
def selectedPort (c : Config) (i : Input) : BitVec 4 × Source :=
  if c.sourceSelect = 0 then (i.traceDataM3, i.m3Cdc) else (i.traceData, i.cdc)

/-- Two inputs differ at most in the port that is not selected. -/
structure Agree (c : Config) (i i' : Input) : Prop where
  aresetn : i.aresetn = i'.aresetn
  startPulse : i.startPulse = i'.startPulse
  stopPulse : i.stopPulse = i'.stopPulse
  resetPulse : i.resetPulse = i'.resetPulse
  mAxisTready : i.mAxisTready = i'.mAxisTready
  port : selectedPort c i = selectedPort c i'

section

variable {c : Config} {i i' : Input} (h : Agree c i i') (s : State)

include h

theorem Agree.swo : swo c i = swo c i' := by
  have hport := h.port
  unfold selectedPort at hport
  unfold StreamSide.swo
  by_cases hm3 : c.sourceSelect = 0
  · rw [if_pos hm3, if_pos hm3, Prod.mk.injEq] at hport
    rw [hport.1, hm3]
    rfl
  · rw [if_neg hm3, if_neg hm3, Prod.mk.injEq] at hport
    rw [hport.1, beq_eq_false_iff_ne.mpr hm3]
    rfl

/-- The selection passes on nothing of the other port. -/
theorem Agree.selected : selected c i s = selected c i' s := by
  have hport := h.port
  unfold selectedPort at hport
  unfold StreamSide.selected SourceMux.output
  by_cases hm3 : c.sourceSelect = 0
  · rw [if_pos hm3, if_pos hm3, Prod.mk.injEq] at hport
    rw [hm3]
    change m3 c i s = m3 c i' s
    rw [m3, m3, hport.2]
  · rw [if_neg hm3, if_neg hm3, Prod.mk.injEq] at hport
    have hcapture : selectedCapture c i s = selectedCapture c i' s := by
      rw [selectedCapture, selectedCapture, hport.2]
    rw [hcapture]
    have hne : c.sourceSelect.toNat ≠ 0 := fun h0 => hm3 (BitVec.eq_of_toNat_eq h0)
    -- the bytes of the M3 are valid for no other selection
    split
    · contradiction
    all_goals rfl

theorem Agree.packerInput : packerInput i s = packerInput i' s := by
  rw [StreamSide.packerInput, StreamSide.packerInput, h.aresetn, h.mAxisTready]

theorem Agree.framesInput : framesInput c i s = framesInput c i' s := by
  rw [StreamSide.framesInput, StreamSide.framesInput, h.aresetn, h.selected s, h.packerInput s]

theorem Agree.demuxReady : demuxReady c i s = demuxReady c i' s := by
  rw [StreamSide.demuxReady, StreamSide.demuxReady, h.framesInput s]

theorem Agree.selectedReady : selectedReady c i s = selectedReady c i' s := by
  unfold StreamSide.selectedReady TestPath.selectedReady TestPath.bypassTpiu pathInput
  rw [h.demuxReady s]

/-- Neither the generator nor the demultiplexer takes anything else from the ports. -/
theorem Agree.path :
    TestPath.step (pathInput c i s) s.path = TestPath.step (pathInput c i' s) s.path := by
  have hselected (i : Input) : TestPath.selected (pathInput c i s) s.path =
    StreamSide.selected c i s := rfl
  have hready (i : Input) : TestPath.testReady (pathInput c i s) s.path =
    (SourceMux.ready c.sourceSelect (StreamSide.selectedReady c i s)).2.2 := rfl
  have hdemux : TestPath.demuxInput (pathInput c i s) s.path =
      TestPath.demuxInput (pathInput c i' s) s.path := by
    rw [TestPath.demuxInput, TestPath.demuxInput, hselected, hselected, h.selected s]
    unfold TestPath.bypassTpiu pathInput
    rw [h.aresetn, h.resetPulse, h.demuxReady s]
  rw [TestPath.step, TestPath.step, hdemux, hready, hready, h.selectedReady s]
  unfold TestPath.enable TestPath.tpiuMode pathInput
  rw [h.aresetn]

/-- **The stream side sees the selected port only.** -/
theorem step_congr : step c i s = step c i' s := by
  have hm3 : m3Ready c i s = m3Ready c i' s := by
    rw [m3Ready, m3Ready, h.selectedReady s]
  have hcapture : selectedCaptureReady c i s = selectedCaptureReady c i' s := by
    rw [selectedCaptureReady, selectedCaptureReady, h.selectedReady s]
  have hready : nrzManchesterReady c i s = nrzManchesterReady c i' s := by
    rw [nrzManchesterReady, nrzManchesterReady, hm3, hcapture]
  have hrunning : runningNext i s = runningNext i' s := by
    rw [runningNext, runningNext, h.aresetn, h.startPulse, h.stopPulse, h.resetPulse]
  rw [step, step, hrunning, h.aresetn, nrzInput, nrzInput, manchesterInput, manchesterInput,
    h.swo, hready, h.aresetn, h.path s, h.framesInput s, h.packerInput s]

/-- The selected port's FIFO is read alike. -/
theorem ready_congr : cdcReady c i s = cdcReady c i' s ∧ m3CdcReady c i s = m3CdcReady c i' s := by
  rw [cdcReady, cdcReady, m3CdcReady, m3CdcReady, selectedCaptureReady, selectedCaptureReady,
    m3Ready, m3Ready, h.selectedReady s]
  exact ⟨rfl, rfl⟩

end

/-- In a TPIU format the FIFO of the port that is not selected is not read. -/
theorem unselected_not_ready {c : Config} (hformat : c.traceFormat < 3) (i : Input) (s : State) :
    (if c.sourceSelect = 0 then cdcReady c i s else m3CdcReady c i s) = false := by
  rw [cdcReady, m3CdcReady, if_pos hformat, if_pos hformat, selectedCaptureReady, m3Ready]
  by_cases hm3 : c.sourceSelect = 0
  · rw [if_pos hm3, hm3]
    rfl
  · rw [if_neg hm3, SourceMux.ready]
    have hne : c.sourceSelect.toNat ≠ 0 := fun h0 => hm3 (BitVec.eq_of_toNat_eq h0)
    split
    · contradiction
    all_goals rfl

end StreamSide
