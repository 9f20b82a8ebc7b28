import Zub1cg.Rtl.ChannelPacketizer
import Zub1cg.Rtl.OrbflowEncoder

/-!
# Packetizer and encoder in a row (`orbtrace_core.sv`)

The packetizer feeds the encoder, both for packets of up to `ORBFLOW_PAYLOAD` bytes. What is
in front of the packetizer, the sources and the TPIU demultiplexer, is left to the inputs.

## Main definitions

- `FrameChain.State`, `FrameChain.Input` — the two instances and the ports at one edge
- `FrameChain.step` — one edge of `clk`
-/

namespace FrameChain

def ORBFLOW_PAYLOAD : ℕ := 8192

/-- The input ports of `packetizer` and the sink's `m_axis_tready` sampled at one edge of
`clk`. -/
structure Input where
  resetN : Bool
  inputChannel : BitVec 7
  inputData : UInt8
  inputValid : Bool
  mAxisTready : Bool

structure State where
  packetizer : ChannelPacketizer.State
  encoder : OrbflowEncoder.State

/-- The ports of `packetizer`; `packet_ready` comes from the encoder. -/
def packetizerInput (i : Input) (s : State) : ChannelPacketizer.Input where
  resetN := i.resetN
  inputChannel := i.inputChannel
  inputData := i.inputData
  inputValid := i.inputValid
  outputReady := OrbflowEncoder.inputReady s.encoder

/-- The ports of `encoder`; `packet_channel`, `packet_data`, `packet_valid` and `packet_last` come
from the packetizer. -/
def encoderInput (i : Input) (s : State) : OrbflowEncoder.Input where
  resetN := i.resetN
  inputChannel := s.packetizer.channel
  inputData := s.packetizer.heldData
  inputValid := ChannelPacketizer.outputValid ORBFLOW_PAYLOAD (packetizerInput i s) s.packetizer
  inputLast := ChannelPacketizer.outputLast ORBFLOW_PAYLOAD (packetizerInput i s) s.packetizer
  outputReady := i.mAxisTready

/-- One edge of `clk`. -/
def step (packetTimeout : ℕ) (i : Input) (s : State) : State where
  packetizer :=
    ChannelPacketizer.step ORBFLOW_PAYLOAD packetTimeout (packetizerInput i s) s.packetizer
  encoder := OrbflowEncoder.step ORBFLOW_PAYLOAD (encoderInput i s) s.encoder

/-- The chain coming out of reset and driven by the schedule `inp`. -/
def run (packetTimeout : ℕ) (s₀ : OrbflowEncoder.State) (inp : ℕ → Input) :
    Clocked.Run Input State where
  step := step packetTimeout
  start :=
    { packetizer := ChannelPacketizer.resetState, encoder := OrbflowEncoder.resetState s₀ }
  input := inp

/-- The byte the packetizer takes at this edge, with its channel. -/
def accepted (i : Input) (s : State) : List (BitVec 7 × UInt8) :=
  ChannelPacketizer.accepted ORBFLOW_PAYLOAD (packetizerInput i s) s.packetizer

/-- The byte that passes from the packetizer to the encoder at this edge. -/
def passed (i : Input) (s : State) : List ((BitVec 7 × UInt8) × Bool) :=
  ChannelPacketizer.handedOver ORBFLOW_PAYLOAD (packetizerInput i s) s.packetizer

/-- The byte the encoder emits at this edge, with its last flag. -/
def emitted (i : Input) (s : State) : List (UInt8 × Bool) :=
  OrbflowEncoder.handedOver (encoderInput i s) s.encoder

end FrameChain
