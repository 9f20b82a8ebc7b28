import Zub1cg.Library.Clocked
import Mathlib.Data.BitVec

/-!
# The AXI-Lite register block (`orbtrace_axi_regs.sv`)

One always-ff block holding the AXI handshake, the configuration registers, the
interrupt status and the two one-byte holds of the DAP mailbox. Nonblocking
assignments are modelled by an accumulator: every update reads the old state `s` and
writes the new state `n`, so a later assignment to a register overrides an earlier one.

## Main definitions

- `AxiRegs.State`, `AxiRegs.Input` — the registers and the ports sampled at one edge
- `AxiRegs.step` — one edge of `aclk`
- `AxiRegs.writeFire`, `AxiRegs.readFire` — the edges on which a register access happens
-/

/-! ## Register offsets (`orbtrace_regs.svh`) -/

namespace Regs

def ID : BitVec 16 := 0x0000
def VERSION : BitVec 16 := 0x0004
def CONTROL : BitVec 16 := 0x0008
def SOURCE_FORMAT : BitVec 16 := 0x000c
def SWO_BAUD : BitVec 16 := 0x0010
def DMA_BASE_LO : BitVec 16 := 0x0018
def DMA_BASE_HI : BitVec 16 := 0x001c
def DMA_RING_SIZE : BitVec 16 := 0x0020
def IRQ_STATUS : BitVec 16 := 0x0024
def IRQ_ENABLE : BitVec 16 := 0x0028
def RX_BYTES_LO : BitVec 16 := 0x0040
def RX_BYTES_HI : BitVec 16 := 0x0044
def DROP_BYTES_LO : BitVec 16 := 0x0048
def DROP_BYTES_HI : BitVec 16 := 0x004c
def SYNC_LOSS_LO : BitVec 16 := 0x0050
def SYNC_LOSS_HI : BitVec 16 := 0x0054
def FIFO_HIGH_WATER : BitVec 16 := 0x0058
def DMA_FAULTS_LO : BitVec 16 := 0x0060
def DMA_FAULTS_HI : BitVec 16 := 0x0064
def DAP_COMMAND : BitVec 16 := 0x0080
def DAP_RESPONSE : BitVec 16 := 0x0084
def DAP_STATUS : BitVec 16 := 0x0088
def DAP_CONTROL : BitVec 16 := 0x008c
def DAP_TRANSFERS_LO : BitVec 16 := 0x0090
def DAP_TRANSFERS_HI : BitVec 16 := 0x0094
def DAP_ABORTS : BitVec 16 := 0x0098
def M3_CONTROL : BitVec 16 := 0x00a0

end Regs

namespace AxiRegs

/-- The input ports sampled at one edge of `aclk`. -/
structure Input where
  aresetn : Bool
  sAxiAwaddr : BitVec 16
  sAxiAwvalid : Bool
  sAxiWdata : BitVec 32
  sAxiWstrb : BitVec 4
  sAxiWvalid : Bool
  sAxiBready : Bool
  sAxiAraddr : BitVec 16
  sAxiArvalid : Bool
  sAxiRready : Bool
  irqDmaComplete : Bool
  irqOverrun : Bool
  irqDebugComplete : Bool
  receivedBytes : BitVec 64
  droppedBytes : BitVec 64
  syncLoss : BitVec 64
  fifoHighWater : BitVec 32
  dmaFaults : BitVec 64
  dapCommandReady : Bool
  dapResponseData : UInt8
  dapResponseValid : Bool
  dapResponseLast : Bool
  dapTransferCount : BitVec 64
  dapAbortCount : BitVec 32

/-- Out of reset with every input low. -/
def Input.idle : Input where
  aresetn := true
  sAxiAwaddr := 0
  sAxiAwvalid := false
  sAxiWdata := 0
  sAxiWstrb := 0
  sAxiWvalid := false
  sAxiBready := false
  sAxiAraddr := 0
  sAxiArvalid := false
  sAxiRready := false
  irqDmaComplete := false
  irqOverrun := false
  irqDebugComplete := false
  receivedBytes := 0
  droppedBytes := 0
  syncLoss := 0
  fifoHighWater := 0
  dmaFaults := 0
  dapCommandReady := false
  dapResponseData := 0
  dapResponseValid := false
  dapResponseLast := false
  dapTransferCount := 0
  dapAbortCount := 0

/-- The registers. -/
structure State where
  sAxiBvalid : Bool
  sAxiRvalid : Bool
  sAxiRdata : BitVec 32
  awPending : Bool
  wPending : Bool
  awaddrHold : BitVec 16
  wdataHold : BitVec 32
  wstrbHold : BitVec 4
  startPulse : Bool
  stopPulse : Bool
  resetPulse : Bool
  sourceSelect : BitVec 2
  traceFormat : BitVec 3
  swoBaud : BitVec 32
  dmaBase : BitVec 64
  dmaRingSize : BitVec 32
  irqStatus : BitVec 3
  irqEnable : BitVec 3
  dapCommandData : UInt8
  dapCommandValid : Bool
  dapCommandLast : Bool
  dapResponseHold : UInt8
  dapResponseHoldValid : Bool
  dapResponseHoldLast : Bool
  dapForceWait : Bool
  dapForceFault : Bool
  dapForceParityError : Bool
  m3Release : Bool
  m3DapReal : Bool

/-- The values assigned while `aresetn` is low. -/
def resetState : State where
  sAxiBvalid := false
  sAxiRvalid := false
  sAxiRdata := 0
  awPending := false
  wPending := false
  awaddrHold := 0
  wdataHold := 0
  wstrbHold := 0
  startPulse := false
  stopPulse := false
  resetPulse := false
  sourceSelect := 0
  traceFormat := 0
  swoBaud := 2000000
  dmaBase := 0
  dmaRingSize := 0
  irqStatus := 0
  irqEnable := 0
  dapCommandData := 0
  dapCommandValid := false
  dapCommandLast := false
  dapResponseHold := 0
  dapResponseHoldValid := false
  dapResponseHoldLast := false
  dapForceWait := false
  dapForceFault := false
  dapForceParityError := false
  m3Release := false
  m3DapReal := false

/-! ### Wires -/

def awready (s : State) : Bool := !s.awPending && !s.sAxiBvalid

def wready (s : State) : Bool := !s.wPending && !s.sAxiBvalid

def arready (s : State) : Bool := !s.sAxiRvalid

def awTake (i : Input) (s : State) : Bool := i.sAxiAwvalid && awready s

def wTake (i : Input) (s : State) : Bool := i.sAxiWvalid && wready s

/-- A register write takes effect at this edge. -/
def writeFire (i : Input) (s : State) : Bool :=
  (s.awPending || awTake i s) && (s.wPending || wTake i s) && !s.sAxiBvalid

def writeAddress (i : Input) (s : State) : BitVec 16 :=
  if s.awPending then s.awaddrHold else i.sAxiAwaddr

def writeData (i : Input) (s : State) : BitVec 32 :=
  if s.wPending then s.wdataHold else i.sAxiWdata

/-- A register read is sampled at this edge. -/
def readFire (i : Input) (s : State) : Bool := i.sAxiArvalid && arready s

def irq (s : State) : Bool := (s.irqStatus &&& s.irqEnable) != 0

def dapResponseReady (s : State) : Bool := !s.dapResponseHoldValid

/-! ### The clocked block -/

/-- The pulses, the interrupt sources and the mailbox handshakes, which run on every edge. -/
def backgroundUpdate (i : Input) (s n : State) : State :=
  let n := { n with startPulse := false, stopPulse := false, resetPulse := false }
  let n := if i.irqDmaComplete then { n with irqStatus := n.irqStatus ||| 1 } else n
  let n := if i.irqOverrun then { n with irqStatus := n.irqStatus ||| 2 } else n
  let n := if i.irqDebugComplete then { n with irqStatus := n.irqStatus ||| 4 } else n
  let n := if s.sAxiBvalid && i.sAxiBready then { n with sAxiBvalid := false } else n
  let n := if s.dapCommandValid && i.dapCommandReady then
    { n with dapCommandValid := false } else n
  if i.dapResponseValid && dapResponseReady s then
    { n with
      dapResponseHold := i.dapResponseData
      dapResponseHoldLast := i.dapResponseLast
      dapResponseHoldValid := true }
  else n

/-- The `case (write_address)` of a register write. -/
def writeRegister (s n : State) (address : BitVec 16) (data : BitVec 32) : State :=
  if address = Regs.CONTROL then
    { n with
      startPulse := data.getLsbD 0, stopPulse := data.getLsbD 1, resetPulse := data.getLsbD 2 }
  else if address = Regs.SOURCE_FORMAT then
    { n with sourceSelect := data.extractLsb' 0 2, traceFormat := data.extractLsb' 8 3 }
  else if address = Regs.SWO_BAUD then { n with swoBaud := data }
  else if address = Regs.DMA_BASE_LO then
    { n with dmaBase := s.dmaBase.extractLsb' 32 32 ++ data }
  else if address = Regs.DMA_BASE_HI then
    { n with dmaBase := data ++ s.dmaBase.extractLsb' 0 32 }
  else if address = Regs.DMA_RING_SIZE then { n with dmaRingSize := data }
  else if address = Regs.IRQ_STATUS then
    { n with irqStatus := s.irqStatus &&& ~~~(data.extractLsb' 0 3) }
  else if address = Regs.IRQ_ENABLE then { n with irqEnable := data.extractLsb' 0 3 }
  else if address = Regs.DAP_COMMAND then
    if !s.dapCommandValid then
      { n with
        dapCommandData := UInt8.ofBitVec (data.extractLsb' 0 8)
        dapCommandLast := data.getLsbD 8
        dapCommandValid := true }
    else n
  else if address = Regs.DAP_CONTROL then
    { n with
      dapForceWait := data.getLsbD 0
      dapForceFault := data.getLsbD 1
      dapForceParityError := data.getLsbD 2 }
  else if address = Regs.M3_CONTROL then
    { n with m3Release := data.getLsbD 0, m3DapReal := data.getLsbD 1 }
  else n

/-- The two write channels and the write they complete. -/
def writeUpdate (i : Input) (s n : State) : State :=
  let n := if awTake i s then { n with awaddrHold := i.sAxiAwaddr, awPending := true } else n
  let n := if wTake i s then
    { n with wdataHold := i.sAxiWdata, wstrbHold := i.sAxiWstrb, wPending := true } else n
  if writeFire i s then
    writeRegister s { n with sAxiBvalid := true, awPending := false, wPending := false }
      (writeAddress i s) (writeData i s)
  else n

/-- The word a read of `address` returns. -/
def readRegister (i : Input) (s : State) (address : BitVec 16) : BitVec 32 :=
  if address = Regs.ID then 0x4f524254
  else if address = Regs.VERSION then 0x00010000
  else if address = Regs.SOURCE_FORMAT then 0#21 ++ s.traceFormat ++ 0#6 ++ s.sourceSelect
  else if address = Regs.SWO_BAUD then s.swoBaud
  else if address = Regs.DMA_BASE_LO then s.dmaBase.extractLsb' 0 32
  else if address = Regs.DMA_BASE_HI then s.dmaBase.extractLsb' 32 32
  else if address = Regs.DMA_RING_SIZE then s.dmaRingSize
  else if address = Regs.IRQ_STATUS then 0#29 ++ s.irqStatus
  else if address = Regs.IRQ_ENABLE then 0#29 ++ s.irqEnable
  else if address = Regs.RX_BYTES_LO then i.receivedBytes.extractLsb' 0 32
  else if address = Regs.RX_BYTES_HI then i.receivedBytes.extractLsb' 32 32
  else if address = Regs.DROP_BYTES_LO then i.droppedBytes.extractLsb' 0 32
  else if address = Regs.DROP_BYTES_HI then i.droppedBytes.extractLsb' 32 32
  else if address = Regs.SYNC_LOSS_LO then i.syncLoss.extractLsb' 0 32
  else if address = Regs.SYNC_LOSS_HI then i.syncLoss.extractLsb' 32 32
  else if address = Regs.FIFO_HIGH_WATER then i.fifoHighWater
  else if address = Regs.DMA_FAULTS_LO then i.dmaFaults.extractLsb' 0 32
  else if address = Regs.DMA_FAULTS_HI then i.dmaFaults.extractLsb' 32 32
  else if address = Regs.DAP_RESPONSE then
    0#22 ++ BitVec.ofBool s.dapResponseHoldLast ++ BitVec.ofBool s.dapResponseHoldValid ++
      s.dapResponseHold.toBitVec
  else if address = Regs.DAP_STATUS then
    0#30 ++ BitVec.ofBool s.dapResponseHoldValid ++ BitVec.ofBool (!s.dapCommandValid)
  else if address = Regs.DAP_CONTROL then
    0#29 ++ BitVec.ofBool s.dapForceParityError ++ BitVec.ofBool s.dapForceFault ++
      BitVec.ofBool s.dapForceWait
  else if address = Regs.DAP_TRANSFERS_LO then i.dapTransferCount.extractLsb' 0 32
  else if address = Regs.DAP_TRANSFERS_HI then i.dapTransferCount.extractLsb' 32 32
  else if address = Regs.DAP_ABORTS then i.dapAbortCount
  else if address = Regs.M3_CONTROL then
    0#30 ++ BitVec.ofBool s.m3DapReal ++ BitVec.ofBool s.m3Release
  else 0

/-- The read channel. Reading `DAP_RESPONSE` also empties the response hold. -/
def readUpdate (i : Input) (s n : State) : State :=
  let n := if s.sAxiRvalid && i.sAxiRready then { n with sAxiRvalid := false } else n
  if readFire i s then
    let n := { n with sAxiRvalid := true, sAxiRdata := readRegister i s i.sAxiAraddr }
    if i.sAxiAraddr = Regs.DAP_RESPONSE then { n with dapResponseHoldValid := false } else n
  else n

/-- One edge of `aclk`. -/
def step (i : Input) (s : State) : State :=
  if !i.aresetn then resetState
  else readUpdate i s (writeUpdate i s (backgroundUpdate i s s))

/-- The register block started in `s` and driven by the schedule `inp`. -/
def run (s : State) (inp : ℕ → Input) : Clocked.Run Input State where
  step := step
  start := s
  input := inp

end AxiRegs
