import Zub1cg.Rtl.AxiRegs.Mailbox
import Zub1cg.Rtl.DapEngine.Packet

/-!
# The register block and the packet engine together (`orbtrace_pl.v`)

The two blocks share `aclk` and are wired to each other; what the rest of the PL feeds
them (interrupt events, counters, the JTAG input) is an environment that may do anything
in every cycle. Both blocks are out of reset.

## Main definitions

- `Pl.Env`, `Pl.Bus` — the surroundings and the bus master's signals in one cycle
- `Pl.step` — one edge of `aclk`
-/

namespace Pl

/-- What the surroundings of the two blocks drive in one cycle. -/
structure Env where
  dmaComplete : Bool
  overrun : Bool
  debugComplete : Bool
  receivedBytes : BitVec 64
  droppedBytes : BitVec 64
  syncLoss : BitVec 64
  fifoHighWater : BitVec 32
  dmaFault : Bool
  jtagTdo : Bool

/-- What the AXI-Lite master drives in one cycle. -/
structure Bus where
  awaddr : BitVec 16
  awvalid : Bool
  wdata : BitVec 32
  wstrb : BitVec 4
  wvalid : Bool
  bready : Bool
  araddr : BitVec 16
  arvalid : Bool
  rready : Bool

/-- A master that does nothing. -/
def Bus.idle : Bus where
  awaddr := 0
  awvalid := false
  wdata := 0
  wstrb := 0
  wvalid := false
  bready := false
  araddr := 0
  arvalid := false
  rready := false

structure State where
  regs : AxiRegs.State
  dap : DapEngine.State

/-- The ports of `regs`. -/
def regsInput (e : Env) (u : Bus) (s : State) : AxiRegs.Input where
  aresetn := true
  sAxiAwaddr := u.awaddr
  sAxiAwvalid := u.awvalid
  sAxiWdata := u.wdata
  sAxiWstrb := u.wstrb
  sAxiWvalid := u.wvalid
  sAxiBready := u.bready
  sAxiAraddr := u.araddr
  sAxiArvalid := u.arvalid
  sAxiRready := u.rready
  irqDmaComplete := e.dmaComplete
  irqOverrun := e.overrun
  irqDebugComplete := e.debugComplete || s.dap.debugComplete
  receivedBytes := e.receivedBytes
  droppedBytes := e.droppedBytes
  syncLoss := e.syncLoss
  fifoHighWater := e.fifoHighWater
  dmaFaults := 0#63 ++ BitVec.ofBool e.dmaFault
  dapCommandReady := DapEngine.commandReady s.dap
  dapResponseData := DapEngine.responseData s.dap
  dapResponseValid := DapEngine.responseValid s.dap
  dapResponseLast := DapEngine.responseLast s.dap
  dapTransferCount := s.dap.transferCount
  dapAbortCount := s.dap.abortCount

/-- The ports of `dap_engine`. -/
def dapInput (e : Env) (s : State) : DapEngine.Input where
  resetN := true
  commandData := s.regs.dapCommandData
  commandValid := s.regs.dapCommandValid
  commandLast := s.regs.dapCommandLast
  responseReady := AxiRegs.dapResponseReady s.regs
  forceWait := s.regs.dapForceWait
  forceFault := s.regs.dapForceFault
  forceParityError := s.regs.dapForceParityError
  useRealTarget := s.regs.m3DapReal
  jtagTdo := e.jtagTdo

/-- One edge of `aclk`. -/
def step (e : Env) (u : Bus) (s : State) : State where
  regs := AxiRegs.step (regsInput e u s) s.regs
  dap := DapEngine.step (dapInput e s) s.dap

/-- The request byte the engine takes at this edge, with its last flag. -/
def commandByte (e : Env) (s : State) : List (UInt8 × Bool) :=
  if DapEngine.commandFire (dapInput e s) s.dap then
    [(s.regs.dapCommandData, s.regs.dapCommandLast)]
  else []

/-- The response byte the engine hands over at this edge, with its last flag. -/
def responseByte (e : Env) (s : State) : List (UInt8 × Bool) :=
  if DapEngine.responseFire (dapInput e s) s.dap then
    [(DapEngine.responseData s.dap, DapEngine.responseLast s.dap)]
  else []

end Pl
