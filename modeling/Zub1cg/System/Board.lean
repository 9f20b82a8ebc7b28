import Zub1cg.Firmware.Controller
import Zub1cg.Rtl.Pl

/-!
# The firmware's registers are the PL

`Board` is the device the controller talks to on the board: the register block and the
packet engine, advancing on every clock cycle, and an AXI-Lite master that performs the
controller's accesses one after the other. When an access starts, how far apart its two
write channels come and when its answer is taken is arbitrary.

## Main definitions

- `Board`, `Board.tick` — the PL with its surroundings, and one clock cycle
- `AccessTiming`, `Board.write`, `Board.read` — one bus access
- the instance `RegisterIo Board`
-/

namespace System

open Pl (Bus)

/-- Which of the two write channels comes first. -/
inductive ChannelOrder where
  | together
  | addressFirst
  | dataFirst
  deriving DecidableEq, Repr

/-- The cycles one access spends idle: before it, between the two write channels, and
before its answer is taken. -/
structure AccessTiming where
  gap : ℕ
  order : ChannelOrder
  skew : ℕ
  delay : ℕ

/-- The PL, its surroundings in each cycle, the timing of an access that starts in a given
cycle, and what was seen at the mailbox and at the read channel so far. -/
structure Board where
  env : ℕ → Pl.Env
  timing : ℕ → AccessTiming
  cycle : ℕ
  pl : Pl.State
  commands : List (UInt8 × Bool)
  responses : List (UInt8 × Bool)
  reads : List (ℕ × BitVec 16)

namespace Board

/-- The ports of the register block in this cycle. -/
def ports (u : Bus) (b : Board) : AxiRegs.Input := Pl.regsInput (b.env b.cycle) u b.pl

/-- One clock cycle. -/
def tick (u : Bus) (b : Board) : Board :=
  { b with
    cycle := b.cycle + 1
    pl := Pl.step (b.env b.cycle) u b.pl
    commands := b.commands ++ Pl.commandByte (b.env b.cycle) b.pl
    responses := b.responses ++ Pl.responseByte (b.env b.cycle) b.pl
    reads := b.reads ++
      if AxiRegs.readFire (b.ports u) b.pl.regs then [(b.cycle, u.araddr)] else [] }

/-- One clock cycle for each entry. -/
def drive (us : List Bus) (b : Board) : Board := us.foldl (fun b u => b.tick u) b

/-! ### The bus master -/

def addressPhase (address : BitVec 16) : Bus :=
  { Bus.idle with awaddr := address, awvalid := true }

def dataPhase (data : BitVec 32) : Bus :=
  { Bus.idle with wdata := data, wstrb := 0xf, wvalid := true }

def writePhase (address : BitVec 16) (data : BitVec 32) : Bus :=
  { addressPhase address with wdata := data, wstrb := 0xf, wvalid := true }

def readPhase (address : BitVec 16) : Bus :=
  { Bus.idle with araddr := address, arvalid := true }

/-- The two write channels. The slave takes each of them in its first cycle. -/
def writeChannels (t : AccessTiming) (address : BitVec 16) (data : BitVec 32) : List Bus :=
  match t.order with
  | .together => [writePhase address data]
  | .addressFirst => addressPhase address :: List.replicate t.skew Bus.idle ++ [dataPhase data]
  | .dataFirst => dataPhase data :: List.replicate t.skew Bus.idle ++ [addressPhase address]

/-- One write access, up to the cycle in which its response is taken. -/
def write (address : BitVec 16) (data : BitVec 32) (b : Board) : Board :=
  let t := b.timing b.cycle
  let b := b.drive (List.replicate t.gap Bus.idle)
  let b := b.drive (writeChannels t address data)
  let b := b.drive (List.replicate t.delay Bus.idle)
  b.tick { Bus.idle with bready := true }

/-- One read access, and the word on the read channel in the cycle in which it is taken. -/
def read (address : BitVec 16) (b : Board) : BitVec 32 × Board :=
  let t := b.timing b.cycle
  let b := b.drive (List.replicate t.gap Bus.idle)
  let b := b.tick (readPhase address)
  let b := b.drive (List.replicate t.delay Bus.idle)
  (b.pl.regs.sAxiRdata, b.tick { Bus.idle with rready := true })

end Board

/-- The register window is 64 KiB. The block RAM and the CoreSight route lie outside the
register block; the default methods of the trait stand for them. -/
instance : Firmware.RegisterIo Board where
  read offset b :=
    let (word, b) := b.read (BitVec.ofNat 16 offset)
    (UInt32.ofBitVec word, b)
  write offset value b := b.write (BitVec.ofNat 16 offset) value.toBitVec
  writeM3Bram _ _ b := b
  readM3Bram _ _ b := (Vector.replicate _ 0, b)
  selectCoresightSource _ b := b
  enableCoresightTrace _ b := b

/-- Surroundings that do nothing. -/
def quietEnv : Pl.Env where
  dmaComplete := false
  overrun := false
  debugComplete := false
  receivedBytes := 0
  droppedBytes := 0
  syncLoss := 0
  fifoHighWater := 0
  dmaFault := false
  jtagTdo := false

/-- The board out of reset, with silent surroundings and accesses that follow one another
without a pause. -/
def bootBoard : Board where
  env := fun _ => quietEnv
  timing := fun _ => { gap := 0, order := .together, skew := 0, delay := 0 }
  cycle := 0
  pl := { regs := AxiRegs.resetState, dap := DapEngine.resetState }
  commands := []
  responses := []
  reads := []

end System
