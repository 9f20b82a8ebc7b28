import Zub1cg.Library.GrayCode
import Zub1cg.Library.Clocked

/-!
# The asynchronous FIFO (`orbtrace_async_fifo.sv`)

A dual-clock FIFO with Gray-coded pointers and two synchroniser flops in each
direction. One `Input` is one instant at which the write clock, the read clock or
both have a rising edge; the two clocks are otherwise unrelated. Where a
synchroniser's first flop samples a pointer at the very instant that pointer
changes, the input says which of the changing bits it catches.

## Main definitions

- `AsyncFifo.State`, `AsyncFifo.Input` — the registers and one instant's inputs
- `AsyncFifo.step` — the two `always_ff` blocks
- `AsyncFifo.writeReady`, `readValid`, `readData`, `writeLevel` — the outputs
-/

namespace AsyncFifo

open GrayCode

variable {α : Type} {depthLog2 : ℕ}

/-- The registers. Pointers are `PTR_W = DEPTH_LOG2 + 1` bits wide and `mem` has
`2 ^ DEPTH_LOG2` words. -/
structure State (α : Type) (depthLog2 : ℕ) where
  mem : BitVec depthLog2 → α
  wrBin : BitVec (depthLog2 + 1)
  rdBin : BitVec (depthLog2 + 1)
  wrGray : BitVec (depthLog2 + 1)
  rdGray : BitVec (depthLog2 + 1)
  rdGrayW1 : BitVec (depthLog2 + 1)
  rdGrayW2 : BitVec (depthLog2 + 1)
  wrGrayR1 : BitVec (depthLog2 + 1)
  wrGrayR2 : BitVec (depthLog2 + 1)

/-- One instant: which clocks have a rising edge, the ports sampled there, and the
bits of a concurrently changing pointer that each first synchroniser flop catches. -/
structure Input (α : Type) (depthLog2 : ℕ) where
  writeClk : Bool
  writeResetN : Bool
  writeData : α
  writeValid : Bool
  readClk : Bool
  readResetN : Bool
  readReady : Bool
  rdGrayCatch : BitVec (depthLog2 + 1)
  wrGrayCatch : BitVec (depthLog2 + 1)

/-- `wr_plus_one_gray` -/
def wrPlusOneGray (s : State α depthLog2) : BitVec (depthLog2 + 1) := gray (s.wrBin + 1)

/-- `{~g[PTR_W-1:PTR_W-2], g[PTR_W-3:0]}` -/
def invertTopTwo (g : BitVec (depthLog2 + 1)) : BitVec (depthLog2 + 1) :=
  (~~~(g.extractLsb' (depthLog2 - 1) 2) ++ g.extractLsb' 0 (depthLog2 - 1)).setWidth (depthLog2 + 1)

def writeReady (s : State α depthLog2) : Bool := wrPlusOneGray s != invertTopTwo s.rdGrayW2

def readValid (s : State α depthLog2) : Bool := s.rdGray != s.wrGrayR2

def readData (s : State α depthLog2) : α := s.mem (s.rdBin.setWidth depthLog2)

def writeLevel (s : State α depthLog2) : BitVec (depthLog2 + 1) :=
  s.wrBin - ((s.rdGrayW2 >>> 1) ^^^ s.rdGrayW2)

/-- `write_valid && write_ready` -/
def writeFire (i : Input α depthLog2) (s : State α depthLog2) : Bool :=
  i.writeValid && writeReady s

/-- `read_valid && read_ready` -/
def readFire (i : Input α depthLog2) (s : State α depthLog2) : Bool :=
  readValid s && i.readReady

/-- `wr_next` -/
def wrNext (i : Input α depthLog2) (s : State α depthLog2) : BitVec (depthLog2 + 1) :=
  s.wrBin + (if writeFire i s then 1 else 0)

/-- `wr_gray_next` -/
def wrGrayNext (i : Input α depthLog2) (s : State α depthLog2) : BitVec (depthLog2 + 1) :=
  gray (wrNext i s)

/-- `wr_gray` right after the instant. -/
def wrGrayAfter (i : Input α depthLog2) (s : State α depthLog2) : BitVec (depthLog2 + 1) :=
  if i.writeClk then
    if !i.writeResetN then 0
    else if writeFire i s then wrGrayNext i s
    else s.wrGray
  else s.wrGray

/-- `rd_gray` right after the instant. -/
def rdGrayAfter (i : Input α depthLog2) (s : State α depthLog2) : BitVec (depthLog2 + 1) :=
  if i.readClk then
    if !i.readResetN then 0
    else if readFire i s then gray (s.rdBin + 1)
    else s.rdGray
  else s.rdGray

/-- The block clocked by `write_clk`: reads `s`, assigns into `n`. -/
def writeEdge (i : Input α depthLog2) (s n : State α depthLog2) : State α depthLog2 :=
  if !i.writeResetN then
    { n with wrBin := 0, wrGray := 0, rdGrayW1 := 0, rdGrayW2 := 0 }
  else
    let n := { n with
      rdGrayW1 := sample s.rdGray (rdGrayAfter i s) i.rdGrayCatch
      rdGrayW2 := s.rdGrayW1 }
    if writeFire i s then
      { n with
        mem := Function.update n.mem (s.wrBin.setWidth depthLog2) i.writeData
        wrBin := wrNext i s
        wrGray := wrGrayNext i s }
    else n

/-- The block clocked by `read_clk`: reads `s`, assigns into `n`. -/
def readEdge (i : Input α depthLog2) (s n : State α depthLog2) : State α depthLog2 :=
  if !i.readResetN then
    { n with rdBin := 0, rdGray := 0, wrGrayR1 := 0, wrGrayR2 := 0 }
  else
    let n := { n with
      wrGrayR1 := sample s.wrGray (wrGrayAfter i s) i.wrGrayCatch
      wrGrayR2 := s.wrGrayR1 }
    if readFire i s then
      { n with rdBin := s.rdBin + 1, rdGray := gray (s.rdBin + 1) }
    else n

/-- One instant. -/
def step (i : Input α depthLog2) (s : State α depthLog2) : State α depthLog2 :=
  let n := if i.writeClk then writeEdge i s s else s
  if i.readClk then readEdge i s n else n

/-- The state once both domains have been reset; the memory keeps whatever it held. -/
def resetState (mem : BitVec depthLog2 → α) : State α depthLog2 where
  mem := mem
  wrBin := 0
  rdBin := 0
  wrGray := 0
  rdGray := 0
  rdGrayW1 := 0
  rdGrayW2 := 0
  wrGrayR1 := 0
  wrGrayR2 := 0

/-- The word accepted at this instant, if any. -/
def acceptedWord (i : Input α depthLog2) (s : State α depthLog2) : List α :=
  if i.writeClk && writeFire i s then [i.writeData] else []

/-- The word consumed at this instant, if any. -/
def consumedWord (i : Input α depthLog2) (s : State α depthLog2) : List α :=
  if i.readClk && readFire i s then [readData s] else []

/-- The FIFO after both resets, driven by the schedule `inp`. -/
def run (mem : BitVec depthLog2 → α) (inp : ℕ → Input α depthLog2) :
    Clocked.Run (Input α depthLog2) (State α depthLog2) where
  step := step
  start := resetState mem
  input := inp

end AsyncFifo
