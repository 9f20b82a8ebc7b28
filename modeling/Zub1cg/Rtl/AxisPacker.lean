import Mathlib.Logic.Function.Basic
import Mathlib.Data.Fin.Basic

/-!
# The AXI stream packer (`orbtrace_axis_packer.sv`)

Bytes are put together to beats of eight, and `FRAMES_PER_TRANSFER` frames to one transfer. A
beat is a function of the lane; the frame counter is a natural number. Every update reads the old
state `s` and writes the new state `n`.

## Main definitions

- `AxisPacker.State`, `AxisPacker.Input` — the registers and the ports at one edge
- `AxisPacker.step` — one edge of `clk`
-/

namespace AxisPacker

/-- The input ports sampled at one edge of `clk`. -/
structure Input where
  resetN : Bool
  inputData : UInt8
  inputValid : Bool
  inputLast : Bool
  outputReady : Bool

structure State where
  buffer : Fin 8 → UInt8
  keep : Fin 8 → Bool
  count : Fin 8
  frameCount : ℕ
  outputData : Fin 8 → UInt8
  outputKeep : Fin 8 → Bool
  outputValid : Bool
  outputLast : Bool

/-! ### Wires -/

def inputReady (i : Input) (s : State) : Bool := !s.outputValid || i.outputReady

def assembledData (i : Input) (s : State) : Fin 8 → UInt8 :=
  Function.update s.buffer s.count i.inputData

def assembledKeep (s : State) : Fin 8 → Bool := Function.update s.keep s.count true

def transferLast (framesPerTransfer : ℕ) (i : Input) (s : State) : Bool :=
  i.inputLast && (framesPerTransfer == 1 || s.frameCount == framesPerTransfer - 1)

/-! ### The clocked block -/

/-- The registers the reset branch assigns: all. -/
def resetState : State where
  buffer := fun _ => 0
  keep := fun _ => false
  count := 0
  frameCount := 0
  outputData := fun _ => 0
  outputKeep := fun _ => false
  outputValid := false
  outputLast := false

/-- The byte on the input is the last of its beat. -/
def completes (framesPerTransfer : ℕ) (i : Input) (s : State) : Bool :=
  transferLast framesPerTransfer i s || s.count == 7

/-- A byte is taken. -/
def inputUpdate (framesPerTransfer : ℕ) (i : Input) (s n : State) : State :=
  let n :=
    if transferLast framesPerTransfer i s || s.count == 7 then
      { n with
        outputData := assembledData i s
        outputKeep := assembledKeep s
        outputLast := transferLast framesPerTransfer i s
        outputValid := true
        buffer := fun _ => 0
        keep := fun _ => false
        count := 0 }
    else
      { n with buffer := assembledData i s, keep := assembledKeep s, count := s.count + 1 }
  if i.inputLast then
    if transferLast framesPerTransfer i s then { n with frameCount := 0 }
    else { n with frameCount := s.frameCount + 1 }
  else n

/-- One edge of `clk`. -/
def step (framesPerTransfer : ℕ) (i : Input) (s : State) : State :=
  if !i.resetN then resetState
  else
    -- a beat that is taken makes room for the next byte at the same edge
    let n := if s.outputValid && i.outputReady then { s with outputValid := false } else s
    if i.inputValid && inputReady i s then inputUpdate framesPerTransfer i s n else n

end AxisPacker
