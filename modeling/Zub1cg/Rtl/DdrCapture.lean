import Zub1cg.Library.Clocked
import Mathlib.Data.BitVec

/-!
# The DDR capture (`orbtrace_ddr_capture.sv`)

One, two or four trace lanes are sampled at both edges of the trace clock and put together to
bytes. The reset is asynchronous: where `resetN` is low, the registers are at their reset values
whatever the clock does. Every update reads the old state `s` and writes the new state `n`.

## Main definitions

- `DdrCapture.State`, `DdrCapture.Input` — the registers and the ports at one instant
- `DdrCapture.step` — one instant
-/

namespace DdrCapture

/-- The edges of `trace_clk`. -/
inductive Edge where
  | rise
  | fall
  deriving DecidableEq, Repr

/-- One instant: the edge of `trace_clk`, if there is one, and the other input ports. -/
structure Input where
  traceClk : Option Edge
  resetN : Bool
  enable : Bool
  widthSelect : BitVec 2
  traceData : BitVec 4

/-- The registers; `partial` is `partialByte`. -/
structure State where
  riseSample : BitVec 4
  fallSample : BitVec 4
  partialByte : BitVec 8
  phase : BitVec 2
  activeWidth : BitVec 2
  primed : Bool
  byteData : UInt8
  byteValid : Bool
  deriving DecidableEq, Repr

/-- The registers the reset branches assign: all. -/
def resetState : State where
  riseSample := 0
  fallSample := 0
  partialByte := 0
  phase := 0
  activeWidth := 0
  primed := false
  byteData := 0
  byteValid := false

/-- `{fall_sample[0], rise_sample[0]}` -/
def samples1 (s : State) : BitVec 2 := s.fallSample.extractLsb' 0 1 ++ s.riseSample.extractLsb' 0 1

/-- `{fall_sample[1:0], rise_sample[1:0]}` -/
def samples2 (s : State) : BitVec 4 := s.fallSample.extractLsb' 0 2 ++ s.riseSample.extractLsb' 0 2

/-- The block clocked by the falling edge. -/
def fallUpdate (i : Input) (n : State) : State :=
  if i.enable then { n with fallSample := i.traceData } else n

/-- The samples of one period of the clock go into the byte. -/
def assemble (s n : State) : State :=
  match s.activeWidth.toNat with
  | 2 => { n with byteData := UInt8.ofBitVec (s.fallSample ++ s.riseSample), byteValid := true }
  | 1 =>
    if s.phase = 0 then
      { n with partialByte := s.partialByte.extractLsb' 4 4 ++ samples2 s, phase := 1 }
    else
      { n with
        byteData := UInt8.ofBitVec (samples2 s ++ s.partialByte.extractLsb' 0 4)
        byteValid := true
        phase := 0 }
  | _ =>
    let n :=
      match s.phase.toNat with
      | 0 => { n with partialByte := s.partialByte.extractLsb' 2 6 ++ samples1 s }
      | 1 => { n with
          partialByte :=
            s.partialByte.extractLsb' 4 4 ++ samples1 s ++ s.partialByte.extractLsb' 0 2 }
      | 2 => { n with
          partialByte :=
            s.partialByte.extractLsb' 6 2 ++ samples1 s ++ s.partialByte.extractLsb' 0 4 }
      | _ => { n with
          byteData := UInt8.ofBitVec (samples1 s ++ s.partialByte.extractLsb' 0 6)
          byteValid := true }
    -- the phase counts whatever has become of the samples
    { n with phase := if s.phase = 3 then 0 else s.phase + 1 }

/-- The block clocked by the rising edge. -/
def riseUpdate (i : Input) (s n : State) : State :=
  let n := { n with byteValid := false, riseSample := i.traceData }
  if !i.enable || 2 < i.widthSelect then { n with primed := false, phase := 0 }
  -- a new width discards a partial byte, and so does the first edge
  else if !s.primed || s.activeWidth != i.widthSelect then
    { n with primed := true, activeWidth := i.widthSelect, phase := 0, partialByte := 0 }
  else assemble s n

/-- One instant. -/
def step (i : Input) (s : State) : State :=
  if !i.resetN then resetState
  else
    match i.traceClk with
    | none => s
    | some .rise => riseUpdate i s s
    | some .fall => fallUpdate i s

end DdrCapture
