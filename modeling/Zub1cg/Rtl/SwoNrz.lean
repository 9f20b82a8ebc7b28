import Zub1cg.Rtl.Swo

/-!
# The NRZ receiver (`orbtrace_swo_nrz.sv`)

The receiver begins a character when the synchronised line is low and counts quarters of a bit
from there. `quarter` and `bit_index` are natural numbers. Every branch of the clocked block
reads the old state `s` and writes the new state `n`.

## Main definitions

- `SwoNrz.State`, `SwoNrz.Input` — the registers and the ports sampled at one edge
- `SwoNrz.step` — one edge of `clk`
-/

namespace SwoNrz

open Swo (setBit)

/-- The input ports sampled at one edge of `clk`. -/
structure Input where
  resetN : Bool
  swo : Bool
  sampleTick : Bool
  outputReady : Bool

/-- The registers. -/
structure State where
  swoM : Bool
  swoS : Bool
  quarter : ℕ
  bitIndex : ℕ
  shift : BitVec 8
  active : Bool
  outputData : UInt8
  outputValid : Bool
  malformedCount : BitVec 64
  deriving DecidableEq, Repr

/-- What is done with the sample of a bit. -/
def sampleUpdate (s n : State) : State :=
  if s.bitIndex = 0 ∧ s.swoS = true then
    { n with active := false, malformedCount := s.malformedCount + 1 }
  else if 1 ≤ s.bitIndex ∧ s.bitIndex ≤ 8 then
    { n with shift := setBit s.shift (s.bitIndex - 1) s.swoS }
  else if s.bitIndex = 9 then
    let n := { n with active := false }
    if s.swoS then { n with outputData := UInt8.ofBitVec s.shift, outputValid := true }
    else { n with malformedCount := s.malformedCount + 1 }
  else n

/-- A sample tick in a character. -/
def tickUpdate (s n : State) : State :=
  let n := if s.quarter = 1 then sampleUpdate s n else n
  if s.active then
    if s.quarter = 3 then { n with quarter := 0, bitIndex := s.bitIndex + 1 }
    else { n with quarter := s.quarter + 1 }
  else n

/-- One edge of `clk`. The two synchronising registers have no reset. -/
def step (i : Input) (s : State) : State :=
  let n := { s with swoM := i.swo, swoS := s.swoM }
  if !i.resetN then
    { n with
      quarter := 0
      bitIndex := 0
      shift := 0
      active := false
      outputValid := false
      malformedCount := 0 }
  else
    let n := if s.outputValid && i.outputReady then { n with outputValid := false } else n
    -- a start bit is not seen while a byte waits
    if !s.active && !s.swoS && !s.outputValid then
      { n with active := true, bitIndex := 0, quarter := 0 }
    else if s.active && i.sampleTick then tickUpdate s n
    else n

/-- The receiver after a reset on an idle line; what the reset leaves alone is taken to be
zero. -/
def resetState : State where
  swoM := true
  swoS := true
  quarter := 0
  bitIndex := 0
  shift := 0
  active := false
  outputData := 0
  outputValid := false
  malformedCount := 0

/-- The byte handed over at this edge. -/
def delivered (i : Input) (s : State) : List UInt8 :=
  if s.outputValid && i.outputReady then [s.outputData] else []

/-! ### One edge -/

section

variable {i : Input} {s : State}

theorem sampleUpdate_swo (n : State) :
    (sampleUpdate s n).swoM = n.swoM ∧ (sampleUpdate s n).swoS = n.swoS := by
  unfold sampleUpdate
  split_ifs <;> exact ⟨rfl, rfl⟩

theorem tickUpdate_swo (n : State) :
    (tickUpdate s n).swoM = n.swoM ∧ (tickUpdate s n).swoS = n.swoS := by
  unfold tickUpdate
  split_ifs <;> first | exact ⟨rfl, rfl⟩ | exact sampleUpdate_swo _

theorem step_swo : (step i s).swoM = i.swo ∧ (step i s).swoS = s.swoM := by
  unfold step
  split_ifs <;> first | exact ⟨rfl, rfl⟩ | exact tickUpdate_swo _

/-- A low line begins a character. -/
theorem step_arm (hi : i.resetN = true) (hactive : s.active = false)
    (hvalid : s.outputValid = false) (hline : s.swoS = false) :
    step i s =
      { s with swoM := i.swo, swoS := s.swoM, active := true, bitIndex := 0, quarter := 0 } := by
  simp [step, hi, hactive, hvalid, hline]

/-- Nothing happens on a high line. -/
theorem step_idle (hi : i.resetN = true) (hactive : s.active = false)
    (hvalid : s.outputValid = false) (hline : s.swoS = true) :
    step i s = { s with swoM := i.swo, swoS := s.swoM } := by
  simp [step, hi, hactive, hvalid, hline]

/-- A byte waits until it is taken, whatever the line does. -/
theorem step_waiting (hi : i.resetN = true) (hactive : s.active = false)
    (hvalid : s.outputValid = true) :
    step i s = { s with swoM := i.swo, swoS := s.swoM, outputValid := !i.outputReady } := by
  cases hready : i.outputReady <;> simp [step, hi, hactive, hvalid, hready]

/-- Between two ticks. -/
theorem step_between (hi : i.resetN = true) (hactive : s.active = true)
    (hvalid : s.outputValid = false) (htick : i.sampleTick = false) :
    step i s = { s with swoM := i.swo, swoS := s.swoM } := by
  simp [step, hi, hactive, hvalid, htick]

/-- At a tick. -/
theorem step_tick (hi : i.resetN = true) (hactive : s.active = true)
    (hvalid : s.outputValid = false) (htick : i.sampleTick = true) :
    step i s = tickUpdate s { s with swoM := i.swo, swoS := s.swoM } := by
  simp [step, hi, hactive, hvalid, htick]

end

end SwoNrz
