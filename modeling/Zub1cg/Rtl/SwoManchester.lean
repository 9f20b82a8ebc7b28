import Zub1cg.Rtl.Swo

/-!
# The Manchester receiver (`orbtrace_swo_manchester.sv`)

The receiver begins a character when the synchronised line is low. It samples the halves of a
bit in the first and in the third quarter. `quarter` and `bit_index` are natural numbers. Every
branch of the clocked block reads the old state `s` and writes the new state `n`.

## Main definitions

- `SwoManchester.State`, `SwoManchester.Input` — the registers and the ports sampled at one edge
- `SwoManchester.step` — one edge of `clk`
-/

namespace SwoManchester

open Swo (setBit)

/-- The input ports sampled at one edge of `clk`. -/
structure Input where
  resetN : Bool
  swo : Bool
  sampleTick : Bool
  outputReady : Bool

/-- The registers. -/
structure State where
  swoMeta : Bool
  swoSync : Bool
  active : Bool
  firstHalf : Bool
  quarter : ℕ
  bitIndex : ℕ
  shift : BitVec 8
  outputData : UInt8
  outputValid : Bool
  malformedCount : BitVec 64
  deriving DecidableEq, Repr

/-- What is done with the sample of the second half of a bit. -/
def bitUpdate (s n : State) : State :=
  if s.firstHalf = s.swoSync then
    { n with active := false, malformedCount := s.malformedCount + 1 }
  else if s.bitIndex = 0 ∧ s.firstHalf = true then
    { n with active := false, malformedCount := s.malformedCount + 1 }
  else if 1 ≤ s.bitIndex ∧ s.bitIndex ≤ 8 then
    { n with shift := setBit s.shift (s.bitIndex - 1) s.firstHalf }
  else if s.bitIndex = 9 then
    let n := { n with active := false }
    if s.firstHalf then { n with outputData := UInt8.ofBitVec s.shift, outputValid := true }
    else { n with malformedCount := s.malformedCount + 1 }
  else n

/-- A sample tick in a character. -/
def tickUpdate (s n : State) : State :=
  let n := if s.quarter = 0 then { n with firstHalf := s.swoSync } else n
  let n := if s.quarter = 2 then bitUpdate s n else n
  if s.active then
    if s.quarter = 3 then { n with quarter := 0, bitIndex := s.bitIndex + 1 }
    else { n with quarter := s.quarter + 1 }
  else n

/-- One edge of `clk`. The two synchronising registers have no reset. -/
def step (i : Input) (s : State) : State :=
  let n := { s with swoMeta := i.swo, swoSync := s.swoMeta }
  if !i.resetN then
    { n with
      active := false
      firstHalf := false
      quarter := 0
      bitIndex := 0
      shift := 0
      outputData := 0
      outputValid := false
      malformedCount := 0 }
  else
    let n := if s.outputValid && i.outputReady then { n with outputValid := false } else n
    -- any low level begins a character, the second half of a stop bit too
    if !s.active && !s.outputValid && !s.swoSync then
      { n with active := true, quarter := 0, bitIndex := 0 }
    else if s.active && i.sampleTick then tickUpdate s n
    else n

/-- The receiver after a reset on an idle line. -/
def resetState : State where
  swoMeta := true
  swoSync := true
  active := false
  firstHalf := false
  quarter := 0
  bitIndex := 0
  shift := 0
  outputData := 0
  outputValid := false
  malformedCount := 0

/-- The byte handed over at this edge. -/
def delivered (i : Input) (s : State) : List UInt8 :=
  if s.outputValid && i.outputReady then [s.outputData] else []

/-! ### One edge -/

section

variable {i : Input} {s : State}

theorem bitUpdate_swo (n : State) :
    (bitUpdate s n).swoMeta = n.swoMeta ∧ (bitUpdate s n).swoSync = n.swoSync := by
  unfold bitUpdate
  split_ifs <;> exact ⟨rfl, rfl⟩

theorem tickUpdate_swo (n : State) :
    (tickUpdate s n).swoMeta = n.swoMeta ∧ (tickUpdate s n).swoSync = n.swoSync := by
  unfold tickUpdate
  split_ifs <;> first | exact ⟨rfl, rfl⟩ | exact bitUpdate_swo _

theorem step_swo : (step i s).swoMeta = i.swo ∧ (step i s).swoSync = s.swoMeta := by
  unfold step
  split_ifs <;> first | exact ⟨rfl, rfl⟩ | exact tickUpdate_swo _

/-- A low line begins a character. -/
theorem step_arm (hi : i.resetN = true) (hactive : s.active = false)
    (hvalid : s.outputValid = false) (hline : s.swoSync = false) :
    step i s =
      { s with
        swoMeta := i.swo, swoSync := s.swoMeta, active := true, quarter := 0, bitIndex := 0 } := by
  simp [step, hi, hactive, hvalid, hline]

/-- Nothing happens on a high line. -/
theorem step_idle (hi : i.resetN = true) (hactive : s.active = false)
    (hvalid : s.outputValid = false) (hline : s.swoSync = true) :
    step i s = { s with swoMeta := i.swo, swoSync := s.swoMeta } := by
  simp [step, hi, hactive, hvalid, hline]

/-- A byte waits until it is taken, whatever the line does. -/
theorem step_waiting (hi : i.resetN = true) (hactive : s.active = false)
    (hvalid : s.outputValid = true) :
    step i s =
      { s with swoMeta := i.swo, swoSync := s.swoMeta, outputValid := !i.outputReady } := by
  cases hready : i.outputReady <;> simp [step, hi, hactive, hvalid, hready]

/-- Between two ticks. -/
theorem step_between (hi : i.resetN = true) (hactive : s.active = true)
    (hvalid : s.outputValid = false) (htick : i.sampleTick = false) :
    step i s = { s with swoMeta := i.swo, swoSync := s.swoMeta } := by
  simp [step, hi, hactive, hvalid, htick]

/-- At a tick. -/
theorem step_tick (hi : i.resetN = true) (hactive : s.active = true)
    (hvalid : s.outputValid = false) (htick : i.sampleTick = true) :
    step i s = tickUpdate s { s with swoMeta := i.swo, swoSync := s.swoMeta } := by
  simp [step, hi, hactive, hvalid, htick]

end

end SwoManchester
