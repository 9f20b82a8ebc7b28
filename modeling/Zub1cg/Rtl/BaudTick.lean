import Mathlib.Data.BitVec

/-!
# The baud tick (`orbtrace_baud_tick.sv`)

A fractional divider: the accumulator gains four times the baud rate in every clock, and each
time it gets to `CLOCK_HZ` there is a tick.

## Main definitions

- `BaudTick.step` — one edge of `clk`
-/

namespace BaudTick

def CLOCK_HZ : BitVec 64 := 100000000

structure State where
  accumulator : BitVec 64
  tick : Bool
  deriving DecidableEq, Repr

def resetState : State where
  accumulator := 0
  tick := false

/-- `accumulator + {30'b0, baud, 2'b0}` -/
def nextAccumulator (baud : BitVec 32) (s : State) : BitVec 64 :=
  s.accumulator + (0#30 ++ baud ++ 0#2)

/-- One edge of `clk`. -/
def step (resetN : Bool) (baud : BitVec 32) (s : State) : State :=
  if !resetN then resetState
  else if baud = 0 then resetState
  else if CLOCK_HZ ≤ nextAccumulator baud s then
    { accumulator := nextAccumulator baud s - CLOCK_HZ, tick := true }
  else { accumulator := nextAccumulator baud s, tick := false }

end BaudTick
