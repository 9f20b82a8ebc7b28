import Zub1cg.Library.Clocked
import Mathlib.Logic.Function.Basic
import Mathlib.Data.BitVec

/-!
# The TPIU demultiplexer (`orbtrace_tpiu_demux.sv`)

The demultiplexer searches for a sync packet, collects the 16 bytes of a formatter frame
and then works through the frame's first 15 positions, one in each cycle in which the
output is not stalled, without taking input. The frame memory is a function of the address
and the two counters are natural numbers. Every update reads the old state `s` and writes
the new state `n`.

## Main definitions

- `TpiuDemux.State`, `TpiuDemux.Input` — the registers and the ports at one edge
- `TpiuDemux.step` — one edge of `clk`
- `TpiuDemux.inputReady`, `outputValid`, `unmangled`, `isId` — wires
-/

namespace TpiuDemux

def M3_EXPECTED_CHANNEL : BitVec 7 := 1

/-- The input ports sampled at one edge of `clk`. -/
structure Input where
  resetN : Bool
  resetSync : Bool
  inputData : UInt8
  inputValid : Bool
  outputReady : Bool
  m3Source : Bool

structure State where
  synced : Bool
  syncWindow : BitVec 32
  frame : ℕ → UInt8
  fill : ℕ
  emit : ℕ
  emitting : Bool
  channel : BitVec 7
  delayedChannel : BitVec 7
  delayedValid : Bool
  syncLossCount : BitVec 64

/-! ### Wires -/

/-- Even positions get their lowest bit back from the auxiliary byte at the frame's end. -/
def unmangled (s : State) : UInt8 :=
  if s.emit % 2 = 0 then
    UInt8.ofBitVec ((s.frame s.emit).toBitVec.extractLsb' 1 7 ++
      BitVec.ofBool ((s.frame 15).toBitVec.getLsbD (s.emit / 2)))
  else s.frame s.emit

def isId (s : State) : Bool := s.emit % 2 == 0 && (s.frame s.emit).toBitVec.getLsbD 0

def inputReady (s : State) : Bool := !s.emitting

def outputValid (s : State) : Bool := s.emitting && !isId s && s.channel != 0

/-- `unmangled[7:1]` -/
def unmangledId (s : State) : BitVec 7 := (unmangled s).toBitVec.extractLsb' 1 7

/-- `{input_data, sync_window[31:8]}` -/
def nextWindow (i : Input) (s : State) : BitVec 32 :=
  i.inputData.toBitVec ++ s.syncWindow.extractLsb' 8 24

/-! ### The clocked block -/

/-- The registers the reset branch assigns. -/
def resetState (n : State) : State :=
  { n with
    synced := false
    syncWindow := 0
    fill := 0
    emit := 0
    emitting := false
    channel := 0
    delayedChannel := 0
    delayedValid := false
    syncLossCount := 0 }

/-- The demultiplexer after reset with a cleared frame memory. -/
def initial : State :=
  resetState
    { synced := false
      syncWindow := 0
      frame := fun _ => 0
      fill := 0
      emit := 0
      emitting := false
      channel := 0
      delayedChannel := 0
      delayedValid := false
      syncLossCount := 0 }

def resetSyncUpdate (i : Input) (s n : State) : State :=
  if i.resetSync then
    let n := if s.synced then { n with syncLossCount := s.syncLossCount + 1 } else n
    { n with synced := false, fill := 0, emitting := false }
  else n

def inputUpdate (i : Input) (s n : State) : State :=
  if i.inputValid && inputReady s then
    let n := { n with syncWindow := nextWindow i s }
    if !s.synced then
      if nextWindow i s = 0x7fffffff then { n with synced := true, fill := 0 } else n
    else
      let n := { n with frame := Function.update n.frame s.fill i.inputData }
      if s.fill = 15 then { n with fill := 0, emit := 0, emitting := true }
      else { n with fill := (s.fill + 1) % 32 }
  else n

/-- A position of the frame is finished at this edge. -/
def advance (i : Input) (s : State) : Bool :=
  s.emitting && (isId s || s.channel == 0 || i.outputReady)

def emitUpdate (i : Input) (s n : State) : State :=
  if advance i s then
    if i.m3Source && isId s && unmangledId s != M3_EXPECTED_CHANNEL then
      { n with
        synced := false, fill := 0, emitting := false, syncLossCount := s.syncLossCount + 1 }
    else
      let n :=
        if isId s then
          if (unmangled s).toBitVec.getLsbD 0 then
            { n with delayedChannel := unmangledId s, delayedValid := true }
          else { n with channel := unmangledId s }
        else if s.delayedValid then
          { n with channel := s.delayedChannel, delayedValid := false }
        else n
      if s.emit = 14 then { n with emitting := false } else { n with emit := (s.emit + 1) % 32 }
  else n

/-- One edge of `clk`. -/
def step (i : Input) (s : State) : State :=
  if !i.resetN then resetState s
  else emitUpdate i s (inputUpdate i s (resetSyncUpdate i s s))

/-- The demultiplexer started in `s` and driven by the schedule `inp`. -/
def run (s : State) (inp : ℕ → Input) : Clocked.Run Input State where
  step := step
  start := s
  input := inp

/-! ### The two handshakes -/

/-- An input byte is taken at this edge. -/
def inputFire (i : Input) (s : State) : Bool := i.inputValid && inputReady s

/-- The input byte taken at this edge. -/
def accepted (i : Input) (s : State) : List UInt8 := if inputFire i s then [i.inputData] else []

/-- The input byte that becomes frame content at this edge. -/
def stored (i : Input) (s : State) : List UInt8 :=
  if inputFire i s && s.synced then [i.inputData] else []

/-- A stream offered byte by byte, with a pause behind its first 20 bytes in which a frame can
be emitted; the output is always ready. -/
def offer (bytes : List UInt8) (t : ℕ) : Input where
  resetN := true
  resetSync := false
  inputData := bytes.getD (if t < 20 then t else t - 15) 0
  inputValid := if t < 20 then t < bytes.length else 35 ≤ t && t - 15 < bytes.length
  outputReady := true
  m3Source := false

/-- The output pair handed over at this edge. -/
def handedOver (i : Input) (s : State) : List (BitVec 7 × UInt8) :=
  if outputValid s && i.outputReady then [(s.channel, unmangled s)] else []

end TpiuDemux
