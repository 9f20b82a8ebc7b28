import Zub1cg.Rtl.DdrCapture
import Zub1cg.Rtl.AsyncFifo.Unread

/-!
# A capture chain (`orbtrace_pl.v`)

The two trace ports have a chain each, of one and the same build: reset and configuration are
brought into the domain of the trace clock, the captured bytes go through an asynchronous FIFO
into the domain of `aclk`, and so do the overrun flag and the Gray-coded drop counter. One
`Input` is one instant at which `aclk`, the trace clock or both have an edge. `aresetn` resets
asynchronously what is built for it; the level of `aresetn` at an instant is the one that has
been there since before the instant. Where a flop samples another domain's register at the very
instant that register changes, the input says what it catches.

## Main definitions

- `CaptureChain.State`, `CaptureChain.Input` — the registers and one instant's inputs
- `CaptureChain.step` — one instant
- `CaptureChain.captures` — the bytes captured since the last reset
- `Unread` — what there is in a chain that nobody reads

## Main results

- `Unread.step` — how the bytes pile up in a chain that nobody reads
-/

namespace CaptureChain

open GrayCode
open DdrCapture (Edge)

/-- `M3_TRACE_CDC_DEPTH_LOG2` and the default `DEPTH_LOG2` of the other chain's FIFO -/
def CDC_DEPTH_LOG2 : ℕ := 5

/-- One instant: the edges, the trace pins, `read_ready` of the FIFO, and what the flops that
sample another domain catch. Of `trace_format` and `running` that is the whole value. -/
structure Input where
  aclk : Bool
  aresetn : Bool
  traceClk : Option Edge
  traceData : BitVec 4
  traceFormat : BitVec 3
  running : Bool
  readReady : Bool
  rdGrayCatch : BitVec (CDC_DEPTH_LOG2 + 1)
  wrGrayCatch : BitVec (CDC_DEPTH_LOG2 + 1)
  overrunCatch : Bool
  dropsGrayCatch : BitVec 64

/-- The registers: those clocked by the trace clock up to `dropsGray`, then those clocked by
`aclk`. -/
structure State where
  resetSync : BitVec 2
  formatM : BitVec 3
  formatS : BitVec 3
  runningM : Bool
  runningS : Bool
  capture : DdrCapture.State
  fifo : AsyncFifo.State UInt8 CDC_DEPTH_LOG2
  overrun : Bool
  drops : BitVec 64
  dropsGray : BitVec 64
  overrunS1 : Bool
  overrunS2 : Bool
  dropsGrayS1 : BitVec 64
  dropsGrayS2 : BitVec 64

/-! ### Wires -/

/-- The trace clock has a rising edge. -/
def rises (i : Input) : Bool := i.traceClk == some .rise

/-- `trace_reset_n` -/
def resetN (i : Input) (s : State) : Bool := i.aresetn && s.resetSync.getLsbD 1

/-- The ports of `capture`. -/
def captureInput (i : Input) (s : State) : DdrCapture.Input where
  traceClk := i.traceClk
  resetN := resetN i s
  enable := s.runningS && s.formatS ≤ 2
  widthSelect := s.formatS.extractLsb' 0 2
  traceData := i.traceData

/-- The ports of `trace_fifo`. -/
def fifoInput (i : Input) (s : State) : AsyncFifo.Input UInt8 CDC_DEPTH_LOG2 where
  writeClk := rises i
  writeResetN := resetN i s
  writeData := s.capture.byteData
  writeValid := s.capture.byteValid
  readClk := i.aclk
  readResetN := i.aresetn
  readReady := i.readReady
  rdGrayCatch := i.rdGrayCatch
  wrGrayCatch := i.wrGrayCatch

/-- `trace_valid && !cdc_write_ready` -/
def dropped (s : State) : Bool := s.capture.byteValid && !AsyncFifo.writeReady s.fifo

/-- `gray_to_binary`; the loop goes from the highest bit down to the lowest. -/
def grayToBinary (gray : BitVec 64) : BitVec 64 :=
  (List.range 64).foldr
    (fun index binary =>
      if binary.getLsbD (index + 1) ^^ gray.getLsbD index then binary ||| BitVec.twoPow 64 index
      else binary)
    0

/-- `cdc_drops_sync` -/
def dropsSync (s : State) : BitVec 64 := grayToBinary s.dropsGrayS2

/-! ### The clocked blocks -/

/-- `trace_reset_sync` after the instant. -/
def resetSyncNext (i : Input) (s : State) : BitVec 2 :=
  if !i.aresetn then 0
  else if rises i then s.resetSync.extractLsb' 0 1 ++ 1#1
  else s.resetSync

/-- The configuration's way into the domain of the trace clock. -/
def configUpdate (i : Input) (s n : State) : State :=
  if !resetN i s then { n with formatM := 0, formatS := 0, runningM := false, runningS := false }
  else
    { n with
      formatM := i.traceFormat
      formatS := s.formatM
      runningM := i.running
      runningS := s.runningM }

/-- The bytes that do not fit are counted. -/
def dropUpdate (i : Input) (s n : State) : State :=
  if !resetN i s then { n with overrun := false, drops := 0, dropsGray := 0 }
  else if dropped s then
    { n with overrun := true, drops := s.drops + 1, dropsGray := gray (s.drops + 1) }
  else n

/-- The blocks clocked by the trace clock, `capture` and `trace_fifo` apart. -/
def traceUpdate (i : Input) (s : State) : State :=
  let n := { s with
    resetSync := resetSyncNext i s
    capture := DdrCapture.step (captureInput i s) s.capture
    fifo := AsyncFifo.step (fifoInput i s) s.fifo }
  if rises i then dropUpdate i s (configUpdate i s n) else n

/-- The block clocked by `aclk`; `n` is the state after what the trace clock does at the same
instant. -/
def aclkUpdate (i : Input) (s n : State) : State :=
  if !i.aresetn then
    { n with overrunS1 := false, overrunS2 := false, dropsGrayS1 := 0, dropsGrayS2 := 0 }
  else
    { n with
      overrunS1 := if i.overrunCatch then n.overrun else s.overrun
      overrunS2 := s.overrunS1
      dropsGrayS1 := sample s.dropsGray n.dropsGray i.dropsGrayCatch
      dropsGrayS2 := s.dropsGrayS1 }

/-- One instant. -/
def step (i : Input) (s : State) : State :=
  let n := traceUpdate i s
  if i.aclk then aclkUpdate i s n else n

/-- The registers after a reset; the FIFO's memory keeps whatever it held. -/
def resetState (mem : BitVec CDC_DEPTH_LOG2 → UInt8) : State where
  resetSync := 0
  formatM := 0
  formatS := 0
  runningM := false
  runningS := false
  capture := DdrCapture.resetState
  fifo := AsyncFifo.resetState mem
  overrun := false
  drops := 0
  dropsGray := 0
  overrunS1 := false
  overrunS2 := false
  dropsGrayS1 := 0
  dropsGrayS2 := 0

/-- The number of bytes captured since the last reset of the FIFO's write side, if it was `n`
before this instant. -/
def captures (i : Input) (s : State) (n : ℕ) : ℕ :=
  if rises i then
    if !resetN i s then 0 else if s.capture.byteValid then n + 1 else n
  else n

/-! ### A chain that nobody reads -/

/-- The words the FIFO has room for. -/
def capacity : ℕ := 2 ^ CDC_DEPTH_LOG2 - 1

/-- After `n` captured bytes the FIFO has taken what it has room for, and the rest has been
dropped. -/
structure Unread (n : ℕ) (s : State) : Prop where
  fifo : AsyncFifo.Unread (min n capacity) s.fifo
  overrun : s.overrun = decide (capacity < n)
  drops : s.drops = BitVec.ofNat 64 (n - capacity)
  dropsGray : s.dropsGray = gray (BitVec.ofNat 64 (n - capacity))

theorem unread_reset (mem : BitVec CDC_DEPTH_LOG2 → UInt8) : Unread 0 (resetState mem) :=
  ⟨AsyncFifo.unread_reset mem, rfl, rfl, gray_zero.symm⟩

theorem step_fifo (i : Input) (s : State) :
    (step i s).fifo = AsyncFifo.step (fifoInput i s) s.fifo := by
  unfold step traceUpdate aclkUpdate dropUpdate configUpdate
  split_ifs <;> rfl

/-- The overrun flag and the drop counter after one instant. -/
theorem step_drops (i : Input) (s : State) :
    ((step i s).overrun, (step i s).drops, (step i s).dropsGray) =
      if rises i then
        if !resetN i s then (false, 0, 0)
        else if dropped s then (true, s.drops + 1, gray (s.drops + 1))
        else (s.overrun, s.drops, s.dropsGray)
      else (s.overrun, s.drops, s.dropsGray) := by
  unfold step traceUpdate aclkUpdate dropUpdate configUpdate
  split_ifs <;> rfl

/-- The copies in the domain of `aclk` after one instant. -/
theorem step_synced (i : Input) (s : State) :
    ((step i s).overrunS1, (step i s).overrunS2, (step i s).dropsGrayS1, (step i s).dropsGrayS2) =
      if i.aclk then
        if !i.aresetn then (false, false, 0, 0)
        else (if i.overrunCatch then (step i s).overrun else s.overrun, s.overrunS1,
          sample s.dropsGray (step i s).dropsGray i.dropsGrayCatch, s.dropsGrayS1)
      else (s.overrunS1, s.overrunS2, s.dropsGrayS1, s.dropsGrayS2) := by
  unfold step aclkUpdate traceUpdate dropUpdate configUpdate
  split_ifs <;> rfl

/-- No loss has come through to the domain of `aclk`. -/
structure Silent (s : State) : Prop where
  overrunS1 : s.overrunS1 = false
  overrunS2 : s.overrunS2 = false
  dropsGrayS1 : s.dropsGrayS1 = 0
  dropsGrayS2 : s.dropsGrayS2 = 0

theorem silent_reset (mem : BitVec CDC_DEPTH_LOG2 → UInt8) : Silent (resetState mem) :=
  ⟨rfl, rfl, rfl, rfl⟩

section

variable {n : ℕ} {i : Input} {s : State} (h : Unread n s)

include h

theorem Unread.writeReady : AsyncFifo.writeReady s.fifo = decide (n < capacity) := by
  have hready := h.fifo.writeReady_iff (by decide)
  rw [Bool.eq_iff_iff, hready, decide_eq_true_iff, capacity]
  have hcapacity : (2 : ℕ) ^ CDC_DEPTH_LOG2 = 32 := rfl
  omega

/-- The FIFO takes the captured bytes as long as there is room. -/
theorem Unread.taken :
    AsyncFifo.taken (fifoInput i s) s.fifo (min n capacity) = min (captures i s n) capacity := by
  rw [AsyncFifo.taken, captures, AsyncFifo.writeFire, h.writeReady]
  change (if rises i then if !resetN i s then 0 else
    if s.capture.byteValid && decide (n < capacity) then _ else _ else _) = _
  cases rises i with
  | false => rfl
  | true =>
    cases resetN i s with
    | false => exact (Nat.zero_min capacity).symm
    | true =>
      cases s.capture.byteValid with
      | false => rfl
      | true =>
        rcases Nat.lt_or_ge n capacity with hroom | hfull
        · rw [decide_eq_true hroom]
          change min n capacity + 1 = min (n + 1) capacity
          omega
        · rw [decide_eq_false (Nat.not_lt.mpr hfull)]
          change min n capacity = min (n + 1) capacity
          omega

/-- A byte that comes when the FIFO is full is one more drop. -/
theorem Unread.dropped :
    ((step i s).overrun, (step i s).drops, (step i s).dropsGray) =
      (decide (capacity < captures i s n), BitVec.ofNat 64 (captures i s n - capacity),
        gray (BitVec.ofNat 64 (captures i s n - capacity))) := by
  rw [step_drops, captures, CaptureChain.dropped, h.writeReady, h.overrun, h.drops, h.dropsGray]
  cases rises i with
  | false => rfl
  | true =>
    cases resetN i s with
    | false =>
      change (false, (0 : BitVec 64), (0 : BitVec 64)) = (false, 0, gray 0)
      rw [gray_zero]
    | true =>
      cases s.capture.byteValid with
      | false => rfl
      | true =>
        -- a byte has come: into the FIFO if there is room, else it is counted
        rcases Nat.lt_or_ge n capacity with hroom | hfull
        · have hnone : decide (capacity < n) = false := decide_eq_false (by omega)
          have hstill : decide (capacity < n + 1) = false := decide_eq_false (by omega)
          rw [decide_eq_true hroom, hnone, Nat.sub_eq_zero_of_le hroom.le]
          simp only [hstill, Nat.sub_eq_zero_of_le hroom, Bool.not_true, Bool.and_false,
            Bool.false_eq_true, if_true, if_false]
        · have hnow : decide (capacity < n + 1) = true := decide_eq_true (by omega)
          rw [decide_eq_false (Nat.not_lt.mpr hfull), AsyncFifo.ofNat_succ]
          simp only [hnow, Nat.succ_sub hfull, Bool.not_true, Bool.not_false, Bool.and_true,
            Bool.false_eq_true, if_true, if_false]

/-- What one instant without a read does to a chain that nobody has read. -/
theorem Unread.step (hread : i.readReady = false) : Unread (captures i s n) (step i s) := by
  have hfifo := h.fifo.step (i := fifoInput i s) (by decide) hread
  rw [h.taken, ← step_fifo] at hfifo
  have hdropped := h.dropped (i := i)
  simp only [Prod.mk.injEq] at hdropped
  exact ⟨hfifo, hdropped.1, hdropped.2.1, hdropped.2.2⟩

/-- As long as the captured bytes fit, nothing is reported. -/
theorem Unread.silent (hread : i.readReady = false) (hn : n ≤ capacity)
    (hnext : captures i s n ≤ capacity) (hs : Silent s) : Silent (CaptureChain.step i s) := by
  have hnow := h.step hread
  have hsynced := step_synced i s
  -- both registers are at rest, so whatever the flops catch of them is the same
  rw [hnow.overrun, hnow.dropsGray, h.overrun, h.dropsGray, decide_eq_false (Nat.not_lt.mpr hn),
    decide_eq_false (Nat.not_lt.mpr hnext), Nat.sub_eq_zero_of_le hn,
    Nat.sub_eq_zero_of_le hnext, sample_self, ite_self, hs.overrunS1, hs.overrunS2,
    hs.dropsGrayS1, hs.dropsGrayS2, ← BitVec.ofNat_eq_ofNat, gray_zero, ite_self,
    ite_self] at hsynced
  simp only [Prod.mk.injEq] at hsynced
  exact ⟨hsynced.1, hsynced.2.1, hsynced.2.2.1, hsynced.2.2.2⟩

end

end CaptureChain
