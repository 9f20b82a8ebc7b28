import Zub1cg.Library.Clocked
import Mathlib.Data.BitVec

/-!
# The tick of the real-time core (`sdk/bsp/rpu/timer.c`)

Channel 0 of a triple timer counter raises an interrupt at the end of each interval, and
`IRQHandler` passes it on to ThreadX. The handler is modelled access by access: between any
two of them the counter can come to the end of an interval. What the interrupt controller
and the counter return for registers that are only noted down is up to the `Bus`.

## Main definitions

- `Ttc`, `Gic`, `Hardware` — the registers that are written
- `ttc0Init`, `timerStart` — what is written before the first interrupt
- `State`, `Event`, `step` — the handler, one event after the other
- `intervals`, `ticks` — the ends of intervals and the calls of `_tx_timer_interrupt`
-/

namespace Firmware.RpuTimer

/-! ### Registers -/

def TTC0_CH0_INTID : BitVec 32 := 68

/-- The fields of `TTC_CLK_CNTRL`, `TTC_CNT_CNTRL`, `TTC_ISR` and `TTC_IER`. -/
def CLK_PSDIV_EN : BitVec 32 := 1 <<< 0
def CLK_PSDIV_SHIFT : ℕ := 1
def CNT_DIS : BitVec 32 := 1 <<< 0
def CNT_INTERVAL : BitVec 32 := 1 <<< 1
def TTC_INT_INTERVAL : BitVec 32 := 1 <<< 0

def TTC_REF_CLK_HZ : ℕ := 100000000
def TX_TICKS_PER_SEC : ℕ := 100
def TTC_PSDIV : ℕ := 3
def TTC_COUNTER_CLK_HZ : ℕ := TTC_REF_CLK_HZ / 2 ^ (TTC_PSDIV + 1)
def TTC_INTERVAL : ℕ := TTC_COUNTER_CLK_HZ / TX_TICKS_PER_SEC

def GIC_ENABLE_WORD (id : BitVec 32) : ℕ := id.toNat / 32
def GIC_ENABLE_BIT (id : BitVec 32) : BitVec 32 := 1 <<< (id.toNat % 32)

/-- Channel 0 of the counter. -/
structure Ttc where
  clkCntrl : BitVec 32
  cntCntrl : BitVec 32
  intervalVal : BitVec 32
  isr : BitVec 32
  ier : BitVec 32

/-- The registers of the interrupt controller that `timerStart` and the handler write. -/
structure Gic where
  isenabler : ℕ → BitVec 32
  distCtlr : BitVec 32
  pmr : BitVec 32
  cpuCtlr : BitVec 32
  eoir : BitVec 32

structure Hardware where
  ttc : Ttc
  gic : Gic

/-- The counter's interrupt line is high while a status bit is set. -/
def Ttc.line (t : Ttc) : Bool := t.isr != 0

/-- The interval bit is set. -/
def Ttc.pending (t : Ttc) : Bool := t.isr &&& TTC_INT_INTERVAL != 0

/-- The counter runs and the end of an interval sets its bit. -/
def Ttc.counting (t : Ttc) : Bool :=
  t.cntCntrl &&& CNT_DIS == 0 && t.cntCntrl &&& CNT_INTERVAL != 0 &&
    t.ier &&& TTC_INT_INTERVAL != 0

/-- A read of `TTC_ISR` clears it. -/
def Ttc.readIsr (t : Ttc) : BitVec 32 × Ttc := (t.isr, { t with isr := 0 })

/-- `ttc0_init` -/
def ttc0Init (t : Ttc) : Ttc :=
  let t := { t with cntCntrl := CNT_DIS }
  let t := { t with clkCntrl := CLK_PSDIV_EN ||| (BitVec.ofNat 32 TTC_PSDIV <<< CLK_PSDIV_SHIFT) }
  let t := { t with intervalVal := BitVec.ofNat 32 TTC_INTERVAL }
  let t := { t with cntCntrl := CNT_DIS ||| CNT_INTERVAL }
  t.readIsr.2

/-- `timer_start`, up to `cpsie i`. Writing a bit of `GICD_ISENABLER` enables its interrupt. -/
def timerStart (hw : Hardware) : Hardware where
  ttc := { hw.ttc.readIsr.2 with ier := TTC_INT_INTERVAL, cntCntrl := CNT_INTERVAL }
  gic := { hw.gic with
    isenabler := fun word =>
      if word = GIC_ENABLE_WORD TTC0_CH0_INTID then
        hw.gic.isenabler word ||| GIC_ENABLE_BIT TTC0_CH0_INTID
      else hw.gic.isenabler word
    distCtlr := 1
    pmr := 0xff
    cpuCtlr := 1 }

/-! ### The handler -/

/-- Where `IRQHandler` is: at the access that comes next. -/
inductive Pc where
  | idle
  | hppir
  | iar
  | isr
  | rpr
  | countVal
  | ttcPending
  | ttcActive
  | ppiPending
  | ppiActive
  | icfgr
  | timerInterrupt
  | eoir
  deriving DecidableEq, Repr

/-- The `g_irq_*` variables, for a debugger to read. -/
structure Globals where
  irqEntries : BitVec 32
  irqLastIntid : BitVec 32
  irqLastRpr : BitVec 32
  irqTtcPendingBit : BitVec 32
  irqTtcActiveBit : BitVec 32
  irqPpiPendingWord0 : BitVec 32
  irqPpiActiveWord0 : BitVec 32
  irqLastHppir : BitVec 32
  irqTtcIcfgrBits : BitVec 32
  irqTtcIsrBits : BitVec 32
  irqTtcCountVal : BitVec 32

structure State where
  hw : Hardware
  pc : Pc
  hppir : BitVec 32
  intid : BitVec 32
  ttcIsr : BitVec 32
  globals : Globals

/-- What an access finds: the word of a register that is only noted down, whether another
interrupt outranks that of the counter, and the value of `GICC_IAR` when the counter's is not
the one that is acknowledged. -/
structure Bus where
  word : BitVec 32
  outranked : Bool
  other : BitVec 32
  other_ne : other &&& 0x3ff ≠ TTC0_CH0_INTID

/-- The counter comes to the end of an interval, the core takes an interrupt, for whatever
reason, or the handler makes its next access. -/
inductive Event where
  | interval
  | enter
  | access (bus : Bus)

/-- The value of `GICC_IAR`. -/
def iar (b : Bus) (t : Ttc) : BitVec 32 :=
  if t.line && !b.outranked then TTC0_CH0_INTID else b.other

/-- `(word & GIC_ENABLE_BIT(TTC0_CH0_INTID)) ? 1U : 0U` -/
def enableBit (word : BitVec 32) : BitVec 32 :=
  if word &&& GIC_ENABLE_BIT TTC0_CH0_INTID ≠ 0 then 1 else 0

/-- The next access of `IRQHandler`, with what is done before the one behind it. -/
def access (b : Bus) (s : State) : State :=
  match s.pc with
  | .idle => s
  | .hppir => { s with hppir := b.word &&& 0x3ff, pc := .iar }
  | .iar => { s with intid := iar b s.hw.ttc &&& 0x3ff, pc := .isr }
  | .isr =>
    let (ttcIsr, ttc) := s.hw.ttc.readIsr
    { s with
      hw := { s.hw with ttc := ttc }
      ttcIsr := ttcIsr
      globals := { s.globals with
        irqEntries := s.globals.irqEntries + 1
        irqLastHppir := s.hppir
        irqLastIntid := s.intid }
      pc := .rpr }
  | .rpr =>
    { s with
      globals := { s.globals with irqLastRpr := b.word, irqTtcIsrBits := s.ttcIsr }
      pc := .countVal }
  | .countVal =>
    { s with globals := { s.globals with irqTtcCountVal := b.word }, pc := .ttcPending }
  | .ttcPending =>
    { s with
      globals := { s.globals with irqTtcPendingBit := enableBit b.word }
      pc := .ttcActive }
  | .ttcActive =>
    { s with
      globals := { s.globals with irqTtcActiveBit := enableBit b.word }
      pc := .ppiPending }
  | .ppiPending =>
    { s with globals := { s.globals with irqPpiPendingWord0 := b.word }, pc := .ppiActive }
  | .ppiActive =>
    { s with globals := { s.globals with irqPpiActiveWord0 := b.word }, pc := .icfgr }
  | .icfgr =>
    let shift := 2 * (TTC0_CH0_INTID.toNat % 16)
    { s with
      globals := { s.globals with irqTtcIcfgrBits := (b.word >>> shift) &&& 3 }
      pc := if s.intid = TTC0_CH0_INTID then .timerInterrupt else .eoir }
  | .timerInterrupt => { s with pc := .eoir }
  | .eoir =>
    { s with hw := { s.hw with gic := { s.hw.gic with eoir := s.intid } }, pc := .idle }

/-- One event. Interrupts are masked within the handler. -/
def step (e : Event) (s : State) : State :=
  match e with
  | .interval =>
    if s.hw.ttc.counting then
      { s with hw := { s.hw with ttc := { s.hw.ttc with
          isr := s.hw.ttc.isr ||| TTC_INT_INTERVAL } } }
    else s
  | .enter => if s.pc = .idle then { s with pc := .hppir } else s
  | .access b => access b s

/-- The core when interrupts are enabled for the first time. -/
def started (s : State) : State :=
  { s with hw := timerStart { s.hw with ttc := ttc0Init s.hw.ttc }, pc := .idle }

/-- The events `inp` from then on. -/
def run (s : State) (inp : ℕ → Event) : Clocked.Run Event State where
  step := step
  start := started s
  input := inp

/-! ### What happens at an event -/

/-- An interval of the running counter ends. -/
def intervals (e : Event) (s : State) : List Unit :=
  match e with
  | .interval => if s.hw.ttc.counting then [()] else []
  | _ => []

/-- `_tx_timer_interrupt` is called. -/
def ticks (e : Event) (s : State) : List Unit :=
  match e with
  | .access _ => if s.pc = .timerInterrupt then [()] else []
  | _ => []

/-- The counter's interrupt is acknowledged: a service starts. -/
def Acknowledges (e : Event) (s : State) : Prop :=
  match e with
  | .access b => s.pc = .iar ∧ iar b s.hw.ttc &&& 0x3ff = TTC0_CH0_INTID
  | _ => False

/-- A read of `TTC_ISR` clears the interval bit. -/
def Clears (e : Event) (s : State) : Prop :=
  match e with
  | .access _ => s.pc = .isr ∧ s.hw.ttc.pending = true
  | _ => False

end Firmware.RpuTimer
