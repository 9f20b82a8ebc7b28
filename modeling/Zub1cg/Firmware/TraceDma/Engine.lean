import Zub1cg.Firmware.TraceDma.Sessions

/-!
# The trace service beside the DMA engine

The S2MM engine works through the descriptors on its own, up to the tail. When its run bit is
cleared it still finishes the transfer it is at; only then is it halted. `trace_dma_stop`
releases the packets right after clearing the bit.

## Main definitions

- `Engine` — the engine's registers and what it is doing
- `TraceMachine.step` — one access of the software, or one move of the engine
- `TraceMachine.NoUseAfterFree` — the engine can write only into packets the service holds
- `TraceMachine.ReleasesSafely` — a packet is released when the engine cannot write into it
-/

namespace Firmware

/-! ### The machine -/

inductive EngineMode where
  | reset
  | halted
  | running
  /-- the run bit is clear, `DMASR.Halted` is not set -/
  | stopping
  deriving DecidableEq, Repr

structure Engine where
  mode : EngineMode
  /-- the descriptor the engine is at -/
  current : ℕ
  tail : ℕ
  /-- the descriptor at the tail is done -/
  idle : Bool
  /-- a transfer into the current descriptor is in progress -/
  busy : Bool
  deriving DecidableEq, Repr

/-- Neither halted nor in reset. -/
def Engine.Live (e : Engine) : Prop := e.mode = .running ∨ e.mode = .stopping

instance (e : Engine) : Decidable e.Live := inferInstanceAs (Decidable (_ ∨ _))

def Engine.writeTail (e : Engine) (slot : ℕ) : Engine := { e with tail := slot, idle := false }

/-- Where the trace thread is. -/
inductive TracePoint where
  | accepting
  /-- `trace_dma_initialize`: polling the reset bit, filling the ring, writing the tail -/
  | resetting (remaining : ℕ)
  | filling (slot : ℕ)
  | launching
  /-- the loop around `trace_dma_send_completed`: between calls, before the tail is written,
  before the packet is sent -/
  | streaming
  | exchanging (packet : NxPacket)
  | sending (packet : NxPacket)
  /-- `trace_dma_stop`: before the run bit is cleared, releasing the packets -/
  | stopping
  | releasing (slot : ℕ)
  deriving DecidableEq

structure TraceMachine where
  dma : TraceDma
  engine : Engine
  point : TracePoint

inductive TraceEvent where
  | software (answer : Allocation) (result : SendResult)
  /-- the reset is over -/
  | resetDone
  /-- the engine begins and finishes a transfer into the current descriptor -/
  | begin
  | finish (status : UInt32) (bytes : List UInt8)
  /-- the engine halts after its run bit was cleared, or by itself on an error -/
  | halt
  | fault

namespace TraceMachine

def powerOn : TraceMachine where
  dma := TraceDma.powerOn
  engine := ⟨.halted, 0, 0, true, false⟩
  point := .accepting

/-- One access of the software to the engine or to a slot. -/
def software (m : TraceMachine) (answer : Allocation) (result : SendResult) : TraceMachine :=
  match m.point with
  | .accepting =>
    { m with
      engine := ⟨.reset, 0, 0, true, false⟩
      point := .resetting TRACE_DMA_RESET_BUDGET }
  | .resetting remaining =>
    if m.engine.mode = .reset then
      match remaining with
      | 0 => { m with dma := m.dma.error, point := .stopping }
      | remaining + 1 => { m with point := .resetting remaining }
    else { m with point := .filling 0 }
  | .filling slot =>
    if slot < TRACE_DMA_BD_COUNT then
      match m.dma.initializeSlot slot answer with
      | (.error _, dma) => { m with dma := dma, point := .stopping }
      | (.ok (), dma) => { m with dma := dma, point := .filling (slot + 1) }
    else
      -- `CURDESC`, then the run bit; without a tail the engine does nothing yet.
      { m with
        engine := { m.engine with mode := .running, current := 0, idle := true }
        point := .launching }
  | .launching =>
    { dma := { m.dma with consumer := 0 }
      engine := m.engine.writeTail (TRACE_DMA_BD_COUNT - 1)
      point := .streaming }
  | .streaming =>
    match m.dma.examine with
    | (.error status, dma) =>
      { m with
        dma := dma
        point := if status = TRACE_DMA_NOT_READY then .streaming else .stopping }
    | (.ok packet, dma) =>
      match dma.allocatePacket answer with
      | (.error _, dma) => { m with dma := dma, point := .stopping }
      | (.ok replacement, dma) =>
        { m with dma := dma.rearm dma.consumer replacement, point := .exchanging packet }
  | .exchanging packet =>
    { dma := { m.dma with consumer := (m.dma.consumer + 1) % TRACE_DMA_BD_COUNT }
      engine := m.engine.writeTail m.dma.consumer
      point := .sending packet }
  | .sending packet =>
    let (status, dma) := m.dma.send packet result
    { m with dma := dma, point := if status = NX_SUCCESS then .streaming else .stopping }
  | .stopping =>
    { m with
      engine :=
        if m.engine.mode = .running then { m.engine with mode := .stopping } else m.engine
      point := .releasing 0 }
  | .releasing slot =>
    if slot < TRACE_DMA_BD_COUNT then
      { m with dma := m.dma.releaseSlot slot, point := .releasing (slot + 1) }
    else { m with point := .accepting }

def step (m : TraceMachine) : TraceEvent → TraceMachine
  | .software answer result => m.software answer result
  | .resetDone =>
    if m.engine.mode = .reset then { m with engine := { m.engine with mode := .halted } } else m
  | .begin =>
    if m.engine.mode = .running ∧ m.engine.idle = false ∧ m.engine.busy = false ∧
        (m.dma.descriptor m.engine.current).status &&& TRACE_DMA_BD_COMPLETE = 0 then
      { m with engine := { m.engine with busy := true } }
    else m
  | .finish status bytes =>
    -- A finished descriptor has its complete bit set.
    if m.engine.Live ∧ m.engine.busy = true ∧ status &&& TRACE_DMA_BD_COMPLETE ≠ 0 then
      { m with
        dma := m.dma.transfer m.engine.current status bytes
        engine := { m.engine with
          current := (m.dma.descriptor m.engine.current).next
          idle := m.engine.current == m.engine.tail
          busy := false } }
    else m
  | .halt =>
    if m.engine.mode = .stopping ∧ m.engine.busy = false then
      { m with engine := { m.engine with mode := .halted } }
    else m
  | .fault =>
    if m.engine.Live then { m with engine := { m.engine with mode := .halted, busy := false } }
    else m

def run (m : TraceMachine) (events : List TraceEvent) : TraceMachine := events.foldl step m

/-! ### What the engine may write into -/

/-- The descriptors from `slot` on, following the next pointers, up to the tail. -/
def upToTail (m : TraceMachine) : ℕ → ℕ → List ℕ
  | 0, _ => []
  | n + 1, slot =>
    if slot = m.engine.tail then [slot]
    else slot :: upToTail m n (m.dma.descriptor slot).next

def Reachable (m : TraceMachine) (slot : ℕ) : Prop :=
  m.engine.idle = false ∧ slot ∈ m.upToTail TRACE_DMA_BD_COUNT m.engine.current

instance (m : TraceMachine) (slot : ℕ) : Decidable (m.Reachable slot) :=
  inferInstanceAs (Decidable (_ ∧ _))

/-- While the engine is neither halted nor in reset, every armed descriptor it can reach
points into a packet that lies in one of the service's slots. -/
def NoUseAfterFree (m : TraceMachine) : Prop :=
  m.engine.Live → ∀ i < TRACE_DMA_BD_COUNT, (m.dma.descriptor i).status = 0 → m.Reachable i →
    ∃ slot < TRACE_DMA_BD_COUNT,
      (m.dma.packetSlot slot).map NxPacket.data = some (m.dma.descriptor i).buffer

instance (m : TraceMachine) : Decidable m.NoUseAfterFree :=
  inferInstanceAs (Decidable (_ → _))

/-- If the step releases the packet of a slot, then the engine is halted or in reset, or the
slot is empty, or its descriptor is no longer armed. -/
def ReleasesSafely (m : TraceMachine) : TraceEvent → Prop
  | .software _ _ => ∀ slot < TRACE_DMA_BD_COUNT, m.point = .releasing slot →
    ¬ m.engine.Live ∨ m.dma.packetSlot slot = none ∨ (m.dma.descriptor slot).status ≠ 0
  | _ => True

instance (m : TraceMachine) : (event : TraceEvent) → Decidable (m.ReleasesSafely event)
  | .software _ _ => inferInstanceAs (Decidable (∀ slot < TRACE_DMA_BD_COUNT, _ → _))
  | .resetDone => .isTrue trivial
  | .begin => .isTrue trivial
  | .finish _ _ => .isTrue trivial
  | .halt => .isTrue trivial
  | .fault => .isTrue trivial

/-- Every step of a run releases safely. -/
def Careful : TraceMachine → List TraceEvent → Prop
  | _, [] => True
  | m, event :: events => m.ReleasesSafely event ∧ Careful (m.step event) events

instance : (m : TraceMachine) → (events : List TraceEvent) → Decidable (Careful m events)
  | _, [] => .isTrue trivial
  | m, event :: events =>
    have := instDecidableCareful (m.step event) events
    inferInstanceAs (Decidable (_ ∧ _))

end TraceMachine

end Firmware
