import Zub1cg.Library.Slots

/-!
# The trace DMA (`firmware/a53_app/src/main.c`)

Every descriptor of the ring owns a packet of NetX while the hardware writes into it; a
completed one gets a fresh packet and the old one goes to TCP. NetX itself is not modelled:
each call of `nx_packet_allocate` and `nx_tcp_socket_send` comes with NetX's answer.

## Main definitions

- `NxPacket`, `TraceDmaDescriptor`, `TraceDma` — packets, descriptors and the service's variables
- `TraceDma.initializeRing`, `TraceDma.sendCompleted`, `TraceDma.stop` — the functions `trace_dma_…`
- `TraceSession.step` — the trace thread's sessions, and the hardware beside them
-/

namespace Firmware

def TRACE_DMA_BD_COMPLETE : UInt32 := 0x80000000
def TRACE_DMA_BD_ERROR_MASK : UInt32 := 0x70000000
def TRACE_DMA_LENGTH_MASK : UInt32 := 0x03ffffff
def TRACE_DMA_BD_COUNT : ℕ := 32
def TRACE_DMA_BUFFER_SIZE : UInt32 := 16512
def TRACE_DMA_CACHE_LINE : UInt64 := 64
def TRACE_DMA_RESET_BUDGET : ℕ := 1000000
def TRACE_DMA_NOT_READY : UInt32 := 0xfe

def NX_SUCCESS : UInt32 := 0

/-- A status NetX fails with: none is `NX_SUCCESS` and none is the service's own
`TRACE_DMA_NOT_READY`. -/
structure NxFailure where
  status : UInt32
  ne_success : status ≠ NX_SUCCESS
  ne_not_ready : status ≠ TRACE_DMA_NOT_READY
  deriving DecidableEq

def NX_SIZE_ERROR : NxFailure := ⟨0x09, by decide, by decide⟩
def NX_NOT_SUCCESSFUL : NxFailure := ⟨0x43, by decide, by decide⟩

/-- An address in the memory of the packet of one allocation. -/
structure Pointer where
  packet : ℕ
  address : UInt64
  deriving DecidableEq, Repr, Inhabited

/-- A packet, with the number of the allocation it comes from. -/
structure NxPacket where
  number : ℕ
  prependPtr : UInt64
  appendPtr : UInt64
  length : UInt32
  /-- `GEM2_PACKET_NONCACHE` in the capability flags -/
  nonCache : Bool
  deriving DecidableEq, Repr, Inhabited

def NxPacket.data (packet : NxPacket) : Pointer := ⟨packet.number, packet.prependPtr⟩

/-- The packet with `length` bytes in it. -/
def NxPacket.filled (packet : NxPacket) (length : UInt32) : NxPacket :=
  { packet with
    appendPtr := packet.prependPtr + length.toUInt64
    length := length
    nonCache := true }

/-- The two words of the buffer address are kept as the pointer they hold. -/
structure TraceDmaDescriptor where
  next : ℕ
  buffer : Pointer
  control : UInt32
  status : UInt32
  deriving DecidableEq, Repr, Inhabited

/-- What `nx_packet_allocate` answers: a status, or a packet's `nx_packet_prepend_ptr` and
`nx_packet_data_end`. -/
abbrev Allocation := Except NxFailure (UInt64 × UInt64)

/-- What `nx_tcp_socket_send` answers: `none` is `NX_SUCCESS`. -/
abbrev SendResult := Option NxFailure

/-- A packet that went to NetX, with the bytes it held then. -/
structure Handed where
  packet : NxPacket
  payload : List UInt8
  deriving DecidableEq, Repr

/-- The static variables, what NetX has been asked for and given back, and what the hardware
left in the packets. -/
structure TraceDma where
  descriptors : List TraceDmaDescriptor
  packetSlots : List (Option NxPacket)
  consumer : ℕ
  bytes : UInt64
  packets : UInt32
  errors : UInt32
  /-- the packets allocated so far: the next one gets this number -/
  allocated : ℕ
  released : List ℕ
  handed : List Handed
  memory : Pointer → List UInt8

namespace TraceDma

/-- Before the first session. -/
def powerOn : TraceDma where
  descriptors := List.replicate TRACE_DMA_BD_COUNT ⟨0, ⟨0, 0⟩, 0, 0⟩
  packetSlots := List.replicate TRACE_DMA_BD_COUNT none
  consumer := 0
  bytes := 0
  packets := 0
  errors := 0
  allocated := 0
  released := []
  handed := []
  memory := fun _ => []

/-- `trace_descriptors[slot]` -/
def descriptor (s : TraceDma) (slot : ℕ) : TraceDmaDescriptor :=
  s.descriptors.getD slot ⟨0, ⟨0, 0⟩, 0, 0⟩

def setDescriptor (s : TraceDma) (slot : ℕ) (bd : TraceDmaDescriptor) : TraceDma :=
  { s with descriptors := s.descriptors.set slot bd }

/-- `trace_dma_packet_slots[slot]` -/
def packetSlot (s : TraceDma) (slot : ℕ) : Option NxPacket := s.packetSlots.getD slot none

def setPacketSlot (s : TraceDma) (slot : ℕ) (packet : Option NxPacket) : TraceDma :=
  { s with packetSlots := s.packetSlots.set slot packet }

def error (s : TraceDma) : TraceDma := { s with errors := s.errors + 1 }

/-- NetX gives out a packet. -/
def allocate (s : TraceDma) : TraceDma := { s with allocated := s.allocated + 1 }

/-- `nx_packet_release` -/
def release (s : TraceDma) (packet : NxPacket) : TraceDma :=
  { s with released := s.released ++ [packet.number] }

/-- One turn of the loop in `trace_dma_stop`. -/
def releaseSlot (s : TraceDma) (slot : ℕ) : TraceDma :=
  match s.packetSlot slot with
  | some packet => (s.release packet).setPacketSlot slot none
  | none => s

def stop (s : TraceDma) : TraceDma := (List.range TRACE_DMA_BD_COUNT).foldl releaseSlot s

def allocatePacket (s : TraceDma) : Allocation → Except NxFailure NxPacket × TraceDma
  | .error failure => (.error failure, s)
  | .ok (prepend, dataEnd) =>
    let number := s.allocated
    let s := s.allocate
    let data := (prepend + TRACE_DMA_CACHE_LINE - 1) &&& ~~~(TRACE_DMA_CACHE_LINE - 1)
    let packet : NxPacket := ⟨number, data, data, 0, false⟩
    if data + TRACE_DMA_BUFFER_SIZE.toUInt64 > dataEnd then
      (.error NX_SIZE_ERROR, s.release packet)
    else (.ok packet, s)

def rearm (s : TraceDma) (slot : ℕ) (packet : NxPacket) : TraceDma :=
  let bd : TraceDmaDescriptor := { s.descriptor slot with
    buffer := packet.data
    control := TRACE_DMA_BUFFER_SIZE
    status := 0 }
  (s.setDescriptor slot bd).setPacketSlot slot (some packet)

/-! ### `trace_dma_initialize` -/

/-- The loop that waits for the reset bit of `DMACR` to clear; `reset i` is the bit at its
`i`-th read. -/
def awaitReset (reset : ℕ → Bool) : ℕ → ℕ → Bool
  | i, 0 => !reset i
  | i, remaining + 1 => if reset i then awaitReset reset (i + 1) remaining else true

/-- The descriptor is zeroed and linked to the one behind it. -/
def clearDescriptor (s : TraceDma) (slot : ℕ) : TraceDma :=
  s.setDescriptor slot ⟨(slot + 1) % TRACE_DMA_BD_COUNT, ⟨0, 0⟩, 0, 0⟩

/-- One turn of the loop that fills the ring. -/
def initializeSlot (s : TraceDma) (slot : ℕ) (answer : Allocation) :
    Except NxFailure Unit × TraceDma :=
  let s := s.clearDescriptor slot
  match s.allocatePacket answer with
  | (.error failure, s) => (.error failure, s.error)
  | (.ok packet, s) => (.ok (), s.rearm slot packet)

/-- The loop from `slot` on, with `remaining` slots left. -/
def initializeFrom (answers : ℕ → Allocation) :
    ℕ → ℕ → TraceDma → Except NxFailure Unit × TraceDma
  | 0, _, s => (.ok (), s)
  | remaining + 1, slot, s =>
    match s.initializeSlot slot (answers slot) with
    | (.error failure, s) => (.error failure, s)
    | (.ok (), s) => initializeFrom answers remaining (slot + 1) s

def initializeRing (s : TraceDma) (reset : ℕ → Bool) (answers : ℕ → Allocation) :
    UInt32 × TraceDma :=
  if awaitReset reset 0 TRACE_DMA_RESET_BUDGET then
    match initializeFrom answers TRACE_DMA_BD_COUNT 0 s with
    | (.error failure, s) => (failure.status, s)
    | (.ok (), s) => (NX_SUCCESS, { s with consumer := 0 })
  else (NX_NOT_SUCCESSFUL.status, s.error)

/-! ### `trace_dma_send_completed` -/

/-- The checks on the descriptor at the consumer, up to the packet that is ready to go. -/
def examine (s : TraceDma) : Except UInt32 NxPacket × TraceDma :=
  let slot := s.consumer
  let status := (s.descriptor slot).status
  let length := status &&& TRACE_DMA_LENGTH_MASK
  if status &&& TRACE_DMA_BD_COMPLETE = 0 then (.error TRACE_DMA_NOT_READY, s)
  else if status &&& TRACE_DMA_BD_ERROR_MASK ≠ 0 then (.error NX_NOT_SUCCESSFUL.status, s.error)
  else if length = 0 ∨ length > TRACE_DMA_BUFFER_SIZE then
    (.error NX_NOT_SUCCESSFUL.status, s.error)
  else
    match s.packetSlot slot with
    | none => (.error NX_NOT_SUCCESSFUL.status, s.error)
    | some packet =>
      -- The slot still points to the packet.
      (.ok (packet.filled length), s.setPacketSlot slot (some (packet.filled length)))

/-- The descriptor at the consumer is armed with a new packet and the consumer moves on. -/
def exchange (s : TraceDma) (replacement : NxPacket) : TraceDma :=
  { s.rearm s.consumer replacement with
    consumer := (s.consumer + 1) % TRACE_DMA_BD_COUNT }

/-- `nx_tcp_socket_send` and what follows it. -/
def send (s : TraceDma) (packet : NxPacket) : SendResult → UInt32 × TraceDma
  | some failure => (failure.status, s.release packet)
  | none =>
    (NX_SUCCESS,
      { s with
        handed := s.handed ++ [⟨packet, (s.memory packet.data).take packet.length.toNat⟩]
        bytes := s.bytes + packet.length.toUInt64
        packets := s.packets + 1 })

def sendCompleted (s : TraceDma) (answer : Allocation) (result : SendResult) :
    UInt32 × TraceDma :=
  match s.examine with
  | (.error status, s) => (status, s)
  | (.ok packet, s) =>
    match s.allocatePacket answer with
    | (.error failure, s) => (failure.status, s)
    | (.ok replacement, s) => (s.exchange replacement).send packet result

/-- The hardware writes into the packet of a descriptor and sets the status word, unless the
descriptor is complete. -/
def transfer (s : TraceDma) (slot : ℕ) (status : UInt32) (bytes : List UInt8) : TraceDma :=
  let bd := s.descriptor slot
  { s.setDescriptor slot { bd with status := status } with
    memory := fun pointer => if pointer = bd.buffer then bytes else s.memory pointer }

end TraceDma

/-! ### Sessions -/

/-- A completed descriptor: its status word and the bytes the hardware wrote. -/
structure Transfer where
  status : UInt32
  bytes : List UInt8
  deriving DecidableEq, Repr

def Transfer.payload (t : Transfer) : List UInt8 :=
  t.bytes.take (t.status &&& TRACE_DMA_LENGTH_MASK).toNat

/-- Where `trace_thread_entry` is: waiting for a client, in the loop that sends, or on the
way to `trace_dma_stop`. -/
inductive TracePhase where
  | accepting
  | streaming
  | ending
  deriving DecidableEq, Repr

inductive TraceOp where
  | initializeRing (reset : ℕ → Bool) (answers : ℕ → Allocation)
  | sendCompleted (answer : Allocation) (result : SendResult)
  | stop
  | transfer (slot : ℕ) (status : UInt32) (bytes : List UInt8)

/-- The trace thread, with a record of the session: how many packets NetX had been handed
before it, and what the hardware has completed in each slot. -/
structure TraceSession where
  dma : TraceDma
  phase : TracePhase
  before : ℕ
  transfers : ℕ → List Transfer

namespace TraceSession

def powerOn : TraceSession where
  dma := TraceDma.powerOn
  phase := .accepting
  before := 0
  transfers := fun _ => []

/-- What NetX has been handed in this session. -/
def sent (s : TraceSession) : List Handed := s.dma.handed.drop s.before

def step (s : TraceSession) : TraceOp → TraceSession
  | .initializeRing reset answers =>
    if s.phase = .accepting then
      let (result, dma) := s.dma.initializeRing reset answers
      { dma := dma
        phase := if result = NX_SUCCESS then .streaming else .ending
        before := s.dma.handed.length
        transfers := fun _ => [] }
    else s
  | .sendCompleted answer result =>
    if s.phase = .streaming then
      let (result, dma) := s.dma.sendCompleted answer result
      { s with
        dma := dma
        phase := if result = TRACE_DMA_NOT_READY ∨ result = NX_SUCCESS then .streaming
          else .ending }
    else s
  | .stop =>
    if s.phase = .accepting then s else { s with dma := s.dma.stop, phase := .accepting }
  | .transfer slot status bytes =>
    -- A complete descriptor is left alone until the software arms it again.
    if slot < TRACE_DMA_BD_COUNT ∧
        (s.dma.descriptor slot).status &&& TRACE_DMA_BD_COMPLETE = 0 then
      { s with
        dma := s.dma.transfer slot status bytes
        transfers := fun i =>
          if i = slot ∧ status &&& TRACE_DMA_BD_COMPLETE ≠ 0 then
            s.transfers i ++ [⟨status, bytes⟩]
          else s.transfers i }
    else s

/-- Any sequence of calls and transfers. -/
def run (s : TraceSession) (ops : List TraceOp) : TraceSession := ops.foldl step s

end TraceSession

end Firmware
