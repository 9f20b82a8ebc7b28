import Zub1cg.Library.LittleEndian

/-!
# The DMA descriptor ring (`firmware/common/src/lib.rs`)

A ring of descriptors that the software fills at `producer` and takes back at `consumer`;
the hardware writes the status word of the descriptors in between. Descriptor words that
neither side uses are left out.

## Main definitions

- `AxiDmaDescriptor`, `AxiDmaRing` — the descriptor memory and the two indices
- `AxiDmaRing.enqueue`, `AxiDmaRing.pollCompleted` — the software's operations
- `RingOp`, `Ledger.step` — the operations of both sides, and what is noted down about them
-/

namespace Firmware

def AXI_DMA_LENGTH_MASK : UInt32 := 0x03ffffff
def AXI_DMA_STATUS_COMPLETE : UInt32 := 0x80000000
def AXI_DMA_STATUS_ERROR_MASK : UInt32 := 0x70000000

structure AxiDmaDescriptor where
  nextDescriptorLo : UInt32
  nextDescriptorHi : UInt32
  bufferAddressLo : UInt32
  bufferAddressHi : UInt32
  control : UInt32
  status : UInt32
  deriving DecidableEq, Repr, Inhabited

/-- `AxiDmaDescriptor::default()` -/
def AxiDmaDescriptor.zero : AxiDmaDescriptor := ⟨0, 0, 0, 0, 0, 0⟩

inductive DmaRingError where
  | InvalidCount
  | UnalignedDescriptorBase
  | InvalidCapacity
  | Full
  | Hardware (status : UInt32)
  deriving DecidableEq, Repr

structure CompletedBuffer where
  address : UInt64
  capacity : UInt32
  transferred : UInt32
  descriptorAddress : UInt64
  deriving DecidableEq, Repr

structure AxiDmaRing where
  descriptors : List AxiDmaDescriptor
  descriptorBase : UInt64
  producer : ℕ
  consumer : ℕ
  deriving DecidableEq, Repr

/-- `x as u32` -/
def lowWord (x : UInt64) : UInt32 := x.toUInt32

/-- `(x >> 32) as u32` -/
def highWord (x : UInt64) : UInt32 := (x >>> 32).toUInt32

/-- `(lo as u64) | ((hi as u64) << 32)` -/
def joinWords (lo hi : UInt32) : UInt64 := lo.toUInt64 ||| hi.toUInt64 <<< 32

namespace AxiDmaRing

/-- One turn of the loop in `new`. -/
def newDescriptor (base : UInt64) (count index : ℕ) : AxiDmaDescriptor :=
  let next := base + UInt64.ofNat (((index + 1) &&& (count - 1)) * 64)
  { AxiDmaDescriptor.zero with
    nextDescriptorLo := lowWord next
    nextDescriptorHi := highWord next }

def new (descriptors : List AxiDmaDescriptor) (base : UInt64) : Except DmaRingError AxiDmaRing :=
  -- `is_power_of_two`
  if descriptors.length < 2 ∨ 2 ^ descriptors.length.log2 ≠ descriptors.length then
    .error .InvalidCount
  else if base &&& 63 ≠ 0 then .error .UnalignedDescriptorBase
  else
    .ok {
      descriptors := (List.range descriptors.length).map (newDescriptor base descriptors.length)
      descriptorBase := base
      producer := 0
      consumer := 0 }

/-- `self.descriptors[index]` -/
def descriptor (self : AxiDmaRing) (index : ℕ) : AxiDmaDescriptor :=
  self.descriptors.getD index AxiDmaDescriptor.zero

def currentDescriptorAddress (self : AxiDmaRing) : UInt64 :=
  self.descriptorBase + UInt64.ofNat (self.consumer * 64)

def enqueue (self : AxiDmaRing) (address : UInt64) (capacity : UInt32) :
    Except DmaRingError UInt64 × AxiDmaRing :=
  if capacity = 0 ∨ capacity > AXI_DMA_LENGTH_MASK then (.error .InvalidCapacity, self)
  else
    let next := (self.producer + 1) &&& (self.descriptors.length - 1)
    if next = self.consumer then (.error .Full, self)
    else
      let index := self.producer
      let filled := { self.descriptor index with
        bufferAddressLo := lowWord address
        bufferAddressHi := highWord address
        control := capacity
        status := 0 }
      (.ok (self.descriptorBase + UInt64.ofNat (index * 64)),
        { self with descriptors := self.descriptors.set index filled, producer := next })

def pollCompleted (self : AxiDmaRing) :
    Except DmaRingError (Option CompletedBuffer) × AxiDmaRing :=
  if self.consumer = self.producer then (.ok none, self)
  else
    let index := self.consumer
    let descriptor := self.descriptor index
    if descriptor.status &&& AXI_DMA_STATUS_COMPLETE = 0 then (.ok none, self)
    else if descriptor.status &&& AXI_DMA_STATUS_ERROR_MASK ≠ 0 then
      (.error (.Hardware descriptor.status), self)
    else
      let completed : CompletedBuffer := {
        address := joinWords descriptor.bufferAddressLo descriptor.bufferAddressHi
        capacity := descriptor.control &&& AXI_DMA_LENGTH_MASK
        transferred := descriptor.status &&& AXI_DMA_LENGTH_MASK
        descriptorAddress := self.descriptorBase + UInt64.ofNat (index * 64) }
      (.ok (some completed),
        { self with
          descriptors := self.descriptors.set index { descriptor with control := 0, status := 0 }
          consumer := (self.consumer + 1) &&& (self.descriptors.length - 1) })

/-- The index of the descriptor at an address. -/
def indexOf (self : AxiDmaRing) (address : UInt64) : ℕ :=
  (address - self.descriptorBase).toNat / 64

/-- The hardware writes the status word of the descriptor at `address`. -/
def setStatus (self : AxiDmaRing) (address : UInt64) (status : UInt32) : AxiDmaRing :=
  let index := self.indexOf address
  { self with
    descriptors := self.descriptors.set index { self.descriptor index with status := status } }

/-- The address the descriptor at `address` points to. -/
def follow (self : AxiDmaRing) (address : UInt64) : UInt64 :=
  let descriptor := self.descriptor (self.indexOf address)
  joinWords descriptor.nextDescriptorLo descriptor.nextDescriptorHi

end AxiDmaRing

/-! ### Both sides at work -/

/-- An operation of the software, or a write of the hardware to the status word of the `k`-th
outstanding descriptor, counted from the oldest one. -/
inductive RingOp where
  | enqueue (address : UInt64) (capacity : UInt32)
  | pollCompleted
  | hardware (k : ℕ) (status : UInt32)
  deriving DecidableEq, Repr

/-- A successful `enqueue`: its arguments and the descriptor address it returned. -/
structure Issued where
  address : UInt64
  capacity : UInt32
  descriptorAddress : UInt64
  deriving DecidableEq, Repr, Inhabited

/-- The ring with a record of everything that went in and out: the successful `enqueue`s, the
last status the hardware wrote for each of them, and the buffers `poll_completed` returned. -/
structure Ledger where
  ring : AxiDmaRing
  issued : List Issued
  status : ℕ → UInt32
  completed : List CompletedBuffer

namespace Ledger

def start (ring : AxiDmaRing) : Ledger where
  ring := ring
  issued := []
  status := fun _ => 0
  completed := []

/-- The number of buffers that went in and have not come out. -/
def outstanding (l : Ledger) : ℕ := l.issued.length - l.completed.length

def step (l : Ledger) : RingOp → Ledger
  | .enqueue address capacity =>
    match l.ring.enqueue address capacity with
    | (.ok descriptorAddress, ring) =>
      { l with ring := ring, issued := l.issued ++ [⟨address, capacity, descriptorAddress⟩] }
    | (.error _, ring) => { l with ring := ring }
  | .pollCompleted =>
    match l.ring.pollCompleted with
    | (.ok (some buffer), ring) => { l with ring := ring, completed := l.completed ++ [buffer] }
    | (_, ring) => { l with ring := ring }
  | .hardware k status =>
    match l.issued[l.completed.length + k]? with
    | some buffer =>
      { l with
        ring := l.ring.setStatus buffer.descriptorAddress status
        status := fun i => if i = l.completed.length + k then status else l.status i }
    | none => l

/-- Any interleaving of operations of the two sides. -/
def run (l : Ledger) (ops : List RingOp) : Ledger := ops.foldl step l

end Ledger

end Firmware
