import Zub1cg.Library.Clocked
import Mathlib.Logic.Function.Basic
import Mathlib.Data.BitVec

/-!
# The Orbflow encoder (`orbtrace_orbflow_encoder.sv`)

A loader stores a packet's raw bytes and the lengths of its COBS groups in one of two banks;
an emitter sends the bank that was filled first as one frame. The banks are functions of
the bank number. Counters whose width the source derives from `MAX_PAYLOAD` are natural
numbers. Every update reads the old state `s` and writes the new state `n`.

## Main definitions

- `OrbflowEncoder.State`, `OrbflowEncoder.Input` — the registers and the ports at one edge
- `OrbflowEncoder.step` — one edge of `clk`
- `OrbflowEncoder.inputReady`, `outputValid`, `outputData`, `outputLast` — wires
-/

namespace OrbflowEncoder

/-- `load_state_t` -/
inductive LoadState where
  | L_ACCEPT
  | L_FIRST_DATA
  | L_CHECKSUM
  | L_FINALIZE
  deriving DecidableEq, Repr

/-- `emit_state_t` -/
inductive EmitState where
  | E_IDLE
  | E_CODE
  | E_DATA
  | E_DELIMITER
  deriving DecidableEq, Repr

/-- The input ports sampled at one edge of `clk`. -/
structure Input where
  resetN : Bool
  inputChannel : BitVec 7
  inputData : UInt8
  inputValid : Bool
  inputLast : Bool
  outputReady : Bool

/-- The `load_*` registers and the packet being loaded. -/
structure Load where
  bank : Bool
  state : LoadState
  payloadCount : ℕ
  rawLength : ℕ
  groupIndex : ℕ
  groupLength : UInt8
  checksum : UInt8
  pendingData : UInt8
  pendingLast : Bool
  dropping : Bool

/-- The `emit_*` registers and the bank being sent. -/
structure Emit where
  state : EmitState
  encodeBank : Bool
  nextEncodeBank : Bool
  rawIndex : ℕ
  groupIndex : ℕ
  groupRemaining : UInt8

structure State where
  packet : Bool → ℕ → UInt8
  groups : Bool → ℕ → UInt8
  bankGroupCount : Bool → ℕ
  bankFull : Bool → Bool
  load : Load
  emit : Emit
  overrun : Bool
  receivedBytes : BitVec 64
  droppedBytes : BitVec 64

/-! ### Wires -/

def inputReady (s : State) : Bool := s.load.state == .L_ACCEPT && !s.bankFull s.load.bank

def outputValid (s : State) : Bool := s.emit.state != .E_IDLE

def outputLast (s : State) : Bool := s.emit.state == .E_DELIMITER

def emitGroupLength (s : State) : UInt8 := s.groups s.emit.encodeBank s.emit.groupIndex

def emitRawData (s : State) : UInt8 := s.packet s.emit.encodeBank s.emit.rawIndex

def outputData (s : State) : UInt8 :=
  match s.emit.state with
  | .E_CODE => if emitGroupLength s = 0xfe then 0xff else emitGroupLength s + 1
  | .E_DATA => emitRawData s
  | _ => 0

/-- An input byte is taken at this edge. -/
def inputFire (i : Input) (s : State) : Bool := i.inputValid && inputReady s

/-- An output byte is handed over at this edge. -/
def outputFire (i : Input) (s : State) : Bool := outputValid s && i.outputReady

/-- `{1'b0, input_channel}` -/
def channelByte (channel : BitVec 7) : UInt8 := UInt8.ofBitVec (0#1 ++ channel)

/-- `append_valid` and `append_value`: the raw byte stored at this edge. -/
def append (maxPayload : ℕ) (i : Input) (s : State) : Option UInt8 :=
  match s.load.state with
  | .L_ACCEPT =>
    if inputFire i s then
      if s.load.payloadCount = 0 then some (channelByte i.inputChannel)
      else if !s.load.dropping && s.load.payloadCount < maxPayload then some i.inputData
      else none
    else none
  | .L_FIRST_DATA => some s.load.pendingData
  | .L_CHECKSUM => some s.load.checksum
  | .L_FINALIZE => none

/-! ### The clocked block -/

/-- A write to one of the banked memories. -/
def store {α : Type} (mem : Bool → ℕ → α) (bank : Bool) (address : ℕ) (value : α) :
    Bool → ℕ → α :=
  Function.update mem bank (Function.update (mem bank) address value)

/-- The registers the reset branch assigns. -/
def resetState (n : State) : State :=
  { n with
    bankGroupCount := fun _ => 0
    bankFull := fun _ => false
    load := { n.load with
      bank := false
      state := .L_ACCEPT
      payloadCount := 0
      rawLength := 0
      groupIndex := 0
      groupLength := 0
      checksum := 0
      pendingData := 0
      pendingLast := false
      dropping := false }
    emit := { n.emit with
      state := .E_IDLE
      encodeBank := false
      nextEncodeBank := false
      rawIndex := 0
      groupIndex := 0
      groupRemaining := 0 }
    overrun := false
    receivedBytes := 0
    droppedBytes := 0 }

/-- The encoder after reset with cleared memories. -/
def initial : State where
  packet := fun _ _ => 0
  groups := fun _ _ => 0
  bankGroupCount := fun _ => 0
  bankFull := fun _ => false
  load :=
    { bank := false
      state := .L_ACCEPT
      payloadCount := 0
      rawLength := 0
      groupIndex := 0
      groupLength := 0
      checksum := 0
      pendingData := 0
      pendingLast := false
      dropping := false }
  emit :=
    { state := .E_IDLE
      encodeBank := false
      nextEncodeBank := false
      rawIndex := 0
      groupIndex := 0
      groupRemaining := 0 }
  overrun := false
  receivedBytes := 0
  droppedBytes := 0

/-- Store a raw byte and finish a COBS group at each zero or after 254 nonzero bytes. -/
def appendUpdate (maxPayload : ℕ) (i : Input) (s n : State) : State :=
  match append maxPayload i s with
  | none => n
  | some value =>
    let n := { n with
      packet := store n.packet s.load.bank s.load.rawLength value
      load := { n.load with rawLength := s.load.rawLength + 1 } }
    if value = 0 then
      { n with
        groups := store n.groups s.load.bank s.load.groupIndex s.load.groupLength
        load := { n.load with groupIndex := s.load.groupIndex + 1, groupLength := 0 } }
    else if s.load.groupLength = 0xfd then
      { n with
        groups := store n.groups s.load.bank s.load.groupIndex 0xfe
        load := { n.load with groupIndex := s.load.groupIndex + 1, groupLength := 0 } }
    else { n with load := { n.load with groupLength := s.load.groupLength + 1 } }

/-- The loader registers that are cleared between packets. -/
def clearLoad (n : Load) : Load :=
  { n with payloadCount := 0, rawLength := 0, groupIndex := 0, groupLength := 0, checksum := 0 }

/-- The `L_ACCEPT` branch for a byte that is taken. -/
def acceptUpdate (maxPayload : ℕ) (i : Input) (s n : State) : State :=
  let n := { n with receivedBytes := s.receivedBytes + 1 }
  if s.load.payloadCount = 0 then
    { n with load := { n.load with
        pendingData := i.inputData
        pendingLast := i.inputLast
        checksum := 0 - channelByte i.inputChannel - i.inputData
        payloadCount := 1
        state := .L_FIRST_DATA } }
  else if s.load.dropping then
    let n := { n with droppedBytes := s.droppedBytes + 1 }
    if i.inputLast then { n with load := { clearLoad n.load with dropping := false } } else n
  else if s.load.payloadCount < maxPayload then
    let n := { n with load := { n.load with
      checksum := s.load.checksum - i.inputData
      payloadCount := s.load.payloadCount + 1 } }
    if i.inputLast then { n with load := { n.load with state := .L_CHECKSUM } } else n
  else
    let n := { n with
      overrun := true
      droppedBytes := s.droppedBytes + BitVec.ofNat 64 s.load.payloadCount + 1 }
    if i.inputLast then { n with load := { clearLoad n.load with dropping := false } }
    else { n with load := { n.load with dropping := true } }

def loadUpdate (maxPayload : ℕ) (i : Input) (s n : State) : State :=
  match s.load.state with
  | .L_ACCEPT => if inputFire i s then acceptUpdate maxPayload i s n else n
  | .L_FIRST_DATA =>
    if s.load.pendingLast then { n with load := { n.load with state := .L_CHECKSUM } }
    else { n with load := { n.load with state := .L_ACCEPT } }
  | .L_CHECKSUM => { n with load := { n.load with state := .L_FINALIZE } }
  | .L_FINALIZE =>
    { n with
      groups := store n.groups s.load.bank s.load.groupIndex s.load.groupLength
      bankGroupCount := Function.update n.bankGroupCount s.load.bank (s.load.groupIndex + 1)
      bankFull := Function.update n.bankFull s.load.bank true
      load := { clearLoad n.load with bank := !s.load.bank, state := .L_ACCEPT } }

def emitUpdate (i : Input) (s n : State) : State :=
  match s.emit.state with
  | .E_IDLE =>
    if s.bankFull s.emit.nextEncodeBank then
      { n with emit := { n.emit with
          encodeBank := s.emit.nextEncodeBank, rawIndex := 0, groupIndex := 0, state := .E_CODE } }
    else n
  | .E_CODE =>
    if i.outputReady then
      if emitGroupLength s = 0 then
        if s.emit.groupIndex + 1 = s.bankGroupCount s.emit.encodeBank then
          { n with emit := { n.emit with state := .E_DELIMITER } }
        else
          { n with emit := { n.emit with
              rawIndex := s.emit.rawIndex + 1, groupIndex := s.emit.groupIndex + 1 } }
      else
        { n with emit := { n.emit with groupRemaining := emitGroupLength s, state := .E_DATA } }
    else n
  | .E_DATA =>
    if i.outputReady then
      if s.emit.groupRemaining = 1 then
        if s.emit.groupIndex + 1 = s.bankGroupCount s.emit.encodeBank then
          { n with emit := { n.emit with state := .E_DELIMITER } }
        else
          { n with emit := { n.emit with
              rawIndex := s.emit.rawIndex + if emitGroupLength s = 0xfe then 1 else 2
              groupIndex := s.emit.groupIndex + 1
              state := .E_CODE } }
      else
        { n with emit := { n.emit with
            rawIndex := s.emit.rawIndex + 1
            groupRemaining := s.emit.groupRemaining - 1 } }
    else n
  | .E_DELIMITER =>
    if i.outputReady then
      { n with
        bankFull := Function.update n.bankFull s.emit.encodeBank false
        emit := { n.emit with nextEncodeBank := !s.emit.encodeBank, state := .E_IDLE } }
    else n

/-- One edge of `clk`. -/
def step (maxPayload : ℕ) (i : Input) (s : State) : State :=
  if !i.resetN then resetState s
  else emitUpdate i s (loadUpdate maxPayload i s (appendUpdate maxPayload i s s))

/-- The encoder coming out of reset and driven by the schedule `inp`. What the memories hold
before is irrelevant. -/
def run (maxPayload : ℕ) (s₀ : State) (inp : ℕ → Input) : Clocked.Run Input State where
  step := step maxPayload
  start := resetState s₀
  input := inp

/-- The input byte taken at this edge, with its channel and last flag. -/
def accepted (i : Input) (s : State) : List ((BitVec 7 × UInt8) × Bool) :=
  if inputFire i s then [((i.inputChannel, i.inputData), i.inputLast)] else []

/-- The output byte handed over at this edge, with its last flag. -/
def handedOver (i : Input) (s : State) : List (UInt8 × Bool) :=
  if outputFire i s then [(outputData s, outputLast s)] else []

end OrbflowEncoder
