import Zub1cg.Library.LittleEndian

/-!
# The control and DAP services' core (`firmware/a53/src/lib.rs`)

`Controller` turns one request into register accesses and an answer. The device is a
type `Io` with the operations of the trait `RegisterIo`; since reading a device may change
it, every operation returns the device after it.

## Main definitions

- `RegisterIo`, `Recorded` — the device, and a device that notes down its operations
- `Controller.command` — one control request
- `Controller.dapExchange` — one CMSIS-DAP payload through the mailbox
- `Accepts` — the requests `command` answers with `Ok`
-/

namespace Firmware

def PROTOCOL_VERSION : UInt16 := 1
def MAX_CONTROL_PAYLOAD : ℕ := 4096
def MAX_DAP_PACKET : ℕ := 1024
def M3_BRAM_SIZE : ℕ := 0x10000

def REG_CONTROL : ℕ := 0x08
def REG_SOURCE_FORMAT : ℕ := 0x0c
def REG_SWO_BAUD : ℕ := 0x10
def REG_DAP_COMMAND : ℕ := 0x80
def REG_DAP_RESPONSE : ℕ := 0x84
def REG_DAP_STATUS : ℕ := 0x88
def REG_M3_CONTROL : ℕ := 0xa0

/-- The device behind the controller. Reading the block RAM fills the whole output, so
the bytes read are returned and not merged into a buffer. -/
class RegisterIo (Io : Type) where
  read : ℕ → Io → UInt32 × Io
  write : ℕ → UInt32 → Io → Io
  writeM3Bram : ℕ → List UInt8 → Io → Io
  readM3Bram : ℕ → (length : ℕ) → Io → Vector UInt8 length × Io
  selectCoresightSource : Bool → Io → Io
  enableCoresightTrace : Bool → Io → Io

/-- One operation on the device. -/
inductive IoOp where
  | read (offset : ℕ)
  | write (offset : ℕ) (value : UInt32)
  | writeM3Bram (offset : ℕ) (data : List UInt8)
  | readM3Bram (offset length : ℕ)
  | selectCoresightSource (a53 : Bool)
  | enableCoresightTrace (a53 : Bool)
  deriving DecidableEq, Repr

/-- A device together with the operations performed on it, oldest first. -/
structure Recorded (Io : Type) where
  io : Io
  ops : List IoOp

instance {Io : Type} [RegisterIo Io] : RegisterIo (Recorded Io) where
  read offset d :=
    ((RegisterIo.read offset d.io).1,
      ⟨(RegisterIo.read offset d.io).2, d.ops ++ [.read offset]⟩)
  write offset value d := ⟨RegisterIo.write offset value d.io, d.ops ++ [.write offset value]⟩
  writeM3Bram offset data d :=
    ⟨RegisterIo.writeM3Bram offset data d.io, d.ops ++ [.writeM3Bram offset data]⟩
  readM3Bram offset length d :=
    ((RegisterIo.readM3Bram offset length d.io).1,
      ⟨(RegisterIo.readM3Bram offset length d.io).2, d.ops ++ [.readM3Bram offset length]⟩)
  selectCoresightSource a53 d :=
    ⟨RegisterIo.selectCoresightSource a53 d.io, d.ops ++ [.selectCoresightSource a53]⟩
  enableCoresightTrace a53 d :=
    ⟨RegisterIo.enableCoresightTrace a53 d.io, d.ops ++ [.enableCoresightTrace a53]⟩

/-- A register file that reads zero everywhere, with the trait's default methods. -/
structure Blank where
  deriving DecidableEq, Repr

instance : RegisterIo Blank where
  read _ d := (0, d)
  write _ _ d := d
  writeM3Bram _ _ d := d
  readM3Bram _ _ d := (Vector.replicate _ 0, d)
  selectCoresightSource _ d := d
  enableCoresightTrace _ d := d

structure Controller (Io : Type) where
  io : Io

/-- `buffer[start..start + data.len()].copy_from_slice(data)` -/
def copyFromSlice (buffer : List UInt8) (start : ℕ) (data : List UInt8) : List UInt8 :=
  buffer.take start ++ data ++ buffer.drop (start + data.length)

/-- `b"ZUBoard-Orbtrace/1"` -/
def info : List UInt8 := "ZUBoard-Orbtrace/1".toList.map fun c => UInt8.ofNat c.toNat

/-- The counter registers in the order of the statistics reply. -/
def statsOffsets : List ℕ := [0x40, 0x44, 0x48, 0x4c, 0x50, 0x54, 0x58, 0x60, 0x64]

namespace Controller

variable {Io : Type} [RegisterIo Io]

def write (self : Controller Io) (offset : ℕ) (value : UInt32) : Controller Io :=
  ⟨RegisterIo.write offset value self.io⟩

/-- Route the chosen PS-side ETM and start it. -/
def routeCoresight (self : Controller Io) (a53 : Bool) : Controller Io :=
  ⟨RegisterIo.enableCoresightTrace a53 (RegisterIo.selectCoresightSource a53 self.io)⟩

/-- The `Configure` request: the CoreSight route of the two PS-side sources first, then the
PL's own selection. -/
def configure (self : Controller Io) (source format : UInt8) (baud : UInt32) : Controller Io :=
  let self := match source.toNat with
    | 1 => self.routeCoresight false
    | 2 => self.routeCoresight true
    | _ => self
  let self := self.write REG_SOURCE_FORMAT (source.toUInt32 ||| format.toUInt32 <<< 8)
  self.write REG_SWO_BAUD baud

/-- Read one counter register into its place in the reply. -/
def readStat (acc : Controller Io × List UInt8) (entry : ℕ × ℕ) : Controller Io × List UInt8 :=
  let (word, io) := RegisterIo.read entry.1 acc.1.io
  (⟨io⟩, copyFromSlice acc.2 (entry.2 * 4) (u32ToLe word))

/-- Handles the payload after the u32 transport length. The result is the length of the
answer, which stands at the start of the response buffer returned. -/
def command (self : Controller Io) (request response : List UInt8) :
    Except Unit ℕ × Controller Io × List UInt8 :=
  if request.length < 3 ∨ response.length = 0 ∨ u16FromLe (slice request 0 2) ≠ PROTOCOL_VERSION then
    (.error (), self, response)
  else
    match (byteAt request 2).toNat with
    | 1 =>
      if response.length < info.length then (.error (), self, response)
      else (.ok info.length, self, copyFromSlice response 0 info)
    | 2 =>
      if request.length = 9 then
        let baud := u32FromLe (slice request 5 9)
        (.ok 1, self.configure (byteAt request 3) (byteAt request 4) baud, response.set 0 0)
      else (.error (), self, response)
    | 3 => (.ok 1, self.write REG_CONTROL 1, response.set 0 0)
    | 4 => (.ok 1, self.write REG_CONTROL 2, response.set 0 0)
    | 5 => (.ok 1, self.write REG_CONTROL 4, response.set 0 0)
    | 6 =>
      if 36 ≤ response.length then
        let (self, response) := statsOffsets.zipIdx.foldl readStat (self, response)
        (.ok 36, self, response)
      else (.error (), self, response)
    | 7 =>
      if 7 ≤ request.length then
        let offset := (u32FromLe (slice request 3 7)).toNat
        let data := request.drop 7
        -- `checked_add` on a 64-bit `usize`
        if 2 ^ 64 ≤ offset + data.length then (.error (), self, response)
        else if offset + data.length > M3_BRAM_SIZE then (.error (), self, response)
        else (.ok 1, ⟨RegisterIo.writeM3Bram offset data self.io⟩, response.set 0 0)
      else (.error (), self, response)
    | 8 =>
      if request.length = 9 then
        let offset := (u32FromLe (slice request 3 7)).toNat
        let length := (u16FromLe (slice request 7 9)).toNat
        if 2 ^ 64 ≤ offset + length then (.error (), self, response)
        else if offset + length > M3_BRAM_SIZE ∨ response.length < length then
          (.error (), self, response)
        else
          let (data, io) := RegisterIo.readM3Bram offset length self.io
          (.ok length, ⟨io⟩, copyFromSlice response 0 data.toList)
      else (.error (), self, response)
    | 9 =>
      if request.length = 4 then
        (.ok 1, self.write REG_M3_CONTROL (byteAt request 3).toUInt32, response.set 0 0)
      else (.error (), self, response)
    | _ => (.error (), self, response)

inductive DapError where
  | EmptyRequest
  | BadFrame
  | PacketTooLarge
  | ResponseTooLarge
  | Timeout
  deriving DecidableEq, Repr

/-- Poll `DAP_STATUS` until a bit of `mask` is set; false when the budget runs out. -/
def waitStatus (mask : UInt32) : ℕ → Io → Bool × Io
  | remaining, io =>
    let (status, io) := RegisterIo.read REG_DAP_STATUS io
    if status &&& mask = 0 then
      match remaining with
      | 0 => (false, io)
      | remaining + 1 => waitStatus mask remaining io
    else (true, io)

/-- The bytes of the request into the mailbox, bit 8 marking the last one. -/
def sendRequest (pollBudget : UInt32) : List UInt8 → Io → Except DapError Unit × Io
  | [], io => (.ok (), io)
  | byte :: rest, io =>
    match waitStatus 1 pollBudget.toNat io with
    | (false, io) => (.error .Timeout, io)
    | (true, io) =>
      let last : UInt32 := if rest.isEmpty then 1 else 0
      sendRequest pollBudget rest
        (RegisterIo.write REG_DAP_COMMAND (byte.toUInt32 ||| last <<< 8) io)

/-- The bytes of the response out of the mailbox, up to the one marked by bit 9. `room` is
what is left of the response buffer after `length` bytes. -/
def receiveResponse (pollBudget : UInt32) :
    (room length : ℕ) → List UInt8 → Io → Except DapError ℕ × Io × List UInt8
  | room, length, response, io =>
    match waitStatus 2 pollBudget.toNat io with
    | (false, io) => (.error .Timeout, io, response)
    | (true, io) =>
      let (word, io) := RegisterIo.read REG_DAP_RESPONSE io
      match room with
      | 0 => (.error .ResponseTooLarge, io, response)
      | room + 1 =>
        let response := response.set length word.toUInt8
        if word &&& 0x200 ≠ 0 then (.ok (length + 1), io, response)
        else receiveResponse pollBudget room (length + 1) response io

/-- Move one unchanged CMSIS-DAP payload through the PL command engine. -/
def dapExchange (self : Controller Io) (request response : List UInt8) (pollBudget : UInt32) :
    Except DapError ℕ × Controller Io × List UInt8 :=
  if request.isEmpty then (.error .EmptyRequest, self, response)
  else
    match sendRequest pollBudget request self.io with
    | (.error e, io) => (.error e, ⟨io⟩, response)
    | (.ok (), io) =>
      let (result, io, response) := receiveResponse pollBudget response.length 0 response io
      (result, ⟨io⟩, response)

end Controller

/-- The length and range guard of each opcode. -/
def argumentsFit (request : List UInt8) (room : ℕ) : Bool :=
  match (byteAt request 2).toNat with
  | 1 => info.length ≤ room
  | 2 => request.length == 9
  | 3 => true
  | 4 => true
  | 5 => true
  | 6 => 36 ≤ room
  | 7 =>
    7 ≤ request.length &&
      (u32FromLe (slice request 3 7)).toNat + (request.drop 7).length ≤ M3_BRAM_SIZE
  | 8 =>
    request.length == 9 &&
      (u32FromLe (slice request 3 7)).toNat + (u16FromLe (slice request 7 9)).toNat ≤
        M3_BRAM_SIZE &&
      (u16FromLe (slice request 7 9)).toNat ≤ room
  | 9 => request.length == 4
  | _ => false

/-- The requests `Controller.command` answers with `Ok` into a buffer of `room` bytes. -/
def Accepts (request : List UInt8) (room : ℕ) : Prop :=
  3 ≤ request.length ∧ 0 < room ∧ u16FromLe (slice request 0 2) = PROTOCOL_VERSION ∧
    argumentsFit request room = true

instance (request : List UInt8) (room : ℕ) : Decidable (Accepts request room) :=
  inferInstanceAs (Decidable (_ ∧ _ ∧ _ ∧ _))

end Firmware
