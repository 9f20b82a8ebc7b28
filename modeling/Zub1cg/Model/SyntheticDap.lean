import Zub1cg.Model.Wire

/-!
# The reference packet engine (`model/src/lib.rs`)

`SyntheticDap` answers CMSIS-DAP requests the way the packet engine of the PL does without a
target. The three injected errors are used up by the next DAP_Transfer.

## Main definitions

- `SyntheticDap.transferLoop` — the transfers of one request
- `SyntheticDap.execute` — one request
-/

namespace Model

structure SyntheticDap where
  aborts : UInt32
  transfers : UInt64
  waitOnce : Bool
  faultOnce : Bool
  parityErrorOnce : Bool

namespace SyntheticDap

def default : SyntheticDap where
  aborts := 0
  transfers := 0
  waitOnce := false
  faultOnce := false
  parityErrorOnce := false

/-- `b"Orbcode"` -/
def ORBCODE : List UInt8 := [0x4f, 0x72, 0x62, 0x63, 0x6f, 0x64, 0x65]

/-- `b"ZUBoard Orbtrace"` -/
def ZUBOARD_ORBTRACE : List UInt8 :=
  [0x5a, 0x55, 0x42, 0x6f, 0x61, 0x72, 0x64, 0x20, 0x4f, 0x72, 0x62, 0x74, 0x72, 0x61, 0x63, 0x65]

/-- The variables of the loop over the transfers. -/
structure TransferLoop where
  out : List UInt8
  requestPos : ℕ
  completed : UInt8
  transfers : UInt64

/-- A request that ends in the middle of a transfer. -/
def TransferLoop.cutShort (l : TransferLoop) : List UInt8 := (l.out.set 1 l.completed).set 2 0x04

/-- The loop with `count` transfers to go: the response and the transfer counter. -/
def transferLoop (request : List UInt8) : ℕ → TransferLoop → List UInt8 × UInt64
  | 0, l => (l.out.set 1 l.completed, l.transfers)
  | count + 1, l =>
    match request[l.requestPos]? with
    | none => (l.cutShort, l.transfers)
    | some transfer =>
      let l := { l with requestPos := l.requestPos + 1, transfers := l.transfers + 1 }
      if transfer &&& 0x02 ≠ 0 then
        transferLoop request count
          { l with
            out := l.out ++ u32ToLe (0xa5a50000 ||| transfer.toUInt32)
            completed := l.completed + 1 }
      else if l.requestPos + 4 ≤ request.length then
        transferLoop request count
          { l with requestPos := l.requestPos + 4, completed := l.completed + 1 }
      else (l.cutShort, l.transfers)

/-- DAP_Transfer -/
def transfer (self : SyntheticDap) (request : List UInt8) :
    Except ProtocolError (List UInt8) × SyntheticDap :=
  if request.length < 3 then (.error .Short, self)
  else if self.waitOnce then (.ok [0x05, 0, 0x02], { self with waitOnce := false })
  else if self.faultOnce then (.ok [0x05, 0, 0x04], { self with faultOnce := false })
  else
    let status := if self.parityErrorOnce then 0x09 else 0x01
    let (out, transfers) := transferLoop request (byteAt request 2).toNat
      { out := [0x05, 0, status], requestPos := 3, completed := 0, transfers := self.transfers }
    (.ok out, { self with parityErrorOnce := false, transfers := transfers })

/-- `request.get(index).copied().unwrap_or(0)` -/
def get (request : List UInt8) (index : ℕ) : UInt8 := (request[index]?).getD 0

/-- DAP_Info -/
def information (request : List UInt8) : List UInt8 :=
  let value :=
    match (get request 1).toNat with
    | 0x01 => ORBCODE
    | 0x02 => ZUBOARD_ORBTRACE
    | _ => []
  [0x00, UInt8.ofNat value.length] ++ value

def execute (self : SyntheticDap) (request : List UInt8) :
    Except ProtocolError (List UInt8) × SyntheticDap :=
  if request.isEmpty || request.length > MAX_DAP_PACKET then (.error .Short, self)
  else
    let command := byteAt request 0
    match command.toNat with
    | 0x00 => (.ok (information request), self)
    | 0x02 => (.ok [0x02, get request 1 &&& 0x03], self)
    | 0x05 => self.transfer request
    | 0x07 => (.ok [command, 0], { self with aborts := self.aborts + 1 })
    | 0x08 => (.ok [command, 0], { self with aborts := self.aborts + 1 })
    | 0x10 => (.ok [0x10, get request 1], self)
    | 0x14 => (.ok [0x14, 0, get request 3 ^^^ 1], self)
    | _ => (.ok [command, 0xff], self)

end SyntheticDap

end Model
