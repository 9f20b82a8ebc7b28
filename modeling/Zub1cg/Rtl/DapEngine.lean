import Zub1cg.Library.Clocked
import Mathlib.Logic.Function.Basic
import Mathlib.Data.BitVec

/-!
# The CMSIS-DAP packet engine (`orbtrace_dap_engine.sv`)

The engine captures one request packet, works out its response and hands the response
over byte by byte. Integers of the source are natural numbers; both packet memories are
functions of the address. Every branch of the clocked block reads the old state `s` and
writes the new state `n`.

## Main definitions

- `DapEngine.State`, `DapEngine.Input` — the registers and the ports sampled at one edge
- `DapEngine.step` — one edge of `clk`
- `DapEngine.commandReady`, `DapEngine.responseValid`, `DapEngine.responseLast` — wires
-/

namespace DapEngine

def MAX_PACKET : ℕ := 1024
def MAX_TRANSFERS : ℕ := 32
def JTAG_HALF_PERIOD : ℕ := 8

/-- `state_t` -/
inductive Phase where
  | CAPTURE
  | PREPARE
  | FETCH_TRANSFER
  | BUILD_TRANSFER
  | RESPOND
  | JTAG_SETUP
  | JTAG_HOLD
  deriving DecidableEq, Repr

/-- The input ports sampled at one edge of `clk`. -/
structure Input where
  resetN : Bool
  commandData : UInt8
  commandValid : Bool
  commandLast : Bool
  responseReady : Bool
  forceWait : Bool
  forceFault : Bool
  forceParityError : Bool
  useRealTarget : Bool
  jtagTdo : Bool

/-- The registers and the two packet memories. -/
structure State where
  state : Phase
  jtagWait : ℕ
  jtagTdoSample : Bool
  requestMem : ℕ → UInt8
  responseMem : ℕ → UInt8
  requestPos : ℕ
  requestLength : ℕ
  responsePos : ℕ
  responseLength : ℕ
  transferIndex : ℕ
  transferRequestPos : ℕ
  outputIndex : ℕ
  completedTransfers : ℕ
  requestReadAddress : ℕ
  requestReadData : UInt8
  headerCommand : UInt8
  headerArgument : UInt8
  headerCount : UInt8
  headerData : UInt8
  debugComplete : Bool
  transferCount : BitVec 64
  abortCount : BitVec 32
  jtagTck : Bool
  jtagTms : Bool
  jtagTdi : Bool
  jtagNtrst : Bool
  jtagNreset : Bool

/-! ### Wires -/

def commandReady (s : State) : Bool := s.state == .CAPTURE && s.requestPos < MAX_PACKET

def responseValid (s : State) : Bool := s.state == .RESPOND

def responseData (s : State) : UInt8 := s.responseMem s.responsePos

def responseLast (s : State) : Bool :=
  s.state == .RESPOND && s.responsePos + 1 == s.responseLength

/-! ### The clocked block -/

/-- Nonblocking writes to a memory, in the order of the source. -/
def store (mem : ℕ → UInt8) (writes : List (ℕ × UInt8)) : ℕ → UInt8 :=
  writes.foldl (fun m w => Function.update m w.1 w.2) mem

/-- The registers the reset branch assigns. -/
def resetUpdate (n : State) : State :=
  { n with
    state := .CAPTURE
    requestPos := 0
    requestLength := 0
    responsePos := 0
    responseLength := 0
    requestReadAddress := 0
    headerCommand := 0
    headerArgument := 0
    headerCount := 0
    headerData := 0
    debugComplete := false
    transferCount := 0
    abortCount := 0
    jtagTck := false
    jtagTms := true
    jtagTdi := false
    jtagNtrst := true
    jtagNreset := true
    jtagWait := 0
    jtagTdoSample := false }

/-- The engine after reset; what the reset branch leaves alone is taken to be zero. -/
def resetState : State :=
  resetUpdate
    { state := .CAPTURE
      jtagWait := 0
      jtagTdoSample := false
      requestMem := fun _ => 0
      responseMem := fun _ => 0
      requestPos := 0
      requestLength := 0
      responsePos := 0
      responseLength := 0
      transferIndex := 0
      transferRequestPos := 0
      outputIndex := 0
      completedTransfers := 0
      requestReadAddress := 0
      requestReadData := 0
      headerCommand := 0
      headerArgument := 0
      headerCount := 0
      headerData := 0
      debugComplete := false
      transferCount := 0
      abortCount := 0
      jtagTck := false
      jtagTms := false
      jtagTdi := false
      jtagNtrst := false
      jtagNreset := false }

def captureUpdate (i : Input) (s n : State) : State :=
  if i.commandValid && commandReady s then
    let n := { n with requestMem := store s.requestMem [(s.requestPos, i.commandData)] }
    let n := if s.requestPos = 0 then { n with headerCommand := i.commandData } else n
    let n := if s.requestPos = 1 then { n with headerArgument := i.commandData } else n
    let n := if s.requestPos = 2 then { n with headerCount := i.commandData } else n
    let n := if s.requestPos = 3 then { n with headerData := i.commandData } else n
    if i.commandLast then
      { n with requestLength := s.requestPos + 1, requestPos := 0, state := .PREPARE }
    else { n with requestPos := s.requestPos + 1 }
  else n

/-- A DAP_Transfer packet that is answered without looking at its transfers. -/
def transferRejected (i : Input) (s : State) : Bool :=
  s.requestLength < 3 || s.headerCount.toNat > MAX_TRANSFERS || i.forceWait || i.forceFault

/-- The response to the commands that need no further state, or the set-up of the others. -/
def prepareResponse (i : Input) (s n : State) : State :=
  match s.headerCommand.toNat with
  | 0x00 =>
    if s.requestLength > 1 && s.headerArgument == 0x01 then
      { n with
        responseMem := store s.responseMem [(0, s.headerCommand), (1, 7), (2, 0x4f), (3, 0x72),
          (4, 0x62), (5, 0x63), (6, 0x6f), (7, 0x64), (8, 0x65)]
        responseLength := 9 }
    else
      { n with
        responseMem := store s.responseMem [(0, s.headerCommand), (1, 0)], responseLength := 2 }
  | 0x02 =>
    { n with
      responseMem := store s.responseMem [(0, s.headerCommand),
        (1, if s.requestLength > 1 then s.headerArgument &&& 0x03 else 0)]
      responseLength := 2 }
  | 0x05 =>
    if s.requestLength < 3 || s.headerCount.toNat > MAX_TRANSFERS then
      { n with
        responseMem := store s.responseMem [(0, s.headerCommand), (1, 0), (2, 0x04)]
        responseLength := 3 }
    else if i.forceWait then
      { n with
        responseMem := store s.responseMem [(0, s.headerCommand), (1, 0), (2, 0x02)]
        responseLength := 3 }
    else if i.forceFault then
      { n with
        responseMem := store s.responseMem [(0, s.headerCommand), (1, 0), (2, 0x04)]
        responseLength := 3 }
    else
      { n with
        responseMem := store s.responseMem [(0, s.headerCommand), (1, 0), (1, 0),
          (2, if i.forceParityError then 0x09 else 0x01)]
        outputIndex := 3
        transferIndex := 0
        transferRequestPos := 3
        requestReadAddress := 3
        completedTransfers := 0
        state := .FETCH_TRANSFER }
  | 0x07 =>
    { n with
      abortCount := s.abortCount + 1
      responseMem := store s.responseMem [(0, s.headerCommand), (1, 0)]
      responseLength := 2 }
  | 0x08 =>
    { n with
      abortCount := s.abortCount + 1
      responseMem := store s.responseMem [(0, s.headerCommand), (1, 0)]
      responseLength := 2 }
  | 0x10 =>
    let n := if i.useRealTarget && s.requestLength > 1 then
      { n with
        jtagNtrst := s.headerArgument.toBitVec.getLsbD 5
        jtagNreset := s.headerArgument.toBitVec.getLsbD 7 }
    else n
    { n with
      responseMem := store s.responseMem [(0, s.headerCommand),
        (1, if s.requestLength > 1 then s.headerArgument else 0)]
      responseLength := 2 }
  | 0x14 =>
    if i.useRealTarget then
      { n with
        responseMem := store s.responseMem [(0, s.headerCommand), (1, 0)]
        jtagTms := s.headerCount.toBitVec.getLsbD 7
        jtagTdi := s.headerData.toBitVec.getLsbD 0
        jtagTck := false
        jtagWait := 0 }
    else
      { n with
        responseMem := store s.responseMem [(0, s.headerCommand), (1, 0),
          (2, if s.requestLength > 3 then s.headerData ^^^ 0x01 else 0)]
        responseLength := 3 }
  | _ =>
    { n with
      responseMem := store s.responseMem [(0, s.headerCommand), (1, 0xff)], responseLength := 2 }

def prepareUpdate (i : Input) (s n : State) : State :=
  let n := prepareResponse i s { n with responsePos := 0 }
  if s.headerCommand == 0x14 && i.useRealTarget then { n with state := .JTAG_SETUP }
  else if s.headerCommand != 0x05 || transferRejected i s then { n with state := .RESPOND }
  else n

def jtagSetupUpdate (s n : State) : State :=
  if s.jtagWait ≥ JTAG_HALF_PERIOD then
    { n with jtagTck := true, jtagWait := 0, state := .JTAG_HOLD }
  else { n with jtagWait := s.jtagWait + 1 }

def jtagHoldUpdate (i : Input) (s n : State) : State :=
  let n := { n with jtagWait := s.jtagWait + 1 }
  let n := if s.jtagWait = JTAG_HALF_PERIOD - 1 then { n with jtagTdoSample := i.jtagTdo } else n
  if s.jtagWait ≥ JTAG_HALF_PERIOD then
    { n with
      jtagTck := false
      responseMem := store s.responseMem [(2, if s.jtagTdoSample then 1 else 0)]
      responseLength := 3
      state := .RESPOND }
  else n

def buildTransferUpdate (s n : State) : State :=
  if s.transferIndex ≥ s.headerCount.toNat then
    { n with
      responseMem := store s.responseMem [(1, UInt8.ofNat s.completedTransfers)]
      responseLength := s.outputIndex
      state := .RESPOND }
  else if s.transferRequestPos ≥ s.requestLength then
    { n with
      responseMem := store s.responseMem [(1, UInt8.ofNat s.completedTransfers), (2, 0x04)]
      responseLength := s.outputIndex
      state := .RESPOND }
  else
    let n := { n with
      transferCount := s.transferCount + 1
      completedTransfers := s.completedTransfers + 1
      transferIndex := s.transferIndex + 1 }
    if s.requestReadData.toBitVec.getLsbD 1 then
      let n := { n with
        responseMem := store s.responseMem [(s.outputIndex, s.requestReadData),
          (s.outputIndex + 1, 0x00), (s.outputIndex + 2, 0xa5), (s.outputIndex + 3, 0xa5)]
        outputIndex := s.outputIndex + 4
        transferRequestPos := s.transferRequestPos + 1
        requestReadAddress := s.transferRequestPos + 1 }
      if s.transferIndex + 1 < s.headerCount.toNat then { n with state := .FETCH_TRANSFER } else n
    else if s.transferRequestPos + 4 < s.requestLength then
      let n := { n with
        transferRequestPos := s.transferRequestPos + 5
        requestReadAddress := s.transferRequestPos + 5 }
      if s.transferIndex + 1 < s.headerCount.toNat then { n with state := .FETCH_TRANSFER } else n
    else
      { n with
        responseMem := store s.responseMem [(1, UInt8.ofNat s.completedTransfers), (2, 0x04)]
        responseLength := s.outputIndex
        state := .RESPOND }

def respondUpdate (i : Input) (s n : State) : State :=
  if responseValid s && i.responseReady then
    if responseLast s then { n with state := .CAPTURE, responsePos := 0, debugComplete := true }
    else { n with responsePos := s.responsePos + 1 }
  else n

/-- One edge of `clk`. The read port of the request memory has no reset. -/
def step (i : Input) (s : State) : State :=
  let n := { s with requestReadData := s.requestMem s.requestReadAddress }
  if !i.resetN then resetUpdate n
  else
    let n := { n with debugComplete := false }
    match s.state with
    | .CAPTURE => captureUpdate i s n
    | .PREPARE => prepareUpdate i s n
    | .JTAG_SETUP => jtagSetupUpdate s n
    | .JTAG_HOLD => jtagHoldUpdate i s n
    | .FETCH_TRANSFER => { n with state := .BUILD_TRANSFER }
    | .BUILD_TRANSFER => buildTransferUpdate s n
    | .RESPOND => respondUpdate i s n

/-! ### The two handshakes -/

/-- A command byte is taken at this edge. -/
def commandFire (i : Input) (s : State) : Bool := i.commandValid && commandReady s

/-- A response byte is handed over at this edge. -/
def responseFire (i : Input) (s : State) : Bool := responseValid s && i.responseReady

end DapEngine
