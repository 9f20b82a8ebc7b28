import Zub1cg.Firmware.Controller
import Zub1cg.Firmware.FrameDecoder

/-!
# Connections and their C ABI (`firmware/a53/src/lib.rs`, `firmware/a53/src/ffi.rs`)

A connection pushes received bytes into its decoder; the byte that completes a frame has
the frame answered and ends the call. The TCP 3401 and TCP 3240 connections differ in the
size of their frames and in the handler of a frame only, so `feedFrom` has the handler as
a parameter.

## Main definitions

- `ControlConnection.feed`, `DapConnection.feed` — one call on received bytes
- `FeedOutcome.consumed`, `FeedOutcome.responseLen` — what the C ABI makes of its result
-/

namespace Firmware

inductive ServiceError where
  | Frame (e : FrameError)
  | OutputTooSmall
  | BadControlRequest
  | Dap (e : Controller.DapError)
  deriving DecidableEq, Repr

structure ServiceReply where
  consumed : ℕ
  responseLength : Option ℕ
  deriving DecidableEq, Repr

/-- What one call leaves behind: its result, the decoder, the controller and the response
buffer. The last two fields observe the call: the bytes pushed into the decoder, and the
frame handed to the controller. -/
structure FeedOutcome (N : ℕ) (Io : Type) where
  result : Except ServiceError ServiceReply
  decoder : FrameDecoder N
  controller : Controller Io
  response : List UInt8
  pushed : List UInt8
  frame : Option (List UInt8)

/-- What a connection does with a complete frame: the length of the answer, the controller
after it, and the response buffer behind the length prefix. -/
abbrev Handler (Io : Type) :=
  List UInt8 → Controller Io → List UInt8 → Except ServiceError ℕ × Controller Io × List UInt8

variable {Io : Type} {N : ℕ}

/-- The loop over the received bytes, from byte `index` on. -/
def feedFrom (handle : Handler Io) (index : ℕ) :
    List UInt8 → FrameDecoder N → Controller Io → List UInt8 → FeedOutcome N Io
  | [], decoder, controller, response =>
    -- `index` has reached `input.len()`
    { result := .ok ⟨index, none⟩, decoder, controller, response, pushed := [], frame := none }
  | byte :: rest, decoder, controller, response =>
    match decoder.push byte with
    | (.error e, decoder) =>
      { result := .error (.Frame e), decoder, controller, response, pushed := [byte], frame := none }
    | (.ok false, decoder) =>
      let outcome := feedFrom handle (index + 1) rest decoder controller response
      { outcome with pushed := byte :: outcome.pushed }
    | (.ok true, decoder) =>
      if response.length < 4 then
        { result := .error .OutputTooSmall, decoder := decoder.reset, controller, response,
          pushed := [byte], frame := none }
      else
        let frame := decoder.frame.getD []
        let (length, controller, body) := handle frame controller (response.drop 4)
        let decoder := decoder.reset
        match length with
        | .error e =>
          { result := .error e, decoder, controller, response := response.take 4 ++ body,
            pushed := [byte], frame := some frame }
        | .ok length =>
          { result := .ok ⟨index + 1, some (length + 4)⟩, decoder, controller,
            response := u32ToLe (UInt32.ofNat length) ++ body,
            pushed := [byte], frame := some frame }

variable [RegisterIo Io]

/-- A control frame goes to `Controller.command`. -/
def controlHandler : Handler Io := fun frame controller body =>
  let (length, controller, body) := controller.command frame body
  (length.mapError fun _ => .BadControlRequest, controller, body)

/-- A CMSIS-DAP frame goes to `Controller.dapExchange`. -/
def dapHandler (pollBudget : UInt32) : Handler Io := fun frame controller body =>
  let (length, controller, body) := controller.dapExchange frame body pollBudget
  (length.mapError .Dap, controller, body)

/-- Per-connection state for TCP 3401. -/
structure ControlConnection where
  decoder : FrameDecoder MAX_CONTROL_PAYLOAD

def ControlConnection.new : ControlConnection := ⟨FrameDecoder.new⟩

/-- One call emits at most one response, so that the caller can transmit it before it
continues with pipelined input. -/
def ControlConnection.feed (self : ControlConnection) (input : List UInt8)
    (controller : Controller Io) (response : List UInt8) : FeedOutcome MAX_CONTROL_PAYLOAD Io :=
  feedFrom controlHandler 0 input self.decoder controller response

/-- Per-connection state for the unchanged CMSIS-DAP payloads on TCP 3240. -/
structure DapConnection where
  decoder : FrameDecoder MAX_DAP_PACKET

def DapConnection.new : DapConnection := ⟨FrameDecoder.new⟩

def DapConnection.feed (self : DapConnection) (input : List UInt8) (controller : Controller Io)
    (response : List UInt8) (pollBudget : UInt32) : FeedOutcome MAX_DAP_PACKET Io :=
  feedFrom (dapHandler pollBudget) 0 input self.decoder controller response

/-! ### The C ABI -/

/-- The count `orbtrace_control_feed` and `orbtrace_dap_feed` return. For an error it is 1,
the byte that triggered it. -/
def FeedOutcome.consumed (outcome : FeedOutcome N Io) : ℕ :=
  match outcome.result with
  | .ok reply => reply.consumed
  | .error _ => 1

/-- The value they store in `*response_len_out`. -/
def FeedOutcome.responseLen (outcome : FeedOutcome N Io) : ℕ :=
  match outcome.result with
  | .ok reply => reply.responseLength.getD 0
  | .error _ => 0

/-- What the pump sees and sends: `response[..response_len]` when a response was made. -/
def FeedOutcome.call (outcome : FeedOutcome N Io) :
    Framing.Call UInt8 (List UInt8) (List UInt8) where
  pushed := outcome.pushed
  consumed := outcome.consumed
  frame := outcome.frame
  reply := if outcome.responseLen > 0 then some (outcome.response.take outcome.responseLen) else none

end Firmware
