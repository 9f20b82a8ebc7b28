import Zub1cg.Firmware.Connection

/-!
# The service threads (`firmware/a53_app/src/main.c`)

A thread accepts one connection after the other and pumps each received packet through the
C ABI, fragment by fragment. The connection state and the controller are statics behind
the ABI: nothing in the thread touches them when a connection is accepted or closed. The
response array of each call is an uninitialised local of the pump, so what it holds when
the call begins is arbitrary.

## Main definitions

- `Thread` — the statics a thread works on, and the contents its response arrays will have
- `serveControl`, `serveDap` — one packet
- `serveConnection`, `serveConnections` — whole connections
-/

namespace Firmware

def CONTROL_RESPONSE_CAP : ℕ := 4100
def DAP_RESPONSE_CAP : ℕ := 1028
def DAP_POLL_BUDGET : UInt32 := 1000000

/-- A connection state of type `C` and the controller, both statics, with what the next
calls will find in their response arrays of `cap` bytes. -/
structure Thread (C : Type) (cap : ℕ) (Io : Type) where
  connection : C
  controller : Controller Io
  stack : ℕ → Vector UInt8 cap

/-- The thread after a call: the next response array is a new one. -/
def Thread.next {C Io : Type} {cap : ℕ} (t : Thread C cap Io) (connection : C)
    (controller : Controller Io) : Thread C cap Io :=
  ⟨connection, controller, fun n => t.stack (n + 1)⟩

abbrev ControlThread (Io : Type) := Thread ControlConnection CONTROL_RESPONSE_CAP Io

/-- The control thread at boot. -/
def ControlThread.boot {Io : Type} (io : Io) : ControlThread Io where
  connection := ControlConnection.new
  controller := ⟨io⟩
  stack := fun _ => Vector.replicate _ 0

abbrev DapThread (Io : Type) := Thread DapConnection DAP_RESPONSE_CAP Io

/-- One call of the C ABI, as the pump makes and sees it. -/
abbrev FeedCall := Framing.Call UInt8 (List UInt8) (List UInt8)

variable {Io : Type} [RegisterIo Io]

/-- `orbtrace_control_feed` -/
def orbtraceControlFeed (input : List UInt8) (t : ControlThread Io) : FeedCall × ControlThread Io :=
  let outcome := t.connection.feed input t.controller (t.stack 0).toList
  (outcome.call, t.next ⟨outcome.decoder⟩ outcome.controller)

/-- `orbtrace_dap_feed` -/
def orbtraceDapFeed (pollBudget : UInt32) (input : List UInt8) (t : DapThread Io) :
    FeedCall × DapThread Io :=
  let outcome := t.connection.feed input t.controller (t.stack 0).toList pollBudget
  (outcome.call, t.next ⟨outcome.decoder⟩ outcome.controller)

/-- The fragments of one packet on TCP 3401. -/
def serveControl (packet : List (List UInt8)) (t : ControlThread Io) :
    List FeedCall × ControlThread Io :=
  Framing.pumpAll orbtraceControlFeed packet t

/-- The fragments of one packet on TCP 3240. -/
def serveDap (packet : List (List UInt8)) (t : DapThread Io) : List FeedCall × DapThread Io :=
  Framing.pumpAll (orbtraceDapFeed DAP_POLL_BUDGET) packet t

/-- The packets of one connection, up to its close. -/
def serveConnection {τ : Type} (serve : List (List UInt8) → τ → List FeedCall × τ) :
    List (List (List UInt8)) → τ → List FeedCall × τ
  | [], t => ([], t)
  | packet :: rest, t =>
    let here := serve packet t
    let later := serveConnection serve rest here.2
    (here.1 ++ later.1, later.2)

/-- The thread after a sequence of connections. Accepting and closing one touches no static. -/
def serveConnections {τ : Type} (serve : List (List UInt8) → τ → List FeedCall × τ)
    (connections : List (List (List (List UInt8)))) (t : τ) : τ :=
  connections.foldl (fun t packets => (serveConnection serve packets t).2) t

/-- A connection is pumped like one packet with all its fragments. -/
theorem serveConnection_pumpAll {τ : Type} (feed : List UInt8 → τ → FeedCall × τ)
    (packets : List (List (List UInt8))) (t : τ) :
    serveConnection (Framing.pumpAll feed) packets t = Framing.pumpAll feed packets.flatten t := by
  induction packets generalizing t with
  | nil => rfl
  | cons packet rest ih =>
    rw [List.flatten_cons, Framing.pumpAll_append, serveConnection, ih]

end Firmware
