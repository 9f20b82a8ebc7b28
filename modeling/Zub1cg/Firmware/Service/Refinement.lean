import Zub1cg.Firmware.Service
import Zub1cg.Firmware.Controller.Command

/-!
# The service threads refine framed services

A handler that only writes its buffer makes a framed service: frames are recognised as the
host's `lengthUnframe` does, and the answer to a frame is what the handler writes into a
zeroed buffer. A connection refines that service: the decoder holds the bytes of the
unfinished frame, and neither its stale payload bytes nor the uninitialised response
arrays can be seen from outside.

## Main results

- `feedFrom_spec` — one call of a connection
- `orbtraceControlFeed_refines`, `orbtraceDapFeed_refines` — one call of the C ABI
-/

namespace Firmware

open Framing (Session)

variable {Io : Type} {N : ℕ}

/-- The handler writes its answer over the start of the buffer and never reads it. -/
def Handler.Oblivious (handle : Handler Io) : Prop :=
  ∀ (frame : List UInt8) (controller : Controller Io) (room : ℕ),
    ∃ (result : Except ServiceError Unit) (bytes : List UInt8) (c : Controller Io),
      bytes.length ≤ room ∧ ∀ body : List UInt8, body.length = room →
        handle frame controller body = (result.map fun _ => bytes.length, c, overwrite bytes body)

/-- The framed answer to a frame, written into a zeroed buffer of `room` bytes. -/
def Handler.answer (handle : Handler Io) (room : ℕ) (frame : List UInt8)
    (controller : Controller Io) : Option (List UInt8) × Controller Io :=
  match handle frame controller (List.replicate room 0) with
  | (.ok length, controller, body) =>
    (some (u32ToLe (UInt32.ofNat length) ++ body.take length), controller)
  | (.error _, controller, _) => (none, controller)

theorem Handler.answer_of_ok {handle : Handler Io} {room : ℕ} {frame bytes : List UInt8}
    {c c' : Controller Io} {body : List UInt8}
    (h : handle frame c (List.replicate room 0) = (.ok bytes.length, c', overwrite bytes body)) :
    handle.answer room frame c = (some (FrameDecoder.framed bytes), c') := by
  rw [Handler.answer, h]
  simp only [overwrite, List.take_left, FrameDecoder.framed]

theorem Handler.answer_of_error {handle : Handler Io} {room : ℕ} {frame : List UInt8}
    {c c' : Controller Io} {e : ServiceError} {body : List UInt8}
    (h : handle frame c (List.replicate room 0) = (.error e, c', body)) :
    handle.answer room frame c = (none, c') := by
  rw [Handler.answer, h]

/-- The framed service behind a connection. -/
def service (N : ℕ) (handle : Handler Io) (room : ℕ) :
    Framing.Service UInt8 (List UInt8) (Controller Io) (List UInt8) where
  judge := FrameDecoder.judge N
  answer := handle.answer room

/-- A single byte is never a whole frame. -/
theorem judge_single (handle : Handler Io) (N room : ℕ) (b : UInt8) :
    (service N handle room).judge [b] = .more := by
  have hshort : [b].length < 4 := by simp
  exact FrameDecoder.judge_short (N := N) hshort

/-- In any buffer of the right size the handler gives the service's answer. -/
theorem Handler.Oblivious.handle_eq {handle : Handler Io} (h : handle.Oblivious)
    (frame : List UInt8) (controller : Controller Io) {body : List UInt8} {room : ℕ}
    (hbody : body.length = room) :
    (∃ length, (handle frame controller body).1 = .ok length ∧
      handle.answer room frame controller =
        (some (u32ToLe (UInt32.ofNat length) ++ (handle frame controller body).2.2.take length),
          (handle frame controller body).2.1) ∧
      length ≤ (handle frame controller body).2.2.length) ∨
    (∃ e, (handle frame controller body).1 = .error e ∧
      handle.answer room frame controller = (none, (handle frame controller body).2.1)) := by
  obtain ⟨result, bytes, c, hlen, heq⟩ := h frame controller room
  have hzero := heq (List.replicate room 0) (List.length_replicate ..)
  cases result with
  | ok u =>
    refine .inl ⟨bytes.length, by rw [heq body hbody]; rfl, ?_, ?_⟩
    · rw [heq body hbody, Handler.answer, hzero]
      simp [Except.map, overwrite]
    · rw [heq body hbody]
      simp only [length_overwrite (show bytes.length ≤ body.length by omega)]
      omega
  | error e =>
    refine .inr ⟨e, by rw [heq body hbody]; rfl, ?_⟩
    rw [heq body hbody, Handler.answer, hzero]
    rfl

/-- One call of a connection: it goes through the bytes the framed service goes through,
reports them as the service does, and leaves the decoder holding the service's unfinished
frame. -/
theorem feedFrom_spec {handle : Handler Io} (h : handle.Oblivious) {room : ℕ} (index : ℕ)
    (data : List UInt8) {d : FrameDecoder N} {pending : List UInt8} (hd : d.Holds pending)
    (controller : Controller Io) {response : List UInt8} (hresponse : response.length = room + 4)
    {went : List UInt8} {o : Framing.Outcome (List UInt8) (List UInt8)}
    {y : Session UInt8 (Controller Io)}
    (hev : (service N handle room).firstEvent data ⟨pending, controller⟩ = (went, o, y)) :
    (feedFrom handle index data d controller response).call =
        ⟨went, if o.isRefused then 1 else index + went.length, o.frame?, o.reply?⟩ ∧
      (feedFrom handle index data d controller response).decoder.Holds y.pending ∧
      (feedFrom handle index data d controller response).controller = y.world := by
  induction data generalizing index d pending went o y with
  | nil =>
    cases hev
    exact ⟨by simp [feedFrom, FeedOutcome.call, FeedOutcome.consumed, FeedOutcome.responseLen,
      Framing.Outcome.isRefused, Framing.Outcome.frame?, Framing.Outcome.reply?], hd, rfl⟩
  | cons byte rest ih =>
    have hpush := d.push_spec hd byte
    rcases hres : d.push byte with ⟨result, d'⟩
    rw [hres] at hpush
    rw [Framing.Service.firstEvent] at hev
    cases hj : FrameDecoder.judge N (pending ++ [byte]) with
    | more =>
      rw [hj] at hpush
      obtain ⟨rfl, hholds⟩ := hpush
      rw [Framing.Service.step_more _ hj] at hev
      rcases hrest : (service N handle room).firstEvent rest ⟨pending ++ [byte], controller⟩ with
        ⟨went', o', y'⟩
      simp only [hrest] at hev
      cases hev
      obtain ⟨hcall, hdecoder, hcontroller⟩ := ih (index + 1) hholds hrest
      rw [feedFrom, hres]
      refine ⟨?_, hdecoder, hcontroller⟩
      have hlonger : ∀ outcome : FeedOutcome N Io,
          ({ outcome with pushed := byte :: outcome.pushed } : FeedOutcome N Io).call =
            { outcome.call with pushed := byte :: outcome.call.pushed } := fun _ => rfl
      rw [hlonger, hcall]
      simp only [List.length_cons, Nat.add_assoc, Nat.add_comm 1]
    | invalid =>
      rw [hj] at hpush
      obtain ⟨n, rfl, hholds⟩ := hpush
      rw [Framing.Service.step_invalid _ hj] at hev
      cases hev
      rw [feedFrom, hres]
      exact ⟨by simp [FeedOutcome.call, FeedOutcome.consumed, FeedOutcome.responseLen,
        Framing.Outcome.isRefused, Framing.Outcome.frame?, Framing.Outcome.reply?], hholds, rfl⟩
    | frame f =>
      rw [hj] at hpush
      obtain ⟨rfl, hframe⟩ := hpush
      have hbody : (response.drop 4).length = room := by rw [List.length_drop]; omega
      have hroom : ¬ response.length < 4 := by omega
      rw [feedFrom, hres]
      simp only [if_neg hroom, hframe, Option.getD_some]
      rcases hhandle : handle f controller (response.drop 4) with ⟨length, c, body⟩
      rcases h.handle_eq f controller hbody with ⟨n, hn, hanswer, hlen⟩ | ⟨e, he, hanswer⟩
      · rw [hhandle] at hn hanswer hlen
        rw [Framing.Service.step_answered _ hj hanswer] at hev
        cases hev
        subst hn
        have htake : (u32ToLe (UInt32.ofNat n) ++ body).take (n + 4) =
            u32ToLe (UInt32.ofNat n) ++ body.take n := by
          rw [List.take_append, u32ToLe_length, List.take_of_length_le (by rw [u32ToLe_length]; omega),
            Nat.add_sub_cancel]
        exact ⟨by simp [FeedOutcome.call, FeedOutcome.consumed, FeedOutcome.responseLen,
          Framing.Outcome.isRefused, Framing.Outcome.frame?, Framing.Outcome.reply?, htake],
          d'.reset_holds, rfl⟩
      · rw [hhandle] at he hanswer
        rw [Framing.Service.step_refused _ hj hanswer] at hev
        cases hev
        subst he
        exact ⟨by simp [FeedOutcome.call, FeedOutcome.consumed, FeedOutcome.responseLen,
          Framing.Outcome.isRefused, Framing.Outcome.frame?, Framing.Outcome.reply?],
          d'.reset_holds, rfl⟩

/-! ### The handlers -/

section Handlers

variable [RegisterIo Io]

theorem controlHandler_oblivious : (controlHandler : Handler Io).Oblivious := by
  intro frame controller room
  by_cases haccepts : Accepts frame room
  · obtain ⟨bytes, c, hlen, heq⟩ := Controller.command_of_accepts haccepts controller
    refine ⟨.ok (), bytes, c, hlen, fun body hbody => ?_⟩
    simp [controlHandler, heq body hbody, Except.mapError, Except.map]
  · refine ⟨.error .BadControlRequest, [], controller, Nat.zero_le _, fun body hbody => ?_⟩
    rw [← hbody] at haccepts
    simp [controlHandler, Controller.command_of_rejects haccepts, Except.mapError, Except.map,
      overwrite]

theorem dapHandler_oblivious (pollBudget : UInt32) :
    (dapHandler pollBudget : Handler Io).Oblivious := by
  intro frame controller room
  obtain ⟨result, bytes, c, hlen, heq⟩ := controller.dapExchange_writes frame room pollBudget
  refine ⟨result.mapError .Dap, bytes, c, hlen, fun body hbody => ?_⟩
  rw [dapHandler, heq body hbody]
  cases result <;> simp [Except.mapError, Except.map]

/-- The control service: frames of up to 4096 bytes, answered in 4096 bytes. -/
def controlService : Framing.Service UInt8 (List UInt8) (Controller Io) (List UInt8) :=
  service MAX_CONTROL_PAYLOAD controlHandler (CONTROL_RESPONSE_CAP - 4)

/-- The CMSIS-DAP service: frames of up to 1024 bytes, answered in 1024 bytes. -/
def dapService (pollBudget : UInt32) :
    Framing.Service UInt8 (List UInt8) (Controller Io) (List UInt8) :=
  service MAX_DAP_PACKET (dapHandler pollBudget) (DAP_RESPONSE_CAP - 4)

/-- A control thread stands where a session of the control service does. -/
def ControlRefines (t : ControlThread Io) (x : Session UInt8 (Controller Io)) : Prop :=
  t.connection.decoder.Holds x.pending ∧ t.controller = x.world

/-- A DAP thread stands where a session of the DAP service does. -/
def DapRefines (t : DapThread Io) (x : Session UInt8 (Controller Io)) : Prop :=
  t.connection.decoder.Holds x.pending ∧ t.controller = x.world

theorem orbtraceControlFeed_refines (data : List UInt8) (t : ControlThread Io)
    (x : Session UInt8 (Controller Io)) (h : ControlRefines t x) :
    (orbtraceControlFeed data t).1 = (controlService.feed data x).1 ∧
      ControlRefines (orbtraceControlFeed data t).2 (controlService.feed data x).2 := by
  obtain ⟨hholds, hworld⟩ := h
  rcases hev : controlService.firstEvent data x with ⟨went, o, y⟩
  obtain ⟨hcall, hdecoder, hcontroller⟩ :=
    feedFrom_spec controlHandler_oblivious 0 data hholds x.world (t.stack 0).length_toList hev
  simp only [orbtraceControlFeed, ControlConnection.feed, hworld, Framing.Service.feed, hev]
  rw [Nat.zero_add] at hcall
  exact ⟨hcall, hdecoder, hcontroller⟩

theorem orbtraceDapFeed_refines (pollBudget : UInt32) (data : List UInt8) (t : DapThread Io)
    (x : Session UInt8 (Controller Io)) (h : DapRefines t x) :
    (orbtraceDapFeed pollBudget data t).1 = ((dapService pollBudget).feed data x).1 ∧
      DapRefines (orbtraceDapFeed pollBudget data t).2 ((dapService pollBudget).feed data x).2 := by
  obtain ⟨hholds, hworld⟩ := h
  rcases hev : (dapService pollBudget).firstEvent data x with ⟨went, o, y⟩
  obtain ⟨hcall, hdecoder, hcontroller⟩ :=
    feedFrom_spec (dapHandler_oblivious pollBudget) 0 data hholds x.world
      (t.stack 0).length_toList hev
  simp only [orbtraceDapFeed, DapConnection.feed, hworld, Framing.Service.feed, hev]
  rw [Nat.zero_add] at hcall
  exact ⟨hcall, hdecoder, hcontroller⟩

/-- A whole connection, pumped by the control thread. -/
theorem serveControl_refines (packets : List (List (List UInt8))) {t : ControlThread Io}
    {x : Session UInt8 (Controller Io)} (h : ControlRefines t x) :
    (serveConnection serveControl packets t).1 =
        (Framing.pumpAll controlService.feed packets.flatten x).1 ∧
      ControlRefines (serveConnection serveControl packets t).2
        (Framing.pumpAll controlService.feed packets.flatten x).2 := by
  have hserve := serveConnection_pumpAll orbtraceControlFeed packets t
  have hpump := Framing.pumpAll_simulation orbtraceControlFeed_refines packets.flatten h
  rwa [← hserve] at hpump

/-- A whole connection, pumped by the DAP thread. -/
theorem serveDap_refines (packets : List (List (List UInt8))) {t : DapThread Io}
    {x : Session UInt8 (Controller Io)} (h : DapRefines t x) :
    (serveConnection serveDap packets t).1 =
        (Framing.pumpAll (dapService DAP_POLL_BUDGET).feed packets.flatten x).1 ∧
      DapRefines (serveConnection serveDap packets t).2
        (Framing.pumpAll (dapService DAP_POLL_BUDGET).feed packets.flatten x).2 := by
  have hserve := serveConnection_pumpAll (orbtraceDapFeed DAP_POLL_BUDGET) packets t
  have hpump := Framing.pumpAll_simulation (orbtraceDapFeed_refines DAP_POLL_BUDGET)
    packets.flatten h
  rwa [← hserve] at hpump

end Handlers

end Firmware
