import Zub1cg.System.Mailbox.Exchange

/-!
# DAP exchanges after a failed one

An exchange that gives up leaves the engine where it is: with a response it has not handed
over yet, or stuck behind a request that is too long. The next exchange then sends its bytes
to a busy engine and reads the old response. Only if the mailbox happens to be idle again
is the next exchange on its own.

## Main definitions

- `exchanges` — a run of `Controller::dap_exchange` calls
- `Exchange.OwnResponse` — the engine captured the request and answered with what is returned
- `Settled` — idle, with every request answered

## Main results

- `exchange_settled` — one exchange from a settled mailbox
- `dap_exchange_recovers` — runs in which the mailbox is idle after each failed exchange
-/

namespace System

open Pl (Bus)
open Packets (markLast Unfinished Finished completed pending)
open Firmware (RegisterIo REG_DAP_STATUS REG_DAP_COMMAND)
open Firmware.Controller (DapError waitStatus sendRequest receiveResponse)

/-! ### Requests that do not fit the engine -/

namespace Board

/-- The engine has no room for the byte in the mailbox. -/
structure Stuck (b : Board) : Prop where
  state : b.pl.dap.state = .CAPTURE
  full : DapEngine.MAX_PACKET ≤ b.pl.dap.requestPos
  command : b.pl.regs.dapCommandValid = true
  response : b.pl.regs.dapResponseHoldValid = false

/-- Nothing that happens on the bus gets the engine out of it. -/
theorem Stuck.tick {u : Bus} {b : Board} (h : b.Stuck) : (b.tick u).Stuck := by
  have hready : DapEngine.commandReady b.pl.dap = false := by
    have := h.full
    simp only [DapEngine.commandReady, h.state, beq_self_eq_true, Bool.true_and,
      decide_eq_false_iff_not]
    omega
  have hfire : DapEngine.commandFire (Pl.dapInput (b.env b.cycle) b.pl) b.pl.dap = false := by
    rw [DapEngine.commandFire, hready, Bool.and_false]
  have hengine := DapEngine.step_capture (i := Pl.dapInput (b.env b.cycle) b.pl) rfl h.state
  rw [hfire, if_neg Bool.false_ne_true, Prod.mk.injEq] at hengine
  have hhold := AxiRegs.step_dapCommand (i := b.ports u) rfl b.pl.regs
  rw [h.command, if_neg (by simp), Prod.mk.injEq, Prod.mk.injEq] at hhold
  refine ⟨hengine.1, ?_, ?_, ?_⟩
  · rw [show (b.tick u).pl.dap.requestPos = b.pl.dap.requestPos from hengine.2]
    exact h.full
  · rw [show (b.tick u).pl.regs.dapCommandValid = _ from hhold.2.2]
    change (true && !DapEngine.commandReady b.pl.dap) = true
    rw [hready]
    rfl
  · rw [tick_responseValid, h.response, responseValid_capture h.state]
    rfl

/-- Every poll of the status register finds neither room nor a response. -/
theorem Stuck.read_status {b : Board} (h : b.Stuck) (hrest : b.AtRest) :
    (RegisterIo.read REG_DAP_STATUS b).1 &&& 1 = 0 ∧
      (RegisterIo.read REG_DAP_STATUS b).1 &&& 2 = 0 ∧
      (RegisterIo.read REG_DAP_STATUS b).2.Stuck ∧
      (RegisterIo.read REG_DAP_STATUS b).2.AtRest := by
  obtain ⟨haccess, hend⟩ := read_cycles hrest Regs.DAP_STATUS
  let Seen : Board → Prop := fun b' => b'.Stuck ∧
    (b.read Regs.DAP_STATUS).1 = statusWord false false
  have hstable : ∀ u b', b'.Silent u → Seen b' → Seen (b'.tick u) :=
    fun u b' _ hb' => ⟨hb'.1.tick, hb'.2⟩
  obtain ⟨hstuck, hword⟩ := haccess.rule (P := Stuck) (Q := Seen) (fun u b' _ hb' => hb'.tick)
    (fun u b' hu hb' => ⟨hb'.tick, by
      rw [← hu.2.2.1]
      change statusWord b'.pl.regs.dapResponseHoldValid (!b'.pl.regs.dapCommandValid) = _
      rw [hb'.command, hb'.response]
      rfl⟩)
    hstable hstable h
  have hvalue : (RegisterIo.read REG_DAP_STATUS b).1 = UInt32.ofBitVec (statusWord false false) :=
    congrArg UInt32.ofBitVec hword
  refine ⟨?_, ?_, hstuck, hend⟩
  · rw [hvalue, statusWord_room]
  · rw [hvalue, statusWord_held]

/-- Polls of a stuck mailbox run out of budget. -/
theorem Stuck.waitStatus {mask : UInt32} (hmask : mask = 1 ∨ mask = 2) (budget : ℕ) {b : Board}
    (h : b.Stuck) (hrest : b.AtRest) :
    (waitStatus mask budget b).1 = false ∧ (waitStatus mask budget b).2.Stuck ∧
      (waitStatus mask budget b).2.AtRest := by
  have hnone : ∀ {b : Board}, b.Stuck → b.AtRest →
      (RegisterIo.read REG_DAP_STATUS b).1 &&& mask = 0 := by
    intro b h hrest
    obtain ⟨hroom, hheld, -, -⟩ := h.read_status hrest
    obtain rfl | rfl := hmask
    · exact hroom
    · exact hheld
  induction budget generalizing b with
  | zero =>
    obtain ⟨-, -, hstuck, hend⟩ := h.read_status hrest
    rw [Firmware.Controller.waitStatus]
    dsimp only
    rw [if_pos (hnone h hrest)]
    exact ⟨rfl, hstuck, hend⟩
  | succ budget ih =>
    obtain ⟨-, -, hstuck, hend⟩ := h.read_status hrest
    rw [Firmware.Controller.waitStatus]
    dsimp only
    rw [if_pos (hnone h hrest)]
    exact ih hstuck hend

/-- A byte written while the engine is full gets stuck. -/
theorem Waiting.write_stuck {k : ℕ} {c r : List (UInt8 × Bool)} {b : Board}
    (h : b.Waiting k c r) (hrest : b.AtRest) (hk : DapEngine.MAX_PACKET ≤ k) (value : UInt32) :
    (RegisterIo.write REG_DAP_COMMAND value b).Stuck ∧
      (RegisterIo.write REG_DAP_COMMAND value b).AtRest := by
  obtain ⟨haccess, hend⟩ := write_cycles hrest Regs.DAP_COMMAND value.toBitVec
  refine ⟨?_, hend⟩
  refine haccess.rule (P := fun b' => b'.Waiting k c r) (Q := Stuck) (R := Stuck)
    (fun u b' hu hb' => hb'.tick hu.undisturbed) ?_ (fun u b' _ hb' => hb'.tick)
    (fun u b' _ hb' => hb'.tick) h
  intro u b' hu hb'
  have hloaded := hb'.write hu
  exact ⟨hloaded.state, hloaded.pos ▸ hk, hloaded.command, hloaded.response⟩

/-- Sending to a stuck mailbox times out, unless nothing is left to send. -/
theorem Stuck.sendRequest (budget : UInt32) {request : List UInt8} {b : Board} (h : b.Stuck)
    (hrest : b.AtRest) :
    ((sendRequest budget request b).1 = .ok () ∨
        (sendRequest budget request b).1 = .error .Timeout) ∧
      (sendRequest budget request b).2.Stuck ∧ (sendRequest budget request b).2.AtRest := by
  cases request with
  | nil => exact ⟨.inl rfl, h, hrest⟩
  | cons byte rest =>
    obtain ⟨hfail, hstuck, hend⟩ := h.waitStatus (.inl rfl) budget.toNat hrest
    rw [Firmware.Controller.sendRequest]
    generalize Firmware.Controller.waitStatus 1 budget.toNat b = polled at hfail hstuck hend
    obtain ⟨_ | _, b'⟩ := polled
    · exact ⟨.inr rfl, hstuck, hend⟩
    · cases hfail

/-- A request that is too long gets stuck at the byte behind the engine's limit. -/
theorem sendRequest_oversize (budget : UInt32) (request : List UInt8) {k : ℕ}
    {c r : List (UInt8 × Bool)} {b : Board} (hk : k ≤ DapEngine.MAX_PACKET)
    (hlen : DapEngine.MAX_PACKET < k + request.length) (h : b.Waiting k c r) (hrest : b.AtRest) :
    ((sendRequest budget request b).1 = .ok () ∨
        (sendRequest budget request b).1 = .error .Timeout) ∧
      (sendRequest budget request b).2.Stuck ∧ (sendRequest budget request b).2.AtRest := by
  induction request generalizing k c b with
  | nil =>
    rw [List.length_nil] at hlen
    omega
  | cons byte rest ih =>
    obtain ⟨b', hwait, hwaiting, hrest'⟩ := h.waitStatus hrest budget.toNat
    have hloop : Firmware.Controller.sendRequest budget (byte :: rest) b =
        Firmware.Controller.sendRequest budget rest
          (RegisterIo.write REG_DAP_COMMAND (commandWord byte rest.isEmpty) b') := by
      rw [Firmware.Controller.sendRequest, hwait]
      rfl
    rw [hloop]
    by_cases hfull : DapEngine.MAX_PACKET ≤ k
    · obtain ⟨hstuck, hend⟩ := hwaiting.write_stuck hrest' hfull (commandWord byte rest.isEmpty)
      exact hstuck.sendRequest budget hend
    · -- there is room for this byte, and it is not the last one
      obtain ⟨hnext, hend⟩ := hwaiting.write_command hrest' (by omega) byte rest.isEmpty
      rw [List.length_cons] at hlen
      have hmore : rest.isEmpty = false := by
        rw [List.isEmpty_eq_false_iff]
        rintro rfl
        rw [List.length_nil] at hlen
        omega
      rw [hmore] at hnext hend ⊢
      exact ih (by omega) (by omega) hnext hend

end Board

/-! ### Runs of exchanges -/

/-- The arguments of one call of `dap_exchange`. -/
structure DapCall where
  request : List UInt8
  response : List UInt8
  pollBudget : UInt32

/-- One call, with the board before and after it. -/
structure Exchange where
  call : DapCall
  before : Board
  result : Except DapError ℕ
  response : List UInt8
  after : Board

def exchange (call : DapCall) (b : Board) : Exchange :=
  let out := (Firmware.Controller.mk b).dapExchange call.request call.response call.pollBudget
  { call := call, before := b, result := out.1, response := out.2.2, after := out.2.1.io }

/-- A run of calls. Time that passes between two of them is part of the first access of the
second one. -/
def exchanges : List DapCall → Board → List Exchange
  | [], _ => []
  | call :: calls, b => exchange call b :: exchanges calls (exchange call b).after

/-- The call returned one of the errors that stop an exchange half-way. -/
def Exchange.Failed (x : Exchange) : Prop :=
  x.result = .error .Timeout ∨ x.result = .error .ResponseTooLarge

/-- If the call returned `Ok(n)`: during the call the engine completed exactly one request
packet, the bytes of this request, and exactly one response packet, the bytes `response[..n]`,
and these two have the same number among all the packets of the run. -/
def Exchange.OwnResponse (x : Exchange) : Prop :=
  ∀ n, x.result = .ok n →
    completed x.after.commands = completed x.before.commands ++ [x.call.request] ∧
      completed x.after.responses = completed x.before.responses ++ [x.response.take n] ∧
      (completed x.before.commands).length = (completed x.before.responses).length

/-- The mailbox is idle and every request packet has been answered. -/
structure Settled (b : Board) : Prop where
  idle : Idle b
  commands : pending b.commands = []
  responses : pending b.responses = []
  answered : (completed b.commands).length = (completed b.responses).length

/-- In the middle of an answer the mailbox is not idle. -/
theorem Board.Answering.not_idle {c r taken : List (UInt8 × Bool)} {b : Board}
    (h : b.Answering c r taken) : ¬ Idle b := by
  intro hidle
  have hheld : b.held = [] := by rw [Board.held, hidle.response]; rfl
  have hrest := h.rest
  rw [if_pos hidle.state, hheld, List.append_nil] at hrest
  exact hrest.not_unfinished h.unmarked

/-- One request and one response packet more. -/
theorem Board.Waiting.settled {b b' : Board} (h : Settled b) {request : List UInt8}
    (hne : request ≠ []) {packet : List (UInt8 × Bool)} (hpacket : Finished packet)
    (hend : b'.Waiting 0 (b.commands ++ markLast request) (b.responses ++ packet))
    (hrest : b'.AtRest) :
    completed b'.commands = completed b.commands ++ [request] ∧
      completed b'.responses = completed b.responses ++ [packet.map Prod.fst] ∧ Settled b' := by
  obtain ⟨hcommands, hnone⟩ := (Packets.finished_markLast hne).cut_append h.commands
  obtain ⟨hresponses, hnone'⟩ := hpacket.cut_append h.responses
  rw [Packets.markLast_map_fst] at hcommands
  rw [← hend.commands] at hcommands hnone
  rw [← hend.responses] at hresponses hnone'
  refine ⟨hcommands, hresponses, ?_, hnone, hnone', ?_⟩
  · exact ⟨hend.state, hend.pos, hend.command, hend.response, hrest⟩
  · rw [hcommands, hresponses, List.length_append, List.length_append, h.answered]
    rfl

/-- A request beyond the engine's limit fails and leaves the mailbox stuck. -/
theorem exchange_oversize {b : Board} (h : Idle b) (call : DapCall)
    (hlen : DapEngine.MAX_PACKET < call.request.length) :
    (∀ n, (exchange call b).result ≠ .ok n) ∧ (exchange call b).Failed ∧
      ¬ Idle (exchange call b).after := by
  have hwaiting : b.Waiting 0 b.commands b.responses :=
    ⟨h.state, h.pos, h.command, h.response, rfl, rfl⟩
  have hempty : call.request.isEmpty = false := by
    rw [List.isEmpty_eq_false_iff]
    rintro hnil
    rw [hnil, List.length_nil] at hlen
    omega
  have hnot : ∀ b' : Board, b'.Stuck → ¬ Idle b' := by
    intro b' hstuck hidle
    exact Bool.false_ne_true (hidle.command.symm.trans hstuck.command)
  obtain ⟨hsent, hstuck, hrest⟩ := Board.sendRequest_oversize call.pollBudget call.request
    (Nat.zero_le _) (by rw [Nat.zero_add]; exact hlen) hwaiting h.bus
  rw [exchange, Exchange.Failed]
  rw [Firmware.Controller.dapExchange, hempty]
  simp only [Bool.false_eq_true, if_false]
  generalize sendRequest call.pollBudget call.request b = sent at hsent hstuck hrest
  obtain ⟨result, b'⟩ := sent
  obtain rfl | rfl := hsent
  · -- every byte was written, the last one to no avail
    obtain ⟨hfail, hstuck', -⟩ := hstuck.waitStatus (.inr rfl) call.pollBudget.toNat hrest
    dsimp only
    rw [Firmware.Controller.receiveResponse_timeout hfail]
    exact ⟨fun n hn => (by cases hn), .inl rfl, hnot _ hstuck'⟩
  · exact ⟨fun n hn => (by cases hn), .inl rfl, hnot b' hstuck⟩

/-- **One exchange from a settled mailbox.** An `Ok` returns the response to its own request.
The mailbox is settled again, unless the call failed and left it busy. -/
theorem exchange_settled {b : Board} (h : Settled b) (call : DapCall) :
    (exchange call b).OwnResponse ∧
      (((exchange call b).Failed → Idle (exchange call b).after) →
        Settled (exchange call b).after) := by
  by_cases hempty : call.request = []
  · have hcall : exchange call b =
        { call := call, before := b, result := .error .EmptyRequest, response := call.response,
          after := b } := by
      simp [exchange, Firmware.Controller.dapExchange, hempty]
    rw [hcall]
    exact ⟨fun n hn => (by cases hn), fun _ => h⟩
  by_cases hlen : call.request.length ≤ Firmware.MAX_DAP_PACKET
  · obtain ⟨hrest, hphase⟩ := dapExchange_mailbox b h.idle call.request call.response
      (List.length_pos_of_ne_nil hempty) hlen call.pollBudget
    have herror := fun e => Firmware.Controller.dapExchange_error (Firmware.Controller.mk b) hempty
      call.response call.pollBudget (e := e)
    obtain ⟨result, bytes, c, -, hwrites⟩ := Firmware.Controller.dapExchange_writes
      (Firmware.Controller.mk b) call.request call.response.length call.pollBudget
    have hbytes := hwrites call.response rfl
    rw [exchange, Exchange.OwnResponse, Exchange.Failed]
    generalize (Firmware.Controller.mk b).dapExchange call.request call.response
      call.pollBudget = out at hrest hphase herror hbytes
    obtain ⟨e | n, after, buffer⟩ := out
    · refine ⟨fun n hn => (by cases hn), fun hidle => ?_⟩
      obtain ⟨taken, hanswering⟩ | ⟨packet, hpacket, hwaiting⟩ := hphase
      · refine absurd (hidle ?_) hanswering.not_idle
        obtain rfl | rfl := herror e rfl
        · exact .inl rfl
        · exact .inr rfl
      · exact (hwaiting.settled h hempty hpacket hrest).2.2
    · obtain ⟨hn0, hn1, hwaiting⟩ := hphase
      have hne : buffer.take n ≠ [] := by
        cases result with
        | error e => cases hbytes
        | ok _ =>
          simp only [Except.map, Prod.mk.injEq, Except.ok.injEq] at hbytes
          obtain ⟨rfl, -, rfl⟩ := hbytes
          rw [Firmware.overwrite, List.take_left]
          exact List.ne_nil_of_length_pos hn0
      obtain ⟨hcommands, hresponses, hsettled⟩ :=
        hwaiting.settled h hempty (Packets.finished_markLast hne) hrest
      rw [Packets.markLast_map_fst] at hresponses
      refine ⟨?_, fun _ => hsettled⟩
      rintro _ ⟨⟩
      exact ⟨hcommands, hresponses, h.answered⟩
  · obtain ⟨hnever, hfailed, hbusy⟩ := exchange_oversize h.idle call (Nat.lt_of_not_le hlen)
    exact ⟨fun n hn => absurd hn (hnever n), fun hidle => absurd (hidle hfailed) hbusy⟩

/-- Between calls that find the mailbox idle after a failure, every call starts settled. -/
theorem exchanges_own {b : Board} (h : Settled b) (calls : List DapCall)
    (hidle : (exchanges calls b).IsChain fun x y => x.Failed → Idle y.before) :
    ∀ x ∈ exchanges calls b, x.OwnResponse := by
  induction calls generalizing b with
  | nil => simp [exchanges]
  | cons call calls ih =>
    obtain ⟨hown, hsettled⟩ := exchange_settled h call
    rw [exchanges, List.forall_mem_cons]
    refine ⟨hown, ?_⟩
    cases calls with
    | nil => simp [exchanges]
    | cons next calls =>
      rw [exchanges, exchanges, List.isChain_cons_cons] at hidle
      exact ih (hsettled hidle.1) hidle.2

/-- The board out of reset in arbitrary surroundings, with arbitrary timing of the accesses. -/
def resetBoard (env : ℕ → Pl.Env) (timing : ℕ → AccessTiming) : Board :=
  { bootBoard with env := env, timing := timing }

theorem settled_reset (env : ℕ → Pl.Env) (timing : ℕ → AccessTiming) :
    Settled (resetBoard env timing) where
  idle := ⟨rfl, rfl, rfl, rfl, rfl, rfl, rfl, rfl⟩
  commands := rfl
  responses := rfl
  answered := rfl

/-- **When exchanges recover.** In every run of calls out of reset in which the mailbox is idle
whenever a call follows a failed one, every call behind a failed one that returns `Ok` returns
the response to its own request. -/
theorem dap_exchange_recovers (env : ℕ → Pl.Env) (timing : ℕ → AccessTiming)
    (calls : List DapCall)
    (hidle : (exchanges calls (resetBoard env timing)).IsChain fun x y =>
      x.Failed → Idle y.before) :
    (exchanges calls (resetBoard env timing)).Pairwise fun x y => x.Failed → y.OwnResponse := by
  have hown := exchanges_own (settled_reset env timing) calls hidle
  exact List.pairwise_of_forall_mem_list fun x _ y hy _ => hown y hy

/-- A `DAP_Info` request whose response is not waited for, and a `DAP_TransferAbort`. -/
def impatientCalls : List DapCall :=
  [⟨[0x00, 0x01], List.replicate 16 0xff, 0⟩, ⟨[0x07], List.replicate 16 0xff, 100⟩]

/-- The first call times out, the second one returns `Ok` with the answer to the first one. -/
theorem stale_response_returned :
    (exchanges impatientCalls bootBoard).map Exchange.result = [.error .Timeout, .ok 9] ∧
      (exchanges impatientCalls bootBoard).map (fun x => x.response.take 9) =
        [List.replicate 9 0xff, [0x00, 0x07, 0x4f, 0x72, 0x62, 0x63, 0x6f, 0x64, 0x65]] ∧
      ¬ (exchanges impatientCalls bootBoard).Pairwise fun x y => x.Failed → y.OwnResponse := by
  have hresults : (exchanges impatientCalls bootBoard).map Exchange.result =
      [.error .Timeout, .ok 9] := by decide +kernel
  refine ⟨hresults, by decide +kernel, fun hpairs => ?_⟩
  obtain ⟨x, y, hxy⟩ : ∃ x y, exchanges impatientCalls bootBoard = [x, y] := ⟨_, _, rfl⟩
  have hcounts : (exchanges impatientCalls bootBoard).map (fun x =>
      ((completed x.before.commands).length, (completed x.before.responses).length)) =
        [(0, 0), (1, 0)] := by decide +kernel
  rw [hxy] at hresults hpairs hcounts
  simp only [List.map_cons, List.map_nil, List.cons.injEq, and_true, Prod.mk.injEq] at hresults hcounts
  have hown := List.rel_of_pairwise_cons hpairs List.mem_cons_self (.inl hresults.1)
  obtain ⟨-, -, hcount⟩ := hown 9 hresults.2
  omega

/-- A response that is one byte too large for the first call is gone when the second one
starts. -/
theorem dap_exchange_recovers_short_buffer :
    let calls : List DapCall := [⟨[0x07], [0], 100⟩, ⟨[0x00, 0x01], List.replicate 16 0xff, 100⟩]
    (exchanges calls bootBoard).map Exchange.result = [.error .ResponseTooLarge, .ok 9] ∧
      (exchanges calls bootBoard).Pairwise fun x y => x.Failed → y.OwnResponse := by
  intro calls
  refine ⟨by decide +kernel, ?_⟩
  refine dap_exchange_recovers bootBoard.env bootBoard.timing calls ?_
  refine List.isChain_cons_cons.mpr ⟨fun _ => ?_, List.isChain_singleton _⟩
  change Idle (exchange ⟨[0x07], [0], 100⟩ bootBoard).after
  exact ⟨by decide +kernel, by decide +kernel, by decide +kernel, by decide +kernel,
    by decide +kernel, by decide +kernel, by decide +kernel, by decide +kernel⟩

end System
