import Zub1cg.System.Board.Access
import Zub1cg.Library.Packets

/-!
# The DAP mailbox from cycle to cycle

While a request is sent the mailbox is `Waiting` for a byte or `Loaded` with one; once the
byte marked last is in, the exchange is `Answering` until the firmware takes the response
byte marked last. A cycle in which neither mailbox register is accessed may hand a byte
over on either side but never leads back to an earlier phase.

## Main results

- `Waiting.tick`, `Loaded.tick`, `Answering.tick` — a cycle without a mailbox access
- `Waiting.write`, `Answering.read` — the cycle of a mailbox access
-/

namespace System

open Pl (Bus)
open Packets (markLast Unfinished Finished)

/-! ### The words of the mailbox registers -/

theorem word_bit (word : BitVec 32) {i : ℕ} (hi : i < 32) :
    UInt32.ofBitVec word &&& UInt32.ofBitVec (BitVec.twoPow 32 i) = 0 ↔ word.getLsbD i = false := by
  rw [← UInt32.toBitVec_inj]
  change word &&& BitVec.twoPow 32 i = 0#32 ↔ _
  rw [BitVec.and_twoPow]
  cases word.getLsbD i
  · simp
  · simp only [if_true, Bool.true_eq_false, iff_false]
    intro hzero
    have := congrArg BitVec.toNat hzero
    rw [BitVec.toNat_twoPow_of_lt hi] at this
    simp at this

/-- The word a read of `DAP_STATUS` returns. -/
def statusWord (held empty : Bool) : BitVec 32 := 0#30 ++ BitVec.ofBool held ++ BitVec.ofBool empty

/-- The word a read of `DAP_RESPONSE` returns. -/
def responseWord (last held : Bool) (byte : UInt8) : BitVec 32 :=
  0#22 ++ BitVec.ofBool last ++ BitVec.ofBool held ++ byte.toBitVec

theorem statusWord_room (held empty : Bool) :
    UInt32.ofBitVec (statusWord held empty) &&& 1 = 0 ↔ empty = false := by
  cases held <;> cases empty <;> decide

theorem statusWord_held (held empty : Bool) :
    UInt32.ofBitVec (statusWord held empty) &&& 2 = 0 ↔ held = false := by
  cases held <;> cases empty <;> decide

theorem responseWord_last (last held : Bool) (byte : UInt8) :
    UInt32.ofBitVec (responseWord last held byte) &&& 0x200 = 0 ↔ last = false := by
  have hbit : (responseWord last held byte).getLsbD 9 = last := by
    refine (BitVec.getLsbD_append ..).trans ?_
    cases last <;> cases held <;> simp
  exact (word_bit _ (i := 9) (by decide)).trans (by rw [hbit])

theorem responseWord_byte (last held : Bool) (byte : UInt8) :
    (UInt32.ofBitVec (responseWord last held byte)).toUInt8 = byte := by
  apply UInt8.toBitVec_inj.mp
  rw [UInt32.toBitVec_toUInt8]
  ext i hi
  rw [BitVec.getElem_setWidth]
  refine (BitVec.getLsbD_append ..).trans ?_
  simp [hi]

/-- The word `sendRequest` writes for one byte. -/
def commandWord (byte : UInt8) (last : Bool) : UInt32 :=
  byte.toUInt32 ||| (if last then 1 else 0 : UInt32) <<< 8

theorem commandWord_byte (byte : UInt8) (last : Bool) :
    UInt8.ofBitVec ((commandWord byte last).toBitVec.extractLsb' 0 8) = byte := by
  have hlow : ∀ flags : UInt32,
      UInt8.ofBitVec ((byte.toUInt32 ||| flags <<< 8).toBitVec.extractLsb' 0 8) = byte := by
    intro flags
    apply UInt8.toBitVec_inj.mp
    ext i hi
    simp [hi]
    omega
  exact hlow _

theorem commandWord_last (byte : UInt8) (last : Bool) :
    (commandWord byte last).toBitVec.getLsbD 8 = last := by
  cases last <;> simp [commandWord]

namespace Board

/-! ### One clock cycle of the mailbox -/

/-- Neither mailbox register is written or emptied at this edge. -/
def Undisturbed (u : Bus) (b : Board) : Prop :=
  AxiRegs.commandWrite (b.ports u) b.pl.regs = false ∧
    AxiRegs.responseRead (b.ports u) b.pl.regs = false

theorem Silent.undisturbed {u : Bus} {b : Board} (h : b.Silent u) : b.Undisturbed u :=
  ⟨by rw [AxiRegs.commandWrite, h.1, Bool.false_and],
    by rw [AxiRegs.responseRead, h.2, Bool.false_and]⟩

/-- Sampling any other register leaves the mailbox alone. -/
theorem Reads.undisturbed {address : BitVec 16} {word : BitVec 32} {u : Bus} {b : Board}
    (h : b.Reads address word u) (hne : address ≠ Regs.DAP_RESPONSE) : b.Undisturbed u := by
  obtain ⟨-, haddr, -, hwrite⟩ := h
  refine ⟨by rw [AxiRegs.commandWrite, hwrite, Bool.false_and], ?_⟩
  have : (b.ports u).sAxiAraddr ≠ Regs.DAP_RESPONSE := by
    rw [show (b.ports u).sAxiAraddr = u.araddr from rfl, haddr]
    exact hne
  simp [AxiRegs.responseRead, this]

/-- The response byte held for the firmware. -/
def held (b : Board) : List (UInt8 × Bool) :=
  if b.pl.regs.dapResponseHoldValid then
    [(b.pl.regs.dapResponseHold, b.pl.regs.dapResponseHoldLast)]
  else []

/-- The engine has taken `k` bytes of the request and the mailbox is empty. -/
structure Waiting (k : ℕ) (commands responses : List (UInt8 × Bool)) (b : Board) : Prop where
  state : b.pl.dap.state = .CAPTURE
  pos : b.pl.dap.requestPos = k
  command : b.pl.regs.dapCommandValid = false
  response : b.pl.regs.dapResponseHoldValid = false
  commands : b.commands = commands
  responses : b.responses = responses

/-- The engine has taken `k` bytes of the request and the next one lies in the mailbox. -/
structure Loaded (k : ℕ) (byte : UInt8) (last : Bool)
    (commands responses : List (UInt8 × Bool)) (b : Board) : Prop where
  state : b.pl.dap.state = .CAPTURE
  pos : b.pl.dap.requestPos = k
  command : b.pl.regs.dapCommandValid = true
  byte : b.pl.regs.dapCommandData = byte
  last : b.pl.regs.dapCommandLast = last
  response : b.pl.regs.dapResponseHoldValid = false
  commands : b.commands = commands
  responses : b.responses = responses

/-- The engine has the whole request; the firmware has taken the response bytes `taken`. -/
structure Answering (commands responses taken : List (UInt8 × Bool)) (b : Board) : Prop where
  pos : b.pl.dap.requestPos = 0
  command : b.pl.regs.dapCommandValid = false
  commands : b.commands = commands
  responses : b.responses = responses ++ (taken ++ b.held)
  unmarked : Unfinished taken
  rest : if b.pl.dap.state = .CAPTURE then Finished (taken ++ b.held)
    else Unfinished (taken ++ b.held)

/-- The engine takes no byte while none is offered. -/
theorem commandByte_nil {e : Pl.Env} {s : Pl.State} (h : s.regs.dapCommandValid = false) :
    DapEngine.commandFire (Pl.dapInput e s) s.dap = false ∧ Pl.commandByte e s = [] := by
  have hfire : DapEngine.commandFire (Pl.dapInput e s) s.dap = false := by
    simp [DapEngine.commandFire, Pl.dapInput, h]
  exact ⟨hfire, by rw [Pl.commandByte, hfire]; rfl⟩

/-- A capturing engine offers no byte. -/
theorem responseValid_capture {s : DapEngine.State} (h : s.state = .CAPTURE) :
    DapEngine.responseValid s = false := by
  simp [DapEngine.responseValid, h]

theorem responseByte_nil {e : Pl.Env} {s : Pl.State} (h : s.dap.state = .CAPTURE) :
    Pl.responseByte e s = [] := by
  rw [Pl.responseByte, DapEngine.responseFire, responseValid_capture h]
  rfl

/-- The command hold in a cycle without a write to it. -/
theorem tick_command {u : Bus} {b : Board} (h : AxiRegs.commandWrite (b.ports u) b.pl.regs = false) :
    (b.tick u).pl.regs.dapCommandData = b.pl.regs.dapCommandData ∧
      (b.tick u).pl.regs.dapCommandLast = b.pl.regs.dapCommandLast ∧
      (b.tick u).pl.regs.dapCommandValid =
        (b.pl.regs.dapCommandValid && !DapEngine.commandReady b.pl.dap) := by
  have hstep := AxiRegs.step_dapCommand (i := b.ports u) rfl b.pl.regs
  rw [h] at hstep
  simp only [Bool.false_eq_true, false_and, if_false, Prod.mk.injEq] at hstep
  exact hstep

theorem tick_responseValid (u : Bus) (b : Board) :
    (b.tick u).pl.regs.dapResponseHoldValid =
      ((b.pl.regs.dapResponseHoldValid || DapEngine.responseValid b.pl.dap) &&
        !AxiRegs.responseRead (b.ports u) b.pl.regs) :=
  AxiRegs.step_dapResponseHoldValid (i := b.ports u) rfl b.pl.regs

/-- The engine in a cycle of `CAPTURE` in which it takes no byte. -/
theorem tick_capture {b : Board} (u : Bus) (hs : b.pl.dap.state = .CAPTURE)
    (hc : b.pl.regs.dapCommandValid = false) :
    (b.tick u).pl.dap.state = .CAPTURE ∧ (b.tick u).pl.dap.requestPos = b.pl.dap.requestPos := by
  have hstep := DapEngine.step_capture (i := Pl.dapInput (b.env b.cycle) b.pl) rfl hs
  rw [(commandByte_nil hc).1] at hstep
  simp only [Bool.false_eq_true, if_false, Prod.mk.injEq] at hstep
  exact hstep

/-- Without a write to `DAP_COMMAND` nothing changes while the mailbox waits. -/
theorem Waiting.tick {k : ℕ} {c r : List (UInt8 × Bool)} {u : Bus} {b : Board}
    (hu : b.Undisturbed u) (h : b.Waiting k c r) : (b.tick u).Waiting k c r where
  state := (tick_capture u h.state h.command).1
  pos := (tick_capture u h.state h.command).2.trans h.pos
  command := by rw [(tick_command hu.1).2.2, h.command, Bool.false_and]
  response := by
    rw [tick_responseValid, h.response, responseValid_capture h.state]
    rfl
  commands := by
    change b.commands ++ Pl.commandByte (b.env b.cycle) b.pl = c
    rw [(commandByte_nil h.command).2, List.append_nil, h.commands]
  responses := by
    change b.responses ++ Pl.responseByte (b.env b.cycle) b.pl = r
    rw [responseByte_nil h.state, List.append_nil, h.responses]

/-- A write to `DAP_COMMAND` fills the empty mailbox. -/
theorem Waiting.write {k : ℕ} {c r : List (UInt8 × Bool)} {u : Bus} {b : Board}
    {data : BitVec 32} (hu : b.Writes Regs.DAP_COMMAND data u) (h : b.Waiting k c r) :
    (b.tick u).Loaded k (UInt8.ofBitVec (data.extractLsb' 0 8)) (data.getLsbD 8) c r := by
  obtain ⟨hfire, haddr, hdata, hread⟩ := hu
  have hwrite : AxiRegs.commandWrite (b.ports u) b.pl.regs = true := by
    rw [AxiRegs.commandWrite, hfire, haddr]
    rfl
  have hstep := AxiRegs.step_dapCommand (i := b.ports u) rfl b.pl.regs
  rw [hwrite, h.command, hdata] at hstep
  simp only [true_and, if_true, Prod.mk.injEq] at hstep
  exact {
    state := (tick_capture u h.state h.command).1
    pos := (tick_capture u h.state h.command).2.trans h.pos
    command := hstep.2.2
    byte := hstep.1
    last := hstep.2.1
    response := by
      rw [tick_responseValid, h.response, responseValid_capture h.state]
      rfl
    commands := by
      change b.commands ++ Pl.commandByte (b.env b.cycle) b.pl = c
      rw [(commandByte_nil h.command).2, List.append_nil, h.commands]
    responses := by
      change b.responses ++ Pl.responseByte (b.env b.cycle) b.pl = r
      rw [responseByte_nil h.state, List.append_nil, h.responses] }

/-- A loaded byte is taken by the engine in the next cycle. -/
theorem Loaded.tick {k : ℕ} {byte : UInt8} {last : Bool} {c r : List (UInt8 × Bool)} {u : Bus}
    {b : Board} (hk : k < DapEngine.MAX_PACKET) (hu : b.Undisturbed u)
    (h : b.Loaded k byte last c r) :
    if last then (b.tick u).Answering (c ++ [(byte, true)]) r []
    else (b.tick u).Waiting (k + 1) (c ++ [(byte, false)]) r := by
  have hready : DapEngine.commandReady b.pl.dap = true := by
    simp [DapEngine.commandReady, h.state, h.pos, hk]
  have hfire : DapEngine.commandFire (Pl.dapInput (b.env b.cycle) b.pl) b.pl.dap = true := by
    simp [DapEngine.commandFire, Pl.dapInput, h.command, hready]
  have hstep := DapEngine.step_capture (i := Pl.dapInput (b.env b.cycle) b.pl) rfl h.state
  have hempty : (b.tick u).pl.regs.dapCommandValid = false := by
    rw [(tick_command hu.1).2.2, h.command, hready]
    rfl
  have hnone : (b.tick u).pl.regs.dapResponseHoldValid = false := by
    rw [tick_responseValid, h.response, responseValid_capture h.state]
    rfl
  have hcommands : (b.tick u).commands = c ++ [(byte, last)] := by
    change b.commands ++ Pl.commandByte (b.env b.cycle) b.pl = _
    rw [Pl.commandByte, hfire, h.commands, h.byte, h.last]
    rfl
  have hresponses : (b.tick u).responses = r := by
    change b.responses ++ Pl.responseByte (b.env b.cycle) b.pl = r
    rw [responseByte_nil h.state, List.append_nil, h.responses]
  rw [hfire, show (Pl.dapInput (b.env b.cycle) b.pl).commandLast = last from h.last, h.pos] at hstep
  cases last with
  | true =>
    simp only [if_true, Prod.mk.injEq] at hstep ⊢
    have hheld : (b.tick u).held = [] := by rw [held, hnone]; rfl
    refine ⟨hstep.2, hempty, hcommands, ?_, Packets.unfinished_nil, ?_⟩
    · rw [hresponses, hheld]
      simp
    · rw [show (b.tick u).pl.dap.state = .PREPARE from hstep.1, hheld]
      exact Packets.unfinished_nil
  | false =>
    simp only [if_true, Bool.false_eq_true, if_false, Prod.mk.injEq] at hstep ⊢
    exact ⟨hstep.1, hstep.2, hempty, hnone, hcommands, hresponses⟩

/-- The held byte, in a cycle in which the firmware does not take it. -/
theorem tick_held {u : Bus} {b : Board} (h : AxiRegs.responseRead (b.ports u) b.pl.regs = false) :
    (b.tick u).held = b.held ++ Pl.responseByte (b.env b.cycle) b.pl := by
  have hhold := AxiRegs.step_dapResponseHold (i := b.ports u) rfl b.pl.regs
  have hvalid := tick_responseValid u b
  rw [h] at hvalid
  change ((b.tick u).pl.regs.dapResponseHold, (b.tick u).pl.regs.dapResponseHoldLast) =
    if DapEngine.responseValid b.pl.dap && AxiRegs.dapResponseReady b.pl.regs then
      (DapEngine.responseData b.pl.dap, DapEngine.responseLast b.pl.dap)
    else (b.pl.regs.dapResponseHold, b.pl.regs.dapResponseHoldLast) at hhold
  unfold held Pl.responseByte DapEngine.responseFire
  rw [hvalid, hhold]
  change _ = _ ++ if (DapEngine.responseValid b.pl.dap && AxiRegs.dapResponseReady b.pl.regs) = true
    then _ else _
  -- a full hold accepts nothing, an empty one holds what is handed over
  cases hfull : b.pl.regs.dapResponseHoldValid <;>
    cases DapEngine.responseValid b.pl.dap <;> simp [AxiRegs.dapResponseReady, hfull]

/-- The engine in a cycle after the request. -/
theorem tick_busy {b : Board} (u : Bus) (hs : b.pl.dap.state ≠ .CAPTURE) :
    ((b.tick u).pl.dap.state = .CAPTURE ↔
        (DapEngine.responseFire (Pl.dapInput (b.env b.cycle) b.pl) b.pl.dap &&
          DapEngine.responseLast b.pl.dap) = true) ∧
      (b.tick u).pl.dap.requestPos = b.pl.dap.requestPos :=
  DapEngine.step_busy (i := Pl.dapInput (b.env b.cycle) b.pl) rfl hs

/-- While the firmware does not look, the response advances by the byte handed over. -/
theorem Answering.tick {c r taken : List (UInt8 × Bool)} {u : Bus} {b : Board}
    (hu : b.Undisturbed u) (h : b.Answering c r taken) : (b.tick u).Answering c r taken := by
  have hheld := tick_held hu.2
  have hcommand : (b.tick u).pl.regs.dapCommandValid = false := by
    rw [(tick_command hu.1).2.2, h.command, Bool.false_and]
  have hcommands : (b.tick u).commands = c := by
    change b.commands ++ Pl.commandByte (b.env b.cycle) b.pl = c
    rw [(commandByte_nil h.command).2, List.append_nil, h.commands]
  have hresponses : (b.tick u).responses = r ++ (taken ++ (b.tick u).held) := by
    change b.responses ++ Pl.responseByte (b.env b.cycle) b.pl = _
    rw [hheld, h.responses]
    simp only [List.append_assoc]
  have hrest := h.rest
  by_cases hs : b.pl.dap.state = .CAPTURE
  · obtain ⟨hstate, hpos⟩ := tick_capture u hs h.command
    refine ⟨hpos.trans h.pos, hcommand, hcommands, hresponses, h.unmarked, ?_⟩
    rw [if_pos hs] at hrest
    rw [if_pos hstate, hheld, responseByte_nil hs, List.append_nil]
    exact hrest
  · obtain ⟨hstate, hpos⟩ := tick_busy u hs
    refine ⟨hpos.trans h.pos, hcommand, hcommands, hresponses, h.unmarked, ?_⟩
    rw [if_neg hs] at hrest
    rw [hheld, ← List.append_assoc, Pl.responseByte]
    simp only [hstate]
    -- only the byte marked last sends the engine back to `CAPTURE`
    cases DapEngine.responseFire (Pl.dapInput (b.env b.cycle) b.pl) b.pl.dap with
    | false => simpa using hrest
    | true =>
      have := hrest.concat (DapEngine.responseData b.pl.dap) (DapEngine.responseLast b.pl.dap)
      simpa only [Bool.true_and, if_true] using this

/-- Taking a response byte: the one marked last ends the exchange. -/
theorem Answering.read {c r taken : List (UInt8 × Bool)} {u : Bus} {b : Board} {word : BitVec 32}
    (hu : b.Reads Regs.DAP_RESPONSE word u) (h : b.Answering c r taken)
    (hfull : b.pl.regs.dapResponseHoldValid = true) :
    ∃ byte last, word = responseWord last true byte ∧
      if last then (b.tick u).Waiting 0 c (r ++ (taken ++ [(byte, true)]))
      else (b.tick u).Answering c r (taken ++ [(byte, false)]) := by
  obtain ⟨hfire, haddr, hword, hwrite⟩ := hu
  have hread : AxiRegs.responseRead (b.ports u) b.pl.regs = true := by
    rw [AxiRegs.responseRead, hfire, show (b.ports u).sAxiAraddr = u.araddr from rfl, haddr]
    rfl
  have hnowrite : AxiRegs.commandWrite (b.ports u) b.pl.regs = false := by
    rw [AxiRegs.commandWrite, hwrite, Bool.false_and]
  have hempty : (b.tick u).pl.regs.dapResponseHoldValid = false := by
    rw [tick_responseValid, hread]
    simp
  have hnone : (b.tick u).held = [] := by rw [held, hempty]; rfl
  -- the full hold keeps the engine from handing over another byte in this cycle
  have hstall : DapEngine.responseFire (Pl.dapInput (b.env b.cycle) b.pl) b.pl.dap = false := by
    simp [DapEngine.responseFire, Pl.dapInput, AxiRegs.dapResponseReady, hfull]
  have hcommand : (b.tick u).pl.regs.dapCommandValid = false := by
    rw [(tick_command hnowrite).2.2, h.command, Bool.false_and]
  have hcommands : (b.tick u).commands = c := by
    change b.commands ++ Pl.commandByte (b.env b.cycle) b.pl = c
    rw [(commandByte_nil h.command).2, List.append_nil, h.commands]
  have hbyte : b.held = [(b.pl.regs.dapResponseHold, b.pl.regs.dapResponseHoldLast)] := by
    rw [held, hfull]
    rfl
  have hresponses : (b.tick u).responses =
      r ++ (taken ++ [(b.pl.regs.dapResponseHold, b.pl.regs.dapResponseHoldLast)]) := by
    change b.responses ++ Pl.responseByte (b.env b.cycle) b.pl = _
    rw [Pl.responseByte, hstall, ← hbyte, h.responses]
    simp
  have hrest := h.rest
  rw [hbyte] at hrest
  refine ⟨b.pl.regs.dapResponseHold, b.pl.regs.dapResponseHoldLast, ?_, ?_⟩
  · rw [← hword, ← hfull]
    rfl
  · cases hlast : b.pl.regs.dapResponseHoldLast with
    | true =>
      rw [hlast] at hresponses hrest
      have hs : b.pl.dap.state = .CAPTURE := by
        by_contra hs
        rw [if_neg hs] at hrest
        simp at hrest
      obtain ⟨hstate, hpos⟩ := tick_capture u hs h.command
      exact ⟨hstate, hpos.trans h.pos, hcommand, hempty, hcommands, hresponses⟩
    | false =>
      rw [hlast] at hresponses hrest
      have hopen : Unfinished (taken ++ [(b.pl.regs.dapResponseHold, false)]) := by
        simpa using h.unmarked
      have hs : b.pl.dap.state ≠ .CAPTURE := by
        intro hs
        rw [if_pos hs] at hrest
        exact hrest.not_unfinished hopen
      obtain ⟨hstate, hpos⟩ := tick_busy u hs
      rw [hstall, Bool.false_and] at hstate
      refine ⟨hpos.trans h.pos, hcommand, hcommands, ?_, hopen, ?_⟩
      · rw [hresponses, hnone, List.append_nil]
      · rw [if_neg (by rw [hstate]; simp), hnone, List.append_nil]
        exact hopen

end Board

end System
