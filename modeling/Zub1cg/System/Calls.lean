import Zub1cg.System.DapServer

/-!
# Both services on one board

The control service and the DAP service call the same controller, each call under the lock, so that
a run of the two threads is a list of calls in any order. A control request writes the registers of
the trace and of the M3, never those of the mailbox; a DAP exchange writes those of the mailbox
only. So the two do not disturb each other, but for the choice of the target, which the last
`M3Control` has made.

## Main definitions

- `Call`, `served` — a call of one of the services, and a run of calls
- `Call.set` — what a call makes of the configuration

## Main results

- `write_served`, `read_served` — one access from an idle mailbox
- `command_served` — one control request
- `calls_served` — a run of calls
-/

namespace System

open AxiRegs (Configuration configuration)
open Firmware (Accepts Controller argumentsFit statsOffsets REG_SOURCE_FORMAT REG_SWO_BAUD
  REG_CONTROL REG_M3_CONTROL)
open Pl (Bus)

namespace Board

/-! ### One cycle -/

section

variable {u : Bus} {b : Board}

theorem Writes.configuration {address : BitVec 16} {data : BitVec 32}
    (h : b.Writes address data u) :
    configuration (b.tick u).pl.regs = (configuration b.pl.regs).write (address, data) := by
  rw [tick_configuration, AxiRegs.decoded, h.1, if_pos rfl, h.2.1, h.2.2.1]
  rfl

/-- Writing any other register leaves the mailbox alone. -/
theorem Writes.undisturbed {address : BitVec 16} {data : BitVec 32}
    (h : b.Writes address data u) (hne : address ≠ Regs.DAP_COMMAND) : b.Undisturbed u := by
  refine ⟨?_, by rw [AxiRegs.responseRead, h.2.2.2, Bool.false_and]⟩
  rw [AxiRegs.commandWrite, h.2.1, beq_eq_false_iff_ne.mpr hne, Bool.and_false]

end

/-! ### One access -/

section

variable {b : Board} (h : Idle b)

include h

theorem idle_waiting : b.Waiting 0 b.commands b.responses :=
  ⟨h.state, h.pos, h.command, h.response, rfl, rfl⟩

theorem write_served {address : BitVec 16} (hne : address ≠ Regs.DAP_COMMAND)
    (data : BitVec 32) :
    Idle (b.write address data) ∧
      configuration (b.write address data).pl.regs =
        (configuration b.pl.regs).write (address, data) := by
  obtain ⟨haccess, hrest⟩ := write_cycles h.bus address data
  obtain ⟨hwaiting, hsame⟩ := haccess.rule
    (P := fun b' => b'.Waiting 0 b.commands b.responses ∧
      configuration b'.pl.regs = configuration b.pl.regs)
    (Q := fun b' => b'.Waiting 0 b.commands b.responses ∧
      configuration b'.pl.regs = (configuration b.pl.regs).write (address, data))
    (R := fun b' => b'.Waiting 0 b.commands b.responses ∧
      configuration b'.pl.regs = (configuration b.pl.regs).write (address, data))
    (fun u b' hu hb' => ⟨hb'.1.tick hu.undisturbed, hu.keeps.configuration.trans hb'.2⟩)
    (fun u b' hu hb' => ⟨hb'.1.tick (hu.undisturbed hne), by rw [hu.configuration, hb'.2]⟩)
    (fun u b' hu hb' => ⟨hb'.1.tick hu.undisturbed, hu.keeps.configuration.trans hb'.2⟩)
    (fun u b' hu hb' => ⟨hb'.1.tick hu.undisturbed, hu.keeps.configuration.trans hb'.2⟩)
    ⟨idle_waiting h, rfl⟩
  exact ⟨⟨hwaiting.state, hwaiting.pos, hwaiting.command, hwaiting.response, hrest⟩, hsame⟩

theorem read_served {address : BitVec 16} (hne : address ≠ Regs.DAP_RESPONSE) :
    Idle (b.read address).2 ∧
      configuration (b.read address).2.pl.regs = configuration b.pl.regs := by
  obtain ⟨haccess, hrest⟩ := read_cycles h.bus address
  have hsilent : ∀ u (b' : Board), b'.Silent u →
      b'.Waiting 0 b.commands b.responses ∧
        configuration b'.pl.regs = configuration b.pl.regs →
      (b'.tick u).Waiting 0 b.commands b.responses ∧
        configuration (b'.tick u).pl.regs = configuration b.pl.regs :=
    fun u b' hu hb' => ⟨hb'.1.tick hu.undisturbed, hu.keeps.configuration.trans hb'.2⟩
  obtain ⟨hwaiting, hsame⟩ := haccess.rule hsilent
    (fun u b' hu hb' => ⟨hb'.1.tick (hu.undisturbed hne), hu.keeps.configuration.trans hb'.2⟩)
    hsilent hsilent ⟨idle_waiting h, rfl⟩
  exact ⟨⟨hwaiting.state, hwaiting.pos, hwaiting.command, hwaiting.response, hrest⟩, hsame⟩

end

end Board

/-! ### One call -/

/-- A call of the control service or of the DAP service. -/
inductive Call where
  | command (request response : List UInt8)
  | dap (call : DapCall)

/-- The board after a call. -/
def Call.after (b : Board) : Call → Board
  | .command request response => ((Controller.mk b).command request response).2.1.io
  | .dap call => (exchange call b).after

/-- What a call makes of the configuration: `Configure` and `M3Control` change it if they are
accepted, with any bytes for source and format. -/
def Call.set (c : Configuration) : Call → Configuration
  | .command request response =>
    if Accepts request response.length then
      match (byteAt request 2).toNat with
      | 2 =>
        { c with
          sourceSelect := (byteAt request 3).toBitVec.extractLsb' 0 2
          traceFormat := (byteAt request 4).toBitVec.extractLsb' 0 3
          swoBaud := (u32FromLe (slice request 5 9)).toBitVec }
      | 9 =>
        { c with
          m3Release := (byteAt request 3).toBitVec.getLsbD 0
          m3DapReal := (byteAt request 3).toBitVec.getLsbD 1 }
      | _ => c
    else c
  | .dap _ => c

/-- A DAP exchange fits, a control request is anything. -/
def Call.Fits : Call → Prop
  | .command _ _ => True
  | .dap call => call.Fits

theorem sourceFormat_source (source format : UInt8) :
    (source.toUInt32 ||| format.toUInt32 <<< 8).toBitVec.extractLsb' 0 2 =
      source.toBitVec.extractLsb' 0 2 := by
  ext k hk
  have hword : k < 32 := by omega
  have hbyte : k < 8 := by omega
  simp [hword, hbyte]

theorem sourceFormat_format (source format : UInt8) :
    (source.toUInt32 ||| format.toUInt32 <<< 8).toBitVec.extractLsb' 8 3 =
      format.toBitVec.extractLsb' 0 3 := by
  ext k hk
  have hword : 8 + k < 32 := by omega
  simp [hword]

theorem write_m3Control (c : Configuration) (byte : UInt8) :
    c.write (BitVec.ofNat 16 REG_M3_CONTROL, byte.toUInt32.toBitVec) =
      { c with
        m3Release := byte.toBitVec.getLsbD 0
        m3DapReal := byte.toBitVec.getLsbD 1 } := by
  have hbit : ∀ k < 8, byte.toUInt32.toBitVec.getLsbD k = byte.toBitVec.getLsbD k := by
    intro k hk
    have hword : k < 32 := by omega
    simp [hword]
  rw [← hbit 0 (by decide), ← hbit 1 (by decide)]
  rfl

section

variable {b : Board} (h : Idle b)

include h

/-- A write of the controller. -/
theorem controller_write (offset : ℕ) (hne : BitVec.ofNat 16 offset ≠ Regs.DAP_COMMAND)
    (value : UInt32) :
    Idle ((Controller.mk b).write offset value).io ∧
      configuration ((Controller.mk b).write offset value).io.pl.regs =
        (configuration b.pl.regs).write (BitVec.ofNat 16 offset, value.toBitVec) :=
  Board.write_served h hne value.toBitVec

/-- `Configure` writes two registers. -/
theorem configure_served (source format : UInt8) (baud : UInt32) :
    Idle ((Controller.mk b).configure source format baud).io ∧
      configuration ((Controller.mk b).configure source format baud).io.pl.regs =
        { configuration b.pl.regs with
          sourceSelect := source.toBitVec.extractLsb' 0 2
          traceFormat := format.toBitVec.extractLsb' 0 3
          swoBaud := baud.toBitVec } := by
  let word := source.toUInt32 ||| format.toUInt32 <<< 8
  -- the route lies outside the register block
  have hroute : (Controller.mk b).configure source format baud =
      ((Controller.mk b).write REG_SOURCE_FORMAT word).write REG_SWO_BAUD baud := by
    rw [Controller.configure]
    split <;> rfl
  obtain ⟨hfirst, hformat⟩ := controller_write h REG_SOURCE_FORMAT (by decide) word
  obtain ⟨hidle, hbaud⟩ := controller_write hfirst REG_SWO_BAUD (by decide) baud
  rw [hroute]
  refine ⟨hidle, hbaud.trans ?_⟩
  rw [hformat, ← sourceFormat_source source format, ← sourceFormat_format source format]
  rfl

/-- The counters are read. -/
theorem readStats_served (offsets : List ℕ)
    (hne : ∀ offset ∈ offsets, BitVec.ofNat 16 offset ≠ Regs.DAP_RESPONSE) :
    Idle (Controller.readStats offsets ⟨b⟩).2.io ∧
      configuration (Controller.readStats offsets ⟨b⟩).2.io.pl.regs =
        configuration b.pl.regs := by
  induction offsets generalizing b with
  | nil => exact ⟨h, rfl⟩
  | cons offset rest ih =>
    obtain ⟨hidle, hsame⟩ := Board.read_served h (hne offset List.mem_cons_self)
    obtain ⟨hidle', hsame'⟩ := ih hidle fun o ho => hne o (List.mem_cons_of_mem _ ho)
    exact ⟨hidle', hsame'.trans hsame⟩

/-- **One control request.** It leaves the mailbox as it is. -/
theorem command_served (request response : List UInt8) :
    Idle (Call.after b (.command request response)) ∧
      configuration (Call.after b (.command request response)).pl.regs =
        Call.set (configuration b.pl.regs) (.command request response) := by
  rw [Call.after, Call.set]
  by_cases haccepts : Accepts request response.length
  · rw [if_pos haccepts]
    have hguard := haccepts.guard
    have hfit := haccepts.2.2.2
    unfold argumentsFit at hfit
    split at hfit
    · next hop =>
      have hbig := of_decide_eq_true hfit
      simp only [Controller.command, hop]
      rw [if_neg hguard, if_neg (by omega)]
      exact ⟨h, rfl⟩
    · next hop =>
      simp only [Controller.command, hop]
      rw [if_neg hguard, if_pos (by simpa using hfit)]
      exact configure_served h _ _ _
    · next hop =>
      simp only [Controller.command, hop]
      rw [if_neg hguard]
      exact controller_write h REG_CONTROL (by decide) 1
    · next hop =>
      simp only [Controller.command, hop]
      rw [if_neg hguard]
      exact controller_write h REG_CONTROL (by decide) 2
    · next hop =>
      simp only [Controller.command, hop]
      rw [if_neg hguard]
      exact controller_write h REG_CONTROL (by decide) 4
    · next hop =>
      rw [Controller.command_getStats haccepts hop, hop]
      exact readStats_served h statsOffsets (by decide)
    · next hop =>
      simp only [Bool.and_eq_true, decide_eq_true_eq] at hfit
      have hsmall : Firmware.M3_BRAM_SIZE < 2 ^ 64 := by decide
      simp only [Controller.command, hop]
      rw [if_neg hguard, if_pos hfit.1, if_neg (by omega), if_neg (by omega)]
      exact ⟨h, rfl⟩
    · next hop =>
      simp only [Bool.and_eq_true, beq_iff_eq, decide_eq_true_eq] at hfit
      have hsmall : Firmware.M3_BRAM_SIZE < 2 ^ 64 := by decide
      simp only [Controller.command, hop]
      rw [if_neg hguard, if_pos hfit.1.1, if_neg (by omega), if_neg (by omega)]
      exact ⟨h, rfl⟩
    · next hop =>
      simp only [Controller.command, hop]
      rw [if_neg hguard, if_pos (by simpa using hfit)]
      obtain ⟨hidle, hset⟩ := controller_write h REG_M3_CONTROL (by decide)
        (byteAt request 3).toUInt32
      rw [hset, write_m3Control]
      exact ⟨hidle, rfl⟩
    · exact absurd hfit Bool.false_ne_true
  · rw [if_neg haccepts, Controller.command_of_rejects haccepts]
    exact ⟨h, rfl⟩

/-- **One call** of either service. -/
theorem Call.after_served (call : Call) (hfits : call.Fits) :
    Idle (call.after b) ∧
      configuration (call.after b).pl.regs = call.set (configuration b.pl.regs) := by
  cases call with
  | command request response => exact command_served h request response
  | dap call =>
    obtain ⟨-, hidle, -⟩ := exchange_reacts h hfits
    exact ⟨hidle, (Board.dapExchange_leads h.bus call.request call.response
      call.pollBudget).configuration⟩

end

/-! ### A run of calls -/

/-- The board after a run of calls. -/
def served (calls : List Call) (b : Board) : Board := calls.foldl Call.after b

theorem served_idle {b : Board} (h : Idle b) (calls : List Call)
    (hcalls : ∀ call ∈ calls, call.Fits) :
    Idle (served calls b) ∧
      configuration (served calls b).pl.regs =
        calls.foldl Call.set (configuration b.pl.regs) := by
  induction calls generalizing b with
  | nil => exact ⟨h, rfl⟩
  | cons call calls ih =>
    obtain ⟨hidle, hset⟩ := call.after_served h (hcalls call List.mem_cons_self)
    obtain ⟨hidle', hset'⟩ := ih hidle fun call hcall => hcalls call (List.mem_cons_of_mem _ hcall)
    refine ⟨hidle', hset'.trans ?_⟩
    rw [hset, List.foldl_cons]

/-- **Both services.** Calls of the two services, one after the other in any order, from an idle
mailbox, with any control requests and with DAP requests that fit: the configuration of the PL is
what the accepted `Configure` and `M3Control` requests make of the one at the start, in order, and
every DAP exchange returns the engine's whole reaction to its own request, at the target that this
configuration has when its turn comes. -/
theorem calls_served {b : Board} (h : Idle b) (calls : List Call)
    (hcalls : ∀ call ∈ calls, call.Fits) :
    Idle (served calls b) ∧
      configuration (served calls b).pl.regs =
        calls.foldl Call.set (configuration b.pl.regs) ∧
      ∀ before call rest, calls = before ++ .dap call :: rest →
        (exchange call (served before b)).Reacts
          (targetFlags (before.foldl Call.set (configuration b.pl.regs))) := by
  obtain ⟨hidle, hset⟩ := served_idle h calls hcalls
  refine ⟨hidle, hset, ?_⟩
  rintro before call rest rfl
  obtain ⟨hturn, hnow⟩ := served_idle h before fun other hother =>
    hcalls other (List.mem_append_left _ hother)
  have hfits : call.Fits := hcalls (.dap call) (by simp)
  have hreacts := (exchange_reacts hturn hfits).1
  rw [Board.flags_eq, hnow] at hreacts
  exact hreacts

/-- A `DAP_Info` request with a response buffer of the size the server has. -/
def infoCall : DapCall := ⟨[0x00, 0x01], List.replicate 1024 0, 1000⟩

/-- The M3 is released and made the target, a DAP request follows, and a trace is configured. -/
def mixedCalls : List Call :=
  [.command [1, 0, 9, 3] [0], .dap infoCall,
    .command [1, 0, 2, 1, 4, 0x00, 0xc2, 0x01, 0x00] [0]]

/-- The request meets the real target. -/
theorem calls_served_mixed :
    (exchange infoCall (served (mixedCalls.take 1) bootBoard)).Reacts
        ⟨false, false, false, true⟩ ∧
      configuration (served mixedCalls bootBoard).pl.regs =
        { configuration bootBoard.pl.regs with
          sourceSelect := 1
          traceFormat := 4
          swoBaud := 115200
          m3Release := true
          m3DapReal := true } := by
  have hfits : ∀ call ∈ mixedCalls, call.Fits := by
    intro call hcall
    simp only [mixedCalls, List.mem_cons, List.not_mem_nil, or_false] at hcall
    obtain rfl | rfl | rfl := hcall
    · trivial
    · refine ⟨by decide, by decide, ?_, by decide⟩
      rw [infoCall, List.length_replicate]
      decide
    · trivial
  have hidle : Idle bootBoard := (settled_reset bootBoard.env bootBoard.timing).idle
  obtain ⟨-, hset, hreacts⟩ := calls_served hidle mixedCalls hfits
  have hsplit : mixedCalls = mixedCalls.take 1 ++ .dap infoCall :: mixedCalls.drop 2 := rfl
  have htarget : targetFlags ((mixedCalls.take 1).foldl Call.set
      (configuration bootBoard.pl.regs)) = ⟨false, false, false, true⟩ := rfl
  have hturn := hreacts _ _ _ hsplit
  rw [htarget] at hturn
  refine ⟨hturn, hset.trans ?_⟩
  rfl

end System
