import Zub1cg.System.Mailbox
import Zub1cg.Firmware.Controller.Command

/-!
# A whole DAP exchange

The loops of `Controller.dapExchange` against the mailbox. Sending never waits in vain: a
byte written is in the engine by the end of its bus access. Receiving may give up, but what
it has taken by then, and what it returns, is what the engine handed over.

## Main results

- `sendRequest_mailbox`, `receiveResponse_mailbox` — the two loops
- `dap_exchange_exact` — an exchange that starts from an idle mailbox
-/

namespace System

open Packets (markLast Unfinished Finished)
open Firmware (RegisterIo REG_DAP_STATUS REG_DAP_COMMAND REG_DAP_RESPONSE overwrite)
open Firmware.Controller (waitStatus sendRequest receiveResponse)

namespace Board

/-! ### The controller's accesses to the mailbox -/

section

variable {k : ℕ} {c r taken : List (UInt8 × Bool)} {b : Board}

/-- A poll that finds the mailbox waiting sees room for a byte. -/
theorem Waiting.read_status (h : b.Waiting k c r) (hrest : b.AtRest) :
    (RegisterIo.read REG_DAP_STATUS b).1 &&& 1 ≠ 0 ∧
      (RegisterIo.read REG_DAP_STATUS b).2.Waiting k c r ∧
      (RegisterIo.read REG_DAP_STATUS b).2.AtRest := by
  obtain ⟨haccess, hend⟩ := read_cycles hrest Regs.DAP_STATUS
  have hstable : ∀ u (b' : Board), b'.Silent u → b'.Waiting k c r ∧
      UInt32.ofBitVec (b.read Regs.DAP_STATUS).1 &&& 1 ≠ 0 →
      (b'.tick u).Waiting k c r ∧ UInt32.ofBitVec (b.read Regs.DAP_STATUS).1 &&& 1 ≠ 0 :=
    fun u b' hu hb' => ⟨hb'.1.tick hu.undisturbed, hb'.2⟩
  obtain ⟨hwaiting, hroom⟩ := haccess.rule (P := fun b' => b'.Waiting k c r)
    (fun u b' hu hb' => hb'.tick hu.undisturbed)
    (fun u b' hu hb' => ⟨hb'.tick (hu.undisturbed (by decide)), by
      rw [← hu.2.2.1]
      change UInt32.ofBitVec (statusWord _ (!b'.pl.regs.dapCommandValid)) &&& 1 ≠ 0
      rw [ne_eq, statusWord_room, hb'.command]
      decide⟩)
    hstable hstable h
  exact ⟨hroom, hwaiting, hend⟩

/-- A byte written to the waiting mailbox is in the engine when the access ends. -/
theorem Waiting.write_command (h : b.Waiting k c r) (hrest : b.AtRest)
    (hk : k < DapEngine.MAX_PACKET) (byte : UInt8) (last : Bool) :
    (if last then
        (RegisterIo.write REG_DAP_COMMAND (commandWord byte last) b).Answering
          (c ++ [(byte, true)]) r []
      else
        (RegisterIo.write REG_DAP_COMMAND (commandWord byte last) b).Waiting (k + 1)
          (c ++ [(byte, false)]) r) ∧
      (RegisterIo.write REG_DAP_COMMAND (commandWord byte last) b).AtRest := by
  obtain ⟨haccess, hend⟩ :=
    write_cycles hrest Regs.DAP_COMMAND (commandWord byte last).toBitVec
  refine ⟨?_, hend⟩
  refine haccess.rule (P := fun b' => b'.Waiting k c r)
    (Q := fun b' => b'.Loaded k byte last c r)
    (R := fun b' => if last then b'.Answering (c ++ [(byte, true)]) r []
      else b'.Waiting (k + 1) (c ++ [(byte, false)]) r)
    (fun u b' hu hb' => hb'.tick hu.undisturbed) ?_
    (fun u b' hu hb' => hb'.tick hk hu.undisturbed) ?_ h
  · intro u b' hu hb'
    have hloaded := hb'.write hu
    rw [commandWord_byte, commandWord_last] at hloaded
    exact hloaded
  · intro u b' hu hb'
    cases last with
    | true => exact Answering.tick hu.undisturbed hb'
    | false => exact Waiting.tick hu.undisturbed hb'

/-- A poll during the answer; if it sees a byte, the byte stays until it is taken. -/
theorem Answering.read_status (h : b.Answering c r taken) (hrest : b.AtRest) :
    ((RegisterIo.read REG_DAP_STATUS b).1 &&& 2 ≠ 0 →
        (RegisterIo.read REG_DAP_STATUS b).2.pl.regs.dapResponseHoldValid = true) ∧
      (RegisterIo.read REG_DAP_STATUS b).2.Answering c r taken ∧
      (RegisterIo.read REG_DAP_STATUS b).2.AtRest := by
  obtain ⟨haccess, hend⟩ := read_cycles hrest Regs.DAP_STATUS
  have hkept : ∀ u (b' : Board), b'.Undisturbed u → b'.pl.regs.dapResponseHoldValid = true →
      (b'.tick u).pl.regs.dapResponseHoldValid = true := by
    intro u b' hu hfull
    rw [tick_responseValid, hfull, hu.2]
    rfl
  have hstable : ∀ u (b' : Board), b'.Silent u → b'.Answering c r taken ∧
      (UInt32.ofBitVec (b.read Regs.DAP_STATUS).1 &&& 2 ≠ 0 →
        b'.pl.regs.dapResponseHoldValid = true) →
      (b'.tick u).Answering c r taken ∧ (UInt32.ofBitVec (b.read Regs.DAP_STATUS).1 &&& 2 ≠ 0 →
        (b'.tick u).pl.regs.dapResponseHoldValid = true) :=
    fun u b' hu hb' => ⟨hb'.1.tick hu.undisturbed, fun hbit => hkept u b' hu.undisturbed (hb'.2 hbit)⟩
  obtain ⟨hanswering, hfull⟩ := haccess.rule (P := fun b' => b'.Answering c r taken)
    (fun u b' hu hb' => hb'.tick hu.undisturbed)
    (fun u b' hu hb' => ⟨hb'.tick (hu.undisturbed (by decide)), fun hbit => by
      rw [← hu.2.2.1] at hbit
      change UInt32.ofBitVec (statusWord b'.pl.regs.dapResponseHoldValid _) &&& 2 ≠ 0 at hbit
      rw [ne_eq, statusWord_held, Bool.not_eq_false] at hbit
      exact hkept u b' (hu.undisturbed (by decide)) hbit⟩)
    hstable hstable h
  exact ⟨hfull, hanswering, hend⟩

/-- Taking the held response byte. -/
theorem Answering.read_response (h : b.Answering c r taken) (hrest : b.AtRest)
    (hfull : b.pl.regs.dapResponseHoldValid = true) :
    ∃ byte last, (RegisterIo.read REG_DAP_RESPONSE b).1.toUInt8 = byte ∧
      ((RegisterIo.read REG_DAP_RESPONSE b).1 &&& 0x200 = 0 ↔ last = false) ∧
      (if last then
          (RegisterIo.read REG_DAP_RESPONSE b).2.Waiting 0 c (r ++ (taken ++ [(byte, true)]))
        else (RegisterIo.read REG_DAP_RESPONSE b).2.Answering c r (taken ++ [(byte, false)])) ∧
      (RegisterIo.read REG_DAP_RESPONSE b).2.AtRest := by
  obtain ⟨haccess, hend⟩ := read_cycles hrest Regs.DAP_RESPONSE
  let Taken : Board → Prop := fun b' => ∃ byte last,
    (b.read Regs.DAP_RESPONSE).1 = responseWord last true byte ∧
      if last then b'.Waiting 0 c (r ++ (taken ++ [(byte, true)]))
      else b'.Answering c r (taken ++ [(byte, false)])
  have hstable : ∀ u b', b'.Silent u → Taken b' → Taken (b'.tick u) := by
    rintro u b' hu ⟨byte, last, hword, hphase⟩
    refine ⟨byte, last, hword, ?_⟩
    cases last with
    | true => exact Waiting.tick hu.undisturbed hphase
    | false => exact Answering.tick hu.undisturbed hphase
  obtain ⟨byte, last, hword, hphase⟩ := haccess.rule
    (P := fun b' => b'.Answering c r taken ∧ b'.pl.regs.dapResponseHoldValid = true)
    (fun u b' hu hb' => ⟨hb'.1.tick hu.undisturbed, by
      rw [tick_responseValid, hb'.2, hu.undisturbed.2]
      rfl⟩)
    (fun u b' hu hb' => hb'.1.read hu hb'.2) hstable hstable ⟨h, hfull⟩
  have hvalue : (RegisterIo.read REG_DAP_RESPONSE b).1 =
      UInt32.ofBitVec (responseWord last true byte) := congrArg UInt32.ofBitVec hword
  refine ⟨byte, last, ?_, ?_, hphase, hend⟩
  · rw [hvalue, responseWord_byte]
  · rw [hvalue, responseWord_last]

/-! ### The two loops -/

/-- Waiting for room never fails. -/
theorem Waiting.waitStatus (h : b.Waiting k c r) (hrest : b.AtRest) (budget : ℕ) :
    ∃ b', waitStatus 1 budget b = (true, b') ∧ b'.Waiting k c r ∧ b'.AtRest := by
  obtain ⟨hroom, hwaiting, hend⟩ := h.read_status hrest
  refine ⟨(RegisterIo.read REG_DAP_STATUS b).2, ?_, hwaiting, hend⟩
  rw [Firmware.Controller.waitStatus.eq_def]
  exact if_neg hroom

/-- Waiting for a response byte may give up, and otherwise finds one. -/
theorem Answering.waitStatus (budget : ℕ) (h : b.Answering c r taken) (hrest : b.AtRest) :
    ((waitStatus 2 budget b).1 = true →
        (waitStatus 2 budget b).2.pl.regs.dapResponseHoldValid = true) ∧
      (waitStatus 2 budget b).2.Answering c r taken ∧ (waitStatus 2 budget b).2.AtRest := by
  induction budget generalizing b with
  | zero =>
    obtain ⟨hfull, hanswering, hend⟩ := h.read_status hrest
    rw [Firmware.Controller.waitStatus]
    dsimp only
    split
    · exact ⟨fun hfalse => absurd hfalse Bool.false_ne_true, hanswering, hend⟩
    · next hbit => exact ⟨fun _ => hfull hbit, hanswering, hend⟩
  | succ budget ih =>
    obtain ⟨hfull, hanswering, hend⟩ := h.read_status hrest
    rw [Firmware.Controller.waitStatus]
    dsimp only
    split
    · exact ih hanswering hend
    · next hbit => exact ⟨fun _ => hfull hbit, hanswering, hend⟩

end

/-- Sending a request: the engine takes its bytes in order, the last one flagged. -/
theorem sendRequest_mailbox (budget : UInt32) (request : List UInt8) {k : ℕ}
    {c r : List (UInt8 × Bool)} {b : Board} (hne : request ≠ [])
    (hlen : k + request.length ≤ DapEngine.MAX_PACKET) (h : b.Waiting k c r) (hrest : b.AtRest) :
    ∃ b', sendRequest budget request b = (.ok (), b') ∧
      b'.Answering (c ++ markLast request) r [] ∧ b'.AtRest := by
  induction request generalizing k c b with
  | nil => exact absurd rfl hne
  | cons byte rest ih =>
    obtain ⟨b', hwait, hwaiting, hrest'⟩ := h.waitStatus hrest budget.toNat
    rw [List.length_cons] at hlen
    obtain ⟨hnext, hend⟩ := hwaiting.write_command hrest' (by omega) byte rest.isEmpty
    have hloop : sendRequest budget (byte :: rest) b =
        sendRequest budget rest
          (RegisterIo.write REG_DAP_COMMAND (commandWord byte rest.isEmpty) b') := by
      rw [sendRequest, hwait]
      rfl
    rw [hloop]
    cases rest with
    | nil => exact ⟨_, rfl, hnext, hend⟩
    | cons next rest =>
      obtain ⟨b'', hsend, hanswering, hend'⟩ := ih (List.cons_ne_nil _ _)
        (by rw [List.length_cons] at hlen ⊢; omega) hnext hend
      refine ⟨b'', hsend, ?_, hend'⟩
      rw [List.append_assoc] at hanswering
      exact hanswering

/-- Receiving the response: an `Ok` returns every byte of it and leaves the mailbox idle; an
error leaves it in the middle of the answer, or right behind the byte that did not fit. -/
theorem receiveResponse_mailbox (budget : UInt32) (room : ℕ) {c r : List (UInt8 × Bool)}
    {b : Board} (written buffer : List UInt8) (hbuffer : buffer.length = written.length + room)
    (h : b.Answering c r (written.map fun byte => (byte, false))) (hrest : b.AtRest) :
    let out := receiveResponse budget room written.length (overwrite written buffer) b
    out.2.1.AtRest ∧
      match out.1 with
      | .ok n => 0 < n ∧ n ≤ buffer.length ∧
          out.2.1.Waiting 0 c (r ++ markLast (out.2.2.take n))
      | .error _ => (∃ taken, out.2.1.Answering c r taken) ∨
          ∃ packet, Finished packet ∧ out.2.1.Waiting 0 c (r ++ packet) := by
  induction room generalizing b written with
  | zero =>
    obtain ⟨hfull, hanswering, hend⟩ := h.waitStatus budget.toNat hrest
    rw [receiveResponse]
    generalize waitStatus 2 budget.toNat b = polled at hfull hanswering hend
    obtain ⟨_ | _, b'⟩ := polled
    · exact ⟨hend, .inl ⟨_, hanswering⟩⟩
    · -- the byte that does not fit has been taken all the same
      obtain ⟨byte, last, -, -, hphase, hend'⟩ := hanswering.read_response hend (hfull rfl)
      refine ⟨hend', ?_⟩
      cases last with
      | true => exact .inr ⟨_, ⟨_, byte, hanswering.unmarked, rfl⟩, hphase⟩
      | false => exact .inl ⟨_, hphase⟩
  | succ room ih =>
    obtain ⟨hfull, hanswering, hend⟩ := h.waitStatus budget.toNat hrest
    rw [receiveResponse]
    generalize waitStatus 2 budget.toNat b = polled at hfull hanswering hend
    obtain ⟨_ | _, b'⟩ := polled
    · exact ⟨hend, .inl ⟨_, hanswering⟩⟩
    · obtain ⟨byte, last, hbyte, hflag, hphase, hend'⟩ :=
        hanswering.read_response hend (hfull rfl)
      dsimp only
      rw [hbyte, Firmware.Controller.set_overwrite (by omega)]
      cases last with
      | true =>
        have hset : (RegisterIo.read REG_DAP_RESPONSE b').1 &&& 0x200 ≠ 0 :=
          fun hzero => Bool.noConfusion (hflag.mp hzero)
        rw [if_pos rfl] at hphase
        rw [if_pos hset]
        have htake : (overwrite (written ++ [byte]) buffer).take (written.length + 1) =
            written ++ [byte] := by
          rw [overwrite, List.take_left' (by simp)]
        refine ⟨hend', Nat.succ_pos _, by omega, ?_⟩
        rw [htake, Packets.markLast_concat]
        exact hphase
      | false =>
        rw [if_neg Bool.false_ne_true] at hphase
        rw [if_neg (not_not.mpr (hflag.mpr rfl))]
        have hnext := ih (b := (RegisterIo.read REG_DAP_RESPONSE b').2) (written ++ [byte])
          (by rw [List.length_append, List.length_singleton]; omega)
          (by rw [List.map_append]; exact hphase) hend'
        rw [List.length_append, List.length_singleton] at hnext
        exact hnext

end Board

/-- Nothing is under way: the engine captures the first byte of a request, the mailbox
holds no byte and the bus is at rest. -/
structure Idle (b : Board) : Prop where
  state : b.pl.dap.state = .CAPTURE
  pos : b.pl.dap.requestPos = 0
  command : b.pl.regs.dapCommandValid = false
  response : b.pl.regs.dapResponseHoldValid = false
  bus : b.AtRest

/-- The exchange in terms of the mailbox: after an `Ok` it waits for the next request, after
an error it is in the middle of the answer or right behind it. -/
theorem dapExchange_mailbox (b : Board) (hidle : Idle b) (request response : List UInt8)
    (hpos : 1 ≤ request.length) (hlen : request.length ≤ Firmware.MAX_DAP_PACKET)
    (pollBudget : UInt32) :
    let out := (Firmware.Controller.mk b).dapExchange request response pollBudget
    out.2.1.io.AtRest ∧
      match out.1 with
      | .ok n => 0 < n ∧ n ≤ response.length ∧
          out.2.1.io.Waiting 0 (b.commands ++ markLast request)
            (b.responses ++ markLast (out.2.2.take n))
      | .error _ =>
          (∃ taken, out.2.1.io.Answering (b.commands ++ markLast request) b.responses taken) ∨
            ∃ packet, Finished packet ∧
              out.2.1.io.Waiting 0 (b.commands ++ markLast request) (b.responses ++ packet) := by
  have hne : request ≠ [] := List.ne_nil_of_length_pos hpos
  have hwaiting : b.Waiting 0 b.commands b.responses :=
    ⟨hidle.state, hidle.pos, hidle.command, hidle.response, rfl, rfl⟩
  obtain ⟨b', hsend, hanswering, hrest⟩ := Board.sendRequest_mailbox pollBudget request hne
    (k := 0) (by rw [Nat.zero_add]; exact hlen) hwaiting hidle.bus
  have hempty : request.isEmpty = false := by
    rw [List.isEmpty_eq_false_iff]
    exact hne
  rw [Firmware.Controller.dapExchange, hempty]
  simp only [Bool.false_eq_true, if_false, hsend]
  exact Board.receiveResponse_mailbox pollBudget response.length [] response (by simp)
    hanswering hrest

/-- **An exchange is exact.** From an idle mailbox, whatever the surroundings do and
whenever the accesses come: the engine takes exactly the bytes of the request in order, the
last one flagged, and if `dap_exchange` returns `Ok(n)` then the engine has handed over
exactly `response[..n]`, the last byte flagged, and the mailbox is idle again. -/
theorem dap_exchange_exact (b : Board) (hidle : Idle b) (request response : List UInt8)
    (hpos : 1 ≤ request.length) (hlen : request.length ≤ Firmware.MAX_DAP_PACKET)
    (pollBudget : UInt32) :
    let out := (Firmware.Controller.mk b).dapExchange request response pollBudget
    out.2.1.io.commands = b.commands ++ markLast request ∧
      ∀ n, out.1 = .ok n → 0 < n ∧ n ≤ response.length ∧
        out.2.1.io.responses = b.responses ++ markLast (out.2.2.take n) ∧ Idle out.2.1.io := by
  obtain ⟨hbus, hphase⟩ := dapExchange_mailbox b hidle request response hpos hlen pollBudget
  dsimp only
  generalize (Firmware.Controller.mk b).dapExchange request response pollBudget = out
    at hbus hphase
  obtain ⟨e | n, after, buffer⟩ := out
  · refine ⟨?_, fun n hn => by cases hn⟩
    obtain ⟨taken, hanswering⟩ | ⟨packet, -, hwaiting⟩ := hphase
    · exact hanswering.commands
    · exact hwaiting.commands
  · obtain ⟨hn0, hn1, hend⟩ := hphase
    refine ⟨hend.commands, ?_⟩
    rintro _ ⟨⟩
    exact ⟨hn0, hn1, hend.responses, hend.state, hend.pos, hend.command, hend.response, hbus⟩

/-- A `DAP_TransferAbort` out of reset: two bytes come back. -/
theorem dap_exchange_exact_abort :
    let out := (Firmware.Controller.mk bootBoard).dapExchange [0x07] (List.replicate 8 0xff) 10
    out.1 = .ok 2 ∧ out.2.1.io.commands = [(0x07, true)] ∧
      out.2.1.io.responses = markLast (out.2.2.take 2) ∧ Idle out.2.1.io := by
  have hexact := dap_exchange_exact bootBoard ⟨rfl, rfl, rfl, rfl, rfl, rfl, rfl, rfl⟩ [0x07]
    (List.replicate 8 0xff) (by decide) (by decide) 10
  have hok : ((Firmware.Controller.mk bootBoard).dapExchange [0x07]
      (List.replicate 8 0xff) 10).1 = .ok 2 := by decide +kernel
  obtain ⟨-, -, hresponses, hidle⟩ := hexact.2 2 hok
  exact ⟨hok, hexact.1, hresponses, hidle⟩

end System
