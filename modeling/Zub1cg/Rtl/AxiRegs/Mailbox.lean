import Zub1cg.Rtl.AxiRegs

/-!
# The bus handshake and the mailbox, register by register

What one edge out of reset does to the registers of the two AXI-Lite channels and to the
one-byte holds of the DAP mailbox. Everything later about the register block is derived
from these equations.

## Main results

- `step_sAxiBvalid`, `step_awPending`, `step_wPending` — the write channels
- `step_sAxiRvalid`, `step_sAxiRdata` — the read channel
- `step_dapCommand`, `step_dapResponseHoldValid` — the two holds
-/

namespace AxiRegs

/-- A write to `DAP_COMMAND` takes effect at this edge. -/
def commandWrite (i : Input) (s : State) : Bool :=
  writeFire i s && writeAddress i s == Regs.DAP_COMMAND

/-- A read of `DAP_RESPONSE` takes effect at this edge. -/
def responseRead (i : Input) (s : State) : Bool :=
  readFire i s && i.sAxiAraddr == Regs.DAP_RESPONSE

/-! ### The parts of the clocked block -/

theorem backgroundUpdate_eq (i : Input) (s n : State) :
    backgroundUpdate i s n = { n with
      startPulse := false
      stopPulse := false
      resetPulse := false
      irqStatus := (backgroundUpdate i s n).irqStatus
      sAxiBvalid := n.sAxiBvalid && !(s.sAxiBvalid && i.sAxiBready)
      dapCommandValid := n.dapCommandValid && !(s.dapCommandValid && i.dapCommandReady)
      dapResponseHold := if i.dapResponseValid && dapResponseReady s then i.dapResponseData
        else n.dapResponseHold
      dapResponseHoldLast := if i.dapResponseValid && dapResponseReady s then i.dapResponseLast
        else n.dapResponseHoldLast
      dapResponseHoldValid :=
        n.dapResponseHoldValid || (i.dapResponseValid && dapResponseReady s) } := by
  unfold backgroundUpdate
  cases i.irqDmaComplete <;> cases i.irqOverrun <;> cases i.irqDebugComplete <;>
    cases s.dapCommandValid && i.dapCommandReady <;>
    cases i.dapResponseValid && dapResponseReady s <;> cases s.sAxiBvalid && i.sAxiBready <;>
    simp

/-- The bus channels and the response hold are the same. -/
structure SameChannels (n m : State) : Prop where
  sAxiBvalid : m.sAxiBvalid = n.sAxiBvalid
  awPending : m.awPending = n.awPending
  wPending : m.wPending = n.wPending
  awaddrHold : m.awaddrHold = n.awaddrHold
  wdataHold : m.wdataHold = n.wdataHold
  sAxiRvalid : m.sAxiRvalid = n.sAxiRvalid
  sAxiRdata : m.sAxiRdata = n.sAxiRdata
  dapResponseHold : m.dapResponseHold = n.dapResponseHold
  dapResponseHoldValid : m.dapResponseHoldValid = n.dapResponseHoldValid
  dapResponseHoldLast : m.dapResponseHoldLast = n.dapResponseHoldLast

/-- They are out of reach of a register write. -/
theorem writeRegister_frame (s n : State) (address : BitVec 16) (data : BitVec 32) :
    SameChannels n (writeRegister s n address data) := by
  constructor <;>
    simp only [writeRegister, ite_self, apply_ite State.sAxiBvalid, apply_ite State.awPending,
      apply_ite State.wPending, apply_ite State.awaddrHold, apply_ite State.wdataHold,
      apply_ite State.sAxiRvalid, apply_ite State.sAxiRdata, apply_ite State.dapResponseHold,
      apply_ite State.dapResponseHoldValid, apply_ite State.dapResponseHoldLast]

/-- The command hold is filled by a write to `DAP_COMMAND` that finds it empty. -/
theorem writeRegister_dapCommand (s n : State) (address : BitVec 16) (data : BitVec 32) :
    let m := writeRegister s n address data
    (m.dapCommandData, m.dapCommandLast, m.dapCommandValid) =
      if address = Regs.DAP_COMMAND ∧ s.dapCommandValid = false then
        (UInt8.ofBitVec (data.extractLsb' 0 8), data.getLsbD 8, true)
      else (n.dapCommandData, n.dapCommandLast, n.dapCommandValid) := by
  by_cases haddr : address = Regs.DAP_COMMAND
  · subst haddr
    rw [writeRegister]
    cases s.dapCommandValid <;> rfl
  · simp only [writeRegister, haddr, false_and, if_false, ite_self, apply_ite State.dapCommandData,
      apply_ite State.dapCommandLast, apply_ite State.dapCommandValid]

/-- The two write channels, up to the register write they may complete. -/
def takeUpdate (i : Input) (s n : State) : State :=
  { n with
    awaddrHold := if awTake i s then i.sAxiAwaddr else n.awaddrHold
    awPending := (n.awPending || awTake i s) && !writeFire i s
    wdataHold := if wTake i s then i.sAxiWdata else n.wdataHold
    wstrbHold := if wTake i s then i.sAxiWstrb else n.wstrbHold
    wPending := (n.wPending || wTake i s) && !writeFire i s
    sAxiBvalid := n.sAxiBvalid || writeFire i s }

theorem writeUpdate_eq (i : Input) (s n : State) :
    writeUpdate i s n =
      if writeFire i s then
        writeRegister s (takeUpdate i s n) (writeAddress i s) (writeData i s)
      else takeUpdate i s n := by
  rw [writeUpdate, takeUpdate]
  cases writeFire i s <;> cases awTake i s <;> cases wTake i s <;> simp

/-- The register write leaves them to the two write channels. -/
theorem writeUpdate_frame (i : Input) (s n : State) :
    SameChannels (takeUpdate i s n) (writeUpdate i s n) := by
  rw [writeUpdate_eq]
  split
  · exact writeRegister_frame s (takeUpdate i s n) (writeAddress i s) (writeData i s)
  · exact ⟨rfl, rfl, rfl, rfl, rfl, rfl, rfl, rfl, rfl, rfl⟩

theorem readUpdate_eq (i : Input) (s n : State) :
    readUpdate i s n = { n with
      sAxiRvalid := readFire i s || (n.sAxiRvalid && !(s.sAxiRvalid && i.sAxiRready))
      sAxiRdata := if readFire i s then readRegister i s i.sAxiAraddr else n.sAxiRdata
      dapResponseHoldValid := n.dapResponseHoldValid && !responseRead i s } := by
  rw [readUpdate, responseRead]
  cases readFire i s <;> cases s.sAxiRvalid && i.sAxiRready <;>
    by_cases haddr : i.sAxiAraddr = Regs.DAP_RESPONSE <;> simp [haddr]

section

variable {i : Input} (hi : i.aresetn = true) (s : State)

include hi

theorem step_eq : step i s = readUpdate i s (writeUpdate i s (backgroundUpdate i s s)) := by
  simp [step, hi]

/-! ### The write channels -/

theorem step_sAxiBvalid :
    (step i s).sAxiBvalid = (s.sAxiBvalid && !i.sAxiBready || writeFire i s) := by
  rw [step_eq hi, readUpdate_eq]
  change (writeUpdate i s _).sAxiBvalid = _
  rw [(writeUpdate_frame i s _).sAxiBvalid, takeUpdate, backgroundUpdate_eq]
  cases s.sAxiBvalid <;> simp

theorem step_awPending :
    (step i s).awPending = ((s.awPending || awTake i s) && !writeFire i s) := by
  rw [step_eq hi, readUpdate_eq]
  change (writeUpdate i s _).awPending = _
  rw [(writeUpdate_frame i s _).awPending, takeUpdate, backgroundUpdate_eq]

theorem step_wPending :
    (step i s).wPending = ((s.wPending || wTake i s) && !writeFire i s) := by
  rw [step_eq hi, readUpdate_eq]
  change (writeUpdate i s _).wPending = _
  rw [(writeUpdate_frame i s _).wPending, takeUpdate, backgroundUpdate_eq]

theorem step_awaddrHold :
    (step i s).awaddrHold = if awTake i s then i.sAxiAwaddr else s.awaddrHold := by
  rw [step_eq hi, readUpdate_eq]
  change (writeUpdate i s _).awaddrHold = _
  rw [(writeUpdate_frame i s _).awaddrHold, takeUpdate, backgroundUpdate_eq]

theorem step_wdataHold :
    (step i s).wdataHold = if wTake i s then i.sAxiWdata else s.wdataHold := by
  rw [step_eq hi, readUpdate_eq]
  change (writeUpdate i s _).wdataHold = _
  rw [(writeUpdate_frame i s _).wdataHold, takeUpdate, backgroundUpdate_eq]

/-! ### The read channel -/

theorem step_sAxiRvalid :
    (step i s).sAxiRvalid = (s.sAxiRvalid && !i.sAxiRready || readFire i s) := by
  rw [step_eq hi, readUpdate_eq]
  change (readFire i s || ((writeUpdate i s _).sAxiRvalid && _)) = _
  rw [(writeUpdate_frame i s _).sAxiRvalid, takeUpdate, backgroundUpdate_eq]
  cases s.sAxiRvalid <;> simp [Bool.or_comm]

theorem step_sAxiRdata :
    (step i s).sAxiRdata = if readFire i s then readRegister i s i.sAxiAraddr else s.sAxiRdata := by
  rw [step_eq hi, readUpdate_eq]
  change (if readFire i s then _ else (writeUpdate i s _).sAxiRdata) = _
  rw [(writeUpdate_frame i s _).sAxiRdata, takeUpdate, backgroundUpdate_eq]

/-! ### The mailbox -/

/-- The command hold: a write fills it if it was empty, a handover to the engine empties it. -/
theorem step_dapCommand :
    ((step i s).dapCommandData, (step i s).dapCommandLast, (step i s).dapCommandValid) =
      if commandWrite i s = true ∧ s.dapCommandValid = false then
        (UInt8.ofBitVec ((writeData i s).extractLsb' 0 8), (writeData i s).getLsbD 8, true)
      else (s.dapCommandData, s.dapCommandLast, s.dapCommandValid && !i.dapCommandReady) := by
  have hback : (backgroundUpdate i s s).dapCommandValid =
      (s.dapCommandValid && !i.dapCommandReady) := by
    rw [backgroundUpdate_eq]
    cases s.dapCommandValid <;> simp
  have hhold : (backgroundUpdate i s s).dapCommandData = s.dapCommandData ∧
      (backgroundUpdate i s s).dapCommandLast = s.dapCommandLast := by
    rw [backgroundUpdate_eq]
    exact ⟨rfl, rfl⟩
  rw [step_eq hi, readUpdate_eq, writeUpdate_eq, commandWrite, ← hhold.1, ← hhold.2, ← hback]
  cases writeFire i s
  · simp [takeUpdate, hhold.1, hhold.2]
  · have := writeRegister_dapCommand s (takeUpdate i s (backgroundUpdate i s s))
      (writeAddress i s) (writeData i s)
    simpa [takeUpdate] using this

/-- The response hold takes a byte whenever it is empty. -/
theorem step_dapResponseHold :
    ((step i s).dapResponseHold, (step i s).dapResponseHoldLast) =
      if i.dapResponseValid && dapResponseReady s then (i.dapResponseData, i.dapResponseLast)
      else (s.dapResponseHold, s.dapResponseHoldLast) := by
  rw [step_eq hi, readUpdate_eq]
  change ((writeUpdate i s _).dapResponseHold, (writeUpdate i s _).dapResponseHoldLast) = _
  rw [(writeUpdate_frame i s _).dapResponseHold, (writeUpdate_frame i s _).dapResponseHoldLast,
    takeUpdate, backgroundUpdate_eq]
  cases i.dapResponseValid && dapResponseReady s <;> rfl

/-- Reading `DAP_RESPONSE` empties the hold, even in the cycle in which it is filled. -/
theorem step_dapResponseHoldValid :
    (step i s).dapResponseHoldValid =
      ((s.dapResponseHoldValid || i.dapResponseValid) && !responseRead i s) := by
  rw [step_eq hi, readUpdate_eq]
  change ((writeUpdate i s _).dapResponseHoldValid && !responseRead i s) = _
  rw [(writeUpdate_frame i s _).dapResponseHoldValid, takeUpdate, backgroundUpdate_eq]
  cases hv : s.dapResponseHoldValid <;> simp [dapResponseReady, hv]

end

end AxiRegs
