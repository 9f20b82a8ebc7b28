import Zub1cg.Rtl.AxiRegs.Mailbox

/-!
# Register writes over whole schedules

The two write channels are taken independently, and each of them holds at most one item that
has not met its partner. A write is decoded at the edge at which the second of its two
halves is taken, and blocks both channels until its response has been taken.

## Main definitions

- `addressTaken`, `dataTaken`, `decoded`, `responded` — what happens on the write channels
- `Configuration` — the registers that only writes change

## Main results

- `step_pulses`, `step_configuration` — what a decoded write does
- `Paired.step` — one edge of the write channels
- `writes_exactly_once` — all writes of a schedule
-/

namespace AxiRegs

/-- `s_axi_bresp` -/
def sAxiBresp : BitVec 2 := 0

/-- The address accepted at this edge. -/
def addressTaken (i : Input) (s : State) : List (BitVec 16) :=
  if awTake i s then [i.sAxiAwaddr] else []

/-- The data word accepted at this edge. -/
def dataTaken (i : Input) (s : State) : List (BitVec 32) :=
  if wTake i s then [i.sAxiWdata] else []

/-- The write that is decoded at this edge. -/
def decoded (i : Input) (s : State) : List (BitVec 16 × BitVec 32) :=
  if writeFire i s then [(writeAddress i s, writeData i s)] else []

/-- The response taken at this edge. -/
def responded (i : Input) (s : State) : List (BitVec 2) :=
  if s.sAxiBvalid && i.sAxiBready then [sAxiBresp] else []

/-- A write to `CONTROL` is decoded at this edge. -/
def controlWrite (i : Input) (s : State) : Bool :=
  writeFire i s && writeAddress i s == Regs.CONTROL

/-- `start_pulse`, `stop_pulse` and `reset_pulse` -/
def pulses (s : State) : Bool × Bool × Bool := (s.startPulse, s.stopPulse, s.resetPulse)

/-- The pulses that a word written to `CONTROL` selects. -/
def selected (data : BitVec 32) : Bool × Bool × Bool :=
  (data.getLsbD 0, data.getLsbD 1, data.getLsbD 2)

/-! ### The configuration -/

/-- The registers that hold what has been written to them. -/
structure Configuration where
  sourceSelect : BitVec 2
  traceFormat : BitVec 3
  swoBaud : BitVec 32
  dmaBase : BitVec 64
  dmaRingSize : BitVec 32
  irqEnable : BitVec 3
  dapForceWait : Bool
  dapForceFault : Bool
  dapForceParityError : Bool
  m3Release : Bool
  m3DapReal : Bool

def configuration (s : State) : Configuration where
  sourceSelect := s.sourceSelect
  traceFormat := s.traceFormat
  swoBaud := s.swoBaud
  dmaBase := s.dmaBase
  dmaRingSize := s.dmaRingSize
  irqEnable := s.irqEnable
  dapForceWait := s.dapForceWait
  dapForceFault := s.dapForceFault
  dapForceParityError := s.dapForceParityError
  m3Release := s.m3Release
  m3DapReal := s.m3DapReal

/-- What one write makes of the configuration. -/
def Configuration.write (c : Configuration) (access : BitVec 16 × BitVec 32) : Configuration :=
  let (address, data) := access
  if address = Regs.SOURCE_FORMAT then
    { c with sourceSelect := data.extractLsb' 0 2, traceFormat := data.extractLsb' 8 3 }
  else if address = Regs.SWO_BAUD then { c with swoBaud := data }
  else if address = Regs.DMA_BASE_LO then
    { c with dmaBase := c.dmaBase.extractLsb' 32 32 ++ data }
  else if address = Regs.DMA_BASE_HI then
    { c with dmaBase := data ++ c.dmaBase.extractLsb' 0 32 }
  else if address = Regs.DMA_RING_SIZE then { c with dmaRingSize := data }
  else if address = Regs.IRQ_ENABLE then { c with irqEnable := data.extractLsb' 0 3 }
  else if address = Regs.DAP_CONTROL then
    { c with
      dapForceWait := data.getLsbD 0
      dapForceFault := data.getLsbD 1
      dapForceParityError := data.getLsbD 2 }
  else if address = Regs.M3_CONTROL then
    { c with m3Release := data.getLsbD 0, m3DapReal := data.getLsbD 1 }
  else c

theorem writeRegister_configuration {s n : State} (h : n.dmaBase = s.dmaBase)
    (address : BitVec 16) (data : BitVec 32) :
    configuration (writeRegister s n address data) =
      (configuration n).write (address, data) := by
  -- three addresses are those of no such register
  by_cases hcontrol : address = Regs.CONTROL
  · subst hcontrol
    rfl
  by_cases hstatus : address = Regs.IRQ_STATUS
  · subst hstatus
    rfl
  by_cases hcommand : address = Regs.DAP_COMMAND
  · subst hcommand
    rw [writeRegister]
    cases s.dapCommandValid <;> rfl
  simp only [writeRegister, hcontrol, hstatus, hcommand, if_false, apply_ite configuration, ← h]
  rfl

theorem writeRegister_pulses (s n : State) (address : BitVec 16) (data : BitVec 32) :
    pulses (writeRegister s n address data) =
      if address = Regs.CONTROL then selected data else pulses n := by
  by_cases hcontrol : address = Regs.CONTROL
  · rw [writeRegister, if_pos hcontrol, if_pos hcontrol]
    rfl
  · rw [if_neg hcontrol]
    simp only [pulses, writeRegister, hcontrol, if_false, ite_self, apply_ite State.startPulse,
      apply_ite State.stopPulse, apply_ite State.resetPulse]

section

variable {i : Input} (hi : i.aresetn = true) (s : State)

include hi

/-- A pulse lasts until the next edge and comes from a write to `CONTROL`. -/
theorem step_pulses :
    pulses (step i s) =
      if controlWrite i s then selected (writeData i s) else (false, false, false) := by
  have hlow (n : State) : pulses (takeUpdate i s (backgroundUpdate i s n)) =
      (false, false, false) := by
    rw [backgroundUpdate_eq]
    rfl
  rw [step_eq hi, readUpdate_eq]
  change pulses (writeUpdate i s _) = _
  rw [writeUpdate_eq, controlWrite]
  cases writeFire i s with
  | false => exact hlow s
  | true =>
    rw [if_pos rfl, writeRegister_pulses, hlow, Bool.true_and]
    simp only [beq_iff_eq]

/-- The configuration changes by the write that is decoded. -/
theorem step_configuration :
    configuration (step i s) = (decoded i s).foldl Configuration.write (configuration s) := by
  have hsame : configuration (takeUpdate i s (backgroundUpdate i s s)) = configuration s ∧
      (takeUpdate i s (backgroundUpdate i s s)).dmaBase = s.dmaBase := by
    rw [backgroundUpdate_eq]
    exact ⟨rfl, rfl⟩
  rw [step_eq hi, readUpdate_eq]
  change configuration (writeUpdate i s _) = _
  rw [writeUpdate_eq, decoded]
  cases writeFire i s with
  | false => exact hsame.1
  | true =>
    rw [if_pos rfl, writeRegister_configuration hsame.2, hsame.1]
    rfl

end

/-! ### Pairing -/

/-- The address that waits for its data. -/
def heldAddress (s : State) : List (BitVec 16) := if s.awPending then [s.awaddrHold] else []

/-- The data word that waits for its address. -/
def heldData (s : State) : List (BitVec 32) := if s.wPending then [s.wdataHold] else []

theorem writeFire_iff (i : Input) (s : State) :
    writeFire i s = true ↔ (s.awPending = true ∨ awTake i s = true) ∧
      (s.wPending = true ∨ wTake i s = true) ∧ s.sAxiBvalid = false := by
  rw [writeFire]
  simp only [Bool.and_eq_true, Bool.or_eq_true, Bool.not_eq_true', and_assoc]

/-- A channel takes an item only where it holds none, and keeps the last one until it is used. -/
theorem hold_step {α : Type} {pending take fire : Bool} (hold new : α)
    (htake : pending = true → take = false) (hfire : fire = true → (pending || take) = true) :
    (if pending then [hold] else []) ++ (if take then [new] else []) =
      (if fire then [if pending then hold else new] else []) ++
        if (pending || take) && !fire then [if take then new else hold] else [] := by
  cases pending with
  | true =>
    rw [htake rfl]
    cases fire <;> rfl
  | false =>
    cases take with
    | true => cases fire <;> rfl
    | false =>
      cases fire with
      | false => rfl
      | true => exact absurd (hfire rfl) Bool.false_ne_true

section

variable {i : Input} (hi : i.aresetn = true) (s : State)

include hi

/-- An address that is taken is held until it is decoded. -/
theorem step_heldAddress :
    heldAddress s ++ addressTaken i s =
      (decoded i s).map Prod.fst ++ heldAddress (step i s) := by
  have htake (hpending : s.awPending = true) : awTake i s = false := by
    rw [awTake, awready, hpending, Bool.not_true, Bool.false_and, Bool.and_false]
  have hfire (hfires : writeFire i s = true) : (s.awPending || awTake i s) = true := by
    rw [Bool.or_eq_true]
    exact ((writeFire_iff i s).mp hfires).1
  have hheld := hold_step s.awaddrHold i.sAxiAwaddr htake hfire
  rw [← step_awPending hi, ← step_awaddrHold hi] at hheld
  rw [heldAddress, heldAddress, addressTaken, hheld, decoded, apply_ite (List.map Prod.fst)]
  rfl

/-- So is a data word. -/
theorem step_heldData :
    heldData s ++ dataTaken i s = (decoded i s).map Prod.snd ++ heldData (step i s) := by
  have htake (hpending : s.wPending = true) : wTake i s = false := by
    rw [wTake, wready, hpending, Bool.not_true, Bool.false_and, Bool.and_false]
  have hfire (hfires : writeFire i s = true) : (s.wPending || wTake i s) = true := by
    rw [Bool.or_eq_true]
    exact ((writeFire_iff i s).mp hfires).2.1
  have hheld := hold_step s.wdataHold i.sAxiWdata htake hfire
  rw [← step_wPending hi, ← step_wdataHold hi] at hheld
  rw [heldData, heldData, dataTaken, hheld, decoded, apply_ite (List.map Prod.snd)]
  rfl

/-- The two halves of a write do not wait for each other. -/
theorem step_unpaired (h : s.awPending = false ∨ s.wPending = false) :
    (step i s).awPending = false ∨ (step i s).wPending = false := by
  rw [step_awPending hi, step_wPending hi]
  cases hvalid : s.sAxiBvalid with
  | true =>
    -- a response is due: nothing is taken
    have haw : awTake i s = false := by
      rw [awTake, awready, hvalid, Bool.not_true, Bool.and_false, Bool.and_false]
    have hw : wTake i s = false := by
      rw [wTake, wready, hvalid, Bool.not_true, Bool.and_false, Bool.and_false]
    obtain hnone | hnone := h
    · left
      rw [hnone, haw]
      rfl
    · right
      rw [hnone, hw]
      rfl
  | false =>
    -- what has both halves is decoded
    rw [writeFire, hvalid]
    cases s.awPending || awTake i s <;> cases s.wPending || wTake i s <;> simp

/-- Each response belongs to one decoded write. -/
theorem step_responses :
    (responded i s).length + (step i s).sAxiBvalid.toNat =
      s.sAxiBvalid.toNat + (decoded i s).length := by
  rw [step_sAxiBvalid hi, responded, decoded]
  cases hvalid : s.sAxiBvalid with
  | true =>
    have hfire : writeFire i s = false := by
      rw [writeFire, hvalid, Bool.not_true, Bool.and_false]
    rw [hfire]
    cases i.sAxiBready <;> rfl
  | false => cases writeFire i s <;> rfl

end

/-- What has been taken on the two channels, what has been decoded, and what is held. -/
structure Paired (addresses : List (BitVec 16)) (words : List (BitVec 32))
    (writes : List (BitVec 16 × BitVec 32)) (responses : List (BitVec 2)) (s : State) : Prop where
  addresses_eq : addresses = writes.map Prod.fst ++ heldAddress s
  words_eq : words = writes.map Prod.snd ++ heldData s
  unpaired : s.awPending = false ∨ s.wPending = false
  answered : responses.length + s.sAxiBvalid.toNat = writes.length

section

variable {addresses : List (BitVec 16)} {words : List (BitVec 32)}
  {writes : List (BitVec 16 × BitVec 32)} {responses : List (BitVec 2)} {s : State}

/-- What one edge preserves. -/
theorem Paired.step (h : Paired addresses words writes responses s) {i : Input}
    (hi : i.aresetn = true) :
    Paired (addresses ++ addressTaken i s) (words ++ dataTaken i s) (writes ++ decoded i s)
      (responses ++ responded i s) (AxiRegs.step i s) where
  addresses_eq := by
    rw [h.addresses_eq, List.append_assoc, step_heldAddress hi, ← List.append_assoc,
      ← List.map_append]
  words_eq := by
    rw [h.words_eq, List.append_assoc, step_heldData hi, ← List.append_assoc, ← List.map_append]
  unpaired := step_unpaired hi s h.unpaired
  answered := by
    have hanswered := h.answered
    have hstep := step_responses hi s
    rw [List.length_append, List.length_append]
    omega

/-- The writes are the pairs of what has been taken. -/
theorem Paired.zip (h : Paired addresses words writes responses s) :
    writes = addresses.zip words := by
  have hlength : (writes.map Prod.fst).length = (writes.map Prod.snd).length := by
    rw [List.length_map, List.length_map]
  have hheld : (heldAddress s).zip (heldData s) = [] := by
    obtain hnone | hnone := h.unpaired
    · rw [heldAddress, hnone]
      rfl
    · rw [heldData, hnone]
      exact List.zip_nil_right
  rw [h.addresses_eq, h.words_eq, List.zip_append hlength, hheld, List.append_nil]
  exact List.zip_of_prod rfl rfl

end

/-! ### Whole schedules -/

section

variable {inp : ℕ → Input} (hreset : ∀ t, (inp t).aresetn = true) (t : ℕ)

include hreset

theorem paired_run :
    Paired ((run resetState inp).record addressTaken t) ((run resetState inp).record dataTaken t)
      ((run resetState inp).record decoded t) ((run resetState inp).record responded t)
      ((run resetState inp).state t) := by
  induction t with
  | zero => exact ⟨rfl, rfl, .inl rfl, rfl⟩
  | succ t ih => exact ih.step (hreset t)

theorem configuration_run :
    configuration ((run resetState inp).state t) =
      ((run resetState inp).record decoded t).foldl Configuration.write
        (configuration resetState) := by
  induction t with
  | zero => rfl
  | succ t ih =>
    rw [Clocked.Run.record_succ, List.foldl_append, ← ih]
    exact step_configuration (hreset t) _

/-- Where a write is decoded, none was at the edge before. -/
theorem pulses_before (hfire : writeFire (inp t) ((run resetState inp).state t) = true) :
    pulses ((run resetState inp).state t) = (false, false, false) := by
  cases t with
  | zero => rfl
  | succ t =>
    have hidle := ((writeFire_iff _ _).mp hfire).2.2
    change (step (inp t) _).sAxiBvalid = false at hidle
    rw [step_sAxiBvalid (hreset t), Bool.or_eq_false_iff] at hidle
    change pulses (step (inp t) _) = _
    rw [step_pulses (hreset t), controlWrite, hidle.2]
    rfl

/-- Nor is there one at the edge behind. -/
theorem pulses_behind (hfire : writeFire (inp t) ((run resetState inp).state t) = true) :
    pulses ((run resetState inp).state (t + 2)) = (false, false, false) := by
  have hvalid : ((run resetState inp).state (t + 1)).sAxiBvalid = true := by
    change (step (inp t) _).sAxiBvalid = true
    rw [step_sAxiBvalid (hreset t), hfire, Bool.or_true]
  change pulses (step (inp (t + 1)) _) = _
  rw [step_pulses (hreset (t + 1)), controlWrite, writeFire, hvalid, Bool.not_true, Bool.and_false]
  rfl

end

/-- **Every write takes effect once.** From a reset on, for every schedule of the three write
channels: the writes that are decoded are, in order, the pairs of the addresses and the data words
that have been accepted, and at most one address or one word has not met its partner; each
has had one response or is still offered it, and the offer stays until it is taken; a write to
`CONTROL` raises the pulses it selects, and no others, for one cycle; and the configuration
is what the writes, applied in order to the one after reset, make of it. -/
theorem writes_exactly_once {inp : ℕ → Input} (hreset : ∀ t, (inp t).aresetn = true) (t : ℕ) :
    let r := run resetState inp
    r.record decoded t = (r.record addressTaken t).zip (r.record dataTaken t) ∧
      (r.record addressTaken t).length =
        (r.record decoded t).length + (r.state t).awPending.toNat ∧
      (r.record dataTaken t).length = (r.record decoded t).length + (r.state t).wPending.toNat ∧
      ((r.state t).awPending = false ∨ (r.state t).wPending = false) ∧
      (r.record responded t).length + (r.state t).sAxiBvalid.toNat =
        (r.record decoded t).length ∧
      ((r.state t).sAxiBvalid = true → (inp t).sAxiBready = false →
        (r.state (t + 1)).sAxiBvalid = true) ∧
      pulses (r.state (t + 1)) = (if controlWrite (inp t) (r.state t) then
        selected (writeData (inp t) (r.state t)) else (false, false, false)) ∧
      (writeFire (inp t) (r.state t) = true → pulses (r.state t) = (false, false, false) ∧
        pulses (r.state (t + 2)) = (false, false, false)) ∧
      configuration (r.state t) =
        (r.record decoded t).foldl Configuration.write (configuration resetState) := by
  intro r
  have hpaired := paired_run hreset t
  refine ⟨hpaired.zip, ?_, ?_, hpaired.unpaired, hpaired.answered, ?_, step_pulses (hreset t) _,
    fun hfire => ⟨pulses_before hreset t hfire, pulses_behind hreset t hfire⟩,
    configuration_run hreset t⟩
  · rw [hpaired.addresses_eq, List.length_append, List.length_map, heldAddress]
    cases (r.state t).awPending <;> rfl
  · rw [hpaired.words_eq, List.length_append, List.length_map, heldData]
    cases (r.state t).wPending <;> rfl
  · intro hvalid hready
    change (step (inp t) _).sAxiBvalid = true
    rw [step_sAxiBvalid (hreset t), hvalid, hready]
    rfl

/-- The data word of a write to `CONTROL` comes two cycles before its address. -/
def dataFirst (t : ℕ) : Input :=
  { Input.idle with
    sAxiWvalid := t == 0
    sAxiWdata := 5
    sAxiAwvalid := t == 2
    sAxiAwaddr := Regs.CONTROL }

theorem writes_exactly_once_data_first :
    (run resetState dataFirst).record decoded 3 = [(Regs.CONTROL, 5)] ∧
      ((run resetState dataFirst).record addressTaken 3).zip
        ((run resetState dataFirst).record dataTaken 3) = [(Regs.CONTROL, 5)] ∧
      pulses ((run resetState dataFirst).state 3) = (true, false, true) := by
  obtain ⟨hzip, -⟩ := @writes_exactly_once dataFirst (fun _ => rfl) 3
  have hdecoded : (run resetState dataFirst).record decoded 3 = [(Regs.CONTROL, 5)] := by decide
  exact ⟨hdecoded, hzip.symm.trans hdecoded, by decide⟩

end AxiRegs
