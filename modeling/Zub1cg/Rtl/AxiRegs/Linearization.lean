import Zub1cg.Library.Sequential
import Zub1cg.Rtl.AxiRegs.Writes

/-!
# Reads and writes in one order

The read channel and the three write channels run beside each other. Still each access takes effect
at one edge: a read where its address is accepted, a write where it is decoded, and of two at the
same edge the read comes first, since it sees the registers before the edge. In this order the
accesses are those of a plain register file, as far as it is only written from the bus.

## Main definitions

- `Access` — a read with the word it returns, or a write
- `Configuration.read`, `registerFile` — the plain register file
- `accesses` — what takes effect at one edge

## Main results

- `readRegister_configuration` — what a register returns that the hardware does not change
- `step_read` — one edge of the read channel
- `accesses_linearizable` — all accesses of a schedule
-/

namespace AxiRegs

inductive Access where
  | read (address : BitVec 16) (word : BitVec 32)
  | write (address : BitVec 16) (data : BitVec 32)
deriving DecidableEq

/-- The address and the word of a read. -/
def Access.read? : Access → Option (BitVec 16 × BitVec 32)
  | .read address word => some (address, word)
  | .write _ _ => none

/-- The address and the data word of a write. -/
def Access.write? : Access → Option (BitVec 16 × BitVec 32)
  | .read _ _ => none
  | .write address data => some (address, data)

/-! ### The register file -/

/-- The registers in which the hardware has a hand. -/
def hardwareRegisters : List (BitVec 16) :=
  [Regs.IRQ_STATUS, Regs.RX_BYTES_LO, Regs.RX_BYTES_HI, Regs.DROP_BYTES_LO, Regs.DROP_BYTES_HI,
    Regs.SYNC_LOSS_LO, Regs.SYNC_LOSS_HI, Regs.FIFO_HIGH_WATER, Regs.DMA_FAULTS_LO,
    Regs.DMA_FAULTS_HI, Regs.DAP_RESPONSE, Regs.DAP_STATUS, Regs.DAP_TRANSFERS_LO,
    Regs.DAP_TRANSFERS_HI, Regs.DAP_ABORTS]

/-- The word that the configuration has at an address. -/
def Configuration.read (c : Configuration) (address : BitVec 16) : BitVec 32 :=
  if address = Regs.ID then 0x4f524254
  else if address = Regs.VERSION then 0x00010000
  else if address = Regs.SOURCE_FORMAT then 0#21 ++ c.traceFormat ++ 0#6 ++ c.sourceSelect
  else if address = Regs.SWO_BAUD then c.swoBaud
  else if address = Regs.DMA_BASE_LO then c.dmaBase.extractLsb' 0 32
  else if address = Regs.DMA_BASE_HI then c.dmaBase.extractLsb' 32 32
  else if address = Regs.DMA_RING_SIZE then c.dmaRingSize
  else if address = Regs.IRQ_ENABLE then 0#29 ++ c.irqEnable
  else if address = Regs.DAP_CONTROL then
    0#29 ++ BitVec.ofBool c.dapForceParityError ++ BitVec.ofBool c.dapForceFault ++
      BitVec.ofBool c.dapForceWait
  else if address = Regs.M3_CONTROL then
    0#30 ++ BitVec.ofBool c.m3DapReal ++ BitVec.ofBool c.m3Release
  else 0

/-- A register file that nothing but the bus writes; what the hardware has a hand in can return
any word. -/
def registerFile : Sequential.Object Configuration Access where
  Possible c
    | .read address word => address ∉ hardwareRegisters → word = c.read address
    | .write _ _ => True
  next c
    | .read _ _ => c
    | .write address data => c.write (address, data)

theorem readRegister_configuration (i : Input) (s : State) {address : BitVec 16}
    (h : address ∉ hardwareRegisters) :
    readRegister i s address = (configuration s).read address := by
  simp only [hardwareRegisters, List.mem_cons, List.not_mem_nil, or_false, not_or] at h
  obtain ⟨hstatus, hrxLo, hrxHi, hdropLo, hdropHi, hsyncLo, hsyncHi, hwater, hfaultsLo, hfaultsHi,
    hresponse, hdap, htransfersLo, htransfersHi, haborts⟩ := h
  rw [readRegister, if_neg hstatus, if_neg hrxLo, if_neg hrxHi, if_neg hdropLo, if_neg hdropHi,
    if_neg hsyncLo, if_neg hsyncHi, if_neg hwater, if_neg hfaultsLo, if_neg hfaultsHi,
    if_neg hresponse, if_neg hdap, if_neg htransfersLo, if_neg htransfersHi, if_neg haborts]
  rfl

/-! ### One edge -/

/-- The read address accepted at this edge. -/
def readAddressTaken (i : Input) (s : State) : List (BitVec 16) :=
  if readFire i s then [i.sAxiAraddr] else []

/-- The word taken on the read data channel at this edge. -/
def wordTaken (i : Input) (s : State) : List (BitVec 32) :=
  if s.sAxiRvalid && i.sAxiRready then [s.sAxiRdata] else []

/-- The word on the read data channel. -/
def offeredWord (s : State) : List (BitVec 32) := if s.sAxiRvalid then [s.sAxiRdata] else []

/-- The read that is sampled at this edge. -/
def sampled (i : Input) (s : State) : List (BitVec 16 × BitVec 32) :=
  if readFire i s then [(i.sAxiAraddr, readRegister i s i.sAxiAraddr)] else []

/-- What takes effect at this edge, a read before a write. -/
def accesses (i : Input) (s : State) : List Access :=
  (sampled i s).map (fun a => .read a.1 a.2) ++ (decoded i s).map fun a => .write a.1 a.2

theorem reads_accesses (i : Input) (s : State) :
    (accesses i s).filterMap Access.read? = sampled i s := by
  have hreads : Access.read? ∘ (fun a : BitVec 16 × BitVec 32 => .read a.1 a.2) = some := rfl
  have hwrites : Access.read? ∘ (fun a : BitVec 16 × BitVec 32 => .write a.1 a.2) =
      fun _ => none := rfl
  rw [accesses, List.filterMap_append, List.filterMap_map, List.filterMap_map, hreads, hwrites,
    List.filterMap_some, List.filterMap_none, List.append_nil]

theorem writes_accesses (i : Input) (s : State) :
    (accesses i s).filterMap Access.write? = decoded i s := by
  have hreads : Access.write? ∘ (fun a : BitVec 16 × BitVec 32 => .read a.1 a.2) =
      fun _ => none := rfl
  have hwrites : Access.write? ∘ (fun a : BitVec 16 × BitVec 32 => .write a.1 a.2) = some := rfl
  rw [accesses, List.filterMap_append, List.filterMap_map, List.filterMap_map, hreads, hwrites,
    List.filterMap_some, List.filterMap_none, List.nil_append]

theorem addresses_sampled (i : Input) (s : State) :
    (sampled i s).map Prod.fst = readAddressTaken i s := by
  rw [sampled, readAddressTaken]
  cases readFire i s <;> rfl

section

variable {i : Input} (hi : i.aresetn = true) (s : State)

include hi

/-- A word that is sampled is offered until it is taken. -/
theorem step_read :
    offeredWord s ++ (sampled i s).map Prod.snd = wordTaken i s ++ offeredWord (step i s) := by
  rw [offeredWord, offeredWord, sampled, wordTaken, step_sAxiRvalid hi, step_sAxiRdata hi]
  cases hvalid : s.sAxiRvalid with
  | true =>
    -- no address is accepted while a word is offered
    have hfire : readFire i s = false := by
      rw [readFire, arready, hvalid, Bool.not_true, Bool.and_false]
    rw [hfire]
    cases i.sAxiRready <;> rfl
  | false => cases readFire i s <;> rfl

/-- The accesses of one edge are those of the register file. -/
theorem step_accesses :
    registerFile.Legal (configuration s) (accesses i s) ∧
      configuration (step i s) = registerFile.after (configuration s) (accesses i s) := by
  have hread : registerFile.Legal (configuration s)
      ((sampled i s).map fun a => .read a.1 a.2) ∧
      registerFile.after (configuration s) ((sampled i s).map fun a => .read a.1 a.2) =
        configuration s := by
    rw [sampled]
    cases readFire i s with
    | false => exact ⟨trivial, rfl⟩
    | true => exact ⟨⟨fun h => readRegister_configuration i s h, trivial⟩, rfl⟩
  have hwrite : registerFile.Legal (configuration s) ((decoded i s).map fun a => .write a.1 a.2) ∧
      registerFile.after (configuration s) ((decoded i s).map fun a => .write a.1 a.2) =
        (decoded i s).foldl Configuration.write (configuration s) := by
    rw [decoded]
    cases writeFire i s with
    | false => exact ⟨trivial, rfl⟩
    | true => exact ⟨⟨trivial, trivial⟩, rfl⟩
  rw [accesses, registerFile.legal_append, registerFile.after_append, hread.2, hwrite.2]
  exact ⟨⟨hread.1, hwrite.1⟩, step_configuration hi s⟩

end

/-! ### Whole schedules -/

section

variable (r : Clocked.Run Input State) (t : ℕ)

theorem record_reads :
    (r.record accesses t).filterMap Access.read? = r.record sampled t := by
  induction t with
  | zero => rfl
  | succ t ih =>
    rw [Clocked.Run.record_succ, Clocked.Run.record_succ, List.filterMap_append, ih,
      reads_accesses]

theorem record_writes :
    (r.record accesses t).filterMap Access.write? = r.record decoded t := by
  induction t with
  | zero => rfl
  | succ t ih =>
    rw [Clocked.Run.record_succ, Clocked.Run.record_succ, List.filterMap_append, ih,
      writes_accesses]

theorem record_addresses :
    (r.record sampled t).map Prod.fst = r.record readAddressTaken t := by
  induction t with
  | zero => rfl
  | succ t ih =>
    rw [Clocked.Run.record_succ, Clocked.Run.record_succ, List.map_append, ih, addresses_sampled]

end

/-- The words that have been sampled have been taken in order, but for one that is offered. -/
theorem words_run {inp : ℕ → Input} (hreset : ∀ t, (inp t).aresetn = true) (t : ℕ) :
    ((run resetState inp).record sampled t).map Prod.snd =
      (run resetState inp).record wordTaken t ++ offeredWord ((run resetState inp).state t) := by
  induction t with
  | zero => rfl
  | succ t ih =>
    rw [Clocked.Run.record_succ, Clocked.Run.record_succ, List.map_append, ih, List.append_assoc,
      List.append_assoc]
    exact congrArg _ (step_read (hreset t) _)

/-- **Reads and writes are linearizable.** From a reset on, for every schedule of the five
channels, there is one order of accesses, and time only adds to it: its reads are the addresses
that have been accepted, with the words that have been taken or are offered; its writes are the
pairs of addresses and data words that have been accepted, each with a response that has been taken
or is offered; and a register file that does one access after the other returns these words
wherever the hardware has no hand in the register, and ends with the configuration that the block
has. -/
theorem accesses_linearizable {inp : ℕ → Input} (hreset : ∀ t, (inp t).aresetn = true) (t : ℕ) :
    let r := run resetState inp
    let history := r.record accesses t
    let reads := history.filterMap Access.read?
    let writes := history.filterMap Access.write?
    (∀ u, t ≤ u → history <+: r.record accesses u) ∧
      reads.map Prod.fst = r.record readAddressTaken t ∧
      reads.map Prod.snd = r.record wordTaken t ++ offeredWord (r.state t) ∧
      writes = (r.record addressTaken t).zip (r.record dataTaken t) ∧
      writes.length = (r.record responded t).length + (r.state t).sAxiBvalid.toNat ∧
      registerFile.Legal (configuration resetState) history ∧
      configuration (r.state t) = registerFile.after (configuration resetState) history := by
  intro r history reads writes
  have hreads : reads = r.record sampled t := record_reads r t
  have hwrites : writes = r.record decoded t := record_writes r t
  have hpaired := paired_run hreset t
  have hlegal := registerFile.legal_run r (fun t => step_accesses (hreset t) (r.state t)) t
  refine ⟨fun u hu => r.record_mono accesses hu, ?_, ?_, ?_, ?_, hlegal.1, hlegal.2⟩
  · rw [hreads, record_addresses]
  · rw [hreads]
    exact words_run hreset t
  · rw [hwrites]
    exact hpaired.zip
  · rw [hwrites]
    exact hpaired.answered.symm

/-- `SWO_BAUD` is read at the edge at which a write to it is decoded, and again afterwards. -/
def readBesideWrite (t : ℕ) : Input :=
  { Input.idle with
    sAxiWvalid := t == 2
    sAxiWdata := 115200
    sAxiAwvalid := t == 0
    sAxiAwaddr := Regs.SWO_BAUD
    sAxiArvalid := true
    sAxiAraddr := Regs.SWO_BAUD
    sAxiRready := true
    sAxiBready := true }

/-- The first two reads return the value after reset, the third one what has been written. -/
theorem accesses_linearizable_beside :
    (run resetState readBesideWrite).record accesses 5 =
        [.read Regs.SWO_BAUD 2000000, .read Regs.SWO_BAUD 2000000,
          .write Regs.SWO_BAUD 115200, .read Regs.SWO_BAUD 115200] ∧
      (run resetState readBesideWrite).record wordTaken 5 ++
        offeredWord ((run resetState readBesideWrite).state 5) = [2000000, 2000000, 115200] := by
  obtain ⟨-, -, hwords, -⟩ := @accesses_linearizable readBesideWrite (fun _ => rfl) 5
  have hhistory : (run resetState readBesideWrite).record accesses 5 =
      [.read Regs.SWO_BAUD 2000000, .read Regs.SWO_BAUD 2000000,
        .write Regs.SWO_BAUD 115200, .read Regs.SWO_BAUD 115200] := by decide
  rw [hhistory] at hwords
  exact ⟨hhistory, hwords.symm⟩

end AxiRegs
