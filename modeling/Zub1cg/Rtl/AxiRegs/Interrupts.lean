import Zub1cg.Rtl.AxiRegs
import Mathlib.Tactic.FinCases

/-!
# Interrupt events in the register block

An interrupt source sets its bit of `irq_status` with a bit assignment, a write to
`IRQ_STATUS` assigns the whole register from its old value. The write comes last in the
block, so in a cycle where both happen the new event is not recorded; a bit that was set
already survives unless the write clears it. `event_held_iff` says exactly which events
are held until they are acknowledged.
-/

namespace AxiRegs

/-- The three interrupt sources, in the order of their status bits. -/
def irqSource (i : Input) : Fin 3 → Bool
  | 0 => i.irqDmaComplete
  | 1 => i.irqOverrun
  | 2 => i.irqDebugComplete

/-- A write to `IRQ_STATUS` takes effect at this edge. -/
def statusWrite (i : Input) (s : State) : Bool :=
  writeFire i s && writeAddress i s == Regs.IRQ_STATUS

/-- A write to `IRQ_STATUS` with bit `k` of its data set takes effect at this edge. -/
def acknowledges (i : Input) (s : State) (k : Fin 3) : Bool :=
  statusWrite i s && (writeData i s).getLsbD k

/-! ### What one edge does to `irq_status` -/

/-- The interrupt sources as a mask over `irq_status`. -/
def irqEvents (i : Input) : BitVec 3 :=
  BitVec.ofBool i.irqDebugComplete ++ BitVec.ofBool i.irqOverrun ++ BitVec.ofBool i.irqDmaComplete

theorem irqEvents_getLsbD (i : Input) (k : Fin 3) :
    (irqEvents i).getLsbD k = irqSource i k := by
  rw [irqEvents]
  cases hd : i.irqDmaComplete <;> cases ho : i.irqOverrun <;> cases hg : i.irqDebugComplete <;>
    fin_cases k <;> simp [irqSource, hd, ho, hg]

theorem backgroundUpdate_irqStatus (i : Input) (s n : State) :
    (backgroundUpdate i s n).irqStatus = n.irqStatus ||| irqEvents i := by
  cases hd : i.irqDmaComplete <;> cases ho : i.irqOverrun <;> cases hg : i.irqDebugComplete <;>
    simp [backgroundUpdate, irqEvents, apply_ite State.irqStatus, hd, ho, hg, BitVec.or_assoc]

theorem writeUpdate_irqStatus (i : Input) (s n : State) :
    (writeUpdate i s n).irqStatus =
      if statusWrite i s then s.irqStatus &&& ~~~((writeData i s).extractLsb' 0 3)
      else n.irqStatus := by
  have htake : ∀ (b c : Bool) (m : State), (if b then
      { (if c then { m with awaddrHold := i.sAxiAwaddr, awPending := true } else m) with
        wdataHold := i.sAxiWdata, wstrbHold := i.sAxiWstrb, wPending := true }
      else (if c then { m with awaddrHold := i.sAxiAwaddr, awPending := true } else m)).irqStatus
      = m.irqStatus := by
    intro b c m
    cases b <;> cases c <;> rfl
  rw [writeUpdate, statusWrite]
  cases hfire : writeFire i s
  · simpa using htake (wTake i s) (awTake i s) n
  · simp only [if_true, Bool.true_and, beq_iff_eq, writeRegister, apply_ite State.irqStatus]
    by_cases haddr : writeAddress i s = Regs.IRQ_STATUS
    · simp [haddr, Regs.CONTROL, Regs.SOURCE_FORMAT, Regs.SWO_BAUD, Regs.DMA_BASE_LO,
        Regs.DMA_BASE_HI, Regs.DMA_RING_SIZE, Regs.IRQ_STATUS]
    · simp [haddr]

theorem readUpdate_irqStatus (i : Input) (s n : State) :
    (readUpdate i s n).irqStatus = n.irqStatus := by
  simp only [readUpdate, apply_ite State.irqStatus, ite_self]

/-- Bit `k` after an edge: an `IRQ_STATUS` write keeps the old bit unless it clears it, and
only without such a write does the source reach the bit. -/
theorem step_irqStatus {i : Input} (hi : i.aresetn = true) (s : State) (k : Fin 3) :
    (step i s).irqStatus.getLsbD k =
      if statusWrite i s then s.irqStatus.getLsbD k && !(writeData i s).getLsbD k
      else s.irqStatus.getLsbD k || irqSource i k := by
  simp only [step, hi, Bool.not_true, if_false, readUpdate_irqStatus, writeUpdate_irqStatus,
    backgroundUpdate_irqStatus, Bool.false_eq_true]
  split
  · fin_cases k <;> simp
  · rw [BitVec.getLsbD_or]
    rw [irqEvents_getLsbD]

/-! ### Whole runs -/

/-- The event of source `k` in cycle `t` is held: its status bit is set in every later
cycle up to and including the first one in which the bit is acknowledged. -/
def EventHeld (r : Clocked.Run Input State) (k : Fin 3) (t : ℕ) : Prop :=
  ∀ u, t < u → (∀ v, t < v → v < u → acknowledges (r.input v) (r.state v) k = false) →
    (r.state u).irqStatus.getLsbD k = true

/-- A status bit that is set stays set until it is acknowledged. -/
theorem bit_kept (r : Clocked.Run Input State) (hr : r.step = step)
    (hreset : ∀ t, (r.input t).aresetn = true) (k : Fin 3) {t n : ℕ}
    (hset : (r.state t).irqStatus.getLsbD k = true)
    (hquiet : ∀ v, t ≤ v → v < t + n → acknowledges (r.input v) (r.state v) k = false) :
    (r.state (t + n)).irqStatus.getLsbD k = true := by
  induction n with
  | zero => exact hset
  | succ n ih =>
    have hbit := ih fun v hv hvn => hquiet v hv (by omega)
    have hack := hquiet (t + n) (by omega) (by omega)
    rw [← Nat.add_assoc, Clocked.Run.state_succ, hr, step_irqStatus (hreset _), hbit]
    split
    · next hwrite => simpa [acknowledges, hwrite] using hack
    · rfl

/-- **Which interrupt events are lost.** In every run out of reset, an event of source `k`
in cycle `t` is held until it is acknowledged exactly when it does not coincide with an
`IRQ_STATUS` write, or the status bit was set already and that write leaves it set. -/
theorem event_held_iff (s : State) (inp : ℕ → Input) (hreset : ∀ t, (inp t).aresetn = true)
    (k : Fin 3) (t : ℕ) (hevent : irqSource (inp t) k = true) :
    EventHeld (run s inp) k t ↔
      ¬ (statusWrite (inp t) ((run s inp).state t) = true ∧
        (((run s inp).state t).irqStatus.getLsbD k = false ∨
          (writeData (inp t) ((run s inp).state t)).getLsbD k = true)) := by
  have hnext : ((run s inp).state (t + 1)).irqStatus.getLsbD k =
      if statusWrite (inp t) ((run s inp).state t) then
        ((run s inp).state t).irqStatus.getLsbD k &&
          !(writeData (inp t) ((run s inp).state t)).getLsbD k
      else true := by
    rw [Clocked.Run.state_succ]
    change (step (inp t) _).irqStatus.getLsbD k = _
    rw [step_irqStatus (hreset t), hevent, Bool.or_true]
  constructor
  · rintro hheld ⟨hwrite, hlost⟩
    -- nothing can be acknowledged between the event and the next cycle
    have hset := hheld (t + 1) (Nat.lt_succ_self t) (fun v hv hv' => by omega)
    rw [hnext, if_pos hwrite] at hset
    rcases hlost with h | h
    · rw [h, Bool.false_and] at hset
      exact Bool.false_ne_true hset
    · rw [h, Bool.not_true, Bool.and_false] at hset
      exact Bool.false_ne_true hset
  · intro hkept u hu hquiet
    have hset : ((run s inp).state (t + 1)).irqStatus.getLsbD k = true := by
      rw [hnext]
      split
      · next hwrite =>
        have hold := Bool.eq_true_of_not_eq_false fun h => hkept ⟨hwrite, .inl h⟩
        have hdata := Bool.eq_false_of_not_eq_true fun h => hkept ⟨hwrite, .inr h⟩
        rw [hold, hdata]
        rfl
      · rfl
    obtain ⟨n, rfl⟩ : ∃ n, u = t + 1 + n := ⟨u - (t + 1), by omega⟩
    exact bit_kept (run s inp) rfl hreset k hset fun v hv hvn => hquiet v (by omega) hvn

/-- In cycle 0 an overrun event and a write of zero to `IRQ_STATUS` coincide; afterwards
both the bus and the sources are silent. -/
def coincidence (t : ℕ) : Input :=
  { Input.idle with
    irqOverrun := t == 0
    sAxiAwvalid := t == 0
    sAxiAwaddr := Regs.IRQ_STATUS
    sAxiWvalid := t == 0
    sAxiWdata := 0 }

/-- The write acknowledges nothing, yet the event is gone one cycle later. -/
theorem coincident_event_lost :
    irqSource (coincidence 0) 1 = true ∧ (∀ t, (coincidence t).aresetn = true) ∧
      (∀ k, acknowledges (coincidence 0) resetState k = false) ∧
      ¬ EventHeld (run resetState coincidence) 1 0 := by
  refine ⟨rfl, fun _ => rfl, by decide, fun hheld => ?_⟩
  have hset := hheld 1 (by decide) (fun v hv hv' => by omega)
  exact absurd hset (by decide)

/-- The overrun event of cycle 0 meets no write and is held. -/
theorem event_held_quiet :
    EventHeld (run resetState fun t => { Input.idle with irqOverrun := t == 0 }) 1 0 :=
  (event_held_iff resetState (fun t => { Input.idle with irqOverrun := t == 0 })
    (fun _ => rfl) 1 0 rfl).mpr (by decide)

end AxiRegs
