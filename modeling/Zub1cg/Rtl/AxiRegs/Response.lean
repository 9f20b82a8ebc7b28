import Zub1cg.Rtl.AxiRegs.Mailbox

/-!
# DAP response bytes at the register interface

A response byte waits in the hold until a read of `DAP_RESPONSE` takes it. The read clears
the hold whether it found a byte there or not, and its clear is the later assignment of the
block: a read that finds the hold empty in the cycle in which a byte arrives throws this
byte away. Every other edge conserves the bytes, so `response_exact_iff` says which
schedules lose none.

## Main definitions

- `returnedWord` — the word a read puts on the bus
- `handedOver`, `returned`, `held` — the response bytes before, behind and in the hold

## Main results

- `step_conserves` — an edge without the coincidence loses no byte
- `response_exact_iff` — no byte is lost exactly when no read meets an arriving byte in an empty hold
-/

namespace AxiRegs

/-- The word on the read data channel after the edge that accepts the read. -/
def returnedWord (i : Input) (s : State) : BitVec 32 := (step i s).sAxiRdata

/-- The byte the engine hands over at this edge. -/
def handedOver (i : Input) (s : State) : List UInt8 :=
  if i.dapResponseValid && dapResponseReady s then [i.dapResponseData] else []

/-- The byte a read of `DAP_RESPONSE` returns with its valid bit set. -/
def returned (i : Input) (s : State) : List UInt8 :=
  if responseRead i s && (returnedWord i s).getLsbD 8 then
    [UInt8.ofBitVec ((returnedWord i s).extractLsb' 0 8)]
  else []

/-- The byte in the hold. -/
def held (s : State) : List UInt8 := if s.dapResponseHoldValid then [s.dapResponseHold] else []

/-- A byte arrives in the very cycle in which `DAP_RESPONSE` is read with the hold empty. -/
def earlyPoll (i : Input) (s : State) : Bool :=
  responseRead i s && !s.dapResponseHoldValid && i.dapResponseValid

/-! ### One edge -/

theorem readRegister_response (i : Input) (s : State) :
    (readRegister i s Regs.DAP_RESPONSE).getLsbD 8 = s.dapResponseHoldValid ∧
      UInt8.ofBitVec ((readRegister i s Regs.DAP_RESPONSE).extractLsb' 0 8) =
        s.dapResponseHold := by
  have hword : readRegister i s Regs.DAP_RESPONSE = 0#22 ++ BitVec.ofBool s.dapResponseHoldLast ++
      BitVec.ofBool s.dapResponseHoldValid ++ s.dapResponseHold.toBitVec := rfl
  rw [hword]
  constructor
  · refine (BitVec.getLsbD_append ..).trans ?_
    cases s.dapResponseHoldLast <;> cases s.dapResponseHoldValid <;> simp
  · apply UInt8.toBitVec_inj.mp
    ext k hk
    rw [UInt8.toBitVec_ofBitVec, BitVec.getElem_extractLsb', Nat.zero_add]
    refine (BitVec.getLsbD_append ..).trans ?_
    simp [hk]

section

variable {i : Input} (hi : i.aresetn = true) (s : State)

include hi

theorem returnedWord_response (hread : responseRead i s = true) :
    returnedWord i s = readRegister i s Regs.DAP_RESPONSE := by
  obtain ⟨hfire, haddr⟩ := Bool.and_eq_true_iff.mp hread
  rw [returnedWord, step_sAxiRdata hi, if_pos hfire, eq_of_beq haddr]

/-- A read returns the byte in the hold, if there is one. -/
theorem returned_eq : returned i s = if responseRead i s then held s else [] := by
  rw [returned, held]
  cases hread : responseRead i s
  · rfl
  · obtain ⟨hbit, hbyte⟩ := readRegister_response i s
    rw [returnedWord_response hi s hread, hbit, hbyte]
    rfl

/-- Without an early poll an edge loses no byte. -/
theorem step_conserves (hpoll : earlyPoll i s = false) :
    returned i s ++ held (step i s) = held s ++ handedOver i s := by
  have hhold := congrArg Prod.fst (step_dapResponseHold hi s)
  have hvalid := step_dapResponseHoldValid hi s
  simp only [apply_ite Prod.fst] at hhold
  rw [returned_eq hi]
  unfold held handedOver
  rw [hhold, hvalid]
  unfold earlyPoll at hpoll
  -- the hold is full: a read moves its byte out, nothing moves in;
  -- it is empty: nothing moves out, and no read disturbs what moves in
  cases hfull : s.dapResponseHoldValid <;> cases hread : responseRead i s <;>
    cases harrive : i.dapResponseValid <;>
    simp_all [dapResponseReady]

/-- An early poll returns nothing and leaves the hold empty although a byte was handed over. -/
theorem earlyPoll_loses (hpoll : earlyPoll i s = true) :
    (returnedWord i s).getLsbD 8 = false ∧ held s = [] ∧
      handedOver i s = [i.dapResponseData] ∧ held (step i s) = [] := by
  unfold earlyPoll at hpoll
  simp only [Bool.and_eq_true, Bool.not_eq_true'] at hpoll
  obtain ⟨⟨hread, hempty⟩, harrive⟩ := hpoll
  refine ⟨?_, ?_, ?_, ?_⟩
  · rw [returnedWord_response hi s hread, (readRegister_response i s).1, hempty]
  · simp [held, hempty]
  · simp [handedOver, dapResponseReady, harrive, hempty]
  · simp [held, step_dapResponseHoldValid hi, hread]

end

/-! ### Whole runs -/

/-- The bytes returned are always a prefix of the bytes handed over, and a read of
`DAP_RESPONSE` without the valid bit discards nothing: what was held or arrives is held
afterwards. -/
def ResponseExact (r : Clocked.Run Input State) : Prop :=
  ∀ t, r.record returned t <+: r.record handedOver t ∧
    (responseRead (r.input t) (r.state t) = true →
      (returnedWord (r.input t) (r.state t)).getLsbD 8 = false →
      held (r.state (t + 1)) = held (r.state t) ++ handedOver (r.input t) (r.state t))

/-- Without early polls the hold is all there is between the two sides. -/
theorem record_conserved (inp : ℕ → Input) (hreset : ∀ t, (inp t).aresetn = true)
    (hpoll : ∀ t, earlyPoll (inp t) ((run resetState inp).state t) = false) (t : ℕ) :
    (run resetState inp).record returned t ++ held ((run resetState inp).state t) =
      (run resetState inp).record handedOver t := by
  induction t with
  | zero => rfl
  | succ t ih =>
    rw [Clocked.Run.record_succ, Clocked.Run.record_succ, List.append_assoc, ← ih,
      List.append_assoc]
    congr 1
    exact step_conserves (hreset t) _ (hpoll t)

/-- **Which schedules lose a response byte.** From reset on, whatever else is read, written
or handed over, the register interface is exact if and only if no read of `DAP_RESPONSE` is
accepted in a cycle in which the hold is empty and the engine offers a byte. -/
theorem response_exact_iff (inp : ℕ → Input) (hreset : ∀ t, (inp t).aresetn = true) :
    ResponseExact (run resetState inp) ↔
      ∀ t, earlyPoll (inp t) ((run resetState inp).state t) = false := by
  constructor
  · intro hexact t
    by_contra hpoll
    obtain ⟨hbit, hheld, harrive, hafter⟩ :=
      earlyPoll_loses (hreset t) _ (Bool.eq_true_of_not_eq_false hpoll)
    have hread : responseRead (inp t) ((run resetState inp).state t) = true := by
      have := Bool.eq_true_of_not_eq_false hpoll
      unfold earlyPoll at this
      simp only [Bool.and_eq_true] at this
      exact this.1.1
    have hkept : held ((run resetState inp).state (t + 1)) =
        held ((run resetState inp).state t) ++
          handedOver (inp t) ((run resetState inp).state t) := (hexact t).2 hread hbit
    rw [hheld, harrive] at hkept
    exact List.cons_ne_nil _ _ (hkept.symm.trans hafter)
  · intro hpoll t
    refine ⟨⟨_, record_conserved inp hreset hpoll t⟩, ?_⟩
    intro hread hbit
    have hnone : returned (inp t) ((run resetState inp).state t) = [] := by
      change (if _ then _ else _) = _
      rw [if_neg]
      intro h
      simp only [Bool.and_eq_true] at h
      exact Bool.false_ne_true (hbit.symm.trans h.2)
    have hedge := step_conserves (hreset t) _ (hpoll t)
    rw [hnone, List.nil_append] at hedge
    exact hedge

/-- `DAP_RESPONSE` is read in cycle 0; the engine offers the byte 0x5a in that cycle and never
again. -/
def pollAtArrival (t : ℕ) : Input :=
  { Input.idle with
    sAxiArvalid := t == 0
    sAxiAraddr := Regs.DAP_RESPONSE
    dapResponseValid := t == 0
    dapResponseData := 0x5a }

/-- The read returns without a valid bit, the byte is taken from the engine, and the hold is
empty afterwards. -/
theorem poll_at_arrival_discards :
    (∀ t, (pollAtArrival t).aresetn = true) ∧
      responseRead (pollAtArrival 0) resetState = true ∧
      (returnedWord (pollAtArrival 0) resetState).getLsbD 8 = false ∧
      handedOver (pollAtArrival 0) resetState = [0x5a] ∧
      held (step (pollAtArrival 0) resetState) = [] ∧
      ¬ ResponseExact (run resetState pollAtArrival) := by
  refine ⟨fun _ => rfl, by decide, by decide, by decide, by decide, ?_⟩
  intro hexact
  exact absurd ((hexact 0).2 (by decide) (by decide)) (by decide)

/-- A byte arrives in cycle 0 and is read in cycle 2. -/
theorem response_exact_later_read :
    ResponseExact (run resetState fun t =>
      { Input.idle with
        dapResponseValid := t == 0
        sAxiArvalid := t == 2
        sAxiAraddr := Regs.DAP_RESPONSE }) := by
  refine (response_exact_iff _ fun _ => rfl).mpr ?_
  rintro (_ | t)
  · decide
  · change (_ && _ && (t + 1 == 0)) = false
    rw [show (t + 1 == 0) = false from rfl, Bool.and_false]

end AxiRegs
