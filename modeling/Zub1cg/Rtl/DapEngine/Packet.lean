import Zub1cg.Rtl.DapEngine

/-!
# When the packet engine takes and hands over bytes

In `CAPTURE` the engine counts the request bytes it takes; the byte marked last ends the
capture. From then on, whatever the request is, it takes no byte and comes back to
`CAPTURE` only by handing over the response byte marked last.

## Main results

- `step_byte`, `step_no_byte` — one edge in `CAPTURE`
- `step_capture` — what it does to the number of bytes
- `step_busy` — one edge in any other state
-/

namespace DapEngine

section

variable {i : Input} {s : State}

/-- What an edge out of reset does, by the state the engine is in. -/
def phaseUpdate (i : Input) (s n : State) : State :=
  match s.state with
  | .CAPTURE => captureUpdate i s n
  | .PREPARE => prepareUpdate i s n
  | .JTAG_SETUP => jtagSetupUpdate s n
  | .JTAG_HOLD => jtagHoldUpdate i s n
  | .FETCH_TRANSFER => { n with state := .BUILD_TRANSFER }
  | .BUILD_TRANSFER => buildTransferUpdate s n
  | .RESPOND => respondUpdate i s n

theorem step_released (hi : i.resetN = true) :
    step i s = phaseUpdate i s
      { s with requestReadData := s.requestMem s.requestReadAddress, debugComplete := false } := by
  rw [step, hi]
  rfl

theorem commandFire_capture (h : commandFire i s = true) : s.state = .CAPTURE := by
  have hready := (Bool.and_eq_true_iff.mp h).2
  rw [commandReady, Bool.and_eq_true, beq_iff_eq] at hready
  exact hready.1

/-- An edge in `CAPTURE` without a byte. -/
theorem step_no_byte (hi : i.resetN = true) (hs : s.state = .CAPTURE)
    (hfire : commandFire i s = false) :
    step i s =
      { s with requestReadData := s.requestMem s.requestReadAddress, debugComplete := false } := by
  rw [commandFire] at hfire
  rw [step_released hi, phaseUpdate, hs]
  show captureUpdate i s _ = _
  rw [captureUpdate, if_neg (Bool.eq_false_iff.mp hfire)]

/-- An edge in `CAPTURE` that takes a byte. -/
theorem step_byte (hi : i.resetN = true) (hfire : commandFire i s = true) :
    step i s =
      { s with
        requestReadData := s.requestMem s.requestReadAddress
        debugComplete := false
        requestMem := Function.update s.requestMem s.requestPos i.commandData
        headerCommand := if s.requestPos = 0 then i.commandData else s.headerCommand
        headerArgument := if s.requestPos = 1 then i.commandData else s.headerArgument
        headerCount := if s.requestPos = 2 then i.commandData else s.headerCount
        headerData := if s.requestPos = 3 then i.commandData else s.headerData
        requestLength := if i.commandLast then s.requestPos + 1 else s.requestLength
        requestPos := if i.commandLast then 0 else s.requestPos + 1
        state := if i.commandLast then .PREPARE else .CAPTURE } := by
  have hs := commandFire_capture hfire
  have hstep : step i s = captureUpdate i s
      { s with requestReadData := s.requestMem s.requestReadAddress, debugComplete := false } := by
    rw [step_released hi, phaseUpdate, hs]
  rw [commandFire] at hfire
  rw [hstep, captureUpdate, if_pos hfire]
  extract_lets n₁ n₂ n₃ n₄ n₅
  -- at most one header register takes the byte
  have h₂ : n₂ = { n₁ with
      headerCommand := if s.requestPos = 0 then i.commandData else s.headerCommand } := by
    simp only [n₂]
    split <;> rfl
  have h₃ : n₃ = { n₂ with
      headerArgument := if s.requestPos = 1 then i.commandData else s.headerArgument } := by
    simp only [n₃]
    split
    · rfl
    · rw [h₂]
  have h₄ : n₄ = { n₃ with
      headerCount := if s.requestPos = 2 then i.commandData else s.headerCount } := by
    simp only [n₄]
    split
    · rfl
    · rw [h₃, h₂]
  have h₅ : n₅ = { n₄ with
      headerData := if s.requestPos = 3 then i.commandData else s.headerData } := by
    simp only [n₅]
    split
    · rfl
    · rw [h₄, h₃, h₂]
  rw [h₅, h₄, h₃, h₂]
  clear h₅ h₄ h₃ h₂ hstep
  by_cases hlast : i.commandLast = true
  · simp only [n₁, store, List.foldl_cons, List.foldl_nil, hlast, if_true]
  · simp only [n₁, store, List.foldl_cons, List.foldl_nil, hlast, hs, Bool.false_eq_true, if_false]

/-- One edge in `CAPTURE`. -/
theorem step_capture (hi : i.resetN = true) (hs : s.state = .CAPTURE) :
    ((step i s).state, (step i s).requestPos) =
      if commandFire i s then
        if i.commandLast then (.PREPARE, 0) else (.CAPTURE, s.requestPos + 1)
      else (.CAPTURE, s.requestPos) := by
  cases hfire : commandFire i s with
  | false =>
    rw [step_no_byte hi hs hfire, hs]
    rfl
  | true =>
    rw [step_byte hi hfire]
    cases i.commandLast <;> rfl

/-- Working out the response neither ends the exchange nor counts request bytes. -/
theorem prepareResponse_frame (i : Input) (s n : State) (hn : n.state ≠ .CAPTURE) :
    (prepareResponse i s n).state ≠ .CAPTURE ∧
      (prepareResponse i s n).requestPos = n.requestPos := by
  rw [prepareResponse]
  split
  · split <;> exact ⟨hn, rfl⟩
  · exact ⟨hn, rfl⟩
  · split
    · exact ⟨hn, rfl⟩
    · split
      · exact ⟨hn, rfl⟩
      · split
        · exact ⟨hn, rfl⟩
        · exact ⟨by simp, rfl⟩
  · exact ⟨hn, rfl⟩
  · exact ⟨hn, rfl⟩
  · dsimp only
    split <;> exact ⟨hn, rfl⟩
  · split <;> exact ⟨hn, rfl⟩
  · exact ⟨hn, rfl⟩

theorem buildTransferUpdate_frame (s n : State) (hn : n.state ≠ .CAPTURE) :
    (buildTransferUpdate s n).state ≠ .CAPTURE ∧
      (buildTransferUpdate s n).requestPos = n.requestPos := by
  rw [buildTransferUpdate]
  split
  · exact ⟨by simp, rfl⟩
  · split
    · exact ⟨by simp, rfl⟩
    · dsimp only
      split
      · split
        · exact ⟨by simp, rfl⟩
        · exact ⟨hn, rfl⟩
      · split
        · split
          · exact ⟨by simp, rfl⟩
          · exact ⟨hn, rfl⟩
        · exact ⟨by simp, rfl⟩

theorem prepareUpdate_frame (i : Input) (s n : State) (hn : n.state ≠ .CAPTURE) :
    (prepareUpdate i s n).state ≠ .CAPTURE ∧
      (prepareUpdate i s n).requestPos = n.requestPos := by
  have hprepare := prepareResponse_frame i s { n with responsePos := 0 } hn
  unfold prepareUpdate
  dsimp only
  split
  · exact ⟨by simp, hprepare.2⟩
  · split
    · exact ⟨by simp, hprepare.2⟩
    · exact hprepare

theorem jtagSetupUpdate_frame (s n : State) (hn : n.state ≠ .CAPTURE) :
    (jtagSetupUpdate s n).state ≠ .CAPTURE ∧
      (jtagSetupUpdate s n).requestPos = n.requestPos := by
  rw [jtagSetupUpdate]
  split
  · exact ⟨by simp, rfl⟩
  · exact ⟨hn, rfl⟩

theorem jtagHoldUpdate_frame (i : Input) (s n : State) (hn : n.state ≠ .CAPTURE) :
    (jtagHoldUpdate i s n).state ≠ .CAPTURE ∧
      (jtagHoldUpdate i s n).requestPos = n.requestPos := by
  unfold jtagHoldUpdate
  extract_lets m₁ m₂
  have hm : m₂.state = n.state ∧ m₂.requestPos = n.requestPos := by
    simp only [m₂, m₁]
    split <;> exact ⟨rfl, rfl⟩
  split
  · exact ⟨by simp, hm.2⟩
  · exact ⟨fun h => hn (hm.1.symm.trans h), hm.2⟩

/-- Handing over a response byte: only the last one ends the exchange. -/
theorem respondUpdate_frame (i : Input) (s n : State) (hn : n.state = .RESPOND) :
    (respondUpdate i s n).state =
        (if responseFire i s && responseLast s then .CAPTURE else .RESPOND) ∧
      (respondUpdate i s n).requestPos = n.requestPos := by
  rw [respondUpdate, responseFire]
  cases responseValid s && i.responseReady <;> cases responseLast s <;> simp [hn]

/-- One edge outside `CAPTURE`. -/
theorem step_busy (hi : i.resetN = true) (hs : s.state ≠ .CAPTURE) :
    ((step i s).state = .CAPTURE ↔ (responseFire i s && responseLast s) = true) ∧
      (step i s).requestPos = s.requestPos := by
  -- outside `RESPOND` no byte is offered
  have hquiet : s.state ≠ .RESPOND → ¬ (responseFire i s && responseLast s) = true := by
    intro h
    simp [responseFire, responseValid, h]
  obtain ⟨n, hn⟩ : ∃ n, n = { s with
    requestReadData := s.requestMem s.requestReadAddress, debugComplete := false } := ⟨_, rfl⟩
  have hstate : n.state = s.state := by rw [hn]
  have hpos : n.requestPos = s.requestPos := by rw [hn]
  have hstay : s.state ≠ .RESPOND →
      (step i s).state ≠ .CAPTURE ∧ (step i s).requestPos = n.requestPos →
      ((step i s).state = .CAPTURE ↔ (responseFire i s && responseLast s) = true) ∧
        (step i s).requestPos = s.requestPos := by
    rintro hphase ⟨hnot, hkept⟩
    exact ⟨iff_of_false hnot (hquiet hphase), hkept.trans hpos⟩
  rw [← hstate] at hs
  cases hphase : s.state with
  | CAPTURE => exact absurd (hstate.trans hphase) hs
  | PREPARE =>
    refine hstay (by simp [hphase]) ?_
    rw [step_released hi, ← hn, phaseUpdate, hphase]
    exact prepareUpdate_frame i s n hs
  | FETCH_TRANSFER =>
    refine hstay (by simp [hphase]) ?_
    rw [step_released hi, ← hn, phaseUpdate, hphase]
    exact ⟨Phase.noConfusion, rfl⟩
  | BUILD_TRANSFER =>
    refine hstay (by simp [hphase]) ?_
    rw [step_released hi, ← hn, phaseUpdate, hphase]
    exact buildTransferUpdate_frame s n hs
  | JTAG_SETUP =>
    refine hstay (by simp [hphase]) ?_
    rw [step_released hi, ← hn, phaseUpdate, hphase]
    exact jtagSetupUpdate_frame s n hs
  | JTAG_HOLD =>
    refine hstay (by simp [hphase]) ?_
    rw [step_released hi, ← hn, phaseUpdate, hphase]
    exact jtagHoldUpdate_frame i s n hs
  | RESPOND =>
    have hrespond := respondUpdate_frame i s n (hstate.trans hphase)
    rw [step_released hi, ← hn, phaseUpdate, hphase]
    change ((respondUpdate i s n).state = _ ↔ _) ∧ (respondUpdate i s n).requestPos = _
    rw [hrespond.1, hrespond.2]
    refine ⟨?_, hpos⟩
    cases responseFire i s && responseLast s <;> simp

end

end DapEngine
