import Zub1cg.Rtl.DapEngine.Reference

/-!
# What the packet engine remembers

The header registers and both memories keep what they held when a request ends. A request
that is answered from the bytes it brought does not show it. A DAP_JTAG_Sequence for a real
target drives TMS and TDI from two header registers, whether or not their bytes have come.

## Main definitions

- `reaction` — the outcome of an exchange, from a request, the flags and TDO
- `Reachable` — the states some history leads to

## Main results

- `step_level` — the pins change by what is driven onto them
- `reacts` — every exchange ends with its `reaction`
- `history_free_iff` — the requests whose exchange does not depend on the history
-/

namespace DapEngine

open MemoryRegion (Stored)
open Model.SyntheticDap (transferLoop)

/-! ### The pins -/

/-- The levels after some writes. -/
def drive (l : Pin → Bool) (writes : List (Pin × Bool)) : Pin → Bool :=
  writes.foldl (fun l w => Function.update l w.1 w.2) l

theorem prepareResponse_level (i : Input) (s n : State) (hs : s.state = .PREPARE) :
    level (prepareResponse i s n) = drive (level n) (pinWrites i s) := by
  ext p
  rw [prepareResponse, pinWrites, hs]
  split
  · next hc => split <;> simp [hc, drive, level]
  · next hc => simp [hc, drive, level]
  · next hc =>
    split
    · simp [hc, drive, level]
    · split
      · simp [hc, drive, level]
      · split <;> simp [hc, drive, level]
  · next hc => simp [hc, drive, level]
  · next hc => simp [hc, drive, level]
  · next hc =>
    by_cases hboth : i.useRealTarget = true ∧ s.requestLength > 1
    · cases p <;> simp [hc, hboth, drive, level]
    · cases p <;> simp [hc, hboth, drive, level]
  · next hc =>
    cases hreal : i.useRealTarget
    · simp [drive, level]
    · cases p <;> simp [hc, drive, level]
  · next h0 h2 h5 h7 h8 h10 h14 =>
    rw [if_neg fun h => h10 h.1, if_neg fun h => h14 h.1]
    rfl

theorem buildTransferUpdate_level (s n : State) : level (buildTransferUpdate s n) = level n := by
  unfold buildTransferUpdate
  split
  · rfl
  · split
    · rfl
    · split
      · split <;> rfl
      · split
        · split <;> rfl
        · rfl

/-- The levels change by the writes alone. -/
theorem step_level {i : Input} {s : State} (hi : i.resetN = true) :
    level (step i s) = drive (level s) (pinWrites i s) := by
  have hstep := step_released (s := s) hi
  rw [phaseUpdate] at hstep
  cases hs : s.state with
  | CAPTURE =>
    rw [pinWrites, hs]
    cases hfire : commandFire i s with
    | true =>
      rw [step_byte hi hfire]
      rfl
    | false =>
      rw [step_no_byte hi hs hfire]
      rfl
  | PREPARE =>
    rw [hstep, hs]
    show level (prepareUpdate i s _) = _
    unfold prepareUpdate
    extract_lets n
    have hn : level n = drive (level s) (pinWrites i s) := prepareResponse_level i s _ hs
    rw [← hn]
    split
    · rfl
    · split <;> rfl
  | FETCH_TRANSFER =>
    rw [hstep, pinWrites, hs]
    rfl
  | BUILD_TRANSFER =>
    rw [hstep, pinWrites, hs]
    exact buildTransferUpdate_level s _
  | RESPOND =>
    rw [hstep, pinWrites, hs]
    show level (respondUpdate i s _) = _
    unfold respondUpdate
    split
    · split <;> rfl
    · rfl
  | JTAG_SETUP =>
    rw [hstep, pinWrites, hs]
    show level (jtagSetupUpdate s _) = _
    unfold jtagSetupUpdate
    ext p
    split <;> cases p <;> simp [drive, level, *]
  | JTAG_HOLD =>
    rw [hstep, pinWrites, hs]
    show level (jtagHoldUpdate i s _) = _
    unfold jtagHoldUpdate
    ext p
    split <;> split <;> cases p <;> simp [drive, level, *]

/-! ### Transfers that are refused -/

/-- Too few bytes, or too many transfers. -/
def malformed (request : List UInt8) : Bool :=
  request.length < 3 || (byteAt request 2).toNat > MAX_TRANSFERS

def refused (request : List UInt8) (f : Flags) : Bool :=
  malformed request || f.forceWait || f.forceFault

/-- What a refused DAP_Transfer leaves behind. -/
def refusal (s₀ : State) (request : List UInt8) (f : Flags) : Outcome where
  reply := [0x05, 0, if malformed request then 0x04 else if f.forceWait then 0x02 else 0x04]
  pins := []
  transferCount := s₀.transferCount
  abortCount := s₀.abortCount

section

variable {s₀ s : State} {request : List UInt8} {i : Input}

theorem Prepares.malformed (h : Prepares s₀ request s) :
    (s.requestLength < 3 || s.headerCount.toNat > MAX_TRANSFERS) = DapEngine.malformed request := by
  rw [DapEngine.malformed, h.requestLength]
  by_cases hshort : request.length < 3
  · rw [decide_eq_true hshort, Bool.true_or, Bool.true_or]
  · rw [h.headerCount, getD_of_lt (by omega)]

/-- The edge that refuses a DAP_Transfer. -/
theorem Prepares.refused (h : Prepares s₀ request s) (hi : i.resetN = true) (hrequest : request ≠ [])
    (hcommand : byteAt request 0 = 0x05) (hrefused : DapEngine.refused request (flags i) = true) :
    Responds (refusal s₀ request (flags i)) 0 (step i s) ∧ pinWrites i s = [] := by
  have hheader : s.headerCommand = 0x05 := by rw [h.toCaptured.command hrequest, hcommand]
  have hmalformed := h.malformed
  have hrejected : transferRejected i s = true := by
    rw [transferRejected, hmalformed]
    exact hrefused
  refine ⟨?_, by rw [pinWrites, h.state, hheader]; rfl⟩
  have hresponse : prepareResponse i s { s with
      requestReadData := s.requestMem s.requestReadAddress, debugComplete := false, responsePos := 0 } =
      { s with
        requestReadData := s.requestMem s.requestReadAddress
        debugComplete := false
        responsePos := 0
        responseMem := store s.responseMem
          ((refusal s₀ request (flags i)).reply.zipIdx.map Prod.swap)
        responseLength := 3 } := by
    rw [prepareResponse, hheader]
    show (if (_ || _) = true then _ else if i.forceWait = true then _
      else if i.forceFault = true then _ else _) = _
    rw [hmalformed, refusal]
    cases hm : DapEngine.malformed request with
    | true => rfl
    | false =>
      cases hwait : i.forceWait with
      | true => simp [flags, hwait]
      | false =>
        have hfault : i.forceFault = true := by simpa [DapEngine.refused, flags, hm, hwait] using hrefused
        simp [flags, hwait, hfault]
  rw [step_prepare hi h.state, prepareUpdate, hresponse, hrejected, hheader]
  exact
    { state := rfl
      requestPos := h.requestPos
      responsePos := rfl
      responseLength := rfl
      more := Nat.zero_lt_succ 2
      stored := stored_store _ _
      counts := h.counts }

/-! ### One clock of the target -/

/-- The response to a clock for a real target is under way. -/
structure Clocks (s₀ s : State) : Prop where
  requestPos : s.requestPos = 0
  responsePos : s.responsePos = 0
  stored : Stored s.responseMem 0 [0x14, 0]
  counts : s.transferCount = s₀.transferCount ∧ s.abortCount = s₀.abortCount

/-- What a clock for a real target leaves behind. TMS and TDI are driven from the header
registers, which a short request has not written. -/
def clockOutcome (s₀ : State) (request : List UInt8) (tdo : Bool) : Outcome where
  reply := [0x14, 0, if tdo then 1 else 0]
  pins := [(.tms, (request.getD 2 s₀.headerCount).toBitVec.getLsbD 7),
    (.tdi, (request.getD 3 s₀.headerData).toBitVec.getLsbD 0), (.tck, false), (.tck, true),
    (.tck, false)]
  transferCount := s₀.transferCount
  abortCount := s₀.abortCount

/-- The header of the response to a clock, and TMS and TDI for it. -/
theorem prepareResponse_clock (hcommand : s.headerCommand = 0x14) (hreal : i.useRealTarget = true)
    (n : State) :
    prepareResponse i s n =
      { n with
        responseMem := store s.responseMem [(0, 0x14), (1, 0)]
        jtagTms := s.headerCount.toBitVec.getLsbD 7
        jtagTdi := s.headerData.toBitVec.getLsbD 0
        jtagTck := false
        jtagWait := 0 } := by
  rw [prepareResponse, hcommand]
  show (if i.useRealTarget = true then _ else _) = _
  rw [if_pos hreal]

/-- The edge that begins with a clock. -/
theorem step_clock (hi : i.resetN = true) (hs : s.state = .PREPARE)
    (hcommand : s.headerCommand = 0x14) (hreal : i.useRealTarget = true) :
    step i s =
      { s with
        requestReadData := s.requestMem s.requestReadAddress
        debugComplete := false
        responsePos := 0
        responseMem := store s.responseMem [(0, 0x14), (1, 0)]
        jtagTms := s.headerCount.toBitVec.getLsbD 7
        jtagTdi := s.headerData.toBitVec.getLsbD 0
        jtagTck := false
        jtagWait := 0
        state := .JTAG_SETUP } := by
  rw [step_prepare hi hs, prepareUpdate, prepareResponse_clock hcommand hreal, hcommand, hreal]
  rfl

theorem Prepares.clock (h : Prepares s₀ request s) (hi : i.resetN = true) (hrequest : request ≠ [])
    (hcommand : byteAt request 0 = 0x14) (hreal : i.useRealTarget = true) :
    Clocks s₀ (step i s) ∧ (step i s).state = .JTAG_SETUP ∧ (step i s).jtagWait = 0 ∧
      pinWrites i s = [(.tms, (request.getD 2 s₀.headerCount).toBitVec.getLsbD 7),
        (.tdi, (request.getD 3 s₀.headerData).toBitVec.getLsbD 0), (.tck, false)] := by
  have hheader : s.headerCommand = 0x14 := by rw [h.toCaptured.command hrequest, hcommand]
  rw [step_clock hi h.state hheader hreal]
  refine ⟨?_, rfl, rfl, ?_⟩
  · exact
      { requestPos := h.requestPos
        responsePos := rfl
        stored := ⟨rfl, rfl, trivial⟩
        counts := h.counts }
  · rw [pinWrites, h.state, hheader, hreal, h.headerCount, h.headerData]
    rfl

/-- TCK is low while TMS and TDI settle, and then rises. -/
theorem step_setup (hi : i.resetN = true) (hs : s.state = .JTAG_SETUP) :
    step i s =
      if s.jtagWait ≥ JTAG_HALF_PERIOD then
        { s with
          requestReadData := s.requestMem s.requestReadAddress
          debugComplete := false
          jtagTck := true
          jtagWait := 0
          state := .JTAG_HOLD }
      else
        { s with
          requestReadData := s.requestMem s.requestReadAddress
          debugComplete := false
          jtagWait := s.jtagWait + 1 } := by
  rw [step_released hi, phaseUpdate, hs]
  rfl

/-- TCK is high; TDO is sampled before it falls. -/
theorem step_hold (hi : i.resetN = true) (hs : s.state = .JTAG_HOLD) :
    step i s =
      if s.jtagWait ≥ JTAG_HALF_PERIOD then
        { s with
          requestReadData := s.requestMem s.requestReadAddress
          debugComplete := false
          jtagTck := false
          jtagWait := s.jtagWait + 1
          responseMem := store s.responseMem [(2, if s.jtagTdoSample then 1 else 0)]
          responseLength := 3
          state := .RESPOND }
      else
        { s with
          requestReadData := s.requestMem s.requestReadAddress
          debugComplete := false
          jtagWait := s.jtagWait + 1
          jtagTdoSample :=
            if s.jtagWait = JTAG_HALF_PERIOD - 1 then i.jtagTdo else s.jtagTdoSample } := by
  rw [step_released hi, phaseUpdate, hs]
  show jtagHoldUpdate i s _ = _
  unfold jtagHoldUpdate
  by_cases hend : s.jtagWait ≥ JTAG_HALF_PERIOD
  · have hnot : ¬ s.jtagWait = JTAG_HALF_PERIOD - 1 := by
      intro heq
      rw [heq] at hend
      exact absurd hend (by decide)
    simp only [if_pos hend, if_neg hnot]
  · by_cases hsample : s.jtagWait = JTAG_HALF_PERIOD - 1
    · simp only [if_neg hend, if_pos hsample]
    · simp only [if_neg hend, if_neg hsample]

/-- The engine at work on a clock: TCK is low, or high with TDO sampled before it falls. -/
def ClockRuns (s₀ : State) (tdo : Bool) (s : State) : Prop :=
  Clocks s₀ s ∧ (s.state = .JTAG_SETUP ∧ s.jtagWait ≤ JTAG_HALF_PERIOD ∨
    s.state = .JTAG_HOLD ∧ s.jtagWait ≤ JTAG_HALF_PERIOD ∧
      (s.jtagWait = JTAG_HALF_PERIOD → s.jtagTdoSample = tdo))

/-- The edges up to the response. -/
def clockRank (s : State) : ℕ :=
  (if s.state = .JTAG_SETUP then JTAG_HALF_PERIOD + 1 else 0) + JTAG_HALF_PERIOD - s.jtagWait

/-- The pins still to be driven. -/
def clockLeft (s : State) : List (Pin × Bool) :=
  if s.state = .JTAG_SETUP then [(.tck, true), (.tck, false)] else [(.tck, false)]

theorem Clocks.setup {tdo : Bool} (h : Clocks s₀ s) (hi : i.resetN = true)
    (hs : s.state = .JTAG_SETUP) (hwait : s.jtagWait ≤ JTAG_HALF_PERIOD) :
    ClockRuns s₀ tdo (step i s) ∧ clockRank (step i s) < clockRank s ∧
      pinWrites i s ++ clockLeft (step i s) = clockLeft s := by
  have hwrites : pinWrites i s = if s.jtagWait ≥ JTAG_HALF_PERIOD then [(.tck, true)] else [] := by
    rw [pinWrites, hs]
  rw [step_setup hi hs, hwrites, clockRank, clockRank, clockLeft, clockLeft, if_pos hs, if_pos hs]
  by_cases hend : s.jtagWait ≥ JTAG_HALF_PERIOD
  · rw [if_pos hend, if_pos hend]
    refine ⟨⟨{ h with }, .inr ⟨rfl, Nat.zero_le _, fun hzero => ?_⟩⟩, ?_, rfl⟩
    · exact absurd (show 0 = JTAG_HALF_PERIOD from hzero) (by decide)
    · show 0 + JTAG_HALF_PERIOD - 0 < _
      omega
  · rw [if_neg hend, if_neg hend]
    refine ⟨⟨{ h with }, .inl ⟨hs, ?_⟩⟩, ?_, ?_⟩
    · show s.jtagWait + 1 ≤ _
      omega
    · show (if s.state = .JTAG_SETUP then _ else _) + JTAG_HALF_PERIOD - (s.jtagWait + 1) < _
      rw [if_pos hs]
      omega
    · exact if_pos hs

theorem Clocks.hold {tdo : Bool} {request : List UInt8} (h : Clocks s₀ s) (hi : i.resetN = true)
    (hs : s.state = .JTAG_HOLD) (hwait : s.jtagWait ≤ JTAG_HALF_PERIOD)
    (hsample : s.jtagWait = JTAG_HALF_PERIOD → s.jtagTdoSample = tdo)
    (htdo : s.jtagWait = JTAG_HALF_PERIOD - 1 → i.jtagTdo = tdo) :
    ClockRuns s₀ tdo (step i s) ∧ clockRank (step i s) < clockRank s ∧
        pinWrites i s ++ clockLeft (step i s) = clockLeft s ∨
      Responds (clockOutcome s₀ request tdo) 0 (step i s) ∧ pinWrites i s = clockLeft s := by
  have hwrites : pinWrites i s = if s.jtagWait ≥ JTAG_HALF_PERIOD then [(.tck, false)] else [] := by
    rw [pinWrites, hs]
  have hnot : ¬ s.state = .JTAG_SETUP := by
    rw [hs]
    decide
  rw [step_hold hi hs, hwrites, clockRank, clockRank, clockLeft, clockLeft, if_neg hnot, if_neg hnot]
  by_cases hend : s.jtagWait ≥ JTAG_HALF_PERIOD
  · rw [if_pos hend, if_pos hend, hsample (Nat.le_antisymm hwait hend)]
    refine .inr ⟨?_, rfl⟩
    exact
      { state := rfl
        requestPos := h.requestPos
        responsePos := h.responsePos
        responseLength := rfl
        more := Nat.zero_lt_succ 2
        stored := h.stored.concat rfl _
        counts := h.counts }
  · rw [if_neg hend, if_neg hend]
    refine .inl ⟨⟨{ h with }, .inr ⟨hs, ?_, fun hnext => ?_⟩⟩, ?_, ?_⟩
    · show s.jtagWait + 1 ≤ _
      omega
    · have hlast : s.jtagWait = JTAG_HALF_PERIOD - 1 := Nat.eq_sub_of_add_eq hnext
      show (if s.jtagWait = JTAG_HALF_PERIOD - 1 then i.jtagTdo else _) = tdo
      rw [if_pos hlast, htdo hlast]
    · show (if s.state = .JTAG_SETUP then _ else _) + JTAG_HALF_PERIOD - (s.jtagWait + 1) < _
      rw [if_neg hnot]
      omega
    · exact if_neg hnot

end

/-! ### Every exchange -/

/-- What the engine sees of the flags and of TDO: the flags when it prepares the response, and
TDO when it samples it. -/
def Seen (f : Flags) (tdo : Bool) (i : Input) (s : State) : Prop :=
  (s.state = .PREPARE → flags i = f) ∧
    (s.state = .JTAG_HOLD → s.jtagWait = JTAG_HALF_PERIOD - 1 → i.jtagTdo = tdo)

/-- The outcome of an exchange. -/
def reaction (s₀ : State) (request : List UInt8) (f : Flags) (tdo : Bool) : Outcome :=
  if byteAt request 0 = 0x05 then
    if refused request f then refusal s₀ request f
    else transferOutcome s₀ 0
      (transferLoop request (byteAt request 2).toNat (firstLoop f.forceParityError 0))
  else if byteAt request 0 = 0x14 ∧ f.useRealTarget = true then clockOutcome s₀ request tdo
  else plainOutcome s₀ request f.useRealTarget

section

variable {s₀ : State} {request : List UInt8} {f : Flags} {tdo : Bool}

/-- The engine at work on a clock. -/
def clockWork (s₀ : State) (tdo : Bool) (hrequest : request ≠ []) (hcommand : byteAt request 0 = 0x14)
    (hreal : f.useRealTarget = true) :
    Work s₀ request (Seen f tdo) (clockOutcome s₀ request tdo) where
  busy := ClockRuns s₀ tdo
  rank := clockRank
  left := clockLeft
  apart := by
    rintro s ⟨-, ⟨hs, -⟩ | ⟨hs, -⟩⟩ <;> rw [hs] <;> decide
  begins := by
    intro i s hi hok h
    have hreal' : i.useRealTarget = true := by
      rw [← hreal, ← hok.1 h.state]
      rfl
    obtain ⟨hclocks, hs, hwait, hpins⟩ := h.clock hi hrequest hcommand hreal'
    refine .inl ⟨⟨hclocks, .inl ⟨hs, ?_⟩⟩, ?_⟩
    · rw [hwait]
      exact Nat.zero_le _
    · rw [hpins, clockLeft, if_pos hs]
      rfl
  goes_on := by
    rintro i s hi hok ⟨h, ⟨hs, hwait⟩ | ⟨hs, hwait, hsample⟩⟩
    · exact .inl (h.setup hi hs hwait)
    · exact h.hold hi hs hwait hsample (hok.2 hs)

/-- A transfer that is refused needs no work. -/
def refusalWork (s₀ : State) (tdo : Bool) (hrequest : request ≠ [])
    (hcommand : byteAt request 0 = 0x05) (hrefused : refused request f = true) :
    Work s₀ request (Seen f tdo) (refusal s₀ request f) where
  busy _ := False
  rank _ := 0
  left _ := []
  apart := @not_busy_apart
  begins := by
    intro i s hi hok h
    obtain rfl := hok.1 h.state
    exact .inr (h.refused hi hrequest hcommand hrefused)
  goes_on _ _ hbusy := hbusy.elim

/-- **Every exchange ends with its reaction.** -/
theorem reacts (hidle : Idle s₀) (hrequest : request ≠ []) {inp : ℕ → Input}
    (hreset : ∀ t, (inp t).resetN = true) (hseen : ∀ t, Seen f tdo (inp t) ((run s₀ inp).state t)) :
    Answers s₀ inp request (reaction s₀ request f tdo) := by
  rw [reaction]
  by_cases hcommand : byteAt request 0 = 0x05
  · rw [if_pos hcommand]
    cases hrefused : refused request f with
    | true =>
      exact (refusalWork s₀ tdo hrequest hcommand hrefused).answers hreset hidle hrequest hseen
    | false =>
      rw [refused, malformed, Bool.or_eq_false_iff, Bool.or_eq_false_iff, Bool.or_eq_false_iff,
        decide_eq_false_iff_not, decide_eq_false_iff_not] at hrefused
      obtain ⟨⟨⟨hlength, hcount⟩, hwait⟩, hfault⟩ := hrefused
      refine (transferWork s₀ f.forceParityError 0 hcommand (Nat.le_of_not_lt hlength)
        (Nat.le_of_not_lt hcount)).answers hreset hidle hrequest fun t hs => ?_
      have hflags := (hseen t).1 hs
      rw [← hflags] at hwait hfault
      exact ⟨hwait, hfault, congrArg Flags.forceParityError hflags⟩
  · rw [if_neg hcommand]
    by_cases hclock : byteAt request 0 = 0x14 ∧ f.useRealTarget = true
    · rw [if_pos hclock]
      exact (clockWork s₀ tdo hrequest hclock.1 hclock.2).answers hreset hidle hrequest hseen
    · rw [if_neg hclock]
      exact (plainWork s₀ f.useRealTarget hrequest hcommand hclock).answers hreset hidle hrequest
        fun t hs => congrArg Flags.useRealTarget ((hseen t).1 hs)

/-! ### Histories -/

/-- The states that some history leads to. -/
def Reachable (s : State) : Prop := ∃ n inp t, s = (run (resetUpdate n) inp).state t

/-- The response to a request and the pins it drives are a function of the request, the flags
and TDO: the same after every history and under every schedule. -/
def HistoryFree (request : List UInt8) (f : Flags) (tdo : Bool) : Prop :=
  ∃ reply pins, ∀ s₀, Reachable s₀ → Idle s₀ → ∀ inp : ℕ → Input, (∀ t, (inp t).resetN = true) →
    (∀ t, Seen f tdo (inp t) ((run s₀ inp).state t)) →
    ∃ transferCount abortCount, Answers s₀ inp request
      { reply := reply, pins := pins, transferCount := transferCount, abortCount := abortCount }

/-- The registers are read only where their bytes have come. -/
theorem reaction_fresh (request : List UInt8) (f : Flags) (tdo : Bool)
    (hfresh : ¬ (byteAt request 0 = 0x14 ∧ f.useRealTarget = true ∧ request.length ≤ 3)) :
    ∃ reply pins, ∀ s₀, (reaction s₀ request f tdo).reply = reply ∧
      (reaction s₀ request f tdo).pins = pins := by
  by_cases hclock : byteAt request 0 = 0x14 ∧ f.useRealTarget = true
  · have hlong : 3 < request.length := by
      by_contra hshort
      exact hfresh ⟨hclock.1, hclock.2, Nat.le_of_not_lt hshort⟩
    have hreaction (s₀ : State) : reaction s₀ request f tdo = clockOutcome s₀ request tdo := by
      rw [reaction, if_neg (by rw [hclock.1]; decide), if_pos hclock]
    refine ⟨[0x14, 0, if tdo then 1 else 0], [(.tms, (byteAt request 2).toBitVec.getLsbD 7),
      (.tdi, (byteAt request 3).toBitVec.getLsbD 0), (.tck, false), (.tck, true), (.tck, false)],
      fun s₀ => ?_⟩
    rw [hreaction, clockOutcome, getD_of_lt (by omega), getD_of_lt hlong]
    exact ⟨rfl, rfl⟩
  · refine ⟨(reaction resetState request f tdo).reply, (reaction resetState request f tdo).pins,
      fun s₀ => ?_⟩
    simp only [reaction, if_neg hclock]
    split
    · split <;> exact ⟨rfl, rfl⟩
    · exact ⟨rfl, rfl⟩

/-- What the header register of the fourth byte holds after a request with that byte. -/
def usedState : State := (run resetState (offer [0xff, 0x00, 0x00, 0x01] noFlags false)).state 7

theorem reachable_resetState : Reachable resetState := ⟨_, fun _ => offer [] noFlags false 0, 0, rfl⟩

theorem reachable_usedState : Reachable usedState := ⟨_, _, 7, rfl⟩

theorem idle_usedState : Idle usedState := ⟨rfl, rfl⟩

/-- Without its data byte a clock drives TDI to what an earlier request has left. -/
theorem not_historyFree (hcommand : byteAt request 0 = 0x14) (hreal : f.useRealTarget = true)
    (hrequest : request ≠ []) (hshort : request.length ≤ 3) : ¬ HistoryFree request f tdo := by
  rintro ⟨reply, pins, hfree⟩
  have hfits : request.length ≤ MAX_PACKET := by
    rw [MAX_PACKET]
    omega
  have hpins (s₀ : State) (hreachable : Reachable s₀) (hidle : Idle s₀) :
      pins = (clockOutcome s₀ request tdo).pins := by
    obtain ⟨_, _, hanswers⟩ := hfree s₀ hreachable hidle (offer request f tdo) (fun _ => rfl)
      fun _ => ⟨fun _ => rfl, fun _ _ => rfl⟩
    have hreaction : Answers s₀ (offer request f tdo) request (reaction s₀ request f tdo) :=
      reacts hidle hrequest (fun _ => rfl) fun _ => ⟨fun _ => rfl, fun _ _ => rfl⟩
    rw [reaction, if_neg (by rw [hcommand]; decide), if_pos ⟨hcommand, hreal⟩] at hreaction
    exact congrArg Outcome.pins (hanswers.unique hreaction hfits)
  have hsame := (hpins resetState reachable_resetState ⟨rfl, rfl⟩).symm.trans
    (hpins usedState reachable_usedState idle_usedState)
  have hnone : request[3]? = none := List.getElem?_eq_none hshort
  simp only [clockOutcome, List.getD_eq_getElem?_getD, hnone, Option.getD_none, List.cons.injEq,
    Prod.mk.injEq] at hsame
  exact absurd hsame.2.1.2 (by decide)

/-- **Responses do not depend on earlier requests**, and neither do the pins, but for a
DAP_JTAG_Sequence for a real target without its data byte. -/
theorem history_free_iff (hrequest : request ≠ []) (f : Flags) (tdo : Bool) :
    HistoryFree request f tdo ↔
      ¬ (byteAt request 0 = 0x14 ∧ f.useRealTarget = true ∧ request.length ≤ 3) := by
  constructor
  · rintro hfree ⟨hcommand, hreal, hshort⟩
    exact not_historyFree hcommand hreal hrequest hshort hfree
  · intro hfresh
    obtain ⟨reply, pins, hreaction⟩ := reaction_fresh request f tdo hfresh
    refine ⟨reply, pins, fun s₀ _ hidle inp hreset hseen => ?_⟩
    obtain ⟨rfl, rfl⟩ := hreaction s₀
    exact ⟨_, _, reacts hidle hrequest hreset hseen⟩

theorem history_free_connect : HistoryFree [0x02, 0x01] noFlags false :=
  (history_free_iff (by decide) noFlags false).mpr (by decide)

/-- A clock without data bytes for a real target. -/
theorem stale_data_driven :
    ¬ HistoryFree [0x14] { noFlags with useRealTarget := true } false :=
  not_historyFree rfl rfl (by decide) (by decide)

end

end DapEngine
