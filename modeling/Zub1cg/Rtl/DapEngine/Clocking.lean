import Zub1cg.Rtl.DapEngine.History

/-!
# The pins of a real target (`orbtrace_dap_engine.sv`)

Of the requests only two move the pins of a real target: a DAP_JTAG_Sequence makes one pulse on
TCK, and a DAP_SWJ_Pins drives the resets. Both are settled in the clock in which the request is
processed, the one behind its last byte; from then on the engine counts. TMS and TDI are driven
nine clocks before TCK rises, and TDO is sampled in the last clock but one before it falls.

## Main definitions

- `Takes`, `Asks` — a request is handed over on the command port
- `ClocksTarget`, `DrivesResets` — the engine when it processes one that moves the pins
- `Released` — no reset over some clocks
- `ClockAt` — the engine so many clocks after a request for a clock
- `PinRules` — the rules that the pins keep

## Main results

- `step_setup_iff`, `step_hold_iff` — how the two states in which the engine counts are entered
- `clockAt` — what follows a request for a clock
- `tck_high_iff` — when TCK is high
- `processes_iff` — what the engine processes has been handed over
- `jtag_clocking` — the rules are kept
-/

namespace DapEngine

open Clocked (Run)
open MemoryRegion (Stored)
open Packets (markLast)

section

variable (r : Run Input State)

/-- The bytes that have been taken of the request under way. -/
def underWay : ℕ → List UInt8
  | 0 => []
  | t + 1 =>
    if (r.input t).resetN = false then []
    else if commandFire (r.input t) (r.state t) = false then underWay t
    else if (r.input t).commandLast then []
    else underWay t ++ [(r.input t).commandData]

/-- The last byte of `request` is taken at the edge `q`. -/
structure Takes (q : ℕ) (request : List UInt8) : Prop where
  released : (r.input q).resetN = true
  fire : commandFire (r.input q) (r.state q) = true
  last : (r.input q).commandLast = true
  bytes : request = underWay r q ++ [(r.input q).commandData]

/-- The request is the command `command`, and there is a real target when it is processed, at the
next edge. -/
structure Asks (command : UInt8) (q : ℕ) (request : List UInt8) : Prop
    extends Takes r q request where
  command : byteAt request 0 = command
  real : (r.input (q + 1)).useRealTarget = true

end

/-- A request for a clock of a real target is processed at this edge. -/
def ClocksTarget (i : Input) (s : State) : Prop :=
  s.state = .PREPARE ∧ s.headerCommand = 0x14 ∧ i.useRealTarget = true

/-- A request for the resets of a real target is processed at this edge. -/
def DrivesResets (i : Input) (s : State) : Prop :=
  s.state = .PREPARE ∧ s.headerCommand = 0x10 ∧ i.useRealTarget = true ∧ 1 < s.requestLength

/-- No reset at the edges from `p` on and before `t`. -/
def Released (inp : ℕ → Input) (p t : ℕ) : Prop := ∀ u, p ≤ u → u < t → (inp u).resetN = true

/-! ### The states in which the engine counts -/

section

variable {i : Input} {s : State}

/-- Working out a response does not begin to count. -/
theorem prepareResponse_state (n : State) :
    (prepareResponse i s n).state = n.state ∨ (prepareResponse i s n).state = .FETCH_TRANSFER := by
  rw [prepareResponse]
  split
  · split <;> exact .inl rfl
  · exact .inl rfl
  · split
    · exact .inl rfl
    · split
      · exact .inl rfl
      · split
        · exact .inl rfl
        · exact .inr rfl
  · exact .inl rfl
  · exact .inl rfl
  · dsimp only
    split <;> exact .inl rfl
  · split <;> exact .inl rfl
  · exact .inl rfl

theorem buildTransferUpdate_state (n : State) (hn : n.state = .BUILD_TRANSFER) :
    (buildTransferUpdate s n).state ∈ [Phase.FETCH_TRANSFER, .BUILD_TRANSFER, .RESPOND] := by
  unfold buildTransferUpdate
  split
  · simp
  · split
    · simp
    · split
      · split <;> simp [hn]
      · split
        · split <;> simp [hn]
        · simp

/-- The states that a state can lead to. -/
def successors : Phase → List Phase
  | .CAPTURE => [.CAPTURE, .PREPARE]
  | .PREPARE => [.FETCH_TRANSFER, .RESPOND, .JTAG_SETUP]
  | .FETCH_TRANSFER => [.BUILD_TRANSFER]
  | .BUILD_TRANSFER => [.FETCH_TRANSFER, .BUILD_TRANSFER, .RESPOND]
  | .RESPOND => [.RESPOND, .CAPTURE]
  | .JTAG_SETUP => [.JTAG_SETUP, .JTAG_HOLD]
  | .JTAG_HOLD => [.JTAG_HOLD, .RESPOND]

theorem prepareUpdate_state (n : State) :
    (prepareUpdate i s n).state ∈ successors .PREPARE := by
  rw [prepareUpdate]
  split
  · simp [successors]
  · split
    · simp [successors]
    · next hgoes =>
      rw [Bool.or_eq_true, bne_iff_ne, not_or, not_not, Bool.not_eq_true] at hgoes
      rw [prepareResponse_transfer hgoes.1 hgoes.2]
      simp [successors]

/-- Where one edge leads. -/
theorem step_state (hi : i.resetN = true) : (step i s).state ∈ successors s.state := by
  obtain ⟨n, hn⟩ : ∃ n, n = { s with
    requestReadData := s.requestMem s.requestReadAddress, debugComplete := false } := ⟨_, rfl⟩
  have hstate : n.state = s.state := by rw [hn]
  cases hs : s.state with
  | CAPTURE =>
    have hnext := congrArg Prod.fst (step_capture hi hs)
    dsimp only at hnext
    rw [hnext]
    split
    · split <;> simp [successors]
    · simp [successors]
  | PREPARE =>
    rw [step_prepare hi hs]
    exact prepareUpdate_state _
  | FETCH_TRANSFER =>
    rw [step_fetch hi hs]
    exact List.mem_singleton_self _
  | BUILD_TRANSFER =>
    rw [step_build hi hs, ← hn]
    exact buildTransferUpdate_state n (hstate.trans hs)
  | RESPOND =>
    rw [step_released hi, ← hn, phaseUpdate, hs]
    change (respondUpdate i s n).state ∈ _
    rw [(respondUpdate_frame i s n (hstate.trans hs)).1]
    split <;> simp [successors]
  | JTAG_SETUP =>
    rw [step_setup hi hs]
    split <;> simp [successors, hs]
  | JTAG_HOLD =>
    rw [step_hold hi hs]
    split <;> simp [successors, hs]

/-- Only a request for a clock leads to where the engine counts. -/
theorem step_quiet (hi : i.resetN = true) (hsetup : s.state ≠ .JTAG_SETUP)
    (hhold : s.state ≠ .JTAG_HOLD) (hclock : ¬ ClocksTarget i s) :
    (step i s).state ≠ .JTAG_SETUP ∧ (step i s).state ≠ .JTAG_HOLD := by
  have hnext := step_state (s := s) hi
  cases hs : s.state with
  | PREPARE =>
    have hnot : ¬ (s.headerCommand == 0x14 && i.useRealTarget) = true := by
      rw [Bool.and_eq_true, beq_iff_eq]
      exact fun h => hclock ⟨hs, h⟩
    rw [step_prepare hi hs, prepareUpdate, if_neg hnot]
    split
    · exact ⟨Phase.noConfusion, Phase.noConfusion⟩
    · rcases @prepareResponse_state i s { s with
          requestReadData := s.requestMem s.requestReadAddress
          debugComplete := false
          responsePos := 0 } with h | h
      · rw [h]
        exact ⟨hsetup, hhold⟩
      · rw [h]
        exact ⟨Phase.noConfusion, Phase.noConfusion⟩
  | JTAG_SETUP => exact absurd hs hsetup
  | JTAG_HOLD => exact absurd hs hhold
  | CAPTURE | FETCH_TRANSFER | BUILD_TRANSFER | RESPOND =>
    rw [hs] at hnext
    constructor <;> (intro h; rw [h] at hnext; simp [successors] at hnext)

/-- TCK stays low while TMS and TDI settle. -/
theorem step_setup_iff (hi : i.resetN = true) :
    (step i s).state = .JTAG_SETUP ↔
      ClocksTarget i s ∨ s.state = .JTAG_SETUP ∧ s.jtagWait < JTAG_HALF_PERIOD := by
  by_cases hclock : ClocksTarget i s
  · rw [step_clock hi hclock.1 hclock.2.1 hclock.2.2]
    exact iff_of_true rfl (.inl hclock)
  by_cases hsetup : s.state = .JTAG_SETUP
  · rw [step_setup hi hsetup]
    split
    · next hend => exact iff_of_false Phase.noConfusion (by simp [hclock, Nat.not_lt.mpr hend])
    · next hend => exact iff_of_true hsetup (.inr ⟨hsetup, Nat.lt_of_not_le hend⟩)
  refine iff_of_false ?_ (by simp [hclock, hsetup])
  by_cases hhold : s.state = .JTAG_HOLD
  · rw [step_hold hi hhold]
    split
    · exact Phase.noConfusion
    · exact hsetup
  · exact (step_quiet hi hsetup hhold hclock).1

/-- TCK is high until TDO has been sampled. -/
theorem step_hold_iff (hi : i.resetN = true) :
    (step i s).state = .JTAG_HOLD ↔
      s.state = .JTAG_SETUP ∧ JTAG_HALF_PERIOD ≤ s.jtagWait ∨
        s.state = .JTAG_HOLD ∧ s.jtagWait < JTAG_HALF_PERIOD := by
  by_cases hsetup : s.state = .JTAG_SETUP
  · rw [step_setup hi hsetup]
    split
    · next hend => exact iff_of_true rfl (.inl ⟨hsetup, hend⟩)
    · next hend => exact iff_of_false (by simp [hsetup]) (by simp [hsetup, Nat.lt_of_not_le hend])
  by_cases hhold : s.state = .JTAG_HOLD
  · rw [step_hold hi hhold]
    split
    · next hend => exact iff_of_false Phase.noConfusion (by simp [hsetup, Nat.not_lt.mpr hend])
    · next hend => exact iff_of_true hhold (.inr ⟨hhold, Nat.lt_of_not_le hend⟩)
  refine iff_of_false ?_ (by simp [hsetup, hhold])
  by_cases hclock : ClocksTarget i s
  · rw [step_clock hi hclock.1 hclock.2.1 hclock.2.2]
    exact Phase.noConfusion
  · exact (step_quiet hi hsetup hhold hclock).2

/-- TCK is high in one state only. -/
theorem step_tck (h : s.jtagTck = true ↔ s.state = .JTAG_HOLD) :
    (step i s).jtagTck = true ↔ (step i s).state = .JTAG_HOLD := by
  cases hi : i.resetN with
  | false =>
    rw [step, hi]
    exact iff_of_false Bool.false_ne_true Phase.noConfusion
  | true =>
    have hlevel := congrFun (step_level (s := s) hi) .tck
    have hlow : s.state ≠ .JTAG_HOLD → s.jtagTck = false := fun hne =>
      Bool.eq_false_iff.mpr fun htck => hne (h.mp htck)
    change (step i s).jtagTck = drive (level s) (pinWrites i s) .tck at hlevel
    rw [hlevel, step_hold_iff hi, pinWrites]
    cases hs : s.state with
    | JTAG_SETUP =>
      have htck : level s .tck = false := hlow (by rw [hs]; exact Phase.noConfusion)
      by_cases hend : s.jtagWait ≥ JTAG_HALF_PERIOD
      · simp [drive, hend]
      · simp [drive, hend, htck]
    | JTAG_HOLD =>
      have htck : level s .tck = true := h.mpr hs
      by_cases hend : s.jtagWait ≥ JTAG_HALF_PERIOD
      · simp [drive, hend]
      · simp [drive, hend, htck, Nat.lt_of_not_le hend]
    | PREPARE =>
      have htck : level s .tck = false := hlow (by rw [hs]; exact Phase.noConfusion)
      dsimp only
      split
      · simp [drive, htck]
      · split <;> simp [drive, htck]
    | CAPTURE | FETCH_TRANSFER | BUILD_TRANSFER | RESPOND =>
      have htck : level s .tck = false := hlow (by rw [hs]; exact Phase.noConfusion)
      simp [drive, htck]

/-! ### What follows a request for a clock -/

/-- The engine `k` clocks after the one that follows the request. -/
def ClockAt (tdo : Bool) (k : ℕ) (s : State) : Prop :=
  s.responsePos = 0 ∧ Stored s.responseMem 0 [0x14, 0] ∧
    (s.state = .JTAG_SETUP ∧ s.jtagWait = k ∧ k ≤ JTAG_HALF_PERIOD ∨
      s.state = .JTAG_HOLD ∧ s.jtagWait + (JTAG_HALF_PERIOD + 1) = k ∧
        s.jtagWait ≤ JTAG_HALF_PERIOD ∧ (s.jtagWait = JTAG_HALF_PERIOD → s.jtagTdoSample = tdo))

/-- The reply to a clock is handed over. -/
structure Replies (tdo : Bool) (s : State) : Prop where
  state : s.state = .RESPOND
  responsePos : s.responsePos = 0
  responseLength : s.responseLength = 3
  stored : Stored s.responseMem 0 [0x14, 0, if tdo then 1 else 0]

theorem ClocksTarget.clockAt {tdo : Bool} (h : ClocksTarget i s) (hi : i.resetN = true) :
    ClockAt tdo 0 (step i s) := by
  rw [step_clock hi h.1 h.2.1 h.2.2]
  exact ⟨rfl, ⟨rfl, rfl, trivial⟩, .inl ⟨rfl, rfl, Nat.zero_le _⟩⟩

theorem ClockAt.step {tdo : Bool} {k : ℕ} (h : ClockAt tdo k s) (hi : i.resetN = true)
    (hk : k ≤ 2 * JTAG_HALF_PERIOD)
    (htdo : k = 2 * JTAG_HALF_PERIOD → i.jtagTdo = tdo) : ClockAt tdo (k + 1) (step i s) := by
  obtain ⟨hpos, hstored, ⟨hs, hwait, hless⟩ | ⟨hs, hwait, hless, hsample⟩⟩ := h
  · rw [step_setup hi hs]
    split
    · next hend =>
      have hlast : k = JTAG_HALF_PERIOD := Nat.le_antisymm hless (hwait ▸ hend)
      refine ⟨hpos, hstored, .inr ⟨rfl, ?_, Nat.zero_le _, fun hzero => ?_⟩⟩
      · rw [hlast, Nat.zero_add]
      · exact absurd (show 0 = JTAG_HALF_PERIOD from hzero) (by decide)
    · next hend =>
      refine ⟨hpos, hstored, .inl ⟨hs, congrArg (· + 1) hwait, ?_⟩⟩
      omega
  · have hend : ¬ s.jtagWait ≥ JTAG_HALF_PERIOD := by omega
    rw [step_hold hi hs, if_neg hend]
    refine ⟨hpos, hstored, .inr ⟨hs, ?_, ?_, fun hnext => ?_⟩⟩
    · show s.jtagWait + 1 + _ = _
      omega
    · show s.jtagWait + 1 ≤ _
      omega
    · have hlast : s.jtagWait = JTAG_HALF_PERIOD - 1 := Nat.eq_sub_of_add_eq hnext
      have hhalf : JTAG_HALF_PERIOD = 8 := rfl
      show (if s.jtagWait = JTAG_HALF_PERIOD - 1 then i.jtagTdo else _) = tdo
      rw [if_pos hlast, htdo (by omega)]

theorem ClockAt.replies {tdo : Bool} (h : ClockAt tdo (2 * JTAG_HALF_PERIOD + 1) s)
    (hi : i.resetN = true) : Replies tdo (DapEngine.step i s) := by
  have hhalf : JTAG_HALF_PERIOD = 8 := rfl
  obtain ⟨hpos, hstored, ⟨-, -, hless⟩ | ⟨hs, hwait, hless, hsample⟩⟩ := h
  · omega
  · have hend : s.jtagWait = JTAG_HALF_PERIOD := by omega
    rw [step_hold hi hs, if_pos hend.ge, hsample hend]
    exact
      { state := rfl
        responsePos := hpos
        responseLength := rfl
        stored := hstored.concat rfl _ }

/-- The registers of the reply are those of a response under way. -/
theorem Replies.exists_responds {tdo : Bool} (h : Replies tdo s) (hpos : s.requestPos = 0) :
    ∃ o : Outcome, o.reply = [0x14, 0, if tdo then 1 else 0] ∧ Responds o 0 s := by
  refine ⟨⟨_, [], s.transferCount, s.abortCount⟩, rfl, ?_⟩
  exact
    { state := h.state
      requestPos := hpos
      responsePos := h.responsePos
      responseLength := h.responseLength
      more := Nat.zero_lt_succ 2
      stored := h.stored
      counts := ⟨rfl, rfl⟩ }

/-! ### Which edges move the pins -/

theorem drive_unwritten {l : Pin → Bool} {writes : List (Pin × Bool)} {p : Pin}
    (h : ∀ w ∈ writes, w.1 ≠ p) : drive l writes p = l p := by
  induction writes generalizing l with
  | nil => rfl
  | cons w writes ih =>
    have hrest := ih (l := Function.update l w.1 w.2) fun w' hw' =>
      h w' (List.mem_cons_of_mem w hw')
    rw [drive, List.foldl_cons, ← drive, hrest,
      Function.update_of_ne (h w List.mem_cons_self).symm]

/-- A pin changes only where it is driven. -/
theorem pinWrites_of_level {p : Pin} (hi : i.resetN = true)
    (h : level (DapEngine.step i s) p ≠ level s p) : ∃ w ∈ pinWrites i s, w.1 = p := by
  rw [step_level hi] at h
  by_contra hnone
  exact h (drive_unwritten fun w hw hp => hnone ⟨w, hw, hp⟩)

/-- Apart from TCK only the two requests drive the pins. -/
theorem pinWrites_cases {w : Pin × Bool} (h : w ∈ pinWrites i s) :
    w.1 = .tck ∨ (w.1 = .tms ∨ w.1 = .tdi) ∧ ClocksTarget i s ∨
      (w.1 = .ntrst ∨ w.1 = .nreset) ∧ DrivesResets i s := by
  rw [pinWrites] at h
  split at h
  · next hs =>
    split at h
    · next hresets =>
      have hdrives : DrivesResets i s := ⟨hs, UInt8.toNat_inj.mp hresets.1, hresets.2⟩
      simp only [List.mem_cons, List.not_mem_nil, or_false] at h
      rcases h with rfl | rfl
      · exact .inr (.inr ⟨.inl rfl, hdrives⟩)
      · exact .inr (.inr ⟨.inr rfl, hdrives⟩)
    · split at h
      · next hclock =>
        have hclocks : ClocksTarget i s := ⟨hs, UInt8.toNat_inj.mp hclock.1, hclock.2⟩
        simp only [List.mem_cons, List.not_mem_nil, or_false] at h
        rcases h with rfl | rfl | rfl
        · exact .inr (.inl ⟨.inl rfl, hclocks⟩)
        · exact .inr (.inl ⟨.inr rfl, hclocks⟩)
        · exact .inl rfl
      · contradiction
  · split at h
    · exact .inl (congrArg Prod.fst (List.mem_singleton.mp h))
    · contradiction
  · split at h
    · exact .inl (congrArg Prod.fst (List.mem_singleton.mp h))
    · contradiction
  · contradiction

theorem clocksTarget_of_data (hi : i.resetN = true)
    (h : (DapEngine.step i s).jtagTms ≠ s.jtagTms ∨ (DapEngine.step i s).jtagTdi ≠ s.jtagTdi) :
    ClocksTarget i s := by
  obtain ⟨w, hw, hp⟩ : ∃ w ∈ pinWrites i s, w.1 = .tms ∨ w.1 = .tdi := by
    rcases h with h | h
    · obtain ⟨w, hw, hp⟩ := @pinWrites_of_level i s .tms hi h
      exact ⟨w, hw, .inl hp⟩
    · obtain ⟨w, hw, hp⟩ := @pinWrites_of_level i s .tdi hi h
      exact ⟨w, hw, .inr hp⟩
  rcases pinWrites_cases hw with htck | ⟨-, hclocks⟩ | ⟨hresets, -⟩
  · rcases hp with hp | hp <;> rw [htck] at hp <;> contradiction
  · exact hclocks
  · rcases hp with hp | hp <;> rw [hp] at hresets <;> simp at hresets

theorem drivesResets_of_resets (hi : i.resetN = true)
    (h : (DapEngine.step i s).jtagNtrst ≠ s.jtagNtrst ∨
      (DapEngine.step i s).jtagNreset ≠ s.jtagNreset) :
    DrivesResets i s := by
  obtain ⟨w, hw, hp⟩ : ∃ w ∈ pinWrites i s, w.1 = .ntrst ∨ w.1 = .nreset := by
    rcases h with h | h
    · obtain ⟨w, hw, hp⟩ := @pinWrites_of_level i s .ntrst hi h
      exact ⟨w, hw, .inl hp⟩
    · obtain ⟨w, hw, hp⟩ := @pinWrites_of_level i s .nreset hi h
      exact ⟨w, hw, .inr hp⟩
  rcases pinWrites_cases hw with htck | ⟨hdata, -⟩ | ⟨-, hdrives⟩
  · rcases hp with hp | hp <;> rw [htck] at hp <;> contradiction
  · rcases hp with hp | hp <;> rw [hp] at hdata <;> simp at hdata
  · exact hdrives

end

/-! ### Runs -/

/-- The rules that the pins of a real target keep, resets of the engine aside. -/
structure PinRules (r : Run Input State) : Prop where
  /-- TCK is low but in one state. -/
  hold : ∀ t, (r.state t).jtagTck = true ↔ (r.state t).state = .JTAG_HOLD
  /-- TCK is high in nine clocks after each request for a clock, and at no other time. -/
  pulse : ∀ t, (r.state t).jtagTck = true ↔
    ∃ q request, Asks r 0x14 q request ∧ q + 11 ≤ t ∧ t < q + 20 ∧ Released r.input (q + 1) t
  /-- It rises once for each of them. -/
  rise : ∀ t, (r.state t).jtagTck = false ∧ (r.state (t + 1)).jtagTck = true ↔
    ∃ q request, t = q + 10 ∧ Asks r 0x14 q request ∧ Released r.input (q + 1) (t + 1)
  /-- No byte of another request is taken before TCK is low again. -/
  alone : ∀ q request t, Asks r 0x14 q request → q < t → t ≤ q + 20 →
    Released r.input (q + 1) t → commandReady (r.state t) = false
  /-- TMS and TDI are as the request has them, from nine clocks before TCK rises on. -/
  data : ∀ q request t, Asks r 0x14 q request → q + 2 ≤ t → t ≤ q + 20 →
    Released r.input (q + 1) t →
    (2 < request.length → (r.state t).jtagTms = (byteAt request 2).toBitVec.getLsbD 7) ∧
      (3 < request.length → (r.state t).jtagTdi = (byteAt request 3).toBitVec.getLsbD 0)
  /-- TMS and TDI do not change while TCK is high, nor at its rise and in the eight clocks
  before. -/
  stable : ∀ t, (r.state (t + 1)).jtagTms ≠ (r.state t).jtagTms ∨
      (r.state (t + 1)).jtagTdi ≠ (r.state t).jtagTdi →
    ((r.input t).resetN = true → (r.state t).jtagTck = false) ∧
      ∀ k ≤ 8, (r.state (t + 1 + k)).jtagTck = false
  /-- The next bytes handed over are the reply, and it holds TDO as it was in the last clock but
  one in which TCK was high. -/
  reply : ∀ q request n, Asks r 0x14 q request → Released r.input (q + 1) (q + 20 + n) →
    (r.state (q + 18)).jtagTck = true ∧ (r.state (q + 19)).jtagTck = true ∧
      (r.state (q + 20)).jtagTck = false ∧ r.during handedOver (q + 1) 19 = [] ∧
      (r.during handedOver (q + 20) n).take 3 <+:
        markLast [0x14, 0, if (r.input (q + 18)).jtagTdo then 1 else 0] ∧
      ((r.during handedOver (q + 20) n).length < 3 →
        responseValid (r.state (q + 20 + n)) = true)
  /-- The resets change only as a request for them has it. -/
  resets : ∀ t, (r.input t).resetN = true →
    (r.state (t + 1)).jtagNtrst ≠ (r.state t).jtagNtrst ∨
      (r.state (t + 1)).jtagNreset ≠ (r.state t).jtagNreset →
    ∃ q request, t = q + 1 ∧ Asks r 0x10 q request ∧ 1 < request.length
  /-- It drives both of them. -/
  driven : ∀ q request, Asks r 0x10 q request → 1 < request.length →
    (r.input (q + 1)).resetN = true →
    (r.state (q + 2)).jtagNtrst = (byteAt request 1).toBitVec.getLsbD 5 ∧
      (r.state (q + 2)).jtagNreset = (byteAt request 1).toBitVec.getLsbD 7

section

variable {s₀ : State} {inp : ℕ → Input} {request : List UInt8} {p q t : ℕ}

/-- The engine after a reset. -/
def engine (s₀ : State) (inp : ℕ → Input) : Run Input State := run (resetUpdate s₀) inp

theorem engine_succ (t : ℕ) :
    (engine s₀ inp).state (t + 1) = step (inp t) ((engine s₀ inp).state t) := rfl

theorem Released.mono {u : ℕ} (h : Released inp p t) (hu : u ≤ t) : Released inp p u :=
  fun v hpv hvu => h v hpv (Nat.lt_of_lt_of_le hvu hu)

theorem engine_tck (t : ℕ) :
    ((engine s₀ inp).state t).jtagTck = true ↔ ((engine s₀ inp).state t).state = .JTAG_HOLD :=
  (run (resetUpdate s₀) inp).invariant (P := fun s => s.jtagTck = true ↔ s.state = .JTAG_HOLD)
    (iff_of_false Bool.false_ne_true Phase.noConfusion) (fun _ _ => step_tck) t

/-- What follows a request for a clock. -/
theorem clockAt (hclock : ClocksTarget (inp p) ((engine s₀ inp).state p)) {k : ℕ}
    (hk : k ≤ 2 * JTAG_HALF_PERIOD + 1) (hreleased : Released inp p (p + 1 + k)) :
    ClockAt (inp (p + 17)).jtagTdo k ((engine s₀ inp).state (p + 1 + k)) := by
  induction k with
  | zero => exact hclock.clockAt (hreleased p le_rfl (by omega))
  | succ k ih =>
    have hnow := ih (by omega) (hreleased.mono (by omega))
    have hi : (inp (p + 1 + k)).resetN = true := hreleased _ (by omega) (by omega)
    have hnext := @engine_succ s₀ inp (p + 1 + k)
    rw [← Nat.add_assoc, hnext]
    refine hnow.step hi (by omega) fun hlast => ?_
    have htime : p + 1 + k = p + 17 := by
      rw [hlast, JTAG_HALF_PERIOD]
    rw [htime]

/-- Where the engine counts there was a request, and no reset since. -/
theorem counting_origin
    (h : ((engine s₀ inp).state t).state = .JTAG_SETUP ∨
      ((engine s₀ inp).state t).state = .JTAG_HOLD) :
    ∃ p k, t = p + 1 + k ∧ k ≤ 2 * JTAG_HALF_PERIOD + 1 ∧
      ClocksTarget (inp p) ((engine s₀ inp).state p) ∧ Released inp p t := by
  induction t with
  | zero => exact h.elim Phase.noConfusion Phase.noConfusion
  | succ t ih =>
    have hi : (inp t).resetN = true := by
      by_contra hreset
      have hcapture : ((engine s₀ inp).state (t + 1)).state = .CAPTURE := by
        rw [engine_succ, step, Bool.eq_false_iff.mpr hreset]
        rfl
      rw [hcapture] at h
      exact h.elim Phase.noConfusion Phase.noConfusion
    -- either the request was processed at the last edge, or the engine has counted on
    have hback : ClocksTarget (inp t) ((engine s₀ inp).state t) ∨
        ((engine s₀ inp).state t).state = .JTAG_SETUP ∨
          ((engine s₀ inp).state t).state = .JTAG_HOLD := by
      rcases h with h | h
      · rcases (step_setup_iff hi).mp h with h | h
        · exact .inl h
        · exact .inr (.inl h.1)
      · rcases (step_hold_iff hi).mp h with h | h
        · exact .inr (.inl h.1)
        · exact .inr (.inr h.1)
    rcases hback with hclock | hcounting
    · refine ⟨t, 0, rfl, Nat.zero_le _, hclock, fun u hu hut => ?_⟩
      obtain rfl : u = t := by omega
      exact hi
    · obtain ⟨p, k, rfl, hk, hclock, hreleased⟩ := ih hcounting
      have hlonger : Released inp p (p + 1 + k + 1) := by
        intro u hu hut
        by_cases hnow : u = p + 1 + k
        · rw [hnow]
          exact hi
        · exact hreleased u hu (by omega)
      have hnot : k ≠ 2 * JTAG_HALF_PERIOD + 1 := by
        rintro rfl
        have hreplies := (clockAt hclock hk hreleased).replies hi
        have hstate : ((engine s₀ inp).state
            (p + 1 + (2 * JTAG_HALF_PERIOD + 1) + 1)).state = .RESPOND := hreplies.state
        rw [hstate] at h
        exact h.elim Phase.noConfusion Phase.noConfusion
      exact ⟨p, k + 1, rfl, by omega, hclock, hlonger⟩

theorem tck_high_iff (t : ℕ) :
    ((engine s₀ inp).state t).jtagTck = true ↔
      ∃ p, p + 10 ≤ t ∧ t < p + 19 ∧ ClocksTarget (inp p) ((engine s₀ inp).state p) ∧
        Released inp p t := by
  have hhalf : JTAG_HALF_PERIOD = 8 := rfl
  rw [engine_tck]
  constructor
  · intro hhold
    obtain ⟨p, k, rfl, hk, hclock, hreleased⟩ := counting_origin (.inr hhold)
    obtain ⟨-, -, ⟨hs, -⟩ | ⟨-, hwait, -⟩⟩ := clockAt hclock hk hreleased
    · rw [hhold] at hs
      contradiction
    · exact ⟨p, by omega, by omega, hclock, hreleased⟩
  · rintro ⟨p, hafter, hbefore, hclock, hreleased⟩
    obtain ⟨k, rfl⟩ : ∃ k, t = p + 1 + k := ⟨t - p - 1, by omega⟩
    obtain ⟨-, -, ⟨-, -, hless⟩ | ⟨hs, -⟩⟩ := clockAt hclock (by omega) hreleased
    · omega
    · exact hs

/-- Up to the reply the engine counts. -/
theorem clock_counts (hclock : ClocksTarget (inp p) ((engine s₀ inp).state p)) (hafter : p < t)
    (hbefore : t < p + 19) (hreleased : Released inp p t) :
    ((engine s₀ inp).state t).state = .JTAG_SETUP ∨
      ((engine s₀ inp).state t).state = .JTAG_HOLD := by
  obtain ⟨k, rfl⟩ : ∃ k, t = p + 1 + k := ⟨t - p - 1, by omega⟩
  have hk : k ≤ 2 * JTAG_HALF_PERIOD + 1 := by
    rw [JTAG_HALF_PERIOD]
    omega
  obtain ⟨-, -, ⟨hs, -⟩ | ⟨hs, -⟩⟩ := clockAt hclock hk hreleased
  · exact .inl hs
  · exact .inr hs

theorem clock_replies (hclock : ClocksTarget (inp p) ((engine s₀ inp).state p))
    (hreleased : Released inp p (p + 19)) :
    Replies (inp (p + 17)).jtagTdo ((engine s₀ inp).state (p + 19)) := by
  have hlast := clockAt hclock (k := 17) le_rfl (hreleased.mono (by omega))
  exact hlast.replies (hreleased (p + 18) (by omega) (by omega))

/-- No other request is taken or processed meanwhile. -/
theorem clock_alone (hclock : ClocksTarget (inp p) ((engine s₀ inp).state p)) (hafter : p < t)
    (hbefore : t ≤ p + 19) (hreleased : Released inp p t) :
    ((engine s₀ inp).state t).state ≠ .CAPTURE ∧ ((engine s₀ inp).state t).state ≠ .PREPARE := by
  obtain rfl | hless := Nat.eq_or_lt_of_le hbefore
  · rw [(clock_replies hclock hreleased).state]
    exact ⟨Phase.noConfusion, Phase.noConfusion⟩
  · rcases clock_counts hclock hafter hless hreleased with hs | hs <;> rw [hs] <;>
      exact ⟨Phase.noConfusion, Phase.noConfusion⟩

theorem tck_rises_iff (t : ℕ) :
    ((engine s₀ inp).state t).jtagTck = false ∧ ((engine s₀ inp).state (t + 1)).jtagTck = true ↔
      ∃ p, t = p + 9 ∧ ClocksTarget (inp p) ((engine s₀ inp).state p) ∧
        Released inp p (t + 1) := by
  constructor
  · rintro ⟨hlow, hhigh⟩
    obtain ⟨p, hafter, hbefore, hclock, hreleased⟩ := (tck_high_iff _).mp hhigh
    refine ⟨p, ?_, hclock, hreleased⟩
    by_contra hlate
    have hhigh' := (tck_high_iff t).mpr
      ⟨p, by omega, by omega, hclock, hreleased.mono (Nat.le_succ t)⟩
    exact Bool.false_ne_true (hlow.symm.trans hhigh')
  · rintro ⟨p, rfl, hclock, hreleased⟩
    refine ⟨Bool.eq_false_iff.mpr fun hhigh => ?_,
      (tck_high_iff _).mpr ⟨p, by omega, by omega, hclock, hreleased⟩⟩
    -- a pulse that is not over would be that of an earlier request
    obtain ⟨p', hafter, hbefore, hclock', hreleased'⟩ := (tck_high_iff _).mp hhigh
    exact (clock_alone hclock' (by omega) (by omega) (hreleased'.mono (by omega))).2 hclock.1

/-- TMS and TDI until the reply. -/
theorem clock_data (hclock : ClocksTarget (inp p) ((engine s₀ inp).state p)) (hafter : p + 1 ≤ t)
    (hbefore : t ≤ p + 19) (hreleased : Released inp p t) :
    ((engine s₀ inp).state t).jtagTms =
        ((engine s₀ inp).state p).headerCount.toBitVec.getLsbD 7 ∧
      ((engine s₀ inp).state t).jtagTdi =
        ((engine s₀ inp).state p).headerData.toBitVec.getLsbD 0 := by
  induction t, hafter using Nat.le_induction with
  | base =>
    rw [engine_succ, step_clock (hreleased p le_rfl (Nat.lt_succ_self p)) hclock.1 hclock.2.1
      hclock.2.2]
    exact ⟨rfl, rfl⟩
  | succ t hafter ih =>
    obtain ⟨htms, htdi⟩ := ih (by omega) (hreleased.mono (Nat.le_succ t))
    have hi : (inp t).resetN = true := hreleased t (by omega) (Nat.lt_succ_self t)
    -- only a request moves them
    have hsame : ((engine s₀ inp).state (t + 1)).jtagTms = ((engine s₀ inp).state t).jtagTms ∧
        ((engine s₀ inp).state (t + 1)).jtagTdi = ((engine s₀ inp).state t).jtagTdi := by
      by_contra hmoved
      rw [not_and_or] at hmoved
      exact (clock_alone hclock (by omega) (by omega) (hreleased.mono (Nat.le_succ t))).2
        (clocksTarget_of_data hi hmoved).1
    exact ⟨hsame.1.trans htms, hsame.2.trans htdi⟩

/-- After a change of TMS or TDI it takes nine clocks until TCK rises. -/
theorem data_settled
    (h : ((engine s₀ inp).state (t + 1)).jtagTms ≠ ((engine s₀ inp).state t).jtagTms ∨
      ((engine s₀ inp).state (t + 1)).jtagTdi ≠ ((engine s₀ inp).state t).jtagTdi) {k : ℕ}
    (hk : k ≤ 8) : ((engine s₀ inp).state (t + 1 + k)).jtagTck = false := by
  refine Bool.eq_false_iff.mpr fun hhigh => ?_
  obtain ⟨p, hafter, hbefore, hclock, hreleased⟩ := (tck_high_iff _).mp hhigh
  -- the request that has made TCK rise was processed earlier, so the change is not one of its own
  have hi : (inp t).resetN = true := hreleased t (by omega) (by omega)
  have hdata : ClocksTarget (inp t) ((engine s₀ inp).state t) := clocksTarget_of_data hi h
  exact (clock_alone hclock (by omega) (by omega) (hreleased.mono (by omega))).2 hdata.1

/-- What is handed over from the beginning of a response on. -/
theorem Responds.during {o : Outcome} (h : Responds o 0 ((engine s₀ inp).state p)) (n : ℕ)
    (hreleased : Released inp p (p + n)) :
    Responds o ((engine s₀ inp).during handedOver p n).length ((engine s₀ inp).state (p + n)) ∧
        (engine s₀ inp).during handedOver p n <+: markLast o.reply ∨
      markLast o.reply <+: (engine s₀ inp).during handedOver p n := by
  induction n with
  | zero => exact .inl ⟨h, List.nil_prefix⟩
  | succ n ih =>
    rw [Run.during_succ]
    rcases ih (hreleased.mono (Nat.le_succ _)) with ⟨hnow, hfront⟩ | hwhole
    · have hstep := hnow.step (hreleased (p + n) (Nat.le_add_right p n) (Nat.lt_succ_self _))
      change _ at hstep
      split at hstep
      · obtain ⟨⟨hk, hbyte⟩, hnext⟩ := hstep
        have hlonger : (engine s₀ inp).during handedOver p n ++
            handedOver (inp (p + n)) ((engine s₀ inp).state (p + n)) <+: markLast o.reply := by
          rw [hbyte]
          exact List.concat_get_prefix hfront hk
        have hlength : ((engine s₀ inp).during handedOver p n ++
            handedOver (inp (p + n)) ((engine s₀ inp).state (p + n))).length =
              ((engine s₀ inp).during handedOver p n).length + 1 := by
          rw [hbyte, List.length_append]
          rfl
        obtain hmore | ⟨hlast, -⟩ := hnext
        · refine .inl ⟨?_, hlonger⟩
          change Responds o (_ ++ handedOver (inp (p + n)) _).length _
          rw [hlength]
          exact hmore
        · refine .inr ?_
          rw [← markLast_length] at hlast
          exact (hlonger.eq_of_length (hlength.trans hlast)) ▸ List.prefix_rfl
      · refine .inl ?_
        change Responds o (_ ++ handedOver (inp (p + n)) _).length _ ∧
          _ ++ handedOver (inp (p + n)) _ <+: _
        rw [hstep.1, List.append_nil]
        exact ⟨hstep.2, hfront⟩
    · exact .inr (hwhole.trans (List.prefix_append _ _))

/-! ### What is processed was handed over -/

section

variable {r : Run Input State} (hi : (r.input t).resetN = true)

include hi

theorem underWay_wait (hfire : commandFire (r.input t) (r.state t) = false) :
    underWay r (t + 1) = underWay r t := by
  simp [underWay, hi, hfire]

theorem underWay_last (hfire : commandFire (r.input t) (r.state t) = true)
    (hlast : (r.input t).commandLast = true) : underWay r (t + 1) = [] := by
  simp [underWay, hi, hfire, hlast]

theorem underWay_byte (hfire : commandFire (r.input t) (r.state t) = true)
    (hlast : (r.input t).commandLast = false) :
    underWay r (t + 1) = underWay r t ++ [(r.input t).commandData] := by
  simp [underWay, hi, hfire, hlast]

end

/-- What the engine holds of the request under way. -/
structure Tracks (bytes : List UInt8) (s : State) : Prop where
  captures : s.state = .CAPTURE → ∃ s₁, Captures s₁ bytes s
  busy : s.state ≠ .CAPTURE → bytes = [] ∧ s.requestPos = 0

theorem Idle.tracks {s : State} (h : Idle s) : Tracks [] s :=
  { captures := fun _ => ⟨s, h.captures⟩
    busy := fun hbusy => absurd h.state hbusy }

theorem engine_tracks (t : ℕ) :
    Tracks (underWay (engine s₀ inp) t) ((engine s₀ inp).state t) := by
  induction t with
  | zero => exact Idle.tracks ⟨rfl, rfl⟩
  | succ t ih =>
    cases hi : (inp t).resetN with
    | false =>
      rw [show underWay (engine s₀ inp) (t + 1) = [] from if_pos hi, engine_succ, step, hi]
      exact Idle.tracks ⟨rfl, rfl⟩
    | true =>
      by_cases hs : ((engine s₀ inp).state t).state = .CAPTURE
      · obtain ⟨s₁, hbytes⟩ := ih.captures hs
        cases hfire : commandFire (inp t) ((engine s₀ inp).state t) with
        | false =>
          have hwait := hbytes.wait hi hfire
          rw [underWay_wait hi hfire]
          exact ⟨fun _ => ⟨s₁, hwait⟩, fun hbusy => absurd hwait.state hbusy⟩
        | true =>
          cases hlast : (inp t).commandLast with
          | false =>
            have hbyte := hbytes.byte hi hfire hlast
            rw [underWay_byte hi hfire hlast]
            exact ⟨fun _ => ⟨s₁, hbyte⟩, fun hbusy => absurd hbyte.state hbusy⟩
          | true =>
            have hwhole := hbytes.last hi hfire hlast
            have hstate : ((engine s₀ inp).state (t + 1)).state = .PREPARE := hwhole.state
            refine ⟨fun hcapture => ?_, fun _ => ⟨underWay_last hi hfire hlast, hwhole.requestPos⟩⟩
            rw [hstate] at hcapture
            exact Phase.noConfusion hcapture
      · -- while the engine is busy no byte comes, and it is idle when it is over
        obtain ⟨hnone, hpos⟩ := ih.busy hs
        have hfire : commandFire (inp t) ((engine s₀ inp).state t) = false :=
          Bool.eq_false_iff.mpr fun h => hs (commandFire_capture h)
        have hpos' : ((engine s₀ inp).state (t + 1)).requestPos = 0 :=
          (step_busy hi hs).2.trans hpos
        rw [underWay_wait hi hfire, hnone]
        exact ⟨fun hcapture => ⟨_, Idle.captures ⟨hcapture, hpos'⟩⟩, fun _ => ⟨rfl, hpos'⟩⟩

/-- A request that has been taken is processed at the next edge. -/
theorem Takes.prepares (h : Takes (engine s₀ inp) q request) :
    ∃ s₁, Prepares s₁ request ((engine s₀ inp).state (q + 1)) := by
  obtain ⟨s₁, hbytes⟩ := (engine_tracks q).captures (commandFire_capture h.fire)
  rw [h.bytes]
  exact ⟨s₁, hbytes.last h.released h.fire h.last⟩

theorem Takes.ne_nil {r : Run Input State} (h : Takes r q request) : request ≠ [] := by
  rw [h.bytes]
  exact List.concat_ne_nil _ _

/-- And nothing else is processed. -/
theorem exists_takes (h : ((engine s₀ inp).state t).state = .PREPARE) :
    ∃ q request, t = q + 1 ∧ Takes (engine s₀ inp) q request := by
  cases t with
  | zero => exact Phase.noConfusion h
  | succ q =>
    have hi : (inp q).resetN = true := by
      by_contra hreset
      rw [engine_succ, step, Bool.eq_false_iff.mpr hreset] at h
      exact Phase.noConfusion h
    have hs : ((engine s₀ inp).state q).state = .CAPTURE := by
      have hnext := step_state (s := (engine s₀ inp).state q) hi
      rw [← engine_succ, h] at hnext
      cases hs : ((engine s₀ inp).state q).state <;> rw [hs] at hnext <;>
        simp [successors] at hnext
    have hnext := congrArg Prod.fst (step_capture hi hs)
    rw [← engine_succ] at hnext
    dsimp only at hnext
    rw [h] at hnext
    cases hfire : commandFire (inp q) ((engine s₀ inp).state q) with
    | false =>
      rw [hfire, if_neg Bool.false_ne_true] at hnext
      exact Phase.noConfusion hnext
    | true =>
      cases hlast : (inp q).commandLast with
      | false =>
        rw [hfire, hlast, if_pos rfl, if_neg Bool.false_ne_true] at hnext
        exact Phase.noConfusion hnext
      | true => exact ⟨q, _, rfl, hi, hfire, hlast, rfl⟩

/-- The engine processes what has been handed over. -/
theorem processes_iff {command : UInt8} :
    (((engine s₀ inp).state p).state = .PREPARE ∧
        ((engine s₀ inp).state p).headerCommand = command ∧ (inp p).useRealTarget = true) ↔
      ∃ q request, p = q + 1 ∧ Asks (engine s₀ inp) command q request := by
  constructor
  · rintro ⟨hs, hcommand, hreal⟩
    obtain ⟨q, request, rfl, htakes⟩ := exists_takes hs
    obtain ⟨s₁, hprepares⟩ := htakes.prepares
    refine ⟨q, request, rfl, htakes, ?_, hreal⟩
    rw [← hprepares.command htakes.ne_nil, hcommand]
  · rintro ⟨q, request, rfl, hasks⟩
    obtain ⟨s₁, hprepares⟩ := hasks.toTakes.prepares
    refine ⟨hprepares.state, ?_, hasks.real⟩
    rw [hprepares.command hasks.ne_nil, hasks.command]

/-- A request for a clock that has been handed over is processed. -/
theorem Asks.clocksTarget (h : Asks (engine s₀ inp) 0x14 q request) :
    ClocksTarget (inp (q + 1)) ((engine s₀ inp).state (q + 1)) :=
  processes_iff.mpr ⟨q, request, rfl, h⟩

theorem clocksTarget_iff :
    ClocksTarget (inp p) ((engine s₀ inp).state p) ↔
      ∃ q request, p = q + 1 ∧ Asks (engine s₀ inp) 0x14 q request :=
  processes_iff

/-- A request for the resets that is processed has been handed over. -/
theorem DrivesResets.exists_asks (h : DrivesResets (inp p) ((engine s₀ inp).state p)) :
    ∃ q request, p = q + 1 ∧ Asks (engine s₀ inp) 0x10 q request ∧ 1 < request.length := by
  obtain ⟨hs, hcommand, hreal, hlong⟩ := h
  obtain ⟨q, request, rfl, hasks⟩ := processes_iff.mp ⟨hs, hcommand, hreal⟩
  obtain ⟨s₁, hprepares⟩ := hasks.prepares
  exact ⟨q, request, rfl, hasks, hprepares.requestLength ▸ hlong⟩

/-- TMS and TDI are driven from the request. -/
theorem Asks.data (h : Asks (engine s₀ inp) 0x14 q request) (hafter : q + 2 ≤ t)
    (hbefore : t ≤ q + 20) (hreleased : Released inp (q + 1) t) :
    (2 < request.length →
        ((engine s₀ inp).state t).jtagTms = (byteAt request 2).toBitVec.getLsbD 7) ∧
      (3 < request.length →
        ((engine s₀ inp).state t).jtagTdi = (byteAt request 3).toBitVec.getLsbD 0) := by
  obtain ⟨htms, htdi⟩ := clock_data h.clocksTarget hafter hbefore hreleased
  obtain ⟨s₁, hprepares⟩ := h.prepares
  refine ⟨fun hlong => ?_, fun hlong => ?_⟩
  · rw [htms, hprepares.headerCount, getD_of_lt hlong]
  · rw [htdi, hprepares.headerData, getD_of_lt hlong]

/-- The resets are driven from the request. -/
theorem Asks.driven (h : Asks (engine s₀ inp) 0x10 q request) (hlong : 1 < request.length)
    (hi : (inp (q + 1)).resetN = true) :
    ((engine s₀ inp).state (q + 2)).jtagNtrst = (byteAt request 1).toBitVec.getLsbD 5 ∧
      ((engine s₀ inp).state (q + 2)).jtagNreset = (byteAt request 1).toBitVec.getLsbD 7 := by
  obtain ⟨s₁, hprepares⟩ := h.prepares
  have hcommand : ((engine s₀ inp).state (q + 1)).headerCommand.toNat = 0x10 := by
    rw [hprepares.command h.ne_nil, h.command]
    rfl
  have hlength : ((engine s₀ inp).state (q + 1)).requestLength > 1 :=
    hprepares.requestLength ▸ hlong
  have hbyte : ((engine s₀ inp).state (q + 1)).headerArgument = byteAt request 1 := by
    rw [hprepares.headerArgument, getD_of_lt hlong]
  have hlevel := step_level (s := (engine s₀ inp).state (q + 1)) hi
  rw [← engine_succ, pinWrites, hprepares.state] at hlevel
  dsimp only at hlevel
  rw [if_pos ⟨hcommand, h.real, hlength⟩, hbyte] at hlevel
  exact ⟨congrFun hlevel .ntrst, congrFun hlevel .nreset⟩

/-- The reply to a clock. -/
theorem Asks.reply (h : Asks (engine s₀ inp) 0x14 q request) (n : ℕ)
    (hreleased : Released inp (q + 1) (q + 20 + n)) :
    (engine s₀ inp).during handedOver (q + 1) 19 = [] ∧
      ((engine s₀ inp).during handedOver (q + 20) n).take 3 <+:
        markLast [0x14, 0, if (inp (q + 18)).jtagTdo then 1 else 0] ∧
      (((engine s₀ inp).during handedOver (q + 20) n).length < 3 →
        responseValid ((engine s₀ inp).state (q + 20 + n)) = true) := by
  refine ⟨?_, ?_⟩
  · refine Run.during_eq_nil _ fun k hk => handedOver_quiet ?_
    cases k with
    | zero =>
      rw [Nat.add_zero, h.clocksTarget.1]
      exact Phase.noConfusion
    | succ k =>
      rcases clock_counts h.clocksTarget (t := q + 1 + (k + 1)) (by omega) (by omega)
        (hreleased.mono (by omega)) with hs | hs <;> rw [hs] <;> exact Phase.noConfusion
  · have hreplies : Replies (inp (q + 18)).jtagTdo ((engine s₀ inp).state (q + 20)) :=
      clock_replies h.clocksTarget (hreleased.mono (by omega))
    have hpos := ((engine_tracks (q + 20)).busy (by rw [hreplies.state]; decide)).2
    obtain ⟨o, hreply, hresponds⟩ := hreplies.exists_responds hpos
    have hlength : (markLast o.reply).length = 3 := by
      rw [markLast_length, hreply]
      rfl
    rw [← hreply]
    rcases hresponds.during n fun u hu => hreleased u (by omega) with ⟨hnow, hfront⟩ | hwhole
    · refine ⟨(List.take_prefix 3 _).trans hfront, fun _ => ?_⟩
      rw [responseValid, hnow.state]
      rfl
    · refine ⟨?_, fun hshort => absurd hwhole.length_le (by omega)⟩
      obtain ⟨more, hmore⟩ := hwhole
      rw [← hmore, List.take_left' hlength]

end

/-- **The pins of a real target.** After a reset, whatever comes in, and with more resets at any
time, the pins keep the rules. -/
theorem jtag_clocking (s₀ : State) (inp : ℕ → Input) : PinRules (run (resetUpdate s₀) inp) where
  hold := engine_tck
  pulse t := by
    rw [show (run (resetUpdate s₀) inp).state t = (engine s₀ inp).state t from rfl, tck_high_iff]
    constructor
    · rintro ⟨p, hafter, hbefore, hclock, hreleased⟩
      obtain ⟨q, request, rfl, hasks⟩ := clocksTarget_iff.mp hclock
      exact ⟨q, request, hasks, hafter, hbefore, hreleased⟩
    · rintro ⟨q, request, hasks, hafter, hbefore, hreleased⟩
      exact ⟨q + 1, hafter, hbefore, hasks.clocksTarget, hreleased⟩
  rise t := by
    refine (tck_rises_iff t).trans ?_
    constructor
    · rintro ⟨p, rfl, hclock, hreleased⟩
      obtain ⟨q, request, rfl, hasks⟩ := clocksTarget_iff.mp hclock
      exact ⟨q, request, rfl, hasks, hreleased⟩
    · rintro ⟨q, request, rfl, hasks, hreleased⟩
      exact ⟨q + 1, rfl, hasks.clocksTarget, hreleased⟩
  alone q request t hasks hafter hbefore hreleased := by
    have hstate : ((engine s₀ inp).state t).state ≠ .CAPTURE := by
      obtain rfl | hlater := Nat.eq_or_lt_of_le hafter
      · rw [hasks.clocksTarget.1]
        exact Phase.noConfusion
      · exact (clock_alone hasks.clocksTarget hlater hbefore hreleased).1
    refine Bool.eq_false_iff.mpr fun hready => hstate ?_
    exact beq_iff_eq.mp (Bool.and_eq_true_iff.mp hready).1
  data _ _ _ := Asks.data
  stable t h := by
    refine ⟨fun hi => ?_, fun k => data_settled h⟩
    have hdata : ClocksTarget (inp t) ((engine s₀ inp).state t) := clocksTarget_of_data hi h
    refine Bool.eq_false_iff.mpr fun htck => ?_
    have hhold := (engine_tck t).mp htck
    rw [hdata.1] at hhold
    contradiction
  reply q request n hasks hreleased := by
    have hclock := hasks.clocksTarget
    refine ⟨(tck_high_iff _).mpr ⟨q + 1, by omega, by omega, hclock, hreleased.mono (by omega)⟩,
      (tck_high_iff _).mpr ⟨q + 1, by omega, by omega, hclock, hreleased.mono (by omega)⟩, ?_,
      hasks.reply n hreleased⟩
    refine Bool.eq_false_iff.mpr fun htck => ?_
    have hhold := (engine_tck _).mp htck
    rw [(clock_replies hclock (hreleased.mono (by omega))).state] at hhold
    contradiction
  resets _ hi h := (drivesResets_of_resets hi h).exists_asks
  driven _ _ := Asks.driven

end DapEngine
