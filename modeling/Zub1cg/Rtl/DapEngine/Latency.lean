import Zub1cg.Rtl.DapEngine.History

/-!
# An exchange under way

Whatever state the engine is in, a response comes within a bounded number of edges. TDO is sampled
at one edge at most: before it nothing of the response depends on TDO, and behind it the response
is the reaction to the level sampled.

## Main definitions

- `latency` — how many edges the engine takes to its response, at most
- `Reacting` — an exchange under way, with the levels of TDO so far

## Main results

- `step_latency` — each edge brings the response nearer
- `Reacting.step`, `Reacting.over` — what is handed over in the end
-/

namespace DapEngine

open Packets (markLast)
open Model.SyntheticDap (transferLoop)

/-! ### How long a response takes -/

/-- The number of edges until the response is offered, at most. -/
def latency (s : State) : ℕ :=
  match s.state with
  | .CAPTURE => 0
  | .PREPARE => 2 * MAX_TRANSFERS + 3
  | .FETCH_TRANSFER => 2 * (s.headerCount.toNat - s.transferIndex) + 2
  | .BUILD_TRANSFER => 2 * (s.headerCount.toNat - s.transferIndex) + 1
  | .RESPOND => 0
  | .JTAG_SETUP => JTAG_HALF_PERIOD - s.jtagWait + (JTAG_HALF_PERIOD + 2)
  | .JTAG_HOLD => JTAG_HALF_PERIOD - s.jtagWait + 1

/-- What no response takes longer than. -/
def MAX_LATENCY : ℕ := 512

theorem latency_le (s : State) : latency s ≤ MAX_LATENCY := by
  have hcount := s.headerCount.toNat_lt
  rw [latency, MAX_LATENCY]
  cases s.state <;> simp only [MAX_TRANSFERS, JTAG_HALF_PERIOD] <;> omega

section

variable {i : Input} {s : State} (hi : i.resetN = true)

include hi

theorem step_latency_prepare (hs : s.state = .PREPARE) :
    latency (step i s) ≤ 2 * MAX_TRANSFERS + 2 := by
  rw [step_prepare hi hs, prepareUpdate]
  split
  · next hclock =>
    rw [Bool.and_eq_true, beq_iff_eq] at hclock
    rw [prepareResponse_clock hclock.1 hclock.2]
    exact show JTAG_HALF_PERIOD - 0 + (JTAG_HALF_PERIOD + 2) ≤ 2 * MAX_TRANSFERS + 2 by decide
  · split
    · exact Nat.zero_le _
    · next hgoes =>
      rw [Bool.not_eq_true, Bool.or_eq_false_iff, bne_eq_false_iff_eq] at hgoes
      obtain ⟨hcommand, haccepted⟩ := hgoes
      rw [prepareResponse_transfer hcommand haccepted]
      rw [transferRejected, Bool.or_eq_false_iff, Bool.or_eq_false_iff, Bool.or_eq_false_iff,
        decide_eq_false_iff_not, decide_eq_false_iff_not] at haccepted
      have hcount := haccepted.1.1.2
      change 2 * (s.headerCount.toNat - 0) + 2 ≤ _
      omega

theorem step_latency_build (hs : s.state = .BUILD_TRANSFER) : latency (step i s) < latency s := by
  have hbefore : latency s = 2 * (s.headerCount.toNat - s.transferIndex) + 1 := by
    rw [latency, hs]
  rw [step_build hi hs, hbefore]
  unfold buildTransferUpdate
  split
  · exact Nat.zero_lt_succ _
  · next hmore =>
    split
    · exact Nat.zero_lt_succ _
    · -- one transfer less to go, whether its byte is fetched or there already
      have hless : ∀ n : State, n.headerCount = s.headerCount →
          n.transferIndex = s.transferIndex + 1 →
          (n.state = .FETCH_TRANSFER ∨ n.state = .BUILD_TRANSFER) →
          latency n < 2 * (s.headerCount.toNat - s.transferIndex) + 1 := by
        rintro n hn hindex (hstate | hstate)
        · rw [latency, hstate, hn, hindex]
          dsimp only
          omega
        · rw [latency, hstate, hn, hindex]
          dsimp only
          omega
      split
      · split
        · exact hless _ rfl rfl (.inl rfl)
        · exact hless _ rfl rfl (.inr hs)
      · split
        · split
          · exact hless _ rfl rfl (.inl rfl)
          · exact hless _ rfl rfl (.inr hs)
        · exact Nat.zero_lt_succ _

/-- **Each edge brings the response nearer.** -/
theorem step_latency (hcapture : s.state ≠ .CAPTURE) (hrespond : s.state ≠ .RESPOND) :
    latency (step i s) < latency s := by
  cases hs : s.state with
  | CAPTURE => exact absurd hs hcapture
  | RESPOND => exact absurd hs hrespond
  | PREPARE =>
    have hless := step_latency_prepare hi hs
    rw [show latency s = 2 * MAX_TRANSFERS + 3 by rw [latency, hs]]
    omega
  | FETCH_TRANSFER =>
    rw [step_fetch hi hs, latency, latency, hs]
    exact Nat.lt_succ_self _
  | BUILD_TRANSFER => exact step_latency_build hi hs
  | JTAG_SETUP =>
    rw [step_setup hi hs, show latency s =
      JTAG_HALF_PERIOD - s.jtagWait + (JTAG_HALF_PERIOD + 2) by rw [latency, hs]]
    split
    · change JTAG_HALF_PERIOD - 0 + 1 < _
      omega
    · rw [latency, hs]
      dsimp only
      omega
  | JTAG_HOLD =>
    rw [step_hold hi hs, show latency s = JTAG_HALF_PERIOD - s.jtagWait + 1 by rw [latency, hs]]
    split
    · exact Nat.zero_lt_succ _
    · rw [latency, hs]
      dsimp only
      omega

end

/-! ### An exchange under any level of TDO -/

/-- The same work, if more is known of the inputs. -/
def Work.mono {s₀ : State} {request : List UInt8} {ok ok' : Input → State → Prop} {o : Outcome}
    (w : Work s₀ request ok o) (h : ∀ {i s}, ok' i s → ok i s) : Work s₀ request ok' o :=
  { w with
    begins := fun hi hok => w.begins hi (h hok)
    goes_on := fun hi hok => w.goes_on hi (h hok) }

/-- At this edge TDO is sampled. -/
def Samples (s : State) : Prop := s.state = .JTAG_HOLD ∧ s.jtagWait = JTAG_HALF_PERIOD - 1

/-- TDO has been sampled if the request asks for it: behind the request `c` the engine does not
sample it again. -/
def Sampled (request : List UInt8) (c : List (UInt8 × Bool)) (s : State) : Prop :=
  s.state = .RESPOND ∨ (s.state = .JTAG_HOLD ∧ s.jtagWait = JTAG_HALF_PERIOD) ∨
    s.state = .CAPTURE ∧ c = markLast request

/-- The engine is at some stage of an exchange that ends with the reaction to `tdo`. -/
def At (s₀ : State) (request : List UInt8) (f : Flags) (tdo : Bool) (c r : List (UInt8 × Bool))
    (p : List (Pin × Bool)) (s : State) : Prop :=
  ∃ w : Work s₀ request (Seen f tdo) (reaction s₀ request f tdo), Stage w c r p s

/-- An exchange is under way. Of the request the bytes `c` have been taken and of the response
the bytes `r` have been handed over, the pins `p` have been driven, and TDO has had the levels
`seen`. -/
structure Reacting (s₀ : State) (request : List UInt8) (f : Flags) (seen : Bool → Prop)
    (c r : List (UInt8 × Bool)) (p : List (Pin × Bool)) (s : State) : Prop where
  stage : (∀ tdo, At s₀ request f tdo c r p s) ∨
    ∃ tdo, seen tdo ∧ At s₀ request f tdo c r p s ∧ Sampled request c s
  levels : level s = drive (level s₀) p

section

variable {s₀ s : State} {request : List UInt8} {f : Flags} {tdo : Bool} {seen : Bool → Prop}
  {c r : List (UInt8 × Bool)} {p : List (Pin × Bool)} {i : Input}

/-- The engine works on every request. -/
theorem exists_work (hrequest : request ≠ []) :
    Nonempty (Work s₀ request (Seen f tdo) (reaction s₀ request f tdo)) := by
  rw [reaction]
  by_cases hcommand : byteAt request 0 = 0x05
  · rw [if_pos hcommand]
    cases hrefused : refused request f with
    | true => exact ⟨refusalWork s₀ tdo hrequest hcommand hrefused⟩
    | false =>
      rw [refused, malformed, Bool.or_eq_false_iff, Bool.or_eq_false_iff, Bool.or_eq_false_iff,
        decide_eq_false_iff_not, decide_eq_false_iff_not] at hrefused
      obtain ⟨⟨⟨hlength, hcount⟩, hwait⟩, hfault⟩ := hrefused
      refine ⟨(transferWork s₀ f.forceParityError 0 hcommand (Nat.le_of_not_lt hlength)
        (Nat.le_of_not_lt hcount)).mono fun hseen hs => ?_⟩
      have hflags := hseen.1 hs
      rw [← hflags] at hwait hfault
      exact ⟨hwait, hfault, congrArg Flags.forceParityError hflags⟩
  · rw [if_neg hcommand]
    by_cases hclock : byteAt request 0 = 0x14 ∧ f.useRealTarget = true
    · rw [if_pos hclock]
      exact ⟨clockWork s₀ tdo hrequest hclock.1 hclock.2⟩
    · rw [if_neg hclock]
      exact ⟨(plainWork s₀ f.useRealTarget hrequest hcommand hclock).mono fun hseen hs =>
        congrArg Flags.useRealTarget (hseen.1 hs)⟩

/-- The exchange begins. -/
theorem Idle.reacting (h : Idle s₀) (hrequest : request ≠ []) :
    Reacting s₀ request f seen [] [] [] s₀ where
  stage := .inl fun _ => by
    obtain ⟨w⟩ := exists_work hrequest
    exact ⟨w, .capturing (List.nil_append request).symm hrequest h.captures⟩
  levels := rfl

/-- Outside `CAPTURE` the whole request has been taken. -/
theorem At.whole (h : At s₀ request f tdo c r p s) (hs : s.state ≠ .CAPTURE) :
    c = markLast request := by
  obtain ⟨w, hstage⟩ := h
  cases hstage with
  | capturing hsplit hrest h => exact absurd h.state hs
  | preparing h => rfl
  | working h hleft => rfl
  | responding k h => rfl
  | done h => rfl

theorem Sampled.not_samples (h : Sampled request c s) : ¬ Samples s := by
  rintro ⟨hhold, hwait⟩
  obtain hs | ⟨-, hs⟩ | ⟨hs, -⟩ := h
  · rw [hhold] at hs
    cases hs
  · rw [hwait] at hs
    exact absurd hs (by decide)
  · rw [hhold] at hs
    cases hs

/-- TDO stays sampled. -/
theorem Sampled.step (h : Sampled request c s) (hi : i.resetN = true)
    (hwhole : s.state ≠ .CAPTURE → c = markLast request)
    (hfront : c ++ taken i s <+: markLast request) : Sampled request (c ++ taken i s) (step i s) := by
  obtain hs | ⟨hs, hwait⟩ | ⟨hs, hc⟩ := h
  · have hbusy : s.state ≠ .CAPTURE := by
      rw [hs]
      decide
    rw [taken_busy hbusy, List.append_nil, hwhole hbusy, Sampled, step_released hi, phaseUpdate, hs]
    change (respondUpdate i s _).state = _ ∨ _ ∨ (respondUpdate i s _).state = _ ∧ _
    unfold respondUpdate
    split
    · split
      · exact .inr (.inr ⟨rfl, rfl⟩)
      · exact .inl rfl
    · exact .inl rfl
  · refine .inl ?_
    rw [step_hold hi hs, if_pos (Nat.le_of_eq hwait.symm)]
  · have hnone : taken i s = [] := by
      have hle := hfront.length_le
      rw [List.length_append, hc] at hle
      exact List.eq_nil_of_length_eq_zero (by omega)
    have hfire : commandFire i s = false := by
      by_contra hne
      rw [taken, if_pos (Bool.eq_true_of_not_eq_false hne)] at hnone
      cases hnone
    rw [hnone, List.append_nil, step_no_byte hi hs hfire]
    exact .inr (.inr ⟨hs, hc⟩)

theorem drive_append (l : Pin → Bool) (p q : List (Pin × Bool)) :
    drive l (p ++ q) = drive (drive l p) q := List.foldl_append

theorem At.step (h : At s₀ request f tdo c r p s) (hi : i.resetN = true) (hseen : Seen f tdo i s)
    (hfront : c ++ taken i s <+: markLast request) :
    At s₀ request f tdo (c ++ taken i s) (r ++ handedOver i s) (p ++ pinWrites i s) (step i s) :=
  h.imp fun _ hstage => hstage.step hi hseen hfront

/-- **One edge of an exchange**, whatever TDO is. -/
theorem Reacting.step (h : Reacting s₀ request f seen c r p s) (hi : i.resetN = true)
    (hflags : s.state = .PREPARE → flags i = f) {seen' : Bool → Prop}
    (hseen : ∀ tdo, seen tdo → seen' tdo) (hnow : seen' i.jtagTdo)
    (hfront : c ++ taken i s <+: markLast request) :
    Reacting s₀ request f seen' (c ++ taken i s) (r ++ handedOver i s) (p ++ pinWrites i s)
      (step i s) := by
  refine ⟨?_, by rw [step_level hi, h.levels, drive_append]⟩
  obtain hall | ⟨tdo, hbefore, hat, hsampled⟩ := h.stage
  · by_cases hsamples : Samples s
    · obtain ⟨hs, hwait⟩ := hsamples
      refine .inr ⟨i.jtagTdo, hnow,
        (hall i.jtagTdo).step hi ⟨hflags, fun _ _ => rfl⟩ hfront, .inr (.inl ?_)⟩
      have hnot : ¬ s.jtagWait ≥ JTAG_HALF_PERIOD := by
        rw [hwait]
        decide
      rw [step_hold hi hs, if_neg hnot]
      refine ⟨hs, ?_⟩
      change s.jtagWait + 1 = _
      rw [hwait]
      rfl
    · exact .inl fun tdo =>
        (hall tdo).step hi ⟨hflags, fun hs hwait => absurd ⟨hs, hwait⟩ hsamples⟩ hfront
  · refine .inr ⟨tdo, hseen tdo hbefore, hat.step hi ⟨hflags, fun hs hwait => ?_⟩ hfront,
      hsampled.step hi hat.whole hfront⟩
    exact absurd ⟨hs, hwait⟩ hsampled.not_samples

/-- Some level of TDO that has been seen accounts for all that has happened. -/
theorem Reacting.exists_at (h : Reacting s₀ request f seen c r p s) (hsome : ∃ tdo, seen tdo) :
    ∃ tdo, seen tdo ∧ At s₀ request f tdo c r p s := by
  obtain hall | ⟨tdo, hbefore, hat, -⟩ := h.stage
  · obtain ⟨tdo, htdo⟩ := hsome
    exact ⟨tdo, htdo, hall tdo⟩
  · exact ⟨tdo, hbefore, hat⟩

/-- **The end of an exchange.** -/
theorem Reacting.over (h : Reacting s₀ request f seen (markLast request) r p s)
    (hsome : ∃ tdo, seen tdo) (hs : s.state = .CAPTURE) :
    ∃ tdo, seen tdo ∧ r = markLast (reaction s₀ request f tdo).reply ∧
      Done (reaction s₀ request f tdo) s ∧
      level s = drive (level s₀) (reaction s₀ request f tdo).pins := by
  obtain ⟨tdo, htdo, w, hstage⟩ := h.exists_at hsome
  obtain ⟨hreply, hpins, hdone⟩ := hstage.over rfl hs
  exact ⟨tdo, htdo, hreply, hdone, hpins ▸ h.levels⟩

/-- No more than the response is handed over. -/
theorem Reacting.length_le (h : Reacting s₀ request f seen c r p s) (hsome : ∃ tdo, seen tdo) :
    ∃ tdo, seen tdo ∧ r.length ≤ (reaction s₀ request f tdo).reply.length := by
  obtain ⟨tdo, htdo, w, hstage⟩ := h.exists_at hsome
  exact ⟨tdo, htdo, markLast_length _ ▸ hstage.front.1.length_le⟩

end

end DapEngine
