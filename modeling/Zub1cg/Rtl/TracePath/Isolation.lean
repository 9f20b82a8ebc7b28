import Zub1cg.Rtl.TracePath

/-!
# The port that is not selected

Nothing of the port that is not selected gets to the stream side. Its capture chain runs all the
same, in a TPIU format nobody reads its FIFO, and the bytes that no longer fit are reported as
losses of the trace.

## Main definitions

- `TracePath.unselected` — the chain of the port that is not selected
- `TracePath.captured` — the bytes it has captured
- `Agree`, `Alike` — inputs and states that differ in nothing but that port
- `SameView` — two runs that software cannot tell apart

## Main results

- `alike_run` — the rest of the trace path does not depend on that port
- `unselected_isolated` — nor do the reports, as long as its FIFO has room
-/

namespace TracePath

open StreamSide (Config)

/-- The chain of the port that is not selected. -/
def unselected (c : Config) (s : State) : CaptureChain.State :=
  if c.sourceSelect = 0 then s.trace else s.m3

/-- The chain of the selected port; the test source leaves it the port of `trace_clk`. -/
def selected (c : Config) (s : State) : CaptureChain.State :=
  if c.sourceSelect = 0 then s.m3 else s.trace

def selectedPort (c : Config) (i : Input) : Port :=
  if c.sourceSelect = 0 then i.m3 else i.trace

/-- The ports of the chain that is not selected. -/
def unselectedInput (c : Config) (i : Input) (s : State) : CaptureChain.Input :=
  if c.sourceSelect = 0 then traceInput c i s else m3Input c i s

theorem step_unselected (c : Config) (i : Input) (s : State) :
    unselected c (step c i s) = CaptureChain.step (unselectedInput c i s) (unselected c s) := by
  unfold unselected unselectedInput
  split_ifs <;> rfl

/-! ### The rest of the trace path -/

/-- Two inputs differ at most in the port that is not selected. -/
structure Agree (c : Config) (i i' : Input) : Prop where
  aclk : i.aclk = i'.aclk
  aresetn : i.aresetn = i'.aresetn
  startPulse : i.startPulse = i'.startPulse
  stopPulse : i.stopPulse = i'.stopPulse
  resetPulse : i.resetPulse = i'.resetPulse
  mAxisTready : i.mAxisTready = i'.mAxisTready
  port : selectedPort c i = selectedPort c i'

/-- Two states differ at most in the chain of that port. -/
structure Alike (c : Config) (s s' : State) : Prop where
  side : s.side = s'.side
  selected : selected c s = selected c s'

section

variable {c : Config} {i i' : Input} {s s' : State} (hi : Agree c i i') (hs : Alike c s s')

include hi hs

theorem Alike.sideInput : StreamSide.Agree c (sideInput i s) (sideInput i' s') := by
  refine ⟨hi.aresetn, hi.startPulse, hi.stopPulse, hi.resetPulse, hi.mAxisTready, ?_⟩
  have hport := hi.port
  have hchain := hs.selected
  unfold selectedPort at hport
  unfold TracePath.selected at hchain
  unfold StreamSide.selectedPort TracePath.sideInput
  by_cases hm3 : c.sourceSelect = 0
  · rw [if_pos hm3, if_pos hm3] at hport hchain ⊢
    rw [hport, hchain]
  · rw [if_neg hm3, if_neg hm3] at hport hchain ⊢
    rw [hport, hchain]

theorem Alike.sideNext : sideNext c i s = sideNext c i' s' := by
  rw [TracePath.sideNext, TracePath.sideNext, hi.aclk, hs.side,
    StreamSide.step_congr (hs.sideInput hi)]

theorem Alike.chainInput (p : Port) (readReady : Bool) :
    chainInput c i p s.side.running (TracePath.sideNext c i s).running readReady =
      chainInput c i' p s'.side.running (TracePath.sideNext c i' s').running readReady := by
  rw [hs.sideNext hi, hs.side, TracePath.chainInput, hi.aclk, hi.aresetn, TracePath.chainInput]

/-- Alike states become alike states. -/
theorem Alike.step : Alike c (step c i s) (step c i' s') := by
  refine ⟨hs.sideNext hi, ?_⟩
  have hready := StreamSide.ready_congr (hs.sideInput hi) s'.side
  have hport := hi.port
  have hchain := hs.selected
  unfold selectedPort at hport
  unfold TracePath.selected at hchain ⊢
  by_cases hm3 : c.sourceSelect = 0
  · rw [if_pos hm3, if_pos hm3] at hport hchain ⊢
    rw [TracePath.step, TracePath.step, m3Input, hs.chainInput hi, hs.side, hready.2, hport, hchain,
      m3Input]
  · rw [if_neg hm3, if_neg hm3] at hport hchain ⊢
    rw [TracePath.step, TracePath.step, traceInput, hs.chainInput hi, hs.side, hready.1, hport,
      hchain, traceInput]

end

section

variable {c : Config} (l : Leftover) {inp inp' : ℕ → Input} (h : ∀ t, Agree c (inp t) (inp' t))

include h

/-- **Nothing of the port that is not selected gets to the rest of the trace path**, in whatever
format. -/
theorem alike_run (t : ℕ) : Alike c ((run c l inp).state t) ((run c l inp').state t) :=
  Clocked.Run.relation _ _ ⟨rfl, rfl⟩ (fun t _ _ hs => hs.step (h t)) t

theorem handedOver_run (t : ℕ) :
    (run c l inp).record handedOver t = (run c l inp').record handedOver t := by
  refine (run c l inp).record_relation (run c l inp') (R := Alike c) ⟨rfl, rfl⟩
    (fun t _ _ hs => hs.step (h t)) (fun t s s' hs => ?_) t
  -- the beats are those of the stream side, which is the same in both runs
  change handedOver (inp t) s = handedOver (inp' t) s'
  rw [handedOver, handedOver, stream, stream, (h t).aclk, (h t).mAxisTready, hs.side]

end

/-! ### The chain of that port -/

/-- The bytes the chain that is not selected has captured since the last reset of its FIFO's
write side. -/
def captured (c : Config) (l : Leftover) (inp : ℕ → Input) : ℕ → ℕ
  | 0 => 0
  | t + 1 =>
    let s := (run c l inp).state t
    CaptureChain.captures (unselectedInput c (inp t) s) (unselected c s) (captured c l inp t)

theorem captured_le (c : Config) (l : Leftover) (inp : ℕ → Input) (t : ℕ) :
    captured c l inp t ≤ t := by
  induction t with
  | zero => exact Nat.le_refl 0
  | succ t ih =>
    rw [captured, CaptureChain.captures]
    split_ifs <;> omega

section

variable {c : Config} (hformat : c.traceFormat < 3) (l : Leftover) (inp : ℕ → Input)

include hformat

theorem unselected_not_read (i : Input) (s : State) :
    (unselectedInput c i s).readReady = false := by
  have hready := StreamSide.unselected_not_ready hformat (sideInput i s) s.side
  unfold unselectedInput
  by_cases hm3 : c.sourceSelect = 0
  · rw [if_pos hm3] at hready ⊢
    exact hready
  · rw [if_neg hm3] at hready ⊢
    exact hready

/-- The bytes pile up in the FIFO, and then they are dropped: the drop counter is what has been
captured beyond the FIFO's capacity. -/
theorem unread_run (t : ℕ) :
    CaptureChain.Unread (captured c l inp t) (unselected c ((run c l inp).state t)) := by
  induction t with
  | zero =>
    have hstart : unselected c ((run c l inp).state 0) = CaptureChain.resetState
        (if c.sourceSelect = 0 then l.traceMem else l.m3Mem) := by
      rw [unselected]
      split_ifs <;> rfl
    rw [hstart]
    exact CaptureChain.unread_reset _
  | succ t ih =>
    rw [Clocked.Run.state_succ]
    change CaptureChain.Unread _ (unselected c (step c (inp t) _))
    rw [step_unselected]
    exact ih.step (unselected_not_read hformat _ _)

/-- As long as they fit, the chain reports no losses. -/
theorem silent_run (t : ℕ) (hfits : ∀ u ≤ t, captured c l inp u ≤ CaptureChain.capacity) :
    CaptureChain.Silent (unselected c ((run c l inp).state t)) := by
  induction t with
  | zero =>
    rw [unselected]
    split_ifs <;> exact CaptureChain.silent_reset _
  | succ t ih =>
    rw [Clocked.Run.state_succ]
    change CaptureChain.Silent (unselected c (step c (inp t) _))
    rw [step_unselected]
    exact (unread_run hformat l inp t).silent (unselected_not_read hformat _ _)
      (hfits t (Nat.le_succ t)) (hfits (t + 1) (Nat.le_refl _))
      (ih fun u hu => hfits u (Nat.le_succ_of_le hu))

end

/-! ### What software gets to see -/

/-- After `t` instants of the two runs software sees the same losses, and the AXI stream has
carried and offers the same beats. -/
structure SameView (r r' : Clocked.Run Input State) (t : ℕ) : Prop where
  droppedBytes : droppedBytes (r.state t) = droppedBytes (r'.state t)
  irqOverrun : irqOverrun (r.state t) = irqOverrun (r'.state t)
  stream : stream (r.state t) = stream (r'.state t)
  handedOver : r.record handedOver t = r'.record handedOver t

/-- The two reports are those of the rest of the trace path if the other port's chain reports
nothing. -/
theorem Alike.reports {c : Config} {s s' : State} (hs : Alike c s s')
    (hquiet : CaptureChain.Silent (unselected c s))
    (hquiet' : CaptureChain.Silent (unselected c s')) :
    TracePath.droppedBytes s = TracePath.droppedBytes s' ∧
      TracePath.irqOverrun s = TracePath.irqOverrun s' := by
  have hdrops : CaptureChain.dropsSync (unselected c s) =
      CaptureChain.dropsSync (unselected c s') := by
    rw [CaptureChain.dropsSync, CaptureChain.dropsSync, hquiet.dropsGrayS2, hquiet'.dropsGrayS2]
  have hoverrun := hquiet.overrunS2.trans hquiet'.overrunS2.symm
  have hchain := hs.selected
  rw [TracePath.droppedBytes, TracePath.droppedBytes, TracePath.irqOverrun, TracePath.irqOverrun,
    hs.side]
  unfold unselected at hdrops hoverrun
  unfold TracePath.selected at hchain
  -- one chain is the selected one, and the other one reports nothing
  by_cases hm3 : c.sourceSelect = 0
  · rw [if_pos hm3, if_pos hm3] at hdrops hoverrun hchain
    rw [hchain, hdrops, hoverrun]
    exact ⟨rfl, rfl⟩
  · rw [if_neg hm3, if_neg hm3] at hdrops hoverrun hchain
    rw [hchain, hdrops, hoverrun]
    exact ⟨rfl, rfl⟩

/-- **A port that is not selected and has captured no more than its FIFO holds cannot be
noticed.** In a TPIU format two runs that differ in nothing but that port look the same to
software, as long as in both of them that port's captured bytes fit into its FIFO. -/
theorem unselected_isolated {c : Config} (hformat : c.traceFormat < 3) (l : Leftover)
    (inp inp' : ℕ → Input) (hagree : ∀ t, Agree c (inp t) (inp' t)) (t : ℕ)
    (hfits : ∀ u ≤ t, captured c l inp u ≤ CaptureChain.capacity)
    (hfits' : ∀ u ≤ t, captured c l inp' u ≤ CaptureChain.capacity) :
    SameView (run c l inp) (run c l inp') t := by
  have halike := alike_run l hagree t
  have hreports := halike.reports (silent_run hformat l inp t hfits)
    (silent_run hformat l inp' t hfits')
  refine ⟨hreports.1, hreports.2, ?_, handedOver_run l hagree t⟩
  rw [stream, stream, halike.side]

/-! ### A trace port nobody has asked for -/

/-- A port at rest. -/
def restingPort : Port where
  traceClk := none
  traceData := 0
  runningCatch := true
  rdGrayCatch := 0
  wrGrayCatch := 0
  overrunCatch := false
  dropsGrayCatch := 0

/-- The M3 is the selected source, the trace runs, and the clock of the other port ticks with
`aclk`, or does not. -/
def otherPort (edge : Option DdrCapture.Edge) : Input where
  aclk := true
  aresetn := true
  startPulse := true
  stopPulse := false
  resetPulse := false
  mAxisTready := true
  trace := { restingPort with traceClk := edge }
  m3 := restingPort

/-- The four-bit format. -/
def fourBitM3 : Config where
  sourceSelect := 0
  traceFormat := 2
  swoBaud := 0

def cleared : Leftover where
  traceMem := fun _ => 0
  m3Mem := fun _ => 0
  demux := TpiuDemux.initial
  encoder := OrbflowEncoder.initial

theorem otherPort_agree (edge edge' : Option DdrCapture.Edge) :
    Agree fourBitM3 (otherPort edge) (otherPort edge') :=
  ⟨rfl, rfl, rfl, rfl, rfl, rfl, rfl⟩

/-- Thirty instants are not enough to fill the FIFO. -/
theorem unselected_isolated_thirty :
    SameView (run fourBitM3 cleared fun _ => otherPort (some .rise))
      (run fourBitM3 cleared fun _ => otherPort none) 30 := by
  have hfits (inp : ℕ → Input) :
      ∀ u ≤ 30, captured fourBitM3 cleared inp u ≤ CaptureChain.capacity := by
    intro u hu
    exact (captured_le _ _ _ u).trans (hu.trans (by decide))
  exact unselected_isolated (by decide) cleared _ _ (fun _ => otherPort_agree _ _) 30 (hfits _)
    (hfits _)

/-- The trace chain, unread, with its clock ticking. -/
def tickingInput : CaptureChain.Input :=
  chainInput fourBitM3 (otherPort (some .rise)) (otherPort (some .rise)).trace true true false

/-- The chain in the run in which the other port's clock ticks: its ports are the same at every
instant. -/
theorem ticking_chain (t : ℕ) :
    ((run fourBitM3 cleared fun _ => otherPort (some .rise)).state t).trace =
      (Clocked.Run.mk CaptureChain.step (CaptureChain.resetState cleared.traceMem)
        fun _ => tickingInput).state t := by
  induction t with
  | zero => rfl
  | succ t ih =>
    rw [Clocked.Run.state_succ, Clocked.Run.state_succ, ← ih]
    generalize (run fourBitM3 cleared fun _ => otherPort (some .rise)).state t = s
    have hport : traceInput fourBitM3 (otherPort (some .rise)) s = tickingInput := rfl
    exact congrArg (CaptureChain.step · s.trace) hport

theorem unselected_fourBitM3 (s : State) :
    unselected fourBitM3 s = s.trace ∧ selected fourBitM3 s = s.m3 := ⟨rfl, rfl⟩

theorem ticking_dropsSync :
    CaptureChain.dropsSync
      ((run fourBitM3 cleared fun _ => otherPort (some .rise)).state 40).trace = 1 := by
  have hgray : ((run fourBitM3 cleared fun _ => otherPort (some .rise)).state 40).trace.dropsGrayS2 =
      1 := by
    -- two instants until the reset has gone, two for the configuration, one to prime the
    -- capture, 33 until the last of 32 bytes has left it, and two on the way back
    rw [ticking_chain]
    decide +kernel
  rw [CaptureChain.dropsSync, hgray]
  decide +kernel

/-- A port at rest captures nothing. -/
theorem resting_captured (t : ℕ) : captured fourBitM3 cleared (fun _ => otherPort none) t = 0 := by
  induction t with
  | zero => rfl
  | succ t ih =>
    rw [captured, ih]
    rfl

/-- The clock of a port nobody has asked for costs the trace of the M3 a dropped byte. -/
theorem ticking_dropped :
    droppedBytes ((run fourBitM3 cleared fun _ => otherPort (some .rise)).state 40) =
      droppedBytes ((run fourBitM3 cleared fun _ => otherPort none).state 40) + 1 := by
  have hagree (t : ℕ) : Agree fourBitM3 ((fun _ => otherPort (some .rise)) t)
      ((fun _ => otherPort none) t) := otherPort_agree _ _
  have halike := alike_run cleared hagree 40
  have hquiet := silent_run (c := fourBitM3) (by decide) cleared (fun _ => otherPort none) 40
    fun u _ => (resting_captured u).le.trans (Nat.zero_le _)
  have hm3 := halike.selected
  have hgray := hquiet.dropsGrayS2
  rw [(unselected_fourBitM3 _).2, (unselected_fourBitM3 _).2] at hm3
  rw [(unselected_fourBitM3 _).1] at hgray
  have hresting : CaptureChain.dropsSync
      ((run fourBitM3 cleared fun _ => otherPort none).state 40).trace = 0 := by
    rw [CaptureChain.dropsSync, hgray]
    decide +kernel
  rw [droppedBytes, droppedBytes, ticking_dropsSync, hresting, halike.side, hm3, add_zero,
    add_right_comm]

/-- Two runs that differ in nothing but the port that is not selected can look different. -/
theorem unselected_reports :
    ¬ ∀ (c : Config) (l : Leftover) (inp inp' : ℕ → Input), c.traceFormat < 3 →
      (∀ t, Agree c (inp t) (inp' t)) → ∀ t, SameView (run c l inp) (run c l inp') t := by
  intro h
  have hview := h fourBitM3 cleared (fun _ => otherPort (some .rise)) (fun _ => otherPort none)
    (by decide) (fun _ => otherPort_agree _ _) 40
  have hone := hview.droppedBytes.symm.trans ticking_dropped
  have hnone : (1 : BitVec 64) = 0 := by
    simpa using hone.symm
  exact absurd hnone (by decide)

end TracePath
