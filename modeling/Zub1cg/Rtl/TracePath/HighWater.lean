import Zub1cg.Rtl.TracePath.Isolation
import Zub1cg.Rtl.TracePath.Chains
import Zub1cg.Rtl.CaptureChain.HighWater

/-!
# The high-water mark of the two FIFOs (`orbtrace_pl.v`)

The statistic that software reads is the higher one of the two chains' marks. The chain of
`trace_clk` compares its FIFO's level with the mark right in the domain of `aclk`, whatever bits
of a changing level are caught there; the chain of the M3 has its maximum transferred.

## Main definitions

- `HighWater.State`, `HighWater.step` — the trace path with the registers of the two marks
- `HighWater.fifoHighWater` — the statistic

## Main results

- `fifo_level` — when the level is the occupancy, and what the statistic is then
-/

namespace HighWater

open GrayCode
open StreamSide (Config)
open AsyncFifo (readPointer writeLevel occupancy)
open TracePath (Leftover)

/-- One instant: the configuration, the trace path's inputs, and what the flops catch of the two
levels. -/
structure Input where
  config : Config
  path : TracePath.Input
  compareCatch : BitVec (CaptureChain.CDC_DEPTH_LOG2 + 1)
  levelCatch : BitVec (CaptureChain.CDC_DEPTH_LOG2 + 1)
  levelMaxGrayCatch : BitVec 11

structure State where
  path : TracePath.State
  highWater : BitVec 32
  m3 : M3Level.State

/-- `cdc_level` as it is caught at an edge of `aclk`, with the chain before and after the
instant -/
def caughtLevel (caught : BitVec (CaptureChain.CDC_DEPTH_LOG2 + 1))
    (s n : CaptureChain.State) : BitVec 32 :=
  (sample (writeLevel s.fifo) (writeLevel n.fifo) caught).setWidth 32

/-- `high_water` after the instant; the comparison and the register may catch different bits. -/
def highWaterNext (i : Input) (s n : CaptureChain.State) (highWater : BitVec 32) : BitVec 32 :=
  if i.path.aclk then
    if !i.path.aresetn then 0
    else if caughtLevel i.compareCatch s n > highWater then caughtLevel i.levelCatch s n
    else highWater
  else highWater

/-- One instant. -/
def step (i : Input) (s : State) : State where
  path := TracePath.step i.config i.path s.path
  highWater :=
    highWaterNext i s.path.trace (TracePath.step i.config i.path s.path).trace s.highWater
  m3 := M3Level.step (TracePath.m3Input i.config i.path s.path) i.levelMaxGrayCatch s.path.m3 s.m3

/-- The trace path and the two marks after a reset, driven by the schedule `inp`. -/
def run (l : Leftover) (inp : ℕ → Input) : Clocked.Run Input State where
  step := step
  start := ⟨TracePath.resetState l, 0, M3Level.resetState⟩
  input := inp

/-- `fifo_high_water` -/
def fifoHighWater (s : State) : BitVec 32 :=
  if s.highWater > s.m3.highWater then s.highWater else s.m3.highWater

/-- What the trace path gets of the schedule. -/
def pathInputs (inp : ℕ → Input) (t : ℕ) : Config × TracePath.Input :=
  ((inp t).config, (inp t).path)

theorem run_path (l : Leftover) (inp : ℕ → Input) (t : ℕ) :
    ((run l inp).state t).path = (TracePath.session l (pathInputs inp)).state t := by
  induction t with
  | zero => rfl
  | succ t ih =>
    rw [Clocked.Run.state_succ, Clocked.Run.state_succ, ← ih]
    rfl

/-- What is caught of a level that is right is within the capacity. -/
theorem caughtLevel_le {s n : CaptureChain.State}
    (hs : (writeLevel s.fifo).toNat ≤ CaptureChain.capacity)
    (hn : (writeLevel n.fifo).toNat ≤ CaptureChain.capacity)
    (caught : BitVec (CaptureChain.CDC_DEPTH_LOG2 + 1)) :
    (caughtLevel caught s n).toNat ≤ CaptureChain.capacity := by
  have hcapacity : CaptureChain.capacity = 2 ^ 5 - 1 := rfl
  have hwide : CaptureChain.CDC_DEPTH_LOG2 + 1 ≤ 32 := by decide
  have hsample := sample_lt caught (k := 5) (by omega : (writeLevel s.fifo).toNat < 2 ^ 5)
    (by omega : (writeLevel n.fifo).toNat < 2 ^ 5)
  rw [caughtLevel, BitVec.toNat_setWidth_of_le hwide]
  omega

section

variable {l : Leftover} {inp : ℕ → Input}
  (hreset : ∀ t, (inp t).path.aresetn = true)

include hreset

/-- Where the read pointers are below four, the two levels are the occupancies. -/
theorem levels_right (t : ℕ)
    (hlow : (readPointer ((run l inp).state t).path.trace.fifo).toNat < 4) :
    (writeLevel ((run l inp).state t).path.trace.fifo).toNat ≤ CaptureChain.capacity := by
  obtain ⟨n, h⟩ := @TracePath.trace_tracked l (pathInputs inp) hreset t
  rw [TracePath.trace_run, ← run_path] at h
  rw [h.fifo.writeLevel_eq_iff.mpr hlow]
  exact h.fifo.occupancy_bounds.2

/-- Neither mark exceeds the capacity as long as the read pointers are below four. -/
theorem marks_le (t : ℕ)
    (hlow : ∀ u ≤ t, (readPointer ((run l inp).state u).path.trace.fifo).toNat < 4 ∧
      (readPointer ((run l inp).state u).path.m3.fifo).toNat < 4) :
    ((run l inp).state t).highWater.toNat ≤ CaptureChain.capacity ∧
      M3Level.Marks CaptureChain.capacity ((run l inp).state t).path.m3
        ((run l inp).state t).m3 := by
  induction t with
  | zero => exact ⟨Nat.zero_le _, (M3Level.marks_reset l.m3Mem).mono (Nat.zero_le _)⟩
  | succ t ih =>
    obtain ⟨hmark, hmarks⟩ := ih fun u hu => hlow u (Nat.le_succ_of_le hu)
    obtain ⟨n, h⟩ := @TracePath.m3_tracked l (pathInputs inp) hreset t
    rw [TracePath.m3_run, ← run_path] at h
    constructor
    · have hnow := levels_right hreset t (hlow t (Nat.le_succ t)).1
      have hnext := levels_right hreset (t + 1) (hlow (t + 1) (Nat.le_refl _)).1
      rw [Clocked.Run.state_succ] at hnext ⊢
      change (highWaterNext _ _ _ _).toNat ≤ _
      rw [highWaterNext]
      split_ifs
      · exact Nat.zero_le _
      · exact caughtLevel_le hnow hnext _
      · exact hmark
      · exact hmark
    · have hright := h.fifo.writeLevel_eq_iff.mpr (hlow t (Nat.le_succ t)).2
      exact (hmarks.step h (i := TracePath.m3Input (inp t).config (inp t).path _) (hreset t) hright
        h.fifo.occupancy_bounds.2 _).1

end

/-- **The level of the FIFO.** In every reachable state of a FIFO of any depth the level is the
occupancy, and so lies between the number of unread words and the capacity, just when the read
pointer last synchronised into the write domain is below four; and in every run of the trace path,
as long as that is so in both chains, the statistic stays within the capacity. -/
theorem fifo_level {α : Type} {depthLog2 : ℕ} (hd : 2 ≤ depthLog2) (mem : BitVec depthLog2 → α)
    {inp : ℕ → AsyncFifo.Input α depthLog2} (hinp : ∀ t, AsyncFifo.Released (inp t))
    (l : Leftover) {paths : ℕ → Input} (hreset : ∀ t, (paths t).path.aresetn = true) (t : ℕ) :
    ((writeLevel ((AsyncFifo.run mem inp).state t) =
          ((AsyncFifo.run mem inp).state t).wrBin -
            readPointer ((AsyncFifo.run mem inp).state t) ∧
        (AsyncFifo.accepted (AsyncFifo.run mem inp) t).length -
            (AsyncFifo.consumed (AsyncFifo.run mem inp) t).length ≤
          (writeLevel ((AsyncFifo.run mem inp).state t)).toNat ∧
        (writeLevel ((AsyncFifo.run mem inp).state t)).toNat ≤ 2 ^ depthLog2 - 1) ↔
      (readPointer ((AsyncFifo.run mem inp).state t)).toNat < 4) ∧
    ((∀ u ≤ t, (readPointer ((run l paths).state u).path.trace.fifo).toNat < 4 ∧
        (readPointer ((run l paths).state u).path.m3.fifo).toNat < 4) →
      (fifoHighWater ((run l paths).state t)).toNat ≤ CaptureChain.capacity) := by
  refine ⟨AsyncFifo.run_level_iff hd mem hinp t, fun hlow => ?_⟩
  have hmarks := marks_le hreset t hlow
  rw [fifoHighWater]
  split_ifs
  · exact hmarks.1
  · exact hmarks.2.highWater

/-- The M3 is the selected source and the clock of the other port ticks. -/
def ticking : Input where
  config := TracePath.fourBitM3
  path := TracePath.otherPort (some .rise)
  compareCatch := 0
  levelCatch := 0
  levelMaxGrayCatch := 0

theorem fifo_level_ticking :
    ((writeLevel ((AsyncFifo.run (fun _ => 0) AsyncFifo.lockstep).state 8) =
          ((AsyncFifo.run (fun _ => 0) AsyncFifo.lockstep).state 8).wrBin -
            readPointer ((AsyncFifo.run (fun _ => 0) AsyncFifo.lockstep).state 8) ∧
        (AsyncFifo.accepted (AsyncFifo.run (fun _ => 0) AsyncFifo.lockstep) 8).length -
            (AsyncFifo.consumed (AsyncFifo.run (fun _ => 0) AsyncFifo.lockstep) 8).length ≤
          (writeLevel ((AsyncFifo.run (fun _ => 0) AsyncFifo.lockstep).state 8)).toNat ∧
        (writeLevel ((AsyncFifo.run (fun _ => 0) AsyncFifo.lockstep).state 8)).toNat ≤
          2 ^ 2 - 1) ↔
      (readPointer ((AsyncFifo.run (fun _ => 0) AsyncFifo.lockstep).state 8)).toNat < 4) ∧
    (fifoHighWater ((run TracePath.cleared fun _ => ticking).state 8)).toNat ≤
      CaptureChain.capacity :=
  have h := @fifo_level ℕ 2 (by decide) (fun _ => 0) AsyncFifo.lockstep (fun _ => ⟨rfl, rfl⟩)
    TracePath.cleared (fun _ => ticking) (fun _ => rfl) 8
  ⟨h.1, h.2 (by decide +kernel)⟩

/-- A trace of four bytes from the other port. -/
def fourBytes (t : ℕ) : Input :=
  { ticking with
    config := { sourceSelect := 1, traceFormat := 2, swoBaud := 0 }
    path := { TracePath.otherPort (some .rise) with
      startPulse := t == 0
      stopPulse := t == 7 } }

/-- The first read pointer that is not decoded is four; the statistic is 63 once four bytes have
been read. -/
theorem level_not_occupancy :
    (¬ ∀ (α : Type) (depthLog2 : ℕ), 2 ≤ depthLog2 →
      ∀ (mem : BitVec depthLog2 → α) (inp : ℕ → AsyncFifo.Input α depthLog2),
      (∀ t, AsyncFifo.Released (inp t)) → ∀ t,
        writeLevel ((AsyncFifo.run mem inp).state t) =
            ((AsyncFifo.run mem inp).state t).wrBin -
              readPointer ((AsyncFifo.run mem inp).state t) ∧
          (AsyncFifo.accepted (AsyncFifo.run mem inp) t).length -
              (AsyncFifo.consumed (AsyncFifo.run mem inp) t).length ≤
            (writeLevel ((AsyncFifo.run mem inp).state t)).toNat ∧
          (writeLevel ((AsyncFifo.run mem inp).state t)).toNat ≤ 2 ^ depthLog2 - 1) ∧
    ¬ ∀ (l : Leftover) (inp : ℕ → Input), (∀ t, (inp t).path.aresetn = true) →
      ∀ t, (fifoHighWater ((run l inp).state t)).toNat ≤ CaptureChain.capacity := by
  constructor
  · intro h
    have hlevel := (h ℕ 2 (by decide) (fun _ => 0) AsyncFifo.lockstep (fun _ => ⟨rfl, rfl⟩) 12).1
    exact absurd hlevel (by decide +kernel)
  · intro h
    have hmark := h TracePath.cleared fourBytes (fun _ => rfl) 19
    exact absurd hmark (by decide +kernel)

end HighWater
