import Zub1cg.Rtl.CaptureChain
import Zub1cg.Rtl.AsyncFifo.Level

/-!
# A capture chain after a reset

The reset leaves the domain of the trace clock two of its edges later than that of `aclk`. Until
then nothing is captured and the FIFO stays as the reset has left it; from then on it is an
ordinary FIFO.

## Main definitions

- `CaptureChain.acceptedBytes`, `consumedBytes` — what the FIFO takes and gives at an instant
- `CaptureChain.Tracked` — the FIFO holds what it has taken and not yet given
- `CaptureChain.run` — a chain after a reset

## Main results

- `Tracked.step`, `run_tracked` — one instant and a whole run
-/

namespace AsyncFifo

open GrayCode

variable {α : Type} {depthLog2 : ℕ}

/-- A FIFO that is fresh from the reset stays so as long as its write side is held there. -/
theorem step_held (mem : BitVec depthLog2 → α) {i : Input α depthLog2}
    (hw : i.writeResetN = false) (hr : i.readResetN = true) :
    step i (resetState mem) = resetState mem := by
  have hpointer : wrGrayAfter i (resetState mem) = 0 := by
    rw [wrGrayAfter, hw]
    cases i.writeClk <;> rfl
  have hempty : readFire i (resetState mem) = false := by
    rw [readFire, readValid]
    exact Bool.and_eq_false_imp.mpr fun h => absurd h (by simp [resetState])
  cases hwc : i.writeClk <;> cases hrc : i.readClk <;>
    simp [step, writeEdge, readEdge, hw, hr, hwc, hrc, hpointer, hempty] <;>
    simp [resetState]

end AsyncFifo

namespace CaptureChain

open AsyncFifo (SyncCounts)

/-- The byte the FIFO takes at this instant, if it takes one. -/
def acceptedBytes (i : Input) (s : State) : List UInt8 :=
  AsyncFifo.acceptedWord (fifoInput i s) s.fifo

/-- The byte that is read at this instant, if one is. -/
def consumedBytes (i : Input) (s : State) : List UInt8 :=
  AsyncFifo.consumedWord (fifoInput i s) s.fifo

/-- The FIFO has taken `acc` and given `out`; nothing has happened to it as long as its write
side is in reset. -/
structure Tracked (acc out : List UInt8) (c : SyncCounts) (s : State) : Prop where
  fifo : AsyncFifo.Tracks acc out c s.fifo
  held : s.resetSync.getLsbD 1 = false →
    acc = [] ∧ s.fifo = AsyncFifo.resetState s.fifo.mem ∧ s.capture.byteValid = false
  released : s.resetSync.getLsbD 1 = true → s.resetSync.getLsbD 0 = true

theorem tracked_reset (mem : BitVec CDC_DEPTH_LOG2 → UInt8) :
    Tracked [] [] ⟨0, 0, 0, 0⟩ (resetState mem) :=
  ⟨AsyncFifo.tracks_reset mem, fun _ => ⟨rfl, rfl, rfl⟩, fun h => absurd h (by simp [resetState])⟩

/-- The reset's way through its two flops. -/
theorem resetSyncNext_bits {i : Input} {s : State} (hreset : i.aresetn = true)
    (hsync : s.resetSync.getLsbD 1 = true → s.resetSync.getLsbD 0 = true) :
    ((resetSyncNext i s).getLsbD 1 = true → (resetSyncNext i s).getLsbD 0 = true) ∧
      (s.resetSync.getLsbD 1 = true → (resetSyncNext i s).getLsbD 1 = true) := by
  rw [resetSyncNext, hreset]
  cases rises i with
  | false => exact ⟨hsync, id⟩
  | true =>
    have hshift : (s.resetSync.extractLsb' 0 1 ++ 1#1).getLsbD 1 = s.resetSync.getLsbD 0 := by
      rw [BitVec.getLsbD_append, BitVec.getLsbD_extractLsb']
      rfl
    have hin : (s.resetSync.extractLsb' 0 1 ++ 1#1).getLsbD 0 = true := by
      rw [BitVec.getLsbD_append]
      rfl
    exact ⟨fun _ => hin, fun h => hshift.trans (hsync h)⟩

theorem step_capture (i : Input) (s : State) :
    (step i s).capture = DdrCapture.step (captureInput i s) s.capture ∧
      (step i s).resetSync = resetSyncNext i s := by
  unfold step traceUpdate aclkUpdate dropUpdate configUpdate
  constructor <;> split_ifs <;> rfl

section

variable {acc out : List UInt8} {c : SyncCounts} {i : Input} {s : State}

/-- While the write side is in reset, nothing happens. -/
theorem Tracked.quiet (h : Tracked acc out c s) (hreset : i.aresetn = true)
    (hheld : s.resetSync.getLsbD 1 = false) :
    acceptedBytes i s = [] ∧ consumedBytes i s = [] ∧
      (step i s).fifo = AsyncFifo.resetState s.fifo.mem ∧
      (step i s).capture.byteValid = false := by
  obtain ⟨-, hfifo, hbyte⟩ := h.held hheld
  have hresetN : resetN i s = false := by rw [resetN, hheld, Bool.and_false]
  refine ⟨?_, ?_, ?_, ?_⟩
  · rw [acceptedBytes, AsyncFifo.acceptedWord, AsyncFifo.writeFire]
    simp [fifoInput, hbyte]
  · rw [consumedBytes, AsyncFifo.consumedWord, AsyncFifo.readFire, AsyncFifo.readValid, hfifo]
    simp [AsyncFifo.resetState]
  · rw [step_fifo, hfifo]
    exact AsyncFifo.step_held _ hresetN hreset
  · rw [(step_capture i s).1, DdrCapture.step]
    simp [captureInput, hresetN, DdrCapture.resetState]

/-- The reset goes for good. -/
theorem Tracked.stays_released (h : Tracked acc out c s) (hreset : i.aresetn = true)
    (hsync : s.resetSync.getLsbD 1 = true) : (step i s).resetSync.getLsbD 1 = true := by
  rw [(step_capture i s).2]
  exact (resetSyncNext_bits hreset h.released).2 hsync

theorem Tracked.held_before (h : Tracked acc out c s) (hreset : i.aresetn = true)
    (hnext : (step i s).resetSync.getLsbD 1 = false) : s.resetSync.getLsbD 1 = false := by
  by_contra hsync
  rw [h.stays_released hreset (Bool.not_eq_false _ ▸ hsync)] at hnext
  contradiction

/-- **One instant of a chain that is not reset.** -/
theorem Tracked.step (h : Tracked acc out c s) (hreset : i.aresetn = true) :
    ∃ c', Tracked (acc ++ acceptedBytes i s) (out ++ consumedBytes i s) c'
      (CaptureChain.step i s) := by
  have hbits := (resetSyncNext_bits hreset h.released).1
  rw [← (step_capture i s).2] at hbits
  cases hsync : s.resetSync.getLsbD 1 with
  | false =>
    obtain ⟨rfl, -, -⟩ := h.held hsync
    obtain rfl := List.prefix_nil.mp h.fifo.delivered
    obtain ⟨hacc, hout, hfifo, hbyte⟩ := h.quiet (i := i) hreset hsync
    have htracks := AsyncFifo.tracks_reset s.fifo.mem
    rw [hacc, hout]
    refine ⟨⟨0, 0, 0, 0⟩, ?_, fun _ => ⟨rfl, ?_, hbyte⟩, hbits⟩
    · rw [hfifo]
      exact htracks
    · rw [hfifo]
      rfl
  | true =>
    have hresetN : resetN i s = true := by rw [resetN, hsync, hreset, Bool.and_true]
    obtain ⟨c', htracks, -⟩ := h.fifo.step (i := fifoInput i s) (by decide) ⟨hresetN, hreset⟩
    refine ⟨c', ?_, fun hnext => ?_, hbits⟩
    · rw [step_fifo]
      exact htracks
    · rw [h.held_before hreset hnext] at hsync
      contradiction

end

/-- The chain after a reset, driven by the schedule `inp`. -/
def run (mem : BitVec CDC_DEPTH_LOG2 → UInt8) (inp : ℕ → Input) : Clocked.Run Input State where
  step := step
  start := resetState mem
  input := inp

theorem run_tracked (mem : BitVec CDC_DEPTH_LOG2 → UInt8) {inp : ℕ → Input}
    (hreset : ∀ t, (inp t).aresetn = true) (t : ℕ) :
    ∃ c, Tracked ((run mem inp).record acceptedBytes t) ((run mem inp).record consumedBytes t) c
      ((run mem inp).state t) := by
  induction t with
  | zero => exact ⟨_, tracked_reset mem⟩
  | succ t ih =>
    obtain ⟨c, h⟩ := ih
    exact h.step (hreset t)

end CaptureChain
