import Zub1cg.Rtl.TracePath
import Zub1cg.Rtl.CaptureChain.Tracking

/-!
# The two chains of the trace path

Each of the two capture chains runs on what its port and the stream side feed it, so that what
holds in every run of a chain holds in the trace path, for either of them. Software may write the
configuration while the trace path runs.

## Main definitions

- `TracePath.session` — the trace path after a reset, with a configuration at each instant
- `TracePath.traceChain`, `m3Chain` — the chains as runs of their own

## Main results

- `trace_tracked`, `m3_tracked` — their FIFOs hold what they have taken and not yet given
-/

namespace TracePath

open StreamSide (Config)
open CaptureChain (Tracked acceptedBytes consumedBytes)

/-- The trace path after a reset; each instant has its configuration. -/
def session (l : Leftover) (inp : ℕ → Config × Input) : Clocked.Run (Config × Input) State where
  step := fun i s => step i.1 i.2 s
  start := resetState l
  input := inp

/-- A configuration that stays. -/
theorem session_const (c : Config) (l : Leftover) (inp : ℕ → Input) (t : ℕ) :
    (session l fun u => (c, inp u)).state t = (run c l inp).state t := by
  induction t with
  | zero => rfl
  | succ t ih =>
    rw [Clocked.Run.state_succ, Clocked.Run.state_succ, ih]
    rfl

variable (l : Leftover) (inp : ℕ → Config × Input)

/-- The chain of `trace_clk` as a run of its own. -/
def traceChain : Clocked.Run CaptureChain.Input CaptureChain.State :=
  CaptureChain.run l.traceMem fun t => traceInput (inp t).1 (inp t).2 ((session l inp).state t)

/-- The chain of the M3 as a run of its own. -/
def m3Chain : Clocked.Run CaptureChain.Input CaptureChain.State :=
  CaptureChain.run l.m3Mem fun t => m3Input (inp t).1 (inp t).2 ((session l inp).state t)

theorem trace_run (t : ℕ) : (traceChain l inp).state t = ((session l inp).state t).trace := by
  have hpart : ∀ i s, State.trace ((session l inp).step i s) =
    CaptureChain.step (traceInput i.1 i.2 s) (State.trace s) := fun _ _ => rfl
  exact (session l inp).part_state hpart t

theorem m3_run (t : ℕ) : (m3Chain l inp).state t = ((session l inp).state t).m3 := by
  have hpart : ∀ i s, State.m3 ((session l inp).step i s) =
    CaptureChain.step (m3Input i.1 i.2 s) (State.m3 s) := fun _ _ => rfl
  exact (session l inp).part_state hpart t

variable {inp} (hreset : ∀ t, (inp t).2.aresetn = true)

include hreset

theorem trace_tracked (t : ℕ) :
    ∃ n, Tracked ((traceChain l inp).record acceptedBytes t)
      ((traceChain l inp).record consumedBytes t) n ((traceChain l inp).state t) :=
  @CaptureChain.run_tracked l.traceMem (fun t => traceInput (inp t).1 (inp t).2 _) hreset t

theorem m3_tracked (t : ℕ) :
    ∃ n, Tracked ((m3Chain l inp).record acceptedBytes t)
      ((m3Chain l inp).record consumedBytes t) n ((m3Chain l inp).state t) :=
  @CaptureChain.run_tracked l.m3Mem (fun t => m3Input (inp t).1 (inp t).2 _) hreset t

end TracePath
