import Zub1cg.Rtl.TracePath.Isolation
import Zub1cg.Rtl.TracePath.Chains
import Zub1cg.Rtl.CaptureChain.DropCounter

/-!
# Nothing is lost without being counted (`orbtrace_pl.v`)

While a trace of one of the two ports runs in a TPIU format, what is read from that port's FIFO
is what the demultiplexer takes: the same handshake, seen from both ends of the selection. So
each captured byte is in the FIFO, has been taken, in its turn, or has been counted as a drop.

## Main definitions

- `TracePath.selectedChain` — the selected port's chain as a run of its own
- `TracePath.takenBytes` — the byte the demultiplexer takes at an instant

## Main results

- `consumed_eq_taken` — one instant
- `no_silent_loss` — a period in which the trace runs
-/

namespace TracePath

open StreamSide (Config)
open CaptureChain (acceptedBytes consumedBytes capturedBytes lostBytes)

/-- The chain of the selected port as a run of its own. -/
def selectedChain (c : Config) (l : Leftover) (inp : ℕ → Config × Input) :
    Clocked.Run CaptureChain.Input CaptureChain.State :=
  if c.sourceSelect = 0 then m3Chain l inp else traceChain l inp

/-- The byte the demultiplexer takes at this instant, if it takes one. -/
def takenBytes (i : Config × Input) (s : State) : List UInt8 :=
  if i.2.aclk then
    TpiuDemux.accepted
      (TestPath.demuxInput (StreamSide.pathInput i.1 (sideInput i.2 s) s.side) s.side.path)
      s.side.path.demux
  else []

/-! ### One instant -/

section

variable {c : Config} (hformat : c.traceFormat < 3)

include hformat

theorem decoded_fifo (fifo : SourceMux.Source) (s : StreamSide.State) :
    StreamSide.decoded c fifo s = fifo := by
  have hlt := BitVec.lt_def.mp hformat
  have hthree : c.traceFormat ≠ 3 := fun h => by rw [h] at hlt; contradiction
  have hfour : c.traceFormat ≠ 4 := fun h => by rw [h] at hlt; contradiction
  rw [StreamSide.decoded, if_neg hthree, if_neg hfour]

/-- What the demultiplexer is offered is the byte that the selected FIFO offers, and the FIFO is
ready to be read when the demultiplexer is ready. -/
theorem taken_eq (i : Input) (s : State) :
    takenBytes (c, i) s =
      if i.aclk && ((StreamSide.selected c (sideInput i s) s.side).valid &&
          TpiuDemux.inputReady s.side.path.demux) then
        [(StreamSide.selected c (sideInput i s) s.side).data]
      else [] := by
  have hbypass : TestPath.bypassTpiu (StreamSide.pathInput c (sideInput i s) s.side) = false :=
    decide_eq_false (BitVec.not_le.mpr hformat)
  rw [takenBytes, TpiuDemux.accepted, TpiuDemux.inputFire, TestPath.demuxInput, hbypass,
    Bool.not_false, Bool.and_true]
  cases i.aclk <;> rfl

theorem selectedReady_eq (i : Input) (s : State) :
    StreamSide.selectedReady c (sideInput i s) s.side =
      TpiuDemux.inputReady s.side.path.demux := by
  have hbypass : TestPath.bypassTpiu (StreamSide.pathInput c (sideInput i s) s.side) = false :=
    decide_eq_false (BitVec.not_le.mpr hformat)
  rw [StreamSide.selectedReady, TestPath.selectedReady, hbypass, if_neg Bool.false_ne_true]

/-- **The M3's port.** The byte that is read from its FIFO is the one that is taken. -/
theorem m3_consumed_eq_taken (hselect : c.sourceSelect = 0) {i : Input} {s : State}
    (hrunning : s.side.running = true) :
    consumedBytes (m3Input c i s) s.m3 = takenBytes (c, i) s := by
  have hselected : StreamSide.selected c (sideInput i s) s.side = readSide s.m3 := by
    rw [StreamSide.selected, SourceMux.output, hselect]
    change StreamSide.m3 c (sideInput i s) s.side = _
    rw [StreamSide.m3, decoded_fifo hformat, hrunning, hselect]
    rfl
  have hready : StreamSide.m3CdcReady c (sideInput i s) s.side =
      TpiuDemux.inputReady s.side.path.demux := by
    rw [StreamSide.m3CdcReady, if_pos hformat, StreamSide.m3Ready, selectedReady_eq hformat,
      hselect]
    rfl
  rw [taken_eq hformat, hselected, consumedBytes, AsyncFifo.consumedWord, AsyncFifo.readFire,
    ← hready]
  rfl

/-- **The other port**, alike. -/
theorem trace_consumed_eq_taken (hselect : c.sourceSelect ≠ 0) (htest : c.sourceSelect ≠ 3)
    {i : Input} {s : State} (hrunning : s.side.running = true) :
    consumedBytes (traceInput c i s) s.trace = takenBytes (c, i) s := by
  have hone : c.sourceSelect = 1 ∨ c.sourceSelect = 2 := by
    have hlt := c.sourceSelect.isLt
    rw [ne_eq, ← BitVec.toNat_inj] at hselect htest
    rw [← BitVec.toNat_inj, ← BitVec.toNat_inj]
    change ¬ c.sourceSelect.toNat = 0 at hselect
    change ¬ c.sourceSelect.toNat = 3 at htest
    change c.sourceSelect.toNat = 1 ∨ c.sourceSelect.toNat = 2
    omega
  have hselected : StreamSide.selected c (sideInput i s) s.side = readSide s.trace := by
    have hcapture : StreamSide.selectedCapture c (sideInput i s) s.side = readSide s.trace := by
      rw [StreamSide.selectedCapture, decoded_fifo hformat, hrunning, bne_iff_ne.mpr hselect]
      rfl
    rw [StreamSide.selected, SourceMux.output, ← hcapture]
    rcases hone with hone | hone <;> rw [hone] <;> rfl
  have hready : StreamSide.cdcReady c (sideInput i s) s.side =
      TpiuDemux.inputReady s.side.path.demux := by
    rw [StreamSide.cdcReady, if_pos hformat, StreamSide.selectedCaptureReady,
      selectedReady_eq hformat]
    rcases hone with hone | hone <;> rw [hone] <;> rfl
  rw [taken_eq hformat, hselected, consumedBytes, AsyncFifo.consumedWord, AsyncFifo.readFire,
    ← hready]
  rfl

end

/-! ### A period -/

section

variable (c : Config) (l : Leftover) {inp : ℕ → Config × Input}

theorem selected_run (t : ℕ) :
    (selectedChain c l inp).state t = selected c ((session l inp).state t) := by
  rw [selectedChain, selected]
  split_ifs
  · exact m3_run l inp t
  · exact trace_run l inp t

section

variable {c}

theorem consumed_eq_taken (hformat : c.traceFormat < 3) (htest : c.sourceSelect ≠ 3) {t : ℕ}
    (hconfig : (inp t).1 = c) (hrunning : ((session l inp).state t).side.running = true) :
    consumedBytes ((selectedChain c l inp).input t) ((selectedChain c l inp).state t) =
      takenBytes (inp t) ((session l inp).state t) := by
  have hinput : inp t = (c, (inp t).2) := by rw [← hconfig]
  rw [hinput, selected_run, selectedChain, selected]
  split_ifs with hselect
  · rw [← m3_consumed_eq_taken hformat hselect hrunning, ← hconfig]
    rfl
  · rw [← trace_consumed_eq_taken hformat hselect htest hrunning, ← hconfig]
    rfl

/-- What is read from the FIFO in a period in which the trace runs. -/
theorem during_consumed (hformat : c.traceFormat < 3) (htest : c.sourceSelect ≠ 3) (t n : ℕ)
    (hperiod : ∀ u, t ≤ u → u < t + n →
      (inp u).1 = c ∧ ((session l inp).state u).side.running = true) :
    (selectedChain c l inp).during consumedBytes t n =
      (session l inp).during takenBytes t n := by
  induction n with
  | zero => rfl
  | succ n ih =>
    obtain ⟨hconfig, hrunning⟩ := hperiod (t + n) (Nat.le_add_right t n) (Nat.lt_succ_self _)
    rw [Clocked.Run.during_succ, Clocked.Run.during_succ,
      ih fun u htu hu => hperiod u htu (Nat.lt_succ_of_lt hu),
      consumed_eq_taken l hformat htest hconfig hrunning]
    rfl

end

variable (hreset : ∀ t, (inp t).2.aresetn = true)

include hreset

theorem selected_tracked (t : ℕ) :
    ∃ n, CaptureChain.Tracked ((selectedChain c l inp).record acceptedBytes t)
      ((selectedChain c l inp).record consumedBytes t) n
      (selected c ((session l inp).state t)) := by
  rw [← selected_run, selectedChain]
  split_ifs
  · exact m3_tracked l hreset t
  · exact trace_tracked l hreset t

theorem selected_drops (t : ℕ) :
    (selected c ((session l inp).state t)).drops =
      BitVec.ofNat 64 ((selectedChain c l inp).record lostBytes t).length := by
  rw [← selected_run, selectedChain]
  split_ifs
  · exact (@CaptureChain.run_counts l.m3Mem (fun t => m3Input (inp t).1 (inp t).2 _) hreset t).drops
  · exact (@CaptureChain.run_counts l.traceMem (fun t => traceInput (inp t).1 (inp t).2 _) hreset
      t).drops

variable {c}

/-- **No silent loss.** In every period of `n` instants in which the trace of a port runs in one
TPIU format: what was in that port's FIFO at the start, followed by the captured bytes the FIFO has
accepted since, is what the demultiplexer has taken, followed by what is in the FIFO now; and the
captured bytes the FIFO has not accepted are what the drop counter has gone up by. -/
theorem no_silent_loss (hformat : c.traceFormat < 3) (htest : c.sourceSelect ≠ 3) (t n : ℕ)
    (hperiod : ∀ u, t ≤ u → u < t + n →
      (inp u).1 = c ∧ ((session l inp).state u).side.running = true) :
    (session l inp).during takenBytes t n <+:
        AsyncFifo.content (selected c ((session l inp).state t)).fifo ++
          (selectedChain c l inp).during acceptedBytes t n ∧
      AsyncFifo.content (selected c ((session l inp).state t)).fifo ++
          (selectedChain c l inp).during acceptedBytes t n =
        (session l inp).during takenBytes t n ++
          AsyncFifo.content (selected c ((session l inp).state (t + n))).fifo ∧
      (selected c ((session l inp).state (t + n))).drops =
        (selected c ((session l inp).state t)).drops +
          BitVec.ofNat 64 ((selectedChain c l inp).during lostBytes t n).length ∧
      (AsyncFifo.content (selected c ((session l inp).state t)).fifo).length +
          ((selectedChain c l inp).during capturedBytes t n).length =
        ((session l inp).during takenBytes t n).length +
          ((selectedChain c l inp).during lostBytes t n).length +
          (AsyncFifo.content (selected c ((session l inp).state (t + n))).fifo).length := by
  obtain ⟨k, hstart⟩ := selected_tracked c l hreset t
  obtain ⟨k', hnow⟩ := selected_tracked c l hreset (t + n)
  have hconsumed := during_consumed l hformat htest t n hperiod
  have hconserved : AsyncFifo.content (selected c ((session l inp).state t)).fifo ++
      (selectedChain c l inp).during acceptedBytes t n =
        (session l inp).during takenBytes t n ++
          AsyncFifo.content (selected c ((session l inp).state (t + n))).fifo := by
    have hbefore := List.prefix_iff_eq_append.mp hstart.fifo.delivered
    have hafter := List.prefix_iff_eq_append.mp hnow.fifo.delivered
    rw [hstart.fifo.content_eq, hnow.fifo.content_eq, ← hconsumed]
    -- what has been accepted by now, from what has been consumed before the period on
    apply (List.append_right_inj ((selectedChain c l inp).record consumedBytes t)).mp
    rw [← List.append_assoc, hbefore, ← Clocked.Run.record_add, ← List.append_assoc,
      ← Clocked.Run.record_add, hafter]
  have hcaptured : ((selectedChain c l inp).during capturedBytes t n).length =
      ((selectedChain c l inp).during acceptedBytes t n).length +
        ((selectedChain c l inp).during lostBytes t n).length :=
    Clocked.Run.during_length_append _ CaptureChain.capturedBytes_eq t n
  refine ⟨?_, hconserved, ?_, ?_⟩
  · rw [hconserved]
    exact List.prefix_append _ _
  · rw [selected_drops c l hreset, selected_drops c l hreset, Clocked.Run.record_add,
      List.length_append, BitVec.ofNat_add]
  · have hlengths := congrArg List.length hconserved
    rw [List.length_append, List.length_append] at hlengths
    omega

end

/-- The other port is selected in the four-bit format, the trace runs, and its clock ticks. -/
def fourBitTrace (_ : ℕ) : Config × Input :=
  ({ sourceSelect := 1, traceFormat := 2, swoBaud := 0 }, otherPort (some .rise))

/-- Three bytes are in the FIFO, six more come, and six are taken. -/
theorem no_silent_loss_four_bit :
    ((session cleared fourBitTrace).during takenBytes 9 6).length = 6 ∧
      (AsyncFifo.content (selected (fourBitTrace 0).1
            ((session cleared fourBitTrace).state 9)).fifo).length +
          ((selectedChain (fourBitTrace 0).1 cleared fourBitTrace).during capturedBytes 9
            6).length =
        ((session cleared fourBitTrace).during takenBytes 9 6).length +
          ((selectedChain (fourBitTrace 0).1 cleared fourBitTrace).during lostBytes 9 6).length +
          (AsyncFifo.content (selected (fourBitTrace 0).1
            ((session cleared fourBitTrace).state 15)).fifo).length := by
  have hperiod : ∀ u, 9 ≤ u → u < 9 + 6 → (fourBitTrace u).1 = (fourBitTrace 0).1 ∧
      ((session cleared fourBitTrace).state u).side.running = true := by
    intro u hu _
    obtain ⟨u, rfl⟩ := Nat.exists_eq_add_of_le hu
    exact ⟨rfl, by rw [Nat.add_comm, Clocked.Run.state_succ]; rfl⟩
  have hkept := @no_silent_loss (fourBitTrace 0).1 cleared fourBitTrace (fun _ => rfl) (by decide)
    (by decide) 9 6 hperiod
  exact ⟨by decide +kernel, hkept.2.2.2⟩

end TracePath
