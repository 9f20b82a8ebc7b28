import Zub1cg.Rtl.TpiuDemux.Simulation

/-!
# The built-in test source and its path into the demultiplexer

`orbtrace_test_source.sv`, `orbtrace_source_mux.sv` and the part of `orbtrace_core.sv` between
the sources and the output of the demultiplexer, wired as in `orbtrace_pl.v`.

## Main definitions

- `TestSource.step` — the generator
- `SourceMux.output`, `SourceMux.ready` — the selection of one of the three sources
- `TestPath.step` — generator, selection and demultiplexer together

## Main results

- `TestPath.regression_iff` — what the path makes of whole periods of the generator
-/

/-! ## The generator (`orbtrace_test_source.sv`) -/

namespace TestSource

structure State where
  index : ℕ

def resetState : State where
  index := 0

def outputData (rawBase : UInt8) (tpiuMode : Bool) (s : State) : UInt8 :=
  if !tpiuMode then rawBase + UInt8.ofNat (s.index % 16)
  else
    match s.index with
    | 0 => 0x7f
    | 1 => 0xff
    | 2 => 0xff
    | 3 => 0xff
    | 4 => 0x05
    | 19 => 0x00
    | _ => rawBase + UInt8.ofNat s.index - 5

/-- One edge of `clk`. -/
def step (resetN enable tpiuMode outputReady : Bool) (s : State) : State :=
  if !resetN || !enable then resetState
  else if enable && outputReady then
    if tpiuMode then { index := if s.index = 19 then 0 else (s.index + 1) % 32 }
    else { index := if s.index = 15 then 0 else (s.index + 1) % 32 }
  else s

end TestSource

/-! ## The selection (`orbtrace_source_mux.sv`) -/

namespace SourceMux

/-- Data and valid of one source. -/
structure Source where
  data : UInt8
  valid : Bool

def output (select : BitVec 2) (m3 coresight test : Source) : Source :=
  match select.toNat with
  | 0 => m3
  | 1 => coresight
  | 2 => coresight
  | _ => test

/-- `m3_ready`, `coresight_ready` and `test_ready` -/
def ready (select : BitVec 2) (outputReady : Bool) : Bool × Bool × Bool :=
  match select.toNat with
  | 0 => (outputReady, false, false)
  | 1 => (false, outputReady, false)
  | 2 => (false, outputReady, false)
  | _ => (false, false, outputReady)

end SourceMux

/-! ## The path (`orbtrace_core.sv`, `orbtrace_pl.v`) -/

namespace TestPath

open Model (MuxedByte TpiuDecoder)

/-- `RAW_BASE` of the instance `deterministic_stimulus` -/
def RAW_BASE : UInt8 := 0x80

/-- What the surroundings drive in one cycle. -/
structure Input where
  resetN : Bool
  resetSync : Bool
  running : Bool
  sourceSelect : BitVec 2
  traceFormat : BitVec 3
  m3 : SourceMux.Source
  coresight : SourceMux.Source
  demuxReady : Bool

structure State where
  source : TestSource.State
  demux : TpiuDemux.State

/-- `running && source_select==3` -/
def enable (i : Input) : Bool := i.running && i.sourceSelect == 3

/-- `trace_format<3` -/
def tpiuMode (i : Input) : Bool := i.traceFormat < 3

/-- `trace_format >= 3` -/
def bypassTpiu (i : Input) : Bool := i.traceFormat ≥ 3

def test (i : Input) (s : State) : SourceMux.Source :=
  ⟨TestSource.outputData RAW_BASE (tpiuMode i) s.source, enable i⟩

def selected (i : Input) (s : State) : SourceMux.Source :=
  SourceMux.output i.sourceSelect i.m3 i.coresight (test i s)

/-- `bypass_tpiu ? demux_ready : tpiu_input_ready` -/
def selectedReady (i : Input) (s : State) : Bool :=
  if bypassTpiu i then i.demuxReady else TpiuDemux.inputReady s.demux

def testReady (i : Input) (s : State) : Bool :=
  (SourceMux.ready i.sourceSelect (selectedReady i s)).2.2

/-- The ports of `demux`. -/
def demuxInput (i : Input) (s : State) : TpiuDemux.Input where
  resetN := i.resetN
  resetSync := i.resetSync
  inputData := (selected i s).data
  inputValid := (selected i s).valid && !bypassTpiu i
  outputReady := i.demuxReady
  m3Source := i.sourceSelect == 0

/-- One edge of `clk`. -/
def step (i : Input) (s : State) : State where
  source := TestSource.step i.resetN (enable i) (tpiuMode i) (testReady i s) s.source
  demux := TpiuDemux.step (demuxInput i s) s.demux

/-- The path coming out of reset and driven by `inp`. -/
def run (s₀ : TpiuDemux.State) (inp : ℕ → Input) : Clocked.Run Input State where
  step := step
  start := { source := TestSource.resetState, demux := TpiuDemux.resetState s₀ }
  input := inp

/-- The byte the generator delivers at this edge. -/
def delivered (i : Input) (s : State) : List UInt8 :=
  if (test i s).valid && testReady i s then [(test i s).data] else []

/-- The pair the demultiplexer hands over at this edge. -/
def handedOver (i : Input) (s : State) : List (BitVec 7 × UInt8) :=
  TpiuDemux.handedOver (demuxInput i s) s.demux

/-- The bytes of one period of the generator. -/
def period : List UInt8 :=
  (List.range 20).map fun index => TestSource.outputData RAW_BASE true { index := index }

/-- The data bytes a synchronised decoder recovers from the frame of one period. -/
def recovered : List UInt8 :=
  ({ TpiuDecoder.initial with synced := true }.decode (period.drop 4)).2.map MuxedByte.data

/-! ### The regression -/

/-- The test source is selected in a TPIU format, the trace runs, and nobody interferes. -/
structure Selected (i : Input) : Prop where
  resetN : i.resetN = true
  resetSync : i.resetSync = false
  running : i.running = true
  sourceSelect : i.sourceSelect = 3
  traceFormat : i.traceFormat < 3

/-- After `n` periods the demultiplexer has put out 14 bytes for each of them, all on channel 2:
the data of the frame, over and over. -/
def RegressionWorks (r : Clocked.Run Input State) (t n : ℕ) : Prop :=
  let out := (r.record handedOver t).map TpiuDemux.muxedByte ++
    TpiuDemux.pending (r.state t).demux
  out.length = 14 * n ∧ (∀ b ∈ out, b.channel = 2) ∧
    out.map MuxedByte.data = (List.replicate n recovered).flatten

section

variable {i : Input} (hi : Selected i) (s : State)

include hi

theorem Selected.formats : tpiuMode i = true ∧ bypassTpiu i = false := by
  have := hi.traceFormat
  refine ⟨decide_eq_true this, decide_eq_false ?_⟩
  exact fun h => absurd (BitVec.not_lt.mpr h) (not_not.mpr this)

/-- The generator's bytes go straight to the demultiplexer. -/
theorem Selected.ports :
    demuxInput i s =
      { resetN := true
        resetSync := false
        inputData := TestSource.outputData RAW_BASE true s.source
        inputValid := true
        outputReady := i.demuxReady
        m3Source := false } ∧
      testReady i s = TpiuDemux.inputReady s.demux ∧ (test i s).valid = true := by
  obtain ⟨htpiu, hbypass⟩ := hi.formats
  have henable : enable i = true := by
    rw [enable, hi.running, hi.sourceSelect]
    rfl
  have htest : test i s = ⟨TestSource.outputData RAW_BASE true s.source, true⟩ := by
    rw [test, htpiu, henable]
  have hselected : selected i s = test i s := by
    rw [selected, hi.sourceSelect]
    rfl
  refine ⟨?_, ?_, by rw [htest]⟩
  · rw [demuxInput, hselected, htest, hi.resetN, hi.resetSync, hbypass, hi.sourceSelect]
    rfl
  · rw [testReady, hi.sourceSelect, selectedReady, hbypass]
    rfl

end

/-- The demultiplexer is searching, and the generator is in the middle of a period or the byte
in front of the period's sync packet was not `FF`. -/
structure Searching (t : ℕ) (s : State) : Prop where
  index : s.source.index = t % 20
  synced : s.demux.synced = false
  emitting : s.demux.emitting = false
  window : s.source.index = 0 → s.demux.syncWindow.toNat < 2 ^ 24

/-- Of the bytes of a period only the first one is `7F`. -/
theorem outputData_eq_sync {n : ℕ} (hn : n < 20)
    (h : TestSource.outputData RAW_BASE true { index := n } = 0x7f) : n = 0 := by
  revert h
  interval_cases n <;> decide

theorem nextWindow_toNat (i : TpiuDemux.Input) (s : TpiuDemux.State) :
    (TpiuDemux.nextWindow i s).toNat = i.inputData.toNat * 2 ^ 24 + s.syncWindow.toNat / 2 ^ 8 := by
  have hwindow := s.syncWindow.isLt
  have hslice : (s.syncWindow.extractLsb' 8 24).toNat = s.syncWindow.toNat / 2 ^ 8 := by
    rw [BitVec.extractLsb'_toNat, Nat.shiftRight_eq_div_pow]
    omega
  rw [TpiuDemux.nextWindow, BitVec.toNat_append, hslice, UInt8.toNat_toBitVec,
    ← Nat.shiftLeft_add_eq_or_of_lt (by omega), Nat.shiftLeft_eq]

section

variable {t : ℕ} {i : Input} (hi : Selected i) {s : State} (h : Searching t s)

include h

theorem Searching.source : s.source = { index := t % 20 } := by rw [← h.index]

theorem Searching.inputReady : TpiuDemux.inputReady s.demux = true := by
  rw [TpiuDemux.inputReady, h.emitting]
  rfl

include hi

/-- The byte of the generator goes on top of the window. -/
theorem Searching.nextWindow :
    (TpiuDemux.nextWindow (demuxInput i s) s.demux).toNat =
      (TestSource.outputData RAW_BASE true { index := t % 20 }).toNat * 2 ^ 24 +
        s.demux.syncWindow.toNat / 2 ^ 8 := by
  rw [nextWindow_toNat, (hi.ports s).1, h.source]

/-- The generator's sync packet begins with the byte that has to end it: no byte completes one. -/
theorem Searching.no_match :
    TpiuDemux.nextWindow (demuxInput i s) s.demux ≠ 0x7fffffff := by
  intro hlock
  have hwindow := h.nextWindow hi
  rw [hlock] at hwindow
  have hold := s.demux.syncWindow.isLt
  have hbyte := (TestSource.outputData RAW_BASE true { index := t % 20 }).toNat_lt
  change 0x7fffffff = _ at hwindow
  -- the newest byte would be `7F`, which begins a period, and the one before it `FF`
  have h7f : TestSource.outputData RAW_BASE true { index := t % 20 } = 0x7f := by
    apply UInt8.toNat_inj.mp
    change _ = 0x7f
    omega
  have hbegin := outputData_eq_sync (Nat.mod_lt _ (by decide)) h7f
  have hsmall := h.window (h.index.trans hbegin)
  omega

/-- The demultiplexer goes on searching. -/
theorem Searching.demux_step : (TestPath.step i s).demux =
    { s.demux with syncWindow := TpiuDemux.nextWindow (demuxInput i s) s.demux } := by
  have hports := (hi.ports s).1
  have hplain : TpiuDemux.Plain (demuxInput i s) := by
    rw [hports]
    exact ⟨rfl, rfl, rfl⟩
  have hfire : TpiuDemux.inputFire (demuxInput i s) s.demux = true := by
    rw [TpiuDemux.inputFire, h.inputReady, hports]
    rfl
  change TpiuDemux.step (demuxInput i s) s.demux = _
  rw [TpiuDemux.step_search hplain hfire h.synced, if_neg (h.no_match hi)]

/-- The generator goes on to the next byte of its period. -/
theorem Searching.index_step :
    (TestPath.step i s).source.index = if t % 20 = 19 then 0 else t % 20 + 1 := by
  obtain ⟨-, hready, hvalid⟩ := hi.ports s
  have henable : enable i = true := hvalid
  change (TestSource.step i.resetN (enable i) (tpiuMode i) (testReady i s) s.source).index = _
  rw [hi.resetN, henable, hi.formats.1, hready, h.inputReady, h.source]
  change (if t % 20 = 19 then (0 : ℕ) else (t % 20 + 1) % 32) = _
  split <;> omega

/-- **One cycle**: a byte is delivered, none locks the demultiplexer, and nothing is put out. -/
theorem Searching.step :
    Searching (t + 1) (step i s) ∧ delivered i s = [period.getD (t % 20) 0] ∧
      handedOver i s = [] := by
  obtain ⟨-, hready, hvalid⟩ := hi.ports s
  have hbound : t % 20 < 20 := Nat.mod_lt _ (by decide)
  have hdemux := h.demux_step hi
  have hindex := h.index_step hi
  refine ⟨⟨?_, ?_, ?_, ?_⟩, ?_, TpiuDemux.handedOver_collecting _ h.emitting⟩
  · rw [hindex]
    split <;> omega
  · rw [hdemux]
    exact h.synced
  · rw [hdemux]
    exact h.emitting
  · intro hzero
    rw [hindex] at hzero
    have hlast : t % 20 = 19 := by
      by_contra hne
      rw [if_neg hne] at hzero
      omega
    rw [hdemux]
    change (TpiuDemux.nextWindow (demuxInput i s) s.demux).toNat < 2 ^ 24
    have hold := s.demux.syncWindow.isLt
    have hend : (TestSource.outputData RAW_BASE true { index := 19 }).toNat = 0 := rfl
    rw [h.nextWindow hi, hlast, hend]
    omega
  · have htest : (test i s).data = TestSource.outputData RAW_BASE true s.source := by
      rw [test, hi.formats.1]
    rw [delivered, hvalid, hready, h.inputReady, htest, h.source, period]
    simp [hbound]

end

/-- What the path has done after `t` cycles: delivered as many bytes, and put out none. -/
theorem searching_run (s₀ : TpiuDemux.State) (inp : ℕ → Input) (hinp : ∀ t, Selected (inp t))
    (t : ℕ) :
    Searching t ((run s₀ inp).state t) ∧
      (run s₀ inp).record delivered t = (List.range t).map (fun k => period.getD (k % 20) 0) ∧
      (run s₀ inp).record handedOver t = [] := by
  induction t with
  | zero => exact ⟨⟨rfl, rfl, rfl, fun _ => (show (0#32).toNat < 2 ^ 24 by decide)⟩, rfl, rfl⟩
  | succ t ih =>
    obtain ⟨hsearching, hdelivered, hnone⟩ := ih
    obtain ⟨hnext, hbyte, hquiet⟩ := hsearching.step (hinp t)
    refine ⟨hnext, ?_, ?_⟩
    · rw [Clocked.Run.record_succ, hdelivered, List.range_succ, List.map_append]
      exact congrArg _ hbyte
    · rw [Clocked.Run.record_succ, hnone]
      exact hquiet

/-- **What the regression path makes of `n` periods.** The generator delivers them in `20 * n`
cycles whatever the output's readiness, and the demultiplexer puts out what the regression
expects if and only if `n` is zero. -/
theorem regression_iff (s₀ : TpiuDemux.State) (inp : ℕ → Input) (hinp : ∀ t, Selected (inp t))
    (n : ℕ) :
    ((run s₀ inp).record delivered (20 * n)).length = 20 * n ∧
      (RegressionWorks (run s₀ inp) (20 * n) n ↔ n = 0) := by
  obtain ⟨hsearching, hdelivered, hnone⟩ := searching_run s₀ inp hinp (20 * n)
  have hout : ((run s₀ inp).record handedOver (20 * n)).map TpiuDemux.muxedByte ++
      TpiuDemux.pending ((run s₀ inp).state (20 * n)).demux = [] := by
    rw [hnone, TpiuDemux.pending, hsearching.emitting]
    rfl
  refine ⟨by rw [hdelivered, List.length_map, List.length_range], ?_⟩
  rw [RegressionWorks]
  rw [hout]
  constructor
  · rintro ⟨hlength, -⟩
    rw [List.length_nil] at hlength
    omega
  · rintro rfl
    exact ⟨rfl, by simp, rfl⟩

/-- The test source selected, with the output ready in every third cycle. -/
def regressionInput (t : ℕ) : Input where
  resetN := true
  resetSync := false
  running := true
  sourceSelect := 3
  traceFormat := 0
  m3 := ⟨0, false⟩
  coresight := ⟨0, false⟩
  demuxReady := t % 3 == 0

theorem regressionInput_selected (t : ℕ) : Selected (regressionInput t) :=
  ⟨rfl, rfl, rfl, rfl, (show (0 : BitVec 3) < 3 by decide)⟩

/-- Two periods: forty bytes go in, none come out. -/
theorem regression_two_periods :
    let r := run TpiuDemux.initial regressionInput
    r.record delivered 40 = period ++ period ∧ r.record handedOver 40 = [] ∧
      (r.state 40).demux.synced = false ∧ ¬ RegressionWorks r 40 2 := by
  intro r
  obtain ⟨hsearching, hdelivered, hnone⟩ :=
    searching_run TpiuDemux.initial regressionInput regressionInput_selected 40
  refine ⟨hdelivered.trans (by decide), hnone, hsearching.synced, ?_⟩
  rintro ⟨hlength, -⟩
  rw [hnone, TpiuDemux.pending, hsearching.emitting] at hlength
  cases hlength

/-- After three periods the regression has failed. -/
theorem regression_three_periods :
    ¬ RegressionWorks (run TpiuDemux.initial regressionInput) 60 3 := by
  have hiff := (regression_iff TpiuDemux.initial regressionInput regressionInput_selected 3).2
  exact fun hworks => absurd (hiff.mp hworks) (by decide)

end TestPath
