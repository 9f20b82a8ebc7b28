import Zub1cg.Library.GatedClock
import Zub1cg.Rtl.Core.Decoded
import Zub1cg.Rtl.TracePath.NoSilentLoss
import Zub1cg.System.TraceServer

/-!
# From the pins to the host

The trace path with its two trace ports and their clocks, and the trace server behind it, which
moves at the edges of `aclk`. While a trace of the PS's port runs, what the FIFO has accepted at the
pins goes through demultiplexer, packetizer, encoder, packer, DMA engine and TCP to the host, and
the host finds on every channel what the TPIU decoder returns for it.

## Main definitions

- `TraceCapture.step` — one instant of the trace path and the trace server
- `Running` — the trace runs since an instant

## Main results

- `server_run` — the trace server as a machine of its own
- `taken_run` — what the demultiplexer takes while the trace runs
- `trace_capture_decoded` — what the host gets from the pins
-/

namespace System

open AxisPacker (Beat)
open CaptureChain (acceptedBytes consumedBytes lostBytes)
open Firmware (Handed TraceSession)
open Model (TpiuDecoder)
open Stream (FromPort Whole dataOn demuxTaken)
open StreamSide (Config)
open TpiuDemux (SYNC)
open TracePath (Leftover selectedChain selected takenBytes)

/-- The trace path, and the trace server on its stream side. -/
structure TraceCapture where
  path : TracePath.State
  server : TraceServer

namespace TraceCapture

/-- What happens at one instant; calls and writes come with an edge of `aclk`. -/
structure Input where
  path : TracePath.Input
  calls : List TraceCall
  fault : Bool
  writes : Bool
  marks : UInt32

/-- The trace server at an edge of `aclk`. -/
def serverInput (c : Config) (i : Input) (s : TraceCapture) : TraceServer.Input where
  calls := i.calls
  pl := Stream.sideInput c (TracePath.sideInput i.path s.path) s.path.side
  fault := i.fault
  writes := i.writes
  marks := i.marks

/-- One instant. -/
def step (c : Config) (i : Input) (s : TraceCapture) : TraceCapture where
  path := TracePath.step c i.path s.path
  server := if i.path.aclk then TraceServer.step (serverInput c i s) s.server else s.server

/-- After a reset, with one configuration. -/
def run (c : Config) (l : Leftover) (inp : ℕ → Input) : Clocked.Run Input TraceCapture where
  step := step c
  start :=
    { path := TracePath.resetState l
      server :=
        { pl := Stream.ofSide (StreamSide.resetState l.demux l.encoder)
          s2mm := ⟨false, 0, []⟩
          session := TraceSession.powerOn
          beats := []
          begun := [] } }
  input := inp

/-- The trace path in it. -/
def pathRun (c : Config) (l : Leftover) (inp : ℕ → Input) :
    Clocked.Run (Config × TracePath.Input) TracePath.State :=
  TracePath.session l fun u => (c, (inp u).path)

/-- The trace runs since instant `t`, for `n` instants. -/
structure Running (c : Config) (l : Leftover) (inp : ℕ → Input) (t n : ℕ) : Prop where
  before : ∀ u < t, ((pathRun c l inp).state u).side.running = false
  since : ∀ u, t ≤ u → u < t + n → ((pathRun c l inp).state u).side.running = true

/-- A source of the PS in a TPIU format. -/
structure FromPs (c : Config) : Prop where
  sourceSelect : c.sourceSelect = 1 ∨ c.sourceSelect = 2
  traceFormat : c.traceFormat < 3

/-- No reset. -/
structure Quiet (i : Input) : Prop where
  aresetn : i.path.aresetn = true
  resetPulse : i.path.resetPulse = false

/-! ### The parts -/

section

variable {c : Config} {l : Leftover} {inp : ℕ → Input}

/-- The gate of the trace server's clock. -/
def aclk (i : Input) (_ : TraceCapture) : Bool := i.path.aclk

/-- What the trace server sees at the edges of `aclk`. -/
noncomputable def serverInputs (c : Config) (l : Leftover) (inp : ℕ → Input) :
    ℕ → TraceServer.Input :=
  ((run c l inp).gated aclk TraceServer.step (serverInput c) TraceCapture.server).input

/-- **The trace server** runs on what it sees at the edges of `aclk`. -/
theorem server_run (t : ℕ) :
    (TraceServer.run l.demux l.encoder (serverInputs c l inp)).state
      ((run c l inp).ticks aclk t) = ((run c l inp).state t).server := by
  have hpart : ∀ i s, ((run c l inp).step i s).server =
      if aclk i s then TraceServer.step (serverInput c i s) s.server else s.server :=
    fun _ _ => rfl
  exact (run c l inp).gated_state hpart t

/-- The demultiplexer takes at them what it takes in the trace path. -/
theorem demuxTaken_run (t : ℕ) :
    demuxTaken (Stream.run l.demux l.encoder fun k => (serverInputs c l inp k).pl)
      ((run c l inp).ticks aclk t) = (pathRun c l inp).record takenBytes t := by
  let r := run c l inp
  have hpart : ∀ i s, Stream.ofSide (r.step i s).path.side =
      if aclk i s then Stream.step (serverInput c i s).pl (Stream.ofSide s.path.side)
      else Stream.ofSide s.path.side := by
    intro i s
    change Stream.ofSide (TracePath.sideNext c i.path s.path) = _
    rw [TracePath.sideNext, aclk]
    split <;> rfl
  let machine (i : Config × TracePath.Input) (s : TracePath.State) := TracePath.step i.1 i.2 s
  let feed (i : Input) (_ : TraceCapture) := (c, i.path)
  have hpath : ∀ i s, (r.step i s).path = machine (feed i s) s.path := fun _ _ => rfl
  have hrecord : (r.gated aclk Stream.step (fun i s => (serverInput c i s).pl)
      (fun s => Stream.ofSide s.path.side)).record (fun i s =>
        TpiuDemux.accepted (Core.demuxInput (Stream.coreInput i s) s.core) s.core.demux)
      (r.ticks aclk t) = _ := r.gated_record hpart _ t
  have hfeed : (r.part machine feed TraceCapture.path).record takenBytes t = _ :=
    r.part_record hpath takenBytes t
  exact hrecord.trans hfeed.symm

/-! ### While the trace runs -/

theorem FromPs.ne_zero (h : FromPs c) : c.sourceSelect ≠ 0 := by
  obtain hone | htwo := h.sourceSelect
  · rw [hone]
    decide
  · rw [htwo]
    decide

theorem FromPs.ne_three (h : FromPs c) : c.sourceSelect ≠ 3 := by
  obtain hone | htwo := h.sourceSelect
  · rw [hone]
    decide
  · rw [htwo]
    decide

/-- What the core is fed. -/
theorem FromPs.fromPort (h : FromPs c) {i : Input} (hi : Quiet i) (s : TraceCapture) :
    FromPort (serverInput c i s).pl := ⟨hi.aresetn, hi.resetPulse, h.ne_zero, h.traceFormat⟩

/-- Nothing is taken while the trace does not run. -/
theorem FromPs.taken_stopped (h : FromPs c) (i : TracePath.Input) {s : TracePath.State}
    (hstopped : s.side.running = false) : takenBytes (c, i) s = [] := by
  have hvalid : (StreamSide.selected c (TracePath.sideInput i s) s.side).valid = false := by
    have hcapture : StreamSide.selected c (TracePath.sideInput i s) s.side =
        StreamSide.selectedCapture c (TracePath.sideInput i s) s.side := by
      rw [StreamSide.selected, SourceMux.output]
      obtain hone | htwo := h.sourceSelect
      · rw [hone]
        rfl
      · rw [htwo]
        rfl
    rw [hcapture, StreamSide.selectedCapture, hstopped]
    rfl
  rw [TracePath.taken_eq h.traceFormat, hvalid, Bool.false_and, Bool.and_false,
    if_neg Bool.false_ne_true]

/-- **What the demultiplexer has taken** is what the FIFO held when the trace began to run and what
it has accepted since, but for what it holds now. -/
theorem taken_run (hps : FromPs c) (hquiet : ∀ u, Quiet (inp u)) {t n : ℕ}
    (hrun : Running c l inp t n) :
    (pathRun c l inp).record takenBytes (t + n) ++
        AsyncFifo.content (selected c ((pathRun c l inp).state (t + n))).fifo =
      AsyncFifo.content (selected c ((pathRun c l inp).state t)).fifo ++
        (selectedChain c l fun u => (c, (inp u).path)).during acceptedBytes t n := by
  let inp' (u : ℕ) : Config × TracePath.Input := (c, (inp u).path)
  let chain := selectedChain c l inp'
  have hreset : ∀ u, (inp' u).2.aresetn = true := fun u => (hquiet u).aresetn
  have hnone : (pathRun c l inp).record takenBytes t = [] :=
    (pathRun c l inp).record_eq_nil fun u hu =>
      hps.taken_stopped (inp u).path (hrun.before u hu)
  obtain ⟨k, hstart⟩ := TracePath.selected_tracked c l hreset t
  obtain ⟨k', hnow⟩ := TracePath.selected_tracked c l hreset (t + n)
  have hconsumed : chain.during consumedBytes t n = (pathRun c l inp).during takenBytes t n :=
    TracePath.during_consumed l hps.traceFormat hps.ne_three t n
      fun u hu hlt => ⟨rfl, hrun.since u hu hlt⟩
  have hbefore := List.prefix_iff_eq_append.mp hstart.fifo.delivered
  have hafter := List.prefix_iff_eq_append.mp hnow.fifo.delivered
  -- what has been consumed before the trace ran has been consumed from what was accepted then
  apply (List.append_right_inj (chain.record consumedBytes t)).mp
  have hcontent := hstart.fifo.content_eq
  have hcontent' := hnow.fifo.content_eq
  change AsyncFifo.content (selected c ((pathRun c l inp).state t)).fifo = _ at hcontent
  change AsyncFifo.content (selected c ((pathRun c l inp).state (t + n))).fifo = _ at hcontent'
  rw [hcontent, hcontent', Clocked.Run.record_add, hnone, List.nil_append, ← hconsumed,
    ← List.append_assoc, ← Clocked.Run.record_add, hafter, ← List.append_assoc, hbefore,
    ← Clocked.Run.record_add]

/-- What has not been accepted is what the drop counter has gone up by. -/
theorem drops_run (hquiet : ∀ u, Quiet (inp u)) (t n : ℕ) :
    (selected c ((pathRun c l inp).state (t + n))).drops =
      (selected c ((pathRun c l inp).state t)).drops + BitVec.ofNat 64
        ((selectedChain c l fun u => (c, (inp u).path)).during lostBytes t n).length := by
  let inp' (u : ℕ) : Config × TracePath.Input := (c, (inp u).path)
  have hreset : ∀ u, (inp' u).2.aresetn = true := fun u => (hquiet u).aresetn
  have hstart := TracePath.selected_drops c l hreset t
  have hnow := TracePath.selected_drops c l hreset (t + n)
  rw [Clocked.Run.record_add, List.length_append, BitVec.ofNat_add, ← hstart] at hnow
  exact hnow

/-- **What the host finds** in packets of a session that follow each other. -/
theorem host_run (hps : FromPs c) (hquiet : ∀ u, Quiet (inp u)) (t : ℕ)
    {skip stretch more : List Handed}
    (hparts : ((run c l inp).state t).server.session.sent = skip ++ stretch ++ more)
    (hbegun : skip = [] → Whole ((run c l inp).state t).server.begun) :
    ∃ front middle back,
      (TpiuDecoder.feed SYNC TpiuDecoder.initial ((pathRun c l inp).record takenBytes t)).2 =
        front ++ middle ++ back ∧
      ∀ ch : UInt8,
        Model.reconstructChannelStream (((run c l inp).state t).server.begun.flatMap Beat.bytes ++
          skip.flatMap Handed.payload) ch = dataOn ch front ∧
        Model.reconstructChannelStream (stretch.flatMap Handed.payload) ch =
          dataOn ch middle := by
  have hport : ∀ k, FromPort (serverInputs c l inp k).pl := fun _ => hps.fromPort (hquiet _) _
  rw [← server_run] at hparts hbegun ⊢
  obtain ⟨transfers, htracks⟩ := @TraceServer.tracks_run l.demux l.encoder (serverInputs c l inp)
    (fun k => (hport k).aresetn) ((run c l inp).ticks aclk t)
  obtain ⟨before, beats, rest, hbeats, hbefore, hafter, hskip, hstretch⟩ :=
    htracks.stretch hparts hbegun
  rw [TraceServer.beats_eq] at hbeats
  have hdecoded := Stream.stretch_decoded hport hbeats hbefore hafter
  rw [hskip, hstretch, demuxTaken_run] at hdecoded
  exact hdecoded

end

end TraceCapture

open TraceCapture

/-- **From the pins to the host.** A source of the PS is traced in a TPIU format, nothing is reset,
and the trace runs from instant `t` on. Whatever the clocks, the data, NetX and the DMA engine do:
the demultiplexer has taken the bytes that the FIFO held and has accepted since, but for those it
holds now, and what it did not accept has been counted. Any packets of the session that follow each
other, from the first one on if the session did not begin inside a transfer, give the host on every
channel what the TPIU decoder returns for this channel in a row. -/
theorem trace_capture_decoded (c : Config) (l : Leftover) (inp : ℕ → Input) (hps : FromPs c)
    (hquiet : ∀ u, Quiet (inp u)) (t n : ℕ) (hrun : Running c l inp t n) :
    let path := pathRun c l inp
    let chain := selectedChain c l fun u => (c, (inp u).path)
    let s := ((run c l inp).state (t + n)).server
    ∃ bytes : List UInt8,
      bytes ++ AsyncFifo.content (selected c (path.state (t + n))).fifo =
        AsyncFifo.content (selected c (path.state t)).fifo ++ chain.during acceptedBytes t n ∧
      (selected c (path.state (t + n))).drops = (selected c (path.state t)).drops +
        BitVec.ofNat 64 (chain.during lostBytes t n).length ∧
      ∀ skip stretch more : List Handed, s.session.sent = skip ++ stretch ++ more →
        (skip = [] → Whole s.begun) →
          ∃ front middle back,
            (TpiuDecoder.feed SYNC TpiuDecoder.initial bytes).2 = front ++ middle ++ back ∧
              ∀ ch : UInt8,
                Model.reconstructChannelStream
                  (s.begun.flatMap Beat.bytes ++ skip.flatMap Handed.payload) ch =
                    dataOn ch front ∧
                Model.reconstructChannelStream (stretch.flatMap Handed.payload) ch =
                  dataOn ch middle :=
  ⟨_, taken_run hps hquiet hrun, drops_run hquiet t n,
    fun _ _ _ hparts hbegun => host_run hps hquiet (t + n) hparts hbegun⟩

/-- Four bits of the PS's port, with a sync packet and a frame that changes its channel at every
byte. -/
def psTrace : Config where
  sourceSelect := 1
  traceFormat := 2
  swoBaud := 0

def psBytes : List UInt8 :=
  [0, 0, 0, 0, 0, 0, 0xff, 0xff, 0xff, 0x7f, 0x05, 0x11, 0x07, 0x22, 0x05, 0x33, 0x07, 0x44, 0x05,
    0x55, 0x07, 0x66, 0x05, 0x77, 0x07, 0x00]

/-- A byte for each two edges of the trace clock, low half first. -/
def psPins (u : ℕ) : BitVec 4 :=
  if u % 2 = 0 then (psBytes.getD (u / 2) 0).toBitVec.extractLsb' 0 4
  else (psBytes.getD (u / 2) 0).toBitVec.extractLsb' 4 4

/-- A client connects at once, and the first transfer goes to it. -/
def firstFrame (u : ℕ) : TraceCapture.Input where
  path :=
    { TracePath.otherPort none with
      trace :=
        { TracePath.restingPort with
          traceClk := some (if u % 2 = 0 then .rise else .fall)
          traceData := psPins u } }
  calls :=
    if u = 0 then [.initializeRing (fun _ => false) fun _ => .ok (0, 0x10000)]
    else if u = 79 then [.sendCompleted (.ok (0, 0x10000)) none]
    else []
  fault := false
  writes := true
  marks := TRACE_DMA_BD_MARKS

/-- It has the first byte of channel 2 and the first one of channel 3. -/
theorem trace_capture_decoded_first :
    let s := ((run psTrace TracePath.cleared firstFrame).state 80).server
    s.session.sent.map Handed.payload = [[4, 2, 17, 237, 0, 4, 3, 34, 219, 0]] ∧
      ∃ bytes front middle back,
        (TpiuDecoder.feed SYNC TpiuDecoder.initial bytes).2 = front ++ middle ++ back ∧
          dataOn 2 middle = [17] ∧ dataOn 3 middle = [34] := by
  intro s
  have hsent : s.session.sent.map Handed.payload = [[4, 2, 17, 237, 0, 4, 3, 34, 219, 0]] := by
    decide +kernel
  have hbegun : s.begun = [] := by
    apply List.eq_nil_of_length_eq_zero
    decide +kernel
  have hwhole : Whole s.begun := by
    rw [hbegun]
    intro beat hbeat
    cases hbeat
  have hrun : Running psTrace TracePath.cleared firstFrame 1 79 := by
    refine ⟨fun u hu => ?_, fun u hu _ => ?_⟩
    · rw [Nat.lt_one_iff.mp hu]
      rfl
    · obtain ⟨u, rfl⟩ := Nat.exists_eq_add_of_le hu
      rw [Nat.add_comm, Clocked.Run.state_succ]
      rfl
  obtain ⟨bytes, -, -, hstretch⟩ := trace_capture_decoded psTrace TracePath.cleared firstFrame
    ⟨.inl rfl, by decide⟩ (fun _ => ⟨rfl, rfl⟩) 1 79 hrun
  obtain ⟨front, middle, back, hdecoded, hstreams⟩ := hstretch [] s.session.sent []
    (by rw [List.nil_append, List.append_nil]) fun _ => hwhole
  have hbytes : s.session.sent.flatMap Handed.payload = [4, 2, 17, 237, 0, 4, 3, 34, 219, 0] := by
    rw [List.flatMap_def, hsent]
    rfl
  rw [hbytes] at hstreams
  refine ⟨hsent, bytes, front, middle, back, hdecoded, ?_, ?_⟩
  · rw [← (hstreams 2).2]
    decide +kernel
  · rw [← (hstreams 3).2]
    decide +kernel

end System
