import Zub1cg.System.TraceCapture

/-!
# While only the time-out runs

Between two bytes on a quiet line every register of the trace path and of the trace server stays as
it is, except that the packetizer counts the clocks down until it ends its packet.

## Main definitions

- `StreamSide.Resting`, `TraceCapture.Resting` — nothing comes in, and nothing is under way
- `withIdle` — a state with another count

## Main results

- `Resting.step` — one edge counts down
- `run_resting`, `run_waits` — so do many
-/

/-! ### The parts -/

/-- An empty FIFO into which nothing is written. -/
theorem AsyncFifo.step_still {α : Type} {depthLog2 : ℕ} {i : Input α depthLog2}
    (hwrite : i.writeClk = false) (hreset : i.readResetN = true) (mem : BitVec depthLog2 → α) :
    step i (resetState mem) = resetState mem := by
  have hvalid : readValid (resetState mem) = false := bne_self_eq_false _
  have hfire : readFire i (resetState mem) = false := by rw [readFire, hvalid, Bool.false_and]
  have hgray : wrGrayAfter i (resetState mem) = 0 := by
    rw [wrGrayAfter, hwrite]
    rfl
  have hcaught : GrayCode.sample 0 (wrGrayAfter i (resetState mem)) i.wrGrayCatch = 0 := by
    rw [hgray, GrayCode.sample_self]
  rw [step, hwrite, readEdge, hreset, hfire]
  change (if i.readClk then State.mk _ _ _ _ _ _ _ (GrayCode.sample 0 _ _) _ else _) = _
  rw [hcaught]
  exact ite_self _

/-- A chain whose trace clock has not ticked. -/
theorem CaptureChain.step_still {i : Input} (hclk : i.traceClk = none) (hreset : i.aresetn = true)
    (mem : BitVec CDC_DEPTH_LOG2 → UInt8) : step i (resetState mem) = resetState mem := by
  have hrises : rises i = false := by
    rw [rises, hclk]
    rfl
  have hsync : resetSyncNext i (resetState mem) = 0 := by
    rw [resetSyncNext, hreset, hrises]
    rfl
  have hcapture : DdrCapture.step (captureInput i (resetState mem)) (resetState mem).capture =
      (resetState mem).capture := by
    rw [DdrCapture.step, captureInput, hclk]
    exact ite_self _
  have hfifo : AsyncFifo.step (fifoInput i (resetState mem)) (resetState mem).fifo =
      (resetState mem).fifo := AsyncFifo.step_still hrises hreset mem
  have htrace : traceUpdate i (resetState mem) = resetState mem := by
    rw [traceUpdate, hrises, hsync, hcapture, hfifo]
    rfl
  rw [step, htrace, aclkUpdate, hreset, GrayCode.sample_self, ite_self]
  exact ite_self _

theorem ChannelPacketizer.step_counting {maxPacket idleCycles : ℕ} {i : Input} {s : State}
    (hi : i.resetN = true) (hheld : s.held = true) (hpending : s.endPending = false)
    (hsize : sizeBoundary maxPacket s = false) (hinput : i.inputValid = false)
    (hidle : 2 ≤ s.idle) : step maxPacket idleCycles i s = { s with idle := s.idle - 1 } := by
  have hfire : outputFire maxPacket i s = false := by
    rw [outputFire, outputValid, hinput, hpending, hsize]
    simp
  have hzero : (s.idle != 0) = true := bne_iff_ne.mpr (by omega)
  have hone : (s.idle == 1) = false := beq_eq_false_iff_ne.mpr (by omega)
  rw [step, hi, handshakeUpdate, hfire, hinput, idleUpdate, hheld, hzero, hone]
  rfl

theorem TpiuDemux.step_still {i : Input} {s : State} (hi : i.resetN = true)
    (hsync : i.resetSync = false) (hinput : i.inputValid = false) (hemit : s.emitting = false) :
    step i s = s := by
  rw [step, hi, emitUpdate, advance, hemit, inputUpdate, hinput, resetSyncUpdate, hsync]
  rfl

theorem OrbflowEncoder.step_still {maxPayload : ℕ} {i : Input} {s : State} (hi : i.resetN = true)
    (hload : s.load.state = .L_ACCEPT) (hemit : s.emit.state = .E_IDLE)
    (hempty : s.bankFull s.emit.nextEncodeBank = false) (hinput : i.inputValid = false) :
    step maxPayload i s = s := by
  have hfire : inputFire i s = false := by
    rw [inputFire, hinput]
    rfl
  have happend : append maxPayload i s = none := by
    rw [append, hload]
    dsimp only
    rw [hfire, if_neg Bool.false_ne_true]
  rw [step, hi, emitUpdate, hemit, loadUpdate, hload, appendUpdate, happend]
  simp only [hfire, hempty, Bool.not_true, Bool.false_eq_true, if_false]

theorem AxisPacker.step_still {framesPerTransfer : ℕ} {i : Input} {s : State}
    (hi : i.resetN = true) (hinput : i.inputValid = false) (houtput : s.outputValid = false) :
    step framesPerTransfer i s = s := by
  rw [step, hi, hinput, houtput]
  rfl

/-! ### The stream side -/

namespace StreamSide

/-- The same with another count. -/
def State.withIdle (s : State) (idle : ℕ) : State :=
  { s with frames :=
      { s.frames with packetizer := { s.frames.packetizer with idle := idle } } }

/-- The packetizer holds a byte back, and no byte is behind it or on its way. -/
structure Resting (c : Config) (i : Input) (s : State) : Prop where
  aresetn : i.aresetn = true
  resetPulse : i.resetPulse = false
  running : runningNext i s = s.running
  baud : BaudTick.step i.aresetn c.swoBaud s.baud = s.baud
  nrz : SwoNrz.step (nrzInput c i s) s.nrz = s.nrz
  manchester : SwoManchester.step (manchesterInput c i s) s.manchester = s.manchester
  source : (TestPath.step (pathInput c i s) s.path).source.index = s.path.source.index
  demux : (TestPath.demuxInput (pathInput c i s) s.path).inputValid = false ∧
    s.path.demux.emitting = false
  held : s.frames.packetizer.held = true ∧ s.frames.packetizer.endPending = false ∧
    ChannelPacketizer.sizeBoundary FrameChain.ORBFLOW_PAYLOAD s.frames.packetizer = false ∧
    (framesInput c i s).inputValid = false
  encoder : s.frames.encoder.load.state = .L_ACCEPT ∧ s.frames.encoder.emit.state = .E_IDLE ∧
    s.frames.encoder.bankFull s.frames.encoder.emit.nextEncodeBank = false
  packer : s.packer.outputValid = false

variable {c : Config} {i : Input} {s : State}

theorem resting_iff : Resting c i s ↔
    (i.aresetn = true ∧ i.resetPulse = false ∧ runningNext i s = s.running ∧
      BaudTick.step i.aresetn c.swoBaud s.baud = s.baud) ∧
    (SwoNrz.step (nrzInput c i s) s.nrz = s.nrz ∧
      SwoManchester.step (manchesterInput c i s) s.manchester = s.manchester) ∧
    (TestPath.step (pathInput c i s) s.path).source.index = s.path.source.index ∧
    ((TestPath.demuxInput (pathInput c i s) s.path).inputValid = false ∧
      s.path.demux.emitting = false) ∧
    (s.frames.packetizer.held = true ∧ s.frames.packetizer.endPending = false ∧
      ChannelPacketizer.sizeBoundary FrameChain.ORBFLOW_PAYLOAD s.frames.packetizer = false ∧
      (framesInput c i s).inputValid = false) ∧
    (s.frames.encoder.load.state = .L_ACCEPT ∧ s.frames.encoder.emit.state = .E_IDLE ∧
      s.frames.encoder.bankFull s.frames.encoder.emit.nextEncodeBank = false) ∧
    s.packer.outputValid = false :=
  ⟨fun ⟨ha, hr, hrun, hb, hn, hm, hs, hd, hh, he, hp⟩ =>
      ⟨⟨ha, hr, hrun, hb⟩, ⟨hn, hm⟩, hs, hd, hh, he, hp⟩,
    fun ⟨⟨ha, hr, hrun, hb⟩, ⟨hn, hm⟩, hs, hd, hh, he, hp⟩ =>
      ⟨ha, hr, hrun, hb, hn, hm, hs, hd, hh, he, hp⟩⟩

instance : Decidable (Resting c i s) := decidable_of_iff _ resting_iff.symm

theorem Resting.withIdle (h : Resting c i s) (idle : ℕ) : Resting c i (s.withIdle idle) :=
  { h with }

/-- **One edge** counts down. -/
theorem Resting.step (h : Resting c i s) (hidle : 2 ≤ s.frames.packetizer.idle) :
    StreamSide.step c i s = s.withIdle (s.frames.packetizer.idle - 1) := by
  obtain ⟨hheld, hpending, hsize, hinput⟩ := h.held
  obtain ⟨hload, hemit, hempty⟩ := h.encoder
  have houtput : OrbflowEncoder.outputValid s.frames.encoder = false := by
    rw [OrbflowEncoder.outputValid, hemit]
    rfl
  have hpacket : (FrameChain.encoderInput (framesInput c i s) s.frames).inputValid = false := by
    change ChannelPacketizer.outputValid _ (FrameChain.packetizerInput _ _) _ = _
    rw [ChannelPacketizer.outputValid, hpending, hsize]
    change (_ && ((framesInput c i s).inputValid || false || false)) = false
    rw [hinput, Bool.or_false, Bool.or_false, Bool.and_false]
  have hpath : TestPath.step (pathInput c i s) s.path = s.path := by
    have hdemux : (TestPath.step (pathInput c i s) s.path).demux = s.path.demux :=
      TpiuDemux.step_still h.aresetn h.resetPulse h.demux.1 h.demux.2
    have hsource := h.source
    generalize TestPath.step (pathInput c i s) s.path = n at hdemux hsource
    obtain ⟨⟨index⟩, demux⟩ := n
    obtain rfl : index = s.path.source.index := hsource
    obtain rfl : demux = s.path.demux := hdemux
    rfl
  have hpacketizer : ChannelPacketizer.step FrameChain.ORBFLOW_PAYLOAD PACKET_TIMEOUT
      (FrameChain.packetizerInput (framesInput c i s) s.frames) s.frames.packetizer =
        { s.frames.packetizer with idle := s.frames.packetizer.idle - 1 } :=
    ChannelPacketizer.step_counting h.aresetn hheld hpending hsize hinput hidle
  have hencoder : OrbflowEncoder.step FrameChain.ORBFLOW_PAYLOAD
      (FrameChain.encoderInput (framesInput c i s) s.frames) s.frames.encoder = s.frames.encoder :=
    OrbflowEncoder.step_still h.aresetn hload hemit hempty hpacket
  have hpacker : AxisPacker.step FRAMES_PER_TRANSFER (packerInput i s) s.packer = s.packer :=
    AxisPacker.step_still h.aresetn houtput h.packer
  rw [StreamSide.step, h.running, h.baud, h.nrz, h.manchester, hpath, FrameChain.step, hpacketizer,
    hencoder, hpacker]
  rfl

end StreamSide

/-! ### Trace path and trace server -/

namespace System.TraceCapture

open StreamSide (Config)
open TracePath (Leftover)

def withIdle (s : TraceCapture) (idle : ℕ) : TraceCapture where
  path := { s.path with side := s.path.side.withIdle idle }
  server := { s.server with pl := Stream.ofSide (s.path.side.withIdle idle) }

/-- Behind the stream side the channel has nothing to write. -/
structure Resting (c : Config) (i : Input) (s : TraceCapture) : Prop where
  aclk : i.path.aclk = true
  calls : i.calls = []
  fault : i.fault = false
  side : StreamSide.Resting c (TracePath.sideInput i.path s.path) s.path.side
  trace : CaptureChain.step (TracePath.traceInput c i.path s.path) s.path.trace = s.path.trace
  m3 : CaptureChain.step (TracePath.m3Input c i.path s.path) s.path.m3 = s.path.m3
  pl : s.server.pl = Stream.ofSide s.path.side
  fifo : s.server.s2mm.fifo = []

def idle (s : TraceCapture) : ℕ := s.path.side.frames.packetizer.idle

variable {c : Config} {i : Input} {s : TraceCapture}

/-- What is in front of the stream side does not see the count. -/
theorem chainInputs_withIdle (c : Config) (i : TracePath.Input) (s : TraceCapture) (idle : ℕ) :
    TracePath.traceInput c i (s.withIdle idle).path = TracePath.traceInput c i s.path ∧
      TracePath.m3Input c i (s.withIdle idle).path = TracePath.m3Input c i s.path := by
  have hrunning : (TracePath.sideNext c i (s.withIdle idle).path).running =
      (TracePath.sideNext c i s.path).running := by
    rw [TracePath.sideNext, TracePath.sideNext]
    split <;> rfl
  rw [TracePath.traceInput, TracePath.traceInput, TracePath.m3Input, TracePath.m3Input, hrunning]
  exact ⟨rfl, rfl⟩

theorem Resting.withIdle (h : Resting c i s) (idle : ℕ) : Resting c i (s.withIdle idle) := by
  obtain ⟨htrace, hm3⟩ := chainInputs_withIdle c i.path s idle
  refine ⟨h.aclk, h.calls, h.fault, h.side.withIdle idle, ?_, ?_, rfl, h.fifo⟩
  · rw [htrace]
    exact h.trace
  · rw [hm3]
    exact h.m3

/-- **One edge** counts down. -/
theorem Resting.step (h : Resting c i s) (hidle : 2 ≤ s.idle) :
    TraceCapture.step c i s = s.withIdle (s.idle - 1) := by
  have hside := h.side.step hidle
  have hpath : TracePath.step c i.path s.path =
      { s.path with side := s.path.side.withIdle (s.idle - 1) } := by
    rw [TracePath.step, h.trace, h.m3, TracePath.sideNext, h.aclk, if_pos rfl, hside]
    rfl
  have hwrite : s.server.write i.marks = s.server := by
    rw [TraceServer.write, h.fifo]
    dsimp only
    split <;> rfl
  have hpl : Stream.step (serverInput c i s).pl s.server.pl =
      Stream.ofSide (s.path.side.withIdle (s.idle - 1)) := by
    rw [h.pl]
    exact congrArg Stream.ofSide hside
  have hbeat : AxisPacker.deliveredBeat (Stream.packerInput (serverInput c i s).pl s.server.pl)
      s.server.pl.packer = [] := by
    have hnone : AxisPacker.registered s.path.side.packer = [] := by
      rw [AxisPacker.registered, h.side.packer]
      rfl
    rw [AxisPacker.deliveredBeat, h.pl]
    change (if _ then AxisPacker.registered s.path.side.packer else []) = _
    rw [hnone, ite_self]
  have hserver : TraceServer.step (serverInput c i s) s.server =
      { s.server with pl := Stream.ofSide (s.path.side.withIdle (s.idle - 1)) } := by
    have hprepared : TraceServer.prepared (serverInput c i s) s.server = s.server := by
      have hcalls : (serverInput c i s).calls = [] := h.calls
      have hfault : (serverInput c i s).fault = false := h.fault
      rw [TraceServer.prepared, hcalls, hfault, if_neg Bool.false_ne_true, List.foldl_nil]
      exact (congrArg (if i.writes then · else s.server) hwrite).trans (ite_self _)
    rw [TraceServer.step_eq, hprepared, TraceServer.edge, hpl, hbeat, List.append_nil,
      List.append_nil]
  rw [TraceCapture.step, h.aclk, if_pos rfl, hpath, hserver]
  rfl

section

variable {l : Leftover} {inp : ℕ → Input}

/-- The trace server has the stream side's core and packer. -/
theorem pl_run (t : ℕ) : ((run c l inp).state t).server.pl =
    Stream.ofSide ((run c l inp).state t).path.side := by
  refine (run c l inp).invariant (P := fun s => s.server.pl = Stream.ofSide s.path.side) rfl ?_ t
  intro t s hs
  change (if (inp t).path.aclk then TraceServer.step (serverInput c (inp t) s) s.server
    else s.server).pl = Stream.ofSide (TracePath.sideNext c (inp t).path s.path)
  rw [TracePath.sideNext]
  split
  · rw [TraceServer.step_eq]
    change Stream.step _ (TraceServer.prepared (serverInput c (inp t) s) s.server).pl = _
    rw [(TraceServer.prepared_samePl _ _).pl, hs]
    rfl
  · exact hs

/-- **Many edges** do, as long as it goes on. -/
theorem run_resting {t n : ℕ}
    (h : ∀ k < n, Resting c (inp (t + k)) ((run c l inp).state t))
    (hidle : n < ((run c l inp).state t).idle) :
    (run c l inp).state (t + n) =
      ((run c l inp).state t).withIdle (((run c l inp).state t).idle - n) := by
  induction n with
  | zero =>
    have hpl := @pl_run c l inp t
    change (run c l inp).state t = _
    generalize (run c l inp).state t = s at hpl
    rw [TraceCapture.withIdle, Nat.sub_zero, idle]
    change s = { s with server := { s.server with pl := Stream.ofSide s.path.side } }
    rw [← hpl]
  | succ n ih =>
    have hnow := ih (fun k hk => h k (Nat.lt_succ_of_lt hk)) (Nat.lt_of_succ_lt hidle)
    have hrests := (h n (Nat.lt_succ_self n)).withIdle (((run c l inp).state t).idle - n)
    rw [← Nat.add_assoc, Clocked.Run.state_succ, hnow]
    refine (hrests.step ?_).trans ?_
    · change 2 ≤ ((run c l inp).state t).idle - n
      omega
    · change ((run c l inp).state t).withIdle (((run c l inp).state t).idle - n - 1) = _
      rw [Nat.sub_sub]

/-- The capture chains of ports whose clocks stand are as the reset has left them. -/
theorem chains_run (hquiet : ∀ u, Quiet (inp u))
    (hclk : ∀ u, (inp u).path.trace.traceClk = none ∧ (inp u).path.m3.traceClk = none) (t : ℕ) :
    ((run c l inp).state t).path.trace = CaptureChain.resetState l.traceMem ∧
      ((run c l inp).state t).path.m3 = CaptureChain.resetState l.m3Mem := by
  refine (run c l inp).invariant (P := fun s =>
    s.path.trace = CaptureChain.resetState l.traceMem ∧
      s.path.m3 = CaptureChain.resetState l.m3Mem) ⟨rfl, rfl⟩ ?_ t
  rintro t s ⟨htrace, hm3⟩
  change CaptureChain.step (TracePath.traceInput c (inp t).path s.path) s.path.trace = _ ∧
    CaptureChain.step (TracePath.m3Input c (inp t).path s.path) s.path.m3 = _
  rw [htrace, hm3]
  exact ⟨CaptureChain.step_still (hclk t).1 (hquiet t).aresetn _,
    CaptureChain.step_still (hclk t).2 (hquiet t).aresetn _⟩

/-- **On a line that stands** the trace path and the trace server wait for the time-out. -/
theorem run_waits (hquiet : ∀ u, Quiet (inp u))
    (hclk : ∀ u, (inp u).path.trace.traceClk = none ∧ (inp u).path.m3.traceClk = none) {t n : ℕ}
    {i : Input} (hline : ∀ k < n, inp (t + k) = i) (haclk : i.path.aclk = true)
    (hcalls : i.calls = []) (hfault : i.fault = false) {s : TraceCapture}
    (hstate : (run c l inp).state t = s)
    (hside : StreamSide.Resting c (TracePath.sideInput i.path s.path) s.path.side)
    (hfifo : s.server.s2mm.fifo = []) (hidle : n < s.idle) :
    (run c l inp).state (t + n) = s.withIdle (s.idle - n) := by
  obtain ⟨htrace, hm3⟩ := @chains_run c l inp hquiet hclk t
  have hpl := @pl_run c l inp t
  rw [hstate] at htrace hm3 hpl
  rw [run_resting ?_ (by rwa [hstate]), hstate]
  intro k hk
  have hstands := hclk (t + k)
  have haresetn := (hquiet (t + k)).aresetn
  rw [hline k hk] at hstands haresetn ⊢
  rw [hstate]
  refine ⟨haclk, hcalls, hfault, hside, ?_, ?_, hpl, hfifo⟩
  · rw [htrace]
    exact CaptureChain.step_still hstands.1 haresetn _
  · rw [hm3]
    exact CaptureChain.step_still hstands.2 haresetn _

end

end System.TraceCapture
