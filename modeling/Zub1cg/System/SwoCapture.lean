import Zub1cg.Rtl.SwoManchester.Reference
import Zub1cg.Rtl.SwoNrz.Reference
import Zub1cg.System.PacketTimeout

/-!
# From the pin to the host

In an SWO format the bytes of the stream side come from a receiver on the pin of the selected port,
around the demultiplexer. The receiver hands a byte over whenever the packetizer can take one, also
while the trace does not run, and then the byte is thrown away. While it runs the packetizer takes
each of them on channel 1, so that the host finds what the reference decoder finds on the line.

## Main definitions

- `StreamSide.FromPin` — a port in an SWO format
- `StreamSide.handed` — the byte that the receiver of the format hands over
- `nrzRun`, `manchesterRun` — the two receivers as machines of their own
- `HostFinds` — what the host has of some bytes
- `client` — a run in which a client is sent a packet

## Main results

- `FromPin.accepted_eq` — one edge
- `host_swo` — what the host has of what the receiver has handed over since the trace runs
- `captured` — a receiver that refines a reference decoder
- `nrz_capture_decoded`, `manchester_capture_decoded` — the two receivers
-/

/-! ### One edge -/

namespace StreamSide

open SourceMux (Source)

/-- The byte that the receiver of the format hands over. -/
def handed (c : Config) (i : Input) (s : State) : List UInt8 :=
  if c.traceFormat = 3 then SwoNrz.delivered (nrzInput c i s) s.nrz
  else SwoManchester.delivered (manchesterInput c i s) s.manchester

/-- A port of the M3 or the PS in an SWO format. -/
structure FromPin (c : Config) : Prop where
  sourceSelect : c.sourceSelect ≠ 3
  traceFormat : c.traceFormat = 3 ∨ c.traceFormat = 4

section

variable {c : Config} (h : FromPin c)

include h

theorem FromPin.bypassTpiu_eq : bypassTpiu c = true := by
  obtain hthree | hfour := h.traceFormat
  · rw [bypassTpiu, hthree]
    rfl
  · rw [bypassTpiu, hfour]
    rfl

theorem FromPin.source : c.sourceSelect = 0 ∨ c.sourceSelect = 1 ∨ c.sourceSelect = 2 := by
  have hlt := c.sourceSelect.isLt
  have htest := h.sourceSelect
  rw [ne_eq, ← BitVec.toNat_inj] at htest
  rw [← BitVec.toNat_inj, ← BitVec.toNat_inj, ← BitVec.toNat_inj]
  change ¬ c.sourceSelect.toNat = 3 at htest
  change c.sourceSelect.toNat = 0 ∨ c.sourceSelect.toNat = 1 ∨ c.sourceSelect.toNat = 2
  omega

/-- No FIFO has a hand in it. -/
theorem FromPin.decoded_eq (fifo other : Source) (s : State) :
    decoded c fifo s = decoded c other s := by
  unfold decoded
  obtain hthree | hfour := h.traceFormat
  · rw [if_pos hthree, if_pos hthree]
  · have hthree : c.traceFormat ≠ 3 := by
      rw [hfour]
      decide
    rw [if_neg hthree, if_neg hthree, if_pos hfour, if_pos hfour]

/-- The selection passes on what the receiver offers while the trace runs. -/
theorem FromPin.selected_eq (i : Input) (s : State) :
    selected c i s = ⟨(decoded c i.cdc s).data, s.running && (decoded c i.cdc s).valid⟩ := by
  rw [selected, SourceMux.output, m3, selectedCapture, h.decoded_eq i.m3Cdc i.cdc]
  obtain hzero | hone | htwo := h.source
  · rw [hzero]
    change Source.mk _ (s.running && true && _) = _
    rw [Bool.and_true]
  · rw [hone]
    change Source.mk _ (s.running && true && _) = _
    rw [Bool.and_true]
  · rw [htwo]
    change Source.mk _ (s.running && true && _) = _
    rw [Bool.and_true]

/-- The receiver is read when the packetizer can take a byte. -/
theorem FromPin.ready_eq (i : Input) (s : State) :
    nrzManchesterReady c i s = demuxReady c i s := by
  have hready : selectedReady c i s = demuxReady c i s := by
    have hbypass : TestPath.bypassTpiu (pathInput c i s) = true := h.bypassTpiu_eq
    rw [selectedReady, TestPath.selectedReady, hbypass, if_pos rfl]
    rfl
  rw [nrzManchesterReady, m3Ready, selectedCaptureReady, hready]
  obtain hzero | hone | htwo := h.source
  · rw [hzero]
    rfl
  · rw [hone]
    rfl
  · rw [htwo]
    rfl

theorem FromPin.handed_eq (i : Input) (s : State) :
    handed c i s = if (decoded c i.cdc s).valid && demuxReady c i s then
      [(decoded c i.cdc s).data] else [] := by
  unfold handed decoded
  rw [SwoNrz.delivered, SwoManchester.delivered, nrzInput, manchesterInput, h.ready_eq]
  obtain hthree | hfour := h.traceFormat
  · rw [if_pos hthree, if_pos hthree, if_pos hthree]
  · have hthree : c.traceFormat ≠ 3 := by
      rw [hfour]
      decide
    rw [if_neg hthree, if_neg hthree, if_pos hfour, if_pos hfour]

/-- **One edge.** While the trace runs, the packetizer takes what the receiver hands over. -/
theorem FromPin.accepted_eq (i : Input) (s : State) :
    FrameChain.accepted (framesInput c i s) s.frames =
      if s.running then (handed c i s).map (Prod.mk 1) else [] := by
  have hvalid : (FrameChain.packetizerInput (framesInput c i s) s.frames).inputValid =
      (s.running && (decoded c i.cdc s).valid) := by
    change (if bypassTpiu c then (selected c i s).valid else _) = _
    rw [h.bypassTpiu_eq, if_pos rfl, h.selected_eq]
  have hdata : (FrameChain.packetizerInput (framesInput c i s) s.frames).inputData =
      (decoded c i.cdc s).data := by
    change (if bypassTpiu c then (selected c i s).data else _) = _
    rw [h.bypassTpiu_eq, if_pos rfl, h.selected_eq]
  have hchannel : (FrameChain.packetizerInput (framesInput c i s) s.frames).inputChannel = 1 := by
    change (if bypassTpiu c then (1 : BitVec 7) else _) = _
    rw [h.bypassTpiu_eq, if_pos rfl]
  rw [FrameChain.accepted, ChannelPacketizer.accepted, hvalid, hdata, hchannel, h.handed_eq]
  change (if _ && demuxReady c i s then _ else _) = _
  cases s.running <;> cases (decoded c i.cdc s).valid <;> cases demuxReady c i s <;> rfl

end

end StreamSide

namespace System

open AxisPacker (Beat)
open Firmware (Handed)
open Receiver (View Refines)
open Stream (Whole onChannel onChannel_append)
open StreamSide (Config FromPin handed)
open TracePath (Leftover)

namespace TraceCapture

/-! ### The host -/

/-- Any packets of the session that follow each other, from the first one on if the session did not
begin inside a transfer, give the host a part of `bytes` in a row on channel 1, right behind what
those before them give, and nothing on the other channels. -/
def HostFinds (s : TraceServer) (bytes : List UInt8) : Prop :=
  ∀ skip stretch more : List Handed, s.session.sent = skip ++ stretch ++ more →
    (skip = [] → Whole s.begun) →
      ∃ front middle back, bytes = front ++ middle ++ back ∧ ∀ ch : UInt8,
        Model.reconstructChannelStream
          (s.begun.flatMap Beat.bytes ++ skip.flatMap Handed.payload) ch =
            (if ch = 1 then front else []) ∧
        Model.reconstructChannelStream (stretch.flatMap Handed.payload) ch =
          if ch = 1 then middle else []

theorem onChannel_map (bytes : List UInt8) (ch : UInt8) :
    onChannel ch (bytes.map (Prod.mk 1)) = if ch = 1 then bytes else [] := by
  have hone : OrbflowEncoder.channelByte 1 = 1 := by decide
  induction bytes with
  | nil => split <;> rfl
  | cons b bytes ih =>
    have hcons : (b :: bytes).map (Prod.mk (1 : BitVec 7)) = [(1, b)] ++ bytes.map (Prod.mk 1) :=
      rfl
    rw [hcons, onChannel_append, ih, onChannel, List.filter_singleton, hone]
    by_cases hch : ch = 1
    · subst hch
      rfl
    · rw [decide_eq_false (Ne.symm hch), if_neg hch, if_neg hch]
      rfl

section

variable {c : Config} {l : Leftover} {inp : ℕ → Input}

theorem path_run (t : ℕ) : (pathRun c l inp).state t = ((run c l inp).state t).path := by
  let r := run c l inp
  let machine (i : Config × TracePath.Input) (s : TracePath.State) := TracePath.step i.1 i.2 s
  let feed (i : Input) (_ : TraceCapture) := (c, i.path)
  have hpath : ∀ i s, (r.step i s).path = machine (feed i s) s.path := fun _ _ => rfl
  exact r.part_state hpath t

/-- The byte that the receiver hands over at an edge of `aclk`. -/
def handedAt (c : Config) (i : Input) (s : TraceCapture) : List UInt8 :=
  if aclk i s then handed c (TracePath.sideInput i.path s.path) s.path.side else []

/-- What the packetizer takes at such an edge. -/
def takenAt (c : Config) (i : Input) (s : TraceCapture) : List (BitVec 7 × UInt8) :=
  if aclk i s then
    FrameChain.accepted
      (StreamSide.framesInput c (TracePath.sideInput i.path s.path) s.path.side) s.path.side.frames
  else []

theorem taken_eq (t : ℕ) :
    Stream.taken (Stream.run l.demux l.encoder fun k => (serverInputs c l inp k).pl)
      ((run c l inp).ticks aclk t) = (run c l inp).record (takenAt c) t := by
  let r := run c l inp
  have hpart : ∀ i s, Stream.ofSide (r.step i s).path.side =
      if aclk i s then Stream.step (serverInput c i s).pl (Stream.ofSide s.path.side)
      else Stream.ofSide s.path.side := by
    intro i s
    change Stream.ofSide (TracePath.sideNext c i.path s.path) = _
    rw [TracePath.sideNext, aclk]
    split <;> rfl
  have hrecord : (r.gated aclk Stream.step (fun i s => (serverInput c i s).pl)
      (fun s => Stream.ofSide s.path.side)).record (fun i s => FrameChain.accepted
        (Core.framesInput (Stream.coreInput i s) s.core) s.core.frames) (r.ticks aclk t) = _ :=
    r.gated_record hpart _ t
  exact hrecord

/-- While the trace runs, the packetizer takes what the receiver hands over. -/
theorem during_taken (hpin : FromPin c) {t n : ℕ} (hrun : Running c l inp t n) :
    (run c l inp).during (takenAt c) t n =
      ((run c l inp).during (handedAt c) t n).map (Prod.mk 1) := by
  induction n with
  | zero => rfl
  | succ n ih =>
    have hearlier : Running c l inp t n :=
      ⟨hrun.before, fun u hu hlt => hrun.since u hu (Nat.lt_succ_of_lt hlt)⟩
    have hrunning : ((run c l inp).state (t + n)).path.side.running = true := by
      have hnow := hrun.since (t + n) (Nat.le_add_right _ _) (Nat.lt_succ_self _)
      rwa [path_run] at hnow
    rw [Clocked.Run.during_succ, Clocked.Run.during_succ, ih hearlier, List.map_append]
    congr 1
    rw [takenAt, handedAt, hpin.accepted_eq, hrunning, if_pos rfl]
    split <;> rfl

/-- **What the host has** are bytes that the receiver has handed over since the trace runs. -/
theorem host_swo (hpin : FromPin c) (hquiet : ∀ u, Quiet (inp u)) {t n : ℕ}
    (hrun : Running c l inp t n) :
    HostFinds ((run c l inp).state (t + n)).server ((run c l inp).during (handedAt c) t n) := by
  intro skip stretch more hparts hbegun
  have hreset : ∀ k, (serverInputs c l inp k).pl.aresetn = true := fun _ => (hquiet _).aresetn
  rw [← server_run] at hparts hbegun ⊢
  obtain ⟨transfers, htracks⟩ := @TraceServer.tracks_run l.demux l.encoder (serverInputs c l inp)
    hreset ((run c l inp).ticks aclk (t + n))
  obtain ⟨before, beats, rest, hbeats, hbefore, hafter, hskip, hstretch⟩ :=
    htracks.stretch hparts hbegun
  rw [TraceServer.beats_eq] at hbeats
  obtain ⟨front, middle, back, htaken, hstreams⟩ :=
    Stream.stretch_frames hreset hbeats hbefore hafter
  rw [hskip, hstretch] at hstreams
  -- nothing has been taken before the trace ran
  have hnone : (run c l inp).record (takenAt c) t = [] := by
    refine (run c l inp).record_eq_nil fun u hu => ?_
    have hstopped := hrun.before u hu
    rw [path_run] at hstopped
    rw [takenAt, hpin.accepted_eq, hstopped, if_neg Bool.false_ne_true, ite_self]
  rw [taken_eq, Clocked.Run.record_add, hnone, List.nil_append, during_taken hpin hrun] at htaken
  obtain ⟨first, last, hbytes, hfirst, rfl⟩ := List.map_eq_append_iff.mp htaken
  obtain ⟨front, middle, rfl, rfl, rfl⟩ := List.map_eq_append_iff.mp hfirst
  refine ⟨front, middle, last, hbytes, fun ch => ?_⟩
  rw [← onChannel_map, ← onChannel_map]
  exact hstreams ch

/-! ### The receivers -/

/-- **A receiver that refines a reference decoder.** What it has handed over before the trace ran is
thrown away, and the host has what it hands over from then on. -/
theorem captured (hpin : FromPin c) (hquiet : ∀ u, Quiet (inp u)) {t n : ℕ}
    (hrun : Running c l inp t n) {κ ρ : Type} {v : View κ ρ UInt8 Bool 64} {step : κ → ρ → ρ}
    {decode : List Bool → Option UInt8} {need : ℕ} {Receiving : List Bool → ℕ → ρ → Prop}
    {Good : κ → Prop} (hrefines : Refines v step decode need Receiving Good)
    (feed : Input → TraceCapture → κ) (proj : TraceCapture → ρ)
    (hpart : ∀ i s, proj ((run c l inp).step i s) =
      if aclk i s then step (feed i s) (proj s) else proj s)
    (hgood : ∀ i s, Quiet i → Good (feed i s))
    (hbusy : v.busy (proj (run c l inp).start) = false)
    (hstart : v.waiting (proj (run c l inp).start) = [] ∧ v.errors (proj (run c l inp).start) = 0)
    (hhanded : ∀ i s, v.delivered (feed i s) (proj s) =
      handed c (TracePath.sideInput i.path s.path) s.path.side) (u : ℕ)
    (hlong : ∀ a ∈ v.begun ((run c l inp).gated aclk step feed proj)
        ((run c l inp).ticks aclk (t + n)),
      need ≤ (((run c l inp).gated aclk step feed proj).since v.sampled a u).length) :
    let m := (run c l inp).gated aclk step feed proj
    let edges := (run c l inp).ticks aclk
    ∃ done on bytes, v.begun m (edges (t + n)) = done ++ on ∧
      on.length = (v.busy (m.state (edges (t + n)))).toNat ∧
      m.record v.delivered (edges t) ++ bytes ++ v.waiting (m.state (edges (t + n))) =
        done.filterMap (v.word decode m u) ∧
      v.errors (m.state (edges (t + n))) =
        BitVec.ofNat 64 (done.countP fun a => (v.word decode m u a).isNone) ∧
      HostFinds ((run c l inp).state (t + n)).server bytes := by
  intro m edges
  have hrecord (w : ℕ) : m.record v.delivered (edges w) = (run c l inp).record (handedAt c) w := by
    rw [(run c l inp).gated_record hpart]
    simp only [hhanded]
    rfl
  obtain ⟨done, on, hbegun, hon, hwords, herrors⟩ :=
    Refines.run (r := m) hrefines (fun k => hgood _ _ (hquiet _)) hbusy hstart hlong
  refine ⟨done, on, _, hbegun, hon, ?_, herrors, host_swo hpin hquiet hrun⟩
  rw [← hwords, hrecord, hrecord, Clocked.Run.record_add]

/-- The ports of the NRZ receiver. -/
def nrzInput (c : Config) (i : Input) (s : TraceCapture) : SwoNrz.Input :=
  StreamSide.nrzInput c (TracePath.sideInput i.path s.path) s.path.side

/-- The ports of the Manchester receiver. -/
def manchesterInput (c : Config) (i : Input) (s : TraceCapture) : SwoManchester.Input :=
  StreamSide.manchesterInput c (TracePath.sideInput i.path s.path) s.path.side

/-- The NRZ receiver as a machine of its own, with an edge for each of `aclk`. -/
noncomputable def nrzRun (c : Config) (l : Leftover) (inp : ℕ → Input) :
    Clocked.Run SwoNrz.Input SwoNrz.State :=
  (run c l inp).gated aclk SwoNrz.step (nrzInput c) fun s => s.path.side.nrz

/-- The Manchester receiver, alike. -/
noncomputable def manchesterRun (c : Config) (l : Leftover) (inp : ℕ → Input) :
    Clocked.Run SwoManchester.Input SwoManchester.State :=
  (run c l inp).gated aclk SwoManchester.step (manchesterInput c) fun s => s.path.side.manchester

theorem nrz_part (i : Input) (s : TraceCapture) :
    ((run c l inp).step i s).path.side.nrz =
      if aclk i s then SwoNrz.step (nrzInput c i s) s.path.side.nrz else s.path.side.nrz := by
  change (TracePath.sideNext c i.path s.path).nrz = _
  rw [TracePath.sideNext, aclk]
  split <;> rfl

theorem manchester_part (i : Input) (s : TraceCapture) :
    ((run c l inp).step i s).path.side.manchester =
      if aclk i s then SwoManchester.step (manchesterInput c i s) s.path.side.manchester
      else s.path.side.manchester := by
  change (TracePath.sideNext c i.path s.path).manchester = _
  rw [TracePath.sideNext, aclk]
  split <;> rfl

end

end TraceCapture

open TraceCapture

/-! ### Two characters on a line -/

/-- A level on the pin of the M3's port. -/
def pin (level : Bool) : TracePath.Input :=
  { TracePath.otherPort none with
    m3 := { TracePath.restingPort with traceData := if level then 1 else 0 } }

/-- One character at once, and one when the packet of the first has ended; the trace runs from the
first edge on, and a client that connects there is sent what has come when the second packet has
ended, too. -/
def client (wave : UInt8 → ℕ → Bool) (u : ℕ) : TraceCapture.Input where
  path := pin (Swo.line 40 wave [(0, 0xa6), (7500010, 0x35)] u)
  calls :=
    if u = 0 then [.initializeRing (fun _ => false) fun _ => .ok (0, 0x10000)]
    else if u = 15000120 then [.sendCompleted (.ok (0, 0x10000)) none]
    else []
  fault := false
  writes := true
  marks := TRACE_DMA_BD_MARKS

/-- Between the characters. -/
def standing : TraceCapture.Input where
  path := pin true
  calls := []
  fault := false
  writes := true
  marks := TRACE_DMA_BD_MARKS

/-- An SWO format, four times to a bit at every clock. -/
def swoTrace (format : BitVec 3) : Config where
  sourceSelect := 0
  traceFormat := format
  swoBaud := 25000000

theorem client_quiet (wave : UInt8 → ℕ → Bool) (u : ℕ) : Quiet (client wave u) := ⟨rfl, rfl⟩

section

variable {format : BitVec 3} {wave : UInt8 → ℕ → Bool}

theorem running_client (n : ℕ) :
    Running (swoTrace format) TracePath.cleared (client wave) 1 n := by
  refine ⟨fun u hu => ?_, fun u hu _ => ?_⟩
  · rw [Nat.lt_one_iff.mp hu]
    rfl
  · obtain ⟨u, rfl⟩ := Nat.exists_eq_add_of_le hu
    rw [Nat.add_comm, Clocked.Run.state_succ]
    rfl

theorem client_standing {u : ℕ} (h : 60 ≤ u ∧ u < 7500040 ∨ 7500100 ≤ u ∧ u < 15000080) :
    client wave u = standing := by
  have hlevel : Swo.line 40 wave [(0, 0xa6), (7500010, 0x35)] u = true := by
    rw [Swo.line, if_neg (by omega), if_neg (by omega), Swo.line]
    obtain hbefore | hbehind := h
    · exact if_pos (by omega)
    · rw [if_neg (by omega), if_neg (by omega)]
      rfl
  rw [client, hlevel, if_neg (by omega), if_neg (by omega)]
  rfl

/-- The time-out is all that runs. -/
structure Waits (format : BitVec 3) (s : TraceCapture) : Prop where
  side : StreamSide.Resting (swoTrace format) (TracePath.sideInput standing.path s.path) s.path.side
  fifo : s.server.s2mm.fifo = []
  idle : 7499980 < s.idle

instance {s : TraceCapture} : Decidable (Waits format s) :=
  decidable_of_iff (StreamSide.Resting (swoTrace format)
      (TracePath.sideInput standing.path s.path) s.path.side ∧
    s.server.s2mm.fifo = [] ∧ 7499980 < s.idle)
    ⟨fun ⟨hside, hfifo, hidle⟩ => ⟨hside, hfifo, hidle⟩, fun ⟨hside, hfifo, hidle⟩ =>
      ⟨hside, hfifo, hidle⟩⟩

/-- What is behind `s` when the time-out has almost run out at edge `t`. -/
def later (format : BitVec 3) (wave : UInt8 → ℕ → Bool) (t : ℕ) (s : TraceCapture) :
    Clocked.Run TraceCapture.Input TraceCapture :=
  (run (swoTrace format) TracePath.cleared (client wave)).behind t (s.withIdle (s.idle - 7499980))

/-- The packetizer holds the first byte. -/
def firstHeld (format : BitVec 3) (wave : UInt8 → ℕ → Bool) : TraceCapture :=
  (run (swoTrace format) TracePath.cleared (client wave)).state 60

/-- It holds the second one. -/
def secondHeld (format : BitVec 3) (wave : UInt8 → ℕ → Bool) : TraceCapture :=
  (later format wave 7500040 (firstHeld format wave)).state 60

/-- Both have been sent. -/
def bothSent (format : BitVec 3) (wave : UInt8 → ℕ → Bool) : TraceCapture :=
  (later format wave 15000080 (secondHeld format wave)).state 45

theorem Waits.later {s : TraceCapture} (h : Waits format s) {t : ℕ}
    (hstate : (run (swoTrace format) TracePath.cleared (client wave)).state t = s)
    (hline : ∀ k < 7499980, client wave (t + k) = standing) (n : ℕ) :
    (run (swoTrace format) TracePath.cleared (client wave)).state (t + 7499980 + n) =
      (later format wave (t + 7499980) s).state n :=
  Clocked.Run.behind_state _ (run_waits (client_quiet wave) (fun _ => ⟨rfl, rfl⟩) hline rfl rfl rfl
    hstate h.side h.fifo h.idle) n

theorem client_run (hfirst : Waits format (firstHeld format wave))
    (hsecond : Waits format (secondHeld format wave)) :
    (run (swoTrace format) TracePath.cleared (client wave)).state 15000125 =
      bothSent format wave := by
  have hheld := hfirst.later rfl (fun k hk => client_standing (.inl ⟨by omega, by omega⟩)) 60
  exact hsecond.later hheld (fun k hk => client_standing (.inr ⟨by omega, by omega⟩)) 45

/-- The line is sampled at every edge but the first. -/
theorem client_baud (u : ℕ) :
    ((run (swoTrace format) TracePath.cleared (client wave)).state (u + 1)).path.side.baud =
      ⟨0, true⟩ := by
  have hstep (t : ℕ) (s : TraceCapture) :
      (TraceCapture.step (swoTrace format) (client wave t) s).path.side.baud =
        BaudTick.step true (swoTrace format).swoBaud s.path.side.baud := rfl
  induction u with
  | zero =>
    refine (hstep 0 _).trans ?_
    change BaudTick.step true 25000000 BaudTick.resetState = _
    decide +kernel
  | succ u ih =>
    refine (hstep (u + 1) _).trans ?_
    rw [ih]
    change BaudTick.step true 25000000 _ = _
    decide +kernel

/-- Two characters are long enough, whenever they begin. -/
theorem client_long {κ ρ : Type} {v : View κ ρ UInt8 Bool 64} {step : κ → ρ → ρ}
    {feed : TraceCapture.Input → TraceCapture → κ} {proj : TraceCapture → ρ}
    (hpart : ∀ i s,
      proj ((run (swoTrace format) TracePath.cleared (client wave)).step i s) =
        if aclk i s then step (feed i s) (proj s) else proj s)
    (hsampled : ∀ i s, s.path.side.baud.tick = true →
      (v.sampled (feed i s) (proj s)).length = 1) (t : ℕ) :
    let whole := run (swoTrace format) TracePath.cleared (client wave)
    let m := whole.gated aclk step feed proj
    ∀ a ∈ v.begun m (whole.ticks aclk t), 39 ≤ (m.since v.sampled a (t + 39)).length := by
  intro whole m a ha
  have hedges (u : ℕ) : whole.ticks aclk u = u := whole.ticks_always (fun _ => rfl) u
  rw [hedges] at ha
  obtain ⟨n, rfl⟩ := Nat.exists_eq_add_of_lt (List.mem_range.mp (List.mem_of_mem_filter ha))
  have hlength : (m.since v.sampled a (a + 1 + (n + 39))).length = n + 39 := by
    refine m.length_since (fun k hk => ?_) _
    obtain ⟨j, rfl⟩ := Nat.exists_eq_add_of_lt (Nat.zero_lt_of_lt hk)
    have hinput : m.input (whole.ticks aclk (0 + j + 1)) = _ :=
      whole.gated_input (t := 0 + j + 1) rfl
    have hstate : m.state (whole.ticks aclk (0 + j + 1)) = _ := whole.gated_state hpart _
    rw [hedges] at hinput hstate
    rw [hinput, hstate]
    refine hsampled _ _ ?_
    change ((run (swoTrace format) TracePath.cleared (client wave)).state
      (0 + j + 1)).path.side.baud.tick = true
    rw [client_baud]
  have hend : a + n + 1 + 39 = a + 1 + (n + 39) := by omega
  rw [hend, hlength]
  exact Nat.le_add_left _ _

/-- A client that was there from the beginning has been sent two bytes. -/
structure Sent (s : TraceServer) : Prop where
  sent : s.session.sent.map Handed.payload = [[4, 1, 0xa6, 0x59, 0, 4, 1, 0x35, 0xca, 0]]
  begun : s.begun.length = 0

instance {s : TraceServer} : Decidable (Sent s) :=
  decidable_of_iff (s.session.sent.map Handed.payload =
      [[4, 1, 0xa6, 0x59, 0, 4, 1, 0x35, 0xca, 0]] ∧ s.begun.length = 0)
    ⟨fun ⟨hsent, hbegun⟩ => ⟨hsent, hbegun⟩, fun ⟨hsent, hbegun⟩ => ⟨hsent, hbegun⟩⟩

theorem Sent.reconstruct {s : TraceServer} (h : Sent s) :
    Model.reconstructChannelStream (s.session.sent.flatMap Handed.payload) 1 = [0xa6, 0x35] := by
  rw [List.flatMap_def, h.sent]
  decide +kernel

/-- They are the first of those that the host finds. -/
theorem Sent.prefix {s : TraceServer} (h : Sent s) {bytes : List UInt8}
    (hfinds : HostFinds s bytes) : [0xa6, 0x35] <+: bytes := by
  have hnil : s.begun = [] := List.eq_nil_of_length_eq_zero h.begun
  have hwhole : Whole s.begun := by
    rw [hnil]
    intro beat hbeat
    cases hbeat
  obtain ⟨front, middle, back, rfl, hstreams⟩ := hfinds [] s.session.sent []
    (by rw [List.nil_append, List.append_nil]) fun _ => hwhole
  obtain ⟨hfront, hmiddle⟩ := hstreams 1
  rw [if_pos rfl] at hfront hmiddle
  have hnone : front = [] := by
    rw [← hfront, hnil]
    rfl
  rw [hnone, ← hmiddle, h.reconstruct, List.nil_append]
  exact List.prefix_append _ _

/-- **What the client has been sent** are the first words of the characters: a receiver that is at
rest has handed over all of them. -/
theorem client_words {κ ρ : Type} {v : View κ ρ UInt8 Bool 64} {step : κ → ρ → ρ}
    {feed : TraceCapture.Input → TraceCapture → κ} {proj : TraceCapture → ρ}
    (hpart : ∀ i s,
      proj ((run (swoTrace format) TracePath.cleared (client wave)).step i s) =
        if aclk i s then step (feed i s) (proj s) else proj s)
    (hfirst : Waits format (firstHeld format wave))
    (hsecond : Waits format (secondHeld format wave))
    (hsent : Sent (bothSent format wave).server)
    (hbefore : (run (swoTrace format) TracePath.cleared (client wave)).record
      (fun i s => if aclk i s then v.delivered (feed i s) (proj s) else []) 1 = [])
    (hrests : v.busy (proj (bothSent format wave)) = false ∧
      v.waiting (proj (bothSent format wave)) = [] ∧ v.errors (proj (bothSent format wave)) = 0)
    {t u n : ℕ} (ht : t = 15000125) (hn : t = 1 + n) (hu : u = 1 + n + 39)
    {decode : List Bool → Option UInt8} :
    let whole := run (swoTrace format) TracePath.cleared (client wave)
    let m := whole.gated aclk step feed proj
    let edges := whole.ticks aclk
    let s := (whole.state t).server
    let begun := v.begun m t
    let word := v.word decode m u
    (∃ done on bytes, v.begun m (edges (1 + n)) = done ++ on ∧
      on.length = (v.busy (m.state (edges (1 + n)))).toNat ∧
      m.record v.delivered (edges 1) ++ bytes ++ v.waiting (m.state (edges (1 + n))) =
        done.filterMap (v.word decode m (1 + n + 39)) ∧
      v.errors (m.state (edges (1 + n))) =
        BitVec.ofNat 64 (done.countP fun a => (v.word decode m (1 + n + 39) a).isNone) ∧
      HostFinds (whole.state (1 + n)).server bytes) →
    s.session.sent.map Handed.payload = [[4, 1, 0xa6, 0x59, 0, 4, 1, 0x35, 0xca, 0]] ∧
      Model.reconstructChannelStream (s.session.sent.flatMap Handed.payload) 1 = [0xa6, 0x35] ∧
      [0xa6, 0x35] <+: begun.filterMap word ∧ HostFinds s (begun.filterMap word) ∧
      0 = BitVec.ofNat 64 (begun.countP fun a => (word a).isNone) := by
  intro whole m edges s begun word
  rintro ⟨done, on, bytes, hbegun, hon, hbytes, herrors, hfinds⟩
  obtain ⟨hbusy, hwaiting, hnone⟩ := hrests
  have hedges (u : ℕ) : edges u = u := whole.ticks_always (fun _ => rfl) u
  have hstate : whole.state (1 + n) = bothSent format wave := by
    rw [← hn, ht]
    exact client_run hfirst hsecond
  have hreceiver : m.state (edges (1 + n)) = proj (bothSent format wave) := by
    rw [← hstate]
    exact whole.gated_state hpart _
  have hrecord : m.record v.delivered (edges 1) = [] :=
    (whole.gated_record hpart _ _).trans hbefore
  rw [hreceiver, hbusy] at hon
  rw [List.eq_nil_of_length_eq_zero hon, List.append_nil, hedges, ← hn] at hbegun
  rw [hreceiver, hwaiting, hrecord, List.nil_append, List.append_nil, ← hbegun, ← hu] at hbytes
  rw [hreceiver, hnone, ← hbegun, ← hu] at herrors
  rw [hbytes] at hfinds
  have hs : s = (bothSent format wave).server := by rw [← hstate, ← hn]
  have hclient : Sent s := hs ▸ hsent
  rw [hstate, ← hs] at hfinds
  exact ⟨hclient.sent, hclient.reconstruct, hclient.prefix hfinds, hfinds, herrors⟩

end

/-! ### The two receivers -/

/-- **From the pin to the host, NRZ.** A port is traced in the NRZ format, nothing is reset, and the
trace runs from instant `t` on. Whatever the line, the clocks, NetX and the DMA engine do: of the
characters that the receiver has begun, all but one in progress have ended; the words that the
reference decoder finds in them are, in order, those that were thrown away before the trace ran, the
bytes that the host gets on channel 1, and one that waits; and the characters in which it finds none
are counted. The decoder is given the levels up to edge `u` of `aclk`, forty samples of each
character at least. -/
theorem nrz_capture_decoded (c : Config) (l : Leftover) (inp : ℕ → Input)
    (hselect : c.sourceSelect ≠ 3) (hformat : c.traceFormat = 3) (hquiet : ∀ u, Quiet (inp u))
    (t n : ℕ) (hrun : Running c l inp t n) (u : ℕ)
    (hlong : ∀ a ∈ SwoNrz.view.begun (nrzRun c l inp) ((run c l inp).ticks aclk (t + n)),
      39 ≤ ((nrzRun c l inp).since SwoNrz.view.sampled a u).length) :
    let r := nrzRun c l inp
    let edges := (run c l inp).ticks aclk
    ∃ done on bytes, SwoNrz.view.begun r (edges (t + n)) = done ++ on ∧
      on.length = (r.state (edges (t + n))).active.toNat ∧
      r.record SwoNrz.delivered (edges t) ++ bytes ++
          SwoNrz.view.waiting (r.state (edges (t + n))) =
        done.filterMap (SwoNrz.view.word SwoNrz.referenceWord r u) ∧
      (r.state (edges (t + n))).malformedCount = BitVec.ofNat 64
        (done.countP fun a => (SwoNrz.view.word SwoNrz.referenceWord r u a).isNone) ∧
      HostFinds ((run c l inp).state (t + n)).server bytes := by
  refine captured ⟨hselect, .inl hformat⟩ hquiet hrun SwoNrz.refines (nrzInput c)
    (fun s => s.path.side.nrz) nrz_part (fun i s hi => hi.aresetn) rfl ⟨rfl, rfl⟩
    (fun i s => ?_) u hlong
  rw [handed, if_pos hformat]
  rfl

/-- The levels of a character, four to a bit. -/
def nrzWave (b : UInt8) (u : ℕ) : Bool := Swo.frameBit b (u / 4)

/-- A client has been sent what the reference decoder finds first. -/
theorem nrz_capture_decoded_byte :
    let s := ((run (swoTrace 3) TracePath.cleared (client nrzWave)).state 15000125).server
    let r := nrzRun (swoTrace 3) TracePath.cleared (client nrzWave)
    let begun := SwoNrz.view.begun r 15000125
    let word := SwoNrz.view.word SwoNrz.referenceWord r 15000164
    s.session.sent.map Handed.payload = [[4, 1, 0xa6, 0x59, 0, 4, 1, 0x35, 0xca, 0]] ∧
      Model.reconstructChannelStream (s.session.sent.flatMap Handed.payload) 1 = [0xa6, 0x35] ∧
      [0xa6, 0x35] <+: begun.filterMap word ∧ HostFinds s (begun.filterMap word) ∧
      (0 : BitVec 64) = BitVec.ofNat 64 (begun.countP fun a => (word a).isNone) := by
  obtain ⟨n, hn⟩ : ∃ n, 15000125 = 1 + n := ⟨15000124, rfl⟩
  have hu : 15000164 = 1 + n + 39 := by omega
  have hsampled (i : TraceCapture.Input) (s : TraceCapture) (htick : s.path.side.baud.tick = true) :
      (SwoNrz.view.sampled (nrzInput (swoTrace 3) i s) s.path.side.nrz).length = 1 := by
    change (if s.path.side.baud.tick then [_] else []).length = 1
    rw [htick]
    rfl
  exact client_words nrz_part (by decide +kernel) (by decide +kernel) (by decide +kernel)
    (by decide +kernel) (by decide +kernel) rfl hn hu
    (nrz_capture_decoded (swoTrace 3) TracePath.cleared (client nrzWave)
      (by decide) rfl (client_quiet nrzWave) 1 n (running_client n) (1 + n + 39)
      (client_long nrz_part hsampled (1 + n)))

/-- **From the pin to the host, Manchester**, alike; the decoder is given the halves of the bits. -/
theorem manchester_capture_decoded (c : Config) (l : Leftover) (inp : ℕ → Input)
    (hselect : c.sourceSelect ≠ 3) (hformat : c.traceFormat = 4) (hquiet : ∀ u, Quiet (inp u))
    (t n : ℕ) (hrun : Running c l inp t n) (u : ℕ)
    (hlong : ∀ a ∈ SwoManchester.view.begun (manchesterRun c l inp)
        ((run c l inp).ticks aclk (t + n)),
      39 ≤ ((manchesterRun c l inp).since SwoManchester.view.sampled a u).length) :
    let r := manchesterRun c l inp
    let edges := (run c l inp).ticks aclk
    ∃ done on bytes, SwoManchester.view.begun r (edges (t + n)) = done ++ on ∧
      on.length = (r.state (edges (t + n))).active.toNat ∧
      r.record SwoManchester.delivered (edges t) ++ bytes ++
          SwoManchester.view.waiting (r.state (edges (t + n))) =
        done.filterMap (SwoManchester.view.word SwoManchester.referenceWord r u) ∧
      (r.state (edges (t + n))).malformedCount = BitVec.ofNat 64
        (done.countP fun a => (SwoManchester.view.word SwoManchester.referenceWord r u a).isNone) ∧
      HostFinds ((run c l inp).state (t + n)).server bytes := by
  refine captured ⟨hselect, .inr hformat⟩ hquiet hrun SwoManchester.refines (manchesterInput c)
    (fun s => s.path.side.manchester) manchester_part (fun i s hi => hi.aresetn) rfl ⟨rfl, rfl⟩
    (fun i s => ?_) u hlong
  have hthree : c.traceFormat ≠ 3 := by
    rw [hformat]
    decide
  rw [handed, if_neg hthree]
  rfl

/-- The levels of the halves of the bits, two to a half. -/
def manchesterWave (b : UInt8) (u : ℕ) : Bool := Swo.manchester 1 b u

/-- So has one that is connected in the Manchester format. -/
theorem manchester_capture_decoded_byte :
    let s := ((run (swoTrace 4) TracePath.cleared (client manchesterWave)).state 15000125).server
    let r := manchesterRun (swoTrace 4) TracePath.cleared (client manchesterWave)
    let begun := SwoManchester.view.begun r 15000125
    let word := SwoManchester.view.word SwoManchester.referenceWord r 15000164
    s.session.sent.map Handed.payload = [[4, 1, 0xa6, 0x59, 0, 4, 1, 0x35, 0xca, 0]] ∧
      Model.reconstructChannelStream (s.session.sent.flatMap Handed.payload) 1 = [0xa6, 0x35] ∧
      [0xa6, 0x35] <+: begun.filterMap word ∧ HostFinds s (begun.filterMap word) ∧
      (0 : BitVec 64) = BitVec.ofNat 64 (begun.countP fun a => (word a).isNone) := by
  obtain ⟨n, hn⟩ : ∃ n, 15000125 = 1 + n := ⟨15000124, rfl⟩
  have hu : 15000164 = 1 + n + 39 := by omega
  have hsampled (i : TraceCapture.Input) (s : TraceCapture)
      (htick : s.path.side.baud.tick = true) :
      (SwoManchester.view.sampled (manchesterInput (swoTrace 4) i s)
        s.path.side.manchester).length = 1 := by
    change (if s.path.side.baud.tick then [_] else []).length = 1
    rw [htick]
    rfl
  exact client_words manchester_part (by decide +kernel) (by decide +kernel) (by decide +kernel)
    (by decide +kernel) (by decide +kernel) rfl hn hu
    (manchester_capture_decoded (swoTrace 4) TracePath.cleared (client manchesterWave)
      (by decide) rfl (client_quiet manchesterWave) 1 n (running_client n) (1 + n + 39)
      (client_long manchester_part hsampled (1 + n)))

end System
