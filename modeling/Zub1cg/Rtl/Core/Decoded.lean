import Zub1cg.Rtl.Core.Frames
import Zub1cg.Rtl.TpiuDemux.Streams

/-!
# What the packetizer takes is what the TPIU decoder returns

In a TPIU format the packetizer takes the demultiplexer's bytes and nothing else. So the channels
that the host finds in the frames are those that the decoder of the host model finds in the bytes
that the demultiplexer has taken, with the sync packet of the hardware.

## Main definitions

- `FromPort` — a source other than the M3, in a TPIU format, and no reset
- `demuxTaken` — the bytes that the demultiplexer has taken
- `dataOn` — the bytes that the decoder returns for a channel

## Main results

- `taken_decoded` — the bytes that the packetizer has taken
- `stretch_decoded` — the host's view of some transfers
-/

namespace Stream

open OrbflowEncoder (channelByte)
open AxisPacker (Beat)
open TpiuDemux (muxedByte SYNC pending tracks_run tracks_reset)
open Model (MuxedByte TpiuDecoder)

/-- A source other than the M3 is traced in a TPIU format, and nothing is reset. -/
structure FromPort (i : Input) : Prop where
  aresetn : i.aresetn = true
  resetPulse : i.resetPulse = false
  sourceSelect : i.sourceSelect ≠ 0
  traceFormat : i.traceFormat < 3

/-- The bytes that the demultiplexer has taken by time `t`. -/
def demuxTaken (r : Clocked.Run Input State) (t : ℕ) : List UInt8 :=
  r.record (fun i s => TpiuDemux.accepted (Core.demuxInput (coreInput i s) s.core) s.core.demux) t

/-- The bytes that the decoder returns for channel `c`. -/
def dataOn (c : UInt8) (muxed : List MuxedByte) : List UInt8 :=
  (muxed.filter fun b => b.channel = c).map MuxedByte.data

theorem onChannel_eq_dataOn (c : UInt8) (taken : List (BitVec 7 × UInt8)) :
    onChannel c taken = dataOn c (taken.map muxedByte) := by
  rw [onChannel, dataOn, List.filter_map, List.map_map]
  rfl

/-! ### One edge -/

section

variable {i : Input} (hi : FromPort i) (s : State)

include hi

theorem FromPort.bypassTpiu : Core.bypassTpiu (coreInput i s) = false :=
  decide_eq_false (BitVec.not_le.mpr hi.traceFormat)

theorem FromPort.plain : TpiuDemux.Plain (Core.demuxInput (coreInput i s) s.core) where
  resetN := hi.aresetn
  resetSync := hi.resetPulse
  m3Source := beq_eq_false_iff_ne.mpr hi.sourceSelect

/-- The packetizer takes what the demultiplexer hands over. -/
theorem FromPort.accepted :
    FrameChain.accepted (Core.framesInput (coreInput i s) s.core) s.core.frames =
      TpiuDemux.handedOver (Core.demuxInput (coreInput i s) s.core) s.core.demux := by
  have hbypass := hi.bypassTpiu s
  rw [FrameChain.accepted, ChannelPacketizer.accepted, TpiuDemux.handedOver]
  simp only [FrameChain.packetizerInput, Core.framesInput, Core.demuxInput, Core.demuxReady,
    hbypass, Bool.false_eq_true, if_false]

end

/-! ### A run -/

section

variable {demux : TpiuDemux.State} {encoder : OrbflowEncoder.State} {inp : ℕ → Input}

/-- **The bytes that the packetizer has taken** are those that the decoder has returned, but for
those that the demultiplexer has still to hand over. -/
theorem taken_decoded (hport : ∀ t, FromPort (inp t)) (t : ℕ) :
    ∃ held : List MuxedByte,
      (TpiuDecoder.feed SYNC TpiuDecoder.initial (demuxTaken (run demux encoder inp) t)).2 =
        (taken (run demux encoder inp) t).map muxedByte ++ held := by
  let r := run demux encoder inp
  let feed (i : Input) (s : State) : TpiuDemux.Input := Core.demuxInput (coreInput i s) s.core
  have hpart : ∀ i s, (r.step i s).core.demux = TpiuDemux.step (feed i s) s.core.demux :=
    fun _ _ => rfl
  have hdemux : TpiuDemux.run (TpiuDemux.resetState demux) (fun u => feed (inp u) (r.state u)) =
      r.part TpiuDemux.step feed (fun s => s.core.demux) := rfl
  obtain ⟨htracks, hempty⟩ := tracks_reset demux
  obtain ⟨-, hout⟩ := tracks_run htracks hempty (fun u => feed (inp u) (r.state u))
    (fun u => (hport u).plain (r.state u)) t
  rw [hdemux, r.part_record hpart, r.part_record hpart] at hout
  have htaken : taken r t = r.record (fun i s => TpiuDemux.handedOver (feed i s) s.core.demux) t :=
    r.record_congr fun u _ => (hport u).accepted (r.state u)
  exact ⟨_, by rw [htaken]; exact hout.symm⟩

/-- **Transfers that follow each other hold what the decoder returns in a row.** -/
theorem stretch_decoded (hport : ∀ t, FromPort (inp t)) {t : ℕ} {before stretch rest : List Beat}
    (hbeats : delivered (run demux encoder inp) t = before ++ stretch ++ rest)
    (hbefore : Whole before) (hstretch : Whole (before ++ stretch)) :
    ∃ front middle back,
      (TpiuDecoder.feed SYNC TpiuDecoder.initial (demuxTaken (run demux encoder inp) t)).2 =
        front ++ middle ++ back ∧
      ∀ c : UInt8,
        Model.reconstructChannelStream (before.flatMap Beat.bytes) c = dataOn c front ∧
          Model.reconstructChannelStream (stretch.flatMap Beat.bytes) c = dataOn c middle := by
  obtain ⟨held, hheld⟩ := @taken_decoded demux encoder inp hport t
  obtain ⟨front, middle, back, htaken, hstreams⟩ :=
    stretch_frames (fun u => (hport u).aresetn) hbeats hbefore hstretch
  refine ⟨front.map muxedByte, middle.map muxedByte, back.map muxedByte ++ held, ?_, fun c => ?_⟩
  · rw [hheld, htaken, List.map_append, List.map_append, List.append_assoc]
  · rw [← onChannel_eq_dataOn, ← onChannel_eq_dataOn]
    exact hstreams c

end

end Stream
