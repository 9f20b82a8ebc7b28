import Zub1cg.Firmware.TraceDma
import Zub1cg.Rtl.AxisPacker.Transfers
import Zub1cg.Rtl.Core
import Zub1cg.Rtl.FrameChain.Lossless

/-!
# A transfer fits its buffer

The bound on a packet's payload goes through the checksum and the stuffing of the frame to the
frames of a transfer, and these have to fit the buffer that the firmware gives the DMA engine.

## Main results

- `frame_length` — how long a frame is
- `transfer_fits` — a transfer fits the buffer
-/

namespace Stream

open OrbflowEncoder (Packet frame flagged kept raw)
open StreamSide (FRAMES_PER_TRANSFER PACKET_TIMEOUT)
open AxisPacker (Beat Packed)

/-- The frame of a packet of 8192 bytes has at most so many. -/
def MAX_FRAME : ℕ := 8228

/-- A frame is longer than its packet by the channel, the checksum, the delimiter and the code
bytes: at most 33 of these for a packet that the packetizer makes. -/
theorem frame_length {p : Packet} (h : p ≠ []) (hfits : p.length ≤ FrameChain.ORBFLOW_PAYLOAD) :
    (frame p).length ≤ p.length + 36 := by
  have hencode := Cobs.length_encode_le (raw p)
  rw [OrbflowEncoder.raw_length h] at hencode
  rw [FrameChain.ORBFLOW_PAYLOAD] at hfits
  rw [frame, List.length_append, List.length_singleton]
  omega

section

variable {demux : TpiuDemux.State} {encoder : OrbflowEncoder.State} {inp : ℕ → Input}

/-- The beats that the packer has handed over by time `t`. -/
def delivered (r : Clocked.Run Input State) (t : ℕ) : List Beat :=
  r.record (fun i s => AxisPacker.deliveredBeat (packerInput i s) s.packer) t

/-- The bytes that have passed from the core to the packer by time `t`. -/
def passed (r : Clocked.Run Input State) (t : ℕ) : List AxisPacker.Item :=
  r.record (fun i s => AxisPacker.acceptedItem (packerInput i s) s.packer) t

/-- What passes from the core to the packer is the front of frames of packets that the packetizer
has made. -/
theorem passed_frames (hreset : ∀ t, (inp t).aresetn = true) (t : ℕ) :
    ∃ packets : List Packet, (∀ p ∈ packets, p ≠ [] ∧ p.length ≤ FrameChain.ORBFLOW_PAYLOAD) ∧
      passed (run demux encoder inp) t <+: flagged packets := by
  let r := run demux encoder inp
  let feed (i : Input) (s : State) : FrameChain.Input :=
    Core.framesInput (coreInput i s) s.core
  have hpart : ∀ i s, (r.step i s).core.frames =
      FrameChain.step PACKET_TIMEOUT (feed i s) s.core.frames := fun _ _ => rfl
  have hframes : FrameChain.run PACKET_TIMEOUT encoder (fun u => feed (inp u) (r.state u)) =
      r.part (FrameChain.step PACKET_TIMEOUT) feed (fun s => s.core.frames) := rfl
  obtain ⟨done, committed, final, htracks⟩ := @FrameChain.tracks_run PACKET_TIMEOUT encoder
    (fun u => feed (inp u) (r.state u)) hreset t
  have hprefix := htracks.flagged_prefix
  rw [hframes, r.part_record hpart] at hprefix
  refine ⟨_, fun p hp => ⟨OrbflowEncoder.kept_ne_nil hp, ?_⟩, hprefix⟩
  exact of_decide_eq_true (List.mem_filter.mp hp).2

/-- What passes from the core to the packer, in stretches that are no longer than the frames they
have a part of. -/
theorem passed_segment (hreset : ∀ t, (inp t).aresetn = true) (t : ℕ)
    (front segment : List AxisPacker.Item) (x : AxisPacker.Item) (back : List AxisPacker.Item)
    (h : passed (run demux encoder inp) t = front ++ (segment ++ x :: back)) :
    segment.length + 1 ≤ MAX_FRAME * (AxisPacker.frames segment + 1) := by
  obtain ⟨packets, hpackets, rest, hrest⟩ :=
    @passed_frames demux encoder inp hreset t
  have hflagged : flagged packets = (packets.map frame).flatMap Packets.markLast := by
    rw [flagged, List.flatMap_map]
  rw [hflagged, h] at hrest
  have hall : (packets.map frame).flatMap Packets.markLast =
      front ++ (segment ++ x :: (back ++ rest)) := by
    rw [← hrest, List.append_assoc, List.append_assoc, List.cons_append]
  refine Packets.segment_length (fun bytes hbytes => ?_) hall
  obtain ⟨p, hp, rfl⟩ := List.mem_map.mp hbytes
  obtain ⟨hne, hfits⟩ := hpackets p hp
  have hlength := frame_length hne hfits
  rw [FrameChain.ORBFLOW_PAYLOAD] at hfits
  rw [MAX_FRAME]
  omega

theorem delivered_packed (hreset : ∀ t, (inp t).aresetn = true) (t : ℕ) :
    ∃ pending, Packed FRAMES_PER_TRANSFER (passed (run demux encoder inp) t)
      (delivered (run demux encoder inp) t) pending ((run demux encoder inp).state t).packer := by
  let r := run demux encoder inp
  have hpart : ∀ i s, (r.step i s).packer =
      AxisPacker.step FRAMES_PER_TRANSFER (packerInput i s) s.packer := fun _ _ => rfl
  have hpacker : AxisPacker.run FRAMES_PER_TRANSFER (fun u => packerInput (inp u) (r.state u)) =
      r.part (AxisPacker.step FRAMES_PER_TRANSFER) packerInput State.packer := rfl
  have hpacked := @AxisPacker.run_packed FRAMES_PER_TRANSFER (by decide)
    (fun u => packerInput (inp u) (r.state u)) hreset t
  rw [hpacker, AxisPacker.accepted, AxisPacker.delivered, r.part_state hpart,
    r.part_record hpart, r.part_record hpart] at hpacked
  exact hpacked

end

/-- **A transfer fits its buffer.** Whatever the sources send on whatever channels, and however
the sink stalls: what passes from the core to the packer are frames, none of them more than 36
bytes longer than its packet and no packet longer than 8192 bytes; and the beats of a transfer,
that is a stretch of beats of which none but the last one has `output_last`, have at most two
frames' worth of bytes, which fits the buffer. -/
theorem transfer_fits (demux : TpiuDemux.State) (encoder : OrbflowEncoder.State) (inp : ℕ → Input)
    (hreset : ∀ t, (inp t).aresetn = true) (t : ℕ) :
    (∃ packets : List Packet,
      (∀ p ∈ packets, p ≠ [] ∧ p.length ≤ 8192 ∧ (frame p).length ≤ p.length + 36) ∧
        passed (run demux encoder inp) t <+: flagged packets) ∧
    (∀ before transfer rest : List Beat,
      delivered (run demux encoder inp) t = before ++ transfer ++ rest →
      (∀ beat ∈ transfer.dropLast, beat.last = false) →
      (transfer.flatMap Beat.bytes).length ≤ 2 * 8228) ∧
    2 * 8228 = 16456 ∧ 16456 ≤ Firmware.TRACE_DMA_BUFFER_SIZE.toNat := by
  refine ⟨?_, fun before transfer rest hbeats hinner => ?_, by decide, by decide⟩
  · obtain ⟨packets, hpackets, hprefix⟩ := @passed_frames demux encoder inp hreset t
    exact ⟨packets, fun p hp =>
      ⟨(hpackets p hp).1, (hpackets p hp).2, frame_length (hpackets p hp).1 (hpackets p hp).2⟩,
      hprefix⟩
  · obtain ⟨pending, hpacked⟩ := @delivered_packed demux encoder inp hreset t
    exact hpacked.transfer_length (by decide) (passed_segment hreset t) hbeats hinner

/-- A sync packet and a frame in which the channels 2 and 3 take turns. -/
def twoChannels : List UInt8 :=
  [0xff, 0xff, 0xff, 0x7f, 0x05, 0x11, 0x07, 0x22, 0x05, 0x33, 0x07, 0x44, 0x05, 0x55, 0x07, 0x66,
    0x05, 0x77, 0x07, 0]

def alternating (t : ℕ) : Input where
  aresetn := true
  sourceSelect := 1
  traceFormat := 0
  resetPulse := false
  m3 := ⟨0, false⟩
  coresight := ⟨twoChannels.getD t 0, t < twoChannels.length⟩
  test := ⟨0, false⟩
  mAxisTready := true

/-- The first transfer has two frames of five bytes. -/
theorem transfer_fits_alternating :
    let r := run TpiuDemux.initial OrbflowEncoder.initial alternating
    (delivered r 40).map (fun beat => (beat.bytes, beat.last)) =
      [([4, 2, 17, 237, 0, 4, 3, 34], false), ([219, 0], true)] ∧
    ((delivered r 40).flatMap Beat.bytes).length ≤ 2 * 8228 := by
  intro r
  refine ⟨by decide +kernel, ?_⟩
  exact (transfer_fits TpiuDemux.initial OrbflowEncoder.initial alternating (fun _ => rfl) 40).2.1
    [] (delivered r 40) [] (by rw [List.nil_append, List.append_nil]) (by decide +kernel)

end Stream
