import Zub1cg.Rtl.Core.Transfers

/-!
# Transfers are whole frames

The beats up to the end of a transfer hold whole frames. What the host reconstructs from any
transfers that follow each other are therefore bytes that the packetizer has taken one after the
other: nothing is missing inside, and nothing of another transfer is needed.

## Main definitions

- `Stream.taken` — what the packetizer has taken
- `Stream.Whole` — beats that end with a transfer
- `Stream.onChannel` — one channel's bytes

## Main results

- `Stream.whole_frames` — the beats up to the end of a transfer
- `Stream.stretch_frames` — the transfers from one such place to another
- `Stream.stretch_length` — how long a transfer that has not ended is
-/

/-! ### Delimited pieces -/

namespace OrbflowEncoder

/-- Bytes that end with a delimiter, in front of frames and a part of a frame, are frames. -/
theorem frames_of_prefix {ps : List Packet} {part front : List UInt8} (hpart : ∀ b ∈ part, b ≠ 0)
    (h : front ++ [0] <+: ps.flatMap frame ++ part) :
    ∃ k, front ++ [0] = (ps.take k).flatMap frame := by
  induction ps generalizing front with
  | nil =>
    rw [List.flatMap_nil, List.nil_append] at h
    exact absurd rfl (hpart 0 (h.subset (by simp)))
  | cons p ps ih =>
    obtain ⟨back, hback⟩ := h
    rw [List.flatMap_cons, List.append_assoc (frame p)] at hback
    obtain ⟨beyond, hframe, hrest⟩ | ⟨beyond, hframe, hrest⟩ := List.append_eq_append_iff.mp hback
    · -- the delimiter lies in the first frame, so it is the frame's own
      cases beyond using List.reverseRecOn with
      | nil =>
        rw [List.append_nil] at hframe
        exact ⟨1, by rw [List.take_one, List.head?_cons, hframe.symm]; simp⟩
      | append_singleton beyond b =>
        rw [frame, ← List.append_assoc] at hframe
        obtain ⟨hinner, -⟩ := List.append_inj' hframe rfl
        refine absurd rfl (Cobs.encode_ne_zero (raw p) 0 ?_)
        rw [hinner]
        simp
    · cases beyond using List.reverseRecOn with
      | nil =>
        rw [List.append_nil] at hframe
        exact ⟨1, by rw [List.take_one, List.head?_cons, hframe]; simp⟩
      | append_singleton beyond b =>
        rw [← List.append_assoc] at hframe
        obtain ⟨-, hb⟩ := List.append_inj' hframe rfl
        obtain rfl : 0 = b := List.singleton_injective hb
        obtain ⟨k, hk⟩ := ih ⟨back, hrest.symm⟩
        exact ⟨k + 1, by rw [List.take_succ_cons, List.flatMap_cons, ← hk, hframe, List.append_assoc]⟩

end OrbflowEncoder

/-! ### The end of a transfer -/

namespace AxisPacker

variable {framesPerTransfer : ℕ} {items : List Item} {beats : List Beat} {pending : List UInt8}
  {s : State}

/-- The last byte of a beat with `last` is the last byte of a frame. -/
theorem Packed.frame_end (h : Packed framesPerTransfer items beats pending s)
    {front rest : List Beat} {beat : Beat} (hbeats : beats = front ++ [beat] ++ rest)
    (hlast : beat.last = true) :
    ∃ items₁ byte items₂, items = items₁ ++ [(byte, true)] ++ items₂ ∧
      (front ++ [beat]).flatMap Beat.bytes = items₁.map (·.1) ++ [byte] := by
  obtain ⟨bytes, hholds, hne, -⟩ := h.wellFormed beat (by rw [hbeats]; simp)
  obtain ⟨body, byte, rfl⟩ : ∃ body byte, bytes = body ++ [byte] :=
    ⟨_, _, (List.dropLast_append_getLast hne).symm⟩
  have hbytes : beat.bytes = body ++ [byte] := hholds.selected
  have hcontent := h.content
  rw [marked_eq_marksFrom, hbeats] at hcontent
  simp only [List.flatMap_append, List.flatMap_singleton, Beat.marked_concat hbytes, hlast,
    List.append_assoc] at hcontent
  rw [← List.append_assoc] at hcontent
  obtain ⟨items₁, items₂, hitems, hfront, hback⟩ := marksFrom_eq_append hcontent
  obtain ⟨ending, items₃, hitems₂, hending, -⟩ := marksFrom_eq_append hback
  obtain ⟨⟨other, last⟩, rfl⟩ : ∃ x, ending = [x] := by
    have hone := congrArg List.length hending
    rw [marksFrom_length] at hone
    exact List.length_eq_one_iff.mp hone
  obtain ⟨rfl, hflag⟩ := Prod.mk.inj (List.singleton_injective hending)
  obtain ⟨rfl, -⟩ := Bool.and_eq_true_iff.mp hflag
  refine ⟨items₁, other, items₃, ?_, ?_⟩
  · rw [hitems, hitems₂, List.append_assoc]
  · have hmarks := congrArg (List.map (·.1)) hfront
    have hflags : (body.map fun b => (b, false)).map (·.1) = body := by
      rw [List.map_map]
      exact List.map_id _
    rw [← marked_eq_marksFrom, marked_bytes, List.map_append, List.map_flatMap, hflags] at hmarks
    rw [hmarks, List.flatMap_append, List.flatMap_singleton, hbytes, ← List.append_assoc]
    simp only [Beat.marked_bytes]

end AxisPacker

/-! ### The core and the packer behind it -/

namespace Stream

open OrbflowEncoder (Packet frame channelByte)
open ChannelPacketizer (OneChannel)
open StreamSide (FRAMES_PER_TRANSFER PACKET_TIMEOUT)
open AxisPacker (Beat)

/-- The beats end where a transfer does. -/
def Whole (beats : List Beat) : Prop := ∀ beat ∈ beats.getLast?, beat.last = true

instance (beats : List Beat) : Decidable (Whole beats) :=
  decidable_of_iff (beats.getLast?.all (·.last) = true) (by cases h : beats.getLast? <;> simp [Whole, h])

/-- The bytes on one channel. -/
def onChannel (c : UInt8) (taken : List (BitVec 7 × UInt8)) : List UInt8 :=
  (taken.filter fun x => channelByte x.1 = c).map Prod.snd

theorem onChannel_append (c : UInt8) (taken more : List (BitVec 7 × UInt8)) :
    onChannel c (taken ++ more) = onChannel c taken ++ onChannel c more := by
  rw [onChannel, List.filter_append, List.map_append]
  rfl

/-- What the packetizer has taken by time `t`. -/
def taken (r : Clocked.Run Input State) (t : ℕ) : List (BitVec 7 × UInt8) :=
  r.record (fun i s => FrameChain.accepted (Core.framesInput (coreInput i s) s.core) s.core.frames) t

section

variable {demux : TpiuDemux.State} {encoder : OrbflowEncoder.State} {inp : ℕ → Input}

/-- What has been taken are the packets whose frames have passed to the packer, and the bytes
that have not. -/
theorem taken_passed (hreset : ∀ t, (inp t).aresetn = true) (t : ℕ) :
    ∃ (done : List Packet) (held : List (BitVec 7 × UInt8)) (part : List UInt8),
      (∀ p ∈ done, p ≠ [] ∧ OneChannel p) ∧ (∀ b ∈ part, b ≠ 0) ∧
        taken (run demux encoder inp) t = done.flatten ++ held ∧
        (passed (run demux encoder inp) t).map Prod.fst = done.flatMap frame ++ part := by
  let r := run demux encoder inp
  let feed (i : Input) (s : State) : FrameChain.Input :=
    Core.framesInput (coreInput i s) s.core
  have hpart : ∀ i s, (r.step i s).core.frames =
      FrameChain.step PACKET_TIMEOUT (feed i s) s.core.frames := fun _ _ => rfl
  have hframes : FrameChain.run PACKET_TIMEOUT encoder (fun u => feed (inp u) (r.state u)) =
      r.part (FrameChain.step PACKET_TIMEOUT) feed (fun s => s.core.frames) := rfl
  obtain ⟨done, held, part, hdone, -, htaken, hpart', hpassed⟩ :=
    @FrameChain.taken_run PACKET_TIMEOUT encoder (fun u => feed (inp u) (r.state u)) hreset t
  rw [hframes, r.part_record hpart] at htaken hpassed
  exact ⟨done, held, part, hdone, hpart', htaken, hpassed⟩

/-- Only a delimiter has its flag set. -/
theorem passed_flag (hreset : ∀ t, (inp t).aresetn = true) (t : ℕ)
    {front : List AxisPacker.Item} {byte : UInt8} {rest : List AxisPacker.Item}
    (h : passed (run demux encoder inp) t = front ++ [(byte, true)] ++ rest) : byte = 0 := by
  obtain ⟨packets, -, hprefix⟩ := @passed_frames demux encoder inp hreset t
  have hmem : (byte, true) ∈ OrbflowEncoder.flagged packets :=
    hprefix.subset (by rw [h]; simp)
  obtain ⟨p, -, hp⟩ := List.mem_flatMap.mp hmem
  rw [frame, Packets.markLast_concat, List.mem_append, List.mem_singleton, List.mem_map] at hp
  obtain ⟨b, -, hb⟩ | hb := hp
  · cases (Prod.mk.inj hb).2
  · exact (Prod.mk.inj hb).1

/-- **The beats up to the end of a transfer hold whole frames**, of the packets that the packetizer
made first. -/
theorem whole_frames (hreset : ∀ t, (inp t).aresetn = true) (t : ℕ) :
    ∃ (done : List Packet) (held : List (BitVec 7 × UInt8)),
      (∀ p ∈ done, p ≠ [] ∧ OneChannel p) ∧
        taken (run demux encoder inp) t = done.flatten ++ held ∧
        ∀ front rest, delivered (run demux encoder inp) t = front ++ rest → Whole front →
          ∃ k, front.flatMap Beat.bytes = (done.take k).flatMap frame := by
  obtain ⟨done, held, part, hdone, hpart, htaken, hpassed⟩ :=
    @taken_passed demux encoder inp hreset t
  obtain ⟨pending, hpacked⟩ := @delivered_packed demux encoder inp hreset t
  refine ⟨done, held, hdone, htaken, fun front rest hbeats hwhole => ?_⟩
  cases front using List.reverseRecOn with
  | nil => exact ⟨0, rfl⟩
  | append_singleton front beat =>
    obtain ⟨items₁, byte, items₂, hitems, hbytes⟩ :=
      hpacked.frame_end hbeats (hwhole beat (by rw [List.getLast?_concat]; rfl))
    obtain rfl : byte = 0 := passed_flag hreset t hitems
    rw [hbytes]
    apply OrbflowEncoder.frames_of_prefix hpart
    rw [← hpassed, hitems]
    exact ⟨items₂.map Prod.fst, by simp⟩

/-- What the host reconstructs from frames of what has been taken. -/
theorem reconstruct_onChannel {ps : List Packet} (h : ∀ p ∈ ps, p ≠ [] ∧ OneChannel p) (c : UInt8) :
    Model.reconstructChannelStream (ps.flatMap frame) c = onChannel c ps.flatten :=
  FrameChain.reconstruct_frames (fun p hp => (h p hp).1) (fun p hp => (h p hp).2) c

/-- **Transfers that follow each other hold what was taken in a row.** -/
theorem stretch_frames (hreset : ∀ t, (inp t).aresetn = true) {t : ℕ}
    {before stretch rest : List Beat}
    (hbeats : delivered (run demux encoder inp) t = before ++ stretch ++ rest)
    (hbefore : Whole before) (hstretch : Whole (before ++ stretch)) :
    ∃ front middle back, taken (run demux encoder inp) t = front ++ middle ++ back ∧ ∀ c : UInt8,
      Model.reconstructChannelStream (before.flatMap Beat.bytes) c = onChannel c front ∧
        Model.reconstructChannelStream (stretch.flatMap Beat.bytes) c = onChannel c middle := by
  obtain ⟨done, held, hdone, htaken, hframes⟩ := @whole_frames demux encoder inp hreset t
  obtain ⟨k, hk⟩ := hframes before (stretch ++ rest) (by rw [hbeats, List.append_assoc]) hbefore
  obtain ⟨m, hm⟩ := hframes (before ++ stretch) rest hbeats hstretch
  rw [List.flatMap_append, hk] at hm
  obtain ⟨n, hn⟩ : ∃ n, stretch.flatMap Beat.bytes = ((done.drop k).take n).flatMap frame := by
    obtain hle | hlt := le_or_gt k m
    · refine ⟨m - k, List.append_cancel_left (hm.trans ?_)⟩
      rw [← List.flatMap_append, ← List.take_add, Nat.add_sub_cancel' hle]
    · -- the stretch is empty
      have hsplit : done.take k = done.take m ++ (done.drop m).take (k - m) := by
        rw [← List.take_add, Nat.add_sub_cancel' (Nat.le_of_lt hlt)]
      rw [hsplit, List.flatMap_append, List.append_assoc] at hm
      have hnil := List.append_right_eq_self.mp hm
      exact ⟨0, (List.append_eq_nil_iff.mp hnil).2⟩
  refine ⟨(done.take k).flatten, ((done.drop k).take n).flatten,
    ((done.drop k).drop n).flatten ++ held, ?_, fun c => ⟨?_, ?_⟩⟩
  · rw [htaken, ← List.append_assoc, ← List.flatten_append, ← List.flatten_append,
      List.append_assoc, List.take_append_drop, List.take_append_drop]
  · rw [hk]
    exact reconstruct_onChannel (fun p hp => hdone p (List.mem_of_mem_take hp)) c
  · rw [hn]
    exact reconstruct_onChannel
      (fun p hp => hdone p (List.mem_of_mem_drop (List.mem_of_mem_take hp))) c

/-- A transfer that has not ended fits the buffer. -/
theorem stretch_length (hreset : ∀ t, (inp t).aresetn = true) {t : ℕ}
    {before stretch rest : List Beat}
    (hbeats : delivered (run demux encoder inp) t = before ++ stretch ++ rest)
    (hinner : ∀ beat ∈ stretch.dropLast, beat.last = false) :
    (stretch.flatMap Beat.bytes).length < Firmware.TRACE_DMA_BUFFER_SIZE.toNat := by
  obtain ⟨pending, hpacked⟩ := @delivered_packed demux encoder inp hreset t
  have hlength := hpacked.transfer_length (by decide) (passed_segment hreset t) hbeats hinner
  exact Nat.lt_of_le_of_lt hlength (by decide)

end

end Stream
