import Zub1cg.Rtl.FrameChain.Contents
import Zub1cg.Model.Orbflow.Capture
import Mathlib.Data.List.DropRight

/-!
# Packetizer and encoder lose nothing

The packets that pass from the packetizer to the encoder have one channel each and fit, so
the encoder drops none of them, and the host finds every byte again that has left the chain
in a whole frame.

## Main definitions

- `throughLastZero` — a capture up to its last delimiter

## Main results

- `tracks_run`, `no_loss` — the encoder never drops a byte
- `taken_run` — what was taken has come out in frames or is inside
- `lossless_framing` — the host's streams and the bytes inside are the bytes that were taken
-/

open OrbflowEncoder (Packet Tracks kept frame channelByte channelOf)
open ChannelPacketizer (OneChannel Packetized heldByte)

namespace FrameChain

/-- A capture up to its last delimiter. -/
def throughLastZero (capture : List UInt8) : List UInt8 := capture.rdropWhile (· != 0)

section

variable {packetTimeout : ℕ} {s₀ : OrbflowEncoder.State} {inp : ℕ → Input}

/-! ### The two parts -/

/-- Both sides of the handshake between packetizer and encoder agree. -/
theorem accepted_eq_passed :
    (fun i (s : State) => OrbflowEncoder.accepted (encoderInput i s) s.encoder) = passed := by
  funext i s
  rfl

/-- What all edges preserve for the packetizer. -/
theorem packetized_run (hreset : ∀ t, (inp t).resetN = true) (t : ℕ) :
    (run packetTimeout s₀ inp).record accepted t =
        ((run packetTimeout s₀ inp).record passed t).map Prod.fst ++
          heldByte ((run packetTimeout s₀ inp).state t).packetizer ∧
      Packetized ORBFLOW_PAYLOAD ((run packetTimeout s₀ inp).record passed t)
        ((run packetTimeout s₀ inp).state t).packetizer := by
  apply (run packetTimeout s₀ inp).record_invariant (P := fun taken items s =>
    taken = items.map Prod.fst ++ heldByte s.packetizer ∧
      Packetized ORBFLOW_PAYLOAD items s.packetizer)
  · exact ⟨rfl, ChannelPacketizer.packetized_start _⟩
  · rintro u taken items s ⟨htaken, hpackets⟩
    have hi : (packetizerInput (inp u) s).resetN = true := hreset u
    refine ⟨?_, hpackets.step (by decide) hi⟩
    rw [htaken, List.append_assoc, List.map_append, List.append_assoc]
    exact congrArg _ (ChannelPacketizer.conserved hi)

/-- The encoder runs on what the packetizer feeds it. -/
theorem tracks_run (hreset : ∀ t, (inp t).resetN = true) (t : ℕ) :
    ∃ done committed final, Tracks ORBFLOW_PAYLOAD ((run packetTimeout s₀ inp).record passed t)
      ((run packetTimeout s₀ inp).record emitted t) ((run packetTimeout s₀ inp).state t).encoder
      done committed final := by
  let r := run packetTimeout s₀ inp
  have hpart : ∀ i s, (r.step i s).encoder =
      OrbflowEncoder.step ORBFLOW_PAYLOAD (encoderInput i s) s.encoder := fun _ _ => rfl
  have hencoder :
      OrbflowEncoder.run ORBFLOW_PAYLOAD s₀ (fun u => encoderInput (inp u) (r.state u)) =
        r.part (OrbflowEncoder.step ORBFLOW_PAYLOAD) encoderInput State.encoder := rfl
  have htracks := @OrbflowEncoder.tracks_run ORBFLOW_PAYLOAD (by decide) s₀
    (fun u => encoderInput (inp u) (r.state u)) hreset t
  rw [hencoder, r.part_state hpart, r.part_record hpart, r.part_record hpart,
    accepted_eq_passed] at htracks
  exact htracks

/-- A byte that comes next fits. -/
theorem pending_short (hreset : ∀ t, (inp t).resetN = true) (t : ℕ) :
    (Packets.pending ((run packetTimeout s₀ inp).record passed t)).length < ORBFLOW_PAYLOAD := by
  obtain ⟨-, hpackets⟩ := @packetized_run packetTimeout s₀ inp hreset t
  cases hheld : ((run packetTimeout s₀ inp).state t).packetizer.held with
  | false =>
    rw [hpackets.empty hheld]
    decide
  | true =>
    have hcount := hpackets.count hheld
    have hfits := hpackets.fits hheld
    omega

/-- The encoder drops nothing. -/
theorem no_loss (hreset : ∀ t, (inp t).resetN = true) (t : ℕ) :
    ((run packetTimeout s₀ inp).state t).encoder.overrun = false ∧
      ((run packetTimeout s₀ inp).state t).encoder.droppedBytes = 0 := by
  induction t with
  | zero => exact ⟨rfl, rfl⟩
  | succ t ih =>
    let s := (run packetTimeout s₀ inp).state t
    let i := encoderInput (inp t) s
    obtain ⟨done, committed, final, htracks⟩ := @tracks_run packetTimeout s₀ inp hreset t
    have hstep : ((run packetTimeout s₀ inp).state (t + 1)).encoder =
        OrbflowEncoder.emitUpdate i s.encoder
          (OrbflowEncoder.loaded ORBFLOW_PAYLOAD i s.encoder) := by
      change OrbflowEncoder.step ORBFLOW_PAYLOAD i s.encoder = _
      rw [OrbflowEncoder.step, show i.resetN = true from hreset t]
      rfl
    obtain ⟨-, -, -, -, hoverrun, hdropped⟩ := OrbflowEncoder.emitUpdate_frame i s.encoder
      (OrbflowEncoder.loaded ORBFLOW_PAYLOAD i s.encoder)
    obtain ⟨hoverrun', hdropped'⟩ :=
      htracks.loader.no_overrun (i := i) fun _ => pending_short hreset t
    rw [hstep, hoverrun, hdropped, hoverrun', hdropped']
    exact ih

/-! ### What the host finds -/

/-- The delimiters end the whole frames, and a part of a frame has none. -/
theorem throughLastZero_frames (ps : List Packet) {part : List UInt8} (hpart : ∀ b ∈ part, b ≠ 0) :
    throughLastZero (ps.flatMap frame ++ part) = ps.flatMap frame := by
  rw [throughLastZero]
  induction part using List.reverseRecOn with
  | nil =>
    rw [List.append_nil]
    cases ps using List.reverseRecOn with
    | nil => rfl
    | append_singleton ps p =>
      rw [List.flatMap_append, List.flatMap_singleton, frame, ← List.append_assoc]
      exact List.rdropWhile_concat_neg _ _ _ (by decide)
  | append_singleton part b ih =>
    have hb : (b != 0) = true := bne_iff_ne.mpr (hpart b (by simp))
    rw [← List.append_assoc, List.rdropWhile_concat_pos (· != 0) _ b hb]
    exact ih fun c hc => hpart c (List.mem_append_left _ hc)

/-- One channel's bytes in the packets are the payloads on it. -/
theorem channelPayloads_packets {ps : List Packet} (hne : ∀ p ∈ ps, p ≠ [])
    (hone : ∀ p ∈ ps, OneChannel p) (c : UInt8) :
    Model.channelPayloads (ps.map fun p => (channelOf p, p.map Prod.snd)) c =
      (ps.flatten.filter fun x => channelByte x.1 = c).map Prod.snd := by
  induction ps with
  | nil => rfl
  | cons p ps ih =>
    have hrest := ih (fun q hq => hne q (List.mem_cons_of_mem _ hq))
      fun q hq => hone q (List.mem_cons_of_mem _ hq)
    obtain ⟨channel, hchannel⟩ := hone p List.mem_cons_self
    have hof : channelOf p = channelByte channel := by
      obtain ⟨x, rest, rfl⟩ := List.exists_cons_of_ne_nil (hne p List.mem_cons_self)
      rw [← hchannel x List.mem_cons_self]
      rfl
    have hfilter : p.filter (fun x => channelByte x.1 = c) =
        if channelByte channel = c then p else [] := by
      split_ifs with hc
      · apply List.filter_eq_self.mpr
        intro x hx
        rw [hchannel x hx, decide_eq_true hc]
      · apply List.filter_eq_nil_iff.mpr
        intro x hx
        rw [hchannel x hx, decide_eq_false hc]
        exact Bool.false_ne_true
    rw [List.flatten_cons, List.filter_append, List.map_append, ← hrest, hfilter, List.map_cons,
      Model.channelPayloads, Model.channelPayloads, List.filter_cons, hof]
    by_cases hc : channelByte channel = c
    · rw [if_pos hc, if_pos (decide_eq_true hc), List.flatMap_cons]
    · rw [if_neg hc, if_neg (by rwa [decide_eq_true_eq])]
      rfl

/-- The frames of packets with one channel each give every channel its bytes. -/
theorem reconstruct_frames {ps : List Packet} (hne : ∀ p ∈ ps, p ≠ [])
    (hone : ∀ p ∈ ps, OneChannel p) (c : UInt8) :
    Model.reconstructChannelStream (ps.flatMap frame) c =
      (ps.flatten.filter fun x => channelByte x.1 = c).map Prod.snd := by
  have hframes : ps.flatMap frame = ((ps.map fun p => (channelOf p, p.map Prod.snd)).map
      fun q => Model.encoded q.1 q.2 ++ [0]).flatten := by
    rw [List.map_map, ← List.flatMap_def]
    apply List.flatMap_congr
    intro p hp
    exact OrbflowEncoder.frame_eq (hne p hp)
  rw [hframes, Model.reconstructChannelStream_eq, Model.validFrames_flatten,
    channelPayloads_packets hne hone]

/-! ### What was taken -/

/-- The packets in the chain are what the registers and memories hold. -/
theorem inside_of_tracks {s : State} {items : List ((BitVec 7 × UInt8) × Bool)}
    {out : List (UInt8 × Bool)} {done committed final : List Packet}
    (h : Tracks ORBFLOW_PAYLOAD items out s.encoder done committed final)
    (hshort : (Packets.pending items).length < ORBFLOW_PAYLOAD)
    (hone : ∀ p ∈ committed ++ final, OneChannel p) (hpending : OneChannel (Packets.pending items)) :
    Inside s ((committed ++ final).flatten ++ Packets.pending items ++ heldByte s.packetizer) := by
  obtain ⟨loading, hloader, hcase⟩ := loading_holds h.loader (Nat.le_of_lt hshort)
  have hloading : OneChannel loading ∧ final.flatten ++ Packets.pending items = loading := by
    obtain ⟨hfinal, hcur⟩ | ⟨hfinal, hcur⟩ := hcase
    · rw [hfinal, hcur]
      exact ⟨hpending, rfl⟩
    · rw [hfinal] at hone
      rw [hfinal, hcur, List.append_nil]
      exact ⟨hone loading (by simp), List.flatten_singleton⟩
  rw [List.flatten_append, List.append_assoc committed.flatten, hloading.2]
  refine .mk committed loading h.banks hloader fun p hp => ?_
  obtain hp | hp := List.mem_append.mp hp
  · exact hone p (List.mem_append_left _ hp)
  · rw [List.mem_singleton.mp hp]
    exact hloading.1

/-- What was taken are the packets whose frames have come out and the bytes inside. -/
theorem taken_run (hreset : ∀ t, (inp t).resetN = true) (t : ℕ) :
    ∃ (done : List Packet) (held : List (BitVec 7 × UInt8)) (part : List UInt8),
      (∀ p ∈ done, p ≠ [] ∧ OneChannel p) ∧ Inside ((run packetTimeout s₀ inp).state t) held ∧
        (run packetTimeout s₀ inp).record accepted t = done.flatten ++ held ∧
        (∀ b ∈ part, b ≠ 0) ∧
        ((run packetTimeout s₀ inp).record emitted t).map Prod.fst =
          done.flatMap frame ++ part := by
  obtain ⟨htaken, hpackets⟩ := @packetized_run packetTimeout s₀ inp hreset t
  obtain ⟨done, committed, final, htracks⟩ := @tracks_run packetTimeout s₀ inp hreset t
  have hshort := @pending_short packetTimeout s₀ inp hreset t
  generalize run packetTimeout s₀ inp = r at htaken hpackets htracks hshort ⊢
  -- no packet is too long, so all of them are kept
  have hkept : kept ORBFLOW_PAYLOAD (r.record passed t) = Packets.completed (r.record passed t) :=
    List.filter_eq_self.mpr fun p hp => decide_eq_true (hpackets.completed p hp).2
  have hsplit := htracks.split
  rw [hkept, List.append_assoc] at hsplit
  have hmem : ∀ p ∈ done ++ (committed ++ final), p ≠ [] ∧ OneChannel p := by
    rw [← hsplit]
    exact fun p hp => ⟨Packets.completed_ne_nil hp, (hpackets.completed p hp).1⟩
  obtain ⟨part, hpart, hout⟩ := htracks.emitter.whole_frames
  refine ⟨done, _, part, fun p hp => hmem p (List.mem_append_left _ hp),
    inside_of_tracks htracks hshort (fun p hp => (hmem p (List.mem_append_right _ hp)).2)
      ⟨_, hpackets.channel⟩, ?_, hpart, ?_⟩
  · rw [htaken, ← Packets.flatten_completed, hsplit, List.flatten_append, List.append_assoc,
      List.append_assoc, List.append_assoc]
  · rw [hout, List.map_append, OrbflowEncoder.flagged_map_fst, List.map_map]
    exact congrArg _ (List.map_id _)

end

/-- **Packetizer and encoder lose nothing.** Whatever the packetizer takes, whatever pauses it
makes and however the sink stalls: no overrun is reported and no byte dropped, and at every
time, for every channel, the stream the host reconstructs from the emitted bytes up to the
last delimiter, followed by the channel's bytes among those that are inside the chain, are the
channel's bytes that were taken. -/
theorem lossless_framing (packetTimeout : ℕ) (s₀ : OrbflowEncoder.State) (inp : ℕ → Input)
    (hreset : ∀ t, (inp t).resetN = true) (t : ℕ) :
    let r := run packetTimeout s₀ inp
    (r.state t).encoder.overrun = false ∧ (r.state t).encoder.droppedBytes = 0 ∧
      ∃ held, (∀ other, Inside (r.state t) other ↔ other = held) ∧ ∀ c : UInt8,
        ((r.record accepted t).filter fun x => channelByte x.1 = c).map Prod.snd =
          Model.reconstructChannelStream (throughLastZero ((r.record emitted t).map Prod.fst)) c ++
            (held.filter fun x => channelByte x.1 = c).map Prod.snd := by
  intro r
  obtain ⟨hoverrun, hdropped⟩ := @no_loss packetTimeout s₀ inp hreset t
  obtain ⟨done, held, part, hdone, hinside, htaken, hpart, hout⟩ :=
    @taken_run packetTimeout s₀ inp hreset t
  refine ⟨hoverrun, hdropped, held, fun other => ⟨fun h => h.unique hinside, ?_⟩, fun c => ?_⟩
  · rintro rfl
    exact hinside
  · rw [htaken, hout, throughLastZero_frames done hpart,
      reconstruct_frames (fun p hp => (hdone p hp).1) (fun p hp => (hdone p hp).2),
      List.filter_append, List.map_append]

/-- Bytes on channels 1, 2 and 1 again, with a pause before the third, and a sink that stalls at
every fourth edge. -/
def twoChannels (t : ℕ) : Input :=
  ⟨true, if t = 1 then 2 else 1, UInt8.ofNat (t + 7), t < 2 || t = 6, t % 4 != 0⟩

/-- In the middle of the second frame the host has the first byte, and the others are inside. -/
theorem lossless_framing_two_channels :
    let s₀ : OrbflowEncoder.State := ⟨fun _ _ => 0, fun _ _ => 0, fun _ => 0, fun _ => false,
      ⟨false, .L_ACCEPT, 0, 0, 0, 0, 0, 0, false, false⟩, ⟨.E_IDLE, false, false, 0, 0, 0⟩,
      false, 0, 0⟩
    let r := run 2 s₀ twoChannels
    r.record accepted 16 = [(1, 7), (2, 8), (1, 13)] ∧
      (r.record emitted 16).map Prod.fst = [4, 1, 7, 0xf8, 0, 4, 2, 8] ∧
      (r.state 16).encoder.overrun = false ∧ (r.state 16).encoder.droppedBytes = 0 ∧
      Model.reconstructChannelStream (throughLastZero [4, 1, 7, 0xf8, 0, 4, 2, 8]) 1 = [7] ∧
      ∃ held, (∀ other, Inside (r.state 16) other ↔ other = held) ∧
        (held.filter fun x => channelByte x.1 = 1).map Prod.snd = [13] ∧
        (held.filter fun x => channelByte x.1 = 2).map Prod.snd = [8] := by
  intro s₀ r
  obtain ⟨hoverrun, hdropped, held, hinside, hstream⟩ :=
    lossless_framing 2 s₀ twoChannels (fun _ => rfl) 16
  have htaken : (run 2 s₀ twoChannels).record accepted 16 = [(1, 7), (2, 8), (1, 13)] := by
    decide +kernel
  have hout : ((run 2 s₀ twoChannels).record emitted 16).map Prod.fst =
      [4, 1, 7, 0xf8, 0, 4, 2, 8] := by decide +kernel
  have hhost : Model.reconstructChannelStream
      (throughLastZero [4, 1, 7, 0xf8, 0, 4, 2, 8]) 1 = [7] := by decide +kernel
  have hother : Model.reconstructChannelStream
      (throughLastZero [4, 1, 7, 0xf8, 0, 4, 2, 8]) 2 = [] := by decide +kernel
  have hone := hstream 1
  have htwo := hstream 2
  rw [htaken, hout, hhost] at hone
  rw [htaken, hout, hother] at htwo
  exact ⟨htaken, hout, hoverrun, hdropped, hhost, held, hinside, (List.cons.inj hone).2.symm,
    htwo.symm⟩

end FrameChain
