import Zub1cg.Rtl.TpiuDemux.Simulation

/-!
# Whole streams through the demultiplexer

Once synchronised, the demultiplexer and the host's decoder agree on every stream of frames.
They do not agree on how to get there: the decoder locks on `7F FF FF FF`, the
demultiplexer on `FF FF FF 7F`; and a locked demultiplexer takes a further sync packet for
frame content.

## Main results

- `frames_decoded` — from equal states at a frame boundary
- `lock_agrees_iff` — from reset, with the host's decoder
- `sync_transparent_iff` — sync packets between the frames
-/

namespace TpiuDemux

open Model (MuxedByte TpiuDecoder)

/-! ### Frames from a boundary -/

/-- Both sides are synchronised at a frame boundary, with the same channel state. -/
structure Aligned (s : State) (d : TpiuDecoder) : Prop where
  synced : s.synced = true ∧ d.synced = true
  fill : s.fill = 0 ∧ d.frame = []
  emitting : s.emitting = false
  channel : channelByte s.channel = d.channel
  delayed : delayed s = d.delayedChannel

theorem Aligned.tracks {s : State} {d : TpiuDecoder} (h : Aligned s d) :
    Tracks s d ∧ pending s = [] := by
  refine ⟨⟨?_, fun hun => ?_, fun _ => ?_, fun hbusy => ?_⟩, by simp [pending, h.emitting]⟩
  · rw [h.synced.1, h.synced.2]
  · rw [h.synced.2] at hun
    cases hun
  · rw [h.fill.1, h.fill.2]
    exact ⟨Nat.zero_le _, rfl, h.channel, h.delayed⟩
  · rw [h.emitting] at hbusy
    cases hbusy

/-- The frame being worked through is finished without further input, if the output is ready
again and again. -/
theorem drains {s : State} (inp : ℕ → Input) (hplain : ∀ t, Plain (inp t))
    (hemit : ∀ t, ((run s inp).state t).emitting = true → ((run s inp).state t).emit ≤ 14)
    (hready : ∀ t, ∃ u, t ≤ u ∧ (inp u).outputReady = true) (t : ℕ) :
    ∃ u, t ≤ u ∧ ((run s inp).state u).emitting = false ∧
      (run s inp).record accepted u = (run s inp).record accepted t := by
  have hstep : ∀ t, ¬ ((run s inp).state t).emitting = false →
      ((run s inp).state (t + 1)).emitting = false ∨
        15 - ((run s inp).state (t + 1)).emit ≤ 15 - ((run s inp).state t).emit ∧
          ((inp t).outputReady = true →
            15 - ((run s inp).state (t + 1)).emit < 15 - ((run s inp).state t).emit) := by
    intro t hbusy
    have hs := Bool.eq_true_of_not_eq_false hbusy
    have hbound := hemit t hs
    have hnext : (run s inp).state (t + 1) = step (inp t) ((run s inp).state t) := rfl
    rw [hnext]
    cases hadvance : advance (inp t) ((run s inp).state t) with
    | false =>
      -- a stalled position: the output is not ready
      rw [step_emitting (hplain t) hs, hadvance]
      refine .inr ⟨Nat.le_refl _, fun hgo => ?_⟩
      rw [advance, hs, hgo] at hadvance
      simp at hadvance
    | true =>
      obtain ⟨hend, hmore⟩ := step_position (hplain t) hs hbound hadvance
      by_cases hlast : ((run s inp).state t).emit = 14
      · exact .inl (hend hlast)
      · rw [(hmore hlast).2]
        omega
  obtain ⟨u, htu, hdone, hbefore⟩ := Clocked.eventually
    (fun t => ((run s inp).state t).emitting = false)
    (fun t => 15 - ((run s inp).state t).emit) hready hstep t
  refine ⟨u, htu, hdone, ?_⟩
  obtain ⟨k, rfl⟩ := Nat.exists_eq_add_of_le htu
  have hquiet : ∀ n, n ≤ k →
      (run s inp).record accepted (t + n) = (run s inp).record accepted t := by
    intro n
    induction n with
    | zero => exact fun _ => rfl
    | succ n ih =>
      intro hn
      have hs := Bool.eq_true_of_not_eq_false (hbefore (t + n) (Nat.le_add_right _ _) (by omega))
      have hnone : accepted (inp (t + n)) ((run s inp).state (t + n)) = [] := by
        simp [accepted, inputFire, inputReady, hs]
      rw [← Nat.add_assoc, Clocked.Run.record_succ, ih (by omega)]
      exact (congrArg _ hnone).trans (List.append_nil _)
  exact hquiet k (Nat.le_refl k)

/-- A synchronised decoder holds the bytes behind the last full frame. -/
theorem feed_frame_length {d : TpiuDecoder} (hsynced : d.synced = true) (hframe : d.frame = [])
    (bytes : List UInt8) :
    (TpiuDecoder.feed SYNC d bytes).1.frame.length = bytes.length % 16 := by
  induction bytes using List.reverseRecOn with
  | nil => simp [TpiuDecoder.feed, hframe]
  | append_singleton bytes byte ih =>
    have hlocked := (TpiuDecoder.feed_synced hsynced SYNC SYNC bytes).2
    rw [TpiuDecoder.feed_concat, TpiuDecoder.pushAt]
    simp only [hlocked, Bool.not_true, Bool.false_eq_true, if_false]
    rw [List.length_append, List.length_singleton, List.length_append, List.length_singleton, ih]
    split
    · rw [List.length_append, List.length_singleton, ih]
      omega
    · rw [List.length_nil]
      omega

/-- **Frames are decoded as on the host.** From an aligned state, under any schedule of the
input and any stalls of the output: what has been handed over is at any time a prefix of what
the decoder returns for the accepted bytes, and all of it whenever no frame is being worked
through; at the end of each frame the two are aligned again. If the output is ready again
and again, everything the decoder returns is handed over. -/
theorem frames_decoded {s : State} {d : TpiuDecoder} (h : Aligned s d) (inp : ℕ → Input)
    (hplain : ∀ t, Plain (inp t)) :
    (∀ t, ((run s inp).record handedOver t).map muxedByte <+:
        (d.decode ((run s inp).record accepted t)).2 ∧
      (((run s inp).state t).emitting = false →
        ((run s inp).record handedOver t).map muxedByte =
            (d.decode ((run s inp).record accepted t)).2 ∧
          (((run s inp).record accepted t).length % 16 = 0 →
            Aligned ((run s inp).state t) (d.decode ((run s inp).record accepted t)).1))) ∧
      ((∀ t, ∃ u, t ≤ u ∧ (inp u).outputReady = true) → ∀ t, ∃ u, t ≤ u ∧
        (run s inp).record accepted u = (run s inp).record accepted t ∧
          ((run s inp).record handedOver u).map muxedByte =
            (d.decode ((run s inp).record accepted t)).2) := by
  obtain ⟨htracks, hstart⟩ := h.tracks
  have hrun := tracks_run htracks hstart inp hplain
  -- a synchronised decoder does not use its sync word
  have hdecode : ∀ bytes, d.decode bytes = TpiuDecoder.feed SYNC d bytes :=
    fun bytes => (TpiuDecoder.feed_synced h.synced.2 _ SYNC bytes).1
  have hidle : ∀ t, ((run s inp).state t).emitting = false →
      ((run s inp).record handedOver t).map muxedByte =
        (d.decode ((run s inp).record accepted t)).2 := by
    intro t hs
    have hout := (hrun t).2
    rw [pending, hs, if_neg Bool.false_ne_true, List.append_nil] at hout
    rw [hdecode, hout]
  refine ⟨fun t => ⟨?_, fun hs => ⟨hidle t hs, fun hend => ?_⟩⟩, fun hready t => ?_⟩
  · rw [hdecode, ← (hrun t).2]
    exact List.prefix_append _ _
  · have hlocked := (TpiuDecoder.feed_synced h.synced.2 SYNC SYNC
      ((run s inp).record accepted t)).2
    have hlength := feed_frame_length h.synced.2 h.fill.2 ((run s inp).record accepted t)
    obtain ⟨-, hframe, hchannel, hdelayed⟩ := (hrun t).1.collecting hs
    rw [hend, hframe, List.length_map, List.length_range] at hlength
    rw [hdecode]
    refine ⟨⟨(hrun t).1.synced.trans hlocked, hlocked⟩, ⟨hlength, ?_⟩, hs, hchannel, hdelayed⟩
    rw [hframe, hlength]
    rfl
  · obtain ⟨u, htu, hs, hsame⟩ := drains inp hplain
      (fun t hbusy => ((hrun t).1.emitting hbusy).2.2.1) hready t
    exact ⟨u, htu, hsame, by rw [hidle u hs, hsame]⟩

/-- A formatter frame: the identifier of channel 2 and fourteen data bytes. -/
def channelTwoFrame : List UInt8 := 0x05 :: List.replicate 14 0x22 ++ [0x00]

theorem offer_plain (bytes : List UInt8) (t : ℕ) : Plain (offer bytes t) := ⟨rfl, rfl, rfl⟩

/-- One frame from a locked state: fourteen bytes on channel 2. -/
theorem frames_decoded_channel_two :
    let r := run { initial with synced := true } (offer channelTwoFrame)
    let d := { TpiuDecoder.initial with synced := true }
    r.record accepted 31 = channelTwoFrame ∧
      (r.record handedOver 31).map muxedByte = (d.decode (r.record accepted 31)).2 ∧
      (r.record handedOver 31).map muxedByte = List.replicate 14 ⟨2, 0x22⟩ := by
  intro r d
  have haligned : Aligned { initial with synced := true }
      { TpiuDecoder.initial with synced := true } :=
    ⟨⟨rfl, rfl⟩, ⟨rfl, rfl⟩, rfl, rfl, rfl⟩
  have hdone : (r.state 31).emitting = false := by decide +kernel
  obtain ⟨hsame, -⟩ := ((frames_decoded haligned (offer channelTwoFrame)
    (offer_plain channelTwoFrame)).1 31).2 hdone
  exact ⟨by decide +kernel, hsame, by decide +kernel⟩

/-! ### Lock acquisition -/

/-- From reset, the demultiplexer is synchronised exactly when the host's decoder is, and has
the same output. -/
def LockAgrees (r : Clocked.Run Input State) (t : ℕ) : Prop :=
  (r.state t).synced = (TpiuDecoder.initial.decode (r.record accepted t)).1.synced ∧
    (r.record handedOver t).map muxedByte ++ pending (r.state t) =
      (TpiuDecoder.initial.decode (r.record accepted t)).2

theorem tracks_reset (s₀ : State) :
    Tracks (resetState s₀) TpiuDecoder.initial ∧ pending (resetState s₀) = [] := by
  refine ⟨⟨rfl, fun _ => rfl, fun _ => ?_, fun hbusy => ?_⟩, rfl⟩
  · exact ⟨Nat.zero_le _, rfl, (channelByte_eq_zero _).mpr rfl, rfl⟩
  cases hbusy

/-- The demultiplexer is synchronised once `FF FF FF 7F` has occurred. -/
theorem synced_iff (s₀ : State) (inp : ℕ → Input) (hplain : ∀ t, Plain (inp t)) (t : ℕ) :
    ((run (resetState s₀) inp).state t).synced = true ↔
      [0xff, 0xff, 0xff, 0x7f] <:+: (run (resetState s₀) inp).record accepted t := by
  obtain ⟨htracks, hstart⟩ := tracks_reset s₀
  rw [(tracks_run htracks hstart inp hplain t).1.synced,
    (TpiuDecoder.feed_synced_iff (by decide) _).1]
  rfl

/-- At most one byte is taken in a cycle. -/
theorem accepted_succ (s : State) (inp : ℕ → Input) (t : ℕ) :
    (run s inp).record accepted (t + 1) = (run s inp).record accepted t ∨
      ∃ byte, (run s inp).record accepted (t + 1) =
        (run s inp).record accepted t ++ [byte] := by
  rw [Clocked.Run.record_succ]
  change _ ++ (if inputFire (inp t) ((run s inp).state t) then _ else _) = _ ∨
    ∃ byte, _ ++ (if inputFire (inp t) ((run s inp).state t) then _ else _) = _
  split
  · exact .inr ⟨_, rfl⟩
  · exact .inl (List.append_nil _)

theorem last_of_suffix (front : List UInt8) (a : UInt8) {bytes : List UInt8} {b : UInt8}
    (h : front ++ [a] <:+ bytes ++ [b]) : b = a := by
  obtain ⟨rest, hrest⟩ := h
  have hlast := congrArg List.getLast? hrest
  rw [← List.append_assoc, List.getLast?_concat, List.getLast?_concat] at hlast
  exact (Option.some.inj hlast).symm

/-- **When the two sides lock alike.** Over the first `n` cycles out of reset, under any
schedule, the demultiplexer and the host's decoder are synchronised at the same bytes and
have the same output if and only if neither `7F FF FF FF` nor `FF FF FF 7F` has occurred. -/
theorem lock_agrees_iff (s₀ : State) (inp : ℕ → Input) (hplain : ∀ t, Plain (inp t)) (n : ℕ) :
    (∀ t ≤ n, LockAgrees (run (resetState s₀) inp) t) ↔
      ¬ [0x7f, 0xff, 0xff, 0xff] <:+: (run (resetState s₀) inp).record accepted n ∧
        ¬ [0xff, 0xff, 0xff, 0x7f] <:+: (run (resetState s₀) inp).record accepted n := by
  have hhost : ∀ bytes, ((TpiuDecoder.initial.decode bytes).1.synced = true ↔
      [0x7f, 0xff, 0xff, 0xff] <:+: bytes) ∧
      ((TpiuDecoder.initial.decode bytes).1.synced = false →
        (TpiuDecoder.initial.decode bytes).2 = []) :=
    fun bytes => @TpiuDecoder.feed_synced_iff 0xffffff7f (by decide) bytes
  have hdemux := synced_iff s₀ inp hplain
  have hsucc := accepted_succ (resetState s₀) inp
  obtain ⟨htracks, hstart⟩ := tracks_reset s₀
  have hrun := tracks_run htracks hstart inp hplain
  have hquiet : ∀ bytes, ((TpiuDecoder.feed SYNC TpiuDecoder.initial bytes).1.synced = false →
      (TpiuDecoder.feed SYNC TpiuDecoder.initial bytes).2 = []) :=
    fun bytes => (TpiuDecoder.feed_synced_iff (by decide) bytes).2
  generalize run (resetState s₀) inp = r at hdemux hsucc hrun ⊢
  constructor
  · intro hagree
    -- whoever locked first locked together with the other, on one and the same byte
    have hnone : ∀ t ≤ n, ¬ [0xff, 0xff, 0xff, 0x7f] <:+: r.record accepted t := by
      intro t
      induction t with
      | zero =>
        intro _ hinfix
        cases List.infix_nil.mp hinfix
      | succ t ih =>
        intro ht hhardware
        have hbefore := ih (by omega)
        have hmodel := hhardware
        rw [← hdemux, (hagree (t + 1) ht).1, (hhost _).1] at hmodel
        have hmodel' : ¬ [0x7f, 0xff, 0xff, 0xff] <:+: r.record accepted t := by
          rw [← (hhost _).1, ← (hagree t (by omega)).1, hdemux]
          exact hbefore
        obtain hsame | ⟨byte, hbyte⟩ := hsucc t
        · rw [hsame] at hhardware
          exact hbefore hhardware
        · rw [hbyte, List.infix_concat_iff] at hhardware hmodel
          have h7f := last_of_suffix [0xff, 0xff, 0xff] 0x7f
            (hhardware.resolve_right hbefore)
          have hff := last_of_suffix [0x7f, 0xff, 0xff] 0xff
            (hmodel.resolve_right hmodel')
          rw [h7f] at hff
          exact absurd hff (by decide)
    have hlast := hnone n (Nat.le_refl n)
    refine ⟨fun hmodel => hlast ?_, hlast⟩
    rw [← hdemux n, (hagree n (Nat.le_refl n)).1, (hhost _).1]
    exact hmodel
  · rintro ⟨hmodel, hhardware⟩ t ht
    have hprefix := r.record_mono accepted ht
    have hun : (r.state t).synced = false := by
      rw [← Bool.not_eq_true, hdemux]
      exact fun h => hhardware (h.trans hprefix.isInfix)
    have hun' : (TpiuDecoder.initial.decode (r.record accepted t)).1.synced = false := by
      rw [← Bool.not_eq_true, (hhost _).1]
      exact fun h => hmodel (h.trans hprefix.isInfix)
    refine ⟨hun.trans hun'.symm, ?_⟩
    rw [(hrun t).2, (hhost _).2 hun']
    exact hquiet _ ((hrun t).1.synced.symm.trans hun)

/-- A sync packet and a frame: the demultiplexer emits fourteen bytes, the host's decoder
none. -/
theorem genuine_sync_not_decoded :
    let r := run initial (offer ([0xff, 0xff, 0xff, 0x7f] ++ channelTwoFrame))
    r.record accepted 35 = [0xff, 0xff, 0xff, 0x7f] ++ channelTwoFrame ∧
      (r.record handedOver 35).map muxedByte = List.replicate 14 ⟨2, 0x22⟩ ∧
      (TpiuDecoder.initial.decode (r.record accepted 35)).2 = [] ∧ ¬ LockAgrees r 35 := by
  intro r
  have hhandedOver : (r.record handedOver 35).map muxedByte = List.replicate 14 ⟨2, 0x22⟩ := by
    decide +kernel
  have hdecode : (TpiuDecoder.initial.decode (r.record accepted 35)).2 = [] := by decide +kernel
  refine ⟨by decide +kernel, hhandedOver, hdecode, ?_⟩
  rintro ⟨-, hout⟩
  rw [hdecode, hhandedOver] at hout
  cases hout

/-- Bytes without any sync packet. -/
theorem lock_agrees_without_sync :
    (∀ t, Plain (offer [0xff, 0x7f, 0xff] t)) ∧
      ∀ t ≤ 3, LockAgrees (run initial (offer [0xff, 0x7f, 0xff])) t := by
  refine ⟨offer_plain _, ?_⟩
  exact (lock_agrees_iff initial (offer [0xff, 0x7f, 0xff]) (offer_plain _) 3).mpr
    ⟨by decide +kernel, by decide +kernel⟩

/-! ### Sync packets between frames -/

/-- A Full Sync Packet. -/
def fullSync : List UInt8 := [0xff, 0xff, 0xff, 0x7f]

/-- A leading sync packet and frames, each with a number of further sync packets in front. -/
def interspersed (frames : List (ℕ × List UInt8)) : List UInt8 :=
  fullSync ++ frames.flatMap fun p => (List.replicate p.1 fullSync).flatten ++ p.2

/-- Everything the demultiplexer has to say about what it took in by time `t`. -/
def emitted (r : Clocked.Run Input State) (t : ℕ) : List MuxedByte :=
  (r.record handedOver t).map muxedByte ++ pending (r.state t)

/-- The frames of the run `r` with sync packets between them come out as in the run `r'` with
the leading one only, and nothing but their bytes is taken for frame content. -/
def SyncTransparent (frames : List (ℕ × List UInt8)) (r : Clocked.Run Input State) (t : ℕ)
    (r' : Clocked.Run Input State) (t' : ℕ) : Prop :=
  r.record stored t = frames.flatMap Prod.snd ∧ emitted r t = emitted r' t'

/-- Behind a leading sync packet every byte is taken for frame content. -/
theorem stored_eq (s₀ : State) (inp : ℕ → Input) (hplain : ∀ t, Plain (inp t))
    (rest : List UInt8) (t : ℕ)
    (h : (run (resetState s₀) inp).record accepted t <+: fullSync ++ rest) :
    (run (resetState s₀) inp).record stored t =
      ((run (resetState s₀) inp).record accepted t).drop 4 := by
  induction t with
  | zero => rfl
  | succ t ih =>
    have hbefore := ((run (resetState s₀) inp).record_mono accepted (Nat.le_succ t)).trans h
    rw [Clocked.Run.record_succ, Clocked.Run.record_succ, ih hbefore]
    have hsynced := synced_iff s₀ inp hplain t
    generalize (run (resetState s₀) inp).record accepted t = taken at hbefore hsynced ⊢
    obtain hshort | hlong := Nat.lt_or_ge taken.length 4
    · -- the sync packet is not complete: nothing is stored yet
      have hun : ((run (resetState s₀) inp).state t).synced = false := by
        rw [← Bool.not_eq_true, hsynced]
        intro hinfix
        have := hinfix.length_le
        simp only [List.length_cons, List.length_nil] at this
        omega
      have hnone : stored (inp t) ((run (resetState s₀) inp).state t) = [] := by
        simp [stored, hun]
      have hone : (accepted (inp t) ((run (resetState s₀) inp).state t)).length ≤ 1 := by
        rw [accepted]
        split <;> simp
      change _ ++ stored (inp t) _ = (_ ++ accepted (inp t) _).drop 4
      rw [hnone, List.append_nil, List.drop_eq_nil_of_le (by omega),
        List.drop_eq_nil_of_le (by rw [List.length_append]; omega)]
    · have hlead : fullSync <+: taken :=
        List.prefix_of_prefix_length_le (List.prefix_append _ _) hbefore hlong
      have hlocked : ((run (resetState s₀) inp).state t).synced = true :=
        hsynced.mpr hlead.isInfix
      have hall : stored (inp t) ((run (resetState s₀) inp).state t) =
          accepted (inp t) ((run (resetState s₀) inp).state t) := by
        simp [stored, accepted, hlocked]
      change _ ++ stored (inp t) _ = (_ ++ accepted (inp t) _).drop 4
      rw [hall, List.drop_append_of_le_length hlong]

theorem length_interspersed (frames : List (ℕ × List UInt8)) :
    (interspersed frames).length =
      4 + (4 * (frames.map Prod.fst).sum + (frames.flatMap Prod.snd).length) := by
  rw [interspersed, List.length_append]
  congr 1
  induction frames with
  | nil => rfl
  | cons p frames ih =>
    have hcopies : (List.replicate p.1 fullSync).flatten.length = 4 * p.1 := by
      simp [fullSync, Nat.mul_comm]
    rw [List.flatMap_cons, List.flatMap_cons, List.map_cons, List.sum_cons, List.length_append,
      List.length_append, List.length_append, ih, hcopies]
    omega

/-- **When sync packets are transparent.** Out of reset and under any schedules, a stream with
sync packets in front of its frames comes out like the frames behind a single leading sync
packet, with nothing else taken for frame content, if and only if there is no sync packet
but the leading one. -/
theorem sync_transparent_iff (frames : List (ℕ × List UInt8)) (s₀ s₀' : State)
    (inp inp' : ℕ → Input) (hplain : ∀ t, Plain (inp t)) (hplain' : ∀ t, Plain (inp' t))
    (n n' : ℕ) (htaken : (run (resetState s₀) inp).record accepted n = interspersed frames)
    (htaken' : (run (resetState s₀') inp').record accepted n' =
      fullSync ++ frames.flatMap Prod.snd) :
    SyncTransparent frames (run (resetState s₀) inp) n (run (resetState s₀') inp') n' ↔
      ∀ p ∈ frames, p.1 = 0 := by
  have hstored : (run (resetState s₀) inp).record stored n = (interspersed frames).drop 4 := by
    rw [stored_eq s₀ inp hplain _ n (by rw [htaken]; exact List.prefix_rfl), htaken]
  constructor
  · rintro ⟨hcontent, -⟩
    have hlength := congrArg List.length (hstored.symm.trans hcontent)
    rw [List.length_drop, length_interspersed] at hlength
    have hsum : (frames.map Prod.fst).sum = 0 := by omega
    intro p hp
    exact List.sum_eq_zero_iff_forall_eq_nat.mp hsum p.1 (List.mem_map_of_mem hp)
  · intro hzero
    have hbare : interspersed frames = fullSync ++ frames.flatMap Prod.snd := by
      rw [interspersed]
      congr 1
      refine List.flatMap_congr fun p hp => ?_
      rw [hzero p hp]
      rfl
    obtain ⟨htracks, hstart⟩ := tracks_reset s₀
    obtain ⟨htracks', hstart'⟩ := tracks_reset s₀'
    refine ⟨by rw [hstored, hbare]; rfl, ?_⟩
    unfold emitted
    rw [(tracks_run htracks hstart inp hplain n).2, (tracks_run htracks' hstart' inp' hplain' n').2,
      htaken, htaken', hbare]

/-- A second sync packet in front of the only frame: it becomes the beginning of the frame's
content, and the wrong bytes come out. -/
theorem second_sync_taken_for_content :
    let frames := [(1, channelTwoFrame)]
    let r := run initial (offer (interspersed frames))
    let r' := run initial (offer (fullSync ++ channelTwoFrame))
    r.record accepted 40 = interspersed frames ∧
      r'.record accepted 40 = fullSync ++ frames.flatMap Prod.snd ∧
      r.record stored 40 = fullSync ++ channelTwoFrame ∧
      (emitted r 40).take 2 = [⟨0x7f, 0xff⟩, ⟨0x7f, 0x7f⟩] ∧
      emitted r' 40 = List.replicate 14 ⟨2, 0x22⟩ ∧
      ¬ SyncTransparent frames r 40 r' 40 := by
  intro frames r r'
  have hstored : r.record stored 40 = fullSync ++ channelTwoFrame := by decide +kernel
  refine ⟨by decide +kernel, by decide +kernel, hstored, by decide +kernel, by decide +kernel, ?_⟩
  rintro ⟨hcontent, -⟩
  rw [hstored] at hcontent
  exact absurd hcontent (by decide)

/-- A leading sync packet and a frame. -/
theorem sync_transparent_single :
    let r := run initial (offer (fullSync ++ channelTwoFrame))
    SyncTransparent [(0, channelTwoFrame)] r 20 r 20 := by
  refine (sync_transparent_iff [(0, channelTwoFrame)] initial initial
    (offer (fullSync ++ channelTwoFrame)) (offer (fullSync ++ channelTwoFrame)) (offer_plain _)
    (offer_plain _) 20 20 (by decide +kernel) (by decide +kernel)).mpr ?_
  decide

end TpiuDemux
