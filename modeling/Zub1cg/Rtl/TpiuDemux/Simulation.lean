import Zub1cg.Rtl.TpiuDemux
import Zub1cg.Model.Tpiu.Sync
import Mathlib.Tactic.IntervalCases

/-!
# The demultiplexer simulates the decoder

While a frame is collected the demultiplexer holds the bytes the decoder holds. Once the
frame is complete the decoder is done with it at once; the demultiplexer still has the
positions from `emit` on in front of it. What the decoder's loop makes of these positions is
what the hardware has yet to hand over.

## Main definitions

- `remaining`, `pending` — the rest of the loop over the frame being worked through
- `Tracks` — the relation between the two states

## Main results

- `emit_position` — one position of a frame
- `tracks_step`, `tracks_run` — one edge, and a whole run under any schedule
-/

namespace TpiuDemux

open Model (MuxedByte FrameLoop formatterByte TpiuDecoder)

/-- A channel register as the byte the decoder uses. -/
def channelByte (channel : BitVec 7) : UInt8 := UInt8.ofBitVec (0#1 ++ channel)

def muxedByte (p : BitVec 7 × UInt8) : MuxedByte := ⟨channelByte p.1, p.2⟩

/-- The delayed channel, if there is one. -/
def delayed (s : State) : Option UInt8 :=
  if s.delayedValid then some (channelByte s.delayedChannel) else none

/-- The frame memory as the decoder's `raw`. -/
def raw (s : State) : List UInt8 := (List.range 16).map s.frame

/-- The decoder's loop over the positions from `emit` on. -/
def remaining (s : State) : FrameLoop :=
  (List.range' s.emit (15 - s.emit)).foldl (formatterByte (raw s))
    ⟨channelByte s.channel, delayed s, []⟩

/-- What is still to be handed over of the frame being worked through. -/
def pending (s : State) : List MuxedByte := if s.emitting then (remaining s).out else []

/-! ### One position of a frame -/

theorem channelByte_eq_zero (c : BitVec 7) : channelByte c = 0 ↔ c = 0 := by
  rw [channelByte, ← UInt8.toBitVec_inj, UInt8.toBitVec_ofBitVec]
  constructor
  · intro h
    ext k hk
    have hbit := congrArg (fun x : BitVec 8 => x.getLsbD k) h
    change (0#1 ++ c).getLsbD k = (0#8).getLsbD k at hbit
    rw [BitVec.getLsbD_append, if_pos hk] at hbit
    simpa [hk] using hbit
  · rintro rfl
    rfl

theorem channelByte_extract (x : UInt8) : channelByte (x.toBitVec.extractLsb' 1 7) = x >>> 1 := by
  rw [channelByte, ← UInt8.toBitVec_inj, UInt8.toBitVec_ofBitVec]
  ext k hk
  rw [BitVec.getElem_append]
  interval_cases k <;> simp

theorem byte_lowest_bit (x : UInt8) : x &&& 1 ≠ 0 ↔ x.toBitVec.getLsbD 0 = true := by
  have hmask : (x &&& 1).toBitVec = BitVec.setWidth 8 (BitVec.ofBool (x.toBitVec.getLsbD 0)) := by
    rw [UInt8.toBitVec_and]
    exact BitVec.and_one_eq_setWidth_ofBool_getLsbD
  rw [ne_eq, ← UInt8.toBitVec_inj, hmask]
  cases x.toBitVec.getLsbD 0 <;> decide

theorem byteAt_raw (s : State) {k : ℕ} (hk : k < 16) : byteAt (raw s) k = s.frame k := by
  simp [byteAt, raw, hk]

/-- Putting the auxiliary bit back. -/
theorem unmangled_even (x aux : UInt8) {k : ℕ} (hk : k < 8) :
    UInt8.ofBitVec (x.toBitVec.extractLsb' 1 7 ++ BitVec.ofBool (aux.toBitVec.getLsbD k)) =
      x &&& 0xfe ||| aux >>> UInt8.ofNat k &&& 1 := by
  rw [← UInt8.toBitVec_inj, UInt8.toBitVec_ofBitVec]
  ext j hj
  rw [BitVec.getElem_append]
  interval_cases k <;> interval_cases j <;> simp

theorem formatterByte_eq (s : State) (hemit : s.emit ≤ 14) (c : UInt8) (d : Option UInt8) :
    formatterByte (raw s) ⟨c, d, []⟩ s.emit =
      if isId s then
        if (unmangled s).toBitVec.getLsbD 0 then ⟨c, some (channelByte (unmangledId s)), []⟩
        else ⟨channelByte (unmangledId s), d, []⟩
      else
        ⟨d.getD c, none, if c ≠ 0 then [⟨c, unmangled s⟩] else []⟩ := by
  have hdata : (if s.emit % 2 = 0 then
      byteAt (raw s) s.emit &&& 0xfe ||| byteAt (raw s) 15 >>> UInt8.ofNat (s.emit / 2) &&& 1
      else byteAt (raw s) s.emit) = unmangled s := by
    rw [byteAt_raw s (by omega), byteAt_raw s (by omega), unmangled,
      unmangled_even _ _ (by omega : s.emit / 2 < 8)]
  have hid : (s.emit % 2 = 0 ∧ byteAt (raw s) s.emit &&& 1 ≠ 0) ↔ isId s = true := by
    rw [byteAt_raw s (by omega), byte_lowest_bit, isId]
    simp
  have hvalue : channelByte (unmangledId s) = unmangled s >>> 1 := channelByte_extract _
  rw [formatterByte]
  simp only [hdata, hid, hvalue]
  simp only [byte_lowest_bit]
  split
  · rfl
  · cases d <;> by_cases hc : c = 0 <;> simp [hc]

/-! ### One edge -/

/-- Out of reset, synchronised by nobody else, and not the M3's source. -/
structure Plain (i : Input) : Prop where
  resetN : i.resetN = true
  resetSync : i.resetSync = false
  m3Source : i.m3Source = false

theorem step_plain {i : Input} (hi : Plain i) (s : State) :
    step i s = emitUpdate i s (inputUpdate i s s) := by
  simp [step, hi.resetN, resetSyncUpdate, hi.resetSync]

/-- While a frame is worked through no input is taken. -/
theorem step_emitting {i : Input} (hi : Plain i) {s : State} (hs : s.emitting = true) :
    step i s =
      if advance i s then
        { s with
          channel := if isId s then
              if (unmangled s).toBitVec.getLsbD 0 then s.channel else unmangledId s
            else if s.delayedValid then s.delayedChannel else s.channel
          delayedChannel :=
            if isId s && (unmangled s).toBitVec.getLsbD 0 then unmangledId s
            else s.delayedChannel
          delayedValid :=
            isId s && ((unmangled s).toBitVec.getLsbD 0 || s.delayedValid)
          emitting := s.emit ≠ 14
          emit := if s.emit = 14 then 14 else (s.emit + 1) % 32 }
      else s := by
  have hinput : inputUpdate i s s = s := by
    simp [inputUpdate, inputReady, hs]
  rw [step_plain hi, hinput, emitUpdate, hi.m3Source]
  split
  · simp only [Bool.false_and, Bool.false_eq_true, if_false]
    cases isId s <;> cases (unmangled s).toBitVec.getLsbD 0 <;> cases hd : s.delayedValid <;>
      by_cases hlast : s.emit = 14 <;> simp [hlast, hs, hd]
  · rfl

/-- The position after a finished one. -/
theorem step_position {i : Input} (hi : Plain i) {s : State} (hs : s.emitting = true)
    (hemit : s.emit ≤ 14) (hadvance : advance i s = true) :
    (s.emit = 14 → (step i s).emitting = false) ∧
      (s.emit ≠ 14 → (step i s).emitting = true ∧ (step i s).emit = s.emit + 1) := by
  rw [step_emitting hi hs, if_pos hadvance]
  refine ⟨fun hlast => decide_eq_false (not_not.mpr hlast), fun hmore => ⟨decide_eq_true hmore, ?_⟩⟩
  change (if s.emit = 14 then 14 else (s.emit + 1) % 32) = s.emit + 1
  rw [if_neg hmore]
  omega

/-- **One position of a frame.** The decoder's loop takes the position the demultiplexer has
finished to the registers and the pair handed over. -/
theorem emit_position {i : Input} (hi : Plain i) {s : State} (hs : s.emitting = true)
    (hemit : s.emit ≤ 14) (hadvance : advance i s = true) :
    formatterByte (raw s) ⟨channelByte s.channel, delayed s, []⟩ s.emit =
      ⟨channelByte (step i s).channel, delayed (step i s), (handedOver i s).map muxedByte⟩ := by
  rw [formatterByte_eq s hemit, step_emitting hi hs, if_pos hadvance]
  simp only [delayed, handedOver, outputValid, hs, Bool.true_and, ne_eq, channelByte_eq_zero]
  cases hid : isId s with
  | true => cases (unmangled s).toBitVec.getLsbD 0 <;> cases s.delayedValid <;> simp
  | false =>
    -- a data byte: it is handed over now unless the channel is the null channel
    have hout : (s.channel != 0 && i.outputReady) = (s.channel != 0) := by
      rw [advance, hs, hid] at hadvance
      cases hready : i.outputReady
      · simp only [hready, Bool.or_false, Bool.true_and, Bool.false_or, beq_iff_eq] at hadvance
        simp [hadvance]
      · simp
    rw [Bool.not_false, Bool.true_and, hout]
    cases s.delayedValid <;> by_cases hc : s.channel = 0#7 <;> simp [hc, muxedByte]

/-! ### The rest of a frame -/

/-- What the loop has put out before does not matter to the rest. -/
theorem foldl_formatterByte (raw : List UInt8) (positions : List ℕ) (c : UInt8)
    (d : Option UInt8) (out : List MuxedByte) :
    positions.foldl (formatterByte raw) ⟨c, d, out⟩ =
      { positions.foldl (formatterByte raw) ⟨c, d, []⟩ with
        out := out ++ (positions.foldl (formatterByte raw) ⟨c, d, []⟩).out } := by
  have hone : ∀ (c : UInt8) d out k, formatterByte raw ⟨c, d, out⟩ k =
      { formatterByte raw ⟨c, d, []⟩ k with
        out := out ++ (formatterByte raw ⟨c, d, []⟩ k).out } := by
    intro c d out k
    unfold formatterByte
    dsimp only
    generalize (if k % 2 = 0 then
      byteAt raw k &&& 0xfe ||| byteAt raw 15 >>> UInt8.ofNat (k / 2) &&& 1
      else byteAt raw k) = data
    split
    · by_cases hdelayed : data &&& 1 = 0 <;> simp [hdelayed]
    · cases d <;> by_cases hc : c = 0 <;> simp [hc]
  induction positions generalizing c d out with
  | nil => simp
  | cons k positions ih =>
    rw [List.foldl_cons, List.foldl_cons, hone]
    obtain ⟨c', d', o'⟩ := formatterByte raw ⟨c, d, []⟩ k
    rw [ih, ih c' d' o']
    simp

/-- A finished position leaves the loop over the positions behind it. -/
theorem remaining_advance {i : Input} (hi : Plain i) {s : State} (hs : s.emitting = true)
    (hemit : s.emit ≤ 14) (hadvance : advance i s = true) :
    remaining s =
      if s.emit = 14 then
        ⟨channelByte (step i s).channel, delayed (step i s), (handedOver i s).map muxedByte⟩
      else
        { remaining (step i s) with
          out := (handedOver i s).map muxedByte ++ (remaining (step i s)).out } := by
  have hsplit : List.range' s.emit (15 - s.emit) =
      s.emit :: List.range' (s.emit + 1) (14 - s.emit) := by
    rw [show 15 - s.emit = (14 - s.emit) + 1 by omega, List.range'_succ]
  rw [remaining, hsplit, List.foldl_cons, emit_position hi hs hemit hadvance,
    foldl_formatterByte]
  split
  · next hlast => simp [hlast]
  · next hmore =>
    have hframe : raw (step i s) = raw s := by
      rw [step_emitting hi hs, if_pos hadvance]
      rfl
    obtain ⟨-, hnext⟩ := (step_position hi hs hemit hadvance).2 hmore
    rw [remaining, hframe, hnext, show 15 - (s.emit + 1) = 14 - s.emit by omega]

/-! ### The two machines side by side -/

/-- The sync packet the demultiplexer looks for. -/
def SYNC : UInt32 := 0x7fffffff

/-- The decoder is where the demultiplexer will be once the frame being worked through is
done. -/
structure Tracks (s : State) (d : TpiuDecoder) : Prop where
  synced : s.synced = d.synced
  window : d.synced = false → s.syncWindow = d.syncWindow.toBitVec
  collecting : s.emitting = false →
    s.fill ≤ 15 ∧ d.frame = (List.range s.fill).map s.frame ∧
      channelByte s.channel = d.channel ∧ delayed s = d.delayedChannel
  emitting : s.emitting = true →
    d.synced = true ∧ s.fill = 0 ∧ s.emit ≤ 14 ∧ d.frame = [] ∧
      (remaining s).channel = d.channel ∧ (remaining s).delayedChannel = d.delayedChannel

theorem handedOver_collecting (i : Input) {s : State} (hs : s.emitting = false) :
    handedOver i s = [] := by
  simp [handedOver, outputValid, hs]

/-- A stalled position is not handed over. -/
theorem handedOver_stalled {i : Input} {s : State} (hs : s.emitting = true)
    (hstall : advance i s = false) : handedOver i s = [] := by
  rw [advance, hs, Bool.true_and] at hstall
  simp only [Bool.or_eq_false_iff] at hstall
  simp [handedOver, hstall.2]

theorem map_update_range (frame : ℕ → UInt8) (n : ℕ) (b : UInt8) :
    (List.range (n + 1)).map (Function.update frame n b) = (List.range n).map frame ++ [b] := by
  rw [List.range_succ, List.map_append, List.map_singleton, Function.update_self]
  congr 1
  refine List.map_congr_left fun k hk => ?_
  rw [List.mem_range] at hk
  exact Function.update_of_ne (Nat.ne_of_lt hk) _ _

/-- An edge while a frame is worked through. -/
theorem tracks_emitting {i : Input} (hi : Plain i) {s : State} {d : TpiuDecoder}
    (h : Tracks s d) (hs : s.emitting = true) :
    Tracks (step i s) d ∧ (handedOver i s).map muxedByte ++ pending (step i s) = pending s := by
  obtain ⟨hsynced, hfill, hemit, hframe, hchannel, hdelayed⟩ := h.emitting hs
  cases hadvance : advance i s with
  | false =>
    have hstep : step i s = s := by rw [step_emitting hi hs, hadvance]; rfl
    rw [hstep, handedOver_stalled hs hadvance]
    exact ⟨h, rfl⟩
  | true =>
    have hrest := remaining_advance hi hs hemit hadvance
    have hkept : (step i s).synced = s.synced ∧ (step i s).fill = s.fill := by
      rw [step_emitting hi hs, if_pos hadvance]
      exact ⟨rfl, rfl⟩
    by_cases hlast : s.emit = 14
    · have hdone := (step_position hi hs hemit hadvance).1 hlast
      rw [if_pos hlast] at hrest
      rw [hrest] at hchannel hdelayed
      refine ⟨⟨hkept.1.trans h.synced, fun hun => ?_, fun _ => ?_, fun hbusy => ?_⟩, ?_⟩
      · rw [hsynced] at hun
        cases hun
      · rw [hkept.2, hfill]
        exact ⟨Nat.zero_le _, hframe, hchannel, hdelayed⟩
      · rw [hdone] at hbusy
        cases hbusy
      · rw [pending, pending, hdone, hs, hrest]
        simp
    · have hmore := (step_position hi hs hemit hadvance).2 hlast
      rw [if_neg hlast] at hrest
      rw [hrest] at hchannel hdelayed
      refine ⟨⟨hkept.1.trans h.synced, fun hun => ?_, fun hidle => ?_, fun _ => ?_⟩, ?_⟩
      · rw [hsynced] at hun
        cases hun
      · rw [hmore.1] at hidle
        cases hidle
      · rw [hkept.2, hmore.2]
        exact ⟨hsynced, hfill, by omega, hframe, hchannel, hdelayed⟩
      · rw [pending, pending, hmore.1, hs, hrest]
        rfl

/-- An edge between two frames' output phases without an input byte changes nothing. -/
theorem step_waiting {i : Input} (hi : Plain i) {s : State} (hs : s.emitting = false)
    (hnone : inputFire i s = false) : step i s = s := by
  have hadvance : advance i s = false := by simp [advance, hs]
  have hinput : inputUpdate i s s = s := by
    rw [inputUpdate]
    rw [show (i.inputValid && inputReady s) = false from hnone]
    rfl
  rw [step_plain hi, hinput, emitUpdate, hadvance]
  rfl

theorem inputFire_collecting {i : Input} {s : State} (hfire : inputFire i s = true) :
    s.emitting = false ∧ advance i s = false := by
  have hs : s.emitting = false := by
    have := (Bool.and_eq_true_iff.mp hfire).2
    simpa [inputReady] using this
  exact ⟨hs, by simp [advance, hs]⟩

/-- An edge that takes an input byte while a sync packet is searched. -/
theorem step_search {i : Input} (hi : Plain i) {s : State} (hfire : inputFire i s = true)
    (hsynced : s.synced = false) :
    step i s =
      if nextWindow i s = 0x7fffffff then
        { s with syncWindow := nextWindow i s, synced := true, fill := 0 }
      else { s with syncWindow := nextWindow i s } := by
  rw [step_plain hi, emitUpdate, (inputFire_collecting hfire).2]
  rw [inputUpdate]
  rw [show (i.inputValid && inputReady s) = true from hfire, hsynced]
  rfl

/-- An edge that takes a byte of a frame. -/
theorem step_collect {i : Input} (hi : Plain i) {s : State} (hfire : inputFire i s = true)
    (hsynced : s.synced = true) :
    step i s =
      if s.fill = 15 then
        { s with
          syncWindow := nextWindow i s
          frame := Function.update s.frame s.fill i.inputData
          fill := 0
          emit := 0
          emitting := true }
      else
        { s with
          syncWindow := nextWindow i s
          frame := Function.update s.frame s.fill i.inputData
          fill := (s.fill + 1) % 32 } := by
  rw [step_plain hi, emitUpdate, (inputFire_collecting hfire).2]
  rw [inputUpdate]
  rw [show (i.inputValid && inputReady s) = true from hfire, hsynced]
  rfl

/-- Searching for a sync packet, the two windows agree and lock together. -/
theorem tracks_search {i : Input} (hi : Plain i) {s : State} {d : TpiuDecoder}
    (h : Tracks s d) (hfire : inputFire i s = true) (hsynced : d.synced = false) :
    Tracks (step i s) (TpiuDecoder.pushAt SYNC d i.inputData).1 ∧
      pending (step i s) = (TpiuDecoder.pushAt SYNC d i.inputData).2 := by
  obtain ⟨hs, -⟩ := inputFire_collecting hfire
  obtain ⟨hfill, hframe, hchannel, hdelayed⟩ := h.collecting hs
  have hbusy : ∀ {p : Prop}, s.emitting = true → p := fun hb => by
    rw [hs] at hb
    cases hb
  have hwindow : nextWindow i s = (TpiuDecoder.shiftIn d.syncWindow i.inputData).toBitVec := by
    rw [TpiuDecoder.shiftIn_toBitVec, ← h.window hsynced]
    rfl
  have hlock : nextWindow i s = 0x7fffffff ↔
      TpiuDecoder.shiftIn d.syncWindow i.inputData = SYNC := by
    rw [hwindow, ← UInt32.toBitVec_inj]
    rfl
  rw [step_search hi hfire (h.synced.trans hsynced), TpiuDecoder.pushAt]
  simp only [hsynced, Bool.not_false, if_true]
  by_cases hmatch : TpiuDecoder.shiftIn d.syncWindow i.inputData = SYNC
  · rw [if_pos (hlock.mpr hmatch), if_pos hmatch]
    refine ⟨⟨rfl, fun hun => ?_, fun _ => ?_, hbusy⟩, by simp [pending, hs]⟩
    · cases hun
    · exact ⟨Nat.zero_le _, rfl, hchannel, hdelayed⟩
  · rw [if_neg (fun hw => hmatch (hlock.mp hw)), if_neg hmatch]
    refine ⟨⟨h.synced.trans hsynced, fun _ => hwindow, fun _ => ?_, hbusy⟩,
      by simp [pending, hs]⟩
    exact ⟨hfill, hframe, hchannel, hdelayed⟩

/-- At the start of a frame the rest of the loop is the whole loop. -/
theorem remaining_start {s : State} (h : s.emit = 0) :
    remaining s = (List.range 15).foldl (formatterByte (raw s))
      ⟨channelByte s.channel, delayed s, []⟩ := by
  rw [remaining, h, List.range_eq_range']

/-- Collecting a frame, both sides hold the same bytes; the decoder runs its whole loop at the
sixteenth one, where the demultiplexer starts to emit. -/
theorem tracks_collect {i : Input} (hi : Plain i) {s : State} {d : TpiuDecoder}
    (h : Tracks s d) (hfire : inputFire i s = true) (hsynced : d.synced = true) :
    Tracks (step i s) (TpiuDecoder.pushAt SYNC d i.inputData).1 ∧
      pending (step i s) = (TpiuDecoder.pushAt SYNC d i.inputData).2 := by
  obtain ⟨hs, -⟩ := inputFire_collecting hfire
  obtain ⟨hfill, hframe, hchannel, hdelayed⟩ := h.collecting hs
  have hlocked := h.synced.trans hsynced
  have hlonger : d.frame ++ [i.inputData] =
      (List.range (s.fill + 1)).map (Function.update s.frame s.fill i.inputData) := by
    rw [map_update_range, hframe]
  rw [step_collect hi hfire hlocked, TpiuDecoder.pushAt]
  simp only [hsynced, Bool.not_true, Bool.false_eq_true, if_false]
  rw [hlonger, List.length_map, List.length_range]
  by_cases hfull : s.fill = 15
  · rw [if_pos hfull, if_neg (by omega), hfull, ← hchannel, ← hdelayed]
    refine ⟨⟨hlocked, fun hun => ?_, fun hidle => ?_, fun _ => ?_⟩, ?_⟩
    · cases hun
    · cases hidle
    · rw [remaining_start rfl]
      exact ⟨rfl, rfl, Nat.zero_le _, rfl, rfl, rfl⟩
    · rw [pending, if_pos rfl, remaining_start rfl]
      rfl
  · rw [if_neg hfull, if_pos (by omega)]
    refine ⟨⟨hlocked, fun hun => ?_, fun _ => ?_, fun hbusy => ?_⟩, by simp [pending, hs]⟩
    · cases hun
    · have hnext : (s.fill + 1) % 32 = s.fill + 1 := by omega
      rw [hnext]
      exact ⟨(show s.fill + 1 ≤ 15 by omega), rfl, hchannel, hdelayed⟩
    · rw [hs] at hbusy
      cases hbusy

/-- The byte the decoder is fed at this edge, if there is one. -/
def pushed (i : Input) (s : State) (d : TpiuDecoder) : TpiuDecoder × List MuxedByte :=
  if inputFire i s then TpiuDecoder.pushAt SYNC d i.inputData else (d, [])

/-- **One edge.** The decoder takes the byte the demultiplexer takes, and what it returns joins
what is still to be handed over. -/
theorem tracks_step {i : Input} (hi : Plain i) {s : State} {d : TpiuDecoder} (h : Tracks s d) :
    Tracks (step i s) (pushed i s d).1 ∧
      (handedOver i s).map muxedByte ++ pending (step i s) = pending s ++ (pushed i s d).2 := by
  rw [pushed]
  cases hs : s.emitting with
  | true =>
    have hnone : inputFire i s = false := by simp [inputFire, inputReady, hs]
    rw [hnone]
    obtain ⟨htracks, hout⟩ := tracks_emitting hi h hs
    exact ⟨htracks, hout.trans (List.append_nil _).symm⟩
  | false =>
    have hempty : pending s = [] := by simp [pending, hs]
    rw [handedOver_collecting i hs, hempty]
    cases hfire : inputFire i s with
    | false =>
      rw [step_waiting hi hs hfire, hempty]
      exact ⟨h, rfl⟩
    | true =>
      cases hsynced : d.synced with
      | false => exact tracks_search hi h hfire hsynced
      | true => exact tracks_collect hi h hfire hsynced

/-! ### Whole runs -/

/-- **A run under any schedule.** At every time the demultiplexer is where the decoder is that
was fed the accepted bytes, and the pairs handed over and still pending are what the decoder
has returned. -/
theorem tracks_run {s : State} {d : TpiuDecoder} (h : Tracks s d) (hstart : pending s = [])
    (inp : ℕ → Input) (hplain : ∀ t, Plain (inp t)) (t : ℕ) :
    Tracks ((run s inp).state t) (TpiuDecoder.feed SYNC d ((run s inp).record accepted t)).1 ∧
      ((run s inp).record handedOver t).map muxedByte ++ pending ((run s inp).state t) =
        (TpiuDecoder.feed SYNC d ((run s inp).record accepted t)).2 := by
  induction t with
  | zero => exact ⟨h, hstart⟩
  | succ t ih =>
    obtain ⟨htracks, hout⟩ := ih
    obtain ⟨hnext, hstep⟩ := tracks_step (hplain t) htracks
    have hfeed : TpiuDecoder.feed SYNC d ((run s inp).record accepted (t + 1)) =
        ((pushed (inp t) ((run s inp).state t)
            (TpiuDecoder.feed SYNC d ((run s inp).record accepted t)).1).1,
          (TpiuDecoder.feed SYNC d ((run s inp).record accepted t)).2 ++
            (pushed (inp t) ((run s inp).state t)
              (TpiuDecoder.feed SYNC d ((run s inp).record accepted t)).1).2) := by
      rw [Clocked.Run.record_succ]
      rw [pushed]
      change TpiuDecoder.feed SYNC d
        (_ ++ if inputFire (inp t) ((run s inp).state t) then _ else _) = _
      split
      · exact TpiuDecoder.feed_concat _ _ _ _
      · simp
    rw [hfeed, Clocked.Run.record_succ, List.map_append, List.append_assoc]
    refine ⟨hnext, ?_⟩
    rw [← hout, List.append_assoc]
    exact congrArg _ hstep

end TpiuDemux
