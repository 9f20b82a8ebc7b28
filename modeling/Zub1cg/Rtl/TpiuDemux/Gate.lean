import Zub1cg.Rtl.TpiuDemux.ResetSync
import Zub1cg.Rtl.TpiuDemux.Streams

/-!
# The plausibility gate of the M3's source

The M3 has one trace source, channel 1. While it is selected, an ID byte of any other channel
shows that the demultiplexer has locked onto something that is no sync packet: it drops what it
is doing and searches again. So no other channel is ever put out, nothing is put out before
channel 1 has been named, and after a drop nothing until a new sync packet and a whole frame
have come.

## Main definitions

- `TpiuDemux.processedId` — the ID byte that is worked through at an edge
- `Gated` — the channel registers of a gated demultiplexer
- `Relocking` — how far it has got since some number of bytes

## Main results

- `Gated.step`, `Relocking.step` — one edge
- `false_lock_gate` — whole runs
-/

namespace TpiuDemux

open Model (TpiuDecoder)

/-- An edge out of reset with the M3 as the source. -/
structure FromM3 (i : Input) : Prop where
  resetN : i.resetN = true
  m3Source : i.m3Source = true

/-- The channel of the ID byte that is processed at this edge, if one is. -/
def processedId (i : Input) (s : State) : Option (BitVec 7) :=
  if advance i s && isId s then some (unmangledId s) else none

section

variable {i : Input} {s : State}

/-- Neither a pulse of `reset_sync` nor an input byte touches the channel registers. -/
theorem inputUpdate_channels (i : Input) (s : State) :
    (inputUpdate i s (resetSyncUpdate i s s)).channel = s.channel ∧
      (inputUpdate i s (resetSyncUpdate i s s)).delayedChannel = s.delayedChannel ∧
      (inputUpdate i s (resetSyncUpdate i s s)).delayedValid = s.delayedValid := by
  rw [inputUpdate, resetSyncUpdate]
  split_ifs <;> exact ⟨rfl, rfl, rfl⟩

/-- What working through a position does to the channel registers. -/
theorem emitUpdate_channels (i : Input) (s n : State) :
    ((emitUpdate i s n).channel, (emitUpdate i s n).delayedChannel,
        (emitUpdate i s n).delayedValid) =
      if advance i s then
        if isId s then
          if i.m3Source && unmangledId s != M3_EXPECTED_CHANNEL then
            (n.channel, n.delayedChannel, n.delayedValid)
          else if (unmangled s).toBitVec.getLsbD 0 then (n.channel, unmangledId s, true)
          else (unmangledId s, n.delayedChannel, n.delayedValid)
        else if s.delayedValid then (s.delayedChannel, n.delayedChannel, false)
        else (n.channel, n.delayedChannel, n.delayedValid)
      else (n.channel, n.delayedChannel, n.delayedValid) := by
  rw [emitUpdate]
  cases isId s with
  | false =>
    rw [Bool.and_false, Bool.false_and]
    split_ifs <;> first | rfl | contradiction
  | true =>
    rw [Bool.and_true]
    split_ifs <;> first | rfl | contradiction

theorem processedId_eq_some {channel : BitVec 7} (h : processedId i s = some channel) :
    advance i s = true ∧ isId s = true ∧ unmangledId s = channel := by
  rw [processedId] at h
  split_ifs at h with hid
  rw [Bool.and_eq_true] at hid
  exact ⟨hid.1, hid.2, Option.some.inj h⟩

/-! ### The channel -/

/-- The channel is the null channel until channel 1 has been `named`, and then it is that one. -/
structure Gated (named : Prop) (s : State) : Prop where
  channel : s.channel = 0 ∨ named ∧ s.channel = 1
  delayed : s.delayedValid = true → named ∧ s.delayedChannel = 1

theorem Gated.output {named : Prop} (h : Gated named s) (hout : outputValid s = true) :
    named ∧ s.channel = 1 := by
  rw [outputValid, Bool.and_eq_true, bne_iff_ne] at hout
  exact h.channel.resolve_left hout.2

/-- **One edge.** Channel 1 is the only one that an ID byte can set. -/
theorem Gated.step {named : Prop} (h : Gated named s) (hi : FromM3 i) :
    Gated (named ∨ processedId i s = some 1) (TpiuDemux.step i s) := by
  obtain ⟨hchannel, hdelayedChannel, hdelayedValid⟩ := inputUpdate_channels i s
  have hkept : s.channel = 0 ∨ (named ∨ processedId i s = some 1) ∧ s.channel = 1 :=
    h.channel.imp_right fun hone => ⟨.inl hone.1, hone.2⟩
  have hwaiting : s.delayedValid = true →
      (named ∨ processedId i s = some 1) ∧ s.delayedChannel = 1 :=
    fun hvalid => ⟨.inl (h.delayed hvalid).1, (h.delayed hvalid).2⟩
  have hchannels := emitUpdate_channels i s (inputUpdate i s (resetSyncUpdate i s s))
  rw [hi.m3Source, Bool.true_and, hchannel, hdelayedChannel, hdelayedValid] at hchannels
  rw [TpiuDemux.step, hi.resetN, Bool.not_true, if_neg Bool.false_ne_true]
  generalize emitUpdate i s (inputUpdate i s (resetSyncUpdate i s s)) = n at hchannels
  cases hadvance : advance i s with
  | false =>
    rw [hadvance, if_neg Bool.false_ne_true, Prod.mk.injEq, Prod.mk.injEq] at hchannels
    obtain ⟨hc, hd, hv⟩ := hchannels
    exact ⟨hc ▸ hkept, hd ▸ hv ▸ hwaiting⟩
  | true =>
    rw [hadvance, if_pos rfl] at hchannels
    cases hid : isId s with
    | false =>
      -- a data byte: the delayed channel takes effect behind it
      rw [hid, if_neg Bool.false_ne_true] at hchannels
      split_ifs at hchannels with hvalid <;> rw [Prod.mk.injEq, Prod.mk.injEq] at hchannels <;>
        obtain ⟨hc, hd, hv⟩ := hchannels
      · exact ⟨.inr (hc ▸ hwaiting hvalid), fun h => absurd (hv ▸ h) Bool.false_ne_true⟩
      · exact ⟨hc ▸ hkept, hd ▸ hv ▸ hwaiting⟩
    | true =>
      rw [hid, if_pos rfl] at hchannels
      split_ifs at hchannels with hother hbit <;> rw [Prod.mk.injEq, Prod.mk.injEq] at hchannels <;>
        obtain ⟨hc, hd, hv⟩ := hchannels
      · exact ⟨hc ▸ hkept, hd ▸ hv ▸ hwaiting⟩
      all_goals
        have hone : unmangledId s = 1 := by
          rwa [bne_iff_ne, not_not] at hother
        have hnamed : processedId i s = some 1 := by
          rw [processedId, hadvance, hid, hone]
          rfl
      · exact ⟨hc ▸ hkept, fun _ => ⟨.inr hnamed, hd.trans hone⟩⟩
      · exact ⟨.inr ⟨.inr hnamed, hc.trans hone⟩, hd ▸ hv ▸ hwaiting⟩

/-! ### A new lock -/

/-- `bytes` end with a sync packet, the last byte of which is not among the first `old`, and
`count` more bytes. -/
def SyncedBehind (old count : ℕ) (bytes : List UInt8) : Prop :=
  ∃ front back, bytes = front ++ fullSync ++ back ∧ old < (front ++ fullSync).length ∧
    count ≤ back.length

theorem SyncedBehind.concat {old count : ℕ} {bytes : List UInt8}
    (h : SyncedBehind old count bytes) (byte : UInt8) :
    SyncedBehind old (count + 1) (bytes ++ [byte]) := by
  obtain ⟨front, back, rfl, hold, hcount⟩ := h
  refine ⟨front, back ++ [byte], List.append_assoc _ _ _, hold, ?_⟩
  rw [List.length_append, List.length_singleton]
  omega

theorem SyncedBehind.mono {old count count' : ℕ} {bytes : List UInt8}
    (h : SyncedBehind old count bytes) (hle : count' ≤ count) : SyncedBehind old count' bytes := by
  obtain ⟨front, back, heq, hold, hcount⟩ := h
  exact ⟨front, back, heq, hold, hle.trans hcount⟩

/-- A demultiplexer that has accepted `bytes` and has not been locked since it had accepted
`old` of them, unless with a sync packet that has been completed since. -/
structure Relocking (old : ℕ) (bytes : List UInt8) (s : State) : Prop where
  window : searchWindow s = TpiuDecoder.window bytes
  later : old ≤ bytes.length
  synced : s.synced = true → s.fill ≤ 15 ∧ SyncedBehind old s.fill bytes
  emitting : s.emitting = true → SyncedBehind old 16 bytes

/-- A sync packet has been completed. -/
theorem window_fullSync {bytes : List UInt8} (h : TpiuDecoder.window bytes = SYNC) :
    fullSync <:+ bytes := by
  rw [TpiuDecoder.window_eq_iff (by decide)] at h
  exact h

/-- Working through a position locks nothing and starts no frame. -/
theorem emitUpdate_search (i : Input) (s n : State) :
    (emitUpdate i s n).syncWindow = n.syncWindow ∧
      ((emitUpdate i s n).synced = true → n.synced = true ∧ (emitUpdate i s n).fill = n.fill) ∧
      ((emitUpdate i s n).emitting = true → n.emitting = true) := by
  rw [emitUpdate]
  split_ifs <;>
    exact ⟨rfl, fun h => by first | exact ⟨h, rfl⟩ | contradiction,
      fun h => by first | exact h | contradiction⟩

/-- Nor does a pulse of `reset_sync`. -/
theorem resetSyncUpdate_search (i : Input) (s : State) :
    (resetSyncUpdate i s s).syncWindow = s.syncWindow ∧
      ((resetSyncUpdate i s s).synced = true →
        s.synced = true ∧ (resetSyncUpdate i s s).fill = s.fill) ∧
      ((resetSyncUpdate i s s).emitting = true → s.emitting = true) := by
  rw [resetSyncUpdate_eq]
  cases i.resetSync with
  | true =>
    exact ⟨rfl, fun h => absurd h Bool.false_ne_true, fun h => absurd h Bool.false_ne_true⟩
  | false => exact ⟨rfl, fun h => ⟨h, rfl⟩, id⟩

/-- An edge at which no byte is accepted. -/
theorem Relocking.idle {old : ℕ} {bytes : List UInt8} (h : Relocking old bytes s) (hi : FromM3 i)
    (hfire : inputFire i s = false) : Relocking old bytes (TpiuDemux.step i s) := by
  obtain ⟨hwindow, hsynced, hemitting⟩ := resetSyncUpdate_search i s
  obtain ⟨hwindow', hsynced', hemitting'⟩ := emitUpdate_search i s (resetSyncUpdate i s s)
  rw [TpiuDemux.step, hi.resetN, Bool.not_true, if_neg Bool.false_ne_true, inputUpdate,
    ← inputFire, hfire, if_neg Bool.false_ne_true]
  refine ⟨?_, h.later, fun hlock => ?_, fun hbusy => h.emitting (hemitting (hemitting' hbusy))⟩
  · rw [searchWindow, hwindow', hwindow]
    exact h.window
  · obtain ⟨hlock', hfill'⟩ := hsynced' hlock
    obtain ⟨hlocked, hfill⟩ := hsynced hlock'
    rw [hfill', hfill]
    exact h.synced hlocked

/-- An edge at which a byte is accepted: it may end the sync packet that locks, and in a lock it
may be the sixteenth of a frame. -/
theorem Relocking.accepts {old : ℕ} {bytes : List UInt8} (h : Relocking old bytes s)
    (hi : FromM3 i) (hfire : inputFire i s = true) :
    Relocking old (bytes ++ [i.inputData]) (TpiuDemux.step i s) := by
  have hidle : s.emitting = false := by
    rw [inputFire, inputReady, Bool.and_eq_true, Bool.not_eq_true'] at hfire
    exact hfire.2
  obtain ⟨-, hstill⟩ := resetSync_kept i hidle
  have hquiet : (resetSyncUpdate i s s).emitting ≠ true := hstill ▸ Bool.false_ne_true
  have hlater : old ≤ (bytes ++ [i.inputData]).length := by
    rw [List.length_append]
    exact h.later.trans (Nat.le_add_right _ _)
  have hshifted : TpiuDecoder.window (bytes ++ [i.inputData]) =
      TpiuDecoder.shiftIn (searchWindow s) i.inputData := by
    rw [h.window, TpiuDecoder.window, TpiuDecoder.window, List.foldl_append]
    rfl
  have hnext (n : State) (hn : n.syncWindow = nextWindow i s) :
      searchWindow n = TpiuDecoder.window (bytes ++ [i.inputData]) :=
    (searchWindow_next n hn).trans hshifted.symm
  rw [TpiuDemux.step, hi.resetN, Bool.not_true, if_neg Bool.false_ne_true,
    advance_of_not_emitting hidle, inputUpdate, ← inputFire, hfire, if_pos rfl]
  cases hlock : s.synced with
  | false =>
    have hunlocked : (resetSyncUpdate i s s).synced ≠ true := by
      intro hno
      rw [((resetSyncUpdate_search i s).2.1 hno).1] at hlock
      contradiction
    rw [Bool.not_false, if_pos rfl]
    split_ifs with hmatch
    · -- the last byte of a sync packet
      rw [next_matches, ← hshifted] at hmatch
      obtain ⟨front, hfront⟩ := window_fullSync hmatch
      refine ⟨hnext _ rfl, hlater, fun _ => ⟨Nat.zero_le _, front, [], ?_, ?_, Nat.le_refl 0⟩,
        fun hbusy => absurd hbusy hquiet⟩
      · rw [List.append_nil, hfront]
      · rw [hfront, List.length_append, List.length_singleton]
        exact Nat.lt_succ_of_le h.later
    · exact ⟨hnext _ rfl, hlater, fun hno => absurd hno hunlocked,
        fun hbusy => absurd hbusy hquiet⟩
  | true =>
    obtain ⟨hshort, hbehind⟩ := h.synced hlock
    have hmore := hbehind.concat i.inputData
    rw [Bool.not_true, if_neg Bool.false_ne_true]
    split_ifs with hfull
    · refine ⟨hnext _ rfl, hlater, fun _ => ⟨Nat.zero_le _, hmore.mono (Nat.zero_le _)⟩,
        fun _ => ?_⟩
      rwa [hfull] at hmore
    · have hfill : (s.fill + 1) % 32 = s.fill + 1 := Nat.mod_eq_of_lt (by omega)
      refine ⟨hnext _ rfl, hlater, fun _ => ⟨?_, ?_⟩, fun hbusy => absurd hbusy hquiet⟩
      · change (s.fill + 1) % 32 ≤ 15
        omega
      · change SyncedBehind old ((s.fill + 1) % 32) _
        rw [hfill]
        exact hmore

/-- **One edge.** -/
theorem Relocking.step {old : ℕ} {bytes : List UInt8} (h : Relocking old bytes s)
    (hi : FromM3 i) : Relocking old (bytes ++ accepted i s) (TpiuDemux.step i s) := by
  rw [accepted]
  cases hfire : inputFire i s with
  | false =>
    rw [if_neg Bool.false_ne_true, List.append_nil]
    exact h.idle hi hfire
  | true =>
    rw [if_pos rfl]
    exact h.accepts hi hfire

/-- An ID byte of another channel: the lock is given up and counted as lost, once, whatever
`reset_sync` does at the same edge. -/
theorem step_other (hi : FromM3 i) {channel : BitVec 7} (hid : processedId i s = some channel)
    (hother : channel ≠ 1) :
    accepted i s = [] ∧ (step i s).syncWindow = s.syncWindow ∧ (step i s).synced = false ∧
      (step i s).emitting = false ∧ (step i s).syncLossCount = s.syncLossCount + 1 := by
  obtain ⟨hadvance, hisId, rfl⟩ := processedId_eq_some hid
  have hbusy : s.emitting = true := by
    rw [advance, Bool.and_eq_true] at hadvance
    exact hadvance.1
  have hfire : inputFire i s = false := by
    rw [inputFire, inputReady, hbusy, Bool.not_true, Bool.and_false]
  have hdrop : (unmangledId s != M3_EXPECTED_CHANNEL) = true := bne_iff_ne.mpr hother
  rw [step, hi.resetN, Bool.not_true, if_neg Bool.false_ne_true, accepted, inputUpdate,
    ← inputFire, hfire, if_neg Bool.false_ne_true, if_neg Bool.false_ne_true, emitUpdate,
    hadvance, if_pos rfl, hi.m3Source, hisId, hdrop, if_pos rfl]
  exact ⟨rfl, (resetSyncUpdate_search i s).1, rfl, rfl, rfl⟩

theorem Relocking.dropped {old : ℕ} {bytes : List UInt8} (h : Relocking old bytes s)
    (hi : FromM3 i) {channel : BitVec 7} (hid : processedId i s = some channel)
    (hother : channel ≠ 1) : Relocking bytes.length bytes (TpiuDemux.step i s) := by
  obtain ⟨-, hwindow, hsynced, hemitting, -⟩ := step_other hi hid hother
  refine ⟨?_, Nat.le_refl _, fun hno => ?_, fun hno => ?_⟩
  · rw [searchWindow, hwindow]
    exact h.window
  · rw [hsynced] at hno
    contradiction
  · rw [hemitting] at hno
    contradiction

end

/-! ### Whole runs -/

section

variable (s₀ : State) {inp : ℕ → Input} (hinp : ∀ t, FromM3 (inp t))

include hinp

theorem run_gated (t : ℕ) :
    Gated (∃ u < t, processedId (inp u) ((run (resetState s₀) inp).state u) = some 1)
      ((run (resetState s₀) inp).state t) := by
  induction t with
  | zero =>
    exact ⟨.inl rfl, fun hno => absurd hno Bool.false_ne_true⟩
  | succ t ih =>
    have hstep := ih.step (hinp t)
    have hnamed : (∃ u < t, processedId (inp u) ((run (resetState s₀) inp).state u) = some 1) ∨
        processedId (inp t) ((run (resetState s₀) inp).state t) = some 1 →
        ∃ u < t + 1, processedId (inp u) ((run (resetState s₀) inp).state u) = some 1 := by
      rintro (⟨u, hu, hone⟩ | hone)
      · exact ⟨u, Nat.lt_succ_of_lt hu, hone⟩
      · exact ⟨t, Nat.lt_succ_self t, hone⟩
    exact ⟨hstep.channel.imp_right fun h => ⟨hnamed h.1, h.2⟩,
      fun hvalid => ⟨hnamed (hstep.delayed hvalid).1, (hstep.delayed hvalid).2⟩⟩

theorem run_relocking (t : ℕ) :
    Relocking 0 ((run (resetState s₀) inp).record accepted t)
      ((run (resetState s₀) inp).state t) := by
  induction t with
  | zero =>
    exact ⟨rfl, Nat.le_refl 0, fun hno => absurd hno Bool.false_ne_true,
      fun hno => absurd hno Bool.false_ne_true⟩
  | succ t ih => exact ih.step (hinp t)

/-- From a drop on, nothing but a new sync packet locks the demultiplexer. -/
theorem run_dropped {t : ℕ} {channel : BitVec 7}
    (hid : processedId (inp t) ((run (resetState s₀) inp).state t) = some channel)
    (hother : channel ≠ 1) (n : ℕ) :
    Relocking ((run (resetState s₀) inp).record accepted t).length
      ((run (resetState s₀) inp).record accepted (t + 1 + n))
      ((run (resetState s₀) inp).state (t + 1 + n)) := by
  induction n with
  | zero =>
    have hdropped := (run_relocking s₀ hinp t).dropped (hinp t) hid hother
    have hnone := (step_other (hinp t) hid hother).1
    rw [Nat.add_zero, Clocked.Run.record_succ]
    change Relocking _ (_ ++ accepted (inp t) ((run (resetState s₀) inp).state t)) _
    rw [hnone, List.append_nil]
    exact hdropped
  | succ n ih => exact ih.step (hinp (t + 1 + n))

/-- **The false-lock gate of the M3's source.** From reset on, for every stream of bytes and every
schedule of the two handshakes and of `reset_sync`: whatever is put out is on channel 1, and an ID
byte of channel 1 has been processed before. An ID byte of any other channel is counted as one
lost lock, and nothing is put out behind it until a sync packet, the last byte of which has come
after it, and 16 more bytes have been accepted. -/
theorem false_lock_gate (t : ℕ) :
    (outputValid ((run (resetState s₀) inp).state t) = true →
      ((run (resetState s₀) inp).state t).channel = 1 ∧
        ∃ u < t, processedId (inp u) ((run (resetState s₀) inp).state u) = some 1) ∧
    ∀ channel, processedId (inp t) ((run (resetState s₀) inp).state t) = some channel →
      channel ≠ 1 →
      ((run (resetState s₀) inp).state (t + 1)).syncLossCount =
          ((run (resetState s₀) inp).state t).syncLossCount + 1 ∧
        ∀ u, t < u → outputValid ((run (resetState s₀) inp).state u) = true →
          ∃ front back, (run (resetState s₀) inp).record accepted u =
              front ++ [0xff, 0xff, 0xff, 0x7f] ++ back ∧
            ((run (resetState s₀) inp).record accepted (t + 1)).length <
              (front ++ [0xff, 0xff, 0xff, 0x7f]).length ∧
            16 ≤ back.length := by
  refine ⟨fun hout => ((run_gated s₀ hinp t).output hout).symm, fun channel hid hother => ?_⟩
  obtain ⟨hnone, -, -, -, hcount⟩ := step_other (hinp t) hid hother
  refine ⟨hcount, fun u hu hout => ?_⟩
  obtain ⟨n, rfl⟩ := Nat.exists_eq_add_of_le hu
  have hbusy : ((run (resetState s₀) inp).state (t + 1 + n)).emitting = true := by
    rw [outputValid, Bool.and_eq_true, Bool.and_eq_true] at hout
    exact hout.1.1
  have hold : (run (resetState s₀) inp).record accepted (t + 1) =
      (run (resetState s₀) inp).record accepted t := by
    rw [Clocked.Run.record_succ]
    change _ ++ accepted (inp t) ((run (resetState s₀) inp).state t) = _
    rw [hnone, List.append_nil]
  rw [hold]
  exact (run_dropped s₀ hinp hid hother n).emitting hbusy

end

/-- A stream with the M3 as the source. -/
def offerM3 (bytes : List UInt8) (t : ℕ) : Input := { offer bytes t with m3Source := true }

/-- A sync packet and a frame whose first byte names channel 2. -/
theorem false_lock_gate_channel_two :
    processedId (offerM3 (fullSync ++ channelTwoFrame) 20)
        ((run (resetState initial) (offerM3 (fullSync ++ channelTwoFrame))).state 20) = some 2 ∧
      ((run (resetState initial) (offerM3 (fullSync ++ channelTwoFrame))).state 21).syncLossCount =
        ((run (resetState initial) (offerM3 (fullSync ++ channelTwoFrame))).state
          20).syncLossCount + 1 := by
  have hid : processedId (offerM3 (fullSync ++ channelTwoFrame) 20)
      ((run (resetState initial) (offerM3 (fullSync ++ channelTwoFrame))).state 20) = some 2 := by
    decide +kernel
  exact ⟨hid, ((false_lock_gate initial (fun _ => ⟨rfl, rfl⟩) 20).2 2 hid (by decide)).1⟩

end TpiuDemux
