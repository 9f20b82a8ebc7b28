import Zub1cg.Rtl.TpiuDemux.Streams
import Zub1cg.Model.Tpiu.Resync

/-!
# What a `reset_sync` pulse leaves behind

The pulse takes the lock and the frame away, not the window of the sync search, the channel and
the delayed channel. The assignments behind it in the same clocked block override it: a byte
that completes a frame in the cycle of the pulse starts its output, and a byte that completes a
sync packet locks.

## Main definitions

- `Alike`, `Blank` — demultiplexers that hand over the same, and one that remembers nothing
- `Clean` — a pulse after which nothing is remembered

## Main results

- `alike_step`, `alike_run` — one edge, and a whole run on any inputs
- `reset_sync_forgets` — a pulse makes the past invisible exactly if it is `Clean`
-/

namespace TpiuDemux

open Model (MuxedByte TpiuDecoder)
open Model.TpiuDecoder (Unmatched shifted shiftIn)

/-! ### Two demultiplexers -/

/-- The window of the sync search as the decoder's. -/
def searchWindow (s : State) : UInt32 := UInt32.ofBitVec s.syncWindow

/-- The two demultiplexers hand over the same from now on. Of the frame memory only the bytes
that will be read count. -/
structure Alike (s s' : State) : Prop where
  synced : s.synced = s'.synced
  window : ∀ bytes ≠ [],
    shifted (searchWindow s) bytes = SYNC ↔ shifted (searchWindow s') bytes = SYNC
  fill : s.synced = true → s.fill = s'.fill ∧ s.fill ≤ 15 ∧ ∀ k < s.fill, s.frame k = s'.frame k
  emitting : s.emitting = s'.emitting
  emit : s.emitting = true → s.emit = s'.emit ∧ s.emit ≤ 14 ∧ ∀ k ≤ 15, s.frame k = s'.frame k
  channel : s.channel = s'.channel
  delayedValid : s.delayedValid = s'.delayedValid
  delayedChannel : s.delayedValid = true → s.delayedChannel = s'.delayedChannel

section

variable {i : Input} {s s' : State}

/-- The wires of two demultiplexers that work through a frame. -/
theorem Alike.wires (h : Alike s s') (hs : s.emitting = true) :
    unmangled s = unmangled s' ∧ isId s = isId s' ∧ advance i s = advance i s' := by
  obtain ⟨hemit, hbound, hframe⟩ := h.emit hs
  have hbyte := hframe s.emit (by omega)
  have hid : isId s = isId s' := by rw [isId, isId, ← hemit, hbyte]
  refine ⟨?_, hid, ?_⟩
  · rw [unmangled, unmangled, ← hemit, hbyte, hframe 15 (Nat.le_refl _)]
  · rw [advance, advance, hid, h.emitting, h.channel]

theorem Alike.handedOver (h : Alike s s') (i : Input) : handedOver i s = handedOver i s' := by
  cases hs : s.emitting with
  | false =>
    rw [handedOver_collecting i hs, handedOver_collecting i (h.emitting.symm.trans hs)]
  | true =>
    obtain ⟨hdata, hid, -⟩ := h.wires (i := i) hs
    rw [TpiuDemux.handedOver, TpiuDemux.handedOver, outputValid, outputValid, hdata, hid,
      h.emitting, h.channel]

theorem resetSyncUpdate_eq (i : Input) (s : State) : resetSyncUpdate i s s =
    if i.resetSync then
      { s with
        syncLossCount := if s.synced then s.syncLossCount + 1 else s.syncLossCount
        synced := false, fill := 0, emitting := false }
    else s := by
  rw [resetSyncUpdate]
  cases s.synced <;> rfl

/-- The pulse itself. -/
theorem Alike.resetSync (h : Alike s s') (i : Input) :
    Alike (resetSyncUpdate i s s) (resetSyncUpdate i s' s') := by
  rw [resetSyncUpdate_eq, resetSyncUpdate_eq]
  cases hpulse : i.resetSync with
  | false => exact h
  | true =>
    exact ⟨rfl, h.window, fun hno => absurd hno Bool.false_ne_true, rfl,
      fun hno => absurd hno Bool.false_ne_true, h.channel, h.delayedValid, h.delayedChannel⟩

theorem resetSync_kept (i : Input) (hs : s.emitting = false) :
    (resetSyncUpdate i s s).frame = s.frame ∧ (resetSyncUpdate i s s).emitting = false := by
  rw [resetSyncUpdate_eq]
  split
  · exact ⟨rfl, rfl⟩
  · exact ⟨rfl, hs⟩

theorem searchWindow_next (n : State) (hn : n.syncWindow = nextWindow i s) :
    searchWindow n = shiftIn (searchWindow s) i.inputData := by
  apply UInt32.toBitVec_inj.mp
  rw [TpiuDecoder.shiftIn_toBitVec]
  exact hn

theorem next_matches : nextWindow i s = 0x7fffffff ↔
    shiftIn (searchWindow s) i.inputData = SYNC := by
  rw [← searchWindow_next { s with syncWindow := nextWindow i s } rfl, ← UInt32.toBitVec_inj]
  rfl

/-- A sync packet ends with `7F`. -/
theorem last_of_match (hmatch : nextWindow i s = 0x7fffffff) : i.inputData = 0x7f := by
  have hwindow := (searchWindow s).toNat_lt
  have htop := congrArg UInt32.toNat (next_matches.mp hmatch)
  rw [TpiuDecoder.shiftIn_toNat, show SYNC.toNat = 0x7fffffff from rfl] at htop
  apply UInt8.toNat_inj.mp
  change i.inputData.toNat = 127
  omega

/-- The input byte of an edge at which no frame is worked through. -/
theorem Alike.input (h : Alike s s') (i : Input) (hs : s.emitting = false) :
    Alike (inputUpdate i s (resetSyncUpdate i s s))
      (inputUpdate i s' (resetSyncUpdate i s' s')) := by
  have hs' := h.emitting.symm.trans hs
  have hpulse := h.resetSync i
  obtain ⟨hframe, hidle⟩ := resetSync_kept i hs
  obtain ⟨hframe', -⟩ := resetSync_kept i hs'
  have hready : inputReady s = true ∧ inputReady s' = true := by
    simp [inputReady, hs, hs']
  have hwindow (n n' : State) (hn : n.syncWindow = nextWindow i s)
      (hn' : n'.syncWindow = nextWindow i s') (bytes : List UInt8) (_ : bytes ≠ []) :
      shifted (searchWindow n) bytes = SYNC ↔ shifted (searchWindow n') bytes = SYNC := by
    rw [searchWindow_next n hn, searchWindow_next n' hn']
    exact h.window (i.inputData :: bytes) (List.cons_ne_nil _ _)
  have hlock : nextWindow i s = 0x7fffffff ↔ nextWindow i s' = 0x7fffffff := by
    rw [next_matches, next_matches]
    exact h.window [i.inputData] (List.cons_ne_nil _ _)
  rw [inputUpdate, inputUpdate, hready.1, hready.2, Bool.and_true]
  cases i.inputValid with
  | false => exact hpulse
  | true =>
    rw [if_pos rfl, if_pos rfl, ← h.synced]
    cases hsynced : s.synced with
    | false =>
      rw [Bool.not_false, if_pos rfl, if_pos rfl]
      by_cases hmatch : nextWindow i s = 0x7fffffff
      · rw [if_pos hmatch, if_pos (hlock.mp hmatch)]
        exact ⟨rfl, hwindow _ _ rfl rfl,
          fun _ => ⟨rfl, Nat.zero_le _, fun k hk => absurd hk (Nat.not_lt_zero k)⟩,
          hpulse.emitting, hpulse.emit, hpulse.channel, hpulse.delayedValid, hpulse.delayedChannel⟩
      · rw [if_neg hmatch, if_neg fun h' => hmatch (hlock.mpr h')]
        exact ⟨hpulse.synced, hwindow _ _ rfl rfl, hpulse.fill, hpulse.emitting, hpulse.emit,
          hpulse.channel, hpulse.delayedValid, hpulse.delayedChannel⟩
    | true =>
      obtain ⟨hfill, hbound, hbytes⟩ := h.fill hsynced
      -- the byte joins the ones that are already there
      have hupdate (k : ℕ) (hk : k ≤ s.fill) :
          Function.update (resetSyncUpdate i s s).frame s.fill i.inputData k =
            Function.update (resetSyncUpdate i s' s').frame s.fill i.inputData k := by
        rw [hframe, hframe']
        by_cases hlast : k = s.fill
        · rw [hlast, Function.update_self, Function.update_self]
        · rw [Function.update_of_ne hlast, Function.update_of_ne hlast]
          exact hbytes k (by omega)
      rw [Bool.not_true, if_neg Bool.false_ne_true, if_neg Bool.false_ne_true, ← hfill]
      by_cases hfull : s.fill = 15
      · rw [if_pos hfull, if_pos hfull]
        exact ⟨hpulse.synced, hwindow _ _ rfl rfl,
          fun _ => ⟨rfl, Nat.zero_le _, fun k hk => absurd hk (Nat.not_lt_zero k)⟩, rfl,
          fun _ => ⟨rfl, Nat.zero_le _, fun k hk => hupdate k (hfull ▸ hk)⟩, hpulse.channel,
          hpulse.delayedValid, hpulse.delayedChannel⟩
      · rw [if_neg hfull, if_neg hfull]
        refine ⟨hpulse.synced, hwindow _ _ rfl rfl, fun _ => ⟨rfl, ?_, fun k hk => hupdate k ?_⟩,
          hpulse.emitting, fun hbusy => absurd (hidle.symm.trans hbusy) Bool.false_ne_true,
          hpulse.channel, hpulse.delayedValid, hpulse.delayedChannel⟩
        · show (s.fill + 1) % 32 ≤ 15
          omega
        · change k < (s.fill + 1) % 32 at hk
          omega

/-- One position of a frame. -/
theorem Alike.position (h : Alike s s') (i : Input) (hs : s.emitting = true) {n n' : State}
    (hn : Alike n n') : Alike (emitUpdate i s n) (emitUpdate i s' n') := by
  obtain ⟨hdata, hid, hadvance⟩ := h.wires (i := i) hs
  obtain ⟨hemit, hbound, -⟩ := h.emit hs
  have hidle : ∀ {p : Prop}, false = true → p := fun hno => absurd hno Bool.false_ne_true
  have hvalue : unmangledId s = unmangledId s' := by rw [unmangledId, unmangledId, hdata]
  rw [emitUpdate, emitUpdate, ← hadvance, ← hid, ← hvalue, ← hdata, ← hemit, ← h.delayedValid]
  cases hgo : advance i s with
  | false => exact hn
  | true =>
    rw [if_pos rfl, if_pos rfl]
    split
    · exact ⟨rfl, hn.window, hidle, rfl, hidle, hn.channel, hn.delayedValid, hn.delayedChannel⟩
    · have hlater (m m' : State) (hm : Alike m m') :
          Alike (if s.emit = 14 then { m with emitting := false }
              else { m with emit := (s.emit + 1) % 32 })
            (if s.emit = 14 then { m' with emitting := false }
              else { m' with emit := (s.emit + 1) % 32 }) := by
        by_cases hlast : s.emit = 14
        · rw [if_pos hlast, if_pos hlast]
          exact ⟨hm.synced, hm.window, hm.fill, rfl, hidle, hm.channel, hm.delayedValid,
            hm.delayedChannel⟩
        · rw [if_neg hlast, if_neg hlast]
          refine ⟨hm.synced, hm.window, hm.fill, hm.emitting,
            fun hbusy => ⟨rfl, ?_, (hm.emit hbusy).2.2⟩, hm.channel, hm.delayedValid,
            hm.delayedChannel⟩
          show (s.emit + 1) % 32 ≤ 14
          omega
      refine hlater _ _ ?_
      cases isId s with
      | true =>
        rw [if_pos rfl, if_pos rfl]
        split
        · exact ⟨hn.synced, hn.window, hn.fill, hn.emitting, hn.emit, hn.channel, rfl,
            fun _ => rfl⟩
        · exact ⟨hn.synced, hn.window, hn.fill, hn.emitting, hn.emit, rfl, hn.delayedValid,
            hn.delayedChannel⟩
      | false =>
        rw [if_neg Bool.false_ne_true, if_neg Bool.false_ne_true]
        cases hkept : s.delayedValid with
        | true =>
          exact ⟨hn.synced, hn.window, hn.fill, hn.emitting, hn.emit, h.delayedChannel hkept, rfl,
            hidle⟩
        | false => exact hn

theorem advance_of_not_emitting (hs : s.emitting = false) (i : Input) (n : State) :
    emitUpdate i s n = n := by
  rw [emitUpdate, advance, hs, Bool.false_and, if_neg Bool.false_ne_true]

/-- **One edge on any inputs.** -/
theorem alike_step (h : Alike s s') (i : Input) : Alike (step i s) (step i s') := by
  rw [step, step]
  cases i.resetN with
  | false =>
    exact ⟨rfl, fun _ _ => Iff.rfl, fun hno => absurd hno Bool.false_ne_true, rfl,
      fun hno => absurd hno Bool.false_ne_true, rfl, rfl, fun hno => absurd hno Bool.false_ne_true⟩
  | true =>
    rw [Bool.not_true, if_neg Bool.false_ne_true, if_neg Bool.false_ne_true]
    cases hs : s.emitting with
    | false =>
      rw [advance_of_not_emitting hs, advance_of_not_emitting (h.emitting.symm.trans hs)]
      exact h.input i hs
    | true =>
      have hno (x n : State) (hx : x.emitting = true) : inputUpdate i x n = n := by
        simp [inputUpdate, inputReady, hx]
      rw [hno s _ hs, hno s' _ (h.emitting.symm.trans hs)]
      exact h.position i hs (h.resetSync i)

/-- **A whole run on any inputs.** -/
theorem alike_run (h : Alike s s') (inp : ℕ → Input) (t : ℕ) :
    Alike ((run s inp).state t) ((run s' inp).state t) ∧
      (run s inp).record handedOver t = (run s' inp).record handedOver t :=
  have hstep (t : ℕ) (s s' : State) (h : Alike s s') : Alike (step (inp t) s) (step (inp t) s') :=
    alike_step h (inp t)
  ⟨Clocked.Run.relation _ _ h hstep t,
    Clocked.Run.record_relation _ _ h hstep (fun t _ _ hnow => hnow.handedOver (inp t)) t⟩

end

/-! ### A demultiplexer that remembers nothing -/

/-- A demultiplexer that searches and remembers nothing. -/
structure Blank (s : State) : Prop where
  synced : s.synced = false
  emitting : s.emitting = false
  window : Unmatched SYNC (searchWindow s)
  channel : s.channel = 0
  delayed : s.delayedValid = false

theorem Blank.alike {s s' : State} (h : Blank s) (h' : Blank s') : Alike s s' where
  synced := h.synced.trans h'.synced.symm
  window bytes hpos := by
    obtain hshort | hlong := Nat.lt_or_ge bytes.length 4
    · exact iff_of_false (h.window.not_completed hpos (by omega))
        (h'.window.not_completed hpos (by omega))
    · rw [TpiuDecoder.shifted_four (searchWindow s) (searchWindow s') hlong]
  fill hno := absurd (h.synced.symm.trans hno) Bool.false_ne_true
  emitting := h.emitting.trans h'.emitting.symm
  emit hno := absurd (h.emitting.symm.trans hno) Bool.false_ne_true
  channel := h.channel.trans h'.channel.symm
  delayedValid := h.delayed.trans h'.delayed.symm
  delayedChannel hno := absurd (h.delayed.symm.trans hno) Bool.false_ne_true

/-- Only a last byte `FF` can be the beginning of a sync packet. -/
theorem unmatched_iff (w : UInt32) : Unmatched SYNC w ↔ w.toNat / 2 ^ 24 ≠ 255 := by
  have hw := w.toNat_lt
  have hsync : SYNC.toNat = 0x7fffffff := rfl
  constructor
  · intro h hlast
    exact h 3 (by decide) (by decide) (by rw [hsync]; omega)
  · intro hlast k hpos hthree
    rw [hsync]
    interval_cases k <;> omega

/-! ### The cycle of the pulse -/

/-- The last byte taken by the end of the cycle. -/
def lastByte (i : Input) (s : State) : UInt8 :=
  if inputFire i s then i.inputData else UInt8.ofBitVec (s.syncWindow.extractLsb' 24 8)

/-- A position of the frame is finished in the cycle, and its identifier is not rejected. -/
def finishes (i : Input) (s : State) : Bool :=
  advance i s && !(i.m3Source && isId s && unmangledId s != M3_EXPECTED_CHANNEL)

/-- The channel at the end of the cycle. -/
def keptChannel (i : Input) (s : State) : BitVec 7 :=
  if finishes i s then
    if isId s then if (unmangled s).toBitVec.getLsbD 0 then s.channel else unmangledId s
    else if s.delayedValid then s.delayedChannel else s.channel
  else s.channel

/-- A delayed channel is left at the end of the cycle. -/
def keptDelayed (i : Input) (s : State) : Bool :=
  if finishes i s then isId s && ((unmangled s).toBitVec.getLsbD 0 || s.delayedValid)
  else s.delayedValid

/-- The cycle completes neither a frame nor a sync packet, its end is not the beginning of one,
and no channel is left. -/
structure Clean (i : Input) (s : State) : Prop where
  frame : ¬ (inputFire i s = true ∧ s.synced = true ∧ s.fill = 15)
  lock : ¬ (inputFire i s = true ∧ s.synced = false ∧ nextWindow i s = 0x7fffffff)
  last : lastByte i s ≠ 0xff
  channel : keptChannel i s = 0
  delayed : keptDelayed i s = false

/-- A cycle with `reset_sync`, out of reset. -/
structure Pulse (i : Input) : Prop where
  resetN : i.resetN = true
  resetSync : i.resetSync = true

section

variable {i : Input} {s : State}

/-- What the pulse itself assigns. -/
def pulsed (s : State) : State :=
  { s with
    syncLossCount := if s.synced then s.syncLossCount + 1 else s.syncLossCount
    synced := false, fill := 0, emitting := false }

theorem step_pulse (hi : Pulse i) :
    step i s = if s.emitting then emitUpdate i s (pulsed s) else inputUpdate i s (pulsed s) := by
  rw [step, hi.resetN, Bool.not_true, if_neg Bool.false_ne_true, resetSyncUpdate_eq,
    hi.resetSync, if_pos rfl]
  cases hs : s.emitting with
  | false => exact advance_of_not_emitting hs i _
  | true =>
    rw [if_pos rfl]
    congr 1
    simp [inputUpdate, inputReady, hs, pulsed]

theorem blank_of_fields {n : State}
    (hlock : n.synced = true ↔
      inputFire i s = true ∧ s.synced = false ∧ nextWindow i s = 0x7fffffff)
    (hframe : n.emitting = true ↔ inputFire i s = true ∧ s.synced = true ∧ s.fill = 15)
    (hlast : (searchWindow n).toNat / 2 ^ 24 = (lastByte i s).toNat)
    (hchannel : n.channel = keptChannel i s) (hdelayed : n.delayedValid = keptDelayed i s) :
    Blank n ↔ Clean i s := by
  have hwindow : Unmatched SYNC (searchWindow n) ↔ lastByte i s ≠ 0xff := by
    rw [unmatched_iff, hlast, ne_eq, ne_eq, ← UInt8.toNat_inj]
    rfl
  constructor
  · intro h
    refine ⟨fun hno => ?_, fun hno => ?_, hwindow.mp h.window, hchannel.symm.trans h.channel,
      hdelayed.symm.trans h.delayed⟩
    · exact absurd (h.emitting.symm.trans (hframe.mpr hno)) Bool.false_ne_true
    · exact absurd (h.synced.symm.trans (hlock.mpr hno)) Bool.false_ne_true
  · intro h
    exact ⟨Bool.eq_false_iff.mpr fun hyes => h.lock (hlock.mp hyes),
      Bool.eq_false_iff.mpr fun hyes => h.frame (hframe.mp hyes), hwindow.mpr h.last,
      hchannel.trans h.channel, hdelayed.trans h.delayed⟩

/-- A pulse while a frame is worked through. -/
theorem pulse_emitting (i : Input) (s : State) :
    (emitUpdate i s (pulsed s)).synced = false ∧ (emitUpdate i s (pulsed s)).emitting = false ∧
      (emitUpdate i s (pulsed s)).syncWindow = s.syncWindow ∧
      (emitUpdate i s (pulsed s)).channel = keptChannel i s ∧
      (emitUpdate i s (pulsed s)).delayedValid = keptDelayed i s := by
  rw [keptChannel, keptDelayed, finishes, emitUpdate]
  cases advance i s with
  | false => exact ⟨rfl, rfl, rfl, rfl, rfl⟩
  | true =>
    rw [if_pos rfl, Bool.true_and]
    cases (i.m3Source && isId s && unmangledId s != M3_EXPECTED_CHANNEL) with
    | true => exact ⟨rfl, rfl, rfl, rfl, rfl⟩
    | false =>
      cases isId s <;> cases (unmangled s).toBitVec.getLsbD 0 <;> cases hd : s.delayedValid <;>
        by_cases hlast : s.emit = 14 <;> simp [hlast, pulsed, hd]

theorem searchWindow_top (s : State) :
    (searchWindow s).toNat / 2 ^ 24 = (s.syncWindow.extractLsb' 24 8).toNat := by
  have hwindow := s.syncWindow.isLt
  rw [BitVec.extractLsb'_toNat, Nat.shiftRight_eq_div_pow]
  change s.syncWindow.toNat / 2 ^ 24 = _
  omega

/-- A pulse while no frame is worked through. -/
theorem pulse_collecting (hs : s.emitting = false) :
    Blank (inputUpdate i s (pulsed s)) ↔ Clean i s := by
  have hgo : finishes i s = false := by rw [finishes, advance, hs]; rfl
  have hchannel : keptChannel i s = s.channel := by
    rw [keptChannel, hgo, if_neg Bool.false_ne_true]
  have hdelayed : keptDelayed i s = s.delayedValid := by
    rw [keptDelayed, hgo, if_neg Bool.false_ne_true]
  cases hfire : inputFire i s with
  | false =>
    have hnone : ¬ (i.inputValid && inputReady s) = true := by
      rw [show (i.inputValid && inputReady s) = false from hfire]
      exact Bool.false_ne_true
    have hlast : (searchWindow (pulsed s)).toNat / 2 ^ 24 = (lastByte i s).toNat := by
      rw [lastByte, hfire, if_neg Bool.false_ne_true]
      exact searchWindow_top s
    rw [inputUpdate, if_neg hnone]
    exact blank_of_fields (by simp [pulsed, hfire]) (by simp [pulsed, hfire]) hlast hchannel.symm
      hdelayed.symm
  | true =>
    have hbyte (n : State) (hn : n.syncWindow = nextWindow i s) :
        (searchWindow n).toNat / 2 ^ 24 = (lastByte i s).toNat := by
      have hwindow := (searchWindow s).toNat_lt
      rw [lastByte, hfire, if_pos rfl, searchWindow_next n hn, TpiuDecoder.shiftIn_toNat]
      omega
    rw [inputUpdate, if_pos (show (i.inputValid && inputReady s) = true from hfire)]
    cases hsynced : s.synced with
    | false =>
      rw [Bool.not_false, if_pos rfl]
      split
      · next hmatch =>
        exact blank_of_fields (by simp [hfire, hsynced, hmatch]) (by simp [pulsed, hsynced])
          (hbyte _ rfl) hchannel.symm hdelayed.symm
      · next hmatch =>
        exact blank_of_fields (iff_of_false Bool.false_ne_true fun h => hmatch h.2.2)
          (by simp [pulsed, hsynced])
          (hbyte _ rfl) hchannel.symm hdelayed.symm
    | true =>
      rw [Bool.not_true, if_neg Bool.false_ne_true]
      split
      · next hfull =>
        exact blank_of_fields (by simp [pulsed, hsynced]) (by simp [hfire, hsynced, hfull])
          (hbyte _ rfl) hchannel.symm hdelayed.symm
      · next hfull =>
        exact blank_of_fields (by simp [pulsed, hsynced]) (by simp [pulsed, hfull])
          (hbyte _ rfl) hchannel.symm hdelayed.symm

theorem blank_iff_clean (hi : Pulse i) : Blank (step i s) ↔ Clean i s := by
  rw [step_pulse hi]
  cases hs : s.emitting with
  | false => exact pulse_collecting hs
  | true =>
    have hnone : inputFire i s = false := by simp [inputFire, inputReady, hs]
    obtain ⟨hsynced, hemitting, hwindow, hchannel, hdelayed⟩ := pulse_emitting i s
    refine blank_of_fields (by simp [hsynced, hnone]) (by simp [hemitting, hnone]) ?_ hchannel
      hdelayed
    rw [lastByte, hnone, if_neg Bool.false_ne_true, searchWindow_top, if_pos rfl, hwindow]
    rfl

end

/-! ### Telling demultiplexers apart -/

/-- A stream offered byte by byte, with enough time after each for a frame to be worked
through. -/
def spaced (bytes : List UInt8) (t : ℕ) : Input where
  resetN := true
  resetSync := false
  inputData := bytes.getD (t / 16) 0
  inputValid := t % 16 = 0 ∧ t / 16 < bytes.length
  outputReady := true
  m3Source := false

theorem spaced_plain (bytes : List UInt8) (t : ℕ) : Plain (spaced bytes t) := ⟨rfl, rfl, rfl⟩

/-- With the output ready, a frame is worked through position by position. -/
theorem settles {s : State} {inp : ℕ → Input} (hplain : ∀ t, Plain (inp t))
    (hready : ∀ t, (inp t).outputReady = true) {t : ℕ}
    (hemit : ∀ u, ((run s inp).state u).emitting = true → ((run s inp).state u).emit ≤ 14) (n : ℕ)
    (hquiet : ∀ d < n, inputFire (inp (t + d)) ((run s inp).state (t + d)) = false) :
    (((run s inp).state (t + n)).emitting = true → n ≤ ((run s inp).state (t + n)).emit) ∧
      (run s inp).record accepted (t + n) = (run s inp).record accepted t := by
  induction n with
  | zero => exact ⟨fun _ => Nat.zero_le _, rfl⟩
  | succ n ih =>
    obtain ⟨hcount, hrecord⟩ := ih fun d hd => hquiet d (by omega)
    have hnone := hquiet n (Nat.lt_succ_self n)
    constructor
    · intro hbusy
      change (step (inp (t + n)) ((run s inp).state (t + n))).emitting = true at hbusy
      change n + 1 ≤ (step (inp (t + n)) ((run s inp).state (t + n))).emit
      cases hs : ((run s inp).state (t + n)).emitting with
      | false =>
        rw [step_waiting (hplain _) hs hnone] at hbusy
        exact absurd (hs.symm.trans hbusy) Bool.false_ne_true
      | true =>
        have hgo : advance (inp (t + n)) ((run s inp).state (t + n)) = true := by
          rw [advance, hs, hready, Bool.or_true]
          rfl
        obtain ⟨hend, hmore⟩ := step_position (hplain _) hs (hemit _ hs) hgo
        by_cases hlast : ((run s inp).state (t + n)).emit = 14
        · exact absurd ((hend hlast).symm.trans hbusy) Bool.false_ne_true
        · rw [(hmore hlast).2]
          exact Nat.succ_le_succ (hcount hs)
    · rw [← Nat.add_assoc, Clocked.Run.record_succ, hrecord]
      change _ ++ accepted (inp (t + n)) ((run s inp).state (t + n)) = _
      rw [accepted, hnone, if_neg Bool.false_ne_true, List.append_nil]

/-- A stream offered in this way is taken, and all that the decoder returns is handed over. -/
theorem spaced_feed {s : State} {d : TpiuDecoder} (h : Tracks s d) (hs : s.emitting = false)
    (bytes : List UInt8) (n : ℕ) (hn : n ≤ bytes.length) :
    ((run s (spaced bytes)).state (16 * n)).emitting = false ∧
      (run s (spaced bytes)).record accepted (16 * n) = bytes.take n := by
  have hstart : pending s = [] := by rw [pending, hs, if_neg Bool.false_ne_true]
  have hrun := tracks_run h hstart (spaced bytes) (spaced_plain bytes)
  induction n with
  | zero => exact ⟨hs, rfl⟩
  | succ n ih =>
    obtain ⟨hidle, hrecord⟩ := ih (by omega)
    have hless : n < bytes.length := hn
    have htaken : (run s (spaced bytes)).record accepted (16 * n + 1) = bytes.take (n + 1) := by
      have hfire : inputFire (spaced bytes (16 * n)) ((run s (spaced bytes)).state (16 * n)) =
          true := by
        simp [inputFire, inputReady, hidle, spaced, hless]
      rw [Clocked.Run.record_succ, hrecord, List.take_add_one]
      change _ ++ accepted (spaced bytes (16 * n)) ((run s (spaced bytes)).state (16 * n)) = _
      rw [accepted, hfire, if_pos rfl]
      simp [spaced, hless]
    obtain ⟨hcount, hsame⟩ := settles (spaced_plain bytes) (fun _ => rfl) (t := 16 * n + 1)
      (fun u hbusy => ((hrun u).1.emitting hbusy).2.2.1) 15 fun d hd => by
        have hpause : ¬ ((16 * n + 1 + d) % 16 = 0) := by omega
        simp [inputFire, spaced, hpause]
    constructor
    · refine Bool.eq_false_iff.mpr fun hbusy => ?_
      have hmore := hcount hbusy
      have hbound := ((hrun _).1.emitting hbusy).2.2.1
      exact absurd (hmore.trans hbound) (by decide)
    · exact hsame.trans htaken

/-- The demultiplexers hand over the same on any inputs. -/
def Agree (s s' : State) : Prop :=
  ∀ inp t, (run s inp).record handedOver t = (run s' inp).record handedOver t

/-- The decoder that holds what a collecting demultiplexer holds. -/
def decoderOf (s : State) : TpiuDecoder where
  syncWindow := searchWindow s
  synced := s.synced
  frame := []
  channel := channelByte s.channel
  delayedChannel := delayed s
  syncLosses := 0

theorem tracks_decoderOf {s : State} (hs : s.emitting = false) (hfill : s.fill = 0) :
    Tracks s (decoderOf s) where
  synced := rfl
  window _ := rfl
  collecting _ := by
    rw [hfill]
    exact ⟨Nat.zero_le _, rfl, rfl, rfl⟩
  emitting hbusy := absurd (hs.symm.trans hbusy) Bool.false_ne_true

/-- Demultiplexers that agree stand for decoders that agree. -/
theorem Agree.feed {s s' : State} (h : Agree s s') (hs : s.emitting = false)
    (hfill : s.fill = 0) (hs' : s'.emitting = false) (hfill' : s'.fill = 0) (bytes : List UInt8) :
    (TpiuDecoder.feed SYNC (decoderOf s) bytes).2 =
      (TpiuDecoder.feed SYNC (decoderOf s') bytes).2 := by
  have hout {s : State} (hs : s.emitting = false) (hfill : s.fill = 0) :
      ((run s (spaced bytes)).record handedOver (16 * bytes.length)).map muxedByte =
        (TpiuDecoder.feed SYNC (decoderOf s) bytes).2 := by
    have htracks := tracks_decoderOf hs hfill
    obtain ⟨hidle, hrecord⟩ := spaced_feed htracks hs bytes bytes.length (Nat.le_refl _)
    have hrun := (tracks_run htracks (by rw [pending, hs, if_neg Bool.false_ne_true])
      (spaced bytes) (spaced_plain bytes) (16 * bytes.length)).2
    rwa [hrecord, List.take_length, pending, hidle, if_neg Bool.false_ne_true,
      List.append_nil] at hrun
  rw [← hout hs hfill, ← hout hs' hfill', h]

theorem blank_initial : Blank initial :=
  ⟨rfl, rfl, (unmatched_iff _).mpr (by decide), rfl, rfl⟩

section

variable {s : State} {inp : ℕ → Input} (hplain : ∀ t, Plain (inp t))

include hplain

/-- With the output ready, the position worked through is the time. -/
theorem works_through (hready : ∀ t, (inp t).outputReady = true) (hs : s.emitting = true)
    (hemit : s.emit = 0) {n : ℕ} (hn : n ≤ 14) :
    ((run s inp).state n).emitting = true ∧ ((run s inp).state n).emit = n ∧
      ((run s inp).state n).synced = s.synced := by
  induction n with
  | zero => exact ⟨hs, hemit, rfl⟩
  | succ n ih =>
    obtain ⟨hbusy, hcount, hkept⟩ := ih (by omega)
    have hgo : advance (inp n) ((run s inp).state n) = true := by
      rw [advance, hbusy, hready, Bool.or_true]
      rfl
    have hmore := (step_position (hplain n) hbusy (by omega) hgo).2 (by omega)
    refine ⟨hmore.1, hmore.2.trans (by rw [hcount]), ?_⟩
    change (step (inp n) ((run s inp).state n)).synced = _
    rw [step_emitting (hplain n) hbusy, if_pos hgo]
    exact hkept

/-- Without a byte `7F` the search goes on, and nothing is handed over. -/
theorem stays_unsynced {t : ℕ} (hs : ((run s inp).state t).emitting = false)
    (hsynced : ((run s inp).state t).synced = false)
    (hbytes : ∀ u, t ≤ u → (inp u).inputData ≠ 0x7f) (n : ℕ) :
    ((run s inp).state (t + n)).emitting = false ∧ ((run s inp).state (t + n)).synced = false ∧
      (run s inp).record handedOver (t + n) = (run s inp).record handedOver t := by
  induction n with
  | zero => exact ⟨hs, hsynced, rfl⟩
  | succ n ih =>
    obtain ⟨hidle, hun, hrecord⟩ := ih
    have hnext : (run s inp).state (t + (n + 1)) =
        step (inp (t + n)) ((run s inp).state (t + n)) := rfl
    have hnone : handedOver (inp (t + n)) ((run s inp).state (t + n)) = [] :=
      handedOver_collecting _ hidle
    rw [← Nat.add_assoc t, Clocked.Run.record_succ, hrecord, Nat.add_assoc, hnext]
    refine ⟨?_, ?_, (congrArg _ hnone).trans (List.append_nil _)⟩
    all_goals
      cases hfire : inputFire (inp (t + n)) ((run s inp).state (t + n)) with
      | false => rwa [step_waiting (hplain _) hidle hfire]
      | true =>
        have hother : nextWindow (inp (t + n)) ((run s inp).state (t + n)) ≠ 0x7fffffff :=
          fun hmatch => hbytes (t + n) (Nat.le_add_right _ _) (last_of_match hmatch)
        rw [step_search (hplain _) hfire hun, if_neg hother]
        assumption

end

/-- A demultiplexer that works through a frame does not agree with a blank one. -/
theorem Agree.not_emitting {s s' : State} (h : Agree s s') (h' : Blank s')
    (hstart : s.emitting = true → s.synced = false ∧ s.emit = 0) : s.emitting = false := by
  by_contra hbusy
  rw [Bool.not_eq_false] at hbusy
  obtain ⟨hsynced, hemit⟩ := hstart hbusy
  have hplain := offer_plain (fullSync ++ TpiuDecoder.channelOneFrame)
  obtain ⟨hlast, hcount, hkept⟩ :=
    works_through hplain (fun _ => rfl) hbusy hemit (Nat.le_refl 14)
  -- the last position, and then nothing that ends a sync packet
  have hgo : advance (offer (fullSync ++ TpiuDecoder.channelOneFrame) 14)
      ((run s (offer (fullSync ++ TpiuDecoder.channelOneFrame))).state 14) = true := by
    rw [advance, hlast, Bool.true_and]
    exact Bool.or_true _
  have hidle := (step_position (hplain 14) hlast (by omega) hgo).1 hcount
  have hun : (step (offer (fullSync ++ TpiuDecoder.channelOneFrame) 14)
      ((run s (offer (fullSync ++ TpiuDecoder.channelOneFrame))).state 14)).synced = false := by
    rw [step_emitting (hplain 14) hlast, if_pos hgo]
    exact hkept.trans hsynced
  have hbytes (u : ℕ) (hu : 15 ≤ u) :
      (offer (fullSync ++ TpiuDecoder.channelOneFrame) u).inputData ≠ 0x7f := by
    have hframe : ∀ k < 20, 4 ≤ k → (fullSync ++ TpiuDecoder.channelOneFrame).getD k 0 ≠ 0x7f := by
      decide
    have hother (k : ℕ) (hk : 4 ≤ k) :
        (fullSync ++ TpiuDecoder.channelOneFrame).getD k 0 ≠ 0x7f := by
      by_cases hin : k < 20
      · exact hframe k hin hk
      · rw [List.getD_eq_getElem?_getD, List.getElem?_eq_none (Nat.le_of_not_lt hin)]
        decide
    refine hother _ ?_
    split <;> omega
  have hsilent := (stays_unsynced (s := s) (t := 14 + 1) hplain hidle hun hbytes 25).2.2
  have hblank := (alike_run (h'.alike blank_initial)
    (offer (fullSync ++ TpiuDecoder.channelOneFrame)))
  rw [h, h, (hblank _).2, (hblank _).2] at hsilent
  exact absurd hsilent (by decide +kernel)

/-- What is begun in the cycle of the pulse begins at the start. -/
theorem pulse_starts {i : Input} (hi : Pulse i) (s : State) :
    ((step i s).emitting = true → (step i s).synced = false ∧ (step i s).emit = 0) ∧
      ((step i s).synced = true → (step i s).fill = 0) := by
  have hidle : ∀ {p : Prop}, false = true → p := fun hno => absurd hno Bool.false_ne_true
  rw [step_pulse hi]
  cases hs : s.emitting with
  | true =>
    obtain ⟨hsynced, hemitting, -⟩ := pulse_emitting i s
    rw [if_pos rfl, hsynced, hemitting]
    exact ⟨hidle, hidle⟩
  | false =>
    rw [if_neg Bool.false_ne_true, inputUpdate]
    split_ifs with hfire hun hmatch hfull
    · exact ⟨hidle, fun _ => rfl⟩
    · exact ⟨hidle, hidle⟩
    · exact ⟨fun _ => ⟨rfl, rfl⟩, fun _ => rfl⟩
    · exact ⟨hidle, hidle⟩
    · exact ⟨hidle, hidle⟩

/-- A demultiplexer that agrees with a blank one is blank. -/
theorem Agree.blank {s s' : State} (h : Agree s s') (h' : Blank s')
    (hstart : s.emitting = true → s.synced = false ∧ s.emit = 0)
    (hfill : s.synced = true → s.fill = 0) : Blank s := by
  have hs := h.not_emitting h' hstart
  -- where nothing is collected the fill level does not count
  have hzero {s : State} (hfill : s.synced = true → s.fill = 0) (hs : s.emitting = false) :
      Alike { s with fill := 0 } s :=
    ⟨rfl, fun _ _ => Iff.rfl, fun hlocked => ⟨(hfill hlocked).symm, Nat.zero_le _,
      fun _ _ => rfl⟩, rfl, fun hbusy => absurd (hs.symm.trans hbusy) Bool.false_ne_true, rfl, rfl,
      fun _ => rfl⟩
  have hagree : Agree { s with fill := 0 } { s' with fill := 0 } := fun inp t => by
    rw [(alike_run (hzero hfill hs) inp t).2, h, (alike_run (hzero (fun hno =>
      absurd (h'.synced.symm.trans hno) Bool.false_ne_true) h'.emitting) inp t).2]
  have hblank : TpiuDecoder.Blank SYNC (decoderOf s') :=
    ⟨h'.synced, h'.window, (channelByte_eq_zero _).mpr h'.channel, by
      change delayed s' = none
      rw [delayed, h'.delayed, if_neg Bool.false_ne_true]⟩
  obtain ⟨hsynced, hwindow, hchannel, hdelayed⟩ :=
    (TpiuDecoder.blank_iff (d := decoderOf s) hblank (by decide +kernel) fun _ => rfl).mp
      fun bytes => hagree.feed hs rfl h'.emitting rfl bytes
  refine ⟨hsynced, hs, hwindow, (channelByte_eq_zero _).mp hchannel, ?_⟩
  change delayed s = none at hdelayed
  rw [delayed] at hdelayed
  cases hkept : s.delayedValid with
  | false => rfl
  | true => simp [hkept] at hdelayed

/-- **Which pulses make the past invisible.** Compared with a clean pulse, whatever happened
before it, another pulse is followed by the same bytes on all inputs exactly if it is clean.
The host's decoder returns the same after `reset_sync`, whatever is called, exactly if its
window, channel and delayed channel have been forgotten. -/
theorem reset_sync_forgets {i i' : Input} {s s' : State} (hi : Pulse i) (hi' : Pulse i')
    (h' : Clean i' s') {d d' : TpiuDecoder} (hd' : TpiuDecoder.Forgotten d') :
    (Agree (step i s) (step i' s') ↔ Clean i s) ∧
      ((∀ cs, TpiuDecoder.calls TpiuDecoder.HOST_SYNC d.resetSync cs =
          TpiuDecoder.calls TpiuDecoder.HOST_SYNC d'.resetSync cs) ↔
        TpiuDecoder.Forgotten d) := by
  refine ⟨⟨fun h => ?_, fun h inp t => ?_⟩, TpiuDecoder.resetSync_iff hd'⟩
  · obtain ⟨hstart, hfill⟩ := pulse_starts hi s
    exact (blank_iff_clean hi).mp (h.blank ((blank_iff_clean hi').mpr h') hstart hfill)
  · have hblank := (blank_iff_clean hi).mpr h
    exact (alike_run (hblank.alike ((blank_iff_clean hi').mpr h')) inp t).2

/-- The cycle of a pulse, with or without an input byte. -/
def pulseWith (byte : Option UInt8) : Input where
  resetN := true
  resetSync := true
  inputData := byte.getD 0
  inputValid := byte.isSome
  outputReady := true
  m3Source := false

/-- A pulse in the middle of a frame and one directly after a reset. -/
theorem reset_sync_forgets_frame :
    Agree (step (pulseWith none)
        ((run initial (offer (fullSync ++ TpiuDecoder.channelOneFrame))).state 9))
      (step (pulseWith none) initial) := by
  have hinitial : Clean (pulseWith none) initial :=
    ⟨by decide, by decide, by decide, by decide, by decide⟩
  have hframe : Clean (pulseWith none)
      ((run initial (offer (fullSync ++ TpiuDecoder.channelOneFrame))).state 9) :=
    ⟨by decide +kernel, by decide +kernel, by decide +kernel, by decide +kernel,
      by decide +kernel⟩
  have hdecoder : TpiuDecoder.Forgotten TpiuDecoder.initial :=
    ⟨fun k hpos hthree => by interval_cases k <;> decide, rfl, rfl⟩
  exact (reset_sync_forgets (d := TpiuDecoder.initial) ⟨rfl, rfl⟩ ⟨rfl, rfl⟩ hinitial
    hdecoder).1.mpr hframe

/-- What is not forgotten: three bytes of a sync packet, the frame whose last byte comes in the
cycle of the pulse, and the channel; and on the host three bytes of a sync packet. -/
theorem reset_sync_remembers :
    ¬ Agree (step (pulseWith none) ((run initial (offer [0xff, 0xff, 0xff])).state 3))
        (step (pulseWith none) initial) ∧
      ¬ Agree (step (pulseWith (some 0x00))
          ((run initial (offer (fullSync ++ TpiuDecoder.channelOneFrame))).state 19))
        (step (pulseWith none) initial) ∧
      ¬ Agree (step (pulseWith none)
          ((run initial (offer (fullSync ++ TpiuDecoder.channelOneFrame))).state 40))
        (step (pulseWith none) initial) ∧
      ¬ ∀ cs, TpiuDecoder.calls TpiuDecoder.HOST_SYNC
          (TpiuDecoder.initial.decode [0x7f, 0xff, 0xff]).1.resetSync cs =
        TpiuDecoder.calls TpiuDecoder.HOST_SYNC TpiuDecoder.initial.resetSync cs := by
  refine ⟨fun h => ?_, fun h => ?_, fun h => ?_, fun h => ?_⟩
  · exact absurd (h (offer (0x7f :: TpiuDecoder.channelOneFrame)) 40) (by decide +kernel)
  · exact absurd (h (offer []) 20) (by decide +kernel)
  · exact absurd (h (offer (fullSync ++ TpiuDecoder.dataFrame)) 40) (by decide +kernel)
  · exact absurd (h ((0xff :: TpiuDecoder.channelOneFrame).map .push)) (by decide +kernel)

end TpiuDemux
