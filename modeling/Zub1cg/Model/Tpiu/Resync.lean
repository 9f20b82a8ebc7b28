import Zub1cg.Model.Tpiu.Sync
import Mathlib.Tactic.IntervalCases

/-!
# What a decoder remembers

A decoder that is searching for a sync packet still holds the bytes of its window, its channel
and a delayed channel. Two decoders that hold nothing of this kind return the same for every
stream; one that holds something is told apart from them by some stream.

## Main definitions

- `Alike` — two decoders that return the same from now on
- `Blank` — a decoder that remembers nothing
- `Call`, `calls` — `push` and `reset_sync` in any order

## Main results

- `calls_blank` — blank decoders return the same
- `blank_iff` — no other decoder returns the same as a blank one
- `resetSync_iff` — what `reset_sync` leaves behind
-/

namespace Model.TpiuDecoder

/-! ### Windows -/

/-- The newest bytes of the window are not a sync packet less its last `k` bytes. -/
def Unmatched (sync window : UInt32) : Prop :=
  ∀ k, 1 ≤ k → k ≤ 3 → window.toNat / 256 ^ k ≠ sync.toNat % 256 ^ (4 - k)

/-- The window after some more bytes. -/
def shifted (window : UInt32) (bytes : List UInt8) : UInt32 := bytes.foldl shiftIn window

theorem shifted_concat (window : UInt32) (bytes : List UInt8) (byte : UInt8) :
    shifted window (bytes ++ [byte]) = shiftIn (shifted window bytes) byte := by
  rw [shifted, List.foldl_append]
  rfl

/-- The window's newest place. -/
theorem shifted_concat_div (window : UInt32) (bytes : List UInt8) (byte : UInt8) :
    (shifted window (bytes ++ [byte])).toNat / 2 ^ 24 = byte.toNat := by
  have hwindow := (shifted window bytes).toNat_lt
  rw [shifted_concat, shiftIn_toNat]
  omega

/-- After fewer than four bytes the rest of the window is what was there before. -/
theorem shifted_mod (window : UInt32) (bytes : List UInt8) (h : bytes.length ≤ 3) :
    (shifted window bytes).toNat % 256 ^ (4 - bytes.length) =
      window.toNat / 256 ^ bytes.length := by
  have hwindow := window.toNat_lt
  match bytes, h with
  | [], _ => simp only [shifted, List.foldl_nil, List.length_nil]; omega
  | [a], _ =>
    simp only [shifted, List.foldl_cons, List.foldl_nil, shiftIn_toNat, List.length_cons,
      List.length_nil]
    omega
  | [a, b], _ =>
    simp only [shifted, List.foldl_cons, List.foldl_nil, shiftIn_toNat, List.length_cons,
      List.length_nil]
    omega
  | [a, b, c], _ =>
    simp only [shifted, List.foldl_cons, List.foldl_nil, shiftIn_toNat, List.length_cons,
      List.length_nil]
    omega

/-- Four bytes replace the whole window. -/
theorem shifted_four (window window' : UInt32) {bytes : List UInt8} (h : 4 ≤ bytes.length) :
    shifted window bytes = shifted window' bytes := by
  match bytes, h with
  | a :: b :: c :: d :: rest, _ =>
    have hfour : shifted window [a, b, c, d] = shifted window' [a, b, c, d] := by
      have hwindow := window.toNat_lt
      have hwindow' := window'.toNat_lt
      apply UInt32.toNat_inj.mp
      simp only [shifted, List.foldl_cons, List.foldl_nil, shiftIn_toNat]
      omega
    exact congrArg (fun w => shifted w rest) hfour

theorem Unmatched.not_completed {sync window : UInt32} (h : Unmatched sync window)
    {bytes : List UInt8} (hpos : bytes ≠ []) (hshort : bytes.length ≤ 3) :
    shifted window bytes ≠ sync := by
  intro hmatch
  have hmod := shifted_mod window bytes hshort
  rw [hmatch] at hmod
  exact h bytes.length (List.length_pos_iff.mpr hpos) hshort hmod.symm

/-- The last `k` bytes of a sync packet. -/
def ending (sync : UInt32) (k : ℕ) : List UInt8 :=
  LittleEndian.ofNat k (sync.toNat / 256 ^ (4 - k))

theorem length_ending (sync : UInt32) (k : ℕ) : (ending sync k).length = k :=
  LittleEndian.length_ofNat _ _

/-- The end of a sync packet completes its beginning. -/
theorem shifted_ending {sync window : UInt32} {k : ℕ} (hk : k ≤ 4)
    (h : window.toNat / 256 ^ k = sync.toNat % 256 ^ (4 - k)) :
    shifted window (ending sync k) = sync := by
  have hsync := sync.toNat_lt
  apply UInt32.toNat_inj.mp
  interval_cases k <;>
    simp only [shifted, ending, LittleEndian.ofNat, List.foldl_cons, List.foldl_nil, shiftIn_toNat,
      UInt8.toNat_ofNat'] <;> omega

/-! ### Searching -/

/-- As long as no sync packet is completed, nothing but the window changes. -/
theorem feed_search {sync : UInt32} {d : TpiuDecoder} (h : d.synced = false) {bytes : List UInt8}
    (hnone : ∀ front, front <+: bytes → front ≠ [] → shifted d.syncWindow front ≠ sync) :
    feed sync d bytes = ({ d with syncWindow := shifted d.syncWindow bytes }, []) := by
  induction bytes using List.reverseRecOn with
  | nil => rfl
  | append_singleton bytes byte ih =>
    have hlast := hnone _ List.prefix_rfl (by simp)
    rw [shifted_concat] at hlast
    rw [feed_concat, ih fun front hfront => hnone front (hfront.trans (List.prefix_append _ _)),
      pushAt]
    simp only [h, Bool.not_false, if_true, if_neg hlast, List.append_nil, shifted_concat]

/-- The byte that completes the first sync packet. -/
theorem feed_locks {sync : UInt32} {d : TpiuDecoder} (h : d.synced = false) {bytes : List UInt8}
    {byte : UInt8}
    (hnone : ∀ front, front <+: bytes → front ≠ [] → shifted d.syncWindow front ≠ sync)
    (hmatch : shifted d.syncWindow (bytes ++ [byte]) = sync) :
    feed sync d (bytes ++ [byte]) =
      ({ d with syncWindow := sync, synced := true, frame := [] }, []) := by
  rw [shifted_concat] at hmatch
  rw [feed_concat, feed_search h hnone, pushAt]
  simp only [h, Bool.not_false, if_true, hmatch]
  rfl

/-! ### Two decoders -/

/-- The two decoders lock at the same byte, and do the same with the frames. -/
structure Alike (sync : UInt32) (d d' : TpiuDecoder) : Prop where
  synced : d.synced = d'.synced
  window : ∀ bytes ≠ [], shifted d.syncWindow bytes = sync ↔ shifted d'.syncWindow bytes = sync
  frame : d.synced = true → d.frame = d'.frame
  channel : d.channel = d'.channel
  delayed : d.delayedChannel = d'.delayedChannel

theorem Alike.pushAt {sync : UInt32} {d d' : TpiuDecoder} (h : Alike sync d d') (byte : UInt8) :
    Alike sync (pushAt sync d byte).1 (pushAt sync d' byte).1 ∧
      (TpiuDecoder.pushAt sync d byte).2 = (TpiuDecoder.pushAt sync d' byte).2 := by
  have hwindow (bytes : List UInt8) (_ : bytes ≠ []) :
      shifted (shiftIn d.syncWindow byte) bytes = sync ↔
        shifted (shiftIn d'.syncWindow byte) bytes = sync :=
    h.window (byte :: bytes) (List.cons_ne_nil _ _)
  have hlock : shiftIn d.syncWindow byte = sync ↔ shiftIn d'.syncWindow byte = sync :=
    h.window [byte] (List.cons_ne_nil _ _)
  rw [TpiuDecoder.pushAt, TpiuDecoder.pushAt, ← h.synced, ← h.channel, ← h.delayed]
  cases hs : d.synced with
  | false =>
    simp only [Bool.not_false, if_true, hlock]
    by_cases hmatch : shiftIn d'.syncWindow byte = sync
    · simp only [if_pos hmatch, and_true]
      exact ⟨rfl, hwindow, fun _ => rfl, rfl, rfl⟩
    · simp only [if_neg hmatch, and_true]
      exact ⟨rfl, hwindow, fun hno => absurd hno Bool.false_ne_true, rfl, rfl⟩
  | true =>
    simp only [Bool.not_true, Bool.false_eq_true, if_false, h.frame hs]
    by_cases hfull : (d'.frame ++ [byte]).length = 16
    · simp only [if_neg (not_not_intro hfull), and_true]
      exact ⟨rfl, hwindow, fun _ => rfl, rfl, rfl⟩
    · simp only [if_pos hfull, and_true]
      exact ⟨rfl, hwindow, fun _ => rfl, rfl, rfl⟩

theorem Alike.resetSync {sync : UInt32} {d d' : TpiuDecoder} (h : Alike sync d d') :
    Alike sync d.resetSync d'.resetSync :=
  ⟨rfl, h.window, fun _ => rfl, h.channel, h.delayed⟩

/-- A decoder that searches and remembers nothing. -/
structure Blank (sync : UInt32) (d : TpiuDecoder) : Prop where
  synced : d.synced = false
  window : Unmatched sync d.syncWindow
  channel : d.channel = 0
  delayed : d.delayedChannel = none

theorem Blank.alike {sync : UInt32} {d d' : TpiuDecoder} (h : Blank sync d) (h' : Blank sync d') :
    Alike sync d d' := by
  refine ⟨h.synced.trans h'.synced.symm, fun bytes hpos => ?_, fun hno => ?_,
    h.channel.trans h'.channel.symm, h.delayed.trans h'.delayed.symm⟩
  · obtain hshort | hlong := Nat.lt_or_ge bytes.length 4
    · exact iff_of_false (h.window.not_completed hpos (by omega))
        (h'.window.not_completed hpos (by omega))
    · rw [shifted_four d.syncWindow d'.syncWindow hlong]
  · rw [h.synced] at hno
    exact absurd hno Bool.false_ne_true

/-- What a program may do with a decoder. -/
inductive Call
  | push (byte : UInt8)
  | resetSync

def call (sync : UInt32) (d : TpiuDecoder) : Call → TpiuDecoder × List MuxedByte
  | .push byte => TpiuDecoder.pushAt sync d byte
  | .resetSync => (d.resetSync, [])

/-- What a decoder returns for a sequence of calls. -/
def calls (sync : UInt32) (d : TpiuDecoder) : List Call → List MuxedByte
  | [] => []
  | c :: rest => (call sync d c).2 ++ calls sync (call sync d c).1 rest

theorem calls_alike {sync : UInt32} {d d' : TpiuDecoder} (h : Alike sync d d')
    (cs : List Call) : calls sync d cs = calls sync d' cs := by
  induction cs generalizing d d' with
  | nil => rfl
  | cons c rest ih =>
    rw [calls, calls]
    cases c with
    | push byte =>
      obtain ⟨hnext, hout⟩ := h.pushAt byte
      rw [call, call, hout, ih hnext]
    | resetSync => rw [call, call, ih h.resetSync]

/-- Blank decoders return the same, whatever is called. -/
theorem calls_blank {sync : UInt32} {d d' : TpiuDecoder} (h : Blank sync d) (h' : Blank sync d')
    (cs : List Call) : calls sync d cs = calls sync d' cs :=
  calls_alike (h.alike h') cs

theorem feed_cons (sync : UInt32) (d : TpiuDecoder) (byte : UInt8) (bytes : List UInt8) :
    feed sync d (byte :: bytes) =
      ((feed sync (pushAt sync d byte).1 bytes).1,
        (pushAt sync d byte).2 ++ (feed sync (pushAt sync d byte).1 bytes).2) := by
  induction bytes using List.reverseRecOn with
  | nil => simp [feed]
  | append_singleton bytes last ih =>
    rw [← List.cons_append, feed_concat, ih, feed_concat, List.append_assoc]

theorem calls_push (sync : UInt32) (d : TpiuDecoder) (bytes : List UInt8) :
    calls sync d (bytes.map Call.push) = (feed sync d bytes).2 := by
  induction bytes generalizing d with
  | nil => rfl
  | cons byte bytes ih => rw [List.map_cons, calls, ih, feed_cons, call]

theorem feed_append (sync : UInt32) (d : TpiuDecoder) (bytes bytes' : List UInt8) :
    (feed sync d (bytes ++ bytes')).2 =
      (feed sync d bytes).2 ++ (feed sync (feed sync d bytes).1 bytes').2 := by
  induction bytes generalizing d with
  | nil => rfl
  | cons byte bytes ih => rw [List.cons_append, feed_cons, ih, feed_cons, List.append_assoc]

/-! ### Telling decoders apart -/

/-- A synchronised decoder collects a frame. -/
theorem feed_collect (sync : UInt32) {d : TpiuDecoder} (h : d.synced = true) (hframe : d.frame = [])
    {bytes : List UInt8} (hshort : bytes.length ≤ 15) :
    feed sync d bytes =
      ({ d with syncWindow := shifted d.syncWindow bytes, frame := bytes }, []) := by
  induction bytes using List.reverseRecOn with
  | nil =>
    obtain ⟨window, synced, frame, channel, delayed, losses⟩ := d
    subst hframe
    rfl
  | append_singleton bytes byte ih =>
    rw [List.length_append, List.length_singleton] at hshort
    rw [feed_concat, ih (by omega), pushAt, shifted_concat]
    have hmore : (bytes ++ [byte]).length ≠ 16 := by
      rw [List.length_append, List.length_singleton]
      omega
    simp only [h, Bool.not_true, Bool.false_eq_true, if_false, if_pos hmore, List.append_nil]

/-- The sixteenth byte completes the frame. -/
theorem feed_frame (sync : UInt32) {d : TpiuDecoder} (h : d.synced = true) (hframe : d.frame = [])
    {raw : List UInt8} (hlength : raw.length = 16) :
    (feed sync d raw).2 =
      ((List.range 15).foldl (formatterByte raw) ⟨d.channel, d.delayedChannel, []⟩).out := by
  obtain ⟨bytes, byte, rfl⟩ : ∃ bytes byte, raw = bytes ++ [byte] := by
    have hne : raw ≠ [] := by
      rintro rfl
      simp at hlength
    exact ⟨raw.dropLast, raw.getLast hne, (List.dropLast_append_getLast hne).symm⟩
  rw [List.length_append, List.length_singleton] at hlength
  rw [feed_concat, feed_collect sync h hframe (by omega), pushAt]
  have hfull : (bytes ++ [byte]).length = 16 := by
    rw [List.length_append, List.length_singleton]
    omega
  simp only [h, Bool.not_true, Bool.false_eq_true, if_false, if_neg (not_not_intro hfull),
    List.nil_append]

/-- Fifteen data bytes. -/
def dataFrame : List UInt8 := List.replicate 15 0x22 ++ [0x00]

/-- The identifier of channel 1 and fourteen data bytes. -/
def channelOneFrame : List UInt8 := 0x03 :: List.replicate 14 0x22 ++ [0x00]

/-- What is returned for some data bytes on a channel. -/
def onChannel (c : UInt8) (n : ℕ) : List MuxedByte :=
  if c = 0 then [] else List.replicate n ⟨c, 0x22⟩

theorem onChannel_eq_nil {c : UInt8} {n : ℕ} : onChannel c (n + 1) = [] ↔ c = 0 := by
  rw [onChannel]
  split_ifs with hc <;> simp [hc, List.replicate_succ]

theorem formatterByte_data {raw : List UInt8} {k : ℕ} (haux : byteAt raw 15 = 0)
    (hbyte : byteAt raw k = 0x22) (c : UInt8) (delayed : Option UInt8) (out : List MuxedByte) :
    formatterByte raw ⟨c, delayed, out⟩ k = ⟨delayed.getD c, none, out ++ onChannel c 1⟩ := by
  have hdata : (if k % 2 = 0 then
      byteAt raw k &&& 0xfe ||| byteAt raw 15 >>> UInt8.ofNat (k / 2) &&& 1
      else byteAt raw k) = 0x22 := by
    rw [haux, hbyte, UInt8.zero_shiftRight]
    split <;> rfl
  have hid : ¬ (k % 2 = 0 ∧ byteAt raw k &&& 1 ≠ 0) := by
    rw [hbyte]
    exact fun h => h.2 rfl
  rw [formatterByte]
  simp only [hdata, hid, if_false]
  by_cases hc : c = 0 <;> cases delayed <;> simp [hc, onChannel]

theorem foldl_data {raw : List UInt8} (haux : byteAt raw 15 = 0) {positions : List ℕ}
    (hbytes : ∀ k ∈ positions, byteAt raw k = 0x22) (c : UInt8) (out : List MuxedByte) :
    positions.foldl (formatterByte raw) ⟨c, none, out⟩ =
      ⟨c, none, out ++ onChannel c positions.length⟩ := by
  induction positions generalizing out with
  | nil => simp [onChannel]
  | cons k positions ih =>
    rw [List.forall_mem_cons] at hbytes
    rw [List.foldl_cons, formatterByte_data haux hbytes.1, Option.getD_none, ih hbytes.2,
      List.append_assoc, List.length_cons]
    by_cases hc : c = 0 <;> simp [hc, onChannel, List.replicate_succ]

/-- The channel a decoder has kept shows in the first data byte, and the delayed one after it. -/
theorem dataFrame_out (c : UInt8) (delayed : Option UInt8) :
    ((List.range 15).foldl (formatterByte dataFrame) ⟨c, delayed, []⟩).out =
      onChannel c 1 ++ onChannel (delayed.getD c) 14 := by
  have hpositions : List.range 15 = 0 :: List.range' 1 14 := rfl
  rw [hpositions, List.foldl_cons, formatterByte_data rfl rfl, foldl_data rfl (by decide)]
  rfl

/-- A delayed channel replaces the one a frame begins with. -/
theorem channelOneFrame_out (c : UInt8) (delayed : Option UInt8) :
    ((List.range 15).foldl (formatterByte channelOneFrame) ⟨c, delayed, []⟩).out =
      onChannel 1 1 ++ onChannel (delayed.getD 1) 13 := by
  have hid : formatterByte channelOneFrame ⟨c, delayed, []⟩ 0 = ⟨1, delayed, []⟩ := rfl
  have hpositions : List.range 15 = 0 :: 1 :: List.range' 2 13 := rfl
  rw [hpositions, List.foldl_cons, hid, List.foldl_cons, formatterByte_data rfl rfl,
    foldl_data rfl (by decide)]
  rfl

section

variable {sync : UInt32}

/-- Bytes that do not occur at the end of a sync packet complete none. -/
theorem not_completed {bytes : List UInt8} (h : ∀ byte ∈ bytes, byte.toNat ≠ sync.toNat / 2 ^ 24)
    (window : UInt32) : ∀ front, front <+: bytes → front ≠ [] → shifted window front ≠ sync := by
  intro front hfront hpos hmatch
  have hlast := shifted_concat_div window front.dropLast (front.getLast hpos)
  rw [List.dropLast_append_getLast, hmatch] at hlast
  exact h _ (hfront.subset (List.getLast_mem hpos)) hlast.symm

variable {d d' : TpiuDecoder}

/-- A decoder that locks on fewer than four bytes is told apart from a blank one by the next
frame. -/
theorem not_locked (h' : Blank sync d')
    (hend : ∀ byte ∈ channelOneFrame, byte.toNat ≠ sync.toNat / 2 ^ 24)
    (hsame : ∀ bytes, (feed sync d bytes).2 = (feed sync d' bytes).2) (bytes : List UInt8)
    (hshort : bytes.length ≤ 3) (hlocked : (feed sync d bytes).1.synced = true) :
    (feed sync d bytes).1.frame ≠ [] := by
  intro hframe
  have hquiet : feed sync d' bytes = ({ d' with syncWindow := shifted d'.syncWindow bytes }, []) :=
    feed_search h'.synced fun front hfront hpos =>
      h'.window.not_completed hpos (hfront.length_le.trans hshort)
  have hnothing : (feed sync { d' with syncWindow := shifted d'.syncWindow bytes }
      channelOneFrame).2 = [] :=
    congrArg Prod.snd (feed_search (d := { d' with syncWindow := shifted d'.syncWindow bytes })
      h'.synced (not_completed hend _))
  have hout := hsame (bytes ++ channelOneFrame)
  rw [feed_append, feed_append, hsame bytes, hquiet, feed_frame sync hlocked hframe rfl,
    channelOneFrame_out, hnothing] at hout
  exact absurd hout (by simp [onChannel])

/-- A matched window is completed by the end of a sync packet, and not earlier. -/
theorem feed_ending (h : d.synced = false) {k : ℕ} (hpos : 1 ≤ k) (hk : k ≤ 4)
    (hmatch : d.syncWindow.toNat / 256 ^ k = sync.toNat % 256 ^ (4 - k))
    (hleast : ∀ j, 1 ≤ j → j < k → d.syncWindow.toNat / 256 ^ j ≠ sync.toNat % 256 ^ (4 - j)) :
    feed sync d (ending sync k) =
      ({ d with syncWindow := sync, synced := true, frame := [] }, []) := by
  have hlength := length_ending sync k
  have hne : ending sync k ≠ [] := List.ne_nil_of_length_pos (by omega)
  have hall := shifted_ending hk hmatch
  rw [← List.dropLast_append_getLast hne] at hall hlength ⊢
  rw [List.length_append, List.length_singleton] at hlength
  refine feed_locks h (fun front hfront hfpos hsync => ?_) hall
  have hshort := hfront.length_le
  have hmod := shifted_mod d.syncWindow front (by omega)
  rw [hsync] at hmod
  exact hleast front.length (List.length_pos_iff.mpr hfpos) (by omega) hmod.symm

theorem Unmatched.feed_packet (h : d.synced = false) (hwindow : Unmatched sync d.syncWindow) :
    feed sync d (ending sync 4) =
      ({ d with syncWindow := sync, synced := true, frame := [] }, []) := by
  refine feed_ending h (by decide) (by decide) ?_ fun j hj hless => hwindow j hj (by omega)
  have hsmall := d.syncWindow.toNat_lt
  omega

/-- **No other decoder returns the same as a blank one.** -/
theorem blank_iff (h' : Blank sync d')
    (hend : ∀ byte ∈ dataFrame ++ channelOneFrame, byte.toNat ≠ sync.toNat / 2 ^ 24)
    (hframe : d.synced = true → d.frame = []) :
    (∀ bytes, (feed sync d bytes).2 = (feed sync d' bytes).2) ↔ Blank sync d := by
  constructor
  · intro hsame
    have hone : ∀ byte ∈ channelOneFrame, byte.toNat ≠ sync.toNat / 2 ^ 24 :=
      fun byte hmem => hend byte (List.mem_append_right _ hmem)
    have hsynced : d.synced = false := by
      by_contra hlocked
      rw [Bool.not_eq_false] at hlocked
      exact not_locked h' hone hsame [] (by decide) hlocked (hframe hlocked)
    -- the fewest bytes that complete a sync packet would lock it
    have hwindow : Unmatched sync d.syncWindow := by
      by_contra hsome
      rw [Unmatched] at hsome
      push Not at hsome
      classical
      obtain ⟨hpos, hthree, hmatch⟩ := Nat.find_spec hsome
      have hlock := feed_ending hsynced hpos (by omega) hmatch fun j hj hless heq =>
        Nat.find_min hsome hless ⟨hj, by omega, heq⟩
      refine not_locked h' hone hsame (ending sync (Nat.find hsome)) ?_ ?_ ?_
      · rwa [length_ending]
      · rw [hlock]
      · rw [hlock]
    -- what has been kept shows in the first frame
    have hpacket := hwindow.feed_packet hsynced
    have hpacket' := h'.window.feed_packet h'.synced
    have hframes (raw : List UInt8) (hraw : raw.length = 16) :
        ((List.range 15).foldl (formatterByte raw) ⟨d.channel, d.delayedChannel, []⟩).out =
          ((List.range 15).foldl (formatterByte raw) ⟨0, none, []⟩).out := by
      have hout := hsame (ending sync 4 ++ raw)
      rw [feed_append, feed_append, hpacket, hpacket', feed_frame sync rfl rfl hraw,
        feed_frame sync rfl rfl hraw, h'.channel, h'.delayed] at hout
      exact hout
    have hdata := hframes dataFrame rfl
    have hdelayed := hframes channelOneFrame rfl
    rw [dataFrame_out, dataFrame_out] at hdata
    rw [channelOneFrame_out, channelOneFrame_out, List.append_cancel_left_eq] at hdelayed
    obtain ⟨hfirst, hrest⟩ := List.append_eq_nil_iff.mp hdata
    have hchannel := onChannel_eq_nil.mp hfirst
    refine ⟨hsynced, hwindow, hchannel, ?_⟩
    cases hkept : d.delayedChannel with
    | none => rfl
    | some c =>
      rw [hkept] at hrest hdelayed
      rw [(onChannel_eq_nil.mp hrest : c = 0)] at hdelayed
      exact absurd hdelayed (by decide)
  · intro h bytes
    rw [← calls_push, ← calls_push]
    exact calls_blank h h' _

end

/-- The sync word of the source's `push`. -/
def HOST_SYNC : UInt32 := 0xffffff7f

/-- Nothing that `reset_sync` leaves alone will show. -/
structure Forgotten (d : TpiuDecoder) : Prop where
  window : Unmatched HOST_SYNC d.syncWindow
  channel : d.channel = 0
  delayed : d.delayedChannel = none

/-- After `reset_sync` a decoder returns the same as one that has forgotten everything exactly
if it has done so too. -/
theorem resetSync_iff {d d' : TpiuDecoder} (h' : Forgotten d') :
    (∀ cs, calls HOST_SYNC d.resetSync cs = calls HOST_SYNC d'.resetSync cs) ↔ Forgotten d := by
  have hblank : Blank HOST_SYNC d'.resetSync := ⟨rfl, h'.window, h'.channel, h'.delayed⟩
  constructor
  · intro h
    have hd := (blank_iff (d := d.resetSync) hblank (by decide +kernel) fun _ => rfl).mp fun bytes => by
      rw [← calls_push, ← calls_push, h]
    exact ⟨hd.window, hd.channel, hd.delayed⟩
  · intro h
    exact calls_blank ⟨rfl, h.window, h.channel, h.delayed⟩ hblank

end Model.TpiuDecoder
