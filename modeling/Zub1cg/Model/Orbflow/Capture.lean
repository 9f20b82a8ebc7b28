import Zub1cg.Model.Orbflow.RoundTrip

/-!
# Recovering a capture

A capture is cut at its zero bytes and every piece is unframed on its own. Both readers of
a capture, the channel reconstruction and the histogram, depend only on the frames that
unframe; a zero byte splits these, and whole frames are found again whatever follows them.

## Main definitions

- `validFrames` — what the pieces of a capture unframe to
- `channelPayloads` — the payloads on one channel

## Main results

- `reconstructChannelStream_eq`, `mem_channelHistogram` — both readers in terms of `validFrames`
- `capture_recovery` — frames survive whatever surrounds them
-/

namespace Model

/-- What one piece of a capture unframes to. -/
def validFrame (frame : List UInt8) : Option (UInt8 × List UInt8) :=
  if frame.isEmpty then none else (orbflowUnframe frame).toOption

/-- The frames of a capture that unframe. -/
def validFrames (capture : List UInt8) : List (UInt8 × List UInt8) :=
  (capture.splitOn 0).filterMap validFrame

/-- The payloads on one channel, one after the other. -/
def channelPayloads (packets : List (UInt8 × List UInt8)) (channel : UInt8) : List UInt8 :=
  (packets.filter fun p => p.1 = channel).flatMap Prod.snd

theorem channelPayloads_append (ps qs : List (UInt8 × List UInt8)) (channel : UInt8) :
    channelPayloads (ps ++ qs) channel = channelPayloads ps channel ++ channelPayloads qs channel := by
  rw [channelPayloads, List.filter_append, List.flatMap_append]
  rfl

/-! ### The two readers -/

/-- One piece adds its payload if it unframes to the wanted channel. -/
theorem reconstructFrame_eq (channel : UInt8) (stream frame : List UInt8) :
    reconstructFrame channel stream frame =
      stream ++ channelPayloads (validFrame frame).toList channel := by
  rw [reconstructFrame, validFrame]
  split
  · simp [channelPayloads]
  · split
    · next c payload h =>
      by_cases hc : c = channel <;> simp [h, hc, channelPayloads, Except.toOption]
    · next e h =>
      simp [h, channelPayloads, Except.toOption]

/-- A channel's reconstruction is its valid payloads. -/
theorem reconstructChannelStream_eq (capture : List UInt8) (channel : UInt8) :
    reconstructChannelStream capture channel = channelPayloads (validFrames capture) channel := by
  have hloop : ∀ (pieces : List (List UInt8)) stream,
      pieces.foldl (reconstructFrame channel) stream =
        stream ++ channelPayloads (pieces.filterMap validFrame) channel := by
    intro pieces
    induction pieces with
    | nil => simp [channelPayloads]
    | cons piece pieces ih =>
      intro stream
      have hcons : (piece :: pieces).filterMap validFrame =
          (validFrame piece).toList ++ pieces.filterMap validFrame := by
        cases h : validFrame piece <;> simp [h]
      rw [List.foldl_cons, ih, reconstructFrame_eq, hcons, channelPayloads_append,
        List.append_assoc]
  exact hloop _ []

/-- The count of a channel grows by one with each piece that unframes to it. -/
theorem getD_countFrame (counts : Std.TreeMap UInt8 ℕ) (frame : List UInt8) (c : UInt8) :
    (countFrame counts frame)[c]?.getD 0 =
      counts[c]?.getD 0 + ((validFrame frame).toList.map Prod.fst).count c := by
  rw [countFrame, validFrame]
  split
  · simp
  · split
    · next d payload h =>
      rw [Std.TreeMap.getElem?_insert]
      by_cases hd : d = c
      · subst hd
        simp [h, Except.toOption, Std.TreeMap.getD_eq_getD_getElem?]
      · simp [h, hd, Except.toOption]
    · next e h =>
      simp [h, Except.toOption]

/-- No channel is entered without being counted. -/
theorem countFrame_pos {counts : Std.TreeMap UInt8 ℕ} (hpos : ∀ c : UInt8, counts[c]? ≠ some 0)
    (frame : List UInt8) (c : UInt8) : (countFrame counts frame)[c]? ≠ some 0 := by
  rw [countFrame]
  split
  · exact hpos c
  · split
    · next d payload h =>
      rw [Std.TreeMap.getElem?_insert]
      split
      · simp
      · exact hpos c
    · exact hpos c

/-- The counts behind the histogram. -/
theorem foldl_countFrame (pieces : List (List UInt8)) (c : UInt8) :
    (pieces.foldl countFrame ∅)[c]?.getD 0 = ((pieces.filterMap validFrame).map Prod.fst).count c ∧
      (pieces.foldl countFrame ∅)[c]? ≠ some 0 := by
  induction pieces using List.reverseRecOn generalizing c with
  | nil => simp
  | append_singleton pieces piece ih =>
    have hpiece : [piece].filterMap validFrame = (validFrame piece).toList := by
      cases h : validFrame piece <;> simp [h]
    rw [List.foldl_append, List.foldl_cons, List.foldl_nil]
    constructor
    · rw [getD_countFrame, (ih c).1, List.filterMap_append, List.map_append, List.count_append,
        hpiece]
    · exact countFrame_pos (fun d => (ih d).2) piece c

/-- The histogram lists exactly the channels that occur, each with its number of frames. -/
theorem mem_channelHistogram (capture : List UInt8) (c : UInt8) (n : ℕ) :
    (c, n) ∈ channelHistogram capture ↔
      0 < n ∧ n = ((validFrames capture).map Prod.fst).count c := by
  obtain ⟨hcount, hpos⟩ := foldl_countFrame (capture.splitOn 0) c
  rw [channelHistogram, List.mem_mergeSort, Std.TreeMap.mem_toList_iff_getElem?_eq_some,
    validFrames, ← hcount]
  cases h : ((capture.splitOn 0).foldl countFrame ∅)[c]? with
  | none =>
    simp only [Option.getD_none, reduceCtorEq, false_iff]
    omega
  | some m =>
    rw [h] at hpos
    have hm : m ≠ 0 := fun hzero => hpos (by rw [hzero])
    simp only [Option.getD_some, Option.some.injEq]
    omega

/-- No channel is listed twice. -/
theorem channelHistogram_nodup (capture : List UInt8) :
    ((channelHistogram capture).map Prod.fst).Nodup := by
  have hkeys : ((((capture.splitOn 0).foldl countFrame ∅).toList).map Prod.fst).Nodup := by
    rw [List.Nodup, List.pairwise_map]
    refine Std.TreeMap.distinct_keys_toList.imp ?_
    intro a b hne heq
    exact hne (by simp [heq])
  exact ((List.mergeSort_perm _ _).map Prod.fst).nodup_iff.mpr hkeys

/-! ### Cutting a capture -/

/-- A zero byte splits a capture into two that do not see each other. -/
theorem validFrames_append_zero (a b : List UInt8) :
    validFrames (a ++ 0 :: b) = validFrames a ++ validFrames b := by
  have hsplit : (a ++ 0 :: b).splitOn 0 = a.splitOn 0 ++ b.splitOn 0 := by
    rw [List.splitOn_eq_splitOnP, List.splitOn_eq_splitOnP, List.splitOn_eq_splitOnP]
    exact List.splitOnP_append_cons a b (by simp)
  rw [validFrames, hsplit, List.filterMap_append]
  rfl

/-- A zero byte splits a capture into two that are recovered one after the other. -/
theorem reconstructChannelStream_append (a b : List UInt8) (channel : UInt8) :
    reconstructChannelStream (a ++ [0] ++ b) channel =
      reconstructChannelStream a channel ++ reconstructChannelStream b channel := by
  rw [List.append_assoc, List.singleton_append, reconstructChannelStream_eq,
    validFrames_append_zero, channelPayloads_append, ← reconstructChannelStream_eq,
    ← reconstructChannelStream_eq]

/-- An encoding is one piece, and it unframes. -/
theorem validFrames_encoded (channel : UInt8) (payload : List UInt8) :
    validFrames (encoded channel payload) = [(channel, payload)] := by
  have hpiece : (encoded channel payload).splitOn 0 = [encoded channel payload] := by
    rw [List.splitOn_eq_splitOnP]
    refine List.splitOnP_eq_singleton ?_
    intro b hb
    simpa using encoded_ne_zero channel payload b hb
  have hne : (encoded channel payload).isEmpty = false := by
    rw [List.isEmpty_eq_false_iff]
    exact encoded_ne_nil channel payload
  simp [validFrames, hpiece, validFrame, hne, orbflowUnframe_encoded, Except.toOption]

/-- Whole frames are found again, whatever follows them. -/
theorem validFrames_frames (packets : List (UInt8 × List UInt8)) (rest : List UInt8) :
    validFrames ((packets.map fun p => encoded p.1 p.2 ++ [0]).flatten ++ rest) =
      packets ++ validFrames rest := by
  induction packets with
  | nil => rfl
  | cons p packets ih =>
    rw [List.map_cons, List.flatten_cons, List.append_assoc, List.append_assoc,
      List.singleton_append, validFrames_append_zero, validFrames_encoded, ih]
    rfl

/-- Whole frames are found again. -/
theorem validFrames_flatten (packets : List (UInt8 × List UInt8)) :
    validFrames ((packets.map fun p => encoded p.1 p.2 ++ [0]).flatten) = packets := by
  have hempty : validFrames [] = [] := rfl
  have hfound := validFrames_frames packets []
  rwa [List.append_nil, hempty, List.append_nil] at hfound

/-- **Capture recovery.** A zero byte splits the recovery of any capture. The frames made
from `packets` give each channel its payloads and the histogram its counts. When the frames
from the `i`-th up to the `j`-th are overwritten by anything that still ends in a delimiter,
or everything from the `i`-th on is, the others are recovered all the same. -/
theorem capture_recovery (packets : List (UInt8 × List UInt8))
    (hchannel : ∀ p ∈ packets, p.1 ≤ 0x7f) (a b : List UInt8) (c : UInt8) :
    reconstructChannelStream (a ++ [0] ++ b) c =
        reconstructChannelStream a c ++ reconstructChannelStream b c ∧
      ∃ frames, packets.mapM (fun p => orbflowFrame p.1 p.2) = .ok frames ∧
        reconstructChannelStream frames.flatten c = channelPayloads packets c ∧
        (∀ n, (c, n) ∈ channelHistogram frames.flatten ↔
          0 < n ∧ n = (packets.map Prod.fst).count c) ∧
        ((channelHistogram frames.flatten).map Prod.fst).Nodup ∧
        ∀ i j damage,
          reconstructChannelStream
              ((frames.take i).flatten ++ (damage ++ [0] ++ (frames.drop j).flatten)) c =
            channelPayloads (packets.take i) c ++
              (reconstructChannelStream damage c ++ channelPayloads (packets.drop j) c) ∧
          reconstructChannelStream ((frames.take i).flatten ++ damage) c =
            channelPayloads (packets.take i) c ++ reconstructChannelStream damage c := by
  have hfront : ∀ i rest, reconstructChannelStream
      (((packets.map fun p => encoded p.1 p.2 ++ [0]).take i).flatten ++ rest) c =
        channelPayloads (packets.take i) c ++ reconstructChannelStream rest c := by
    intro i rest
    rw [← List.map_take, reconstructChannelStream_eq, validFrames_frames, channelPayloads_append,
      ← reconstructChannelStream_eq]
  refine ⟨reconstructChannelStream_append a b c, _, orbflowFrame_mapM hchannel, ?_, ?_, ?_, ?_⟩
  · rw [reconstructChannelStream_eq, validFrames_flatten]
  · intro n
    rw [mem_channelHistogram, validFrames_flatten]
  · exact channelHistogram_nodup _
  · intro i j damage
    refine ⟨?_, hfront i damage⟩
    rw [hfront, reconstructChannelStream_append, ← List.map_drop,
      reconstructChannelStream_eq (List.flatten _), validFrames_flatten]

/-- The recovery of two frames on different channels, one of them empty. -/
theorem capture_recovery_two_frames :
    (∀ p ∈ ([(1, [0, 7, 0]), (2, [])] : List (UInt8 × List UInt8)), p.1 ≤ 0x7f) ∧
      ∃ frames, ([(1, [0, 7, 0]), (2, [])] : List (UInt8 × List UInt8)).mapM
          (fun p => orbflowFrame p.1 p.2) = .ok frames ∧
        reconstructChannelStream frames.flatten 1 = [0, 7, 0] := by
  have hchannel : ∀ p ∈ ([(1, [0, 7, 0]), (2, [])] : List (UInt8 × List UInt8)), p.1 ≤ 0x7f := by
    decide
  obtain ⟨-, frames, hframes, hone, -⟩ := capture_recovery _ hchannel [] [] 1
  exact ⟨hchannel, frames, hframes, hone⟩

end Model
