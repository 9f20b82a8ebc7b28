import Zub1cg.Firmware.FrameDecoder

/-!
# Streaming and batch framing agree

Feeding bytes to the decoder one by one answers what `length_unframe` answers on the bytes so far.
A decoder is as new when its registers are; what its payload storage holds from earlier frames does
not show.

## Main definitions

- `FrameDecoder.AsNew` — nothing is left of earlier bytes but stale storage
- `FrameDecoder.results`, `FrameDecoder.after` — a sequence of bytes pushed one by one

## Main results

- `push_lengthUnframe` — one byte, in terms of `length_unframe`
- `streaming_agrees` — a sequence of bytes from a fresh or reset decoder
-/

namespace Firmware

open Model

namespace FrameDecoder

variable {N : ℕ}

/-- Resetting it would change nothing. -/
def AsNew (d : FrameDecoder N) : Prop := d.reset = d

theorem new_asNew : (new : FrameDecoder N).AsNew := rfl

theorem reset_asNew (d : FrameDecoder N) : d.reset.AsNew := rfl

theorem AsNew.holds {d : FrameDecoder N} (h : d.AsNew) : d.Holds [] := h ▸ reset_holds d

/-- What `push` returns for the bytes, one after the other. -/
def results (d : FrameDecoder N) : List UInt8 → List (Except FrameError Bool)
  | [] => []
  | b :: bytes => (d.push b).1 :: (d.push b).2.results bytes

/-- The decoder after the bytes. -/
def after (d : FrameDecoder N) (bytes : List UInt8) : FrameDecoder N :=
  bytes.foldl (fun d b => (d.push b).2) d

theorem after_append (d : FrameDecoder N) (xs ys : List UInt8) :
    d.after (xs ++ ys) = (d.after xs).after ys := List.foldl_append

theorem results_append (d : FrameDecoder N) (xs ys : List UInt8) :
    d.results (xs ++ ys) = d.results xs ++ (d.after xs).results ys := by
  induction xs generalizing d with
  | nil => rfl
  | cons b xs ih => rw [List.cons_append, results, ih]; rfl

/-! ### Unframing the bytes so far -/

/-- The answer on bytes that include the whole length prefix. -/
theorem lengthUnframe_long {bytes : List UInt8} (h : 4 ≤ bytes.length) :
    lengthUnframe bytes N =
      if LittleEndian.toNat (bytes.take 4) > N then
        .error (.TooLarge (LittleEndian.toNat (bytes.take 4)))
      else if bytes.length < LittleEndian.toNat (bytes.take 4) + 4 then .error .Short
      else .ok (slice bytes 4 (4 + LittleEndian.toNat (bytes.take 4)),
        LittleEndian.toNat (bytes.take 4) + 4) := by
  have hlen : (u32FromLe (slice bytes 0 4)).toNat = LittleEndian.toNat (bytes.take 4) := by
    rw [slice, List.drop_zero, u32FromLe_toNat (by simp; omega)]
  rw [lengthUnframe, if_neg (by omega), hlen]

theorem lengthUnframe_short {bytes : List UInt8} (h : bytes.length < 4) :
    lengthUnframe bytes N = .error .Short := by
  rw [lengthUnframe, if_pos h]

/-- The first `k` bytes are not enough if they do not include the whole of a frame that is not
refused. -/
theorem lengthUnframe_take {bytes : List UInt8} {k : ℕ} (hk : k ≤ bytes.length)
    (h : 4 ≤ k → LittleEndian.toNat (bytes.take 4) ≤ N ∧
      k < LittleEndian.toNat (bytes.take 4) + 4) :
    lengthUnframe (bytes.take k) N = .error .Short := by
  have hlength : (bytes.take k).length = k := List.length_take_of_le hk
  by_cases hshort : k < 4
  · exact lengthUnframe_short (by omega)
  · obtain ⟨hfits, hopen⟩ := h (by omega)
    have hprefix : (bytes.take k).take 4 = bytes.take 4 := by
      rw [List.take_take, Nat.min_eq_left (by omega)]
    rw [lengthUnframe_long (by omega), hprefix, hlength, if_neg (by omega), if_pos hopen]

theorem Holds.short {d : FrameDecoder N} {pending : List UInt8} (h : d.Holds pending) :
    lengthUnframe pending N = .error .Short := by
  have hall := lengthUnframe_take (Nat.le_refl pending.length) h.unfinished
  rwa [List.take_length] at hall

/-! ### One byte -/

/-- The byte that completes a length prefix that is too large leaves nothing behind. -/
theorem push_tooLarge {d : FrameDecoder N} {pending : List UInt8} (h : d.Holds pending) {b : UInt8}
    {n : ℕ} (hn : lengthUnframe (pending ++ [b]) N = .error (.TooLarge n)) :
    (d.push b).1 = .error (.TooLarge n) ∧ (d.push b).2.AsNew := by
  have hlong : 4 ≤ (pending ++ [b]).length := by
    by_contra hshort
    rw [lengthUnframe_short (by omega)] at hn
    cases hn
  rw [lengthUnframe_long hlong] at hn
  rw [List.length_append, List.length_singleton] at hlong
  have hthree : pending.length = 3 := by
    by_contra hne
    obtain ⟨hfits, -⟩ := h.unfinished (by omega)
    rw [List.take_append_of_le_length (by omega)] at hn
    rw [if_neg (by omega)] at hn
    split at hn <;> cases hn
  have hwhole : (pending ++ [b]).take 4 = pending ++ [b] := List.take_of_length_le (by simp; omega)
  have hused := h.lengthUsed
  have htake := push_length h (by omega) b
  have hbytes : (d.length.setIfInBounds d.lengthUsed b).toList = pending ++ [b] := by
    rw [← htake, List.take_of_length_le (by simp; omega)]
  have hexp : (u32FromLe (d.length.setIfInBounds d.lengthUsed b).toList).toNat =
      LittleEndian.toNat (pending ++ [b]) := by
    rw [u32FromLe_toNat (by simp), hbytes]
  rw [hwhole] at hn
  split at hn
  · next hbig =>
    cases hn
    simp only [push, h.ready, Bool.false_eq_true, if_false, if_pos (show d.lengthUsed < 4 by omega),
      if_pos (show d.lengthUsed + 1 = 4 by omega), hexp, if_pos hbig, true_and]
    exact reset_asNew _
  · split at hn <;> cases hn

/-- Nothing else can be wrong with a length prefix. -/
theorem lengthUnframe_cases (bytes : List UInt8) :
    lengthUnframe bytes N = .error .Short ∨
      (∃ n, lengthUnframe bytes N = .error (.TooLarge n) ∧ N < n ∧ 4 ≤ bytes.length ∧
        n = LittleEndian.toNat (bytes.take 4)) ∨
      ∃ payload, lengthUnframe bytes N = .ok (payload, payload.length + 4) ∧
        payload.length ≤ N ∧ payload.length + 4 ≤ bytes.length ∧
        payload.length = LittleEndian.toNat (bytes.take 4) := by
  by_cases hlong : 4 ≤ bytes.length
  · rw [lengthUnframe_long hlong]
    split
    · exact .inr (.inl ⟨_, rfl, by omega, hlong, rfl⟩)
    · split
      · exact .inl rfl
      · have hlength : (slice bytes 4 (4 + LittleEndian.toNat (bytes.take 4))).length =
            LittleEndian.toNat (bytes.take 4) := by
          rw [slice, List.length_drop, List.length_take]
          omega
        exact .inr (.inr ⟨_, by rw [hlength], by omega, by omega, hlength⟩)
  · exact .inl (lengthUnframe_short (by omega))

/-- **One byte.** The decoder answers what `length_unframe` does on the bytes of the frame so
far. -/
theorem push_lengthUnframe {d : FrameDecoder N} {pending : List UInt8} (h : d.Holds pending)
    (b : UInt8) :
    match lengthUnframe (pending ++ [b]) N with
    | .ok (payload, _) => (d.push b).1 = .ok true ∧ (d.push b).2.frame = some payload
    | .error .Short => (d.push b).1 = .ok false ∧ (d.push b).2.Holds (pending ++ [b])
    | .error (.TooLarge n) => (d.push b).1 = .error (.TooLarge n) ∧ (d.push b).2.AsNew
    | .error _ => False := by
  have hspec := push_spec h b
  obtain hall | ⟨n, hall, -⟩ | ⟨payload, hall, -⟩ :=
    lengthUnframe_cases (N := N) (pending ++ [b])
  · rw [judge, hall] at hspec
    rw [hall]
    exact hspec
  · rw [hall]
    exact push_tooLarge h hall
  · rw [judge, hall] at hspec
    rw [hall]
    exact hspec

/-! ### A sequence of bytes -/

/-- Bytes that are not enough for a frame are taken in. -/
theorem results_short {d : FrameDecoder N} (h : d.Holds []) {bytes : List UInt8}
    (hshort : ∀ k ≤ bytes.length, lengthUnframe (bytes.take k) N = .error .Short) :
    d.results bytes = List.replicate bytes.length (.ok false) ∧ (d.after bytes).Holds bytes := by
  induction bytes using List.reverseRecOn with
  | nil => exact ⟨rfl, h⟩
  | append_singleton bytes b ih =>
    obtain ⟨hresults, hholds⟩ := ih fun k hk => by
      have := hshort k (by rw [List.length_append]; omega)
      rwa [List.take_append_of_le_length hk] at this
    have hall := hshort _ (Nat.le_refl _)
    rw [List.take_length] at hall
    have hbyte := push_lengthUnframe hholds b
    rw [hall] at hbyte
    refine ⟨?_, ?_⟩
    · rw [results_append, hresults, List.length_append, List.length_singleton,
        List.replicate_succ']
      exact congrArg (_ ++ [·]) hbyte.1
    · rw [after_append]
      exact hbyte.2

/-- While a frame is complete, every byte is refused and changes nothing. -/
theorem push_of_ready {d : FrameDecoder N} (h : d.ready = true) (b : UInt8) :
    d.push b = (.error .FramePending, d) := by
  rw [push, if_pos h]

theorem results_of_ready {d : FrameDecoder N} (h : d.ready = true) (bytes : List UInt8) :
    d.results bytes = List.replicate bytes.length (.error .FramePending) ∧ d.after bytes = d := by
  induction bytes with
  | nil => exact ⟨rfl, rfl⟩
  | cons b bytes ih =>
    rw [results, after, List.foldl_cons, push_of_ready h b]
    exact ⟨congrArg (_ :: ·) ih.1, ih.2⟩

theorem ready_of_frame {d : FrameDecoder N} {payload : List UInt8}
    (h : d.frame = some payload) : d.ready = true := by
  rw [frame] at h
  by_contra hno
  rw [if_neg hno] at h
  cases h

theorem Holds.frame_none {d : FrameDecoder N} {pending : List UInt8} (h : d.Holds pending) :
    d.frame = none := by
  rw [frame, h.ready, if_neg Bool.false_ne_true]

/-- The first bytes of a sequence, up to where `length_unframe` decides. -/
theorem AsNew.take {d : FrameDecoder N} (h : d.AsNew) {bytes : List UInt8} {k : ℕ}
    (hk : k ≤ bytes.length) (hopen : 4 ≤ k → LittleEndian.toNat (bytes.take 4) ≤ N ∧
      k < LittleEndian.toNat (bytes.take 4) + 4) :
    d.results (bytes.take k) = List.replicate k (.ok false) ∧
      (d.after (bytes.take k)).Holds (bytes.take k) := by
  have hlength : (bytes.take k).length = k := List.length_take_of_le hk
  have hshort := @results_short N d h.holds (bytes.take k) fun j hj => by
    rw [hlength] at hj
    rw [List.take_take, Nat.min_eq_left hj]
    exact lengthUnframe_take (by omega) fun hfour => ⟨(hopen (by omega)).1, by
      have := (hopen (by omega)).2
      omega⟩
  rwa [hlength] at hshort

/-- The byte behind the first `k`. -/
theorem exists_take_succ {bytes : List UInt8} {k : ℕ} (hk : k < bytes.length) :
    ∃ b, bytes.take (k + 1) = bytes.take k ++ [b] := by
  refine ⟨bytes[k], ?_⟩
  rw [List.take_add_one, List.getElem?_eq_getElem hk]
  rfl

/-- A sequence that begins with a length that is too large: its fourth byte is refused. -/
theorem AsNew.tooLarge {d : FrameDecoder N} (h : d.AsNew) {bytes : List UInt8} {n : ℕ}
    (hlong : 4 ≤ bytes.length) (hn : n = LittleEndian.toNat (bytes.take 4)) (hlarge : N < n) :
    d.results (bytes.take 4) = List.replicate 3 (.ok false) ++ [.error (.TooLarge n)] ∧
      (d.after (bytes.take 4)).AsNew := by
  obtain ⟨hresults, hholds⟩ := h.take (by omega : 3 ≤ bytes.length) fun hno => by omega
  obtain ⟨b, hb⟩ := exists_take_succ (by omega : 3 < bytes.length)
  have hall : lengthUnframe (bytes.take 3 ++ [b]) N = .error (.TooLarge n) := by
    rw [← hb, lengthUnframe_long (by rw [List.length_take]; omega), List.take_take,
      Nat.min_self, ← hn, if_pos hlarge]
  obtain ⟨hresult, hnew⟩ := push_tooLarge hholds hall
  rw [hb, results_append, hresults, after_append]
  exact ⟨congrArg (_ ++ [·]) hresult, hnew⟩

/-- A frame is unframed alike without what follows it. -/
theorem lengthUnframe_take_frame {bytes payload : List UInt8}
    (hall : lengthUnframe bytes N = .ok (payload, payload.length + 4))
    (hfits : payload.length ≤ N) (hlong : payload.length + 4 ≤ bytes.length)
    (hlength : payload.length = LittleEndian.toNat (bytes.take 4)) :
    lengthUnframe (bytes.take (payload.length + 4)) N = .ok (payload, payload.length + 4) := by
  have hprefix : (bytes.take (payload.length + 4)).take 4 = bytes.take 4 := by
    rw [List.take_take, Nat.min_eq_left (by omega)]
  have htaken : (bytes.take (payload.length + 4)).length = payload.length + 4 :=
    List.length_take_of_le hlong
  have hslice : slice (bytes.take (payload.length + 4)) 4 (4 + payload.length) =
      slice bytes 4 (4 + payload.length) := by
    rw [slice, slice, List.take_take, Nat.min_eq_left (by omega)]
  rw [lengthUnframe_long (by omega), ← hlength, if_neg (by omega), if_neg (by omega)] at hall
  rw [lengthUnframe_long (by omega), hprefix, ← hlength, htaken, if_neg (by omega),
    if_neg (by omega), hslice]
  exact hall

/-- Nothing happens behind the byte that makes the decoder ready. -/
theorem after_take_of_ready {d : FrameDecoder N} {bytes : List UInt8} {m k : ℕ}
    (hready : (d.after (bytes.take m)).ready = true) (hk : m ≤ k) :
    d.after (bytes.take k) = d.after (bytes.take m) := by
  have hcut : bytes.take k = bytes.take m ++ (bytes.take k).drop m := by
    conv_lhs => rw [← List.take_append_drop m (bytes.take k)]
    rw [List.take_take, Nat.min_eq_left hk]
  rw [hcut, after_append, (results_of_ready hready _).2]

/-- A sequence that begins with a frame: the byte that completes it makes the decoder ready, and
all further ones are refused. -/
theorem AsNew.completed {d : FrameDecoder N} (h : d.AsNew) {bytes payload : List UInt8}
    (hall : lengthUnframe bytes N = .ok (payload, payload.length + 4))
    (hfits : payload.length ≤ N) (hlong : payload.length + 4 ≤ bytes.length)
    (hlength : payload.length = LittleEndian.toNat (bytes.take 4)) :
    d.results bytes = List.replicate (payload.length + 3) (.ok false) ++
        .ok true :: List.replicate (bytes.length - (payload.length + 4)) (.error .FramePending) ∧
      ∀ k, payload.length + 4 ≤ k → d.after (bytes.take k) =
          d.after (bytes.take (payload.length + 4)) ∧
        (d.after (bytes.take k)).frame = some payload := by
  obtain ⟨hresults, hholds⟩ := h.take (by omega : payload.length + 3 ≤ bytes.length) fun _ =>
    ⟨by omega, by omega⟩
  obtain ⟨b, hb⟩ : ∃ b, bytes.take (payload.length + 4) =
      bytes.take (payload.length + 3) ++ [b] :=
    exists_take_succ (by omega : payload.length + 3 < bytes.length)
  have hbyte := push_lengthUnframe hholds b
  rw [← hb, lengthUnframe_take_frame hall hfits hlong hlength] at hbyte
  obtain ⟨hresult, hframe⟩ := hbyte
  have hafter : d.after (bytes.take (payload.length + 4)) =
      ((d.after (bytes.take (payload.length + 3))).push b).2 := by
    rw [hb, after_append]
    rfl
  rw [← hafter] at hframe
  have hready := ready_of_frame hframe
  constructor
  · conv_lhs => rw [← List.take_append_drop (payload.length + 4) bytes, results_append]
    have hlast : (d.after (bytes.take (payload.length + 3))).results [b] = [.ok true] :=
      congrArg ([·]) hresult
    rw [(results_of_ready hready _).1, List.length_drop, hb, results_append, hresults, hlast,
      List.append_assoc]
    rfl
  · intro k hk
    have hsame := after_take_of_ready hready hk
    rw [hsame]
    exact ⟨rfl, hframe⟩

/-- A sequence that is not enough for a frame: all of it is taken. -/
theorem AsNew.unfinished {d : FrameDecoder N} (h : d.AsNew) {bytes : List UInt8}
    (hall : lengthUnframe bytes N = .error .Short) :
    d.results bytes = List.replicate bytes.length (.ok false) ∧ (d.after bytes).frame = none := by
  have hopen : 4 ≤ bytes.length → LittleEndian.toNat (bytes.take 4) ≤ N ∧
      bytes.length < LittleEndian.toNat (bytes.take 4) + 4 := by
    intro hfour
    rw [lengthUnframe_long hfour] at hall
    split at hall
    · cases hall
    · split at hall
      · exact ⟨by omega, by assumption⟩
      · cases hall
  have htaken := h.take (Nat.le_refl _) hopen
  rw [List.take_length] at htaken
  exact ⟨htaken.1, htaken.2.frame_none⟩

/-- Two decoders that are as new cannot be told apart. -/
theorem AsNew.same {d e : FrameDecoder N} (hd : d.AsNew) (he : e.AsNew) (bytes : List UInt8) :
    d.results bytes = e.results bytes ∧ (d.after bytes).frame = (e.after bytes).frame := by
  induction hsize : bytes.length using Nat.strongRecOn generalizing d e bytes with
  | _ n ih =>
    obtain hall | ⟨n, hall, hlarge, hlong, hn⟩ | ⟨payload, hall, hfits, hlong, hlength⟩ :=
      lengthUnframe_cases (N := N) bytes
    · have hone := hd.unfinished hall
      have htwo := he.unfinished hall
      exact ⟨hone.1.trans htwo.1.symm, hone.2.trans htwo.2.symm⟩
    · -- both start over behind the length prefix
      obtain ⟨hone, hone'⟩ := hd.tooLarge hlong hn hlarge
      obtain ⟨htwo, htwo'⟩ := he.tooLarge hlong hn hlarge
      have hrest := ih (bytes.drop 4).length (by rw [List.length_drop]; omega) hone' htwo' _ rfl
      rw [← after_append, ← after_append, List.take_append_drop] at hrest
      refine ⟨?_, hrest.2⟩
      conv_lhs => rw [← List.take_append_drop 4 bytes, results_append, hone, hrest.1]
      conv_rhs => rw [← List.take_append_drop 4 bytes, results_append, htwo]
    · obtain ⟨hone, hone'⟩ := hd.completed hall hfits hlong hlength
      obtain ⟨htwo, htwo'⟩ := he.completed hall hfits hlong hlength
      have hframe := (hone' bytes.length hlong).2
      have hframe' := (htwo' bytes.length hlong).2
      rw [List.take_length] at hframe hframe'
      exact ⟨hone.trans htwo.symm, hframe.trans hframe'.symm⟩

/-- What a decoder that is as new makes of the bytes, in terms of `length_unframe`. -/
theorem AsNew.agrees {d : FrameDecoder N} (h : d.AsNew) (bytes : List UInt8) :
    match lengthUnframe bytes N with
    | .error .Short => d.results bytes = List.replicate bytes.length (.ok false) ∧
        (d.after bytes).frame = none
    | .ok (payload, used) => 4 ≤ used ∧ used ≤ bytes.length ∧
        d.results bytes = List.replicate (used - 1) (.ok false) ++
          .ok true :: List.replicate (bytes.length - used) (.error .FramePending) ∧
        (∀ k < used, (d.after (bytes.take k)).frame = none) ∧
        ∀ k, used ≤ k → d.after (bytes.take k) = d.after (bytes.take used) ∧
          (d.after (bytes.take k)).frame = some payload
    | .error (.TooLarge n) => N < n ∧
        d.results (bytes.take 4) = List.replicate 3 (.ok false) ++ [.error (.TooLarge n)] ∧
        (d.after (bytes.take 4)).AsNew
    | .error _ => False := by
  obtain hall | ⟨n, hall, hlarge, hlong, hn⟩ | ⟨payload, hall, hfits, hlong, hlength⟩ :=
    lengthUnframe_cases (N := N) bytes
  · rw [hall]
    exact h.unfinished hall
  · rw [hall]
    exact ⟨hlarge, h.tooLarge hlong hn hlarge⟩
  · obtain ⟨hresults, hbehind⟩ := h.completed hall hfits hlong hlength
    rw [hall]
    refine ⟨Nat.le_add_left _ _, hlong, hresults, fun k hk => ?_, hbehind⟩
    exact (h.take (by omega) fun _ => ⟨by omega, by omega⟩).2.frame_none

/-- The framing of a payload that fits is taken back to it. -/
theorem AsNew.takes_framed {d : FrameDecoder N} (h : d.AsNew) (hN : N < 2 ^ 32) {payload : List UInt8}
    (hfits : payload.length ≤ N) :
    d.results (framed payload) =
        List.replicate ((framed payload).length - 1) (.ok false) ++ [.ok true] ∧
      (d.after (framed payload)).frame = some payload := by
  have hframed := judge_framed hfits hN
  obtain hall | ⟨n, hall, -⟩ | ⟨other, hall, -, hlong, hsame⟩ :=
    lengthUnframe_cases (N := N) (framed payload)
  · rw [judge, hall] at hframed
    cases hframed
  · rw [judge, hall] at hframed
    cases hframed
  · rw [judge, hall] at hframed
    cases hframed
    obtain ⟨hresults, hbehind⟩ := h.completed hall hfits hlong hsame
    have hframe := (hbehind _ hlong).2
    rw [List.take_length] at hframe
    refine ⟨?_, hframe⟩
    rw [hresults, length_framed, Nat.sub_self]
    rfl

/-! ### The storage -/

/-- A decoder that has been pushed bytes holds the beginning of a frame, or a frame. -/
theorem Holds.push {d : FrameDecoder N} {pending : List UInt8} (h : d.Holds pending) (b : UInt8) :
    (∃ pending, (d.push b).2.Holds pending) ∨ (d.push b).2.ready = true := by
  have hbyte := push_lengthUnframe h b
  obtain hall | ⟨n, hall, -⟩ | ⟨payload, hall, -⟩ := lengthUnframe_cases (N := N) (pending ++ [b])
  · rw [hall] at hbyte
    exact .inl ⟨_, hbyte.2⟩
  · rw [hall] at hbyte
    exact .inl ⟨[], hbyte.2.holds⟩
  · rw [hall] at hbyte
    exact .inr (ready_of_frame hbyte.2)

theorem AsNew.reached {d : FrameDecoder N} (h : d.AsNew) (bytes : List UInt8) :
    (∃ pending, (d.after bytes).Holds pending) ∨ (d.after bytes).ready = true := by
  induction bytes using List.reverseRecOn with
  | nil => exact .inl ⟨[], h.holds⟩
  | append_singleton bytes b ih =>
    rw [after_append]
    obtain ⟨pending, hholds⟩ | hready := ih
    · exact hholds.push b
    · right
      change ((d.after bytes).push b).2.ready = true
      rw [push_of_ready hready]
      exact hready

/-- Where a payload byte is written there is room for it. -/
theorem AsNew.room {d : FrameDecoder N} (h : d.AsNew) {bytes : List UInt8}
    (hopen : (d.after bytes).ready = false) (hpayload : ¬ (d.after bytes).lengthUsed < 4) :
    (d.after bytes).payloadUsed < (d.after bytes).expected ∧ (d.after bytes).expected ≤ N := by
  obtain ⟨pending, hholds⟩ | hready := h.reached bytes
  · have hused := hholds.lengthUsed
    have hpused := hholds.payloadUsed
    have hexp := hholds.expected (by omega)
    obtain ⟨hfits, hunfinished⟩ := hholds.unfinished (by omega)
    omega
  · rw [hopen] at hready
    contradiction

/-- **Streaming and batch framing agree.** Push any bytes one by one into a decoder that is fresh or
has been reset.

- While `length_unframe` says `Short`, every byte is taken and the decoder is not ready. If it
  gives a payload, the byte that completes it makes the decoder ready with this payload, no byte
  before it does, and all behind it are refused. If it says `TooLarge`, so does the fourth byte, and
  the decoder is as new.
- A decoder that is as new answers every further byte as a fresh one does.
- A byte that is pushed while a frame is complete changes nothing.
- A payload byte is written inside the storage.
- The framing of a payload that fits is taken back to it. -/
theorem streaming_agrees (hN : N < 2 ^ 32) {d : FrameDecoder N}
    (hd : d = new ∨ ∃ e : FrameDecoder N, d = e.reset) :
    (∀ bytes, match lengthUnframe bytes N with
      | .error .Short => d.results bytes = List.replicate bytes.length (.ok false) ∧
          (d.after bytes).frame = none
      | .ok (payload, used) => 4 ≤ used ∧ used ≤ bytes.length ∧
          d.results bytes = List.replicate (used - 1) (.ok false) ++
            .ok true :: List.replicate (bytes.length - used) (.error .FramePending) ∧
          (∀ k < used, (d.after (bytes.take k)).frame = none) ∧
          ∀ k, used ≤ k → d.after (bytes.take k) = d.after (bytes.take used) ∧
            (d.after (bytes.take k)).frame = some payload
      | .error (.TooLarge n) => N < n ∧
          d.results (bytes.take 4) = List.replicate 3 (.ok false) ++ [.error (.TooLarge n)] ∧
          (d.after (bytes.take 4)).AsNew
      | .error _ => False) ∧
    (∀ (e : FrameDecoder N), e.AsNew → ∀ bytes,
      e.results bytes = (new : FrameDecoder N).results bytes ∧
        (e.after bytes).frame = ((new : FrameDecoder N).after bytes).frame) ∧
    (∀ (e : FrameDecoder N) b, e.ready = true → e.push b = (.error .FramePending, e)) ∧
    (∀ bytes, (d.after bytes).ready = false → ¬ (d.after bytes).lengthUsed < 4 →
      (d.after bytes).payloadUsed < (d.after bytes).expected ∧ (d.after bytes).expected ≤ N) ∧
    ∀ payload : List UInt8, payload.length ≤ N → ∃ bytes, lengthFrame payload N = .ok bytes ∧
      d.results bytes = List.replicate (bytes.length - 1) (.ok false) ++ [.ok true] ∧
      (d.after bytes).frame = some payload := by
  have hnew : d.AsNew := by
    obtain rfl | ⟨e, rfl⟩ := hd
    · exact new_asNew
    · exact reset_asNew e
  refine ⟨hnew.agrees, fun e he bytes => he.same new_asNew bytes,
    fun e b hready => push_of_ready hready b, fun bytes => hnew.room, fun payload hfits => ?_⟩
  exact ⟨_, lengthFrame_eq_ok hfits, hnew.takes_framed hN hfits⟩

/-- Two bytes through a fresh decoder with room for four. -/
theorem streaming_agrees_two_bytes :
    ∃ bytes, lengthFrame [7, 8] 4 = .ok bytes ∧
      (new : FrameDecoder 4).results bytes =
        List.replicate (bytes.length - 1) (.ok false) ++ [.ok true] ∧
      ((new : FrameDecoder 4).after bytes).frame = some [7, 8] :=
  (streaming_agrees (by decide) (.inl rfl)).2.2.2.2 [7, 8] (by decide)

end FrameDecoder

end Firmware
