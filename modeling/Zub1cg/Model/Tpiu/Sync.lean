import Zub1cg.Model.Tpiu
import Mathlib.Data.List.Infix

/-!
# Where a decoder locks

The window of a decoder holds the last four bytes of its stream, the newest one on top. A
decoder fed from the start therefore locks with the byte that completes the first occurrence
of the little-endian bytes of its sync word.

## Main results

- `window_eq_iff` — the window holds a word exactly when its bytes end the stream
- `feed_synced_iff` — a decoder is synchronised exactly when its sync packet has occurred
-/

namespace Model.TpiuDecoder

/-! ### Feeding a stream -/

theorem feed_concat (sync : UInt32) (d : TpiuDecoder) (bytes : List UInt8) (byte : UInt8) :
    feed sync d (bytes ++ [byte]) =
      ((pushAt sync (feed sync d bytes).1 byte).1,
        (feed sync d bytes).2 ++ (pushAt sync (feed sync d bytes).1 byte).2) := by
  rw [feed, List.foldl_append]
  rfl

/-- A synchronised decoder has no use for its sync word, and stays synchronised. -/
theorem pushAt_synced {d : TpiuDecoder} (h : d.synced = true) (sync sync' : UInt32)
    (byte : UInt8) :
    pushAt sync d byte = pushAt sync' d byte ∧ (pushAt sync d byte).1.synced = true := by
  simp only [pushAt, h, Bool.not_true, Bool.false_eq_true, if_false]
  refine ⟨trivial, ?_⟩
  split <;> rfl

theorem feed_synced {d : TpiuDecoder} (h : d.synced = true) (sync sync' : UInt32)
    (bytes : List UInt8) :
    feed sync d bytes = feed sync' d bytes ∧ (feed sync d bytes).1.synced = true := by
  induction bytes using List.reverseRecOn with
  | nil => exact ⟨rfl, h⟩
  | append_singleton bytes byte ih =>
    obtain ⟨hsame, hsynced⟩ := ih
    obtain ⟨hpush, hstays⟩ := pushAt_synced hsynced sync sync' byte
    rw [feed_concat, feed_concat, ← hsame, hpush]
    exact ⟨rfl, hpush ▸ hstays⟩

/-! ### The window -/

theorem shiftIn_toNat (window : UInt32) (byte : UInt8) :
    (shiftIn window byte).toNat = window.toNat / 2 ^ 8 + byte.toNat * 2 ^ 24 := by
  have hbyte := byte.toNat_lt
  have hwindow := window.toNat_lt
  have hlow : window.toNat / 2 ^ 8 < 2 ^ 24 := by omega
  have hhigh : (byte.toUInt32 <<< 24).toNat = byte.toNat <<< 24 := by
    rw [UInt32.toNat_shiftLeft, UInt8.toNat_toUInt32]
    simp only [Nat.shiftLeft_eq]
    change byte.toNat * 2 ^ 24 % 2 ^ 32 = _
    omega
  have hshift : (window >>> 8).toNat = window.toNat / 2 ^ 8 := by
    rw [UInt32.toNat_shiftRight]
    simp only [Nat.shiftRight_eq_div_pow]
    rfl
  rw [shiftIn, UInt32.toNat_or, hshift, hhigh, Nat.or_comm,
    ← Nat.shiftLeft_add_eq_or_of_lt hlow, Nat.shiftLeft_eq, Nat.add_comm]

theorem shiftIn_toBitVec (window : UInt32) (byte : UInt8) :
    (shiftIn window byte).toBitVec = byte.toBitVec ++ window.toBitVec.extractLsb' 8 24 := by
  have hwindow := window.toNat_lt
  have hlow : window.toNat / 2 ^ 8 < 2 ^ 24 := by omega
  have hslice : (window.toBitVec.extractLsb' 8 24).toNat = window.toNat / 2 ^ 8 := by
    rw [BitVec.extractLsb'_toNat, UInt32.toNat_toBitVec, Nat.shiftRight_eq_div_pow]
    omega
  apply BitVec.eq_of_toNat_eq
  rw [UInt32.toNat_toBitVec, shiftIn_toNat, BitVec.toNat_append, hslice, UInt8.toNat_toBitVec,
    ← Nat.shiftLeft_add_eq_or_of_lt hlow, Nat.shiftLeft_eq, Nat.add_comm]

/-- The window after a stream. -/
def window (bytes : List UInt8) : UInt32 := bytes.foldl shiftIn 0

theorem pushAt_syncWindow (sync : UInt32) (d : TpiuDecoder) (byte : UInt8) :
    (pushAt sync d byte).1.syncWindow = shiftIn d.syncWindow byte := by
  rw [pushAt]
  dsimp only
  split
  · split <;> rfl
  · split <;> rfl

theorem feed_syncWindow (sync : UInt32) (bytes : List UInt8) :
    (feed sync initial bytes).1.syncWindow = window bytes := by
  induction bytes using List.reverseRecOn with
  | nil => rfl
  | append_singleton bytes byte ih =>
    rw [feed_concat, pushAt_syncWindow, ih, window, window, List.foldl_append]
    rfl

/-- The window forgets all but the last four bytes. -/
theorem window_append_four (xs : List UInt8) (a b c d : UInt8) :
    window (xs ++ [a, b, c, d]) = u32FromLe [a, b, c, d] := by
  apply UInt32.toNat_inj.mp
  rw [u32FromLe_toNat rfl, window, List.foldl_append]
  simp only [List.foldl_cons, List.foldl_nil, shiftIn_toNat, LittleEndian.toNat_cons,
    LittleEndian.toNat_nil]
  have hold := (xs.foldl shiftIn 0).toNat_lt
  have ha := a.toNat_lt
  have hb := b.toNat_lt
  have hc := c.toNat_lt
  omega

/-- Before the fourth byte the oldest place of the window is still empty. -/
theorem window_short {bytes : List UInt8} (h : bytes.length < 4) :
    (window bytes).toNat % 256 = 0 := by
  match bytes, h with
  | [], _ => rfl
  | [a], _ =>
    simp only [window, List.foldl_cons, List.foldl_nil, shiftIn_toNat, UInt32.toNat_zero]
    omega
  | [a, b], _ =>
    simp only [window, List.foldl_cons, List.foldl_nil, shiftIn_toNat, UInt32.toNat_zero]
    omega
  | [a, b, c], _ =>
    simp only [window, List.foldl_cons, List.foldl_nil, shiftIn_toNat, UInt32.toNat_zero]
    omega

/-- **The window holds a word exactly when the word's bytes end the stream**, provided that the
oldest of them is not the zero the window starts with. -/
theorem window_eq_iff {sync : UInt32} (hsync : sync.toNat % 256 ≠ 0) (bytes : List UInt8) :
    window bytes = sync ↔ u32ToLe sync <:+ bytes := by
  obtain hshort | hlong := Nat.lt_or_ge bytes.length 4
  · refine iff_of_false ?_ ?_
    · rintro rfl
      exact hsync (window_short hshort)
    · intro hsuffix
      have := hsuffix.length_le
      rw [u32ToLe_length] at this
      omega
  · obtain ⟨xs, a, b, c, d, rfl⟩ : ∃ xs a b c d, bytes = xs ++ [a, b, c, d] := by
      have hdrop : (bytes.drop (bytes.length - 4)).length = 4 := by
        rw [List.length_drop]
        omega
      obtain ⟨a, b, c, d, hfour⟩ := List.length_eq_four.mp hdrop
      exact ⟨bytes.take (bytes.length - 4), a, b, c, d, by rw [← hfour, List.take_append_drop]⟩
    have hfour : u32ToLe sync <:+ xs ++ [a, b, c, d] ↔ u32ToLe sync = [a, b, c, d] := by
      constructor
      · intro hsuffix
        have hlast := List.suffix_of_suffix_length_le hsuffix (List.suffix_append xs [a, b, c, d])
          (by rw [u32ToLe_length]; rfl)
        exact hlast.eq_of_length (u32ToLe_length sync)
      · intro h
        rw [h]
        exact List.suffix_append _ _
    rw [window_append_four, hfour]
    constructor
    · rintro rfl
      rw [u32ToLe, u32FromLe_toNat rfl]
      exact LittleEndian.ofNat_toNat [a, b, c, d]
    · intro h
      rw [← h, u32FromLe_u32ToLe]

/-! ### Locking -/

theorem pushAt_unsynced {d : TpiuDecoder} (h : d.synced = false) (sync : UInt32) (byte : UInt8) :
    ((pushAt sync d byte).1.synced = true ↔ shiftIn d.syncWindow byte = sync) ∧
      (pushAt sync d byte).2 = [] := by
  simp only [pushAt, h, Bool.not_false, if_true]
  split
  · next hmatch => exact ⟨iff_of_true rfl hmatch, rfl⟩
  · next hmatch => exact ⟨iff_of_false (by simp) hmatch, rfl⟩

/-- **A decoder is synchronised exactly when its sync packet has occurred**, and has returned
nothing before. -/
theorem feed_synced_iff {sync : UInt32} (hsync : sync.toNat % 256 ≠ 0) (bytes : List UInt8) :
    ((feed sync initial bytes).1.synced = true ↔ u32ToLe sync <:+: bytes) ∧
      ((feed sync initial bytes).1.synced = false → (feed sync initial bytes).2 = []) := by
  induction bytes using List.reverseRecOn with
  | nil =>
    refine ⟨iff_of_false Bool.false_ne_true ?_, fun _ => rfl⟩
    intro hinfix
    have := hinfix.length_le
    rw [u32ToLe_length] at this
    simp at this
  | append_singleton bytes byte ih =>
    obtain ⟨hlocked, hquiet⟩ := ih
    rw [feed_concat, List.infix_concat_iff, ← window_eq_iff hsync, ← hlocked]
    have hwindow : window (bytes ++ [byte]) =
        shiftIn (feed sync initial bytes).1.syncWindow byte := by
      rw [feed_syncWindow, window, window, List.foldl_append]
      rfl
    cases hs : (feed sync initial bytes).1.synced with
    | true =>
      have hstays := (pushAt_synced hs sync sync byte).2
      refine ⟨iff_of_true hstays (.inr rfl), fun hun => ?_⟩
      rw [hstays] at hun
      cases hun
    | false =>
      obtain ⟨hlock, hnone⟩ := pushAt_unsynced hs sync byte
      rw [hlock, hnone, hquiet hs, hwindow]
      exact ⟨by simp, fun _ => rfl⟩

end Model.TpiuDecoder
