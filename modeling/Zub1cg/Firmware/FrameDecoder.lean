import Zub1cg.Library.Framing
import Zub1cg.Model.Wire

/-!
# The length-framing decoder (`firmware/common/src/lib.rs`)

`FrameDecoder` collects one frame, byte by byte, in fixed storage. `FrameDecoder.push_spec`
says that it decides about every byte as the host's `lengthUnframe` does about the bytes
collected so far.

## Main definitions

- `FrameDecoder`, `FrameDecoder.push`, `FrameDecoder.frame`, `FrameDecoder.reset`
- `FrameDecoder.Holds` — the decoder has collected these bytes of an unfinished frame
-/

namespace Firmware

open Model

inductive FrameError where
  | TooLarge (declared : ℕ)
  | FramePending
  deriving DecidableEq, Repr

/-- Allocation-free decoder for the little-endian u32 length framing. -/
structure FrameDecoder (N : ℕ) where
  length : Vector UInt8 4
  lengthUsed : ℕ
  expected : ℕ
  payload : Vector UInt8 N
  payloadUsed : ℕ
  ready : Bool

namespace FrameDecoder

variable {N : ℕ}

def new : FrameDecoder N where
  length := Vector.replicate 4 0
  lengthUsed := 0
  expected := 0
  payload := Vector.replicate N 0
  payloadUsed := 0
  ready := false

/-- Forget the frame. The payload storage keeps its bytes. -/
def reset (self : FrameDecoder N) : FrameDecoder N :=
  { self with
    length := Vector.replicate 4 0
    lengthUsed := 0
    expected := 0
    payloadUsed := 0
    ready := false }

/-- Consume one byte; `ok true` when it completes the frame. -/
def push (self : FrameDecoder N) (byte : UInt8) : Except FrameError Bool × FrameDecoder N :=
  if self.ready then (.error .FramePending, self)
  else if self.lengthUsed < 4 then
    let self := { self with
      length := self.length.setIfInBounds self.lengthUsed byte
      lengthUsed := self.lengthUsed + 1 }
    if self.lengthUsed = 4 then
      let self := { self with expected := (u32FromLe self.length.toList).toNat }
      if self.expected > N then (.error (.TooLarge self.expected), self.reset)
      else
        let self := { self with ready := self.expected == 0 }
        (.ok self.ready, self)
    else (.ok self.ready, self)
  else
    let self := { self with
      payload := self.payload.setIfInBounds self.payloadUsed byte
      payloadUsed := self.payloadUsed + 1 }
    let self := { self with ready := self.payloadUsed == self.expected }
    (.ok self.ready, self)

/-- The completed payload. -/
def frame (self : FrameDecoder N) : Option (List UInt8) :=
  if self.ready then some (self.payload.toList.take self.expected) else none

/-! ### The bytes collected so far -/

/-- What the host's unframing makes of the bytes of a frame. -/
def judge (N : ℕ) (bytes : List UInt8) : Framing.Verdict (List UInt8) :=
  match lengthUnframe bytes N with
  | .ok (payload, _) => .frame payload
  | .error .Short => .more
  | .error _ => .invalid

/-- The decoder has collected `pending`, the beginning of an unfinished frame. -/
structure Holds (d : FrameDecoder N) (pending : List UInt8) : Prop where
  ready : d.ready = false
  lengthUsed : d.lengthUsed = min 4 pending.length
  length : d.length.toList.take d.lengthUsed = pending.take 4
  expected : 4 ≤ pending.length → d.expected = LittleEndian.toNat (pending.take 4)
  payloadUsed : d.payloadUsed = pending.length - 4
  payload : d.payload.toList.take d.payloadUsed = pending.drop 4
  unfinished : 4 ≤ pending.length →
    LittleEndian.toNat (pending.take 4) ≤ N ∧
      pending.length < LittleEndian.toNat (pending.take 4) + 4

theorem new_holds : (new : FrameDecoder N).Holds [] := by
  constructor <;> simp [new]

theorem reset_holds (d : FrameDecoder N) : d.reset.Holds [] := by
  constructor <;> simp [reset]

theorem judge_short {bytes : List UInt8} (h : bytes.length < 4) : judge N bytes = .more := by
  simp [judge, lengthUnframe, h]

/-- The verdict on bytes that include the whole length prefix. -/
theorem judge_long {bytes : List UInt8} (h : 4 ≤ bytes.length) :
    judge N bytes =
      if LittleEndian.toNat (bytes.take 4) > N then .invalid
      else if bytes.length < LittleEndian.toNat (bytes.take 4) + 4 then .more
      else .frame (slice bytes 4 (4 + LittleEndian.toNat (bytes.take 4))) := by
  have hlen : (u32FromLe (slice bytes 0 4)).toNat = LittleEndian.toNat (bytes.take 4) := by
    rw [slice, List.drop_zero, u32FromLe_toNat (by simp; omega)]
  rw [judge, lengthUnframe]
  rw [if_neg (by omega), hlen]
  by_cases hbig : LittleEndian.toNat (bytes.take 4) > N
  · simp [hbig]
  · by_cases hshort : bytes.length < LittleEndian.toNat (bytes.take 4) + 4
    · simp [hbig, hshort]
    · simp [hbig, hshort]

theorem judge_eq_frame {bytes payload : List UInt8} (h : judge N bytes = .frame payload) :
    payload.length = LittleEndian.toNat (bytes.take 4) ∧ payload.length + 4 ≤ bytes.length := by
  by_cases hlong : 4 ≤ bytes.length
  · rw [judge_long hlong] at h
    split at h
    · cases h
    · split at h
      · cases h
      · cases h
        simp only [slice, List.length_drop, List.length_take]
        omega
  · rw [judge_short (by omega)] at h
    cases h

/-- A frame completed by its last byte has no byte to spare. -/
theorem length_of_completed {bytes payload : List UInt8} {b : UInt8} (hmore : judge N bytes = .more)
    (hframe : judge N (bytes ++ [b]) = .frame payload) :
    (bytes ++ [b]).length = payload.length + 4 := by
  obtain ⟨hlen, hle⟩ := judge_eq_frame hframe
  rw [List.length_append, List.length_singleton] at hle ⊢
  by_cases hlong : 4 ≤ bytes.length
  · rw [List.take_append_of_le_length hlong] at hlen
    rw [judge_long hlong] at hmore
    split at hmore
    · cases hmore
    · split at hmore
      · omega
      · cases hmore
  · omega

/-- The length-prefixed encoding of a payload. -/
def framed (payload : List UInt8) : List UInt8 :=
  u32ToLe (UInt32.ofNat payload.length) ++ payload

theorem lengthFrame_eq_ok {payload : List UInt8} {maximum : ℕ} (h : payload.length ≤ maximum) :
    lengthFrame payload maximum = .ok (framed payload) :=
  lengthFrame_eq_ok_iff.mpr ⟨h, rfl⟩

@[simp] theorem length_framed (payload : List UInt8) :
    (framed payload).length = payload.length + 4 := by
  rw [framed, List.length_append, u32ToLe_length, Nat.add_comm]

/-- The prefix of the encoding reads back as the payload's length. -/
theorem toNat_framed {payload : List UInt8} (h : payload.length < 2 ^ 32) :
    LittleEndian.toNat ((framed payload).take 4) = payload.length := by
  rw [framed, List.take_append_of_le_length (by rw [u32ToLe_length]),
    List.take_of_length_le (by rw [u32ToLe_length]), u32ToLe, LittleEndian.toNat_ofNat_of_lt]
  · exact UInt32.toNat_ofNat_of_lt' h
  · exact UInt32.toNat_lt _

/-- The encoding is a frame, and no beginning of it is. -/
theorem judge_framed {payload : List UInt8} (h : payload.length ≤ N) (hN : N < 2 ^ 32) :
    judge N (framed payload) = .frame payload := by
  have hlen := length_framed payload
  rw [judge_long (by omega), toNat_framed (by omega), if_neg (by omega), if_neg (by omega), slice,
    List.take_of_length_le (by omega), framed, List.drop_left' (u32ToLe_length _)]

theorem judge_take_framed {payload : List UInt8} (h : payload.length ≤ N) (hN : N < 2 ^ 32)
    {k : ℕ} (hk : k < (framed payload).length) : judge N ((framed payload).take k) = .more := by
  have hlen := length_framed payload
  by_cases hshort : k < 4
  · exact judge_short (by rw [List.length_take]; omega)
  · have htake : ((framed payload).take k).take 4 = (framed payload).take 4 := by
      rw [List.take_take, Nat.min_eq_left (by omega)]
    rw [judge_long (by rw [List.length_take]; omega), htake, toNat_framed (by omega),
      if_neg (by omega), if_pos (by rw [List.length_take]; omega)]

/-- Writing at the fill level extends the filled part. -/
theorem take_setIfInBounds {n k : ℕ} (v : Vector UInt8 n) (b : UInt8) (hk : k < n) :
    (v.setIfInBounds k b).toList.take (k + 1) = v.toList.take k ++ [b] := by
  have hlen : k < v.toList.length := by simpa using hk
  rw [Vector.toList_setIfInBounds, List.take_add_one, List.take_set_of_le (Nat.le_refl k),
    List.getElem?_set_self hlen]
  rfl

/-- A byte of the length prefix. -/
theorem push_length {d : FrameDecoder N} {pending : List UInt8} (h : d.Holds pending)
    (hshort : pending.length < 4) (b : UInt8) :
    (d.length.setIfInBounds d.lengthUsed b).toList.take (pending.length + 1) = pending ++ [b] := by
  have hused : d.lengthUsed = pending.length := by have := h.lengthUsed; omega
  have hall : pending.take 4 = pending := List.take_of_length_le (by omega)
  rw [hused, take_setIfInBounds _ _ hshort, ← hused, h.length, hall]

/-- A byte has the effect that the host's verdict on the bytes up to it asks for. -/
def Agrees (d : FrameDecoder N) (pending : List UInt8) (b : UInt8) : Prop :=
  match judge N (pending ++ [b]) with
  | .more => (d.push b).1 = .ok false ∧ (d.push b).2.Holds (pending ++ [b])
  | .invalid => ∃ n, (d.push b).1 = .error (.TooLarge n) ∧ (d.push b).2.Holds []
  | .frame f => (d.push b).1 = .ok true ∧ (d.push b).2.frame = some f

/-- A byte of the length prefix that does not complete it. -/
theorem push_short {d : FrameDecoder N} {pending : List UInt8} (h : d.Holds pending)
    (hlt : pending.length < 3) (b : UInt8) : d.Agrees pending b := by
  have hused := h.lengthUsed
  have hpused := h.payloadUsed
  have htake := push_length h (by omega) b
  have hwhole : (pending ++ [b]).take 4 = pending ++ [b] := List.take_of_length_le (by simp; omega)
  have hnone : d.payload.toList.take d.payloadUsed = [] := by
    rw [hpused, show pending.length - 4 = 0 by omega, List.take_zero]
  rw [Agrees, judge_short (by simp; omega)]
  simp only [push, h.ready, Bool.false_eq_true, if_false, if_pos (show d.lengthUsed < 4 by omega),
    if_neg (show ¬ d.lengthUsed + 1 = 4 by omega), true_and]
  exact
    { ready := rfl
      lengthUsed := by simp; omega
      length := by
        rw [hwhole, ← htake, show d.lengthUsed = pending.length by omega]
      expected := by intro hfour; simp at hfour; omega
      payloadUsed := by simp; omega
      payload := by rw [hnone, List.drop_eq_nil_of_le (by simp; omega)]
      unfinished := by intro hfour; simp at hfour; omega }

/-- The byte that completes the length prefix. -/
theorem push_fourth {d : FrameDecoder N} {pending : List UInt8} (h : d.Holds pending)
    (heq : pending.length = 3) (b : UInt8) : d.Agrees pending b := by
  have hused := h.lengthUsed
  have hpused := h.payloadUsed
  have htake := push_length h (by omega) b
  have hwhole : (pending ++ [b]).take 4 = pending ++ [b] := List.take_of_length_le (by simp; omega)
  have hbytes : (d.length.setIfInBounds d.lengthUsed b).toList = pending ++ [b] := by
    rw [← htake, List.take_of_length_le (by simp; omega)]
  have hexp : (u32FromLe (d.length.setIfInBounds d.lengthUsed b).toList).toNat =
      LittleEndian.toNat (pending ++ [b]) := by
    rw [u32FromLe_toNat (by simp), hbytes]
  rw [Agrees, judge_long (by simp; omega), hwhole]
  simp only [push, h.ready, Bool.false_eq_true, if_false, if_pos (show d.lengthUsed < 4 by omega),
    if_pos (show d.lengthUsed + 1 = 4 by omega), hexp]
  by_cases hbig : LittleEndian.toNat (pending ++ [b]) > N
  · simp only [if_pos hbig]
    exact ⟨_, rfl, reset_holds _⟩
  · simp only [if_neg hbig]
    by_cases hzero : LittleEndian.toNat (pending ++ [b]) = 0
    · have hdone : ¬ (pending ++ [b]).length < LittleEndian.toNat (pending ++ [b]) + 4 := by
        simp; omega
      rw [if_neg hdone]
      refine ⟨by simp [hzero], ?_⟩
      simp [hzero, frame, slice]
    · have hmore : (pending ++ [b]).length < LittleEndian.toNat (pending ++ [b]) + 4 := by
        simp; omega
      simp only [if_pos hmore]
      refine ⟨by simp [hzero], ?_⟩
      exact
        { ready := by simp [hzero]
          lengthUsed := by simp; omega
          length := by
            rw [hbytes, hwhole, List.take_of_length_le (by simp; omega)]
          expected := by intro _; rw [hwhole]
          payloadUsed := by simp; omega
          payload := by
            rw [hpused, show pending.length - 4 = 0 by omega, List.take_zero,
              List.drop_eq_nil_of_le (by simp; omega)]
          unfinished := by
            intro _
            rw [hwhole]
            exact ⟨by omega, hmore⟩ }

/-- A byte of the payload. -/
theorem push_payload {d : FrameDecoder N} {pending : List UInt8} (h : d.Holds pending)
    (hgt : 3 < pending.length) (b : UInt8) : d.Agrees pending b := by
  have hused := h.lengthUsed
  have hpused := h.payloadUsed
  have hfull : d.lengthUsed = 4 := by omega
  have hfour : (pending ++ [b]).take 4 = pending.take 4 := List.take_append_of_le_length (by omega)
  obtain ⟨hfits, hopen⟩ := h.unfinished (by omega)
  have hexp := h.expected (by omega)
  have hroom : d.payloadUsed < N := by omega
  have hstored : (d.payload.setIfInBounds d.payloadUsed b).toList.take (d.payloadUsed + 1) =
      (pending ++ [b]).drop 4 := by
    rw [take_setIfInBounds _ _ hroom, h.payload, List.drop_append_of_le_length (by omega)]
  rw [Agrees, judge_long (by simp; omega), hfour, if_neg (by omega)]
  simp only [push, h.ready, Bool.false_eq_true, if_false,
    if_neg (show ¬ d.lengthUsed < 4 by omega)]
  by_cases hdone : (pending ++ [b]).length < LittleEndian.toNat (pending.take 4) + 4
  · have hnot : (d.payloadUsed + 1 == d.expected) = false := by
      rw [List.length_append, List.length_singleton] at hdone
      simp; omega
    simp only [if_pos hdone, hnot, true_and]
    exact
      { ready := rfl
        lengthUsed := by simp; omega
        length := by rw [h.length, hfour]
        expected := by intro _; rw [hfour, hexp]
        payloadUsed := by simp; omega
        payload := hstored
        unfinished := by intro _; rw [hfour]; exact ⟨hfits, hdone⟩ }
  · rw [List.length_append, List.length_singleton] at hdone
    have hlast : d.payloadUsed + 1 = d.expected := by omega
    have hend : ¬ (pending ++ [b]).length < LittleEndian.toNat (pending.take 4) + 4 := by
      rw [List.length_append, List.length_singleton]; exact hdone
    have hall : slice (pending ++ [b]) 4 (4 + LittleEndian.toNat (pending.take 4)) =
        (pending ++ [b]).drop 4 := by
      rw [slice, List.take_of_length_le (by simp; omega)]
    rw [if_neg hend, hall]
    exact ⟨by simp [hlast], by simp only [frame, hlast, beq_self_eq_true, if_true, ← hstored]⟩

/-- **The decoder agrees with the host.** Each byte has the effect that `lengthUnframe`
has on the bytes collected so far. -/
theorem push_spec {d : FrameDecoder N} {pending : List UInt8} (h : d.Holds pending)
    (b : UInt8) :
    match judge N (pending ++ [b]) with
    | .more => (d.push b).1 = .ok false ∧ (d.push b).2.Holds (pending ++ [b])
    | .invalid => ∃ n, (d.push b).1 = .error (.TooLarge n) ∧ (d.push b).2.Holds []
    | .frame f => (d.push b).1 = .ok true ∧ (d.push b).2.frame = some f := by
  obtain hlt | heq | hgt := Nat.lt_trichotomy pending.length 3
  · exact push_short h hlt b
  · exact push_fourth h heq b
  · exact push_payload h hgt b

end FrameDecoder

end Firmware
