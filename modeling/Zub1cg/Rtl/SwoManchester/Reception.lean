import Zub1cg.Rtl.SwoManchester

/-!
# Reception of Manchester characters

A character that arms the receiver is sampled in the right halves of its bits, wherever the
first tick falls. The stop bit has been sampled when its second half has begun. That half is
low, and a byte that has been handed over before it ends lets it arm the receiver again.

## Main definitions

- `Receiving` — some ticks of a character have passed
- `Ready`, `Received` — before a character, and with a byte that has come
- `Idle`, `Amid`, `Waiting` — the same for a run, with what has been handed over

## Main results

- `Receiving.tick`, `Receiving.last` — one tick of a character
- `Idle.character` — a character that arms the receiver
-/

namespace SwoManchester

open Clocked (Run)
open Swo (tick nextTick nextTick_pos nextTick_le tick_induction frameBit getLsbD_setBit
  manchester manchester_first manchester_sample line duration)

/-- Nothing is received, and no byte waits. -/
structure Ready (s : State) : Prop where
  active : s.active = false
  valid : s.outputValid = false

/-- A byte has been received and waits. -/
structure Received (b : UInt8) (s : State) : Prop where
  active : s.active = false
  valid : s.outputValid = true
  data : s.outputData = b

/-- `n` ticks of a character have passed. Data bit `k` is written by the tick before tick
`4 * k + 7`. -/
structure Receiving (b : UInt8) (n : ℕ) (s : State) : Prop where
  active : s.active = true
  valid : s.outputValid = false
  quarter : s.quarter = n % 4
  bitIndex : s.bitIndex = n / 4
  first : n % 4 = 1 ∨ n % 4 = 2 → s.firstHalf = frameBit b (n / 4)
  shift : ∀ k < 8, 4 * k + 7 ≤ n → s.shift.getLsbD k = b.toBitVec.getLsbD k

section

variable {i : Input} {s : State} {b : UInt8} {n : ℕ}

theorem Ready.arm (h : Ready s) (hi : i.resetN = true) (hline : s.swoSync = false) :
    Receiving b 0 (step i s) ∧ (step i s).malformedCount = s.malformedCount := by
  rw [step_arm hi h.active h.valid hline]
  exact ⟨⟨rfl, h.valid, rfl, rfl, fun h => by omega, fun k _ hk => by omega⟩, rfl⟩

theorem Ready.idle (h : Ready s) (hi : i.resetN = true) (hline : s.swoSync = true) :
    Ready (step i s) ∧ (step i s).malformedCount = s.malformedCount := by
  rw [step_idle hi h.active h.valid hline]
  exact ⟨⟨h.active, h.valid⟩, rfl⟩

theorem Received.taken (h : Received b s) (hi : i.resetN = true) (hready : i.outputReady = true) :
    Ready (step i s) ∧ delivered i s = [b] ∧ (step i s).malformedCount = s.malformedCount := by
  rw [step_waiting hi h.active h.valid, delivered, hready, h.valid, h.data]
  exact ⟨⟨h.active, rfl⟩, rfl, rfl⟩

theorem Receiving.between (h : Receiving b n s) (hi : i.resetN = true)
    (htick : i.sampleTick = false) :
    Receiving b n (step i s) ∧ (step i s).malformedCount = s.malformedCount := by
  rw [step_between hi h.active h.valid htick]
  exact ⟨{ h with }, rfl⟩

/-- The second sample of the start bit or of a data bit. -/
theorem Receiving.sample (h : Receiving b n s) (hn : n < 38) (hquarter : n % 4 = 2)
    (hline : s.swoSync = !frameBit b (n / 4)) (n' : State) (hn' : n'.shift = s.shift) :
    ∃ v, bitUpdate s n' = { n' with shift := v } ∧
      ∀ k < 8, 4 * k + 6 ≤ n → v.getLsbD k = b.toBitVec.getLsbD k := by
  rw [bitUpdate, h.bitIndex, h.first (.inr hquarter), hline,
    if_neg (by cases frameBit b (n / 4) <;> decide)]
  by_cases hstart : n / 4 = 0
  · refine ⟨s.shift, ?_, fun k _ hk => by omega⟩
    rw [hstart, ← hn']
    simp [frameBit]
  · have hdata : 1 ≤ n / 4 ∧ n / 4 ≤ 8 := by omega
    refine ⟨_, by rw [if_neg fun hboth => hstart hboth.1, if_pos hdata], fun k hk hsampled => ?_⟩
    rw [getLsbD_setBit _ (by omega), frameBit, if_neg hstart, if_pos hdata.2]
    by_cases hthis : k = n / 4 - 1
    · rw [if_pos hthis, hthis]
    · rw [if_neg hthis]
      exact h.shift k hk (by omega)

/-- A tick before the second sample of the stop bit. -/
theorem Receiving.tick (h : Receiving b n s) (hi : i.resetN = true) (htick : i.sampleTick = true)
    (hn : n < 38) (hfirst : n % 4 = 0 → s.swoSync = frameBit b (n / 4))
    (hsecond : n % 4 = 2 → s.swoSync = !frameBit b (n / 4)) :
    Receiving b (n + 1) (step i s) ∧ (step i s).malformedCount = s.malformedCount := by
  have hcount := h.quarter
  have hindex := h.bitIndex
  rw [step_tick hi h.active h.valid htick, tickUpdate, if_pos h.active]
  by_cases hend : n % 4 = 3
  · have hno0 : ¬ s.quarter = 0 := by omega
    have hno2 : ¬ s.quarter = 2 := by omega
    rw [if_neg hno0, if_neg hno2, if_pos (hcount.trans hend)]
    refine ⟨⟨h.active, h.valid, ?_, ?_, fun h => by omega,
      fun k hk hsampled => h.shift k hk (by omega)⟩, rfl⟩
    · show 0 = (n + 1) % 4
      omega
    · show s.bitIndex + 1 = (n + 1) / 4
      omega
  · have hno3 : ¬ s.quarter = 3 := by omega
    have hquarter : s.quarter + 1 = (n + 1) % 4 := by omega
    have hbit : s.bitIndex = (n + 1) / 4 := by omega
    rw [if_neg hno3]
    by_cases hsample : n % 4 = 2
    · have hno0 : ¬ s.quarter = 0 := by omega
      rw [if_neg hno0, if_pos (hcount.trans hsample)]
      obtain ⟨v, hv, hshift⟩ := h.sample hn hsample (hsecond hsample)
        { s with swoMeta := i.swo, swoSync := s.swoMeta } rfl
      rw [hv]
      exact ⟨⟨h.active, h.valid, hquarter, hbit, fun h => by omega,
        fun k hk hsampled => hshift k hk (by omega)⟩, rfl⟩
    · have hno2 : ¬ s.quarter = 2 := by omega
      rw [if_neg hno2]
      by_cases hzero : n % 4 = 0
      · rw [if_pos (hcount.trans hzero)]
        refine ⟨⟨h.active, h.valid, hquarter, hbit, fun _ => ?_,
          fun k hk hsampled => h.shift k hk (by omega)⟩, rfl⟩
        show s.swoSync = frameBit b ((n + 1) / 4)
        rw [hfirst hzero, show (n + 1) / 4 = n / 4 by omega]
      · have hno0 : ¬ s.quarter = 0 := by omega
        rw [if_neg hno0]
        refine ⟨⟨h.active, h.valid, hquarter, hbit, fun _ => ?_,
          fun k hk hsampled => h.shift k hk (by omega)⟩, rfl⟩
        show s.firstHalf = frameBit b ((n + 1) / 4)
        rw [h.first (by omega), show (n + 1) / 4 = n / 4 by omega]

/-- The tick that samples the second half of the stop bit. -/
theorem Receiving.last (h : Receiving b 38 s) (hi : i.resetN = true) (htick : i.sampleTick = true)
    (hline : s.swoSync = false) :
    Received b (step i s) ∧ (step i s).malformedCount = s.malformedCount := by
  have hbyte : UInt8.ofBitVec s.shift = b := by
    apply UInt8.toBitVec_inj.mp
    ext k hk
    exact h.shift k hk (by omega)
  have hfirst : s.firstHalf = true := h.first (.inr rfl)
  rw [step_tick hi h.active h.valid htick, tickUpdate, h.quarter, h.active, bitUpdate,
    h.bitIndex, hfirst, hline, hbyte]
  exact ⟨⟨rfl, rfl, rfl⟩, rfl⟩

end

/-! ### A character on the line -/

/-- The receiver on a line, with `output_ready` high. -/
def reception (period phase : ℕ) (swo : ℕ → Bool) : Run Input State where
  step := step
  start := resetState
  input t := {
    resetN := true
    swo := swo t
    sampleTick := tick period phase t
    outputReady := true }

/-- `bytes` have been handed over, none was rejected, and nothing is received. -/
structure Idle (r : Run Input State) (t : ℕ) (bytes : List UInt8) : Prop where
  ready : Ready (r.state t)
  count : (r.state t).malformedCount = 0
  record : r.record delivered t = bytes

/-- The last of `bytes` waits, all others have been handed over, and none was rejected. -/
def Waiting (r : Run Input State) (t : ℕ) (bytes : List UInt8) : Prop :=
  ∃ b, Received b (r.state t) ∧ (r.state t).malformedCount = 0 ∧
    r.record delivered t ++ [b] = bytes

theorem record_of_not_valid {r : Run Input State} {t : ℕ} (h : (r.state t).outputValid = false) :
    r.record delivered (t + 1) = r.record delivered t := by
  rw [Run.record_succ, delivered, h, Bool.false_and, if_neg Bool.false_ne_true, List.append_nil]

section

variable {period phase t : ℕ} {swo : ℕ → Bool} {bytes : List UInt8}

theorem Idle.high (h : Idle (reception period phase swo) t bytes)
    (hline : ((reception period phase swo).state t).swoSync = true) :
    Idle (reception period phase swo) (t + 1) bytes := by
  obtain ⟨hnext, hsame⟩ := h.ready.idle (i := (reception period phase swo).input t) rfl hline
  exact ⟨hnext, hsame.trans h.count, (record_of_not_valid h.ready.valid).trans h.record⟩

theorem Idle.gap (h : Idle (reception period phase swo) t bytes) (n : ℕ)
    (hline : ∀ d < n, ((reception period phase swo).state (t + d)).swoSync = true) :
    Idle (reception period phase swo) (t + n) bytes := by
  induction n with
  | zero => exact h
  | succ n ih => exact (ih fun d hd => hline d (by omega)).high (hline n (Nat.lt_succ_self n))

theorem Waiting.taken (h : Waiting (reception period phase swo) t bytes) :
    Idle (reception period phase swo) (t + 1) bytes := by
  obtain ⟨b, hbyte, hcount, rfl⟩ := h
  obtain ⟨hnext, hout, hsame⟩ := hbyte.taken (i := (reception period phase swo).input t) rfl rfl
  exact ⟨hnext, hsame.trans hcount, by rw [Run.record_succ, hout]⟩

/-- `n` ticks of the character have passed, `bytes` have been handed over, and none was
rejected. -/
structure Amid (r : Run Input State) (b : UInt8) (bytes : List UInt8) (t n : ℕ) : Prop where
  receiving : Receiving b n (r.state t)
  count : (r.state t).malformedCount = 0
  record : r.record delivered t = bytes

theorem Idle.arm {b : UInt8} (h : Idle (reception period phase swo) t bytes)
    (hline : ((reception period phase swo).state t).swoSync = false) :
    Amid (reception period phase swo) b bytes (t + 1) 0 := by
  obtain ⟨hnext, hsame⟩ := h.ready.arm (b := b) (i := (reception period phase swo).input t) rfl hline
  exact ⟨hnext, hsame.trans h.count, (record_of_not_valid h.ready.valid).trans h.record⟩

section

variable {b : UInt8} {n : ℕ} (h : Amid (reception period phase swo) b bytes t n)

include h

theorem Amid.between (hno : tick period phase t = false) :
    Amid (reception period phase swo) b bytes (t + 1) n := by
  obtain ⟨hnext, hsame⟩ := h.receiving.between (i := (reception period phase swo).input t) rfl hno
  exact ⟨hnext, hsame.trans h.count, (record_of_not_valid h.receiving.valid).trans h.record⟩

theorem Amid.tick (hyes : Swo.tick period phase t = true) (hn : n < 38)
    (hfirst : n % 4 = 0 → ((reception period phase swo).state t).swoSync = frameBit b (n / 4))
    (hsecond : n % 4 = 2 → ((reception period phase swo).state t).swoSync = !frameBit b (n / 4)) :
    Amid (reception period phase swo) b bytes (t + 1) (n + 1) := by
  obtain ⟨hnext, hsame⟩ := h.receiving.tick (i := (reception period phase swo).input t) rfl hyes hn
    hfirst hsecond
  exact ⟨hnext, hsame.trans h.count, (record_of_not_valid h.receiving.valid).trans h.record⟩

end

theorem Amid.last {b : UInt8} (h : Amid (reception period phase swo) b bytes t 38)
    (hyes : Swo.tick period phase t = true)
    (hline : ((reception period phase swo).state t).swoSync = false) :
    Waiting (reception period phase swo) (t + 1) (bytes ++ [b]) := by
  obtain ⟨hnext, hsame⟩ := h.receiving.last (i := (reception period phase swo).input t) rfl hyes
    hline
  exact ⟨b, hnext, hsame.trans h.count,
    by rw [record_of_not_valid h.receiving.valid, h.record]⟩

/-- A character that finds the receiver ready. -/
theorem Idle.character (hperiod : 0 < period) {b : UInt8}
    (h : Idle (reception period phase swo) t bytes)
    (hline : ∀ d < duration period,
      ((reception period phase swo).state (t + d)).swoSync = manchester period b d) :
    Waiting (reception period phase swo) (t + (nextTick period phase t + 38 * period) + 1)
        (bytes ++ [b]) ∧
      ∀ d ≤ nextTick period phase t + 38 * period,
        ((reception period phase swo).state (t + d)).malformedCount = 0 := by
  have hbound := nextTick_le period phase t
  have hpos := nextTick_pos hperiod phase t
  have hfirst : nextTick period phase t < 2 * period := by omega
  rw [duration] at hline
  have hlow : ((reception period phase swo).state t).swoSync = false := by
    have hzero := hline 0 (by omega)
    rwa [manchester_first (k := 0) b (by omega) (by omega)] at hzero
  -- tick `n` samples the line `n` quarters after the first tick
  have hsample (n : ℕ) (hn : n ≤ 38) : ((reception period phase swo).state
      (t + (nextTick period phase t + n * period))).swoSync =
        manchester period b (nextTick period phase t + n * period) := by
    have hmul := Nat.mul_le_mul_right period hn
    exact hline _ (by omega)
  obtain ⟨⟨hamid, htick⟩, hevery⟩ := tick_induction hperiod phase t 38
    (h.arm (b := b) hlow)
    (fun u n hu hno => hu.between hno) fun n hn hu hyes => by
      refine hu.tick hyes hn (fun hquarter => ?_) fun hquarter => ?_
      · rw [hsample n (by omega), ← (manchester_sample hfirst b (n / 4)).1,
          show 4 * (n / 4) = n by omega]
      · rw [hsample n (by omega), ← (manchester_sample hfirst b (n / 4)).2,
          show 4 * (n / 4) + 2 = n by omega]
  constructor
  · refine hamid.last htick ?_
    rw [hsample 38 (Nat.le_refl _)]
    exact (manchester_sample hfirst b 9).2
  · intro d hd
    match d with
    | 0 => exact h.count
    | d + 1 =>
      obtain ⟨n, hn⟩ := hevery d (by omega)
      exact hn.count

end

end SwoManchester
