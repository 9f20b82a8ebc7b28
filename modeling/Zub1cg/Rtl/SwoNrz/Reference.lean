import Zub1cg.Library.Receiver
import Zub1cg.Model.Swo
import Zub1cg.Rtl.SwoNrz.Reception

/-!
# The NRZ receiver and the reference decoder

Whatever the line does, however the ticks come and whenever the bytes are taken: of every
character that the receiver begins, the reference decoder finds a word in the levels at the ticks
exactly when the receiver hands a byte over, and it is this byte. All other characters are counted
as malformed.

## Main definitions

- `view` — what is seen of the receiver
- `referenceWord` — the reference decoder on the levels of a character
- `Sampling` — some levels of a character have been sampled

## Main results

- `refines` — every edge of the receiver is one that the reference decoder allows
- `nrz_refines` — the receiver refines the reference decoder
-/

namespace SwoNrz

open Clocked (Run)
open Swo (frameBit)
open Model (decodeSwoNrz decodeSwoNrz_toOption nrzSample packBits getLsbD_packBits)
open Receiver (View Refines)

/-- The receiver on any line, with ticks at any clocks. -/
def run (inp : ℕ → Input) : Run Input State where
  step := step
  start := resetState
  input := inp

/-- Samples are the levels at the ticks. -/
def view : View Input State UInt8 Bool 64 where
  sampled i s := if i.sampleTick then [s.swoS] else []
  begins s := !s.active && !s.swoS && !s.outputValid
  busy s := s.active
  delivered := delivered
  waiting s := if s.outputValid then [s.outputData] else []
  errors s := s.malformedCount

/-- The word that the reference decoder finds with four samples to a bit, the first of them the low
level that began the character. -/
def referenceWord (levels : List Bool) : Option UInt8 := (decodeSwoNrz (false :: levels) 4).toOption

/-- The first `n` levels have been sampled, and the start bit is right. -/
structure Sampling (levels : List Bool) (n : ℕ) (s : State) : Prop where
  receiving : Receiving (packBits fun bit => nrzSample (false :: levels) 4 (bit + 1)) n s
  fits : n ≤ 37
  start : 2 ≤ n → nrzSample (false :: levels) 4 0 = false

/-- The reference decoder's sample of a bit is the level at the tick that samples it. -/
theorem nrzSample_of_getElem? {levels : List Bool} {level : Bool} {k : ℕ}
    (h : levels[4 * k + 1]? = some level) : nrzSample (false :: levels) 4 k = level := by
  have hindex : k * 4 + 4 / 2 = 4 * k + 1 + 1 := by omega
  rw [nrzSample, hindex, List.getD_cons_succ, List.getD_eq_getElem?_getD, h]
  rfl

/-- What the reference decoder finds in a character with enough ticks. -/
theorem referenceWord_eq {levels : List Bool} (h : 39 ≤ levels.length) :
    referenceWord levels =
      if nrzSample (false :: levels) 4 0 = false ∧ nrzSample (false :: levels) 4 9 = true then
        some (packBits fun bit => nrzSample (false :: levels) 4 (bit + 1))
      else none :=
  decodeSwoNrz_toOption (by rw [List.length_cons]; omega)

/-! ### One edge -/

section

variable {i : Input} {s : State} {n : ℕ}

/-- A start bit that is high or a stop bit that is low ends the character. -/
theorem Receiving.rejected {b : UInt8} (h : Receiving b n s) (hi : i.resetN = true)
    (htick : i.sampleTick = true) (hwrong : n = 1 ∧ s.swoS = true ∨ n = 37 ∧ s.swoS = false) :
    Ready (step i s) ∧ (step i s).malformedCount = s.malformedCount + 1 := by
  have hquarter := h.quarter
  have hbit := h.bitIndex
  have hvalid := h.valid
  rw [step_tick hi h.active h.valid htick, tickUpdate, sampleUpdate, h.active]
  obtain ⟨rfl, hline⟩ | ⟨rfl, hline⟩ := hwrong <;> rw [hquarter, hbit, hline] <;>
    exact ⟨⟨rfl, hvalid⟩, rfl⟩

/-- Nothing waits while a character is received. -/
theorem kept_of_not_valid (h : s.outputValid = false) (hnext : (step i s).outputValid = false)
    (hcount : (step i s).malformedCount = s.malformedCount) : view.Kept i s (step i s) := by
  refine ⟨?_, hcount⟩
  simp [view, delivered, h, hnext]

theorem ends_of_ready (h : s.outputValid = false) (hnext : Ready (step i s))
    (hcount : (step i s).malformedCount = s.malformedCount + 1) :
    view.Ends i s (step i s) none := by
  refine ⟨hnext.active, ?_, hcount⟩
  simp [view, delivered, h, hnext.valid]

theorem ends_of_received {b : UInt8} (h : s.outputValid = false) (hnext : Received b (step i s))
    (hcount : (step i s).malformedCount = s.malformedCount) :
    view.Ends i s (step i s) (some b) := by
  refine ⟨hnext.active, ?_, hcount.trans (BitVec.add_zero _).symm⟩
  simp [view, delivered, h, hnext.valid, hnext.data]

/-- Between the characters. -/
theorem rest (hi : i.resetN = true) (hactive : s.active = false) (hnone : view.begins s = false) :
    (step i s).active = false ∧ view.Kept i s (step i s) := by
  cases hvalid : s.outputValid with
  | true =>
    rw [step_waiting hi hactive hvalid]
    refine ⟨hactive, ?_, rfl⟩
    cases hready : i.outputReady <;> simp [view, delivered, hvalid, hready]
  | false =>
    have hline : s.swoS = true := by
      simpa [view, hactive, hvalid] using hnone
    rw [step_idle hi hactive hvalid hline]
    exact ⟨hactive, by simp [view, delivered, hvalid], rfl⟩

/-- A tick in a character. -/
theorem Sampling.tick {levels : List Bool} (h : Sampling levels n s) (hi : i.resetN = true)
    (htick : i.sampleTick = true) (hlong : 39 ≤ levels.length) (hlevel : levels[n]? = some s.swoS) :
    view.Kept i s (step i s) ∧ Sampling levels (n + 1) (step i s) ∨
      view.Ends i s (step i s) (referenceWord levels) := by
  have hvalid := h.receiving.valid
  have hsample {k : ℕ} (hk : n = 4 * k + 1) : nrzSample (false :: levels) 4 k = s.swoS :=
    nrzSample_of_getElem? (hk ▸ hlevel)
  have hword := referenceWord_eq hlong
  -- a wrong start bit ends the character for both
  by_cases hfirst : n = 1 ∧ s.swoS = true
  · obtain ⟨hready, hcount⟩ := h.receiving.rejected hi htick (.inl hfirst)
    rw [if_neg fun hright => by
      rw [hsample (k := 0) hfirst.1, hfirst.2] at hright
      exact Bool.false_ne_true hright.1.symm] at hword
    rw [hword]
    exact .inr (ends_of_ready hvalid hready hcount)
  by_cases hlast : n = 37
  · subst hlast
    cases hline : s.swoS with
    | false =>
      obtain ⟨hready, hcount⟩ := h.receiving.rejected hi htick (.inr ⟨rfl, hline⟩)
      rw [if_neg fun hright => by
        rw [hsample (k := 9) rfl, hline] at hright
        exact Bool.false_ne_true hright.2] at hword
      rw [hword]
      exact .inr (ends_of_ready hvalid hready hcount)
    | true =>
      obtain ⟨hbyte, hcount⟩ := h.receiving.last hi htick hline
      rw [if_pos ⟨h.start (by decide), (hsample (k := 9) rfl).trans hline⟩] at hword
      rw [hword]
      exact .inr (ends_of_received hvalid hbyte hcount)
  · have hfits := h.fits
    obtain ⟨hnext, hcount⟩ := h.receiving.tick hi htick (by omega) fun hquarter => by
      obtain ⟨k, hk⟩ : ∃ k, n = 4 * k + 1 := ⟨n / 4, by omega⟩
      have hdiv : n / 4 = k := by omega
      rw [hdiv, frameBit]
      split
      · next hzero =>
        subst hzero
        exact Bool.eq_false_iff.mpr fun hhigh => hfirst ⟨hk, hhigh⟩
      · next hpos =>
        rw [if_pos (by omega), getLsbD_packBits _ (by omega),
          Nat.sub_add_cancel (Nat.one_le_iff_ne_zero.mpr hpos), hsample hk]
    refine .inl ⟨kept_of_not_valid hvalid hnext.valid hcount, hnext, by omega, fun hle => ?_⟩
    by_cases hnow : n = 1
    · rw [hsample (k := 0) hnow]
      exact Bool.eq_false_iff.mpr fun hhigh => hfirst ⟨hnow, hhigh⟩
    · exact h.start (by omega)

end

/-- **Every edge of the receiver** is one that the reference decoder allows. -/
theorem refines : Refines view step referenceWord 39 Sampling fun i => i.resetN = true where
  rest := fun hi hbusy hnone => rest hi hbusy hnone
  start := fun {i s} hi hbusy hbegins => by
    have hboth : s.swoS = false ∧ s.outputValid = false := by
      simpa [view, show s.active = false from hbusy] using hbegins
    have hready : Ready s := ⟨hbusy, hboth.2⟩
    refine ⟨?_, fun levels => ⟨(hready.arm hi hboth.1).1, Nat.zero_le _, fun hle => by omega⟩⟩
    obtain ⟨hnext, hcount⟩ := hready.arm (b := 0) hi hboth.1
    exact kept_of_not_valid hboth.2 hnext.valid hcount
  busy := fun {s levels n} h => by
    refine ⟨h.receiving.active, ?_, Nat.lt_of_le_of_lt h.fits (by decide)⟩
    simp [view, h.receiving.active]
  between := fun {i s levels n} hi h hnone => by
    have htick : i.sampleTick = false := by
      simpa [view] using hnone
    obtain ⟨hnext, hcount⟩ := h.receiving.between hi htick
    exact ⟨kept_of_not_valid h.receiving.valid hnext.valid hcount, hnext, h.fits, h.start⟩
  sample := fun {i s levels n level} hi h hlong hone hlevel => by
    cases htick : i.sampleTick with
    | false => simp [view, htick] at hone
    | true =>
      obtain rfl : s.swoS = level := by
        simpa [view, htick] using hone
      exact h.tick hi htick hlong hlevel
  single := fun i s => by
    cases htick : i.sampleTick <;> simp [view, htick]

/-- **The receiver refines the reference decoder.** On any line, with ticks at any clocks and bytes
taken at any clocks: of the characters begun by time `t`, all but one that is still on the line have
ended. What has been handed over or waits are the words that the reference decoder finds in them,
with four ticks to a bit, and the other ones are counted as malformed. The decoder is given the
ticks up to time `u`, forty samples of each character at least. -/
theorem nrz_refines (inp : ℕ → Input) (hreset : ∀ t, (inp t).resetN = true) (t u : ℕ)
    (hlong : ∀ a ∈ view.begun (run inp) t, 39 ≤ ((run inp).since view.sampled a u).length) :
    let r := run inp
    ∃ done on, view.begun r t = done ++ on ∧ on.length = (r.state t).active.toNat ∧
      r.record delivered t ++ view.waiting (r.state t) =
        done.filterMap (view.word referenceWord r u) ∧
      (r.state t).malformedCount =
        BitVec.ofNat 64 (done.countP fun a => (view.word referenceWord r u a).isNone) :=
  Refines.run (r := run inp) refines hreset rfl ⟨rfl, rfl⟩ hlong

/-- A character, and later a low level that is too short for a start bit. -/
def glitch (t : ℕ) : Input where
  resetN := true
  swo := if t < 40 then frameBit 0xa6 (t / 4) else t != 50
  sampleTick := true
  outputReady := true

/-- The reference decoder finds the word and rejects the second character. -/
theorem nrz_refines_glitch :
    let r := run glitch
    view.begun r 80 = [2, 52] ∧
      [0xa6] = [2, 52].filterMap (view.word referenceWord r 100) ∧
      (1 : BitVec 64) =
        BitVec.ofNat 64 ([2, 52].countP fun a => (view.word referenceWord r 100 a).isNone) := by
  intro r
  have hbegun : view.begun r 80 = [2, 52] := by decide +kernel
  have hbytes : r.record delivered 80 ++ view.waiting (r.state 80) = [0xa6] := by decide +kernel
  have hcount : (r.state 80).malformedCount = 1 := by decide +kernel
  have hactive : (r.state 80).active = false := by decide +kernel
  obtain ⟨done, on, hdone, hon, hwords, herrors⟩ :=
    nrz_refines glitch (fun _ => rfl) 80 100 (by decide +kernel)
  rw [show run glitch = r from rfl] at hdone hon hwords herrors
  rw [hactive] at hon
  rw [List.eq_nil_of_length_eq_zero hon, List.append_nil, hbegun] at hdone
  rw [← hdone, hbytes] at hwords
  rw [← hdone, hcount] at herrors
  exact ⟨hbegun, hwords, herrors⟩

end SwoNrz
