import Zub1cg.Library.Receiver
import Zub1cg.Model.Swo
import Zub1cg.Rtl.SwoManchester.Reception

/-!
# The Manchester receiver and the reference decoder

Whatever the line does, however the ticks come and whenever the bytes are taken: the receiver hands
over what the reference decoder finds in the halves of the bits of a character, and counts it as
malformed when this finds no word. The receiver rejects a character at the first bit that is wrong,
the reference decoder looks at the start and the stop bit before the others.

## Main definitions

- `view` — what is seen of the receiver
- `referenceWord` — the reference decoder on the levels of a character
- `Sampling` — some levels of a character have been sampled

## Main results

- `Sampling.tick` — a tick in a character
- `refines` — every edge of the receiver is one that the reference decoder allows
- `manchester_refines` — the receiver refines the reference decoder
-/

namespace SwoManchester

open Clocked (Run)
open Swo (setBit getLsbD_setBit manchester)
open Model (decodeSwoManchester decodeSwoManchester_toOption Toggles IsWord packBits
  getLsbD_packBits)
open Receiver (View Refines)

/-- The receiver on any line, with ticks at any clocks. -/
def run (inp : ℕ → Input) : Run Input State where
  step := step
  start := resetState
  input := inp

/-- Samples are the levels at the ticks. -/
def view : View Input State UInt8 Bool 64 where
  sampled i s := if i.sampleTick then [s.swoSync] else []
  begins s := !s.active && !s.outputValid && !s.swoSync
  busy s := s.active
  delivered := delivered
  waiting s := if s.outputValid then [s.outputData] else []
  errors s := s.malformedCount

/-- The levels at the first and the third tick of each bit. -/
def halfBits (levels : List Bool) : List Bool :=
  (List.range 20).map fun half => levels.getD (2 * half) false

/-- The word that the reference decoder finds in the halves of the bits. -/
def referenceWord (levels : List Bool) : Option UInt8 :=
  (decodeSwoManchester (halfBits levels)).toOption

/-- The first `n` levels have been sampled, and no bit was wrong. -/
structure Sampling (levels : List Bool) (n : ℕ) (s : State) : Prop where
  active : s.active = true
  valid : s.outputValid = false
  quarter : s.quarter = n % 4
  bitIndex : s.bitIndex = n / 4
  fits : n ≤ 38
  first : n % 4 = 1 ∨ n % 4 = 2 → s.firstHalf = Model.firstHalf (halfBits levels) (n / 4)
  shift : ∀ k < 8, 4 * k + 7 ≤ n →
    s.shift.getLsbD k = Model.firstHalf (halfBits levels) (k + 1)
  toggles : ∀ k, 4 * k + 3 ≤ n → Toggles (halfBits levels) k
  start : 3 ≤ n → Model.firstHalf (halfBits levels) 0 = false

/-! ### The halves of the bits -/

theorem halfBits_getD (levels : List Bool) {half : ℕ} (h : half < 20) :
    (halfBits levels).getD half false = levels.getD (2 * half) false := by
  rw [halfBits, List.getD_eq_getElem?_getD, List.getElem?_map, List.getElem?_range h]
  rfl

theorem firstHalf_of_getElem? {levels : List Bool} {level : Bool} {k : ℕ} (hk : k < 10)
    (h : levels[4 * k]? = some level) : Model.firstHalf (halfBits levels) k = level := by
  have hindex : 2 * (k * 2) = 4 * k := by omega
  rw [Model.firstHalf, halfBits_getD levels (by omega), hindex, List.getD_eq_getElem?_getD, h]
  rfl

/-- The second half of a bit decides whether it has a transition. -/
theorem toggles_iff {levels : List Bool} {level : Bool} {k : ℕ} (hk : k < 10)
    (h : levels[4 * k + 2]? = some level) :
    Toggles (halfBits levels) k ↔ Model.firstHalf (halfBits levels) k ≠ level := by
  have hlow : k * 2 + 1 < 20 := by omega
  have hindex : 2 * (k * 2 + 1) = 4 * k + 2 := by omega
  rw [Toggles, Model.firstHalf, halfBits_getD levels hlow, hindex,
    List.getD_eq_getElem?_getD (i := 4 * k + 2), h]
  rfl

theorem referenceWord_eq (levels : List Bool) :
    referenceWord levels =
      if IsWord (halfBits levels) then
        some (packBits fun index => Model.firstHalf (halfBits levels) (index + 1))
      else none :=
  decodeSwoManchester_toOption (by rw [halfBits, List.length_map, List.length_range])

/-! ### One edge -/

section

variable {i : Input} {s : State} {n : ℕ} {levels : List Bool}

/-- Nothing waits while a character is received. -/
theorem kept_of_not_valid (h : s.outputValid = false) (hnext : (step i s).outputValid = false)
    (hcount : (step i s).malformedCount = s.malformedCount) : view.Kept i s (step i s) := by
  refine ⟨?_, hcount⟩
  simp [view, delivered, h, hnext]

/-- Between the characters. -/
theorem rest (hi : i.resetN = true) (hactive : s.active = false) (hnone : view.begins s = false) :
    (step i s).active = false ∧ view.Kept i s (step i s) := by
  cases hvalid : s.outputValid with
  | true =>
    rw [step_waiting hi hactive hvalid]
    refine ⟨hactive, ?_, rfl⟩
    cases hready : i.outputReady <;> simp [view, delivered, hvalid, hready]
  | false =>
    have hline : s.swoSync = true := by
      simpa [view, hactive, hvalid] using hnone
    rw [step_idle hi hactive hvalid hline]
    exact ⟨hactive, by simp [view, delivered, hvalid], rfl⟩

/-- A tick that is not in the third quarter of a bit. -/
theorem Sampling.advance (h : Sampling levels n s) (hi : i.resetN = true)
    (htick : i.sampleTick = true) (hquarter : n % 4 ≠ 2)
    (hlevel : n % 4 = 0 → Model.firstHalf (halfBits levels) (n / 4) = s.swoSync) :
    view.Kept i s (step i s) ∧ Sampling levels (n + 1) (step i s) := by
  have hcount := h.quarter
  have hindex := h.bitIndex
  have hfits := h.fits
  have hstep := step_tick hi h.active h.valid htick
  rw [tickUpdate, if_pos h.active] at hstep
  have hno2 : ¬ s.quarter = 2 := by omega
  rw [if_neg hno2] at hstep
  by_cases hend : n % 4 = 3
  · have hno0 : ¬ s.quarter = 0 := by omega
    rw [if_neg hno0, if_pos (hcount.trans hend)] at hstep
    refine ⟨kept_of_not_valid h.valid (by rw [hstep]; exact h.valid) (by rw [hstep]), ?_⟩
    rw [hstep]
    refine ⟨h.active, h.valid, ?_, ?_, by omega, fun hnow => by omega,
      fun k hk hsampled => h.shift k hk (by omega), fun k hk => h.toggles k (by omega),
      fun _ => h.start (by omega)⟩
    · change 0 = (n + 1) % 4
      omega
    · change s.bitIndex + 1 = (n + 1) / 4
      omega
  · have hno3 : ¬ s.quarter = 3 := by omega
    have hdiv : (n + 1) / 4 = n / 4 := by omega
    rw [if_neg hno3] at hstep
    have hvalid : (step i s).outputValid = false := by
      rw [hstep]
      split <;> exact h.valid
    have hmalformed : (step i s).malformedCount = s.malformedCount := by
      rw [hstep]
      split <;> rfl
    refine ⟨kept_of_not_valid h.valid hvalid hmalformed, ?_⟩
    by_cases hzero : n % 4 = 0
    · rw [if_pos (hcount.trans hzero)] at hstep
      rw [hstep]
      refine ⟨h.active, h.valid, ?_, ?_, by omega, fun _ => ?_,
        fun k hk hsampled => h.shift k hk (by omega), fun k hk => h.toggles k (by omega),
        fun hnow => h.start (by omega)⟩
      · change s.quarter + 1 = (n + 1) % 4
        omega
      · change s.bitIndex = (n + 1) / 4
        omega
      · rw [hdiv]
        exact (hlevel hzero).symm
    · have hno0 : ¬ s.quarter = 0 := by omega
      rw [if_neg hno0] at hstep
      rw [hstep]
      refine ⟨h.active, h.valid, ?_, ?_, by omega, fun _ => ?_,
        fun k hk hsampled => h.shift k hk (by omega), fun k hk => h.toggles k (by omega),
        fun hnow => h.start (by omega)⟩
      · change s.quarter + 1 = (n + 1) % 4
        omega
      · change s.bitIndex = (n + 1) / 4
        omega
      · rw [hdiv]
        exact h.first (by omega)

/-- A tick in the third quarter of a bit. -/
theorem Sampling.step_second (h : Sampling levels n s) (hi : i.resetN = true)
    (htick : i.sampleTick = true) (hquarter : n % 4 = 2) :
    step i s = { bitUpdate s { s with swoMeta := i.swo, swoSync := s.swoMeta } with
      quarter := s.quarter + 1 } := by
  have hcount := h.quarter
  have hno0 : ¬ s.quarter = 0 := by omega
  have hno3 : ¬ s.quarter = 3 := by omega
  rw [step_tick hi h.active h.valid htick, tickUpdate, if_pos h.active, if_neg hno0,
    if_pos (hcount.trans hquarter), if_neg hno3]

/-- A bit without a transition, a start bit that is one or a stop bit that is zero. -/
theorem bitUpdate_wrong {n' : State} (h : s.firstHalf = s.swoSync ∨
    s.bitIndex = 0 ∧ s.firstHalf = true ∨ s.bitIndex = 9 ∧ s.firstHalf = false) :
    bitUpdate s n' = { n' with active := false, malformedCount := s.malformedCount + 1 } := by
  rw [bitUpdate]
  by_cases hsame : s.firstHalf = s.swoSync
  · rw [if_pos hsame]
  · rw [if_neg hsame]
    obtain hstart | ⟨hindex, hlow⟩ := h.resolve_left hsame
    · rw [if_pos hstart]
    · rw [hindex, hlow]
      rfl

/-- **A wrong bit** ends the character without a byte. -/
theorem Sampling.wrong (h : Sampling levels n s) (hi : i.resetN = true)
    (htick : i.sampleTick = true) (hquarter : n % 4 = 2)
    (hwrong : s.firstHalf = s.swoSync ∨
      s.bitIndex = 0 ∧ s.firstHalf = true ∨ s.bitIndex = 9 ∧ s.firstHalf = false) :
    view.Ends i s (step i s) none := by
  rw [h.step_second hi htick hquarter, bitUpdate_wrong hwrong]
  exact ⟨rfl, by simp [view, delivered, h.valid], rfl⟩

/-- The start bit or a data bit that is right. -/
theorem Sampling.right (h : Sampling levels n s) (hi : i.resetN = true)
    (htick : i.sampleTick = true) (hquarter : n % 4 = 2) (hn : n < 38)
    (htoggles : Toggles (halfBits levels) (n / 4)) (hdiffer : s.firstHalf ≠ s.swoSync)
    (hstart : n / 4 = 0 → s.firstHalf = false) :
    view.Kept i s (step i s) ∧ Sampling levels (n + 1) (step i s) := by
  have hcount := h.quarter
  have hindex := h.bitIndex
  have hfirst := h.first (.inr hquarter)
  have hnext : s.quarter + 1 = (n + 1) % 4 := by omega
  have hbit : s.bitIndex = (n + 1) / 4 := by omega
  have htoggles' (k : ℕ) (hk : 4 * k + 3 ≤ n + 1) : Toggles (halfBits levels) k := by
    by_cases hthis : k = n / 4
    · rw [hthis]
      exact htoggles
    · exact h.toggles k (by omega)
  have hno (hboth : s.bitIndex = 0 ∧ s.firstHalf = true) : False := by
    rw [hstart (hindex.symm.trans hboth.1)] at hboth
    exact Bool.false_ne_true hboth.2
  have hstep := h.step_second hi htick hquarter
  rw [bitUpdate, if_neg hdiffer, if_neg hno] at hstep
  by_cases hzero : n / 4 = 0
  · have hnot : ¬ (1 ≤ s.bitIndex ∧ s.bitIndex ≤ 8) := by omega
    have hnot9 : ¬ s.bitIndex = 9 := by omega
    rw [if_neg hnot, if_neg hnot9] at hstep
    rw [hstep]
    refine ⟨⟨by simp [view, delivered, h.valid], rfl⟩, h.active, h.valid, hnext, hbit, by omega,
      fun hnow => by omega, fun k hk hsampled => by omega, htoggles', fun _ => ?_⟩
    rw [← hstart hzero, hfirst, hzero]
  · have hdata : 1 ≤ s.bitIndex ∧ s.bitIndex ≤ 8 := by omega
    rw [if_pos hdata] at hstep
    rw [hstep]
    refine ⟨⟨by simp [view, delivered, h.valid], rfl⟩, h.active, h.valid, hnext, hbit, by omega,
      fun hnow => by omega, fun k hk hsampled => ?_, htoggles', fun _ => h.start (by omega)⟩
    change (setBit s.shift (s.bitIndex - 1) s.firstHalf).getLsbD k = _
    rw [getLsbD_setBit _ (by omega)]
    by_cases hthis : k = s.bitIndex - 1
    · have hsucc : n / 4 = k + 1 := by omega
      rw [if_pos hthis, hfirst, hsucc]
    · rw [if_neg hthis]
      exact h.shift k hk (by omega)

/-- A stop bit that is right ends the character with its byte. -/
theorem Sampling.last (h : Sampling levels 38 s) (hi : i.resetN = true)
    (htick : i.sampleTick = true) (hfirst : s.firstHalf = true) (hline : s.swoSync = false) :
    view.Ends i s (step i s)
      (some (packBits fun index => Model.firstHalf (halfBits levels) (index + 1))) := by
  have hbyte : UInt8.ofBitVec s.shift =
      packBits fun index => Model.firstHalf (halfBits levels) (index + 1) := by
    apply UInt8.toBitVec_inj.mp
    ext k hk
    exact (h.shift k hk (by omega)).trans (getLsbD_packBits (fun index =>
      Model.firstHalf (halfBits levels) (index + 1)) hk).symm
  rw [h.step_second hi htick rfl, bitUpdate, h.bitIndex, hfirst, hline, hbyte]
  exact ⟨rfl, by simp [view, delivered, h.valid], (BitVec.add_zero _).symm⟩

/-- A tick in a character. -/
theorem Sampling.tick (h : Sampling levels n s) (hi : i.resetN = true)
    (htick : i.sampleTick = true) (hlevel : levels[n]? = some s.swoSync) :
    view.Kept i s (step i s) ∧ Sampling levels (n + 1) (step i s) ∨
      view.Ends i s (step i s) (referenceWord levels) := by
  have hfits := h.fits
  have hindex := h.bitIndex
  by_cases hquarter : n % 4 = 2
  · have hfirst := h.first (.inr hquarter)
    have htoggles : Toggles (halfBits levels) (n / 4) ↔ s.firstHalf ≠ s.swoSync := by
      have hthis : n = 4 * (n / 4) + 2 := by omega
      rw [hfirst]
      exact toggles_iff (by omega) (hthis ▸ hlevel)
    have hword := referenceWord_eq levels
    by_cases hwrong : s.firstHalf = s.swoSync ∨
        s.bitIndex = 0 ∧ s.firstHalf = true ∨ s.bitIndex = 9 ∧ s.firstHalf = false
    · have hno : ¬ IsWord (halfBits levels) := by
        intro ⟨hall, hstart, hstop⟩
        rw [hindex, hfirst] at hwrong
        obtain hsame | ⟨hzero, hhigh⟩ | ⟨hnine, hlow⟩ := hwrong
        · exact htoggles.mp (hall _ (by omega)) (hfirst.trans hsame)
        · rw [hzero, hstart] at hhigh
          exact Bool.false_ne_true hhigh
        · rw [hnine, hstop] at hlow
          exact Bool.false_ne_true hlow.symm
      rw [if_neg hno] at hword
      rw [hword]
      exact .inr (h.wrong hi htick hquarter hwrong)
    · obtain ⟨hdiffer, hstart, hstop⟩ := by simpa only [not_or, not_and] using hwrong
      by_cases hlast : n = 38
      · subst hlast
        have hhigh : s.firstHalf = true := Bool.eq_true_of_not_eq_false (hstop hindex)
        have hlow : s.swoSync = false := by
          rw [hhigh] at hdiffer
          exact Bool.eq_false_iff.mpr fun hline => hdiffer hline.symm
        have hyes : IsWord (halfBits levels) := by
          refine ⟨fun k hk => ?_, h.start (by decide), hfirst.symm.trans hhigh⟩
          by_cases hnine : k = 9
          · rw [hnine]
            exact htoggles.mpr hdiffer
          · exact h.toggles k (by omega)
        rw [if_pos hyes] at hword
        rw [hword]
        exact .inr (h.last hi htick hhigh hlow)
      · exact .inl (h.right hi htick hquarter (by omega) (htoggles.mpr hdiffer) hdiffer
          fun hzero => Bool.eq_false_iff.mpr (hstart (hindex.trans hzero)))
  · refine .inl (h.advance hi htick hquarter fun hzero => ?_)
    have hthis : n = 4 * (n / 4) := by omega
    exact firstHalf_of_getElem? (by omega) (hthis ▸ hlevel)

end

/-- **Every edge of the receiver** is one that the reference decoder allows. -/
theorem refines : Refines view step referenceWord 39 Sampling fun i => i.resetN = true where
  rest := fun hi hbusy hnone => rest hi hbusy hnone
  start := fun {i s} hi hbusy hbegins => by
    have hboth : s.outputValid = false ∧ s.swoSync = false := by
      simpa [view, show s.active = false from hbusy] using hbegins
    rw [step_arm hi hbusy hboth.1 hboth.2]
    refine ⟨⟨by simp [view, delivered, hboth.1], rfl⟩, fun levels => ?_⟩
    exact ⟨rfl, hboth.1, rfl, rfl, Nat.zero_le _, fun hnow => by omega, fun k hk hle => by omega,
      fun k hle => by omega, fun hle => by omega⟩
  busy := fun {s levels n} h => by
    refine ⟨h.active, ?_, Nat.lt_of_le_of_lt h.fits (by decide)⟩
    simp [view, h.active]
  between := fun {i s levels n} hi h hnone => by
    have htick : i.sampleTick = false := by
      simpa [view] using hnone
    rw [step_between hi h.active h.valid htick]
    exact ⟨⟨by simp [view, delivered, h.valid], rfl⟩, { h with }⟩
  sample := fun {i s levels n level} hi h _ hone hlevel => by
    cases htick : i.sampleTick with
    | false => simp [view, htick] at hone
    | true =>
      obtain rfl : s.swoSync = level := by
        simpa [view, htick] using hone
      exact h.tick hi htick hlevel
  single := fun i s => by
    cases htick : i.sampleTick <;> simp [view, htick]

/-- **The receiver refines the reference decoder.** On any line, with ticks at any clocks and bytes
taken at any clocks: of the characters begun by time `t`, all but one that is still on the line have
ended. What has been handed over or waits are the words that the reference decoder finds in the
halves of their bits, and the other ones are counted as malformed. The decoder is given the ticks up
to time `u`, those of ten bits of each character at least. -/
theorem manchester_refines (inp : ℕ → Input) (hreset : ∀ t, (inp t).resetN = true) (t u : ℕ)
    (hlong : ∀ a ∈ view.begun (run inp) t, 39 ≤ ((run inp).since view.sampled a u).length) :
    let r := run inp
    ∃ done on, view.begun r t = done ++ on ∧ on.length = (r.state t).active.toNat ∧
      r.record delivered t ++ view.waiting (r.state t) =
        done.filterMap (view.word referenceWord r u) ∧
      (r.state t).malformedCount =
        BitVec.ofNat 64 (done.countP fun a => (view.word referenceWord r u a).isNone) :=
  Refines.run (r := run inp) refines hreset rfl ⟨rfl, rfl⟩ hlong

/-- A character, and later a low level that is too short for the first half of a start bit. -/
def glitch (t : ℕ) : Input where
  resetN := true
  swo := if t < 40 then manchester 1 0xa6 t else t != 50
  sampleTick := true
  outputReady := true

/-- The reference decoder finds the word and rejects the second character. -/
theorem manchester_refines_glitch :
    let r := run glitch
    view.begun r 80 = [2, 52] ∧
      [0xa6] = [2, 52].filterMap (view.word referenceWord r 100) ∧
      (1 : BitVec 64) =
        BitVec.ofNat 64 ([2, 52].countP fun a => (view.word referenceWord r 100 a).isNone) := by
  intro r
  have hbegun : view.begun r 80 = [2, 52] := by decide +kernel
  have hbytes : r.record delivered 80 ++ view.waiting (r.state 80) = [0xa6] := by decide +kernel
  have hcount : (r.state 80).malformedCount = 1 := by decide +kernel
  have hactive : (r.state 80).active = false := by decide +kernel
  obtain ⟨done, on, hdone, hon, hwords, herrors⟩ :=
    manchester_refines glitch (fun _ => rfl) 80 100 (by decide +kernel)
  rw [show run glitch = r from rfl] at hdone hon hwords herrors
  rw [hactive] at hon
  rw [List.eq_nil_of_length_eq_zero hon, List.append_nil, hbegun] at hdone
  rw [← hdone, hbytes] at hwords
  rw [← hdone, hcount] at herrors
  exact ⟨hbegun, hwords, herrors⟩

end SwoManchester
