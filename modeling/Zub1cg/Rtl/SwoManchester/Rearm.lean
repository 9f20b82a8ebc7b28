import Zub1cg.Rtl.SwoManchester.Reception

/-!
# Arming on a stop bit

The second half of a stop bit is low. A receiver that is ready before it ends takes it for a
start bit. From there on it has begun one more character than has been sent, and it is ready
before the end of every stop bit. If it rejects none, it hands over too many bytes.

## Main definitions

- `taken` — the characters that have been begun, right or wrong
- `Early` — a character that leaves the receiver ready before its stop bit ends

## Main results

- `taken_finished` — a character that is begun ends after 39 ticks
- `not_early_or_more` — no character is early, or more of them are begun than are sent
-/

namespace SwoManchester

open Clocked (Run)
open Swo (tick nextTick nextTick_pos nextTick_le tick_induction frameBit manchester
  manchester_first manchester_second line line_cons span duration atStarts)

/-! ### One edge -/

/-- While a character is received no byte waits, and the ticks that have passed are counted by
`quarter` and `bit_index`. -/
def Counted (s : State) : Prop :=
  s.active = true → s.outputValid = false ∧ s.quarter ≤ 3 ∧ 4 * s.bitIndex + s.quarter ≤ 38

section

variable {i : Input} {s : State}

/-- The second sample of a bit leaves the character going, or it ends it. -/
theorem bitUpdate_cases (n : State) (hbit : s.bitIndex ≤ 9) :
    (s.bitIndex < 9 ∧ ∃ v, bitUpdate s n = { n with shift := v }) ∨
    (bitUpdate s n).active = false ∧
      ((bitUpdate s n).malformedCount = s.malformedCount + 1 ∨
        (bitUpdate s n).outputValid = true) := by
  rw [bitUpdate]
  split_ifs with hsame hstart hdata hstop hone
  · exact .inr ⟨rfl, .inl rfl⟩
  · exact .inr ⟨rfl, .inl rfl⟩
  · exact .inl ⟨by omega, _, rfl⟩
  · exact .inr ⟨rfl, .inr rfl⟩
  · exact .inr ⟨rfl, .inl rfl⟩
  · exact .inl ⟨by omega, n.shift, rfl⟩

/-- A tick in a character is counted, or it ends the character. -/
theorem tick_cases (hi : i.resetN = true) (hactive : s.active = true) (h : Counted s)
    (htick : i.sampleTick = true) :
    ((step i s).active = true ∧ (step i s).outputValid = false ∧ (step i s).quarter ≤ 3 ∧
      4 * (step i s).bitIndex + (step i s).quarter = 4 * s.bitIndex + s.quarter + 1 ∧
      4 * s.bitIndex + s.quarter < 38) ∨
    (step i s).active = false ∧
      ((step i s).malformedCount = s.malformedCount + 1 ∨ (step i s).outputValid = true) := by
  obtain ⟨hvalid, hquarter, hbound⟩ := h hactive
  rw [step_tick hi hactive hvalid htick, tickUpdate, if_pos hactive]
  by_cases hsample : s.quarter = 2
  · have hno0 : ¬ s.quarter = 0 := by omega
    have hno3 : ¬ s.quarter = 3 := by omega
    rw [if_neg hno0, if_pos hsample, if_neg hno3]
    obtain ⟨hbit, v, hv⟩ | hend := bitUpdate_cases (s := s)
      { s with swoMeta := i.swo, swoSync := s.swoMeta } (by omega)
    · rw [hv]
      refine .inl ⟨hactive, hvalid, ?_, ?_, by omega⟩
      · show s.quarter + 1 ≤ 3
        omega
      · show 4 * s.bitIndex + (s.quarter + 1) = _
        omega
    · exact .inr hend
  · rw [if_neg hsample]
    by_cases hlast : s.quarter = 3
    · have hno0 : ¬ s.quarter = 0 := by omega
      rw [if_pos hlast, if_neg hno0]
      refine .inl ⟨hactive, hvalid, Nat.zero_le _, ?_, by omega⟩
      show 4 * (s.bitIndex + 1) + 0 = _
      omega
    · rw [if_neg hlast]
      refine .inl ⟨?_, ?_, ?_, ?_, by omega⟩
      · split_ifs <;> exact hactive
      · split_ifs <;> exact hvalid
      · show s.quarter + 1 ≤ 3
        omega
      · split_ifs <;> exact (Nat.add_assoc _ _ _).symm

theorem counted_step (hi : i.resetN = true) (h : Counted s) : Counted (step i s) := by
  intro hnext
  cases hactive : s.active with
  | true =>
    obtain ⟨hvalid, hquarter, hbound⟩ := h hactive
    cases htick : i.sampleTick with
    | true =>
      obtain ⟨-, hvalid', hquarter', hcount, hless⟩ | ⟨hend, -⟩ := tick_cases hi hactive h htick
      · exact ⟨hvalid', hquarter', by omega⟩
      · rw [hend] at hnext
        exact absurd hnext Bool.false_ne_true
    | false =>
      rw [step_between hi hactive hvalid htick]
      exact ⟨hvalid, hquarter, hbound⟩
  | false =>
    cases hvalid : s.outputValid with
    | true =>
      rw [step_waiting hi hactive hvalid] at hnext
      exact absurd (hactive.symm.trans hnext) Bool.false_ne_true
    | false =>
      cases hline : s.swoSync with
      | true =>
        rw [step_idle hi hactive hvalid hline] at hnext
        exact absurd (hactive.symm.trans hnext) Bool.false_ne_true
      | false =>
        rw [step_arm hi hactive hvalid hline]
        exact ⟨hvalid, Nat.zero_le _, Nat.zero_le _⟩

end

/-! ### Counting characters -/

/-- The characters handed over or waiting. -/
def finished (r : Run Input State) (t : ℕ) : ℕ :=
  (r.record delivered t).length + (r.state t).outputValid.toNat

/-- The characters that have been begun, right or wrong, if none has been rejected. -/
def taken (r : Run Input State) (t : ℕ) : ℕ := finished r t + (r.state t).active.toNat

section

variable {period phase : ℕ} {swo : ℕ → Bool}

theorem counted (period phase : ℕ) (swo : ℕ → Bool) (t : ℕ) :
    Counted ((reception period phase swo).state t) :=
  Run.invariant (reception period phase swo) (P := Counted)
    (fun h => absurd h Bool.false_ne_true) (fun _ _ h => counted_step rfl h) t

/-- A byte that waits is handed over at the next edge. -/
theorem finished_le_length (t : ℕ) : finished (reception period phase swo) t ≤
    ((reception period phase swo).record delivered (t + 1)).length := by
  rw [finished, Run.record_succ, List.length_append, delivered]
  cases ((reception period phase swo).state t).outputValid <;> simp [reception]

theorem finished_mono_succ (t : ℕ) :
    finished (reception period phase swo) t ≤ finished (reception period phase swo) (t + 1) :=
  (finished_le_length t).trans (Nat.le_add_right _ _)

variable (hnone : ∀ t, ((reception period phase swo).state t).malformedCount = 0)

include hnone

/-- An edge in a character. -/
theorem active_next {t : ℕ} (hactive : ((reception period phase swo).state t).active = true) :
    (reception period phase swo).record delivered (t + 1) =
        (reception period phase swo).record delivered t ∧
      (((reception period phase swo).state (t + 1)).outputValid = true ∨
        ((reception period phase swo).state (t + 1)).active = true ∧
          4 * ((reception period phase swo).state (t + 1)).bitIndex +
              ((reception period phase swo).state (t + 1)).quarter =
            4 * ((reception period phase swo).state t).bitIndex +
              ((reception period phase swo).state t).quarter + (tick period phase t).toNat) := by
  have hcounted := counted period phase swo t
  have hvalid := (hcounted hactive).1
  refine ⟨record_of_not_valid hvalid, ?_⟩
  cases htick : tick period phase t with
  | true =>
    obtain ⟨hstill, -, -, hcount, -⟩ | ⟨-, hreject | hend⟩ :=
      tick_cases (i := (reception period phase swo).input t) rfl hactive hcounted htick
    · exact .inr ⟨hstill, hcount⟩
    · have hbad : ((reception period phase swo).state (t + 1)).malformedCount = 0 + 1 :=
        hreject.trans (congrArg (· + 1) (hnone t))
      exact absurd ((hnone (t + 1)).symm.trans hbad) (by decide)
    · exact .inl hend
  | false =>
    refine .inr ?_
    rw [Run.state_succ]
    change (step _ _).active = true ∧ 4 * (step _ _).bitIndex + (step _ _).quarter = _
    rw [step_between rfl hactive hvalid htick]
    exact ⟨hactive, rfl⟩

/-- What one edge does to the counts. -/
theorem taken_cases (t : ℕ) :
    taken (reception period phase swo) t ≤ taken (reception period phase swo) (t + 1) ∧
      (((reception period phase swo).state t).swoSync = false →
        ((reception period phase swo).record delivered t).length + 1 ≤
          taken (reception period phase swo) (t + 1)) := by
  cases hactive : ((reception period phase swo).state t).active with
  | true =>
    obtain ⟨hrecord, hnext⟩ := active_next hnone hactive
    have hvalid := (counted period phase swo t hactive).1
    have hmore : ((reception period phase swo).record delivered t).length + 1 ≤
        taken (reception period phase swo) (t + 1) := by
      rw [taken, finished, hrecord]
      obtain hend | ⟨hstill, -⟩ := hnext
      · rw [hend, Bool.toNat_true]
        omega
      · rw [hstill, Bool.toNat_true]
        omega
    refine ⟨?_, fun _ => hmore⟩
    rwa [taken, finished, hvalid, hactive]
  | false =>
    cases hvalid : ((reception period phase swo).state t).outputValid with
    | true =>
      have hlength : finished (reception period phase swo) t ≤
          taken (reception period phase swo) (t + 1) :=
        (finished_mono_succ t).trans (Nat.le_add_right _ _)
      rw [finished, hvalid, Bool.toNat_true] at hlength
      refine ⟨?_, fun _ => hlength⟩
      rwa [taken, finished, hvalid, hactive]
    | false =>
      have hrecord := record_of_not_valid hvalid
      constructor
      · rw [taken, finished, hvalid, hactive, taken, finished, hrecord]
        exact Nat.le_add_right _ _ |>.trans (Nat.le_add_right _ _)
      · intro hlow
        have harmed : ((reception period phase swo).state (t + 1)).active = true :=
          congrArg State.active
            (step_arm (i := (reception period phase swo).input t) rfl hactive hvalid hlow)
        rw [taken, finished, hrecord, harmed, Bool.toNat_true]
        omega

/-- What has been begun by the clock after `a` has ended by the clock `t`, or all but one of it
have, and that one has `n` ticks behind it. -/
def Pending (r : Run Input State) (a t n : ℕ) : Prop :=
  taken r (a + 1) ≤ finished r t ∨
    taken r (a + 1) ≤ (r.record delivered t).length + 1 ∧ (r.state t).active = true ∧
      n ≤ 4 * (r.state t).bitIndex + (r.state t).quarter

omit hnone in
theorem pending_start (a : ℕ) : Pending (reception period phase swo) a (a + 1) 0 := by
  cases hactive : ((reception period phase swo).state (a + 1)).active with
  | true =>
    have hvalid := (counted period phase swo _ hactive).1
    refine .inr ⟨?_, hactive, Nat.zero_le _⟩
    rw [taken, finished, hactive, hvalid]
    exact Nat.le_refl _
  | false => exact .inl (by rw [taken, hactive]; exact Nat.le_refl _)

theorem Pending.next {a t n : ℕ} (h : Pending (reception period phase swo) a t n) :
    Pending (reception period phase swo) a (t + 1) (n + (tick period phase t).toNat) := by
  obtain hdone | ⟨hlength, hactive, hcount⟩ := h
  · exact .inl (hdone.trans (finished_mono_succ t))
  · obtain ⟨hrecord, hend | ⟨hstill, hmore⟩⟩ := active_next hnone hactive
    · left
      rwa [finished, hrecord, hend]
    · right
      rw [hrecord, hmore]
      exact ⟨hlength, hstill, by omega⟩

/-- A character that has been begun by the clock after `a` ends at the latest by the 39th tick
after `a`. -/
theorem taken_finished (hperiod : 0 < period) (a : ℕ) :
    taken (reception period phase swo) (a + 1) ≤ ((reception period phase swo).record delivered
      (a + (nextTick period phase a + 38 * period) + 2)).length := by
  obtain ⟨⟨hlast, htick⟩, -⟩ := tick_induction hperiod phase a 38 (pending_start a)
    (fun t n h hno => by simpa [hno] using h.next hnone)
    (fun n _ h hyes => by simpa [hyes] using h.next hnone)
  have hend := hlast.next hnone
  rw [htick] at hend
  obtain hdone | ⟨-, hactive, hcount⟩ := hend
  · exact hdone.trans (finished_le_length _)
  · have := (counted period phase swo _ hactive).2.2
    exact absurd hcount (by rw [Bool.toNat_true]; omega)

theorem taken_mono {t u : ℕ} (h : t ≤ u) :
    taken (reception period phase swo) t ≤ taken (reception period phase swo) u := by
  induction h with
  | refl => exact Nat.le_refl _
  | step _ ih => exact ih.trans (taken_cases hnone _).1

/-! ### Characters on the line -/

/-- A character that begins at the clock `S` leaves the receiver ready before it ends. -/
def Early (period phase S : ℕ) : Prop := nextTick period phase S + 2 < 2 * period

/-- A receiver that is ready in the second half of a stop bit begins another character. -/
theorem rearmed (hperiod : 0 < period) {a S count : ℕ} {b : UInt8}
    (h : count + 1 ≤ taken (reception period phase swo) (a + 1))
    (hle : S + 38 * period ≤ a + (nextTick period phase a + 38 * period) + 2)
    (hlt : a + (nextTick period phase a + 38 * period) + 2 < S + 40 * period)
    (hlevel : ∀ d < duration period,
      ((reception period phase swo).state (S + d)).swoSync = manchester period b d) :
    count + 2 ≤ taken (reception period phase swo) (S + duration period) := by
  have hfinished := h.trans (taken_finished hnone hperiod a)
  obtain ⟨d, hd⟩ := Nat.exists_eq_add_of_le (Nat.le_of_add_right_le hle)
  rw [hd] at hfinished hlt hle
  have hlow : ((reception period phase swo).state (S + d)).swoSync = false := by
    rw [hlevel d (by rw [duration]; omega),
      manchester_second (k := 9) b (by omega) (by omega)]
    rfl
  have harmed := (taken_cases hnone (S + d)).2 hlow
  have hlater := taken_mono (u := S + duration period) hnone (t := S + d + 1)
    (by rw [duration]; omega)
  omega

/-- Once one character too many has been begun, there is one too many after the next one. -/
theorem one_more (hperiod : 2 ≤ period) {S count : ℕ} {b : UInt8} (hS : 0 < S)
    (h : count + 1 ≤ taken (reception period phase swo) S)
    (hlevel : ∀ d < duration period,
      ((reception period phase swo).state (S + d)).swoSync = manchester period b d) :
    count + 2 ≤ taken (reception period phase swo) (S + duration period) := by
  obtain ⟨a, rfl⟩ := Nat.exists_eq_succ_of_ne_zero (Nat.ne_of_gt hS)
  have hpos := nextTick_pos (by omega : 0 < period) phase a
  have hbound := nextTick_le period phase a
  exact rearmed hnone (by omega) h (by omega) (by omega) hlevel

/-- A character is handed over before it ends, and an early one is followed by one too many. -/
theorem character_taken (hperiod : 2 ≤ period) {S count : ℕ} {b : UInt8}
    (h : count ≤ ((reception period phase swo).record delivered S).length)
    (hlevel : ∀ d < duration period,
      ((reception period phase swo).state (S + d)).swoSync = manchester period b d) :
    count + 1 ≤ ((reception period phase swo).record delivered (S + duration period)).length ∧
      (Early period phase S →
        count + 2 ≤ taken (reception period phase swo) (S + duration period)) := by
  have hpos := nextTick_pos (by omega : 0 < period) phase S
  have hbound := nextTick_le period phase S
  have hlow : ((reception period phase swo).state S).swoSync = false := by
    have hzero := hlevel 0 (by rw [duration]; omega)
    rwa [manchester_first (k := 0) b (by omega) (by omega)] at hzero
  have harmed : count + 1 ≤ taken (reception period phase swo) (S + 1) :=
    (Nat.succ_le_succ h).trans ((taken_cases hnone S).2 hlow)
  refine ⟨?_, fun hearly => ?_⟩
  · refine (harmed.trans (taken_finished hnone (by omega) S)).trans (List.IsPrefix.length_le ?_)
    exact Run.record_mono _ _ (by rw [duration]; omega)
  · rw [Early] at hearly
    exact rearmed hnone (by omega) harmed (by omega) (by omega) hlevel

/-- One character too many stays one too many. -/
theorem line_one_more (hperiod : 2 ≤ period) (chars : List (ℕ × UInt8)) {t count : ℕ}
    (ht : 0 < t) (h : count + 1 ≤ taken (reception period phase swo) t)
    (hlevel : ∀ d, ((reception period phase swo).state (t + d)).swoSync =
      line (duration period) (manchester period) chars d) :
    count + chars.length + 1 ≤
      taken (reception period phase swo) (t + span (duration period) chars) := by
  induction chars generalizing t count with
  | nil => exact h
  | cons char rest ih =>
    obtain ⟨gap, b⟩ := char
    obtain ⟨-, hwave, hrest⟩ := line_cons
      (fun t => ((reception period phase swo).state t).swoSync) hlevel
    have hafter := one_more hnone hperiod (by omega)
      (h.trans (taken_mono hnone (Nat.le_add_right t gap))) hwave
    rw [Nat.add_assoc] at hafter
    have hall := ih (by omega) hafter hrest
    rw [span, List.length_cons, ← Nat.add_assoc t]
    omega

/-- No character of a line is early, or more characters are begun than are sent. -/
theorem not_early_or_more (hperiod : 2 ≤ period) (chars : List (ℕ × UInt8)) {t count : ℕ}
    (ht : 0 < t) (h : count ≤ ((reception period phase swo).record delivered t).length)
    (hlevel : ∀ d, ((reception period phase swo).state (t + d)).swoSync =
      line (duration period) (manchester period) chars d) :
    atStarts (duration period) (fun S => ¬ Early period phase S) t chars ∨
      count + chars.length + 1 ≤
        taken (reception period phase swo) (t + span (duration period) chars) := by
  induction chars generalizing t count with
  | nil => exact .inl trivial
  | cons char rest ih =>
    obtain ⟨gap, b⟩ := char
    obtain ⟨-, hwave, hrest⟩ := line_cons
      (fun t => ((reception period phase swo).state t).swoSync) hlevel
    have hlength := h.trans (Run.record_mono _ delivered (Nat.le_add_right t gap)).length_le
    obtain ⟨hlater, hearly⟩ := character_taken hnone hperiod hlength hwave
    rw [Nat.add_assoc] at hlater hearly
    rw [span, List.length_cons, ← Nat.add_assoc t]
    by_cases hthis : Early period phase (t + gap)
    · have hall := line_one_more hnone hperiod rest (by omega) (hearly hthis) hrest
      right
      omega
    · obtain hgood | hmore := ih (by omega) hlater hrest
      · exact .inl ⟨hthis, hgood⟩
      · right
        omega

end

end SwoManchester
