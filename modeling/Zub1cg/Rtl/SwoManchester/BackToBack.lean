import Zub1cg.Rtl.SwoManchester.Rearm

/-!
# Manchester characters back to back

## Main definitions

- `Exact` — the bytes sent come out, and none is rejected
- `Spaced` — the lines the receiver can follow

## Main results

- `exact_one`, `exact_two` — a tick at every clock, and at every second clock
- `manchester_exact_iff` — the receiver follows exactly the lines that are `Spaced`
-/

namespace SwoManchester

open Clocked (Run)
open Swo (tick nextTick nextTick_le manchester manchester_first manchester_second line
  line_cons line_induction span duration atStarts atStarts_imp)

/-- The receiver on a line of characters, with `output_ready` high. -/
def onLine (period phase : ℕ) (chars : List (ℕ × UInt8)) : Run Input State :=
  reception period phase (line (duration period) (manchester period) chars)

/-- Exactly `bytes` come out, and none is rejected. -/
structure Exact (bytes : List UInt8) (r : Run Input State) : Prop where
  count : ∀ t, (r.state t).malformedCount = 0
  only : ∀ t, r.record delivered t <+: bytes
  all : ∃ t, r.record delivered t = bytes

/-- There are no characters, or there is a tick at every clock and every character but the first
one follows an idle clock, or there is a tick at every second clock and every character begins
at a tick. The line passes two registers. -/
def Spaced (period phase : ℕ) (chars : List (ℕ × UInt8)) : Prop :=
  chars = [] ∨ period = 1 ∧ (∀ char ∈ chars.tail, 0 < char.1) ∨
    period = 2 ∧ atStarts (duration 2) (fun S => tick 2 phase S = true) 2 chars

section

variable {period phase : ℕ} {chars : List (ℕ × UInt8)} {bytes : List UInt8}

theorem swoSync_add_two (swo : ℕ → Bool) (t : ℕ) :
    ((reception period phase swo).state (2 + t)).swoSync = swo t := by
  rw [Nat.add_comm, Run.state_succ]
  exact step_swo.2.trans (by rw [Run.state_succ]; exact step_swo.1)

theorem idle_two (period phase : ℕ) (swo : ℕ → Bool) :
    Idle (reception period phase swo) 2 [] := by
  have hstart : Idle (reception period phase swo) 0 [] := ⟨⟨rfl, rfl⟩, rfl, rfl⟩
  exact (hstart.high rfl).high
    (step_swo (i := (reception period phase swo).input 0) (s := resetState)).2

theorem onLine_level (d : ℕ) : ((onLine period phase chars).state (2 + d)).swoSync =
    line (duration period) (manchester period) chars d :=
  swoSync_add_two _ d

/-- What has come and stays is all that comes. -/
theorem exact_of_idle {T : ℕ}
    (hidle : ∀ d, Idle (onLine period phase chars) (T + d) bytes)
    (hcount : ∀ d, ((onLine period phase chars).state (2 + d)).malformedCount = 0) :
    Exact bytes (onLine period phase chars) where
  count t := by
    match t with
    | 0 => rfl
    | 1 => rw [Run.state_succ]; exact congrArg State.malformedCount (step_idle rfl rfl rfl rfl)
    | t + 2 =>
      rw [Nat.add_comm]
      exact hcount t
  only t := by
    rw [← (hidle t).record]
    exact Run.record_mono _ _ (Nat.le_add_left _ _)
  all := ⟨T, (hidle 0).record⟩

theorem exact_nil : Exact [] (onLine period phase []) := by
  have hidle (d : ℕ) : Idle (onLine period phase []) (2 + d) [] :=
    (idle_two period phase _).gap d fun d _ => onLine_level d
  exact exact_of_idle hidle fun d => (hidle d).count

/-! ### A tick at every second clock -/

theorem exact_two (h : atStarts (duration 2) (fun S => tick 2 phase S = true) 2 chars) :
    Exact (chars.map Prod.snd) (onLine 2 phase chars) := by
  have hchar (S : ℕ) (bytes : List UInt8) (b : UInt8) (hidle : Idle (onLine 2 phase chars) S bytes)
      (htick : tick 2 phase S = true)
      (hwave : ∀ d < duration 2,
        ((onLine 2 phase chars).state (S + d)).swoSync = manchester 2 b d) :
      Idle (onLine 2 phase chars) (S + duration 2) (bytes ++ [b]) ∧ ∀ d < duration 2,
        ((onLine 2 phase chars).state (S + d)).malformedCount = 0 ∨
          ((onLine 2 phase chars).state (S + d)).malformedCount = 0 := by
    have hnext : nextTick 2 phase S = 2 := by
      rw [tick, beq_iff_eq] at htick
      rw [nextTick, htick]
    obtain ⟨hwaiting, hcount⟩ := hidle.character (by decide) hwave
    rw [hnext] at hwaiting hcount
    refine ⟨hwaiting.taken, fun d hd => .inl ?_⟩
    rw [duration] at hd
    by_cases hlast : d = 79
    · obtain ⟨-, -, hzero, -⟩ := hwaiting
      rw [hlast]
      exact hzero
    · exact hcount d (by omega)
  obtain ⟨hlast, hevery⟩ := line_induction (fun t => ((onLine 2 phase chars).state t).swoSync)
    (by decide) (fun _ _ hidle => hidle.count) (fun _ _ hidle => hidle.high) hchar chars
    (idle_two 2 phase _) h onLine_level
  refine exact_of_idle (T := 2 + span (duration 2) chars) (fun d => ?_) fun d => ?_
  · rw [Nat.add_assoc]
    exact hlast _ (Nat.le_add_right _ _)
  · obtain ⟨-, -, -, hcount⟩ := hevery d
    exact hcount

/-! ### A tick at every clock -/

theorem nextTick_one (t : ℕ) : nextTick 1 phase t = 1 := by
  rw [nextTick, Nat.mod_one]

/-- A start bit that is first sampled in its second half is rejected. -/
theorem second_half_rejected (i₀ i₁ i₂ i₃ : Input) {s : State} (h : Ready s)
    (hlow : s.swoSync = false) (hhigh : s.swoMeta = true)
    (hreset : i₀.resetN = true ∧ i₁.resetN = true ∧ i₂.resetN = true ∧ i₃.resetN = true)
    (htick : i₁.sampleTick = true ∧ i₂.sampleTick = true ∧ i₃.sampleTick = true) :
    (step i₃ (step i₂ (step i₁ (step i₀ s)))).malformedCount = s.malformedCount + 1 := by
  obtain ⟨hr0, hr1, hr2, hr3⟩ := hreset
  obtain ⟨ht1, ht2, ht3⟩ := htick
  rw [step_arm hr0 h.active h.valid hlow]
  simp only [step, tickUpdate, hr1, hr2, hr3, ht1, ht2, ht3, h.valid, hhigh]
  simp [bitUpdate]

/-- A character that directly follows another one is rejected. -/
theorem Waiting.rejected {swo : ℕ → Bool} {t : ℕ} {b : UInt8}
    (h : Waiting (reception 1 phase swo) t bytes)
    (hwave : ∀ d < duration 1, ((reception 1 phase swo).state (t + d)).swoSync = manchester 1 b d) :
    ((reception 1 phase swo).state (t + 5)).malformedCount = 1 := by
  have hready := h.taken
  have hlow : ((reception 1 phase swo).state (t + 1)).swoSync = false := by
    rw [hwave 1 (by decide), manchester_first (k := 0) b (by decide) (by decide)]
    rfl
  have hhigh : ((reception 1 phase swo).state (t + 2)).swoSync = true := by
    rw [hwave 2 (by decide), manchester_second (k := 0) b (by decide) (by decide)]
    rfl
  have htick (x : ℕ) : tick 1 phase x = true := by simp [tick, Nat.mod_one]
  have hmeta : ((reception 1 phase swo).state (t + 1)).swoMeta = true :=
    (step_swo (i := (reception 1 phase swo).input (t + 1))).2.symm.trans hhigh
  have hreject := second_half_rejected ((reception 1 phase swo).input (t + 1))
    ((reception 1 phase swo).input (t + 2)) ((reception 1 phase swo).input (t + 3))
    ((reception 1 phase swo).input (t + 4)) hready.ready hlow hmeta ⟨rfl, rfl, rfl, rfl⟩
    ⟨htick _, htick _, htick _⟩
  rw [hready.count] at hreject
  exact hreject

/-- The next character after an idle clock. -/
theorem Waiting.character {swo : ℕ → Bool} {t gap : ℕ} {b : UInt8}
    (h : Waiting (reception 1 phase swo) t bytes) (hgap : 0 < gap)
    (hhigh : ∀ d < gap, ((reception 1 phase swo).state (t + d)).swoSync = true)
    (hwave : ∀ d < duration 1,
      ((reception 1 phase swo).state (t + gap + d)).swoSync = manchester 1 b d) :
    Waiting (reception 1 phase swo) (t + (gap + duration 1)) (bytes ++ [b]) ∧
      ∀ d < gap + duration 1, ((reception 1 phase swo).state (t + d)).malformedCount = 0 := by
  have hidle (n : ℕ) (hn : n + 1 ≤ gap) : Idle (reception 1 phase swo) (t + (n + 1)) bytes := by
    have hafter := h.taken.gap n fun d hd => by
      rw [Nat.add_assoc]
      exact hhigh _ (by omega)
    rwa [Nat.add_assoc, Nat.add_comm 1] at hafter
  obtain ⟨n, rfl⟩ := Nat.exists_eq_succ_of_ne_zero (Nat.ne_of_gt hgap)
  obtain ⟨hend, hcount⟩ := (hidle n (Nat.le_refl _)).character (by decide) hwave
  rw [nextTick_one] at hend hcount
  refine ⟨hend, fun d hd => ?_⟩
  rw [duration] at hd
  by_cases hbefore : d < n + 1
  · cases d with
    | zero =>
      obtain ⟨-, -, hzero, -⟩ := h
      exact hzero
    | succ d => exact (hidle d (by omega)).count
  · obtain ⟨x, rfl⟩ := Nat.exists_eq_add_of_le (Nat.le_of_not_lt hbefore)
    rw [← Nat.add_assoc]
    exact hcount x (by omega)

/-- After a character, the others come if each follows an idle clock, and else one is rejected. -/
theorem after_character {swo : ℕ → Bool} (chars : List (ℕ × UInt8)) {t : ℕ} {bytes : List UInt8}
    (h : Waiting (reception 1 phase swo) t bytes)
    (hlevel : ∀ d, ((reception 1 phase swo).state (t + d)).swoSync =
      line (duration 1) (manchester 1) chars d) :
    ((∀ d, ((reception 1 phase swo).state (t + d)).malformedCount = 0) ↔
        ∀ char ∈ chars, 0 < char.1) ∧
      ((∀ char ∈ chars, 0 < char.1) →
        ∃ T, ∀ d, Idle (reception 1 phase swo) (T + d) (bytes ++ chars.map Prod.snd)) := by
  induction chars generalizing t bytes with
  | nil =>
    have hidle (d : ℕ) : Idle (reception 1 phase swo) (t + 1 + d) bytes :=
      h.taken.gap d fun d _ => by rw [Nat.add_assoc, hlevel]; rfl
    refine ⟨⟨fun _ => by simp, fun _ d => ?_⟩, fun _ => ⟨t + 1, by simpa using hidle⟩⟩
    match d with
    | 0 =>
      obtain ⟨-, -, hzero, -⟩ := h
      exact hzero
    | d + 1 =>
      rw [Nat.add_comm d, ← Nat.add_assoc]
      exact (hidle d).count
  | cons char rest ih =>
    obtain ⟨gap, b⟩ := char
    obtain ⟨hhigh, hwave, hrest⟩ :=
      line_cons (fun t => ((reception 1 phase swo).state t).swoSync) hlevel
    rw [List.forall_mem_cons]
    by_cases hgap : 0 < gap
    · obtain ⟨hnext, hcount⟩ := h.character hgap hhigh hwave
      obtain ⟨hiff, hall⟩ := ih hnext hrest
      refine ⟨⟨fun hnone => ⟨hgap, hiff.mp fun d => ?_⟩, fun hgaps d => ?_⟩, fun hgaps => ?_⟩
      · rw [Nat.add_assoc]
        exact hnone _
      · by_cases hin : d < gap + duration 1
        · exact hcount d hin
        · obtain ⟨x, rfl⟩ := Nat.exists_eq_add_of_le (Nat.le_of_not_lt hin)
          rw [← Nat.add_assoc]
          exact hiff.mpr hgaps.2 x
      · rw [List.map_cons, List.append_cons]
        exact hall hgaps.2
    · obtain rfl : gap = 0 := by omega
      have hone := h.rejected hwave
      refine ⟨⟨fun hnone => ?_, fun hgaps => absurd hgaps.1 hgap⟩,
        fun hgaps => absurd hgaps.1 hgap⟩
      rw [hnone 5] at hone
      exact absurd hone (by decide)

theorem exact_one : Exact (chars.map Prod.snd) (onLine 1 phase chars) ↔
    ∀ char ∈ chars.tail, 0 < char.1 := by
  match chars with
  | [] => exact ⟨fun _ => by simp, fun _ => exact_nil⟩
  | (gap, b) :: rest =>
    obtain ⟨hhigh, hwave, hrest⟩ := line_cons
      (fun t => ((onLine 1 phase ((gap, b) :: rest)).state t).swoSync) onLine_level
    have hidle (n : ℕ) (hn : n ≤ gap) : Idle (onLine 1 phase ((gap, b) :: rest)) (2 + n) [] :=
      (idle_two 1 phase _).gap n fun d hd => hhigh d (by omega)
    obtain ⟨hend, hcount⟩ := (hidle gap (Nat.le_refl _)).character (by decide) hwave
    rw [nextTick_one] at hend hcount
    obtain ⟨hiff, hall⟩ := after_character rest hend hrest
    refine ⟨fun h => hiff.mp fun d => h.count _, fun hgaps => ?_⟩
    obtain ⟨T, hT⟩ := hall hgaps
    refine exact_of_idle hT fun d => ?_
    by_cases hin : d < gap + 40
    · by_cases hbefore : d ≤ gap
      · exact (hidle d hbefore).count
      · obtain ⟨x, rfl⟩ := Nat.exists_eq_add_of_le (Nat.le_of_not_le hbefore)
        rw [← Nat.add_assoc]
        exact hcount x (by omega)
    · obtain ⟨x, rfl⟩ := Nat.exists_eq_add_of_le (Nat.le_of_not_lt hin)
      rw [← Nat.add_assoc]
      exact hiff.mpr hgaps x

/-! ### All lines -/

/-- A line that is received exactly has no early character. -/
theorem Exact.not_early (hperiod : 2 ≤ period)
    (h : Exact (chars.map Prod.snd) (onLine period phase chars)) :
    atStarts (duration period) (fun S => ¬ Early period phase S) 2 chars := by
  obtain hgood | hmore := not_early_or_more h.count hperiod chars (by decide : 0 < 2)
    (Nat.zero_le _) onLine_level
  · exact hgood
  · have hlate := hmore.trans ((taken_mono h.count (Nat.le_succ _)).trans
      (taken_finished h.count (by omega) (2 + span (duration period) chars)))
    have hle := (h.only _).length_le.trans' hlate
    rw [List.length_map] at hle
    omega

/-- The bytes come out, and none is rejected, if and only if the line is `Spaced`. -/
theorem manchester_exact_iff {period : ℕ} (hperiod : 0 < period) (phase : ℕ)
    (chars : List (ℕ × UInt8)) :
    Exact (chars.map Prod.snd) (onLine period phase chars) ↔ Spaced period phase chars := by
  obtain rfl | rfl | hlong : period = 1 ∨ period = 2 ∨ 3 ≤ period := by omega
  · rw [exact_one, Spaced]
    constructor
    · exact fun h => .inr (.inl ⟨rfl, h⟩)
    · rintro (rfl | ⟨-, h⟩ | ⟨hno, -⟩)
      · simp
      · exact h
      · omega
  · constructor
    · intro h
      refine .inr (.inr ⟨rfl, atStarts_imp (fun S hlate => ?_) (h.not_early (by decide))⟩)
      have hmod := Nat.mod_lt (S + phase) (by decide : 0 < 2)
      rw [Early, nextTick] at hlate
      rw [tick, beq_iff_eq]
      omega
    · rintro (rfl | ⟨hno, -⟩ | ⟨-, h⟩)
      · exact exact_two trivial
      · omega
      · exact exact_two h
  · constructor
    · intro h
      cases chars with
      | nil => exact .inl rfl
      | cons char rest =>
        have hbound := nextTick_le period phase (2 + char.1)
        exact absurd (by rw [Early]; omega) (h.not_early (by omega)).1
    · rintro (rfl | ⟨hno, -⟩ | ⟨hno, -⟩)
      · exact exact_nil
      · omega
      · omega

/-- Two characters with one idle clock between them, and a tick at every clock. -/
theorem manchester_exact_two :
    0 < 1 ∧ Exact [0xA6, 0x5A] (onLine 1 0 [(0, 0xA6), (1, 0x5A)]) :=
  ⟨by decide, (manchester_exact_iff (by decide) 0 [(0, 0xA6), (1, 0x5A)]).mpr
    (.inr (.inl ⟨rfl, by decide⟩))⟩

/-- Without the idle clock the second character is rejected. With three clocks to a tick even a
single character is followed by a malformed one. -/
theorem rearmed_by_stop_bit :
    ¬ Exact [0xA6, 0x5A] (onLine 1 0 [(0, 0xA6), (0, 0x5A)]) ∧
      ¬ Exact [0xA6] (onLine 3 0 [(0, 0xA6)]) := by
  constructor
  · intro h
    exact absurd (h.count 50) (by decide +kernel)
  · intro h
    exact absurd (h.count 150) (by decide +kernel)

end

end SwoManchester
