import Zub1cg.Library.Clocked
import Mathlib.Data.BitVec

/-!
# Characters on the SWO line

The two SWO receivers sample the line with a free-running tick, four times in each bit of an
8-N-1 character. Between the characters the line is high. All times are clocks, and the ticks
fall wherever they like relative to the characters.

## Main definitions

- `tick`, `nextTick` — the sample tick
- `nrz`, `manchester` — one character
- `line` — characters with gaps between them
- `begun`, `ended` — the characters that have been sent

## Main results

- `tick_iff`, `tick_induction` — the ticks after a given clock
- `line_induction` — what each character and each idle clock preserves, a line does
-/

namespace Swo

/-! ### The sample tick -/

/-- The tick comes once in every `period` clocks. -/
def tick (period phase t : ℕ) : Bool := (t + phase) % period == 0

/-- The clocks from `t` to the next tick after it. -/
def nextTick (period phase t : ℕ) : ℕ := period - (t + phase) % period

section

variable {period phase : ℕ}

theorem nextTick_pos (hperiod : 0 < period) (phase t : ℕ) : 0 < nextTick period phase t := by
  have hless := Nat.mod_lt (t + phase) hperiod
  rw [nextTick]
  omega

theorem nextTick_le (period phase t : ℕ) : nextTick period phase t ≤ period := Nat.sub_le _ _

/-- The tick that follows a later clock is not an earlier tick. -/
theorem nextTick_mono (hperiod : 0 < period) (phase : ℕ) {t u : ℕ} (h : t ≤ u) :
    t + nextTick period phase t ≤ u + nextTick period phase u := by
  have hend (x : ℕ) :
      x + nextTick period phase x + phase = ((x + phase) / period + 1) * period := by
    have hless := Nat.mod_lt (x + phase) hperiod
    have hsplit := Nat.div_add_mod (x + phase) period
    rw [nextTick, Nat.add_mul, Nat.mul_comm _ period]
    omega
  have hdiv : (t + phase) / period ≤ (u + phase) / period :=
    Nat.div_le_div_right (Nat.add_le_add_right h phase)
  have hmul := Nat.mul_le_mul_right period (Nat.succ_le_succ hdiv)
  rw [← hend, ← hend] at hmul
  omega

/-- Of the clocks between two ticks in the rhythm of the tick after `t`, the second one is the
only tick. -/
theorem tick_iff (hperiod : 0 < period) {t d n : ℕ} (hle : d ≤ nextTick period phase t + n * period)
    (hlt : nextTick period phase t + n * period < d + period) :
    tick period phase (t + d) = true ↔ d = nextTick period phase t + n * period := by
  have hless := Nat.mod_lt (t + phase) hperiod
  have hsplit := Nat.div_add_mod (t + phase) period
  obtain ⟨x, hx⟩ := Nat.exists_eq_add_of_le hle
  have hsum : t + d + phase + x = (t + phase) / period * period + (n + 1) * period := by
    rw [nextTick] at hx
    rw [Nat.add_mul, Nat.mul_comm _ period]
    omega
  rw [← Nat.add_mul] at hsum
  rw [tick, beq_iff_eq]
  constructor
  · intro hzero
    obtain ⟨m, hm⟩ := Nat.dvd_of_mod_eq_zero hzero
    rw [hm, Nat.mul_comm] at hsum
    -- a multiple of the period that is shorter than one
    have hdvd : period ∣ x := by
      have hall : period ∣ m * period + x := hsum ▸ Nat.dvd_mul_left _ _
      exact (Nat.dvd_add_right (Nat.dvd_mul_left _ _)).mp hall
    have hnone : x = 0 := Nat.eq_zero_of_dvd_of_lt hdvd (by omega)
    omega
  · intro heq
    have hnone : x = 0 := by omega
    rw [hnone, Nat.add_zero] at hsum
    rw [hsum, Nat.mul_mod_left]

/-- What holds from the clock after `A` on while the ticks are counted, up to tick `last`. -/
theorem tick_induction (hperiod : 0 < period) (phase A last : ℕ) {P : ℕ → ℕ → Prop}
    (hzero : P (A + 1) 0)
    (hbetween : ∀ t n, P t n → tick period phase t = false → P (t + 1) n)
    (htick : ∀ n < last, P (A + (nextTick period phase A + n * period)) n →
      tick period phase (A + (nextTick period phase A + n * period)) = true →
      P (A + (nextTick period phase A + n * period) + 1) (n + 1)) :
    (P (A + (nextTick period phase A + last * period)) last ∧
      tick period phase (A + (nextTick period phase A + last * period)) = true) ∧
    ∀ d < nextTick period phase A + last * period, ∃ n, P (A + (d + 1)) n := by
  have hfirst := nextTick_pos hperiod phase A
  have hbound := nextTick_le period phase A
  have hevery (d : ℕ) (hd : d < nextTick period phase A + last * period) :
      ∃ n, d + 1 ≤ nextTick period phase A + n * period ∧
        nextTick period phase A + n * period < d + 1 + period ∧ P (A + (d + 1)) n := by
    induction d with
    | zero => exact ⟨0, by omega, by omega, hzero⟩
    | succ d ih =>
      obtain ⟨n, hle, hlt, hn⟩ := ih (by omega)
      have hnow := tick_iff hperiod hle hlt
      by_cases hat : d + 1 = nextTick period phase A + n * period
      · have hless : n < last := Nat.lt_of_mul_lt_mul_right (a := period) (by omega)
        have hyes := hnow.mpr hat
        rw [hat] at hn hyes
        refine ⟨n + 1, by rw [Nat.succ_mul]; omega, by rw [Nat.succ_mul]; omega, ?_⟩
        rw [hat]
        exact htick n hless hn hyes
      · exact ⟨n, by omega, by omega,
          hbetween _ n hn (Bool.eq_false_iff.mpr fun hyes => hat (hnow.mp hyes))⟩
  refine ⟨?_, fun d hd => (hevery d hd).imp fun n h => h.2.2⟩
  obtain ⟨d, hd⟩ : ∃ d, nextTick period phase A + last * period = d + 1 :=
    ⟨nextTick period phase A + last * period - 1, by omega⟩
  obtain ⟨n, hle, hlt, hn⟩ := hevery d (by omega)
  obtain rfl : n = last := by
    have hmore : last ≤ n := Nat.le_of_mul_le_mul_right (c := period) (by omega) hperiod
    have hless : n < last + 1 :=
      Nat.lt_of_mul_lt_mul_right (a := period) (by rw [Nat.succ_mul]; omega)
    omega
  rw [hd]
  exact ⟨hn, (tick_iff hperiod hle hlt).mpr hd.symm⟩

end

/-! ### Characters -/

/-- `v[k] <= value` -/
def setBit (v : BitVec 8) (k : ℕ) (value : Bool) : BitVec 8 :=
  if value then v ||| BitVec.twoPow 8 k else v &&& ~~~BitVec.twoPow 8 k

theorem getLsbD_setBit (v : BitVec 8) {k : ℕ} (hk : k < 8) (value : Bool) (j : ℕ) :
    (setBit v k value).getLsbD j = if j = k then value else v.getLsbD j := by
  rw [setBit]
  by_cases hj : j = k
  · subst hj
    cases value <;> simp [hk]
  · have hk' : ¬ k = j := fun h => hj h.symm
    cases value with
    | true => simp [hj, hk']
    | false =>
      rw [if_neg Bool.false_ne_true, if_neg hj, BitVec.getLsbD_and, BitVec.getLsbD_not,
        BitVec.getLsbD_twoPow]
      by_cases hbound : j < 8
      · simp [hbound, hk']
      · simp [hbound, BitVec.getLsbD_of_ge _ _ (Nat.le_of_not_lt hbound)]


/-- The bits of a character: a start bit, the byte from its least significant bit on, a stop
bit. -/
def frameBit (b : UInt8) (k : ℕ) : Bool :=
  if k = 0 then false else if k ≤ 8 then b.toBitVec.getLsbD (k - 1) else true

/-- The line `offset` clocks into a character, if a bit is a level. -/
def nrz (period : ℕ) (b : UInt8) (offset : ℕ) : Bool := frameBit b (offset / (4 * period))

/-- The line `offset` clocks into a character, if a zero is low and then high, and a one is
high and then low. -/
def manchester (period : ℕ) (b : UInt8) (offset : ℕ) : Bool :=
  frameBit b (offset / (4 * period)) ^^ decide (2 * period ≤ offset % (4 * period))

/-- The clocks of a character. -/
def duration (period : ℕ) : ℕ := 40 * period

section

variable {period k offset : ℕ}

theorem bit_of_offset (hle : 4 * k * period ≤ offset) (hlt : offset < 4 * (k + 1) * period) :
    offset / (4 * period) = k := by
  apply Nat.div_eq_of_lt_le
  · rwa [Nat.mul_left_comm, ← Nat.mul_assoc]
  · rwa [Nat.mul_left_comm, ← Nat.mul_assoc]

theorem nrz_eq (b : UInt8) (hle : 4 * k * period ≤ offset)
    (hlt : offset < 4 * (k + 1) * period) : nrz period b offset = frameBit b k := by
  rw [nrz, bit_of_offset hle hlt]

theorem manchester_first (b : UInt8) (hle : 4 * k * period ≤ offset)
    (hlt : offset < 4 * k * period + 2 * period) : manchester period b offset = frameBit b k := by
  have hnext : 4 * (k + 1) * period = 4 * k * period + 4 * period := by
    rw [Nat.mul_succ, Nat.add_mul]
  have hsplit := Nat.div_add_mod offset (4 * period)
  rw [bit_of_offset hle (by omega), Nat.mul_right_comm] at hsplit
  rw [manchester, bit_of_offset hle (by omega), decide_eq_false (by omega), Bool.xor_false]

theorem manchester_second (b : UInt8) (hle : 4 * k * period + 2 * period ≤ offset)
    (hlt : offset < 4 * (k + 1) * period) : manchester period b offset = !frameBit b k := by
  have hsplit := Nat.div_add_mod offset (4 * period)
  rw [bit_of_offset (by omega) hlt, Nat.mul_right_comm] at hsplit
  rw [manchester, bit_of_offset (by omega) hlt, decide_eq_true (by omega), Bool.xor_true]

/-- Samples from a clock in the first three quarters of a bit on, once in a bit: each of them lies
in its bit. -/
theorem nrz_sample {first : ℕ} (hfirst : first < 3 * period) (b : UInt8) (k : ℕ) :
    nrz period b (first + (4 * k + 1) * period) = frameBit b k := by
  have hsum : (4 * k + 1) * period = 4 * k * period + period := Nat.succ_mul _ _
  have hnext : 4 * (k + 1) * period = 4 * k * period + 4 * period := by
    rw [Nat.mul_succ, Nat.add_mul]
  exact nrz_eq b (by omega) (by omega)

/-- The same for samples of the two halves of a bit, two quarters apart. -/
theorem manchester_sample {first : ℕ} (hfirst : first < 2 * period) (b : UInt8) (k : ℕ) :
    manchester period b (first + 4 * k * period) = frameBit b k ∧
      manchester period b (first + (4 * k + 2) * period) = !frameBit b k := by
  have hsum : (4 * k + 2) * period = 4 * k * period + 2 * period := Nat.add_mul _ _ _
  have hnext : 4 * (k + 1) * period = 4 * k * period + 4 * period := by
    rw [Nat.mul_succ, Nat.add_mul]
  exact ⟨manchester_first b (by omega) (by omega), manchester_second b (by omega) (by omega)⟩

end

/-- Characters of `length` clocks on a line, each after a gap. -/
def line (length : ℕ) (wave : UInt8 → ℕ → Bool) : List (ℕ × UInt8) → ℕ → Bool
  | [], _ => true
  | (gap, b) :: rest, t =>
    if t < gap then true
    else if t < gap + length then wave b (t - gap)
    else line length wave rest (t - (gap + length))

/-- The clocks up to the end of the last character. -/
def span (length : ℕ) : List (ℕ × UInt8) → ℕ
  | [] => 0
  | (gap, _) :: rest => gap + length + span length rest

/-- The gap, the first character and the rest of a line. -/
theorem line_cons {length gap t : ℕ} {wave : UInt8 → ℕ → Bool} {b : UInt8}
    {rest : List (ℕ × UInt8)} (level : ℕ → Bool)
    (h : ∀ d, level (t + d) = line length wave ((gap, b) :: rest) d) :
    (∀ d < gap, level (t + d) = true) ∧ (∀ d < length, level (t + gap + d) = wave b d) ∧
      ∀ d, level (t + (gap + length) + d) = line length wave rest d := by
  refine ⟨fun d hd => ?_, fun d hd => ?_, fun d => ?_⟩
  · rw [h, line, if_pos hd]
  · rw [Nat.add_assoc, h, line, if_neg (by omega), if_pos (by omega), Nat.add_sub_cancel_left]
  · rw [Nat.add_assoc, h, line, if_neg (by omega), if_neg (by omega), Nat.add_sub_cancel_left]

/-- The characters that have begun before the clock `t`. -/
def begun (length : ℕ) : List (ℕ × UInt8) → ℕ → ℕ
  | [], _ => 0
  | (gap, _) :: rest, t => if t ≤ gap then 0 else begun length rest (t - (gap + length)) + 1

theorem begun_le_length (length : ℕ) (chars : List (ℕ × UInt8)) (t : ℕ) :
    begun length chars t ≤ chars.length := by
  induction chars generalizing t with
  | nil => exact Nat.zero_le _
  | cons char rest ih =>
    rw [begun]
    split_ifs
    · exact Nat.zero_le _
    · exact Nat.succ_le_succ (ih _)

/-- The characters that have ended by the clock `t`. -/
def ended (length : ℕ) : List (ℕ × UInt8) → ℕ → ℕ
  | [], _ => 0
  | (gap, _) :: rest, t =>
    if t < gap + length then 0 else ended length rest (t - (gap + length)) + 1

/-- `cond` holds at the first clock of every character of a line that begins at the
clock `t`. -/
def atStarts (length : ℕ) (cond : ℕ → Prop) : ℕ → List (ℕ × UInt8) → Prop
  | _, [] => True
  | t, (gap, _) :: rest => cond (t + gap) ∧ atStarts length cond (t + (gap + length)) rest

theorem atStarts_of_forall {length : ℕ} {cond : ℕ → Prop} (h : ∀ t, cond t) (t : ℕ)
    (chars : List (ℕ × UInt8)) : atStarts length cond t chars := by
  induction chars generalizing t with
  | nil => trivial
  | cons char rest ih => exact ⟨h _, ih _⟩

theorem atStarts_imp {length : ℕ} {cond cond' : ℕ → Prop} (h : ∀ t, cond t → cond' t) {t : ℕ}
    {chars : List (ℕ × UInt8)} (hall : atStarts length cond t chars) :
    atStarts length cond' t chars := by
  induction chars generalizing t with
  | nil => trivial
  | cons char rest ih => exact ⟨h _ hall.1, ih hall.2⟩

/-- What idle clocks and characters preserve, a line does. Between the characters
`arrived t bytes` says that `bytes` have come by the clock `t`; `during t bytes` may count
the character on the line or leave it out. -/
theorem line_induction {length : ℕ} {wave : UInt8 → ℕ → Bool} (level : ℕ → Bool)
    {cond : ℕ → Prop} {arrived during : ℕ → List UInt8 → Prop} (hlength : 0 < length)
    (hsettled : ∀ t bytes, arrived t bytes → during t bytes)
    (hidle : ∀ t bytes, arrived t bytes → level t = true → arrived (t + 1) bytes)
    (hchar : ∀ t bytes b, arrived t bytes → cond t → (∀ d < length, level (t + d) = wave b d) →
      arrived (t + length) (bytes ++ [b]) ∧
        ∀ d < length, during (t + d) bytes ∨ during (t + d) (bytes ++ [b]))
    (chars : List (ℕ × UInt8)) {t : ℕ} {bytes : List UInt8} (h : arrived t bytes)
    (hcond : atStarts length cond t chars)
    (hlevel : ∀ d, level (t + d) = line length wave chars d) :
    (∀ d, span length chars ≤ d → arrived (t + d) (bytes ++ chars.map Prod.snd)) ∧
      ∀ d, ∃ n, ended length chars d ≤ n ∧ n ≤ begun length chars d ∧
        during (t + d) (bytes ++ (chars.map Prod.snd).take n) := by
  have hgap (gap : ℕ) {t : ℕ} {bytes : List UInt8} (h : arrived t bytes)
      (hhigh : ∀ d < gap, level (t + d) = true) : arrived (t + gap) bytes := by
    induction gap with
    | zero => exact h
    | succ gap ih =>
      exact hidle _ _ (ih fun d hd => hhigh d (Nat.lt_succ_of_lt hd))
        (hhigh gap (Nat.lt_succ_self gap))
  induction chars generalizing t bytes with
  | nil =>
    have hall (d : ℕ) : arrived (t + d) bytes := hgap d h fun d _ => hlevel d
    refine ⟨fun d _ => by simpa using hall d, fun d => ⟨0, Nat.le_refl _, Nat.zero_le _, ?_⟩⟩
    simpa using hsettled _ _ (hall d)
  | cons char rest ih =>
    obtain ⟨gap, b⟩ := char
    obtain ⟨hstart, hcond⟩ := hcond
    obtain ⟨hhigh, hwave, hrest⟩ := line_cons level hlevel
    have hready := hgap gap h hhigh
    obtain ⟨hbyte, hwithin⟩ := hchar _ _ b hready hstart hwave
    rw [Nat.add_assoc] at hbyte
    obtain ⟨hlast, hevery⟩ := ih hbyte hcond hrest
    constructor
    · intro d hd
      rw [span] at hd
      obtain ⟨x, rfl⟩ := Nat.exists_eq_add_of_le (Nat.le_of_add_right_le hd)
      rw [← Nat.add_assoc, List.map_cons, List.append_cons]
      exact hlast x (by omega)
    · intro d
      rw [ended, begun]
      by_cases hbefore : d ≤ gap
      · rw [if_pos hbefore, if_pos (by omega)]
        have hhere := hgap d h fun x hx => hhigh x (by omega)
        exact ⟨0, Nat.le_refl _, Nat.le_refl _, by simpa using hsettled _ _ hhere⟩
      · rw [if_neg hbefore]
        by_cases hlen : d < gap + length
        · rw [if_pos hlen]
          obtain ⟨x, rfl⟩ := Nat.exists_eq_add_of_le (Nat.le_of_not_le hbefore)
          rw [← Nat.add_assoc]
          obtain hout | hin := hwithin x (by omega)
          · exact ⟨0, Nat.le_refl _, Nat.zero_le _, by simpa using hout⟩
          · exact ⟨1, Nat.zero_le _, Nat.le_add_left _ _, by simpa using hin⟩
        · rw [if_neg hlen]
          obtain ⟨x, rfl⟩ := Nat.exists_eq_add_of_le (Nat.le_of_not_lt hlen)
          obtain ⟨n, hended, hbegun, hn⟩ := hevery x
          rw [Nat.add_sub_cancel_left, ← Nat.add_assoc]
          refine ⟨n + 1, Nat.succ_le_succ hended, Nat.succ_le_succ hbegun, ?_⟩
          rw [List.map_cons, List.take_succ_cons, List.append_cons]
          exact hn

end Swo
