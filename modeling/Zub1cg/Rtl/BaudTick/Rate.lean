import Zub1cg.Library.Clocked
import Zub1cg.Library.FractionalDivider
import Zub1cg.Rtl.BaudTick

/-!
# The rate of the baud tick

As long as the accumulator is below `CLOCK_HZ` the ticks are as even as whole clocks allow. Only
one `CLOCK_HZ` is taken away in a clock, so a baud rate that is too high can take the
accumulator far beyond it, and then the ticks of a later, good rate are not even.

## Main definitions

- `run` — a history of the reset and the baud register
- `ticks`, `EvenFrom` — the ticks in a window, and their evenness in all later windows

## Main results

- `even_iff` — when a baud rate has even ticks
-/

namespace BaudTick

open FractionalDivider (next count Rounded)

/-- `reset_n` and `baud` at every edge of `clk`. -/
def run (s₀ : State) (inp : ℕ → Bool × BitVec 32) : Clocked.Run (Bool × BitVec 32) State where
  step i s := step i.1 i.2 s
  start := s₀
  input := inp

/-- The ticks given by the `n` edges from edge `s` on. -/
def ticks (r : Clocked.Run (Bool × BitVec 32) State) (s : ℕ) : ℕ → ℕ
  | 0 => 0
  | n + 1 => ticks r s n + (r.state (s + n + 1)).tick.toNat

/-- In every window from edge `t` on the ticks are those of the baud rate, rounded down or up. -/
def EvenFrom (r : Clocked.Run (Bool × BitVec 32) State) (t : ℕ) (baud : BitVec 32) : Prop :=
  ∀ s n, t ≤ s → Rounded CLOCK_HZ.toNat (4 * baud.toNat * n) (ticks r s n)

/-! ### One clock -/

theorem toNat_nextAccumulator (baud : BitVec 32) (s : State) :
    (nextAccumulator baud s).toNat = (s.accumulator.toNat + 4 * baud.toNat) % 2 ^ 64 := by
  have hgain : (0#30 ++ baud ++ 0#2).toNat = 4 * baud.toNat := by
    rw [BitVec.toNat_append, BitVec.toNat_append]
    change (0 <<< 32 ||| baud.toNat) <<< 2 ||| 0 = _
    rw [Nat.zero_shiftLeft, Nat.zero_or, Nat.or_zero, Nat.shiftLeft_eq, Nat.mul_comm]
  rw [nextAccumulator, BitVec.toNat_add, hgain]

/-- A clock in which nothing overflows is a step of the divider. -/
theorem step_next {baud : BitVec 32} {s : State} (hpos : baud ≠ 0)
    (hfits : s.accumulator.toNat + 4 * baud.toNat < 2 ^ 64) :
    (step true baud s).accumulator.toNat =
        next CLOCK_HZ.toNat (4 * baud.toNat) s.accumulator.toNat ∧
      (step true baud s).tick.toNat =
        if CLOCK_HZ.toNat ≤ s.accumulator.toNat + 4 * baud.toNat then 1 else 0 := by
  have hvalue := toNat_nextAccumulator baud s
  rw [Nat.mod_eq_of_lt hfits] at hvalue
  rw [step, Bool.not_true, if_neg Bool.false_ne_true, if_neg hpos, next, ← hvalue]
  by_cases hfull : CLOCK_HZ ≤ nextAccumulator baud s
  · have hfull' : CLOCK_HZ.toNat ≤ (nextAccumulator baud s).toNat := hfull
    rw [if_pos hfull, if_pos hfull', if_pos hfull']
    exact ⟨BitVec.toNat_sub_of_le hfull, rfl⟩
  · have hfull' : ¬ CLOCK_HZ.toNat ≤ (nextAccumulator baud s).toNat := hfull
    rw [if_neg hfull, if_neg hfull', if_neg hfull']
    exact ⟨rfl, rfl⟩

/-- Where it overflows there is no tick, and little is left. -/
theorem step_overflow {baud : BitVec 32} {s : State} (hpos : baud ≠ 0)
    (hbound : 4 * baud.toNat ≤ CLOCK_HZ.toNat)
    (hfull : 2 ^ 64 ≤ s.accumulator.toNat + 4 * baud.toNat) :
    (step true baud s).accumulator.toNat < 4 * baud.toNat ∧ (step true baud s).tick = false := by
  have hlt : s.accumulator.toNat < 2 ^ 64 := s.accumulator.isLt
  have hclock : CLOCK_HZ.toNat = 100000000 := rfl
  have hvalue := toNat_nextAccumulator baud s
  have hsmall : (s.accumulator.toNat + 4 * baud.toNat) % 2 ^ 64 < 4 * baud.toNat := by omega
  rw [← hvalue] at hsmall
  have hnone : ¬ CLOCK_HZ ≤ nextAccumulator baud s := by
    intro hle
    have hle' : CLOCK_HZ.toNat ≤ (nextAccumulator baud s).toNat := hle
    omega
  rw [step, Bool.not_true, if_neg Bool.false_ne_true, if_neg hpos, if_neg hnone]
  exact ⟨hsmall, rfl⟩

/-! ### A constant rate -/

section

variable {s₀ : State} {inp : ℕ → Bool × BitVec 32} {t : ℕ} {baud : BitVec 32}
  (hconst : ∀ u, t ≤ u → inp u = (true, baud)) (hpos : baud ≠ 0)
  (hbound : 4 * baud.toNat ≤ CLOCK_HZ.toNat)

include hconst

theorem state_const {s : ℕ} (hs : t ≤ s) :
    (run s₀ inp).state (s + 1) = step true baud ((run s₀ inp).state s) := by
  change step (inp s).1 (inp s).2 _ = _
  rw [hconst s hs]

include hpos hbound

/-- Where nothing overflows at first, nothing does later. -/
theorem run_next {s : ℕ} (hs : t ≤ s)
    (hfits : ((run s₀ inp).state s).accumulator.toNat + 4 * baud.toNat < 2 ^ 64) (n : ℕ) :
    ((run s₀ inp).state (s + n)).accumulator.toNat =
        (next CLOCK_HZ.toNat (4 * baud.toNat))^[n] ((run s₀ inp).state s).accumulator.toNat ∧
      ticks (run s₀ inp) s n =
        count CLOCK_HZ.toNat (4 * baud.toNat) ((run s₀ inp).state s).accumulator.toNat n := by
  have hclock : CLOCK_HZ.toNat = 100000000 := rfl
  induction n with
  | zero => exact ⟨rfl, rfl⟩
  | succ n ih =>
    obtain ⟨hstate, hticks⟩ := ih
    have hsmall := @FractionalDivider.iterate_le CLOCK_HZ.toNat (4 * baud.toNat)
      ((run s₀ inp).state s).accumulator.toNat hbound n
    rw [← hstate] at hsmall
    obtain ⟨hnext, htick⟩ := @step_next baud ((run s₀ inp).state (s + n)) hpos (by omega)
    have hstep := @state_const s₀ inp t baud hconst (s + n) (by omega)
    rw [← Nat.add_assoc, ticks, count, Function.iterate_succ_apply', hstep, hnext, htick, hticks,
      hstate]
    exact ⟨rfl, rfl⟩

/-- From below `CLOCK_HZ` it stays there, and the ticks are even. -/
theorem evenFrom_of_lt (hlt : ((run s₀ inp).state t).accumulator.toNat < CLOCK_HZ.toNat) :
    EvenFrom (run s₀ inp) t baud := by
  have hclock : CLOCK_HZ.toNat = 100000000 := rfl
  intro s n hs
  obtain ⟨m, rfl⟩ := Nat.exists_eq_add_of_le hs
  have hstate := (@run_next s₀ inp t baud hconst hpos hbound t (Nat.le_refl t) (by omega) m).1
  have hlt' := FractionalDivider.iterate_lt hlt hbound m
  rw [← hstate] at hlt'
  rw [(run_next hconst hpos hbound hs (by omega) n).2]
  exact FractionalDivider.rounded_of_lt hlt' hbound n

/-- At the highest rate there is a tick in every clock. -/
theorem evenFrom_of_eq (hfull : 4 * baud.toNat = CLOCK_HZ.toNat)
    (hfits : ((run s₀ inp).state t).accumulator.toNat + CLOCK_HZ.toNat < 2 ^ 64) :
    EvenFrom (run s₀ inp) t baud := by
  have hclock : CLOCK_HZ.toNat = 100000000 := rfl
  intro s n hs
  obtain ⟨m, rfl⟩ := Nat.exists_eq_add_of_le hs
  have hstate := (@run_next s₀ inp t baud hconst hpos hbound t (Nat.le_refl t) (by omega) m).1
  have hsmall := @FractionalDivider.iterate_le CLOCK_HZ.toNat (4 * baud.toNat)
    ((run s₀ inp).state t).accumulator.toNat hbound m
  rw [← hstate] at hsmall
  rw [(run_next hconst hpos hbound hs (by omega) n).2, hfull]
  exact FractionalDivider.rounded_of_eq (by omega) n

/-- Otherwise there is a window with a tick too many or one too few. -/
theorem not_evenFrom (hge : CLOCK_HZ.toNat ≤ ((run s₀ inp).state t).accumulator.toNat)
    (hother : 4 * baud.toNat < CLOCK_HZ.toNat ∨
      2 ^ 64 ≤ ((run s₀ inp).state t).accumulator.toNat + 4 * baud.toNat) :
    ¬ EvenFrom (run s₀ inp) t baud := by
  have hclock : CLOCK_HZ.toNat = 100000000 := rfl
  intro heven
  by_cases hfits : ((run s₀ inp).state t).accumulator.toNat + 4 * baud.toNat < 2 ^ 64
  · have hbelow : 4 * baud.toNat < CLOCK_HZ.toNat := by omega
    have hwindow := heven t
      (CLOCK_HZ.toNat * ((run s₀ inp).state t).accumulator.toNat) (Nat.le_refl t)
    rw [(run_next hconst hpos hbound (Nat.le_refl t) hfits _).2] at hwindow
    exact FractionalDivider.exists_not_rounded hbelow hge hwindow
  · -- the first clock overflows and its tick is lost
    obtain ⟨hsmall, hlost⟩ := step_overflow hpos hbound (Nat.le_of_not_lt hfits)
    have hstep := @state_const s₀ inp t baud hconst t (Nat.le_refl t)
    rw [← hstep] at hsmall hlost
    have hlater : ∀ n, ticks (run s₀ inp) t (n + 1) = ticks (run s₀ inp) (t + 1) n := by
      intro n
      induction n with
      | zero => exact congrArg (fun tick => 0 + Bool.toNat tick) hlost
      | succ n ih =>
        rw [ticks, ih, ticks, Nat.add_right_comm t 1 n, Nat.add_assoc t n 1]
    have hwindow := heven t CLOCK_HZ.toNat (Nat.le_refl t)
    have hclocks : CLOCK_HZ.toNat = CLOCK_HZ.toNat - 1 + 1 := by omega
    rw [hclocks, hlater, ← hclocks,
      (run_next hconst hpos hbound (Nat.le_add_right t 1) (by omega) _).2] at hwindow
    exact FractionalDivider.not_rounded_of_lost hbound hsmall hwindow

end

theorem resetState_lt : resetState.accumulator.toNat < CLOCK_HZ.toNat := by decide

/-- Rates that are not too high keep the accumulator below `CLOCK_HZ`. -/
theorem accumulator_lt {s₀ : State} {inp : ℕ → Bool × BitVec 32} {s n : ℕ}
    (hstart : ((run s₀ inp).state s).accumulator.toNat < CLOCK_HZ.toNat)
    (hgood : ∀ u, s ≤ u → u < s + n → 4 * (inp u).2.toNat ≤ CLOCK_HZ.toNat) :
    ((run s₀ inp).state (s + n)).accumulator.toNat < CLOCK_HZ.toNat := by
  have hclock : CLOCK_HZ.toNat = 100000000 := rfl
  induction n with
  | zero => exact hstart
  | succ n ih =>
    have hlt := ih fun u hle hu => hgood u hle (Nat.lt_succ_of_lt hu)
    have hrate := hgood (s + n) (Nat.le_add_right s n) (Nat.lt_succ_self (s + n))
    have hstep : (run s₀ inp).state (s + (n + 1)) =
        step (inp (s + n)).1 (inp (s + n)).2 ((run s₀ inp).state (s + n)) := rfl
    rw [hstep]
    cases (inp (s + n)).1 with
    | false => exact resetState_lt
    | true =>
      by_cases hzero : (inp (s + n)).2 = 0
      · rw [step, Bool.not_true, if_neg Bool.false_ne_true, if_pos hzero]
        exact resetState_lt
      · rw [(step_next hzero (by omega)).1]
        exact FractionalDivider.iterate_lt hlt hrate 1

/-- **When a baud rate has even ticks.** Let the rate be constant, not zero and not too high from
some clock on, whatever was programmed before and whenever there was a reset. Its ticks are even in
every window from then on if and only if the accumulator is below `CLOCK_HZ` then, or the rate is
the highest one and the accumulator does not overflow. So they are after a reset if no rate before
it was too high. -/
theorem even_iff (s₀ : State) {inp : ℕ → Bool × BitVec 32} {t : ℕ} {baud : BitVec 32}
    (hconst : ∀ u, t ≤ u → inp u = (true, baud)) (hpos : baud ≠ 0)
    (hbound : 4 * baud.toNat ≤ CLOCK_HZ.toNat) :
    (EvenFrom (run s₀ inp) t baud ↔
      ((run s₀ inp).state t).accumulator.toNat < CLOCK_HZ.toNat ∨
        4 * baud.toNat = CLOCK_HZ.toNat ∧
          ((run s₀ inp).state t).accumulator.toNat + CLOCK_HZ.toNat < 2 ^ 64) ∧
    (s₀ = resetState → (∀ u < t, 4 * (inp u).2.toNat ≤ CLOCK_HZ.toNat) →
      EvenFrom (run s₀ inp) t baud) := by
  constructor
  · constructor
    · intro heven
      by_contra hnone
      rw [not_or, not_and, Nat.not_lt] at hnone
      refine not_evenFrom hconst hpos hbound hnone.1 ?_ heven
      obtain hlt | heq := Nat.lt_or_eq_of_le hbound
      · exact .inl hlt
      · right
        have hfull := hnone.2 heq
        omega
    · rintro (hlt | ⟨hfull, hfits⟩)
      · exact evenFrom_of_lt hconst hpos hbound hlt
      · exact evenFrom_of_eq hconst hpos hbound hfull hfits
  · rintro rfl hgood
    refine evenFrom_of_lt hconst hpos hbound ?_
    have hbelow := @accumulator_lt resetState inp 0 t resetState_lt
      fun u _ hu => hgood u (Nat.zero_add t ▸ hu)
    rwa [Nat.zero_add] at hbelow

/-- 115200 baud from the start. -/
theorem even_iff_115200 :
    EvenFrom (run resetState fun _ => (true, 115200)) 0 115200 :=
  (even_iff resetState (fun _ _ => rfl) (by decide) (by decide)).2 rfl
    fun u hu => absurd hu (Nat.not_lt_zero u)

/-- One clock at the highest rate that the register holds, and then one baud. -/
def corrected : ℕ → Bool × BitVec 32
  | 0 => (true, 0xffffffff)
  | _ + 1 => (true, 1)

/-- There are two ticks in two clocks. -/
theorem corrected_not_even :
    ¬ ∀ (inp : ℕ → Bool × BitVec 32) (t : ℕ) (baud : BitVec 32),
      (∀ u, t ≤ u → inp u = (true, baud)) → baud ≠ 0 → 4 * baud.toNat ≤ CLOCK_HZ.toNat →
        EvenFrom (run resetState inp) t baud := by
  intro h
  have hconst : ∀ u, 1 ≤ u → corrected u = (true, 1) := by
    intro u hu
    obtain ⟨v, rfl⟩ := Nat.exists_eq_add_of_le' hu
    rfl
  have hwindow := h corrected 1 1 hconst (by decide) (by decide) 1 2 (Nat.le_refl 1)
  exact absurd hwindow (by unfold Rounded; decide)

end BaudTick
