import Mathlib.Algebra.BigOperators.Ring.Finset
import Zub1cg.Rtl.BaudTick.Rate

/-!
# The ticks of a changing baud rate

Since the last reset, or the last clock without a rate, as many ticks have been given as whole
`CLOCK_HZ` have been gained, whatever the rates were. So a tick comes in the very clock in which
the next `CLOCK_HZ` is complete.

## Main definitions

- `Cleared` — the divider begins anew
- `gained` — four times the sum of the rates

## Main results

- `ticks_exact` — the ticks, and when each of them comes
-/

namespace BaudTick

open FractionalDivider (level carries)

/-- Edge `s` is the first one after a reset or after a clock without a rate. -/
def Cleared (s₀ : State) (inp : ℕ → Bool × BitVec 32) : ℕ → Prop
  | 0 => s₀ = resetState
  | s + 1 => (inp s).1 = false ∨ (inp s).2 = 0

/-- What the accumulator gains at the `n` edges from edge `s` on. -/
def gained (inp : ℕ → Bool × BitVec 32) (s n : ℕ) : ℕ :=
  4 * ∑ i ∈ Finset.range n, (inp (s + i)).2.toNat

variable {s₀ : State} {inp : ℕ → Bool × BitVec 32} {s : ℕ}

theorem state_cleared (h : Cleared s₀ inp s) : (run s₀ inp).state s = resetState := by
  cases s with
  | zero => exact h
  | succ s =>
    change step (inp s).1 (inp s).2 _ = _
    obtain hreset | hnone := h
    · simp [hreset, step]
    · simp [hnone, step]

/-- While there are rates, the divider is one with changing gains. -/
theorem run_gains {n : ℕ} (hclear : Cleared s₀ inp s)
    (hlive : ∀ u, s ≤ u → u < s + n → (inp u).1 = true ∧ (inp u).2 ≠ 0)
    (hbound : ∀ u, s ≤ u → u < s + n → 4 * (inp u).2.toNat ≤ CLOCK_HZ.toNat) :
    ((run s₀ inp).state (s + n)).accumulator.toNat =
        level CLOCK_HZ.toNat (fun i => 4 * (inp (s + i)).2.toNat) 0 n ∧
      ticks (run s₀ inp) s n =
        carries CLOCK_HZ.toNat (fun i => 4 * (inp (s + i)).2.toNat) 0 n := by
  have hclock : CLOCK_HZ.toNat = 100000000 := rfl
  have hstart : ((run s₀ inp).state s).accumulator.toNat < CLOCK_HZ.toNat := by
    rw [state_cleared hclear]
    exact resetState_lt
  induction n with
  | zero => exact ⟨congrArg (·.accumulator.toNat) (state_cleared hclear), rfl⟩
  | succ n ih =>
    obtain ⟨hlevel, hticks⟩ := ih (fun u hle hu => hlive u hle (Nat.lt_succ_of_lt hu))
      fun u hle hu => hbound u hle (Nat.lt_succ_of_lt hu)
    obtain ⟨hrun, hrate⟩ := hlive (s + n) (Nat.le_add_right s n) (Nat.lt_succ_self (s + n))
    have hgain := hbound (s + n) (Nat.le_add_right s n) (Nat.lt_succ_self (s + n))
    have hlt := @accumulator_lt s₀ inp s n hstart
      fun u hle hu => hbound u hle (Nat.lt_succ_of_lt hu)
    have hstep : (run s₀ inp).state (s + n + 1) =
        step true (inp (s + n)).2 ((run s₀ inp).state (s + n)) := by
      rw [← hrun]
      rfl
    obtain ⟨hnext, htick⟩ := @step_next _ ((run s₀ inp).state (s + n)) hrate (by omega)
    rw [← Nat.add_assoc, hstep, hnext, level, ticks, carries, hstep, htick, hticks, hlevel]
    exact ⟨rfl, rfl⟩

/-- **The ticks are exact.** Let no rate be too high. From a reset or a clock without a rate on,
while there are rates, the ticks are as many as whole `CLOCK_HZ` have been gained, and each of them
comes in the clock in which one more is complete. The accumulator never overflows. -/
theorem ticks_exact (s₀ : State) {inp : ℕ → Bool × BitVec 32} {s : ℕ}
    (hclear : Cleared s₀ inp s) (hbound : ∀ u, 4 * (inp u).2.toNat ≤ CLOCK_HZ.toNat) :
    (∀ n, (∀ u, s ≤ u → u < s + n → (inp u).1 = true ∧ (inp u).2 ≠ 0) →
      ticks (run s₀ inp) s n = gained inp s n / CLOCK_HZ.toNat ∧
      ∀ m < n, ((run s₀ inp).state (s + m + 1)).tick = true ↔
        gained inp s m / CLOCK_HZ.toNat < gained inp s (m + 1) / CLOCK_HZ.toNat) ∧
    ∀ u, s ≤ u → ((run s₀ inp).state u).accumulator.toNat + 4 * (inp u).2.toNat < 2 ^ 64 := by
  have hclock : CLOCK_HZ.toNat = 100000000 := rfl
  have hexact : ∀ n, (∀ u, s ≤ u → u < s + n → (inp u).1 = true ∧ (inp u).2 ≠ 0) →
      ticks (run s₀ inp) s n = gained inp s n / CLOCK_HZ.toNat := by
    intro n hlive
    rw [(run_gains hclear hlive fun u _ _ => hbound u).2,
      FractionalDivider.carries_eq (by omega) fun i _ => hbound (s + i), Nat.zero_add, gained,
      Finset.mul_sum]
  refine ⟨fun n hlive => ⟨hexact n hlive, fun m hm => ?_⟩, fun u hu => ?_⟩
  · have hbefore := hexact m fun u hle hu => hlive u hle (by omega)
    have hafter := hexact (m + 1) fun u hle hu => hlive u hle (by omega)
    rw [← hbefore, ← hafter, ticks]
    cases ((run s₀ inp).state (s + m + 1)).tick <;> simp
  · obtain ⟨n, rfl⟩ := Nat.exists_eq_add_of_le hu
    have hstart : ((run s₀ inp).state s).accumulator.toNat < CLOCK_HZ.toNat := by
      rw [state_cleared hclear]
      exact resetState_lt
    have hlt := @accumulator_lt s₀ inp s n hstart fun u _ _ => hbound u
    have hgain := hbound (s + n)
    omega

/-- 10 MHz and 25 MHz in turn. -/
def alternating (n : ℕ) : Bool × BitVec 32 := (true, if n % 2 = 0 then 10000000 else 25000000)

/-- Three clocks of it gain 180 million, and so one tick. -/
theorem ticks_exact_alternating : ticks (run resetState alternating) 0 3 = 1 := by
  have hbound : ∀ u, 4 * (alternating u).2.toNat ≤ CLOCK_HZ.toNat := by
    intro u
    rw [alternating]
    split <;> decide
  have hlive : ∀ u, (alternating u).1 = true ∧ (alternating u).2 ≠ 0 := by
    intro u
    rw [alternating]
    split <;> decide
  exact ((@ticks_exact resetState alternating 0 rfl hbound).1 3 fun u _ _ => hlive u).1

end BaudTick
