import Mathlib.Algebra.BigOperators.Group.Finset.Basic
import Mathlib.Algebra.Order.Ring.Nat
import Mathlib.Logic.Function.Iterate

/-!
# Fractional dividers

An accumulator gains `k` in each step, and gives `C` back with a tick in each step that takes it to
`C` or beyond. From below `C` it ticks as evenly as whole steps allow; from above it has to give
back what is too much first, one `C` in each step. The gain may also be another one in each step.

## Main definitions

- `next`, `count` — the accumulator, and the ticks of some steps
- `level`, `carries` — the same where the gain is another one in each step
- `Rounded` — a number is a quotient rounded down or up

## Main results

- `level_conservation` — what is gained is in the accumulator or given back
- `carries_eq` — the ticks are the quotient of all that was gained
- `rounded_of_lt`, `exists_not_rounded` — even ticks, and from where they are not even
-/

namespace FractionalDivider

variable {C k a : ℕ}

/-- The accumulator after one step. -/
def next (C k a : ℕ) : ℕ := if C ≤ a + k then a + k - C else a + k

/-- The ticks of `n` steps. -/
def count (C k a : ℕ) : ℕ → ℕ
  | 0 => 0
  | n + 1 => count C k a n + if C ≤ (next C k)^[n] a + k then 1 else 0

/-- The accumulator after `n` steps that gain `k 0`, `k 1` and so on. -/
def level (C : ℕ) (k : ℕ → ℕ) (a : ℕ) : ℕ → ℕ
  | 0 => a
  | n + 1 => next C (k n) (level C k a n)

/-- The ticks of these steps. -/
def carries (C : ℕ) (k : ℕ → ℕ) (a : ℕ) : ℕ → ℕ
  | 0 => 0
  | n + 1 => carries C k a n + if C ≤ level C k a n + k n then 1 else 0

/-- `x` is `m / C`, rounded down or up. -/
def Rounded (C m x : ℕ) : Prop := x = m / C ∨ x = (m + (C - 1)) / C

theorem rounded_iff (hC : 0 < C) (m x : ℕ) :
    Rounded C m x ↔ C * x < m + C ∧ m < C * x + C := by
  constructor
  · rintro (rfl | rfl)
    · have hdiv := Nat.div_add_mod m C
      have hmod := Nat.mod_lt m hC
      omega
    · have hdiv := Nat.div_add_mod (m + (C - 1)) C
      have hmod := Nat.mod_lt (m + (C - 1)) hC
      omega
  · rintro ⟨hlow, hhigh⟩
    have hsucc : C * (x + 1) = C * x + C := Nat.mul_succ C x
    by_cases hdown : C * x ≤ m
    · left
      refine (Nat.div_eq_of_lt_le ?_ ?_).symm
      · rwa [Nat.mul_comm]
      · rw [Nat.mul_comm, hsucc]
        exact hhigh
    · right
      refine (Nat.div_eq_of_lt_le ?_ ?_).symm
      · rw [Nat.mul_comm]
        omega
      · rw [Nat.mul_comm, hsucc]
        omega

/-- What has been gained is in the accumulator or has been given back. -/
theorem level_conservation (C : ℕ) (k : ℕ → ℕ) (a n : ℕ) :
    a + ∑ i ∈ Finset.range n, k i = level C k a n + C * carries C k a n := by
  induction n with
  | zero => rfl
  | succ n ih =>
    rw [Finset.sum_range_succ, ← Nat.add_assoc, ih, level, carries, next]
    split
    · rw [Nat.mul_succ]
      omega
    · rw [Nat.add_zero]
      omega

/-- Below `C` it stays below `C`. -/
theorem level_lt {k : ℕ → ℕ} {n : ℕ} (ha : a < C) (hk : ∀ i < n, k i ≤ C) :
    level C k a n < C := by
  induction n with
  | zero => exact ha
  | succ n ih =>
    have hlt := ih fun i hi => hk i (Nat.lt_succ_of_lt hi)
    have hgain := hk n (Nat.lt_succ_self n)
    rw [level, next]
    split <;> omega

/-- **The ticks are exact** from below `C`, whatever is gained. -/
theorem carries_eq {k : ℕ → ℕ} {n : ℕ} (ha : a < C) (hk : ∀ i < n, k i ≤ C) :
    carries C k a n = (a + ∑ i ∈ Finset.range n, k i) / C := by
  rw [level_conservation, Nat.add_mul_div_left _ _ (by omega), Nat.div_eq_of_lt (level_lt ha hk),
    Nat.zero_add]

theorem level_const (C k a n : ℕ) : level C (fun _ => k) a n = (next C k)^[n] a := by
  induction n with
  | zero => rfl
  | succ n ih => rw [level, ih, Function.iterate_succ_apply']

theorem carries_const (C k a n : ℕ) : carries C (fun _ => k) a n = count C k a n := by
  induction n with
  | zero => rfl
  | succ n ih => rw [carries, count, ih, level_const]

/-- The same where the gain is always `k`. -/
theorem conservation (C k a n : ℕ) : a + k * n = (next C k)^[n] a + C * count C k a n := by
  rw [← level_const, ← carries_const, ← level_conservation, Finset.sum_const_nat fun _ _ => rfl,
    Finset.card_range, Nat.mul_comm]

theorem iterate_lt (ha : a < C) (hk : k ≤ C) (n : ℕ) : (next C k)^[n] a < C := by
  rw [← level_const]
  exact level_lt ha fun _ _ => hk

/-- The accumulator never gets beyond where it was, or `C`. -/
theorem iterate_le (hk : k ≤ C) (n : ℕ) : (next C k)^[n] a ≤ a ∨ (next C k)^[n] a < C := by
  induction n with
  | zero => exact .inl (Nat.le_refl a)
  | succ n ih =>
    rw [Function.iterate_succ_apply', next]
    split <;> omega

/-- **Even ticks** from below `C`. -/
theorem rounded_of_lt (ha : a < C) (hk : k ≤ C) (n : ℕ) : Rounded C (k * n) (count C k a n) := by
  have hconserved := conservation C k a n
  have hlt := iterate_lt ha hk n
  rw [rounded_iff (by omega)]
  omega

/-- A gain of `C` in every step is given back in the same step. -/
theorem rounded_of_eq (hC : 0 < C) (n : ℕ) : Rounded C (C * n) (count C C a n) := by
  have hfixed : (next C C)^[n] a = a := by
    induction n with
    | zero => rfl
    | succ n ih =>
      rw [Function.iterate_succ_apply', ih, next, if_pos (by omega), Nat.add_sub_cancel]
  have hconserved := conservation C C a n
  rw [rounded_iff hC]
  omega

/-- What is too much is given back step by step. -/
theorem iterate_decreasing (hk : k < C) (n : ℕ) :
    (next C k)^[n] a < C ∨ (next C k)^[n] a + n ≤ a := by
  induction n with
  | zero => exact .inr (Nat.le_refl a)
  | succ n ih =>
    rw [Function.iterate_succ_apply', next]
    split <;> omega

/-- **Uneven ticks** from above: in `C * a` steps there is at least one too many. -/
theorem exists_not_rounded (hk : k < C) (ha : C ≤ a) :
    ¬ Rounded C (k * (C * a)) (count C k a (C * a)) := by
  have hC : 0 < C := by omega
  have hlong : a ≤ C * a := Nat.le_mul_of_pos_left a hC
  have hconserved := conservation C k a (C * a)
  have hlt : (next C k)^[C * a] a < C := by
    obtain hlt | hless := @iterate_decreasing C k a hk (C * a)
    · exact hlt
    · omega
  have hexact : k * (C * a) = C * (k * a) := Nat.mul_left_comm k C a
  rw [rounded_iff hC]
  rintro ⟨hlow, -⟩
  rw [hexact] at hlow hconserved
  have hle : count C k a (C * a) ≤ k * a := by
    have hlow' : C * count C k a (C * a) < C * (k * a + 1) := by
      rw [Nat.mul_succ]
      exact hlow
    exact Nat.lt_succ_iff.mp (Nat.lt_of_mul_lt_mul_left hlow')
  have hmul := Nat.mul_le_mul_left C hle
  omega

/-- Nor are the ticks even where the first of `C` steps is lost and leaves less than `k`. -/
theorem not_rounded_of_lost (hk : k ≤ C) (ha : a < k) :
    ¬ Rounded C (k * C) (count C k a (C - 1)) := by
  have hC : 0 < C := by omega
  have hconserved := conservation C k a (C - 1)
  have hmul : k * (C - 1) + k = k * C := by
    rw [← Nat.mul_succ]
    congr 1
    omega
  rw [rounded_iff hC]
  rintro ⟨-, hhigh⟩
  have hless : C * count C k a (C - 1) < C * k := by
    rw [Nat.mul_comm C k]
    omega
  have hle : count C k a (C - 1) + 1 ≤ k := Nat.lt_of_mul_lt_mul_left hless
  have hback := Nat.mul_le_mul_left C hle
  rw [Nat.mul_succ, Nat.mul_comm C k] at hback
  omega

end FractionalDivider
