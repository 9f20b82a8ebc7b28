import Mathlib.Order.Monotone.Defs
import Mathlib.Tactic.Ring

/-!
# A counter read in two halves

A growing counter is sampled twice: the low `w` bits are kept from the first sample and the
bits above from the second. `held_iff` says when the number put together from the two
halves is one that the counter really showed.
-/

namespace SplitRead

/-- The low `w` bits of `lo` below the upper bits of `hi`. -/
def assemble (w lo hi : ℕ) : ℕ := hi / 2 ^ w * 2 ^ w + lo % 2 ^ w

/-- Without a carry between the samples the first sample is put together again. -/
theorem assemble_eq {w lo hi : ℕ} (h : lo / 2 ^ w = hi / 2 ^ w) : assemble w lo hi = lo := by
  rw [assemble, ← h, Nat.mul_comm]
  exact Nat.div_add_mod lo _

/-- A carry between the samples puts the result far above the first sample. -/
theorem le_assemble {w lo hi : ℕ} (hle : lo ≤ hi) (hne : lo / 2 ^ w ≠ hi / 2 ^ w) :
    lo + 2 ^ w ≤ assemble w lo hi := by
  have hdiv : lo / 2 ^ w + 1 ≤ hi / 2 ^ w :=
    lt_of_le_of_ne (Nat.div_le_div_right hle) hne
  calc lo + 2 ^ w = (lo / 2 ^ w + 1) * 2 ^ w + lo % 2 ^ w := by
        conv_lhs => rw [← Nat.div_add_mod lo (2 ^ w)]
        ring
    _ ≤ assemble w lo hi := Nat.add_le_add_right (Nat.mul_le_mul_right _ hdiv) _

theorem assemble_div (w lo hi : ℕ) : assemble w lo hi / 2 ^ w = hi / 2 ^ w := by
  have hpos : 0 < 2 ^ w := Nat.two_pow_pos w
  rw [assemble, Nat.mul_comm, Nat.mul_add_div hpos, Nat.div_eq_of_lt (Nat.mod_lt _ hpos),
    Nat.add_zero]

theorem assemble_mod (w lo hi : ℕ) : assemble w lo hi % 2 ^ w = lo % 2 ^ w := by
  rw [assemble, Nat.mul_comm, Nat.mul_add_mod, Nat.mod_mod]

/-- **Which split reads are sound.** What is put together from the samples at `a` and `b` was
shown at some instant of `T` exactly when no carry separates the samples, or the counter
went on by a whole turn of its low half and was then seen with the two halves sampled. -/
theorem held_iff {ι : Type*} [Preorder ι] {w : ℕ} {count : ι → ℕ} (hmono : Monotone count)
    {T : Set ι} {a b : ι} (ha : a ∈ T) (hab : a ≤ b) :
    (∃ t ∈ T, count t = assemble w (count a) (count b)) ↔
      count a / 2 ^ w = count b / 2 ^ w ∨
        ∃ t ∈ T, count a + 2 ^ w ≤ count t ∧ count t % 2 ^ w = count a % 2 ^ w ∧
          count t / 2 ^ w = count b / 2 ^ w := by
  constructor
  · rintro ⟨t, ht, hvalue⟩
    by_cases hcarry : count a / 2 ^ w = count b / 2 ^ w
    · exact .inl hcarry
    · refine .inr ⟨t, ht, ?_, ?_, ?_⟩
      · rw [hvalue]
        exact le_assemble (hmono hab) hcarry
      · rw [hvalue, assemble_mod]
      · rw [hvalue, assemble_div]
  · rintro (hsame | ⟨t, ht, -, hlow, hhigh⟩)
    · exact ⟨a, ha, (assemble_eq hsame).symm⟩
    · refine ⟨t, ht, ?_⟩
      rw [assemble, ← hlow, ← hhigh, Nat.mul_comm]
      exact (Nat.div_add_mod _ _).symm

end SplitRead
