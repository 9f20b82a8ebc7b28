import Mathlib.Logic.Function.Iterate
import Mathlib.Data.List.Range

/-!
# Generators

A generator hands out an item and moves to its next state, forever: `next : σ → α × σ`.

## Main results

- `after_relation` — a relation that one call of each of two generators keeps, holds forever
- `nth_simulation` — generators that hand out the same from related states, hand out the same
  forever
-/

namespace Generator

variable {σ τ α β : Type*}

/-- The state after `n` calls of `next`. -/
def after (next : σ → α × σ) (s : σ) : ℕ → σ
  | 0 => s
  | n + 1 => (next (after next s n)).2

/-- What the call after `n` calls hands out. -/
def nth (next : σ → α × σ) (s : σ) (n : ℕ) : α := (next (after next s n)).1

/-- What the first `n` calls hand out, in order. -/
def first (next : σ → α × σ) (s : σ) (n : ℕ) : List α := (List.range n).map (nth next s)

theorem first_succ (next : σ → α × σ) (s : σ) (n : ℕ) :
    first next s (n + 1) = first next s n ++ [nth next s n] := by
  rw [first, first, List.range_succ, List.map_append, List.map_singleton]

section

variable {next : σ → α × σ} {next' : τ → β × τ} {R : σ → τ → Prop} {s : σ} {t : τ} (hstart : R s t)

include hstart

theorem after_relation (hstep : ∀ s t, R s t → R (next s).2 (next' t).2) (n : ℕ) :
    R (after next s n) (after next' t n) := by
  induction n with
  | zero => exact hstart
  | succ n ih => exact hstep _ _ ih

/-- Generators that hand out the same from related states hand out the same forever; `f` and `g`
say what the same is. -/
theorem nth_simulation {γ : Type*} {f : α → γ} {g : β → γ}
    (hstep : ∀ s t, R s t → f (next s).1 = g (next' t).1 ∧ R (next s).2 (next' t).2) (n : ℕ) :
    f (nth next s n) = g (nth next' t n) :=
  (hstep _ _ (after_relation hstart (fun s t h => (hstep s t h).2) n)).1

end

end Generator
