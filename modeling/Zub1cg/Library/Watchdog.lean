import Mathlib.Data.Nat.Notation

/-!
# Watchdogs that are polled

At each poll a watchdog sees whether something is due and a number that moves when there is
progress. A poll is quiet when something is due and the number is as it was. What a watchdog does
follows from how many polls in a row have been quiet.

## Main definitions

- `quiet` — how many polls in a row have been quiet, for each poll

## Main results

- `polls_eq` — what a watchdog does whose state says that
-/

namespace Watchdog

variable {σ ι ρ κ : Type*}

/-- What a watchdog does at each poll. -/
def polls (step : σ → ι → σ × ρ) : σ → List ι → List ρ
  | _, [] => []
  | s, i :: is => (step s i).2 :: polls step (step s i).1 is

variable [DecidableEq κ] (due : ι → Bool) (value : ι → κ)

/-- The length of the row of quiet polls that a poll ends, after a row of `n`. -/
def after (last : κ) (n : ℕ) (i : ι) : ℕ := if due i ∧ value i = last then n + 1 else 0

/-- The lengths for all polls. -/
def quiet : κ → ℕ → List ι → List ℕ
  | _, _, [] => []
  | last, n, i :: is => after due value last n i :: quiet (value i) (after due value last n i) is

/-- A watchdog whose state is the last value and the length of the row of quiet polls. -/
theorem polls_eq (step : σ → ι → σ × ρ) (state : κ → ℕ → σ) (react : ℕ → ρ)
    (hstep : ∀ last n i, step (state last n) i =
      (state (value i) (after due value last n i), react (after due value last n i)))
    (last : κ) (n : ℕ) (is : List ι) :
    polls step (state last n) is = (quiet due value last n is).map react := by
  induction is generalizing last n with
  | nil => rfl
  | cons i is ih => rw [polls, quiet, List.map_cons, hstep, ih]

end Watchdog
