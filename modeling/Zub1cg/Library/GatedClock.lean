import Mathlib.Data.Nat.Nth
import Zub1cg.Library.Clocked

/-!
# Parts with a gated clock

A machine whose edges are the instants of several clocks has parts that move at some of its edges
only. Such a part is a machine of its own, with an edge for each of them, and what holds of every
run of this machine holds of the part.

## Main definitions

- `Run.ticks` — how often the part has moved
- `Run.gated` — the part as a machine of its own

## Main results

- `Run.gated_state`, `Run.gated_record` — its states and records
-/

namespace Clocked

namespace Run

variable {σ ι κ τ α : Type*}

/-- The edges before edge `t` at which the gate is open. -/
def ticks (r : Run ι σ) (gate : ι → σ → Bool) (t : ℕ) : ℕ :=
  Nat.count (fun u => gate (r.input u) (r.state u) = true) t

/-- A part that moves when the gate is open, with what it is fed then. -/
noncomputable def gated (r : Run ι σ) (gate : ι → σ → Bool) (step : κ → τ → τ) (feed : ι → σ → κ)
    (proj : σ → τ) : Run κ τ where
  step := step
  start := proj r.start
  input n :=
    let t := Nat.nth (fun u => gate (r.input u) (r.state u) = true) n
    feed (r.input t) (r.state t)

variable (r : Run ι σ) {gate : ι → σ → Bool} {step : κ → τ → τ} {feed : ι → σ → κ} {proj : σ → τ}

theorem ticks_open {t : ℕ} (h : gate (r.input t) (r.state t) = true) :
    r.ticks gate (t + 1) = r.ticks gate t + 1 := by
  rw [ticks, Nat.count_succ, if_pos h]
  rfl

theorem ticks_closed {t : ℕ} (h : gate (r.input t) (r.state t) = false) :
    r.ticks gate (t + 1) = r.ticks gate t := by
  rw [ticks, Nat.count_succ, if_neg (Bool.not_eq_true _ ▸ h)]
  rfl

theorem gated_input {t : ℕ} (h : gate (r.input t) (r.state t) = true) :
    (r.gated gate step feed proj).input (r.ticks gate t) = feed (r.input t) (r.state t) := by
  have hnth := Nat.nth_count (p := fun u => gate (r.input u) (r.state u) = true) h
  rw [gated, ticks]
  dsimp only
  rw [hnth]

/-- A gate that is always open. -/
theorem ticks_always (h : ∀ t, gate (r.input t) (r.state t) = true) (t : ℕ) :
    r.ticks gate t = t :=
  Nat.count_of_forall fun {u} _ => h u

variable (h : ∀ i s, proj (r.step i s) = if gate i s then step (feed i s) (proj s) else proj s)

include h

/-- The part runs on what it is fed when the gate is open. -/
theorem gated_state (t : ℕ) :
    (r.gated gate step feed proj).state (r.ticks gate t) = proj (r.state t) := by
  induction t with
  | zero => rfl
  | succ t ih =>
    rw [state_succ, h]
    cases hgate : gate (r.input t) (r.state t) with
    | true => rw [r.ticks_open hgate, state_succ, ih, r.gated_input hgate, if_pos rfl, gated]
    | false => rw [r.ticks_closed hgate, ih, if_neg Bool.false_ne_true]

/-- What a monitor of the part has recorded. -/
theorem gated_record (obs : κ → τ → List α) (t : ℕ) :
    (r.gated gate step feed proj).record obs (r.ticks gate t) =
      r.record (fun i s => if gate i s then obs (feed i s) (proj s) else []) t := by
  induction t with
  | zero => rfl
  | succ t ih =>
    rw [record_succ]
    cases hgate : gate (r.input t) (r.state t) with
    | true =>
      rw [r.ticks_open hgate, record_succ, ih, r.gated_state h, r.gated_input hgate, if_pos rfl]
    | false => rw [r.ticks_closed hgate, ih, if_neg Bool.false_ne_true, List.append_nil]

end Run

end Clocked
