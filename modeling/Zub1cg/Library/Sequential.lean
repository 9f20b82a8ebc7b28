import Zub1cg.Library.Clocked

/-!
# Sequential objects and linearization

A sequential object says which operations, each with what it returned, are possible in a state, and
what they make of it. A clocked machine has the object's behaviour if it writes down, at each edge,
operations that are possible in the state that an abstraction reads off its registers, and the
abstraction of its next state is what these operations make of it. What it has written down over a
whole run is then a history of the object.

## Main definitions

- `Sequential.Object` — the object
- `Object.Legal`, `Object.after` — its histories, and the state behind one

## Main results

- `Object.legal_append` — histories are put together
- `Object.legal_run` — what a machine has written down
-/

namespace Sequential

variable {σ ω : Type*}

/-- Which operations are possible, and what they do. -/
structure Object (σ ω : Type*) where
  Possible : σ → ω → Prop
  next : σ → ω → σ

namespace Object

variable (o : Object σ ω)

/-- The state behind a history. -/
def after (s : σ) (history : List ω) : σ := history.foldl o.next s

/-- Every operation is possible when its turn comes. -/
def Legal : σ → List ω → Prop
  | _, [] => True
  | s, a :: rest => o.Possible s a ∧ Legal (o.next s a) rest

theorem after_append (s : σ) (first second : List ω) :
    o.after s (first ++ second) = o.after (o.after s first) second :=
  List.foldl_append

theorem legal_append {s : σ} {first second : List ω} :
    o.Legal s (first ++ second) ↔ o.Legal s first ∧ o.Legal (o.after s first) second := by
  induction first generalizing s with
  | nil => exact (iff_of_eq (true_and _)).symm
  | cons a rest ih =>
    change o.Possible s a ∧ o.Legal (o.next s a) (rest ++ second) ↔
      (o.Possible s a ∧ o.Legal (o.next s a) rest) ∧ o.Legal (o.after (o.next s a) rest) second
    rw [ih, and_assoc]

/-- **A whole run.** If the operations of each edge are possible and account for the change of the
abstract state, what has been written down is a history of the object. -/
theorem legal_run {ι τ : Type*} (r : Clocked.Run ι τ) {abstract : τ → σ} {obs : ι → τ → List ω}
    (hstep : ∀ t, o.Legal (abstract (r.state t)) (obs (r.input t) (r.state t)) ∧
      abstract (r.state (t + 1)) = o.after (abstract (r.state t)) (obs (r.input t) (r.state t)))
    (t : ℕ) :
    o.Legal (abstract r.start) (r.record obs t) ∧
      abstract (r.state t) = o.after (abstract r.start) (r.record obs t) := by
  induction t with
  | zero => exact ⟨trivial, rfl⟩
  | succ t ih =>
    obtain ⟨hlegal, hstate⟩ := ih
    obtain ⟨hpossible, hnext⟩ := hstep t
    rw [hstate] at hpossible hnext
    rw [Clocked.Run.record_succ]
    refine ⟨o.legal_append.mpr ⟨hlegal, hpossible⟩, ?_⟩
    rw [hnext, after_append]

end Object

end Sequential
