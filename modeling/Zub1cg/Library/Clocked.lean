import Mathlib.Data.List.Basic
import Mathlib.Data.List.Infix
import Mathlib.Data.Nat.Find

/-!
# Runs of clocked machines

A clocked machine is a step function `ι → σ → σ` applied once per clock edge (or
once per instant at which some clock has an edge). A `Run` fixes the machine, its
start state and the whole input schedule; `state t` is the state after `t` edges
and `record obs t` the items a monitor `obs` has written down over those edges.
Handshake sequences such as "the bytes accepted so far" are records.

## Main results

- `Run.invariant` — what every edge preserves holds at every time
- `Run.record_invariant` — the same for a relation between two records and the state
- `Run.relation`, `Run.record_relation` — the same for a relation between two runs, and what
  their records are then
- `Run.record_mono`, `record_add` — records only grow, by what is written down meanwhile
- `Run.part_state`, `Run.part_record` — a part of a machine runs on what it is fed
- `eventually` — what an edge brings nearer whenever it is allowed to, happens
-/

namespace Clocked

variable {σ ι α β : Type*}

/-- A machine together with the inputs it is fed. -/
structure Run (ι σ : Type*) where
  step : ι → σ → σ
  start : σ
  input : ℕ → ι

namespace Run

/-- The state after `t` clock edges. -/
def state (r : Run ι σ) : ℕ → σ
  | 0 => r.start
  | t + 1 => r.step (r.input t) (r.state t)

/-- What the monitor `obs` has recorded over the first `t` clock edges, oldest first. -/
def record (r : Run ι σ) (obs : ι → σ → List α) : ℕ → List α
  | 0 => []
  | t + 1 => r.record obs t ++ obs (r.input t) (r.state t)

@[simp] theorem state_zero (r : Run ι σ) : r.state 0 = r.start := rfl

theorem state_succ (r : Run ι σ) (t : ℕ) :
    r.state (t + 1) = r.step (r.input t) (r.state t) := rfl

@[simp] theorem record_zero (r : Run ι σ) (obs : ι → σ → List α) : r.record obs 0 = [] := rfl

theorem record_succ (r : Run ι σ) (obs : ι → σ → List α) (t : ℕ) :
    r.record obs (t + 1) = r.record obs t ++ obs (r.input t) (r.state t) := rfl

/-- What is left of the run behind edge `t`, which has led to `s`. -/
def behind (r : Run ι σ) (t : ℕ) (s : σ) : Run ι σ where
  step := r.step
  start := s
  input n := r.input (t + n)

theorem behind_state (r : Run ι σ) {t : ℕ} {s : σ} (h : r.state t = s) (n : ℕ) :
    r.state (t + n) = (r.behind t s).state n := by
  induction n with
  | zero => exact h
  | succ n ih =>
    rw [← Nat.add_assoc, state_succ, ih]
    rfl

/-- A property of the start state that every edge preserves holds at every time. -/
theorem invariant (r : Run ι σ) {P : σ → Prop} (hstart : P r.start)
    (hstep : ∀ t s, P s → P (r.step (r.input t) s)) (t : ℕ) : P (r.state t) := by
  induction t with
  | zero => exact hstart
  | succ t ih => exact hstep t _ ih

/-- A relation between two records and the state that every edge preserves holds
at every time. -/
theorem record_invariant (r : Run ι σ) {f : ι → σ → List α} {g : ι → σ → List β}
    {P : List α → List β → σ → Prop} (hstart : P [] [] r.start)
    (hstep : ∀ t a b s, P a b s →
      P (a ++ f (r.input t) s) (b ++ g (r.input t) s) (r.step (r.input t) s)) (t : ℕ) :
    P (r.record f t) (r.record g t) (r.state t) := by
  induction t with
  | zero => exact hstart
  | succ t ih => exact hstep t _ _ _ ih

section

variable {κ τ : Type*} (r : Run ι σ) (r' : Run κ τ) {R : σ → τ → Prop} (hstart : R r.start r'.start)
  (hstep : ∀ t s s', R s s' → R (r.step (r.input t) s) (r'.step (r'.input t) s'))

include hstart hstep

/-- A relation between the start states of two runs that every pair of edges preserves holds at
every time. -/
theorem relation (t : ℕ) : R (r.state t) (r'.state t) := by
  induction t with
  | zero => exact hstart
  | succ t ih => exact hstep t _ _ ih

/-- Monitors that write down the same in related states have the same records. -/
theorem record_relation {f : ι → σ → List α} {g : κ → τ → List α}
    (hsame : ∀ t s s', R s s' → f (r.input t) s = g (r'.input t) s') (t : ℕ) :
    r.record f t = r'.record g t := by
  induction t with
  | zero => rfl
  | succ t ih =>
    have hnow := hsame t _ _ (r.relation r' hstart hstep t)
    rw [record, record, ih, hnow]

end

/-- Two monitors that write down the same. -/
theorem record_congr (r : Run ι σ) {f g : ι → σ → List α} {t : ℕ}
    (h : ∀ u < t, f (r.input u) (r.state u) = g (r.input u) (r.state u)) :
    r.record f t = r.record g t := by
  induction t with
  | zero => rfl
  | succ t ih =>
    rw [record_succ, record_succ, ih fun u hu => h u (Nat.lt_succ_of_lt hu),
      h t (Nat.lt_succ_self t)]

/-- A monitor that writes nothing down. -/
theorem record_eq_nil (r : Run ι σ) {obs : ι → σ → List α} {t : ℕ}
    (h : ∀ u < t, obs (r.input u) (r.state u) = []) : r.record obs t = [] := by
  induction t with
  | zero => rfl
  | succ t ih =>
    rw [record_succ, ih fun u hu => h u (Nat.lt_succ_of_lt hu), h t (Nat.lt_succ_self t)]
    rfl

/-- Records only grow. -/
theorem record_mono (r : Run ι σ) (obs : ι → σ → List α) {t u : ℕ} (h : t ≤ u) :
    r.record obs t <+: r.record obs u := by
  induction h with
  | refl => exact List.prefix_rfl
  | step _ ih => exact ih.trans (List.prefix_append _ _)

/-- What the monitor `obs` writes down over the `n` clock edges from edge `t` on. -/
def during (r : Run ι σ) (obs : ι → σ → List α) (t : ℕ) : ℕ → List α
  | 0 => []
  | n + 1 => r.during obs t n ++ obs (r.input (t + n)) (r.state (t + n))

theorem during_succ (r : Run ι σ) (obs : ι → σ → List α) (t n : ℕ) :
    r.during obs t (n + 1) = r.during obs t n ++ obs (r.input (t + n)) (r.state (t + n)) := rfl

/-- Nothing, where the monitor is silent. -/
theorem during_eq_nil (r : Run ι σ) {obs : ι → σ → List α} {t n : ℕ}
    (h : ∀ k < n, obs (r.input (t + k)) (r.state (t + k)) = []) : r.during obs t n = [] := by
  induction n with
  | zero => rfl
  | succ n ih =>
    rw [during_succ, ih fun k hk => h k (Nat.lt_succ_of_lt hk), h n (Nat.lt_succ_self n)]
    rfl

/-- A record goes on with what is written down from then on. -/
theorem record_add (r : Run ι σ) (obs : ι → σ → List α) (t n : ℕ) :
    r.record obs (t + n) = r.record obs t ++ r.during obs t n := by
  induction n with
  | zero => exact (List.append_nil _).symm
  | succ n ih => rw [← Nat.add_assoc, record_succ, ih, during_succ, List.append_assoc]

/-- What a monitor writes down that puts together what two others do. -/
theorem during_length_append (r : Run ι σ) {obs f g : ι → σ → List α}
    (h : ∀ i s, obs i s = f i s ++ g i s) (t n : ℕ) :
    (r.during obs t n).length = (r.during f t n).length + (r.during g t n).length := by
  induction n with
  | zero => rfl
  | succ n ih =>
    rw [during_succ, during_succ, during_succ, h, List.length_append, List.length_append,
      List.length_append, List.length_append, ih]
    omega

/-- The edges before edge `t` at which `p` holds. -/
def times (r : Run ι σ) (p : ι → σ → Bool) (t : ℕ) : List ℕ :=
  (List.range t).filter fun u => p (r.input u) (r.state u)

theorem times_succ (r : Run ι σ) (p : ι → σ → Bool) (t : ℕ) :
    r.times p (t + 1) = r.times p t ++ if p (r.input t) (r.state t) then [t] else [] := by
  rw [times, List.range_succ, List.filter_append, List.filter_singleton]
  cases p (r.input t) (r.state t) <;> rfl

/-- What the monitor `obs` writes down behind edge `a`, up to edge `u`. -/
def since (r : Run ι σ) (obs : ι → σ → List α) (a u : ℕ) : List α :=
  (r.record obs u).drop (r.record obs (a + 1)).length

/-- One item for each edge. -/
theorem length_since (r : Run ι σ) {obs : ι → σ → List α} {a : ℕ}
    (h : ∀ k, a < k → (obs (r.input k) (r.state k)).length = 1) (n : ℕ) :
    (r.since obs a (a + 1 + n)).length = n := by
  have hduring : (r.during obs (a + 1) n).length = n := by
    induction n with
    | zero => rfl
    | succ n ih => rw [during_succ, List.length_append, ih, h _ (by omega)]
  rw [since, r.record_add obs (a + 1) n, List.drop_left, hduring]

/-- An item that is written down with `n` others between it and edge `a`. -/
theorem getElem?_since (r : Run ι σ) {obs : ι → σ → List α} {a t u n : ℕ} {x : α}
    (hbefore : (r.record obs t).length = (r.record obs (a + 1)).length + n)
    (hitem : obs (r.input t) (r.state t) = [x]) (hlong : n < (r.since obs a u).length) :
    (r.since obs a u)[n]? = some x := by
  have hlater : t < u := by
    by_contra hle
    have hprefix := (r.record_mono obs (Nat.le_of_not_lt hle)).length_le
    rw [since, List.length_drop] at hlong
    omega
  obtain ⟨rest, hrest⟩ := r.record_mono obs hlater
  rw [record_succ, hitem] at hrest
  rw [since, List.getElem?_drop, ← hbefore, ← hrest, List.append_assoc,
    List.getElem?_append_right (Nat.le_refl _), Nat.sub_self]
  rfl

/-- A part of the machine, with what it is fed by the inputs and the rest of the machine. -/
def part {κ τ : Type*} (r : Run ι σ) (step : κ → τ → τ) (feed : ι → σ → κ) (proj : σ → τ) :
    Run κ τ where
  step := step
  start := proj r.start
  input := fun t => feed (r.input t) (r.state t)

section

variable {κ τ : Type*} (r : Run ι σ) {step : κ → τ → τ} {feed : ι → σ → κ} {proj : σ → τ}
  (h : ∀ i s, proj (r.step i s) = step (feed i s) (proj s))

include h

/-- A part that moves by its own steps runs on what it is fed. -/
theorem part_state (t : ℕ) : (r.part step feed proj).state t = proj (r.state t) := by
  induction t with
  | zero => rfl
  | succ t ih => rw [state_succ, state_succ, h, ih, part]

/-- What a monitor of the part has recorded. -/
theorem part_record (obs : κ → τ → List α) (t : ℕ) :
    (r.part step feed proj).record obs t = r.record (fun i s => obs (feed i s) (proj s)) t := by
  induction t with
  | zero => rfl
  | succ t ih => rw [record_succ, record_succ, ih, r.part_state h, part]

end

end Run

/-! ### Progress -/

/-- If no edge before `done` raises a rank, and each edge at which `go` holds lowers it, then
`done` comes, provided that `go` holds again and again; `u` is the first time it does. -/
theorem eventually (done : ℕ → Prop) (rank : ℕ → ℕ) {go : ℕ → Prop} (hgo : ∀ t, ∃ u, t ≤ u ∧ go u)
    (hstep : ∀ t, ¬ done t →
      done (t + 1) ∨ rank (t + 1) ≤ rank t ∧ (go t → rank (t + 1) < rank t)) (t : ℕ) :
    ∃ u, t ≤ u ∧ done u ∧ ∀ v, t ≤ v → v < u → ¬ done v := by
  -- by induction on the rank, and for each rank on the time until the next `go`
  have hrank : ∀ n t, rank t ≤ n → ∃ k, done (t + k) := by
    intro n
    induction n using Nat.strong_induction_on with
    | _ n ihn =>
      intro t hn
      obtain ⟨w, htw, hw⟩ := hgo t
      obtain ⟨k, rfl⟩ := Nat.exists_eq_add_of_le htw
      induction k generalizing t with
      | zero =>
        by_contra hnever
        obtain hdone | ⟨-, hless⟩ := hstep t fun h => hnever ⟨0, h⟩
        · exact hnever ⟨1, hdone⟩
        · have := hless hw
          obtain ⟨m, hm⟩ := ihn (rank (t + 1)) (by omega) (t + 1) (Nat.le_refl _)
          exact hnever ⟨m + 1, by rwa [Nat.add_comm m, ← Nat.add_assoc]⟩
      | succ k ih =>
        by_contra hnever
        obtain hdone | ⟨hle, -⟩ := hstep t fun h => hnever ⟨0, h⟩
        · exact hnever ⟨1, hdone⟩
        · obtain ⟨m, hm⟩ := ih (t + 1) (hle.trans hn) (Nat.le_add_right _ _)
            (by rwa [Nat.add_assoc, Nat.add_comm 1])
          exact hnever ⟨m + 1, by rwa [Nat.add_comm m, ← Nat.add_assoc]⟩
  have hsome := hrank (rank t) t (Nat.le_refl _)
  classical
  refine ⟨t + Nat.find hsome, Nat.le_add_right _ _, Nat.find_spec hsome, ?_⟩
  intro v htv hv hdone
  obtain ⟨k, rfl⟩ := Nat.exists_eq_add_of_le htv
  exact Nat.find_min hsome (by omega) hdone

end Clocked
