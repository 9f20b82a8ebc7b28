import Zub1cg.Library.Clocked

/-!
# Receivers of words on a sampled line

A receiver begins a word on its own, samples the line while it is busy with it, and ends it with an
item or with an error. A decoder is given all samples of a word at once. The receiver refines the
decoder when each of its edges is one of a few kinds; then the items and errors of a whole run are
the decoder's, word for word.

## Main definitions

- `View` — what can be seen of a receiver
- `Refines` — what its edges do, and the decoder
- `Follows` — the words of a run so far

## Main results

- `Refines.step` — what one edge preserves
- `Refines.run` — the items and the errors of a run
-/

namespace Receiver

open Clocked (Run)

variable {ι σ α β : Type*} {w : ℕ}

structure View (ι σ α β : Type*) (w : ℕ) where
  /-- the sample that is taken at an edge -/
  sampled : ι → σ → List β
  begins : σ → Bool
  busy : σ → Bool
  /-- the item that is handed over at an edge, and the one that waits -/
  delivered : ι → σ → List α
  waiting : σ → List α
  errors : σ → BitVec w

/-- Nothing ends at this edge. -/
structure View.Kept (v : View ι σ α β w) (i : ι) (s s' : σ) : Prop where
  items : v.delivered i s ++ v.waiting s' = v.waiting s
  errors : v.errors s' = v.errors s

/-- A word ends, with an item or with an error. -/
structure View.Ends (v : View ι σ α β w) (i : ι) (s s' : σ) (item : Option α) : Prop where
  busy : v.busy s' = false
  items : v.delivered i s ++ v.waiting s' = v.waiting s ++ item.toList
  errors : v.errors s' = v.errors s + if item.isNone then 1 else 0

/-- The edges of a receiver with `need` samples to a word at least. `Receiving samples n` says that
the first `n` of the word's `samples` have been taken. -/
structure Refines (v : View ι σ α β w) (step : ι → σ → σ) (decode : List β → Option α) (need : ℕ)
    (Receiving : List β → ℕ → σ → Prop) (Good : ι → Prop) : Prop where
  rest : ∀ {i s}, Good i → v.busy s = false → v.begins s = false →
    v.busy (step i s) = false ∧ v.Kept i s (step i s)
  start : ∀ {i s}, Good i → v.busy s = false → v.begins s = true →
    v.Kept i s (step i s) ∧ ∀ samples, Receiving samples 0 (step i s)
  busy : ∀ {s samples n}, Receiving samples n s →
    v.busy s = true ∧ v.begins s = false ∧ n < need
  between : ∀ {i s samples n}, Good i → Receiving samples n s → v.sampled i s = [] →
    v.Kept i s (step i s) ∧ Receiving samples n (step i s)
  sample : ∀ {i s samples n x}, Good i → Receiving samples n s → need ≤ samples.length →
    v.sampled i s = [x] → samples[n]? = some x →
    v.Kept i s (step i s) ∧ Receiving samples (n + 1) (step i s) ∨
      v.Ends i s (step i s) (decode samples)
  single : ∀ i s, v.sampled i s = [] ∨ ∃ x, v.sampled i s = [x]

/-! ### The words of a run -/

/-- The edges before the edge `t` at which a word begins. -/
def View.begun (v : View ι σ α β w) (r : Run ι σ) (t : ℕ) : List ℕ :=
  r.times (fun _ s => v.begins s) t

/-- What the decoder makes of the word that begins at the edge `a`, from the samples up to the
edge `u`. -/
def View.word (v : View ι σ α β w) (decode : List β → Option α) (r : Run ι σ) (u a : ℕ) :
    Option α := decode (r.since v.sampled a u)

variable {v : View ι σ α β w} {decode : List β → Option α} {need : ℕ}
  {Receiving : List β → ℕ → σ → Prop} {Good : ι → Prop} {r : Run ι σ} {t u : ℕ}

/-- The words that begin at the edges `done` have ended. -/
structure Decoded (v : View ι σ α β w) (decode : List β → Option α) (r : Run ι σ) (u t : ℕ)
    (done : List ℕ) : Prop where
  items : r.record v.delivered t ++ v.waiting (r.state t) = done.filterMap (v.word decode r u)
  errors : v.errors (r.state t) =
    BitVec.ofNat w (done.countP fun a => (v.word decode r u a).isNone)

theorem Decoded.kept {done : List ℕ} (h : Decoded v decode r u t done)
    (hkept : v.Kept (r.input t) (r.state t) (r.state (t + 1))) :
    Decoded v decode r u (t + 1) done where
  items := by rw [Run.record_succ, List.append_assoc, hkept.items, h.items]
  errors := by rw [hkept.errors, h.errors]

theorem Decoded.ends {done : List ℕ} {a : ℕ} (h : Decoded v decode r u t done)
    (hends : v.Ends (r.input t) (r.state t) (r.state (t + 1)) (v.word decode r u a)) :
    Decoded v decode r u (t + 1) (done ++ [a]) where
  items := by
    rw [Run.record_succ, List.append_assoc, hends.items, ← List.append_assoc, h.items,
      List.filterMap_append]
    cases hword : v.word decode r u a <;> simp [hword]
  errors := by
    rw [hends.errors, h.errors, List.countP_append, List.countP_singleton, BitVec.ofNat_add]
    cases (v.word decode r u a).isNone <;> rfl

/-- All words have ended, but one that the receiver is busy with. -/
inductive Follows (v : View ι σ α β w) (decode : List β → Option α)
    (Receiving : List β → ℕ → σ → Prop) (r : Run ι σ) (u t : ℕ) : Prop
  | idle (busy : v.busy (r.state t) = false) (decoded : Decoded v decode r u t (v.begun r t))
  | amid (done : List ℕ) (a n : ℕ) (begun : v.begun r t = done ++ [a])
      (decoded : Decoded v decode r u t done)
      (receiving : Receiving (r.since v.sampled a u) n (r.state t))
      (samples : (r.record v.sampled t).length = (r.record v.sampled (a + 1)).length + n)

theorem View.begun_succ (v : View ι σ α β w) (r : Run ι σ) (t : ℕ) :
    v.begun r (t + 1) = v.begun r t ++ if v.begins (r.state t) then [t] else [] :=
  r.times_succ _ t

/-- **One edge.** The words that have begun have enough samples up to the edge `u`. -/
theorem Refines.step (h : Refines v r.step decode need Receiving Good) (hgood : Good (r.input t))
    (hlong : ∀ a ∈ v.begun r t, need ≤ (r.since v.sampled a u).length)
    (hfollows : Follows v decode Receiving r u t) : Follows v decode Receiving r u (t + 1) := by
  have hbegun := v.begun_succ r t
  cases hfollows with
  | idle hbusy hdecoded =>
    cases hbegins : v.begins (r.state t) with
    | false =>
      rw [hbegins, if_neg Bool.false_ne_true, List.append_nil] at hbegun
      obtain ⟨hnext, hkept⟩ := h.rest hgood hbusy hbegins
      exact .idle hnext (hbegun ▸ hdecoded.kept hkept)
    | true =>
      rw [hbegins, if_pos rfl] at hbegun
      obtain ⟨hkept, hreceiving⟩ := h.start hgood hbusy hbegins
      exact .amid _ t 0 hbegun (hdecoded.kept hkept) (hreceiving _) rfl
  | amid done a n hdone hdecoded hreceiving hsamples =>
    obtain ⟨-, hbegins, hfew⟩ := h.busy hreceiving
    rw [hbegins, if_neg Bool.false_ne_true, List.append_nil, hdone] at hbegun
    have hneed := hlong a (by rw [hdone]; simp)
    obtain hnone | ⟨x, hone⟩ := h.single (r.input t) (r.state t)
    · obtain ⟨hkept, hnext⟩ := h.between hgood hreceiving hnone
      refine .amid done a n hbegun (hdecoded.kept hkept) hnext ?_
      rw [Run.record_succ, hnone, List.append_nil]
      exact hsamples
    · have hget := r.getElem?_since hsamples hone (Nat.lt_of_lt_of_le hfew hneed)
      obtain ⟨hkept, hnext⟩ | hends := h.sample hgood hreceiving hneed hone hget
      · refine .amid done a (n + 1) hbegun (hdecoded.kept hkept) hnext ?_
        rw [Run.record_succ, hone, List.length_append, hsamples]
        rfl
      · exact .idle hends.busy (hbegun ▸ hdecoded.ends hends)

/-- **A whole run.** Of the words that have begun, all but one that the receiver is busy with have
ended. The items that have been handed over or wait are the decoder's, in order, and the errors are
the words in which the decoder finds no item. -/
theorem Refines.run (h : Refines v r.step decode need Receiving Good)
    (hgood : ∀ t, Good (r.input t)) (hbusy : v.busy r.start = false)
    (hstart : v.waiting r.start = [] ∧ v.errors r.start = 0)
    (hlong : ∀ a ∈ v.begun r t, need ≤ (r.since v.sampled a u).length) :
    ∃ done on, v.begun r t = done ++ on ∧ on.length = (v.busy (r.state t)).toNat ∧
      r.record v.delivered t ++ v.waiting (r.state t) = done.filterMap (v.word decode r u) ∧
      v.errors (r.state t) =
        BitVec.ofNat w (done.countP fun a => (v.word decode r u a).isNone) := by
  have hfollows : Follows v decode Receiving r u t := by
    induction t with
    | zero => exact .idle hbusy ⟨hstart.1, hstart.2⟩
    | succ t ih =>
      have hearlier : ∀ a ∈ v.begun r t, a ∈ v.begun r (t + 1) := by
        intro a ha
        rw [v.begun_succ]
        exact List.mem_append_left _ ha
      exact h.step (hgood t) (fun a ha => hlong a (hearlier a ha))
        (ih fun a ha => hlong a (hearlier a ha))
  cases hfollows with
  | idle hnow hdecoded =>
    refine ⟨_, [], (List.append_nil _).symm, ?_, hdecoded.items, hdecoded.errors⟩
    rw [hnow]
    rfl
  | amid done a n hdone hdecoded hreceiving =>
    refine ⟨done, [a], hdone, ?_, hdecoded.items, hdecoded.errors⟩
    rw [(h.busy hreceiving).1]
    rfl

end Receiver
