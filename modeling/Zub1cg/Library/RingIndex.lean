import Mathlib.Data.Nat.ModEq

/-!
# Running numbers in a ring of slots

Items are numbered as they arrive and item `i` lies in slot `i % n`. As long as only a
window of fewer than `n + 1` numbers is in use, different numbers have different slots.
-/

namespace RingIndex

/-- Within a window of `n` numbers the slot determines the number. -/
theorem eq_of_mod_eq {n c i j : ℕ} (hi : c ≤ i) (hi' : i < c + n) (hj : c ≤ j) (hj' : j < c + n)
    (h : i % n = j % n) : i = j := by
  obtain hle | hle := Nat.le_total i j
  · have hdvd := (Nat.modEq_iff_dvd' hle).mp h
    have hzero := Nat.eq_zero_of_dvd_of_lt hdvd (by omega)
    omega
  · have hdvd := (Nat.modEq_iff_dvd' hle).mp h.symm
    have hzero := Nat.eq_zero_of_dvd_of_lt hdvd (by omega)
    omega

/-- Different numbers of a window lie in different slots. -/
theorem mod_ne_of_ne {n c i j : ℕ} (hi : c ≤ i) (hi' : i < c + n) (hj : c ≤ j) (hj' : j < c + n)
    (hne : i ≠ j) : i % n ≠ j % n := by
  intro hsame
  exact hne (eq_of_mod_eq hi hi' hj hj' hsame)

/-- The slot behind the window is the window's first one exactly when the window is full. -/
theorem succ_mod_eq_iff {n c p : ℕ} (hp : c ≤ p) (hp' : p < c + n) :
    (p + 1) % n = c % n ↔ p + 1 = c + n := by
  constructor
  · intro h
    have hwrap : (p + 1) % n = (c + n) % n := by rw [h, Nat.add_mod_right]
    exact eq_of_mod_eq (c := c + 1) (by omega) (by omega) (by omega) (by omega) hwrap
  · intro h
    rw [h, Nat.add_mod_right]

/-- The items after one more has arrived. -/
theorem getElem?_concat_cases {α : Type*} {items : List α} {item x : α} {i : ℕ}
    (h : (items ++ [item])[i]? = some x) :
    (i < items.length ∧ items[i]? = some x) ∨ (i = items.length ∧ x = item) := by
  obtain hlt | hge := Nat.lt_or_ge i items.length
  · rw [List.getElem?_append_left hlt] at h
    exact .inl ⟨hlt, h⟩
  · have hi := (List.getElem?_eq_some_iff.mp h).1
    rw [List.length_append, List.length_singleton] at hi
    obtain rfl : i = items.length := by omega
    rw [List.getElem?_concat_length] at h
    exact .inr ⟨rfl, (Option.some.inj h).symm⟩

/-- The items are dealt to `n` rows in turn: item `k` is entry `k / n` of row `k % n`. -/
def Dealt {α : Type*} (n : ℕ) (rows : ℕ → List α) (items : List α) : Prop :=
  ∀ k, (rows (k % n))[k / n]? = items[k]?

theorem dealt_nil {α : Type*} (n : ℕ) : Dealt n (fun _ => ([] : List α)) [] := fun _ => rfl

/-- The row that is next has been dealt an item in every round. -/
theorem Dealt.length_next {α : Type*} {n : ℕ} {rows : ℕ → List α} {items : List α} (hn : 0 < n)
    (h : Dealt n rows items) : (rows (items.length % n)).length = items.length / n := by
  apply Nat.le_antisymm
  · have hnone := h items.length
    rw [List.getElem?_eq_none (Nat.le_refl _)] at hnone
    exact List.getElem?_eq_none_iff.mp hnone
  · obtain hlt | hle := Nat.lt_or_ge items.length n
    · rw [Nat.div_eq_of_lt hlt]
      exact Nat.zero_le _
    · have hsome := h (items.length - n)
      have hbefore : items.length - n < items.length := Nat.sub_lt (by omega) hn
      rw [← Nat.mod_eq_sub_mod hle, List.getElem?_eq_getElem hbefore] at hsome
      have hlast := (List.getElem?_eq_some_iff.mp hsome).1
      rw [Nat.div_eq_sub_div hn hle]
      exact hlast

/-- One more item goes to the row that is next. -/
theorem Dealt.push {α : Type*} {n : ℕ} {rows : ℕ → List α} {items : List α} (hn : 0 < n)
    (h : Dealt n rows items) (item : α) :
    Dealt n (fun i => if i = items.length % n then rows i ++ [item] else rows i)
      (items ++ [item]) := by
  intro k
  dsimp only
  have hnext := h.length_next hn
  obtain hlt | rfl | hgt := Nat.lt_trichotomy k items.length
  · rw [List.getElem?_append_left hlt, ← h k]
    split
    · next hrow =>
      have hk := h k
      rw [List.getElem?_eq_getElem hlt] at hk
      exact List.getElem?_append_left (List.getElem?_eq_some_iff.mp hk).1
    · rfl
  · rw [if_pos rfl, List.getElem?_concat_length, ← hnext, List.getElem?_concat_length]
  · have hnone : (items ++ [item])[k]? = none :=
      List.getElem?_eq_none (by rw [List.length_append]; exact hgt)
    rw [hnone]
    split
    · next hrow =>
      have hround : items.length / n < k / n := by
        have hk := Nat.div_add_mod k n
        have hitems := Nat.div_add_mod items.length n
        rw [hrow] at hk
        by_contra hle
        have hmul := Nat.mul_le_mul_left n (Nat.le_of_not_lt hle)
        omega
      apply List.getElem?_eq_none
      rw [List.length_append, hrow, hnext]
      exact hround
    · rw [h k]
      exact List.getElem?_eq_none (Nat.le_of_lt hgt)

/-- Masking with a power of two less one. -/
theorem and_pred_eq_mod {n : ℕ} (hn : 2 ^ n.log2 = n) (p : ℕ) : p &&& (n - 1) = p % n := by
  rw [← hn]
  exact Nat.and_two_pow_sub_one_eq_mod p _

end RingIndex
