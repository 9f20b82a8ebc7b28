import Mathlib.Data.List.Basic
import Mathlib.Logic.Function.Basic

/-!
# Lists stored in a memory

A memory is a function of the address. A list lies in it from a start address on, one item
an address.

## Main results

- `stored_append` — a list is stored piece by piece
- `stored_iff_getElem` — and item by item
- `Stored.unique` — a memory holds one list of each length
- `Stored.concat` — a write behind the list makes it one item longer
- `Stored.set` — a write inside the list replaces an item
- `overlay_append` — a list is written piece by piece
-/

namespace MemoryRegion

variable {α : Type*} {mem : ℕ → α}

def Stored (mem : ℕ → α) : ℕ → List α → Prop
  | _, [] => True
  | start, x :: xs => mem start = x ∧ Stored mem (start + 1) xs

theorem stored_append {start : ℕ} {xs ys : List α} :
    Stored mem start (xs ++ ys) ↔ Stored mem start xs ∧ Stored mem (start + xs.length) ys := by
  induction xs generalizing start with
  | nil => exact ⟨fun h => ⟨trivial, h⟩, fun h => h.2⟩
  | cons x xs ih =>
    have hlength : start + (x :: xs).length = start + 1 + xs.length := by
      rw [List.length_cons]
      omega
    rw [List.cons_append, Stored, Stored, ih, hlength, and_assoc]

theorem stored_iff_getElem {start : ℕ} {xs : List α} :
    Stored mem start xs ↔ ∀ k, (hk : k < xs.length) → mem (start + k) = xs[k] := by
  induction xs generalizing start with
  | nil => exact ⟨fun _ k hk => absurd hk (Nat.not_lt_zero k), fun _ => trivial⟩
  | cons x xs ih =>
    rw [Stored, ih]
    constructor
    · rintro ⟨hx, hrest⟩ k hk
      cases k with
      | zero => exact hx
      | succ k =>
        rw [← Nat.add_assoc, Nat.add_right_comm]
        exact hrest k (Nat.lt_of_succ_lt_succ hk)
    · intro h
      refine ⟨h 0 (Nat.zero_lt_succ _), fun k hk => ?_⟩
      rw [Nat.add_right_comm, Nat.add_assoc]
      exact h (k + 1) (Nat.succ_lt_succ hk)

/-- A memory holds one list of each length. -/
theorem Stored.unique {start : ℕ} {xs ys : List α} (hx : Stored mem start xs)
    (hy : Stored mem start ys) (hlength : xs.length = ys.length) : xs = ys := by
  induction xs generalizing start ys with
  | nil => exact (List.eq_nil_of_length_eq_zero hlength.symm).symm
  | cons x xs ih =>
    cases ys with
    | nil => contradiction
    | cons y ys =>
      rw [← hx.1, ← hy.1, ih hx.2 hy.2 (Nat.succ.inj hlength)]

/-- A write behind the list leaves it alone. -/
theorem Stored.update {start : ℕ} {xs : List α} (h : Stored mem start xs) {address : ℕ}
    (haddress : start + xs.length ≤ address) (value : α) :
    Stored (Function.update mem address value) start xs := by
  induction xs generalizing start with
  | nil => trivial
  | cons x xs ih =>
    rw [List.length_cons] at haddress
    refine ⟨?_, ih h.2 (by omega)⟩
    rw [Function.update_of_ne (by omega)]
    exact h.1

/-- A write right behind the list adds to it. -/
theorem Stored.concat {start : ℕ} {xs : List α} (h : Stored mem start xs) {address : ℕ}
    (haddress : address = start + xs.length) (value : α) :
    Stored (Function.update mem address value) start (xs ++ [value]) := by
  subst haddress
  apply stored_append.mpr
  refine ⟨h.update (Nat.le_refl _) value, ?_, trivial⟩
  exact Function.update_self _ _ _

/-- A write inside the list replaces an item. -/
theorem Stored.set {start : ℕ} {xs : List α} (h : Stored mem start xs) (k : ℕ) (value : α) :
    Stored (Function.update mem (start + k) value) start (xs.set k value) := by
  rw [stored_iff_getElem] at h ⊢
  intro j hj
  rw [List.length_set] at hj
  rw [List.getElem_set]
  by_cases hjk : k = j
  · rw [if_pos hjk, hjk, Function.update_self]
  · rw [if_neg hjk, Function.update_of_ne (by omega), h j hj]

/-! ### Writing a list -/

/-- The memory with a list written over it. -/
def overlay (mem : ℕ → α) (start : ℕ) (xs : List α) : ℕ → α := fun address =>
  if address < start then mem address else (xs[address - start]?).getD (mem address)

theorem overlay_inside {start : ℕ} {xs : List α} {k : ℕ} (hk : k < xs.length) :
    overlay mem start xs (start + k) = xs[k] := by
  rw [overlay, if_neg (by omega), Nat.add_sub_cancel_left, List.getElem?_eq_getElem hk]
  rfl

theorem overlay_outside {start : ℕ} {xs : List α} {address : ℕ}
    (h : address < start ∨ start + xs.length ≤ address) : overlay mem start xs address = mem address := by
  rw [overlay]
  split
  · rfl
  · rw [List.getElem?_eq_none (by omega)]
    rfl

@[simp] theorem overlay_nil (start : ℕ) : overlay mem start [] = mem := by
  funext address
  exact overlay_outside (by rw [List.length_nil]; omega)

theorem overlay_singleton (start : ℕ) (x : α) :
    overlay mem start [x] = Function.update mem start x := by
  funext address
  by_cases h : address = start
  · subst h
    rw [Function.update_self]
    show overlay mem address [x] (address + 0) = [x][0]
    exact overlay_inside _
  · rw [Function.update_of_ne h, overlay_outside (by rw [List.length_singleton]; omega)]

/-- A list is written piece by piece. -/
theorem overlay_append (start : ℕ) (xs ys : List α) :
    overlay mem start (xs ++ ys) = overlay (overlay mem start xs) (start + xs.length) ys := by
  funext address
  by_cases hbefore : address < start
  · rw [overlay_outside (.inl hbefore), overlay_outside (.inl (by omega)),
      overlay_outside (.inl hbefore)]
  · obtain ⟨k, rfl⟩ := Nat.exists_eq_add_of_le (Nat.le_of_not_lt hbefore)
    by_cases hfirst : k < xs.length
    · rw [overlay_inside (by rw [List.length_append]; omega), List.getElem_append_left hfirst,
        overlay_outside (.inl (by omega)), overlay_inside hfirst]
    · obtain ⟨j, rfl⟩ := Nat.exists_eq_add_of_le (Nat.le_of_not_lt hfirst)
      by_cases hsecond : j < ys.length
      · rw [overlay_inside (by rw [List.length_append]; omega), ← Nat.add_assoc,
          overlay_inside hsecond, List.getElem_append_right (Nat.le_add_right _ _)]
        simp
      · rw [overlay_outside (by rw [List.length_append]; omega), overlay_outside (by omega),
          overlay_outside (by omega)]

end MemoryRegion
