import Mathlib.Data.List.ReduceOption

/-!
# A table of slots, each empty or occupied

What occupies the slots is counted with multiplicity, up to order.

## Main definitions

- `Slots.held` — the occupants

## Main results

- `Slots.perm_set` — writing to one slot exchanges the old occupant for the new one
-/

namespace Slots

variable {α : Type*}

/-- Reading after a write to a slot of the table. -/
theorem getD_set (slots : List α) {i : ℕ} (hi : i < slots.length) (new : α) (j : ℕ) (d : α) :
    (slots.set i new).getD j d = if j = i then new else slots.getD j d := by
  rw [List.getD_eq_getElem?_getD, List.getElem?_set, List.getD_eq_getElem?_getD]
  by_cases hj : j = i
  · rw [if_pos hj.symm, if_pos hi, if_pos hj]
    rfl
  · rw [if_neg (Ne.symm hj), if_neg hj]

def held (slots : List (Option α)) : List α := slots.reduceOption

/-- Writing to a slot exchanges its occupant. -/
theorem perm_set (slots : List (Option α)) (i : ℕ) (old new : Option α)
    (hold : slots[i]? = some old) :
    (old.toList ++ held (slots.set i new)).Perm (new.toList ++ held slots) := by
  induction slots generalizing i with
  | nil => contradiction
  | cons slot slots ih =>
    cases i with
    | zero =>
      obtain rfl : slot = old := Option.some.inj hold
      have hheld : ∀ o : Option α, held (o :: slots) = o.toList ++ held slots := by
        intro o
        cases o <;> rfl
      rw [List.set_cons_zero, hheld, hheld, ← List.append_assoc, ← List.append_assoc]
      exact List.perm_append_comm.append_right _
    | succ i =>
      have hrest := ih i hold
      cases slot with
      | none => exact hrest
      | some occupant =>
        have hcons : ∀ rest, held (some occupant :: rest) = occupant :: held rest :=
          fun rest => rfl
        rw [List.set_cons_succ, hcons, hcons]
        exact List.perm_middle.trans ((hrest.cons occupant).trans List.perm_middle.symm)

theorem mem_held {slots : List (Option α)} {i : ℕ} {a : α} (h : slots[i]? = some (some a)) :
    a ∈ held slots :=
  List.reduceOption_mem_iff.mpr (List.mem_of_getElem? h)

/-- If the occupants are told apart by `f`, so are those of different slots. -/
theorem ne_of_nodup {β : Type*} {f : α → β} {slots : List (Option α)}
    (hnodup : ((held slots).map f).Nodup) {i j : ℕ} {a b : α} (hi : slots[i]? = some (some a))
    (hj : slots[j]? = some (some b)) (hne : i ≠ j) : f a ≠ f b := by
  have hperm := (perm_set slots i (some a) none hi).map f
  have hnodup' := hperm.nodup_iff.mpr hnodup
  -- The second slot is still there when the first one is empty.
  have hb : b ∈ held (slots.set i none) := by
    apply mem_held (i := j)
    rw [List.getElem?_set_ne hne]
    exact hj
  intro hsame
  apply (List.nodup_cons.mp hnodup').1
  rw [hsame]
  exact List.mem_map_of_mem hb

end Slots
