import Mathlib.Data.List.Infix
import Zub1cg.Library.Checked

/-!
# Scanning from left to right

What a scanner makes of a piece of its input is the same whatever comes after the piece, as long as
no piece ends in the middle of what it looks for. Then the pieces can be put together.

## Main definitions

- `Emits` — what a scanner makes of a piece
- `findAfter` — what comes after the first occurrence of a pattern
- `isWhitespace` — the white space of Unicode

## Main results

- `Emits.append`, `Emits.flatMap` — pieces one after the other
- `findAfter_pattern`, `findAfter_cons` — a pattern is found, or it does not begin here
-/

namespace Scan

open Checked

/-! ### Pieces -/

section

variable {α β : Type} {scan : List α → Result (List β)}

/-- A piece is answered in the same way whatever comes after it. -/
def Emits (scan : List α → Result (List β)) (piece : List α) (out : List β) : Prop :=
  ∀ rest, scan (piece ++ rest) = (out ++ ·) <$> scan rest

theorem Emits.nil : Emits scan [] [] := by
  intro rest
  cases hrest : scan rest with
  | error e => simp [hrest]
  | ok out => simp [hrest]

theorem Emits.append {piece piece' : List α} {out out' : List β} (h : Emits scan piece out)
    (h' : Emits scan piece' out') : Emits scan (piece ++ piece') (out ++ out') := by
  intro rest
  rw [List.append_assoc, h, h']
  cases hrest : scan rest with
  | error e => rfl
  | ok out => simp

/-- What is answered element by element -/
theorem Emits.flatMap {piece : List α} {f : α → List β}
    (h : ∀ a ∈ piece, Emits scan [a] (f a)) : Emits scan piece (piece.flatMap f) := by
  induction piece with
  | nil => exact .nil
  | cons a piece ih =>
    rw [List.flatMap_cons, ← List.singleton_append]
    exact (h a List.mem_cons_self).append (ih fun b hb => h b (List.mem_cons_of_mem _ hb))

/-- A piece with nothing after it -/
theorem Emits.run {piece : List α} {out : List β} (h : Emits scan piece out)
    (hend : scan [] = .ok []) : scan piece = .ok out := by
  have hrun := h []
  rw [hend, List.append_nil] at hrun
  simpa using hrun

end

/-! ### Patterns -/

section

variable {α : Type} [DecidableEq α] {pattern : List α}

/-- What comes after the first occurrence of a pattern -/
def findAfter (pattern : List α) : List α → Option (List α)
  | [] => if pattern = [] then some [] else none
  | a :: rest =>
    if pattern <+: a :: rest then some ((a :: rest).drop pattern.length) else findAfter pattern rest

theorem findAfter_pattern (rest : List α) : findAfter pattern (pattern ++ rest) = some rest := by
  cases hlist : pattern ++ rest with
  | nil =>
    obtain ⟨rfl, rfl⟩ := List.append_eq_nil_iff.1 hlist
    rfl
  | cons a l =>
    rw [findAfter, ← hlist, if_pos (List.prefix_append _ _), List.drop_left]

theorem findAfter_cons {a : α} {rest : List α} (h : ¬ pattern <+: a :: rest) :
    findAfter pattern (a :: rest) = findAfter pattern rest := if_neg h

/-- A pattern does not begin where its first element is not. -/
theorem findAfter_append {first : α} {piece : List α} (h : first ∉ piece) (rest : List α) :
    findAfter (first :: pattern) (piece ++ rest) = findAfter (first :: pattern) rest := by
  induction piece with
  | nil => rfl
  | cons a piece ih =>
    rw [List.mem_cons, not_or] at h
    have hprefix : ¬ first :: pattern <+: a :: (piece ++ rest) := fun hp =>
      h.1 (List.cons_prefix_cons.1 hp).1
    rw [List.cons_append, findAfter_cons hprefix, ih h.2]

end

/-! ### White space -/

/-- `char::is_whitespace` -/
def isWhitespace (c : Char) : Bool :=
  let n := c.toNat
  (9 ≤ n && n ≤ 13) || n == 0x20 || n == 0x85 || n == 0xA0 || n == 0x1680 ||
    (0x2000 ≤ n && n ≤ 0x200A) || n == 0x2028 || n == 0x2029 || n == 0x202F || n == 0x205F ||
    n == 0x3000

end Scan
