import Mathlib.Algebra.Order.Group.Multiset
import Mathlib.Tactic.Abel

/-!
# The words of texts

Breaks separate the words of a text. What the words of several texts are, as often as each of them
occurs, does not depend on how the texts are cut, as long as there is a break where they are joined.

## Main definitions

- `words` — the words of a text
- `content` — the words of several texts

## Main results

- `words_append_break` — the words on both sides of a break
- `words_join`, `content_set` — texts that are joined, and a text that is made longer
-/

namespace Words

variable {α : Type*} (isBreak : α → Bool)

/-- What stands between breaks and is not empty -/
def words (text : List α) : List (List α) :=
  (text.splitOnP isBreak).filter fun word => !word.isEmpty

@[simp] theorem words_nil : words isBreak [] = [] := by
  rw [words, List.splitOnP_nil]
  rfl

variable {isBreak}

/-- **The words on both sides of a break** -/
theorem words_append_break {c : α} (hc : isBreak c = true) (front back : List α) :
    words isBreak (front ++ c :: back) = words isBreak front ++ words isBreak back := by
  rw [words, List.splitOnP_append_cons front back hc, List.filter_append]
  rfl

/-- The words of texts with a break between each two of them -/
theorem words_join {c : α} (hc : isBreak c = true) (parts : List (List α)) :
    words isBreak (parts.intersperse [c]).flatten = parts.flatMap (words isBreak) := by
  induction parts with
  | nil => exact words_nil isBreak
  | cons part parts ih =>
    cases parts with
    | nil => simp
    | cons part' parts =>
      rw [List.intersperse_cons_cons, List.flatten_cons, List.flatten_cons, List.singleton_append,
        words_append_break hc, ih, List.flatMap_cons, List.flatMap_cons, List.flatMap_cons]

variable (isBreak)

/-- The words of several texts, each as often as it occurs -/
def content (parts : List (List α)) : Multiset (List α) :=
  Multiset.ofList (parts.flatMap (words isBreak))

@[simp] theorem content_nil : content isBreak [] = 0 := rfl

theorem content_append (front back : List (List α)) :
    content isBreak (front ++ back) = content isBreak front + content isBreak back := by
  rw [content, List.flatMap_append]
  rfl

theorem content_cons (part : List α) (parts : List (List α)) :
    content isBreak (part :: parts) =
      Multiset.ofList (words isBreak part) + content isBreak parts := by
  rw [content, List.flatMap_cons]
  rfl

/-- Empty texts have no words. -/
theorem content_replicate (n : ℕ) : content isBreak (List.replicate n []) = 0 := by
  induction n with
  | zero => rfl
  | succ n ih =>
    rw [List.replicate_succ, content_cons, words_nil, ih]
    rfl

variable {isBreak}

/-- **A text that is made longer** behind a break -/
theorem content_set {c : α} (hc : isBreak c = true) {parts : List (List α)} {i : ℕ}
    (hi : i < parts.length) (text : List α) :
    content isBreak (parts.set i (parts[i] ++ c :: text)) =
      content isBreak parts + Multiset.ofList (words isBreak text) := by
  -- the parts in front and behind stay as they are
  have hsplit : parts = parts.take i ++ parts[i] :: parts.drop (i + 1) := by
    rw [← List.drop_eq_getElem_cons hi, List.take_append_drop]
  conv_rhs => rw [hsplit]
  rw [List.set_eq_take_append_cons_drop, if_pos hi, content_append, content_append, content_cons,
    content_cons, words_append_break hc, ← Multiset.coe_add]
  abel

end Words
