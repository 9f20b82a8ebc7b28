import Mathlib.Data.List.Basic
import Zub1cg.Library.LittleEndian

/-!
# Computations that can fail or panic

An error is an answer like any other; a panic is none. A computation is safe for a postcondition if
it does not panic, and what it returns, if it returns something, meets the postcondition. The rules
follow the structure of the code: a sequence, a loop over a list, a choice.

The numbers are those of a machine of 64 bits, as natural numbers: an operation that could leave
their range says what becomes of it.

## Main definitions

- `Result`, `Safe` — computations, and what is required of them
- `add`, `mul`, `checkedAdd`, `checkedMul`, `saturatingAdd` — arithmetic
- `index` — an element of a slice

## Main results

- `Safe.bind`, `Safe.foldlM` — the rules
- `foldlM_returns` — a loop whose turns all return
- `bind_ok` — how a sequence returns
-/

namespace Checked

/-- What a computation ends with if not with a value -/
inductive Failure where
  | err (text : String)
  | panic
  deriving DecidableEq, Repr

abbrev Result (α : Type) := Except Failure α

section

variable {α β : Type}

/-- `Err(text)`, handed on by `?` -/
def fail (text : String) : Result α := .error (.err text)

def panicked : Result α := .error .panic

/-- There is no panic, and what is returned meets the postcondition. -/
def Safe (x : Result α) (post : α → Prop) : Prop :=
  match x with
  | .ok a => post a
  | .error (.err _) => True
  | .error .panic => False

instance (x : Result α) (post : α → Prop) [DecidablePred post] : Decidable (Safe x post) :=
  match x with
  | .ok a => inferInstanceAs (Decidable (post a))
  | .error (.err _) => inferInstanceAs (Decidable True)
  | .error .panic => inferInstanceAs (Decidable False)

variable {x : Result α} {f : α → Result β} {post : α → Prop} {post' : β → Prop}

@[simp] theorem safe_ok {a : α} : Safe (.ok a : Result α) post ↔ post a := Iff.rfl

@[simp] theorem safe_pure {a : α} : Safe (pure a : Result α) post ↔ post a := Iff.rfl

@[simp] theorem safe_fail {text : String} : Safe (fail text : Result α) post := trivial

theorem safe_iff : Safe x post ↔ x ≠ .error .panic ∧ ∀ a, x = .ok a → post a := by
  match x with
  | .ok a => simp
  | .error (.err text) => simp [Safe]
  | .error .panic => simp [Safe]

theorem Safe.ne_panic (h : Safe x post) : x ≠ .error .panic := (safe_iff.1 h).1

theorem Safe.of_ok (h : Safe x post) {a : α} (hx : x = .ok a) : post a := (safe_iff.1 h).2 a hx

theorem Safe.mono (h : Safe x post) {weaker : α → Prop} (hpost : ∀ a, post a → weaker a) :
    Safe x weaker :=
  safe_iff.2 ⟨h.ne_panic, fun a hx => hpost a (h.of_ok hx)⟩

/-- What is known of a value includes where it came from. -/
theorem Safe.and_eq (h : Safe x post) : Safe x fun a => post a ∧ x = .ok a :=
  safe_iff.2 ⟨h.ne_panic, fun _ hx => ⟨h.of_ok hx, hx⟩⟩

/-- **Sequence** -/
theorem Safe.bind (hx : Safe x post) (hf : ∀ a, post a → Safe (f a) post') :
    Safe (x >>= f) post' := by
  match x, hx with
  | .ok a, hx => exact hf a hx
  | .error (.err _), _ => trivial

theorem bind_ok {b : β} : x >>= f = .ok b ↔ ∃ a, x = .ok a ∧ f a = .ok b := by
  cases x with
  | error e => simp [Bind.bind, Except.bind]
  | ok a => simp [Bind.bind, Except.bind]

@[simp] theorem ok_bind {a : α} : (Except.ok a : Result α) >>= f = f a := rfl

@[simp] theorem ok_pure_bind {a : α} : (pure a : Result α) >>= f = f a := rfl

/-- **Loop over a list**, with an invariant that knows how far the loop is -/
theorem Safe.foldlM {step : β → α → Result β} {l : List α} (inv : List α → β → Prop)
    (hstep : ∀ done a rest, l = done ++ a :: rest → ∀ b, inv done b →
      Safe (step b a) (inv (done ++ [a])))
    {b : β} (hb : inv [] b) : Safe (l.foldlM step b) (inv l) := by
  suffices hrun : ∀ rest done b, l = done ++ rest → inv done b → Safe (rest.foldlM step b) (inv l) from
    hrun l [] b rfl hb
  intro rest
  induction rest with
  | nil =>
    intro done b hl hinv
    rw [List.append_nil] at hl
    exact hl ▸ hinv
  | cons a rest ih =>
    intro done b hl hinv
    rw [List.foldlM_cons]
    exact (hstep done a rest hl b hinv).bind fun b' hinv' => ih (done ++ [a]) b' (by simp [hl]) hinv'

/-- What a loop that returns keeps -/
theorem foldlM_ok {step : β → α → Result β} {l : List α} {I : β → Prop}
    (hstep : ∀ b, I b → ∀ a ∈ l, ∀ b', step b a = .ok b' → I b') {b b' : β} (hb : I b)
    (h : l.foldlM step b = .ok b') : I b' := by
  induction l generalizing b with
  | nil =>
    cases h
    exact hb
  | cons a l ih =>
    rw [List.foldlM_cons, bind_ok] at h
    obtain ⟨b₁, hfirst, hrest⟩ := h
    exact ih (fun b hb a ha => hstep b hb a (List.mem_cons_of_mem _ ha))
      (hstep b hb a List.mem_cons_self b₁ hfirst) hrest

/-- **Loop that returns**: every turn does, and keeps the invariant. -/
theorem foldlM_returns {step : β → α → Result β} (inv : List α → β → Prop) (good : α → Prop)
    (hstep : ∀ done a b, good a → inv done b → ∃ b', step b a = .ok b' ∧ inv (done ++ [a]) b')
    {l : List α} (hgood : ∀ a ∈ l, good a) {b : β} (hb : inv [] b) :
    ∃ b', l.foldlM step b = .ok b' ∧ inv l b' := by
  induction l using List.reverseRecOn with
  | nil => exact ⟨b, rfl, hb⟩
  | append_singleton l a ih =>
    obtain ⟨b₁, hrun, hinv⟩ := ih fun a ha => hgood a (List.mem_append_left _ ha)
    obtain ⟨b₂, hlast, hinv'⟩ := hstep l a b₁ (hgood a (by simp)) hinv
    refine ⟨b₂, ?_, hinv'⟩
    rw [List.foldlM_append, hrun, ok_bind, List.foldlM_cons, hlast]
    rfl

/-- **Loop over indices** that appends what it finds -/
theorem foldlM_range_append {step : List α → ℕ → Result (List α)} {found : List (List α)}
    (hstep : ∀ i (hi : i < found.length) acc, step acc i = .ok (acc ++ found[i])) (acc : List α) :
    (List.range found.length).foldlM step acc = .ok (acc ++ found.flatten) := by
  induction found using List.reverseRecOn with
  | nil => simp [pure, Except.pure]
  | append_singleton found l ih =>
    have hinit : ∀ i (hi : i < found.length) acc, step acc i = .ok (acc ++ found[i]) := by
      intro i hi acc
      rw [hstep i (by simp; omega), List.getElem_append_left hi]
    rw [List.length_append, List.length_singleton, List.range_succ, List.foldlM_append, ih hinit,
      ok_bind, List.foldlM_cons, hstep found.length (by simp)]
    simp [pure, Except.pure]

/-- A condition without which there is an error -/
def ensure (p : Prop) [Decidable p] (text : String) : Result Unit := if p then .ok () else fail text

theorem safe_ensure (p : Prop) [Decidable p] (text : String) : Safe (ensure p text) fun _ => p := by
  unfold ensure
  split
  · assumption
  · trivial

theorem ensure_eq {p : Prop} [Decidable p] (h : p) (text : String) : ensure p text = .ok () :=
  if_pos h

/-- `ok_or_else` -/
def okOr (x : Option α) (text : String) : Result α :=
  match x with
  | some a => .ok a
  | none => fail text

end

/-! ### Arithmetic -/

/-- A sum that must not overflow -/
def add (a b : ℕ) : Result ℕ := if a + b < 2 ^ 64 then .ok (a + b) else panicked

/-- A product that must not overflow -/
def mul (a b : ℕ) : Result ℕ := if a * b < 2 ^ 64 then .ok (a * b) else panicked

/-- A remainder, which there is not for `b = 0` -/
def rem (a b : ℕ) : Result ℕ := if b = 0 then panicked else .ok (a % b)

/-- `checked_add` -/
def checkedAdd (a b : ℕ) : Option ℕ := if a + b < 2 ^ 64 then some (a + b) else none

/-- `checked_mul` -/
def checkedMul (a b : ℕ) : Option ℕ := if a * b < 2 ^ 64 then some (a * b) else none

/-- `saturating_add` -/
def saturatingAdd (a b : ℕ) : ℕ := min (a + b) (2 ^ 64 - 1)

/-- `usize::try_from` -/
def toUsize (a : ℕ) (text : String) : Result ℕ := if a < 2 ^ 64 then .ok a else fail text

section

variable {a b : ℕ} {text : String}

theorem add_eq (h : a + b < 2 ^ 64) : add a b = .ok (a + b) := if_pos h

theorem safe_add (h : a + b < 2 ^ 64) : Safe (add a b) fun c => c = a + b := by
  rw [add_eq h]
  exact rfl

theorem mul_eq (h : a * b < 2 ^ 64) : mul a b = .ok (a * b) := if_pos h

theorem rem_eq (h : 0 < b) : rem a b = .ok (a % b) := if_neg (Nat.ne_of_gt h)

theorem okOr_checkedAdd_eq (h : a + b < 2 ^ 64) : okOr (checkedAdd a b) text = .ok (a + b) := by
  rw [checkedAdd, if_pos h]
  rfl

theorem okOr_checkedMul_eq (h : a * b < 2 ^ 64) : okOr (checkedMul a b) text = .ok (a * b) := by
  rw [checkedMul, if_pos h]
  rfl

theorem toUsize_eq (h : a < 2 ^ 64) : toUsize a text = .ok a := if_pos h

theorem safe_checkedAdd : Safe (okOr (checkedAdd a b) text) fun c => c = a + b := by
  unfold checkedAdd
  split
  · exact rfl
  · trivial

theorem safe_checkedMul : Safe (okOr (checkedMul a b) text) fun c => c = a * b := by
  unfold checkedMul
  split
  · exact rfl
  · trivial

theorem safe_toUsize : Safe (toUsize a text) fun c => c = a := by
  unfold toUsize
  split
  · exact rfl
  · trivial

end

/-! ### Slices -/

section

variable {α : Type}

/-- `slice[i]` -/
def index (l : List α) (i : ℕ) : Result α :=
  match l[i]? with
  | some a => .ok a
  | none => panicked

/-- `&slice[start..]` -/
def sliceFrom (l : List α) (start : ℕ) : Result (List α) :=
  if start ≤ l.length then .ok (l.drop start) else panicked

/-- `&slice[start..stop]` -/
def sliceOf (l : List α) (start stop : ℕ) : Result (List α) :=
  if start ≤ stop ∧ stop ≤ l.length then .ok ((l.take stop).drop start) else panicked

variable {l : List α} {i start stop : ℕ}

theorem index_eq (h : i < l.length) : index l i = .ok l[i] := by
  rw [index, List.getElem?_eq_getElem h]

theorem sliceFrom_eq (h : start ≤ l.length) : sliceFrom l start = .ok (l.drop start) := if_pos h

theorem sliceOf_eq (hle : start ≤ stop) (h : stop ≤ l.length) :
    sliceOf l start stop = .ok ((l.take stop).drop start) := if_pos ⟨hle, h⟩

/-- The first elements of a slice, one after the other -/
theorem mapM_index {n : ℕ} (h : n ≤ l.length) : (List.range n).mapM (index l) = .ok (l.take n) := by
  induction n with
  | zero => rfl
  | succ n ih =>
    rw [List.range_succ, List.mapM_append, ih (by omega), List.mapM_cons, index_eq (by omega),
      List.take_add_one, List.getElem?_eq_getElem (by omega)]
    rfl

end

end Checked
