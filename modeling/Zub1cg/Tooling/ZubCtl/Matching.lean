import Mathlib.Order.Bounds.Basic
import Zub1cg.Tooling.ZubCtl

/-!
# The verdict of the serial watch

Only the first pattern that remains is tried on a line, and a line is used for one pattern at most.
That is no loss: whenever the patterns can be matched to lines in order at all, this matches them,
and no later than any other choice of lines.

## Main definitions

- `Matched` — the patterns can be matched in order to lines up to some line
- `Fails` — a line that must not come
- `Explains` — what a verdict says about the lines

## Main results

- `watch_explains` — every verdict is right
- `watch_verdict` — and says which one it is
-/

namespace ZubCtl

/-- The lines with these numbers match the patterns, one after the other, and the numbers
increase. -/
def Assigned (patterns : List Regex) (lines : List (List Char)) (numbers : List ℕ) : Prop :=
  numbers.Pairwise (· < ·) ∧
    List.Forall₂ (fun pat n => ∃ line, lines[n]? = some line ∧ pat.isMatch line = true)
      patterns numbers

/-- The patterns, in order, can be matched to increasing lines up to line `t`. -/
def Matched (patterns : List Regex) (lines : List (List Char)) (t : ℕ) : Prop :=
  ∃ numbers, Assigned patterns lines numbers ∧ ∀ n ∈ numbers, n ≤ t

/-- Line `t` is one that must not come. -/
def Fails (failOn : List Regex) (lines : List (List Char)) (t : ℕ) : Prop :=
  ∃ line, lines[t]? = some line ∧ ∃ pat ∈ failOn, pat.isMatch line = true

/-! ### The first line -/

/-- Leaving the first line out, or putting one in front. -/
theorem assigned_succ (patterns : List Regex) (line : List Char) (lines : List (List Char))
    (numbers : List ℕ) :
    Assigned patterns (line :: lines) (numbers.map (· + 1)) ↔ Assigned patterns lines numbers := by
  simp [Assigned, List.pairwise_map, List.forall₂_map_right_iff]

/-- Numbers that are not zero are successors. -/
theorem exists_succ {numbers : List ℕ} (h : ∀ n ∈ numbers, 0 < n) :
    ∃ before : List ℕ, numbers = before.map (· + 1) := by
  refine ⟨numbers.map (· - 1), ?_⟩
  rw [List.map_map]
  refine (List.map_id numbers).symm.trans (List.map_congr_left fun n hn => ?_)
  have hpos := h n hn
  simp only [id, Function.comp_apply]
  omega

variable {pat : Regex} {rest : List Regex} {line : List Char} {lines : List (List Char)}

/-- A line that matches is used for the first pattern, and the others are left. -/
theorem matched_succ_of_match (h : pat.isMatch line = true) (t : ℕ) :
    Matched (pat :: rest) (line :: lines) (t + 1) ↔ Matched rest lines t := by
  constructor
  · rintro ⟨numbers, ⟨hsorted, hmatch⟩, hbound⟩
    cases hmatch with
    | @cons _ n _ numbers hfirst hothers =>
      rw [List.pairwise_cons] at hsorted
      -- whatever line was chosen for the first pattern, the others come after the first line
      obtain ⟨before, rfl⟩ := exists_succ fun m hm => Nat.zero_lt_of_lt (hsorted.1 m hm)
      refine ⟨before, (assigned_succ _ line _ _).mp ⟨hsorted.2, hothers⟩, fun m hm => ?_⟩
      exact Nat.le_of_succ_le_succ
        (hbound _ (List.mem_cons_of_mem _ (List.mem_map_of_mem (f := (· + 1)) hm)))
  · rintro ⟨numbers, hassigned, hbound⟩
    have hassigned' := (assigned_succ rest line lines numbers).mpr hassigned
    refine ⟨0 :: numbers.map (· + 1), ⟨?_, .cons ⟨line, rfl, h⟩ hassigned'.2⟩, ?_⟩
    · simp [hassigned'.1]
    · simpa using hbound

/-- A line that does not match is of no use. -/
theorem matched_succ_of_not_match (h : pat.isMatch line ≠ true) (t : ℕ) :
    Matched (pat :: rest) (line :: lines) (t + 1) ↔ Matched (pat :: rest) lines t := by
  constructor
  · rintro ⟨numbers, hassigned, hbound⟩
    have hpos : ∀ n ∈ numbers, 0 < n := by
      obtain ⟨hsorted, hmatch⟩ := hassigned
      cases hmatch with
      | @cons _ n _ numbers hfirst hothers =>
        rw [List.pairwise_cons] at hsorted
        have hn : 0 < n := by
          refine Nat.pos_of_ne_zero fun hzero => ?_
          subst hzero
          obtain ⟨_, hline, hmatched⟩ := hfirst
          cases hline
          exact h hmatched
        intro m hm
        obtain rfl | hm := List.mem_cons.mp hm
        · exact hn
        · exact Nat.lt_trans hn (hsorted.1 m hm)
    obtain ⟨before, rfl⟩ := exists_succ hpos
    refine ⟨before, (assigned_succ _ line _ _).mp hassigned, fun m hm => ?_⟩
    exact Nat.le_of_succ_le_succ (hbound _ (List.mem_map_of_mem (f := (· + 1)) hm))
  · rintro ⟨numbers, hassigned, hbound⟩
    refine ⟨numbers.map (· + 1), (assigned_succ _ line _ _).mpr hassigned, ?_⟩
    simpa using hbound

/-- The first line alone matches one pattern at most. -/
theorem matched_zero : Matched (pat :: rest) (line :: lines) 0 ↔
    pat.isMatch line = true ∧ rest = [] := by
  constructor
  · rintro ⟨numbers, ⟨hsorted, hmatch⟩, hbound⟩
    cases hmatch with
    | @cons _ n _ numbers hfirst hothers =>
      have hn : n = 0 := Nat.le_zero.mp (hbound n List.mem_cons_self)
      subst hn
      obtain ⟨_, hline, hmatched⟩ := hfirst
      cases hline
      refine ⟨hmatched, ?_⟩
      cases hothers with
      | nil => rfl
      | @cons _ m _ numbers _ _ =>
        have hm := hbound m (by simp)
        have hlt := (List.pairwise_cons.mp hsorted).1 m (by simp)
        omega
  · rintro ⟨h, rfl⟩
    exact ⟨[0], ⟨by simp, .cons ⟨line, rfl, h⟩ .nil⟩, by simp⟩

/-- Where line 0 settles nothing, the least line is one later. -/
theorem isLeast_succ {p q : ℕ → Prop} (hzero : ¬ p 0) (hsucc : ∀ t, p (t + 1) ↔ q t) {t : ℕ} :
    IsLeast {t | q t} t → IsLeast {t | p t} (t + 1) := by
  rintro ⟨hmem, hleast⟩
  refine ⟨(hsucc t).mpr hmem, fun u hu => ?_⟩
  cases u with
  | zero => exact absurd hu hzero
  | succ u => exact Nat.succ_le_succ (hleast ((hsucc u).mp hu))

/-! ### The verdict -/

/-- What a verdict says about the lines. -/
def Explains (remaining failOn : List Regex) (lines : List (List Char)) :
    Option (ℕ × LineResult) → Prop
  | some (t, .AllMatched) =>
    IsLeast {t | Matched remaining lines t} t ∧ ∀ u ≤ t, ¬ Fails failOn lines u
  | some (t, .FailOnHit text) =>
    (∃ line pat, lines[t]? = some line ∧
      (failOn.find? fun pat => pat.isMatch line) = some pat ∧ text = pat.asStr) ∧
      ∀ u < t, ¬ Fails failOn lines u ∧ ¬ Matched remaining lines u
  | some (_, .Continue) => False
  | none => ∀ u, ¬ Fails failOn lines u ∧ ¬ Matched remaining lines u

/-- Numbering the lines from one later on. -/
theorem watch_succ (failOn : List Regex) (index : ℕ) (remaining : List Regex)
    (lines : List (List Char)) :
    watch failOn (index + 1) remaining lines =
      (watch failOn index remaining lines).map fun v => (v.1 + 1, v.2) := by
  induction lines generalizing index remaining with
  | nil => rfl
  | cons line lines ih =>
    rw [watch, watch]
    split
    · exact ih _ _
    · rfl

/-- A line that settles nothing. -/
theorem explains_later {remaining remaining' failOn : List Regex}
    (hpass : ¬ Fails failOn (line :: lines) 0) (hzero : ¬ Matched remaining (line :: lines) 0)
    (hsucc : ∀ t, Matched remaining (line :: lines) (t + 1) ↔ Matched remaining' lines t)
    {v : Option (ℕ × LineResult)} (h : Explains remaining' failOn lines v) :
    Explains remaining failOn (line :: lines) (v.map fun v => (v.1 + 1, v.2)) := by
  have hnot {t : ℕ} (h : ∀ u < t, ¬ Fails failOn lines u ∧ ¬ Matched remaining' lines u) :
      ∀ u < t + 1, ¬ Fails failOn (line :: lines) u ∧ ¬ Matched remaining (line :: lines) u := by
    intro u hu
    cases u with
    | zero => exact ⟨hpass, hzero⟩
    | succ u =>
      rw [hsucc]
      exact h u (Nat.lt_of_succ_lt_succ hu)
  match v, h with
  | some (t, .AllMatched), h =>
    refine ⟨isLeast_succ hzero hsucc h.1, fun u hu => ?_⟩
    cases u with
    | zero => exact hpass
    | succ u => exact h.2 u (Nat.le_of_succ_le_succ hu)
  | some (t, .FailOnHit text), h => exact ⟨h.1, hnot h.2⟩
  | none, h => exact fun u => hnot (fun u _ => h u) u (Nat.lt_succ_self u)

/-- **Every verdict is right.** -/
theorem watch_explains (failOn : List Regex) {remaining : List Regex} (hne : remaining ≠ [])
    (lines : List (List Char)) :
    Explains remaining failOn lines (watch failOn 0 remaining lines) := by
  induction lines generalizing remaining with
  | nil =>
    intro u
    constructor
    · rintro ⟨_, hline, -⟩
      cases hline
    · rintro ⟨numbers, ⟨-, hmatch⟩, -⟩
      cases hmatch with
      | nil => exact hne rfl
      | cons hfirst _ =>
        obtain ⟨_, hline, -⟩ := hfirst
        cases hline
  | cons line lines ih =>
    obtain ⟨pat, rest, rfl⟩ := List.exists_cons_of_ne_nil hne
    rw [watch, matchLine]
    cases hfind : failOn.find? fun pat => pat.isMatch line with
    | some bad =>
      -- this line ends the watch, and no line comes before it
      exact ⟨⟨line, bad, rfl, hfind, rfl⟩, fun u hu => absurd hu (Nat.not_lt_zero u)⟩
    | none =>
      have hpass : ¬ Fails failOn (line :: lines) 0 := by
        rintro ⟨_, hline, bad, hbad, hmatch⟩
        cases hline
        exact List.find?_eq_none.mp hfind bad hbad hmatch
      by_cases hmatch : pat.isMatch line = true
      · cases rest with
        | nil =>
          simp only [hmatch, if_true, List.isEmpty_nil]
          refine ⟨⟨matched_zero.mpr ⟨hmatch, rfl⟩, fun u _ => Nat.zero_le u⟩, fun u hu => ?_⟩
          rwa [Nat.le_zero.mp hu]
        | cons next rest =>
          simp only [hmatch, if_true, List.isEmpty_cons, Bool.false_eq_true, if_false]
          rw [watch_succ]
          refine explains_later hpass (fun h => ?_) (matched_succ_of_match hmatch)
            (ih (List.cons_ne_nil next rest))
          exact List.cons_ne_nil next rest (matched_zero.mp h).2
      · simp only [hmatch, Bool.false_eq_true, if_false]
        rw [watch_succ]
        exact explains_later hpass (fun h => hmatch (matched_zero.mp h).1)
          (matched_succ_of_not_match hmatch) (ih hne)

/-- **The verdict of the watch.** All patterns are reported as matched at line `t` if and only if
`t` is the first line up to which they can be matched in order at all, and no line up to it is one
that must not come. Otherwise the first such line is reported, with the first pattern that it
matches; and without one there is no verdict. -/
theorem watch_verdict {expected : List Regex} (hne : expected ≠ []) (failOn : List Regex)
    (lines : List (List Char)) :
    (∀ t, watch failOn 0 expected lines = some (t, .AllMatched) ↔
      IsLeast {t | Matched expected lines t} t ∧ ∀ u ≤ t, ¬ Fails failOn lines u) ∧
    ((∀ t, watch failOn 0 expected lines ≠ some (t, .AllMatched)) →
      (∀ t, IsLeast {t | Fails failOn lines t} t →
        ∃ line pat, lines[t]? = some line ∧
          (failOn.find? fun pat => pat.isMatch line) = some pat ∧
          watch failOn 0 expected lines = some (t, .FailOnHit pat.asStr)) ∧
      ((∀ t, ¬ Fails failOn lines t) → watch failOn 0 expected lines = none)) := by
  have h := watch_explains failOn hne lines
  generalize watch failOn 0 expected lines = v at h
  match v, h with
  | some (t, .AllMatched), h =>
    refine ⟨fun u => ⟨fun heq => ?_, fun hu => ?_⟩, fun hnone => absurd rfl (hnone t)⟩
    · cases heq
      exact h
    · rw [h.1.unique hu.1]
  | some (t, .FailOnHit text), ⟨⟨line, pat, hline, hfind, htext⟩, hbefore⟩ =>
    have hfails : Fails failOn lines t :=
      ⟨line, hline, pat, List.mem_of_find?_eq_some hfind, by simpa using List.find?_some hfind⟩
    refine ⟨fun u => ⟨fun heq => (nomatch heq), fun hu => ?_⟩, fun _ => ⟨fun u hu => ?_, ?_⟩⟩
    · obtain hlt | hge := Nat.lt_or_ge u t
      · exact absurd hu.1.1 (hbefore u hlt).2
      · exact absurd hfails (hu.2 t hge)
    · have hut : u = t := by
        obtain hlt | hge := Nat.lt_or_ge u t
        · exact absurd hu.1 (hbefore u hlt).1
        · exact Nat.le_antisymm (hu.2 hfails) hge
      subst hut
      exact ⟨line, pat, hline, hfind, by rw [htext]⟩
    · intro hnone
      exact absurd hfails (hnone t)
  | none, h =>
    exact ⟨fun u => ⟨fun heq => (nomatch heq), fun hu => absurd hu.1.1 (h u).2⟩,
      fun _ => ⟨fun u hu => absurd hu.1 (h u).1, fun _ => rfl⟩⟩

/-- The pattern of one text. -/
def exactly (text : List Char) : Regex := ⟨text, (· == text)⟩

theorem exactly_iff {text : List Char} {line : Option (List Char)} :
    (∃ found, line = some found ∧ (exactly text).isMatch found = true) ↔ line = some text := by
  constructor
  · rintro ⟨found, rfl, hmatch⟩
    rw [beq_iff_eq.mp hmatch]
  · intro h
    exact ⟨text, h, beq_self_eq_true text⟩

theorem matched_exactly {first second : List Char} {lines : List (List Char)} {t : ℕ} :
    Matched [exactly first, exactly second] lines t ↔
      ∃ a b, a < b ∧ b ≤ t ∧ lines[a]? = some first ∧ lines[b]? = some second := by
  constructor
  · rintro ⟨numbers, ⟨hsorted, hlines⟩, hle⟩
    obtain ⟨a, rest, ha, hrest, rfl⟩ := List.forall₂_cons_left_iff.mp hlines
    obtain ⟨b, none, hb, -, rfl⟩ := List.forall₂_cons_left_iff.mp hrest
    exact ⟨a, b, List.rel_of_pairwise_cons hsorted List.mem_cons_self,
      hle b (List.mem_cons_of_mem _ List.mem_cons_self), exactly_iff.mp ha, exactly_iff.mp hb⟩
  · rintro ⟨a, b, hab, hbt, ha, hb⟩
    refine ⟨[a, b], ⟨List.pairwise_pair.mpr hab,
      .cons (exactly_iff.mpr ha) (.cons (exactly_iff.mpr hb) .nil)⟩, fun n hn => ?_⟩
    simp only [List.mem_cons, List.not_mem_nil, or_false] at hn
    omega

theorem fails_exactly {text : List Char} {lines : List (List Char)} {t : ℕ} :
    Fails [exactly text] lines t ↔ lines[t]? = some text := by
  simp only [Fails, List.mem_singleton, exists_eq_left, exactly_iff]

/-- The second pattern counts behind the first one only; and a line that must not come comes before
the rest of the patterns, or after all of them. -/
theorem watch_verdict_ordered :
    let expected := [exactly ['u', 'p'], exactly ['o', 'k']]
    let failOn := [exactly ['n', 'o']]
    watch failOn 0 expected [['o', 'k'], ['u', 'p'], [], ['o', 'k'], ['n', 'o']] =
        some (3, .AllMatched) ∧
      watch failOn 0 expected [['u', 'p'], ['n', 'o'], ['o', 'k']] =
        some (1, .FailOnHit ['n', 'o']) := by
  intro expected failOn
  have hne : expected ≠ [] := List.cons_ne_nil _ _
  constructor
  · refine ((watch_verdict hne failOn _).1 3).mpr ⟨⟨?_, fun t ht => ?_⟩, fun u hu hfails => ?_⟩
    · exact matched_exactly.mpr ⟨1, 3, by decide, le_rfl, rfl, rfl⟩
    · obtain ⟨a, b, hab, hbt, ha, hb⟩ := matched_exactly.mp ht
      by_contra hlt
      have hb' : b < 3 := by omega
      -- below line 3 the second text is line 0 only
      interval_cases b
      · omega
      · exact absurd hb (by decide)
      · exact absurd hb (by decide)
    · have hline := fails_exactly.mp hfails
      interval_cases u <;> exact absurd hline (by decide)
  · obtain ⟨hall, hother⟩ := watch_verdict hne failOn [['u', 'p'], ['n', 'o'], ['o', 'k']]
    have hfails : Fails failOn [['u', 'p'], ['n', 'o'], ['o', 'k']] 1 := fails_exactly.mpr rfl
    have hleast : IsLeast {t | Fails failOn [['u', 'p'], ['n', 'o'], ['o', 'k']] t} 1 := by
      refine ⟨hfails, fun t ht => Nat.pos_of_ne_zero ?_⟩
      rintro rfl
      exact absurd (fails_exactly.mp ht) (by decide)
    have hnot (t : ℕ) : watch failOn 0 expected [['u', 'p'], ['n', 'o'], ['o', 'k']] ≠
        some (t, .AllMatched) := by
      intro heq
      obtain ⟨⟨hmatched, -⟩, hnone⟩ := (hall t).mp heq
      obtain ⟨a, b, hab, hbt, -⟩ := matched_exactly.mp hmatched
      exact hnone 1 (by omega) hfails
    obtain ⟨line, pat, -, hfind, hwatch⟩ := (hother hnot).1 1 hleast
    obtain rfl := List.mem_singleton.mp (List.mem_of_find?_eq_some hfind)
    exact hwatch

end ZubCtl
