import Zub1cg.Library.Words
import Zub1cg.Tooling.DocsTool

/-!
# Tables of one width

Whatever the rows of a table look like, they are brought to one width, and what was in them is still
there: cells are moved into other cells, with a space in between.

## Main definitions

- `HasWidth` — rows of one width
- `wordsOf` — the words of a table

## Main results

- `normalizeRow_keeps` — one turn of the loop
- `normalizeRows_of_hasWidth` — there is nothing to do for rows of one width
-/

namespace DocsTool

open Checked
open Scan (isWhitespace)
open Words (words content)

/-- All rows have this width. -/
def HasWidth (width : ℕ) (rows : List Row) : Prop := ∀ row ∈ rows, row.length = width

/-- The words of a table, each as often as it occurs -/
def wordsOf (rows : List Row) : Multiset Text := content isWhitespace rows.flatten

theorem wordsOf_append (front back : List Row) :
    wordsOf (front ++ back) = wordsOf front + wordsOf back := by
  rw [wordsOf, List.flatten_append]
  exact Words.content_append isWhitespace _ _

theorem wordsOf_singleton (row : Row) : wordsOf [row] = content isWhitespace row := by
  rw [wordsOf, List.flatten_singleton]

theorem words_join (row : Row) :
    Multiset.ofList (words isWhitespace (join [' '] row)) = content isWhitespace row :=
  congrArg Multiset.ofList (Words.words_join (c := ' ') (by decide) row)

theorem HasWidth.append {width : ℕ} {front back : List Row} (h : HasWidth width front)
    (h' : HasWidth width back) : HasWidth width (front ++ back) := by
  intro row hrow
  rcases List.mem_append.1 hrow with hrow | hrow
  · exact h row hrow
  · exact h' row hrow

/-! ### The width -/

/-- How many rows have this length -/
def frequency (rows : List Row) (n : ℕ) : ℕ := rows.countP fun row => row.length = n

theorem frequency_append_singleton (rows : List Row) (row : Row) (n : ℕ) :
    frequency (rows ++ [row]) n = frequency rows n + if row.length = n then 1 else 0 := by
  simp [frequency, List.countP_append, List.countP_singleton]

theorem frequency_pos {rows : List Row} {n : ℕ} :
    0 < frequency rows n ↔ ∃ row ∈ rows, row.length = n := by
  simp [frequency, List.countP_pos_iff]

/-- A length that is counted already is counted once more. -/
theorem mem_map_count {counts : List (ℕ × ℕ)} {k n c : ℕ} :
    (n, c) ∈ counts.map (fun (length, count) =>
      if length = k then (length, count + 1) else (length, count)) ↔
      if n = k then ∃ c', (k, c') ∈ counts ∧ c' + 1 = c else (n, c) ∈ counts := by
  rw [List.mem_map]
  constructor
  · rintro ⟨⟨n', c'⟩, hmem, heq⟩
    dsimp only at heq
    split_ifs at heq with hk <;> cases heq
    · rw [if_pos hk]
      exact ⟨c', hk ▸ hmem, rfl⟩
    · rwa [if_neg hk]
  · intro h
    split_ifs at h with hk
    · obtain ⟨c', hmem, rfl⟩ := h
      exact ⟨(k, c'), hmem, by rw [hk]; exact if_pos rfl⟩
    · exact ⟨(n, c), h, if_neg hk⟩

/-- The lengths from 3 on are counted. -/
theorem mem_countLengths {rows : List Row} {n c : ℕ} :
    (n, c) ∈ countLengths rows ↔ 3 ≤ n ∧ 0 < c ∧ frequency rows n = c := by
  induction rows using List.reverseRecOn generalizing n c with
  | nil =>
    have hzero : frequency [] n = 0 := rfl
    simp only [countLengths, List.foldl_nil, List.not_mem_nil, hzero, false_iff]
    omega
  | append_singleton rows row ih =>
    have hany : (countLengths rows).any (·.1 == row.length) = true ↔
        3 ≤ row.length ∧ 0 < frequency rows row.length := by
      simp only [List.any_eq_true, beq_iff_eq, Prod.exists]
      constructor
      · rintro ⟨n', c', hmem, rfl⟩
        obtain ⟨hlong, hpos, rfl⟩ := ih.1 hmem
        exact ⟨hlong, hpos⟩
      · rintro ⟨hlong, hpos⟩
        exact ⟨row.length, _, ih.2 ⟨hlong, hpos, rfl⟩, rfl⟩
    rw [countLengths, List.foldl_append, ← countLengths, List.foldl_cons, List.foldl_nil,
      frequency_append_singleton]
    split_ifs with hlong hcounted heq heq heq
    -- there were rows of this length before
    · subst heq
      rw [mem_map_count, if_pos rfl]
      constructor
      · rintro ⟨c', hmem, rfl⟩
        obtain ⟨-, -, hcount⟩ := ih.1 hmem
        exact ⟨hlong, by omega, by rw [hcount]⟩
      · rintro ⟨-, -, hcount⟩
        exact ⟨_, ih.2 ⟨hlong, (hany.1 hcounted).2, rfl⟩, hcount⟩
    · rw [mem_map_count, if_neg (Ne.symm heq), ih]
      rfl
    -- it is the first one
    · have hnone : frequency rows n = 0 := by
        by_contra hne
        exact hcounted (hany.2 ⟨hlong, heq ▸ Nat.pos_of_ne_zero hne⟩)
      rw [List.mem_append, ih, List.mem_singleton, Prod.mk.injEq]
      omega
    · rw [List.mem_append, ih, List.mem_singleton, Prod.mk.injEq]
      omega
    · rw [ih]
      omega
    · rw [ih]
      rfl

/-- The choice of the width: a length with the highest count so far -/
def leading (best : ℕ × ℕ) (counts : List (ℕ × ℕ)) : ℕ × ℕ :=
  counts.foldl (fun best (length, count) => if best.2 < count then (length, count) else best) best

/-- It is one of them, and no count is higher. -/
theorem leading_spec (best : ℕ × ℕ) (counts : List (ℕ × ℕ)) :
    leading best counts ∈ best :: counts ∧ ∀ p ∈ best :: counts, p.2 ≤ (leading best counts).2 := by
  induction counts generalizing best with
  | nil => simp [leading]
  | cons p counts ih =>
    obtain ⟨n, c⟩ := p
    have hstep : leading best ((n, c) :: counts) =
        leading (if best.2 < c then (n, c) else best) counts := rfl
    obtain ⟨hmem, hle⟩ := ih (if best.2 < c then (n, c) else best)
    rw [List.forall_mem_cons] at hle
    rw [hstep, List.forall_mem_cons, List.forall_mem_cons]
    split_ifs at hmem hle ⊢ with hmore
    · exact ⟨List.mem_cons_of_mem _ hmem, Nat.le_trans (Nat.le_of_lt hmore) hle.1, hle⟩
    · refine ⟨?_, hle.1, Nat.le_trans (Nat.le_of_not_lt hmore) hle.1, hle.2⟩
      rw [List.mem_cons, List.mem_cons]
      exact (List.mem_cons.1 hmem).imp_right Or.inr

theorem tableWidth_eq (rows : List Row) :
    tableWidth rows =
      if (leading (0, 0) (countLengths rows)).1 = 0 then (rows.map List.length).foldl max 0
      else (leading (0, 0) (countLengths rows)).1 := rfl

/-- **The width is the most frequent length** from 3 on, if there is one. -/
theorem tableWidth_of_long {rows : List Row} (h : ∃ row ∈ rows, 3 ≤ row.length) :
    3 ≤ tableWidth rows ∧ 0 < frequency rows (tableWidth rows) ∧
      ∀ n, 3 ≤ n → frequency rows n ≤ frequency rows (tableWidth rows) := by
  obtain ⟨row, hrow, hlong⟩ := h
  obtain ⟨hmem, hle⟩ := leading_spec (0, 0) (countLengths rows)
  have hcount : ∀ n, 3 ≤ n → frequency rows n ≤ (leading (0, 0) (countLengths rows)).2 := by
    intro n hn
    by_cases hzero : frequency rows n = 0
    · omega
    · exact hle (n, _) (List.mem_cons_of_mem _
        (mem_countLengths.2 ⟨hn, Nat.pos_of_ne_zero hzero, rfl⟩))
  have hpos : 0 < (leading (0, 0) (countLengths rows)).2 :=
    Nat.lt_of_lt_of_le (frequency_pos.2 ⟨row, hrow, rfl⟩) (hcount _ hlong)
  rcases List.mem_cons.1 hmem with heq | hmem
  · rw [heq] at hpos
    contradiction
  · obtain ⟨hwidth, -, hfreq⟩ : 3 ≤ (leading (0, 0) (countLengths rows)).1 ∧ _ ∧
        frequency rows (leading (0, 0) (countLengths rows)).1 = _ := mem_countLengths.1 hmem
    rw [tableWidth_eq, if_neg (by omega), hfreq]
    exact ⟨hwidth, hpos, hcount⟩

/-- Otherwise it is the largest length. -/
theorem tableWidth_of_short {rows : List Row} (h : ∀ row ∈ rows, row.length < 3) :
    tableWidth rows ∈ 0 :: rows.map List.length ∧ ∀ row ∈ rows, row.length ≤ tableWidth rows := by
  have hnone : countLengths rows = [] := by
    rw [List.eq_nil_iff_forall_not_mem]
    rintro ⟨n, c⟩ hmem
    obtain ⟨hlong, hpos, rfl⟩ := mem_countLengths.1 hmem
    obtain ⟨row, hrow, rfl⟩ := frequency_pos.1 hpos
    exact Nat.not_lt.2 hlong (h row hrow)
  -- without counts the choice stays at 0, and the maximum is taken instead
  have hfold : (0 :: rows.map List.length).max? = some ((rows.map List.length).foldl max 0) :=
    List.max?_cons'
  have hmax := List.max?_eq_some_iff.1 hfold
  rw [tableWidth_eq, hnone]
  refine ⟨hmax.1, fun row hrow => hmax.2 _ (List.mem_cons_of_mem _ ?_)⟩
  exact List.mem_map_of_mem hrow

/-- Where the width is 0 there are no cells. -/
theorem eq_nil_of_tableWidth {rows : List Row} (h : tableWidth rows = 0) {row : Row}
    (hrow : row ∈ rows) : row = [] := by
  by_cases hlong : ∃ row ∈ rows, 3 ≤ row.length
  · have hwidth := (tableWidth_of_long hlong).1
    omega
  · push Not at hlong
    have hle := (tableWidth_of_short hlong).2 row hrow
    exact List.eq_nil_of_length_eq_zero (by omega)

theorem tableWidth_of_hasWidth {width : ℕ} {rows : List Row} (h : HasWidth width rows)
    (hne : rows ≠ []) : tableWidth rows = width := by
  obtain ⟨row, hrow⟩ := List.exists_mem_of_ne_nil rows hne
  by_cases hlong : ∃ row ∈ rows, 3 ≤ row.length
  · obtain ⟨row', hrow', hwidth⟩ := frequency_pos.1 (tableWidth_of_long hlong).2.1
    rw [← hwidth, h row' hrow']
  · push Not at hlong
    obtain ⟨hmem, hle⟩ := tableWidth_of_short hlong
    have hrowle := hle row hrow
    rw [h row hrow] at hrowle
    rcases List.mem_cons.1 hmem with hzero | hmem
    · omega
    · obtain ⟨row', hrow', hwidth⟩ := List.mem_map.1 hmem
      rw [← hwidth, h row' hrow']

/-! ### One turn -/

theorem sub_eq {a b : ℕ} (h : b ≤ a) : sub a b = .ok (a - b) := if_pos h

variable (patterns : Patterns) {width : ℕ} {normalized : List Row} {row : Row}

/-- An empty cell has no words. -/
theorem content_insert (row : Row) :
    content isWhitespace (row.take 2 ++ [] :: row.drop 2) = content isWhitespace row := by
  rw [Words.content_append, Words.content_cons, Words.words_nil, Multiset.coe_nil, zero_add,
    ← Words.content_append, List.take_append_drop]

/-- A row stays as it is, or gets an empty cell. -/
theorem insertMissing_keeps (width : ℕ) (row : Row) :
    ∃ row', insertMissing patterns width row = .ok row' ∧
      content isWhitespace row' = content isWhitespace row ∧ (width = 0 → row' = row) := by
  unfold insertMissing
  split_ifs with h
  · rw [index_eq (by omega), ok_bind, index_eq (by omega), ok_bind]
    split_ifs with hdigits
    · exact ⟨_, rfl, content_insert row, by omega⟩
    · exact ⟨row, rfl, rfl, fun _ => rfl⟩
  · exact ⟨row, rfl, rfl, fun _ => rfl⟩

/-- The cell that a short row is added to is there. -/
theorem continueRow_eq {front : List Row} {last : Row} (hlast : last.length = width)
    (hshort : row.length < width) :
    ∃ target, ∃ h : target < last.length, continueRow patterns width (front ++ [last]) row =
      .ok (front ++ [last.set target (last[target] ++ ' ' :: join [' '] row)]) := by
  have hsub : sub width 1 = .ok (width - 1) := sub_eq (by omega)
  have hcell : index last (width - 1) = .ok last[width - 1] := index_eq (by omega)
  unfold continueRow
  split_ifs with hone
  · rw [index_eq (by omega), ok_bind]
    split_ifs
    · refine ⟨2, by omega, ?_⟩
      simp [index_eq (show 2 < last.length by omega)]
    · refine ⟨width - 1, by omega, ?_⟩
      simp [hsub, hcell]
  · refine ⟨width - 1, by omega, ?_⟩
    simp [hsub, hcell]

/-- A short row goes to the last one with all of its words. -/
theorem continueRow_keeps (hwidth : HasWidth width normalized) (hne : normalized ≠ [])
    (hshort : row.length < width) :
    ∃ next, continueRow patterns width normalized row = .ok next ∧ HasWidth width next ∧
      wordsOf next = wordsOf normalized + content isWhitespace row := by
  obtain ⟨front, last, rfl⟩ : ∃ front last, normalized = front ++ [last] :=
    ⟨_, _, (List.dropLast_concat_getLast hne).symm⟩
  have hlast : last.length = width := hwidth last (by simp)
  have hfront : HasWidth width front := fun row hrow => hwidth row (List.mem_append_left _ hrow)
  obtain ⟨target, htarget, hnext⟩ := @continueRow_eq patterns _ row front _ hlast hshort
  refine ⟨_, hnext, hfront.append fun row hrow => ?_, ?_⟩
  · rw [List.mem_singleton.1 hrow, List.length_set, hlast]
  · rw [wordsOf_append, wordsOf_append, wordsOf_singleton, wordsOf_singleton,
      Words.content_set (c := ' ') rfl htarget, words_join, add_assoc]

/-- The cells behind the last column go to the last column. -/
theorem content_joinTail (row : Row) (n : ℕ) :
    content isWhitespace (row.take n ++ [join [' '] (row.drop n)]) = content isWhitespace row := by
  rw [Words.content_append, Words.content_cons, words_join, Words.content_nil, add_zero,
    ← Words.content_append, List.take_append_drop]

theorem HasWidth.push {row : Row} (h : HasWidth width normalized) (hle : row.length ≤ width) :
    HasWidth width (normalized ++ [row.take width ++ List.replicate (width - row.length) []]) := by
  refine h.append fun row' hrow => ?_
  rw [List.mem_singleton.1 hrow, List.length_append, List.length_take, List.length_replicate]
  omega

/-- Empty cells have no words. -/
theorem wordsOf_push (normalized : List Row) {row : Row} (hle : row.length ≤ width) :
    wordsOf (normalized ++ [row.take width ++ List.replicate (width - row.length) []]) =
      wordsOf normalized + content isWhitespace row := by
  rw [wordsOf_append, wordsOf_singleton, Words.content_append, Words.content_replicate, add_zero,
    List.take_of_length_le hle]

/-- **One turn of the loop** does not panic; it keeps the width, and all of the words. -/
theorem normalizeRow_keeps (hwidth : HasWidth width normalized) (hzero : width = 0 → row = []) :
    ∃ next, normalizeRow patterns width normalized row = .ok next ∧ HasWidth width next ∧
      wordsOf next = wordsOf normalized + content isWhitespace row := by
  obtain ⟨row', hinsert, hwords, hsame⟩ := insertMissing_keeps patterns width row
  rw [normalizeRow, hinsert, ok_bind, ← hwords]
  split_ifs with hshort hlong
  · exact continueRow_keeps patterns hwidth hshort.2 hshort.1
  -- a width of 0 is that of a table without cells, where no row is too long
  · have hpos : 1 ≤ width := by
      by_contra hw
      rw [hsame (by omega), hzero (by omega)] at hlong
      contradiction
    have hle : (row'.take (width - 1) ++ [join [' '] (row'.drop (width - 1))]).length ≤ width := by
      rw [List.length_append, List.length_take, List.length_singleton]
      omega
    refine ⟨_, by rw [sub_eq hpos]; rfl, hwidth.push hle, ?_⟩
    rw [wordsOf_push _ hle, content_joinTail]
  · exact ⟨_, rfl, hwidth.push (by omega), wordsOf_push _ (by omega)⟩

/-- A row of this width is taken as it is. -/
theorem normalizeRow_of_length (hrow : row.length = width) :
    normalizeRow patterns width normalized row = .ok (normalized ++ [row]) := by
  have hinsert : insertMissing patterns width row = .ok row := if_neg (by omega)
  rw [normalizeRow, hinsert, ok_bind, if_neg (by omega), if_neg (by omega), ok_pure_bind]
  dsimp only
  rw [List.take_of_length_le (by omega), hrow, Nat.sub_self, List.replicate_zero, List.append_nil]
  rfl

/-! ### The loop -/

theorem normalizeRows_keeps (rows : List Row) :
    ∃ result, normalizeRows patterns rows = .ok result ∧ HasWidth (tableWidth rows) result ∧
      wordsOf result = wordsOf rows := by
  refine foldlM_returns
    (fun done normalized => HasWidth (tableWidth rows) normalized ∧
      wordsOf normalized = wordsOf done)
    (fun row => tableWidth rows = 0 → row = []) ?_ (fun row hrow h => eq_nil_of_tableWidth h hrow)
    ⟨fun row hrow => (nomatch hrow), rfl⟩
  rintro done row normalized hzero ⟨hwidth, hwords⟩
  obtain ⟨next, hnext, hwidth', hwords'⟩ := normalizeRow_keeps patterns hwidth hzero
  exact ⟨next, hnext, hwidth', by rw [hwords', hwords, wordsOf_append, wordsOf_singleton]⟩

/-- There is nothing to do for rows of one width. -/
theorem normalizeRows_of_hasWidth {rows : List Row} (h : HasWidth width rows) :
    normalizeRows patterns rows = .ok rows := by
  by_cases hne : rows = []
  · rw [hne]
    rfl
  -- the vote on the width is unanimous
  · have htable := tableWidth_of_hasWidth h hne
    obtain ⟨result, hresult, rfl⟩ : ∃ result, normalizeRows patterns rows = .ok result ∧
        result = rows :=
      foldlM_returns (fun done normalized => normalized = done)
        (fun row => row.length = tableWidth rows)
        (fun done row normalized hrow hdone =>
          ⟨_, normalizeRow_of_length patterns hrow, by rw [hdone]⟩)
        (fun row hrow => (h row hrow).trans htable.symm) rfl
    exact hresult

/-- **Nothing is lost** when a table is brought to one width. -/
theorem normalizeRows_lossless (rows : List Row) :
    ∃ result, normalizeRows patterns rows = .ok result ∧ HasWidth (tableWidth rows) result ∧
      normalizeRows patterns result = .ok result ∧ wordsOf result = wordsOf rows := by
  obtain ⟨result, hresult, hwidth, hwords⟩ := normalizeRows_keeps patterns rows
  exact ⟨result, hresult, hwidth, normalizeRows_of_hasWidth patterns hwidth, hwords⟩

end DocsTool
