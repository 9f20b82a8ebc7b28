import Zub1cg.Rtl.AxisPacker.Transparency

/-!
# How long a transfer is

When the frames that are taken have at most `bound` bytes, the beats of one transfer have at most
`bound * FRAMES_PER_TRANSFER` bytes between them.

## Main definitions

- `marksFrom` — the ends of the transfers, found going from byte to byte

## Main results

- `frames_unmarked` — few frames end where no transfer does
- `Packed.transfer_length` — how long a transfer is
-/

namespace AxisPacker

variable {framesPerTransfer : ℕ}

/-- The ends of the transfers in `items`, if `count` frames have ended before them. -/
def marksFrom (framesPerTransfer : ℕ) : ℕ → List Item → List Item
  | _, [] => []
  | count, item :: items =>
    (item.1, item.2 && decide (framesPerTransfer ∣ count + frames [item])) ::
      marksFrom framesPerTransfer (count + frames [item]) items

theorem frames_append (items more : List Item) :
    frames (items ++ more) = frames items + frames more := List.countP_append

theorem marksFrom_append (count : ℕ) (items more : List Item) :
    marksFrom framesPerTransfer count (items ++ more) =
      marksFrom framesPerTransfer count items ++
        marksFrom framesPerTransfer (count + frames items) more := by
  induction items generalizing count with
  | nil => rfl
  | cons item items ih =>
    have hframes : frames (item :: items) = frames [item] + frames items :=
      frames_append [item] items
    rw [List.cons_append, marksFrom, marksFrom, ih, List.cons_append, hframes, Nat.add_assoc]

theorem marksFrom_length (count : ℕ) (items : List Item) :
    (marksFrom framesPerTransfer count items).length = items.length := by
  induction items generalizing count with
  | nil => rfl
  | cons item items ih => rw [marksFrom, List.length_cons, ih, List.length_cons]

theorem marked_eq_marksFrom (items : List Item) :
    marked framesPerTransfer items = marksFrom framesPerTransfer 0 items := by
  induction items using List.reverseRecOn with
  | nil => rfl
  | append_singleton items item ih =>
    rw [marked_concat, ih, marksFrom_append, frames_append, Nat.zero_add]
    rfl

/-- Marks that are cut in two are those of items that are cut in two. -/
theorem marksFrom_eq_append {count : ℕ} {items front back : List Item}
    (h : marksFrom framesPerTransfer count items = front ++ back) :
    ∃ items₁ items₂, items = items₁ ++ items₂ ∧
      marksFrom framesPerTransfer count items₁ = front ∧
      marksFrom framesPerTransfer (count + frames items₁) items₂ = back := by
  have hlength := congrArg List.length h
  rw [marksFrom_length, List.length_append] at hlength
  refine ⟨items.take front.length, items.drop front.length, (List.take_append_drop _ _).symm, ?_⟩
  rw [← List.take_append_drop front.length items, marksFrom_append] at h
  exact List.append_inj h (by rw [marksFrom_length, List.length_take]; omega)

/-- Where no transfer ends there are fewer frames than a transfer has. -/
theorem frames_unmarked (hframes : 0 < framesPerTransfer) {count : ℕ} {items : List Item}
    (h : ∀ mark ∈ marksFrom framesPerTransfer count items, mark.2 = false) :
    count % framesPerTransfer + frames items < framesPerTransfer := by
  induction items generalizing count with
  | nil => exact Nat.mod_lt _ hframes
  | cons item items ih =>
    have hsplit : frames (item :: items) = frames [item] + frames items :=
      frames_append [item] items
    have hmark := h _ List.mem_cons_self
    have hrest := ih fun mark hmem => h mark (List.mem_cons_of_mem _ hmem)
    rw [hsplit]
    cases hlast : item.2 with
    | false =>
      have hnone : frames [item] = 0 := by simp [frames, hlast]
      rw [hnone] at hrest ⊢
      rw [Nat.zero_add]
      exact hrest
    | true =>
      have hone : frames [item] = 1 := by simp [frames, hlast]
      rw [hone] at hrest hmark ⊢
      rw [hlast, Bool.true_and, decide_eq_false_iff_not, Nat.dvd_iff_mod_eq_zero,
        succ_mod_eq hframes] at hmark
      rw [succ_mod_eq hframes] at hrest
      split_ifs at hmark hrest
      · exact absurd rfl hmark
      · omega

/-! ### The bytes of a transfer -/

theorem Beat.marked_length (beat : Beat) : beat.marked.length = beat.bytes.length := by
  rw [← beat.marked_bytes, List.length_map]

theorem flatMap_marked_length (beats : List Beat) :
    (beats.flatMap Beat.marked).length = (beats.flatMap Beat.bytes).length := by
  rw [List.length_flatMap, List.length_flatMap]
  exact congrArg List.sum (List.map_congr_left fun beat _ => beat.marked_length)

/-- A beat without `last` has no mark. -/
theorem Beat.unmarked {beat : Beat} (h : beat.last = false) :
    ∀ mark ∈ beat.marked, mark.2 = false := by
  rw [Beat.marked, h]
  intro mark hmem
  rw [List.mem_append, List.mem_map, List.mem_map] at hmem
  obtain ⟨byte, -, rfl⟩ | ⟨byte, -, rfl⟩ := hmem <;> rfl

/-- The bytes of a beat before its last one have no mark. -/
theorem Beat.unmarked_front {beat : Beat} {front : List Item} {mark : Item}
    (h : beat.marked = front ++ [mark]) : ∀ other ∈ front, other.2 = false := by
  rcases List.eq_nil_or_concat' beat.bytes with hnil | ⟨bytes, byte, hbytes⟩
  · have hlength := congrArg List.length h
    rw [beat.marked_length, hnil] at hlength
    simp at hlength
  · rw [Beat.marked_concat hbytes] at h
    rw [← List.append_inj_left' h rfl]
    intro other hmem
    obtain ⟨byte, -, rfl⟩ := List.mem_map.mp hmem
    rfl

/-- The bytes of a transfer before its last one have no mark. -/
theorem transfer_front {transfer : List Beat} {front : List Item} {mark : Item}
    (hinner : ∀ beat ∈ transfer.dropLast, beat.last = false)
    (h : transfer.flatMap Beat.marked = front ++ [mark]) : ∀ other ∈ front, other.2 = false := by
  induction transfer using List.reverseRecOn with
  | nil =>
    have hlength := congrArg List.length h
    simp at hlength
  | append_singleton inner beat _ =>
    rw [List.dropLast_concat] at hinner
    rw [List.flatMap_append, List.flatMap_singleton] at h
    have hunmarked : ∀ other ∈ inner.flatMap Beat.marked, other.2 = false := by
      intro other hmem
      obtain ⟨beat, hbeat, hother⟩ := List.mem_flatMap.mp hmem
      exact Beat.unmarked (hinner beat hbeat) other hother
    rcases List.append_eq_append_iff.mp h with ⟨back, hfront, hback⟩ | ⟨back, hback, hmark⟩
    · rw [hfront]
      intro other hmem
      obtain hmem | hmem := List.mem_append.mp hmem
      · exact hunmarked other hmem
      · exact Beat.unmarked_front hback other hmem
    · intro other hmem
      exact hunmarked other (by rw [hback]; exact List.mem_append_left _ hmem)

/-- **How long a transfer is**, when a stretch of the items that are taken is no longer than the
frames it has a part of. -/
theorem Packed.transfer_length {items : List Item} {beats before transfer rest : List Beat}
    {pending : List UInt8} {s : State} {bound : ℕ}
    (h : Packed framesPerTransfer items beats pending s) (hframes : 0 < framesPerTransfer)
    (hbound : ∀ front segment x back, items = front ++ (segment ++ x :: back) →
      segment.length + 1 ≤ bound * (frames segment + 1))
    (hbeats : beats = before ++ transfer ++ rest)
    (hinner : ∀ beat ∈ transfer.dropLast, beat.last = false) :
    (transfer.flatMap Beat.bytes).length ≤ bound * framesPerTransfer := by
  rw [← flatMap_marked_length]
  rcases List.eq_nil_or_concat' (transfer.flatMap Beat.marked) with hnil | ⟨front, mark, hmarks⟩
  · rw [hnil]
    exact Nat.zero_le _
  · have hcontent := h.content
    rw [marked_eq_marksFrom, hbeats, List.flatMap_append, List.flatMap_append, List.flatMap_append,
      hmarks] at hcontent
    simp only [List.append_assoc] at hcontent
    obtain ⟨items₁, items₂, hitems, -, hcontent⟩ := marksFrom_eq_append hcontent
    obtain ⟨segment, items₃, hitems₂, hsegment, hcontent⟩ := marksFrom_eq_append hcontent
    obtain ⟨last, items₄, hitems₃, hlast, -⟩ := marksFrom_eq_append hcontent
    obtain ⟨x, rfl⟩ : ∃ x, last = [x] := by
      have hone := congrArg List.length hlast
      rw [marksFrom_length] at hone
      exact List.length_eq_one_iff.mp hone
    have hfew := frames_unmarked hframes (hsegment ▸ transfer_front hinner hmarks)
    have hlength := hbound items₁ segment x items₄
      (by rw [hitems, hitems₂, hitems₃]; rfl)
    rw [hmarks, List.length_append, List.length_singleton, ← hsegment, marksFrom_length]
    exact hlength.trans (Nat.mul_le_mul_left _ (by omega))

end AxisPacker
