import Mathlib.Data.List.Basic
import Mathlib.Data.List.Induction

/-!
# Items with an end-of-packet flag

Packets travel over a handshake as pairs of an item and a flag that is set on the last
item of its packet. `markLast` flags one packet; `Unfinished` and `Finished` say how far a
sequence of such pairs has got with its first packet; `completed` and `pending` cut a whole
sequence into its packets and the items after the last flag.
-/

namespace Packets

variable {α : Type*}

/-- A packet's items, the last one flagged. -/
def markLast : List α → List (α × Bool)
  | [] => []
  | a :: rest => (a, rest.isEmpty) :: markLast rest

/-- No item so far was the last one. -/
def Unfinished (items : List (α × Bool)) : Prop := ∀ x ∈ items, x.2 = false

/-- Exactly the last item is flagged. -/
def Finished (items : List (α × Bool)) : Prop :=
  ∃ body a, Unfinished body ∧ items = body ++ [(a, true)]

@[simp] theorem unfinished_nil : Unfinished ([] : List (α × Bool)) := by
  simp [Unfinished]

@[simp] theorem unfinished_append {xs ys : List (α × Bool)} :
    Unfinished (xs ++ ys) ↔ Unfinished xs ∧ Unfinished ys := by
  simp only [Unfinished, List.mem_append]
  exact ⟨fun h => ⟨fun x hx => h x (.inl hx), fun x hx => h x (.inr hx)⟩,
    fun h x hx => hx.elim (h.1 x) (h.2 x)⟩

@[simp] theorem unfinished_singleton {x : α × Bool} : Unfinished [x] ↔ x.2 = false := by
  simp [Unfinished]

theorem unfinished_map (items : List α) : Unfinished (items.map fun a => (a, false)) := by
  simp [Unfinished]

theorem Finished.not_unfinished {items : List (α × Bool)} (h : Finished items) :
    ¬ Unfinished items := by
  obtain ⟨body, a, -, rfl⟩ := h
  simp

/-- One more item: the flag decides whether the packet is finished by it. -/
theorem Unfinished.concat {items : List (α × Bool)} (h : Unfinished items) (a : α) (last : Bool) :
    if last then Finished (items ++ [(a, last)]) else Unfinished (items ++ [(a, last)]) := by
  cases last
  · simpa using h
  · exact ⟨items, a, h, rfl⟩

theorem markLast_map_fst (items : List α) : (markLast items).map Prod.fst = items := by
  induction items with
  | nil => rfl
  | cons a rest ih => rw [markLast, List.map_cons, ih]

theorem markLast_concat (items : List α) (a : α) :
    markLast (items ++ [a]) = items.map (fun b => (b, false)) ++ [(a, true)] := by
  induction items with
  | nil => rfl
  | cons b rest ih => simp [markLast, ih]

/-! ### Cutting a sequence into packets -/

/-- One more item behind the finished packets and the open one. -/
def push (c : List (List α) × List α) (x : α × Bool) : List (List α) × List α :=
  if x.2 then (c.1 ++ [c.2 ++ [x.1]], []) else (c.1, c.2 ++ [x.1])

def cut (items : List (α × Bool)) : List (List α) × List α := items.foldl push ([], [])

/-- The packets that have been finished. -/
def completed (items : List (α × Bool)) : List (List α) := (cut items).1

/-- The items behind the last flag. -/
def pending (items : List (α × Bool)) : List α := (cut items).2

@[simp] theorem completed_nil : completed ([] : List (α × Bool)) = [] := rfl

@[simp] theorem pending_nil : pending ([] : List (α × Bool)) = [] := rfl

theorem cut_concat (items : List (α × Bool)) (x : α × Bool) :
    cut (items ++ [x]) = push (cut items) x := by
  rw [cut, List.foldl_append]
  rfl

theorem completed_concat (items : List (α × Bool)) (a : α) (last : Bool) :
    completed (items ++ [(a, last)]) =
      if last then completed items ++ [pending items ++ [a]] else completed items := by
  rw [completed, cut_concat]
  cases last <;> rfl

/-- One more item among the finished packets that are selected. -/
theorem filter_completed_concat (keep : List α → Bool) (items : List (α × Bool)) (a : α)
    (last : Bool) :
    (completed (items ++ [(a, last)])).filter keep = (completed items).filter keep ++
      if last ∧ keep (pending items ++ [a]) then [pending items ++ [a]] else [] := by
  rw [completed_concat]
  cases last with
  | false => exact (List.append_nil _).symm
  | true =>
    rw [if_pos rfl, List.filter_append, List.filter_singleton]
    cases keep (pending items ++ [a]) <;> rfl

theorem pending_concat (items : List (α × Bool)) (a : α) (last : Bool) :
    pending (items ++ [(a, last)]) = if last then [] else pending items ++ [a] := by
  rw [pending, cut_concat]
  cases last <;> rfl

/-- No item is lost by cutting. -/
theorem flatten_completed (items : List (α × Bool)) :
    (completed items).flatten ++ pending items = items.map Prod.fst := by
  induction items using List.reverseRecOn with
  | nil => rfl
  | append_singleton items x ih =>
    obtain ⟨a, last⟩ := x
    rw [completed_concat, pending_concat, List.map_append, ← ih]
    cases last <;> simp

/-- A packet is finished by an item. -/
theorem completed_ne_nil {items : List (α × Bool)} {packet : List α}
    (h : packet ∈ completed items) : packet ≠ [] := by
  induction items using List.reverseRecOn with
  | nil => contradiction
  | append_singleton items x ih =>
    obtain ⟨a, last⟩ := x
    rw [completed_concat] at h
    cases last with
    | false => exact ih h
    | true =>
      obtain hold | hnew := List.mem_append.mp h
      · exact ih hold
      · rw [List.mem_singleton.mp hnew]
        exact List.append_ne_nil_of_right_ne_nil _ (List.cons_ne_nil _ _)

/-- More items leave the packets that are finished. -/
theorem completed_mono {items more : List (α × Bool)} (h : items <+: more) :
    completed items <+: completed more := by
  obtain ⟨rest, rfl⟩ := h
  induction rest using List.reverseRecOn with
  | nil => simp
  | append_singleton rest x ih =>
    obtain ⟨a, last⟩ := x
    rw [← List.append_assoc, completed_concat]
    cases last with
    | false => exact ih
    | true => exact ih.trans (List.prefix_append _ _)

theorem Unfinished.cut_append {body : List (α × Bool)} (h : Unfinished body)
    (items : List (α × Bool)) :
    completed (items ++ body) = completed items ∧
      pending (items ++ body) = pending items ++ body.map Prod.fst := by
  induction body generalizing items with
  | nil => simp
  | cons x body ih =>
    obtain ⟨a, last⟩ := x
    have hlast : last = false := h _ List.mem_cons_self
    subst hlast
    have hrest := ih (fun y hy => h y (List.mem_cons_of_mem _ hy)) (items ++ [(a, false)])
    rw [List.append_assoc, completed_concat, pending_concat] at hrest
    simpa using hrest

/-- A finished packet behind a sequence with nothing pending. -/
theorem Finished.cut_append {packet : List (α × Bool)} (h : Finished packet)
    {items : List (α × Bool)} (hitems : pending items = []) :
    completed (items ++ packet) = completed items ++ [packet.map Prod.fst] ∧
      pending (items ++ packet) = [] := by
  obtain ⟨body, a, hbody, rfl⟩ := h
  obtain ⟨hdone, hopen⟩ := hbody.cut_append items
  rw [← List.append_assoc, completed_concat, pending_concat, hdone, hopen, hitems]
  simp

theorem finished_markLast {items : List α} (h : items ≠ []) : Finished (markLast items) := by
  obtain ⟨front, a, rfl⟩ : ∃ front a, items = front ++ [a] :=
    ⟨items.dropLast, items.getLast h, (List.dropLast_append_getLast h).symm⟩
  exact ⟨_, a, unfinished_map front, markLast_concat front a⟩

/-! ### Packets of bounded length -/

theorem markLast_length (items : List α) : (markLast items).length = items.length := by
  rw [← List.length_map Prod.fst, markLast_map_fst]

/-- The end of a packet has its flag. -/
theorem countP_tail {items : List α} {front back : List (α × Bool)}
    (h : markLast items = front ++ back) (hback : back ≠ []) :
    0 < back.countP (·.2) := by
  have hne : items ≠ [] := by
    rintro rfl
    rw [markLast] at h
    exact hback (List.append_eq_nil_iff.mp h.symm).2
  obtain ⟨body, a, -, hitems⟩ := finished_markLast hne
  obtain ⟨middle, x, rfl⟩ : ∃ middle x, back = middle ++ [x] :=
    ⟨back.dropLast, back.getLast hback, (List.dropLast_append_getLast hback).symm⟩
  rw [hitems, ← List.append_assoc] at h
  have hx := List.singleton_injective (List.append_inj_right' h rfl)
  rw [List.countP_append, ← hx]
  exact Nat.succ_pos _

/-- Among packets of at most `bound` items, a stretch of items is no longer than the packets it
has a part of: one more than those whose end lies before its last item. -/
theorem segment_length {bound : ℕ} {packets : List (List α)} {front segment rest : List (α × Bool)}
    {x : α × Bool} (hbound : ∀ packet ∈ packets, packet.length ≤ bound)
    (h : packets.flatMap markLast = front ++ (segment ++ x :: rest)) :
    segment.length + 1 ≤ bound * (segment.countP (·.2) + 1) := by
  induction packets generalizing front segment with
  | nil =>
    have hnil := congrArg List.length h
    simp at hnil
  | cons packet packets ih =>
    rw [List.flatMap_cons] at h
    have hpacket := hbound packet List.mem_cons_self
    have hothers := fun other hother => hbound other (List.mem_cons_of_mem packet hother)
    rcases List.append_eq_append_iff.mp h with ⟨front', hfront, hlater⟩ | ⟨back, hback, hlater⟩
    · -- the stretch lies behind this packet
      exact ih hothers hlater
    · rw [← markLast_length, hback, List.length_append] at hpacket
      -- the stretch begins in this packet and goes on with `segment'` behind it
      have hover (segment' : List (α × Bool)) (hsegment : segment = back ++ segment')
          (hin : packets.flatMap markLast = segment' ++ x :: rest) :
          segment.length + 1 ≤ bound * (segment.countP (·.2) + 1) := by
        have hrest := @ih [] segment' hothers hin
        rw [hsegment, List.length_append, List.countP_append]
        rcases eq_or_ne back [] with hnil | hne
        · simpa [hnil] using hrest
        · have hend := countP_tail hback hne
          have hmul : bound * (segment'.countP (·.2) + 1) + bound ≤
              bound * (back.countP (·.2) + segment'.countP (·.2) + 1) := by
            rw [← Nat.mul_succ]
            exact Nat.mul_le_mul_left _ (by omega)
          omega
      rcases List.append_eq_append_iff.mp hlater with ⟨r, hr, hin⟩ | ⟨segment', hsegment, hin⟩
      · cases r with
        | nil =>
          rw [List.append_nil] at hr
          exact hover [] (by rw [hr, List.append_nil]) hin.symm
        | cons y r =>
          -- it lies in this packet
          have hmul := Nat.mul_le_mul_left bound (Nat.le_add_left 1 (segment.countP (·.2)))
          rw [hr, List.length_append, List.length_cons] at hpacket
          omega
      · exact hover segment' hsegment hin

end Packets
