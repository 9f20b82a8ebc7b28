import Mathlib.Data.List.Induction

/-!
# Consistent overhead byte stuffing

A byte string is cut into runs of nonzero bytes. A run of 254 bytes stands for itself, a
shorter one for itself and the zero byte behind it; the last run stands for itself in any
case. The encoding writes a code byte, one more than the run's length, in front of each
run, so it contains no zero byte. `Runs` is the cut kept up to date byte by byte, which is
what every streaming encoder maintains in one form or another.

## Main results

- `expand_runs` — the runs of a byte string stand for it
- `encode_ne_zero` — an encoding contains no zero byte
- `length_encode_le` — how long an encoding is
-/

namespace Cobs

/-- A run of nonzero bytes that one code byte can announce. -/
def IsRun (g : List UInt8) : Prop := (∀ b ∈ g, b ≠ 0) ∧ g.length ≤ 254

/-- The code byte in front of a run. -/
def code (g : List UInt8) : UInt8 := UInt8.ofNat (g.length + 1)

/-- What a run that is not the last one stands for. -/
def terminated (g : List UInt8) : List UInt8 := if g.length = 254 then g else g ++ [0]

/-- What a list of runs stands for. -/
def expand : List (List UInt8) → List UInt8
  | [] => []
  | [g] => g
  | g :: h :: gs => terminated g ++ expand (h :: gs)

/-- The encoding of a list of runs. -/
def pack (gs : List (List UInt8)) : List UInt8 := gs.flatMap fun g => code g :: g

/-- What follows a run's own bytes in what a list of runs stands for. -/
def after (g : List UInt8) : List (List UInt8) → List UInt8
  | [] => []
  | h :: gs => (if g.length = 254 then [] else [0]) ++ expand (h :: gs)

theorem expand_cons (g : List UInt8) (gs : List (List UInt8)) :
    expand (g :: gs) = g ++ after g gs := by
  cases gs with
  | nil => exact (List.append_nil g).symm
  | cons h gs =>
    rw [expand, after, terminated, ← List.append_assoc]
    split
    · rw [List.append_nil]
    · rfl

/-- What runs stand for, seen from one of them. -/
theorem expand_middle (front : List (List UInt8)) (g : List UInt8) (back : List (List UInt8)) :
    expand (front ++ g :: back) = front.flatMap terminated ++ (g ++ after g back) := by
  induction front with
  | nil => exact expand_cons g back
  | cons h front ih =>
    obtain ⟨h', rest, hne⟩ : ∃ h' rest, front ++ g :: back = h' :: rest := by
      cases front with
      | nil => exact ⟨g, back, rfl⟩
      | cons h' front => exact ⟨h', front ++ g :: back, rfl⟩
    rw [List.cons_append, hne, expand, ← hne, ih, List.flatMap_cons, List.append_assoc]

theorem expand_concat (gs : List (List UInt8)) (g : List UInt8) :
    expand (gs ++ [g]) = gs.flatMap terminated ++ g := by
  rw [expand_middle, after, List.append_nil]

/-- The length of a run as a byte. -/
def runLength (g : List UInt8) : UInt8 := UInt8.ofNat g.length

theorem runLength_eq_iff {g : List UInt8} (h : g.length ≤ 254) (n : UInt8) :
    runLength g = n ↔ g.length = n.toNat := by
  have hnat : (runLength g).toNat = g.length :=
    UInt8.toNat_ofNat_of_lt' (by simp only [UInt8.size]; omega)
  rw [← UInt8.toNat_inj, hnat]

/-- The lengths of runs as bytes tell the lengths of runs. -/
theorem map_length_eq {gs hs : List (List UInt8)} (hgs : ∀ g ∈ gs, IsRun g)
    (hhs : ∀ h ∈ hs, IsRun h) (heq : gs.map runLength = hs.map runLength) :
    gs.map List.length = hs.map List.length := by
  induction gs generalizing hs with
  | nil =>
    rw [List.map_nil, eq_comm, List.map_eq_nil_iff] at heq
    rw [heq]
  | cons g gs ih =>
    cases hs with
    | nil => contradiction
    | cons h hs =>
      obtain ⟨hhead, htail⟩ := List.cons.inj heq
      have hlength : (runLength h).toNat = h.length :=
        ((runLength_eq_iff (hhs h List.mem_cons_self).2 _).mp rfl).symm
      rw [List.map_cons, List.map_cons, ih (fun k hk => hgs k (List.mem_cons_of_mem _ hk))
        (fun k hk => hhs k (List.mem_cons_of_mem _ hk)) htail,
        (runLength_eq_iff (hgs g List.mem_cons_self).2 _).mp hhead, hlength]

/-- The lengths of runs tell the length of what they stand for. -/
theorem length_expand_eq {gs hs : List (List UInt8)}
    (h : gs.map List.length = hs.map List.length) : (expand gs).length = (expand hs).length := by
  induction gs generalizing hs with
  | nil =>
    rw [List.map_nil, eq_comm, List.map_eq_nil_iff] at h
    rw [h]
  | cons g gs ih =>
    cases hs with
    | nil => contradiction
    | cons k hs =>
      obtain ⟨hhead, htail⟩ := List.cons.inj h
      rw [expand_cons, expand_cons, List.length_append, List.length_append, hhead]
      cases gs with
      | nil =>
        cases hs with
        | nil => rfl
        | cons => contradiction
      | cons g' gs =>
        cases hs with
        | nil => contradiction
        | cons k' hs =>
          rw [after, after, List.length_append, List.length_append, hhead, ih htail]

theorem runLength_concat (g : List UInt8) (b : UInt8) :
    runLength (g ++ [b]) = runLength g + 1 := by
  rw [runLength, List.length_append, List.length_singleton, runLength, UInt8.ofNat_add]
  rfl

theorem runLength_cons (b : UInt8) (g : List UInt8) : runLength (b :: g) = runLength g + 1 := by
  rw [runLength, List.length_cons, runLength, UInt8.ofNat_add]
  rfl

theorem code_eq_runLength (g : List UInt8) : code g = runLength g + 1 := by
  rw [code, runLength, UInt8.ofNat_add]
  rfl

@[simp] theorem pack_nil : pack [] = [] := rfl

@[simp] theorem pack_cons (g : List UInt8) (gs : List (List UInt8)) :
    pack (g :: gs) = code g :: (g ++ pack gs) := rfl

theorem pack_append (gs hs : List (List UInt8)) : pack (gs ++ hs) = pack gs ++ pack hs :=
  List.flatMap_append

theorem code_toNat {g : List UInt8} (h : g.length ≤ 254) : (code g).toNat = g.length + 1 :=
  UInt8.toNat_ofNat_of_lt' (by simp only [UInt8.size]; omega)

theorem pack_ne_zero {gs : List (List UInt8)} (h : ∀ g ∈ gs, IsRun g) : ∀ b ∈ pack gs, b ≠ 0 := by
  intro b hb
  obtain ⟨g, hg, hb⟩ := List.mem_flatMap.mp hb
  obtain rfl | hb := List.mem_cons.mp hb
  · intro hzero
    have := code_toNat (h g hg).2
    rw [hzero] at this
    simp at this
  · exact (h g hg).1 b hb

/-! ### Cutting a byte string -/

/-- The runs of a byte string: the closed ones, and the one that is still growing. -/
@[ext]
structure Runs where
  closed : List (List UInt8)
  current : List UInt8
  closed_run : ∀ g ∈ closed, IsRun g
  current_ne_zero : ∀ b ∈ current, b ≠ 0
  current_short : current.length < 254

namespace Runs

theorem nil_ne_zero : ∀ b ∈ ([] : List UInt8), b ≠ 0 := fun _ hb => nomatch hb

theorem nil_short : ([] : List UInt8).length < 254 := Nat.zero_lt_succ 253

theorem nil_run : ∀ g ∈ ([] : List (List UInt8)), IsRun g := fun _ hg => nomatch hg

def empty : Runs where
  closed := []
  current := []
  closed_run := nil_run
  current_ne_zero := nil_ne_zero
  current_short := nil_short

theorem current_run (r : Runs) : IsRun r.current := ⟨r.current_ne_zero, Nat.le_of_lt r.current_short⟩

theorem closed_append (r : Runs) {g : List UInt8} (hg : IsRun g) :
    ∀ g' ∈ r.closed ++ [g], IsRun g' := by
  simp only [List.mem_append, List.mem_singleton]
  rintro g' (hg' | rfl)
  · exact r.closed_run g' hg'
  · exact hg

theorem append_ne_zero (r : Runs) {b : UInt8} (hb : b ≠ 0) : ∀ c ∈ r.current ++ [b], c ≠ 0 := by
  simp only [List.mem_append, List.mem_singleton]
  rintro c (hc | rfl)
  · exact r.current_ne_zero c hc
  · exact hb

theorem append_run (r : Runs) {b : UInt8} (hb : b ≠ 0) (hfull : r.current.length = 253) :
    IsRun (r.current ++ [b]) := by
  refine ⟨r.append_ne_zero hb, ?_⟩
  rw [List.length_append, List.length_singleton]
  omega

theorem append_short (r : Runs) {b : UInt8} (hfull : r.current.length ≠ 253) :
    (r.current ++ [b]).length < 254 := by
  have := r.current_short
  rw [List.length_append, List.length_singleton]
  omega

/-- A zero byte closes the current run, and so does the 254th nonzero one. -/
def push (r : Runs) (b : UInt8) : Runs :=
  if hb : b = 0 then
    { closed := r.closed ++ [r.current]
      current := []
      closed_run := r.closed_append r.current_run
      current_ne_zero := nil_ne_zero
      current_short := nil_short }
  else if hfull : r.current.length = 253 then
    { closed := r.closed ++ [r.current ++ [b]]
      current := []
      closed_run := r.closed_append (r.append_run hb hfull)
      current_ne_zero := nil_ne_zero
      current_short := nil_short }
  else
    { closed := r.closed
      current := r.current ++ [b]
      closed_run := r.closed_run
      current_ne_zero := r.append_ne_zero hb
      current_short := r.append_short hfull }

theorem push_zero (r : Runs) :
    (r.push 0).closed = r.closed ++ [r.current] ∧ (r.push 0).current = [] := by
  rw [push, dif_pos rfl]
  exact ⟨rfl, rfl⟩

theorem push_full {r : Runs} {b : UInt8} (hb : b ≠ 0) (hfull : r.current.length = 253) :
    (r.push b).closed = r.closed ++ [r.current ++ [b]] ∧ (r.push b).current = [] := by
  rw [push, dif_neg hb, dif_pos hfull]
  exact ⟨rfl, rfl⟩

theorem push_grow {r : Runs} {b : UInt8} (hb : b ≠ 0) (hfull : r.current.length ≠ 253) :
    (r.push b).closed = r.closed ∧ (r.push b).current = r.current ++ [b] := by
  rw [push, dif_neg hb, dif_neg hfull]
  exact ⟨rfl, rfl⟩

/-- All runs, the growing one last. -/
def all (r : Runs) : List (List UInt8) := r.closed ++ [r.current]

theorem all_run (r : Runs) : ∀ g ∈ r.all, IsRun g := by
  simp only [all, List.mem_append, List.mem_singleton]
  rintro g (hg | rfl)
  · exact r.closed_run g hg
  · exact r.current_run

/-- The cut stands for one byte more. -/
theorem expand_push (r : Runs) (b : UInt8) : expand (r.push b).all = expand r.all ++ [b] := by
  rw [all, all, expand_concat, expand_concat]
  by_cases hb : b = 0
  · subst hb
    obtain ⟨hclosed, hcurrent⟩ := r.push_zero
    have hshort : r.current.length ≠ 254 := Nat.ne_of_lt r.current_short
    rw [hclosed, hcurrent, List.flatMap_append, List.flatMap_singleton, terminated,
      if_neg hshort, List.append_nil, List.append_assoc]
  · by_cases hfull : r.current.length = 253
    · obtain ⟨hclosed, hcurrent⟩ := push_full hb hfull
      have hlong : (r.current ++ [b]).length = 254 := by simp [hfull]
      rw [hclosed, hcurrent, List.flatMap_append, List.flatMap_singleton, terminated,
        if_pos hlong, List.append_nil, List.append_assoc]
    · obtain ⟨hclosed, hcurrent⟩ := push_grow hb hfull
      rw [hclosed, hcurrent, List.append_assoc]

end Runs

/-- The runs of a byte string. -/
def runs (bytes : List UInt8) : Runs := bytes.foldl Runs.push Runs.empty

theorem runs_concat (bytes : List UInt8) (b : UInt8) : runs (bytes ++ [b]) = (runs bytes).push b := by
  rw [runs, List.foldl_append]
  rfl

/-- The encoding of a byte string. -/
def encode (bytes : List UInt8) : List UInt8 := pack (runs bytes).all

/-- The runs of a byte string stand for it. -/
theorem expand_runs (bytes : List UInt8) : expand (runs bytes).all = bytes := by
  induction bytes using List.reverseRecOn with
  | nil => rfl
  | append_singleton bytes b ih => rw [runs_concat, Runs.expand_push, ih]

/-- An encoding contains no zero byte. -/
theorem encode_ne_zero (bytes : List UInt8) : ∀ b ∈ encode bytes, b ≠ 0 :=
  pack_ne_zero (runs bytes).all_run

/-! ### How long an encoding is -/

/-- Each run costs a code byte, and one that a zero byte ends saves that byte. -/
theorem length_pack_concat (gs : List (List UInt8)) (g : List UInt8) :
    (pack (gs ++ [g])).length =
      (expand (gs ++ [g])).length + gs.countP (fun h => h.length = 254) + 1 := by
  rw [expand_concat, pack_append, List.length_append, List.length_append]
  induction gs with
  | nil => simp [pack]
  | cons h gs ih =>
    rw [List.countP_cons, pack_cons, List.flatMap_cons, terminated, List.length_append,
      List.length_cons, List.length_append]
    by_cases hfull : h.length = 254
    · simp only [hfull, if_true, decide_true]
      omega
    · simp only [hfull, if_false, decide_false, List.length_append, List.length_singleton]
      simp only [Bool.false_eq_true, if_false]
      omega

theorem full_le_length (gs : List (List UInt8)) (g : List UInt8) :
    254 * gs.countP (fun h => h.length = 254) ≤ (expand (gs ++ [g])).length := by
  rw [expand_concat, List.length_append]
  induction gs with
  | nil => simp
  | cons h gs ih =>
    rw [List.countP_cons, List.flatMap_cons, List.length_append, terminated]
    by_cases hfull : h.length = 254
    · simp only [hfull, if_true, decide_true]
      omega
    · simp only [hfull, if_false, decide_false, Bool.false_eq_true]
      omega

/-- An encoding is longer by a code byte and one more for each run of 254 bytes. -/
theorem length_encode_le (bytes : List UInt8) :
    (encode bytes).length ≤ bytes.length + bytes.length / 254 + 1 := by
  have hlength := length_pack_concat (runs bytes).closed (runs bytes).current
  have hfull := full_le_length (runs bytes).closed (runs bytes).current
  rw [← Runs.all, expand_runs] at hlength hfull
  rw [encode, hlength]
  omega

end Cobs
