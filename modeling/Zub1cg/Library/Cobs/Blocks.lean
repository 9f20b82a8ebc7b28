import Zub1cg.Library.Cobs

/-!
# The blocks of a stuffed byte string

A block is a code byte with the bytes it announces. A string without zero bytes is either a
sequence of whole blocks, and then it is the encoding of a list of runs, or some code byte points
past its end. The runs that are found in what a list of runs stands for are these runs again,
except that a run of 254 bytes at the end has an empty one behind it.

## Main definitions

- `CodeAt` — where the code bytes stand

## Main results

- `exists_pack_or_overrun` — whole blocks, or a code byte that points past the end
- `encode_expand` — stuffing again what a list of runs stands for
- `exists_pack_set` — a byte that is not a code byte is replaced inside one run
-/

namespace Cobs

/-- A code byte of `w` stands at this position: the first byte, or the byte that another code
byte points to. -/
inductive CodeAt (w : List UInt8) : ℕ → Prop
  | first (nonempty : w ≠ []) : CodeAt w 0
  | next {p : ℕ} {c : UInt8} (code : CodeAt w p) (here : w[p]? = some c)
      (inside : p + c.toNat < w.length) : CodeAt w (p + c.toNat)

/-- The code bytes behind the first block. -/
theorem CodeAt.behind {c : UInt8} {g rest : List UInt8} (hc : c.toNat = g.length + 1) {p : ℕ}
    (h : CodeAt rest p) : CodeAt (c :: (g ++ rest)) (p + c.toNat) := by
  induction h with
  | first nonempty =>
    have hpos := List.length_pos_iff.mpr nonempty
    rw [Nat.zero_add]
    have hinside : 0 + c.toNat < (c :: (g ++ rest)).length := by
      rw [List.length_cons, List.length_append]
      omega
    simpa using CodeAt.next (.first (List.cons_ne_nil _ _)) rfl hinside
  | @next p d code here inside ih =>
    have hthere : (c :: (g ++ rest))[p + c.toNat]? = some d := by
      rw [hc, ← Nat.add_assoc, List.getElem?_cons_succ,
        List.getElem?_append_right (Nat.le_add_left _ _), Nat.add_sub_cancel, here]
    have hinside : p + c.toNat + d.toNat < (c :: (g ++ rest)).length := by
      rw [List.length_cons, List.length_append]
      omega
    rw [Nat.add_right_comm]
    exact .next ih hthere hinside

/-- The code bytes of whole blocks stand in front of the runs. -/
theorem codeAt_pack {gs : List (List UInt8)} (hshort : ∀ g ∈ gs, g.length ≤ 254) {p : ℕ}
    (h : CodeAt (pack gs) p) :
    ∃ front g back, gs = front ++ g :: back ∧ p = (pack front).length := by
  induction h with
  | first nonempty =>
    cases gs with
    | nil => exact absurd rfl nonempty
    | cons g gs => exact ⟨[], g, gs, rfl, rfl⟩
  | @next p c code here inside ih =>
    obtain ⟨front, g, back, rfl, rfl⟩ := ih
    have hg := hshort g (List.mem_append_right _ List.mem_cons_self)
    have hcode : c = Cobs.code g := by
      rw [pack_append, List.getElem?_append_right (Nat.le_refl _), Nat.sub_self, pack_cons,
        List.getElem?_cons_zero, Option.some.injEq] at here
      exact here.symm
    rw [hcode, code_toNat hg] at inside ⊢
    cases back with
    | nil =>
      simp [pack_append] at inside
    | cons h back =>
      refine ⟨front ++ [g], h, back, (List.append_assoc _ [g] _).symm, ?_⟩
      simp [pack_append]

/-- In front of each run of whole blocks stands its code byte. -/
theorem codeAt_front {front : List (List UInt8)} (hshort : ∀ g ∈ front, g.length ≤ 254)
    (g : List UInt8) (back : List (List UInt8)) :
    CodeAt (pack (front ++ g :: back)) (pack front).length := by
  induction front with
  | nil => exact .first (List.cons_ne_nil _ _)
  | cons h front ih =>
    have hcode : (code h).toNat = h.length + 1 := code_toNat (hshort h List.mem_cons_self)
    have hrest := (ih fun k hk => hshort k (List.mem_cons_of_mem _ hk)).behind (g := h) hcode
    rw [hcode] at hrest
    rw [List.cons_append, pack_cons, pack_cons, List.length_cons, List.length_append]
    convert hrest using 1
    omega

/-- No code byte of whole blocks points past their end. -/
theorem pack_inside {gs : List (List UInt8)} (hshort : ∀ g ∈ gs, g.length ≤ 254) {p : ℕ}
    {c : UInt8} (h : CodeAt (pack gs) p) (hc : (pack gs)[p]? = some c) :
    p + c.toNat ≤ (pack gs).length := by
  obtain ⟨front, g, back, rfl, rfl⟩ := codeAt_pack hshort h
  have hg := hshort g (List.mem_append_right _ List.mem_cons_self)
  rw [pack_append, List.getElem?_append_right (Nat.le_refl _), Nat.sub_self, pack_cons,
    List.getElem?_cons_zero, Option.some.injEq] at hc
  rw [← hc, code_toNat hg, pack_append, pack_cons, List.length_append, List.length_cons,
    List.length_append]
  omega

/-- A string without zero bytes is a sequence of whole blocks, or a code byte of it points past its
end. -/
theorem exists_pack_or_overrun (w : List UInt8) (hw : ∀ b ∈ w, b ≠ 0) :
    (∃ gs, (∀ g ∈ gs, IsRun g) ∧ w = pack gs) ∨
      ∃ p c, CodeAt w p ∧ w[p]? = some c ∧ w.length < p + c.toNat := by
  induction hlength : w.length using Nat.strongRecOn generalizing w with
  | _ n ih =>
    cases w with
    | nil => exact .inl ⟨[], by simp, rfl⟩
    | cons c tail =>
      have hpos : c.toNat ≠ 0 := fun hzero =>
        hw c List.mem_cons_self (UInt8.toNat_inj.mp hzero)
      by_cases hfits : c.toNat - 1 ≤ tail.length
      · -- the first block is whole: the rest decides
        obtain ⟨g, rest, rfl, hg⟩ : ∃ g rest, tail = g ++ rest ∧ g.length = c.toNat - 1 :=
          ⟨_, _, (List.take_append_drop _ tail).symm, List.length_take_of_le hfits⟩
        have hbyte := c.toNat_lt
        have hcode : c.toNat = g.length + 1 := by omega
        have hrest : ∀ b ∈ rest, b ≠ 0 := fun b hb =>
          hw b (List.mem_cons_of_mem _ (List.mem_append_right _ hb))
        rw [List.length_cons, List.length_append] at hlength
        obtain ⟨gs, hruns, rfl⟩ | ⟨p, d, hat, hd, hpast⟩ := ih rest.length (by omega) rest hrest rfl
        · refine .inl ⟨g :: gs, ?_, ?_⟩
          · intro h hh
            obtain rfl | hh := List.mem_cons.mp hh
            · exact ⟨fun b hb => hw b (List.mem_cons_of_mem _ (List.mem_append_left _ hb)),
                by omega⟩
            · exact hruns h hh
          · rw [pack_cons]
            congr 1
            rw [← UInt8.toNat_inj, code_toNat (by omega), hcode]
        · refine .inr ⟨p + c.toNat, d, hat.behind hcode, ?_, by omega⟩
          rw [hcode, ← Nat.add_assoc, List.getElem?_cons_succ,
            List.getElem?_append_right (Nat.le_add_left _ _), Nat.add_sub_cancel, hd]
      · refine .inr ⟨0, c, .first (List.cons_ne_nil _ _), rfl, ?_⟩
        rw [List.length_cons] at hlength
        omega

/-! ### Stuffing again -/

/-- Nonzero bytes that do not fill a run make the one that is growing longer. -/
theorem runs_append_short {bytes g : List UInt8} (hopen : (runs bytes).current = [])
    (hg : ∀ b ∈ g, b ≠ 0) (hshort : g.length < 254) :
    (runs (bytes ++ g)).closed = (runs bytes).closed ∧ (runs (bytes ++ g)).current = g := by
  induction g using List.reverseRecOn with
  | nil =>
    rw [List.append_nil]
    exact ⟨rfl, hopen⟩
  | append_singleton g b ih =>
    rw [List.length_append, List.length_singleton] at hshort
    obtain ⟨hclosed, hcurrent⟩ := ih (fun c hc => hg c (List.mem_append_left _ hc)) (by omega)
    have hb : b ≠ 0 := hg b (List.mem_append_right _ (List.mem_singleton_self b))
    have hroom : (runs (bytes ++ g)).current.length ≠ 253 := by
      rw [hcurrent]
      omega
    obtain ⟨hclosed', hcurrent'⟩ := Runs.push_grow hb hroom
    rw [← List.append_assoc, runs_concat, hclosed', hcurrent', hclosed, hcurrent]
    exact ⟨rfl, rfl⟩

/-- A run with what ends it is closed. -/
theorem runs_append_terminated {bytes g : List UInt8} (hopen : (runs bytes).current = [])
    (hg : IsRun g) :
    (runs (bytes ++ terminated g)).closed = (runs bytes).closed ++ [g] ∧
      (runs (bytes ++ terminated g)).current = [] := by
  rw [terminated]
  by_cases hfull : g.length = 254
  · obtain ⟨front, b, rfl⟩ : ∃ front b, g = front ++ [b] := by
      refine ⟨_, _, (List.dropLast_concat_getLast ?_).symm⟩
      rintro rfl
      contradiction
    have hb : b ≠ 0 := hg.1 b (List.mem_append_right _ (List.mem_singleton_self b))
    have hlength : front.length = 253 := by
      rw [List.length_append, List.length_singleton] at hfull
      omega
    obtain ⟨hclosed, hcurrent⟩ := runs_append_short hopen
      (fun c hc => hg.1 c (List.mem_append_left _ hc)) (by omega : front.length < 254)
    obtain ⟨hclosed', hcurrent'⟩ := Runs.push_full hb (by rw [hcurrent, hlength])
    rw [if_pos hfull, ← List.append_assoc, runs_concat, hclosed', hcurrent', hclosed, hcurrent]
    exact ⟨rfl, rfl⟩
  · have hshort : g.length < 254 := Nat.lt_of_le_of_ne hg.2 hfull
    obtain ⟨hclosed, hcurrent⟩ := runs_append_short hopen hg.1 hshort
    obtain ⟨hclosed', hcurrent'⟩ := (runs (bytes ++ g)).push_zero
    rw [if_neg hfull, ← List.append_assoc, runs_concat, hclosed', hcurrent', hclosed, hcurrent]
    exact ⟨rfl, rfl⟩

/-- Runs with what ends them are closed, one after the other. -/
theorem runs_flatMap_terminated {gs : List (List UInt8)} (hgs : ∀ g ∈ gs, IsRun g) :
    (runs (gs.flatMap terminated)).closed = gs ∧ (runs (gs.flatMap terminated)).current = [] := by
  induction gs using List.reverseRecOn with
  | nil => exact ⟨rfl, rfl⟩
  | append_singleton gs g ih =>
    obtain ⟨hclosed, hcurrent⟩ := ih fun h hh => hgs h (List.mem_append_left _ hh)
    have hg := hgs g (List.mem_append_right _ (List.mem_singleton_self g))
    rw [List.flatMap_append, List.flatMap_singleton]
    have hlast := runs_append_terminated hcurrent hg
    rwa [hclosed] at hlast

/-- **Stuffing again** what a list of runs stands for gives its blocks, and an empty one more if the
last run is a full one or there is none. -/
theorem encode_expand {gs : List (List UInt8)} (hgs : ∀ g ∈ gs, IsRun g) :
    encode (expand gs) = pack gs ∨
      encode (expand gs) = pack gs ++ [1] ∧
        (gs = [] ∨ ∃ front g, gs = front ++ [g] ∧ g.length = 254) := by
  induction gs using List.reverseRecOn with
  | nil => exact .inr ⟨rfl, .inl rfl⟩
  | append_singleton gs g =>
    have hg := hgs g (List.mem_append_right _ (List.mem_singleton_self g))
    have hall : ∀ h ∈ gs, IsRun h := fun h hh => hgs h (List.mem_append_left _ hh)
    rw [expand_concat]
    by_cases hfull : g.length = 254
    · right
      obtain ⟨hclosed, hcurrent⟩ := runs_flatMap_terminated hgs
      have hsame : gs.flatMap terminated ++ g = (gs ++ [g]).flatMap terminated := by
        rw [List.flatMap_append, List.flatMap_singleton, terminated, if_pos hfull]
      refine ⟨?_, .inr ⟨gs, g, rfl, hfull⟩⟩
      rw [hsame, encode, Runs.all, hclosed, hcurrent, pack_append]
      rfl
    · left
      obtain ⟨hclosed, hcurrent⟩ := runs_flatMap_terminated hall
      obtain ⟨hclosed', hcurrent'⟩ :=
        runs_append_short hcurrent hg.1 (Nat.lt_of_le_of_ne hg.2 hfull)
      rw [encode, Runs.all, hclosed', hcurrent', hclosed]

/-! ### Replacing a byte -/

/-- A byte of whole blocks that is not a code byte belongs to one of the runs. -/
theorem exists_pack_set {gs : List (List UInt8)} (hshort : ∀ g ∈ gs, g.length ≤ 254) {k : ℕ}
    (hk : k < (pack gs).length) (hdata : ¬ CodeAt (pack gs) k) :
    ∃ front g back j, gs = front ++ g :: back ∧ j < g.length ∧ (pack gs)[k]? = g[j]? ∧
      ∀ b, (pack gs).set k b = pack (front ++ g.set j b :: back) := by
  induction gs generalizing k with
  | nil => exact absurd hk (Nat.not_lt_zero k)
  | cons g gs ih =>
    have hg := hshort g List.mem_cons_self
    obtain rfl | ⟨j, rfl⟩ : k = 0 ∨ ∃ j, k = j + 1 := by
      cases k with
      | zero => exact .inl rfl
      | succ j => exact .inr ⟨j, rfl⟩
    · exact absurd (.first (by simp)) hdata
    · have hcode : (code g).toNat = g.length + 1 := code_toNat hg
      rw [pack_cons] at hk hdata ⊢
      rw [List.length_cons, List.length_append] at hk
      by_cases hin : j < g.length
      · refine ⟨[], g, gs, j, rfl, hin, ?_, fun b => ?_⟩
        · rw [List.getElem?_cons_succ, List.getElem?_append_left hin]
        · rw [List.set_cons_succ, List.set_append_left _ _ hin, List.nil_append, pack_cons, code,
            code, List.length_set]
      · have hbehind : ¬ CodeAt (pack gs) (j - g.length) := fun h => by
          have hat := h.behind (g := g) hcode
          rw [hcode, ← Nat.add_assoc, Nat.sub_add_cancel (Nat.le_of_not_lt hin)] at hat
          exact hdata hat
        obtain ⟨front, h, back, l, rfl, hl, hsame, hset⟩ :=
          ih (fun h hh => hshort h (List.mem_cons_of_mem _ hh)) (by omega) hbehind
        refine ⟨g :: front, h, back, l, rfl, hl, ?_, fun b => ?_⟩
        · rw [List.getElem?_cons_succ, List.getElem?_append_right (Nat.le_of_not_lt hin), hsame]
        · rw [List.set_cons_succ, List.set_append_right _ _ (Nat.le_of_not_lt hin), hset]
          rfl

theorem after_of_length {g h : List UInt8} (hlength : g.length = h.length)
    (gs : List (List UInt8)) : after g gs = after h gs := by
  cases gs with
  | nil => rfl
  | cons => rw [after, after, hlength]

end Cobs
