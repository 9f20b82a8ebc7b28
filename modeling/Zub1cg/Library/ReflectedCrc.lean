import Mathlib.Data.BitVec
import Mathlib.Logic.Function.Iterate
import Mathlib.Data.List.Basic

/-!
# Reflected cyclic checksums

A remainder of `w` bits moves down by one place in every step, and the generator is added when a
one falls out. A step is linear, and since the generator has its top bit set it loses nothing. A
symbol of `m` bits is added to the remainder and followed by `m` steps.

As long as not more than `w` bits come in, they only lie side by side in the remainder. So two
messages that differ in no more than `w` consecutive bits leave different remainders.

## Main definitions

- `ReflectedCrc.shift`, `absorb`, `run` — a step, a symbol and a message
- `pack` — the symbols of a message, side by side
- `AgreeOutside` — two lists that differ in one window at most

## Main results

- `run_pack` — a short message is absorbed as a whole
- `run_residue` — a message that ends in its own checksum leaves a constant
- `window_eq` — messages that differ in a short window only leave different remainders
-/

namespace ReflectedCrc

variable {w : ℕ}

/-- One step. -/
def shift (poly c : BitVec w) : BitVec w :=
  if c.getLsbD 0 then (c >>> 1) ^^^ poly else c >>> 1

/-- A symbol of `m` bits. -/
def absorb (poly : BitVec w) (m : ℕ) (c x : BitVec w) : BitVec w := (shift poly)^[m] (c ^^^ x)

/-- The remainder that a message leaves. -/
def run (poly : BitVec w) (m : ℕ) (c : BitVec w) (xs : List (BitVec w)) : BitVec w :=
  xs.foldl (absorb poly m) c

/-- A symbol of at most `m` bits. -/
def Narrow (m : ℕ) (x : BitVec w) : Prop := ∀ i, m ≤ i → x.getLsbD i = false

/-- The symbols of a message side by side, the first lowest. -/
def pack (m : ℕ) : List (BitVec w) → BitVec w
  | [] => 0#w
  | x :: xs => x ^^^ (pack m xs <<< m)

/-! ### Steps -/

section Shift

variable {poly : BitVec w}

theorem shift_xor (a b : BitVec w) : shift poly (a ^^^ b) = shift poly a ^^^ shift poly b := by
  have hcancel (x y : BitVec w) : x ^^^ y = (x ^^^ poly) ^^^ (y ^^^ poly) := by
    rw [BitVec.xor_comm y, BitVec.xor_assoc, ← BitVec.xor_assoc poly, BitVec.xor_self,
      BitVec.zero_xor]
  simp only [shift, BitVec.getLsbD_xor, BitVec.ushiftRight_xor_distrib]
  cases a.getLsbD 0 <;> cases b.getLsbD 0
  · rfl
  · exact BitVec.xor_assoc _ _ _
  · exact (BitVec.xor_assoc _ _ _).trans
      ((congrArg _ (BitVec.xor_comm _ _)).trans (BitVec.xor_assoc _ _ _).symm)
  · exact hcancel _ _

/-- Nothing is lost: what is zero after a step was zero before it. -/
theorem eq_zero_of_shift (htop : poly.msb = true) {c : BitVec w} (h : shift poly c = 0#w) :
    c = 0#w := by
  have hbit := BitVec.getLsbD_ushiftRight c 1
  have hw : 0 < w := by
    rcases w with _ | w
    · simp [BitVec.msb, BitVec.getMsbD] at htop
    · exact Nat.succ_pos w
  have hlast : poly.getLsbD (w - 1) = true := by
    rwa [BitVec.msb_eq_getLsbD_last] at htop
  cases hlow : c.getLsbD 0
  · -- the step has only moved the bits
    rw [shift, hlow, if_neg Bool.false_ne_true] at h
    apply BitVec.eq_of_getLsbD_eq
    intro i hi
    rw [BitVec.getLsbD_zero]
    rcases i with _ | i
    · exact hlow
    · rw [Nat.add_comm, ← hbit, h, BitVec.getLsbD_zero]
  · -- the top bit is that of the generator
    rw [shift, hlow, if_pos rfl] at h
    have hmsb := congrArg (fun x => x.getLsbD (w - 1)) h
    simp only [BitVec.getLsbD_xor, hbit, hlast, BitVec.getLsbD_zero] at hmsb
    rw [BitVec.getLsbD_of_ge _ _ (by omega)] at hmsb
    contradiction

theorem shift_injective (htop : poly.msb = true) : Function.Injective (shift poly) := by
  intro a b h
  have hzero : shift poly (a ^^^ b) = 0#w := by rw [shift_xor, h, BitVec.xor_self]
  exact BitVec.xor_eq_zero_iff.mp (eq_zero_of_shift htop hzero)

theorem iterate_xor (n : ℕ) (a b : BitVec w) :
    (shift poly)^[n] (a ^^^ b) = (shift poly)^[n] a ^^^ (shift poly)^[n] b := by
  induction n generalizing a b with
  | zero => rfl
  | succ n ih => rw [Function.iterate_succ_apply, shift_xor, ih]; rfl

/-- Zeros fall out without a trace. -/
theorem iterate_shiftLeft (n : ℕ) {y : BitVec w} (h : ∀ i, w ≤ i + n → y.getLsbD i = false) :
    (shift poly)^[n] (y <<< n) = y := by
  induction n with
  | zero => exact BitVec.shiftLeft_zero y
  | succ n ih =>
    have hstep : shift poly (y <<< (n + 1)) = y <<< n := by
      rw [shift, BitVec.getLsbD_shiftLeft]
      simp only [Nat.zero_lt_succ, decide_true, Bool.not_true, Bool.and_false, Bool.false_and,
        Bool.false_eq_true, ↓reduceIte]
      apply BitVec.eq_of_getLsbD_eq
      intro i hi
      rw [BitVec.getLsbD_ushiftRight, BitVec.getLsbD_shiftLeft, BitVec.getLsbD_shiftLeft]
      by_cases hlast : 1 + i < w
      · have hless : (1 + i < n + 1) ↔ i < n := by omega
        have hsub : 1 + i - (n + 1) = i - n := by omega
        simp only [hlast, hi, hless, hsub]
      · by_cases hn : i < n
        · simp [hlast, hn]
        · simp [hlast, hn, hi, h (i - n) (by omega)]
    rw [Function.iterate_succ_apply, hstep]
    exact ih fun i hi => h i (by omega)

end Shift

/-! ### Messages -/

section Run

variable {poly : BitVec w} {m : ℕ}

theorem run_append (c : BitVec w) (xs ys : List (BitVec w)) :
    run poly m c (xs ++ ys) = run poly m (run poly m c xs) ys := List.foldl_append

/-- Whatever follows, different remainders stay different. -/
theorem run_injective (htop : poly.msb = true) (xs : List (BitVec w)) :
    Function.Injective fun c => run poly m c xs := by
  induction xs with
  | nil => exact Function.injective_id
  | cons x xs ih =>
    intro a b h
    have hstep : absorb poly m a x = absorb poly m b x := ih h
    exact (BitVec.xor_left_inj x).mp ((shift_injective htop).iterate m hstep)

theorem narrow_pack {xs : List (BitVec w)} (hxs : ∀ x ∈ xs, Narrow m x) :
    Narrow (m * xs.length) (pack m xs) := by
  induction xs with
  | nil => exact fun i _ => BitVec.getLsbD_zero
  | cons x xs ih =>
    intro i hi
    rw [List.length_cons, Nat.mul_succ] at hi
    have hrest := ih (fun y hy => hxs y (List.mem_cons_of_mem x hy)) (i - m) (by omega)
    rw [pack, BitVec.getLsbD_xor, BitVec.getLsbD_shiftLeft, hrest,
      hxs x List.mem_cons_self i (by omega), Bool.and_false, Bool.xor_false]

/-- A message that fits into the remainder is absorbed as a whole. -/
theorem run_pack {xs : List (BitVec w)} (hxs : ∀ x ∈ xs, Narrow m x) (hw : m * xs.length ≤ w)
    (c : BitVec w) : run poly m c xs = (shift poly)^[m * xs.length] (c ^^^ pack m xs) := by
  induction xs generalizing c with
  | nil => exact BitVec.xor_zero.symm
  | cons x xs ih =>
    rw [List.length_cons, Nat.mul_succ] at *
    have htail : ∀ y ∈ xs, Narrow m y := fun y hy => hxs y (List.mem_cons_of_mem x hy)
    -- what comes later lies above the symbol at hand and moves down to its place
    have hdown : (shift poly)^[m] (pack m xs <<< m) = pack m xs :=
      iterate_shiftLeft m fun i hi => narrow_pack htail i (by omega)
    have hsplit : run poly m c (x :: xs) = run poly m (absorb poly m c x) xs := rfl
    rw [hsplit, ih htail (by omega), absorb, pack, ← BitVec.xor_assoc, iterate_xor _ (c ^^^ x),
      Function.iterate_add_apply, Function.iterate_add_apply _ _ m (pack m xs <<< m), hdown,
      ← iterate_xor]

/-- Symbols that lie side by side are told apart. -/
theorem pack_injective {xs ys : List (BitVec w)} (hxs : ∀ x ∈ xs, Narrow m x)
    (hys : ∀ y ∈ ys, Narrow m y) (hlength : xs.length = ys.length) (hw : m * xs.length ≤ w)
    (h : pack m xs = pack m ys) : xs = ys := by
  induction xs generalizing ys with
  | nil => exact (List.length_eq_zero_iff.mp hlength.symm).symm
  | cons x xs ih =>
    obtain _ | ⟨y, ys⟩ := ys
    · contradiction
    rw [List.length_cons, Nat.mul_succ] at hw
    have hx := hxs x List.mem_cons_self
    have hy := hys y List.mem_cons_self
    have hxs' : ∀ z ∈ xs, Narrow m z := fun z hz => hxs z (List.mem_cons_of_mem x hz)
    have hys' : ∀ z ∈ ys, Narrow m z := fun z hz => hys z (List.mem_cons_of_mem y hz)
    have hlength' : xs.length = ys.length := Nat.succ.inj hlength
    have hbit (i : ℕ) := congrArg (fun z => z.getLsbD i) h
    simp only [pack, BitVec.getLsbD_xor, BitVec.getLsbD_shiftLeft] at hbit
    have hhead : x = y := by
      apply BitVec.eq_of_getLsbD_eq
      intro i hi
      by_cases him : i < m
      · simpa [him] using hbit i
      · rw [hx i (by omega), hy i (by omega)]
    have htail : pack m xs = pack m ys := by
      apply BitVec.eq_of_getLsbD_eq
      intro i hi
      by_cases hroom : i + m < w
      · have hhigh := hbit (i + m)
        rw [hx _ (Nat.le_add_left m i), hy _ (Nat.le_add_left m i)] at hhigh
        simpa [hroom, Nat.not_lt.mpr (Nat.le_add_left m i)] using hhigh
      · rw [narrow_pack hxs' i (by omega), narrow_pack hys' i (hlength' ▸ by omega)]
    rw [hhead, ih hxs' hys' hlength' (by omega) htail]

/-- **A message that ends in its own checksum leaves a constant**, and no other one does. -/
theorem run_residue (htop : poly.msb = true) {data sum : List (BitVec w)}
    (hsum : ∀ x ∈ sum, Narrow m x) (hw : m * sum.length = w) (c t : BitVec w) :
    run poly m c (data ++ sum) = (shift poly)^[w] t ↔ run poly m c data ^^^ t = pack m sum := by
  rw [run_append, run_pack hsum hw.le, hw, ((shift_injective htop).iterate w).eq_iff]
  constructor
  · intro h
    rw [← h, ← BitVec.xor_assoc, BitVec.xor_self, BitVec.zero_xor]
  · intro h
    rw [← h, ← BitVec.xor_assoc, BitVec.xor_self, BitVec.zero_xor]

/-- **Messages that differ in a short window only leave different remainders.** -/
theorem window_eq (htop : poly.msb = true) {c : BitVec w} {as xs ys bs : List (BitVec w)}
    (hxs : ∀ x ∈ xs, Narrow m x) (hys : ∀ y ∈ ys, Narrow m y) (hlength : xs.length = ys.length)
    (hw : m * xs.length ≤ w)
    (h : run poly m c (as ++ xs ++ bs) = run poly m c (as ++ ys ++ bs)) : xs = ys := by
  rw [run_append, run_append c (as ++ ys), run_append c as, run_append c as] at h
  have hwindow := run_injective htop bs h
  rw [run_pack hxs hw, run_pack hys (hlength ▸ hw), hlength] at hwindow
  have hpack := (shift_injective htop).iterate _ hwindow
  exact pack_injective hxs hys hlength hw ((BitVec.xor_right_inj _).mp hpack)

end Run

/-! ### Windows -/

section Windows

variable {α : Type*}

/-- Two lists of one length that differ in `n` places at most, from place `k` on. -/
def AgreeOutside (k n : ℕ) (as bs : List α) : Prop :=
  as.length = bs.length ∧ ∀ i, i < k ∨ k + n ≤ i → as[i]? = bs[i]?

/-- What lies before the window and behind it is the same. -/
theorem AgreeOutside.split {k n : ℕ} {as bs : List α} (h : AgreeOutside k n as bs) :
    ∃ before xs ys behind, as = before ++ xs ++ behind ∧ bs = before ++ ys ++ behind ∧
      xs.length = ys.length ∧ xs.length ≤ n := by
  have hparts (cs : List α) : cs = cs.take k ++ (cs.drop k).take n ++ cs.drop (k + n) := by
    rw [List.append_assoc, ← List.drop_drop, List.take_append_drop, List.take_append_drop]
  have hbefore : as.take k = bs.take k := by
    apply List.ext_getElem?
    intro i
    rw [List.getElem?_take, List.getElem?_take]
    split
    · exact h.2 i (.inl ‹_›)
    · rfl
  have hbehind : as.drop (k + n) = bs.drop (k + n) := by
    apply List.ext_getElem?
    intro i
    rw [List.getElem?_drop, List.getElem?_drop]
    exact h.2 _ (.inr (Nat.le_add_right _ i))
  refine ⟨as.take k, (as.drop k).take n, (bs.drop k).take n, as.drop (k + n), hparts as, ?_, ?_,
    List.length_take_le n _⟩
  · rw [hbefore, hbehind]
    exact hparts bs
  · rw [List.length_take, List.length_take, List.length_drop, List.length_drop, h.1]

end Windows

end ReflectedCrc
