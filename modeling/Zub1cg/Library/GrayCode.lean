import Mathlib.Data.Nat.Find
import Mathlib.Data.Nat.Bitwise
import Mathlib.Data.BitVec

/-!
# Binary-reflected Gray codes on fixed-width words

The Gray code of a word is `(b >>> 1) ^^^ b`. Two facts make it fit to carry a
counter across clock domains: the code is injective, and incrementing the
counter (wrap-around included) flips exactly one bit of the code, so a register
that catches an arbitrary subset of the changing bits still holds either the old
or the new code.

## Main definitions

- `GrayCode.gray` — the code of a word
- `GrayCode.sample` — what a register catches when its input changes under it
- `GrayCode.ungray` — the word of a code
-/

namespace GrayCode

variable {w : ℕ}

/-- The binary-reflected Gray code of `b`. -/
def gray (b : BitVec w) : BitVec w := (b >>> 1) ^^^ b

/-- The word caught by a register whose input changes from `old` to `new` at the
sampling edge: each bit is taken from `new` where `mask` is set, from `old`
elsewhere. Bits on which `old` and `new` agree are caught faithfully. -/
def sample (old new mask : BitVec w) : BitVec w := (old &&& ~~~mask) ||| (new &&& mask)

@[simp] theorem sample_self (b mask : BitVec w) : sample b b mask = b := by
  apply BitVec.eq_of_getLsbD_eq
  intro i hi
  simp only [sample, BitVec.getLsbD_or, BitVec.getLsbD_and, BitVec.getLsbD_not, hi, decide_true,
    Bool.true_and]
  cases b.getLsbD i <;> cases mask.getLsbD i <;> rfl

@[simp] theorem sample_none (old new : BitVec w) : sample old new 0 = old := by
  simp [sample]

/-- What is caught fits where both words do. -/
theorem sample_lt {old new : BitVec w} (mask : BitVec w) {k : ℕ} (hold : old.toNat < 2 ^ k)
    (hnew : new.toNat < 2 ^ k) : (sample old new mask).toNat < 2 ^ k := by
  rw [sample, BitVec.toNat_or, BitVec.toNat_and, BitVec.toNat_and]
  refine Nat.or_lt_two_pow ?_ ?_
  · exact lt_of_le_of_lt Nat.and_le_left hold
  · exact lt_of_le_of_lt Nat.and_le_left hnew

theorem gray_getLsbD (b : BitVec w) (i : ℕ) :
    (gray b).getLsbD i = (b.getLsbD (1 + i) ^^ b.getLsbD i) := by
  simp [gray]

theorem gray_zero : gray (0 : BitVec w) = 0 := by simp [gray]

theorem gray_xor (a b : BitVec w) : gray (a ^^^ b) = gray a ^^^ gray b := by
  apply BitVec.eq_of_getLsbD_eq
  intro i _
  simp only [gray_getLsbD, BitVec.getLsbD_xor]
  cases a.getLsbD (1 + i) <;> cases a.getLsbD i <;> cases b.getLsbD (1 + i) <;>
    cases b.getLsbD i <;> rfl

/-- Distinct words have distinct codes. -/
theorem gray_injective : Function.Injective (gray : BitVec w → BitVec w) := by
  intro a b h
  have hx : gray (a ^^^ b) = 0 := by rw [gray_xor, h, BitVec.xor_self]; rfl
  have hshift : (a ^^^ b) >>> 1 = a ^^^ b := by
    have := congrArg (· ^^^ (a ^^^ b)) hx
    simpa [gray, BitVec.xor_assoc] using this
  have hhalf : (a ^^^ b).toNat / 2 = (a ^^^ b).toNat := by
    simpa [Nat.shiftRight_eq_div_pow] using congrArg BitVec.toNat hshift
  have hzero : a ^^^ b = 0 := by
    apply BitVec.eq_of_toNat_eq
    simp only [BitVec.ofNat_eq_ofNat, BitVec.toNat_ofNat, Nat.zero_mod]
    omega
  have := congrArg (· ^^^ b) hzero
  simpa [BitVec.xor_assoc] using this

theorem gray_inj {a b : BitVec w} : gray a = gray b ↔ a = b :=
  gray_injective.eq_iff

/-! ### Decoding -/

/-- The word of a code. The loop goes from the highest bit down to the lowest; each bit of the
word is the one above it, flipped if the code's bit says so. -/
def ungray (g : BitVec w) : BitVec w :=
  (List.range w).foldr
    (fun index binary =>
      if binary.getLsbD (index + 1) ^^ g.getLsbD index then binary ||| BitVec.twoPow w index
      else binary)
    0

/-- The loop below bit `m`, once the bits from `m` on are those of `b`. -/
theorem ungray_loop (b : BitVec w) {m : ℕ} (hm : m ≤ w) {x : BitVec w}
    (hx : ∀ i, x.getLsbD i = (decide (m ≤ i) && b.getLsbD i)) :
    (List.range m).foldr
      (fun index binary =>
        if binary.getLsbD (index + 1) ^^ (gray b).getLsbD index then
          binary ||| BitVec.twoPow w index
        else binary) x = b := by
  induction m generalizing x with
  | zero =>
    apply BitVec.eq_of_getLsbD_eq
    intro i _
    rw [List.range_zero, List.foldr_nil, hx, decide_eq_true (Nat.zero_le i), Bool.true_and]
  | succ m ih =>
    rw [List.range_succ, List.foldr_append, List.foldr_cons, List.foldr_nil]
    have hbit : (x.getLsbD (m + 1) ^^ (gray b).getLsbD m) = b.getLsbD m := by
      rw [hx, gray_getLsbD, Nat.add_comm 1 m, decide_eq_true (Nat.le_refl _), Bool.true_and,
        ← Bool.xor_assoc, Bool.xor_self, Bool.false_xor]
    rw [hbit]
    refine ih (by omega) fun i => ?_
    by_cases hi : i = m
    · have hclear : x.getLsbD m = false := by
        rw [hx, decide_eq_false (by omega), Bool.false_and]
      rw [hi, decide_eq_true (Nat.le_refl m), Bool.true_and]
      cases b.getLsbD m
      · exact hclear
      · rw [if_pos rfl, BitVec.getLsbD_or, hclear, Bool.false_or, BitVec.getLsbD_twoPow]
        simp [show m < w by omega]
    · have hle : decide (m + 1 ≤ i) = decide (m ≤ i) := decide_eq_decide.mpr (by omega)
      have hne : ¬ m = i := fun h => hi h.symm
      cases b.getLsbD m
      · rw [if_neg Bool.false_ne_true, hx, hle]
      · rw [if_pos rfl, BitVec.getLsbD_or, BitVec.getLsbD_twoPow, decide_eq_false hne,
          Bool.and_false, Bool.or_false, hx, hle]

@[simp] theorem ungray_gray (b : BitVec w) : ungray (gray b) = b :=
  ungray_loop b (Nat.le_refl w) fun i => by
    by_cases hi : i < w
    · simp [show ¬ w ≤ i by omega]
    · simp [BitVec.getLsbD_of_ge b i (by omega)]

/-- A wider word has the same code. -/
theorem gray_setWidth {v : ℕ} (hle : w ≤ v) (b : BitVec w) :
    gray (b.setWidth v) = (gray b).setWidth v := by
  apply BitVec.eq_of_getLsbD_eq
  intro i hi
  rw [gray_getLsbD, BitVec.getLsbD_setWidth, BitVec.getLsbD_setWidth, BitVec.getLsbD_setWidth,
    gray_getLsbD, decide_eq_true hi, Bool.true_and, Bool.true_and]
  by_cases htop : 1 + i < v
  · rw [decide_eq_true htop, Bool.true_and]
  · rw [decide_eq_false htop, Bool.false_and, BitVec.getLsbD_of_ge b (1 + i) (by omega)]

/-- Encoding a second time does not decode: it only gives back words below four. -/
theorem gray_gray (b : BitVec w) : gray (gray b) = b ↔ b.toNat < 4 := by
  have htwice : gray (gray b) = b ^^^ b >>> 2 := by
    apply BitVec.eq_of_getLsbD_eq
    intro i _
    rw [gray_getLsbD, gray_getLsbD, gray_getLsbD, BitVec.getLsbD_xor, BitVec.getLsbD_ushiftRight,
      ← Nat.add_assoc 1 1 i]
    cases b.getLsbD (1 + 1 + i) <;> cases b.getLsbD (1 + i) <;> cases b.getLsbD i <;> rfl
  have hzero : b ^^^ b >>> 2 = b ↔ b >>> 2 = 0 := by
    constructor
    · intro h
      have := congrArg (b ^^^ ·) h
      rwa [← BitVec.xor_assoc, BitVec.xor_self, BitVec.zero_xor] at this
    · intro h
      rw [h]
      exact BitVec.xor_zero
  rw [htwice, hzero, ← BitVec.toNat_inj, BitVec.toNat_ushiftRight, Nat.shiftRight_eq_div_pow]
  change b.toNat / 2 ^ 2 = 0 % 2 ^ w ↔ _
  rw [Nat.zero_mod]
  omega

/-! ### Incrementing flips one bit -/

/-- `b + 1` flips bit `i` exactly when every lower bit of `b` is set. -/
theorem getLsbD_add_one (b : BitVec w) {i : ℕ} (hi : i < w) :
    (b + 1).getLsbD i = (b.getLsbD i ^^ decide (2 ^ i ≤ b.toNat % 2 ^ i + 1)) := by
  have h := BitVec.getLsbD_add_add_bool hi b 0 true
  have hone : b + 0 + (BitVec.ofBool true).setWidth w = b + 1 := by
    apply BitVec.eq_of_toNat_eq
    simp
  rw [hone] at h
  simpa [BitVec.carry] using h

/-- The low bits carrying into `i + 1` carry into `i` as well. -/
theorem carry_antitone {n i : ℕ} (h : 2 ^ (i + 1) ≤ n % 2 ^ (i + 1) + 1) :
    2 ^ i ≤ n % 2 ^ i + 1 := by
  have hpos : 0 < 2 ^ i := Nat.two_pow_pos i
  have hmod : n % 2 ^ (i + 1) % 2 ^ i = n % 2 ^ i :=
    Nat.mod_mod_of_dvd n (pow_dvd_pow 2 (Nat.le_succ i))
  have hlt : n % 2 ^ (i + 1) < 2 ^ (i + 1) := Nat.mod_lt _ (Nat.two_pow_pos _)
  have hval : n % 2 ^ (i + 1) = (2 ^ i - 1) + 2 ^ i := by rw [pow_succ] at *; omega
  rw [hval, Nat.add_mod_right, Nat.mod_eq_of_lt (by omega)] at hmod
  omega

theorem carry_antitone_le {n i j : ℕ} (hij : i ≤ j) (h : 2 ^ j ≤ n % 2 ^ j + 1) :
    2 ^ i ≤ n % 2 ^ i + 1 := by
  induction hij with
  | refl => exact h
  | step _ ih => exact ih (carry_antitone h)

/-- Incrementing a word changes exactly one bit of its code. -/
theorem gray_succ_one_bit (b : BitVec (w + 1)) :
    ∃ k, ∀ i < w + 1, i ≠ k → (gray (b + 1)).getLsbD i = (gray b).getLsbD i := by
  -- `k` is the highest bit the increment carries into
  let carries : ℕ → Prop := fun i => 2 ^ i ≤ b.toNat % 2 ^ i + 1
  let k := Nat.findGreatest carries w
  have hk : carries k := Nat.findGreatest_spec (P := carries) (Nat.zero_le w) (by simp [carries])
  have hcarry : ∀ i ≤ w, (carries i ↔ i ≤ k) := fun i hi =>
    ⟨Nat.le_findGreatest hi, fun hik => carry_antitone_le hik hk⟩
  refine ⟨k, fun i hi hne => ?_⟩
  have hkw : k ≤ w := Nat.findGreatest_le w
  have hbit : (b + 1).getLsbD i = (b.getLsbD i ^^ decide (i ≤ k)) := by
    rw [getLsbD_add_one b hi, decide_eq_decide.mpr (hcarry i (by omega))]
  rw [gray_getLsbD, gray_getLsbD, hbit]
  by_cases htop : i = w
  · have hover : ∀ c : BitVec (w + 1), c.getLsbD (1 + i) = false := fun c =>
      BitVec.getLsbD_of_ge c _ (by omega)
    rw [hover, hover, decide_eq_false (by omega : ¬ i ≤ k), Bool.xor_false]
  · have hnext : (b + 1).getLsbD (1 + i) = (b.getLsbD (1 + i) ^^ decide (1 + i ≤ k)) := by
      rw [getLsbD_add_one b (by omega), decide_eq_decide.mpr (hcarry (1 + i) (by omega))]
    have hsame : decide (1 + i ≤ k) = decide (i ≤ k) := decide_eq_decide.mpr (by omega)
    rw [hnext, hsame]
    cases b.getLsbD (1 + i) <;> cases b.getLsbD i <;> cases decide (i ≤ k) <;> rfl

/-- A register that catches an incrementing counter's code catches the old or the
new code, whichever bits it takes from each. -/
theorem sample_gray_succ (b : BitVec (w + 1)) (mask : BitVec (w + 1)) :
    sample (gray b) (gray (b + 1)) mask = gray b ∨
      sample (gray b) (gray (b + 1)) mask = gray (b + 1) := by
  obtain ⟨k, hk⟩ := gray_succ_one_bit b
  have hbits : ∀ i < w + 1, (sample (gray b) (gray (b + 1)) mask).getLsbD i =
      if mask.getLsbD i then (gray (b + 1)).getLsbD i else (gray b).getLsbD i := by
    intro i hi
    simp only [sample, BitVec.getLsbD_or, BitVec.getLsbD_and, BitVec.getLsbD_not, hi]
    cases mask.getLsbD i <;> simp
  cases hmask : mask.getLsbD k with
  | false =>
    left
    apply BitVec.eq_of_getLsbD_eq
    intro i hi
    rw [hbits i hi]
    by_cases hik : i = k
    · rw [hik, hmask]; rfl
    · rw [hk i hi hik, ite_self]
  | true =>
    right
    apply BitVec.eq_of_getLsbD_eq
    intro i hi
    rw [hbits i hi]
    by_cases hik : i = k
    · rw [hik, hmask]; rfl
    · rw [hk i hi hik, ite_self]

/-- The code of a counter caught while it takes at most one step is the code of a
count between the two. -/
theorem sample_count {n n' : ℕ} (hle : n ≤ n') (hstep : n' ≤ n + 1) (mask : BitVec (w + 1)) :
    ∃ k, n ≤ k ∧ k ≤ n' ∧
      sample (gray (BitVec.ofNat (w + 1) n)) (gray (BitVec.ofNat (w + 1) n')) mask =
        gray (BitVec.ofNat (w + 1) k) := by
  rcases Nat.lt_or_ge n n' with hlt | hge
  · obtain rfl : n' = n + 1 := by omega
    have hsucc : BitVec.ofNat (w + 1) (n + 1) = BitVec.ofNat (w + 1) n + 1 := by
      rw [BitVec.ofNat_add]; rfl
    rw [hsucc]
    rcases sample_gray_succ (BitVec.ofNat (w + 1) n) mask with h | h
    · exact ⟨n, le_rfl, hle, h⟩
    · exact ⟨n + 1, hle, le_rfl, by rw [h, hsucc]⟩
  · obtain rfl : n' = n := by omega
    exact ⟨n', le_rfl, le_rfl, sample_self _ _⟩

/-! ### Half a turn -/

/-- Adding the top bit's weight flips the top bit and nothing else. -/
theorem add_twoPow_top (b : BitVec (w + 1)) :
    b + BitVec.twoPow (w + 1) w = b ^^^ BitVec.twoPow (w + 1) w := by
  apply BitVec.eq_of_getLsbD_eq
  intro i hi
  have hcarry : BitVec.carry i b (BitVec.twoPow (w + 1) w) false = false := by
    have hmod : 2 ^ w % 2 ^ i = 0 :=
      Nat.mod_eq_zero_of_dvd (pow_dvd_pow 2 (Nat.lt_succ_iff.mp hi))
    have hlt : b.toNat % 2 ^ i < 2 ^ i := Nat.mod_lt _ (Nat.two_pow_pos i)
    have htwo : (BitVec.twoPow (w + 1) w).toNat = 2 ^ w := by
      rw [BitVec.toNat_twoPow]
      exact Nat.mod_eq_of_lt (Nat.pow_lt_pow_right (by decide) (Nat.lt_succ_self w))
    simp only [BitVec.carry, htwo, hmod, decide_eq_false_iff_not, Bool.toNat_false]
    omega
  rw [BitVec.getLsbD_add hi, hcarry, Bool.xor_false, BitVec.getLsbD_xor]

/-- Half a turn of the counter flips the two top bits of its code. -/
theorem gray_add_half (b : BitVec (w + 2)) :
    gray (b + BitVec.twoPow (w + 2) (w + 1)) =
      gray b ^^^ (BitVec.twoPow (w + 2) (w + 1) ^^^ BitVec.twoPow (w + 2) w) := by
  rw [add_twoPow_top, gray_xor]
  congr 1
  apply BitVec.eq_of_getLsbD_eq
  intro i hi
  simp only [gray_getLsbD, BitVec.getLsbD_xor, BitVec.getLsbD_twoPow]
  by_cases h : i = w + 1
  · subst h; simp
  · by_cases h' : i = w
    · subst h'; simp; omega
    · simp [show ¬ w + 1 = 1 + i by omega, show ¬ w + 1 = i by omega, show ¬ w = i by omega]

end GrayCode
