import Mathlib.Data.Nat.Factorization.Basic
import Mathlib.Data.UInt
import Mathlib.Tactic.Ring

/-!
# The divisors of the UART (`sdk/bsp/rpu/uart.c`)

The baud rate is the reference clock over `CD * (BDIV + 1)`. For every `BDIV` one `CD` is tried, the
exact one rounded down, so the rates that are tried are too high rather than too low. The products
are 32 bits wide, and one of them can be zero.

## Main definitions

- `computeBaud` — `_compute_baud`
- `Optimal` — a pair of divisors is found, and there is none that is closer
- `FromAbove` — the pairs that are not too slow are as close as the others
- `Reached` — the rates for which the search is optimal

## Main results

- `foldlM_spec` — the loop finds the best of the pairs that it tries
- `optimal_iff` — the rates for which it is the best of all
-/

namespace Uart

def UART_REF_CLK_HZ : UInt32 := 100000000

/-! ### The search -/

/-- `best_cd`, `best_bdiv` and `best_err` -/
structure Best where
  cd : UInt32
  bdiv : UInt32
  err : UInt32
  deriving DecidableEq, Repr

/-- One turn of the loop; `none` is a division by zero. -/
def tryBdiv (baud b : UInt32) (best : Best) : Option Best :=
  if baud * (b + 1) = 0 then none
  else
    let c := UART_REF_CLK_HZ / (baud * (b + 1))
    if c = 0 ∨ 65535 < c then some best
    else if c * (b + 1) = 0 then none
    else
      let actual := UART_REF_CLK_HZ / (c * (b + 1))
      let err := if baud < actual then actual - baud else baud - actual
      if err < best.err then some ⟨c, b, err⟩ else some best

/-- `_compute_baud`: `*cd` and `*bdiv`. -/
def computeBaud (baud : UInt32) : Option (UInt32 × UInt32) :=
  ((List.range' 4 252).foldlM (fun best b => tryBdiv baud (UInt32.ofNat b) best)
    ⟨62, 13, 0xffffffff⟩).map fun best => (best.cd, best.bdiv)

/-! ### The best divisors -/

/-- The divisors that the registers take. -/
def Valid (cd bdiv : ℕ) : Prop := 1 ≤ cd ∧ cd ≤ 65535 ∧ 4 ≤ bdiv ∧ bdiv ≤ 255

instance (cd bdiv : ℕ) : Decidable (Valid cd bdiv) :=
  inferInstanceAs (Decidable (1 ≤ cd ∧ cd ≤ 65535 ∧ 4 ≤ bdiv ∧ bdiv ≤ 255))

/-- The rate of two divisors. -/
def rate (cd bdiv : ℕ) : ℕ := 100000000 / (cd * (bdiv + 1))

/-- How far it is from `baud`. -/
def error (baud cd bdiv : ℕ) : ℕ := (rate cd bdiv - baud) + (baud - rate cd bdiv)

/-- There is no division by zero, and the divisors that are found are valid and the best ones. -/
def Optimal (baud : UInt32) : Prop :=
  ∃ cd bdiv, computeBaud baud = some (cd, bdiv) ∧ Valid cd.toNat bdiv.toNat ∧
    ∀ c b, Valid c b → error baud.toNat cd.toNat bdiv.toNat ≤ error baud.toNat c b

/-- The highest rate, that of the divisors `1` and `4`. -/
def MAX_RATE : ℕ := 20000000

/-- For every pair of divisors that is too slow, one that is not is as close. -/
def FromAbove (baud : ℕ) : Prop :=
  ∀ c b, Valid c b → rate c b < baud →
    ∃ c' b', Valid c' b' ∧ baud ≤ rate c' b' ∧ rate c' b' - baud ≤ baud - rate c b

/-- The rate is no multiple of `2 ^ 24` and not below the lowest one; up to the highest one, the
divisors that are not too slow are as close as the others; and above it, five times the rate wraps
around to between half the reference clock and the whole one. -/
structure Reached (baud : ℕ) : Prop where
  nonzero : ¬ 2 ^ 24 ∣ baud
  low : 6 ≤ baud
  above : baud ≤ MAX_RATE → FromAbove baud
  wraps : MAX_RATE < baud → 50000000 < 5 * baud % 2 ^ 32 ∧ 5 * baud % 2 ^ 32 ≤ 100000000

/-! ### The divisors that are tried -/

/-- The divisor that is tried for `b`. -/
def tried (baud b : ℕ) : ℕ := 100000000 / (baud * (b + 1) % 2 ^ 32)

section

variable {baud c b : ℕ}

/-- A divisor is not too slow up to the exact one. -/
theorem le_rate_iff (hpos : 0 < c) (hbaud : 0 < baud) :
    baud ≤ rate c b ↔ c ≤ 100000000 / (baud * (b + 1)) := by
  rw [rate, Nat.le_div_iff_mul_le (Nat.mul_pos hpos (Nat.succ_pos b)),
    Nat.le_div_iff_mul_le (Nat.mul_pos hbaud (Nat.succ_pos b)), Nat.mul_left_comm]

/-- A larger divisor is slower. -/
theorem rate_anti {c' : ℕ} (hpos : 0 < c) (h : c ≤ c') : rate c' b ≤ rate c b :=
  Nat.div_le_div_left (Nat.mul_le_mul_right _ h) (Nat.mul_pos hpos (Nat.succ_pos b))

theorem error_of_le (h : baud ≤ rate c b) : error baud c b = rate c b - baud := by
  rw [error, Nat.sub_eq_zero_of_le h, Nat.add_zero]

theorem error_of_lt (h : rate c b < baud) : error baud c b = baud - rate c b := by
  rw [error, Nat.sub_eq_zero_of_le h.le, Nat.zero_add]

/-- Without a wrap the exact divisor, rounded down, is tried. -/
theorem tried_eq (h : baud * (b + 1) < 2 ^ 32) : tried baud b = 100000000 / (baud * (b + 1)) := by
  rw [tried, Nat.mod_eq_of_lt h]

/-- Low rates are met exactly by one of the pairs that are tried. -/
theorem exists_tried_low (hlow : 6 ≤ baud) (hhigh : baud ≤ 305) :
    ∃ b, Valid (tried baud b) b ∧ error baud (tried baud b) b = 0 := by
  -- the first `BDIV` for which the divisor fits
  obtain ⟨b, hb⟩ : ∃ b, b = 1525 / baud := ⟨_, rfl⟩
  have hsmall : baud * b ≤ 1525 := by
    rw [hb]
    exact Nat.mul_div_le _ _
  have hlarge : 1525 < baud * (b + 1) := by
    rw [hb]
    exact Nat.lt_mul_div_succ _ (by omega)
  have hproduct : baud * (b + 1) = baud * b + baud := Nat.mul_succ _ _
  have hmin : 4 ≤ b := by
    rw [hb, Nat.le_div_iff_mul_le (by omega)]
    omega
  have hmax : b ≤ 255 := by
    rw [hb]
    exact (Nat.div_le_div_left hlow (by decide)).trans (by decide)
  have htried : tried baud b = 100000000 / (baud * (b + 1)) := tried_eq (by omega)
  have hfits : tried baud b ≤ 65535 := by
    rw [htried]
    exact (Nat.div_le_div_left (show 1526 ≤ baud * (b + 1) by omega) (by decide)).trans (by decide)
  have hbig : 50000 ≤ tried baud b := by
    rw [htried, Nat.le_div_iff_mul_le (by omega)]
    omega
  have hexact : rate (tried baud b) b = baud := by
    have hmod : 100000000 < baud * (b + 1) * (tried baud b + 1) := by
      rw [htried]
      exact Nat.lt_mul_div_succ _ (by omega)
    refine Nat.le_antisymm (Nat.lt_succ_iff.mp ?_) ((le_rate_iff (by omega) (by omega)).mpr htried.le)
    rw [rate, Nat.div_lt_iff_lt_mul (Nat.mul_pos (by omega) (Nat.succ_pos b))]
    calc 100000000 < baud * (b + 1) * (tried baud b + 1) := hmod
      _ = (b + 1) * (baud * tried baud b + baud) := by ring
      _ ≤ (b + 1) * (baud * tried baud b + tried baud b) := by gcongr; omega
      _ = (baud + 1) * (tried baud b * (b + 1)) := by ring
  refine ⟨b, ⟨by omega, hfits, hmin, hmax⟩, ?_⟩
  rw [error_of_le hexact.ge, hexact, Nat.sub_self]

/-- **A pair that is not too slow is matched** by one that is tried. -/
theorem exists_tried (hlow : 6 ≤ baud) (h : Valid c b) (habove : baud ≤ rate c b) :
    ∃ b', Valid (tried baud b') b' ∧ error baud (tried baud b') b' ≤ error baud c b := by
  obtain ⟨hpos, -, hb⟩ := h
  have hexact := (le_rate_iff hpos (by omega)).mp habove
  have hproduct : baud * (b + 1) ≤ 100000000 := by
    by_contra hbig
    rw [Nat.div_eq_of_lt (by omega)] at hexact
    omega
  have htried : tried baud b = 100000000 / (baud * (b + 1)) := tried_eq (by omega)
  by_cases hfits : tried baud b ≤ 65535
  · -- between this pair and `baud`
    rw [← htried] at hexact
    have hpos' : 0 < tried baud b := Nat.lt_of_lt_of_le hpos hexact
    refine ⟨b, ⟨hpos', hfits, hb⟩, ?_⟩
    have hslow : rate (tried baud b) b ≤ rate c b := rate_anti hpos hexact
    rw [error_of_le habove, error_of_le ((le_rate_iff hpos' (by omega)).mpr htried.le)]
    omega
  · have hsmall : baud * (b + 1) ≤ 1525 := by
      by_contra hbig
      exact hfits (htried ▸ (Nat.div_le_div_left (show 1526 ≤ baud * (b + 1) by omega)
        (by decide)).trans (by decide))
    have hrate : baud * 5 ≤ 1525 := (Nat.mul_le_mul_left _ (by omega)).trans hsmall
    obtain ⟨b', hvalid, hzero⟩ := exists_tried_low hlow (by omega)
    exact ⟨b', hvalid, by omega⟩

/-- The rate of a pair is at most the highest one. -/
theorem rate_le_max (h : Valid c b) : rate c b ≤ MAX_RATE := by
  obtain ⟨hpos, -, hb, -⟩ := h
  have hproduct : 1 * 5 ≤ c * (b + 1) := Nat.mul_le_mul hpos (by omega)
  exact (Nat.div_le_div_left hproduct (by decide)).trans (by decide)

end

/-! ### The products -/

/-- A product can be zero exactly for the multiples of `2 ^ 24`. -/
theorem dvd_iff (baud : ℕ) :
    (∃ b, 4 ≤ b ∧ b ≤ 255 ∧ baud * (b + 1) % 2 ^ 32 = 0) ↔ 2 ^ 24 ∣ baud := by
  constructor
  · rintro ⟨b, -, hb, hzero⟩
    obtain ⟨k, r, hodd, hfactor⟩ := Nat.exists_eq_two_pow_mul_odd (Nat.succ_ne_zero b)
    have hk : k ≤ 8 := by
      refine (Nat.pow_le_pow_iff_right (by decide : 1 < 2)).1 ?_
      calc 2 ^ k ≤ 2 ^ k * r := Nat.le_mul_of_pos_right _ hodd.pos
        _ ≤ 2 ^ 8 := by omega
    have hdvd : 2 ^ 32 ∣ baud * 2 ^ k * r := by
      rw [Nat.mul_assoc, ← hfactor]
      exact Nat.dvd_of_mod_eq_zero hzero
    have hdvd' : 2 ^ (32 - k) * 2 ^ k ∣ baud * 2 ^ k := by
      rw [← Nat.pow_add, Nat.sub_add_cancel (by omega)]
      exact ((Nat.coprime_two_left.2 hodd).pow_left 32).dvd_of_dvd_mul_right hdvd
    exact (Nat.pow_dvd_pow 2 (by omega)).trans
      (Nat.dvd_of_mul_dvd_mul_right (Nat.two_pow_pos k) hdvd')
  · rintro ⟨k, rfl⟩
    exact ⟨255, by decide, le_rfl, by omega⟩

/-! ### The loop -/

/-- The pair that is tried for `b`, with its error -/
def candidate (baud b : ℕ) : Best :=
  ⟨UInt32.ofNat (tried baud b), UInt32.ofNat b, UInt32.ofNat (error baud (tried baud b) b)⟩

/-- The reference clock is above every rate, and the rate of the largest divisors is 5. -/
theorem error_lt {baud c b : ℕ} (hbaud : baud < 2 ^ 32) (h : Valid c b) :
    error baud c b < 0xffffffff := by
  obtain ⟨hpos, hmax, -, hb⟩ := h
  have hlow : 5 ≤ 100000000 / (c * (b + 1)) := by
    rw [Nat.le_div_iff_mul_le (Nat.mul_pos hpos (Nat.succ_pos b))]
    calc 5 * (c * (b + 1)) ≤ 5 * (65535 * 256) := by gcongr; omega
      _ ≤ 100000000 := by decide
  have hhigh : 100000000 / (c * (b + 1)) ≤ 100000000 := Nat.div_le_self _ _
  unfold error rate
  omega

/-- A product as the processor computes it -/
theorem toNat_mul_ofNat (a : UInt32) {b : ℕ} (hb : 4 ≤ b ∧ b ≤ 255) :
    (a * (UInt32.ofNat b + 1)).toNat = a.toNat * (b + 1) % 2 ^ 32 := by
  have hsucc : (UInt32.ofNat b + 1).toNat = b + 1 := by
    rw [UInt32.toNat_add, UInt32.toNat_ofNat_of_lt' (Nat.lt_of_le_of_lt hb.2 (by decide))]
    exact Nat.mod_eq_of_lt (by change b + 1 < 2 ^ 32; omega)
  rw [UInt32.toNat_mul, hsucc]

theorem tried_lt (baud b : ℕ) : tried baud b < 2 ^ 32 :=
  Nat.lt_of_le_of_lt (Nat.div_le_self _ _) (by decide)

/-- The distance of two rates as the processor computes it -/
theorem toNat_distance (actual baud : UInt32) :
    (if baud < actual then actual - baud else baud - actual).toNat =
      (actual.toNat - baud.toNat) + (baud.toNat - actual.toNat) := by
  split
  case isTrue h =>
    have hlt : baud.toNat < actual.toNat := h
    rw [UInt32.toNat_sub_of_le _ _ (UInt32.le_of_lt h)]
    omega
  case isFalse h =>
    have hle : actual.toNat ≤ baud.toNat := Nat.le_of_not_lt h
    rw [UInt32.toNat_sub_of_le _ _ (UInt32.not_lt.1 h)]
    omega

/-- One turn takes the pair if it is valid and closer. -/
theorem tryBdiv_eq (baud : UInt32) {b : ℕ} (hb : 4 ≤ b ∧ b ≤ 255) (best : Best) :
    tryBdiv baud (UInt32.ofNat b) best =
      if baud.toNat * (b + 1) % 2 ^ 32 = 0 then none
      else if Valid (tried baud.toNat b) b ∧
          error baud.toNat (tried baud.toNat b) b < best.err.toNat then
        some (candidate baud.toNat b)
      else some best := by
  have hzero : baud * (UInt32.ofNat b + 1) = 0 ↔ baud.toNat * (b + 1) % 2 ^ 32 = 0 := by
    rw [← UInt32.toNat_inj, toNat_mul_ofNat baud hb]
    rfl
  have hnat : (UInt32.ofNat (tried baud.toNat b)).toNat = tried baud.toNat b :=
    UInt32.toNat_ofNat_of_lt' (tried_lt _ _)
  have hc : UART_REF_CLK_HZ / (baud * (UInt32.ofNat b + 1)) =
      UInt32.ofNat (tried baud.toNat b) := by
    rw [← UInt32.toNat_inj, UInt32.toNat_div, toNat_mul_ofNat baud hb, hnat]
    rfl
  have hinvalid : (UInt32.ofNat (tried baud.toNat b) = 0 ∨
      65535 < UInt32.ofNat (tried baud.toNat b)) ↔ ¬ Valid (tried baud.toNat b) b := by
    rw [← UInt32.toNat_inj, UInt32.lt_iff_toNat_lt, hnat]
    change _ = 0 ∨ 65535 < _ ↔ ¬ (_ ∧ _ ∧ _)
    omega
  unfold tryBdiv
  simp only [hzero, hc, hinvalid]
  -- of a valid pair the second product does not wrap
  refine ite_congr rfl (fun _ => rfl) fun _ => ?_
  by_cases hvalid : Valid (tried baud.toNat b) b
  · obtain ⟨hpos, hmax, -⟩ := id hvalid
    have hproduct : (UInt32.ofNat (tried baud.toNat b) * (UInt32.ofNat b + 1)).toNat =
        tried baud.toNat b * (b + 1) := by
      rw [toNat_mul_ofNat _ hb, hnat, Nat.mod_eq_of_lt]
      calc tried baud.toNat b * (b + 1) ≤ 65535 * 256 := by gcongr; omega
        _ < 2 ^ 32 := by decide
    have hne : UInt32.ofNat (tried baud.toNat b) * (UInt32.ofNat b + 1) ≠ 0 := by
      rw [Ne, ← UInt32.toNat_inj, hproduct]
      exact Nat.ne_of_gt (Nat.mul_pos hpos (Nat.succ_pos b))
    have herr := toNat_distance
      (UART_REF_CLK_HZ / (UInt32.ofNat (tried baud.toNat b) * (UInt32.ofNat b + 1))) baud
    rw [UInt32.toNat_div, hproduct] at herr
    have hsame : (if baud < UART_REF_CLK_HZ /
          (UInt32.ofNat (tried baud.toNat b) * (UInt32.ofNat b + 1)) then
        UART_REF_CLK_HZ / (UInt32.ofNat (tried baud.toNat b) * (UInt32.ofNat b + 1)) - baud
      else baud - UART_REF_CLK_HZ /
          (UInt32.ofNat (tried baud.toNat b) * (UInt32.ofNat b + 1))) =
        UInt32.ofNat (error baud.toNat (tried baud.toNat b) b) := by
      rw [← UInt32.toNat_inj, herr, UInt32.toNat_ofNat_of_lt'
        (Nat.lt_trans (error_lt baud.toNat_lt hvalid) (by decide))]
      rfl
    have hlt : UInt32.ofNat (error baud.toNat (tried baud.toNat b) b) < best.err ↔
        error baud.toNat (tried baud.toNat b) b < best.err.toNat := by
      rw [UInt32.lt_iff_toNat_lt, UInt32.toNat_ofNat_of_lt'
        (Nat.lt_trans (error_lt baud.toNat_lt hvalid) (by decide))]
    simp only [hvalid, not_true, if_false, if_neg hne, true_and, hsame, hlt, candidate]
  · simp only [hvalid, not_false_eq_true, if_true, false_and, if_false]

/-- The error of a pair that is tried -/
theorem candidate_err (baud : UInt32) {b : ℕ} (h : Valid (tried baud.toNat b) b) :
    (candidate baud.toNat b).err.toNat = error baud.toNat (tried baud.toNat b) b :=
  UInt32.toNat_ofNat_of_lt' (Nat.lt_trans (error_lt baud.toNat_lt h) (by decide))

/-- A product that is zero stops the loop. -/
theorem foldlM_eq_none (baud : UInt32) {l : List ℕ} (hl : ∀ b ∈ l, 4 ≤ b ∧ b ≤ 255)
    (hzero : ∃ b ∈ l, baud.toNat * (b + 1) % 2 ^ 32 = 0) (best : Best) :
    l.foldlM (fun best b => tryBdiv baud (UInt32.ofNat b) best) best = none := by
  induction l generalizing best with
  | nil => simp at hzero
  | cons b l ih =>
    rw [List.foldlM_cons, tryBdiv_eq baud (hl b List.mem_cons_self)]
    by_cases hb : baud.toNat * (b + 1) % 2 ^ 32 = 0
    · rw [if_pos hb]
      rfl
    · obtain ⟨b', hmem, hzero⟩ := hzero
      -- the turn before the one that stops the loop may take its pair or not
      have hmem' : b' ∈ l := (List.mem_cons.1 hmem).resolve_left fun h => hb (h ▸ hzero)
      rw [if_neg hb, ← apply_ite some]
      exact ih (fun b h => hl b (List.mem_cons_of_mem _ h)) ⟨b', hmem', hzero⟩ _

/-- Without one, the loop ends with the best of the pairs that it tries, or with the one that it
started from. -/
theorem foldlM_spec (baud : UInt32) {l : List ℕ} (hl : ∀ b ∈ l, 4 ≤ b ∧ b ≤ 255)
    (hne : ∀ b ∈ l, baud.toNat * (b + 1) % 2 ^ 32 ≠ 0) (best : Best) :
    ∃ best', l.foldlM (fun best b => tryBdiv baud (UInt32.ofNat b) best) best = some best' ∧
      (best' = best ∨ ∃ b ∈ l, Valid (tried baud.toNat b) b ∧ best' = candidate baud.toNat b) ∧
      best'.err ≤ best.err ∧
      ∀ b ∈ l, Valid (tried baud.toNat b) b →
        best'.err.toNat ≤ error baud.toNat (tried baud.toNat b) b := by
  induction l generalizing best with
  | nil => exact ⟨best, rfl, .inl rfl, UInt32.le_refl _, by simp⟩
  | cons b l ih =>
    have ih := ih (fun b h => hl b (List.mem_cons_of_mem _ h))
      fun b h => hne b (List.mem_cons_of_mem _ h)
    rw [List.foldlM_cons, tryBdiv_eq baud (hl b List.mem_cons_self),
      if_neg (hne b List.mem_cons_self), ← apply_ite some]
    split
    case isTrue h =>
      obtain ⟨best', hrun, hfrom, hle, hbest⟩ := ih (candidate baud.toNat b)
      have herr := candidate_err baud h.1
      have hle' := UInt32.le_iff_toNat_le.1 hle
      refine ⟨best', hrun, .inr ?_, UInt32.le_iff_toNat_le.2 (by omega), ?_⟩
      · obtain rfl | ⟨b', hmem, h'⟩ := hfrom
        · exact ⟨b, List.mem_cons_self, h.1, rfl⟩
        · exact ⟨b', List.mem_cons_of_mem _ hmem, h'⟩
      · rintro b' (_ | ⟨_, hmem⟩) hvalid
        · exact herr ▸ hle'
        · exact hbest b' hmem hvalid
    case isFalse h =>
      obtain ⟨best', hrun, hfrom, hle, hbest⟩ := ih best
      refine ⟨best', hrun, hfrom.imp_right ?_, hle, ?_⟩
      · rintro ⟨b', hmem, h'⟩
        exact ⟨b', List.mem_cons_of_mem _ hmem, h'⟩
      · rintro b' (_ | ⟨_, hmem⟩) hvalid
        · exact Nat.le_trans (UInt32.le_iff_toNat_le.1 hle)
            (Nat.le_of_not_lt fun hlt => h ⟨hvalid, hlt⟩)
        · exact hbest b' hmem hvalid

/-! ### The best of all -/

/-- Where `62` and `13` are better than their neighbours, they are tried themselves. -/
theorem valid_tried {baud : ℕ} (hlow : error baud 62 13 ≤ error baud 63 13)
    (hhigh : error baud 62 13 ≤ error baud 61 13) : Valid (tried baud 13) 13 := by
  simp only [error, rate, Nat.reduceAdd, Nat.reduceMul, Nat.reduceDiv] at hlow hhigh
  have hproduct : baud * (13 + 1) % 2 ^ 32 = baud * 14 := by omega
  rw [tried, hproduct]
  refine ⟨?_, ?_, by decide, by decide⟩
  · rw [Nat.le_div_iff_mul_le (by omega)]
    omega
  · exact Nat.le_trans (Nat.div_le_div_left (show 1600000 ≤ baud * 14 by omega) (by decide))
      (by decide)

theorem mem_range_iff {b : ℕ} : b ∈ List.range' 4 252 ↔ 4 ≤ b ∧ b ≤ 255 := by
  rw [List.mem_range'_1]
  omega

/-- The search, when no product is zero -/
theorem computeBaud_spec (baud : UInt32) (hdvd : ¬ 2 ^ 24 ∣ baud.toNat) :
    ∃ best : Best, computeBaud baud = some (best.cd, best.bdiv) ∧
      (best = ⟨62, 13, 0xffffffff⟩ ∨
        ∃ b, Valid (tried baud.toNat b) b ∧ best = candidate baud.toNat b) ∧
      ∀ b, Valid (tried baud.toNat b) b →
        best.err.toNat ≤ error baud.toNat (tried baud.toNat b) b := by
  have hne : ∀ b ∈ List.range' 4 252, baud.toNat * (b + 1) % 2 ^ 32 ≠ 0 := fun b hb hzero =>
    hdvd ((dvd_iff _).1 ⟨b, (mem_range_iff.1 hb).1, (mem_range_iff.1 hb).2, hzero⟩)
  obtain ⟨best, hrun, hfrom, -, hbest⟩ :=
    foldlM_spec baud (fun b => mem_range_iff.1) hne ⟨62, 13, 0xffffffff⟩
  refine ⟨best, by rw [computeBaud, hrun]; rfl, hfrom.imp_right ?_, ?_⟩
  · rintro ⟨b, -, h⟩
    exact ⟨b, h⟩
  · exact fun b h => hbest b (mem_range_iff.2 h.2.2) h

/-- The divisors of a pair that is tried -/
theorem toNat_candidate {baud b : ℕ} (h : Valid (tried baud b) b) :
    (candidate baud b).cd.toNat = tried baud b ∧ (candidate baud b).bdiv.toNat = b :=
  ⟨UInt32.toNat_ofNat_of_lt' (tried_lt _ _),
    UInt32.toNat_ofNat_of_lt' (Nat.lt_of_le_of_lt h.2.2.2 (by decide))⟩

/-- The best divisors, when they are found, are among those that are tried. -/
theorem Optimal.best_tried {baud : UInt32} (h : Optimal baud) :
    ¬ 2 ^ 24 ∣ baud.toNat ∧ ∃ b, Valid (tried baud.toNat b) b ∧
      ∀ c b', Valid c b' → error baud.toNat (tried baud.toNat b) b ≤ error baud.toNat c b' := by
  obtain ⟨cd, bdiv, hrun, hvalid, hbest⟩ := h
  have hdvd : ¬ 2 ^ 24 ∣ baud.toNat := by
    intro hdvd
    obtain ⟨b, hlow, hhigh, hzero⟩ := (dvd_iff _).2 hdvd
    rw [computeBaud, foldlM_eq_none baud (fun b => mem_range_iff.1)
      ⟨b, mem_range_iff.2 ⟨hlow, hhigh⟩, hzero⟩] at hrun
    cases hrun
  refine ⟨hdvd, ?_⟩
  obtain ⟨best, hbestRun, hfrom, hle⟩ := computeBaud_spec baud hdvd
  rw [hrun, Option.some.injEq, Prod.mk.injEq] at hbestRun
  obtain ⟨rfl, rfl⟩ := hbestRun
  obtain rfl | ⟨b, hvalid', rfl⟩ := hfrom
  · -- nothing was taken, so `62` and `13` are the best by chance, which does not happen
    have htried := valid_tried (hbest 63 13 (by decide)) (hbest 61 13 (by decide))
    exact absurd (Nat.lt_of_le_of_lt (hle 13 htried) (error_lt baud.toNat_lt htried)) (by decide)
  · rw [(toNat_candidate hvalid').1, (toNat_candidate hvalid').2] at hbest
    exact ⟨b, hvalid', hbest⟩

/-- They are found when every pair is matched by one that is tried. -/
theorem optimal_of_tried {baud : UInt32} (hdvd : ¬ 2 ^ 24 ∣ baud.toNat)
    (h : ∀ c b, Valid c b → ∃ b', Valid (tried baud.toNat b') b' ∧
      error baud.toNat (tried baud.toNat b') b' ≤ error baud.toNat c b) : Optimal baud := by
  obtain ⟨best, hrun, hfrom, hle⟩ := computeBaud_spec baud hdvd
  obtain rfl | ⟨b, hvalid, rfl⟩ := hfrom
  · obtain ⟨b, hvalid, -⟩ := h 62 13 (by decide)
    exact absurd (Nat.lt_of_le_of_lt (hle b hvalid) (error_lt baud.toNat_lt hvalid)) (by decide)
  · refine ⟨_, _, hrun, ?_, fun c b' hcb => ?_⟩
    · rwa [(toNat_candidate hvalid).1, (toNat_candidate hvalid).2]
    · obtain ⟨b'', hvalid'', hle''⟩ := h c b' hcb
      rw [(toNat_candidate hvalid).1, (toNat_candidate hvalid).2, ← candidate_err baud hvalid]
      exact Nat.le_trans (hle b'' hvalid'') hle''

/-- Above the highest rate only the fastest pair is the best one, and the wrapped product decides
whether it is tried. -/
theorem wraps_of_best {baud b : ℕ} (hmax : MAX_RATE < baud) (hvalid : Valid (tried baud b) b)
    (hbest : error baud (tried baud b) b ≤ error baud 1 4) :
    50000000 < 5 * baud % 2 ^ 32 ∧ 5 * baud % 2 ^ 32 ≤ 100000000 := by
  have hfast : MAX_RATE ≤ rate (tried baud b) b := by
    have hrate : rate (tried baud b) b < baud := Nat.lt_of_le_of_lt (rate_le_max hvalid) hmax
    rw [error_of_lt hrate, error_of_lt (show rate 1 4 < baud from hmax)] at hbest
    have htop : rate 1 4 = MAX_RATE := by decide
    omega
  obtain ⟨hpos, -, hb, -⟩ := hvalid
  have hproduct : 0 < tried baud b * (b + 1) := Nat.mul_pos hpos (Nat.succ_pos b)
  rw [rate, MAX_RATE, Nat.le_div_iff_mul_le hproduct] at hfast
  obtain rfl : b = 4 := by
    have hone := Nat.le_mul_of_pos_left (b + 1) hpos
    omega
  have hone : tried baud 4 = 1 := by omega
  rw [tried, show baud * (4 + 1) = 5 * baud by omega] at hone
  have hpos' : 0 < 5 * baud % 2 ^ 32 := by
    by_contra hzero
    rw [Nat.eq_zero_of_not_pos hzero, Nat.div_zero] at hone
    omega
  rw [Nat.div_eq_iff hpos'] at hone
  omega

/-- Up to the highest rate the best of the pairs that are tried is not too slow. -/
theorem above_of_best {baud b : ℕ} (hlow : 6 ≤ baud) (hmax : baud ≤ MAX_RATE)
    (hvalid : Valid (tried baud b) b) (hbest : error baud (tried baud b) b ≤ error baud 1 4) :
    baud ≤ rate (tried baud b) b := by
  by_cases hwrap : baud * (b + 1) < 2 ^ 32
  · exact (le_rate_iff hvalid.1 (by omega)).mpr (tried_eq hwrap).le
  · -- a product wraps for large `b` only, and their rates are too low
    have htop : rate 1 4 = MAX_RATE := by decide
    have hlarge : 215 ≤ b + 1 := by
      by_contra hsmall
      have hproduct : baud * (b + 1) ≤ 20000000 * 214 := Nat.mul_le_mul hmax (by omega)
      omega
    have hslow : rate (tried baud b) b ≤ 465116 :=
      (Nat.div_le_div_left (show 1 * 215 ≤ _ from Nat.mul_le_mul hvalid.1 hlarge)
        (by decide)).trans (by decide)
    have hhigh : 2 ^ 24 ≤ baud := by
      by_contra hsmall
      have hproduct : baud * (b + 1) ≤ (2 ^ 24 - 1) * 256 :=
        Nat.mul_le_mul (by omega) (by have := hvalid.2.2.2; omega)
      omega
    have hrate : rate (tried baud b) b < baud := by omega
    rw [error_of_lt hrate, error_of_le (htop ▸ hmax), htop, MAX_RATE] at hbest
    omega

/-- Every pair is matched by one that is tried, for the rates that are reached. -/
theorem Reached.exists_tried {baud c b : ℕ} (h : Reached baud) (hcb : Valid c b) :
    ∃ b', Valid (tried baud b') b' ∧ error baud (tried baud b') b' ≤ error baud c b := by
  by_cases hmax : baud ≤ MAX_RATE
  · by_cases hfast : baud ≤ rate c b
    · exact Uart.exists_tried h.low hcb hfast
    · -- a pair that is too slow, by way of one that is not
      obtain ⟨c', b', hcb', hfast', hclose⟩ := h.above hmax c b hcb (Nat.lt_of_not_le hfast)
      obtain ⟨b'', hvalid, hle⟩ := Uart.exists_tried h.low hcb' hfast'
      rw [error_of_le hfast'] at hle
      rw [error_of_lt (Nat.lt_of_not_le hfast)]
      exact ⟨b'', hvalid, hle.trans hclose⟩
  · obtain ⟨hmin, hwrap⟩ := h.wraps (Nat.lt_of_not_le hmax)
    have hone : tried baud 4 = 1 := by
      rw [tried, show baud * (4 + 1) = 5 * baud by omega, Nat.div_eq_iff (Nat.zero_lt_of_lt hmin)]
      omega
    have hrate : rate c b ≤ rate 1 4 := rate_le_max hcb
    have hover : rate 1 4 < baud := Nat.lt_of_not_le hmax
    refine ⟨4, ?_, ?_⟩
    · rw [hone]
      decide
    · rw [hone, error_of_lt hover, error_of_lt (Nat.lt_of_le_of_lt hrate hover)]
      omega

/-- The divisors that are found are the best ones exactly for the rates that are reached. -/
theorem optimal_iff (baud : UInt32) : Optimal baud ↔ Reached baud.toNat := by
  constructor
  · intro h
    obtain ⟨hdvd, b, hvalid, hbest⟩ := h.best_tried
    have hlow : 6 ≤ baud.toNat := by
      by_contra hsmall
      -- below, no divisor fits
      have hproduct : baud.toNat * (b + 1) ≤ 5 * 256 :=
        Nat.mul_le_mul (by omega) (by have := hvalid.2.2.2; omega)
      have hpos : 0 < baud.toNat * (b + 1) :=
        Nat.mul_pos (Nat.pos_of_ne_zero fun h => hdvd (h ▸ Nat.dvd_zero _)) (Nat.succ_pos b)
      have hlarge : 100000000 / (5 * 256) ≤ tried baud.toNat b := by
        rw [tried_eq (by omega)]
        exact Nat.div_le_div_left hproduct hpos
      have hfits := hvalid.2.1
      omega
    refine ⟨hdvd, hlow, fun hmax c b' hcb hslow => ?_, fun hmax =>
      wraps_of_best hmax hvalid (hbest 1 4 (by decide))⟩
    have habove := above_of_best hlow hmax hvalid (hbest 1 4 (by decide))
    have hle := hbest c b' hcb
    rw [error_of_le habove, error_of_lt hslow] at hle
    exact ⟨_, b, hvalid, habove, hle⟩
  · exact fun h => optimal_of_tried h.nonzero fun _ _ => h.exists_tried

/-- At 921600 baud, `18` and `5` are found, and `1` and `108` are closer. -/
theorem not_optimal_921600 : ¬ Optimal 921600 := by
  rintro ⟨cd, bdiv, hrun, -, hbest⟩
  have hfound : computeBaud 921600 = some (18, 5) := by decide +kernel
  rw [hfound, Option.some.injEq, Prod.mk.injEq] at hrun
  obtain ⟨rfl, rfl⟩ := hrun
  exact absurd (hbest 1 108 (by decide)) (by decide)

end Uart
