import Mathlib.Data.List.Basic
import Mathlib.Data.UInt
import Mathlib.Tactic.IntervalCases

/-!
# UTF-8

A decoder that reads one byte at a time. A sequence that the next byte does not continue is given
up as one broken sequence, and that byte begins the next one; so is a sequence at the end that
still lacks bytes.

## Main definitions

- `Pending`, `step`, `run` — the decoder
- `decode` — the characters and the broken sequences of a byte string
- `fromUtf8`, `fromUtf8Lossy` — broken sequences as an error, or replaced
- `Inside` — a byte string is cut inside a sequence

## Main results

- `fromUtf8_encode` — what was encoded is decoded
- `decode_append`, `countP_decode_append_lt` — which cuts can be seen
-/

namespace Utf8

/-! ### The decoder -/

/-- A sequence that has begun: its bits so far, the range of the next byte and the ranges of the
bytes behind that. -/
structure Pending where
  value : ℕ
  next : ℕ × ℕ
  rest : List (ℕ × ℕ)
  deriving DecidableEq, Repr

/-- The range of a byte inside a sequence. -/
def tail : ℕ × ℕ := (0x80, 0xBF)

/-- The sequences of more than one byte, by their first byte. -/
def lead (b : ℕ) : Option Pending :=
  if 0xC2 ≤ b ∧ b ≤ 0xDF then some ⟨b - 0xC0, tail, []⟩
  else if b = 0xE0 then some ⟨0x0, (0xA0, 0xBF), [tail]⟩
  else if b = 0xED then some ⟨0xD, (0x80, 0x9F), [tail]⟩
  else if 0xE1 ≤ b ∧ b ≤ 0xEF then some ⟨b - 0xE0, tail, [tail]⟩
  else if b = 0xF0 then some ⟨0x0, (0x90, 0xBF), [tail, tail]⟩
  else if b = 0xF4 then some ⟨0x4, (0x80, 0x8F), [tail, tail]⟩
  else if 0xF1 ≤ b ∧ b ≤ 0xF3 then some ⟨b - 0xF0, tail, [tail, tail]⟩
  else none

/-- A byte continues the sequence. -/
def Pending.Fits (p : Pending) (b : UInt8) : Prop := p.next.1 ≤ b.toNat ∧ b.toNat ≤ p.next.2

instance (p : Pending) (b : UInt8) : Decidable (p.Fits b) := inferInstanceAs (Decidable (_ ∧ _))

/-- The sequence with a byte more: complete with it, or not yet. -/
def Pending.extend (p : Pending) (b : UInt8) : List (Option Char) × Option Pending :=
  match p.rest with
  | [] => ([some (Char.ofNat (64 * p.value + (b.toNat - 0x80)))], none)
  | next :: rest => ([], some ⟨64 * p.value + (b.toNat - 0x80), next, rest⟩)

/-- The first byte of a sequence: what is complete with it, and what has begun. -/
def first (b : UInt8) : List (Option Char) × Option Pending :=
  if b.toNat < 0x80 then ([some (Char.ofNat b.toNat)], none)
  else
    match lead b.toNat with
    | some p => ([], some p)
    | none => ([none], none)

/-- One byte. -/
def step : Option Pending → UInt8 → List (Option Char) × Option Pending
  | none, b => first b
  | some p, b => if p.Fits b then p.extend b else (none :: (first b).1, (first b).2)

def run : Option Pending → List UInt8 → List (Option Char) × Option Pending
  | p, [] => ([], p)
  | p, b :: bytes => ((step p b).1 ++ (run (step p b).2 bytes).1, (run (step p b).2 bytes).2)

/-- What the end makes of a sequence that has begun. -/
def finish : Option Pending → List (Option Char)
  | none => []
  | some _ => [none]

/-- What becomes of a byte string if `p` has begun before it. -/
def decodeFrom (p : Option Pending) (bytes : List UInt8) : List (Option Char) :=
  (run p bytes).1 ++ finish (run p bytes).2

/-- The characters of a byte string, with `none` for every broken sequence. -/
def decode (bytes : List UInt8) : List (Option Char) := decodeFrom none bytes

/-- `std::str::from_utf8` -/
def fromUtf8 (bytes : List UInt8) : Option (List Char) := (decode bytes).mapM id

/-- `String::from_utf8_lossy` -/
def fromUtf8Lossy (bytes : List UInt8) : List Char :=
  (decode bytes).map fun c => c.getD '\uFFFD'

/-- The bytes of a string. -/
def encode (text : List Char) : List UInt8 := text.flatMap String.utf8EncodeChar

/-! ### Cuts -/

theorem decodeFrom_cons (q : Option Pending) (b : UInt8) (bytes : List UInt8) :
    decodeFrom q (b :: bytes) = (step q b).1 ++ decodeFrom (step q b).2 bytes := by
  simp [decodeFrom, run]

theorem run_append (p : Option Pending) (xs ys : List UInt8) :
    run p (xs ++ ys) =
      ((run p xs).1 ++ (run (run p xs).2 ys).1, (run (run p xs).2 ys).2) := by
  induction xs generalizing p with
  | nil => rfl
  | cons b xs ih => simp [run, ih]

theorem decodeFrom_append (q : Option Pending) (xs ys : List UInt8) :
    decodeFrom q (xs ++ ys) = (run q xs).1 ++ decodeFrom (run q xs).2 ys := by
  simp [decodeFrom, run_append]

/-- A cut falls inside a sequence: one has begun, and the next byte continues it. -/
def Inside (xs ys : List UInt8) : Prop :=
  ∃ p b rest, (run none xs).2 = some p ∧ ys = b :: rest ∧ p.Fits b

/-- Of what is behind a cut, only the first byte matters. -/
theorem Inside.append {xs ys : List UInt8} (h : Inside xs ys) (zs : List UInt8) :
    Inside xs (ys ++ zs) := by
  obtain ⟨p, b, rest, hstate, rfl, hfits⟩ := h
  exact ⟨p, b, rest ++ zs, hstate, rfl, hfits⟩

/-- A byte that does not fit is the first one of its own sequence. -/
theorem decodeFrom_of_not_fits {p : Pending} {b : UInt8} (h : ¬ p.Fits b) (bytes : List UInt8) :
    decodeFrom (some p) (b :: bytes) = none :: decode (b :: bytes) := by
  simp [decode, decodeFrom_cons, step, h]

theorem run_of_not_fits {p : Pending} {b : UInt8} (h : ¬ p.Fits b) (bytes : List UInt8) :
    (run (some p) (b :: bytes)).2 = (run none (b :: bytes)).2 := by
  simp [run, step, h]

/-- A cut between two sequences cannot be seen. -/
theorem decode_append {xs ys : List UInt8} (h : ¬ Inside xs ys) :
    decode (xs ++ ys) = decode xs ++ decode ys := by
  have hleft : decode xs = (run none xs).1 ++ finish (run none xs).2 := rfl
  rw [decode, decodeFrom_append, hleft, List.append_assoc]
  congr 1
  cases hstate : (run none xs).2 with
  | none => rfl
  | some p =>
    cases ys with
    | nil => rfl
    | cons b ys =>
      have hfits : ¬ p.Fits b := fun hfits => h ⟨p, b, ys, hstate, rfl, hfits⟩
      exact decodeFrom_of_not_fits hfits ys

/-- Behind such a cut the decoder is where it would be without what came before. -/
theorem run_append_state {xs ys : List UInt8} (h : ¬ Inside xs ys) (hne : ys ≠ []) :
    (run none (xs ++ ys)).2 = (run none ys).2 := by
  rw [run_append]
  cases hstate : (run none xs).2 with
  | none => rfl
  | some p =>
    cases ys with
    | nil => exact absurd rfl hne
    | cons b ys =>
      have hfits : ¬ p.Fits b := fun hfits => h ⟨p, b, ys, hstate, rfl, hfits⟩
      exact run_of_not_fits hfits ys

/-! ### Bytes inside a sequence -/

/-- The byte ranges of a sequence that has begun are ranges of continuation bytes. -/
def Pending.Sound (p : Pending) : Prop :=
  ∀ r ∈ p.next :: p.rest, 0x80 ≤ r.1 ∧ r.2 ≤ 0xBF

theorem lead_sound {b : ℕ} {p : Pending} (h : lead b = some p) : p.Sound := by
  unfold lead at h
  split_ifs at h
  all_goals
    simp only [Option.some.injEq] at h
    subst h
    simp [Pending.Sound, tail]

theorem first_sound {b : UInt8} {p : Pending} (h : (first b).2 = some p) : p.Sound := by
  unfold first at h
  split at h
  · cases h
  · split at h
    · next hlead =>
      cases h
      exact lead_sound hlead
    · cases h

theorem extend_sound {p p' : Pending} {b : UInt8} (hp : p.Sound)
    (h : (p.extend b).2 = some p') : p'.Sound := by
  unfold Pending.extend at h
  split at h
  · cases h
  · next hrest =>
    simp only [Option.some.injEq] at h
    subst h
    intro r hr
    exact hp r (List.mem_cons_of_mem _ (hrest ▸ hr))

theorem step_sound {q : Option Pending} {b : UInt8} {p : Pending}
    (hq : ∀ p', q = some p' → p'.Sound) (h : (step q b).2 = some p) : p.Sound := by
  cases q with
  | none => exact first_sound h
  | some p' =>
    by_cases hfits : p'.Fits b
    · rw [step, if_pos hfits] at h
      exact extend_sound (hq p' rfl) h
    · rw [step, if_neg hfits] at h
      exact first_sound h

theorem run_sound {q : Option Pending} (hq : ∀ p', q = some p' → p'.Sound) (bytes : List UInt8)
    {p : Pending} (h : (run q bytes).2 = some p) : p.Sound := by
  induction bytes generalizing q with
  | nil => exact hq p h
  | cons b bytes ih => exact ih (fun p' hp' => step_sound hq hp') h

/-- A byte that continues a sequence begins none. -/
theorem first_of_fits {p : Pending} {b : UInt8} (hsound : p.Sound) (hfits : p.Fits b) :
    first b = ([none], none) := by
  obtain ⟨hlow, hhigh⟩ := hsound p.next List.mem_cons_self
  obtain ⟨hmin, hmax⟩ := hfits
  have hlead : lead b.toNat = none := by
    unfold lead
    split_ifs <;> first | omega | rfl
  rw [first, if_neg (by omega), hlead]

section

variable {P : Option Char → Bool} (hP : P none = true)

include hP

/-- A byte that continues the sequence gives no more than it would on its own. -/
theorem countP_decodeFrom_of_fits {p : Pending} {b : UInt8} {bytes : List UInt8}
    (hsound : p.Sound) (hfits : p.Fits b) (hrest : ∀ p', p'.Sound →
      (decodeFrom (some p') bytes).countP P ≤ (decode bytes).countP P + 1) :
    (decodeFrom (some p) (b :: bytes)).countP P ≤ (decode (b :: bytes)).countP P := by
  have hfirst := first_of_fits hsound hfits
  rw [decode, decodeFrom_cons, decodeFrom_cons]
  simp only [step, hfirst, if_pos hfits, List.countP_append, List.countP_singleton, hP, if_true]
  cases hextend : (p.extend b).2 with
  | none =>
    have hone : (p.extend b).1.length = 1 := by
      unfold Pending.extend at hextend ⊢
      split at hextend <;> simp_all
    exact Nat.add_le_add_right (hone ▸ List.countP_le_length) _
  | some p' =>
    have hnone : (p.extend b).1 = [] := by
      unfold Pending.extend at hextend ⊢
      split at hextend <;> simp_all
    have hle := hrest p' (extend_sound hsound hextend)
    rw [hnone, List.countP_nil, Nat.zero_add, Nat.add_comm]
    exact hle

/-- A sequence that has begun gives at most one more than nothing. -/
theorem countP_decodeFrom_le {p : Pending} (hsound : p.Sound) (bytes : List UInt8) :
    (decodeFrom (some p) bytes).countP P ≤ (decode bytes).countP P + 1 := by
  induction bytes generalizing p with
  | nil => exact List.countP_le_length
  | cons b bytes ih =>
    by_cases hfits : p.Fits b
    · exact Nat.le_succ_of_le (countP_decodeFrom_of_fits hP hsound hfits fun _ => ih)
    · rw [decodeFrom_of_not_fits hfits, List.countP_cons_of_pos hP]

/-- **A cut inside a sequence can be seen**: there is more that counts, if broken sequences do. -/
theorem countP_decode_append_lt {xs ys : List UInt8} (h : Inside xs ys) :
    (decode (xs ++ ys)).countP P < (decode xs).countP P + (decode ys).countP P := by
  obtain ⟨p, b, rest, hstate, rfl, hfits⟩ := h
  have hsound : p.Sound := run_sound (fun _ hp => by cases hp) xs hstate
  have hle := countP_decodeFrom_of_fits hP hsound hfits fun _ hp =>
    countP_decodeFrom_le hP hp rest
  have hone : (decode xs).countP P = (run none xs).1.countP P + 1 := by
    simp [decode, decodeFrom, hstate, finish, hP]
  rw [decode, decodeFrom_append, hstate, List.countP_append, hone]
  omega

theorem countP_decode_append_le (xs ys : List UInt8) :
    (decode (xs ++ ys)).countP P ≤ (decode xs).countP P + (decode ys).countP P := by
  by_cases h : Inside xs ys
  · exact Nat.le_of_lt (countP_decode_append_lt hP h)
  · rw [decode_append h, List.countP_append]

end

/-! ### Reading back -/

/-- A byte in a sequence that has begun. -/
theorem step_fits {p : Pending} {n : ℕ} (hn : n < 64)
    (hlow : p.next.1 ≤ n + 0x80) (hhigh : n + 0x80 ≤ p.next.2) :
    step (some p) (UInt8.ofNat (n + 0x80)) =
      match p.rest with
      | [] => ([some (Char.ofNat (64 * p.value + n))], none)
      | next :: rest => ([], some ⟨64 * p.value + n, next, rest⟩) := by
  have hvalue : (UInt8.ofNat (n + 0x80)).toNat = n + 0x80 := by
    simp
    omega
  have hfits : p.Fits (UInt8.ofNat (n + 0x80)) := by
    rw [Pending.Fits, hvalue]
    exact ⟨hlow, hhigh⟩
  rw [step, if_pos hfits, Pending.extend, hvalue, Nat.add_sub_cancel]

/-- The first byte of a sequence of three. -/
theorem lead_three {n : ℕ} (h : n < 16) :
    lead (n + 0xE0) = some ⟨n, (if n = 0 then 0xA0 else 0x80, if n = 0xD then 0x9F else 0xBF),
      [tail]⟩ := by
  interval_cases n <;> rfl

/-- The first byte of a sequence of four. -/
theorem lead_four {n : ℕ} (h : n < 5) :
    lead (n + 0xF0) = some ⟨n, (if n = 0 then 0x90 else 0x80, if n = 4 then 0x8F else 0xBF),
      [tail, tail]⟩ := by
  interval_cases n <;> rfl

theorem step_lead {n : ℕ} {p : Pending} (hlow : 0x80 ≤ n) (hhigh : n < 0x100)
    (h : lead n = some p) : step none (UInt8.ofNat n) = ([], some p) := by
  have hvalue : (UInt8.ofNat n).toNat = n := UInt8.toNat_ofNat_of_lt' hhigh
  rw [step, first, hvalue, if_neg (by omega), h]

/-- The bytes of a character -/
theorem encodeChar_eq (c : Char) : String.utf8EncodeChar c =
    if c.toNat ≤ 0x7f then [UInt8.ofNat c.toNat]
    else if c.toNat ≤ 0x7ff then
      [UInt8.ofNat (c.toNat / 64 % 0x20 + 0xc0), UInt8.ofNat (c.toNat % 0x40 + 0x80)]
    else if c.toNat ≤ 0xffff then
      [UInt8.ofNat (c.toNat / 4096 % 0x10 + 0xe0), UInt8.ofNat (c.toNat / 64 % 0x40 + 0x80),
        UInt8.ofNat (c.toNat % 0x40 + 0x80)]
    else
      [UInt8.ofNat (c.toNat / 262144 % 0x08 + 0xf0), UInt8.ofNat (c.toNat / 4096 % 0x40 + 0x80),
        UInt8.ofNat (c.toNat / 64 % 0x40 + 0x80), UInt8.ofNat (c.toNat % 0x40 + 0x80)] :=
  rfl

/-- A character is read back from its bytes. -/
theorem run_encodeChar (c : Char) : run none (String.utf8EncodeChar c) = ([some c], none) := by
  have hscalar : c.toNat < 0xD800 ∨ 0xDFFF < c.toNat ∧ c.toNat < 0x110000 := c.valid
  have hchar : Char.ofNat c.toNat = c := Char.ofNat_toNat c
  rw [encodeChar_eq]
  generalize c.toNat = v at *
  have hlow : v % 64 < 64 := Nat.mod_lt _ (by decide)
  have hmid : v / 64 % 64 < 64 := Nat.mod_lt _ (by decide)
  have hhigh : v / 4096 % 64 < 64 := Nat.mod_lt _ (by decide)
  -- one case for each number of bytes
  split_ifs with hone htwo hthree
  · have hvalue : (UInt8.ofNat v).toNat = v :=
      UInt8.toNat_ofNat_of_lt' (show v < 256 by omega)
    rw [run, run, step, first, hvalue, if_pos (by omega), hchar]
    rfl
  · have hlead : lead (v / 64 % 32 + 0xC0) = some ⟨v / 64, tail, []⟩ := by
      have hbits : v / 64 % 32 + 0xC0 - 0xC0 = v / 64 := by omega
      rw [lead, if_pos (by omega), hbits]
    have hvalue : 64 * (v / 64) + v % 64 = v := Nat.div_add_mod v 64
    rw [run, step_lead (by omega) (by omega) hlead, run,
      step_fits hlow (by simp [tail]) (by simp [tail]; omega)]
    simp [run, hvalue, hchar]
  · have hlead := @lead_three (v / 4096 % 16) (by omega)
    have hvalue : 64 * (64 * (v / 4096 % 16) + v / 64 % 64) + v % 64 = v := by omega
    rw [run, step_lead (by omega) (by omega) hlead, run,
      step_fits hmid (by dsimp only; split_ifs <;> omega) (by dsimp only; split_ifs <;> omega), run]
    dsimp only
    rw [step_fits hlow (by simp [tail]) (by simp [tail]; omega)]
    simp [run, hvalue, hchar]
  · have hlead := @lead_four (v / 262144 % 8) (by omega)
    have hvalue :
        64 * (64 * (64 * (v / 262144 % 8) + v / 4096 % 64) + v / 64 % 64) + v % 64 = v := by omega
    rw [run, step_lead (by omega) (by omega) hlead, run,
      step_fits hhigh (by dsimp only; split_ifs <;> omega) (by dsimp only; split_ifs <;> omega), run]
    dsimp only
    rw [step_fits hmid (by simp [tail]) (by simp [tail]; omega), run]
    dsimp only
    rw [step_fits hlow (by simp [tail]) (by simp [tail]; omega)]
    simp [run, hvalue, hchar]

theorem run_encode (text : List Char) : run none (encode text) = (text.map some, none) := by
  induction text with
  | nil => rfl
  | cons c text ih =>
    rw [encode, List.flatMap_cons, ← encode, run_append, run_encodeChar, ih]
    rfl

/-- **What was encoded is decoded.** -/
theorem fromUtf8_encode (text : List Char) : fromUtf8 (encode text) = some text := by
  have hpure : (text.map some).mapM id = some (text.map id) := by
    rw [List.mapM_map]
    exact List.mapM_pure
  rw [fromUtf8, decode, decodeFrom, run_encode, finish, List.append_nil, hpure, List.map_id]

/-- Only the character zero has a byte that is zero. -/
theorem zero_not_mem_encodeChar {c : Char} (h : c ≠ '\x00') : 0 ∉ String.utf8EncodeChar c := by
  have hne : c.toNat ≠ 0 := fun hc => h (Char.toNat_inj.1 hc)
  have hbyte : ∀ n < 256, n ≠ 0 → (0 : UInt8) ≠ UInt8.ofNat n := by
    intro n hn hpos hzero
    have hvalue := congrArg UInt8.toNat hzero
    rw [UInt8.toNat_ofNat_of_lt' hn] at hvalue
    exact hpos hvalue.symm
  rw [encodeChar_eq]
  generalize c.toNat = v at hne
  split_ifs
  all_goals
    simp only [List.mem_cons, List.not_mem_nil, or_false, not_or]
    repeat' apply And.intro
  all_goals exact hbyte _ (by omega) (by omega)

theorem zero_not_mem_encode {text : List Char} (h : '\x00' ∉ text) : 0 ∉ encode text := by
  intro hmem
  obtain ⟨c, hc, hbyte⟩ := List.mem_flatMap.1 hmem
  exact zero_not_mem_encodeChar (fun heq => h (heq ▸ hc)) hbyte

end Utf8
