import Mathlib.Algebra.GroupWithZero.Nat
import Zub1cg.Library.Json

/-!
# Packets in hexadecimal (`parse_hex` in `model/src/main.rs`)

The length is counted in bytes and the text is cut every two bytes, but the pieces are strings, and
what reads their digits is the parser for whole numbers, which knows signs.

## Main definitions

- `sliceBytes` — a slice of a string, between two positions in bytes
- `fromStrRadix` — `u8::from_str_radix(_, 16)`
- `parseHex` — the packet, an error or a panic
- `hexBytes` — the bytes that hexadecimal digits denote

## Main results

- `parsePairs_eq` — what becomes of the pairs
- `parseHex_iff` — the texts on which exactly hexadecimal digits are accepted
-/

namespace Model

open Json (hexValue)

/-! ### Strings by their bytes -/

/-- `len()` -/
def byteLen (text : List Char) : ℕ := (text.map Char.utf8Size).sum

/-- The text from a position on, or `none` if it is inside a character or behind the end. -/
def dropBytes : List Char → ℕ → Option (List Char)
  | text, 0 => some text
  | [], _ + 1 => none
  | c :: text, n + 1 => if c.utf8Size ≤ n + 1 then dropBytes text (n + 1 - c.utf8Size) else none

/-- The text up to a position. -/
def takeBytes : List Char → ℕ → Option (List Char)
  | _, 0 => some []
  | [], _ + 1 => none
  | c :: text, n + 1 =>
    if c.utf8Size ≤ n + 1 then (takeBytes text (n + 1 - c.utf8Size)).map (c :: ·) else none

/-- `&text[start..stop]`, or `none` for a panic. -/
def sliceBytes (text : List Char) (start stop : ℕ) : Option (List Char) :=
  (dropBytes text start).bind fun text => takeBytes text (stop - start)

/-! ### The parser -/

def isAsciiWhitespace (c : Char) : Bool :=
  c == ' ' || c == '\t' || c == '\n' || c == '\x0c' || c == '\r'

/-- The digits of a number below 256. -/
def radixDigits : ℕ → List Char → Except String UInt8
  | value, [] => .ok (UInt8.ofNat value)
  | value, c :: digits =>
    match hexValue c with
    | none => .error "invalid digit found in string"
    | some d =>
      if value * 16 + d < 256 then radixDigits (value * 16 + d) digits
      else .error "number too large to fit in target type"

/-- `u8::from_str_radix(_, 16)`: an optional plus sign, and digits. -/
def fromStrRadix : List Char → Except String UInt8
  | [] => .error "cannot parse integer from empty string"
  | ['+'] | ['-'] => .error "invalid digit found in string"
  | '+' :: digits => radixDigits 0 digits
  | digits => radixDigits 0 digits

/-- The loop over the pairs, with the number of them that are left; `none` is a panic. -/
def parsePairs (clean : List Char) : (i left : ℕ) → Option (Except String (List UInt8))
  | _, 0 => some (.ok [])
  | i, left + 1 =>
    match sliceBytes clean i (i + 2) with
    | none => none
    | some pair =>
      match fromStrRadix pair with
      | .error e => some (.error e)
      | .ok byte => (parsePairs clean (i + 2) left).map fun rest => rest.map (byte :: ·)

/-- The text without white space and colons. -/
def clean (value : List Char) : List Char :=
  value.filter fun c => !isAsciiWhitespace c && c != ':'

/-- `parse_hex`; `none` is a panic. -/
def parseHex (value : List Char) : Option (Except String (List UInt8)) :=
  if byteLen (clean value) % 2 ≠ 0 then some (.error "hex packet has odd length")
  else parsePairs (clean value) 0 (byteLen (clean value) / 2)

/-- The bytes that an even number of hexadecimal digits denotes. -/
def hexBytes : List Char → Option (List UInt8)
  | [] => some []
  | [_] => none
  | a :: b :: rest =>
    (hexValue a).bind fun high => (hexValue b).bind fun low =>
      (hexBytes rest).map fun bytes => UInt8.ofNat (high * 16 + low) :: bytes

/-- There is no panic, and exactly hexadecimal digits are accepted, as the bytes they denote. -/
def ExactHex (value : List Char) : Prop :=
  ∃ result, parseHex value = some result ∧
    ∀ bytes, result = .ok bytes ↔ hexBytes (clean value) = some bytes

/-! ### Positions -/

theorem utf8Size_succ (c : Char) : ∃ n, c.utf8Size = n + 1 :=
  ⟨c.utf8Size - 1, (Nat.sub_add_cancel c.utf8Size_pos).symm⟩

/-- Behind the first character the positions are those of the rest. -/
theorem dropBytes_cons (c : Char) (text : List Char) (n : ℕ) :
    dropBytes (c :: text) (c.utf8Size + n) = dropBytes text n := by
  obtain ⟨k, hk⟩ := utf8Size_succ c
  have hsum : c.utf8Size + n = (k + n) + 1 := by omega
  have hrest : k + n + 1 - c.utf8Size = n := by omega
  rw [hsum, dropBytes, if_pos (by omega), hrest]

theorem sliceBytes_cons (c : Char) (text : List Char) (i j : ℕ) :
    sliceBytes (c :: text) (c.utf8Size + i) (c.utf8Size + j) = sliceBytes text i j := by
  rw [sliceBytes, sliceBytes, dropBytes_cons, Nat.add_sub_add_left]

theorem parsePairs_cons (c : Char) (text : List Char) (i left : ℕ) :
    parsePairs (c :: text) (c.utf8Size + i) left = parsePairs text i left := by
  induction left generalizing i with
  | zero => rfl
  | succ left ih =>
    rw [parsePairs, parsePairs, Nat.add_assoc, sliceBytes_cons, ih]

/-! ### The pairs -/

def isHex (c : Char) : Bool := (hexValue c).isSome

/-- What follows the pairs of two digits, or of a plus sign and a digit. -/
def afterPairs : List Char → List Char
  | a :: b :: rest => if (isHex a || a == '+') && isHex b then afterPairs rest else a :: b :: rest
  | rest => rest

/-- Two bytes at the start of the text end inside a character. -/
def cut : List Char → Bool
  | [] => false
  | [a] => 2 < a.utf8Size
  | a :: b :: _ => 2 < a.utf8Size || a.utf8Size == 1 && 1 < b.utf8Size

/-- Before the parser gives up, no slice cuts a character; and where it does not give up there is
no sign. -/
def Sane (value : List Char) : Prop :=
  byteLen (clean value) % 2 ≠ 0 ∨
    (afterPairs (clean value) = [] ∧ '+' ∉ clean value) ∨
    (afterPairs (clean value) ≠ [] ∧ cut (afterPairs (clean value)) = false)

theorem hexValue_bounds {c : Char} {d : ℕ} (h : hexValue c = some d) :
    d < 16 ∧ c.toNat < 0x80 := by
  have hle {a b : Char} (h : a ≤ b) : a.toNat ≤ b.toNat := h
  unfold hexValue at h
  split_ifs at h with hdigit hlower hupper
  · have hmin := hle hdigit.1
    have hmax := hle hdigit.2
    cases h
    simp only [Char.reduceToNat] at hmin hmax ⊢
    omega
  · have hmin := hle hlower.1
    have hmax := hle hlower.2
    cases h
    simp only [Char.reduceToNat] at hmin hmax ⊢
    omega
  · have hmin := hle hupper.1
    have hmax := hle hupper.2
    cases h
    simp only [Char.reduceToNat] at hmin hmax ⊢
    omega

theorem isHex_iff {c : Char} : isHex c = true ↔ ∃ d, hexValue c = some d := Option.isSome_iff_exists

theorem utf8Size_ascii {c : Char} (h : c.toNat < 0x80) : c.utf8Size = 1 := by
  rw [Char.utf8Size_eq_one_iff]
  exact Nat.le_of_lt_succ h

theorem utf8Size_hex {c : Char} (h : isHex c = true) : c.utf8Size = 1 := by
  obtain ⟨d, hd⟩ := isHex_iff.mp h
  exact utf8Size_ascii (hexValue_bounds hd).2

/-- A pair that is accepted. -/
theorem fromStrRadix_pair {a b : Char} (ha : isHex a = true ∨ a = '+') (hb : isHex b = true) :
    ∃ byte, fromStrRadix [a, b] = .ok byte ∧
      ∀ high low, hexValue a = some high → hexValue b = some low →
        byte = UInt8.ofNat (high * 16 + low) := by
  obtain ⟨low, hlow⟩ := isHex_iff.mp hb
  have hlow' := (hexValue_bounds hlow).1
  by_cases hplus : a = '+'
  · subst hplus
    refine ⟨UInt8.ofNat low, ?_, fun high _ hhigh => nomatch hhigh⟩
    simp only [fromStrRadix, radixDigits, hlow]
    rw [if_pos (by omega), Nat.zero_mul, Nat.zero_add]
  · obtain ⟨high, hhigh⟩ := isHex_iff.mp (ha.resolve_right hplus)
    have hhigh' := (hexValue_bounds hhigh).1
    refine ⟨UInt8.ofNat (high * 16 + low), ?_, fun high' low' h h' => ?_⟩
    · rw [fromStrRadix.eq_5 _ (by simp) (by simp) (by simp) (by simp [hplus])]
      simp only [radixDigits, hhigh, hlow]
      rw [if_pos (by omega), if_pos (by omega), Nat.zero_mul, Nat.zero_add]
    · cases h.symm.trans hhigh
      cases h'.symm.trans hlow
      rfl

theorem radixDigits_error {value : ℕ} (c : Char) (digits : List Char) (h : isHex c = false) :
    radixDigits value (c :: digits) = .error "invalid digit found in string" := by
  rw [radixDigits]
  cases hvalue : hexValue c with
  | none => rfl
  | some d => simp [isHex, hvalue] at h

/-- Every other pair is an error. -/
theorem fromStrRadix_error {a b : Char} (h : ((isHex a || a == '+') && isHex b) = false) :
    ∃ e, fromStrRadix [a, b] = .error e := by
  by_cases hplus : a = '+'
  · subst hplus
    exact ⟨_, radixDigits_error b [] (by simpa using h)⟩
  · rw [fromStrRadix.eq_5 _ (by simp) (by simp) (by simp) (by simp [hplus])]
    cases ha : hexValue a with
    | none => exact ⟨_, radixDigits_error a [b] (by simp [isHex, ha])⟩
    | some d =>
      have hd := (hexValue_bounds ha).1
      have hb : isHex b = false := by simpa [isHex, ha, hplus] using h
      refine ⟨"invalid digit found in string", ?_⟩
      simp only [radixDigits, ha]
      rw [if_pos (by omega)]
      exact radixDigits_error b [] hb

/-- So is a single character. -/
theorem fromStrRadix_wide {a : Char} (h : a.utf8Size = 2) : ∃ e, fromStrRadix [a] = .error e := by
  have hhex : isHex a = false := by
    by_contra hhex
    have hsize := utf8Size_hex (Bool.not_eq_false _ ▸ hhex)
    omega
  have hplus : a ≠ '+' := by
    rintro rfl
    exact absurd h (by decide)
  have hminus : a ≠ '-' := by
    rintro rfl
    exact absurd h (by decide)
  rw [fromStrRadix.eq_5 _ (by simp) (by simp [hplus]) (by simp [hminus]) (by simp [hplus])]
  exact ⟨_, radixDigits_error a [] hhex⟩

/-! ### Slices of two bytes -/

theorem sliceBytes_pair {a b : Char} (ha : a.utf8Size = 1) (hb : b.utf8Size = 1)
    (rest : List Char) : sliceBytes (a :: b :: rest) 0 2 = some [a, b] := by
  simp [sliceBytes, dropBytes, takeBytes, ha, hb]

/-- A slice that cuts a character is a panic. -/
theorem sliceBytes_cut {text : List Char} (h : cut text = true) : sliceBytes text 0 2 = none := by
  match text, h with
  | [a], h =>
    have hsize : 2 < a.utf8Size := by simpa [cut] using h
    simp [sliceBytes, dropBytes, takeBytes, Nat.not_le.mpr hsize]
  | a :: b :: rest, h =>
    simp only [cut, Bool.or_eq_true, Bool.and_eq_true, decide_eq_true_eq, beq_iff_eq] at h
    obtain hsize | ⟨ha, hb⟩ := h
    · simp [sliceBytes, dropBytes, takeBytes, Nat.not_le.mpr hsize]
    · simp [sliceBytes, dropBytes, takeBytes, ha, Nat.not_le.mpr hb]

/-- Any other slice is an error, unless the pair is accepted. -/
theorem sliceBytes_error {text : List Char} (hcut : cut text = false) (hne : text ≠ [])
    (heven : byteLen text % 2 = 0) (hpair : ∀ a b rest, text = a :: b :: rest →
      ((isHex a || a == '+') && isHex b) = false) :
    ∃ pair e, sliceBytes text 0 2 = some pair ∧ fromStrRadix pair = .error e := by
  match text, hne with
  | [a], _ =>
    have hle : a.utf8Size ≤ 2 := by simpa [cut] using hcut
    have hpos := a.utf8Size_pos
    have hsize : a.utf8Size = 2 := by
      simp only [byteLen, List.map_cons, List.map_nil, List.sum_cons, List.sum_nil] at heven
      omega
    obtain ⟨e, he⟩ := fromStrRadix_wide hsize
    exact ⟨[a], e, by simp [sliceBytes, dropBytes, takeBytes, hsize], he⟩
  | a :: b :: rest, _ =>
    simp only [cut, Bool.or_eq_false_iff, decide_eq_false_iff_not, Nat.not_lt,
      Bool.and_eq_false_iff, beq_eq_false_iff_ne] at hcut
    have hpos := a.utf8Size_pos
    have hpos' := b.utf8Size_pos
    obtain hone | htwo : a.utf8Size = 1 ∨ a.utf8Size = 2 := by omega
    · have hb : b.utf8Size = 1 := by
        have hle := hcut.2.resolve_left (not_not_intro hone)
        omega
      obtain ⟨e, he⟩ := fromStrRadix_error (hpair a b rest rfl)
      exact ⟨[a, b], e, sliceBytes_pair hone hb rest, he⟩
    · obtain ⟨e, he⟩ := fromStrRadix_wide htwo
      exact ⟨[a], e, by simp [sliceBytes, dropBytes, takeBytes, htwo], he⟩

/-! ### What is accepted -/

/-- Where the pairs end there is a panic or an error. -/
theorem parsePairs_stop {text : List Char} {n : ℕ} (h : byteLen text = 2 * n) (hne : text ≠ [])
    (hpair : ∀ a b rest, text = a :: b :: rest →
      ((isHex a || a == '+') && isHex b) = false) :
    (cut text = true → parsePairs text 0 n = none) ∧
      (cut text = false → ∃ e, parsePairs text 0 n = some (.error e)) := by
  obtain ⟨m, rfl⟩ : ∃ m, n = m + 1 := by
    obtain ⟨c, rest, rfl⟩ := List.exists_cons_of_ne_nil hne
    have hpos := c.utf8Size_pos
    simp only [byteLen, List.map_cons, List.sum_cons] at h
    exact ⟨n - 1, by omega⟩
  constructor
  · intro hcut
    rw [parsePairs, sliceBytes_cut hcut]
  · intro hcut
    obtain ⟨pair, e, hslice, herror⟩ := sliceBytes_error hcut hne (by omega) hpair
    refine ⟨e, ?_⟩
    rw [parsePairs, hslice]
    simp only [herror]

/-- **What becomes of the pairs**: bytes, a panic, or an error. -/
theorem parsePairs_eq {text : List Char} {n : ℕ} (h : byteLen text = 2 * n) :
    (afterPairs text = [] → ∃ bytes, parsePairs text 0 n = some (.ok bytes) ∧
      ('+' ∉ text → hexBytes text = some bytes)) ∧
    (afterPairs text ≠ [] → cut (afterPairs text) = true → parsePairs text 0 n = none) ∧
    (afterPairs text ≠ [] → cut (afterPairs text) = false →
      ∃ e, parsePairs text 0 n = some (.error e)) := by
  induction text using afterPairs.induct generalizing n with
  | case1 a b rest hpair ih =>
    rw [afterPairs, if_pos hpair]
    rw [Bool.and_eq_true, Bool.or_eq_true, beq_iff_eq] at hpair
    obtain ⟨ha, hb⟩ := hpair
    -- both characters are one byte long, so the cut is behind them
    have hone : a.utf8Size = 1 := by
      obtain ha | rfl := ha
      · exact utf8Size_hex ha
      · rfl
    have hone' := utf8Size_hex hb
    obtain ⟨m, rfl⟩ : ∃ m, n = m + 1 := by
      simp only [byteLen, List.map_cons, List.sum_cons] at h
      exact ⟨n - 1, by omega⟩
    have hrest : byteLen rest = 2 * m := by
      simp only [byteLen, List.map_cons, List.sum_cons] at h ⊢
      omega
    obtain ⟨byte, hbyte, hvalue⟩ := fromStrRadix_pair ha hb
    have hstep : parsePairs (a :: b :: rest) 0 (m + 1) =
        (parsePairs rest 0 m).map fun r => r.map (byte :: ·) := by
      have hmove := (parsePairs_cons a (b :: rest) (b.utf8Size + 0) m).trans
        (parsePairs_cons b rest 0 m)
      rw [hone, hone'] at hmove
      rw [parsePairs, sliceBytes_pair hone hone']
      simp only [hbyte]
      rw [hmove]
    obtain ⟨hok, hpanic, herror⟩ := ih hrest
    rw [hstep]
    refine ⟨fun hall => ?_, fun hne hcut => ?_, fun hne hcut => ?_⟩
    · obtain ⟨bytes, hbytes, hhex⟩ := hok hall
      refine ⟨byte :: bytes, by rw [hbytes]; rfl, fun hsign => ?_⟩
      rw [List.mem_cons, List.mem_cons, not_or, not_or] at hsign
      obtain ⟨high, hhigh⟩ := isHex_iff.mp (ha.resolve_right (Ne.symm hsign.1))
      obtain ⟨low, hlow⟩ := isHex_iff.mp hb
      simp [hexBytes, hhigh, hlow, hhex hsign.2.2, hvalue high low hhigh hlow]
    · rw [hpanic hne hcut]
      rfl
    · obtain ⟨e, he⟩ := herror hne hcut
      exact ⟨e, by rw [he]; rfl⟩
  | case2 a b rest hpair =>
    have hpair' : ((isHex a || a == '+') && isHex b) = false := by simpa using hpair
    rw [afterPairs, if_neg hpair]
    obtain ⟨hpanic, herror⟩ := parsePairs_stop h (List.cons_ne_nil _ _)
      fun a' b' rest' heq => by cases heq; exact hpair'
    exact ⟨fun hnil => absurd hnil (List.cons_ne_nil _ _), fun _ => hpanic, fun _ => herror⟩
  | case3 text hshort =>
    -- one character is left, or none
    rw [afterPairs.eq_2 _ hshort]
    by_cases hne : text = []
    · subst hne
      obtain rfl : n = 0 := by
        simp only [byteLen, List.map_nil, List.sum_nil] at h
        omega
      exact ⟨fun _ => ⟨[], rfl, fun _ => rfl⟩, fun h => absurd rfl h, fun h => absurd rfl h⟩
    · obtain ⟨hpanic, herror⟩ := parsePairs_stop h hne
        fun a b rest heq => absurd heq (hshort a b rest)
      exact ⟨fun hnil => absurd hnil hne, fun _ => hpanic, fun _ => herror⟩

/-- Hexadecimal digits are pairs without a sign. -/
theorem pairs_of_hexBytes {text : List Char} {bytes : List UInt8}
    (h : hexBytes text = some bytes) :
    afterPairs text = [] ∧ '+' ∉ text ∧ byteLen text % 2 = 0 := by
  induction text using hexBytes.induct generalizing bytes with
  | case1 => exact ⟨rfl, List.not_mem_nil, rfl⟩
  | case2 a => cases h
  | case3 a b rest ih =>
    rw [hexBytes] at h
    obtain ⟨high, hhigh, h⟩ := Option.bind_eq_some_iff.mp h
    obtain ⟨low, hlow, h⟩ := Option.bind_eq_some_iff.mp h
    obtain ⟨bytes', hbytes, -⟩ := Option.map_eq_some_iff.mp h
    obtain ⟨hafter, hsign, heven⟩ := ih hbytes
    have ha : isHex a = true := isHex_iff.mpr ⟨high, hhigh⟩
    have hb : isHex b = true := isHex_iff.mpr ⟨low, hlow⟩
    refine ⟨by simp [afterPairs, ha, hb, hafter], ?_, ?_⟩
    · rw [List.mem_cons, List.mem_cons, not_or, not_or]
      refine ⟨?_, ?_, hsign⟩
      · rintro rfl
        cases hhigh
      · rintro rfl
        cases hlow
    · simp only [byteLen, List.map_cons, List.sum_cons, utf8Size_hex ha, utf8Size_hex hb]
      simp only [byteLen] at heven
      omega

/-- **When exactly hexadecimal digits are accepted**: where the pairs end, if they do, two bytes
do not end inside a character, and if they do not end there is no plus sign among them. -/
theorem parseHex_iff (value : List Char) : ExactHex value ↔ Sane value := by
  rw [ExactHex, Sane, parseHex]
  by_cases hodd : byteLen (clean value) % 2 ≠ 0
  · refine iff_of_true ⟨_, if_pos hodd, fun bytes => ?_⟩ (.inl hodd)
    refine iff_of_false (fun h => nomatch h) fun h => hodd (pairs_of_hexBytes h).2.2
  · rw [if_neg hodd]
    obtain ⟨hok, hpanic, herror⟩ :=
      @parsePairs_eq (clean value) (byteLen (clean value) / 2) (by omega)
    by_cases hall : afterPairs (clean value) = []
    · obtain ⟨bytes, hbytes, hhex⟩ := hok hall
      rw [hbytes]
      constructor
      · rintro ⟨result, hresult, hexact⟩
        cases hresult
        exact .inr (.inl ⟨hall, (pairs_of_hexBytes ((hexact bytes).mp rfl)).2.1⟩)
      · rintro (h | ⟨-, hsign⟩ | ⟨hne, -⟩)
        · exact absurd h hodd
        · refine ⟨_, rfl, fun bytes' => ?_⟩
          rw [hhex hsign]
          exact ⟨fun h => by cases h; rfl, fun h => by cases h; rfl⟩
        · exact absurd hall hne
    · cases hcut : cut (afterPairs (clean value)) with
      | true =>
        rw [hpanic hall hcut]
        refine iff_of_false (fun h => nomatch h) ?_
        rintro (h | ⟨h, -⟩ | ⟨-, h⟩)
        · exact hodd h
        · exact hall h
        · cases h
      | false =>
        obtain ⟨e, he⟩ := herror hall hcut
        rw [he]
        refine iff_of_true ⟨_, rfl, fun bytes => ?_⟩ (.inr (.inr ⟨hall, rfl⟩))
        exact iff_of_false (fun h => nomatch h) fun h => hall (pairs_of_hexBytes h).1

/-- A plus sign is no digit. -/
theorem parseHex_sign : ¬ ∀ value : List Char, ExactHex value := by
  intro h
  obtain ⟨result, hresult, hexact⟩ := h ['+', '5']
  cases hresult.symm.trans (by decide : parseHex ['+', '5'] = some (.ok [5]))
  cases (hexact [5]).mp rfl

end Model
