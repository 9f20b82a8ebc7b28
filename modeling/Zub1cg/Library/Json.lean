import Mathlib.Data.List.Forall2

/-!
# JSON texts

The grammar of JSON as a relation between texts and what they stand for, and a parser that reads
every text that the grammar derives. Numbers are kept as they are written, and objects keep the
order of their members.

## Main definitions

- `Json` — values
- `CharText`, `Chars`, `isNumber` — the characters of a string and the literals of numbers
- `Derives` — the grammar
- `parse` — the parser

## Main results

- `reads` — every part of a text is read as what it was derived from
- `parse_of_derives` — and so is the text
-/

inductive Json where
  | null
  | bool (value : Bool)
  | num (literal : List Char)
  | str (value : String)
  | arr (elements : List Json)
  | obj (members : List (String × Json))

namespace Json

/-! ### Characters -/

def isSpace (c : Char) : Bool := c == ' ' || c == '\t' || c == '\n' || c == '\r'

/-- White space. -/
def Blank (text : List Char) : Prop := ∀ c ∈ text, isSpace c = true

theorem blank_nil : Blank [] := fun _ hc => nomatch hc

theorem blank_newline : Blank ['\n'] := by
  intro c hc
  rw [List.mem_singleton.mp hc]
  decide

/-- The characters that stand for themselves in a string. -/
def isPlain (c : Char) : Bool := 0x20 ≤ c.toNat && c != '"' && c != '\\'

/-- What a backslash and a letter stand for. -/
def escapes : List (Char × Char) :=
  [('"', '"'), ('\\', '\\'), ('/', '/'), ('b', '\x08'), ('f', '\x0c'), ('n', '\n'), ('r', '\r'),
    ('t', '\t')]

def hexValue (c : Char) : Option ℕ :=
  if '0' ≤ c ∧ c ≤ '9' then some (c.toNat - '0'.toNat)
  else if 'a' ≤ c ∧ c ≤ 'f' then some (c.toNat - 'a'.toNat + 10)
  else if 'A' ≤ c ∧ c ≤ 'F' then some (c.toNat - 'A'.toNat + 10)
  else none

/-- Four hexadecimal digits. -/
def hex4 (a b c d : Char) : Option ℕ :=
  (hexValue a).bind fun a => (hexValue b).bind fun b => (hexValue c).bind fun c =>
    (hexValue d).map fun d => ((a * 16 + b) * 16 + c) * 16 + d

/-- What is known of hexadecimal digits is known of all four. -/
theorem hex4_forall {p : Char → Prop} (hp : ∀ c v, hexValue c = some v → p c) {a b c d : Char}
    {n : ℕ} (h : hex4 a b c d = some n) : ∀ e ∈ [a, b, c, d], p e := by
  simp only [hex4, Option.bind_eq_some_iff, Option.map_eq_some_iff] at h
  obtain ⟨_, ha, _, hb, _, hc, _, hd, -⟩ := h
  simp [hp _ _ ha, hp _ _ hb, hp _ _ hc, hp _ _ hd]

def isHighSurrogate (n : ℕ) : Bool := 0xD800 ≤ n && n < 0xDC00
def isLowSurrogate (n : ℕ) : Bool := 0xDC00 ≤ n && n < 0xE000

/-- The character that a pair of surrogates stands for. -/
def pairChar (high low : ℕ) : Char :=
  Char.ofNat (0x10000 + (high - 0xD800) * 0x400 + (low - 0xDC00))

/-- A character as it is written in a string. -/
inductive CharText : List Char → Char → Prop
  | plain {c : Char} (h : isPlain c = true) : CharText [c] c
  | escape {e c : Char} (h : (e, c) ∈ escapes) : CharText ['\\', e] c
  | unicode {a b c d : Char} {n : ℕ} (h : hex4 a b c d = some n)
      (hhigh : isHighSurrogate n = false) (hlow : isLowSurrogate n = false) :
      CharText ['\\', 'u', a, b, c, d] (Char.ofNat n)
  | pair {a b c d a' b' c' d' : Char} {n n' : ℕ} (h : hex4 a b c d = some n)
      (h' : hex4 a' b' c' d' = some n') (hhigh : isHighSurrogate n = true)
      (hlow : isLowSurrogate n' = true) :
      CharText ['\\', 'u', a, b, c, d, '\\', 'u', a', b', c', d'] (pairChar n n')

/-- The characters between the quotation marks. -/
inductive Chars : List Char → List Char → Prop
  | nil : Chars [] []
  | cons {t cs s : List Char} {c : Char} (h : CharText t c) (hs : Chars cs s) :
      Chars (t ++ cs) (c :: s)

/-! ### Numbers -/

def isNumberChar (c : Char) : Bool := c.isDigit || c ∈ ['-', '+', '.', 'e', 'E']

def isDigits (cs : List Char) : Bool := !cs.isEmpty && cs.all Char.isDigit

/-- Digits without a superfluous zero in front. -/
def isInt (cs : List Char) : Bool := isDigits cs && (cs.head? != some '0' || cs.length == 1)

/-- The digits of an exponent, with or without a sign. -/
def isExponent (cs : List Char) : Bool :=
  isDigits (if cs.head? = some '+' ∨ cs.head? = some '-' then cs.tail else cs)

/-- An optional sign, the integer, an optional fraction and an optional exponent. -/
def isNumber (literal : List Char) : Bool :=
  let unsigned := if literal.head? = some '-' then literal.tail else literal
  let mantissa := unsigned.takeWhile fun c => c != 'e' && c != 'E'
  let exponent := unsigned.dropWhile fun c => c != 'e' && c != 'E'
  let integer := mantissa.takeWhile (· != '.')
  let fraction := mantissa.dropWhile (· != '.')
  isInt integer && (fraction.isEmpty || isDigits fraction.tail) &&
    (exponent.isEmpty || isExponent exponent.tail)

/-! ### The grammar -/

/-- What a piece of a text can stand for. -/
inductive Part where
  | value (j : Json)
  | element (j : Json)
  | elements (js : List Json)
  | member (m : String × Json)
  | members (ms : List (String × Json))

/-- The grammar. -/
inductive Derives : Part → List Char → Prop
  | null : Derives (.value .null) ['n', 'u', 'l', 'l']
  | true : Derives (.value (.bool true)) ['t', 'r', 'u', 'e']
  | false : Derives (.value (.bool false)) ['f', 'a', 'l', 's', 'e']
  | num {literal : List Char} (h : isNumber literal = true) :
      Derives (.value (.num literal)) literal
  | str {cs s : List Char} (h : Chars cs s) :
      Derives (.value (.str (String.ofList s))) ('"' :: (cs ++ ['"']))
  | emptyArr {a : List Char} (h : Blank a) : Derives (.value (.arr [])) ('[' :: (a ++ [']']))
  | arr {js : List Json} {cs : List Char} (h : Derives (.elements js) cs) :
      Derives (.value (.arr js)) ('[' :: (cs ++ [']']))
  | emptyObj {a : List Char} (h : Blank a) : Derives (.value (.obj [])) ('\x7b' :: (a ++ ['\x7d']))
  | obj {ms : List (String × Json)} {cs : List Char} (h : Derives (.members ms) cs) :
      Derives (.value (.obj ms)) ('\x7b' :: (cs ++ ['\x7d']))
  | element {a b cs : List Char} {j : Json} (ha : Blank a) (h : Derives (.value j) cs)
      (hb : Blank b) : Derives (.element j) (a ++ cs ++ b)
  | lastElement {cs : List Char} {j : Json} (h : Derives (.element j) cs) :
      Derives (.elements [j]) cs
  | moreElements {cs ds : List Char} {j : Json} {js : List Json} (h : Derives (.element j) cs)
      (hs : Derives (.elements js) ds) : Derives (.elements (j :: js)) (cs ++ ',' :: ds)
  | member {a b ks key cs : List Char} {j : Json} (ha : Blank a) (hk : Chars ks key)
      (hb : Blank b) (h : Derives (.element j) cs) :
      Derives (.member (String.ofList key, j)) (a ++ '"' :: (ks ++ '"' :: (b ++ ':' :: cs)))
  | lastMember {cs : List Char} {m : String × Json} (h : Derives (.member m) cs) :
      Derives (.members [m]) cs
  | moreMembers {cs ds : List Char} {m : String × Json} {ms : List (String × Json)}
      (h : Derives (.member m) cs) (hs : Derives (.members ms) ds) :
      Derives (.members (m :: ms)) (cs ++ ',' :: ds)

/-! ### The parser -/

def skip (text : List Char) : List Char := text.dropWhile isSpace

/-- One character of a string. -/
def readChar : List Char → Option (Char × List Char)
  | '\\' :: 'u' :: a :: b :: c :: d :: rest =>
    match hex4 a b c d with
    | none => none
    | some n =>
      if isHighSurrogate n then
        match rest with
        | '\\' :: 'u' :: a' :: b' :: c' :: d' :: rest =>
          match hex4 a' b' c' d' with
          | none => none
          | some n' => if isLowSurrogate n' then some (pairChar n n', rest) else none
        | _ => none
      else if isLowSurrogate n then none
      else some (Char.ofNat n, rest)
  | '\\' :: e :: rest => (escapes.lookup e).map fun c => (c, rest)
  | c :: rest => if isPlain c then some (c, rest) else none
  | [] => none

/-- The characters of a string up to the quotation mark, `n` of them at most. -/
def readChars : ℕ → List Char → Option (List Char × List Char)
  | 0, _ => none
  | n + 1, text =>
    match text with
    | '"' :: rest => some ([], rest)
    | _ =>
      (readChar text).bind fun (c, rest) =>
        (readChars n rest).map fun (s, rest) => (c :: s, rest)

def readString (text : List Char) : Option (String × List Char) :=
  (readChars text.length text).map fun (s, rest) => (String.ofList s, rest)

/-- The names and the numbers. -/
def readAtom (text : List Char) : Option (Json × List Char) :=
  if text.take 4 = ['n', 'u', 'l', 'l'] then some (.null, text.drop 4)
  else if text.take 4 = ['t', 'r', 'u', 'e'] then some (.bool true, text.drop 4)
  else if text.take 5 = ['f', 'a', 'l', 's', 'e'] then some (.bool false, text.drop 5)
  else
    let literal := text.takeWhile isNumberChar
    if isNumber literal then some (.num literal, text.dropWhile isNumberChar) else none

section

variable {α : Type} (read : List Char → Option (α × List Char))

/-- White space before and after. -/
def padded (text : List Char) : Option (α × List Char) :=
  (read (skip text)).map fun (a, rest) => (a, skip rest)

/-- What stands between commas up to `close`, `n` times at most. -/
def separated (close : Char) : ℕ → List Char → Option (List α × List Char)
  | 0, _ => none
  | n + 1, text =>
    (read text).bind fun (a, rest) =>
      match rest with
      | [] => none
      | c :: rest =>
        if c = ',' then (separated close n rest).map fun (as, rest) => (a :: as, rest)
        else if c = close then some ([a], rest)
        else none

def readMember (text : List Char) : Option ((String × α) × List Char) :=
  match skip text with
  | '"' :: rest =>
    (readString rest).bind fun (key, rest) =>
      match skip rest with
      | ':' :: rest => (read rest).map fun (a, rest) => ((key, a), rest)
      | _ => none
  | _ => none

end

/-- Nothing but white space before `close`. -/
def readClose (close : Char) (text : List Char) : Option (List Char) :=
  match skip text with
  | c :: rest => if c = close then some rest else none
  | [] => none

/-- A value, nested `n` times at most. -/
def readValue : ℕ → List Char → Option (Json × List Char)
  | 0, _ => none
  | n + 1, text =>
    match text with
    | '"' :: rest => (readString rest).map fun (s, rest) => (.str s, rest)
    | '[' :: rest =>
      ((separated (padded (readValue n)) ']' rest.length rest).map fun (js, rest) =>
        (.arr js, rest)).or ((readClose ']' rest).map fun rest => (.arr [], rest))
    | '\x7b' :: rest =>
      ((separated (readMember (padded (readValue n))) '\x7d' rest.length rest).map fun (ms, rest) =>
        (.obj ms, rest)).or ((readClose '\x7d' rest).map fun rest => (.obj [], rest))
    | _ => readAtom text

/-- The value that a text stands for. -/
def parse (text : String) : Option Json :=
  match padded (readValue text.toList.length) text.toList with
  | some (j, []) => some j
  | _ => none

/-! ### Reading characters -/

/-- What can follow a value: nothing, or neither white space nor more of a number. -/
def Ends (rest : List Char) : Prop :=
  ∀ c ∈ rest.head?, isSpace c = false ∧ isNumberChar c = false

theorem skip_blank {a : List Char} (ha : Blank a) (text : List Char) :
    skip (a ++ text) = skip text := List.dropWhile_append_of_pos ha

theorem skip_cons {c : Char} (hc : isSpace c = false) (text : List Char) :
    skip (c :: text) = c :: text :=
  List.dropWhile_cons_of_neg (Bool.eq_false_iff.mp hc)

theorem Ends.skip {rest : List Char} (h : Ends rest) : Json.skip rest = rest := by
  cases rest with
  | nil => rfl
  | cons c rest => exact skip_cons (h c rfl).1 rest

theorem readChar_of_charText {t : List Char} {c : Char} (h : CharText t c) (rest : List Char) :
    readChar (t ++ rest) = some (c, rest) := by
  cases h with
  | plain h =>
    have hslash : c ≠ '\\' := by
      rintro rfl
      exact absurd h (by decide)
    simp [readChar, hslash, h]
  | escape h =>
    simp only [escapes, List.mem_cons, Prod.mk.injEq, List.not_mem_nil, or_false] at h
    rcases h with ⟨rfl, rfl⟩ | ⟨rfl, rfl⟩ | ⟨rfl, rfl⟩ | ⟨rfl, rfl⟩ | ⟨rfl, rfl⟩ | ⟨rfl, rfl⟩ |
      ⟨rfl, rfl⟩ | ⟨rfl, rfl⟩ <;> rfl
  | unicode h hhigh hlow => simp [readChar, h, hhigh, hlow]
  | pair h h' hhigh hlow => simp [readChar, h, h', hhigh, hlow]

theorem charText_head {t : List Char} {c : Char} (h : CharText t c) :
    ∃ d ds, t = d :: ds ∧ d ≠ '"' := by
  cases h with
  | plain h =>
    refine ⟨c, [], rfl, ?_⟩
    rintro rfl
    exact absurd h (by decide)
  | escape h => exact ⟨_, _, rfl, by decide⟩
  | unicode h hhigh hlow => exact ⟨_, _, rfl, by decide⟩
  | pair h h' hhigh hlow => exact ⟨_, _, rfl, by decide⟩

theorem readChars_of_chars {cs s : List Char} (h : Chars cs s) (rest : List Char) {n : ℕ}
    (hn : cs.length < n) : readChars n (cs ++ '"' :: rest) = some (s, rest) := by
  induction h generalizing n with
  | nil =>
    obtain ⟨n, rfl⟩ := Nat.exists_eq_add_of_lt hn
    rfl
  | @cons t cs s c h hs ih =>
    obtain ⟨d, ds, rfl, hd⟩ := charText_head h
    obtain ⟨n, rfl⟩ : ∃ m, n = m + 1 := ⟨n - 1, by omega⟩
    simp only [List.length_append, List.length_cons] at hn
    have hhead := readChar_of_charText h (cs ++ '"' :: rest)
    have htail := ih (n := n) (by omega)
    rw [List.append_assoc, readChars, hhead, Option.bind_some]
    dsimp only
    rw [htail, Option.map_some]
    -- no quotation mark comes first
    exact fun rest' heq => hd (List.cons.inj heq).1

theorem readString_of_chars {cs s : List Char} (h : Chars cs s) (rest : List Char) :
    readString (cs ++ '"' :: rest) = some (String.ofList s, rest) := by
  have hlength : cs.length < (cs ++ '"' :: rest).length := by
    rw [List.length_append, List.length_cons]
    omega
  rw [readString, readChars_of_chars h rest hlength, Option.map_some]

/-! ### Reading numbers -/

theorem isNumberChar_of_isDigits {cs : List Char} (h : isDigits cs = true) :
    ∀ c ∈ cs, isNumberChar c = true := by
  intro c hc
  rw [isDigits, Bool.and_eq_true, List.all_eq_true] at h
  rw [isNumberChar, h.2 c hc, Bool.true_or]

/-- Part of a number lies before the first character that fails a test, and part from there on. -/
theorem forall_split {P : Char → Prop} (p : Char → Bool) {cs : List Char}
    (hfront : ∀ c ∈ cs.takeWhile p, P c)
    (hback : ∀ c d, cs.dropWhile p = c :: d → P c ∧ ∀ c ∈ d, P c) : ∀ c ∈ cs, P c := by
  intro c hc
  rw [← List.takeWhile_append_dropWhile (p := p) (l := cs), List.mem_append] at hc
  rcases hc with hc | hc
  · exact hfront c hc
  · cases hdrop : cs.dropWhile p with
    | nil =>
      rw [hdrop] at hc
      contradiction
    | cons b d =>
      rw [hdrop, List.mem_cons] at hc
      rcases hc with rfl | hc
      · exact (hback c d hdrop).1
      · exact (hback b d hdrop).2 c hc

/-- What comes after the characters that pass a test begins with one that does not. -/
theorem dropWhile_head {p : Char → Bool} {cs : List Char} {c : Char} {d : List Char}
    (h : cs.dropWhile p = c :: d) : p c = false := by
  have hne : cs.dropWhile p ≠ [] := by
    rw [h]
    exact List.cons_ne_nil c d
  have hhead := List.head_dropWhile_not p hne
  simp only [h, List.head_cons] at hhead
  exact hhead

theorem isNumberChar_of_isExponent {cs : List Char} (h : isExponent cs = true) :
    ∀ c ∈ cs, isNumberChar c = true := by
  rw [isExponent] at h
  split at h
  · next hsign =>
    cases cs with
    | nil => intro c hc; contradiction
    | cons b cs =>
      intro c hc
      rcases List.mem_cons.mp hc with rfl | hc
      · rcases hsign with hsign | hsign <;> (cases hsign; decide)
      · exact isNumberChar_of_isDigits h c hc
  · exact isNumberChar_of_isDigits h

theorem isNumberChar_of_isNumber {literal : List Char} (h : isNumber literal = true) :
    ∀ c ∈ literal, isNumberChar c = true := by
  unfold isNumber at h
  extract_lets unsigned mantissa exponent integer fraction at h
  rw [Bool.and_eq_true, Bool.and_eq_true, Bool.or_eq_true, Bool.or_eq_true] at h
  obtain ⟨⟨hint, hfraction⟩, hexponent⟩ := h
  have hinteger : ∀ c ∈ integer, isNumberChar c = true := by
    rw [isInt, Bool.and_eq_true] at hint
    exact isNumberChar_of_isDigits hint.1
  have hmantissa : ∀ c ∈ mantissa, isNumberChar c = true := by
    refine forall_split _ hinteger fun c d hdrop => ?_
    have hc := dropWhile_head hdrop
    have hdigits : isDigits d = true := by
      simpa [fraction, hdrop] using hfraction
    rw [bne_eq_false_iff_eq] at hc
    exact ⟨hc ▸ by decide, isNumberChar_of_isDigits hdigits⟩
  have hunsigned : ∀ c ∈ unsigned, isNumberChar c = true := by
    refine forall_split _ hmantissa fun c d hdrop => ?_
    have hc := dropWhile_head hdrop
    have hdigits : isExponent d = true := by
      simpa [exponent, hdrop] using hexponent
    rw [Bool.and_eq_false_iff, bne_eq_false_iff_eq, bne_eq_false_iff_eq] at hc
    refine ⟨?_, isNumberChar_of_isExponent hdigits⟩
    rcases hc with rfl | rfl <;> decide
  by_cases hsign : literal.head? = some '-'
  · have hrest : unsigned = literal.tail := if_pos hsign
    cases literal with
    | nil => contradiction
    | cons b literal =>
      cases hsign
      intro c hc
      rcases List.mem_cons.mp hc with rfl | hc
      · decide
      · exact hunsigned c (hrest ▸ hc)
  · have hrest : unsigned = literal := if_neg hsign
    exact hrest ▸ hunsigned

/-- A number is not empty. -/
theorem ne_nil_of_isNumber {literal : List Char} (h : isNumber literal = true) : literal ≠ [] := by
  rintro rfl
  exact absurd h (by decide)

theorem takeWhile_append_ends {p : Char → Bool} {cs rest : List Char} (hcs : ∀ c ∈ cs, p c = true)
    (hrest : ∀ c ∈ rest.head?, p c = false) :
    (cs ++ rest).takeWhile p = cs ∧ (cs ++ rest).dropWhile p = rest := by
  rw [List.takeWhile_append_of_pos hcs, List.dropWhile_append_of_pos hcs]
  cases rest with
  | nil => exact ⟨List.append_nil cs, rfl⟩
  | cons c rest =>
    have hc := Bool.eq_false_iff.mp (hrest c rfl)
    rw [List.takeWhile_cons_of_neg hc, List.dropWhile_cons_of_neg hc, List.append_nil]
    exact ⟨rfl, rfl⟩

theorem readAtom_num {literal rest : List Char} (h : isNumber literal = true)
    (hrest : ∀ c ∈ rest.head?, isNumberChar c = false) :
    readAtom (literal ++ rest) = some (.num literal, rest) := by
  have hchars := isNumberChar_of_isNumber h
  obtain ⟨htake, hdrop⟩ := takeWhile_append_ends hchars hrest
  obtain ⟨c, cs, rfl⟩ := List.exists_cons_of_ne_nil (ne_nil_of_isNumber h)
  have hc := hchars c List.mem_cons_self
  -- a name does not begin like a number
  have hname (d : Char) (ds : List Char) (k : ℕ) (hd : isNumberChar d = false) :
      ¬ ((c :: cs) ++ rest).take (k + 1) = d :: ds := by
    intro heq
    rw [List.cons_append, List.take_succ_cons] at heq
    rw [(List.cons.inj heq).1, hd] at hc
    contradiction
  rw [readAtom, if_neg (hname _ _ 3 (by decide)), if_neg (hname _ _ 3 (by decide)),
    if_neg (hname _ _ 4 (by decide)), htake, hdrop]
  exact if_pos h

/-! ### Reading values -/

section

variable {α : Type} {read : List Char → Option (α × List Char)} {close : Char} {a : α}
  {text rest : List Char}

theorem separated_none (h : read text = none) (k : ℕ) : separated read close k text = none := by
  cases k with
  | zero => rfl
  | succ k => rw [separated, h, Option.bind_none]

theorem separated_last (h : read text = some (a, close :: rest)) (hclose : close ≠ ',') (k : ℕ) :
    separated read close (k + 1) text = some ([a], rest) := by
  rw [separated, h, Option.bind_some]
  dsimp only
  rw [if_neg hclose, if_pos rfl]

theorem separated_more {as : List α} {rest' : List Char} {k : ℕ}
    (h : read text = some (a, ',' :: rest)) (hs : separated read close k rest = some (as, rest')) :
    separated read close (k + 1) text = some (a :: as, rest') := by
  rw [separated, h, Option.bind_some]
  dsimp only
  rw [if_pos rfl, hs, Option.map_some]

end

theorem readClose_blank {close : Char} (hclose : isSpace close = false) {a : List Char}
    (ha : Blank a) (rest : List Char) : readClose close (a ++ close :: rest) = some rest := by
  rw [readClose, skip_blank ha, skip_cons hclose]
  exact if_pos rfl

/-- No value begins with a bracket that closes. -/
theorem readValue_close (n : ℕ) (rest : List Char) : readValue n (']' :: rest) = none := by
  cases n with
  | zero => rfl
  | succ n => simp [readValue, readAtom, isNumberChar, isNumber, isInt, isDigits]

/-- White space does not begin a value. -/
theorem value_head {j : Json} {cs : List Char} (h : Derives (.value j) cs) :
    ∃ c ds, cs = c :: ds ∧ isSpace c = false := by
  cases h with
  | num h =>
    obtain ⟨c, ds, rfl⟩ := List.exists_cons_of_ne_nil (ne_nil_of_isNumber h)
    refine ⟨c, ds, rfl, Bool.eq_false_iff.mpr fun hspace => ?_⟩
    have hc := isNumberChar_of_isNumber h c List.mem_cons_self
    simp only [isSpace, Bool.or_eq_true, beq_iff_eq] at hspace
    rcases hspace with ((rfl | rfl) | rfl) | rfl <;> exact absurd hc (by decide)
  | null => exact ⟨_, _, rfl, by decide⟩
  | true => exact ⟨_, _, rfl, by decide⟩
  | false => exact ⟨_, _, rfl, by decide⟩
  | str h => exact ⟨_, _, rfl, by decide⟩
  | emptyArr h => exact ⟨_, _, rfl, by decide⟩
  | arr h => exact ⟨_, _, rfl, by decide⟩
  | emptyObj h => exact ⟨_, _, rfl, by decide⟩
  | obj h => exact ⟨_, _, rfl, by decide⟩

theorem padded_value {n : ℕ} {a b cs rest : List Char} {j : Json} (ha : Blank a) (hb : Blank b)
    (h : Derives (.value j) cs) (hrest : Ends rest)
    (hread : readValue n (cs ++ (b ++ rest)) = some (j, b ++ rest)) :
    padded (readValue n) (a ++ cs ++ b ++ rest) = some (j, rest) := by
  obtain ⟨c, ds, rfl, hc⟩ := value_head h
  have hskip : skip (a ++ (c :: ds) ++ b ++ rest) = (c :: ds) ++ (b ++ rest) := by
    rw [List.append_assoc, List.append_assoc, skip_blank ha]
    exact skip_cons hc _
  rw [padded, hskip, hread, Option.map_some]
  dsimp only
  rw [skip_blank hb, hrest.skip]

/-- White space is not part of a number. -/
theorem blank_ends {b rest : List Char} (hb : Blank b) (hrest : Ends rest) :
    ∀ c ∈ (b ++ rest).head?, isNumberChar c = false := by
  cases b with
  | nil => exact fun c hc => (hrest c hc).2
  | cons d b =>
    rintro c ⟨⟩
    have hspace := hb d List.mem_cons_self
    simp only [isSpace, Bool.or_eq_true, beq_iff_eq] at hspace
    rcases hspace with ((rfl | rfl) | rfl) | rfl <;> decide

theorem ends_cons {c : Char} (hspace : isSpace c = false) (hnumber : isNumberChar c = false)
    (rest : List Char) : Ends (c :: rest) := by
  rintro _ ⟨⟩
  exact ⟨hspace, hnumber⟩

/-- A part of a text is read as what it was derived from, whatever can follow it. -/
def Reads : Part → List Char → Prop
  | .value j, cs => ∀ n rest, cs.length ≤ n → (∀ c ∈ rest.head?, isNumberChar c = false) →
      readValue n (cs ++ rest) = some (j, rest)
  | .element j, cs => ∀ n rest, cs.length ≤ n → Ends rest →
      padded (readValue n) (cs ++ rest) = some (j, rest)
  | .elements js, cs => ∀ n k rest, cs.length ≤ n → cs.length < k →
      separated (padded (readValue n)) ']' k (cs ++ ']' :: rest) = some (js, rest)
  | .member m, cs => ∀ n rest, cs.length ≤ n → Ends rest →
      readMember (padded (readValue n)) (cs ++ rest) = some (m, rest)
  | .members ms, cs => ∀ n k rest, cs.length ≤ n → cs.length < k →
      separated (readMember (padded (readValue n))) '\x7d' k (cs ++ '\x7d' :: rest) =
        some (ms, rest)

/-- Where there is text there is a level of nesting left. -/
theorem exists_level {c : Char} {cs : List Char} {n : ℕ} (h : (c :: cs).length ≤ n) :
    ∃ m, n = m + 1 ∧ cs.length ≤ m :=
  ⟨n - 1, by rw [List.length_cons] at h; omega, by rw [List.length_cons] at h; omega⟩

/-- What is neither a string nor a list begins a name or a number. -/
theorem readValue_atom {c : Char} (hc : c ∉ ['"', '[', '\x7b']) (n : ℕ) (text : List Char) :
    readValue (n + 1) (c :: text) = readAtom (c :: text) := by
  simp only [List.mem_cons, List.not_mem_nil, or_false, not_or] at hc
  rw [readValue]
  · exact fun rest h => hc.1 (List.cons.inj h).1
  · exact fun rest h => hc.2.1 (List.cons.inj h).1
  · exact fun rest h => hc.2.2 (List.cons.inj h).1

theorem reads_num {literal : List Char} (h : isNumber literal = true) :
    Reads (.value (.num literal)) literal := by
  intro n rest hn hrest
  have hatom := readAtom_num h hrest
  obtain ⟨c, cs, rfl⟩ := List.exists_cons_of_ne_nil (ne_nil_of_isNumber h)
  obtain ⟨n, rfl, -⟩ := exists_level hn
  have hc := isNumberChar_of_isNumber h c List.mem_cons_self
  have hnot : c ∉ ['"', '[', '\x7b'] := by
    simp only [List.mem_cons, List.not_mem_nil, or_false, not_or]
    refine ⟨?_, ?_, ?_⟩ <;> (rintro rfl; exact absurd hc (by decide))
  rw [List.cons_append, readValue_atom hnot]
  exact hatom

theorem reads_member {a b ks key cs : List Char} {j : Json} (ha : Blank a) (hk : Chars ks key)
    (hb : Blank b) (ih : Reads (.element j) cs) :
    Reads (.member (String.ofList key, j)) (a ++ '"' :: (ks ++ '"' :: (b ++ ':' :: cs))) := by
  intro n rest hn hrest
  have hlength : cs.length ≤ n := by
    simp only [List.length_append, List.length_cons] at hn
    omega
  have hname := readString_of_chars hk (b ++ ':' :: (cs ++ rest))
  have hvalue := ih n rest hlength hrest
  have hcolon : skip (b ++ ':' :: (cs ++ rest)) = ':' :: (cs ++ rest) := by
    rw [skip_blank hb, skip_cons (by decide)]
  simp only [List.append_assoc, List.cons_append]
  rw [readMember, skip_blank ha, skip_cons (by decide)]
  simp only [hname, hcolon, hvalue, Option.bind_some, Option.map_some]

/-- **What the grammar derives is read.** -/
theorem reads {part : Part} {cs : List Char} (h : Derives part cs) : Reads part cs := by
  induction h with
  | null =>
    intro n rest hn _
    obtain ⟨n, rfl, -⟩ := exists_level hn
    exact readValue_atom (by decide) n _
  | true =>
    intro n rest hn _
    obtain ⟨n, rfl, -⟩ := exists_level hn
    exact readValue_atom (by decide) n _
  | false =>
    intro n rest hn _
    obtain ⟨n, rfl, -⟩ := exists_level hn
    exact readValue_atom (by decide) n _
  | num h => exact reads_num h
  | str h =>
    intro n rest hn _
    obtain ⟨n, rfl, -⟩ := exists_level hn
    rw [List.cons_append, List.append_assoc, readValue, List.singleton_append,
      readString_of_chars h, Option.map_some]
  | @emptyArr a h =>
    intro n rest hn _
    obtain ⟨n, rfl, -⟩ := exists_level hn
    have hnone : padded (readValue n) (a ++ ']' :: rest) = none := by
      rw [padded, skip_blank h, skip_cons (by decide), readValue_close, Option.map_none]
    rw [List.cons_append, List.append_assoc, readValue, List.singleton_append,
      separated_none hnone, readClose_blank (by decide) h]
    rfl
  | arr h ih =>
    intro n rest hn _
    obtain ⟨n, rfl, hlength⟩ := exists_level hn
    rw [List.length_append] at hlength
    rw [List.cons_append, List.append_assoc, readValue, List.singleton_append,
      ih n _ rest (by omega) (by rw [List.length_append, List.length_cons]; omega)]
    rfl
  | @emptyObj a h =>
    intro n rest hn _
    obtain ⟨n, rfl, -⟩ := exists_level hn
    have hnone : readMember (padded (readValue n)) (a ++ '\x7d' :: rest) = none := by
      rw [readMember, skip_blank h, skip_cons (by decide)]
      rfl
    rw [List.cons_append, List.append_assoc, readValue, List.singleton_append,
      separated_none hnone, readClose_blank (by decide) h]
    rfl
  | obj h ih =>
    intro n rest hn _
    obtain ⟨n, rfl, hlength⟩ := exists_level hn
    rw [List.length_append] at hlength
    rw [List.cons_append, List.append_assoc, readValue, List.singleton_append,
      ih n _ rest (by omega) (by rw [List.length_append, List.length_cons]; omega)]
    rfl
  | element ha h hb ih =>
    intro n rest hn hrest
    simp only [List.length_append] at hn
    exact padded_value ha hb h hrest (ih n _ (by omega) (blank_ends hb hrest))
  | lastElement h ih =>
    intro n k rest hn hk
    obtain ⟨k, rfl⟩ := Nat.exists_eq_add_of_lt hk
    exact separated_last (ih n _ hn (ends_cons (by decide) (by decide) rest)) (by decide) _
  | @moreElements cs ds j js h hs ih ihs =>
    intro n k rest hn hk
    obtain ⟨k, rfl⟩ : ∃ m, k = m + 1 := ⟨k - 1, by omega⟩
    rw [List.length_append, List.length_cons] at hn hk
    rw [List.append_assoc, List.cons_append]
    exact separated_more (ih n _ (by omega) (ends_cons (by decide) (by decide) _))
      (ihs n k rest (by omega) (by omega))
  | member ha hk hb h ih => exact reads_member ha hk hb ih
  | lastMember h ih =>
    intro n k rest hn hk
    obtain ⟨k, rfl⟩ := Nat.exists_eq_add_of_lt hk
    exact separated_last (ih n _ hn (ends_cons (by decide) (by decide) rest)) (by decide) _
  | @moreMembers cs ds m ms h hs ih ihs =>
    intro n k rest hn hk
    obtain ⟨k, rfl⟩ : ∃ m, k = m + 1 := ⟨k - 1, by omega⟩
    rw [List.length_append, List.length_cons] at hn hk
    rw [List.append_assoc, List.cons_append]
    exact separated_more (ih n _ (by omega) (ends_cons (by decide) (by decide) _))
      (ihs n k rest (by omega) (by omega))

/-- A text that the grammar derives is parsed to what it was derived from. -/
theorem parse_of_derives {text : String} {j : Json} (h : Derives (.element j) text.toList) :
    parse text = some j := by
  have hread := reads h text.toList.length [] (Nat.le_refl _) (fun c hc => nomatch hc)
  rw [List.append_nil] at hread
  rw [parse, hread]

/-! ### Writing -/

/-- A number in decimal notation does not begin with a superfluous zero. -/
theorem toDigits_head {n : ℕ} (hn : n ≠ 0) : (Nat.toDigits 10 n).head? ≠ some '0' := by
  induction n using Nat.strongRecOn with
  | ind n ih =>
    by_cases hsmall : n < 10
    · have hdigit : ∀ k < 10, k ≠ 0 → [k.digitChar].head? ≠ some '0' := by decide
      rw [Nat.toDigits_of_lt_base hsmall]
      exact hdigit n hsmall hn
    · have hrest := ih (n / 10) (by omega) (by omega)
      obtain ⟨c, cs, hcs⟩ := List.exists_cons_of_ne_nil (@Nat.toDigits_ne_nil (n / 10) 10)
      rw [Nat.toDigits_of_base_le (by decide) (by omega), hcs]
      rwa [hcs] at hrest

theorem isDigits_toDigits (n : ℕ) : isDigits (Nat.toDigits 10 n) = true := by
  rw [isDigits, List.isEmpty_eq_false_iff.mpr Nat.toDigits_ne_nil, Bool.not_false, Bool.true_and,
    List.all_eq_true]
  exact fun c hc => Nat.isDigit_of_mem_toDigits (by decide) (by decide) hc

theorem isNumber_toDigits (n : ℕ) : isNumber (Nat.toDigits 10 n) = true := by
  have hdigits := isDigits_toDigits n
  rw [isDigits, Bool.and_eq_true, List.all_eq_true] at hdigits
  have hdigit := hdigits.2
  obtain ⟨b, cs, hcs⟩ := List.exists_cons_of_ne_nil (@Nat.toDigits_ne_nil n 10)
  -- all of it is the integer
  have hall {p : Char → Bool} (hp : ∀ c, c.isDigit = true → p c = true) :
      (b :: cs).takeWhile p = b :: cs ∧ (b :: cs).dropWhile p = [] := by
    have hsplit := @takeWhile_append_ends p (b :: cs) []
      (fun c hc => hp c (hdigit c (hcs ▸ hc))) (fun c hc => nomatch hc)
    rwa [List.append_nil] at hsplit
  have hmantissa := hall (p := fun c => c != 'e' && c != 'E') fun c hc => by
    rw [Bool.and_eq_true, bne_iff_ne, bne_iff_ne]
    constructor <;> (rintro rfl; exact absurd hc (by decide))
  have hinteger := hall (p := (· != '.')) fun c hc => by
    rw [bne_iff_ne]
    rintro rfl
    exact absurd hc (by decide)
  have hsign : ¬ (b :: cs).head? = some '-' := by
    intro h
    cases h
    exact absurd (hdigit '-' (by rw [hcs]; exact List.mem_cons_self)) (by decide)
  have hint : isInt (b :: cs) = true := by
    rw [← hcs, isInt, isDigits_toDigits, Bool.true_and, Bool.or_eq_true]
    by_cases hn : n = 0
    · rw [hn]
      exact .inr rfl
    · exact .inl (bne_iff_ne.mpr (toDigits_head hn))
  rw [hcs, isNumber, if_neg hsign, hmantissa.1, hmantissa.2, hinteger.1, hinteger.2, hint]
  rfl

theorem derives_nat (n : ℕ) :
    Derives (.value (.num (Nat.toDigits 10 n))) (Nat.toDigits 10 n) :=
  .num (isNumber_toDigits n)

/-- A string in quotation marks. -/
def quoted (cs : List Char) : List Char := '"' :: (cs ++ ['"'])

theorem derives_string {cs : List Char} {s : String} (h : Chars cs s.toList) :
    Derives (.value (.str s)) (quoted cs) := by
  have hstr := Derives.str h
  rwa [String.ofList_toList] at hstr

/-- What needs no escapes. -/
theorem chars_plain {cs : List Char} (h : cs.all isPlain = true) : Chars cs cs := by
  induction cs with
  | nil => exact .nil
  | cons c cs ih =>
    rw [List.all_cons, Bool.and_eq_true] at h
    exact .cons (.plain h.1) (ih h.2)

/-- A member without white space. -/
def field (key : String) (cs : List Char) : List Char := quoted key.toList ++ ':' :: cs

theorem derives_field {key : String} {j : Json} {cs : List Char}
    (hkey : key.toList.all isPlain = true) (h : Derives (.value j) cs) :
    Derives (.member (key, j)) (field key cs) := by
  have helement := Derives.element blank_nil h blank_nil
  have hmember := Derives.member blank_nil (chars_plain hkey) blank_nil helement
  rw [String.ofList_toList] at hmember
  simpa [field, quoted] using hmember

/-- An object without white space. -/
def braces (fields : List (List Char)) : List Char :=
  '\x7b' :: ([','].intercalate fields ++ ['\x7d'])

theorem derives_members {ms : List (String × Json)} {fields : List (List Char)}
    (h : List.Forall₂ (fun m cs => Derives (.member m) cs) ms fields) (hne : ms ≠ []) :
    Derives (.members ms) ([','].intercalate fields) := by
  induction h with
  | nil => exact absurd rfl hne
  | @cons m cs ms fields hm hrest ih =>
    cases hrest with
    | nil =>
      rw [List.intercalate_singleton]
      exact .lastMember hm
    | cons hm' hrest' =>
      rw [List.intercalate_cons_cons, List.append_assoc]
      exact .moreMembers hm (ih (List.cons_ne_nil _ _))

theorem derives_braces {ms : List (String × Json)} {fields : List (List Char)}
    (h : List.Forall₂ (fun m cs => Derives (.member m) cs) ms fields) (hne : ms ≠ []) :
    Derives (.value (.obj ms)) (braces fields) :=
  .obj (derives_members h hne)

/-- Elements on lines of their own. -/
def lines : List (List Char) → List Char
  | [] => []
  | [cs] => '\n' :: (cs ++ ['\n'])
  | cs :: ds :: rest => '\n' :: (cs ++ ',' :: lines (ds :: rest))

theorem derives_lines {js : List Json} {texts : List (List Char)}
    (h : List.Forall₂ (fun j cs => Derives (.value j) cs) js texts) (hne : js ≠ []) :
    Derives (.elements js) (lines texts) := by
  induction h with
  | nil => exact absurd rfl hne
  | @cons j cs js texts hj hrest ih =>
    cases hrest with
    | nil => exact .lastElement (.element blank_newline hj blank_newline)
    | cons hj' hrest' =>
      have helement := Derives.element blank_newline hj blank_nil
      rw [List.append_nil] at helement
      exact .moreElements helement (ih (List.cons_ne_nil _ _))

/-! ### Access -/

/-- The first member of an object with this key. -/
def field? (key : String) : Json → Option Json
  | .obj ms => ms.lookup key
  | _ => none

def arr? : Json → Option (List Json)
  | .arr js => some js
  | _ => none

def str? : Json → Option String
  | .str s => some s
  | _ => none

/-- A number that is written as a natural number. -/
def nat? : Json → Option ℕ
  | .num literal => if isDigits literal then some (Nat.ofDigitChars 10 literal 0) else none
  | _ => none

theorem nat?_toDigits (n : ℕ) : nat? (.num (Nat.toDigits 10 n)) = some n := by
  rw [nat?, if_pos (isDigits_toDigits n), Nat.ofDigitChars_ten_toDigits]

end Json
