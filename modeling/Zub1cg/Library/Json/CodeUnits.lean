import Zub1cg.Library.Json

/-!
# JSON strings of code units

The escapes of a JSON string name code units of UTF-16, and one half of a surrogate pair can be
named without the other. No text is what such a string stands for, but the grammar has it all the
same. Here a string stands for its code units, whatever they are.

## Main definitions

- `utf16` — the code units of a character
- `StringUnits` — the code units of what stands between quotation marks
- `Derives` — the grammar

## Main results

- `chars_of_stringUnits` — a text is known by its code units
- `derives_iff` — a text stands for a value if and only if it stands for the code units of the value
-/

namespace Json.CodeUnits

/-- The code units of UTF-16 that a character is encoded in -/
def utf16 (c : Char) : List ℕ :=
  if c.toNat < 0x10000 then [c.toNat]
  else [0xD800 + (c.toNat - 0x10000) / 0x400, 0xDC00 + (c.toNat - 0x10000) % 0x400]

/-- Characters are no halves of pairs. -/
theorem toNat_scalar (c : Char) : c.toNat < 0xD800 ∨ 0xDFFF < c.toNat ∧ c.toNat < 0x110000 :=
  c.valid

/-- A character or an escape -/
inductive CharUnits : List Char → List ℕ → Prop
  | plain {c : Char} (h : isPlain c = true) : CharUnits [c] (utf16 c)
  | escape {e c : Char} (h : (e, c) ∈ escapes) : CharUnits ['\\', e] (utf16 c)
  | unicode {a b c d : Char} {n : ℕ} (h : hex4 a b c d = some n) :
      CharUnits ['\\', 'u', a, b, c, d] [n]

/-- What stands between the quotation marks -/
inductive StringUnits : List Char → List ℕ → Prop
  | nil : StringUnits [] []
  | cons {t cs : List Char} {us vs : List ℕ} (h : CharUnits t us) (hs : StringUnits cs vs) :
      StringUnits (t ++ cs) (us ++ vs)

/-! ### The grammar -/

inductive Value where
  | null
  | bool (value : Bool)
  | num (literal : List Char)
  | str (units : List ℕ)
  | arr (elements : List Value)
  | obj (members : List (List ℕ × Value))

/-- What a piece of a text can stand for. -/
inductive Part where
  | value (v : Value)
  | element (v : Value)
  | elements (vs : List Value)
  | member (m : List ℕ × Value)
  | members (ms : List (List ℕ × Value))

/-- The grammar. -/
inductive Derives : Part → List Char → Prop
  | null : Derives (.value .null) ['n', 'u', 'l', 'l']
  | true : Derives (.value (.bool true)) ['t', 'r', 'u', 'e']
  | false : Derives (.value (.bool false)) ['f', 'a', 'l', 's', 'e']
  | num {literal : List Char} (h : isNumber literal = true) :
      Derives (.value (.num literal)) literal
  | str {cs : List Char} {us : List ℕ} (h : StringUnits cs us) :
      Derives (.value (.str us)) ('"' :: (cs ++ ['"']))
  | emptyArr {a : List Char} (h : Blank a) : Derives (.value (.arr [])) ('[' :: (a ++ [']']))
  | arr {vs : List Value} {cs : List Char} (h : Derives (.elements vs) cs) :
      Derives (.value (.arr vs)) ('[' :: (cs ++ [']']))
  | emptyObj {a : List Char} (h : Blank a) : Derives (.value (.obj [])) ('\x7b' :: (a ++ ['\x7d']))
  | obj {ms : List (List ℕ × Value)} {cs : List Char} (h : Derives (.members ms) cs) :
      Derives (.value (.obj ms)) ('\x7b' :: (cs ++ ['\x7d']))
  | element {a b cs : List Char} {v : Value} (ha : Blank a) (h : Derives (.value v) cs)
      (hb : Blank b) : Derives (.element v) (a ++ cs ++ b)
  | lastElement {cs : List Char} {v : Value} (h : Derives (.element v) cs) :
      Derives (.elements [v]) cs
  | moreElements {cs ds : List Char} {v : Value} {vs : List Value} (h : Derives (.element v) cs)
      (hs : Derives (.elements vs) ds) : Derives (.elements (v :: vs)) (cs ++ ',' :: ds)
  | member {a b ks cs : List Char} {key : List ℕ} {v : Value} (ha : Blank a)
      (hk : StringUnits ks key) (hb : Blank b) (h : Derives (.element v) cs) :
      Derives (.member (key, v)) (a ++ '"' :: (ks ++ '"' :: (b ++ ':' :: cs)))
  | lastMember {cs : List Char} {m : List ℕ × Value} (h : Derives (.member m) cs) :
      Derives (.members [m]) cs
  | moreMembers {cs ds : List Char} {m : List ℕ × Value} {ms : List (List ℕ × Value)}
      (h : Derives (.member m) cs) (hs : Derives (.members ms) ds) :
      Derives (.members (m :: ms)) (cs ++ ',' :: ds)

/-! ### Strings that stand for text -/

theorem hexValue_lt {c : Char} {v : ℕ} (h : hexValue c = some v) : v < 16 := by
  unfold hexValue at h
  have hle {c d : Char} (h : c ≤ d) : c.toNat ≤ d.toNat := h
  split_ifs at h with h1 h2 h3
  · have hc := hle h1.2
    cases h
    simp only [Char.reduceToNat] at hc ⊢
    omega
  · have hc := hle h2.2
    cases h
    simp only [Char.reduceToNat] at hc ⊢
    omega
  · have hc := hle h3.2
    cases h
    simp only [Char.reduceToNat] at hc ⊢
    omega

theorem hex4_lt {a b c d : Char} {n : ℕ} (h : hex4 a b c d = some n) : n < 0x10000 := by
  simp only [hex4, Option.bind_eq_some_iff, Option.map_eq_some_iff] at h
  obtain ⟨va, ha, vb, hb, vc, hc, vd, hd, rfl⟩ := h
  have hva := hexValue_lt ha
  have hvb := hexValue_lt hb
  have hvc := hexValue_lt hc
  have hvd := hexValue_lt hd
  omega

theorem toNat_ofNat {n : ℕ} (h : n.isValidChar) : (Char.ofNat n).toNat = n := by
  rw [Char.ofNat, dif_pos h]
  rfl

theorem stringUnits_of_charText {t : List Char} {c : Char} (h : CharText t c) :
    StringUnits t (utf16 c) := by
  cases h with
  | plain h => simpa using StringUnits.cons (.plain h) .nil
  | escape h => simpa using StringUnits.cons (.escape h) .nil
  | @unicode a b c d n h hhigh hlow =>
    have hlt := hex4_lt h
    have hvalid : n.isValidChar := by
      simp only [isHighSurrogate, isLowSurrogate, Bool.and_eq_false_iff, decide_eq_false_iff_not]
        at hhigh hlow
      unfold Nat.isValidChar
      omega
    rw [utf16, toNat_ofNat hvalid, if_pos hlt]
    simpa using StringUnits.cons (.unicode h) .nil
  | @pair a b c d a' b' c' d' n n' h h' hhigh hlow =>
    simp only [isHighSurrogate, isLowSurrogate, Bool.and_eq_true, decide_eq_true_eq] at hhigh hlow
    have hvalid : (0x10000 + (n - 0xD800) * 0x400 + (n' - 0xDC00)).isValidChar := by
      unfold Nat.isValidChar
      omega
    have hunits : utf16 (pairChar n n') = [n, n'] := by
      rw [utf16, pairChar, toNat_ofNat hvalid, if_neg (by omega)]
      simp only [List.cons.injEq, and_true]
      omega
    rw [hunits]
    exact .cons (.unicode h) (.cons (.unicode h') .nil)

theorem StringUnits.append {cs ds : List Char} {us vs : List ℕ} (h : StringUnits cs us)
    (h' : StringUnits ds vs) : StringUnits (cs ++ ds) (us ++ vs) := by
  induction h with
  | nil => exact h'
  | cons h _ ih =>
    rw [List.append_assoc, List.append_assoc]
    exact .cons h ih

/-- What stands for text stands for its code units. -/
theorem stringUnits_of_chars {cs s : List Char} (h : Chars cs s) :
    StringUnits cs (s.flatMap utf16) := by
  induction h with
  | nil => exact .nil
  | cons h _ ih => exact (stringUnits_of_charText h).append ih

theorem utf16_ne_nil (c : Char) : utf16 c ≠ [] := by
  unfold utf16
  split_ifs <;> exact List.cons_ne_nil _ _

/-- The code units of a character are not the first ones of another. -/
theorem utf16_append_inj {c d : Char} {us vs : List ℕ} (h : utf16 c ++ us = utf16 d ++ vs) :
    c = d ∧ us = vs := by
  have hc := toNat_scalar c
  have hd := toNat_scalar d
  unfold utf16 at h
  split_ifs at h with hc' hd' hd'
  all_goals simp only [List.cons_append, List.nil_append, List.cons.injEq] at h
  · exact ⟨Char.toNat_inj.1 h.1, h.2⟩
  · omega
  · omega
  · exact ⟨Char.toNat_inj.1 (by omega), h.2.2⟩

/-- The second half of a pair can only be written as an escape. -/
theorem stringUnits_low {cs : List Char} {n : ℕ} {us : List ℕ} (h : StringUnits cs (n :: us))
    (hlow : isLowSurrogate n = true) :
    ∃ a b c d cs', cs = ['\\', 'u', a, b, c, d] ++ cs' ∧ hex4 a b c d = some n ∧
      StringUnits cs' us := by
  have hplain (c : Char) (vs : List ℕ) : utf16 c ++ vs ≠ n :: us := by
    have hc := toNat_scalar c
    simp only [isLowSurrogate, Bool.and_eq_true, decide_eq_true_eq] at hlow
    unfold utf16
    split_ifs <;> simp only [List.cons_append, List.nil_append, ne_eq, List.cons.injEq] <;> omega
  generalize hvs : n :: us = vs at h
  cases h with
  | nil => contradiction
  | cons h hs =>
    cases h with
    | plain h => exact absurd hvs.symm (hplain _ _)
    | escape h => exact absurd hvs.symm (hplain _ _)
    | unicode h =>
      obtain ⟨rfl, rfl⟩ := List.cons.inj hvs
      exact ⟨_, _, _, _, _, rfl, h, hs⟩

theorem charUnits_ne_nil {t : List Char} {us : List ℕ} (h : CharUnits t us) : us ≠ [] := by
  cases h with
  | plain _ => exact utf16_ne_nil _
  | escape _ => exact utf16_ne_nil _
  | unicode _ => exact List.cons_ne_nil _ _

/-- An escape that begins with the code units of a character: the character, or the first half of
its pair with the second half behind it -/
theorem exists_charText {a b c d e : Char} {n : ℕ} {cs : List Char} {us vs : List ℕ}
    (h : hex4 a b c d = some n) (hs : StringUnits cs vs) (hunits : utf16 e ++ us = n :: vs) :
    ∃ t cs', ['\\', 'u', a, b, c, d] ++ cs = t ++ cs' ∧ CharText t e ∧ StringUnits cs' us ∧
      cs'.length ≤ cs.length := by
  have he := toNat_scalar e
  unfold utf16 at hunits
  split_ifs at hunits with hbmp
  · obtain ⟨rfl, rfl⟩ := List.cons.inj hunits
    have hchar := CharText.unicode h (by simp [isHighSurrogate]; omega)
      (by simp [isLowSurrogate]; omega)
    rw [Char.ofNat_toNat] at hchar
    exact ⟨_, cs, rfl, hchar, hs, Nat.le_refl _⟩
  · obtain ⟨rfl, rfl⟩ := List.cons.inj hunits
    obtain ⟨a', b', c', d', cs', rfl, h', hs'⟩ :=
      stringUnits_low hs (by simp [isLowSurrogate]; omega)
    have hchar := CharText.pair h h' (by simp [isHighSurrogate]; omega)
      (by simp [isLowSurrogate]; omega)
    have hvalue : 0x10000 + (e.toNat - 0x10000) / 0x400 * 0x400 + (e.toNat - 0x10000) % 0x400 =
        e.toNat := by
      omega
    rw [pairChar, Nat.add_sub_cancel_left, Nat.add_sub_cancel_left, hvalue,
      Char.ofNat_toNat] at hchar
    exact ⟨_, cs', rfl, hchar, hs', by simp only [List.length_append]; omega⟩

/-- What stands for the code units of a text stands for the text. -/
theorem chars_of_stringUnits {cs s : List Char} (h : StringUnits cs (s.flatMap utf16)) :
    Chars cs s := by
  -- on the length, as two escapes can be one character
  generalize hlength : cs.length = m
  induction m using Nat.strongRecOn generalizing cs s with
  | ind m ih =>
    generalize hus : s.flatMap utf16 = us at h
    cases h with
    | nil =>
      cases s with
      | nil => exact .nil
      | cons c s => exact absurd (List.append_eq_nil_iff.1 hus).1 (utf16_ne_nil c)
    | @cons t cs us vs h hs =>
      cases s with
      | nil => exact absurd (List.append_eq_nil_iff.1 hus.symm).1 (charUnits_ne_nil h)
      | cons c s =>
        rw [List.length_append] at hlength
        rw [List.flatMap_cons] at hus
        cases h with
        | plain h =>
          obtain ⟨rfl, rfl⟩ := utf16_append_inj hus
          exact .cons (.plain h) (ih _ (by simp at hlength; omega) hs rfl)
        | escape h =>
          obtain ⟨rfl, rfl⟩ := utf16_append_inj hus
          exact .cons (.escape h) (ih _ (by simp at hlength; omega) hs rfl)
        | unicode h =>
          obtain ⟨t, cs', htext, hchar, hs', hle⟩ := exists_charText h hs hus
          rw [htext]
          exact .cons hchar (ih _ (by simp at hlength; omega) hs' rfl)

/-! ### Values without such strings -/

def units (s : String) : List ℕ := s.toList.flatMap utf16

theorem units_ofList (s : List Char) : units (String.ofList s) = s.flatMap utf16 := by
  rw [units, String.toList_ofList]

mutual

/-- The value with the code units of its strings -/
def ofJson : Json → Value
  | .null => .null
  | .bool value => .bool value
  | .num literal => .num literal
  | .str s => .str (units s)
  | .arr elements => .arr (ofElements elements)
  | .obj members => .obj (ofMembers members)

def ofElements : List Json → List Value
  | [] => []
  | j :: js => ofJson j :: ofElements js

def ofMembers : List (String × Json) → List (List ℕ × Value)
  | [] => []
  | (key, j) :: ms => (units key, ofJson j) :: ofMembers ms

end

def ofPart : Json.Part → Part
  | .value j => .value (ofJson j)
  | .element j => .element (ofJson j)
  | .elements js => .elements (ofElements js)
  | .member m => .member (units m.1, ofJson m.2)
  | .members ms => .members (ofMembers ms)

/-- **A text that stands for a value** stands for the code units of that value. -/
theorem derives_of_derives {part : Json.Part} {text : List Char} (h : Json.Derives part text) :
    Derives (ofPart part) text := by
  induction h with
  | null => exact .null
  | true => exact .true
  | false => exact .false
  | num h => exact .num h
  | @str cs s h =>
    rw [ofPart, ofJson, units_ofList]
    exact .str (stringUnits_of_chars h)
  | emptyArr h => exact .emptyArr h
  | arr _ ih => exact .arr ih
  | emptyObj h => exact .emptyObj h
  | obj _ ih => exact .obj ih
  | element ha _ hb ih => exact .element ha ih hb
  | lastElement _ ih => exact .lastElement ih
  | moreElements _ _ ih ihs => exact .moreElements ih ihs
  | @member a b ks key cs j ha hk hb _ ih =>
    rw [ofPart, units_ofList]
    exact .member ha (stringUnits_of_chars hk) hb ih
  | lastMember _ ih => exact .lastMember ih
  | moreMembers _ _ ih ihs => exact .moreMembers ih ihs

theorem chars_of_units {cs : List Char} {s : String} (h : StringUnits cs (units s)) :
    Chars cs s.toList := chars_of_stringUnits h

/-- What the part is that a piece with code units comes from -/
def ComesFrom (part : Json.Part) : Part → Prop
  | .value v => ∃ j, part = .value j ∧ ofJson j = v
  | .element v => ∃ j, part = .element j ∧ ofJson j = v
  | .elements vs => ∃ js, part = .elements js ∧ ofElements js = vs
  | .member m => ∃ key j, part = .member (key, j) ∧ (units key, ofJson j) = m
  | .members ms => ∃ js, part = .members js ∧ ofMembers js = ms

theorem comesFrom (part : Json.Part) : ComesFrom part (ofPart part) := by
  cases part with
  | value j => exact ⟨j, rfl, rfl⟩
  | element j => exact ⟨j, rfl, rfl⟩
  | elements js => exact ⟨js, rfl, rfl⟩
  | member m => exact ⟨m.1, m.2, rfl, rfl⟩
  | members ms => exact ⟨ms, rfl, rfl⟩

theorem derives_of_comesFrom {p : Part} {text : List Char} (h : Derives p text) {part : Json.Part}
    (hpart : ComesFrom part p) : Json.Derives part text := by
  induction h generalizing part with
  | null =>
    obtain ⟨j, rfl, hj⟩ := hpart
    cases j <;> simp [ofJson] at hj
    exact .null
  | true =>
    obtain ⟨j, rfl, hj⟩ := hpart
    cases j <;> simp [ofJson] at hj
    subst hj
    exact .true
  | false =>
    obtain ⟨j, rfl, hj⟩ := hpart
    cases j <;> simp [ofJson] at hj
    subst hj
    exact .false
  | num h =>
    obtain ⟨j, rfl, hj⟩ := hpart
    cases j <;> simp [ofJson] at hj
    subst hj
    exact .num h
  | str h =>
    obtain ⟨j, rfl, hj⟩ := hpart
    cases j <;> simp [ofJson] at hj
    subst hj
    have hstr := Json.Derives.str (chars_of_units h)
    rwa [String.ofList_toList] at hstr
  | emptyArr h =>
    obtain ⟨j, rfl, hj⟩ := hpart
    cases j <;> simp [ofJson] at hj
    next js =>
      cases js with
      | nil => exact .emptyArr h
      | cons j js => contradiction
  | arr _ ih =>
    obtain ⟨j, rfl, hj⟩ := hpart
    cases j <;> simp [ofJson] at hj
    subst hj
    exact .arr (ih (comesFrom _))
  | emptyObj h =>
    obtain ⟨j, rfl, hj⟩ := hpart
    cases j <;> simp [ofJson] at hj
    next ms =>
      cases ms with
      | nil => exact .emptyObj h
      | cons m ms => contradiction
  | obj _ ih =>
    obtain ⟨j, rfl, hj⟩ := hpart
    cases j <;> simp [ofJson] at hj
    subst hj
    exact .obj (ih (comesFrom _))
  | element ha _ hb ih =>
    obtain ⟨j, rfl, rfl⟩ := hpart
    exact .element ha (ih (comesFrom _)) hb
  | lastElement _ ih =>
    obtain ⟨js, rfl, hjs⟩ := hpart
    obtain _ | ⟨j, _ | ⟨j', js⟩⟩ := js <;> simp [ofElements] at hjs
    subst hjs
    exact .lastElement (ih (comesFrom _))
  | moreElements _ _ ih ihs =>
    obtain ⟨js, rfl, hjs⟩ := hpart
    obtain _ | ⟨j, js⟩ := js <;> simp [ofElements] at hjs
    obtain ⟨rfl, rfl⟩ := hjs
    exact .moreElements (ih (comesFrom _)) (ihs (comesFrom _))
  | member ha hk hb _ ih =>
    obtain ⟨key, j, rfl, heq⟩ := hpart
    cases heq
    have hmember := Json.Derives.member ha (chars_of_units hk) hb (ih (comesFrom (.element j)))
    rwa [String.ofList_toList] at hmember
  | lastMember _ ih =>
    obtain ⟨ms, rfl, hms⟩ := hpart
    obtain _ | ⟨m, _ | ⟨m', ms⟩⟩ := ms <;> simp [ofMembers] at hms
    subst hms
    exact .lastMember (ih (comesFrom _))
  | moreMembers _ _ ih ihs =>
    obtain ⟨ms, rfl, hms⟩ := hpart
    obtain _ | ⟨m, ms⟩ := ms <;> simp [ofMembers] at hms
    obtain ⟨rfl, rfl⟩ := hms
    exact .moreMembers (ih (comesFrom _)) (ihs (comesFrom _))

/-- **The two grammars agree** where strings stand for text. -/
theorem derives_iff {part : Json.Part} {text : List Char} :
    Derives (ofPart part) text ↔ Json.Derives part text :=
  ⟨fun h => derives_of_comesFrom h (comesFrom part), derives_of_derives⟩

end Json.CodeUnits
