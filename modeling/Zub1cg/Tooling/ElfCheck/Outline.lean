import Zub1cg.Tooling.ElfCheck.Artifacts

/-!
# Manifests that are scanned as they are meant

The strings that stand directly in an object decide what is found there: the first one that looks
like the key that is searched for has to be that key. Where it is, and where no string has an
opening brace in it, the scan finds what the manifest says.

## Main definitions

- `Token`, `Object`, `Outline` — the strings and the objects of a text
- `Object.Plain` — the search finds the members of an object

## Main results

- `passes` — braces match in what the grammar derives
- `scanned` — what the scanners make of a text
- `parseArtifactHashes_eq` — the artifacts are found
-/

namespace ElfCheck

open Checked Scan
open Json (Blank CharText Chars Derives Part)

/-! ### Outlines -/

/-- A string as it is written: the key of a member, with the value and what it stands for if that is
a string, or another string -/
inductive Token where
  | key (raw : Text) (value : Option (Text × Text))
  | other (raw : Text)
  deriving DecidableEq

def Token.raw : Token → Text
  | .key raw _ | .other raw => raw

/-- An object, and the strings that stand in it but not in another object inside of it -/
structure Object where
  tokens : List Token
  members : List (String × Json)

def valueOf : Json → List Token → Option (Text × Text)
  | .str s, [.other raw] => some (raw, s.toList)
  | _, _ => none

def isAtom : Json → Bool
  | .null | .bool _ | .num _ => true
  | _ => false

/-- The grammar, with the strings of a piece of a text that are in no object inside of it, and with
its objects, each one after those inside of it -/
inductive Outline : Part → Text → List Token → List Object → Prop
  | atom {j : Json} {cs : Text} (h : Derives (.value j) cs) (hatom : isAtom j = true) :
      Outline (.value j) cs [] []
  | str {cs s : Text} (h : Chars cs s) :
      Outline (.value (.str (String.ofList s))) (quoted cs) [.other cs] []
  | emptyArr {a : Text} (h : Blank a) : Outline (.value (.arr [])) ('[' :: (a ++ [']'])) [] []
  | arr {js : List Json} {cs : Text} {ts : List Token} {os : List Object}
      (h : Outline (.elements js) cs ts os) : Outline (.value (.arr js)) ('[' :: (cs ++ [']'])) ts os
  | emptyObj {a : Text} (h : Blank a) : Outline (.value (.obj [])) (braced a) [] [⟨[], []⟩]
  | obj {ms : List (String × Json)} {cs : Text} {ts : List Token} {os : List Object}
      (h : Outline (.members ms) cs ts os) :
      Outline (.value (.obj ms)) (braced cs) [] (os ++ [⟨ts, ms⟩])
  | element {a b cs : Text} {j : Json} {ts : List Token} {os : List Object} (ha : Blank a)
      (h : Outline (.value j) cs ts os) (hb : Blank b) : Outline (.element j) (a ++ cs ++ b) ts os
  | lastElement {cs : Text} {j : Json} {ts : List Token} {os : List Object}
      (h : Outline (.element j) cs ts os) : Outline (.elements [j]) cs ts os
  | moreElements {cs ds : Text} {j : Json} {js : List Json} {ts ts' : List Token}
      {os os' : List Object} (h : Outline (.element j) cs ts os)
      (hs : Outline (.elements js) ds ts' os') :
      Outline (.elements (j :: js)) (cs ++ ',' :: ds) (ts ++ ts') (os ++ os')
  | member {a b ks key cs : Text} {j : Json} {ts : List Token} {os : List Object} (ha : Blank a)
      (hk : Chars ks key) (hb : Blank b) (h : Outline (.element j) cs ts os) :
      Outline (.member (String.ofList key, j)) (a ++ '"' :: (ks ++ '"' :: (b ++ ':' :: cs)))
        (.key ks (valueOf j ts) :: ts) os
  | lastMember {cs : Text} {m : String × Json} {ts : List Token} {os : List Object}
      (h : Outline (.member m) cs ts os) : Outline (.members [m]) cs ts os
  | moreMembers {cs ds : Text} {m : String × Json} {ms : List (String × Json)}
      {ts ts' : List Token} {os os' : List Object} (h : Outline (.member m) cs ts os)
      (hs : Outline (.members ms) ds ts' os') :
      Outline (.members (m :: ms)) (cs ++ ',' :: ds) (ts ++ ts') (os ++ os')

/-- What has an outline is derived by the grammar. -/
theorem Outline.derives {part : Part} {text : Text} {ts : List Token} {os : List Object}
    (h : Outline part text ts os) : Derives part text := by
  induction h with
  | atom h _ => exact h
  | str h => exact .str h
  | emptyArr h => exact .emptyArr h
  | arr _ ih => exact .arr ih
  | emptyObj h => exact .emptyObj h
  | obj _ ih => exact .obj ih
  | element ha _ hb ih => exact .element ha ih hb
  | lastElement _ ih => exact .lastElement ih
  | moreElements _ _ ih ihs => exact .moreElements ih ihs
  | member ha hk hb _ ih => exact .member ha hk hb ih
  | lastMember _ ih => exact .lastMember ih
  | moreMembers _ _ ih ihs => exact .moreMembers ih ihs

/-- **Whatever the grammar derives** has an outline. -/
theorem exists_outline {part : Part} {text : Text} (h : Derives part text) :
    ∃ ts os, Outline part text ts os := by
  induction h with
  | null => exact ⟨_, _, .atom .null rfl⟩
  | true => exact ⟨_, _, .atom .true rfl⟩
  | false => exact ⟨_, _, .atom .false rfl⟩
  | num h => exact ⟨_, _, .atom (.num h) rfl⟩
  | str h => exact ⟨_, _, .str h⟩
  | emptyArr h => exact ⟨_, _, .emptyArr h⟩
  | arr _ ih =>
    obtain ⟨ts, os, h⟩ := ih
    exact ⟨_, _, .arr h⟩
  | emptyObj h => exact ⟨_, _, .emptyObj h⟩
  | obj _ ih =>
    obtain ⟨ts, os, h⟩ := ih
    exact ⟨_, _, .obj h⟩
  | element ha _ hb ih =>
    obtain ⟨ts, os, h⟩ := ih
    exact ⟨_, _, .element ha h hb⟩
  | lastElement _ ih =>
    obtain ⟨ts, os, h⟩ := ih
    exact ⟨_, _, .lastElement h⟩
  | moreElements _ _ ih ihs =>
    obtain ⟨ts, os, h⟩ := ih
    obtain ⟨ts', os', hs⟩ := ihs
    exact ⟨_, _, .moreElements h hs⟩
  | member ha hk hb _ ih =>
    obtain ⟨ts, os, h⟩ := ih
    exact ⟨_, _, .member ha hk hb h⟩
  | lastMember _ ih =>
    obtain ⟨ts, os, h⟩ := ih
    exact ⟨_, _, .lastMember h⟩
  | moreMembers _ _ ih ihs =>
    obtain ⟨ts, os, h⟩ := ih
    obtain ⟨ts', os', hs⟩ := ihs
    exact ⟨_, _, .moreMembers h hs⟩

/-! ### The condition -/

/-- The text of a string that the search takes for a key -/
def Token.Hits (key : Text) (t : Token) : Prop := t.raw = key ∨ '"' :: key <:+ t.raw

instance (key : Text) (t : Token) : Decidable (t.Hits key) :=
  inferInstanceAs (Decidable (t.raw = key ∨ '"' :: key <:+ t.raw))

/-- No escapes but those that stand for the character after the backslash -/
def simpleEscapes : Text → Bool
  | '\\' :: e :: rest => (e == '"' || e == '\\' || e == '/') && simpleEscapes rest
  | _ :: rest => simpleEscapes rest
  | [] => true

/-- What the search takes for a key is the key of the first member with this key that is a string,
and the value has simple escapes only; if there is no such member it is the key of another one. -/
def Object.Found (key : Text) (o : Object) : Prop :=
  match o.tokens.find? (·.Hits key) with
  | none => stringMember key o.members = none
  | some (.key raw value) =>
    raw = key ∧ value.map Prod.snd = stringMember key o.members ∧
      ∀ v ∈ value, simpleEscapes v.1 = true
  | some (.other _) => False

instance (key : Text) (o : Object) : Decidable (o.Found key) :=
  match h : o.tokens.find? (·.Hits key) with
  | none => decidable_of_iff (stringMember key o.members = none) (by simp [Object.Found, h])
  | some (.key raw value) =>
    decidable_of_iff (raw = key ∧ value.map Prod.snd = stringMember key o.members ∧
      ∀ v ∈ value, simpleEscapes v.1 = true) (by simp [Object.Found, h])
  | some (.other _) => isFalse (by simp [Object.Found, h])

/-- The artifact of an object is found, or it has none and that is found. -/
structure Object.Plain (o : Object) : Prop where
  noBrace : ∀ t ∈ o.tokens, '\x7b' ∉ t.raw
  found : (o.Found PATH ∧ o.Found SHA256) ∨
    ∃ key ∈ [PATH, SHA256], o.Found key ∧ stringMember key o.members = none

instance (o : Object) : Decidable o.Plain :=
  decidable_of_iff ((∀ t ∈ o.tokens, '\x7b' ∉ t.raw) ∧ ((o.Found PATH ∧ o.Found SHA256) ∨
    ∃ key ∈ [PATH, SHA256], o.Found key ∧ stringMember key o.members = none))
    ⟨fun h => ⟨h.1, h.2⟩, fun h => ⟨h.1, h.2⟩⟩

/-! ### Braces -/

theorem isWhitespace_of_isSpace {c : Char} (h : Json.isSpace c = true) : isWhitespace c = true := by
  simp only [Json.isSpace, Bool.or_eq_true, beq_iff_eq] at h
  obtain ((rfl | rfl) | rfl) | rfl := h <;> decide

/-- How a name or a number begins, and what is not in it -/
structure AtomText (text : Text) : Prop where
  head : ∃ c rest, text = c :: rest ∧ isWhitespace c = false ∧ c ∉ ['"', 'p', 's']
  chars : ∀ c ∈ text, c ∉ ['"', '\x7b', '\x7d']

theorem isWhitespace_of_isDigit {c : Char} (h : c.isDigit = true) : isWhitespace c = false := by
  simp only [Char.isDigit, Bool.and_eq_true, decide_eq_true_eq] at h
  have hlow : 48 ≤ c.toNat := h.1
  have hhigh : c.toNat ≤ 57 := h.2
  simp only [isWhitespace, Bool.or_eq_false_iff, Bool.and_eq_false_iff, decide_eq_false_iff_not,
    beq_eq_false_iff_ne]
  omega

theorem isNumberChar_spec {c : Char} (h : Json.isNumberChar c = true) :
    isWhitespace c = false ∧ c ∉ ['"', 'p', 's', '\x7b', '\x7d'] := by
  refine ⟨?_, fun hmem => ?_⟩
  rotate_left
  · simp only [List.mem_cons, List.not_mem_nil, or_false] at hmem
    obtain rfl | rfl | rfl | rfl | rfl := hmem <;> exact absurd h (by decide)
  simp only [Json.isNumberChar, Bool.or_eq_true, decide_eq_true_eq, List.mem_cons,
    List.not_mem_nil, or_false] at h
  obtain h | rfl | rfl | rfl | rfl | rfl := h
  · exact isWhitespace_of_isDigit h
  all_goals decide

theorem atomText {j : Json} {text : Text} (h : Derives (.value j) text) (hatom : isAtom j = true) :
    AtomText text := by
  cases h with
  | null => exact ⟨⟨_, _, rfl, by decide, by decide⟩, by simp⟩
  | true => exact ⟨⟨_, _, rfl, by decide, by decide⟩, by simp⟩
  | false => exact ⟨⟨_, _, rfl, by decide, by decide⟩, by simp⟩
  | num h =>
    have hchars := Json.isNumberChar_of_isNumber h
    obtain ⟨c, rest, rfl⟩ := List.exists_cons_of_ne_nil (Json.ne_nil_of_isNumber h)
    have hc := isNumberChar_spec (hchars c List.mem_cons_self)
    refine ⟨⟨c, rest, rfl, hc.1, ?_⟩, fun d hd => ?_⟩
    · exact fun hmem => hc.2 (List.mem_append_left ['\x7b', '\x7d'] hmem)
    · refine fun hmem => (isNumberChar_spec (hchars d hd)).2 ?_
      simp only [List.mem_cons, List.not_mem_nil, or_false] at hmem ⊢
      tauto
  | str => cases hatom
  | emptyArr => cases hatom
  | arr => cases hatom
  | emptyObj => cases hatom
  | obj => cases hatom

/-- Braces match in what has an outline. -/
theorem passes {part : Part} {text : Text} {ts : List Token} {os : List Object}
    (h : Outline part text ts os) : Passes false text := by
  have hcomma : Passes false [','] := passes_outside (by decide)
  have hcolon : Passes false [':'] := passes_outside (by decide)
  have hopen : Passes false ['['] := passes_outside (by decide)
  have hclose : Passes false [']'] := passes_outside (by decide)
  induction h with
  | atom h hatom => exact .of_forall fun c hc => passes_outside ((atomText h hatom).chars c hc)
  | str h => exact passes_quoted h
  | emptyArr h => exact hopen.append ((passes_blank h).append hclose)
  | arr _ ih => exact hopen.append (ih.append hclose)
  | emptyObj h => exact passes_braced (passes_blank h)
  | obj _ ih => exact passes_braced ih
  | element ha _ hb ih => exact ((passes_blank ha).append ih).append (passes_blank hb)
  | lastElement _ ih => exact ih
  | moreElements _ _ ih ihs => exact ih.append (hcomma.append ihs)
  | @member a b ks _ cs _ _ _ ha hk hb _ ih =>
    have hmember := ((passes_blank ha).append (passes_quoted hk)).append
      ((passes_blank hb).append (hcolon.append ih))
    simpa [quoted] using hmember
  | lastMember _ ih => exact ih
  | moreMembers _ _ ih ihs => exact ih.append (hcomma.append ihs)

/-! ### Keys -/

/-- The keys that are searched for -/
def IsKey (key : Text) : Prop := key ∈ [PATH, SHA256]

theorem IsKey.plain {key : Text} (h : IsKey key) : ∀ c ∈ key, Json.isPlain c = true := by
  have hplain : ∀ key ∈ [PATH, SHA256], key.all Json.isPlain = true := by decide
  exact List.all_eq_true.1 (hplain key h)

/-- No key begins where a text ends. -/
def Quiet (text : Text) : Prop := ∀ c ∈ text.head?, c ∉ ['p', 's']

theorem Quiet.append {text rest : Text} (h : Quiet text) (hrest : Quiet rest) :
    Quiet (text ++ rest) := by
  cases text with
  | nil => exact hrest
  | cons c text => exact h

theorem IsKey.head {key : Text} (h : IsKey key) : ∃ c rest, key = c :: rest ∧ c ∈ ['p', 's'] := by
  simp only [IsKey, List.mem_cons, List.not_mem_nil, or_false] at h
  obtain rfl | rfl := h
  · exact ⟨'p', ['a', 't', 'h'], by decide, by decide⟩
  · exact ⟨'s', ['h', 'a', '2', '5', '6'], by decide, by decide⟩

theorem IsKey.not_prefix {key rest : Text} (h : IsKey key) (hrest : Quiet rest) :
    ¬ key ++ ['"'] <+: rest := by
  obtain ⟨c, key, rfl, hc⟩ := h.head
  rintro ⟨tail, rfl⟩
  exact hrest c rfl hc

/-- The characters of a string up to its end are those of a key only if they are the key. -/
theorem prefix_chars_iff {key raw s : Text} (hkey : ∀ c ∈ key, Json.isPlain c = true)
    (h : Chars raw s) (rest : Text) : key ++ ['"'] <+: raw ++ '"' :: rest ↔ raw = key := by
  induction key generalizing raw s with
  | nil =>
    cases h with
    | nil => simp
    | cons h _ =>
      obtain ⟨d, ds, rfl, hd⟩ := Json.charText_head h
      simp [Ne.symm hd]
  | cons k key ih =>
    obtain ⟨hk, hkey⟩ := List.forall_mem_cons.1 hkey
    have hquote : k ≠ '"' := by
      rintro rfl
      exact absurd hk (by decide)
    have hslash : k ≠ '\\' := by
      rintro rfl
      exact absurd hk (by decide)
    cases h with
    | nil => simp [hquote]
    | cons h hs =>
      -- no character of a key is written as an escape
      cases h with
      | plain _ =>
        simp only [List.cons_append, List.nil_append, List.cons_prefix_cons, List.cons.injEq,
          ih hkey hs, eq_comm]
      | escape _ => simp [hslash, Ne.symm hslash]
      | unicode _ _ _ => simp [hslash, Ne.symm hslash]
      | pair _ _ _ _ => simp [hslash, Ne.symm hslash]

/-- A quotation mark is in a character only after a backslash. -/
theorem charText_quote {t : Text} {c : Char} (h : CharText t c) :
    '"' ∉ t ∨ t = ['\\', '"'] := by
  have hdigits {a b c d : Char} {n : ℕ} (h : Json.hex4 a b c d = some n) : '"' ∉ [a, b, c, d] :=
    fun hmem => hex4_not_mem h _ hmem (by decide)
  cases h with
  | @plain _ h =>
    refine .inl fun hmem => ?_
    rw [List.mem_singleton] at hmem
    exact absurd (hmem ▸ h) (by decide)
  | @escape e _ h =>
    by_cases he : e = '"'
    · exact .inr (by rw [he])
    · exact .inl (by simp [Ne.symm he])
  | unicode h _ _ => exact .inl (by simpa using hdigits h)
  | pair h h' _ _ =>
    have hleft := hdigits h
    have hright := hdigits h'
    exact .inl (by simpa [and_assoc] using And.intro hleft hright)

/-- The rest of a string up to its end, and the end -/
theorem findAfter_chars {key cs s rest : Text} (hkey : IsKey key) (h : Chars cs s)
    (hhits : ¬ '"' :: key <:+ cs) (hrest : Quiet rest) :
    findAfter (quoted key) (cs ++ '"' :: rest) = findAfter (quoted key) rest := by
  induction h with
  | nil =>
    exact findAfter_cons fun hp => hkey.not_prefix hrest (List.cons_prefix_cons.1 hp).2
  | @cons t cs _ _ h hs ih =>
    have ih := ih fun hsuffix => hhits (hsuffix.trans (List.suffix_append t cs))
    rw [List.append_assoc]
    obtain hquote | rfl := charText_quote h
    · rw [quoted, findAfter_append hquote, ← quoted, ih]
    · -- behind an escaped quotation mark a key could begin, if the string ended with it
      have hne : cs ≠ key := by
        rintro rfl
        exact hhits ⟨['\\'], rfl⟩
      have hslash : ¬ quoted key <+: '\\' :: '"' :: (cs ++ '"' :: rest) := by simp [quoted]
      have hstart : ¬ quoted key <+: '"' :: (cs ++ '"' :: rest) := fun hp =>
        hne ((prefix_chars_iff hkey.plain hs rest).1 (List.cons_prefix_cons.1 hp).2)
      rw [List.cons_append, List.singleton_append, findAfter_cons hslash, findAfter_cons hstart, ih]

/-- **A string that is not taken for the key** is passed over. -/
theorem findAfter_string {key raw s rest : Text} (hkey : IsKey key) (h : Chars raw s)
    (hne : raw ≠ key) (hsuffix : ¬ '"' :: key <:+ raw) (hrest : Quiet rest) :
    findAfter (quoted key) ('"' :: (raw ++ '"' :: rest)) = findAfter (quoted key) rest := by
  have hstart : ¬ quoted key <+: '"' :: (raw ++ '"' :: rest) := fun hp =>
    hne ((prefix_chars_iff hkey.plain h rest).1 (List.cons_prefix_cons.1 hp).2)
  rw [findAfter_cons hstart, findAfter_chars hkey h hsuffix hrest]

/-! ### Values -/

theorem readInner_chars {cs s : Text} (h : Chars cs s) (hsimple : simpleEscapes cs = true)
    (rest : Text) : readInner false (cs ++ '"' :: rest) = some s := by
  induction h with
  | nil => rfl
  | @cons t cs s c h hs ih =>
    cases h with
    | @plain _ h =>
      have hslash : c ≠ '\\' := by
        rintro rfl
        exact absurd h (by decide)
      have hquote : c ≠ '"' := by
        rintro rfl
        exact absurd h (by decide)
      have hcs : simpleEscapes cs = true := by simpa [simpleEscapes, hslash] using hsimple
      have hstep : readInner false (c :: (cs ++ '"' :: rest)) =
          (readInner false (cs ++ '"' :: rest)).map (c :: ·) := by
        simp [readInner, hslash, hquote]
      rw [List.append_assoc, List.singleton_append, hstep, ih hcs, Option.map_some]
    | @escape e _ h =>
      simp only [simpleEscapes, List.cons_append, List.nil_append, Bool.and_eq_true, Bool.or_eq_true,
        beq_iff_eq] at hsimple
      have hsame : ∀ p ∈ Json.escapes, p.1 = '"' ∨ p.1 = '\\' ∨ p.1 = '/' → p.1 = p.2 := by decide
      have hc : e = c := hsame (e, c) h (or_assoc.1 hsimple.1)
      have hstep : readInner false ('\\' :: e :: (cs ++ '"' :: rest)) =
          (readInner false (cs ++ '"' :: rest)).map (e :: ·) := by
        simp [readInner]
      rw [List.append_assoc, List.cons_append, List.singleton_append, hstep, ih hsimple.2,
        Option.map_some, hc]
    | unicode _ _ _ => exact absurd hsimple (by simp [simpleEscapes])
    | pair _ _ _ _ => exact absurd hsimple (by simp [simpleEscapes])

theorem quoted_append (raw rest : Text) : quoted raw ++ rest = '"' :: (raw ++ '"' :: rest) := by
  simp [quoted]

theorem readQuoted_string {raw s : Text} (h : Chars raw s) (hsimple : simpleEscapes raw = true)
    (rest : Text) : readQuoted (quoted raw ++ rest) = some s := by
  have hhead : ('"' :: (raw ++ '"' :: rest)).dropWhile isWhitespace = '"' :: (raw ++ '"' :: rest) :=
    List.dropWhile_cons_of_neg (by decide)
  rw [quoted_append, readQuoted, hhead]
  exact readInner_chars h hsimple rest

theorem readQuoted_other {c : Char} (hspace : isWhitespace c = false) (hquote : c ≠ '"')
    (rest : Text) : readQuoted (c :: rest) = none := by
  simp [readQuoted, hspace, hquote]

theorem readQuoted_blank {a : Text} (h : Blank a) (rest : Text) :
    readQuoted (a ++ rest) = readQuoted rest := by
  rw [readQuoted, readQuoted, List.dropWhile_append_of_pos fun c hc =>
    isWhitespace_of_isSpace (h c hc)]

/-! ### What is found in a flat text -/

/-- Where no string is taken for a key, none is found. -/
def Skips (flat : Text) (ts : List Token) : Prop :=
  ∀ key rest, IsKey key → (∀ t ∈ ts, ¬ t.Hits key) → Quiet rest →
    findAfter (quoted key) (flat ++ rest) = findAfter (quoted key) rest

/-- Where the first string that is taken for a key is the key of a member, its value is read. -/
def Finds (flat : Text) (ts : List Token) : Prop :=
  ∀ key value rest, IsKey key → ts.find? (·.Hits key) = some (.key key value) →
    (∀ v ∈ value, simpleEscapes v.1 = true) → Quiet rest →
      extractJsonString (flat ++ rest) (quoted key) = value.map Prod.snd

/-- A string is read, and nothing else. -/
def ReadsValue (j : Json) (flat : Text) (ts : List Token) : Prop :=
  (∀ v ∈ valueOf j ts, simpleEscapes v.1 = true) → ∀ rest,
    readQuoted (flat ++ rest) = (valueOf j ts).map Prod.snd

/-- None of the strings is the key of a member. -/
def NoKeys (ts : List Token) : Prop := ∀ t ∈ ts, ∃ raw, t = .other raw

def Reads : Part → Text → List Token → Prop
  | .value j, flat, ts | .element j, flat, ts => NoKeys ts ∧ ReadsValue j flat ts
  | .elements _, _, ts => NoKeys ts
  | .member _, flat, ts | .members _, flat, ts => Finds flat ts

/-- What the scanners make of a piece of a text -/
structure Scanned (part : Part) (text flat : Text) (ts : List Token) : Prop where
  flattens : Emits flattenNestedObjects text flat
  collects : Emits collectArtifactObjects text (partPairs part)
  quiet : Quiet flat
  skips : Skips flat ts
  reads : Reads part flat ts

theorem Skips.append {flat flat' : Text} {ts ts' : List Token} (h : Skips flat ts)
    (h' : Skips flat' ts') (hquiet : Quiet flat') : Skips (flat ++ flat') (ts ++ ts') := by
  intro key rest hkey hhits hrest
  rw [List.append_assoc, h key _ hkey (fun t ht => hhits t (List.mem_append_left _ ht))
    (hquiet.append hrest), h' key _ hkey (fun t ht => hhits t (List.mem_append_right _ ht)) hrest]

/-- The first string that is taken for a key is in the first piece or in the second one. -/
theorem Finds.append {flat flat' : Text} {ts ts' : List Token} (h : Finds flat ts)
    (hskips : Skips flat ts) (h' : Finds flat' ts') (hquiet : Quiet flat') :
    Finds (flat ++ flat') (ts ++ ts') := by
  intro key value rest hkey hfind hsimple hrest
  rw [List.append_assoc]
  rw [List.find?_append] at hfind
  cases hfirst : ts.find? (·.Hits key) with
  | some t =>
    rw [hfirst, Option.some_or] at hfind
    exact h key value _ hkey (hfirst.trans hfind) hsimple (hquiet.append hrest)
  | none =>
    rw [hfirst, Option.none_or] at hfind
    have hhits : ∀ t ∈ ts, ¬ t.Hits key := by simpa using List.find?_eq_none.1 hfirst
    rw [extractJsonString, hskips key _ hkey hhits (hquiet.append hrest)]
    exact h' key value rest hkey hfind hsimple hrest

theorem finds_nil (flat : Text) : Finds flat [] := nofun

theorem skips_text {text : Text} (h : '"' ∉ text) : Skips text [] :=
  fun _ rest _ _ _ => findAfter_append h rest

theorem skips_string {t : Token} {s : Text} (h : Chars t.raw s) : Skips (quoted t.raw) [t] := by
  intro key rest hkey hhits hrest
  have hhit := hhits _ (List.mem_singleton.2 rfl)
  rw [quoted_append]
  exact findAfter_string hkey h (fun heq => hhit (.inl heq)) (fun hs => hhit (.inr hs)) hrest

/-- **The members of an object** are found. -/
theorem Object.Found.extract_eq {flat key : Text} {o : Object} (h : o.Found key) (hkey : IsKey key)
    (hskips : Skips flat o.tokens) (hfinds : Finds flat o.tokens) :
    extractJsonString flat (quoted key) = stringMember key o.members := by
  have hquiet : Quiet [] := nofun
  unfold Object.Found at h
  cases hfind : o.tokens.find? (·.Hits key) with
  | none =>
    have hhits : ∀ t ∈ o.tokens, ¬ t.Hits key := by simpa using List.find?_eq_none.1 hfind
    have hnone := hskips key [] hkey hhits hquiet
    rw [hfind] at h
    rw [List.append_nil] at hnone
    rw [extractJsonString, hnone, h]
    rfl
  | some t =>
    rw [hfind] at h
    cases t with
    | key raw value =>
      obtain ⟨rfl, hvalue, hsimple⟩ := h
      have hread := hfinds raw value [] hkey hfind hsimple hquiet
      rwa [List.append_nil, hvalue] at hread
    | other raw => exact h.elim

theorem Object.Plain.ownPair_eq {flat : Text} {o : Object} (h : o.Plain)
    (hskips : Skips flat o.tokens) (hfinds : Finds flat o.tokens) :
    ownPair flat = ownMembers o.members := by
  unfold ownPair ownMembers
  obtain ⟨hpath, hhash⟩ | ⟨key, hkey, hfound, hnone⟩ := h.found
  · rw [hpath.extract_eq (by simp [IsKey]) hskips hfinds,
      hhash.extract_eq (by simp [IsKey]) hskips hfinds]
  · have hextract := hfound.extract_eq hkey hskips hfinds
    rw [hnone] at hextract
    simp only [List.mem_cons, List.not_mem_nil, or_false] at hkey
    obtain rfl | rfl := hkey
    · rw [hextract, hnone]
    · rw [hextract, hnone]
      cases extractJsonString flat (quoted PATH) <;> cases stringMember PATH o.members <;> rfl

/-! ### The whole text -/

section

variable {j : Json} {cs ds : Text} {flat flat' : Text} {ts ts' : List Token}

theorem quiet_cons {c : Char} (h : c ∉ ['p', 's']) (text : Text) : Quiet (c :: text) := by
  rintro _ ⟨⟩
  exact h

theorem noKeys_nil : NoKeys [] := nofun

theorem blank_not_mem {a : Text} (h : Blank a) {c : Char} (hc : Json.isSpace c = false) : c ∉ a :=
  fun hmem => absurd (h c hmem) (by simp [hc])

theorem quiet_blank {a : Text} (h : Blank a) : Quiet a := by
  intro c hc hmem
  have hspace := h c (List.mem_of_mem_head? hc)
  simp only [List.mem_cons, List.not_mem_nil, or_false] at hmem
  obtain rfl | rfl := hmem <;> exact absurd hspace (by decide)

theorem scanned_atom (h : Derives (.value j) cs) (hatom : isAtom j = true) :
    Scanned (.value j) cs cs [] := by
  obtain ⟨⟨c, rest, rfl, hspace, hhead⟩, hchars⟩ := atomText h hatom
  simp only [List.mem_cons, List.not_mem_nil, or_false, not_or] at hhead
  have hpairs : pairs j = [] := by cases j <;> first | rfl | cases hatom
  have hvalue : valueOf j [] = none := by cases j <;> rfl
  have hbrace : '\x7b' ∉ c :: rest := fun hmem => hchars _ hmem (by decide)
  refine ⟨flatten_text hbrace, ?_, quiet_cons (by simp [hhead.2]) rest,
    skips_text fun hmem => hchars _ hmem (by decide), noKeys_nil, fun _ tail => ?_⟩
  · rw [partPairs, hpairs]
    exact collect_text hbrace
  · rw [hvalue]
    exact readQuoted_other hspace hhead.1 _

theorem scanned_str {s : Text} (h : Chars cs s) (hbrace : '\x7b' ∉ cs) :
    Scanned (.value (.str (String.ofList s))) (quoted cs) (quoted cs) [.other cs] := by
  have hquoted : '\x7b' ∉ quoted cs := by simpa [quoted] using hbrace
  refine ⟨flatten_text hquoted, collect_text hquoted, quiet_cons (by decide) _,
    skips_string (t := .other cs) h,
    fun t ht => ⟨cs, List.mem_singleton.1 ht⟩, fun hsimple rest => ?_⟩
  rw [valueOf, String.toList_ofList] at hsimple ⊢
  exact readQuoted_string h (hsimple _ rfl) rest

theorem scanned_arr {js : List Json} (hflattens : Emits flattenNestedObjects cs flat)
    (hcollects : Emits collectArtifactObjects cs (pairsElements js)) (hquiet : Quiet flat)
    (hskips : Skips flat ts) (hkeys : NoKeys ts) :
    Scanned (.value (.arr js)) ('[' :: (cs ++ [']'])) ('[' :: (flat ++ [']'])) ts := by
  have hopen : Skips ['['] [] := skips_text (by decide)
  have hclose : Skips [']'] [] := skips_text (by decide)
  have hquietClose : Quiet [']'] := quiet_cons (by decide) _
  have hbraceOpen : '\x7b' ∉ ['['] := by decide
  have hbraceClose : '\x7b' ∉ [']'] := by decide
  have hinner : Skips (flat ++ [']']) ts := by
    simpa using hskips.append hclose hquietClose
  refine ⟨(flatten_text hbraceOpen).append (hflattens.append (flatten_text hbraceClose)), ?_,
    quiet_cons (by decide) _, hopen.append hinner (hquiet.append hquietClose), hkeys, ?_⟩
  · have hrun := (collect_text hbraceOpen).append (hcollects.append (collect_text hbraceClose))
    rwa [List.nil_append, List.append_nil] at hrun
  · exact fun _ rest => readQuoted_other (by decide) (by decide) _

theorem scanned_obj {ms : List (String × Json)} (hpasses : Passes false cs)
    (hflattens : Emits flattenNestedObjects cs flat)
    (hcollects : Emits collectArtifactObjects cs (pairsMembers ms)) (hskips : Skips flat ts)
    (hfinds : Finds flat ts) (hplain : Object.Plain ⟨ts, ms⟩) :
    Scanned (.value (.obj ms)) (braced cs) ['\x7b', '\x7d'] [] := by
  have hrun := collect_braced hpasses (hcollects.run collect_nil) (hflattens.run flatten_nil)
  rw [hplain.ownPair_eq hskips hfinds] at hrun
  exact ⟨flatten_braced hpasses, hrun, quiet_cons (by decide) _, skips_text (by decide), noKeys_nil,
    fun _ rest => readQuoted_other (by decide) (by decide) _⟩

theorem scanned_element {a b : Text} (ha : Blank a) (hb : Blank b)
    (h : Scanned (.value j) cs flat ts) :
    Scanned (.element j) (a ++ cs ++ b) (a ++ flat ++ b) ts := by
  have hblank {a : Text} (ha : Blank a) : '\x7b' ∉ a := blank_not_mem ha (by decide)
  have hskips {a : Text} (ha : Blank a) : Skips a [] := skips_text (blank_not_mem ha (by decide))
  refine ⟨((flatten_text (hblank ha)).append h.flattens).append (flatten_text (hblank hb)), ?_,
    ((quiet_blank ha).append h.quiet).append (quiet_blank hb), ?_, h.reads.1, fun hsimple rest => ?_⟩
  · have hrun := ((collect_text (hblank ha)).append h.collects).append (collect_text (hblank hb))
    rwa [List.nil_append, List.append_nil] at hrun
  · simpa using ((hskips ha).append h.skips h.quiet).append (hskips hb) (quiet_blank hb)
  · rw [List.append_assoc, List.append_assoc, readQuoted_blank ha]
    exact h.reads.2 hsimple _

/-- What is in front of the value of a member -/
theorem brace_not_mem_key {a b ks : Text} (ha : Blank a) (hb : Blank b) (hbrace : '\x7b' ∉ ks) :
    '\x7b' ∉ a ++ (quoted ks ++ (b ++ [':'])) := by
  have hleft : '\x7b' ∉ a := blank_not_mem ha (by decide)
  have hright : '\x7b' ∉ b := blank_not_mem hb (by decide)
  simp [quoted, hbrace, hleft, hright]

theorem scanned_member {a b ks key : Text} (ha : Blank a) (hk : Chars ks key) (hb : Blank b)
    (hbrace : '\x7b' ∉ ks) (h : Scanned (.element j) cs flat ts) :
    Scanned (.member (String.ofList key, j)) (a ++ '"' :: (ks ++ '"' :: (b ++ ':' :: cs)))
      (a ++ '"' :: (ks ++ '"' :: (b ++ ':' :: flat))) (.key ks (valueOf j ts) :: ts) := by
  have hkey := brace_not_mem_key ha hb hbrace
  have hsplit : ∀ text : Text, a ++ '"' :: (ks ++ '"' :: (b ++ ':' :: text)) =
      (a ++ (quoted ks ++ (b ++ [':']))) ++ text := fun text => by simp [quoted]
  have hskips {a : Text} (ha : Blank a) : Skips a [] := skips_text (blank_not_mem ha (by decide))
  have hquiet : Quiet (b ++ [':']) := (quiet_blank hb).append (quiet_cons (by decide) _)
  have hname : Skips (quoted ks) [.key ks (valueOf j ts)] :=
    skips_string (t := .key ks (valueOf j ts)) hk
  have hcolon : Skips (b ++ [':']) [] :=
    (hskips hb).append (skips_text (by decide)) (quiet_cons (by decide) _)
  have hall : Skips (a ++ (quoted ks ++ (b ++ [':']))) [.key ks (valueOf j ts)] :=
    (hskips ha).append (hname.append hcolon hquiet) (quiet_cons (by decide) _)
  rw [hsplit, hsplit]
  refine ⟨(flatten_text hkey).append h.flattens, (collect_text hkey).append h.collects,
    ((quiet_blank ha).append (quiet_cons (by decide) _)).append h.quiet,
    hall.append h.skips h.quiet, ?_⟩
  intro name value rest hname hfind hsimple _
  rw [List.find?_cons] at hfind
  split at hfind
  · -- this is the member that is searched for
    cases hfind
    have hquote : '"' ∉ a := blank_not_mem ha (by decide)
    have hcolon : ':' ∉ b := blank_not_mem hb (by decide)
    rw [extractJsonString, List.append_assoc, List.append_assoc, List.append_assoc,
      List.append_assoc, quoted, findAfter_append hquote, findAfter_pattern, Option.bind_some,
      findAfter_append hcolon, findAfter_pattern, Option.bind_some]
    exact h.reads.2 hsimple rest
  · -- in its value there are no keys
    obtain ⟨raw, hother⟩ := h.reads.1 _ (List.mem_of_find?_eq_some hfind)
    cases hother

/-- Two pieces with a comma in between -/
theorem Scanned.comma {part part' whole : Part} (h : Scanned part cs flat ts)
    (h' : Scanned part' ds flat' ts') (hpairs : partPairs whole = partPairs part ++ partPairs part')
    (hreads : Reads whole (flat ++ ',' :: flat') (ts ++ ts')) :
    Scanned whole (cs ++ ',' :: ds) (flat ++ ',' :: flat') (ts ++ ts') := by
  have hcomma : '\x7b' ∉ [','] := by decide
  have hskips : Skips (',' :: flat') ts' :=
    (skips_text (by decide) : Skips [','] []).append h'.skips h'.quiet
  refine ⟨h.flattens.append ((flatten_text hcomma).append h'.flattens), ?_,
    h.quiet.append (quiet_cons (by decide) _), h.skips.append hskips (quiet_cons (by decide) _),
    hreads⟩
  rw [hpairs]
  exact h.collects.append ((collect_text hcomma).append h'.collects)

theorem Finds.comma (h : Finds flat ts) (hskips : Skips flat ts) (h' : Finds flat' ts')
    (hquiet : Quiet flat') : Finds (flat ++ ',' :: flat') (ts ++ ts') := by
  have htail : Finds (',' :: flat') ts' :=
    (finds_nil [',']).append (skips_text (by decide)) h' hquiet
  exact h.append hskips htail (quiet_cons (by decide) _)

theorem NoKeys.append (h : NoKeys ts) (h' : NoKeys ts') : NoKeys (ts ++ ts') :=
  List.forall_mem_append.2 ⟨h, h'⟩

end

/-- **What the scanners make of a text** without braces in its strings, and with plain objects -/
theorem scanned {part : Part} {text : Text} {ts : List Token} {os : List Object}
    (h : Outline part text ts os) (hbrace : ∀ t ∈ ts, '\x7b' ∉ t.raw) (hplain : ∀ o ∈ os, o.Plain) :
    ∃ flat, Scanned part text flat ts := by
  induction h with
  | atom h hatom => exact ⟨_, scanned_atom h hatom⟩
  | str h => exact ⟨_, scanned_str h (hbrace _ (List.mem_singleton.2 rfl))⟩
  | @emptyArr a ha =>
    have hblank : '\x7b' ∉ a := blank_not_mem ha (by decide)
    exact ⟨_, scanned_arr (flatten_text hblank) (collect_text hblank) (quiet_blank ha)
      (skips_text (blank_not_mem ha (by decide))) noKeys_nil⟩
  | arr _ ih =>
    obtain ⟨flat, h⟩ := ih hbrace hplain
    exact ⟨_, scanned_arr h.flattens h.collects h.quiet h.skips h.reads⟩
  | @emptyObj a ha =>
    have hblank : '\x7b' ∉ a := blank_not_mem ha (by decide)
    exact ⟨_, scanned_obj (passes_blank ha) (flatten_text hblank) (collect_text hblank)
      (skips_text (blank_not_mem ha (by decide))) (finds_nil _) (hplain _ (List.mem_singleton.2 rfl))⟩
  | obj h ih =>
    obtain ⟨hinner, hown⟩ := List.forall_mem_append.1 hplain
    have hown := hown _ (List.mem_singleton.2 rfl)
    obtain ⟨flat, hscanned⟩ := ih hown.noBrace hinner
    exact ⟨_, scanned_obj (passes h) hscanned.flattens hscanned.collects hscanned.skips
      hscanned.reads hown⟩
  | element ha _ hb ih =>
    obtain ⟨flat, h⟩ := ih hbrace hplain
    exact ⟨_, scanned_element ha hb h⟩
  | lastElement _ ih =>
    obtain ⟨flat, h⟩ := ih hbrace hplain
    refine ⟨flat, h.flattens, ?_, h.quiet, h.skips, h.reads.1⟩
    simpa [partPairs, pairsElements] using h.collects
  | moreElements _ _ ih ihs =>
    obtain ⟨hleft, hright⟩ := List.forall_mem_append.1 hbrace
    obtain ⟨hinner, hinner'⟩ := List.forall_mem_append.1 hplain
    obtain ⟨flat, h⟩ := ih hleft hinner
    obtain ⟨flat', hs⟩ := ihs hright hinner'
    exact ⟨_, h.comma hs rfl (h.reads.1.append hs.reads)⟩
  | member ha hk hb _ ih =>
    obtain ⟨hkey, hvalue⟩ := List.forall_mem_cons.1 hbrace
    obtain ⟨flat, h⟩ := ih hvalue hplain
    exact ⟨_, scanned_member ha hk hb hkey h⟩
  | @lastMember _ m _ _ _ ih =>
    obtain ⟨flat, h⟩ := ih hbrace hplain
    refine ⟨flat, h.flattens, ?_, h.quiet, h.skips, h.reads⟩
    simpa [partPairs, pairsMembers] using h.collects
  | moreMembers _ _ ih ihs =>
    obtain ⟨hleft, hright⟩ := List.forall_mem_append.1 hbrace
    obtain ⟨hinner, hinner'⟩ := List.forall_mem_append.1 hplain
    obtain ⟨flat, h⟩ := ih hleft hinner
    obtain ⟨flat', hs⟩ := ihs hright hinner'
    exact ⟨_, h.comma hs rfl (h.reads.comma h.skips hs.reads hs.quiet)⟩

/-- **The artifacts are found**, where no string has an opening brace in it and the objects are
plain. A text has an outline if its strings are strings of characters: an escaped surrogate stands
with its partner. -/
theorem parseArtifactHashes_eq {text : Text} {j : Json} {ts : List Token} {os : List Object}
    (h : Outline (.element j) text ts os) (hbrace : ∀ t ∈ ts, '\x7b' ∉ t.raw)
    (hplain : ∀ o ∈ os, o.Plain) : parseArtifactHashes text = .ok (pairs j) := by
  obtain ⟨flat, hscanned⟩ := scanned h hbrace hplain
  exact hscanned.collects.run collect_nil

section

variable {s k : String} {j : Json} {cs : Text} {ts : List Token} {os : List Object}

theorem outline_string (h : s.toList.all Json.isPlain = true) :
    Outline (.value (.str s)) (quoted s.toList) [.other s.toList] [] := by
  have hstr := Outline.str (Json.chars_plain h)
  rwa [String.ofList_toList] at hstr

/-- A member without white space -/
theorem outline_field (hkey : k.toList.all Json.isPlain = true) (h : Outline (.value j) cs ts os) :
    Outline (.member (k, j)) (quoted k.toList ++ ':' :: cs) (.key k.toList (valueOf j ts) :: ts)
      os := by
  have helement := Outline.element Json.blank_nil h Json.blank_nil
  have hmember := Outline.member Json.blank_nil (Json.chars_plain hkey) Json.blank_nil helement
  rw [String.ofList_toList] at hmember
  simpa [quoted] using hmember

end

def sampleManifest : Text :=
  "\x7b\"artifacts\":[\x7b\"path\":\"foo.bit\",\"sha256\":\"aabbcc\"\x7d]\x7d".toList

/-- A manifest with one artifact -/
theorem parseArtifactHashes_sample : parseArtifactHashes sampleManifest =
    .ok (pairs (.obj [("artifacts",
      .arr [.obj [("path", .str "foo.bit"), ("sha256", .str "aabbcc")]])])) := by
  have hartifact := Outline.obj (.moreMembers
    (outline_field (k := "path") (by decide) (outline_string (s := "foo.bit") (by decide)))
    (.lastMember (outline_field (k := "sha256") (by decide)
      (outline_string (s := "aabbcc") (by decide)))))
  have hmanifest := Outline.element Json.blank_nil (.obj (.lastMember
    (outline_field (k := "artifacts") (by decide) (.arr (.lastElement
      (.element Json.blank_nil hartifact Json.blank_nil)))))) Json.blank_nil
  exact parseArtifactHashes_eq hmanifest (by decide +kernel) (by decide +kernel)

def braceManifest : Text := "\x7b\"path\":\"a\x7bb\",\"sha256\":\"c\"\x7d".toList

/-- A path with an opening brace in it -/
theorem parseArtifactHashes_brace :
    Derives (.element (.obj [("path", .str "a\x7bb"), ("sha256", .str "c")])) braceManifest ∧
      parseArtifactHashes braceManifest = panicked := by
  have hobject := Outline.obj (.moreMembers
    (outline_field (k := "path") (by decide) (outline_string (s := "a\x7bb") (by decide)))
    (.lastMember (outline_field (k := "sha256") (by decide)
      (outline_string (s := "c") (by decide)))))
  exact ⟨(Outline.element Json.blank_nil hobject Json.blank_nil).derives, by decide +kernel⟩

end ElfCheck
