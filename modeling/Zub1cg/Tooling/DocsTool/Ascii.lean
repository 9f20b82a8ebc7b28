import Zub1cg.Library.Json.CodeUnits
import Zub1cg.Tooling.DocsTool.Convert

/-!
# Manifests in ASCII

What is not ASCII can only be inside the strings of a JSON text, and there it is replaced by what
stands for the same character: the code units that it is encoded in. None of them is the second half
of a pair whose first half stands in front of it, so that this is right behind any other escape,
that of one half of a pair included.

## Main results

- `derivesUnits_ensureAsciiJson` — the text stands for the same code units
- `derives_ensureAsciiJson` — the text stands for the same
- `isAscii_ensureAsciiJson` — nothing but ASCII is left
-/

namespace DocsTool

open Json (Blank)
open Json.CodeUnits (CharUnits StringUnits utf16 derives_iff)

/-! ### Texts of ASCII characters -/

def IsAscii (text : Text) : Prop := ∀ c ∈ text, c.toNat ≤ 0x7F

theorem ensureAsciiJson_append (xs ys : Text) :
    ensureAsciiJson (xs ++ ys) = ensureAsciiJson xs ++ ensureAsciiJson ys :=
  List.flatMap_append

theorem escapeNonAscii_of_le {c : Char} (h : c.toNat ≤ 0x7F) : escapeNonAscii c = [c] := if_pos h

theorem ensureAsciiJson_of_isAscii {text : Text} (h : IsAscii text) :
    ensureAsciiJson text = text := by
  induction text with
  | nil => rfl
  | cons c text ih =>
    have htext : IsAscii text := fun d hd => h d (List.mem_cons_of_mem _ hd)
    rw [ensureAsciiJson, List.flatMap_cons, escapeNonAscii_of_le (h c List.mem_cons_self),
      ← ensureAsciiJson, ih htext]
    rfl

theorem IsAscii.append {front back : Text} (h : IsAscii front) (h' : IsAscii back) :
    IsAscii (front ++ back) := by
  intro c hc
  rcases List.mem_append.1 hc with hc | hc
  · exact h c hc
  · exact h' c hc

theorem isAscii_of_all {text : Text} {p : Char → Bool} (hp : ∀ c, p c = true → c.toNat ≤ 0x7F)
    (h : ∀ c ∈ text, p c = true) : IsAscii text := fun c hc => hp c (h c hc)

theorem isSpace_ascii {c : Char} (h : Json.isSpace c = true) : c.toNat ≤ 0x7F := by
  simp only [Json.isSpace, Bool.or_eq_true, beq_iff_eq] at h
  obtain ((rfl | rfl) | rfl) | rfl := h <;> decide

theorem isNumberChar_ascii {c : Char} (h : Json.isNumberChar c = true) : c.toNat ≤ 0x7F := by
  simp only [Json.isNumberChar, Bool.or_eq_true, decide_eq_true_eq, List.mem_cons,
    List.not_mem_nil, or_false] at h
  obtain h | rfl | rfl | rfl | rfl | rfl := h
  · simp only [Char.isDigit, Bool.and_eq_true, decide_eq_true_eq] at h
    have hle : c.toNat ≤ 57 := h.2
    omega
  all_goals decide

theorem hexValue_ascii (c : Char) (v : ℕ) (h : Json.hexValue c = some v) : c.toNat ≤ 0x7F := by
  unfold Json.hexValue at h
  have hle : c ≤ 'f' → c.toNat ≤ 0x7F := fun hc => Nat.le_trans hc (by decide)
  split_ifs at h with h1 h2 h3
  · exact hle (le_trans h1.2 (by decide))
  · exact hle h2.2
  · exact hle (le_trans h3.2 (by decide))

theorem hex4_ascii {a b c d : Char} {n : ℕ} (h : Json.hex4 a b c d = some n) :
    IsAscii [a, b, c, d] := Json.hex4_forall hexValue_ascii h

/-! ### Code units -/

theorem hexValue_digitChar {n : ℕ} (h : n < 16) : Json.hexValue (Nat.digitChar n) = some n := by
  revert n
  decide

/-- Four digits stand for the number that they were written for. -/
theorem hex4_hex4 {n : ℕ} (h : n < 0x10000) :
    ∃ a b c d, hex4 n = [a, b, c, d] ∧ Json.hex4 a b c d = some n := by
  refine ⟨_, _, _, _, rfl, ?_⟩
  rw [Json.hex4, hexValue_digitChar (Nat.mod_lt _ (by decide)),
    hexValue_digitChar (Nat.mod_lt _ (by decide)), hexValue_digitChar (Nat.mod_lt _ (by decide)),
    hexValue_digitChar (Nat.mod_lt _ (by decide))]
  simp only [Option.bind_some, Option.map_some, Option.some.injEq]
  omega

/-- A number of 16 bits as an escape -/
theorem charUnits_escape {n : ℕ} (h : n < 0x10000) : CharUnits ('\\' :: 'u' :: hex4 n) [n] := by
  obtain ⟨a, b, c, d, htext, hvalue⟩ := hex4_hex4 h
  rw [htext]
  exact .unicode hvalue

theorem stringUnits_of_charUnits {t : Text} {us : List ℕ} (h : CharUnits t us) :
    StringUnits t us := by
  simpa using StringUnits.cons h .nil

/-- An escaped character has the same code units. -/
theorem stringUnits_escape {c : Char} (h : Json.isPlain c = true) :
    StringUnits (escapeNonAscii c) (utf16 c) := by
  have hscalar := Json.CodeUnits.toNat_scalar c
  unfold escapeNonAscii
  split_ifs with hascii hbmp
  · exact stringUnits_of_charUnits (.plain h)
  · rw [utf16, if_pos (by omega)]
    exact stringUnits_of_charUnits (charUnits_escape (by omega))
  · rw [utf16, if_neg (by omega)]
    have hhigh := charUnits_escape (n := 0xD800 + (c.toNat - 0x10000) / 0x400) (by omega)
    have hlow := charUnits_escape (n := 0xDC00 + (c.toNat - 0x10000) % 0x400) (by omega)
    exact .cons hhigh (stringUnits_of_charUnits hlow)

theorem isAscii_escape {e c : Char} (h : (e, c) ∈ Json.escapes) : IsAscii ['\\', e] := by
  have hletter : ∀ p ∈ Json.escapes, p.1.toNat ≤ 0x7F := by decide
  simpa [IsAscii] using hletter _ h

theorem isAscii_unicode {a b c d : Char} {n : ℕ} (h : Json.hex4 a b c d = some n) :
    IsAscii ['\\', 'u', a, b, c, d] := by
  simpa [IsAscii] using hex4_ascii h

/-- What is an escape already is ASCII. -/
theorem stringUnits_ensure_charUnits {t : Text} {us : List ℕ} (h : CharUnits t us) :
    StringUnits (ensureAsciiJson t) us := by
  cases h with
  -- a backslash is not plain, and what follows one is ASCII: nothing is replaced behind it
  | plain hplain =>
    rw [ensureAsciiJson, List.flatMap_singleton]
    exact stringUnits_escape hplain
  | escape hmem =>
    rw [ensureAsciiJson_of_isAscii (isAscii_escape hmem)]
    exact stringUnits_of_charUnits (.escape hmem)
  | unicode hn =>
    rw [ensureAsciiJson_of_isAscii (isAscii_unicode hn)]
    exact stringUnits_of_charUnits (.unicode hn)

theorem stringUnits_ensureAsciiJson {cs : Text} {us : List ℕ} (h : StringUnits cs us) :
    StringUnits (ensureAsciiJson cs) us := by
  induction h with
  | nil => exact .nil
  | cons h _ ih =>
    rw [ensureAsciiJson_append]
    exact (stringUnits_ensure_charUnits h).append ih

example : ensureAsciiJson ['\\', 'u', 'd', '8', '3', 'd', '😀'] =
    "\\ud83d\\ud83d\\ude00".toList := by decide

/-! ### Texts -/

theorem ensureAsciiJson_cons {c : Char} (h : c.toNat ≤ 0x7F) (text : Text) :
    ensureAsciiJson (c :: text) = c :: ensureAsciiJson text := by
  rw [ensureAsciiJson, List.flatMap_cons, escapeNonAscii_of_le h]
  rfl

theorem ensureAsciiJson_blank {a : Text} (h : Blank a) : ensureAsciiJson a = a :=
  ensureAsciiJson_of_isAscii (isAscii_of_all (fun _ => isSpace_ascii) h)

/-- Between two characters of ASCII -/
theorem ensureAsciiJson_between {c d : Char} (hc : c.toNat ≤ 0x7F) (hd : d.toNat ≤ 0x7F)
    (text : Text) : ensureAsciiJson (c :: (text ++ [d])) = c :: (ensureAsciiJson text ++ [d]) := by
  rw [ensureAsciiJson_cons hc, ensureAsciiJson_append, ensureAsciiJson_cons hd]
  rfl

theorem ensureAsciiJson_number {literal : Text} (h : Json.isNumber literal = true) :
    ensureAsciiJson literal = literal :=
  ensureAsciiJson_of_isAscii (isAscii_of_all (fun _ => isNumberChar_ascii)
    (Json.isNumberChar_of_isNumber h))

theorem ensureAsciiJson_padded {a b : Text} (ha : Blank a) (hb : Blank b) (text : Text) :
    ensureAsciiJson (a ++ text ++ b) = a ++ ensureAsciiJson text ++ b := by
  rw [ensureAsciiJson_append, ensureAsciiJson_append, ensureAsciiJson_blank ha,
    ensureAsciiJson_blank hb]

theorem ensureAsciiJson_comma (front back : Text) :
    ensureAsciiJson (front ++ ',' :: back) =
      ensureAsciiJson front ++ ',' :: ensureAsciiJson back := by
  rw [ensureAsciiJson_append, ensureAsciiJson_cons (by decide)]

theorem ensureAsciiJson_member {a b : Text} (ha : Blank a) (hb : Blank b) (key text : Text) :
    ensureAsciiJson (a ++ '"' :: (key ++ '"' :: (b ++ ':' :: text))) =
      a ++ '"' :: (ensureAsciiJson key ++ '"' :: (b ++ ':' :: ensureAsciiJson text)) := by
  rw [ensureAsciiJson_append, ensureAsciiJson_blank ha, ensureAsciiJson_cons (by decide),
    ensureAsciiJson_append, ensureAsciiJson_cons (by decide), ensureAsciiJson_append,
    ensureAsciiJson_blank hb, ensureAsciiJson_cons (by decide)]

/-- The text stands for the same code units. -/
theorem derivesUnits_ensureAsciiJson {part : Json.CodeUnits.Part} {text : Text}
    (h : Json.CodeUnits.Derives part text) :
    Json.CodeUnits.Derives part (ensureAsciiJson text) := by
  induction h with
  | null => exact .null
  | true => exact .true
  | false => exact .false
  | num hnumber =>
    rw [ensureAsciiJson_number hnumber]
    exact .num hnumber
  | str hs =>
    rw [ensureAsciiJson_between (by decide) (by decide)]
    exact .str (stringUnits_ensureAsciiJson hs)
  | emptyArr ha =>
    rw [ensureAsciiJson_between (by decide) (by decide), ensureAsciiJson_blank ha]
    exact .emptyArr ha
  | arr _ ih =>
    rw [ensureAsciiJson_between (by decide) (by decide)]
    exact .arr ih
  | emptyObj ha =>
    rw [ensureAsciiJson_between (by decide) (by decide), ensureAsciiJson_blank ha]
    exact .emptyObj ha
  | obj _ ih =>
    rw [ensureAsciiJson_between (by decide) (by decide)]
    exact .obj ih
  | element ha _ hb ih =>
    rw [ensureAsciiJson_padded ha hb]
    exact .element ha ih hb
  | lastElement _ ih => exact .lastElement ih
  | moreElements _ _ ih ihs =>
    rw [ensureAsciiJson_comma]
    exact .moreElements ih ihs
  | member ha hk hb _ ih =>
    rw [ensureAsciiJson_member ha hb]
    exact .member ha (stringUnits_ensureAsciiJson hk) hb ih
  | lastMember _ ih => exact .lastMember ih
  | moreMembers _ _ ih ihs =>
    rw [ensureAsciiJson_comma]
    exact .moreMembers ih ihs

/-- **The text stands for the same** after the replacement. -/
theorem derives_ensureAsciiJson {part : Json.Part} {text : Text} (h : Json.Derives part text) :
    Json.Derives part (ensureAsciiJson text) :=
  derives_iff.1 (derivesUnits_ensureAsciiJson (derives_iff.2 h))

/-! ### Nothing but ASCII -/

theorem digitChar_ascii {n : ℕ} (h : n < 16) : (Nat.digitChar n).toNat ≤ 0x7F := by
  revert n
  decide

theorem isAscii_hex4 (n : ℕ) : IsAscii (hex4 n) := by
  intro c hc
  obtain ⟨m, hm, rfl⟩ := List.mem_map.1 hc
  refine digitChar_ascii ?_
  simp only [List.mem_cons, List.not_mem_nil, or_false] at hm
  omega

theorem isAscii_unit (n : ℕ) : IsAscii ('\\' :: 'u' :: hex4 n) := by
  have hfront : IsAscii ['\\', 'u'] := by simp [IsAscii]
  exact hfront.append (isAscii_hex4 n)

theorem isAscii_escapeNonAscii (c : Char) : IsAscii (escapeNonAscii c) := by
  unfold escapeNonAscii
  split_ifs with hascii hbmp
  · intro d hd
    rwa [List.mem_singleton.1 hd]
  · exact isAscii_unit _
  · exact (isAscii_unit _).append (isAscii_unit _)

theorem isAscii_ensureAsciiJson (text : Text) : IsAscii (ensureAsciiJson text) := by
  intro c hc
  obtain ⟨d, -, hd⟩ := List.mem_flatMap.1 hc
  exact isAscii_escapeNonAscii d c hd

/-- **A JSON text keeps its meaning.** -/
theorem ensureAsciiJson_meaning {text : Text} {v : Json.CodeUnits.Value}
    (h : Json.CodeUnits.Derives (.element v) text) :
    IsAscii (ensureAsciiJson text) ∧ Json.CodeUnits.Derives (.element v) (ensureAsciiJson text) ∧
      ∀ j, Json.Derives (.element j) text → Json.Derives (.element j) (ensureAsciiJson text) ∧
        Json.parse (String.ofList (ensureAsciiJson text)) = some j ∧
        Json.parse (String.ofList text) = some j := by
  refine ⟨isAscii_ensureAsciiJson text, derivesUnits_ensureAsciiJson h, fun j hj => ?_⟩
  have hsame := derives_ensureAsciiJson hj
  refine ⟨hsame, Json.parse_of_derives ?_, Json.parse_of_derives ?_⟩
  · rwa [String.toList_ofList]
  · rwa [String.toList_ofList]

/-- A string with an escaped backslash in front of two characters that are escaped -/
theorem ensureAsciiJson_meaning_backslash :
    String.ofList (ensureAsciiJson ['"', '\\', '\\', 'µ', '😀', '"']) =
        "\"\\\\\\u00b5\\ud83d\\ude00\"" ∧
      Json.CodeUnits.Derives (.element (.str [0x5C, 0xB5, 0xD83D, 0xDE00]))
        (ensureAsciiJson ['"', '\\', '\\', 'µ', '😀', '"']) ∧
      Json.parse (String.ofList (ensureAsciiJson ['"', '\\', '\\', 'µ', '😀', '"'])) =
        some (.str (String.ofList ['\\', 'µ', '😀'])) := by
  have hunits : Json.CodeUnits.Derives (.element (.str [0x5C, 0xB5, 0xD83D, 0xDE00]))
      ['"', '\\', '\\', 'µ', '😀', '"'] :=
    .element Json.blank_nil (.str (.cons (.escape (c := '\\') (by decide))
      (.cons (.plain (c := 'µ') rfl) (.cons (.plain (c := '😀') rfl) .nil)))) Json.blank_nil
  have hvalue : Json.Derives (.element (.str (String.ofList ['\\', 'µ', '😀'])))
      ['"', '\\', '\\', 'µ', '😀', '"'] :=
    .element Json.blank_nil (.str (.cons (.escape (by decide)) (.cons (.plain rfl)
      (.cons (.plain rfl) .nil)))) Json.blank_nil
  obtain ⟨-, hsame, hparse⟩ := ensureAsciiJson_meaning hunits
  exact ⟨by decide, hsame, (hparse _ hvalue).2.1⟩

end DocsTool
