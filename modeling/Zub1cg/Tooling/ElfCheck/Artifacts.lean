import Zub1cg.Library.Json
import Zub1cg.Library.Scan

/-!
# The artifacts of a board (`tooling/elf_check/src/lib.rs`)

The manifest of a board is JSON, and the hashes of the artifacts are taken from it without a parser:
braces are matched, and the two keys are searched for between them.

## Main definitions

- `objectEnd`, `flattenNestedObjects`, `extractJsonString` — looking for braces and keys
- `parseArtifactHashes` — the hashes
- `pairs` — what they should be

## Main results

- `objectEnd_eq` — the end of an object is found
- `flatten_braced`, `collect_braced` — what the scanners make of an object
-/

namespace ElfCheck

open Checked Scan
open Json (Blank CharText Chars Derives)

abbrev Text := List Char

/-! ### The scanners -/

/-- The loop of `object_end`, as the number of characters that it goes over -/
def objectEndFrom (depth : ℕ) (inString escaped : Bool) : Text → ℕ
  | [] => 0
  | c :: rest =>
    if escaped then 1 + objectEndFrom depth inString false rest
    else if c = '\\' && inString then 1 + objectEndFrom depth inString true rest
    else if c = '"' then 1 + objectEndFrom depth (!inString) false rest
    else if inString then 1 + objectEndFrom depth inString false rest
    else if c = '\x7b' then 1 + objectEndFrom (depth + 1) inString false rest
    else if c = '\x7d' then
      if depth - 1 = 0 then 0 else 1 + objectEndFrom (depth - 1) inString false rest
    else 1 + objectEndFrom depth inString false rest

def objectEnd (s : Text) : ℕ := objectEndFrom 1 false false s

/-- What comes before the first opening brace -/
def beforeBrace (s : Text) : Text := s.takeWhile (· != '\x7b')

/-- What comes after it -/
def afterBrace (s : Text) : Text := (s.dropWhile (· != '\x7b')).drop 1

theorem length_afterBrace {s : Text} (h : '\x7b' ∈ s) : (afterBrace s).length < s.length := by
  have hlength := (List.dropWhile_suffix (l := s) (· != '\x7b')).length_le
  have hpos := List.length_pos_of_mem h
  rw [afterBrace, List.length_drop]
  omega

def flattenNestedObjects (s : Text) : Result Text :=
  if h : '\x7b' ∈ s then
    let remaining := afterBrace s
    let stop := objectEnd remaining
    have := length_afterBrace h
    -- `remaining[end + 1..]` needs a closing brace
    if stop < remaining.length then do
      let rest ← flattenNestedObjects (remaining.drop (stop + 1))
      return beforeBrace s ++ ['\x7b', '\x7d'] ++ rest
    else panicked
  else .ok s
termination_by s.length
decreasing_by
  rw [List.length_drop]
  omega

/-- The characters up to the closing quotation mark; a backslash is left out. -/
def readInner (escaped : Bool) : Text → Option Text
  | [] => none
  | c :: rest =>
    if escaped then (readInner false rest).map (c :: ·)
    else if c = '\\' then readInner true rest
    else if c = '"' then some []
    else (readInner false rest).map (c :: ·)

/-- A string, if there is one at the beginning -/
def readQuoted (s : Text) : Option Text :=
  match s.dropWhile isWhitespace with
  | '"' :: inner => readInner false inner
  | _ => none

def extractJsonString (obj key : Text) : Option Text :=
  (findAfter key obj).bind fun afterKey => (findAfter [':'] afterKey).bind readQuoted

def quoted (key : Text) : Text := '"' :: (key ++ ['"'])

def PATH : Text := "path".toList
def SHA256 : Text := "sha256".toList

/-- The artifact that an object stands for, if it stands for one -/
def ownPair (flat : Text) : List (Text × Text) :=
  match extractJsonString flat (quoted PATH), extractJsonString flat (quoted SHA256) with
  | some path, some hash => [(path, hash)]
  | _, _ => []

/-- What is pushed to the results -/
def collectArtifactObjects (s : Text) : Result (List (Text × Text)) :=
  if h : '\x7b' ∈ s then
    let remaining := afterBrace s
    let depthEnd := objectEnd remaining
    have := length_afterBrace h
    -- `remaining[depth_end + 1..]` needs a closing brace
    if depthEnd < remaining.length then do
      let obj := remaining.take depthEnd
      let nested ← collectArtifactObjects obj
      let flat ← flattenNestedObjects obj
      let rest ← collectArtifactObjects (remaining.drop (depthEnd + 1))
      return nested ++ ownPair flat ++ rest
    else panicked
  else .ok []
termination_by s.length
decreasing_by
  · rw [List.length_take]
    omega
  · rw [List.length_drop]
    omega

def parseArtifactHashes (json : Text) : Result (List (Text × Text)) := collectArtifactObjects json

/-! ### What the artifacts are -/

/-- The first member of an object with this key that is a string -/
def stringMember (key : Text) (members : List (String × Json)) : Option Text :=
  members.findSome? fun (k, j) => if k.toList = key then j.str?.map String.toList else none

/-- The artifact of an object with these members -/
def ownMembers (members : List (String × Json)) : List (Text × Text) :=
  match stringMember PATH members, stringMember SHA256 members with
  | some path, some hash => [(path, hash)]
  | _, _ => []

mutual

/-- The artifacts in a value; an object comes after what is nested in it. -/
def pairs : Json → List (Text × Text)
  | .arr elements => pairsElements elements
  | .obj members => pairsMembers members ++ ownMembers members
  | _ => []

def pairsElements : List Json → List (Text × Text)
  | [] => []
  | j :: js => pairs j ++ pairsElements js

def pairsMembers : List (String × Json) → List (Text × Text)
  | [] => []
  | (_, j) :: ms => pairs j ++ pairsMembers ms

end

def partPairs : Json.Part → List (Text × Text)
  | .value j | .element j => pairs j
  | .elements js => pairsElements js
  | .member m => pairs m.2
  | .members ms => pairsMembers ms

/-! ### Matching braces -/

section

variable {inString : Bool} {text text' : Text}

/-- Text that the search for the end of an object goes over at whatever depth it is, inside a string
or outside -/
def Passes (inString : Bool) (text : Text) : Prop :=
  ∀ depth rest, objectEndFrom (depth + 1) inString false (text ++ rest) =
    text.length + objectEndFrom (depth + 1) inString false rest

theorem Passes.nil : Passes inString [] := fun _ _ => (Nat.zero_add _).symm

theorem Passes.append (h : Passes inString text) (h' : Passes inString text') :
    Passes inString (text ++ text') := by
  intro depth rest
  rw [List.append_assoc, h, h', List.length_append, Nat.add_assoc]

theorem Passes.of_forall (h : ∀ c ∈ text, Passes inString [c]) : Passes inString text := by
  induction text with
  | nil => exact .nil
  | cons c text ih =>
    rw [← List.singleton_append]
    exact (h c List.mem_cons_self).append (ih fun d hd => h d (List.mem_cons_of_mem _ hd))

theorem passes_outside {c : Char} (h : c ∉ ['"', '\x7b', '\x7d']) : Passes false [c] := by
  intro depth rest
  simp only [List.mem_cons, List.not_mem_nil, or_false, not_or] at h
  simp [objectEndFrom, h]

theorem passes_inside {c : Char} (h : c ∉ ['"', '\\']) : Passes true [c] := by
  intro depth rest
  simp only [List.mem_cons, List.not_mem_nil, or_false, not_or] at h
  simp [objectEndFrom, h]

theorem passes_escape (e : Char) : Passes true ['\\', e] := by
  intro depth rest
  simp only [List.cons_append, List.nil_append, objectEndFrom, Bool.false_eq_true, if_false,
    decide_true, Bool.and_self, if_true, List.length_cons, List.length_nil]
  omega

theorem passes_blank (h : Blank text) : Passes false text := by
  refine .of_forall fun c hc => passes_outside fun hmem => ?_
  have hspace := h c hc
  simp only [List.mem_cons, List.not_mem_nil, or_false] at hmem
  obtain rfl | rfl | rfl := hmem <;> exact absurd hspace (by decide)

theorem hexDigit_not_mem (c : Char) (n : ℕ) (h : Json.hexValue c = some n) : c ∉ ['"', '\\'] := by
  intro hmem
  simp only [List.mem_cons, List.not_mem_nil, or_false] at hmem
  obtain rfl | rfl := hmem <;> simp [Json.hexValue] at h

theorem hex4_not_mem {a b c d : Char} {n : ℕ} (h : Json.hex4 a b c d = some n) :
    ∀ e ∈ [a, b, c, d], e ∉ ['"', '\\'] := Json.hex4_forall hexDigit_not_mem h

/-- One character of a string -/
theorem passes_charText {t : Text} {c : Char} (h : CharText t c) : Passes true t := by
  have hdigits {a b c d : Char} {n : ℕ} (h : Json.hex4 a b c d = some n) :
      Passes true [a, b, c, d] := .of_forall fun e he => passes_inside (hex4_not_mem h e he)
  cases h with
  | plain h =>
    refine passes_inside fun hmem => ?_
    simp only [List.mem_cons, List.not_mem_nil, or_false] at hmem
    obtain rfl | rfl := hmem <;> exact absurd h (by decide)
  | escape _ => exact passes_escape _
  | unicode h _ _ => exact (passes_escape 'u').append (hdigits h)
  | pair h h' _ _ =>
    -- two escapes with their digits
    exact ((passes_escape 'u').append (hdigits h)).append
      ((passes_escape 'u').append (hdigits h'))

theorem passes_chars {s : Text} (h : Chars text s) : Passes true text := by
  induction h with
  | nil => exact .nil
  | cons h _ ih => exact (passes_charText h).append ih

theorem passes_quoted {s : Text} (h : Chars text s) : Passes false (quoted text) := by
  intro depth rest
  have hopen : ∀ text, objectEndFrom (depth + 1) false false ('"' :: text) =
      1 + objectEndFrom (depth + 1) true false text := fun text => by simp [objectEndFrom]
  have hclose : ∀ text, objectEndFrom (depth + 1) true false ('"' :: text) =
      1 + objectEndFrom (depth + 1) false false text := fun text => by simp [objectEndFrom]
  rw [quoted, List.cons_append, hopen, List.append_assoc, passes_chars h,
    List.singleton_append, hclose, List.length_cons, List.length_append, List.length_singleton]
  omega

/-- An object in braces, and what surrounds it in the text -/
def braced (text : Text) : Text := '\x7b' :: (text ++ ['\x7d'])

theorem passes_braced (h : Passes false text) : Passes false (braced text) := by
  intro depth rest
  have hopen : ∀ text, objectEndFrom (depth + 1) false false ('\x7b' :: text) =
      1 + objectEndFrom (depth + 1 + 1) false false text := fun text => by simp [objectEndFrom]
  have hclose : ∀ text, objectEndFrom (depth + 1 + 1) false false ('\x7d' :: text) =
      1 + objectEndFrom (depth + 1) false false text := fun text => by simp [objectEndFrom]
  rw [braced, List.cons_append, hopen, List.append_assoc, h, List.singleton_append, hclose,
    List.length_cons, List.length_append, List.length_singleton]
  omega

/-- The end of an object is found. -/
theorem objectEnd_eq (h : Passes false text) (rest : Text) :
    objectEnd (text ++ '\x7d' :: rest) = text.length := by
  rw [objectEnd, h 0]
  simp [objectEndFrom]

end

/-! ### Braces -/

section

variable {text flat : Text} {found : List (Text × Text)}

theorem afterBrace_braced (rest : Text) :
    afterBrace (braced text ++ rest) = text ++ '\x7d' :: rest := by
  simp [afterBrace, braced]

theorem beforeBrace_braced (rest : Text) : beforeBrace (braced text ++ rest) = [] := by
  simp [beforeBrace, braced]

theorem drop_close (text rest : Text) :
    (text ++ '\x7d' :: rest).drop (text.length + 1) = rest := by
  rw [← List.drop_drop, List.drop_left]
  rfl

theorem afterBrace_cons {c : Char} (h : c ≠ '\x7b') (s : Text) :
    afterBrace (c :: s) = afterBrace s := by simp [afterBrace, h]

theorem beforeBrace_cons {c : Char} (h : c ≠ '\x7b') (s : Text) :
    beforeBrace (c :: s) = c :: beforeBrace s := by simp [beforeBrace, h]

theorem mem_cons_brace {c : Char} (h : c ≠ '\x7b') (s : Text) : '\x7b' ∈ c :: s ↔ '\x7b' ∈ s := by
  simp [h.symm]

theorem flatten_nil : flattenNestedObjects [] = .ok [] := by simp [flattenNestedObjects]

theorem collect_nil : collectArtifactObjects [] = .ok [] := by simp [collectArtifactObjects]

theorem flatten_char {c : Char} (h : c ≠ '\x7b') : Emits flattenNestedObjects [c] [c] := by
  intro rest
  rw [List.singleton_append, flattenNestedObjects, flattenNestedObjects]
  simp only [mem_cons_brace h, afterBrace_cons h, beforeBrace_cons h]
  split_ifs
  · cases flattenNestedObjects _ with
    | error e => rfl
    | ok out => rfl
  · rfl
  · rfl

theorem collect_char {c : Char} (h : c ≠ '\x7b') : Emits collectArtifactObjects [c] [] := by
  intro rest
  rw [List.singleton_append, collectArtifactObjects, collectArtifactObjects]
  simp only [mem_cons_brace h, afterBrace_cons h, List.nil_append]
  exact (id_map _).symm

/-- Without braces, everything is left as it is, -/
theorem flatten_text (h : '\x7b' ∉ text) : Emits flattenNestedObjects text text := by
  have htext := Emits.flatMap (f := fun c => [c]) fun c hc =>
    flatten_char (fun heq => h (heq ▸ hc) : c ≠ '\x7b')
  rwa [List.flatMap_singleton'] at htext

/-- and nothing is found. -/
theorem collect_text (h : '\x7b' ∉ text) : Emits collectArtifactObjects text [] := by
  have htext := Emits.flatMap (f := fun _ => []) fun c hc =>
    collect_char (fun heq => h (heq ▸ hc) : c ≠ '\x7b')
  rwa [List.flatMap_eq_nil_iff.2 fun _ _ => rfl] at htext

/-- **An object** inside of which the braces match is emptied. -/
theorem flatten_braced (h : Passes false text) :
    Emits flattenNestedObjects (braced text) ['\x7b', '\x7d'] := by
  intro rest
  have hmem : '\x7b' ∈ braced text ++ rest := by simp [braced]
  rw [flattenNestedObjects, dif_pos hmem]
  simp only [afterBrace_braced, beforeBrace_braced, objectEnd_eq h, drop_close]
  rw [if_pos (by simp)]
  rfl

/-- **An object** whose insides are known -/
theorem collect_braced (h : Passes false text) (hnested : collectArtifactObjects text = .ok found)
    (hflat : flattenNestedObjects text = .ok flat) :
    Emits collectArtifactObjects (braced text) (found ++ ownPair flat) := by
  intro rest
  have hmem : '\x7b' ∈ braced text ++ rest := by simp [braced]
  rw [collectArtifactObjects, dif_pos hmem]
  simp only [afterBrace_braced, objectEnd_eq h, List.take_left, drop_close, hnested, hflat]
  rw [if_pos (by simp)]
  rfl

end

end ElfCheck
