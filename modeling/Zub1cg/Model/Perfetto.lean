import Zub1cg.Library.Json
import Zub1cg.Model.Itm

/-!
# Traces as JSON (`orbtrace/model/src/lib.rs`)

`perfetto_json` writes a trace for a viewer, out of fragments. What a viewer makes of the text is
given by the grammar of JSON and by a parser for it.

## Main definitions

- `jsonEscape`, `perfettoJson` — what is written
- `document` — what is to be read
- `readTrace` — the trace that a document holds

## Main results

- `derives_quote` — every string passes through the escapes
- `perfettoJson_lines` — the entries are separated by commas
- `perfetto_json_valid` — what is written is read back
-/

namespace Model

open Json (Derives quoted field braces lines)

/-! ### Writing -/

/-- `{:04x}` -/
def hex04 (n : ℕ) : String :=
  let digits := Nat.toDigits 16 n
  String.ofList (List.replicate (4 - digits.length) '0' ++ digits)

/-- The body of the loop of `json_escape`. -/
def escapeChar (out : String) (c : Char) : String :=
  match c with
  | '"' => out ++ "\\\""
  | '\\' => out ++ "\\\\"
  | '\n' => out ++ "\\n"
  | c => if c.toNat < 0x20 then out ++ "\\u" ++ hex04 c.toNat else out.push c

def jsonEscape (out : String) (value : String) : String :=
  (value.toList.foldl escapeChar (out.push '"')).push '"'

/-- The variables of `perfetto_json`. -/
structure JsonOutput where
  out : String
  first : Bool

/-- The closure `item`. -/
def JsonOutput.item (o : JsonOutput) (s : String) : JsonOutput where
  out := (if !o.first then o.out ++ ",\n" else o.out) ++ s
  first := false

/-- `0u8..=7` -/
def ports : List UInt8 := [0, 1, 2, 3, 4, 5, 6, 7]

/-- The entry that names the track of a port. -/
def portEntry (port : UInt8) : String :=
  jsonEscape
    ("\x7b\"ph\":\"M\",\"name\":\"thread_name\",\"pid\":1,\"tid\":" ++ toString port ++
      ",\"args\":\x7b\"name\":")
    ("ITM port " ++ toString port) ++ "\x7d\x7d"

def eventEntry (event : PerfettoEvent) : String :=
  jsonEscape
    ("\x7b\"ph\":\"I\",\"ts\":" ++ toString event.ts ++ ",\"pid\":1,\"tid\":" ++
      toString event.port ++ ",\"s\":\"t\",\"name\":")
    event.name ++
    ",\"args\":\x7b\"value\":" ++ toString event.value ++ ",\"width\":" ++ toString event.width ++
    "\x7d\x7d"

/-- The entry that names the counter track. -/
def counterEntry : String :=
  "\x7b\"ph\":\"M\",\"name\":\"thread_name\",\"pid\":2,\"tid\":0,\"args\":" ++
    "\x7b\"name\":\"dropped_sequence_gap\"\x7d\x7d"

def gapEntry (gap : ℕ × ℕ) : String :=
  "\x7b\"ph\":\"C\",\"name\":\"dropped_sequence_gap\",\"ts\":" ++ toString gap.1 ++
    ",\"pid\":2,\"tid\":0,\"args\":\x7b\"dropped_sequence_gap\":" ++ toString gap.2 ++ "\x7d\x7d"

def perfettoJson (trace : PerfettoTrace) : String :=
  let o : JsonOutput := { out := "\x7b\"traceEvents\":[\n", first := true }
  let o := ports.foldl (fun o port => o.item (portEntry port)) o
  let o := trace.events.foldl (fun o event => o.item (eventEntry event)) o
  let o :=
    if !trace.sequenceGaps.isEmpty then
      trace.sequenceGaps.foldl (fun o gap => o.item (gapEntry gap)) (o.item counterEntry)
    else o
  o.out ++ "\n]\x7d\n"

/-! ### What is to be read -/

def number (n : ℕ) : Json := .num (Nat.toDigits 10 n)

/-- The name of a track. -/
def metadataJson (pid tid : ℕ) (name : String) : Json :=
  .obj [("ph", .str "M"), ("name", .str "thread_name"), ("pid", number pid), ("tid", number tid),
    ("args", .obj [("name", .str name)])]

def portMetadata (port : UInt8) : Json := metadataJson 1 port.toNat ("ITM port " ++ toString port)

def instantJson (event : PerfettoEvent) : Json :=
  .obj [("ph", .str "I"), ("ts", number event.ts), ("pid", number 1),
    ("tid", number event.port.toNat), ("s", .str "t"), ("name", .str event.name),
    ("args", .obj [("value", number event.value.toNat), ("width", number event.width.toNat)])]

def counterJson (gap : ℕ × ℕ) : Json :=
  .obj [("ph", .str "C"), ("name", .str "dropped_sequence_gap"), ("ts", number gap.1),
    ("pid", number 2), ("tid", number 0), ("args", .obj [("dropped_sequence_gap", number gap.2)])]

/-- The counter track, if there is something on it. -/
def counterTrack (gaps : List (ℕ × ℕ)) : List Json :=
  if gaps = [] then [] else metadataJson 2 0 "dropped_sequence_gap" :: gaps.map counterJson

def traceEvents (trace : PerfettoTrace) : List Json :=
  ports.map portMetadata ++ trace.events.map instantJson ++ counterTrack trace.sequenceGaps

def document (trace : PerfettoTrace) : Json := .obj [("traceEvents", .arr (traceEvents trace))]

/-! ### Reading -/

/-- A number below `bound`. -/
def boundedNat? (bound : ℕ) (j : Json) : Option ℕ := j.nat?.filter (· < bound)

def readEvent (j : Json) : Option PerfettoEvent := do
  let ts ← (← j.field? "ts").nat?
  let port ← boundedNat? UInt8.size (← j.field? "tid")
  let name ← (← j.field? "name").str?
  let args ← j.field? "args"
  let value ← boundedNat? UInt32.size (← args.field? "value")
  let width ← boundedNat? UInt8.size (← args.field? "width")
  return {
    port := UInt8.ofNat port
    ts := ts
    name := name
    value := UInt32.ofNat value
    width := UInt8.ofNat width }

def readGap (j : Json) : Option (ℕ × ℕ) := do
  let ts ← (← j.field? "ts").nat?
  let value ← (← (← j.field? "args").field? "dropped_sequence_gap").nat?
  return (ts, value)

/-- The kind of an entry. -/
def phase (j : Json) : Option String := (j.field? "ph").bind Json.str?

/-- The entries of one kind. -/
def ofPhase (ph : String) (entries : List Json) : List Json :=
  entries.filter fun j => phase j == some ph

/-- The trace that a document holds. -/
def readTrace (j : Json) : Option PerfettoTrace := do
  let entries ← (← j.field? "traceEvents").arr?
  let events ← (ofPhase "I" entries).mapM readEvent
  let sequenceGaps ← (ofPhase "C" entries).mapM readGap
  return { events := events, sequenceGaps := sequenceGaps }

/-! ### Strings -/

/-- What the escapes make of a character. -/
def escapeText (c : Char) : List Char := (escapeChar "" c).toList

theorem escapeChar_toList (out : String) (c : Char) :
    (escapeChar out c).toList = out.toList ++ escapeText c := by
  unfold escapeText escapeChar
  split
  · simp
  · simp
  · simp
  · split <;> simp

theorem jsonEscape_toList (out value : String) :
    (jsonEscape out value).toList = out.toList ++ quoted (value.toList.flatMap escapeText) := by
  have hloop (cs : List Char) (out : String) :
      (cs.foldl escapeChar out).toList = out.toList ++ cs.flatMap escapeText := by
    induction cs generalizing out with
    | nil => exact (List.append_nil _).symm
    | cons c cs ih =>
      rw [List.foldl_cons, ih, escapeChar_toList, List.flatMap_cons, List.append_assoc]
  rw [jsonEscape, String.toList_push, hloop, String.toList_push, quoted]
  simp only [List.append_assoc, List.cons_append, List.nil_append]

/-- A number below 32 has two leading zeros. -/
theorem hex04_toList {n : ℕ} (hn : n < 0x20) :
    (hex04 n).toList = ['0', '0', Nat.digitChar (n / 16), Nat.digitChar (n % 16)] := by
  rw [hex04, String.toList_ofList]
  by_cases hsmall : n < 16
  · rw [Nat.toDigits_of_lt_base hsmall, Nat.div_eq_of_lt hsmall, Nat.mod_eq_of_lt hsmall]
    rfl
  · have hone : n / 16 = 1 := by omega
    rw [Nat.toDigits_of_base_le (by decide) (Nat.le_of_not_lt hsmall), hone]
    rfl

theorem hexValue_digitChar {k : ℕ} (hk : k < 16) :
    Json.hexValue (Nat.digitChar k) = some k := by
  have hdigits : ∀ k : Fin 16, Json.hexValue (Nat.digitChar k) = some k.val := by decide
  exact hdigits ⟨k, hk⟩

/-- A control character in hexadecimal digits. -/
theorem charText_hex {c : Char} (hc : c.toNat < 0x20) :
    Json.CharText ('\\' :: 'u' :: (hex04 c.toNat).toList) c := by
  have hvalue : Json.hex4 '0' '0' (Nat.digitChar (c.toNat / 16)) (Nat.digitChar (c.toNat % 16)) =
      some c.toNat := by
    have hzero : Json.hexValue '0' = some 0 := rfl
    have hdiv : c.toNat / 16 < 16 := by omega
    have hmod : c.toNat % 16 < 16 := Nat.mod_lt _ (by decide)
    rw [Json.hex4, hzero, hexValue_digitChar hdiv, hexValue_digitChar hmod]
    simp only [Option.bind_some, Option.map_some, Option.some.injEq]
    omega
  have hhigh : Json.isHighSurrogate c.toNat = false := by
    simp only [Json.isHighSurrogate, Bool.and_eq_false_iff, decide_eq_false_iff_not]
    omega
  have hlow : Json.isLowSurrogate c.toNat = false := by
    simp only [Json.isLowSurrogate, Bool.and_eq_false_iff, decide_eq_false_iff_not]
    omega
  have hchar := Json.CharText.unicode hvalue hhigh hlow
  rwa [Char.ofNat_toNat, ← hex04_toList hc] at hchar

theorem charText_escape (c : Char) : Json.CharText (escapeText c) c := by
  unfold escapeText escapeChar
  split
  · exact .escape (by decide)
  · exact .escape (by decide)
  · exact .escape (by decide)
  · next hquote hslash hline =>
    split
    · next hc =>
      have hhex := charText_hex hc
      simpa using hhex
    · next hc =>
      have hplain : Json.isPlain c = true := by
        simp only [Json.isPlain, Bool.and_eq_true, decide_eq_true_eq, bne_iff_ne]
        exact ⟨⟨by omega, hquote⟩, hslash⟩
      simpa using Json.CharText.plain hplain

theorem chars_escape (cs : List Char) : Json.Chars (cs.flatMap escapeText) cs := by
  induction cs with
  | nil => exact .nil
  | cons c cs ih => exact .cons (charText_escape c) ih

/-- Every string passes through the escapes. -/
theorem derives_quote (s : String) :
    Derives (.value (.str s)) (quoted (s.toList.flatMap escapeText)) :=
  Json.derives_string (chars_escape s.toList)

/-! ### Entries -/

theorem toList_toString (n : ℕ) : (toString n).toList = Nat.toDigits 10 n := Nat.toList_repr

theorem derives_number (n : ℕ) : Derives (.value (number n)) (toString n).toList := by
  rw [toList_toString]
  exact Json.derives_nat n

/-- A string that needs no escapes. -/
theorem derives_plain {s : String} (h : s.toList.all Json.isPlain = true) :
    Derives (.value (.str s)) (quoted s.toList) := Json.derives_string (Json.chars_plain h)

/-- The text of the name of a track, whatever stands in the place of the name. -/
theorem derives_metadata {pid tid : ℕ} {name : String} {cs : List Char}
    (h : Derives (.value (.str name)) cs) :
    Derives (.value (metadataJson pid tid name))
      (braces [field "ph" (quoted "M".toList), field "name" (quoted "thread_name".toList),
        field "pid" (toString pid).toList, field "tid" (toString tid).toList,
        field "args" (braces [field "name" cs])]) := by
  refine Json.derives_braces (.cons ?_ (.cons ?_ (.cons ?_ (.cons ?_ (.cons ?_ .nil)))))
    (List.cons_ne_nil _ _)
  · exact Json.derives_field (by decide) (derives_plain (by decide))
  · exact Json.derives_field (by decide) (derives_plain (by decide))
  · exact Json.derives_field (by decide) (derives_number pid)
  · exact Json.derives_field (by decide) (derives_number tid)
  · exact Json.derives_field (by decide)
      (Json.derives_braces (.cons (Json.derives_field (by decide) h) .nil) (List.cons_ne_nil _ _))

theorem derives_portEntry (port : UInt8) :
    Derives (.value (portMetadata port)) (portEntry port).toList := by
  have hentry := @derives_metadata 1 port.toNat _ _ (derives_quote ("ITM port " ++ toString port))
  have htext : (portEntry port).toList =
      braces [field "ph" (quoted "M".toList), field "name" (quoted "thread_name".toList),
        field "pid" (toString 1).toList, field "tid" (toString port.toNat).toList,
        field "args" (braces [field "name"
          (quoted (("ITM port " ++ toString port).toList.flatMap escapeText))])] := by
    have hport : toString port = toString port.toNat := rfl
    have hone : (toString 1).toList = ['1'] := rfl
    unfold portEntry
    simp only [String.toList_append, jsonEscape_toList, hport, hone, String.reduceToList, braces,
      field, quoted, List.append_assoc, List.cons_append, List.nil_append,
      List.intercalate_cons_cons, List.intercalate_singleton]
  rw [htext]
  exact hentry

theorem derives_counterEntry :
    Derives (.value (metadataJson 2 0 "dropped_sequence_gap")) counterEntry.toList := by
  have hname : Derives (.value (.str "dropped_sequence_gap"))
      (quoted "dropped_sequence_gap".toList) := derives_plain (by decide)
  have hentry := @derives_metadata 2 0 _ _ hname
  have htext : counterEntry.toList =
      braces [field "ph" (quoted "M".toList), field "name" (quoted "thread_name".toList),
        field "pid" (toString 2).toList, field "tid" (toString 0).toList,
        field "args" (braces [field "name" (quoted "dropped_sequence_gap".toList)])] := by
    have htwo : (toString 2).toList = ['2'] := rfl
    have hzero : (toString 0).toList = ['0'] := rfl
    unfold counterEntry
    simp only [String.toList_append, htwo, hzero, String.reduceToList, braces, field, quoted,
      List.cons_append, List.nil_append, List.intercalate_cons_cons, List.intercalate_singleton]
  rw [htext]
  exact hentry

theorem derives_eventEntry (event : PerfettoEvent) :
    Derives (.value (instantJson event)) (eventEntry event).toList := by
  have htext : (eventEntry event).toList =
      braces [field "ph" (quoted "I".toList), field "ts" (toString event.ts).toList,
        field "pid" (toString 1).toList, field "tid" (toString event.port.toNat).toList,
        field "s" (quoted "t".toList),
        field "name" (quoted (event.name.toList.flatMap escapeText)),
        field "args" (braces [field "value" (toString event.value.toNat).toList,
          field "width" (toString event.width.toNat).toList])] := by
    have hport : toString event.port = toString event.port.toNat := rfl
    have hvalue : toString event.value = toString event.value.toNat := rfl
    have hwidth : toString event.width = toString event.width.toNat := rfl
    have hone : (toString 1).toList = ['1'] := rfl
    unfold eventEntry
    simp only [String.toList_append, jsonEscape_toList, hport, hvalue, hwidth, hone,
      String.reduceToList, braces, field, quoted, List.append_assoc, List.cons_append,
      List.nil_append, List.intercalate_cons_cons, List.intercalate_singleton]
  rw [htext]
  refine Json.derives_braces (.cons ?_ (.cons ?_ (.cons ?_ (.cons ?_ (.cons ?_ (.cons ?_
    (.cons ?_ .nil))))))) (List.cons_ne_nil _ _)
  · exact Json.derives_field (by decide) (derives_plain (by decide))
  · exact Json.derives_field (by decide) (derives_number event.ts)
  · exact Json.derives_field (by decide) (derives_number 1)
  · exact Json.derives_field (by decide) (derives_number event.port.toNat)
  · exact Json.derives_field (by decide) (derives_plain (by decide))
  · exact Json.derives_field (by decide) (derives_quote event.name)
  · refine Json.derives_field (by decide) (Json.derives_braces (.cons ?_ (.cons ?_ .nil))
      (List.cons_ne_nil _ _))
    · exact Json.derives_field (by decide) (derives_number event.value.toNat)
    · exact Json.derives_field (by decide) (derives_number event.width.toNat)

theorem derives_gapEntry (gap : ℕ × ℕ) :
    Derives (.value (counterJson gap)) (gapEntry gap).toList := by
  have htext : (gapEntry gap).toList =
      braces [field "ph" (quoted "C".toList),
        field "name" (quoted "dropped_sequence_gap".toList), field "ts" (toString gap.1).toList,
        field "pid" (toString 2).toList, field "tid" (toString 0).toList,
        field "args" (braces [field "dropped_sequence_gap" (toString gap.2).toList])] := by
    have htwo : (toString 2).toList = ['2'] := rfl
    have hzero : (toString 0).toList = ['0'] := rfl
    unfold gapEntry
    simp only [String.toList_append, htwo, hzero, String.reduceToList, braces, field, quoted,
      List.append_assoc, List.cons_append, List.nil_append, List.intercalate_cons_cons,
      List.intercalate_singleton]
  rw [htext]
  refine Json.derives_braces (.cons ?_ (.cons ?_ (.cons ?_ (.cons ?_ (.cons ?_ (.cons ?_ .nil))))))
    (List.cons_ne_nil _ _)
  · exact Json.derives_field (by decide) (derives_plain (by decide))
  · exact Json.derives_field (by decide) (derives_plain (by decide))
  · exact Json.derives_field (by decide) (derives_number gap.1)
  · exact Json.derives_field (by decide) (derives_number 2)
  · exact Json.derives_field (by decide) (derives_number 0)
  · exact Json.derives_field (by decide)
      (Json.derives_braces (.cons (Json.derives_field (by decide) (derives_number gap.2)) .nil)
        (List.cons_ne_nil _ _))

/-! ### The commas -/

/-- The entries of a trace, in the order in which they are written. -/
def entries (trace : PerfettoTrace) : List String :=
  ports.map portEntry ++ trace.events.map eventEntry ++
    if trace.sequenceGaps = [] then [] else counterEntry :: trace.sequenceGaps.map gapEntry

/-- Every entry is the text of what is to be read for it. -/
theorem derives_entries (trace : PerfettoTrace) :
    List.Forall₂ (fun j cs => Derives (.value j) cs) (traceEvents trace)
      ((entries trace).map String.toList) := by
  have hmaps {α : Type} {f : α → Json} {g : α → String}
      (h : ∀ a, Derives (.value (f a)) (g a).toList) (as : List α) :
      List.Forall₂ (fun j cs => Derives (.value j) cs) (as.map f)
        ((as.map g).map String.toList) := by
    induction as with
    | nil => exact .nil
    | cons a as ih => exact .cons (h a) ih
  rw [traceEvents, entries, List.map_append, List.map_append]
  refine List.rel_append (List.rel_append (hmaps derives_portEntry _)
    (hmaps derives_eventEntry _)) ?_
  rw [counterTrack]
  split
  · exact .nil
  · exact .cons derives_counterEntry (hmaps derives_gapEntry _)

/-- A comma goes before every entry but the first. -/
theorem item_foldl (es : List String) (out : String) :
    (es.foldl JsonOutput.item { out := out, first := false }).out.toList =
      out.toList ++ es.flatMap fun e => ',' :: '\n' :: e.toList := by
  induction es generalizing out with
  | nil => exact (List.append_nil _).symm
  | cons e es ih =>
    have hitem : JsonOutput.item { out := out, first := false } e =
        { out := out ++ ",\n" ++ e, first := false } := rfl
    rw [List.foldl_cons, hitem, ih]
    simp

theorem lines_cons (cs : List Char) (texts : List (List Char)) :
    lines (cs :: texts) =
      '\n' :: (cs ++ (texts.flatMap (fun cs => ',' :: '\n' :: cs) ++ ['\n'])) := by
  induction texts generalizing cs with
  | nil => rfl
  | cons ds texts ih =>
    rw [lines, ih, List.flatMap_cons]
    simp

/-- The entries are written on lines of their own, with commas between them. -/
theorem perfettoJson_lines (trace : PerfettoTrace) :
    (perfettoJson trace).toList =
      braces [field "traceEvents"
        ('[' :: (lines ((entries trace).map String.toList) ++ [']']))] ++ ['\n'] := by
  have hfold : perfettoJson trace =
      ((entries trace).foldl JsonOutput.item
        { out := "\x7b\"traceEvents\":[\n", first := true }).out ++ "\n]\x7d\n" := by
    rw [perfettoJson, entries, List.foldl_append, List.foldl_append, List.foldl_map,
      List.foldl_map]
    cases hgaps : trace.sequenceGaps with
    | nil => rfl
    | cons gap gaps =>
      have htrack (o : JsonOutput) :
          ((counterEntry :: (gap :: gaps).map gapEntry).foldl JsonOutput.item o) =
            (gap :: gaps).foldl (fun o gap => o.item (gapEntry gap)) (o.item counterEntry) :=
        List.foldl_map
      rw [if_neg (List.cons_ne_nil gap gaps), htrack]
      rfl
  obtain ⟨e, es, hes⟩ : ∃ e es, entries trace = e :: es := ⟨_, _, rfl⟩
  have hfirst : JsonOutput.item { out := "\x7b\"traceEvents\":[\n", first := true } e =
      { out := "\x7b\"traceEvents\":[\n" ++ e, first := false } := rfl
  rw [hfold, hes, List.foldl_cons, hfirst, String.toList_append, item_foldl, List.map_cons,
    lines_cons, List.flatMap_map]
  simp [braces, field, quoted]

/-- The text is derived for the document. -/
theorem derives_perfettoJson (trace : PerfettoTrace) :
    Derives (.element (document trace)) (perfettoJson trace).toList := by
  have hevents : Derives (.value (.arr (traceEvents trace)))
      ('[' :: (lines ((entries trace).map String.toList) ++ [']'])) :=
    .arr (Json.derives_lines (derives_entries trace) (List.cons_ne_nil _ _))
  have hfield : Derives (.member ("traceEvents", .arr (traceEvents trace)))
      (field "traceEvents" ('[' :: (lines ((entries trace).map String.toList) ++ [']']))) :=
    Json.derives_field (by decide) hevents
  have hdocument := Json.derives_braces (.cons hfield .nil) (List.cons_ne_nil _ _)
  rw [perfettoJson_lines]
  exact .element Json.blank_nil hdocument Json.blank_newline

/-! ### Reading back -/

theorem boundedNat?_number {bound n : ℕ} (h : n < bound) :
    boundedNat? bound (number n) = some n := by
  rw [boundedNat?, number, Json.nat?_toDigits, Option.filter_some, if_pos (decide_eq_true h)]

theorem readEvent_instant (event : PerfettoEvent) : readEvent (instantJson event) = some event := by
  have hport := boundedNat?_number event.port.toNat_lt
  have hvalue := boundedNat?_number event.value.toNat_lt
  have hwidth := boundedNat?_number event.width.toNat_lt
  have hts := Json.nat?_toDigits event.ts
  have hfields : (instantJson event).field? "ts" = some (number event.ts) ∧
      (instantJson event).field? "tid" = some (number event.port.toNat) ∧
      (instantJson event).field? "name" = some (.str event.name) ∧
      (instantJson event).field? "args" = some (.obj [("value", number event.value.toNat),
        ("width", number event.width.toNat)]) := ⟨rfl, rfl, rfl, rfl⟩
  have hargs (a b : Json) : Json.field? "value" (.obj [("value", a), ("width", b)]) = some a ∧
      Json.field? "width" (.obj [("value", a), ("width", b)]) = some b := ⟨rfl, rfl⟩
  have hname : Json.str? (.str event.name) = some event.name := rfl
  have hnumber : (number event.ts).nat? = some event.ts := hts
  simp only [readEvent, hfields, hargs, hname, hnumber, hport, hvalue, hwidth,
    Option.bind_eq_bind, Option.bind_some, Option.pure_def, UInt8.ofNat_toNat, UInt32.ofNat_toNat]

theorem readGap_counter (gap : ℕ × ℕ) : readGap (counterJson gap) = some gap := by
  have hfields : (counterJson gap).field? "ts" = some (number gap.1) ∧
      (counterJson gap).field? "args" = some (.obj [("dropped_sequence_gap", number gap.2)]) :=
    ⟨rfl, rfl⟩
  have hargs (a : Json) : Json.field? "dropped_sequence_gap" (.obj [("dropped_sequence_gap", a)]) =
      some a := rfl
  have hnumber (n : ℕ) : (number n).nat? = some n := Json.nat?_toDigits n
  simp only [readGap, hfields, hargs, hnumber, Option.bind_eq_bind, Option.bind_some,
    Option.pure_def]

theorem ofPhase_own {α : Type} {f : α → Json} {ph : String} (h : ∀ a, phase (f a) = some ph)
    (as : List α) : ofPhase ph (as.map f) = as.map f :=
  List.filter_eq_self.mpr (List.forall_mem_map.mpr fun a _ => by rw [h a, beq_self_eq_true])

theorem ofPhase_other {α : Type} {f : α → Json} {ph ph' : String}
    (h : ∀ a, phase (f a) = some ph') (hne : ph' ≠ ph) (as : List α) :
    ofPhase ph (as.map f) = [] := by
  refine List.filter_eq_nil_iff.mpr (List.forall_mem_map.mpr fun a _ => ?_)
  rw [h a, beq_iff_eq, Option.some.injEq]
  exact hne

/-- The instants are those of the events. -/
theorem ofPhase_instants (trace : PerfettoTrace) :
    ofPhase "I" (traceEvents trace) = trace.events.map instantJson := by
  have hports := @ofPhase_other _ portMetadata "I" "M" (fun _ => rfl) (by decide) ports
  have hevents := @ofPhase_own _ instantJson "I" (fun _ => rfl) trace.events
  have htrack : ofPhase "I" (counterTrack trace.sequenceGaps) = [] := by
    rw [counterTrack]
    split
    · rfl
    · exact @ofPhase_other _ counterJson "I" "C" (fun _ => rfl) (by decide) trace.sequenceGaps
  rw [ofPhase] at *
  rw [traceEvents, List.filter_append, List.filter_append, hports, hevents, htrack,
    List.append_nil, List.nil_append]

/-- The samples are those of the gaps. -/
theorem ofPhase_samples (trace : PerfettoTrace) :
    ofPhase "C" (traceEvents trace) = trace.sequenceGaps.map counterJson := by
  have hports := @ofPhase_other _ portMetadata "C" "M" (fun _ => rfl) (by decide) ports
  have hevents := @ofPhase_other _ instantJson "C" "I" (fun _ => rfl) (by decide) trace.events
  have htrack : ofPhase "C" (counterTrack trace.sequenceGaps) =
      trace.sequenceGaps.map counterJson := by
    rw [counterTrack]
    split
    · next hnone =>
      rw [hnone]
      rfl
    · exact @ofPhase_own _ counterJson "C" (fun _ => rfl) trace.sequenceGaps
  rw [ofPhase] at *
  rw [traceEvents, List.filter_append, List.filter_append, hports, hevents, htrack,
    List.nil_append, List.nil_append]

theorem mapM_map_some {α β : Type} {f : β → Option α} {g : α → β} (h : ∀ a, f (g a) = some a)
    (as : List α) : (as.map g).mapM f = some as := by
  induction as with
  | nil => rfl
  | cons a as ih =>
    rw [List.map_cons, List.mapM_cons, h a, ih]
    rfl

/-- **What is to be read holds the trace.** -/
theorem readTrace_document (trace : PerfettoTrace) : readTrace (document trace) = some trace := by
  have hentries : (document trace).field? "traceEvents" =
      some (.arr (traceEvents trace)) := rfl
  have harr : Json.arr? (.arr (traceEvents trace)) = some (traceEvents trace) := rfl
  simp only [readTrace, hentries, harr, ofPhase_instants, ofPhase_samples,
    mapM_map_some readEvent_instant, mapM_map_some readGap_counter, Option.bind_eq_bind,
    Option.bind_some, Option.pure_def]

/-- **Traces are written as JSON.** Whatever the names of the events, the text is one JSON value
with white space around it: an object with the entries of the eight ports, an instant for every
event in order and, if there are gaps, the name of the counter track and a sample for every gap.
It is parsed to that value, which holds the trace. -/
theorem perfetto_json_valid (trace : PerfettoTrace) :
    Derives (.element (document trace)) (perfettoJson trace).toList ∧
    Json.parse (perfettoJson trace) = some (document trace) ∧
    traceEvents trace = ports.map portMetadata ++ trace.events.map instantJson ++
      (if trace.sequenceGaps = [] then []
        else metadataJson 2 0 "dropped_sequence_gap" :: trace.sequenceGaps.map counterJson) ∧
    ports.length = 8 ∧
    (Json.parse (perfettoJson trace)).bind readTrace = some trace := by
  have hparse := Json.parse_of_derives (derives_perfettoJson trace)
  refine ⟨derives_perfettoJson trace, hparse, rfl, rfl, ?_⟩
  rw [hparse, Option.bind_some, readTrace_document]

end Model
