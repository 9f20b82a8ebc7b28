import Zub1cg.Tooling.DocsTool.Ascii

/-!
# Manifests as texts

A manifest stands for a JSON object with a member for every field. Who writes manifests writes texts
that stand for them, and who reads them reads every such text; one way of doing both is given here.

## Main definitions

- `Manifest.toJson` — what a manifest stands for
- `Tools.Lawful` — what the tool relies on in reading and writing manifests
- `Manifest.text`, `readManifest` — writing and reading

## Main results

- `Tools.Lawful.fromStr_eq` — what was written is read back
- `derives_manifest`, `readManifest_eq` — a way of writing and reading is lawful
-/

namespace DocsTool

open Checked

/-! ### Manifests as JSON -/

def numJson (n : ℕ) : Json := .num (Nat.toDigits 10 n)

def textJson (text : Text) : Json := .str (String.ofList text)

def ManifestTable.toJson (t : ManifestTable) : Json :=
  .obj [("category", textJson t.category), ("page", numJson t.page.toNat),
    ("context", textJson t.context), ("file", textJson t.file),
    ("ordinal", numJson t.ordinal.toNat)]

def DocumentManifest.toJson (d : DocumentManifest) : Json :=
  .obj [("source_pdf", textJson d.sourcePdf), ("output", textJson d.output),
    ("sha256", textJson d.sha256), ("pages", numJson d.pages.toNat),
    ("text_characters", numJson d.textCharacters.toNat),
    ("tables", .arr (d.tables.map ManifestTable.toJson)),
    ("warning", match d.warning with | some text => textJson text | none => .null)]

def Manifest.toJson (m : Manifest) : Json :=
  .obj [("format", numJson m.format.toNat), ("source", textJson m.source),
    ("documents", .arr (m.documents.map DocumentManifest.toJson))]

/-- What is written stands for the manifest, and every text that stands for it is read as it. -/
structure Tools.Lawful (tools : Tools) : Prop where
  writes : ∀ m json, tools.toStringPretty m = .ok json → Json.Derives (.element m.toJson) json
  reads : ∀ m text, Json.Derives (.element m.toJson) text → tools.fromStr text = some m

/-- What was written is read back. -/
theorem Tools.Lawful.fromStr_eq {tools : Tools} (h : tools.Lawful) {m : Manifest} {json : Text}
    (hjson : tools.toStringPretty m = .ok json) :
    tools.fromStr (ensureAsciiJson json ++ ['\n']) = some m := by
  refine h.reads m _ ?_
  have hderives := derives_ensureAsciiJson (h.writes m json hjson)
  generalize ensureAsciiJson json = text at hderives
  cases hderives with
  | element ha hvalue hb =>
    rw [List.append_assoc]
    refine .element ha hvalue fun c hc => ?_
    obtain hc | hc := List.mem_append.1 hc
    · exact hb c hc
    · exact Json.blank_newline c hc

/-! ### Writing -/

open Json (Chars CharText Derives)

/-- A text with escapes for what cannot stand for itself -/
def jsonChars (text : Text) : Text :=
  text.flatMap fun c => if Json.isPlain c then [c] else '\\' :: 'u' :: hex4 c.toNat

theorem chars_jsonChars (text : Text) : Chars (jsonChars text) text := by
  induction text with
  | nil => exact .nil
  | cons c text ih =>
    rw [jsonChars, List.flatMap_cons]
    refine .cons ?_ ih
    split
    · next hplain => exact .plain hplain
    · next hplain =>
      have hsmall : c.toNat < 0x80 := by
        by_contra hlarge
        refine hplain ?_
        have hquote : c ≠ '"' := by
          rintro rfl
          exact hlarge (by decide)
        have hbackslash : c ≠ '\\' := by
          rintro rfl
          exact hlarge (by decide)
        simp only [Json.isPlain, Bool.and_eq_true, decide_eq_true_eq, bne_iff_ne]
        exact ⟨⟨by omega, hquote⟩, hbackslash⟩
      obtain ⟨a, b, c', d, htext, hvalue⟩ := hex4_hex4 (n := c.toNat) (by omega)
      have hchar := CharText.unicode hvalue (by simp [Json.isHighSurrogate]; omega)
        (by simp [Json.isLowSurrogate]; omega)
      rw [Char.ofNat_toNat] at hchar
      rwa [htext]

def arrayText : List Text → Text
  | [] => ['[', ']']
  | text :: texts => '[' :: (Json.lines (text :: texts) ++ [']'])

def ManifestTable.text (t : ManifestTable) : Text :=
  Json.braces [Json.field "category" (Json.quoted (jsonChars t.category)),
    Json.field "page" (Nat.toDigits 10 t.page.toNat),
    Json.field "context" (Json.quoted (jsonChars t.context)),
    Json.field "file" (Json.quoted (jsonChars t.file)),
    Json.field "ordinal" (Nat.toDigits 10 t.ordinal.toNat)]

def DocumentManifest.text (d : DocumentManifest) : Text :=
  Json.braces [Json.field "source_pdf" (Json.quoted (jsonChars d.sourcePdf)),
    Json.field "output" (Json.quoted (jsonChars d.output)),
    Json.field "sha256" (Json.quoted (jsonChars d.sha256)),
    Json.field "pages" (Nat.toDigits 10 d.pages.toNat),
    Json.field "text_characters" (Nat.toDigits 10 d.textCharacters.toNat),
    Json.field "tables" (arrayText (d.tables.map ManifestTable.text)),
    Json.field "warning" (match d.warning with
      | some text => Json.quoted (jsonChars text)
      | none => ['n', 'u', 'l', 'l'])]

def Manifest.text (m : Manifest) : Text :=
  Json.braces [Json.field "format" (Nat.toDigits 10 m.format.toNat),
    Json.field "source" (Json.quoted (jsonChars m.source)),
    Json.field "documents" (arrayText (m.documents.map DocumentManifest.text))]

theorem derives_text (text : Text) :
    Derives (.value (textJson text)) (Json.quoted (jsonChars text)) :=
  .str (chars_jsonChars text)

theorem derives_num (n : ℕ) : Derives (.value (numJson n)) (Nat.toDigits 10 n) := Json.derives_nat n

theorem derives_array {α : Type} {toJson : α → Json} {text : α → Text}
    (h : ∀ a, Derives (.value (toJson a)) (text a)) (l : List α) :
    Derives (.value (.arr (l.map toJson))) (arrayText (l.map text)) := by
  cases l with
  | nil => exact .emptyArr Json.blank_nil
  | cons a l =>
    have hall : List.Forall₂ (fun j cs => Derives (.value j) cs) ((a :: l).map toJson)
        ((a :: l).map text) := by
      rw [List.forall₂_map_left_iff, List.forall₂_map_right_iff]
      exact List.forall₂_same.2 fun a _ => h a
    exact .arr (Json.derives_lines hall (List.cons_ne_nil _ _))

theorem derives_table (t : ManifestTable) : Derives (.value t.toJson) t.text :=
  Json.derives_braces (.cons (Json.derives_field (by decide) (derives_text _))
    (.cons (Json.derives_field (by decide) (derives_num _))
    (.cons (Json.derives_field (by decide) (derives_text _))
    (.cons (Json.derives_field (by decide) (derives_text _))
    (.cons (Json.derives_field (by decide) (derives_num _)) .nil))))) (List.cons_ne_nil _ _)

theorem derives_document (d : DocumentManifest) : Derives (.value d.toJson) d.text := by
  refine Json.derives_braces (.cons (Json.derives_field (by decide) (derives_text _))
    (.cons (Json.derives_field (by decide) (derives_text _))
    (.cons (Json.derives_field (by decide) (derives_text _))
    (.cons (Json.derives_field (by decide) (derives_num _))
    (.cons (Json.derives_field (by decide) (derives_num _))
    (.cons (Json.derives_field (by decide) (derives_array derives_table _))
    (.cons (Json.derives_field (by decide) ?_) .nil))))))) (List.cons_ne_nil _ _)
  cases d.warning with
  | some text => exact derives_text text
  | none => exact .null

/-- What is written stands for the manifest. -/
theorem derives_manifest (m : Manifest) : Derives (.element m.toJson) m.text := by
  have hvalue : Derives (.value m.toJson) m.text :=
    Json.derives_braces (.cons (Json.derives_field (by decide) (derives_num _))
      (.cons (Json.derives_field (by decide) (derives_text _))
      (.cons (Json.derives_field (by decide) (derives_array derives_document _)) .nil)))
      (List.cons_ne_nil _ _)
  simpa using Derives.element Json.blank_nil hvalue Json.blank_nil

/-! ### Reading -/

def readText (key : String) (j : Json) : Option Text :=
  ((j.field? key).bind Json.str?).map String.toList

def readNum (key : String) (j : Json) : Option ℕ := (j.field? key).bind Json.nat?

def readArray {α : Type} (key : String) (read : Json → Option α) (j : Json) : Option (List α) :=
  ((j.field? key).bind Json.arr?).bind fun js => js.mapM read

def readTable (j : Json) : Option ManifestTable := do
  return { category := ← readText "category" j, page := UInt64.ofNat (← readNum "page" j)
           context := ← readText "context" j, file := ← readText "file" j
           ordinal := UInt64.ofNat (← readNum "ordinal" j) }

def readDocument (j : Json) : Option DocumentManifest := do
  let warning ← match j.field? "warning" with
    | some .null => some none
    | some (.str text) => some (some text.toList)
    | _ => none
  return { sourcePdf := ← readText "source_pdf" j, output := ← readText "output" j
           sha256 := ← readText "sha256" j, pages := UInt64.ofNat (← readNum "pages" j)
           textCharacters := UInt64.ofNat (← readNum "text_characters" j)
           tables := ← readArray "tables" readTable j, warning := warning }

def readManifest (j : Json) : Option Manifest := do
  return ⟨UInt8.ofNat (← readNum "format" j), ← readText "source" j,
    ← readArray "documents" readDocument j⟩

theorem mapM_read {α : Type} {toJson : α → Json} {read : Json → Option α}
    (h : ∀ a, read (toJson a) = some a) (l : List α) : (l.map toJson).mapM read = some l := by
  induction l with
  | nil => rfl
  | cons a l ih =>
    rw [List.map_cons, List.mapM_cons, h, Option.bind_eq_bind, Option.bind_some, ih]
    rfl

theorem readText_of {key : String} {j : Json} {text : Text}
    (h : j.field? key = some (textJson text)) : readText key j = some text := by
  rw [readText, h]
  simp [textJson, Json.str?]

theorem readNum_of {key : String} {j : Json} {n : ℕ} (h : j.field? key = some (numJson n)) :
    readNum key j = some n := by
  rw [readNum, h]
  exact Json.nat?_toDigits n

theorem readArray_of {α : Type} {key : String} {toJson : α → Json} {read : Json → Option α}
    {j : Json} {l : List α} (h : j.field? key = some (.arr (l.map toJson)))
    (hread : ∀ a, read (toJson a) = some a) : readArray key read j = some l := by
  rw [readArray, h]
  exact mapM_read hread l

theorem readTable_eq (t : ManifestTable) : readTable t.toJson = some t := by
  have hcategory : readText "category" t.toJson = some t.category := readText_of rfl
  have hpage : readNum "page" t.toJson = some t.page.toNat := readNum_of rfl
  have hcontext : readText "context" t.toJson = some t.context := readText_of rfl
  have hfile : readText "file" t.toJson = some t.file := readText_of rfl
  have hordinal : readNum "ordinal" t.toJson = some t.ordinal.toNat := readNum_of rfl
  rw [readTable, hcategory, hpage, hcontext, hfile, hordinal]
  simp

theorem readDocument_eq (d : DocumentManifest) : readDocument d.toJson = some d := by
  have hpdf : readText "source_pdf" d.toJson = some d.sourcePdf := readText_of rfl
  have houtput : readText "output" d.toJson = some d.output := readText_of rfl
  have hsha : readText "sha256" d.toJson = some d.sha256 := readText_of rfl
  have hpages : readNum "pages" d.toJson = some d.pages.toNat := readNum_of rfl
  have hcharacters : readNum "text_characters" d.toJson = some d.textCharacters.toNat :=
    readNum_of rfl
  have htables : readArray "tables" readTable d.toJson = some d.tables :=
    readArray_of rfl readTable_eq
  have hwarning : d.toJson.field? "warning" =
      some (match d.warning with | some text => textJson text | none => .null) := rfl
  rw [readDocument, hpdf, houtput, hsha, hpages, hcharacters, htables, hwarning]
  obtain ⟨_, _, _, _, _, _, warning⟩ := d
  cases warning <;> simp [textJson]

/-- What stands for a manifest is read as it. -/
theorem readManifest_eq (m : Manifest) : readManifest m.toJson = some m := by
  have hformat : readNum "format" m.toJson = some m.format.toNat := readNum_of rfl
  have hsource : readText "source" m.toJson = some m.source := readText_of rfl
  have hdocuments : readArray "documents" readDocument m.toJson = some m.documents :=
    readArray_of rfl readDocument_eq
  rw [readManifest, hformat, hsource, hdocuments]
  simp

/-- A tool that writes and reads manifests in this way is lawful. -/
theorem lawful_of_eq {tools : Tools} (hwrites : ∀ m, tools.toStringPretty m = .ok m.text)
    (hreads : ∀ text, tools.fromStr text = (Json.parse (String.ofList text)).bind readManifest) :
    tools.Lawful where
  writes m json h := by
    rw [hwrites, Except.ok.injEq] at h
    exact h ▸ derives_manifest m
  reads m text h := by
    rw [hreads, Json.parse_of_derives (by rwa [String.toList_ofList]), Option.bind_some,
      readManifest_eq]

end DocsTool
