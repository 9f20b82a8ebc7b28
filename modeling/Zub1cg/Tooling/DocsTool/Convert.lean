import Mathlib.Data.Char
import Mathlib.Data.List.Dedup
import Mathlib.Data.List.Lex
import Mathlib.Data.List.Sort
import Zub1cg.Library.FileTree
import Zub1cg.Tooling.DocsTool

/-!
# The conversion of a directory (`internal/docs_tool/src/lib.rs`)

Every PDF under the source directory gets a directory of its own under the output directory, and the
manifest lists what there is. Without `clean`, a document that the manifest lists with the same
hash is left as it is.

A path is the list of its components, and a component is a byte string.

## Main definitions

- `Path`, `toStringLossy`, `extension`, `withoutExtension` — paths
- `ensureAsciiJson`, `Manifest` — the manifest
- `Tools` — what the tool takes from elsewhere
- `writeDocument`, `convert` — the conversion
-/

namespace DocsTool

open Checked FileTree

/-! ### Paths -/

/-- A component of a path; the order is that of the bytes. -/
abbrev Name := List ℕ

abbrev Path := List Name

def name (s : String) : Name := (Utf8.encode s.toList).map UInt8.toNat

/-- `to_string_lossy` of bytes -/
def lossy (bytes : Name) : Text := Utf8.fromUtf8Lossy (bytes.map UInt8.ofNat)

/-- The bytes of a relative path -/
def Path.bytes (path : Path) : Name := (path.intersperse [0x2F]).flatten

/-- `to_string_lossy`, and what is displayed -/
def Path.toStringLossy (path : Path) : Text := lossy path.bytes

/-- A name up to its last dot, and what is behind it, if that is not the first byte -/
def splitDot (n : Name) : Name × Option Name :=
  let behind := n.rtakeWhile (· != 0x2E)
  let before := n.rdropWhile (· != 0x2E)
  if before.length ≤ 1 ∨ n = [0x2E, 0x2E] then (n, none) else (before.dropLast, some behind)

def fileName (path : Path) : Name := path.getLast?.getD []

def fileStem (path : Path) : Name := (splitDot (fileName path)).1

def extension (path : Path) : Option Name := path.getLast?.bind fun n => (splitDot n).2

/-- `with_extension("")` -/
def withoutExtension (path : Path) : Path := path.dropLast ++ [fileStem path]

/-- `to_string_lossy().replace('\\', "/")` -/
def slashes (path : Path) : Text := replace '\\' ['/'] path.toStringLossy

/-! ### The manifest -/

structure ManifestTable where
  category : Text
  page : UInt64
  context : Text
  file : Text
  ordinal : UInt64
  deriving DecidableEq, Repr

structure DocumentManifest where
  sourcePdf : Text
  output : Text
  sha256 : Text
  pages : UInt64
  textCharacters : UInt64
  tables : List ManifestTable
  warning : Option Text
  deriving DecidableEq, Repr

structure Manifest where
  format : UInt8
  source : Text
  documents : List DocumentManifest
  deriving DecidableEq, Repr

/-- `{n:04x}`, for a number of 16 bits -/
def hex4 (n : ℕ) : Text :=
  [n / 0x1000 % 16, n / 0x100 % 16, n / 0x10 % 16, n % 16].map Nat.digitChar

/-- What a character becomes -/
def escapeNonAscii (c : Char) : Text :=
  if c.toNat ≤ 0x7F then [c]
  else if c.toNat ≤ 0xFFFF then '\\' :: 'u' :: hex4 c.toNat
  else
    let scalar := c.toNat - 0x10000
    '\\' :: 'u' :: hex4 (0xD800 + scalar / 0x400) ++
      '\\' :: 'u' :: hex4 (0xDC00 + scalar % 0x400)

def ensureAsciiJson (json : Text) : Text := json.flatMap escapeNonAscii

/-! ### One document -/

/-- What the tool takes from elsewhere: regular expressions, `pdftotext`, SHA-256 as hexadecimal
digits, and the reading and writing of manifests -/
structure Tools where
  patterns : Patterns
  pdftotext : List UInt8 → Text
  sha256 : List UInt8 → Text
  toStringPretty : Manifest → Except String Text
  fromStr : Text → Option Manifest

/-- What can be done with the files below the output directory -/
abbrev Run (α : Type) := Action Name Text α

def writeFile (path : Path) (text : Text) : Run Unit := do
  createDirAll path.dropLast
  let old ← read path
  if old = some text then
    pure ()
  else
    write path text

/-- The pages of a text, without an empty one at the end -/
def pagesOf (text : Text) : List (List Text) :=
  let pages := (splitOn '\x0c' text).map lines
  match pages.getLast? with
  | some page => if page.all fun line => (trim line).isEmpty then pages.dropLast else pages
  | none => pages

/-- The tables of all pages -/
def tablesOf (patterns : Patterns) (pages : List (List Text)) : Result (List Table) :=
  (pages.zipIdx 1).foldlM (fun tables (lines, page) => do
    return tables ++ (← extractTables patterns lines page)) []

/-- A category as a title; its letters are those of ASCII. -/
def categoryTitle (category : Text) : Text :=
  let words := (splitOn ' ' (replace '-' [' '] category)).filter (· ≠ [])
  join [' '] (words.map fun word =>
    match word with
    | [] => []
    | first :: rest => first.toUpper :: rest)

/-- The lines for one table of a category -/
def tableMarkdown (ordinal : ℕ) (table : Table) : Result (List Text) := do
  let text ← markdownTable table.rows
  return ["## Table ".toList ++ number ordinal ++ " — source page ".toList ++ number table.page, [],
    "Context: ".toList ++ table.title, [], text, []]

/-- The categories that there are, in their order -/
def categoriesOf (tables : List Table) : List Text :=
  (tables.map (·.category)).dedup.insertionSort (· ≤ ·)

/-- The file of a category; what is left are the lines of the index and the manifest. -/
def writeCategory (docRoot : Path) (tables : List Table)
    (acc : List Text × List ManifestTable) (category : Text) :
    Run (List Text × List ManifestTable) := do
  let target := docRoot ++ [name "tables", (Utf8.encode (category ++ ".md".toList)).map UInt8.toNat]
  let entries := tables.filter (·.category = category)
  let output ← lift ((entries.zipIdx 1).foldlM (fun output (table, ordinal) => do
    return output ++ (← tableMarkdown ordinal table)) ["# ".toList ++ categoryTitle category, []])
  let manifestTables := (entries.zipIdx 1).map fun (table, ordinal) =>
    ({ category := category, page := UInt64.ofNat table.page, context := table.title,
       file := slashes target, ordinal := UInt64.ofNat ordinal } : ManifestTable)
  writeFile target (trimEnd (join ['\n'] output) ++ ['\n'])
  let line := "- [".toList ++ replace '-' [' '] category ++ "](tables/".toList ++ category ++
    ".md): ".toList ++ number entries.length ++ " table(s)".toList
  return (acc.1 ++ [line], acc.2 ++ manifestTables)

def writeDocument (tools : Tools) (pdf : Path) (bytes : List UInt8) (sha256 : Text) :
    Run DocumentManifest := do
  let docRoot := withoutExtension pdf
  let text := tools.pdftotext bytes
  let pages := pagesOf text
  let tables ← lift (tablesOf tools.patterns pages)
  writeFile (docRoot ++ [name "document.md"])
    (documentMarkdown tools.patterns pdf.toStringLossy (lossy (fileStem pdf)) pages tables)
  let (index, manifestTables) ← (categoriesOf tables).foldlM (writeCategory docRoot tables)
    (["# Tables: ".toList ++ lossy (fileName pdf), [],
      ("Tables are grouped by inferred subject. Confirm critical values against the source " ++
        "PDF.").toList, []], [])
  writeFile (docRoot ++ [name "tables", name "index.md"]) (join ['\n'] index ++ ['\n'])
  return { sourcePdf := slashes pdf
           output := slashes docRoot
           sha256 := sha256
           pages := UInt64.ofNat pages.length
           textCharacters := UInt64.ofNat (trim text).length
           tables := manifestTables
           warning := if (trim text).isEmpty then
             some "No text layer found; OCR the PDF and rerun.".toList else none }

/-! ### All documents -/

/-- A source directory: how it is written, and its files in the order in which they are found -/
structure Source where
  path : Text
  files : List (Path × List UInt8)
  nodup : (files.map Prod.fst).Nodup

/-- The PDFs, those with an extension in lower case first, and sorted -/
def Source.pdfs (source : Source) : List Path :=
  let paths := source.files.map Prod.fst
  ((paths.filter fun path => extension path = some (name "pdf")).insertionSort (· ≤ ·)) ++
    ((paths.filter fun path => extension path = some (name "PDF")).insertionSort (· ≤ ·))

/-- `fs::read` -/
def Source.bytes (source : Source) (path : Path) : Option (List UInt8) :=
  source.files.lookup path

/-- The documents of the manifest that is there, by their source; of several with the same source
the last one counts. -/
def cachedDocuments (tools : Tools) : Run (List DocumentManifest) := do
  let json ← read [name "manifest.json"]
  match json.bind tools.fromStr with
  | some manifest => return manifest.documents
  | none => return []

def cachedEntry (cached : List DocumentManifest) (sourcePdf : Text) : Option DocumentManifest :=
  cached.reverse.find? (·.sourcePdf = sourcePdf)

/-- One turn of the loop over the PDFs. -/
def convertPdf (tools : Tools) (source : Source) (cached : List DocumentManifest)
    (documents : List DocumentManifest) (pdf : Path) : Run (List DocumentManifest) := do
  let bytes ← lift (okOr (source.bytes pdf) "No such file or directory (os error 2)")
  let sha256 := tools.sha256 bytes
  match (cachedEntry cached (slashes pdf)).filter (·.sha256 = sha256) with
  | some entry => return documents ++ [entry]
  | none => return documents ++ [← writeDocument tools pdf bytes sha256]

def readme : Text :=
  ["# Generated PDF documentation\n\n", "Each directory contains extracted source text ",
    "(`document.md`) and categorized ", "structured tables (`tables/`). ",
    "`manifest.json` lets agents locate ", "a table by source document, page, category, ",
    "and table file. Rebuild with ", "`bazel run //internal/docs_tool:", "pdf_to_markdown -- --clean`.\n"]
    |>.flatMap String.toList

/-- `convert` from the loop over the PDFs on -/
def convertAll (tools : Tools) (source : Source) (cached : List DocumentManifest) : Run ℕ := do
  lift (ensure (source.pdfs ≠ []) ("no PDFs found under " ++ String.ofList source.path))
  let documents ← source.pdfs.foldlM (convertPdf tools source cached) []
  createDirAll []
  let manifest := Manifest.mk 1 (replace '\\' ['/'] source.path) documents
  let json ← lift (match tools.toStringPretty manifest with
    | .ok json => .ok json
    | .error text => fail text)
  writeFile [name "manifest.json"] (ensureAsciiJson json ++ ['\n'])
  writeFile [name "README.md"] readme
  return source.pdfs.length

/-- `convert`, of a source directory that is there; the output directory is the root of the tree. -/
def convert (tools : Tools) (source : Source) (clean : Bool) : Run ℕ :=
  if clean then do
    removeAll
    convertAll tools source []
  else do
    let cached ← cachedDocuments tools
    convertAll tools source cached

end DocsTool
