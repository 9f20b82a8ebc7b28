import Mathlib.Data.List.DropRight
import Zub1cg.Library.Scan
import Zub1cg.Library.Utf8

/-!
# The text of documents (`internal/docs_tool/src/lib.rs`)

Rows of text that look like rows of a table are collected to tables, given a title and a category,
brought to one width and written as Markdown. The regular expressions and the tables of lower-case
letters are not part of the tool.

## Main definitions

- `Patterns` — the regular expressions, and lower case
- `normalizeRows`, `extractTables` — tables in the lines of a page
- `markdownTable`, `documentMarkdown` — what is written
-/

namespace DocsTool

open Checked
open Scan (isWhitespace)

abbrev Text := List Char

abbrev Row := List Text

/-! ### Strings -/

def trimEnd (text : Text) : Text := text.rdropWhile isWhitespace

def trim (text : Text) : Text := trimEnd (text.dropWhile isWhitespace)

/-- `len()` -/
def byteLen (text : Text) : ℕ := (Utf8.encode text).length

/-- `join` -/
def join (separator : Text) (parts : List Text) : Text := (parts.intersperse separator).flatten

/-- `replace` of a character -/
def replace (c : Char) (by_ : Text) (text : Text) : Text :=
  text.flatMap fun d => if d = c then by_ else [d]

/-- `contains` -/
def contains (text word : Text) : Bool := decide (word <:+: text)

/-- `split(c)` -/
def splitOn (c : Char) (text : Text) : List Text := text.splitOn c

def stripReturn (line : Text) : Text :=
  if line.getLast? = some '\r' then line.dropLast else line

/-- `lines()`: a carriage return in front of the end of a line is part of the end. -/
def lines (text : Text) : List Text :=
  (text.splitOn '\n').dropLast.map stripReturn ++
    match (text.splitOn '\n').getLast? with
    | some (c :: line) => [c :: line]
    | _ => []

/-! ### Tables -/

/-- What the tool takes from elsewhere: what the regular expressions split and match, and
`to_lowercase` -/
structure Patterns where
  multiSpace : Text → List Text
  pageNumber : Text → Bool
  heading : Text → Bool
  compactCell : Text → Bool
  digits : Text → Bool
  designator : Text → Bool
  toLowercase : Text → Text

structure Table where
  page : ℕ
  title : Text
  category : Text
  rows : List Row
  deriving DecidableEq, Repr

variable (patterns : Patterns)

def splitColumns (line : Text) : Row :=
  ((patterns.multiSpace (trim line)).filter fun part => !(trim part).isEmpty).map trim

def isTableRow (line : Text) : Bool :=
  2 ≤ (splitColumns patterns line).length && 5 ≤ byteLen (trim line) &&
    (splitColumns patterns line).any patterns.compactCell

def closestTitle (lines : List Text) (start : ℕ) : Result Text := do
  let above ← sliceOf lines (start - 12) start
  let title := (above.reverse.map trim).find? fun candidate =>
    !(candidate.isEmpty || patterns.pageNumber candidate) &&
      (patterns.heading candidate || byteLen candidate < 100)
  return title.getD "Untitled table".toList

/-- The categories, with the words that stand for them -/
def categoryWords : List (String × List String) :=
  [("bill-of-materials", ["bill of materials", "designator", "manufacturer", "mpn"]),
    ("registers", ["register", "bit field", "offset", "bit(s)"]),
    ("pinout-and-io", ["pin", "connector", "mio", "bank", "i/o", "io standard"]),
    ("memory-map", ["memory map", "address map", "base address", "address range"]),
    ("electrical-and-timing",
      ["voltage", "current", "power", "timing", "temperature", "parameter"]),
    ("configuration", ["boot", "switch", "jumper", "configuration", "mode setting"]),
    ("revision-history", ["revision", "version", "document control", "change history"])]

def classifyTable (title : Text) (rows : List Row) : Text :=
  let text := (rows.take 3).foldl
    (fun text row => text ++ ' ' :: patterns.toLowercase (join [' '] row))
    (patterns.toLowercase title)
  match categoryWords.find? fun category => category.2.any fun word => contains text word.toList with
  | some category => category.1.toList
  | none => "general".toList

/-! ### The width of a table -/

/-- How many rows there are of each length from 3 on, in the order in which the lengths appear -/
def countLengths (rows : List Row) : List (ℕ × ℕ) :=
  rows.foldl (fun counts row =>
    if 3 ≤ row.length then
      if counts.any (·.1 == row.length) then
        counts.map fun (length, count) =>
          if length = row.length then (length, count + 1) else (length, count)
      else counts ++ [(row.length, 1)]
    else counts) []

/-- The most frequent length, the first one of several; or the largest one if all are small. -/
def tableWidth (rows : List Row) : ℕ :=
  let best := (countLengths rows).foldl
    (fun best (length, count) => if best.2 < count then (length, count) else best) (0, 0)
  if best.1 = 0 then (rows.map List.length).foldl max 0 else best.1

/-- A row that lacks the third cell of a bill of materials gets an empty one. -/
def insertMissing (width : ℕ) (row : Row) : Result Row := do
  if row.length = width - 1 ∧ 2 ≤ row.length then
    if patterns.digits (← index row 0) && patterns.digits (← index row 1) then
      return row.take 2 ++ [] :: row.drop 2
    else
      return row
  else
    return row

/-- `a - b` that must not underflow -/
def sub (a b : ℕ) : Result ℕ := if b ≤ a then .ok (a - b) else panicked

/-- The row is added to a cell of the last one. -/
def continueRow (width : ℕ) (normalized : List Row) (row : Row) : Result (List Row) := do
  let target ←
    if row.length = 1 ∧ 3 ≤ width then do
      if patterns.designator (← index row 0) then pure 2 else sub width 1
    else sub width 1
  let last ← match normalized.getLast? with
    | some last => pure last
    | none => panicked
  let cell ← index last target
  return normalized.dropLast ++ [last.set target (cell ++ ' ' :: join [' '] row)]

/-- One turn of the loop over the rows. -/
def normalizeRow (width : ℕ) (normalized : List Row) (row : Row) : Result (List Row) := do
  let row ← insertMissing patterns width row
  if row.length < width ∧ normalized ≠ [] then
    continueRow patterns width normalized row
  else
    let row ← if width < row.length then do
        let head ← sub width 1
        pure (row.take head ++ [join [' '] (row.drop head)])
      else pure row
    return normalized ++ [row.take width ++ List.replicate (width - row.length) []]

def normalizeRows (rows : List Row) : Result (List Row) :=
  rows.foldlM (normalizeRow patterns (tableWidth rows)) []

/-! ### The tables of a page -/

/-- The inner loop: the rows of a table, and the line behind them. Another line is taken if a row
follows soon. -/
def collectRows (lines : List Text) (i : ℕ) (rows : List Row) : Result (List Row × ℕ) :=
  if h : i < lines.length then
    if isTableRow patterns lines[i] then
      collectRows lines (i + 1) (rows ++ [splitColumns patterns lines[i]])
    else if rows = [] then .ok (rows, i)
    else
      match sliceOf lines (i + 1) (min (i + 5) lines.length) with
      | .error e => .error e
      | .ok below =>
        if below.any (isTableRow patterns) then
          collectRows lines (i + 1)
            (if (trim lines[i]).isEmpty then rows else rows ++ [splitColumns patterns lines[i]])
        else .ok (rows, i)
  else .ok (rows, i)
termination_by lines.length - i

theorem le_collectRows {lines : List Text} {i next : ℕ} {rows rows' : List Row}
    (h : collectRows patterns lines i rows = .ok (rows', next)) : i ≤ next := by
  induction i, rows using collectRows.induct patterns lines with
  | case1 i rows hi hrow ih =>
    rw [collectRows, dif_pos hi, if_pos hrow] at h
    exact Nat.le_of_succ_le (ih h)
  | case2 i hi hrow =>
    rw [collectRows, dif_pos hi, if_neg hrow, if_pos rfl] at h
    cases h
    exact le_rfl
  | case3 i rows hi hrow hrows e hslice =>
    rw [collectRows, dif_pos hi, if_neg hrow, if_neg hrows, hslice] at h
    cases h
  | case4 i rows hi hrow hrows below hslice hbelow ih =>
    rw [collectRows, dif_pos hi, if_neg hrow, if_neg hrows, hslice] at h
    dsimp only at h
    rw [if_pos hbelow] at h
    exact Nat.le_of_succ_le (ih h)
  | case5 i rows hi hrow hrows below hslice hbelow =>
    rw [collectRows, dif_pos hi, if_neg hrow, if_neg hrows, hslice] at h
    dsimp only at h
    rw [if_neg hbelow] at h
    cases h
    exact le_rfl
  | case6 i rows hi =>
    rw [collectRows, dif_neg hi] at h
    cases h
    exact le_rfl

theorem lt_collectRows {lines : List Text} {i next : ℕ} {rows : List Row} (hi : i < lines.length)
    (hrow : isTableRow patterns lines[i] = true)
    (h : collectRows patterns lines i [] = .ok (rows, next)) : i < next := by
  rw [collectRows, dif_pos hi, if_pos hrow] at h
  exact le_collectRows patterns h

def tableOf (lines : List Text) (page start : ℕ) (rows : List Row) : Result Table := do
  let rows ← normalizeRows patterns rows
  let title ← closestTitle patterns lines start
  return ⟨page, title, classifyTable patterns title rows, rows⟩

/-- The outer loop, from a line on -/
def extractFrom (lines : List Text) (page i : ℕ) : Result (List Table) :=
  if hi : i < lines.length then
    if hrow : isTableRow patterns lines[i] then
      match hrows : collectRows patterns lines i [] with
      | .error e => .error e
      | .ok (rows, next) =>
        have hnext := lt_collectRows patterns hi hrow hrows
        if 2 ≤ rows.length then
          match tableOf patterns lines page i rows with
          | .error e => .error e
          | .ok table => (extractFrom lines page next).map (table :: ·)
        else extractFrom lines page (max next (i + 1))
    else extractFrom lines page (i + 1)
  else .ok []
termination_by lines.length - i

def extractTables (lines : List Text) (page : ℕ) : Result (List Table) :=
  extractFrom patterns lines page 0

/-! ### Markdown -/

def markdownCell (value : Text) : Text :=
  trim (replace '\n' [' '] (replace '|' ['\\', '|'] value))

def markdownLine (row : Row) : Text :=
  "| ".toList ++ join " | ".toList (row.map markdownCell) ++ " |".toList

def markdownTable (rows : List Row) : Result Text := do
  let head ← index rows 0
  let rest ← sliceFrom rows 1
  return join ['\n'] ([markdownLine head,
    "| ".toList ++ join " | ".toList (head.map fun _ => "---".toList) ++ " |".toList] ++
    rest.map markdownLine)

def number (n : ℕ) : Text := (toString n).toList

/-- The lines for one page -/
def pageMarkdown (tables : List Table) (page : ℕ) (lines : List Text) : List Text :=
  let content := lines.filter fun line => !(trim line).isEmpty && !patterns.pageNumber line
  let count := tables.countP (·.page == page)
  if content = [] then []
  else
    [[], "## Source page ".toList ++ number page, [], join ['\n'] (content.map trimEnd)] ++
      if count = 0 then []
      else [[], "_Structured tables extracted from this page: ".toList ++ number count ++
        ". See `tables/index.md`._".toList]

/-- The document, of a source that is displayed as `source` and has the file stem `stem` -/
def documentMarkdown (source stem : Text) (pages : List (List Text)) (tables : List Table) : Text :=
  let chunks := ["---".toList, "source_pdf: ".toList ++ source,
    "conversion: pdftotext -layout".toList, "table_index: tables/index.md".toList, "---".toList, [],
    "# ".toList ++ stem, [],
    ("This is extracted text. Use the table index for structured table data; page numbers refer " ++
      "to the source PDF.").toList] ++
    (pages.zipIdx 1).flatMap fun (lines, page) => pageMarkdown patterns tables page lines
  trimEnd (join ['\n'] chunks) ++ ['\n']

end DocsTool
