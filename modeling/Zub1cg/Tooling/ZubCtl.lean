import Mathlib.Data.List.DropRight
import Zub1cg.Library.Utf8

/-!
# The serial watch and the boot script (`tooling/zub_ctl/src/lib.rs`)

What the board says on the serial line is put together to lines, and the lines are matched
against patterns. Another function writes the script that boots the board. A string is the list
of its characters.

## Main definitions

- `pushBytesToLines`, `feed` — lines from what is read
- `matchLine`, `watch` — the verdict on the lines
- `buildXsctTcl` — the boot script
-/

namespace ZubCtl

/-! ### Lines -/

/-- `trim_end_matches(['\r', '\n'])` -/
def trimEnd (raw : List Char) : List Char := raw.rdropWhile fun c => c == '\r' || c == '\n'

/-- The loop that drains every complete line; what is left is the buffer afterwards. -/
def drainLines (buf : List Char) : List (List Char) × List Char :=
  if h : buf.idxOf '\n' < buf.length then
    let line := trimEnd (buf.take (buf.idxOf '\n' + 1))
    let rest := drainLines (buf.drop (buf.idxOf '\n' + 1))
    (if line = [] then rest.1 else line :: rest.1, rest.2)
  else ([], buf)
termination_by buf.length
decreasing_by
  rw [List.length_drop]
  omega

/-- `push_bytes_to_lines`: the lines, and the buffer afterwards. -/
def pushBytesToLines (buf : List Char) (bytes : List UInt8) : List (List Char) × List Char :=
  drainLines (buf ++ Utf8.fromUtf8Lossy bytes)

/-- One chunk after the other: all the lines, and the buffer at the end. -/
def feed : List Char → List (List UInt8) → List (List Char) × List Char
  | buf, [] => ([], buf)
  | buf, bytes :: chunks =>
    let pushed := pushBytesToLines buf bytes
    let rest := feed pushed.2 chunks
    (pushed.1 ++ rest.1, rest.2)

/-! ### Patterns -/

/-- A compiled regular expression: its text, and the lines that it matches. -/
structure Regex where
  asStr : List Char
  isMatch : List Char → Bool

inductive LineResult where
  | FailOnHit (pattern : List Char)
  | AllMatched
  | Continue
  deriving DecidableEq, Repr

/-- `match_line`: the result, and the patterns that remain. -/
def matchLine (line : List Char) (remaining failOn : List Regex) : LineResult × List Regex :=
  match failOn.find? fun pat => pat.isMatch line with
  | some pat => (.FailOnHit pat.asStr, remaining)
  | none =>
    match remaining with
    | [] => (.Continue, [])
    | pat :: rest =>
      if pat.isMatch line then
        if rest.isEmpty then (.AllMatched, rest) else (.Continue, rest)
      else (.Continue, pat :: rest)

/-- The loop over the lines, which stops at the first result that is not `Continue`. The first line
has the number `index`. -/
def watch (failOn : List Regex) : (index : ℕ) → (remaining : List Regex) →
    List (List Char) → Option (ℕ × LineResult)
  | _, _, [] => none
  | index, remaining, line :: lines =>
    match matchLine line remaining failOn with
    | (.Continue, remaining) => watch failOn (index + 1) remaining lines
    | (result, _) => some (index, result)

/-! ### The boot script -/

/-- `build_xsct_tcl` -/
def buildXsctTcl (elf bit psinit : List Char) : List Char :=
  ("connect\n" ++
    "puts \"Connected. Available targets:\"\n" ++
    "targets\n" ++
    "\n" ++
    "puts \"\\nResetting system...\"\n" ++
    "targets -set -nocase -filter \x7bname =~ \"PSU\"\x7d\n" ++
    "rst -system\n" ++
    "after 3000\n" ++
    "mwr 0xffca0038 0x1ff\n" ++
    "\n" ++
    "puts \"Programming PL bitstream: ").toList ++ bit ++ ("\"\n" ++
    "fpga -file ").toList ++ bit ++ ("\n" ++
    "\n" ++
    "puts \"Running psu_init (clocks, MIO, DDR)...\"\n" ++
    "targets -set -nocase -filter \x7bname =~ \"APU*\"\x7d\n" ++
    "source ").toList ++ psinit ++ ("\n" ++
    "psu_init\n" ++
    "psu_ps_pl_isolation_removal\n" ++
    "psu_ps_pl_reset_config\n" ++
    "after 1000\n" ++
    "\n" ++
    "puts \"Loading ELF on A53 #0: ").toList ++ elf ++ ("\"\n" ++
    "targets -set -nocase -filter \x7bname =~ \"*A53*#0\"\x7d\n" ++
    "rst -processor\n" ++
    "dow ").toList ++ elf ++ ("\n" ++
    "con\n").toList

end ZubCtl
