import Zub1cg.Library.Tcl
import Zub1cg.Tooling.ZubCtl

/-!
# Paths in the boot script

The two layers of braces look alike, but those of the format string are gone in the script: the
paths stand there without any quoting. So they are read as they are written only if they could do
without.

## Main definitions

- `bootCommands` — the commands that the script is meant to be
- `Printable`, `Plain` — what the paths are made of, and what they must be made of

## Main results

- `passed_iff` — the paths with which the script is read as it is meant
-/

namespace ZubCtl

open Tcl (Token Mode read read_append_eq substitutes)

/-- The commands of the script and their words. -/
def bootCommands (elf bit psinit : List Char) : List (List (List Char)) :=
  [["connect".toList],
    ["puts".toList, "Connected. Available targets:".toList],
    ["targets".toList],
    ["puts".toList, "\nResetting system...".toList],
    ["targets".toList, "-set".toList, "-nocase".toList, "-filter".toList,
      "name =~ \"PSU\"".toList],
    ["rst".toList, "-system".toList],
    ["after".toList, "3000".toList],
    ["mwr".toList, "0xffca0038".toList, "0x1ff".toList],
    ["puts".toList, "Programming PL bitstream: ".toList ++ bit],
    ["fpga".toList, "-file".toList, bit],
    ["puts".toList, "Running psu_init (clocks, MIO, DDR)...".toList],
    ["targets".toList, "-set".toList, "-nocase".toList, "-filter".toList,
      "name =~ \"APU*\"".toList],
    ["source".toList, psinit],
    ["psu_init".toList],
    ["psu_ps_pl_isolation_removal".toList],
    ["psu_ps_pl_reset_config".toList],
    ["after".toList, "1000".toList],
    ["puts".toList, "Loading ELF on A53 #0: ".toList ++ elf],
    ["targets".toList, "-set".toList, "-nocase".toList, "-filter".toList,
      "name =~ \"*A53*#0\"".toList],
    ["rst".toList, "-processor".toList],
    ["dow".toList, elf],
    ["con".toList]]

/-- Every path is passed on as one unchanged argument, and which commands there are, and what they
are told but for the two messages, does not depend on the paths. -/
def Passed (elf bit psinit : List Char) : Prop :=
  read .start (buildXsctTcl elf bit psinit) = some (Tcl.tokens (bootCommands elf bit psinit))

/-- Printable characters without braces and backslashes. -/
def Printable (path : List Char) : Prop :=
  ∀ c ∈ path, (0x20 ≤ c.toNat ∧ c.toNat < 0x7f ∨ 0xa0 ≤ c.toNat) ∧ c ≠ '{' ∧ c ≠ '}' ∧ c ≠ '\\'

instance (path : List Char) : Decidable (Printable path) := List.decidableBAll _ path

/-- There is a path, without a space, a semicolon or a substitution. -/
def Plain (path : List Char) : Prop :=
  path ≠ [] ∧ ' ' ∉ path ∧ ';' ∉ path ∧ substitutes path = false

/-! ### The fixed parts -/

/-- The script up to the bitstream in the message. -/
def toBitstream : List Char :=
  ("connect\n" ++
    "puts \"Connected. Available targets:\"\n" ++
    "targets\n" ++
    "\n" ++
    "puts \"\\nResetting system...\"\n" ++
    "targets -set -nocase -filter \x7bname =~ \"PSU\"\x7d\n" ++
    "rst -system\n" ++
    "after 3000\n" ++
    "mwr 0xffca0038 0x1ff\n" ++
    "\n" ++
    "puts \"Programming PL bitstream: ").toList

/-- From there to the bitstream itself. -/
def toFpga : List Char := "\nfpga -file ".toList

def toSource : List Char :=
  ("\n" ++
    "puts \"Running psu_init (clocks, MIO, DDR)...\"\n" ++
    "targets -set -nocase -filter \x7bname =~ \"APU*\"\x7d\n" ++
    "source ").toList

def toElf : List Char :=
  ("psu_init\n" ++
    "psu_ps_pl_isolation_removal\n" ++
    "psu_ps_pl_reset_config\n" ++
    "after 1000\n" ++
    "\n" ++
    "puts \"Loading ELF on A53 #0: ").toList

def toDow : List Char :=
  ("\n" ++
    "targets -set -nocase -filter \x7bname =~ \"*A53*#0\"\x7d\n" ++
    "rst -processor\n" ++
    "dow ").toList

theorem buildXsctTcl_eq (elf bit psinit : List Char) :
    buildXsctTcl elf bit psinit =
      toBitstream ++ (bit ++ '"' :: (toFpga ++ (bit ++ '\n' :: (toSource ++
        (psinit ++ '\n' :: (toElf ++ (elf ++ '"' :: (toDow ++ (elf ++ '\n' ::
          "con\n".toList))))))))) := by
  have hfpga : ("\"\n" ++ "fpga -file ").toList = '"' :: toFpga := by
    unfold toFpga
    simp only [String.toList_append, String.reduceToList, List.cons_append, List.nil_append]
  have hsource : ("\n" ++
      "\n" ++
      "puts \"Running psu_init (clocks, MIO, DDR)...\"\n" ++
      "targets -set -nocase -filter \x7bname =~ \"APU*\"\x7d\n" ++
      "source ").toList = '\n' :: toSource := by
    unfold toSource
    simp only [String.toList_append, String.reduceToList, List.cons_append, List.nil_append]
  have helf : ("\n" ++
      "psu_init\n" ++
      "psu_ps_pl_isolation_removal\n" ++
      "psu_ps_pl_reset_config\n" ++
      "after 1000\n" ++
      "\n" ++
      "puts \"Loading ELF on A53 #0: ").toList = '\n' :: toElf := by
    unfold toElf
    simp only [String.toList_append, String.reduceToList, List.cons_append, List.nil_append]
  have hdow : ("\"\n" ++
      "targets -set -nocase -filter \x7bname =~ \"*A53*#0\"\x7d\n" ++
      "rst -processor\n" ++
      "dow ").toList = '"' :: toDow := by
    unfold toDow
    simp only [String.toList_append, String.reduceToList, List.cons_append, List.nil_append]
  have hcon : ("\n" ++ "con\n").toList = '\n' :: "con\n".toList := by
    simp only [String.toList_append, String.reduceToList, List.cons_append, List.nil_append]
  unfold buildXsctTcl toBitstream
  simp only [hfpga, hsource, helf, hdow, hcon, List.append_assoc, List.cons_append]

theorem run_toBitstream : Tcl.run .start toBitstream =
    some (Tcl.tokens [["connect".toList],
      ["puts".toList, "Connected. Available targets:".toList],
      ["targets".toList],
      ["puts".toList, "\nResetting system...".toList],
      ["targets".toList, "-set".toList, "-nocase".toList, "-filter".toList,
        "name =~ \"PSU\"".toList],
      ["rst".toList, "-system".toList],
      ["after".toList, "3000".toList],
      ["mwr".toList, "0xffca0038".toList, "0x1ff".toList]] ++ [Token.word "puts".toList],
      .text .quoted "Programming PL bitstream: ".toList) := by
  unfold toBitstream
  simp only [String.toList_append, String.reduceToList]
  decide +kernel

theorem run_toFpga : Tcl.run .closed toFpga =
    some ([.stop, Token.word "fpga".toList, Token.word "-file".toList], .between) := by
  unfold toFpga
  simp only [String.reduceToList]
  decide +kernel

theorem run_toSource : Tcl.run .start toSource =
    some (Tcl.tokens [["puts".toList, "Running psu_init (clocks, MIO, DDR)...".toList],
      ["targets".toList, "-set".toList, "-nocase".toList, "-filter".toList,
        "name =~ \"APU*\"".toList]] ++ [Token.word "source".toList], .between) := by
  unfold toSource
  simp only [String.toList_append, String.reduceToList]
  decide +kernel

theorem run_toElf : Tcl.run .start toElf =
    some (Tcl.tokens [["psu_init".toList],
      ["psu_ps_pl_isolation_removal".toList],
      ["psu_ps_pl_reset_config".toList],
      ["after".toList, "1000".toList]] ++ [Token.word "puts".toList],
      .text .quoted "Loading ELF on A53 #0: ".toList) := by
  unfold toElf
  simp only [String.toList_append, String.reduceToList]
  decide +kernel

theorem run_toDow : Tcl.run .closed toDow =
    some (.stop :: Tcl.tokens [["targets".toList, "-set".toList, "-nocase".toList,
        "-filter".toList, "name =~ \"*A53*#0\"".toList],
      ["rst".toList, "-processor".toList]] ++ [Token.word "dow".toList], .between) := by
  unfold toDow
  simp only [String.toList_append, String.reduceToList]
  decide +kernel

theorem read_con : read .start "con\n".toList = some (Tcl.tokens [["con".toList]]) := by
  simp only [String.reduceToList]
  decide +kernel

/-! ### The paths -/

/-- A path in a message and the fixed part behind it. -/
theorem read_message_iff {path : List Char} (h : Printable path) {part : List Char}
    {now : List Token} {m : Mode} (hpart : Tcl.run .closed part = some (now, m))
    (before rest : List Char) (later : List Token) :
    read (.text .quoted before) (path ++ '"' :: (part ++ rest)) =
        some (.word (before ++ path) :: (now ++ later)) ↔
      (substitutes path = false ∧ '"' ∉ path) ∧ read m rest = some later := by
  have hescape : '\\' ∉ path := fun hmem => (h _ hmem).2.2.2 rfl
  have hquote : (∀ c ∈ path, Tcl.ends .quoted c = false) ↔ '"' ∉ path := by
    simp only [Tcl.ends, beq_eq_false_iff_ne]
    exact ⟨fun hall hmem => hall _ hmem rfl, fun hnone c hc heq => hnone (heq ▸ hc)⟩
  have hclose : Tcl.close .quoted '"' = ([], .closed) := rfl
  have hnil : (fun ts : List Token => [] ++ ts) = id := rfl
  rw [Tcl.read_text_iff rfl hescape, hquote, hclose, hnil, Option.map_id, id,
    read_append_eq hpart]

/-- A path at the end of a line. -/
theorem read_argument_iff {path : List Char} (h : Printable path) (rest : List Char)
    (later : List Token) :
    read .between (path ++ '\n' :: rest) = some (.word path :: .stop :: later) ↔
      (Plain path ∧ path.head? ≠ some '"') ∧ read .start rest = some later := by
  have hescape : '\\' ∉ path := fun hmem => (h _ hmem).2.2.2 rfl
  have hbrace : '{' ∉ path := fun hmem => (h _ hmem).2.1 rfl
  have hline : '\n' ∉ path := fun hmem => absurd (h _ hmem).1 (by decide)
  have hends : (∀ c ∈ path, Tcl.ends .bare c = false) ↔ ' ' ∉ path ∧ ';' ∉ path := by
    constructor
    · intro hall
      exact ⟨fun hmem => absurd (hall _ hmem) (by decide),
        fun hmem => absurd (hall _ hmem) (by decide)⟩
    · rintro ⟨hspace, hstop⟩ c hc
      have hprint := (h c hc).1
      simp only [Tcl.ends, Tcl.isSpace, Tcl.isStop, Bool.or_eq_false_iff, beq_eq_false_iff_ne]
      refine ⟨⟨⟨⟨⟨?_, ?_⟩, ?_⟩, ?_⟩, ?_⟩, ?_, ?_⟩
      · exact fun heq => hspace (heq ▸ hc)
      all_goals rintro rfl
      · exact absurd hprint (by decide)
      · exact absurd hprint (by decide)
      · exact absurd hprint (by decide)
      · exact absurd hprint (by decide)
      · exact absurd hprint (by decide)
      · exact hstop hc
  rw [Tcl.read_between_iff hescape hbrace hline, hends, Plain]
  tauto

/-- The script, part by part. -/
theorem passed_iff_parts {elf bit psinit : List Char} (helf : Printable elf)
    (hbit : Printable bit) (hpsinit : Printable psinit) :
    Passed elf bit psinit ↔
      (substitutes bit = false ∧ '"' ∉ bit) ∧ (Plain bit ∧ bit.head? ≠ some '"') ∧
      (Plain psinit ∧ psinit.head? ≠ some '"') ∧
      (substitutes elf = false ∧ '"' ∉ elf) ∧ (Plain elf ∧ elf.head? ≠ some '"') ∧
        read .start "con\n".toList = some (Tcl.tokens [["con".toList]]) := by
  have htokens : Tcl.tokens (bootCommands elf bit psinit) =
      (Tcl.tokens [["connect".toList],
        ["puts".toList, "Connected. Available targets:".toList],
        ["targets".toList],
        ["puts".toList, "\nResetting system...".toList],
        ["targets".toList, "-set".toList, "-nocase".toList, "-filter".toList,
          "name =~ \"PSU\"".toList],
        ["rst".toList, "-system".toList],
        ["after".toList, "3000".toList],
        ["mwr".toList, "0xffca0038".toList, "0x1ff".toList]] ++ [Token.word "puts".toList]) ++
      (.word ("Programming PL bitstream: ".toList ++ bit) ::
        ([.stop, Token.word "fpga".toList, Token.word "-file".toList] ++
      (.word bit :: .stop ::
        ((Tcl.tokens [["puts".toList, "Running psu_init (clocks, MIO, DDR)...".toList],
          ["targets".toList, "-set".toList, "-nocase".toList, "-filter".toList,
            "name =~ \"APU*\"".toList]] ++ [Token.word "source".toList]) ++
      (.word psinit :: .stop ::
        ((Tcl.tokens [["psu_init".toList],
          ["psu_ps_pl_isolation_removal".toList],
          ["psu_ps_pl_reset_config".toList],
          ["after".toList, "1000".toList]] ++ [Token.word "puts".toList]) ++
      (.word ("Loading ELF on A53 #0: ".toList ++ elf) ::
        ((.stop :: Tcl.tokens [["targets".toList, "-set".toList, "-nocase".toList,
            "-filter".toList, "name =~ \"*A53*#0\"".toList],
          ["rst".toList, "-processor".toList]] ++ [Token.word "dow".toList]) ++
      (.word elf :: .stop :: Tcl.tokens [["con".toList]]))))))))) := rfl
  rw [Passed, htokens, buildXsctTcl_eq, read_append_eq run_toBitstream,
    read_message_iff hbit run_toFpga, read_argument_iff hbit, read_append_eq run_toSource,
    read_argument_iff hpsinit, read_append_eq run_toElf, read_message_iff helf run_toDow,
    read_argument_iff helf]

/-- **When the script is read as it is meant**: with paths that could be written in a script
without any quoting, and those in the messages also between quotes. -/
theorem passed_iff {elf bit psinit : List Char} (helf : Printable elf) (hbit : Printable bit)
    (hpsinit : Printable psinit) :
    Passed elf bit psinit ↔
      Plain elf ∧ Plain bit ∧ Plain psinit ∧
        '"' ∉ elf ∧ '"' ∉ bit ∧ psinit.head? ≠ some '"' := by
  rw [passed_iff_parts helf hbit hpsinit]
  constructor
  · rintro ⟨⟨-, hbit'⟩, ⟨hbit, -⟩, ⟨hpsinit, hhead⟩, ⟨-, helf'⟩, ⟨helf, -⟩, -⟩
    exact ⟨helf, hbit, hpsinit, helf', hbit', hhead⟩
  · rintro ⟨helf, hbit, hpsinit, helf', hbit', hhead⟩
    have hfirst {path : List Char} (hnone : '"' ∉ path) : path.head? ≠ some '"' :=
      fun h => hnone (List.mem_of_head? h)
    exact ⟨⟨hbit.2.2.2, hbit'⟩, ⟨hbit, hfirst hbit'⟩, ⟨hpsinit, hhead⟩, ⟨helf.2.2.2, helf'⟩,
      ⟨helf, hfirst helf'⟩, read_con⟩

/-- Three plain paths. -/
theorem passed_iff_plain : Passed ['a', '.', 'e', 'l', 'f'] ['b', '.', 'b', 'i', 't'] ['p'] := by
  have helf : Printable ['a', '.', 'e', 'l', 'f'] := by decide
  have hbit : Printable ['b', '.', 'b', 'i', 't'] := by decide
  have hpsinit : Printable ['p'] := by decide
  have hiff := passed_iff helf hbit hpsinit
  rw [hiff]
  unfold Plain
  decide

/-- A space in the path of the bitstream. -/
theorem not_passed_space :
    ¬ ∀ elf bit psinit : List Char, Printable elf → Printable bit → Printable psinit →
      Passed elf bit psinit := by
  intro h
  have hname : Printable ['a'] := by decide
  have hspace : Printable ['a', ' ', 'b'] := by decide
  have hparts := (passed_iff_parts hname hspace hname).mp (h _ _ _ hname hspace hname)
  exact hparts.2.1.1.2.1 (by decide)

end ZubCtl
