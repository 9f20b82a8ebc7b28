import Zub1cg.Tooling.ElfCheck

/-!
# The parser on hostile files

Offsets, sizes and counts are whatever the file says. Every sum without a check lies inside a range
that was read before, every symbol that is read takes at least 16 bytes of the file, and an answer
is given only if everything that was read is there.

## Main definitions

- `Used` — the parts of the file that an answer rests on
- `sectionTurns` — how often the loop over the symbols of a section turns
- `Total` — what is required of the parser

## Main results

- `safe_parse` — there is no panic, and what is used is there
- `sectionTurns_le` — a section takes no more turns than the file has room for
- `total` — both together
-/

namespace ElfCheck

open Checked

/-! ### Reading -/

section

variable {bytes : List UInt8} {offset length width size d : ℕ}

theorem byteRange_eq (hlen : bytes.length < 2 ^ 63) (h : offset + length ≤ bytes.length) :
    byteRange bytes offset length = .ok (slice bytes offset (offset + length)) := by
  have hstop : saturatingAdd offset length = offset + length := min_eq_left (by omega)
  rw [byteRange, hstop, if_pos ⟨Nat.le_add_right _ _, h⟩]

theorem safe_byteRange (hlen : bytes.length < 2 ^ 63) :
    Safe (byteRange bytes offset length) fun value =>
      offset + length ≤ bytes.length ∧ value = slice bytes offset (offset + length) := by
  by_cases h : offset + length ≤ bytes.length
  · rw [byteRange_eq hlen h]
    exact ⟨h, rfl⟩
  · have hstop : ¬ saturatingAdd offset length ≤ bytes.length := by
      rw [saturatingAdd, min_le_iff]
      omega
    rw [byteRange, if_neg fun h => hstop h.2]
    trivial

theorem length_slice (h : offset + length ≤ bytes.length) :
    (slice bytes offset (offset + length)).length = length := by
  simp only [slice, List.length_drop, List.length_take]
  omega

theorem leAt_eq (hlen : bytes.length < 2 ^ 63) (h : offset + width ≤ bytes.length) :
    leAt width bytes offset =
      .ok (LittleEndian.toNat (slice bytes offset (offset + width))) := by
  have hslice := @length_slice bytes offset width h
  rw [leAt, byteRange_eq hlen h, ok_bind, mapM_index hslice.ge, ok_bind,
    List.take_of_length_le hslice.le]
  rfl

theorem safe_leAt (hlen : bytes.length < 2 ^ 63) :
    Safe (leAt width bytes offset) fun value =>
      offset + width ≤ bytes.length ∧ value < 256 ^ width := by
  refine (safe_byteRange hlen).bind fun value ⟨h, hvalue⟩ => ?_
  have hslice := @length_slice bytes offset width h
  rw [hvalue, mapM_index hslice.ge, List.take_of_length_le hslice.le]
  exact ⟨h, by simpa only [hslice] using LittleEndian.toNat_lt (slice bytes offset (offset + width))⟩

/-- A field of a header that is there. -/
theorem safe_wordAt (hlen : bytes.length < 2 ^ 63) (h : offset ≤ bytes.length) {cls : Class}
    {d32 d64 : ℕ} (h32 : d32 < 2 ^ 16) (h64 : d64 < 2 ^ 16) :
    Safe (wordAt bytes cls offset d32 d64) fun value => value < 2 ^ 64 := by
  cases cls
  · refine (safe_add (by omega)).bind fun _ _ => (safe_leAt hlen).mono fun value hvalue => ?_
    exact Nat.lt_trans hvalue.2 (by decide)
  · exact (safe_add (by omega)).bind fun _ _ => (safe_leAt hlen).mono fun _ hvalue => hvalue.2

end

/-! ### What is used -/

/-- The header of a file up to the last field that is read. -/
def headerFieldsSize : Class → ℕ
  | .elf32 => 50
  | .elf64 => 62

/-- The parts of the file that are used, as offset and length, where `headerSize` bytes are the
header. -/
inductive Used (headerSize : ℕ) (bytes : List UInt8) (cls : Class) : ℕ → ℕ → Prop
  | header : Used headerSize bytes cls 0 headerSize
  | programHeader {headers : ProgramHeaders} {i : ℕ} (h : programHeaders bytes cls = .ok headers)
      (hi : i < headers.count) :
      Used headerSize bytes cls (headers.offset + i * headers.size) headers.size
  | sectionHeader {headers : SectionHeaders} {i : ℕ} (h : sectionHeaders bytes cls = .ok headers)
      (hi : i < headers.count) :
      Used headerSize bytes cls (headers.offset + i * headers.size) headers.size
  | stringHeader {headers : SectionHeaders} {i : ℕ} {table : SymbolTable}
      (h : sectionHeaders bytes cls = .ok headers) (hi : i < headers.count)
      (ht : symbolTable bytes cls headers i = .ok (some table)) :
      Used headerSize bytes cls table.stringHeader headers.size
  | strings {headers : SectionHeaders} {i : ℕ} {table : SymbolTable}
      (h : sectionHeaders bytes cls = .ok headers) (hi : i < headers.count)
      (ht : symbolTable bytes cls headers i = .ok (some table)) :
      Used headerSize bytes cls table.stringsOffset table.stringsSize
  | symbol {headers : SectionHeaders} {i : ℕ} {table : SymbolTable} {turns k : ℕ}
      (h : sectionHeaders bytes cls = .ok headers) (hi : i < headers.count)
      (ht : symbolTable bytes cls headers i = .ok (some table))
      (hturns : stepBy table.offset (saturatingAdd table.offset table.size) table.entrySize =
        .ok turns) (hk : k < turns) :
      Used headerSize bytes cls (table.offset + k * table.entrySize) table.entrySize

/-- How often the loop over the symbols of section `i` turns. -/
def sectionTurns (bytes : List UInt8) (cls : Class) (headers : SectionHeaders)
    (symbols : List Symbol) (i : ℕ) : ℕ :=
  match symbolTable bytes cls headers i with
  | .ok (some table) => (tableSymbols bytes cls symbols table).2
  | _ => 0

/-- The parser does not panic, it takes at most one turn for every 16 bytes of the file and one
more in a section, and if it returns an image, what it used is in the file. -/
def Total (headerSize : Class → ℕ) (input : Input) : Prop :=
  parse input ≠ .error .panic ∧
    (∀ cls headers symbols i,
      sectionTurns input.bytes cls headers symbols i ≤ input.bytes.length / 16 + 1) ∧
    ∀ elf, parse input = .ok elf → ∀ offset length,
      Used (headerSize elf.cls) input.bytes elf.cls offset length →
        offset + length ≤ input.bytes.length

/-! ### Program headers -/

section

variable {bytes : List UInt8} {cls : Class}

theorem safe_programHeaders (hlen : bytes.length < 2 ^ 63) :
    Safe (programHeaders bytes cls) fun headers =>
      headers.size < 2 ^ 16 ∧ headers.count < 2 ^ 16 ∧ headers.flagsOffset < 2 ^ 16 := by
  cases cls
  all_goals
    refine (safe_leAt hlen).bind fun _ _ => (safe_leAt hlen).bind fun _ _ =>
      (safe_leAt hlen).bind fun _ hsize => (safe_leAt hlen).bind fun _ hcount => ?_
    exact ⟨hsize.2, hcount.2, by dsimp only; omega⟩

theorem safe_loadSegment (hlen : bytes.length < 2 ^ 63) {offset flagsOffset : ℕ}
    (h : offset ≤ bytes.length) (hflags : flagsOffset < 2 ^ 16) :
    Safe (loadSegment bytes cls flagsOffset offset) fun _ => True := by
  refine (safe_add (by omega)).bind fun _ _ => (safe_leAt hlen).bind fun _ _ => ?_
  refine (safe_wordAt hlen h (by decide) (by decide)).bind fun _ _ => ?_
  refine (safe_wordAt hlen h (by decide) (by decide)).bind fun _ _ => ?_
  exact (safe_wordAt hlen h (by decide) (by decide)).bind fun _ _ => trivial

/-- A turn of the loop over the program headers finds its header in the file. -/
theorem safe_programHeader (hlen : bytes.length < 2 ^ 63) {headers : ProgramHeaders}
    (hsize : headers.size < 2 ^ 16) (hflags : headers.flagsOffset < 2 ^ 16)
    {i : ℕ} (hi : i < 2 ^ 16) (segments : List LoadSegment) :
    Safe (programHeader bytes cls headers segments i) fun _ =>
      headers.offset + i * headers.size + headers.size ≤ bytes.length := by
  have hmul : i * headers.size < 2 ^ 32 := by
    calc i * headers.size ≤ i * 2 ^ 16 := Nat.mul_le_mul_left i hsize.le
      _ < 2 ^ 16 * 2 ^ 16 := Nat.mul_lt_mul_of_pos_right hi (by decide)
      _ = 2 ^ 32 := by decide
  rw [programHeader, mul_eq (Nat.lt_trans hmul (by decide)), ok_bind]
  refine safe_checkedAdd.bind fun offset hoffset => safe_toUsize.bind fun _ heq => ?_
  subst heq hoffset
  refine (safe_byteRange hlen).bind fun _ ⟨hinside, _⟩ => (safe_leAt hlen).bind fun _ _ => ?_
  split
  · refine (safe_loadSegment hlen (by omega) hflags).bind fun _ _ => ?_
    exact hinside
  · exact hinside

end

/-! ### Symbols -/

/-- What a symbol table that was found says about the file. -/
structure SymbolTable.Sound (table : SymbolTable) (bytes : List UInt8) (cls : Class)
    (headers : SectionHeaders) : Prop where
  minimum_le : minimumSymbolSize cls ≤ table.entrySize
  stringHeader_le : table.stringHeader + headers.size ≤ bytes.length
  strings_le : table.stringsOffset + table.stringsSize ≤ bytes.length
  length_le : table.strings.length ≤ bytes.length

/-- All that is used of section `i` is in the file. -/
def SectionInside (bytes : List UInt8) (cls : Class) (headers : SectionHeaders) (i : ℕ) : Prop :=
  headers.offset + i * headers.size + headers.size ≤ bytes.length ∧
    ∀ t, symbolTable bytes cls headers i = .ok (some t) → t.Sound bytes cls headers ∧
      ∀ turns, stepBy t.offset (saturatingAdd t.offset t.size) t.entrySize = .ok turns →
        ∀ k < turns, t.offset + k * t.entrySize + t.entrySize ≤ bytes.length

section

variable {bytes : List UInt8} {cls : Class}

theorem safe_sectionHeaders (hlen : bytes.length < 2 ^ 63) :
    Safe (sectionHeaders bytes cls) fun _ => headerFieldsSize cls ≤ bytes.length := by
  cases cls
  all_goals
    refine (safe_leAt hlen).bind fun _ _ => (safe_leAt hlen).bind fun _ _ =>
      (safe_leAt hlen).bind fun _ hcount => ?_
    exact hcount.1

theorem safe_sectionFields (hlen : bytes.length < 2 ^ 63) {offset : ℕ}
    (h : offset ≤ bytes.length) : Safe (sectionFields bytes cls offset) fun _ => True := by
  refine (safe_wordAt hlen h (by decide) (by decide)).bind fun _ _ => ?_
  refine (safe_wordAt hlen h (by decide) (by decide)).bind fun _ _ => ?_
  have hlink : linkDistance cls < 2 ^ 16 := by cases cls <;> decide
  refine (safe_add (by omega)).bind fun _ _ => (safe_leAt hlen).bind fun _ _ => ?_
  exact (safe_wordAt hlen h (by decide) (by decide)).bind fun _ _ => trivial

theorem safe_stringFields (hlen : bytes.length < 2 ^ 63) {offset : ℕ}
    (h : offset ≤ bytes.length) : Safe (stringFields bytes cls offset) fun _ => True := by
  refine (safe_wordAt hlen h (by decide) (by decide)).bind fun _ _ => ?_
  exact (safe_wordAt hlen h (by decide) (by decide)).bind fun _ _ => trivial

theorem safe_sectionOffset {headers : SectionHeaders} {i : ℕ} {text : String} :
    Safe (sectionOffset headers i text) fun offset =>
      offset = headers.offset + i * headers.size :=
  safe_checkedMul.bind fun _ hmul => hmul ▸ safe_checkedAdd

/-- A turn of the loop over the sections finds the header in the file, and a symbol table with its
strings. -/
theorem safe_symbolTable (hlen : bytes.length < 2 ^ 63) {headers : SectionHeaders} {i : ℕ} :
    Safe (symbolTable bytes cls headers i) fun table =>
      headers.offset + i * headers.size + headers.size ≤ bytes.length ∧
        ∀ t, table = some t → t.Sound bytes cls headers := by
  refine safe_sectionOffset.bind fun offset hoffset => ?_
  subst hoffset
  refine (safe_byteRange hlen).bind fun _ ⟨hinside, _⟩ => ?_
  refine (safe_add (by omega)).bind fun _ _ => (safe_leAt hlen).bind fun _ _ => ?_
  split
  · exact ⟨hinside, nofun⟩
  · refine (safe_sectionFields hlen (by omega)).bind fun ⟨tableOffset, size, link, entry⟩ _ => ?_
    refine safe_toUsize.bind fun entrySize _ => (safe_ensure _ _).bind fun _ hmin => ?_
    refine safe_sectionOffset.bind fun stringHeader _ => ?_
    refine (safe_byteRange hlen).bind fun _ ⟨hheader, _⟩ => ?_
    refine (safe_stringFields hlen (by omega)).bind fun ⟨stringsOffset, stringsSize⟩ _ => ?_
    refine safe_toUsize.bind fun _ _ => safe_toUsize.bind fun _ _ => ?_
    refine safe_toUsize.bind fun _ _ => safe_toUsize.bind fun _ _ => ?_
    refine (safe_byteRange hlen).bind fun strings ⟨hstrings, hvalue⟩ => ?_
    have hentry : 0 < entrySize := by
      cases cls <;> exact Nat.lt_of_lt_of_le (by decide) hmin
    rw [rem_eq hentry, ok_bind]
    refine (safe_ensure _ _).bind fun _ _ => ⟨hinside, ?_⟩
    rintro t ⟨rfl⟩
    refine ⟨hmin, hheader, hstrings, ?_⟩
    rw [hvalue, length_slice hstrings]
    omega

theorem safe_symbolFields {symbol : List UInt8} (hlen : symbol.length < 2 ^ 63) :
    Safe (symbolFields symbol cls) fun _ => True := by
  cases cls
  all_goals exact (safe_leAt hlen).bind fun _ _ => (safe_leAt hlen).bind fun _ _ => trivial

/-- A name begins and ends inside the strings. -/
theorem safe_symbolName {strings : List UInt8} (hlen : strings.length < 2 ^ 63) {nameOffset : ℕ}
    (h : nameOffset < strings.length) : Safe (symbolName strings nameOffset) fun _ => True := by
  rw [symbolName, sliceFrom_eq h.le, ok_bind]
  cases hfind : (strings.drop nameOffset).findIdx? (· == 0) with
  | none =>
    change Safe (sliceOf strings nameOffset strings.length) _
    rw [sliceOf_eq h.le le_rfl]
    trivial
  | some n =>
    obtain ⟨hn, -⟩ := List.findIdx?_eq_some_iff_getElem.1 hfind
    rw [List.length_drop] at hn
    dsimp only
    rw [add_eq (by omega), ok_bind, sliceOf_eq (by omega) (by omega)]
    trivial

/-- A symbol that is read is in the file. -/
theorem safe_readSymbol (hlen : bytes.length < 2 ^ 63) {table : SymbolTable}
    {headers : SectionHeaders} (ht : table.Sound bytes cls headers) (symbols : List Symbol)
    (offset : ℕ) :
    Safe (readSymbol bytes cls table symbols offset) fun _ =>
      offset + table.entrySize ≤ bytes.length := by
  refine (safe_byteRange hlen).bind fun symbol ⟨hinside, hvalue⟩ => ?_
  have hsymbol : symbol.length < 2 ^ 63 := by
    rw [hvalue, length_slice hinside]
    omega
  refine (safe_leAt hsymbol).bind fun nameOffset _ => ?_
  refine (safe_symbolFields hsymbol).bind fun ⟨value, sectionIndex⟩ _ => ?_
  dsimp only
  split
  · exact hinside
  · next hused =>
    have hname : nameOffset < table.strings.length := by omega
    have hstrings : table.strings.length < 2 ^ 63 := Nat.lt_of_le_of_lt ht.length_le hlen
    refine (safe_symbolName hstrings hname).bind fun name _ => ?_
    cases Utf8.fromUtf8 name <;> exact hinside

/-- The loop over the symbols finds every symbol in the file, -/
theorem safe_readSymbols (hlen : bytes.length < 2 ^ 63) {table : SymbolTable}
    {headers : SectionHeaders} (ht : table.Sound bytes cls headers) (left offset : ℕ)
    (symbols : List Symbol) :
    Safe (readSymbols bytes cls table left offset symbols).1 fun _ =>
      ∀ k < left, offset + k * table.entrySize + table.entrySize ≤ bytes.length := by
  induction left generalizing offset symbols with
  | zero => exact fun k hk => absurd hk (Nat.not_lt_zero k)
  | succ left ih =>
    have hsafe := safe_readSymbol hlen ht symbols offset
    rw [readSymbols]
    cases hread : readSymbol bytes cls table symbols offset with
    | error e =>
      rw [hread] at hsafe
      cases e with
      | err => trivial
      | panic => exact hsafe
    | ok symbols' =>
      rw [hread] at hsafe
      refine (ih (offset + table.entrySize) symbols').mono fun _ hrest k hk => ?_
      cases k with
      | zero => simpa using hsafe
      | succ k =>
        have hk := hrest k (by omega)
        rw [Nat.add_mul, Nat.one_mul]
        omega

/-- and it ends with the first one that is not there. -/
theorem readSymbols_turns (hlen : bytes.length < 2 ^ 63) {table : SymbolTable}
    {headers : SectionHeaders} (ht : table.Sound bytes cls headers) (left offset : ℕ)
    (symbols : List Symbol) :
    (readSymbols bytes cls table left offset symbols).2 * table.entrySize ≤
      bytes.length - offset + table.entrySize := by
  induction left generalizing offset symbols with
  | zero => simp [readSymbols]
  | succ left ih =>
    have hsafe := safe_readSymbol hlen ht symbols offset
    rw [readSymbols]
    cases hread : readSymbol bytes cls table symbols offset with
    | error e => simp
    | ok symbols' =>
      have hinside := hsafe.of_ok hread
      have hle := ih (offset + table.entrySize) symbols'
      dsimp only
      rw [Nat.add_mul, Nat.one_mul]
      omega

theorem minimumSymbolSize_le : 16 ≤ minimumSymbolSize cls := by cases cls <;> decide

/-- A turn of the loop over the sections finds all that it uses in the file. -/
theorem safe_readSection (hlen : bytes.length < 2 ^ 63) {headers : SectionHeaders}
    (symbols : List Symbol) (i : ℕ) :
    Safe (readSection bytes cls headers symbols i) fun _ => SectionInside bytes cls headers i := by
  refine (safe_symbolTable hlen).and_eq.bind fun table ⟨⟨hinside, hsound⟩, htable⟩ => ?_
  cases table with
  | none =>
    refine ⟨hinside, fun t ht => ?_⟩
    rw [htable] at ht
    cases ht
  | some t =>
    have ht := hsound t rfl
    have hentry : 0 < t.entrySize :=
      Nat.lt_of_lt_of_le (by decide) (minimumSymbolSize_le.trans ht.minimum_le)
    dsimp only
    rw [tableSymbols, stepBy, if_neg (Nat.ne_of_gt hentry)]
    refine (safe_readSymbols hlen ht _ _ _).mono fun _ hsymbols => ⟨hinside, fun t' ht' => ?_⟩
    cases htable.symm.trans ht'
    refine ⟨ht, fun turns hturns => ?_⟩
    rw [stepBy, if_neg (Nat.ne_of_gt hentry)] at hturns
    cases hturns
    exact hsymbols

/-- **The loop over the symbols of a section** takes no more turns than the file has room for. -/
theorem sectionTurns_le (hlen : bytes.length < 2 ^ 63) (headers : SectionHeaders)
    (symbols : List Symbol) (i : ℕ) :
    sectionTurns bytes cls headers symbols i ≤ bytes.length / 16 + 1 := by
  unfold sectionTurns
  split
  · next table htable =>
    have ht := ((safe_symbolTable hlen).of_ok htable).2 table rfl
    have hentry : 16 ≤ table.entrySize := minimumSymbolSize_le.trans ht.minimum_le
    rw [tableSymbols, stepBy, if_neg (by omega)]
    dsimp only
    have hturns := readSymbols_turns hlen ht
      ((saturatingAdd table.offset table.size - table.offset + table.entrySize - 1) /
        table.entrySize) table.offset symbols
    generalize (readSymbols bytes cls table _ table.offset symbols).2 = turns at hturns ⊢
    cases turns with
    | zero => exact Nat.zero_le _
    | succ turns =>
      refine Nat.succ_le_succ ((Nat.le_div_iff_mul_le (by decide)).2 ?_)
      calc turns * 16 ≤ turns * table.entrySize := Nat.mul_le_mul_left turns hentry
        _ ≤ bytes.length := by
          rw [Nat.add_mul, Nat.one_mul] at hturns
          omega
  · exact Nat.zero_le _

/-- The symbols are returned only if all that was used for them is in the file. -/
theorem safe_parseSymbols (hlen : bytes.length < 2 ^ 63) :
    Safe (parseSymbols bytes cls) fun _ => headerFieldsSize cls ≤ bytes.length ∧
      ∃ headers, sectionHeaders bytes cls = .ok headers ∧
        ∀ i < headers.count, SectionInside bytes cls headers i := by
  refine (safe_sectionHeaders hlen).and_eq.bind fun headers ⟨hfields, hheaders⟩ => ?_
  split
  · next hcount =>
    exact ⟨hfields, headers, hheaders, fun i hi => absurd hi (by omega)⟩
  · refine (safe_ensure _ _).bind fun _ _ => safe_toUsize.bind fun offset hoffset => ?_
    subst hoffset
    refine (Safe.foldlM (fun done _ => ∀ i ∈ done, SectionInside bytes cls headers i) ?_
      nofun).mono fun _ hall =>
        ⟨hfields, headers, hheaders, fun i hi => hall i (List.mem_range.2 hi)⟩
    intro done i rest _ symbols hdone
    refine (safe_readSection hlen symbols i).mono fun _ hi j hj => ?_
    obtain hj | rfl := List.mem_append.1 hj |>.imp_right List.mem_singleton.1
    · exact hdone j hj
    · exact hi

end

/-! ### The file -/

theorem safe_parseClass (ident : UInt8) : Safe (parseClass ident) fun _ => True := by
  unfold parseClass
  split_ifs <;> trivial

/-- **The parser on any file**: there is no panic, and what an image rests on is in the file. -/
theorem safe_parse (input : Input) :
    Safe (parse input) fun elf => ∀ offset length,
      Used (headerFieldsSize elf.cls) input.bytes elf.cls offset length →
        offset + length ≤ input.bytes.length := by
  have hlen := input.length_lt
  refine (safe_byteRange hlen).bind fun ident ⟨hident, hvalue⟩ => ?_
  have hlength : ident.length = 16 := hvalue ▸ length_slice hident
  rw [sliceOf_eq (Nat.zero_le 4) (by omega), ok_bind]
  refine (safe_ensure _ _).bind fun _ _ => ?_
  rw [index_eq (by omega), ok_bind]
  refine (safe_ensure _ _).bind fun _ _ => ?_
  rw [index_eq (by omega), ok_bind]
  refine (safe_parseClass _).bind fun cls _ => (safe_leAt hlen).bind fun machine _ => ?_
  refine (safe_programHeaders hlen).and_eq.bind fun headers ⟨⟨hsize, hcount, hflags⟩, hheaders⟩ => ?_
  refine (safe_ensure _ _).bind fun _ _ => ?_
  refine (Safe.foldlM (fun done _ => ∀ i ∈ done,
      headers.offset + i * headers.size + headers.size ≤ input.bytes.length) ?_ nofun).bind
    fun segments hsegments => (safe_parseSymbols hlen).bind fun symbols hsymbols => ?_
  · intro done i rest hrange segments hdone
    have hi : i < headers.count := List.mem_range.1 (hrange ▸ by simp)
    refine (safe_programHeader hlen hsize hflags (by omega) segments).mono fun _ hinside j hj => ?_
    obtain hj | rfl := List.mem_append.1 hj |>.imp_right List.mem_singleton.1
    · exact hdone j hj
    · exact hinside
  · -- each kind of place was inside when it was read
    obtain ⟨hfields, sections, hsections, hinside⟩ := hsymbols
    intro offset length hused
    cases hused with
    | header => simpa using hfields
    | programHeader h hi =>
      cases hheaders.symm.trans h
      exact hsegments _ (List.mem_range.2 hi)
    | sectionHeader h hi =>
      cases hsections.symm.trans h
      exact (hinside _ hi).1
    | stringHeader h hi ht =>
      cases hsections.symm.trans h
      exact ((hinside _ hi).2 _ ht).1.stringHeader_le
    | strings h hi ht =>
      cases hsections.symm.trans h
      exact ((hinside _ hi).2 _ ht).1.strings_le
    | symbol h hi ht hturns hk =>
      cases hsections.symm.trans h
      exact ((hinside _ hi).2 _ ht).2 _ hturns _ hk

/-- The header as the format has it -/
def fileHeaderSize : Class → ℕ
  | .elf32 => 52
  | .elf64 => 64

/-- Of the last field of the header nothing is read. -/
def cut : Input where
  bytes := ELF_MAGIC ++ [ELFCLASS32, ELFDATA2LSB] ++ List.replicate 36 0 ++ [32] ++
    List.replicate 7 0
  length_lt := by decide

theorem not_total_cut : ¬ Total fileHeaderSize cut := by
  have hparse : parse cut = .ok ⟨.elf32, 0, 0, [], []⟩ := by decide +kernel
  intro h
  exact absurd (h.2.2 _ hparse _ _ .header) (by decide)

/-- **The parser is total**: it answers every file, without a panic and without reading on, and an
image rests on what is in the file. -/
theorem total (input : Input) : Total headerFieldsSize input :=
  ⟨(safe_parse input).ne_panic, fun _ headers symbols i =>
    sectionTurns_le input.length_lt headers symbols i, fun _ helf => (safe_parse input).of_ok helf⟩

end ElfCheck
