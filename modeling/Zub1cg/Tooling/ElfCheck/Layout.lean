import Zub1cg.Library.ByteRecord
import Zub1cg.Tooling.ElfCheck.Safety

/-!
# The two classes of files

An image is what a file says, without the places where it says it. A layout of an image is a file of
one class: headers and tables as the format has them, each field with its width, anywhere in the
file, and with entries that may be larger than they need to be.

## Main definitions

- `Image` — machine, entry point, program headers and symbol tables
- `FileHeader`, `ProgramHeader`, `SectionHeader`, `SymbolEntry` — the records of the format
- `Layout` — a file that lays out an image

## Main results

- `parse_layout` — what is returned for a layout
- `layouts_agree` — for the layouts of one image in both classes the checks have the same verdicts
-/

namespace ElfCheck

open Checked ByteRecord

/-! ### Images -/

/-- A program header of any type, less its place -/
structure Segment where
  type : UInt32
  flags : UInt32
  virtualAddress : UInt32
  memorySize : UInt32
  alignment : UInt32

structure ImageSymbol where
  name : List Char
  name_ne : '\x00' ∉ name
  value : UInt32
  defined : Bool

structure Image where
  machine : UInt16
  entry : UInt32
  segments : List Segment
  tables : List (List ImageSymbol)

def Segment.toLoadSegment (s : Segment) : LoadSegment where
  flags := s.flags.toNat
  virtualAddress := s.virtualAddress.toNat
  memorySize := s.memorySize.toNat
  alignment := s.alignment.toNat

def ImageSymbol.toSymbol (s : ImageSymbol) : Symbol := ⟨s.name, s.value.toNat⟩

/-- What is to be returned for an image: the segments that are loaded, and the symbols that are
defined. -/
def Image.elf (image : Image) (cls : Class) : Elf where
  cls := cls
  machine := image.machine.toNat
  entry := image.entry.toNat
  loadSegments := (image.segments.filter (·.type.toNat == PT_LOAD)).map Segment.toLoadSegment
  symbols := image.tables.flatMap fun table =>
    (table.filter (·.defined)).map ImageSymbol.toSymbol

/-! ### The records of the format -/

/-- The width of addresses, offsets and sizes -/
def Class.word : Class → ℕ
  | .elf32 => 4
  | .elf64 => 8

def Class.ident : Class → UInt8
  | .elf32 => ELFCLASS32
  | .elf64 => ELFCLASS64

structure FileHeader where
  type : ℕ
  machine : ℕ
  version : ℕ
  entry : ℕ
  phoff : ℕ
  shoff : ℕ
  flags : ℕ
  ehsize : ℕ
  phentsize : ℕ
  phnum : ℕ
  shentsize : ℕ
  shnum : ℕ
  shstrndx : ℕ

def FileHeader.fields (h : FileHeader) (cls : Class) : List (ℕ × ℕ) :=
  [(2, h.type), (2, h.machine), (4, h.version), (cls.word, h.entry), (cls.word, h.phoff),
    (cls.word, h.shoff), (4, h.flags), (2, h.ehsize), (2, h.phentsize), (2, h.phnum),
    (2, h.shentsize), (2, h.shnum), (2, h.shstrndx)]

structure ProgramHeader where
  type : ℕ
  offset : ℕ
  vaddr : ℕ
  paddr : ℕ
  filesz : ℕ
  memsz : ℕ
  flags : ℕ
  align : ℕ

def ProgramHeader.fields (h : ProgramHeader) : Class → List (ℕ × ℕ)
  | .elf32 => [(4, h.type), (4, h.offset), (4, h.vaddr), (4, h.paddr), (4, h.filesz), (4, h.memsz),
      (4, h.flags), (4, h.align)]
  | .elf64 => [(4, h.type), (4, h.flags), (8, h.offset), (8, h.vaddr), (8, h.paddr), (8, h.filesz),
      (8, h.memsz), (8, h.align)]

structure SectionHeader where
  name : ℕ
  type : ℕ
  flags : ℕ
  addr : ℕ
  offset : ℕ
  size : ℕ
  link : ℕ
  info : ℕ
  addralign : ℕ
  entsize : ℕ

def SectionHeader.fields (h : SectionHeader) (cls : Class) : List (ℕ × ℕ) :=
  [(4, h.name), (4, h.type), (cls.word, h.flags), (cls.word, h.addr), (cls.word, h.offset),
    (cls.word, h.size), (4, h.link), (4, h.info), (cls.word, h.addralign), (cls.word, h.entsize)]

structure SymbolEntry where
  name : ℕ
  value : ℕ
  size : ℕ
  info : ℕ
  other : ℕ
  shndx : ℕ

def SymbolEntry.fields (e : SymbolEntry) : Class → List (ℕ × ℕ)
  | .elf32 => [(4, e.name), (4, e.value), (4, e.size), (1, e.info), (1, e.other), (2, e.shndx)]
  | .elf64 => [(4, e.name), (1, e.info), (1, e.other), (2, e.shndx), (8, e.value), (8, e.size)]

/-! ### Layouts -/

/-- A record in a file: its values fit, and it is there. -/
def Laid (bytes : List UInt8) (offset : ℕ) (fields : List (ℕ × ℕ)) : Prop :=
  Fits fields ∧ At bytes offset (encode fields)

/-- Entry `i` of a table is in the file, as large as the table says. -/
def LaidEntry (bytes : List UInt8) (offset size i : ℕ) (fields : List (ℕ × ℕ)) : Prop :=
  Laid bytes (offset + i * size) fields ∧ offset + i * size + size ≤ bytes.length

/-- A program header lays out a segment. -/
def ProgramHeader.IsOf (h : ProgramHeader) (s : Segment) : Prop :=
  h.type = s.type.toNat ∧ h.flags = s.flags.toNat ∧ h.vaddr = s.virtualAddress.toNat ∧
    h.memsz = s.memorySize.toNat ∧ h.align = s.alignment.toNat

/-- An entry lays out a symbol, with its name among the strings. -/
def SymbolEntry.IsOf (e : SymbolEntry) (bytes : List UInt8) (strings : SectionHeader)
    (s : ImageSymbol) : Prop :=
  e.value = s.value.toNat ∧ (e.shndx = 0 ↔ s.defined = false) ∧
    At bytes (strings.offset + e.name) (Utf8.encode s.name ++ [0]) ∧
    e.name + (Utf8.encode s.name ++ [0]).length ≤ strings.size

def SectionHeader.isSymbolTable (h : SectionHeader) : Bool :=
  h.type == SHT_SYMTAB || h.type == SHT_DYNSYM

/-- A section lays out a symbol table. -/
structure TableLayout (cls : Class) (bytes : List UInt8) (sections : List SectionHeader)
    (h : SectionHeader) (table : List ImageSymbol) : Prop where
  entsize_le : minimumSymbolSize cls ≤ h.entsize
  size_eq : h.size = table.length * h.entsize
  strings : ∃ strings, sections[h.link]? = some strings ∧
    strings.offset + strings.size ≤ bytes.length ∧
    ∀ i (hi : i < table.length), ∃ e : SymbolEntry, e.IsOf bytes strings table[i] ∧
      LaidEntry bytes h.offset h.entsize i (e.fields cls)

/-- A file of a class lays out an image. -/
structure Layout (cls : Class) (bytes : List UInt8) (image : Image) where
  header : FileHeader
  rest : List UInt8
  rest_length : rest.length = 10
  ident_at : At bytes 0 (ELF_MAGIC ++ [cls.ident, ELFDATA2LSB] ++ rest)
  header_at : Laid bytes 16 (header.fields cls)
  machine_eq : header.machine = image.machine.toNat
  entry_eq : header.entry = image.entry.toNat
  programHeaders : List ProgramHeader
  phnum_eq : header.phnum = programHeaders.length
  phentsize_le : minimumHeaderSize cls ≤ header.phentsize
  programHeaders_at : ∀ i (hi : i < programHeaders.length),
    LaidEntry bytes header.phoff header.phentsize i (programHeaders[i].fields cls)
  segments : List.Forall₂ ProgramHeader.IsOf programHeaders image.segments
  sections : List SectionHeader
  shnum_eq : header.shnum = sections.length
  shentsize_le : minimumSectionHeaderSize cls ≤ header.shentsize
  sections_at : ∀ i (hi : i < sections.length),
    LaidEntry bytes header.shoff header.shentsize i (sections[i].fields cls)
  tables : List.Forall₂ (TableLayout cls bytes sections)
    (sections.filter SectionHeader.isSymbolTable) image.tables

/-! ### Reading a layout -/

section

variable {cls : Class} {bytes : List UInt8}

/-- A field of a record -/
theorem leAt_field (hlen : bytes.length < 2 ^ 63) {offset : ℕ} {fields : List (ℕ × ℕ)}
    (h : Laid bytes offset fields) (i : ℕ) {width value : ℕ}
    (hi : fields[i]? = some (width, value)) :
    leAt width bytes (offset + distance fields i) = .ok value := by
  obtain ⟨hle, hvalue⟩ := h.2.field h.1 i hi
  rw [leAt_eq hlen hle, hvalue]

/-- A field at the place that its record and the widths of the fields in front of it give -/
theorem leAt_place (hlen : bytes.length < 2 ^ 63) {offset : ℕ} {fields : List (ℕ × ℕ)}
    (h : Laid bytes offset fields) {widths : List ℕ} (hwidths : fields.map Prod.fst = widths) (i : ℕ)
    {width value place : ℕ} (hi : fields[i]? = some (width, value))
    (hplace : offset + (widths.take i).sum = place) : leAt width bytes place = .ok value := by
  rw [← hplace, ← hwidths, ← List.map_take]
  exact leAt_field hlen h i hi

/-- A field that is read at its distance -/
theorem add_field (hlen : bytes.length < 2 ^ 63) {offset : ℕ} {fields : List (ℕ × ℕ)}
    (h : Laid bytes offset fields) (i : ℕ) {width value : ℕ}
    (hi : fields[i]? = some (width, value)) :
    (add offset (distance fields i) >>= leAt width bytes) = .ok value := by
  have hle := (h.2.field h.1 i hi).1
  rw [add_eq (by omega), ok_bind, leAt_field hlen h i hi]

/-- Where the flags are in a program header -/
def flagsDistance : Class → ℕ
  | .elf32 => 24
  | .elf64 => 4

theorem loadSegment_eq (hlen : bytes.length < 2 ^ 63) {offset : ℕ} {h : ProgramHeader}
    (hlaid : Laid bytes offset (h.fields cls)) {s : Segment} (hs : h.IsOf s) :
    loadSegment bytes cls (flagsDistance cls) offset = .ok s.toLoadSegment := by
  obtain ⟨-, hflags, hvaddr, hmemsz, halign⟩ := hs
  have hread : (add offset (flagsDistance cls) >>= u32At bytes) = .ok h.flags ∧
      wordAt bytes cls offset 8 16 = .ok h.vaddr ∧ wordAt bytes cls offset 20 40 = .ok h.memsz ∧
      wordAt bytes cls offset 28 48 = .ok h.align := by
    cases cls
    · exact ⟨add_field hlen hlaid 6 rfl, add_field hlen hlaid 2 rfl, add_field hlen hlaid 5 rfl,
        add_field hlen hlaid 7 rfl⟩
    · exact ⟨add_field hlen hlaid 1 rfl, add_field hlen hlaid 3 rfl, add_field hlen hlaid 6 rfl,
        add_field hlen hlaid 7 rfl⟩
  rw [loadSegment, ← bind_assoc, hread.1, ok_bind, hread.2.1, ok_bind, hread.2.2.1, ok_bind,
    hread.2.2.2, ok_bind, hflags, hvaddr, hmemsz, halign]
  rfl

/-- The segments that a program header contributes -/
def Segment.loaded (s : Segment) : List LoadSegment :=
  if s.type.toNat = PT_LOAD then [s.toLoadSegment] else []

theorem programHeader_eq (hlen : bytes.length < 2 ^ 63) {headers : ProgramHeaders}
    (hflags : headers.flagsOffset = flagsDistance cls) {i : ℕ} {h : ProgramHeader}
    (hlaid : LaidEntry bytes headers.offset headers.size i (h.fields cls)) {s : Segment}
    (hs : h.IsOf s) (acc : List LoadSegment) :
    programHeader bytes cls headers acc i = .ok (acc ++ s.loaded) := by
  obtain ⟨hrecord, hle⟩ := hlaid
  have htype : u32At bytes (headers.offset + i * headers.size) = .ok s.type.toNat := by
    rw [← hs.1]
    cases cls <;> exact leAt_field hlen hrecord 0 rfl
  rw [programHeader, mul_eq (by omega), ok_bind, okOr_checkedAdd_eq (by omega), ok_bind,
    toUsize_eq (by omega), ok_bind, byteRange_eq hlen hle, ok_bind, htype, ok_bind, Segment.loaded]
  split
  · rw [hflags, loadSegment_eq hlen hrecord hs]
    rfl
  · rw [List.append_nil]
    rfl

theorem flatten_loaded (segments : List Segment) :
    (segments.map Segment.loaded).flatten =
      (segments.filter (·.type.toNat == PT_LOAD)).map Segment.toLoadSegment := by
  induction segments with
  | nil => rfl
  | cons s segments ih =>
    rw [List.map_cons, List.flatten_cons, ih, Segment.loaded, List.filter_cons]
    by_cases h : s.type.toNat = PT_LOAD <;> simp [h]

/-! ### Symbols -/

theorem lt_of_fits {fields : List (ℕ × ℕ)} (h : Fits fields) (i : ℕ) {value : ℕ}
    (hi : fields[i]? = some (cls.word, value)) : value < 2 ^ 64 := by
  have hfits : value < 256 ^ cls.word := h _ (List.mem_of_getElem? hi)
  cases cls
  · exact Nat.lt_trans hfits (by decide)
  · exact hfits

/-- The symbols that an entry contributes -/
def ImageSymbol.found (s : ImageSymbol) : List Symbol := if s.defined then [s.toSymbol] else []

/-- A name is read up to its zero byte. -/
theorem symbolName_eq {strings : List UInt8} (hlen : strings.length < 2 ^ 63) {nameOffset : ℕ}
    {name : List Char} (hname : '\x00' ∉ name)
    (hat : At strings nameOffset (Utf8.encode name ++ [0])) :
    symbolName strings nameOffset = .ok (Utf8.encode name) := by
  obtain ⟨before, after, rfl, rfl⟩ := hat
  have hdrop : (before ++ (Utf8.encode name ++ [0]) ++ after).drop before.length =
      Utf8.encode name ++ 0 :: after := by
    simp
  have hnone : (Utf8.encode name).findIdx? (· == 0) = none := by
    rw [List.findIdx?_eq_none_iff]
    intro b hb
    exact beq_false_of_ne fun hzero => Utf8.zero_not_mem_encode hname (hzero ▸ hb)
  have hfind : (Utf8.encode name ++ 0 :: after).findIdx? (· == 0) =
      some (Utf8.encode name).length := by
    rw [List.findIdx?_append, hnone, List.findIdx?_cons]
    simp
  rw [symbolName, sliceFrom_eq (by simp), ok_bind, hdrop, hfind]
  simp only [List.length_append] at hlen
  dsimp only
  rw [add_eq (by omega), ok_bind, sliceOf_eq (Nat.le_add_right _ _) (by simp)]
  congr 1
  rw [← List.length_append, ← List.append_assoc, List.append_assoc _ [0], List.take_left,
    List.drop_left]

theorem symbolFields_eq {symbol : List UInt8} (hlen : symbol.length < 2 ^ 63) {e : SymbolEntry}
    (hlaid : Laid symbol 0 (e.fields cls)) :
    symbolFields symbol cls = .ok (e.value, e.shndx) := by
  cases cls
  · have hvalue : u32At symbol 4 = .ok e.value := leAt_field hlen hlaid 1 rfl
    have hindex : u16At symbol 14 = .ok e.shndx := leAt_field hlen hlaid 5 rfl
    rw [symbolFields, hvalue, ok_bind, hindex]
    rfl
  · have hvalue : u64At symbol 8 = .ok e.value := leAt_field hlen hlaid 4 rfl
    have hindex : u16At symbol 6 = .ok e.shndx := leAt_field hlen hlaid 3 rfl
    rw [symbolFields, hvalue, ok_bind, hindex]
    rfl

theorem length_fields (e : SymbolEntry) : (encode (e.fields cls)).length = minimumSymbolSize cls := by
  cases cls <;> rfl

/-- A turn of the loop over the symbols of a table that is laid out. -/
theorem readSymbol_eq (hlen : bytes.length < 2 ^ 63) {table : SymbolTable} {strings : SectionHeader}
    (hmin : minimumSymbolSize cls ≤ table.entrySize)
    (hstrings : table.strings = slice bytes strings.offset (strings.offset + strings.size))
    (hinside : strings.offset + strings.size ≤ bytes.length) {offset : ℕ} {e : SymbolEntry}
    {s : ImageSymbol} (he : e.IsOf bytes strings s) (hlaid : Laid bytes offset (e.fields cls))
    (hle : offset + table.entrySize ≤ bytes.length) (acc : List Symbol) :
    readSymbol bytes cls table acc offset = .ok (acc ++ s.found) := by
  obtain ⟨hvalue, hdefined, hname, hsize⟩ := he
  have hsymbol := length_slice hle
  have hentry : Laid (slice bytes offset (offset + table.entrySize)) 0 (e.fields cls) :=
    ⟨hlaid.1, hlaid.2.in_slice (by rw [length_fields]; omega)⟩
  have hnameOffset : u32At (slice bytes offset (offset + table.entrySize)) 0 = .ok e.name := by
    cases cls <;> exact leAt_field (by omega) hentry 0 rfl
  have hat : At table.strings e.name (Utf8.encode s.name ++ [0]) :=
    hstrings ▸ hname.in_slice (by omega)
  have hlength : table.strings.length = strings.size := hstrings ▸ length_slice hinside
  rw [readSymbol, byteRange_eq hlen hle, ok_bind, hnameOffset, ok_bind,
    symbolFields_eq (by omega) hentry, ok_bind, ImageSymbol.found]
  have hlt : e.name < table.strings.length := by
    rw [hlength]
    simp only [List.length_append, List.length_singleton] at hsize
    omega
  dsimp only
  cases hs : s.defined with
  | false =>
    rw [if_pos (Or.inl (hdefined.2 hs)), if_neg Bool.false_ne_true, List.append_nil]
    rfl
  | true =>
    have hne : e.shndx ≠ 0 := fun hzero => by simp [hdefined.1 hzero] at hs
    rw [if_neg (by omega), symbolName_eq (by omega) s.name_ne hat, ok_bind, Utf8.fromUtf8_encode,
      if_pos rfl, ImageSymbol.toSymbol, hvalue]
    rfl

/-- The loop over the symbols of a table that is laid out. -/
theorem readSymbols_eq {table : SymbolTable} {found : List (List Symbol)} {offset : ℕ}
    (h : ∀ i (hi : i < found.length) acc,
      readSymbol bytes cls table acc (offset + i * table.entrySize) = .ok (acc ++ found[i]))
    (acc : List Symbol) :
    (readSymbols bytes cls table found.length offset acc).1 = .ok (acc ++ found.flatten) := by
  induction found generalizing offset acc with
  | nil => simp [readSymbols]
  | cons symbols found ih =>
    have hhead : readSymbol bytes cls table acc offset = .ok (acc ++ symbols) := by
      simpa using h 0 (Nat.succ_pos _) acc
    rw [List.length_cons, readSymbols, hhead]
    dsimp only
    rw [ih fun i hi acc => ?_, List.flatten_cons, List.append_assoc]
    have hnext := h (i + 1) (Nat.succ_lt_succ hi) acc
    rw [Nat.succ_mul, Nat.add_comm (i * _), ← Nat.add_assoc] at hnext
    exact hnext

theorem flatten_found (table : List ImageSymbol) :
    (table.map ImageSymbol.found).flatten =
      (table.filter (·.defined)).map ImageSymbol.toSymbol := by
  induction table with
  | nil => rfl
  | cons s table ih =>
    rw [List.map_cons, List.flatten_cons, ih, ImageSymbol.found, List.filter_cons]
    cases h : s.defined <;> simp

/-! ### Sections -/

theorem sectionFields_eq (hlen : bytes.length < 2 ^ 63) {offset : ℕ} {h : SectionHeader}
    (hlaid : Laid bytes offset (h.fields cls)) :
    sectionFields bytes cls offset = .ok (h.offset, h.size, h.link, h.entsize) := by
  have hread : wordAt bytes cls offset 16 24 = .ok h.offset ∧
      wordAt bytes cls offset 20 32 = .ok h.size ∧
      (add offset (linkDistance cls) >>= u32At bytes) = .ok h.link ∧
      wordAt bytes cls offset 36 56 = .ok h.entsize := by
    cases cls
    all_goals exact ⟨add_field hlen hlaid 4 rfl, add_field hlen hlaid 5 rfl,
      add_field hlen hlaid 6 rfl, add_field hlen hlaid 9 rfl⟩
  rw [sectionFields, hread.1, ok_bind, hread.2.1, ok_bind, ← bind_assoc, hread.2.2.1, ok_bind,
    hread.2.2.2]
  rfl

theorem stringFields_eq (hlen : bytes.length < 2 ^ 63) {offset : ℕ} {h : SectionHeader}
    (hlaid : Laid bytes offset (h.fields cls)) :
    stringFields bytes cls offset = .ok (h.offset, h.size) := by
  have hread : wordAt bytes cls offset 16 24 = .ok h.offset ∧
      wordAt bytes cls offset 20 32 = .ok h.size := by
    cases cls
    all_goals exact ⟨add_field hlen hlaid 4 rfl, add_field hlen hlaid 5 rfl⟩
  rw [stringFields, hread.1, ok_bind, hread.2]
  rfl

theorem sectionOffset_eq {headers : SectionHeaders} {i : ℕ} {text : String}
    (h : headers.offset + i * headers.size < 2 ^ 64) :
    sectionOffset headers i text = .ok (headers.offset + i * headers.size) := by
  rw [sectionOffset, okOr_checkedMul_eq (by omega), ok_bind, okOr_checkedAdd_eq h]

/-- The type of a section -/
theorem type_eq (hlen : bytes.length < 2 ^ 63) {offset : ℕ} {h : SectionHeader}
    (hlaid : Laid bytes offset (h.fields cls)) : (add offset 4 >>= u32At bytes) = .ok h.type := by
  cases cls <;> exact add_field hlen hlaid 1 rfl

/-- A section of another type is passed over. -/
theorem symbolTable_none (hlen : bytes.length < 2 ^ 63) {headers : SectionHeaders} {i : ℕ}
    {h : SectionHeader} (hlaid : LaidEntry bytes headers.offset headers.size i (h.fields cls))
    (htype : h.isSymbolTable = false) : symbolTable bytes cls headers i = .ok none := by
  obtain ⟨hrecord, hle⟩ := hlaid
  have hother : h.type ≠ SHT_SYMTAB ∧ h.type ≠ SHT_DYNSYM := by
    simpa [SectionHeader.isSymbolTable] using htype
  rw [symbolTable, sectionOffset_eq (by omega), ok_bind, byteRange_eq hlen hle, ok_bind,
    ← bind_assoc, type_eq hlen hrecord, ok_bind, if_pos hother]
  rfl

/-- A symbol table is found with its strings. -/
theorem symbolTable_some (hlen : bytes.length < 2 ^ 63) {headers : SectionHeaders} {i : ℕ}
    {h strings : SectionHeader}
    (hlaid : LaidEntry bytes headers.offset headers.size i (h.fields cls))
    (hstrings : LaidEntry bytes headers.offset headers.size h.link (strings.fields cls))
    (htype : h.isSymbolTable = true) (hmin : minimumSymbolSize cls ≤ h.entsize) {n : ℕ}
    (hsize : h.size = n * h.entsize) (hinside : strings.offset + strings.size ≤ bytes.length) :
    symbolTable bytes cls headers i = .ok (some ⟨h.offset, h.size, h.entsize,
      headers.offset + h.link * headers.size, strings.offset, strings.size,
      slice bytes strings.offset (strings.offset + strings.size)⟩) := by
  obtain ⟨hrecord, hle⟩ := hlaid
  obtain ⟨hstringRecord, hstringLe⟩ := hstrings
  have htable : ¬ (h.type ≠ SHT_SYMTAB ∧ h.type ≠ SHT_DYNSYM) := by
    simp only [SectionHeader.isSymbolTable, Bool.or_eq_true, beq_iff_eq] at htype
    tauto
  have hoffset : h.offset < 2 ^ 64 := lt_of_fits hrecord.1 4 rfl
  have hsizeLt : h.size < 2 ^ 64 := lt_of_fits hrecord.1 5 rfl
  have hentry : h.entsize < 2 ^ 64 := lt_of_fits hrecord.1 9 rfl
  have hpos : 0 < h.entsize :=
    Nat.lt_of_lt_of_le (by decide) (minimumSymbolSize_le.trans hmin)
  rw [symbolTable, sectionOffset_eq (by omega), ok_bind, byteRange_eq hlen hle, ok_bind,
    ← bind_assoc, type_eq hlen hrecord, ok_bind, if_neg htable, sectionFields_eq hlen hrecord,
    ok_bind]
  dsimp only
  rw [toUsize_eq hentry, ok_bind, ensure_eq hmin, ok_bind, sectionOffset_eq (by omega), ok_bind,
    byteRange_eq hlen hstringLe, ok_bind, stringFields_eq hlen hstringRecord, ok_bind]
  dsimp only
  rw [toUsize_eq hoffset, ok_bind, toUsize_eq hsizeLt, ok_bind, toUsize_eq (by omega), ok_bind,
    toUsize_eq (by omega), ok_bind, byteRange_eq hlen hinside, ok_bind, rem_eq hpos, ok_bind,
    ensure_eq (by rw [hsize, Nat.mul_mod_left]), ok_bind]
  rfl

/-- The number of turns for a table of `n` entries -/
theorem stepBy_eq {offset entrySize n : ℕ} (hpos : 0 < entrySize) (hoffset : offset < 2 ^ 64)
    (hle : n = 0 ∨ offset + n * entrySize < 2 ^ 63) :
    stepBy offset (saturatingAdd offset (n * entrySize)) entrySize = .ok n := by
  have hstop : saturatingAdd offset (n * entrySize) = offset + n * entrySize := by
    refine min_eq_left ?_
    obtain rfl | h := hle <;> omega
  rw [stepBy, if_neg (Nat.ne_of_gt hpos), hstop, Nat.add_sub_cancel_left,
    Nat.add_sub_assoc hpos, Nat.mul_comm, Nat.mul_add_div hpos, Nat.div_eq_of_lt (by omega),
    Nat.add_zero]

/-- What a section contributes -/
def Contributes (cls : Class) (bytes : List UInt8) (sections : List SectionHeader)
    (h : SectionHeader) (symbols : List Symbol) : Prop :=
  (h.isSymbolTable = false ∧ symbols = []) ∨
    h.isSymbolTable = true ∧ ∃ table, TableLayout cls bytes sections h table ∧
      symbols = (table.map ImageSymbol.found).flatten

/-- The symbols of a table that is laid out -/
theorem tableSymbols_eq (hlen : bytes.length < 2 ^ 63) {h strings : SectionHeader}
    {table : List ImageSymbol} {stringHeader : ℕ}
    (hmin : minimumSymbolSize cls ≤ h.entsize) (hsize : h.size = table.length * h.entsize)
    (hoffset : h.offset < 2 ^ 64) (hinside : strings.offset + strings.size ≤ bytes.length)
    (hentries : ∀ i (hi : i < table.length), ∃ e : SymbolEntry, e.IsOf bytes strings table[i] ∧
      LaidEntry bytes h.offset h.entsize i (e.fields cls)) (acc : List Symbol) :
    (tableSymbols bytes cls acc ⟨h.offset, h.size, h.entsize, stringHeader, strings.offset,
      strings.size, slice bytes strings.offset (strings.offset + strings.size)⟩).1 =
      .ok (acc ++ (table.map ImageSymbol.found).flatten) := by
  have hpos : 0 < h.entsize :=
    Nat.lt_of_lt_of_le (by decide) (minimumSymbolSize_le.trans hmin)
  have hlast : table.length = 0 ∨ h.offset + table.length * h.entsize < 2 ^ 63 := by
    obtain hnil | hne := Nat.eq_zero_or_pos table.length
    · exact .inl hnil
    · obtain ⟨e, -, -, hle⟩ := hentries (table.length - 1) (by omega)
      have hsplit : table.length * h.entsize = (table.length - 1) * h.entsize + h.entsize := by
        rw [← Nat.succ_mul, Nat.succ_eq_add_one, Nat.sub_add_cancel hne]
      omega
  rw [tableSymbols, hsize, stepBy_eq hpos hoffset hlast]
  have hrun := @readSymbols_eq cls bytes ⟨h.offset, h.size, h.entsize, stringHeader,
    strings.offset, strings.size, slice bytes strings.offset (strings.offset + strings.size)⟩
    (table.map ImageSymbol.found) h.offset (fun i hi acc => ?_) acc
  · rw [List.length_map] at hrun
    rw [← hsize]
    exact hrun
  · rw [List.length_map] at hi
    obtain ⟨e, he, hrecord, hle⟩ := hentries i hi
    rw [List.getElem_map]
    exact readSymbol_eq hlen hmin rfl hinside he hrecord hle acc

/-- A turn of the loop over the sections -/
theorem readSection_eq (hlen : bytes.length < 2 ^ 63) {headers : SectionHeaders}
    {sections : List SectionHeader}
    (hsections : ∀ i (hi : i < sections.length),
      LaidEntry bytes headers.offset headers.size i (sections[i].fields cls))
    {i : ℕ} (hi : i < sections.length) {symbols : List Symbol}
    (h : Contributes cls bytes sections sections[i] symbols) (acc : List Symbol) :
    readSection bytes cls headers acc i = .ok (acc ++ symbols) := by
  obtain ⟨htype, rfl⟩ | ⟨htype, table, ⟨hmin, hsize, strings, hlink, hinside, hentries⟩, rfl⟩ := h
  · rw [readSection, symbolTable_none hlen (hsections i hi) htype, ok_bind, List.append_nil]
    rfl
  · obtain ⟨hlt, rfl⟩ := List.getElem?_eq_some_iff.1 hlink
    rw [readSection, symbolTable_some hlen (hsections i hi) (hsections _ hlt) htype hmin hsize
      hinside, ok_bind]
    exact tableSymbols_eq hlen hmin hsize (lt_of_fits (hsections i hi).1.1 4 rfl) hinside
      hentries acc

/-- The tables are contributed by the sections that lay them out. -/
theorem exists_contributions {sections l : List SectionHeader} {tables : List (List ImageSymbol)}
    (h : List.Forall₂ (TableLayout cls bytes sections) (l.filter SectionHeader.isSymbolTable)
      tables) :
    ∃ found, List.Forall₂ (Contributes cls bytes sections) l found ∧
      found.flatten = tables.flatMap fun table =>
        (table.filter (·.defined)).map ImageSymbol.toSymbol := by
  induction l generalizing tables with
  | nil =>
    cases h
    exact ⟨[], .nil, rfl⟩
  | cons s l ih =>
    cases htype : s.isSymbolTable with
    | false =>
      rw [List.filter_cons_of_neg (by simp [htype])] at h
      obtain ⟨found, hfound, hflatten⟩ := ih h
      exact ⟨[] :: found, .cons (.inl ⟨htype, rfl⟩) hfound, hflatten⟩
    | true =>
      rw [List.filter_cons_of_pos htype] at h
      cases h with
      | cons hs hl =>
        rename_i table tables
        obtain ⟨found, hfound, hflatten⟩ := ih hl
        refine ⟨_ :: found, .cons (.inr ⟨htype, table, hs, rfl⟩) hfound, ?_⟩
        rw [List.flatten_cons, flatten_found, hflatten, List.flatMap_cons]

/-! ### The header of a file -/

def headerWidths (cls : Class) : List ℕ :=
  [2, 2, 4, cls.word, cls.word, cls.word, 4, 2, 2, 2, 2, 2, 2]

theorem FileHeader.map_fields (h : FileHeader) (cls : Class) :
    (h.fields cls).map Prod.fst = headerWidths cls := rfl

theorem programHeaders_eq (hlen : bytes.length < 2 ^ 63) {h : FileHeader}
    (hlaid : Laid bytes 16 (h.fields cls)) :
    programHeaders bytes cls =
      .ok ⟨h.entry, h.phoff, h.phentsize, h.phnum, flagsDistance cls⟩ := by
  have hwidths := h.map_fields cls
  cases cls
  · have hentry : u32At bytes 24 = .ok h.entry :=
      leAt_place hlen hlaid hwidths 3 rfl (by decide)
    have hphoff : u32At bytes 28 = .ok h.phoff :=
      leAt_place hlen hlaid hwidths 4 rfl (by decide)
    have hphentsize : u16At bytes 42 = .ok h.phentsize :=
      leAt_place hlen hlaid hwidths 8 rfl (by decide)
    have hphnum : u16At bytes 44 = .ok h.phnum :=
      leAt_place hlen hlaid hwidths 9 rfl (by decide)
    rw [programHeaders, hentry, ok_bind, hphoff, ok_bind, hphentsize, ok_bind, hphnum]
    rfl
  · have hentry : u64At bytes 24 = .ok h.entry :=
      leAt_place hlen hlaid hwidths 3 rfl (by decide)
    have hphoff : u64At bytes 32 = .ok h.phoff :=
      leAt_place hlen hlaid hwidths 4 rfl (by decide)
    have hphentsize : u16At bytes 54 = .ok h.phentsize :=
      leAt_place hlen hlaid hwidths 8 rfl (by decide)
    have hphnum : u16At bytes 56 = .ok h.phnum :=
      leAt_place hlen hlaid hwidths 9 rfl (by decide)
    rw [programHeaders, hentry, ok_bind, hphoff, ok_bind, hphentsize, ok_bind, hphnum]
    rfl

theorem sectionHeaders_eq (hlen : bytes.length < 2 ^ 63) {h : FileHeader}
    (hlaid : Laid bytes 16 (h.fields cls)) :
    sectionHeaders bytes cls = .ok ⟨h.shoff, h.shentsize, h.shnum⟩ := by
  have hwidths := h.map_fields cls
  cases cls
  · have hshoff : u32At bytes 32 = .ok h.shoff :=
      leAt_place hlen hlaid hwidths 5 rfl (by decide)
    have hshentsize : u16At bytes 46 = .ok h.shentsize :=
      leAt_place hlen hlaid hwidths 10 rfl (by decide)
    have hshnum : u16At bytes 48 = .ok h.shnum :=
      leAt_place hlen hlaid hwidths 11 rfl (by decide)
    rw [sectionHeaders, hshoff, ok_bind, hshentsize, ok_bind, hshnum]
    rfl
  · have hshoff : u64At bytes 40 = .ok h.shoff :=
      leAt_place hlen hlaid hwidths 5 rfl (by decide)
    have hshentsize : u16At bytes 58 = .ok h.shentsize :=
      leAt_place hlen hlaid hwidths 10 rfl (by decide)
    have hshnum : u16At bytes 60 = .ok h.shnum :=
      leAt_place hlen hlaid hwidths 11 rfl (by decide)
    rw [sectionHeaders, hshoff, ok_bind, hshentsize, ok_bind, hshnum]
    rfl

/-- The symbols of a file that is laid out -/
theorem parseSymbols_eq (hlen : bytes.length < 2 ^ 63) {image : Image}
    (layout : Layout cls bytes image) :
    parseSymbols bytes cls = .ok (image.elf cls).symbols := by
  have hheaders := sectionHeaders_eq hlen layout.header_at
  obtain ⟨found, hfound, hflatten⟩ := exists_contributions layout.tables
  have hlength := hfound.length_eq
  have hoffset : layout.header.shoff < 2 ^ 64 := lt_of_fits layout.header_at.1 5 rfl
  have hloop := @foldlM_range_append _
    (readSection bytes cls ⟨layout.header.shoff, layout.header.shentsize, layout.header.shnum⟩)
    found (fun i hi acc => readSection_eq hlen layout.sections_at (hlength ▸ hi)
      (hfound.get (hlength ▸ hi) hi) acc) []
  rw [parseSymbols, hheaders, ok_bind]
  split
  · next hzero =>
    have hnil : found = [] := by
      rw [← List.length_eq_zero_iff, ← hlength, ← layout.shnum_eq]
      exact hzero
    rw [hnil] at hflatten
    exact congrArg Except.ok hflatten
  · rw [ensure_eq layout.shentsize_le, ok_bind, toUsize_eq hoffset, ok_bind, layout.shnum_eq,
      hlength]
    rw [layout.shnum_eq, hlength] at hloop
    exact hloop.trans (congrArg Except.ok hflatten)

end

/-! ### The image of a layout -/

/-- **What is returned for a layout** is the image that it lays out. -/
theorem parse_layout {cls : Class} {input : Input} {image : Image}
    (layout : Layout cls input.bytes image) : parse input = .ok (image.elf cls) := by
  have hlen := input.length_lt
  have hrest := layout.rest_length
  have hident : byteRange input.bytes 0 16 =
      .ok (ELF_MAGIC ++ [cls.ident, ELFDATA2LSB] ++ layout.rest) := by
    have hle := layout.ident_at.le
    have hslice := layout.ident_at.slice_eq
    have hlength : (ELF_MAGIC ++ [cls.ident, ELFDATA2LSB] ++ layout.rest).length = 16 := by
      simp [ELF_MAGIC, hrest]
    rw [hlength] at hle hslice
    rw [byteRange_eq hlen hle, hslice]
  have hbytes : ∃ tail, input.bytes = ELF_MAGIC ++ cls.ident :: ELFDATA2LSB :: tail := by
    obtain ⟨before, after, hbytes, hnil⟩ := layout.ident_at
    rw [List.length_eq_zero_iff.1 hnil] at hbytes
    exact ⟨layout.rest ++ after, by simp [hbytes]⟩
  have hindex4 : index input.bytes 4 = .ok cls.ident := by
    obtain ⟨tail, h⟩ := hbytes
    rw [h]
    rfl
  have hindex5 : index input.bytes 5 = .ok ELFDATA2LSB := by
    obtain ⟨tail, h⟩ := hbytes
    rw [h]
    rfl
  have hmachine : u16At input.bytes 18 = .ok layout.header.machine :=
    leAt_field hlen layout.header_at 1 rfl
  have hheaders := programHeaders_eq hlen layout.header_at
  have hcls : parseClass cls.ident = .ok cls := by cases cls <;> rfl
  have hphnum := layout.segments.length_eq
  have hloop := @foldlM_range_append _
    (programHeader input.bytes cls ⟨layout.header.entry, layout.header.phoff,
      layout.header.phentsize, layout.header.phnum, flagsDistance cls⟩)
    (image.segments.map Segment.loaded) (fun i hi acc => ?_) []
  · rw [parse, hident, ok_bind, sliceOf_eq (by omega) (by simp [ELF_MAGIC]), ok_bind,
      ensure_eq (by rfl), ok_bind, hindex5, ok_bind, ensure_eq rfl, ok_bind, hindex4, ok_bind,
      hcls, ok_bind, hmachine, ok_bind, hheaders, ok_bind, ensure_eq layout.phentsize_le, ok_bind]
    rw [List.length_map, ← hphnum, ← layout.phnum_eq] at hloop
    rw [hloop, ok_bind, parseSymbols_eq hlen layout, ok_bind, layout.machine_eq, layout.entry_eq,
      List.nil_append, flatten_loaded]
    rfl
  · rw [List.length_map] at hi
    rw [List.getElem_map]
    exact programHeader_eq hlen rfl (layout.programHeaders_at i (hphnum ▸ hi))
      (layout.segments.get (hphnum ▸ hi) hi) acc

/-- **The two classes agree**: of the layouts of an image the same is returned, and the checks have
the same verdicts. -/
theorem layouts_agree (image : Image) {input32 input64 : Input}
    (layout32 : Layout .elf32 input32.bytes image) (layout64 : Layout .elf64 input64.bytes image) :
    ∃ elf32 elf64, parse input32 = .ok elf32 ∧ parse input64 = .ok elf64 ∧
      elf32 = image.elf .elf32 ∧ elf64 = image.elf .elf64 ∧
      validate elf32 = validate elf64 ∧
      (∀ start stop, validateMemory elf32 start stop = validateMemory elf64 start stop) ∧
      (∀ machine entry, validateIdentity elf32 machine entry =
        validateIdentity elf64 machine entry) ∧
      ∀ required, validateRequiredSymbol elf32 required = validateRequiredSymbol elf64 required :=
  ⟨_, _, parse_layout layout32, parse_layout layout64, rfl, rfl, rfl, fun _ _ => rfl,
    fun _ _ => rfl, fun _ => rfl⟩

/-! ### A layout in both classes -/

/-- One segment, and a table with a symbol that is defined. -/
def sampleImage : Image where
  machine := 40
  entry := 0x100
  segments := [⟨1, 5, 0x100, 16, 4⟩]
  tables := [[⟨[], by decide, 0, false⟩, ⟨['v'], by decide, 0x100, true⟩]]

def sampleHeader (cls : Class) : FileHeader where
  type := 2
  machine := 40
  version := 1
  entry := 0x100
  phoff := fileHeaderSize cls
  shoff := fileHeaderSize cls + minimumHeaderSize cls
  flags := 0
  ehsize := fileHeaderSize cls
  phentsize := minimumHeaderSize cls
  phnum := 1
  shentsize := minimumSectionHeaderSize cls
  shnum := 3
  shstrndx := 0

def sampleProgramHeader : ProgramHeader := ⟨1, 0, 0x100, 0x100, 16, 16, 5, 4⟩

/-- Where the symbols begin -/
def sampleSymbols (cls : Class) : ℕ :=
  fileHeaderSize cls + minimumHeaderSize cls + 3 * minimumSectionHeaderSize cls

def sampleSections (cls : Class) : List SectionHeader :=
  [⟨0, 0, 0, 0, 0, 0, 0, 0, 0, 0⟩,
    ⟨0, 2, 0, 0, sampleSymbols cls, 2 * minimumSymbolSize cls, 2, 1, 4, minimumSymbolSize cls⟩,
    ⟨0, 3, 0, 0, sampleSymbols cls + 2 * minimumSymbolSize cls, 3, 0, 0, 1, 0⟩]

def sampleEntries : List SymbolEntry := [⟨0, 0, 0, 0, 0, 0⟩, ⟨1, 0x100, 4, 0, 0, 1⟩]

def sample (cls : Class) : Input where
  bytes := ELF_MAGIC ++ [cls.ident, ELFDATA2LSB] ++ List.replicate 10 0 ++
    encode ((sampleHeader cls).fields cls) ++ encode (sampleProgramHeader.fields cls) ++
    (sampleSections cls).flatMap (fun h => encode (h.fields cls)) ++
    sampleEntries.flatMap (fun e => encode (e.fields cls)) ++ [0, 0x76, 0]
  length_lt := by cases cls <;> decide +kernel

def sampleLayout (cls : Class) : Layout cls (sample cls).bytes sampleImage where
  header := sampleHeader cls
  rest := List.replicate 10 0
  rest_length := rfl
  ident_at := by cases cls <;> decide +kernel
  header_at := by unfold Laid; cases cls <;> decide +kernel
  machine_eq := rfl
  entry_eq := rfl
  programHeaders := [sampleProgramHeader]
  phnum_eq := rfl
  phentsize_le := le_rfl
  programHeaders_at := by unfold LaidEntry Laid; cases cls <;> decide +kernel
  segments := .cons ⟨rfl, rfl, rfl, rfl, rfl⟩ .nil
  sections := sampleSections cls
  shnum_eq := rfl
  shentsize_le := le_rfl
  sections_at := by unfold LaidEntry Laid; cases cls <;> decide +kernel
  tables := by
    refine .cons ⟨le_rfl, rfl, _, rfl, ?_, fun i hi => ?_⟩ .nil
    · cases cls <;> decide +kernel
    · refine ⟨sampleEntries[i], ?_⟩
      unfold SymbolEntry.IsOf LaidEntry Laid
      revert i
      cases cls <;> decide +kernel

/-- Two files that are laid out by one image. -/
theorem layouts_agree_sample :
    ∃ elf32 elf64, parse (sample .elf32) = .ok elf32 ∧ parse (sample .elf64) = .ok elf64 ∧
      elf32 = sampleImage.elf .elf32 ∧ elf64 = sampleImage.elf .elf64 ∧
      validate elf32 = validate elf64 ∧
      (∀ start stop, validateMemory elf32 start stop = validateMemory elf64 start stop) ∧
      (∀ machine entry, validateIdentity elf32 machine entry =
        validateIdentity elf64 machine entry) ∧
      ∀ required, validateRequiredSymbol elf32 required = validateRequiredSymbol elf64 required :=
  layouts_agree sampleImage (sampleLayout .elf32) (sampleLayout .elf64)

end ElfCheck
