import Zub1cg.Library.Checked
import Zub1cg.Library.Utf8

/-!
# The check of firmware images (`tooling/elf_check`)

The program headers and the symbols of a little-endian ELF file, and the checks on them. The two
classes keep the same fields in different places, and every offset is written out for both.

## Main definitions

- `byteRange`, `leAt` — reading the file
- `parse`, `parseSymbols` — the image
- `validate`, `validateIdentity`, `validateMemory`, `validateRequiredSymbol` — the checks
-/

namespace ElfCheck

open Checked

def ELF_MAGIC : List UInt8 := [0x7f, 0x45, 0x4c, 0x46]
def ELFCLASS32 : UInt8 := 1
def ELFCLASS64 : UInt8 := 2
def ELFDATA2LSB : UInt8 := 1
def PT_LOAD : ℕ := 1
def SHT_SYMTAB : ℕ := 2
def SHT_DYNSYM : ℕ := 11
def PF_X : ℕ := 1
def PF_W : ℕ := 2
def PF_R : ℕ := 4

/-! ### Images -/

inductive Class where
  | elf32
  | elf64
  deriving DecidableEq, Repr

structure LoadSegment where
  flags : ℕ
  virtualAddress : ℕ
  memorySize : ℕ
  alignment : ℕ
  deriving DecidableEq, Repr

def LoadSegment.isReadExecute (s : LoadSegment) : Bool :=
  s.flags &&& (PF_R ||| PF_X ||| PF_W) == (PF_R ||| PF_X)

def LoadSegment.isWritableAndExecutable (s : LoadSegment) : Bool :=
  s.flags &&& (PF_W ||| PF_X) == (PF_W ||| PF_X)

structure Symbol where
  name : List Char
  value : ℕ
  deriving DecidableEq, Repr

structure Elf where
  cls : Class
  machine : ℕ
  entry : ℕ
  loadSegments : List LoadSegment
  symbols : List Symbol
  deriving DecidableEq, Repr

/-- A file in memory; no slice is longer than `isize::MAX` bytes. -/
structure Input where
  bytes : List UInt8
  length_lt : bytes.length < 2 ^ 63

/-! ### Reading -/

/-- `{n:x}` -/
def hex (n : ℕ) : String := String.ofList (Nat.toDigits 16 n)

def byteRange (bytes : List UInt8) (offset length : ℕ) : Result (List UInt8) :=
  if offset ≤ saturatingAdd offset length ∧ saturatingAdd offset length ≤ bytes.length then
    .ok (slice bytes offset (saturatingAdd offset length))
  else fail ("truncated ELF at offset 0x" ++ hex offset)

/-- A number of `width` bytes. -/
def leAt (width : ℕ) (bytes : List UInt8) (offset : ℕ) : Result ℕ := do
  let value ← byteRange bytes offset width
  let le ← (List.range width).mapM (index value)
  return LittleEndian.toNat le

def u16At : List UInt8 → ℕ → Result ℕ := leAt 2

def u32At : List UInt8 → ℕ → Result ℕ := leAt 4

def u64At : List UInt8 → ℕ → Result ℕ := leAt 8

/-- A field that is a `u32` in one class and a `u64` in the other, each at its own distance. -/
def wordAt (bytes : List UInt8) (cls : Class) (offset distance32 distance64 : ℕ) : Result ℕ :=
  match cls with
  | .elf32 => do u32At bytes (← add offset distance32)
  | .elf64 => do u64At bytes (← add offset distance64)

/-! ### Program headers -/

/-- `entry`, `program_header_offset`, `program_header_size`, `program_header_count` and
`flags_offset` -/
structure ProgramHeaders where
  entry : ℕ
  offset : ℕ
  size : ℕ
  count : ℕ
  flagsOffset : ℕ
  deriving DecidableEq, Repr

def programHeaders (bytes : List UInt8) : Class → Result ProgramHeaders
  | .elf32 => do
    return ⟨← u32At bytes 24, ← u32At bytes 28, ← u16At bytes 42, ← u16At bytes 44, 24⟩
  | .elf64 => do
    return ⟨← u64At bytes 24, ← u64At bytes 32, ← u16At bytes 54, ← u16At bytes 56, 4⟩

def minimumHeaderSize : Class → ℕ
  | .elf32 => 32
  | .elf64 => 56

/-- The segment of a header at `offset`. -/
def loadSegment (bytes : List UInt8) (cls : Class) (flagsOffset offset : ℕ) :
    Result LoadSegment := do
  let flags ← u32At bytes (← add offset flagsOffset)
  let virtualAddress ← wordAt bytes cls offset 8 16
  let memorySize ← wordAt bytes cls offset 20 40
  let alignment ← wordAt bytes cls offset 28 48
  return ⟨flags, virtualAddress, memorySize, alignment⟩

/-- One turn of the loop over the program headers. -/
def programHeader (bytes : List UInt8) (cls : Class) (headers : ProgramHeaders)
    (loadSegments : List LoadSegment) (i : ℕ) : Result (List LoadSegment) := do
  let offset ← okOr (checkedAdd headers.offset (← mul i headers.size))
    "program header offset overflow"
  let offset ← toUsize offset "program header offset is too large"
  let _ ← byteRange bytes offset headers.size
  if (← u32At bytes offset) = PT_LOAD then
    return loadSegments ++ [← loadSegment bytes cls headers.flagsOffset offset]
  else
    return loadSegments

/-! ### Symbols -/

/-- `section_header_offset`, `section_header_size` and `section_header_count` -/
structure SectionHeaders where
  offset : ℕ
  size : ℕ
  count : ℕ
  deriving DecidableEq, Repr

def sectionHeaders (bytes : List UInt8) : Class → Result SectionHeaders
  | .elf32 => do return ⟨← u32At bytes 32, ← u16At bytes 46, ← u16At bytes 48⟩
  | .elf64 => do return ⟨← u64At bytes 40, ← u16At bytes 58, ← u16At bytes 60⟩

def minimumSectionHeaderSize : Class → ℕ
  | .elf32 => 40
  | .elf64 => 64

def minimumSymbolSize : Class → ℕ
  | .elf32 => 16
  | .elf64 => 24

/-- Where the index of the string table is in a section header -/
def linkDistance : Class → ℕ
  | .elf32 => 24
  | .elf64 => 40

/-- `section_offset`, `section_size`, `string_table_index` and `entry_size` of the section with a
header at `offset` -/
def sectionFields (bytes : List UInt8) (cls : Class) (offset : ℕ) : Result (ℕ × ℕ × ℕ × ℕ) := do
  let sectionOffset ← wordAt bytes cls offset 16 24
  let sectionSize ← wordAt bytes cls offset 20 32
  let stringTableIndex ← u32At bytes (← add offset (linkDistance cls))
  let entrySize ← wordAt bytes cls offset 36 56
  return (sectionOffset, sectionSize, stringTableIndex, entrySize)

/-- `strings_offset` and `strings_size` of the section with a header at `offset` -/
def stringFields (bytes : List UInt8) (cls : Class) (offset : ℕ) : Result (ℕ × ℕ) := do
  let stringsOffset ← wordAt bytes cls offset 16 24
  let stringsSize ← wordAt bytes cls offset 20 32
  return (stringsOffset, stringsSize)

/-- A symbol table, and the string table that it is linked to. -/
structure SymbolTable where
  offset : ℕ
  size : ℕ
  entrySize : ℕ
  stringHeader : ℕ
  stringsOffset : ℕ
  stringsSize : ℕ
  strings : List UInt8
  deriving DecidableEq, Repr

/-- The offset of a section header. -/
def sectionOffset (headers : SectionHeaders) (i : ℕ) (text : String) : Result ℕ := do
  okOr (checkedAdd headers.offset (← okOr (checkedMul i headers.size) text)) text

/-- Section `i`, if it is a symbol table. -/
def symbolTable (bytes : List UInt8) (cls : Class) (headers : SectionHeaders) (i : ℕ) :
    Result (Option SymbolTable) := do
  let offset ← sectionOffset headers i "section header offset overflow"
  let _ ← byteRange bytes offset headers.size
  let sectionType ← u32At bytes (← add offset 4)
  if sectionType ≠ SHT_SYMTAB ∧ sectionType ≠ SHT_DYNSYM then
    return none
  else
    let (sectionOffset', sectionSize, stringTableIndex, entrySize) ← sectionFields bytes cls offset
    let entrySize ← toUsize entrySize "symbol entry size is too large"
    ensure (minimumSymbolSize cls ≤ entrySize)
      ("symbol entry is too small: " ++ toString entrySize ++ " bytes")
    let stringHeader ← sectionOffset headers stringTableIndex "string table header offset overflow"
    let _ ← byteRange bytes stringHeader headers.size
    let (stringsOffset, stringsSize) ← stringFields bytes cls stringHeader
    let sectionOffset' ← toUsize sectionOffset' "symbol table offset is too large"
    let sectionSize ← toUsize sectionSize "symbol table size is too large"
    let stringsOffset ← toUsize stringsOffset "string table offset is too large"
    let stringsSize ← toUsize stringsSize "string table size is too large"
    let strings ← byteRange bytes stringsOffset stringsSize
    let rest ← rem sectionSize entrySize
    ensure (rest = 0) "symbol table size is not a multiple of its entry size"
    return some ⟨sectionOffset', sectionSize, entrySize, stringHeader, stringsOffset, stringsSize,
      strings⟩

/-- The name that begins at an offset: up to a zero byte, or up to the end. -/
def symbolName (strings : List UInt8) (nameOffset : ℕ) : Result (List UInt8) := do
  let rest ← sliceFrom strings nameOffset
  let stop ← match rest.findIdx? (· == 0) with
    | some length => add nameOffset length
    | none => pure strings.length
  sliceOf strings nameOffset stop

/-- `value` and `section_index` -/
def symbolFields (symbol : List UInt8) : Class → Result (ℕ × ℕ)
  | .elf32 => do return (← u32At symbol 4, ← u16At symbol 14)
  | .elf64 => do return (← u64At symbol 8, ← u16At symbol 6)

/-- One turn of the loop over the symbols. -/
def readSymbol (bytes : List UInt8) (cls : Class) (table : SymbolTable) (symbols : List Symbol)
    (offset : ℕ) : Result (List Symbol) := do
  let symbol ← byteRange bytes offset table.entrySize
  let nameOffset ← u32At symbol 0
  let (value, sectionIndex) ← symbolFields symbol cls
  if sectionIndex = 0 ∨ table.strings.length ≤ nameOffset then
    return symbols
  else
    match Utf8.fromUtf8 (← symbolName table.strings nameOffset) with
    | some name => return symbols ++ [⟨name, value⟩]
    | none => return symbols

/-- `(start..stop).step_by(step)`, as the number of turns -/
def stepBy (start stop step : ℕ) : Result ℕ :=
  if step = 0 then panicked else .ok ((stop - start + step - 1) / step)

/-- The loop over the symbols with the turns that are left, and the number of those it takes. -/
def readSymbols (bytes : List UInt8) (cls : Class) (table : SymbolTable) :
    (left offset : ℕ) → List Symbol → Result (List Symbol) × ℕ
  | 0, _, symbols => (.ok symbols, 0)
  | left + 1, offset, symbols =>
    match readSymbol bytes cls table symbols offset with
    | .error e => (.error e, 1)
    | .ok symbols =>
      let run := readSymbols bytes cls table left (offset + table.entrySize) symbols
      (run.1, run.2 + 1)

/-- The symbols of a table, and the number of turns. -/
def tableSymbols (bytes : List UInt8) (cls : Class) (symbols : List Symbol)
    (table : SymbolTable) : Result (List Symbol) × ℕ :=
  match stepBy table.offset (saturatingAdd table.offset table.size) table.entrySize with
  | .error e => (.error e, 0)
  | .ok turns => readSymbols bytes cls table turns table.offset symbols

/-- One turn of the loop over the sections. -/
def readSection (bytes : List UInt8) (cls : Class) (headers : SectionHeaders)
    (symbols : List Symbol) (i : ℕ) : Result (List Symbol) := do
  match ← symbolTable bytes cls headers i with
  | some table => (tableSymbols bytes cls symbols table).1
  | none => return symbols

def parseSymbols (bytes : List UInt8) (cls : Class) : Result (List Symbol) := do
  let headers ← sectionHeaders bytes cls
  if headers.count = 0 then
    return []
  else
    ensure (minimumSectionHeaderSize cls ≤ headers.size)
      ("section header entry is too small: " ++ toString headers.size ++ " bytes")
    let offset ← toUsize headers.offset "section header offset is too large"
    (List.range headers.count).foldlM (readSection bytes cls { headers with offset }) []

/-! ### The image -/

def parseClass (ident : UInt8) : Result Class :=
  if ident = ELFCLASS32 then .ok .elf32
  else if ident = ELFCLASS64 then .ok .elf64
  else fail ("unsupported ELF class " ++ toString ident)

def parse (input : Input) : Result Elf := do
  let ident ← byteRange input.bytes 0 16
  ensure ((← sliceOf ident 0 4) = ELF_MAGIC) "not an ELF file"
  ensure ((← index input.bytes 5) = ELFDATA2LSB) "only little-endian ELF is supported"
  let cls ← parseClass (← index input.bytes 4)
  let machine ← u16At input.bytes 18
  let headers ← programHeaders input.bytes cls
  ensure (minimumHeaderSize cls ≤ headers.size)
    ("program header entry is too small: " ++ toString headers.size ++ " bytes")
  let loadSegments ←
    (List.range headers.count).foldlM (programHeader input.bytes cls headers) []
  let symbols ← parseSymbols input.bytes cls
  return ⟨cls, machine, headers.entry, loadSegments, symbols⟩

/-! ### The checks -/

def validate (elf : Elf) : Except String Unit :=
  let nonEmpty := elf.loadSegments.filter fun s => 0 < s.memorySize
  if nonEmpty.isEmpty then .error "ELF has no PT_LOAD segments with non-zero size"
  else if nonEmpty.any LoadSegment.isWritableAndExecutable then
    .error "ELF has a writable-and-executable PT_LOAD segment"
  else if !nonEmpty.any LoadSegment.isReadExecute then
    .error "ELF has no read-execute PT_LOAD segment"
  else .ok ()

def validateIdentity (elf : Elf) (machine entry : ℕ) : Except String Unit :=
  if elf.machine ≠ machine then
    .error ("ELF machine is " ++ toString elf.machine ++ ", expected " ++ toString machine)
  else if elf.entry ≠ entry then
    .error ("ELF entry point is 0x" ++ hex elf.entry ++ ", expected 0x" ++ hex entry)
  else .ok ()

def isPowerOfTwo (n : ℕ) : Bool := n ≠ 0 && n &&& (n - 1) == 0

/-- One turn of the loop over the segments. -/
def validateSegment (start stop : ℕ) (s : LoadSegment) : Except String Unit :=
  if s.memorySize = 0 then .ok ()
  else
    match checkedAdd s.virtualAddress s.memorySize with
    | none => .error "PT_LOAD segment address overflows"
    | some segmentEnd =>
      if s.virtualAddress < start ∨ stop < segmentEnd then
        .error ("PT_LOAD segment 0x" ++ hex s.virtualAddress ++ "..0x" ++ hex segmentEnd ++
          " is outside 0x" ++ hex start ++ "..0x" ++ hex stop)
      else if s.alignment ≠ 0 ∧ !isPowerOfTwo s.alignment then
        .error ("PT_LOAD segment at 0x" ++ hex s.virtualAddress ++
          " has non-power-of-two alignment 0x" ++ hex s.alignment)
      else .ok ()

def validateMemory (elf : Elf) (start stop : ℕ) : Except String Unit :=
  if stop ≤ start then .error "memory range must have a non-zero size"
  else elf.loadSegments.forM (validateSegment start stop)

def validateRequiredSymbol (elf : Elf) (required : List Char) : Except String Unit :=
  if elf.symbols.any (·.name == required) then .ok ()
  else .error ("ELF is missing required symbol " ++ String.ofList required)

end ElfCheck
