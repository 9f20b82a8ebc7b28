import Zub1cg.Library.LittleEndian
import Mathlib.Data.List.GetD
import Mathlib.Data.List.OfFn
import Mathlib.Data.UInt
import Mathlib.Tactic.FinCases

/-!
# Postmortem records (`sdk/bsp/rpu/postmortem.c`, `tooling/pm_decode/src/main.rs`)

When an exception cannot be recovered from, the R5 leaves a record in memory that a warm reset
does not touch. On the host `pm_decode` looks for it in a dump of that memory. The two share no
header: the layout and the checksum are written down twice.

## Main definitions

- `Postmortem.crc32Compute`, `PmRecord`, `pmSaveFromExc` — the writer
- `PmDecode.crc32`, `tryParseAndPrint`, `scan` — the reader

## Main results

- `crc32Compute_eq_crc32` — the checksums agree
- `tryParseAndPrint_saved` — a record is read as it was written
- `scan_saved_iff` — when it is found in a dump
-/

/-! ### The writer -/

namespace Postmortem

def PM_EXC_DABT : UInt32 := 3

def PM_MAGIC : UInt32 := 0x504D0001
def PM_VERSION : UInt32 := 1

/-- One turn of the loop over the bits of a byte. -/
def crcBit (crc : UInt32) (b : UInt8) : UInt32 × UInt8 :=
  (if (crc ^^^ b.toUInt32) &&& 1 ≠ 0 then (crc >>> 1) ^^^ 0xEDB88320 else crc >>> 1, b >>> 1)

/-- The loop over the bits, with the number of turns left. -/
def crcBits : ℕ → UInt32 → UInt8 → UInt32
  | 0, crc, _ => crc
  | i + 1, crc, b => crcBits i (crcBit crc b).1 (crcBit crc b).2

/-- The loop over the bytes, `len` of them from `p` on. -/
def crcBytes (mem : ℕ → UInt8) : ℕ → ℕ → UInt32 → UInt32
  | _, 0, crc => crc
  | p, len + 1, crc => crcBytes mem (p + 1) len (crcBits 8 crc (mem p))

/-- `crc32_compute` -/
def crc32Compute (mem : ℕ → UInt8) (buf len : ℕ) : UInt32 :=
  crcBytes mem buf len 0xFFFFFFFF ^^^ 0xFFFFFFFF

def lrToPcOffset (excType : UInt32) : UInt32 := if excType = PM_EXC_DABT then 8 else 4

/-- `pm_record_t` -/
structure PmRecord where
  magic : UInt32
  version : UInt32
  excType : UInt32
  cpsr : UInt32
  pc : UInt32
  lrRaw : UInt32
  r : Fin 13 → UInt32
  dfsr : UInt32
  dfar : UInt32
  ifsr : UInt32
  crc32 : UInt32

/-- The words before the checksum, in the order of the members. -/
def PmRecord.covered (record : PmRecord) : List UInt32 :=
  [record.magic, record.version, record.excType, record.cpsr, record.pc, record.lrRaw] ++
    List.ofFn record.r ++ [record.dfsr, record.dfar, record.ifsr]

/-- Words as they lie in the memory of a little-endian core. -/
def wordBytes (words : List UInt32) : List UInt8 := words.flatMap u32ToLe

/-- The record as it lies in memory. -/
def PmRecord.image (record : PmRecord) : List UInt8 :=
  wordBytes (record.covered ++ [record.crc32])

/-- `offsetof(pm_record_t, crc32)` -/
def CRC32_OFFSET : ℕ := 88

/-- What an exception leaves in the registers: those that the stub passes on, and the fault
registers of CP15. -/
structure Exception where
  excType : UInt32
  spsr : UInt32
  lrExc : UInt32
  frame : Fin 13 → UInt32
  dfsr : UInt32
  dfar : UInt32
  ifsr : UInt32

/-- The members that `pm_save_from_exc` assigns before the checksum. -/
def PmRecord.fill (old : PmRecord) (e : Exception) : PmRecord :=
  { old with
    magic := PM_MAGIC
    version := PM_VERSION
    excType := e.excType
    cpsr := e.spsr
    lrRaw := e.lrExc
    pc := e.lrExc - lrToPcOffset e.excType
    r := e.frame
    dfsr := e.dfsr
    dfar := e.dfar
    ifsr := e.ifsr }

/-- `pm_save_from_exc`; `old` is what the record was. -/
def pmSaveFromExc (e : Exception) (old : PmRecord) : PmRecord :=
  let record := old.fill e
  { record with crc32 := crc32Compute (byteAt record.image) 0 CRC32_OFFSET }

end Postmortem

/-! ### The reader -/

namespace PmDecode

def PM_MAGIC : UInt32 := 0x504D0001
def PM_VERSION : UInt32 := 1

def PM_EXC_UNDEF : UInt32 := 1
def PM_EXC_PREFETCH : UInt32 := 2
def PM_EXC_DABT : UInt32 := 3

def OFF_MAGIC : ℕ := 0
def OFF_VERSION : ℕ := 4
def OFF_EXC_TYPE : ℕ := 8
def OFF_CPSR : ℕ := 12
def OFF_PC : ℕ := 16
def OFF_LR_RAW : ℕ := 20
def OFF_R : ℕ := 24
def OFF_DFSR : ℕ := 76
def OFF_DFAR : ℕ := 80
def OFF_IFSR : ℕ := 84
def OFF_CRC32 : ℕ := 88
def RECORD_SIZE : ℕ := 92

/-- The eight turns of the loop over the bits of `byte`. -/
def crcByte (crc : UInt32) (byte : UInt8) : UInt32 :=
  ((List.range 8).foldl
    (fun (s : UInt32 × UInt8) _ =>
      (if (s.1 ^^^ s.2.toUInt32) &&& 1 != 0 then (s.1 >>> 1) ^^^ 0xEDB88320 else s.1 >>> 1,
        s.2 >>> 1))
    (crc, byte)).1

def crc32 (data : List UInt8) : UInt32 := data.foldl crcByte 0xFFFFFFFF ^^^ 0xFFFFFFFF

def le32 (buf : List UInt8) (offset : ℕ) : UInt32 := u32FromLe (slice buf offset (offset + 4))

def excName (excType : UInt32) : String :=
  if excType = PM_EXC_UNDEF then "undefined-instruction"
  else if excType = PM_EXC_PREFETCH then "prefetch-abort"
  else if excType = PM_EXC_DABT then "data-abort"
  else "unknown"

def cpsrMode (cpsr : UInt32) : String :=
  match (cpsr &&& 0x1F).toNat with
  | 0x10 => "USR"
  | 0x11 => "FIQ"
  | 0x12 => "IRQ"
  | 0x13 => "SVC"
  | 0x17 => "ABT"
  | 0x1B => "UND"
  | 0x1F => "SYS"
  | _ => "???"

/-- What is read from a record. -/
structure Report where
  excType : UInt32
  cpsr : UInt32
  pc : UInt32
  lrRaw : UInt32
  r : Fin 13 → UInt32
  dfsr : UInt32
  dfar : UInt32
  ifsr : UInt32
  storedCrc : UInt32
  computedCrc : UInt32

def Report.crcOk (report : Report) : Bool := report.computedCrc == report.storedCrc

/-- `{:#010x}` -/
def hex (value : UInt32) : String :=
  let digits := Nat.toDigits 16 value.toNat
  "0x" ++ String.ofList (List.replicate (8 - digits.length) '0' ++ digits)

/-- `{:<2}` -/
def padRight (text : String) : String :=
  text ++ String.ofList (List.replicate (2 - text.length) ' ')

/-- What is printed of a report; `addr2line` gives the source location of an address, where there
is one. -/
def Report.print (addr2line : UInt32 → Option String) (report : Report) : List String :=
  let location (address : UInt32) : String :=
    match addr2line address with
    | some sym => "  <- " ++ sym
    | none => ""
  ["[POSTMORTEM DECODED]",
    "  exception : " ++ excName report.excType ++ " (" ++ toString report.excType ++ ")",
    "  cpsr      : " ++ hex report.cpsr ++ "  mode=" ++ cpsrMode report.cpsr,
    "  pc        : " ++ hex report.pc ++ location report.pc,
    "  lr        : " ++ hex report.lrRaw ++ location report.lrRaw] ++
  List.ofFn (fun i : Fin 13 =>
    "  r" ++ padRight (toString i.val) ++ "       : " ++ hex (report.r i)) ++
  ["  dfsr      : " ++ hex report.dfsr,
    "  dfar      : " ++ hex report.dfar,
    "  ifsr      : " ++ hex report.ifsr,
    "  crc32     : " ++ hex report.storedCrc ++ "  " ++
      (if report.crcOk then "OK" else "BAD (record may be corrupt)")]

/-- How an attempt to read a record ends. Only a report is printed to the standard output. -/
inductive Attempt where
  | short
  | noMagic
  | unsupportedVersion (version : UInt32)
  | printed (report : Report)

/-- What is returned. -/
def Attempt.accepted : Attempt → Bool
  | printed report => report.crcOk
  | _ => false

/-- What is printed to the standard error. -/
def Attempt.complaint : Attempt → List String
  | unsupportedVersion version => ["pm_decode: unsupported record version " ++ toString version]
  | _ => []

/-- `try_parse_and_print` -/
def tryParseAndPrint (buf : List UInt8) : Attempt :=
  if buf.length < RECORD_SIZE then .short
  else if le32 buf OFF_MAGIC ≠ PM_MAGIC then .noMagic
  else if le32 buf OFF_VERSION ≠ PM_VERSION then .unsupportedVersion (le32 buf OFF_VERSION)
  else
    .printed
      { excType := le32 buf OFF_EXC_TYPE
        cpsr := le32 buf OFF_CPSR
        pc := le32 buf OFF_PC
        lrRaw := le32 buf OFF_LR_RAW
        r := fun i => le32 buf (OFF_R + i * 4)
        dfsr := le32 buf OFF_DFSR
        dfar := le32 buf OFF_DFAR
        ifsr := le32 buf OFF_IFSR
        storedCrc := le32 buf OFF_CRC32
        computedCrc := crc32 (buf.take OFF_CRC32) }

/-- What a scan has come across: the attempts that failed, and the offset of the record it has
found, with the attempt that read it. -/
structure Scan where
  failed : List Attempt
  found : Option (ℕ × Attempt)

/-- The loop of `main` over the offsets. -/
def scan (buf : List UInt8) (offset : ℕ) : Scan :=
  if offset + RECORD_SIZE ≤ buf.length then
    if le32 buf offset = PM_MAGIC then
      let attempt := tryParseAndPrint (buf.drop offset)
      if attempt.accepted then { failed := [], found := some (offset, attempt) }
      else
        let rest := scan buf (offset + 4)
        { rest with failed := attempt :: rest.failed }
    else scan buf (offset + 4)
  else { failed := [], found := none }
termination_by buf.length - offset
decreasing_by all_goals (simp only [RECORD_SIZE] at *; omega)

/-- The exit code. -/
def exitCode (buf : List UInt8) : ℕ := if (scan buf 0).found.isSome then 0 else 1

end PmDecode

/-! ### The checksums -/

namespace PmDecode

open Postmortem

theorem crcBits_eight (crc : UInt32) (b : UInt8) : crcBits 8 crc b = crcByte crc b := by
  -- the loops differ only in how they put the test of a bit
  have hturn : (fun (s : UInt32 × UInt8) (_ : ℕ) =>
      (if (s.1 ^^^ s.2.toUInt32) &&& 1 != 0 then (s.1 >>> 1) ^^^ 0xEDB88320 else s.1 >>> 1,
        s.2 >>> 1)) = fun s _ => crcBit s.1 s.2 := by
    funext s _
    simp only [bne_iff_ne, crcBit]
  rw [crcByte, hturn]
  rfl

/-- The loop over the memory is a fold over the bytes that lie there. -/
theorem crcBytes_eq (bytes : List UInt8) (p len : ℕ) (crc : UInt32)
    (h : p + len ≤ bytes.length) :
    crcBytes (byteAt bytes) p len crc = ((bytes.drop p).take len).foldl crcByte crc := by
  induction len generalizing p crc with
  | zero => rfl
  | succ len ih =>
    have hp : p < bytes.length := by omega
    rw [crcBytes, ih _ _ (by omega), List.drop_eq_getElem_cons hp, List.take_succ_cons,
      List.foldl_cons, crcBits_eight, byteAt, List.getD_eq_getElem _ _ hp]

/-- **The two checksums agree** on every byte string. -/
theorem crc32Compute_eq_crc32 (bytes : List UInt8) (len : ℕ) (h : len ≤ bytes.length) :
    crc32Compute (byteAt bytes) 0 len = crc32 (bytes.take len) := by
  rw [crc32Compute, crc32, crcBytes_eq bytes 0 len _ (by omega), List.drop_zero]

example : crc32 [0x31, 0x32, 0x33, 0x34, 0x35, 0x36, 0x37, 0x38, 0x39] = 0xCBF43926 := by
  decide +kernel

/-! ### The layouts -/

theorem wordBytes_length (words : List UInt32) : (wordBytes words).length = 4 * words.length := by
  induction words with
  | nil => rfl
  | cons w words ih =>
    rw [wordBytes, List.flatMap_cons, List.length_append, u32ToLe_length, ← wordBytes, ih,
      List.length_cons]
    omega

theorem wordBytes_append (words more : List UInt32) :
    wordBytes (words ++ more) = wordBytes words ++ wordBytes more := List.flatMap_append

/-- The words are read back from where they lie. -/
theorem le32_wordBytes {words : List UInt32} {i : ℕ} {w : UInt32} (h : words[i]? = some w)
    (rest : List UInt8) : le32 (wordBytes words ++ rest) (4 * i) = w := by
  induction words generalizing i with
  | nil => contradiction
  | cons v words ih =>
    have hcons : wordBytes (v :: words) ++ rest = u32ToLe v ++ (wordBytes words ++ rest) := by
      rw [wordBytes, List.flatMap_cons, List.append_assoc, wordBytes]
    rw [hcons, le32, slice]
    cases i with
    | zero =>
      rw [List.getElem?_cons_zero, Option.some.injEq] at h
      rw [h, Nat.mul_zero, List.drop_zero, Nat.zero_add,
        List.take_left' (u32ToLe_length w), u32FromLe_u32ToLe]
    | succ i =>
      rw [List.getElem?_cons_succ] at h
      have hlength := u32ToLe_length v
      have hstart : 4 * (i + 1) = (u32ToLe v).length + 4 * i := by omega
      have hstop : 4 * (i + 1) + 4 = (u32ToLe v).length + (4 * i + 4) := by omega
      rw [hstop, hstart, List.take_length_add_append, List.drop_length_add_append]
      exact ih h

theorem image_length (record : PmRecord) : record.image.length = RECORD_SIZE := by
  rw [PmRecord.image, wordBytes_length]
  simp [PmRecord.covered, RECORD_SIZE]

/-- The checksum covers what lies before it. -/
theorem image_take (record : PmRecord) :
    record.image.take OFF_CRC32 = wordBytes record.covered := by
  have hlength : (wordBytes record.covered).length = OFF_CRC32 := by
    rw [wordBytes_length]
    simp [PmRecord.covered, OFF_CRC32]
  rw [PmRecord.image, wordBytes_append, List.take_left' hlength]

/-- A word of the image, with what follows the image in the dump. -/
theorem le32_image (record : PmRecord) {i : ℕ} {w : UInt32}
    (h : (record.covered ++ [record.crc32])[i]? = some w) (rest : List UInt8) :
    le32 (record.image ++ rest) (4 * i) = w := le32_wordBytes h rest

/-! ### Writing and reading -/

/-- The report that says what the exception has left. -/
def reportOf (e : Exception) (crc : UInt32) : Report where
  excType := e.excType
  cpsr := e.spsr
  pc := e.lrExc - lrToPcOffset e.excType
  lrRaw := e.lrExc
  r := e.frame
  dfsr := e.dfsr
  dfar := e.dfar
  ifsr := e.ifsr
  storedCrc := crc
  computedCrc := crc

theorem covered_seal (record : PmRecord) (crc : UInt32) :
    { record with crc32 := crc }.covered = record.covered := rfl

/-- The checksum that is written is that of the words before it. -/
theorem saved_crc (e : Exception) (old : PmRecord) :
    crc32 (wordBytes (pmSaveFromExc e old).covered) = (pmSaveFromExc e old).crc32 := by
  have hlength : CRC32_OFFSET ≤ (old.fill e).image.length := by
    rw [image_length]
    decide
  rw [pmSaveFromExc, covered_seal, crc32Compute_eq_crc32 _ _ hlength, ← image_take, CRC32_OFFSET,
    OFF_CRC32]

/-- **A record is read as it was written**, whatever follows it. -/
theorem tryParseAndPrint_saved (e : Exception) (old : PmRecord) (rest : List UInt8) :
    tryParseAndPrint ((pmSaveFromExc e old).image ++ rest) =
      .printed (reportOf e (pmSaveFromExc e old).crc32) := by
  have hcrc := saved_crc e old
  have hlength := image_length (pmSaveFromExc e old)
  have hcovered : (pmSaveFromExc e old).covered =
      [PM_MAGIC, PM_VERSION, e.excType, e.spsr, e.lrExc - lrToPcOffset e.excType, e.lrExc] ++
        List.ofFn e.frame ++ [e.dfsr, e.dfar, e.ifsr] := rfl
  have hword {i : ℕ} {w : UInt32} := @le32_image (pmSaveFromExc e old) i w
  have htake : ((pmSaveFromExc e old).image ++ rest).take OFF_CRC32 =
      wordBytes (pmSaveFromExc e old).covered := by
    rw [List.take_append_of_le_length (by rw [hlength]; decide), image_take]
  generalize pmSaveFromExc e old = record at *
  rw [hcovered] at hword
  have hmagic : le32 (record.image ++ rest) OFF_MAGIC = PM_MAGIC := hword (i := 0) rfl rest
  have hversion : le32 (record.image ++ rest) OFF_VERSION = PM_VERSION := hword (i := 1) rfl rest
  have hexcType : le32 (record.image ++ rest) OFF_EXC_TYPE = e.excType := hword (i := 2) rfl rest
  have hcpsr : le32 (record.image ++ rest) OFF_CPSR = e.spsr := hword (i := 3) rfl rest
  have hpc : le32 (record.image ++ rest) OFF_PC = e.lrExc - lrToPcOffset e.excType :=
    hword (i := 4) rfl rest
  have hlr : le32 (record.image ++ rest) OFF_LR_RAW = e.lrExc := hword (i := 5) rfl rest
  have hr : (fun i : Fin 13 => le32 (record.image ++ rest) (OFF_R + i * 4)) = e.frame := by
    funext i
    have hoffset : OFF_R + i.val * 4 = 4 * (6 + i.val) := by rw [OFF_R]; omega
    rw [hoffset]
    refine hword ?_ rest
    fin_cases i <;> rfl
  have hdfsr : le32 (record.image ++ rest) OFF_DFSR = e.dfsr := hword (i := 19) rfl rest
  have hdfar : le32 (record.image ++ rest) OFF_DFAR = e.dfar := hword (i := 20) rfl rest
  have hifsr : le32 (record.image ++ rest) OFF_IFSR = e.ifsr := hword (i := 21) rfl rest
  have hstored : le32 (record.image ++ rest) OFF_CRC32 = record.crc32 := hword (i := 22) rfl rest
  have hlong : ¬ (record.image ++ rest).length < RECORD_SIZE := by
    rw [List.length_append, hlength]
    omega
  rw [tryParseAndPrint, if_neg hlong, hmagic, hversion, if_neg (not_not_intro rfl),
    if_neg (not_not_intro rfl), htake, hcrc, hexcType, hcpsr, hpc, hlr, hr, hdfsr, hdfar, hifsr,
    hstored, reportOf]

/-! ### The scan -/

theorem accepted_printed (attempt : Attempt) (h : attempt.accepted = true) :
    ∃ report, attempt = .printed report := by
  cases attempt with
  | printed report => exact ⟨report, rfl⟩
  | short => contradiction
  | noMagic => contradiction
  | unsupportedVersion version => contradiction

/-- Where a record is accepted the dump is long enough and shows the magic number. -/
theorem accepted_magic {buf : List UInt8} {offset : ℕ}
    (h : (tryParseAndPrint (buf.drop offset)).accepted = true) :
    offset + RECORD_SIZE ≤ buf.length ∧ le32 buf offset = PM_MAGIC := by
  obtain ⟨report, hreport⟩ := accepted_printed _ h
  have hfirst : le32 (buf.drop offset) OFF_MAGIC = le32 buf offset := by
    rw [le32, le32, slice, slice, OFF_MAGIC, List.drop_zero, List.take_drop]
  rw [tryParseAndPrint, hfirst] at hreport
  split_ifs at hreport with hshort hmagic
  rw [List.length_drop] at hshort
  have hsize : RECORD_SIZE = 92 := rfl
  exact ⟨by omega, not_not.mp hmagic⟩

/-- **The scan finds the first record** that is accepted, `n` words behind where it starts. -/
theorem scan_found (buf : List UInt8) (n offset : ℕ)
    (hnone : ∀ k < n, (tryParseAndPrint (buf.drop (offset + 4 * k))).accepted = false)
    (hfound : (tryParseAndPrint (buf.drop (offset + 4 * n))).accepted = true) :
    (scan buf offset).found =
      some (offset + 4 * n, tryParseAndPrint (buf.drop (offset + 4 * n))) := by
  have hroom := accepted_magic hfound
  induction n generalizing offset with
  | zero =>
    rw [Nat.mul_zero, Nat.add_zero] at *
    rw [scan, if_pos hroom.1, if_pos hroom.2]
    dsimp only
    rw [if_pos hfound]
  | succ n ih =>
    have hnext : offset + 4 * (n + 1) = offset + 4 + 4 * n := by omega
    have hhere := hnone 0 (Nat.zero_lt_succ n)
    rw [hnext] at hfound hroom
    rw [Nat.mul_zero, Nat.add_zero] at hhere
    have hrest := ih (offset + 4) (fun k hk => by
      have hk' := hnone (k + 1) (Nat.succ_lt_succ hk)
      rwa [Nat.mul_succ, Nat.add_comm (4 * k), ← Nat.add_assoc] at hk') hfound hroom
    rw [hnext, scan, if_pos (by omega)]
    -- the record at hand, if it looks like one, is not accepted
    split
    · dsimp only
      rw [hhere, if_neg Bool.false_ne_true]
      exact hrest
    · exact hrest

/-- **The scan finds the first record** only: what is accepted earlier is found instead. -/
theorem scan_found_first {buf : List UInt8} {n : ℕ} {attempt : Attempt}
    (h : (scan buf 0).found = some (4 * n, attempt)) {k : ℕ} (hk : k < n) :
    (tryParseAndPrint (buf.drop (4 * k))).accepted = false := by
  induction k using Nat.strong_induction_on with
  | h k ih =>
    by_contra haccepted
    rw [Bool.not_eq_false] at haccepted
    have hearlier : ∀ j < k, (tryParseAndPrint (buf.drop (0 + 4 * j))).accepted = false := by
      intro j hj
      rw [Nat.zero_add]
      exact ih j hj (hj.trans hk)
    have hscan := scan_found buf k 0 hearlier (by rwa [Nat.zero_add])
    rw [h, Option.some.injEq, Prod.mk.injEq] at hscan
    omega

theorem slice_append {buf : List UInt8} {start stop : ℕ} (h : stop ≤ buf.length)
    (rest : List UInt8) : slice (buf ++ rest) start stop = slice buf start stop := by
  rw [slice, slice, List.take_append_of_le_length h]

/-- A record is read from its own bytes alone. -/
theorem tryParseAndPrint_append {buf : List UInt8} (h : RECORD_SIZE ≤ buf.length)
    (rest : List UInt8) : tryParseAndPrint (buf ++ rest) = tryParseAndPrint buf := by
  have hword (offset : ℕ) (hoffset : offset + 4 ≤ RECORD_SIZE) :
      le32 (buf ++ rest) offset = le32 buf offset := by
    rw [le32, le32, slice_append (hoffset.trans h)]
  have hr : (fun i : Fin 13 => le32 (buf ++ rest) (OFF_R + i * 4)) =
      fun i : Fin 13 => le32 buf (OFF_R + i * 4) := by
    funext i
    refine hword _ ?_
    rw [OFF_R, RECORD_SIZE]
    omega
  have htake : (buf ++ rest).take OFF_CRC32 = buf.take OFF_CRC32 :=
    List.take_append_of_le_length ((by decide : OFF_CRC32 ≤ RECORD_SIZE).trans h)
  have hlong : ¬ (buf ++ rest).length < RECORD_SIZE := by
    rw [List.length_append]
    omega
  rw [tryParseAndPrint, tryParseAndPrint, if_neg hlong, if_neg (Nat.not_lt.mpr h), hr, htake,
    hword OFF_MAGIC (by decide), hword OFF_VERSION (by decide), hword OFF_EXC_TYPE (by decide),
    hword OFF_CPSR (by decide), hword OFF_PC (by decide), hword OFF_LR_RAW (by decide),
    hword OFF_DFSR (by decide), hword OFF_DFAR (by decide), hword OFF_IFSR (by decide),
    hword OFF_CRC32 (by decide)]

/-- No record lies in these bytes. -/
def NoRecord (before : List UInt8) : Prop :=
  ∀ offset < before.length, 4 ∣ offset → (tryParseAndPrint (before.drop offset)).accepted = false

/-- No record of the dump begins in `before` and reaches beyond it. -/
def NoneReachesBeyond (before dump : List UInt8) : Prop :=
  ∀ offset < before.length, before.length < offset + RECORD_SIZE → 4 ∣ offset →
    (tryParseAndPrint (dump.drop offset)).accepted = false

/-- **When a record in a dump is found.** Behind bytes in which no record lies, it is unless one
begins in them and reaches into it. -/
theorem scan_saved_iff (e : Exception) (old : PmRecord) {before : List UInt8} (rest : List UInt8)
    (haligned : 4 ∣ before.length) (hnone : NoRecord before) :
    (scan (before ++ (pmSaveFromExc e old).image ++ rest) 0).found =
        some (before.length, .printed (reportOf e (pmSaveFromExc e old).crc32)) ↔
      NoneReachesBeyond before (before ++ (pmSaveFromExc e old).image ++ rest) := by
  obtain ⟨n, hn⟩ := haligned
  constructor
  · intro hfound offset hlt _ ⟨k, hk⟩
    rw [hn] at hfound
    rw [hk]
    exact scan_found_first hfound (by omega)
  · intro hbeyond
    have hdrop : (before ++ (pmSaveFromExc e old).image ++ rest).drop (0 + 4 * n) =
        (pmSaveFromExc e old).image ++ rest := by
      rw [Nat.zero_add, ← hn, List.append_assoc, List.drop_left]
    have hread := tryParseAndPrint_saved e old rest
    rw [← hdrop] at hread
    have hearlier : ∀ k < n, (tryParseAndPrint
        ((before ++ (pmSaveFromExc e old).image ++ rest).drop (0 + 4 * k))).accepted = false := by
      intro k hk
      rw [Nat.zero_add]
      by_cases hinside : 4 * k + RECORD_SIZE ≤ before.length
      · have hsize : RECORD_SIZE ≤ (before.drop (4 * k)).length := by
          rw [List.length_drop]
          omega
        rw [List.append_assoc, List.drop_append_of_le_length (by omega),
          tryParseAndPrint_append hsize]
        exact hnone (4 * k) (by omega) (Dvd.intro k rfl)
      · exact hbeyond (4 * k) (by omega) (by omega) (Dvd.intro k rfl)
    have hscan := scan_found (before ++ (pmSaveFromExc e old).image ++ rest) n 0 hearlier
      (by rw [hread]; exact beq_self_eq_true _)
    rw [hscan, hread, Nat.zero_add, ← hn]

/-- **Postmortem records survive the trip to the host.** The checksums agree on every byte string.
Whatever the exception and whatever the record was before, the image has 92 bytes and is accepted
as what the exception has left; and in a dump it is found behind a whole number of words in which no
record lies, unless a record begins in them, reaches into the image and is accepted. -/
theorem postmortem_survives (e : Exception) (old : PmRecord) :
    (∀ bytes : List UInt8, crc32Compute (byteAt bytes) 0 bytes.length = crc32 bytes) ∧
    (pmSaveFromExc e old).image.length = 92 ∧
    tryParseAndPrint (pmSaveFromExc e old).image =
      .printed (reportOf e (pmSaveFromExc e old).crc32) ∧
    (tryParseAndPrint (pmSaveFromExc e old).image).accepted = true ∧
    ∀ before rest : List UInt8, 4 ∣ before.length → NoRecord before →
      ((scan (before ++ (pmSaveFromExc e old).image ++ rest) 0).found =
          some (before.length, .printed (reportOf e (pmSaveFromExc e old).crc32)) ↔
        NoneReachesBeyond before (before ++ (pmSaveFromExc e old).image ++ rest)) := by
  have hread := tryParseAndPrint_saved e old []
  rw [List.append_nil] at hread
  refine ⟨fun bytes => ?_, image_length _, hread, ?_, fun before rest => scan_saved_iff e old rest⟩
  · rw [crc32Compute_eq_crc32 bytes _ le_rfl, List.take_length]
  · rw [hread]
    exact beq_self_eq_true _

/-- A data abort. -/
def dataAbort : Exception where
  excType := 3
  spsr := 0x80000013
  lrExc := 0xffff0208
  frame := fun i => UInt32.ofNat (0x11 * i)
  dfsr := 0x805
  dfar := 0xdeadbeec
  ifsr := 0

/-- What the memory held before. -/
def blank : PmRecord := ⟨0, 0, 0, 0, 0, 0, fun _ => 0, 0, 0, 0, 0⟩

/-- The magic number alone does not derail the scan. -/
theorem postmortem_survives_dataAbort :
    (scan (wordBytes [PM_MAGIC, 2] ++ (pmSaveFromExc dataAbort blank).image ++ [0, 1]) 0).found =
      some (8, .printed (reportOf dataAbort (pmSaveFromExc dataAbort blank).crc32)) := by
  have hnone : NoRecord (wordBytes [PM_MAGIC, 2]) := by
    unfold NoRecord
    decide +kernel
  have hbeyond : NoneReachesBeyond (wordBytes [PM_MAGIC, 2])
      (wordBytes [PM_MAGIC, 2] ++ (pmSaveFromExc dataAbort blank).image ++ [0, 1]) := by
    unfold NoneReachesBeyond
    decide +kernel
  exact ((postmortem_survives dataAbort blank).2.2.2.2 _ [0, 1] (by decide) hnone).mpr hbeyond

/-- Words that end with their checksum are accepted as a record. -/
theorem accepted_sealed {words : List UInt32} (hlength : words.length = 22)
    (hmagic : words[0]? = some PM_MAGIC) (hversion : words[1]? = some PM_VERSION)
    (rest : List UInt8) :
    (tryParseAndPrint (wordBytes (words ++ [crc32 (wordBytes words)]) ++ rest)).accepted = true := by
  have hword {i : ℕ} {w : UInt32} (h : (words ++ [crc32 (wordBytes words)])[i]? = some w) :
      le32 (wordBytes (words ++ [crc32 (wordBytes words)]) ++ rest) (4 * i) = w :=
    le32_wordBytes h rest
  have hmagic' := hword (i := 0) (by rwa [List.getElem?_append_left (by omega)])
  have hversion' := hword (i := 1) (by rwa [List.getElem?_append_left (by omega)])
  have hcrc := hword (i := 22) (by
    rw [List.getElem?_append_right hlength.le, hlength, Nat.sub_self, List.getElem?_cons_zero])
  have hsize : OFF_CRC32 = (wordBytes words).length := by
    rw [wordBytes_length, hlength]
    rfl
  have htake : (wordBytes (words ++ [crc32 (wordBytes words)]) ++ rest).take OFF_CRC32 =
      wordBytes words := by
    rw [wordBytes_append, List.append_assoc, hsize, List.take_left]
  have hlong : ¬ (wordBytes (words ++ [crc32 (wordBytes words)]) ++ rest).length < RECORD_SIZE := by
    rw [List.length_append, wordBytes_length, List.length_append, hlength, RECORD_SIZE,
      List.length_singleton]
    omega
  change le32 _ OFF_MAGIC = _ at hmagic'
  change le32 _ OFF_VERSION = _ at hversion'
  change le32 _ OFF_CRC32 = _ at hcrc
  rw [tryParseAndPrint, if_neg hlong, hmagic', hversion', if_neg (not_not_intro rfl),
    if_neg (not_not_intro rfl), htake, hcrc]
  exact beq_self_eq_true _

/-- The beginning of a record, and then the first nineteen words of the image of `dataAbort`. -/
def straddling : List UInt32 :=
  [PM_MAGIC, PM_VERSION, 0] ++ (pmSaveFromExc dataAbort blank).covered.take 19

/-- The fault status happens to be the checksum of these. -/
def chanceAbort : Exception := { dataAbort with dfsr := crc32 (wordBytes straddling) }

/-- Three words that are no record make one together with the image, and it is found instead. -/
theorem record_reaches_into_image :
    ¬ ∀ (e : Exception) (old : PmRecord) (before rest : List UInt8), 4 ∣ before.length →
      NoRecord before →
      (scan (before ++ (pmSaveFromExc e old).image ++ rest) 0).found =
        some (before.length, .printed (reportOf e (pmSaveFromExc e old).crc32)) := by
  intro h
  have hnone : NoRecord (wordBytes [PM_MAGIC, PM_VERSION, 0]) := by
    unfold NoRecord
    decide +kernel
  have hfound := h chanceAbort blank (wordBytes [PM_MAGIC, PM_VERSION, 0]) [] (by decide) hnone
  have hcovered (status : UInt32) : (pmSaveFromExc { dataAbort with dfsr := status } blank).covered =
      (pmSaveFromExc dataAbort blank).covered.take 19 ++
        [status, dataAbort.dfar, dataAbort.ifsr] := rfl
  -- behind the fault status come two more words and the checksum of the image
  have hdump : wordBytes [PM_MAGIC, PM_VERSION, 0] ++ (pmSaveFromExc chanceAbort blank).image ++
      [] = wordBytes (straddling ++ [crc32 (wordBytes straddling)]) ++ wordBytes
        [dataAbort.dfar, dataAbort.ifsr, (pmSaveFromExc chanceAbort blank).crc32] := by
    rw [List.append_nil, PmRecord.image, chanceAbort, hcovered, ← wordBytes_append,
      ← wordBytes_append]
    simp only [straddling, List.append_assoc, List.cons_append, List.nil_append]
  have hfirst := scan_found (wordBytes [PM_MAGIC, PM_VERSION, 0] ++
    (pmSaveFromExc chanceAbort blank).image ++ []) 0 0 (fun _ hk => absurd hk (Nat.not_lt_zero _))
    (by rw [hdump]; exact accepted_sealed rfl rfl rfl _)
  rw [hfound, Option.some.injEq, Prod.mk.injEq] at hfirst
  exact absurd hfirst.1 (by decide)

end PmDecode
