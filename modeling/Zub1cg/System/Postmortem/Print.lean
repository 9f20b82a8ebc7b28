import Zub1cg.System.Postmortem
import Mathlib.Tactic.IntervalCases

/-!
# Printing a postmortem record (`sdk/bsp/rpu/postmortem.c`)

After a reset `pm_print` looks at whatever the memory of the record has come up with. The header
says that it does nothing unless the record is valid and its checksum is right. What is modelled is
the sequence of strings that go to the UART, and what the record is afterwards.

## Main definitions

- `Postmortem.pmPrint`, `report` — what is printed
- `Contract` — what the header says
- `recordAt` — the record that the memory holds

## Main results

- `contract_iff` — what the memory holds when it is kept
- `pmPrint_corrupt` — what happens to the others
- `pmPrint_saved` — a record that was written completely is printed once
-/

namespace Postmortem

def PM_EXC_UNDEF : UInt32 := 1
def PM_EXC_PREFETCH : UInt32 := 2

/-- `"0123456789abcdef"[v & 0xF]` -/
def hexDigit (v : UInt32) : Char := Nat.digitChar (v &&& 0xF).toNat

/-- The loop over the places of a word, lowest first, with the number of places left and the digits
behind them. -/
def hexDigits : ℕ → UInt32 → List Char → List Char
  | 0, _, buf => buf
  | i + 1, v, buf => hexDigits i (v >>> 4) (hexDigit v :: buf)

/-- What `print_hex32` passes to `uart_print`. -/
def printHex32 (v : UInt32) : String := "0x" ++ String.ofList (hexDigits 8 v [])

/-- `exc_name` -/
def excName (t : UInt32) : String :=
  if t = PM_EXC_UNDEF then "undef"
  else if t = PM_EXC_PREFETCH then "prefetch"
  else if t = PM_EXC_DABT then "data-abort"
  else "reserved"

/-- What `pm_print` passes to `uart_print`. -/
def report (record : PmRecord) (crcTag : String) : List String :=
  ["[POSTMORTEM] exc=", excName record.excType,
    " pc=", printHex32 record.pc,
    " lr=", printHex32 record.lrRaw,
    " cpsr=", printHex32 record.cpsr,
    " crc=", crcTag,
    "\r\n",
    "[POSTMORTEM] r0=", printHex32 (record.r 0),
    " r1=", printHex32 (record.r 1),
    " r2=", printHex32 (record.r 2),
    " r3=", printHex32 (record.r 3),
    "\r\n",
    "[POSTMORTEM] r4=", printHex32 (record.r 4),
    " r5=", printHex32 (record.r 5),
    " r6=", printHex32 (record.r 6),
    " r7=", printHex32 (record.r 7),
    "\r\n",
    "[POSTMORTEM] r8=", printHex32 (record.r 8),
    " r9=", printHex32 (record.r 9),
    " r10=", printHex32 (record.r 10),
    " r11=", printHex32 (record.r 11),
    " r12=", printHex32 (record.r 12),
    "\r\n",
    "[POSTMORTEM] dfsr=", printHex32 record.dfsr,
    " dfar=", printHex32 record.dfar,
    " ifsr=", printHex32 record.ifsr,
    "\r\n"]

/-- The checksum that `pm_print` computes. -/
def PmRecord.computedCrc (record : PmRecord) : UInt32 :=
  crc32Compute (byteAt record.image) 0 CRC32_OFFSET

/-- `pm_print`: what the record is afterwards, and what goes to the UART. -/
def pmPrint (record : PmRecord) : PmRecord × List String :=
  if record.magic ≠ PM_MAGIC then (record, [])
  else
    let crcTag := if record.computedCrc = record.crc32 then "OK" else "BAD"
    ({ record with magic := 0 }, report record crcTag)

/-! ### The contract -/

/-- The record is valid and its checksum is right. -/
def PmRecord.Valid (record : PmRecord) : Prop :=
  record.magic = PM_MAGIC ∧ record.computedCrc = record.crc32

instance (record : PmRecord) : Decidable record.Valid := by
  unfold PmRecord.Valid
  infer_instance

/-- A record that is not valid is left alone, and nothing is printed. One that is valid is printed
once. -/
def Contract (record : PmRecord) : Prop :=
  if record.Valid then
    (pmPrint record).2 = report record "OK" ∧ (pmPrint (pmPrint record).1).2 = []
  else pmPrint record = (record, [])

theorem pmPrint_blank {record : PmRecord} (h : record.magic ≠ PM_MAGIC) :
    pmPrint record = (record, []) := if_pos h

/-- Whatever the record was, it is not printed twice. -/
theorem pmPrint_pmPrint (record : PmRecord) : (pmPrint (pmPrint record).1).2 = [] := by
  by_cases hmagic : record.magic = PM_MAGIC
  · have hcleared : (pmPrint record).1.magic ≠ PM_MAGIC := by
      rw [pmPrint, if_neg (not_not_intro hmagic)]
      exact show (0 : UInt32) ≠ PM_MAGIC by decide
    rw [pmPrint_blank hcleared]
  · rw [pmPrint_blank hmagic, pmPrint_blank hmagic]

theorem pmPrint_valid {record : PmRecord} (h : record.Valid) :
    pmPrint record = ({ record with magic := 0 }, report record "OK") := by
  rw [pmPrint, if_neg (not_not_intro h.1), if_pos h.2]

/-- A record with the magic number is printed, and lost, when its checksum is wrong as well. -/
theorem pmPrint_corrupt {record : PmRecord} (hmagic : record.magic = PM_MAGIC)
    (hcrc : record.computedCrc ≠ record.crc32) :
    pmPrint record = ({ record with magic := 0 }, report record "BAD") := by
  rw [pmPrint, if_neg (not_not_intro hmagic), if_neg hcrc]

theorem not_contract {record : PmRecord} (hmagic : record.magic = PM_MAGIC)
    (hcrc : record.computedCrc ≠ record.crc32) : ¬ Contract record := by
  intro h
  rw [Contract, if_neg fun hvalid => hcrc hvalid.2, pmPrint_corrupt hmagic hcrc] at h
  -- something has been printed
  exact absurd (congrArg Prod.snd h) (List.cons_ne_nil _ _)

/-- The checksum does not cover itself. -/
theorem computedCrc_seal (record : PmRecord) (crc : UInt32) :
    { record with crc32 := crc }.computedCrc = record.computedCrc := by
  have hcrc (record : PmRecord) :
      record.computedCrc = PmDecode.crc32 (wordBytes record.covered) := by
    have hlength : CRC32_OFFSET ≤ record.image.length := by
      rw [PmDecode.image_length]
      decide
    rw [PmRecord.computedCrc, PmDecode.crc32Compute_eq_crc32 _ _ hlength]
    exact congrArg _ (PmDecode.image_take record)
  rw [hcrc, hcrc, PmDecode.covered_seal]

theorem valid_saved (e : Exception) (old : PmRecord) : (pmSaveFromExc e old).Valid :=
  ⟨rfl, computedCrc_seal (old.fill e) _⟩

/-- A record that was written completely is printed, as it was written. -/
theorem pmPrint_saved (e : Exception) (old : PmRecord) :
    (pmPrint (pmSaveFromExc e old)).2 = report (pmSaveFromExc e old) "OK" := by
  rw [pmPrint_valid (valid_saved e old)]

/-! ### What the memory can hold -/

theorem exists_words (n : ℕ) {bytes : List UInt8} (h : bytes.length = 4 * n) :
    ∃ words, words.length = n ∧ wordBytes words = bytes := by
  induction n generalizing bytes with
  | zero => exact ⟨[], rfl, (List.length_eq_zero_iff.mp h).symm⟩
  | succ n ih =>
    have hrest : (bytes.drop 4).length = 4 * n := by
      rw [List.length_drop]
      omega
    obtain ⟨words, hlength, hwords⟩ := ih hrest
    refine ⟨u32FromLe (bytes.take 4) :: words, congrArg Nat.succ hlength, ?_⟩
    have hfirst : (bytes.take 4).length = 4 := List.length_take_of_le (by omega)
    rw [wordBytes, List.flatMap_cons, ← wordBytes, hwords, u32ToLe_u32FromLe hfirst,
      List.take_append_drop]

/-- The record that the memory holds. -/
def recordAt (content : Fin PmDecode.RECORD_SIZE → UInt8) : PmRecord :=
  let word (i : ℕ) : UInt32 := PmDecode.le32 (List.ofFn content) (4 * i)
  { magic := word 0
    version := word 1
    excType := word 2
    cpsr := word 3
    pc := word 4
    lrRaw := word 5
    r := fun i => word (6 + i)
    dfsr := word 19
    dfar := word 20
    ifsr := word 21
    crc32 := word 22 }

/-- Whatever the memory holds is a record, and nothing of it is left out. -/
theorem image_recordAt (content : Fin PmDecode.RECORD_SIZE → UInt8) :
    (recordAt content).image = List.ofFn content := by
  obtain ⟨words, hlength, hwords⟩ := exists_words 23 (List.length_ofFn (f := content))
  have hword (i : ℕ) (hi : i < words.length) :
      PmDecode.le32 (List.ofFn content) (4 * i) = words[i] := by
    have hread := PmDecode.le32_wordBytes (List.getElem?_eq_getElem hi) []
    rwa [List.append_nil, hwords] at hread
  rw [PmRecord.image]
  refine (congrArg wordBytes ?_).trans hwords
  refine List.ext_getElem hlength.symm fun i _ hi => ?_
  have hi' : i < 23 := hlength ▸ hi
  rw [← hword i hi]
  interval_cases i <;> rfl

/-- **When the contract is kept.** Whatever the memory holds, the contract is kept if the magic
number is missing or the checksum is right. -/
theorem contract_iff (content : Fin PmDecode.RECORD_SIZE → UInt8) :
    (recordAt content).image = List.ofFn content ∧
    (Contract (recordAt content) ↔
      (recordAt content).magic ≠ PM_MAGIC ∨
        (recordAt content).computedCrc = (recordAt content).crc32) := by
  refine ⟨image_recordAt content, ?_⟩
  generalize recordAt content = record
  refine ⟨fun h => ?_, fun h => ?_⟩
  · by_contra hfails
    rw [not_or, not_not] at hfails
    exact not_contract hfails.1 hfails.2 h
  · rw [Contract]
    split
    · have hvalid : record.Valid := ‹_›
      rw [pmPrint_pmPrint, pmPrint_valid hvalid]
      exact ⟨rfl, rfl⟩
    · have hmagic : record.magic ≠ PM_MAGIC := fun hmagic =>
        h.elim (fun hne => hne hmagic) fun hcrc => ‹¬ record.Valid› ⟨hmagic, hcrc⟩
      exact pmPrint_blank hmagic

/-- A record that has lost a bit of its checksum. -/
def flipped : PmRecord :=
  { pmSaveFromExc PmDecode.dataAbort PmDecode.blank with
    crc32 := (pmSaveFromExc PmDecode.dataAbort PmDecode.blank).crc32 ^^^ 1 }

theorem contract_flipped : ¬ Contract flipped := by
  have hsaved := valid_saved PmDecode.dataAbort PmDecode.blank
  refine not_contract hsaved.1 ?_
  rw [flipped, computedCrc_seal, hsaved.2]
  generalize (pmSaveFromExc PmDecode.dataAbort PmDecode.blank).crc32 = crc
  intro h
  rw [← UInt32.xor_zero (a := crc), UInt32.xor_assoc, UInt32.xor_right_inj] at h
  exact absurd h (by decide)

end Postmortem
