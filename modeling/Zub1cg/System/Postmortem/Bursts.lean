import Zub1cg.Library.ReflectedCrc
import Zub1cg.System.Postmortem

/-!
# Bursts in postmortem records (`tooling/pm_decode/src/main.rs`, `sdk/bsp/rpu/postmortem.c`)

The checksum of a record has 32 bits and is that of a generator whose top bit is set, so no change
within four consecutive bytes goes unnoticed, wherever they lie: in what is covered, in the
checksum, or in both.

## Main definitions

- `PmDecode.Checks` — a byte string that ends in the checksum of what lies before it

## Main results

- `crcByte_absorb` — the loop over the bits of a byte absorbs a symbol
- `checks_iff` — a message checks if it leaves the residue
- `burst_detected` — no burst goes unnoticed
-/

namespace PmDecode

open Postmortem ReflectedCrc

/-! ### The loop over the bits -/

/-- The generator, reflected. -/
def GENERATOR : BitVec 32 := 0xEDB88320#32

/-- What the remainder starts from, and what is added to it at the end. -/
def ONES : BitVec 32 := 0xFFFFFFFF#32

/-- A byte as a symbol. -/
def symbol (b : UInt8) : BitVec 32 := b.toUInt32.toBitVec

theorem getLsbD_symbol (b : UInt8) (i : ℕ) : (symbol b).getLsbD i = b.toBitVec.getLsbD i := by
  rw [symbol, UInt8.toBitVec_toUInt32, BitVec.getLsbD_setWidth]
  by_cases hi : i < 32
  · simp [hi]
  · simp [hi, BitVec.getLsbD_of_ge b.toBitVec i (by omega)]

theorem narrow_symbol (b : UInt8) : Narrow 8 (symbol b) := by
  intro i hi
  rw [getLsbD_symbol, BitVec.getLsbD_of_ge _ _ hi]

theorem symbol_injective : Function.Injective symbol := by
  intro a b h
  apply UInt8.toBitVec_inj.mp
  apply BitVec.eq_of_getLsbD_eq
  intro i _
  rw [← getLsbD_symbol, h, getLsbD_symbol]

theorem symbol_shiftRight (b : UInt8) : symbol (b >>> 1) = symbol b >>> 1 := by
  apply BitVec.eq_of_getLsbD_eq
  intro i _
  rw [BitVec.getLsbD_ushiftRight, getLsbD_symbol, getLsbD_symbol]
  exact BitVec.getLsbD_ushiftRight _ 1 i

/-- The test of the lowest bit. -/
theorem lowBit_iff (x : UInt32) : x &&& 1 ≠ 0 ↔ x.toBitVec.getLsbD 0 = true := by
  have hand : (x &&& 1).toBitVec =
      BitVec.setWidth 32 (BitVec.ofBool (x.toBitVec.getLsbD 0)) :=
    BitVec.and_one_eq_setWidth_ofBool_getLsbD
  rw [ne_eq, ← UInt32.toBitVec_inj, hand]
  cases x.toBitVec.getLsbD 0 <;> decide

theorem toBitVec_shiftRight_one (x : UInt32) : (x >>> 1).toBitVec = x.toBitVec >>> 1 := rfl

/-- A turn of the loop is a step of the remainder with the rest of the byte added. -/
theorem crcBit_shift (crc : UInt32) (b : UInt8) :
    (crcBit crc b).1.toBitVec ^^^ symbol (crcBit crc b).2 =
      shift GENERATOR (crc.toBitVec ^^^ symbol b) := by
  have hbit := lowBit_iff (crc ^^^ b.toUInt32)
  have hxor : (crc ^^^ b.toUInt32).toBitVec = crc.toBitVec ^^^ symbol b := rfl
  rw [hxor] at hbit
  rw [crcBit, symbol_shiftRight, shift, BitVec.ushiftRight_xor_distrib]
  split
  · rw [if_pos (hbit.mp ‹_›), UInt32.toBitVec_xor, toBitVec_shiftRight_one, BitVec.xor_assoc,
      BitVec.xor_comm _ (symbol b >>> 1), ← BitVec.xor_assoc]
    rfl
  · rw [if_neg (mt hbit.mpr ‹_›), toBitVec_shiftRight_one]

theorem crcBits_shift (n : ℕ) (crc : UInt32) (b : UInt8) :
    (crcBits n crc b).toBitVec ^^^ (symbol b >>> n) =
      (shift GENERATOR)^[n] (crc.toBitVec ^^^ symbol b) := by
  induction n generalizing crc b with
  | zero => rw [BitVec.ushiftRight_zero]; rfl
  | succ n ih =>
    have hrest : symbol b >>> (n + 1) = symbol (crcBit crc b).2 >>> n := by
      rw [crcBit, symbol_shiftRight, ← BitVec.shiftRight_add, Nat.add_comm]
    rw [crcBits, hrest, ih, crcBit_shift, Function.iterate_succ_apply]

/-- The loop over the bits of a byte absorbs the byte. -/
theorem crcByte_absorb (crc : UInt32) (b : UInt8) :
    (crcByte crc b).toBitVec = absorb GENERATOR 8 crc.toBitVec (symbol b) := by
  have hgone : symbol b >>> 8 = 0#32 := by
    apply BitVec.eq_of_getLsbD_eq
    intro i _
    rw [BitVec.getLsbD_ushiftRight, narrow_symbol b _ (Nat.le_add_right 8 i), BitVec.getLsbD_zero]
  rw [← crcBits_eight, absorb, ← crcBits_shift, hgone, BitVec.xor_zero]

theorem foldl_crcByte (bytes : List UInt8) (crc : UInt32) :
    (bytes.foldl crcByte crc).toBitVec =
      run GENERATOR 8 crc.toBitVec (bytes.map symbol) := by
  induction bytes generalizing crc with
  | nil => rfl
  | cons b bytes ih => rw [List.foldl_cons, ih, crcByte_absorb]; rfl

theorem crc32_run (bytes : List UInt8) :
    (crc32 bytes).toBitVec = run GENERATOR 8 ONES (bytes.map symbol) ^^^ ONES := by
  rw [crc32, UInt32.toBitVec_xor, foldl_crcByte]
  rfl

theorem generator_top : GENERATOR.msb = true := by decide

/-! ### Messages that end in their checksum -/

/-- The last four bytes are the checksum of what lies before them. -/
def Checks (message : List UInt8) : Prop :=
  crc32 (message.take (message.length - 4)) = le32 message (message.length - 4)

instance (message : List UInt8) : Decidable (Checks message) := by
  unfold Checks
  infer_instance

/-- The four bytes of a word lie side by side. -/
theorem toBitVec_u32FromLe (bytes : List UInt8) :
    (u32FromLe bytes).toBitVec = pack 8 (bytes.map symbol) := by
  have hnat : BitVec.ofNat 32 (LittleEndian.toNat bytes) = pack 8 (bytes.map symbol) := by
    induction bytes with
    | nil => rfl
    | cons b bytes ih =>
      rw [List.map_cons, pack, ← ih, LittleEndian.toNat_cons]
      apply BitVec.eq_of_getLsbD_eq
      intro i hi
      have hbit := Nat.testBit_two_pow_mul_add (LittleEndian.toNat bytes) b.toNat_lt i
      rw [Nat.add_comm] at hbit
      rw [BitVec.getLsbD_xor, BitVec.getLsbD_shiftLeft, getLsbD_symbol, BitVec.getLsbD_ofNat,
        BitVec.getLsbD_ofNat]
      by_cases hlow : i < 8
      · rw [if_pos hlow] at hbit
        simp only [hi, hlow, decide_true, Bool.true_and, Bool.not_true, Bool.false_and,
          Bool.and_false, Bool.xor_false]
        exact hbit
      · rw [if_neg hlow] at hbit
        have hgone : b.toBitVec.getLsbD i = false := BitVec.getLsbD_of_ge _ _ (by omega)
        have hroom : i - 8 < 32 := by omega
        simp only [hi, hlow, hroom, hgone, decide_true, decide_false, Bool.true_and,
          Bool.not_false, Bool.false_xor]
        exact hbit
  exact hnat

/-- What a message that checks leaves. -/
def RESIDUE : BitVec 32 := (shift GENERATOR)^[32] ONES

/-- A message checks if it leaves the residue. -/
theorem checks_iff {message : List UInt8} (h : 4 ≤ message.length) :
    Checks message ↔ run GENERATOR 8 ONES (message.map symbol) = RESIDUE := by
  have hsum : ((message.drop (message.length - 4)).map symbol).length = 4 := by
    rw [List.length_map, List.length_drop]
    omega
  have hnarrow : ∀ x ∈ (message.drop (message.length - 4)).map symbol, Narrow 8 x :=
    List.forall_mem_map.mpr fun b _ => narrow_symbol b
  have hword : le32 message (message.length - 4) =
      u32FromLe (message.drop (message.length - 4)) := by
    rw [le32, slice, Nat.sub_add_cancel h, List.take_length]
  have hresidue := @run_residue _ _ _ generator_top ((message.take (message.length - 4)).map symbol)
    _ hnarrow (by rw [hsum]) ONES ONES
  rw [← List.map_append, List.take_append_drop] at hresidue
  rw [Checks, ← UInt32.toBitVec_inj, crc32_run, hword, toBitVec_u32FromLe, RESIDUE, hresidue]

/-- Of two messages that agree outside of four bytes only one checks. -/
theorem checks_unique {k : ℕ} {message message' : List UInt8} (hsize : 4 ≤ message.length)
    (hagree : AgreeOutside k 4 message message') (h : Checks message) (h' : Checks message') :
    message = message' := by
  rw [checks_iff hsize] at h
  rw [checks_iff (hagree.1 ▸ hsize)] at h'
  obtain ⟨before, xs, ys, behind, rfl, rfl, hlength, hshort⟩ := hagree.split
  simp only [List.map_append] at h h'
  have hwindow := window_eq generator_top (List.forall_mem_map.mpr fun b _ => narrow_symbol b)
    (List.forall_mem_map.mpr fun b _ => narrow_symbol b)
    (by rw [List.length_map, List.length_map, hlength]) (by rw [List.length_map]; omega)
    (h.trans h'.symm)
  rw [symbol_injective.list_map hwindow]

/-- A byte string with its checksum appended checks. -/
theorem checks_sealed (data : List UInt8) : Checks (data ++ u32ToLe (crc32 data)) := by
  have hsize : (data ++ u32ToLe (crc32 data)).length - 4 = data.length := by
    rw [List.length_append, u32ToLe_length, Nat.add_sub_cancel]
  have hend : (data ++ u32ToLe (crc32 data)).take (data.length + 4) =
      data ++ u32ToLe (crc32 data) := by
    rw [← u32ToLe_length (crc32 data), ← List.length_append, List.take_length]
  rw [Checks, hsize, List.take_left, le32, slice, hend, List.drop_left, u32FromLe_u32ToLe]

/-! ### Records -/

/-- A record that is accepted checks. -/
theorem accepted_checks {buf : List UInt8} (h : (tryParseAndPrint buf).accepted = true) :
    RECORD_SIZE ≤ buf.length ∧ Checks (buf.take RECORD_SIZE) := by
  obtain ⟨report, hreport⟩ := accepted_printed _ h
  rw [hreport] at h
  rw [tryParseAndPrint] at hreport
  split_ifs at hreport with hshort hmagic hversion
  cases hreport
  have hsize : (buf.take RECORD_SIZE).length - 4 = OFF_CRC32 := by
    rw [List.length_take_of_le (Nat.not_lt.mp hshort), RECORD_SIZE, OFF_CRC32]
  have hword : le32 (buf.take RECORD_SIZE) OFF_CRC32 = le32 buf OFF_CRC32 := by
    rw [le32, le32, slice, slice, List.take_take]
    rfl
  refine ⟨Nat.not_lt.mp hshort, ?_⟩
  rw [Checks, hsize, hword, List.take_take, OFF_CRC32, RECORD_SIZE]
  exact eq_of_beq h

/-- A record that differs from an accepted one in a window is not accepted. -/
theorem accepted_unique {k : ℕ} {image image' : List UInt8}
    (h : (tryParseAndPrint image).accepted = true)
    (hagree : ∀ i < RECORD_SIZE, i < k ∨ k + 4 ≤ i → image[i]? = image'[i]?)
    (h' : (tryParseAndPrint image').accepted = true) :
    image.take RECORD_SIZE = image'.take RECORD_SIZE := by
  obtain ⟨hlong, hchecks⟩ := accepted_checks h
  obtain ⟨hlong', hchecks'⟩ := accepted_checks h'
  have hlength := List.length_take_of_le hlong
  have hwindow : AgreeOutside k 4 (image.take RECORD_SIZE) (image'.take RECORD_SIZE) := by
    refine ⟨hlength.trans (List.length_take_of_le hlong').symm, fun i hi => ?_⟩
    rw [List.getElem?_take, List.getElem?_take]
    split
    · exact hagree i ‹_› hi
    · rfl
  exact checks_unique (by rw [hlength]; decide) hwindow hchecks hchecks'

/-- **No burst goes unnoticed.** A byte string with its checksum appended checks; after a change
within any four consecutive bytes it does not, neither for the reader nor for the writer. And a
record that differs from an accepted one within four consecutive bytes only is not accepted. -/
theorem burst_detected :
    (∀ data : List UInt8, Checks (data ++ u32ToLe (crc32 data)) ∧
      ∀ (k : ℕ) (tampered : List UInt8),
        AgreeOutside k 4 (data ++ u32ToLe (crc32 data)) tampered →
        tampered ≠ data ++ u32ToLe (crc32 data) →
          ¬ Checks tampered ∧
          crc32Compute (byteAt tampered) 0 data.length ≠ le32 tampered data.length) ∧
    ∀ (k : ℕ) (image image' : List UInt8), (tryParseAndPrint image).accepted = true →
      (∀ i < RECORD_SIZE, i < k ∨ k + 4 ≤ i → image[i]? = image'[i]?) →
      image'.take RECORD_SIZE ≠ image.take RECORD_SIZE →
        (tryParseAndPrint image').accepted = false := by
  refine ⟨fun data => ⟨checks_sealed data, fun k tampered hagree hne => ?_⟩,
    fun k image image' h hagree hne => ?_⟩
  · have hlength := hagree.1
    rw [List.length_append, u32ToLe_length] at hlength
    have hchecks : ¬ Checks tampered := fun hchecks =>
      hne (checks_unique (by rw [List.length_append, u32ToLe_length]; omega) hagree
        (checks_sealed data) hchecks).symm
    refine ⟨hchecks, ?_⟩
    rw [Checks, ← hlength, Nat.add_sub_cancel] at hchecks
    rwa [crc32Compute_eq_crc32 tampered data.length (by omega)]
  · exact Bool.eq_false_iff.mpr fun h' => hne (accepted_unique h hagree h').symm

/-- A change that straddles what is covered and the checksum. -/
theorem burst_detected_straddling :
    (tryParseAndPrint
      (((pmSaveFromExc dataAbort blank).image.set 86 0xA5).set 89 0x5A)).accepted = false := by
  have hread := tryParseAndPrint_saved dataAbort blank []
  rw [List.append_nil] at hread
  refine burst_detected.2 86 (pmSaveFromExc dataAbort blank).image _ ?_ (fun i hi hout => ?_)
    fun h => ?_
  · rw [hread]
    exact beq_self_eq_true _
  · rw [List.getElem?_set_ne (by omega), List.getElem?_set_ne (by omega)]
  · have hbyte := congrArg (fun bytes => bytes[86]?) h
    exact absurd hbyte (by decide)

end PmDecode
