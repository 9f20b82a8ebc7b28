import Zub1cg.System.SequenceGaps

/-!
# The labels of the M3's faults

A fault event carries its sequence number under a constant in the high half, and the host takes
a value for a fault if its high half is this constant. So it knows a fault as long as the
sequence number adds no bit to the high half.

## Main definitions

- `Labelled` — a fault event is taken for one

## Main results

- `fault_labelled_iff` — the events that are labelled right
- `fault_mislabelled` — one that is not
-/

namespace FaultLabels

open Model
open M3 (Event Workload)

/-- If the `n`-th event is a fault, the host takes its value for that fault. -/
def Labelled (seed : UInt32) (n : ℕ) : Prop :=
  ∀ v, Generator.nth Workload.next (Workload.new seed) n = .Fault v →
    classifyPort0 v 4 = .Fault v

/-- The sequence number of the `n`-th event. -/
def sequence (n : ℕ) : UInt32 := UInt32.ofNat (n + 1)

/-- Bits under a constant that is part of a mask are seen through the mask unless they are bits of
the constant. -/
theorem or_and_eq_iff {w : ℕ} {c m : BitVec w} (h : c &&& m = c) (x : BitVec w) :
    (c ||| x) &&& m = c ↔ x &&& (m &&& ~~~c) = 0#w := by
  rw [BitVec.eq_of_getLsbD_eq_iff, BitVec.eq_of_getLsbD_eq_iff]
  refine forall₂_congr fun i hi => ?_
  have hpart : (c.getLsbD i && m.getLsbD i) = c.getLsbD i := by
    rw [← BitVec.getLsbD_and, h]
  simp only [BitVec.getLsbD_and, BitVec.getLsbD_or, BitVec.getLsbD_not, BitVec.getLsbD_zero, hi,
    decide_true, Bool.true_and]
  cases hc : c.getLsbD i with
  | true =>
    rw [hc, Bool.true_and] at hpart
    simp [hpart]
  | false => simp

/-- The high half of a fault's value. -/
theorem high_half_iff (sequence : UInt32) :
    (0xf0010000 ||| sequence) &&& 0xffff0000 = 0xf0010000 ↔ sequence &&& 0x0ffe0000 = 0 := by
  have hbits := or_and_eq_iff (show (0xf0010000#32 &&& 0xffff0000#32) = 0xf0010000#32 from rfl)
    sequence.toBitVec
  rw [← UInt32.toBitVec_inj, ← UInt32.toBitVec_inj]
  exact hbits

/-- What the host takes the value of a fault for. -/
theorem classify_fault (sequence : UInt32) :
    classifyPort0 (0xf0010000 ||| sequence) 4 = .Fault (0xf0010000 ||| sequence) ↔
      sequence &&& 0x0ffe0000 = 0 := by
  rw [← high_half_iff, classifyPort0, if_neg (by decide)]
  constructor
  · intro hfault
    by_contra hother
    rw [if_neg (fun hboth => hother hboth.2)] at hfault
    split at hfault
    · cases hfault
    · split at hfault <;> cases hfault
  · intro hhalf
    rw [if_pos ⟨rfl, hhalf⟩]

/-- The event and its sequence number. -/
theorem nth_fault_iff (seed : UInt32) (n : ℕ) (v : UInt32) :
    Generator.nth Workload.next (Workload.new seed) n = .Fault v ↔
      sequence n &&& 15 = 3 ∧ v = 0xf0010000 ||| sequence n := by
  have hsequence : UInt32.ofNat n + 1 = sequence n := (UInt32.ofNat_add n 1).symm
  rw [Generator.nth, SequenceGaps.after_eq, Workload.next, hsequence]
  dsimp only
  rw [← UInt32.toNat_inj]
  change _ ↔ (sequence n &&& 15).toNat = 3 ∧ _
  generalize (sequence n &&& 15).toNat = low
  split
  all_goals simp_all [eq_comm]

/-- **Which faults are labelled.** Whatever the seed, the `n`-th event is labelled right if and only
if it is no fault or none of the bits 17 to 27 of its sequence number is set. -/
theorem fault_labelled_iff (seed : UInt32) (n : ℕ) :
    Labelled seed n ↔ sequence n &&& 15 ≠ 3 ∨ sequence n &&& 0x0ffe0000 = 0 := by
  rw [Labelled]
  simp only [nth_fault_iff]
  constructor
  · intro hlabelled
    by_cases hfault : sequence n &&& 15 = 3
    · exact .inr ((classify_fault _).mp (hlabelled _ ⟨hfault, rfl⟩))
    · exact .inl hfault
  · rintro (hnone | hsmall) v ⟨hfault, rfl⟩
    · exact absurd hfault hnone
    · exact (classify_fault _).mpr hsmall

/-- The sequence number has got to bit 17. -/
theorem fault_mislabelled : ¬ ∀ (seed : UInt32) (n : ℕ), Labelled seed n := by
  intro h
  have hlabelled := h 7 0x20002 _ ((nth_fault_iff 7 0x20002 _).mpr ⟨by decide, rfl⟩)
  have hbit := (classify_fault _).mp hlabelled
  exact absurd hbit (by decide)

end FaultLabels
