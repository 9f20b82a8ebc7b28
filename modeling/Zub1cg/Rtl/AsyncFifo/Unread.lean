import Zub1cg.Rtl.AsyncFifo.Correctness

/-!
# A FIFO that nobody reads

Without reads the read pointer stays where the reset has put it, and so do its copies in the
write domain. The FIFO takes words until it is full, and from then on none. Resets of the two
domains may come and go independently of each other.

## Main definitions

- `AsyncFifo.Unread` — what the registers of an unread FIFO hold after `n` words
- `AsyncFifo.taken` — the words taken since the last reset of the write side

## Main results

- `Unread.writeReady_iff` — such a FIFO takes one word less than it has room for
- `Unread.step` — one instant
-/

namespace AsyncFifo

open GrayCode

variable {α : Type} {depthLog2 : ℕ}

/-- The read pointer and its copies are zero, and `n` words have been written. -/
structure Unread (n : ℕ) (s : State α depthLog2) : Prop where
  rdGray : s.rdGray = 0
  rdGrayW1 : s.rdGrayW1 = 0
  rdGrayW2 : s.rdGrayW2 = 0
  wrBin : s.wrBin = BitVec.ofNat _ n
  fits : n < 2 ^ depthLog2

/-- The number of words taken since the last reset of the write side, if it was `n` before this
instant. -/
def taken (i : Input α depthLog2) (s : State α depthLog2) (n : ℕ) : ℕ :=
  if i.writeClk then
    if !i.writeResetN then 0 else if writeFire i s then n + 1 else n
  else n

theorem unread_reset (mem : BitVec depthLog2 → α) : Unread 0 (resetState mem) :=
  ⟨rfl, rfl, rfl, rfl, Nat.two_pow_pos _⟩

variable {n : ℕ} {i : Input α depthLog2} {s : State α depthLog2}

/-- The write domain's registers that `Unread` speaks of, after one instant. -/
theorem step_write (i : Input α depthLog2) (s : State α depthLog2) :
    (step i s).rdGray = rdGrayAfter i s ∧
      (step i s).rdGrayW1 =
        (if i.writeClk then
          if !i.writeResetN then 0 else sample s.rdGray (rdGrayAfter i s) i.rdGrayCatch
        else s.rdGrayW1) ∧
      (step i s).rdGrayW2 =
        (if i.writeClk then if !i.writeResetN then 0 else s.rdGrayW1 else s.rdGrayW2) ∧
      (step i s).wrBin =
        (if i.writeClk then if !i.writeResetN then 0 else wrNext i s else s.wrBin) := by
  cases hwc : i.writeClk <;> cases hrc : i.readClk <;> cases hw : i.writeResetN <;>
    cases hr : i.readResetN <;> cases hwf : writeFire i s <;> cases hrf : readFire i s <;>
    simp [step, writeEdge, readEdge, rdGrayAfter, wrNext, hwc, hrc, hw, hr, hwf, hrf]

/-- One word less than there is room for, and it is full. -/
theorem Unread.writeReady_iff (h : Unread n s) (hd : 1 ≤ depthLog2) :
    writeReady s = true ↔ n + 1 < 2 ^ depthLog2 := by
  have hfits := h.fits
  have hread : s.rdGrayW2 = gray (BitVec.ofNat _ 0) := h.rdGrayW2.trans gray_zero.symm
  have hready := writeReady_counts hd h.wrBin hread (Nat.zero_le n) (by omega)
  rwa [Nat.zero_add] at hready

/-- Whatever an instant does without reading, the FIFO is still an unread one. -/
theorem Unread.step (h : Unread n s) (hd : 1 ≤ depthLog2) (hread : i.readReady = false) :
    Unread (taken i s n) (step i s) := by
  -- a reset of the read side puts the pointer where it is already
  have hpointer : rdGrayAfter i s = 0 := by
    rw [rdGrayAfter, readFire, hread, Bool.and_false, h.rdGray, if_neg Bool.false_ne_true]
    split_ifs <;> rfl
  obtain ⟨hrd, hw1, hw2, hwr⟩ := step_write i s
  rw [hpointer, h.rdGray, sample_self, h.rdGrayW1] at hw1
  rw [h.rdGrayW1, h.rdGrayW2] at hw2
  refine ⟨hrd.trans hpointer, ?_, ?_, ?_, ?_⟩
  · rw [hw1]
    split_ifs <;> rfl
  · rw [hw2]
    split_ifs <;> rfl
  · rw [hwr, taken, wrNext, h.wrBin]
    split_ifs
    · rfl
    · exact ofNat_succ
    · exact BitVec.add_zero _
    · rfl
  · have hroom : writeFire i s = true → n + 1 < 2 ^ depthLog2 := by
      intro hfire
      rw [writeFire, Bool.and_eq_true] at hfire
      exact (h.writeReady_iff hd).mp hfire.2
    rw [taken]
    split_ifs with _ _ hfire
    · exact Nat.two_pow_pos _
    · exact hroom hfire
    · exact h.fits
    · exact h.fits

end AsyncFifo
