import Zub1cg.Rtl.AsyncFifo.Correctness

/-!
# The fill level of the asynchronous FIFO

What the writer may know of the FIFO's occupancy is how far its own pointer is ahead of the
last read pointer that has come through to it. `write_level` is meant to be that distance, but
where the Gray-coded read pointer ought to be decoded it is encoded a second time. The two
agree on the first four values of the pointer and on no other.

## Main definitions

- `AsyncFifo.readPointer` — the read pointer that the writer sees
- `AsyncFifo.occupancy` — how far the write pointer is ahead of it
- `AsyncFifo.content` — the words that are in the FIFO

## Main results

- `Tracks.content_eq` — the words that have been accepted and not yet consumed
- `Tracks.occupancy_eq`, `Tracks.occupancy_step` — the occupancy in words, and how it moves
- `Tracks.writeLevel_eq_iff` — when `write_level` is the occupancy
-/

namespace AsyncFifo

open GrayCode

variable {α : Type} {depthLog2 : ℕ}

/-- The binary value of `rd_gray_w2`, the read pointer last synchronised into the write
domain. -/
def readPointer (s : State α depthLog2) : BitVec (depthLog2 + 1) := ungray s.rdGrayW2

/-- The distance from that pointer to the write pointer. -/
def occupancy (s : State α depthLog2) : BitVec (depthLog2 + 1) := s.wrBin - readPointer s

/-- The distance of two counts less than a turn apart, in words of `w` bits. -/
theorem toNat_ofNat_sub {w a b : ℕ} (hle : b ≤ a) (hlt : a - b < 2 ^ w) :
    (BitVec.ofNat w a - BitVec.ofNat w b).toNat = a - b := by
  have hsum : BitVec.ofNat w a = BitVec.ofNat w (a - b) + BitVec.ofNat w b := by
    rw [← BitVec.ofNat_add, Nat.sub_add_cancel hle]
  rw [hsum, BitVec.add_sub_cancel, BitVec.toNat_ofNat, Nat.mod_eq_of_lt hlt]

/-- The words between the read pointer and the write pointer, the one that is due first. -/
def content (s : State α depthLog2) : List α :=
  (List.range (s.wrBin - s.rdBin).toNat).map fun k =>
    s.mem ((s.rdBin + BitVec.ofNat _ k).setWidth depthLog2)

/-- Without an edge of the write clock the writer's view stays as it is. -/
theorem occupancy_idle {i : Input α depthLog2} (hidle : i.writeClk = false)
    (s : State α depthLog2) : occupancy (step i s) = occupancy s := by
  rw [step, hidle, if_neg Bool.false_ne_true, readEdge]
  split_ifs <;> rfl

section

variable {acc out : List α} {c : SyncCounts} {s : State α depthLog2} (h : Tracks acc out c s)

include h

/-- What is in the FIFO is what has been accepted and not yet consumed. -/
theorem Tracks.content_eq : content s = acc.drop out.length := by
  have hle := h.delivered.length_le
  have hrd := h.rd_order
  have hroom := h.room
  have hpow : 2 ^ (depthLog2 + 1) = 2 * 2 ^ depthLog2 := by rw [pow_succ]; omega
  have hlength : (s.wrBin - s.rdBin).toNat = acc.length - out.length := by
    rw [h.wrBin, h.rdBin, toNat_ofNat_sub hle (by omega)]
  apply List.ext_getElem
  · rw [content, List.length_map, List.length_range, hlength, List.length_drop]
  · intro k hk hk'
    rw [List.length_drop] at hk'
    have hword := h.stored (out.length + k) (Nat.le_add_right _ _) (by omega)
    simp only [content, List.getElem_map, List.getElem_range, List.getElem_drop, h.rdBin]
    rw [← BitVec.ofNat_add, BitVec.setWidth_ofNat_of_le (Nat.le_succ _)]
    exact hword

theorem Tracks.readPointer_eq : readPointer s = BitVec.ofNat _ c.rd2 := by
  rw [readPointer, h.rdGrayW2, ungray_gray]

theorem Tracks.occupancy_eq : (occupancy s).toNat = acc.length - c.rd2 := by
  have hrd := h.rd_order
  have hwr := h.wr_order
  have hroom := h.room
  have hpow : 2 ^ (depthLog2 + 1) = 2 * 2 ^ depthLog2 := by rw [pow_succ]; omega
  rw [occupancy, h.readPointer_eq, h.wrBin, toNat_ofNat_sub (by omega) (by omega)]

/-- The occupancy lies between the words still unread and the FIFO's capacity. -/
theorem Tracks.occupancy_bounds :
    acc.length - out.length ≤ (occupancy s).toNat ∧ (occupancy s).toNat ≤ 2 ^ depthLog2 - 1 := by
  have hrd := h.rd_order
  have hroom := h.room
  rw [h.occupancy_eq]
  omega

/-- An instant raises the occupancy by one at the most: the write pointer takes one step at the
most and the read pointer does not fall back. -/
theorem Tracks.occupancy_step (hd : 1 ≤ depthLog2) {i : Input α depthLog2} (hi : Released i) :
    (occupancy (AsyncFifo.step i s)).toNat ≤ (occupancy s).toNat + 1 := by
  obtain ⟨c', h', -⟩ := h.step hd hi
  have hrd := h.rd_order
  have hwr := h.wr_order
  have hroom := h.room
  have hacc := (acceptedWord_length h hd i).1
  have hpow : 2 ^ (depthLog2 + 1) = 2 * 2 ^ depthLog2 := by rw [pow_succ]; omega
  -- the writer's copy after the instant is one of the two counts it already has
  obtain ⟨r, hlo, hhi, hr⟩ : ∃ r, c.rd2 ≤ r ∧ r ≤ c.rd1 ∧
      readPointer (AsyncFifo.step i s) = BitVec.ofNat _ r := by
    rw [readPointer, step_released hi]
    cases i.writeClk
    · exact ⟨c.rd2, le_rfl, hrd.1, h.readPointer_eq⟩
    · exact ⟨c.rd1, hrd.1, le_rfl, by simp only [if_true, h.rdGrayW1, ungray_gray]⟩
  have hgrown : (acc ++ acceptedWord i s).length ≤ acc.length + 1 := by
    rw [List.length_append]
    omega
  have hkept : acc.length ≤ (acc ++ acceptedWord i s).length := by
    rw [List.length_append]
    omega
  rw [h.occupancy_eq, occupancy, hr, h'.wrBin, toNat_ofNat_sub (by omega) (by omega)]
  omega

/-- `write_level` is the occupancy just as long as the read pointer that the writer sees is
below four. -/
theorem Tracks.writeLevel_eq_iff : writeLevel s = occupancy s ↔ (readPointer s).toNat < 4 := by
  have htwice : writeLevel s = s.wrBin - gray (gray (readPointer s)) := by
    rw [writeLevel, h.readPointer_eq, h.rdGrayW2]
    rfl
  rw [htwice, occupancy, BitVec.sub_right_inj, gray_gray]

end

/-- **The level in a whole run.** After a reset, for every interleaving of the two clocks, the
level is the occupancy, and so lies between the number of unread words and the capacity, just
when the read pointer that the writer sees is below four. -/
theorem run_level_iff (hd : 2 ≤ depthLog2) (mem : BitVec depthLog2 → α)
    {inp : ℕ → Input α depthLog2} (hinp : ∀ t, Released (inp t)) (t : ℕ) :
    (writeLevel ((run mem inp).state t) =
        ((run mem inp).state t).wrBin - readPointer ((run mem inp).state t) ∧
      (accepted (run mem inp) t).length - (consumed (run mem inp) t).length ≤
        (writeLevel ((run mem inp).state t)).toNat ∧
      (writeLevel ((run mem inp).state t)).toNat ≤ 2 ^ depthLog2 - 1) ↔
    (readPointer ((run mem inp).state t)).toNat < 4 := by
  obtain ⟨c, h⟩ := run_tracks (by omega) mem hinp t
  constructor
  · rintro ⟨hlevel, -, -⟩
    exact h.writeLevel_eq_iff.mp hlevel
  · intro hlow
    have hlevel := h.writeLevel_eq_iff.mpr hlow
    rw [hlevel]
    exact ⟨rfl, h.occupancy_bounds⟩

end AsyncFifo
