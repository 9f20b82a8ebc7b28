import Zub1cg.Rtl.CaptureChain.Tracking
import Mathlib.Data.Finset.Lattice.Fold
import Mathlib.Order.Lattice.Nat

/-!
# The high-water mark of the M3's capture chain (`orbtrace_pl.v`)

The chain of the M3's trace port keeps the highest level its FIFO has had. The maximum is taken
in the domain of the trace clock and comes to `aclk` Gray-coded, which is safe as long as it
never rises by more than one. It does not while `write_level` is the FIFO's occupancy, and that
is until the fourth byte has been read.

## Main definitions

- `M3Level.State`, `M3Level.step` — the registers of the maximum and one instant of them
- `M3Level.chain` — the chain with these registers after a reset
- `M3Level.highest` — the highest occupancy so far

## Main results

- `Marks.step` — one instant
- `levelMax_transfer` — the transfer, as long as the level is right
-/

namespace CaptureChain

/-- `gray_to_binary` is the general decoder at 64 bits. -/
theorem grayToBinary_eq (g : BitVec 64) : grayToBinary g = GrayCode.ungray g := rfl

end CaptureChain

namespace M3Level

open GrayCode
open CaptureChain (CDC_DEPTH_LOG2 Tracked rises resetN fifoInput)
open AsyncFifo (SyncCounts occupancy readPointer writeLevel)

/-- The registers; `highWater` is `m3_high_water`. -/
structure State where
  levelMaxW : BitVec 11
  levelMaxGray : BitVec 11
  levelMaxGrayS1 : BitVec 11
  levelMaxGrayS2 : BitVec 11
  highWater : BitVec 32

def resetState : State where
  levelMaxW := 0
  levelMaxGray := 0
  levelMaxGrayS1 := 0
  levelMaxGrayS2 := 0
  highWater := 0

/-- `m3_cdc_level`, five bits wider than the port that drives it -/
def cdcLevel (s : CaptureChain.State) : BitVec 11 := (writeLevel s.fifo).setWidth 11

/-- `m3_level_max_sync` -/
def levelMaxSync (r : State) : BitVec 11 :=
  (CaptureChain.grayToBinary (r.levelMaxGrayS2.setWidth 64)).setWidth 11

/-- The block clocked by the trace clock; `s` is the chain before the instant. -/
def traceUpdate (i : CaptureChain.Input) (s : CaptureChain.State) (r : State) : State :=
  if !resetN i s then { r with levelMaxW := 0, levelMaxGray := 0 }
  else if cdcLevel s > r.levelMaxW then
    { r with levelMaxW := cdcLevel s, levelMaxGray := gray (cdcLevel s) }
  else r

/-- The block clocked by `aclk`; `n` is the state after what the trace clock does at the same
instant, of which the first flop catches the bits in `caught`. -/
def aclkUpdate (i : CaptureChain.Input) (caught : BitVec 11) (r n : State) : State :=
  if !i.aresetn then { n with levelMaxGrayS1 := 0, levelMaxGrayS2 := 0, highWater := 0 }
  else
    { n with
      levelMaxGrayS1 := sample r.levelMaxGray n.levelMaxGray caught
      levelMaxGrayS2 := r.levelMaxGrayS1
      highWater :=
        if (levelMaxSync r).setWidth 32 > r.highWater then (levelMaxSync r).setWidth 32
        else r.highWater }

/-- One instant. -/
def step (i : CaptureChain.Input) (caught : BitVec 11) (s : CaptureChain.State) (r : State) :
    State :=
  let n := if rises i then traceUpdate i s r else r
  if i.aclk then aclkUpdate i caught r n else n

/-! ### One instant -/

/-- What has been written into the registers are levels of at most `m`, and the next one is at
most one above the last. -/
structure Marks (m : ℕ) (s : CaptureChain.State) (r : State) : Prop where
  levelMaxW : r.levelMaxW.toNat ≤ m
  levelMaxGray : r.levelMaxGray = gray r.levelMaxW
  levelMaxGrayS1 : ∃ v : BitVec 11, v.toNat ≤ m ∧ r.levelMaxGrayS1 = gray v
  levelMaxGrayS2 : ∃ v : BitVec 11, v.toNat ≤ m ∧ r.levelMaxGrayS2 = gray v
  highWater : r.highWater.toNat ≤ m
  rising : (occupancy s.fifo).toNat ≤ r.levelMaxW.toNat + 1
  held : s.resetSync.getLsbD 1 = false → r.levelMaxW = 0

theorem marks_reset (mem : BitVec CDC_DEPTH_LOG2 → UInt8) :
    Marks 0 (CaptureChain.resetState mem) resetState := by
  have hzero : ∃ v : BitVec 11, v.toNat ≤ 0 ∧ (0 : BitVec 11) = gray v :=
    ⟨0, Nat.le_refl 0, gray_zero.symm⟩
  refine ⟨Nat.le_refl 0, gray_zero.symm, hzero, hzero, Nat.le_refl 0, ?_, fun _ => rfl⟩
  rw [(CaptureChain.tracked_reset mem).fifo.occupancy_eq]
  exact Nat.zero_le _

theorem Marks.mono {m n : ℕ} {s : CaptureChain.State} {r : State} (h : Marks m s r)
    (hle : m ≤ n) : Marks n s r := by
  obtain ⟨v1, h1, e1⟩ := h.levelMaxGrayS1
  obtain ⟨v2, h2, e2⟩ := h.levelMaxGrayS2
  exact ⟨h.levelMaxW.trans hle, h.levelMaxGray, ⟨v1, h1.trans hle, e1⟩, ⟨v2, h2.trans hle, e2⟩,
    h.highWater.trans hle, h.rising, h.held⟩

/-- The maximum as it is decoded from the second flop. -/
theorem levelMaxSync_gray {r : State} {v : BitVec 11} (h : r.levelMaxGrayS2 = gray v) :
    levelMaxSync r = v := by
  rw [levelMaxSync, h, ← gray_setWidth (by decide), CaptureChain.grayToBinary_eq, ungray_gray,
    BitVec.setWidth_setWidth_of_le v (by decide), BitVec.setWidth_eq]

theorem Marks.levelMaxSync_le {m : ℕ} {s : CaptureChain.State} {r : State} (h : Marks m s r) :
    (levelMaxSync r).toNat ≤ m := by
  obtain ⟨v, hv, hgray⟩ := h.levelMaxGrayS2
  rwa [levelMaxSync_gray hgray]

section

variable {m : ℕ} {acc out : List UInt8} {c : SyncCounts} {i : CaptureChain.Input}
  {s : CaptureChain.State} {r : State}

/-- The maximum after what the trace clock does is `v`: it has stayed or gone up by one, and the
next level is not more than one above it. -/
structure Raised (m : ℕ) (i : CaptureChain.Input) (s : CaptureChain.State) (r : State)
    (v : BitVec 11) : Prop where
  update : (if rises i then traceUpdate i s r else r) =
    { r with levelMaxW := v, levelMaxGray := gray v }
  next : v = r.levelMaxW ∨ v = r.levelMaxW + 1
  bound : v.toNat ≤ m
  rise : v.toNat ≤ r.levelMaxW.toNat + 1
  rising : (occupancy (CaptureChain.step i s).fifo).toNat ≤ v.toNat + 1
  held : (CaptureChain.step i s).resetSync.getLsbD 1 = false → v = 0

/-- The maximum stays. -/
theorem Marks.same (h : Marks m s r) (hs : Tracked acc out c s) (hreset : i.aresetn = true)
    (hupdate : (if rises i then traceUpdate i s r else r) = r)
    (hrising : (occupancy (CaptureChain.step i s).fifo).toNat ≤ r.levelMaxW.toNat + 1) :
    Raised m i s r r.levelMaxW :=
  ⟨by rw [hupdate, ← h.levelMaxGray], .inl rfl, h.levelMaxW, Nat.le_succ _, hrising,
    fun hnext => h.held (hs.held_before hreset hnext)⟩

/-- Still in reset, the FIFO is empty and the maximum zero. -/
theorem Marks.trace_held (h : Marks m s r) (hs : Tracked acc out c s) (hreset : i.aresetn = true)
    (hrise : rises i = true) (hheld : s.resetSync.getLsbD 1 = false) :
    Raised m i s r r.levelMaxW := by
  have hresetN : resetN i s = false := by rw [resetN, hheld, Bool.and_false]
  have hfifo := (hs.quiet (i := i) hreset hheld).2.2.1
  refine h.same hs hreset ?_ ?_
  · obtain ⟨w, g, s1, s2, mark⟩ := r
    obtain rfl : w = 0 := h.held hheld
    obtain rfl : g = 0 := h.levelMaxGray.trans gray_zero
    rw [hrise, if_pos rfl, traceUpdate, hresetN, Bool.not_false, if_pos rfl]
  · rw [hfifo, (AsyncFifo.tracks_reset s.fifo.mem).occupancy_eq]
    exact Nat.zero_le _

variable (h : Marks m s r) (hs : Tracked acc out c s) (hreset : i.aresetn = true)
  (hlevel : writeLevel s.fifo = occupancy s.fifo) (hm : (occupancy s.fifo).toNat ≤ m)

include h hs hreset hlevel hm

/-- An edge of the trace clock out of reset: a level above the maximum is just one above. -/
theorem Marks.trace_released (hrise : rises i = true) (hsync : s.resetSync.getLsbD 1 = true) :
    ∃ v, Raised m i s r v := by
  have hresetN : resetN i s = true := by rw [resetN, hreset, hsync, Bool.and_true]
  have hnext : (occupancy (CaptureChain.step i s).fifo).toNat ≤ (occupancy s.fifo).toNat + 1 := by
    rw [CaptureChain.step_fifo]
    exact hs.fifo.occupancy_step (i := fifoInput i s) (by decide) ⟨hresetN, hreset⟩
  have hcdc : (cdcLevel s).toNat = (occupancy s.fifo).toNat := by
    have hwide : (CDC_DEPTH_LOG2 + 1) ≤ 11 := by decide
    rw [cdcLevel, hlevel, BitVec.toNat_setWidth_of_le hwide]
  by_cases hhigher : cdcLevel s > r.levelMaxW
  · have hup : cdcLevel s = r.levelMaxW + 1 := by
      have hlt := BitVec.lt_def.mp hhigher
      have hle := h.rising
      have hbound := (cdcLevel s).isLt
      apply BitVec.eq_of_toNat_eq
      rw [BitVec.toNat_add]
      change _ = (r.levelMaxW.toNat + 1) % 2 ^ 11
      omega
    refine ⟨cdcLevel s, ?_, .inr hup, hcdc.trans_le hm, hcdc.trans_le h.rising, ?_,
      fun hfalse => ?_⟩
    · rw [hrise, if_pos rfl, traceUpdate, hresetN, if_neg (by decide), if_pos hhigher]
    · rw [hcdc]
      exact hnext
    · rw [hs.stays_released hreset hsync] at hfalse
      contradiction
  · refine ⟨r.levelMaxW, h.same hs hreset ?_ ?_⟩
    · rw [hrise, if_pos rfl, traceUpdate, hresetN, if_neg (by decide), if_neg hhigher]
    · have hle := BitVec.le_def.mp (BitVec.not_lt.mp hhigher)
      omega

theorem Marks.trace : ∃ v, Raised m i s r v := by
  cases hrise : rises i with
  | false =>
    refine ⟨r.levelMaxW, h.same hs hreset (by rw [hrise, if_neg Bool.false_ne_true]) ?_⟩
    rw [CaptureChain.step_fifo, AsyncFifo.occupancy_idle (i := fifoInput i s) hrise]
    exact h.rising
  | true =>
    cases hsync : s.resetSync.getLsbD 1 with
    | false => exact ⟨_, h.trace_held hs hreset hrise hsync⟩
    | true => exact h.trace_released hs hreset hlevel hm hrise hsync

/-- **One instant.** While the level is right, the maximum rises by one at the most, its code
changes in one bit at the most, and what comes out in the domain of `aclk` is a maximum there
has been. -/
theorem Marks.step (caught : BitVec 11) :
    Marks m (CaptureChain.step i s) (M3Level.step i caught s r) ∧
      (M3Level.step i caught s r).levelMaxW.toNat ≤ r.levelMaxW.toNat + 1 ∧
      ∃ k, ∀ j < 11, j ≠ k →
        (M3Level.step i caught s r).levelMaxGray.getLsbD j = r.levelMaxGray.getLsbD j := by
  obtain ⟨v, htrace, hv, hvm, hrise, hnext, hheld⟩ := h.trace hs hreset hlevel hm
  have hbit : ∃ k, ∀ j < 11, j ≠ k → (gray v).getLsbD j = r.levelMaxGray.getLsbD j := by
    rw [h.levelMaxGray]
    rcases hv with rfl | rfl
    · exact ⟨0, fun _ _ _ => rfl⟩
    · exact gray_succ_one_bit r.levelMaxW
  rw [M3Level.step, htrace]
  cases i.aclk with
  | false =>
    exact ⟨⟨hvm, rfl, h.levelMaxGrayS1, h.levelMaxGrayS2, h.highWater, hnext, hheld⟩, hrise, hbit⟩
  | true =>
    rw [if_pos rfl, aclkUpdate, hreset, if_neg (by decide)]
    refine ⟨⟨hvm, rfl, ?_, h.levelMaxGrayS1, ?_, hnext, hheld⟩, hrise, hbit⟩
    · -- the first flop catches the old maximum or the new one
      rw [h.levelMaxGray]
      rcases hv with rfl | rfl
      · exact ⟨r.levelMaxW, h.levelMaxW, sample_self _ _⟩
      · rcases sample_gray_succ r.levelMaxW caught with hold | hnew
        · exact ⟨r.levelMaxW, h.levelMaxW, hold⟩
        · exact ⟨r.levelMaxW + 1, hvm, hnew⟩
    · have hsync := h.levelMaxSync_le
      have hwide : ((levelMaxSync r).setWidth 32).toNat = (levelMaxSync r).toNat :=
        BitVec.toNat_setWidth_of_le (by decide)
      change (if _ then _ else _ : BitVec 32).toNat ≤ m
      split_ifs
      · exact hwide.trans_le hsync
      · exact h.highWater

end

/-! ### Whole runs -/

/-- One instant of the chain with these registers. -/
structure Input where
  chain : CaptureChain.Input
  levelMaxGrayCatch : BitVec 11

/-- The M3's capture chain with these registers after a reset, driven by the schedule `inp`. -/
def chain (mem : BitVec CDC_DEPTH_LOG2 → UInt8) (inp : ℕ → Input) :
    Clocked.Run Input (CaptureChain.State × State) where
  step := fun i s => (CaptureChain.step i.chain s.1, step i.chain i.levelMaxGrayCatch s.1 s.2)
  start := (CaptureChain.resetState mem, resetState)
  input := inp

/-- The highest occupancy of the FIFO up to instant `t`. -/
def highest (mem : BitVec CDC_DEPTH_LOG2 → UInt8) (inp : ℕ → Input) (t : ℕ) : ℕ :=
  (Finset.range (t + 1)).sup fun u => (occupancy ((chain mem inp).state u).1.fifo).toNat

section

variable {mem : BitVec CDC_DEPTH_LOG2 → UInt8} {inp : ℕ → Input}

theorem occupancy_le_highest (t : ℕ) :
    (occupancy ((chain mem inp).state t).1.fifo).toNat ≤ highest mem inp t :=
  Finset.le_sup (f := fun u => (occupancy ((chain mem inp).state u).1.fifo).toNat)
    (Finset.self_mem_range_succ t)

theorem highest_mono (t : ℕ) : highest mem inp t ≤ highest mem inp (t + 1) :=
  Finset.sup_mono (Finset.range_mono (Nat.le_succ (t + 1)))

theorem chain_tracked (hreset : ∀ t, (inp t).chain.aresetn = true) (t : ℕ) :
    ∃ acc out c, Tracked acc out c ((chain mem inp).state t).1 := by
  obtain ⟨c, h⟩ := @CaptureChain.run_tracked mem (fun u => (inp u).chain) hreset t
  have hchain : CaptureChain.run mem (fun u => (inp u).chain) =
      (chain mem inp).part CaptureChain.step (fun i _ => i.chain) Prod.fst := rfl
  rw [hchain, (chain mem inp).part_state fun _ _ => rfl] at h
  exact ⟨_, _, c, h⟩

/-- As long as the level is right, everything in the registers is at most the highest
occupancy. -/
theorem chain_marks (hreset : ∀ t, (inp t).chain.aresetn = true) (t : ℕ)
    (hlow : ∀ u < t, (readPointer ((chain mem inp).state u).1.fifo).toNat < 4) :
    Marks (highest mem inp t) ((chain mem inp).state t).1 ((chain mem inp).state t).2 := by
  induction t with
  | zero => exact (marks_reset mem).mono (Nat.zero_le _)
  | succ t ih =>
    obtain ⟨acc, out, c, hs⟩ := @chain_tracked mem inp hreset t
    have hlevel := hs.fifo.writeLevel_eq_iff.mpr (hlow t (Nat.lt_succ_self t))
    have hnow := ih fun u hu => hlow u (Nat.lt_succ_of_lt hu)
    exact (hnow.step hs (hreset t) hlevel (occupancy_le_highest t) _).1.mono (highest_mono t)

/-- **The maximum may be transferred in Gray code as long as the level is right.** In a run in
which no read pointer beyond three has come through to the write domain up to instant `t`, the
maximum rises by one at the most there, its code changes in one bit at the most, and the maximum
seen at `aclk` is at most the highest occupancy so far. -/
theorem levelMax_transfer (hreset : ∀ t, (inp t).chain.aresetn = true) (t : ℕ)
    (hlow : ∀ u ≤ t, (readPointer ((chain mem inp).state u).1.fifo).toNat < 4) :
    ((chain mem inp).state (t + 1)).2.levelMaxW.toNat ≤
        ((chain mem inp).state t).2.levelMaxW.toNat + 1 ∧
      (∃ k, ∀ j < 11, j ≠ k → ((chain mem inp).state (t + 1)).2.levelMaxGray.getLsbD j =
        ((chain mem inp).state t).2.levelMaxGray.getLsbD j) ∧
      (levelMaxSync ((chain mem inp).state (t + 1)).2).toNat ≤ highest mem inp (t + 1) := by
  obtain ⟨acc, out, c, hs⟩ := @chain_tracked mem inp hreset t
  have hlevel := hs.fifo.writeLevel_eq_iff.mpr (hlow t (Nat.le_refl t))
  have hnow := @chain_marks mem inp hreset t fun u hu => hlow u hu.le
  have hstep := hnow.step hs (hreset t) hlevel (occupancy_le_highest t) (inp t).levelMaxGrayCatch
  exact ⟨hstep.2.1, hstep.2.2, (hstep.1.mono (highest_mono t)).levelMaxSync_le⟩

end

/-! ### The fourth byte -/

/-- Both clocks tick together, the FIFO is read whenever it can be, and the trace runs long
enough for `n` bytes of the four-bit format. -/
def burst (n t : ℕ) : Input where
  chain :=
    { aclk := true
      aresetn := true
      traceClk := some .rise
      traceData := 0
      traceFormat := 2
      running := 2 < t && t ≤ n + 3
      readReady := true
      rdGrayCatch := 0
      wrGrayCatch := 0
      overrunCatch := false
      dropsGrayCatch := 0 }
  levelMaxGrayCatch := 0

theorem levelMax_transfer_burst :
    ((chain (fun _ => 0) (burst 4)).state 15).2.levelMaxW.toNat ≤
        ((chain (fun _ => 0) (burst 4)).state 14).2.levelMaxW.toNat + 1 ∧
      (∃ k, ∀ j < 11, j ≠ k →
        ((chain (fun _ => 0) (burst 4)).state 15).2.levelMaxGray.getLsbD j =
          ((chain (fun _ => 0) (burst 4)).state 14).2.levelMaxGray.getLsbD j) ∧
      (levelMaxSync ((chain (fun _ => 0) (burst 4)).state 15).2).toNat ≤
        highest (fun _ => 0) (burst 4) 15 :=
  levelMax_transfer (fun _ => rfl) 14 (by decide +kernel)

/-- Once four bytes have been read, the level of the empty FIFO is 63. -/
theorem levelMax_jumps :
    ¬ ∀ (mem : BitVec CDC_DEPTH_LOG2 → UInt8) (inp : ℕ → Input),
      (∀ t, (inp t).chain.aresetn = true) → ∀ t,
        ((chain mem inp).state (t + 1)).2.levelMaxW.toNat ≤
            ((chain mem inp).state t).2.levelMaxW.toNat + 1 ∧
          (∃ k, ∀ j < 11, j ≠ k → ((chain mem inp).state (t + 1)).2.levelMaxGray.getLsbD j =
            ((chain mem inp).state t).2.levelMaxGray.getLsbD j) ∧
          (levelMaxSync ((chain mem inp).state (t + 1)).2).toNat ≤ highest mem inp (t + 1) := by
  intro h
  have hjump : ((chain (fun _ => 0) (burst 4)).state 16).2.levelMaxW.toNat = 4 ∧
      ((chain (fun _ => 0) (burst 4)).state 17).2.levelMaxW.toNat = 63 := by decide +kernel
  have hrise : ((chain (fun _ => 0) (burst 4)).state 17).2.levelMaxW.toNat ≤
      ((chain (fun _ => 0) (burst 4)).state 16).2.levelMaxW.toNat + 1 :=
    (h (fun _ => 0) (burst 4) (fun _ => rfl) 16).1
  omega

end M3Level
