import Zub1cg.Rtl.CaptureChain.Tracking
import Mathlib.Order.Monotone.Basic

/-!
# The drop counter of a capture chain (`orbtrace_pl.v`)

The bytes that find the FIFO full are counted in the domain of the trace clock, and the count's
Gray code goes through two flops into the domain of `aclk`. What is decoded there is a count
that there has been, and later ones are not lower, whatever the first flop catches of a code
that is just changing. The registers have 64 bits, so it is counts modulo `2 ^ 64` that they
hold.

## Main definitions

- `CaptureChain.capturedBytes`, `lostBytes` — the bytes that come, and those that are dropped
- `CaptureChain.seen` — the counts whose codes are in the two flops
- `CaptureChain.Shows` — what the decoded register shows

## Main results

- `run_counts` — what the registers hold
- `run_shows` — the counts that are seen never fall and have been the counter's own
-/

namespace CaptureChain

open GrayCode

/-- The byte that is dropped at this instant, if one is. -/
def lostBytes (i : Input) (s : State) : List UInt8 :=
  if rises i && dropped s then [s.capture.byteData] else []

/-- The byte that the capture has ready at an edge of the trace clock, if it has one. -/
def capturedBytes (i : Input) (s : State) : List UInt8 :=
  if rises i && s.capture.byteValid then [s.capture.byteData] else []

/-- A captured byte goes into the FIFO or is dropped. -/
theorem capturedBytes_eq (i : Input) (s : State) :
    capturedBytes i s = acceptedBytes i s ++ lostBytes i s := by
  rw [capturedBytes, acceptedBytes, AsyncFifo.acceptedWord, AsyncFifo.writeFire, lostBytes, dropped]
  change _ = (if rises i && (s.capture.byteValid && AsyncFifo.writeReady s.fifo) then
    [s.capture.byteData] else []) ++ _
  cases rises i <;> cases s.capture.byteValid <;> cases AsyncFifo.writeReady s.fifo <;> rfl

theorem lostBytes_length_le (i : Input) (s : State) : (lostBytes i s).length ≤ 1 := by
  rw [lostBytes]
  split_ifs
  · exact Nat.le_refl 1
  · exact Nat.zero_le 1

/-- The registers hold the codes of `n` drops, and of `a` and `b` in the two flops. -/
structure Counts (n a b : ℕ) (s : State) : Prop where
  drops : s.drops = BitVec.ofNat 64 n
  dropsGray : s.dropsGray = gray (BitVec.ofNat 64 n)
  dropsGrayS1 : s.dropsGrayS1 = gray (BitVec.ofNat 64 a)
  dropsGrayS2 : s.dropsGrayS2 = gray (BitVec.ofNat 64 b)
  held : s.resetSync.getLsbD 1 = false → n = 0

theorem counts_reset (mem : BitVec CDC_DEPTH_LOG2 → UInt8) : Counts 0 0 0 (resetState mem) :=
  ⟨rfl, gray_zero.symm, gray_zero.symm, gray_zero.symm, fun _ => rfl⟩

section

variable {acc out : List UInt8} {c : AsyncFifo.SyncCounts} {n a b : ℕ} {i : Input} {s : State}

/-- A drop is counted, and with it its code. -/
theorem Counts.trace (h : Counts n a b s) (hs : Tracked acc out c s)
    (hreset : i.aresetn = true) :
    (step i s).drops = BitVec.ofNat 64 (n + (lostBytes i s).length) ∧
      (step i s).dropsGray = gray (BitVec.ofNat 64 (n + (lostBytes i s).length)) ∧
      ((step i s).resetSync.getLsbD 1 = false → n + (lostBytes i s).length = 0) := by
  have hdrops := step_drops i s
  rw [resetN, hreset, Bool.true_and, h.drops, h.dropsGray] at hdrops
  cases hheld : s.resetSync.getLsbD 1 with
  | false =>
    -- nothing is captured yet
    have hnone : lostBytes i s = [] := by
      rw [lostBytes, dropped, (hs.held hheld).2.2, Bool.false_and, Bool.and_false,
        if_neg Bool.false_ne_true]
    rw [hheld, h.held hheld, ← BitVec.ofNat_eq_ofNat, gray_zero] at hdrops
    rw [hnone, h.held hheld, ← BitVec.ofNat_eq_ofNat, List.length_nil, Nat.zero_add, gray_zero]
    cases hrise : rises i <;> rw [hrise] at hdrops <;>
      simp only [Prod.mk.injEq, Bool.false_eq_true, if_false, if_true, Bool.not_false] at hdrops <;>
      exact ⟨hdrops.2.1, hdrops.2.2, fun _ => rfl⟩
  | true =>
    have hstill := hs.stays_released hreset hheld
    rw [hheld, Bool.not_true, if_neg Bool.false_ne_true, AsyncFifo.ofNat_succ] at hdrops
    rw [lostBytes, hstill]
    cases hrise : rises i <;> cases hdropped : dropped s <;> rw [hrise, hdropped] at hdrops <;>
      simp only [Prod.mk.injEq, Bool.false_eq_true, if_false, if_true] at hdrops <;>
      exact ⟨hdrops.2.1, hdrops.2.2, fun hfalse => by contradiction⟩

/-- What the flops hold after an instant. -/
theorem Counts.synced (h : Counts n a b s) (hs : Tracked acc out c s)
    (hreset : i.aresetn = true) :
    Counts (n + (lostBytes i s).length)
      (if i.aclk then
        if (step i s).dropsGrayS1 = (step i s).dropsGray then n + (lostBytes i s).length else n
      else a)
      (if i.aclk then a else b) (step i s) := by
  obtain ⟨hdrops, hgray, hheld⟩ := h.trace hs hreset
  have hsynced := step_synced i s
  rw [hreset, h.dropsGray, h.dropsGrayS1, h.dropsGrayS2] at hsynced
  refine ⟨hdrops, hgray, ?_, ?_, hheld⟩
  · cases hclk : i.aclk with
    | false =>
      rw [hclk] at hsynced
      simp only [Prod.mk.injEq, Bool.false_eq_true, if_false] at hsynced
      rw [if_neg Bool.false_ne_true]
      exact hsynced.2.2.1
    | true =>
      rw [hclk] at hsynced
      simp only [Prod.mk.injEq, Bool.not_true, Bool.false_eq_true, if_false, if_true] at hsynced
      rw [if_pos rfl]
      split_ifs with hnew
      · rw [hnew]
        exact hgray
      · -- of the two codes it can only be the old one
        obtain ⟨k, hlo, hhi, hsample⟩ := sample_count (Nat.le_add_right n _)
          (Nat.add_le_add_left (lostBytes_length_le i s) n) i.dropsGrayCatch
        rw [← hgray, ← hsynced.2.2.1] at hsample
        have hone := lostBytes_length_le i s
        rcases (by omega : k = n ∨ k = n + (lostBytes i s).length) with rfl | rfl
        · exact hsample
        · rw [hgray] at hnew
          exact absurd hsample hnew
  · cases hclk : i.aclk with
    | false =>
      rw [hclk] at hsynced
      simp only [Prod.mk.injEq, Bool.false_eq_true, if_false] at hsynced
      exact hsynced.2.2.2
    | true =>
      rw [hclk] at hsynced
      simp only [Prod.mk.injEq, Bool.not_true, Bool.false_eq_true, if_false, if_true] at hsynced
      exact hsynced.2.2.2

end

/-! ### Whole runs -/

/-- The number of bytes dropped over the first `t` instants. -/
def lost (r : Clocked.Run Input State) (t : ℕ) : ℕ := (r.record lostBytes t).length

/-- The counts whose codes are in the two flops after `t` instants. -/
def seen (r : Clocked.Run Input State) : ℕ → ℕ × ℕ
  | 0 => (0, 0)
  | t + 1 =>
    if (r.input t).aclk then
      (if (r.state (t + 1)).dropsGrayS1 = (r.state (t + 1)).dropsGray then lost r (t + 1)
        else lost r t, (seen r t).1)
    else seen r t

theorem lost_succ (r : Clocked.Run Input State) (t : ℕ) :
    lost r (t + 1) = lost r t + (lostBytes (r.input t) (r.state t)).length := by
  rw [lost, Clocked.Run.record_succ, List.length_append, lost]

theorem lost_mono (r : Clocked.Run Input State) : Monotone (lost r) :=
  fun _ _ h => (r.record_mono lostBytes h).length_le

/-- The counter and the flops in a whole run. -/
theorem run_counts (mem : BitVec CDC_DEPTH_LOG2 → UInt8) {inp : ℕ → Input}
    (hreset : ∀ t, (inp t).aresetn = true) (t : ℕ) :
    Counts (lost (run mem inp) t) (seen (run mem inp) t).1 (seen (run mem inp) t).2
      ((run mem inp).state t) := by
  induction t with
  | zero => exact counts_reset mem
  | succ t ih =>
    obtain ⟨c, hs⟩ := run_tracked mem hreset t
    have hnext := ih.synced hs (hreset t)
    rw [lost_succ, seen, lost_succ]
    change Counts _ _ _ (step (inp t) ((run mem inp).state t))
    cases hclk : (inp t).aclk with
    | false =>
      rw [hclk] at hnext
      rw [show ((run mem inp).input t).aclk = false from hclk]
      exact hnext
    | true =>
      rw [hclk] at hnext
      rw [show ((run mem inp).input t).aclk = true from hclk]
      exact hnext

/-- What is in the flops has been the counter's, and the second flop is behind the first. -/
theorem seen_order (r : Clocked.Run Input State) (t : ℕ) :
    (seen r t).2 ≤ (seen r t).1 ∧ (seen r t).1 ≤ lost r t ∧
      (∃ u ≤ t, (seen r t).1 = lost r u) ∧ ∃ u ≤ t, (seen r t).2 = lost r u := by
  induction t with
  | zero => exact ⟨Nat.le_refl 0, Nat.le_refl 0, ⟨0, Nat.le_refl 0, rfl⟩, ⟨0, Nat.le_refl 0, rfl⟩⟩
  | succ t ih =>
    obtain ⟨h21, h1, ⟨u1, hu1, e1⟩, ⟨u2, hu2, e2⟩⟩ := ih
    have hmore := lost_mono r (Nat.le_succ t)
    rw [seen]
    split_ifs with _ hnew
    · exact ⟨h1.trans hmore, Nat.le_refl _, ⟨t + 1, Nat.le_refl _, rfl⟩,
        ⟨u1, Nat.le_succ_of_le hu1, e1⟩⟩
    · exact ⟨h1, hmore, ⟨t, Nat.le_succ t, rfl⟩, ⟨u1, Nat.le_succ_of_le hu1, e1⟩⟩
    · exact ⟨h21, h1.trans hmore, ⟨u1, Nat.le_succ_of_le hu1, e1⟩,
        ⟨u2, Nat.le_succ_of_le hu2, e2⟩⟩

/-- The counts that are seen never fall. -/
theorem seen_mono (r : Clocked.Run Input State) : Monotone fun t => (seen r t).2 := by
  refine monotone_nat_of_le_succ fun t => ?_
  rw [seen]
  split_ifs
  · exact (seen_order r t).1
  · exact (seen_order r t).1
  · exact Nat.le_refl _

/-- The counter's `cdc_drops_sync` shows the counts `shown`: they never fall, and each of them is
a count that the counter has had. The registers hold the counts modulo `2 ^ 64`. -/
structure Shows (r : Clocked.Run Input State) (shown : ℕ → ℕ) : Prop where
  mono : Monotone shown
  held : ∀ t, ∃ u ≤ t, shown t = lost r u
  counter : ∀ t, (r.state t).drops = BitVec.ofNat 64 (lost r t)
  value : ∀ t, dropsSync (r.state t) = BitVec.ofNat 64 (shown t)

/-- **What is seen of the drops** of a chain from its reset on. -/
theorem run_shows (mem : BitVec CDC_DEPTH_LOG2 → UInt8) {inp : ℕ → Input}
    (hreset : ∀ t, (inp t).aresetn = true) :
    Shows (run mem inp) fun t => (seen (run mem inp) t).2 := by
  refine ⟨seen_mono _, fun t => (seen_order _ t).2.2.2, fun t => (run_counts mem hreset t).drops,
    fun t => ?_⟩
  rw [dropsSync, (run_counts mem hreset t).dropsGrayS2]
  exact ungray_gray _

/-- Counts that fit into a register are ordered there as they are. -/
theorem ofNat_le_ofNat {m n : ℕ} (hle : m ≤ n) (hfits : n < 2 ^ 64) :
    BitVec.ofNat 64 m ≤ BitVec.ofNat 64 n := by
  rw [BitVec.le_def, BitVec.toNat_ofNat, BitVec.toNat_ofNat, Nat.mod_eq_of_lt hfits,
    Nat.mod_eq_of_lt (by omega)]
  exact hle

/-- As long as the counter has not wrapped around, what is seen never decreases and never
exceeds the number of drops. -/
theorem Shows.below {r : Clocked.Run Input State} {shown : ℕ → ℕ} (h : Shows r shown) {u t : ℕ}
    (hut : u ≤ t) (hfits : lost r t < 2 ^ 64) :
    dropsSync (r.state u) ≤ dropsSync (r.state t) ∧ (dropsSync (r.state t)).toNat ≤ lost r t := by
  have hle : shown t ≤ lost r t := by
    obtain ⟨v, hv, heq⟩ := h.held t
    rw [heq]
    exact lost_mono r hv
  rw [h.value, h.value]
  refine ⟨ofNat_le_ofNat (h.mono hut) (hle.trans_lt hfits), ?_⟩
  rw [BitVec.toNat_ofNat, Nat.mod_eq_of_lt (hle.trans_lt hfits)]
  exact hle

end CaptureChain
