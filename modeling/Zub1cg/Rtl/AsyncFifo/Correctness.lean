import Zub1cg.Rtl.AsyncFifo
import Mathlib.Data.Nat.Count

/-!
# Correctness of the asynchronous FIFO

Each pointer register is the code of a natural-number count: words accepted, words
consumed, and for each synchroniser flop the count it last caught. The invariant
`Tracks` relates those counts to the registers and to the two word records; one
instant preserves it (`Tracks.step`) and so do whole runs (`run_tracks`).
-/

namespace AsyncFifo

open GrayCode

variable {α : Type} {depthLog2 : ℕ}

/-- The counts caught by the four synchroniser flops. -/
structure SyncCounts where
  wr1 : ℕ
  wr2 : ℕ
  rd1 : ℕ
  rd2 : ℕ

/-- The registers hold the counts of a FIFO that has accepted `acc` and delivered
`out`, and every word accepted but not yet delivered is in memory. -/
structure Tracks (acc out : List α) (c : SyncCounts) (s : State α depthLog2) : Prop where
  wrBin : s.wrBin = BitVec.ofNat _ acc.length
  rdBin : s.rdBin = BitVec.ofNat _ out.length
  wrGray : s.wrGray = gray (BitVec.ofNat _ acc.length)
  rdGray : s.rdGray = gray (BitVec.ofNat _ out.length)
  wrGrayR1 : s.wrGrayR1 = gray (BitVec.ofNat _ c.wr1)
  wrGrayR2 : s.wrGrayR2 = gray (BitVec.ofNat _ c.wr2)
  rdGrayW1 : s.rdGrayW1 = gray (BitVec.ofNat _ c.rd1)
  rdGrayW2 : s.rdGrayW2 = gray (BitVec.ofNat _ c.rd2)
  rd_order : c.rd2 ≤ c.rd1 ∧ c.rd1 ≤ out.length
  wr_order : out.length ≤ c.wr2 ∧ c.wr2 ≤ c.wr1 ∧ c.wr1 ≤ acc.length
  room : acc.length + 1 ≤ c.rd2 + 2 ^ depthLog2
  delivered : out <+: acc
  stored : ∀ k, out.length ≤ k → (hk : k < acc.length) → s.mem (BitVec.ofNat _ k) = acc[k]

/-! ### The full and empty tests -/

/-- Words of `w` bits tell apart counts less than one turn apart. -/
theorem ofNat_inj_of_lt {w a b : ℕ} (hle : a ≤ b) (hlt : b < a + 2 ^ w) :
    BitVec.ofNat w a = BitVec.ofNat w b ↔ a = b := by
  refine ⟨fun h => ?_, fun h => h ▸ rfl⟩
  have hmod : a % 2 ^ w = b % 2 ^ w := by simpa using congrArg BitVec.toNat h
  have hdvd : 2 ^ w ∣ b - a := (Nat.modEq_iff_dvd' hle).mp hmod
  have := Nat.eq_zero_of_dvd_of_lt hdvd (by omega)
  omega

/-- The pattern the full test compares with is the code half a turn ahead. -/
theorem invertTopTwo_gray (hd : 1 ≤ depthLog2) (b : BitVec (depthLog2 + 1)) :
    invertTopTwo (gray b) = gray (b + BitVec.twoPow (depthLog2 + 1) depthLog2) := by
  obtain ⟨d, rfl⟩ : ∃ d, depthLog2 = d + 1 := ⟨depthLog2 - 1, by omega⟩
  rw [gray_add_half]
  apply BitVec.eq_of_getLsbD_eq
  intro i hi
  simp only [invertTopTwo, BitVec.getLsbD_setWidth, BitVec.getLsbD_append, BitVec.getLsbD_extractLsb',
    BitVec.getLsbD_not, BitVec.getLsbD_xor, BitVec.getLsbD_twoPow, hi, decide_true, Bool.true_and,
    Nat.add_sub_cancel]
  by_cases hlow : i < d
  · simp [hlow, show ¬ d + 1 = i by omega, show ¬ d = i by omega]
  · rcases (by omega : i = d ∨ i = d + 1) with rfl | rfl
    · simp [show i < i + 1 + 1 by omega]
    · simp

theorem ofNat_succ {w n : ℕ} : BitVec.ofNat w n + 1 = BitVec.ofNat w (n + 1) := by
  rw [BitVec.ofNat_add]; rfl

/-- The full test, for a write pointer at `wr` and a synchronised read pointer at `rd`. -/
theorem writeReady_counts {s : State α depthLog2} {wr rd : ℕ} (hd : 1 ≤ depthLog2)
    (hwr : s.wrBin = BitVec.ofNat _ wr) (hrd : s.rdGrayW2 = gray (BitVec.ofNat _ rd))
    (hle : rd ≤ wr) (hroom : wr + 1 ≤ rd + 2 ^ depthLog2) :
    writeReady s = true ↔ wr + 1 < rd + 2 ^ depthLog2 := by
  have htwo : BitVec.ofNat (depthLog2 + 1) rd + BitVec.twoPow (depthLog2 + 1) depthLog2 =
      BitVec.ofNat (depthLog2 + 1) (rd + 2 ^ depthLog2) := by
    rw [BitVec.ofNat_add]
    congr 1
    apply BitVec.eq_of_toNat_eq
    rw [BitVec.toNat_twoPow, BitVec.toNat_ofNat]
  have hpow : 2 ^ (depthLog2 + 1) = 2 * 2 ^ depthLog2 := by rw [pow_succ]; omega
  rw [writeReady, bne_iff_ne, wrPlusOneGray, hwr, hrd, invertTopTwo_gray hd, htwo, ofNat_succ,
    Ne, gray_inj, ofNat_inj_of_lt hroom (by omega)]
  omega

theorem writeReady_iff {acc out : List α} {c : SyncCounts} {s : State α depthLog2}
    (h : Tracks acc out c s) (hd : 1 ≤ depthLog2) :
    writeReady s = true ↔ acc.length + 1 < c.rd2 + 2 ^ depthLog2 := by
  have hle : c.rd2 ≤ acc.length := by
    have := h.rd_order; have := h.wr_order; omega
  exact writeReady_counts hd h.wrBin h.rdGrayW2 hle h.room

theorem readValid_iff {acc out : List α} {c : SyncCounts} {s : State α depthLog2}
    (h : Tracks acc out c s) : readValid s = true ↔ out.length < c.wr2 := by
  have hpow : 2 ^ (depthLog2 + 1) = 2 * 2 ^ depthLog2 := by rw [pow_succ]; omega
  have hroom := h.room
  have hrd := h.rd_order
  have hwr := h.wr_order
  rw [readValid, bne_iff_ne, h.rdGray, h.wrGrayR2, Ne, gray_inj,
    ofNat_inj_of_lt hwr.1 (by omega)]
  omega

/-- The word on `read_data` is the next one due. -/
theorem readData_eq {acc out : List α} {c : SyncCounts} {s : State α depthLog2}
    (h : Tracks acc out c s) (hlt : out.length < acc.length) :
    readData s = acc[out.length] := by
  rw [readData, h.rdBin, BitVec.setWidth_ofNat_of_le (Nat.le_succ _)]
  exact h.stored _ le_rfl hlt

/-! ### One instant -/

/-- Neither domain is held in reset. -/
def Released (i : Input α depthLog2) : Prop := i.writeResetN = true ∧ i.readResetN = true

/-- Everything one instant out of reset does, register by register. -/
theorem step_released {i : Input α depthLog2} (hi : Released i) (s : State α depthLog2) :
    step i s =
      { mem := if i.writeClk && writeFire i s then
          Function.update s.mem (s.wrBin.setWidth depthLog2) i.writeData else s.mem
        wrBin := if i.writeClk && writeFire i s then s.wrBin + 1 else s.wrBin
        rdBin := if i.readClk && readFire i s then s.rdBin + 1 else s.rdBin
        wrGray := wrGrayAfter i s
        rdGray := rdGrayAfter i s
        rdGrayW1 := if i.writeClk then sample s.rdGray (rdGrayAfter i s) i.rdGrayCatch
          else s.rdGrayW1
        rdGrayW2 := if i.writeClk then s.rdGrayW1 else s.rdGrayW2
        wrGrayR1 := if i.readClk then sample s.wrGray (wrGrayAfter i s) i.wrGrayCatch
          else s.wrGrayR1
        wrGrayR2 := if i.readClk then s.wrGrayR1 else s.wrGrayR2 } := by
  obtain ⟨hw, hr⟩ := hi
  cases hwc : i.writeClk <;> cases hrc : i.readClk <;> cases hwf : writeFire i s <;>
    cases hrf : readFire i s <;>
    simp [step, writeEdge, readEdge, wrGrayAfter, rdGrayAfter, wrNext, hw, hr, hwc, hrc, hwf, hrf]

/-- The write pointer's code after the instant is that of the new count. -/
theorem wrGrayAfter_eq {acc out : List α} {c : SyncCounts} {s : State α depthLog2}
    (h : Tracks acc out c s) {i : Input α depthLog2} (hi : Released i) :
    wrGrayAfter i s = gray (BitVec.ofNat _ (acc ++ acceptedWord i s).length) := by
  cases hwc : i.writeClk <;> cases hwf : writeFire i s <;>
    simp [wrGrayAfter, wrGrayNext, wrNext, acceptedWord, hwc, hwf, hi.1, h.wrGray, h.wrBin]
  simpa using congrArg gray ofNat_succ

/-- The read pointer's code after the instant is that of the new count. -/
theorem rdGrayAfter_eq {acc out : List α} {c : SyncCounts} {s : State α depthLog2}
    (h : Tracks acc out c s) {i : Input α depthLog2} (hi : Released i) :
    rdGrayAfter i s = gray (BitVec.ofNat _ (out ++ consumedWord i s).length) := by
  cases hrc : i.readClk <;> cases hrf : readFire i s <;>
    simp [rdGrayAfter, consumedWord, hrc, hrf, hi.2, h.rdGray, h.rdBin]
  simpa using congrArg gray ofNat_succ

/-- An instant accepts a word only when the occupancy seen by the writer leaves room. -/
theorem acceptedWord_length {acc out : List α} {c : SyncCounts} {s : State α depthLog2}
    (h : Tracks acc out c s) (hd : 1 ≤ depthLog2) (i : Input α depthLog2) :
    (acceptedWord i s).length ≤ 1 ∧
      (acceptedWord i s ≠ [] → acc.length + 1 < c.rd2 + 2 ^ depthLog2) := by
  rw [acceptedWord]
  split
  · next hfire =>
    simp only [writeFire, Bool.and_eq_true] at hfire
    exact ⟨le_rfl, fun _ => (writeReady_iff h hd).mp hfire.2.2⟩
  · exact ⟨Nat.zero_le _, fun hne => absurd rfl hne⟩

/-- An instant consumes only the next word due, and only once the reader has seen it
being written. -/
theorem consumedWord_eq {acc out : List α} {c : SyncCounts} {s : State α depthLog2}
    (h : Tracks acc out c s) (i : Input α depthLog2) :
    consumedWord i s = [] ∨
      ∃ hlt : out.length < acc.length, out.length < c.wr2 ∧ consumedWord i s = [acc[out.length]] := by
  rw [consumedWord]
  split
  · next hfire =>
    simp only [readFire, Bool.and_eq_true] at hfire
    have hseen := (readValid_iff h).mp hfire.2.1
    have hlt : out.length < acc.length := by have := h.wr_order; omega
    exact .inr ⟨hlt, hseen, by rw [readData_eq h hlt]⟩
  · exact .inl rfl

/-- A word written now lands beside the words still waiting to be read. -/
theorem stored_after {acc out : List α} {c : SyncCounts} {s : State α depthLog2}
    (h : Tracks acc out c s) (hd : 1 ≤ depthLog2) {i : Input α depthLog2} (hi : Released i) :
    ∀ k, (out ++ consumedWord i s).length ≤ k → (hk : k < (acc ++ acceptedWord i s).length) →
      (step i s).mem (BitVec.ofNat _ k) = (acc ++ acceptedWord i s)[k] := by
  intro k hlo hk
  have hlo' : out.length ≤ k := by rw [List.length_append] at hlo; omega
  have hread : c.rd2 ≤ out.length := by have := h.rd_order; omega
  rw [step_released hi]
  by_cases hfire : i.writeClk && writeFire i s
  · have hword : acceptedWord i s = [i.writeData] := by simp [acceptedWord, hfire]
    have hroom := (acceptedWord_length h hd i).2 (by simp [hword])
    have haddr : s.wrBin.setWidth depthLog2 = BitVec.ofNat depthLog2 acc.length := by
      rw [h.wrBin, BitVec.setWidth_ofNat_of_le (Nat.le_succ _)]
    simp only [hfire, if_true, haddr, hword, List.length_append, List.length_singleton] at hk ⊢
    by_cases hnew : k = acc.length
    · subst hnew
      simp
    · have hold : k < acc.length := by omega
      -- the slots of two waiting words differ: they are less than a whole memory apart
      have hne : BitVec.ofNat depthLog2 k ≠ BitVec.ofNat depthLog2 acc.length := by
        rw [Ne, ofNat_inj_of_lt (Nat.le_of_lt hold) (by omega)]
        omega
      rw [Function.update_of_ne hne, List.getElem_append_left hold]
      exact h.stored k hlo' hold
  · have hword : acceptedWord i s = [] := by simp [acceptedWord, hfire]
    simp only [hfire, hword, List.append_nil] at hk ⊢
    exact h.stored k hlo' hk

/-- How far the flops on the read side move in one instant: they never fall back, and a
read edge passes the first flop's count on and catches at least the count `n` the write
pointer had. -/
structure SyncCounts.Advances (c c' : SyncCounts) (readClk : Bool) (n : ℕ) : Prop where
  wr1 : c.wr1 ≤ c'.wr1
  wr2 : c.wr2 ≤ c'.wr2
  edge : readClk = true → n ≤ c'.wr1 ∧ c.wr1 ≤ c'.wr2

/-- One instant out of reset keeps the registers in step with the two word records. -/
theorem Tracks.step {acc out : List α} {c : SyncCounts} {s : State α depthLog2}
    (h : Tracks acc out c s) (hd : 1 ≤ depthLog2) {i : Input α depthLog2} (hi : Released i) :
    ∃ c', Tracks (acc ++ acceptedWord i s) (out ++ consumedWord i s) c' (step i s) ∧
      c.Advances c' i.readClk acc.length := by
  have hacc := acceptedWord_length h hd i
  have hout : (consumedWord i s).length ≤ 1 ∧ out.length + (consumedWord i s).length ≤ c.wr2 := by
    have := h.wr_order
    rcases consumedWord_eq h i with hc | ⟨_, _, hc⟩ <;> simp [hc] <;> omega
  have hdeliv : out ++ consumedWord i s <+: acc ++ acceptedWord i s := by
    rcases consumedWord_eq h i with hc | ⟨hlt, _, hc⟩
    · rw [hc, List.append_nil]
      exact h.delivered.trans (List.prefix_append _ _)
    · obtain ⟨rest, rfl⟩ := h.delivered
      cases rest with
      | nil => simp at hlt
      | cons x xs => rw [hc]; exact ⟨xs ++ acceptedWord i s, by simp⟩
  -- the counts the two first flops catch at this instant
  have hrd_moves : out.length ≤ (out ++ consumedWord i s).length ∧
      (out ++ consumedWord i s).length ≤ out.length + 1 := by simp [hout.1]
  have hwr_moves : acc.length ≤ (acc ++ acceptedWord i s).length ∧
      (acc ++ acceptedWord i s).length ≤ acc.length + 1 := by simp [hacc.1]
  obtain ⟨kr, hkr, hkr', hkr_eq⟩ := sample_count hrd_moves.1 hrd_moves.2 i.rdGrayCatch
  obtain ⟨kw, hkw, hkw', hkw_eq⟩ := sample_count hwr_moves.1 hwr_moves.2 i.wrGrayCatch
  have hrd := h.rd_order
  have hwr := h.wr_order
  have hroom := h.room
  have hroom' : acc.length + (acceptedWord i s).length + 1 ≤ c.rd2 + 2 ^ depthLog2 := by
    by_cases hnil : acceptedWord i s = []
    · simp [hnil]; omega
    · have := hacc.2 hnil; omega
  rw [List.length_append] at hkr' hkw'
  refine ⟨⟨if i.readClk then kw else c.wr1, if i.readClk then c.wr1 else c.wr2,
    if i.writeClk then kr else c.rd1, if i.writeClk then c.rd1 else c.rd2⟩, ?_, ?_⟩
  · refine
      { wrBin := ?_, rdBin := ?_, wrGray := ?_, rdGray := ?_, wrGrayR1 := ?_, wrGrayR2 := ?_,
        rdGrayW1 := ?_, rdGrayW2 := ?_, rd_order := ?_, wr_order := ?_, room := ?_,
        delivered := hdeliv, stored := stored_after h hd hi }
    · rw [step_released hi]
      by_cases hf : i.writeClk && writeFire i s <;>
        simp [hf, acceptedWord, h.wrBin, BitVec.ofNat_add]
    · rw [step_released hi]
      by_cases hf : i.readClk && readFire i s <;>
        simp [hf, consumedWord, h.rdBin, BitVec.ofNat_add]
    · rw [step_released hi]; exact wrGrayAfter_eq h hi
    · rw [step_released hi]; exact rdGrayAfter_eq h hi
    · rw [step_released hi]
      cases i.readClk
      · exact h.wrGrayR1
      · simp only [if_true, wrGrayAfter_eq h hi, h.wrGray]; exact hkw_eq
    · rw [step_released hi]
      cases i.readClk
      · exact h.wrGrayR2
      · exact h.wrGrayR1
    · rw [step_released hi]
      cases i.writeClk
      · exact h.rdGrayW1
      · simp only [if_true, rdGrayAfter_eq h hi, h.rdGray]; exact hkr_eq
    · rw [step_released hi]
      cases i.writeClk
      · exact h.rdGrayW2
      · exact h.rdGrayW1
    · rw [List.length_append]
      cases i.writeClk <;> simp <;> omega
    · rw [List.length_append, List.length_append]
      cases i.readClk <;> simp <;> omega
    · rw [List.length_append]
      cases i.writeClk <;> simp <;> omega
  · cases hrc : i.readClk
    · exact ⟨le_rfl, le_rfl, fun h => by simp at h⟩
    · exact ⟨by simp; omega, by simp; omega, fun _ => ⟨by simpa using hkw, by simp⟩⟩

/-! ### Whole runs -/

/-- The words accepted over the first `t` instants. -/
def accepted (r : Clocked.Run (Input α depthLog2) (State α depthLog2)) (t : ℕ) : List α :=
  r.record acceptedWord t

/-- The words consumed over the first `t` instants. -/
def consumed (r : Clocked.Run (Input α depthLog2) (State α depthLog2)) (t : ℕ) : List α :=
  r.record consumedWord t

theorem tracks_reset (mem : BitVec depthLog2 → α) :
    Tracks [] [] ⟨0, 0, 0, 0⟩ (resetState mem) := by
  constructor <;> simp [resetState, Nat.one_le_two_pow]
  all_goals exact gray_zero.symm

theorem run_tracks (hd : 1 ≤ depthLog2) (mem : BitVec depthLog2 → α)
    {inp : ℕ → Input α depthLog2} (hinp : ∀ t, Released (inp t)) (t : ℕ) :
    ∃ c, Tracks (accepted (run mem inp) t) (consumed (run mem inp) t) c ((run mem inp).state t) := by
  induction t with
  | zero => exact ⟨_, tracks_reset mem⟩
  | succ t ih =>
    obtain ⟨c, hc⟩ := ih
    obtain ⟨c', hc', -⟩ := hc.step hd (hinp t)
    exact ⟨c', hc'⟩

/-- Over `n` further instants the read side catches up: one read edge brings the current
write count into the first flop, two bring it into the second. -/
theorem run_catches_up (hd : 1 ≤ depthLog2) (mem : BitVec depthLog2 → α)
    {inp : ℕ → Input α depthLog2} (hinp : ∀ t, Released (inp t)) (t n : ℕ) :
    ∃ c, Tracks (accepted (run mem inp) (t + n)) (consumed (run mem inp) (t + n)) c
        ((run mem inp).state (t + n)) ∧
      (1 ≤ Nat.count (fun k => (inp (t + k)).readClk = true) n →
        (accepted (run mem inp) t).length ≤ c.wr1) ∧
      (2 ≤ Nat.count (fun k => (inp (t + k)).readClk = true) n →
        (accepted (run mem inp) t).length ≤ c.wr2) := by
  induction n with
  | zero =>
    obtain ⟨c, hc⟩ := run_tracks hd mem hinp t
    exact ⟨c, hc, fun h => by simp at h, fun h => by simp at h⟩
  | succ n ih =>
    obtain ⟨c, hc, h1, h2⟩ := ih
    obtain ⟨c', hc', hadv⟩ := hc.step hd (hinp (t + n))
    have hgrow : (accepted (run mem inp) t).length ≤ (accepted (run mem inp) (t + n)).length :=
      ((run mem inp).record_mono acceptedWord (Nat.le_add_right t n)).length_le
    have hwr1 := hadv.wr1
    have hwr2 := hadv.wr2
    refine ⟨c', hc', ?_, ?_⟩
    all_goals
      rw [Nat.count_succ]
      split
      · next hedge =>
        have hcatch := hadv.edge hedge
        intro hcount
        omega
      · intro hcount
        omega

/-- **FIFO correctness.** Out of reset, for every interleaving of the two clocks, every
handshake schedule and every choice of caught bits: the words consumed are a prefix of the
words accepted; at most `2 ^ DEPTH_LOG2 - 1` words are stored; every word accepted and not
yet consumed is intact in its memory slot; and a word accepted by instant `t` is offered to
the reader, once its predecessors are consumed, as soon as the read clock has had two more
edges. -/
theorem fifo_correct (hd : 2 ≤ depthLog2) (mem : BitVec depthLog2 → α)
    (inp : ℕ → Input α depthLog2) (hinp : ∀ t, Released (inp t)) (t : ℕ) :
    consumed (run mem inp) t <+: accepted (run mem inp) t ∧
    (accepted (run mem inp) t).length ≤
      (consumed (run mem inp) t).length + (2 ^ depthLog2 - 1) ∧
    (∀ k, (consumed (run mem inp) t).length ≤ k →
      (hk : k < (accepted (run mem inp) t).length) →
      ((run mem inp).state t).mem (BitVec.ofNat _ k) = (accepted (run mem inp) t)[k]) ∧
    (∀ n, 2 ≤ Nat.count (fun k => (inp (t + k)).readClk = true) n →
      (consumed (run mem inp) (t + n)).length < (accepted (run mem inp) t).length →
      readValid ((run mem inp).state (t + n)) = true) := by
  have hd' : 1 ≤ depthLog2 := by omega
  obtain ⟨c, hc⟩ := run_tracks hd' mem hinp t
  refine ⟨hc.delivered, ?_, hc.stored, fun n hcount hdue => ?_⟩
  · have := hc.room
    have := hc.rd_order
    omega
  · obtain ⟨c', hc', -, hseen⟩ := run_catches_up hd' mem hinp t n
    exact (readValid_iff hc').mpr (lt_of_lt_of_le hdue (hseen hcount))

/-- Both clocks run in lockstep, a word is offered at every instant and the reader is
always ready; every first flop catches the old value of the bits that change. -/
def lockstep (t : ℕ) : Input ℕ 2 where
  writeClk := true
  writeResetN := true
  writeData := t
  writeValid := true
  readClk := true
  readResetN := true
  readReady := true
  rdGrayCatch := 0
  wrGrayCatch := 0

theorem fifo_correct_lockstep :
    accepted (run (fun _ => 0) lockstep) 7 = [0, 1, 2, 6] ∧
    consumed (run (fun _ => 0) lockstep) 7 = [0, 1, 2] ∧
    consumed (run (fun _ => 0) lockstep) 7 <+: accepted (run (fun _ => 0) lockstep) 7 :=
  ⟨by decide, by decide, (fifo_correct (by decide) _ lockstep (fun _ => ⟨rfl, rfl⟩) 7).1⟩

end AsyncFifo
