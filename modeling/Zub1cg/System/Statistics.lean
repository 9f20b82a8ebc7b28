import Zub1cg.System.Board.Access
import Zub1cg.Firmware.Controller.Language
import Zub1cg.Library.SplitRead

/-!
# The statistics reply on the board

`GetStats` reads nine 32-bit registers one after the other while the counters behind them go
on. The register block keeps no copy of a counter, so the two halves of a 64-bit counter
come from different cycles.

## Main results

- `Board.read_counter` — one counter register: which cycle it is sampled in
- `readStats_board` — a whole list of them
- `stats_snapshot_iff` — when the reply shows values that the counters really held
-/

namespace System

open Pl (Bus)
open Firmware (RegisterIo Controller statsOffsets overwrite)

namespace Board

/-! ### Reading a counter register -/

/-- The surroundings are fixed, the clock goes on, and no register is read in between. -/
structure Since (b : Board) (reads : List (ℕ × BitVec 16)) (b' : Board) : Prop where
  env : b'.env = b.env
  cycle : b.cycle ≤ b'.cycle
  reads : b'.reads = b.reads ++ reads

theorem Since.tick {b b' : Board} {reads : List (ℕ × BitVec 16)} {u : Bus} (hu : b'.Silent u)
    (h : b.Since reads b') : b.Since reads (b'.tick u) where
  env := h.env
  cycle := h.cycle.trans (Nat.le_succ _)
  reads := by
    change b'.reads ++ (if AxiRegs.readFire (b'.ports u) b'.pl.regs = true then _ else _) = _
    rw [hu.2, h.reads]
    simp

/-- A register that shows a value of the surroundings is sampled in one cycle of its access. -/
theorem read_counter {b : Board} (hrest : b.AtRest) {address : BitVec 16}
    {value : Pl.Env → BitVec 32}
    (hvalue : ∀ e u s, AxiRegs.readRegister (Pl.regsInput e u s) s.regs address = value e) :
    ∃ t, b.cycle ≤ t ∧ t < (b.read address).2.cycle ∧
      (b.read address).1 = value (b.env t) ∧
      b.Since [(t, address)] (b.read address).2 ∧ (b.read address).2.AtRest := by
  obtain ⟨haccess, hend⟩ := read_cycles hrest address
  let Sampled : Board → Prop := fun b' => ∃ t, b.cycle ≤ t ∧ t < b'.cycle ∧
    (b.read address).1 = value (b.env t) ∧ b.Since [(t, address)] b'
  have hstable : ∀ u (b' : Board), b'.Silent u → Sampled b' → Sampled (b'.tick u) := by
    rintro u b' hu ⟨t, hle, hlt, hword, hsince⟩
    exact ⟨t, hle, hlt.trans (Nat.lt_succ_self _), hword, hsince.tick hu⟩
  have hsample : ∀ u (b' : Board), b'.Reads address (b.read address).1 u → b.Since [] b' →
      Sampled (b'.tick u) := by
    rintro u b' ⟨hfire, haddr, hword, -⟩ hsince
    refine ⟨b'.cycle, hsince.cycle, Nat.lt_succ_self _, ?_, hsince.env,
      hsince.cycle.trans (Nat.le_succ _), ?_⟩
    · rw [← hword, ← hsince.env]
      exact hvalue _ u b'.pl
    · change b'.reads ++ (if AxiRegs.readFire (b'.ports u) b'.pl.regs = true then _ else _) = _
      rw [hfire, hsince.reads, haddr]
      simp
  obtain ⟨t, hle, hlt, hword, hsince⟩ := haccess.rule (P := b.Since [])
    (fun u b' hu hb' => hb'.tick hu) hsample hstable hstable
    ⟨rfl, Nat.le_refl _, (List.append_nil _).symm⟩
  exact ⟨t, hle, hlt, hword, hsince, hend⟩

end Board

/-- The cycles `ts` come one after the other, from cycle `n` on. -/
def Later (n : ℕ) (ts : List ℕ) : Prop := (∀ t ∈ ts, n ≤ t) ∧ ts.Pairwise (· < ·)

/-- Reading a list of registers that show values of the surroundings: each is sampled in a
cycle of its own, in the order of the list. -/
theorem readStats_board (registers : List (ℕ × (Pl.Env → BitVec 32)))
    (hvalue : ∀ r ∈ registers, ∀ e u s,
      AxiRegs.readRegister (Pl.regsInput e u s) s.regs (BitVec.ofNat 16 r.1) = r.2 e)
    {b : Board} (hrest : b.AtRest) :
    ∃ ts : List ℕ, ts.length = registers.length ∧ Later b.cycle ts ∧
      (Controller.readStats (registers.map Prod.fst) ⟨b⟩).1 =
        (List.zipWith (fun t r => u32ToLe (UInt32.ofBitVec (r.2 (b.env t)))) ts registers).flatten ∧
      b.Since (ts.zip (registers.map fun r => BitVec.ofNat 16 r.1))
        (Controller.readStats (registers.map Prod.fst) ⟨b⟩).2.io := by
  induction registers generalizing b with
  | nil =>
    exact ⟨[], rfl, ⟨by simp, List.Pairwise.nil⟩, rfl, rfl, Nat.le_refl _,
      (List.append_nil _).symm⟩
  | cons r rest ih =>
    obtain ⟨t, hle, hlt, hword, hsince, hrest'⟩ :=
      Board.read_counter hrest (hvalue r List.mem_cons_self)
    obtain ⟨ts, hlen, hlater, hbytes, hsince'⟩ :=
      ih (fun r' hr' => hvalue r' (List.mem_cons_of_mem _ hr')) hrest'
    refine ⟨t :: ts, by simp [hlen], ⟨?_, ?_⟩, ?_, ?_⟩
    · rintro t' ht'
      obtain rfl | ht' := List.mem_cons.mp ht'
      · exact hle
      · exact hsince.cycle.trans (hlater.1 t' ht')
    · exact List.pairwise_cons.mpr ⟨fun t' ht' => hlt.trans_le (hlater.1 t' ht'), hlater.2⟩
    · change u32ToLe (UInt32.ofBitVec (b.read _).1) ++
        (Controller.readStats (rest.map Prod.fst) ⟨(b.read _).2⟩).1 = _
      rw [hword, hbytes, hsince.env]
      rfl
    · refine ⟨hsince'.env.trans hsince.env, hsince.cycle.trans hsince'.cycle, ?_⟩
      refine hsince'.reads.trans ?_
      rw [hsince.reads, List.append_assoc]
      rfl

/-! ### The statistics reply -/

/-- The counters of the PL that only grow. -/
inductive Counter where
  | rxBytes
  | droppedBytes
  | syncLoss
  deriving DecidableEq, Repr

namespace Counter

/-- The counter's value, as the register block is given it. -/
def value : Counter → Pl.Env → BitVec 64
  | rxBytes => Pl.Env.receivedBytes
  | droppedBytes => Pl.Env.droppedBytes
  | syncLoss => Pl.Env.syncLoss

/-- The counter's field in the host's statistics. -/
def field : Counter → Model.Stats → UInt64
  | rxBytes => Model.Stats.rxBytes
  | droppedBytes => Model.Stats.droppedBytes
  | syncLoss => Model.Stats.syncLoss

/-- Which of the nine reads samples the counter's low half. -/
def loRead : Counter → Fin 9
  | rxBytes => 0
  | droppedBytes => 2
  | syncLoss => 4

/-- Which of the nine reads samples the counter's high half. -/
def hiRead : Counter → Fin 9
  | rxBytes => 1
  | droppedBytes => 3
  | syncLoss => 5

end Counter

/-- `{63'b0, dma_fault}` -/
def dmaFaults (e : Pl.Env) : BitVec 64 := 0#63 ++ BitVec.ofBool e.dmaFault

/-- The registers of the reply and what each of them shows. -/
def statsRegisters : List (ℕ × (Pl.Env → BitVec 32)) :=
  [(0x40, fun e => e.receivedBytes.extractLsb' 0 32),
    (0x44, fun e => e.receivedBytes.extractLsb' 32 32),
    (0x48, fun e => e.droppedBytes.extractLsb' 0 32),
    (0x4c, fun e => e.droppedBytes.extractLsb' 32 32),
    (0x50, fun e => e.syncLoss.extractLsb' 0 32),
    (0x54, fun e => e.syncLoss.extractLsb' 32 32),
    (0x58, fun e => e.fifoHighWater),
    (0x60, fun e => (dmaFaults e).extractLsb' 0 32),
    (0x64, fun e => (dmaFaults e).extractLsb' 32 32)]

theorem statsRegisters_show (r : ℕ × (Pl.Env → BitVec 32)) (hr : r ∈ statsRegisters) (e : Pl.Env)
    (u : Bus) (s : Pl.State) :
    AxiRegs.readRegister (Pl.regsInput e u s) s.regs (BitVec.ofNat 16 r.1) = r.2 e := by
  simp only [statsRegisters, List.mem_cons, List.not_mem_nil, or_false] at hr
  obtain rfl | rfl | rfl | rfl | rfl | rfl | rfl | rfl | rfl := hr <;> rfl

/-- Every 64-bit field shows a value its counter had in some cycle from the first read of
the command to the last one. -/
def SnapshotHeld (env : ℕ → Pl.Env) (t : Fin 9 → ℕ) (stats : Model.Stats) : Prop :=
  (∀ k : Counter, ∃ n ∈ Set.Icc (t 0) (t 8), k.value (env n) = (k.field stats).toBitVec) ∧
    ∃ n ∈ Set.Icc (t 0) (t 8), dmaFaults (env n) = stats.dmaFaults.toBitVec

/-- The counter's upper half is the same when its two halves are read. -/
def NoCarry (env : ℕ → Pl.Env) (t : Fin 9 → ℕ) (k : Counter) : Prop :=
  (k.value (env (t k.loRead))).toNat / 2 ^ 32 = (k.value (env (t k.hiRead))).toNat / 2 ^ 32

/-- After its low half is read, the counter goes on by `2 ^ 32` or more within the command
and passes through the low half read first and the high half read second. -/
def Laps (env : ℕ → Pl.Env) (t : Fin 9 → ℕ) (k : Counter) : Prop :=
  ∃ n ∈ Set.Icc (t 0) (t 8),
    (k.value (env (t k.loRead))).toNat + 2 ^ 32 ≤ (k.value (env n)).toNat ∧
      (k.value (env n)).toNat % 2 ^ 32 = (k.value (env (t k.loRead))).toNat % 2 ^ 32 ∧
      (k.value (env n)).toNat / 2 ^ 32 = (k.value (env (t k.hiRead))).toNat / 2 ^ 32

/-- The host puts a field together from the two words of the reply. -/
theorem field_toNat (lo hi : BitVec 64) :
    (u64FromLe (u32ToLe (UInt32.ofBitVec (lo.extractLsb' 0 32)) ++
      u32ToLe (UInt32.ofBitVec (hi.extractLsb' 32 32)))).toNat =
      SplitRead.assemble 32 lo.toNat hi.toNat := by
  have hlo : (UInt32.ofBitVec (lo.extractLsb' 0 32)).toNat = lo.toNat % 2 ^ 32 := by
    simp
  have hhi : (UInt32.ofBitVec (hi.extractLsb' 32 32)).toNat = hi.toNat / 2 ^ 32 := by
    have := hi.isLt
    simp [Nat.shiftRight_eq_div_pow]
    omega
  rw [u64FromLe_words, hlo, hhi, SplitRead.assemble]
  ring

/-- The host's view of the nine words. -/
theorem statsFromLe_words (w₀ w₁ w₂ w₃ w₄ w₅ w₆ w₇ w₈ : UInt32) :
    Model.statsFromLe ([u32ToLe w₀, u32ToLe w₁, u32ToLe w₂, u32ToLe w₃, u32ToLe w₄, u32ToLe w₅,
        u32ToLe w₆, u32ToLe w₇, u32ToLe w₈].flatten) =
      .ok
        { rxBytes := u64FromLe (u32ToLe w₀ ++ u32ToLe w₁)
          droppedBytes := u64FromLe (u32ToLe w₂ ++ u32ToLe w₃)
          syncLoss := u64FromLe (u32ToLe w₄ ++ u32ToLe w₅)
          fifoHighWater := u32FromLe (u32ToLe w₆)
          dmaFaults := u64FromLe (u32ToLe w₇ ++ u32ToLe w₈) } :=
  rfl

/-- A field shows a value of its counter exactly when its split read is sound. -/
theorem field_held_iff {env : ℕ → Pl.Env} {t : Fin 9 → ℕ} (ht : StrictMono t) (k : Counter)
    (hmono : Monotone fun n => (k.value (env n)).toNat) {field : UInt64}
    (hfield : field.toNat = SplitRead.assemble 32 (k.value (env (t k.loRead))).toNat
      (k.value (env (t k.hiRead))).toNat) :
    (∃ n ∈ Set.Icc (t 0) (t 8), k.value (env n) = field.toBitVec) ↔
      NoCarry env t k ∨ Laps env t k := by
  have hlo : t k.loRead ∈ Set.Icc (t 0) (t 8) :=
    ⟨ht.monotone (Fin.zero_le _), ht.monotone (Fin.le_last _)⟩
  have hle : t k.loRead ≤ t k.hiRead := by
    cases k <;> exact ht.monotone (by decide)
  rw [NoCarry, Laps, ← SplitRead.held_iff hmono hlo hle]
  refine exists_congr fun n => and_congr_right fun _ => ?_
  rw [← hfield, ← BitVec.toNat_inj]
  rfl

/-- What the firmware sees of a request that is `GetStats` to the host. -/
theorem accepts_of_decode_getStats {request response : List UInt8}
    (h : Model.Command.decode request = .ok .GetStats) (hroom : 36 ≤ response.length) :
    Firmware.Accepts request response.length ∧ (byteAt request 2).toNat = 6 := by
  unfold Model.Command.decode at h
  split at h
  · cases h
  next hlen =>
  simp only [ne_eq, ite_not] at h
  split at h
  · next hversion =>
    have hop : (byteAt request 2).toNat = 6 := by
      generalize (byteAt request 2).toNat = opcode at h ⊢
      split at h
      · cases h
      · split at h
        · cases hsource : Model.Source.tryFrom (byteAt request 3) with
          | error e => rw [hsource] at h; cases h
          | ok source =>
            cases hformat : Model.TraceFormat.tryFrom (byteAt request 4) with
            | error e => rw [hsource, hformat] at h; cases h
            | ok format => rw [hsource, hformat] at h; cases h
        · cases h
      · cases h
      · cases h
      · cases h
      · rfl
      · split at h <;> cases h
      · split at h <;> cases h
      · split at h <;> cases h
      · cases h
    refine ⟨⟨by omega, by omega, hversion, ?_⟩, hop⟩
    simpa [Firmware.argumentsFit, hop] using hroom
  · cases h

/-- The statistics the host decodes when the nine registers are sampled in the cycles `t`. -/
def sampledStats (env : ℕ → Pl.Env) (t : Fin 9 → ℕ) : Model.Stats :=
  let word (counter : Pl.Env → BitVec 64) (start : ℕ) (i : Fin 9) : List UInt8 :=
    u32ToLe (UInt32.ofBitVec ((counter (env (t i))).extractLsb' start 32))
  { rxBytes := u64FromLe (word Pl.Env.receivedBytes 0 0 ++ word Pl.Env.receivedBytes 32 1)
    droppedBytes := u64FromLe (word Pl.Env.droppedBytes 0 2 ++ word Pl.Env.droppedBytes 32 3)
    syncLoss := u64FromLe (word Pl.Env.syncLoss 0 4 ++ word Pl.Env.syncLoss 32 5)
    fifoHighWater := u32FromLe (u32ToLe (UInt32.ofBitVec (env (t 6)).fifoHighWater))
    dmaFaults := u64FromLe (word dmaFaults 0 7 ++ word dmaFaults 32 8) }

theorem sampledStats_held_iff {env : ℕ → Pl.Env} {t : Fin 9 → ℕ} (ht : StrictMono t)
    (hmono : ∀ k : Counter, Monotone fun n => (k.value (env n)).toNat) :
    SnapshotHeld env t (sampledStats env t) ↔ ∀ k, NoCarry env t k ∨ Laps env t k := by
  -- the fault flag is one bit, so its upper half is always zero
  have hfaults : ∃ n ∈ Set.Icc (t 0) (t 8),
      dmaFaults (env n) = (sampledStats env t).dmaFaults.toBitVec := by
    refine ⟨t 7, ⟨ht.monotone (Fin.zero_le _), ht.monotone (by decide)⟩, ?_⟩
    have hsmall : ∀ e, (dmaFaults e).toNat / 2 ^ 32 = 0 := by
      intro e
      cases he : e.dmaFault <;> simp [dmaFaults, he]
    apply BitVec.toNat_inj.mp
    refine Eq.trans ?_ (field_toNat (dmaFaults (env (t 7))) (dmaFaults (env (t 8)))).symm
    rw [SplitRead.assemble_eq (by rw [hsmall, hsmall])]
  have hfield : ∀ k : Counter, (k.field (sampledStats env t)).toNat =
      SplitRead.assemble 32 (k.value (env (t k.loRead))).toNat
        (k.value (env (t k.hiRead))).toNat := by
    intro k
    cases k <;> exact field_toNat _ _
  rw [SnapshotHeld, and_iff_left hfaults]
  exact forall_congr' fun k => field_held_iff ht k (hmono k) (hfield k)

theorem length_eq_nine {α : Type*} {xs : List α} (h : xs.length = 9) :
    ∃ x₀ x₁ x₂ x₃ x₄ x₅ x₆ x₇ x₈, xs = [x₀, x₁, x₂, x₃, x₄, x₅, x₆, x₇, x₈] := by
  match xs, h with
  | [x₀, x₁, x₂, x₃, x₄, x₅, x₆, x₇, x₈], _ => exact ⟨x₀, x₁, x₂, x₃, x₄, x₅, x₆, x₇, x₈, rfl⟩

/-- **Which statistics are a snapshot.** In every run in which the three counters only grow,
`GetStats` samples its nine registers one after the other, and every 64-bit field the host
decodes shows a value its counter really had in between exactly when no counter carries
into its upper half between its two reads (or one that does laps its whole low half and
comes out right by accident). -/
theorem stats_snapshot_iff (b : Board) (hrest : b.AtRest)
    (hmono : ∀ k : Counter, Monotone fun n => (k.value (b.env n)).toNat)
    (request response : List UInt8) (hrequest : Model.Command.decode request = .ok .GetStats)
    (hroom : 36 ≤ response.length) :
    let out := (Controller.mk b).command request response
    ∃ (t : Fin 9 → ℕ) (stats : Model.Stats),
      out.1 = .ok 36 ∧ Model.statsFromLe (out.2.2.take 36) = .ok stats ∧
      StrictMono t ∧ b.cycle ≤ t 0 ∧
      out.2.1.io.reads =
        b.reads ++ List.ofFn (fun i => (t i, BitVec.ofNat 16 (statsOffsets.getD i 0))) ∧
      (SnapshotHeld b.env t stats ↔ ∀ k, NoCarry b.env t k ∨ Laps b.env t k) := by
  obtain ⟨haccepts, hop⟩ := accepts_of_decode_getStats hrequest hroom
  obtain ⟨ts, hlen, hlater, hbytes, hsince⟩ := readStats_board statsRegisters statsRegisters_show
    hrest
  rw [show statsRegisters.map Prod.fst = statsOffsets from rfl] at hbytes hsince
  obtain ⟨t₀, t₁, t₂, t₃, t₄, t₅, t₆, t₇, t₈, rfl⟩ := length_eq_nine hlen
  let t : Fin 9 → ℕ := [t₀, t₁, t₂, t₃, t₄, t₅, t₆, t₇, t₈].get
  have ht : StrictMono t := fun i j hij => List.pairwise_iff_get.mp hlater.2 i j hij
  have htake : (overwrite (Controller.readStats statsOffsets ⟨b⟩).1 response).take 36 =
      (Controller.readStats statsOffsets ⟨b⟩).1 :=
    List.take_left' (Controller.length_readStats _ _)
  have hstats : Model.statsFromLe (Controller.readStats statsOffsets ⟨b⟩).1 =
      .ok (sampledStats b.env t) := by
    rw [hbytes]
    exact statsFromLe_words _ _ _ _ _ _ _ _ _
  dsimp only
  rw [Firmware.Controller.command_getStats haccepts hop ⟨b⟩]
  refine ⟨t, sampledStats b.env t, rfl, ?_, ht, hlater.1 t₀ List.mem_cons_self, hsince.reads, ?_⟩
  · rw [htake, hstats]
  · exact sampledStats_held_iff ht hmono

/-- With counters that stand still the reply is a snapshot. -/
theorem stats_snapshot_boot :
    let out := (Controller.mk bootBoard).command [1, 0, 6] (List.replicate 36 0)
    ∃ (t : Fin 9 → ℕ) (stats : Model.Stats),
      Model.statsFromLe (out.2.2.take 36) = .ok stats ∧ SnapshotHeld bootBoard.env t stats := by
  obtain ⟨t, stats, -, hstats, -, -, -, hsnapshot⟩ := stats_snapshot_iff bootBoard
    ⟨rfl, rfl, rfl, rfl⟩ (fun _ _ _ _ => Nat.le_refl _) [1, 0, 6] (List.replicate 36 0) rfl
    (by simp)
  exact ⟨t, stats, hstats, hsnapshot.mpr fun _ => .inl rfl⟩

/-- The board with `rx_bytes` carrying into its upper half after the first cycle. -/
def carryBoard : Board :=
  { bootBoard with
    env := fun n => { quietEnv with receivedBytes := if n = 0 then 0xffffffff else 0x100000000 } }

/-- A carry between the two reads of `rx_bytes`: the host is shown `0x1_ffff_ffff`, which the
counter had at no time at all. -/
theorem stats_torn_by_carry :
    let out := (Controller.mk carryBoard).command [1, 0, 6] (List.replicate 36 0)
    carryBoard.AtRest ∧ (∀ k : Counter, Monotone fun n => (k.value (carryBoard.env n)).toNat) ∧
      Model.Command.decode [1, 0, 6] = .ok .GetStats ∧
      ∃ stats, Model.statsFromLe (out.2.2.take 36) = .ok stats ∧
        ∀ n, (carryBoard.env n).receivedBytes ≠ stats.rxBytes.toBitVec := by
  refine ⟨⟨rfl, rfl, rfl, rfl⟩, ?_, rfl, ⟨0x1ffffffff, 0, 0, 0, 0⟩, by decide +kernel, ?_⟩
  · intro k m n hmn
    cases k with
    | rxBytes =>
      change (if m = 0 then (0xffffffff : BitVec 64) else 0x100000000).toNat ≤
        (if n = 0 then (0xffffffff : BitVec 64) else 0x100000000).toNat
      split
      · split <;> decide
      · rw [if_neg (by omega)]
    | droppedBytes => exact Nat.le_refl _
    | syncLoss => exact Nat.le_refl _
  · intro n
    change (if n = 0 then (0xffffffff : BitVec 64) else 0x100000000) ≠ 0x1ffffffff
    split <;> decide

end System
