import Zub1cg.Rtl.TracePath.Isolation
import Zub1cg.Rtl.TracePath.Chains
import Zub1cg.Rtl.CaptureChain.DropCounter
import Zub1cg.Rtl.OrbflowEncoder.Accounting
import Zub1cg.Library.GatedClock

/-!
# The losses that software reads (`orbtrace_pl.v`)

`dropped_bytes` is the sum of what the encoder has dropped and what is seen of the drop counters
of the two capture chains. All of them are 64-bit registers, and what they hold is a count that
never falls, modulo `2 ^ 64`.

## Main definitions

- `coreDropped` — the bytes that the core has dropped

## Main results

- `encoder_count` — what the core's register shows
- `loss_counters` — what the three registers show
- `drops_wrap` — a drop counter that wraps around
-/

namespace OrbflowEncoder

/-- More bytes do not make the dropped ones fewer. -/
theorem droppedOf_mono (maxPayload : ℕ) {items more : List ((BitVec 7 × UInt8) × Bool)}
    (h : items <+: more) : droppedOf maxPayload items ≤ droppedOf maxPayload more := by
  obtain ⟨later, rfl⟩ := h
  induction later using List.reverseRecOn with
  | nil => rw [List.append_nil]
  | append_singleton later x ih =>
    rw [← List.append_assoc, droppedOf_concat]
    exact ih.trans (Nat.le_add_right _ _)

end OrbflowEncoder

namespace TracePath

open FrameChain (ORBFLOW_PAYLOAD)
open OrbflowEncoder (droppedOf)
open StreamSide (Config)
open CaptureChain (lost Shows)

/-- The encoder moves with `aclk`. -/
def encoderClock (i : Config × Input) (_ : State) : Bool := i.2.aclk

/-- The ports of the core's encoder. -/
def encoderInput (i : Config × Input) (s : State) : OrbflowEncoder.Input :=
  FrameChain.encoderInput (StreamSide.framesInput i.1 (sideInput i.2 s) s.side) s.side.frames

/-- The byte that the core's encoder takes at this instant. -/
def encoderTaken (i : Config × Input) (s : State) : List ((BitVec 7 × UInt8) × Bool) :=
  if encoderClock i s then OrbflowEncoder.accepted (encoderInput i s) s.side.frames.encoder else []

section

variable (l : Leftover) {inp : ℕ → Config × Input} (hreset : ∀ t, (inp t).2.aresetn = true)

/-- The bytes that the core has dropped: those of the packets that are too long for its encoder. -/
def coreDropped (l : Leftover) (inp : ℕ → Config × Input) (t : ℕ) : ℕ :=
  droppedOf ORBFLOW_PAYLOAD ((session l inp).record encoderTaken t)

theorem coreDropped_mono (inp : ℕ → Config × Input) : Monotone (coreDropped l inp) :=
  fun _ _ h => OrbflowEncoder.droppedOf_mono _ ((session l inp).record_mono encoderTaken h)

include hreset

/-- **The core counts what it drops.** -/
theorem encoder_count (t : ℕ) : ((session l inp).state t).side.frames.encoder.droppedBytes =
    BitVec.ofNat 64 (coreDropped l inp t) := by
  let r := session l inp
  let encoder := r.gated encoderClock (OrbflowEncoder.step ORBFLOW_PAYLOAD) encoderInput
    fun s => s.side.frames.encoder
  have hpart : ∀ i s, (r.step i s).side.frames.encoder =
      if encoderClock i s then
        OrbflowEncoder.step ORBFLOW_PAYLOAD (encoderInput i s) s.side.frames.encoder
      else s.side.frames.encoder := by
    intro i s
    change (sideNext i.1 i.2 s).frames.encoder = _
    rw [sideNext, encoderClock]
    split <;> rfl
  have hcount := (@OrbflowEncoder.counters_run ORBFLOW_PAYLOAD (by decide) l.encoder encoder.input
    (fun _ => hreset _) (r.ticks encoderClock t)).2
  change (encoder.state (r.ticks encoderClock t)).droppedBytes = BitVec.ofNat 64
    (droppedOf ORBFLOW_PAYLOAD
      (encoder.record OrbflowEncoder.accepted (r.ticks encoderClock t))) at hcount
  rw [r.gated_state hpart, r.gated_record hpart] at hcount
  exact hcount

/-- **What the registers show of the losses.** From a reset on, for every interleaving of the
three clocks and whatever is caught of a changing code: each of the two counters seen at `aclk`
shows counts that never fall and that the counter has had, `dropped_bytes` is the sum of these and
of the bytes that the core has dropped, which do not fall either, all modulo `2 ^ 64`; and as long
as a count has not reached `2 ^ 64`, its register never decreases and shows no more than there is. -/
theorem loss_counters :
    Monotone (coreDropped l inp) ∧
    ∃ trace m3 : ℕ → ℕ, Shows (traceChain l inp) trace ∧ Shows (m3Chain l inp) m3 ∧
      (∀ t, droppedBytes ((session l inp).state t) =
        BitVec.ofNat 64 (coreDropped l inp t + trace t + m3 t)) ∧
      ∀ u t, u ≤ t →
        (lost (traceChain l inp) t < 2 ^ 64 →
          CaptureChain.dropsSync ((session l inp).state u).trace ≤
              CaptureChain.dropsSync ((session l inp).state t).trace ∧
            (CaptureChain.dropsSync ((session l inp).state t).trace).toNat ≤
              lost (traceChain l inp) t) ∧
        (lost (m3Chain l inp) t < 2 ^ 64 →
          CaptureChain.dropsSync ((session l inp).state u).m3 ≤
              CaptureChain.dropsSync ((session l inp).state t).m3 ∧
            (CaptureChain.dropsSync ((session l inp).state t).m3).toNat ≤
              lost (m3Chain l inp) t) ∧
        (coreDropped l inp t + trace t + m3 t < 2 ^ 64 →
          droppedBytes ((session l inp).state u) ≤ droppedBytes ((session l inp).state t)) := by
  have htrace : Shows (traceChain l inp) _ := @CaptureChain.run_shows l.traceMem
    (fun t => traceInput (inp t).1 (inp t).2 ((session l inp).state t)) hreset
  have hm3 : Shows (m3Chain l inp) _ := @CaptureChain.run_shows l.m3Mem
    (fun t => m3Input (inp t).1 (inp t).2 ((session l inp).state t)) hreset
  have hsum (t : ℕ) : droppedBytes ((session l inp).state t) = BitVec.ofNat 64
      (coreDropped l inp t + (CaptureChain.seen (traceChain l inp) t).2 +
        (CaptureChain.seen (m3Chain l inp) t).2) := by
    have hseen := htrace.value t
    have hseen' := hm3.value t
    rw [trace_run] at hseen
    rw [m3_run] at hseen'
    rw [droppedBytes, encoder_count l hreset, hseen, hseen', BitVec.ofNat_add, BitVec.ofNat_add]
    rfl
  refine ⟨coreDropped_mono l inp, _, _, htrace, hm3, hsum, fun u t hut => ⟨?_, ?_, ?_⟩⟩
  · intro hfits
    rw [← trace_run, ← trace_run]
    exact htrace.below hut hfits
  · intro hfits
    rw [← m3_run, ← m3_run]
    exact hm3.below hut hfits
  · intro hfits
    rw [hsum, hsum]
    have hc := coreDropped_mono l inp hut
    have ht := htrace.mono hut
    have hm := hm3.mono hut
    exact CaptureChain.ofNat_le_ofNat (Nat.add_le_add (Nat.add_le_add hc ht) hm) hfits

end

theorem loss_counters_ticking :
    ∃ trace m3 : ℕ → ℕ,
      Shows (traceChain cleared fun _ => (fourBitM3, otherPort (some .rise))) trace ∧
      Shows (m3Chain cleared fun _ => (fourBitM3, otherPort (some .rise))) m3 ∧
      ∀ t, droppedBytes
          ((session cleared fun _ => (fourBitM3, otherPort (some .rise))).state t) =
        BitVec.ofNat 64 (coreDropped cleared (fun _ => (fourBitM3, otherPort (some .rise))) t +
          trace t + m3 t) := by
  obtain ⟨-, trace, m3, htrace, hm3, hsum, -⟩ :=
    @loss_counters cleared (fun _ => (fourBitM3, otherPort (some .rise))) fun _ => rfl
  exact ⟨trace, m3, htrace, hm3, hsum⟩

/-! ### A counter that wraps around -/

/-- The chain that nobody reads has settled: at every edge a byte comes and is dropped, and `k`
drops have come through to `aclk`. -/
structure Settled (k : ℕ) (s : CaptureChain.State) : Prop where
  resetSync : s.resetSync = 3
  config : (s.formatM, s.formatS, s.runningM, s.runningS) = (2, 2, true, true)
  capture : s.capture = ⟨0, 0, 0, 0, 2, true, 0, true⟩
  fifo : AsyncFifo.Unread CaptureChain.capacity s.fifo
  drops : s.drops = BitVec.ofNat 64 (k + 2)
  dropsGray : s.dropsGray = GrayCode.gray (BitVec.ofNat 64 (k + 2))
  dropsGrayS1 : s.dropsGrayS1 = GrayCode.gray (BitVec.ofNat 64 (k + 1))
  dropsGrayS2 : s.dropsGrayS2 = GrayCode.gray (BitVec.ofNat 64 k)

/-- Two edges until the reset has gone, two for the configuration, one to prime the capture, 32
until the FIFO is full and another byte has come, and two until it is seen. -/
theorem settled_start :
    Settled 0 ((CaptureChain.run cleared.traceMem fun _ => tickingInput).state 39) := by
  constructor
  case fifo => constructor <;> decide +kernel
  all_goals decide +kernel

theorem step_config (i : CaptureChain.Input) (s : CaptureChain.State) :
    ((CaptureChain.step i s).formatM, (CaptureChain.step i s).formatS,
        (CaptureChain.step i s).runningM, (CaptureChain.step i s).runningS) =
      if CaptureChain.rises i then
        if !CaptureChain.resetN i s then (0, 0, false, false)
        else (i.traceFormat, s.formatM, i.running, s.runningM)
      else (s.formatM, s.formatS, s.runningM, s.runningS) := by
  unfold CaptureChain.step CaptureChain.traceUpdate CaptureChain.aclkUpdate
    CaptureChain.dropUpdate CaptureChain.configUpdate
  split_ifs <;> rfl

theorem Settled.step {k : ℕ} {s : CaptureChain.State} (h : Settled k s) :
    Settled (k + 1) (CaptureChain.step tickingInput s) := by
  have hresetN : CaptureChain.resetN tickingInput s = true := by
    rw [CaptureChain.resetN, h.resetSync]
    rfl
  have hdropped : CaptureChain.dropped s = true := by
    have hready := h.fifo.writeReady_iff (by decide)
    have hfull : AsyncFifo.writeReady s.fifo = false := by
      rw [← Bool.not_eq_true, hready]
      decide
    rw [CaptureChain.dropped, hfull, h.capture]
    rfl
  have hrise : CaptureChain.rises tickingInput = true := rfl
  have hdrops := CaptureChain.step_drops tickingInput s
  rw [hrise, if_pos rfl, hresetN, hdropped, Bool.not_true, if_neg Bool.false_ne_true, if_pos rfl,
    h.drops, AsyncFifo.ofNat_succ, Prod.mk.injEq, Prod.mk.injEq] at hdrops
  have hsynced := CaptureChain.step_synced tickingInput s
  rw [show tickingInput.aclk = true from rfl, if_pos rfl, h.dropsGrayS1, h.dropsGray,
    show tickingInput.aresetn = true from rfl, Bool.not_true, if_neg Bool.false_ne_true,
    Prod.mk.injEq, Prod.mk.injEq, Prod.mk.injEq] at hsynced
  have hconfig := step_config tickingInput s
  have hbefore := h.config
  rw [Prod.mk.injEq, Prod.mk.injEq, Prod.mk.injEq] at hbefore
  obtain ⟨hformatM, hformatS, hrunningM, hrunningS⟩ := hbefore
  rw [hrise, if_pos rfl, hresetN, Bool.not_true, if_neg Bool.false_ne_true, hformatM,
    hrunningM] at hconfig
  have hfifo := h.fifo.step (i := CaptureChain.fifoInput tickingInput s) (by decide) rfl
  rw [← CaptureChain.step_fifo] at hfifo
  obtain ⟨hcapture, hsync⟩ := CaptureChain.step_capture tickingInput s
  refine ⟨?_, hconfig, ?_, ?_, hdrops.2.1, hdrops.2.2, ?_, hsynced.2.2.2⟩
  · rw [hsync, CaptureChain.resetSyncNext, h.resetSync]
    rfl
  · rw [hcapture, h.capture, CaptureChain.captureInput, hresetN, hrunningS, hformatS]
    rfl
  · have htaken : AsyncFifo.taken (CaptureChain.fifoInput tickingInput s) s.fifo
        CaptureChain.capacity = CaptureChain.capacity := by
      rw [CaptureChain.dropped, Bool.and_eq_true, Bool.not_eq_true'] at hdropped
      rw [AsyncFifo.taken, AsyncFifo.writeFire, hdropped.2, Bool.and_false]
      change (if _ then if !CaptureChain.resetN tickingInput s then 0 else _ else _) = _
      rw [hresetN]
      rfl
    rwa [htaken] at hfifo
  · -- the first flop catches the old code
    rw [hsynced.2.2.1]
    exact GrayCode.sample_none _ _

/-- From then on the count that is seen goes up by one at every edge. -/
theorem settled_run (k : ℕ) :
    Settled k ((CaptureChain.run cleared.traceMem fun _ => tickingInput).state (39 + k)) := by
  induction k with
  | zero => exact settled_start
  | succ k ih => exact ih.step

theorem settled_dropsSync (k : ℕ) :
    CaptureChain.dropsSync
      ((run fourBitM3 cleared fun _ => otherPort (some .rise)).state (39 + k)).trace =
        BitVec.ofNat 64 k := by
  rw [ticking_chain, CaptureChain.dropsSync]
  have hgray := (settled_run k).dropsGrayS2
  change CaptureChain.grayToBinary
    ((CaptureChain.run cleared.traceMem fun _ => tickingInput).state (39 + k)).dropsGrayS2 = _
  rw [hgray]
  exact GrayCode.ungray_gray _

/-- After `2 ^ 64` drops what is seen goes back to zero. -/
theorem drops_wrap :
    ¬ ∀ (l : Leftover) (inp : ℕ → Config × Input), (∀ t, (inp t).2.aresetn = true) →
      ∀ u t, u ≤ t → CaptureChain.dropsSync ((session l inp).state u).trace ≤
        CaptureChain.dropsSync ((session l inp).state t).trace := by
  intro h
  have hnever (k : ℕ) : BitVec.ofNat 64 k ≤ BitVec.ofNat 64 (k + 1) := by
    have hle := h cleared (fun _ => (fourBitM3, otherPort (some .rise))) (fun _ => rfl) (39 + k)
      (39 + (k + 1)) (Nat.le_succ _)
    rwa [session_const, session_const, settled_dropsSync, settled_dropsSync] at hle
  exact absurd (hnever (2 ^ 64 - 1)) (by decide)

end TracePath
