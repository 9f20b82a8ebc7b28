import Zub1cg.Firmware.TraceDma.Engine

/-!
# When the engine writes into a released packet

Every armed descriptor points into the packet of its own slot while the engine is live. Each
access of the software keeps this, except the release of a packet whose descriptor is still
armed.

## Main definitions

- `TraceMachine.Guarded` — the descriptors and slots at every point of the trace thread

## Main results

- `Guarded.step`, `Guarded.run` — what a step and a run that release safely preserve
- `no_use_after_free` — runs that release safely
- `released_under_transfer` — a run that does not
-/

namespace Firmware

namespace TraceDma

variable {s : TraceDma}

/-! ### Descriptors and their packets -/

theorem Linked.rearm {slot i : ℕ} (hslots : slot < s.packetSlots.length)
    (hdescriptors : slot < s.descriptors.length) (packet : NxPacket)
    (h : i = slot ∨ Linked s i) : Linked (s.rearm slot packet) i := by
  rw [Linked, rearm_packetSlot _ packet i hslots, rearm_descriptor _ packet i hdescriptors]
  by_cases hi : i = slot
  · rw [if_pos hi, if_pos hi]
    exact ⟨packet, rfl, rfl⟩
  · rw [if_neg hi, if_neg hi]
    exact h.resolve_left hi

theorem Linked.filled {slot i : ℕ} (hslots : slot < s.packetSlots.length) {packet : NxPacket}
    (hpacket : s.packetSlot slot = some packet) (length : UInt32) (h : Linked s i) :
    Linked (s.setPacketSlot slot (some (packet.filled length))) i := by
  obtain ⟨p, hp, hbuffer⟩ := h
  rw [Linked, packetSlot_set _ _ _ hslots]
  by_cases hi : i = slot
  · rw [if_pos hi]
    rw [hi, hpacket] at hp
    obtain rfl := Option.some.inj hp
    exact ⟨_, rfl, hbuffer⟩
  · rw [if_neg hi]
    exact ⟨p, hp, hbuffer⟩

theorem releaseSlot_descriptor (s : TraceDma) (slot i : ℕ) :
    (s.releaseSlot slot).descriptor i = s.descriptor i := by
  rw [releaseSlot]
  split <;> rfl

theorem Linked.releaseSlot {slot i : ℕ} (hslots : slot < s.packetSlots.length) (hi : i ≠ slot)
    (h : Linked s i) : Linked (s.releaseSlot slot) i := by
  rw [Linked, releaseSlot_packetSlot _ i hslots, if_neg hi, releaseSlot_descriptor]
  exact h

/-- The engine changes status words only. -/
theorem transfer_descriptor (s : TraceDma) (slot : ℕ) (status : UInt32) (bytes : List UInt8)
    (i : ℕ) : ((s.transfer slot status bytes).descriptor i).buffer = (s.descriptor i).buffer ∧
      (((s.transfer slot status bytes).descriptor i).status = (s.descriptor i).status ∨
        ((s.transfer slot status bytes).descriptor i).status = status) := by
  change ((s.setDescriptor slot _).descriptor i).buffer = _ ∧
    (((s.setDescriptor slot _).descriptor i).status = _ ∨
      ((s.setDescriptor slot _).descriptor i).status = _)
  by_cases hslot : slot < s.descriptors.length
  · rw [descriptor_set _ _ _ hslot]
    by_cases hi : i = slot
    · rw [if_pos hi, hi]
      exact ⟨rfl, .inr rfl⟩
    · rw [if_neg hi]
      exact ⟨rfl, .inl rfl⟩
  · rw [setDescriptor, List.set_eq_of_length_le (Nat.le_of_not_lt hslot)]
    exact ⟨rfl, .inl rfl⟩

end TraceDma

namespace TraceMachine

/-! ### The invariant -/

/-- The packet in a local variable of the trace thread. -/
def hand (m : TraceMachine) : List ℕ :=
  match m.point with
  | .exchanging packet => [packet.number]
  | .sending packet => [packet.number]
  | _ => []

/-- The slots at the points where some of them are empty. -/
def Prepared (m : TraceMachine) : Prop :=
  match m.point with
  | .accepting => m.dma.Filled 0
  | .resetting _ => ¬ m.engine.Live ∧ m.dma.Filled 0
  | .filling slot => ¬ m.engine.Live ∧ slot ≤ TRACE_DMA_BD_COUNT ∧ m.dma.Filled slot
  | .releasing slot => ∀ i < slot, i < TRACE_DMA_BD_COUNT → m.dma.packetSlot i = none
  | _ => True

structure Guarded (m : TraceMachine) : Prop where
  accounted : m.dma.Accounted m.hand
  armed : m.engine.Live → ∀ i < TRACE_DMA_BD_COUNT, (m.dma.descriptor i).status = 0 →
    m.dma.Linked i
  prepared : m.Prepared

theorem guarded_powerOn : Guarded powerOn where
  accounted := TraceDma.accounted_powerOn
  armed := by
    intro hlive
    obtain hrunning | hstopping := hlive <;> contradiction
  prepared := by
    refine ⟨TraceDma.accounted_powerOn, ?_, ?_⟩
    · intro i hi
      contradiction
    · intro i _ hi
      exact TraceSession.sound_powerOn.empty rfl i hi

/-- The armed descriptors of a guarded state point into packets the service holds. -/
theorem Guarded.noUseAfterFree {m : TraceMachine} (h : Guarded m) : m.NoUseAfterFree := by
  intro hlive i hi harmed _
  obtain ⟨packet, hpacket, hbuffer⟩ := h.armed hlive i hi harmed
  refine ⟨i, hi, ?_⟩
  rw [hpacket, hbuffer]
  rfl

/-! ### The engine's moves -/

section

variable {m : TraceMachine}

/-- A move that wakes nothing up. -/
theorem Guarded.moved (h : Guarded m) (engine : Engine) (hlive : engine.Live → m.engine.Live) :
    Guarded { m with engine := engine } := by
  refine ⟨h.accounted, fun hmoved => h.armed (hlive hmoved), ?_⟩
  have hprepared := h.prepared
  obtain ⟨dma, old, point⟩ := m
  cases point with
  | resetting remaining => exact ⟨fun hmoved => hprepared.1 (hlive hmoved), hprepared.2⟩
  | filling slot => exact ⟨fun hmoved => hprepared.1 (hlive hmoved), hprepared.2⟩
  | _ => exact hprepared

/-- The engine finishes a transfer. -/
theorem Guarded.finished (h : Guarded m) (hlive : m.engine.Live) (slot : ℕ) {status : UInt32}
    (hcomplete : status &&& TRACE_DMA_BD_COMPLETE ≠ 0) (bytes : List UInt8) :
    Guarded { m with dma := m.dma.transfer slot status bytes } := by
  have hnonzero : status ≠ 0 := by
    intro hzero
    apply hcomplete
    rw [hzero]
    rfl
  have hsound := h.accounted.setDescriptor slot
    { m.dma.descriptor slot with status := status }
  refine ⟨⟨hsound.descriptors, hsound.slots, hsound.ledger⟩, ?_, ?_⟩
  · intro _ i hi hzero
    obtain ⟨hbuffer, hsame | hdone⟩ := m.dma.transfer_descriptor slot status bytes i
    · obtain ⟨packet, hpacket, hpoints⟩ := h.armed hlive i hi (hsame.symm.trans hzero)
      exact ⟨packet, hpacket, hbuffer.trans hpoints⟩
    · exact absurd (hdone.symm.trans hzero) hnonzero
  · have hprepared := h.prepared
    obtain ⟨dma, engine, point⟩ := m
    cases point with
    | accepting =>
      obtain ⟨-, -, hempty⟩ := hprepared
      refine ⟨⟨hsound.descriptors, hsound.slots, hsound.ledger⟩, ?_, hempty⟩
      intro i hi
      contradiction
    | resetting remaining => exact absurd hlive hprepared.1
    | filling slot' => exact absurd hlive hprepared.1
    | _ => exact hprepared

/-! ### The software's accesses -/

/-- In the loop that sends: the checks, the new packet and the exchange. -/
theorem Guarded.exchanged (h : Guarded m) (hpoint : m.point = .streaming) (answer : Allocation)
    (result : SendResult) : Guarded (m.software answer result) := by
  obtain ⟨dma, engine, point⟩ := m
  obtain rfl : point = .streaming := hpoint
  have hsound : dma.Accounted [] := h.accounted
  have harmed := h.armed
  rw [software]
  dsimp only at harmed ⊢
  obtain hexamine | hexamine | ⟨packet, hpacket, -, hexamine⟩ := dma.examine_cases
  · rw [hexamine]
    exact h
  · rw [hexamine]
    exact ⟨hsound.error, harmed, trivial⟩
  rw [hexamine]
  generalize (dma.descriptor dma.consumer).status &&& TRACE_DMA_LENGTH_MASK = length
  have hslots : dma.consumer < dma.packetSlots.length := by
    by_contra hout
    rw [TraceDma.packetSlot, List.getD_eq_getElem?_getD,
      List.getElem?_eq_none (Nat.le_of_not_lt hout)] at hpacket
    contradiction
  have hconsumer : dma.consumer < TRACE_DMA_BD_COUNT := by rwa [hsound.slots] at hslots
  have hmarked := hsound.filled hconsumer hpacket length
  have hlinked : engine.Live → ∀ i < TRACE_DMA_BD_COUNT, (dma.descriptor i).status = 0 →
      (dma.setPacketSlot dma.consumer (some (packet.filled length))).Linked i :=
    fun hlive i hi hzero => (harmed hlive i hi hzero).filled hslots hpacket length
  dsimp only
  obtain ⟨failure, hanswer⟩ | ⟨small, hnumber, hanswer⟩ | ⟨replacement, hnumber, hanswer⟩ :=
    (dma.setPacketSlot dma.consumer (some (packet.filled length))).allocatePacket_cases answer
  · rw [hanswer]
    exact ⟨hmarked, hlinked, trivial⟩
  · rw [hanswer]
    exact ⟨(hmarked.allocate hnumber).release, hlinked, trivial⟩
  · rw [hanswer]
    refine ⟨hsound.replaced hconsumer hpacket length hnumber, ?_, trivial⟩
    intro hlive i hi hzero
    have hlengths := (hmarked.allocate hnumber).slots
    have hlengths' := (hmarked.allocate hnumber).descriptors
    apply TraceDma.Linked.rearm (by rwa [hlengths]) (by rwa [hlengths'])
    by_cases hkey : i = dma.consumer
    · exact .inl hkey
    · right
      apply hlinked hlive i hi
      rw [TraceDma.rearm_descriptor _ _ _ (by rwa [hlengths'])] at hzero
      split at hzero
      · next hsame => exact absurd hsame hkey
      · exact hzero

/-- In `trace_dma_initialize`: the next slot is filled, or the engine is started. -/
theorem Guarded.filled {slot : ℕ} (h : Guarded m) (hpoint : m.point = .filling slot)
    (answer : Allocation) (result : SendResult) : Guarded (m.software answer result) := by
  obtain ⟨dma, engine, point⟩ := m
  obtain rfl : point = .filling slot := hpoint
  obtain ⟨hdead, hle, hfilled⟩ := h.prepared
  rw [software]
  dsimp only at hdead hle hfilled ⊢
  by_cases hslot : slot < TRACE_DMA_BD_COUNT
  · rw [if_pos hslot]
    obtain ⟨hsound, -, hnext⟩ := hfilled.initializeSlot hslot answer
    generalize dma.initializeSlot slot answer = turn at hsound hnext
    obtain ⟨outcome, dma'⟩ := turn
    cases outcome with
    | error failure => exact ⟨hsound, fun hlive => absurd hlive hdead, trivial⟩
    | ok _ => exact ⟨hsound, fun hlive => absurd hlive hdead, hdead, hslot, hnext rfl⟩
  · rw [if_neg hslot]
    obtain rfl : slot = TRACE_DMA_BD_COUNT := Nat.le_antisymm hle (Nat.le_of_not_lt hslot)
    exact ⟨hfilled.accounted, fun _ i hi _ => (hfilled.armed i hi).1, trivial⟩

/-- In `trace_dma_stop`: the packet of the next slot is released. -/
theorem Guarded.released {slot : ℕ} (h : Guarded m) (hpoint : m.point = .releasing slot)
    (answer : Allocation) (result : SendResult)
    (hsafe : m.ReleasesSafely (.software answer result)) : Guarded (m.software answer result) := by
  obtain ⟨dma, engine, point⟩ := m
  obtain rfl : point = .releasing slot := hpoint
  have hsound : dma.Accounted [] := h.accounted
  have hempty : ∀ i < slot, i < TRACE_DMA_BD_COUNT → dma.packetSlot i = none := h.prepared
  have harmed := h.armed
  rw [software]
  dsimp only at harmed ⊢
  by_cases hslot : slot < TRACE_DMA_BD_COUNT
  · rw [if_pos hslot]
    have hslots : slot < dma.packetSlots.length := by rwa [hsound.slots]
    refine ⟨hsound.releaseSlot hslot, ?_, ?_⟩
    · intro hlive i hi hzero
      rw [TraceDma.releaseSlot_descriptor] at hzero
      by_cases hkey : i = slot
      · subst hkey
        obtain hdead | hnone | hdone := hsafe i hslot rfl
        · exact absurd hlive hdead
        · -- An empty slot is left as it is.
          rw [TraceDma.releaseSlot, hnone]
          exact harmed hlive i hi hzero
        · exact absurd hzero hdone
      · exact (harmed hlive i hi hzero).releaseSlot hslots hkey
    · intro i hi hi'
      rw [TraceDma.releaseSlot_packetSlot _ i hslots]
      split
      · rfl
      · exact hempty i (by omega) hi'
  · rw [if_neg hslot]
    refine ⟨hsound, harmed, hsound, ?_, ?_⟩
    · intro i hi
      contradiction
    · intro i _ hi
      exact hempty i (by omega) hi

theorem Guarded.software (h : Guarded m) (answer : Allocation) (result : SendResult)
    (hsafe : m.ReleasesSafely (.software answer result)) : Guarded (m.software answer result) := by
  cases hpoint : m.point with
  | accepting =>
    have hfilled : m.dma.Filled 0 := by
      have hprepared := h.prepared
      rw [Prepared, hpoint] at hprepared
      exact hprepared
    rw [TraceMachine.software, hpoint]
    have hdead : ¬ Engine.Live ⟨.reset, 0, 0, true, false⟩ := by decide
    exact ⟨hfilled.accounted, fun hlive => absurd hlive hdead, hdead, hfilled⟩
  | resetting remaining =>
    have hprepared := h.prepared
    rw [Prepared, hpoint] at hprepared
    obtain ⟨hdead, hfilled⟩ := hprepared
    rw [TraceMachine.software, hpoint]
    dsimp only
    split
    · cases remaining with
      | zero => exact ⟨hfilled.accounted.error, fun hlive => absurd hlive hdead, trivial⟩
      | succ remaining =>
        exact ⟨hfilled.accounted, fun hlive => absurd hlive hdead, hdead, hfilled⟩
    · exact ⟨hfilled.accounted, fun hlive => absurd hlive hdead, hdead, Nat.zero_le _, hfilled⟩
  | filling slot => exact h.filled hpoint answer result
  | launching =>
    have hsound := h.accounted
    rw [hand, hpoint] at hsound
    rw [TraceMachine.software, hpoint]
    exact ⟨⟨hsound.descriptors, hsound.slots, hsound.ledger⟩, h.armed, trivial⟩
  | streaming => exact h.exchanged hpoint answer result
  | exchanging packet =>
    have hsound := h.accounted
    rw [hand, hpoint] at hsound
    rw [TraceMachine.software, hpoint]
    exact ⟨⟨hsound.descriptors, hsound.slots, hsound.ledger⟩, h.armed, trivial⟩
  | sending packet =>
    have hsound := h.accounted
    rw [hand, hpoint] at hsound
    rw [TraceMachine.software, hpoint]
    cases result with
    | some failure =>
      dsimp only [TraceDma.send]
      rw [if_neg failure.ne_success]
      exact ⟨hsound.release, h.armed, trivial⟩
    | none => exact ⟨hsound.send none, h.armed, trivial⟩
  | stopping =>
    have hsound := h.accounted
    rw [hand, hpoint] at hsound
    rw [TraceMachine.software, hpoint]
    refine ⟨hsound, ?_, ?_⟩
    · intro hlive
      apply h.armed
      dsimp only at hlive
      split at hlive
      · next hrunning => exact .inl hrunning
      · exact hlive
    · intro i hi
      contradiction
  | releasing slot => exact h.released hpoint answer result hsafe

/-- What a step preserves that releases safely. -/
theorem Guarded.step (h : Guarded m) (event : TraceEvent) (hsafe : m.ReleasesSafely event) :
    Guarded (m.step event) := by
  cases event with
  | software answer result => exact h.software answer result hsafe
  | resetDone =>
    rw [TraceMachine.step]
    split
    · apply h.moved
      rintro (hrunning | hstopping) <;> contradiction
    · exact h
  | begin =>
    rw [TraceMachine.step]
    split
    · exact h.moved _ id
    · exact h
  | finish status bytes =>
    rw [TraceMachine.step]
    split
    · next hguard =>
      obtain ⟨hlive, -, hcomplete⟩ := hguard
      exact (h.finished hlive m.engine.current hcomplete bytes).moved _ id
    · exact h
  | halt =>
    rw [TraceMachine.step]
    split
    · apply h.moved
      rintro (hrunning | hstopping) <;> contradiction
    · exact h
  | fault =>
    rw [TraceMachine.step]
    split
    · apply h.moved
      rintro (hrunning | hstopping) <;> contradiction
    · exact h

theorem Guarded.run (h : Guarded m) {events : List TraceEvent} (hcareful : Careful m events) :
    Guarded (m.run events) := by
  induction events generalizing m with
  | nil => exact h
  | cons event events ih =>
    obtain ⟨hsafe, hrest⟩ := hcareful
    exact ih (h.step event hsafe) hrest

end

/-! ### Runs -/

/-- Whatever NetX and the engine do: if no packet is released while the engine is live and the
packet's descriptor is armed, then the engine can at no time write into a packet that the
service does not hold. -/
theorem no_use_after_free (events : List TraceEvent) (h : Careful powerOn events) :
    (powerOn.run events).NoUseAfterFree :=
  (guarded_powerOn.run h).noUseAfterFree

/-- NetX has a packet for the software. -/
def given (n : ℕ) : TraceEvent :=
  .software (.ok (UInt64.ofNat (n * 0x8000), UInt64.ofNat (n * 0x8000 + 0x4900))) none

/-- A session up to the loop that sends, with all descriptors armed. -/
def streamingSession : List TraceEvent :=
  given 0 :: .resetDone :: (List.range 35).map given

/-- The engine fails on the first descriptor, halts, and the session ends. -/
theorem no_use_after_free_halted :
    (powerOn.run (streamingSession ++ [.begin, .finish 0xc0000000 [], given 0, given 0, .halt,
      given 0, given 0])).NoUseAfterFree :=
  no_use_after_free _ (by decide +kernel)

/-- The client disconnects while the engine writes into the second packet: the run bit is
cleared, and the first two packets are released under the engine. -/
theorem released_under_transfer :
    ¬ (powerOn.run (streamingSession ++ [.begin, .finish 0x80000004 [1, 2, 3, 4], .begin,
      given 40, given 0, .software (.error NX_SIZE_ERROR) (some NX_NOT_SUCCESSFUL), given 0,
      given 0, given 0])).NoUseAfterFree := by
  decide +kernel

end TraceMachine

end Firmware
