import Zub1cg.Firmware.TraceDma.Custody
import Zub1cg.Library.RingIndex

/-!
# Sessions of the trace thread

While a session is streaming, every slot holds the packet its descriptor points to, and the
packets NetX has been handed are the first completions of the slots in ring order.

## Main definitions

- `TraceDma.Filled` — the ring while `trace_dma_initialize` fills it
- `TraceSession.Streaming` — the ring while completed packets are sent

## Main results

- `Streaming.sendCompleted`, `Streaming.transfer` — what one step preserves
- `packets_in_order` — every packet is in one place and the payloads are in ring order
-/

namespace Firmware

namespace TraceDma

section

variable {s : TraceDma}

/-! ### `trace_dma_initialize` -/

/-- One turn of the loop fails without touching the slots, or fills its slot. -/
theorem initializeSlot_cases (s : TraceDma) (slot : ℕ) (answer : Allocation) :
    (∃ failure, s.initializeSlot slot answer = (.error failure, (s.clearDescriptor slot).error)) ∨
      (∃ packet : NxPacket, packet.number = s.allocated ∧ s.initializeSlot slot answer =
        (.error NX_SIZE_ERROR, ((s.clearDescriptor slot).allocate.release packet).error)) ∨
      ∃ packet : NxPacket, packet.number = s.allocated ∧ s.initializeSlot slot answer =
        (.ok (), (s.clearDescriptor slot).allocate.rearm slot packet) := by
  rw [TraceDma.initializeSlot]
  obtain ⟨failure, hanswer⟩ | ⟨packet, hnumber, hanswer⟩ | ⟨packet, hnumber, hanswer⟩ :=
    (s.clearDescriptor slot).allocatePacket_cases answer
  · rw [hanswer]
    exact .inl ⟨failure, rfl⟩
  · rw [hanswer]
    exact .inr (.inl ⟨packet, hnumber, rfl⟩)
  · rw [hanswer]
    exact .inr (.inr ⟨packet, hnumber, rfl⟩)

/-- The descriptor of a slot points into the packet of the slot. -/
def Linked (s : TraceDma) (slot : ℕ) : Prop :=
  ∃ packet, s.packetSlot slot = some packet ∧ (s.descriptor slot).buffer = packet.data

/-- The first `n` slots are armed, the others empty. -/
structure Filled (s : TraceDma) (n : ℕ) : Prop where
  accounted : Accounted s []
  armed : ∀ i < n, Linked s i ∧ (s.descriptor i).status = 0
  empty : ∀ i, n ≤ i → i < TRACE_DMA_BD_COUNT → s.packetSlot i = none

theorem Filled.rearm {slot : ℕ} (h : Filled s slot) (hslot : slot < TRACE_DMA_BD_COUNT)
    {packet : NxPacket} (hnumber : packet.number = s.allocated) :
    Filled ((s.clearDescriptor slot).allocate.rearm slot packet) (slot + 1) := by
  have hsound := (h.accounted.setDescriptor slot
    ⟨(slot + 1) % TRACE_DMA_BD_COUNT, ⟨0, 0⟩, 0, 0⟩).allocate hnumber
  have hdescriptors := h.accounted.descriptors
  have hcleared : slot < (s.clearDescriptor slot).allocate.descriptors.length := by
    change slot < (s.descriptors.set slot _).length
    rwa [List.length_set, hdescriptors]
  have hslots : slot < (s.clearDescriptor slot).allocate.packetSlots.length := by
    change slot < s.packetSlots.length
    rwa [h.accounted.slots]
  refine ⟨?_, ?_, ?_⟩
  · have hfilled := Accounted.rearm hslot hsound
    have hempty := h.empty slot (Nat.le_refl _) hslot
    change Accounted _ (numbers (s.packetSlot slot) ++ []) at hfilled
    rwa [hempty] at hfilled
  · intro i hi
    rw [Linked, rearm_packetSlot _ packet i hslots, rearm_descriptor _ packet i hcleared]
    by_cases hlast : i = slot
    · rw [if_pos hlast, if_pos hlast]
      exact ⟨⟨packet, rfl, rfl⟩, rfl⟩
    · rw [if_neg hlast, if_neg hlast]
      change (∃ p, s.packetSlot i = some p ∧ ((s.clearDescriptor slot).descriptor i).buffer = _) ∧
        ((s.clearDescriptor slot).descriptor i).status = 0
      rw [clearDescriptor, descriptor_set _ _ i (by rwa [hdescriptors]), if_neg hlast]
      exact h.armed i (by omega)
  · intro i hi hi'
    rw [rearm_packetSlot _ packet i hslots, if_neg (by omega)]
    exact h.empty i (by omega) hi'

/-- One turn of the loop arms its slot, unless a packet is missing. -/
theorem Filled.initializeSlot {slot : ℕ} (h : Filled s slot) (hslot : slot < TRACE_DMA_BD_COUNT)
    (answer : Allocation) :
    Accounted (s.initializeSlot slot answer).2 [] ∧
      (s.initializeSlot slot answer).2.handed = s.handed ∧
      ((s.initializeSlot slot answer).1 = .ok () →
        Filled (s.initializeSlot slot answer).2 (slot + 1)) := by
  have hcleared := h.accounted.setDescriptor slot
    ⟨(slot + 1) % TRACE_DMA_BD_COUNT, ⟨0, 0⟩, 0, 0⟩
  obtain ⟨failure, hturn⟩ | ⟨packet, hnumber, hturn⟩ | ⟨packet, hnumber, hturn⟩ :=
    s.initializeSlot_cases slot answer
  · rw [hturn]
    exact ⟨hcleared.error, rfl, fun hok => by cases hok⟩
  · rw [hturn]
    exact ⟨(hcleared.allocate hnumber).release.error, rfl, fun hok => by cases hok⟩
  · rw [hturn]
    have hfilled := h.rearm hslot hnumber
    exact ⟨hfilled.accounted, rfl, fun _ => hfilled⟩

/-- The loop of `trace_dma_initialize` arms the whole ring, unless a packet is missing. -/
theorem initializeFrom_spec (answers : ℕ → Allocation) (remaining slot : ℕ)
    (hslot : slot + remaining = TRACE_DMA_BD_COUNT) (h : Filled s slot) :
    Accounted (initializeFrom answers remaining slot s).2 [] ∧
      (initializeFrom answers remaining slot s).2.handed = s.handed ∧
      ((initializeFrom answers remaining slot s).1 = .ok () →
        Filled (initializeFrom answers remaining slot s).2 TRACE_DMA_BD_COUNT) := by
  induction remaining generalizing slot s with
  | zero =>
    obtain rfl : slot = TRACE_DMA_BD_COUNT := hslot
    exact ⟨h.accounted, rfl, fun _ => h⟩
  | succ remaining ih =>
    obtain ⟨hsound, hhanded, hfilled⟩ := h.initializeSlot (by omega) (answers slot)
    rw [initializeFrom]
    generalize s.initializeSlot slot (answers slot) = turn at hsound hhanded hfilled
    obtain ⟨result, s'⟩ := turn
    cases result with
    | error failure => exact ⟨hsound, hhanded, fun hok => by cases hok⟩
    | ok _ =>
      obtain ⟨hsound', hhanded', hall⟩ := ih (slot + 1) (by omega) (hfilled rfl)
      exact ⟨hsound', hhanded'.trans hhanded, hall⟩

/-- `trace_dma_initialize` on an empty ring. -/
theorem initializeRing_spec (reset : ℕ → Bool) (answers : ℕ → Allocation) (h : Filled s 0) :
    Accounted (s.initializeRing reset answers).2 [] ∧
      (s.initializeRing reset answers).2.handed = s.handed ∧
      ((s.initializeRing reset answers).1 = NX_SUCCESS →
        Filled (s.initializeRing reset answers).2 TRACE_DMA_BD_COUNT ∧
          (s.initializeRing reset answers).2.consumer = 0) := by
  obtain ⟨hsound, hhanded, hfilled⟩ := initializeFrom_spec answers TRACE_DMA_BD_COUNT 0 rfl h
  rw [initializeRing]
  by_cases hreset : awaitReset reset 0 TRACE_DMA_RESET_BUDGET = true
  · rw [if_pos hreset]
    generalize initializeFrom answers TRACE_DMA_BD_COUNT 0 s = filled at hsound hhanded hfilled
    obtain ⟨result, filled⟩ := filled
    cases result with
    | error failure => exact ⟨hsound, hhanded, fun hok => absurd hok failure.ne_success⟩
    | ok _ =>
      obtain ⟨hall, harmed, hempty⟩ := hfilled rfl
      exact ⟨⟨hsound.descriptors, hsound.slots, hsound.ledger⟩, hhanded, fun _ =>
        ⟨⟨⟨hall.descriptors, hall.slots, hall.ledger⟩, harmed, hempty⟩, rfl⟩⟩
  · rw [if_neg hreset]
    exact ⟨h.accounted.error, rfl, fun hok => absurd hok NX_NOT_SUCCESSFUL.ne_success⟩

/-! ### `trace_dma_send_completed` -/

/-- The checks leave everything alone, or count an error, or find a packet. -/
theorem examine_cases (s : TraceDma) :
    s.examine = (.error TRACE_DMA_NOT_READY, s) ∨
      s.examine = (.error NX_NOT_SUCCESSFUL.status, s.error) ∨
      ∃ packet, s.packetSlot s.consumer = some packet ∧
        (s.descriptor s.consumer).status &&& TRACE_DMA_BD_COMPLETE ≠ 0 ∧
        s.examine =
          (.ok (packet.filled ((s.descriptor s.consumer).status &&& TRACE_DMA_LENGTH_MASK)),
            s.setPacketSlot s.consumer (some (packet.filled
              ((s.descriptor s.consumer).status &&& TRACE_DMA_LENGTH_MASK)))) := by
  rw [examine]
  by_cases hcomplete : (s.descriptor s.consumer).status &&& TRACE_DMA_BD_COMPLETE = 0
  · rw [if_pos hcomplete]
    exact .inl rfl
  right
  rw [if_neg hcomplete]
  by_cases herror : (s.descriptor s.consumer).status &&& TRACE_DMA_BD_ERROR_MASK ≠ 0
  · rw [if_pos herror]
    exact .inl rfl
  rw [if_neg herror]
  split
  · exact .inl rfl
  · cases hpacket : s.packetSlot s.consumer with
    | none => exact .inl rfl
    | some packet => exact .inr ⟨packet, rfl, hcomplete, rfl⟩

/-- The packet in the slot is filled in: it is still the same allocation. -/
theorem Accounted.filled {hand : List ℕ} (h : Accounted s hand) {slot : ℕ}
    (hslot : slot < TRACE_DMA_BD_COUNT) {packet : NxPacket}
    (hpacket : s.packetSlot slot = some packet) (length : UInt32) :
    Accounted (s.setPacketSlot slot (some (packet.filled length))) hand := by
  refine ⟨h.descriptors, ?_, ?_⟩
  · rw [TraceDma.setPacketSlot, List.length_set, h.slots]
  · have hswap := (Slots.perm_set s.packetSlots slot _ (some (packet.filled length))
      (h.getElem?_packetSlots hslot)).map NxPacket.number
    rw [hpacket] at hswap
    have hsame := (List.perm_cons packet.number).mp hswap
    exact (((hsame.append_right _).append_right _).append_left hand).trans h.ledger

/-- The new packet takes the place of the old one, which comes into the hand. -/
theorem Accounted.replaced {slot : ℕ} (h : Accounted s []) (hslot : slot < TRACE_DMA_BD_COUNT)
    {packet replacement : NxPacket} (hpacket : s.packetSlot slot = some packet) (length : UInt32)
    (hnumber : replacement.number = s.allocated) :
    Accounted ((s.setPacketSlot slot (some (packet.filled length))).allocate.rearm slot
      replacement) [packet.number] := by
  have hmarked := h.filled hslot hpacket length
  have hold : (s.setPacketSlot slot (some (packet.filled length))).allocate.packetSlot slot =
      some (packet.filled length) :=
    (packetSlot_set s _ _ (by rwa [h.slots])).trans (if_pos rfl)
  have hrearmed := (hmarked.allocate hnumber).rearm hslot
  rw [hold] at hrearmed
  exact hrearmed

/-- What `trace_dma_send_completed` does when it is done: nothing, or it fails without
handing anything over, or the packet of the slot goes to NetX and a new one takes its place. -/
theorem Accounted.sendCompleted_cases (h : Accounted s [])
    (hconsumer : s.consumer < TRACE_DMA_BD_COUNT) (answer : Allocation) (result : SendResult) :
    s.sendCompleted answer result = (TRACE_DMA_NOT_READY, s) ∨
      (∃ failure : NxFailure, (s.sendCompleted answer result).1 = failure.status ∧
        Accounted (s.sendCompleted answer result).2 [] ∧
        (s.sendCompleted answer result).2.handed = s.handed) ∨
      ∃ packet replacement : NxPacket, s.packetSlot s.consumer = some packet ∧
        (s.descriptor s.consumer).status &&& TRACE_DMA_BD_COMPLETE ≠ 0 ∧
        Accounted (s.sendCompleted answer result).2 [] ∧
        s.sendCompleted answer result =
          ((s.setPacketSlot s.consumer (some (packet.filled
            ((s.descriptor s.consumer).status &&& TRACE_DMA_LENGTH_MASK)))).allocate.exchange
              replacement).send
            (packet.filled ((s.descriptor s.consumer).status &&& TRACE_DMA_LENGTH_MASK)) none := by
  rw [sendCompleted]
  obtain hexamine | hexamine | ⟨packet, hpacket, hcomplete, hexamine⟩ := s.examine_cases
  · rw [hexamine]
    exact .inl rfl
  · rw [hexamine]
    exact .inr (.inl ⟨NX_NOT_SUCCESSFUL, rfl, h.error, rfl⟩)
  right
  rw [hexamine]
  generalize (s.descriptor s.consumer).status &&& TRACE_DMA_LENGTH_MASK = length
  have hmarked := h.filled hconsumer hpacket length
  dsimp only
  obtain ⟨failure, hanswer⟩ | ⟨small, hnumber, hanswer⟩ | ⟨replacement, hnumber, hanswer⟩ :=
    (s.setPacketSlot s.consumer (some (packet.filled length))).allocatePacket_cases answer
  · rw [hanswer]
    exact .inl ⟨failure, rfl, hmarked, rfl⟩
  · rw [hanswer]
    exact .inl ⟨NX_SIZE_ERROR, rfl, (hmarked.allocate hnumber).release, rfl⟩
  · rw [hanswer]
    have hrearmed := h.replaced hconsumer hpacket length hnumber
    have hexchanged : Accounted ((s.setPacketSlot s.consumer
        (some (packet.filled length))).allocate.exchange replacement)
        [(packet.filled length).number] :=
      ⟨hrearmed.descriptors, hrearmed.slots, hrearmed.ledger⟩
    cases result with
    | some failure => exact .inl ⟨failure, rfl, hexchanged.send (some failure), rfl⟩
    | none => exact .inr ⟨packet, replacement, hpacket, hcomplete, hexchanged.send none, rfl⟩

/-- After the exchange the slot at the consumer is armed with the new packet; the others are
as before. -/
theorem Accounted.exchanged (h : Accounted s []) (hconsumer : s.consumer < TRACE_DMA_BD_COUNT)
    (marked replacement : NxPacket) (i : ℕ) :
    (((s.setPacketSlot s.consumer (some marked)).allocate.exchange replacement).packetSlot i =
        if i = s.consumer then some replacement else s.packetSlot i) ∧
      ((s.setPacketSlot s.consumer (some marked)).allocate.exchange replacement).descriptor i =
        if i = s.consumer then { s.descriptor s.consumer with
          buffer := replacement.data
          control := TRACE_DMA_BUFFER_SIZE
          status := 0 }
        else s.descriptor i := by
  constructor
  · have hslots : s.consumer <
        (s.setPacketSlot s.consumer (some marked)).allocate.packetSlots.length := by
      change s.consumer < (s.packetSlots.set _ _).length
      rwa [List.length_set, h.slots]
    apply (rearm_packetSlot _ replacement i hslots).trans
    by_cases hi : i = s.consumer
    · rw [if_pos hi, if_pos hi]
    · rw [if_neg hi, if_neg hi]
      exact (packetSlot_set s _ i (by rwa [h.slots])).trans (if_neg hi)
  · exact rearm_descriptor _ replacement i (by rwa [← h.descriptors] at hconsumer)

end

end TraceDma

namespace TraceSession

/-- A descriptor the hardware is done with. -/
def Complete (bd : TraceDmaDescriptor) : Prop := bd.status &&& TRACE_DMA_BD_COMPLETE ≠ 0

instance (bd : TraceDmaDescriptor) : Decidable (Complete bd) := inferInstanceAs (Decidable (_ ≠ _))

theorem not_complete_of_armed {bd : TraceDmaDescriptor} (h : bd.status = 0) : ¬ Complete bd := by
  intro hcomplete
  apply hcomplete
  rw [h]
  rfl

/-- The ring while completed packets are sent: slot `i` has been sent once for every number
below the packets sent so far that is `i` modulo the ring's size, and may be complete again. -/
structure Streaming (s : TraceSession) : Prop where
  consumer : s.dma.consumer = s.sent.length % TRACE_DMA_BD_COUNT
  linked : ∀ i < TRACE_DMA_BD_COUNT, s.dma.Linked i
  count : ∀ i < TRACE_DMA_BD_COUNT, (s.transfers i).length =
    (s.sent.length + 31 - i) / TRACE_DMA_BD_COUNT +
      if Complete (s.dma.descriptor i) then 1 else 0
  last : ∀ i < TRACE_DMA_BD_COUNT, Complete (s.dma.descriptor i) → (s.transfers i).getLast? =
    some ⟨(s.dma.descriptor i).status, s.dma.memory (s.dma.descriptor i).buffer⟩

/-- What holds of the trace thread at every moment. -/
structure Sound (s : TraceSession) : Prop where
  accounted : s.dma.Accounted []
  empty : s.phase = .accepting → ∀ i < TRACE_DMA_BD_COUNT, s.dma.packetSlot i = none
  before_le : s.before ≤ s.dma.handed.length
  streaming : s.phase = .streaming → Streaming s
  sent : ∀ (k : ℕ) (h : Handed), s.sent[k]? = some h →
    ∃ t : Transfer, (s.transfers (k % TRACE_DMA_BD_COUNT))[k / TRACE_DMA_BD_COUNT]? = some t ∧
      h.payload = t.payload

theorem sound_powerOn : Sound powerOn where
  accounted := TraceDma.accounted_powerOn
  empty := by
    intro _ i hi
    rw [powerOn, TraceDma.packetSlot, TraceDma.powerOn, List.getD_eq_getElem?_getD,
      List.getElem?_replicate, if_pos hi]
    rfl
  before_le := Nat.le_refl _
  streaming := by
    intro hphase
    contradiction
  sent := by
    intro k h hget
    contradiction

section

variable {s : TraceSession}

theorem Streaming.consumer_lt (h : Streaming s) : s.dma.consumer < TRACE_DMA_BD_COUNT := by
  rw [h.consumer]
  exact Nat.mod_lt _ (by decide)

/-- The hardware completes a descriptor, or writes a status word that says it has not. -/
theorem Streaming.transfer (hsound : s.dma.Accounted []) (h : Streaming s) {slot : ℕ}
    (hslot : slot < TRACE_DMA_BD_COUNT) (hopen : ¬ Complete (s.dma.descriptor slot))
    (status : UInt32) (bytes : List UInt8) :
    Streaming { s with
      dma := s.dma.transfer slot status bytes
      transfers := fun i =>
        if i = slot ∧ status &&& TRACE_DMA_BD_COMPLETE ≠ 0 then
          s.transfers i ++ [⟨status, bytes⟩]
        else s.transfers i } := by
  have hlength : slot < s.dma.descriptors.length := by rwa [hsound.descriptors]
  have hdescriptor : ∀ i, (s.dma.transfer slot status bytes).descriptor i =
      if i = slot then { s.dma.descriptor slot with status := status }
      else s.dma.descriptor i :=
    fun i => TraceDma.descriptor_set s.dma _ i hlength
  refine ⟨h.consumer, ?_, ?_, ?_⟩
  · intro i hi
    obtain ⟨packet, hpacket, hbuffer⟩ := h.linked i hi
    refine ⟨packet, hpacket, ?_⟩
    dsimp only
    rw [hdescriptor]
    split
    · next hkey => rw [← hbuffer, hkey]
    · exact hbuffer
  · intro i hi
    have hcount := h.count i hi
    change List.length (if _ then _ else _) = (s.sent.length + 31 - i) / _ + _
    dsimp only
    rw [hdescriptor]
    by_cases hkey : i = slot
    · subst hkey
      rw [if_neg hopen] at hcount
      by_cases hcomplete : status &&& TRACE_DMA_BD_COMPLETE ≠ 0
      · rw [if_pos ⟨rfl, hcomplete⟩, if_pos rfl, List.length_append, hcount]
        exact congrArg ((s.sent.length + 31 - i) / TRACE_DMA_BD_COUNT + ·) (if_pos hcomplete).symm
      · rw [if_neg (fun hboth => hcomplete hboth.2), if_pos rfl, hcount]
        exact congrArg ((s.sent.length + 31 - i) / TRACE_DMA_BD_COUNT + ·) (if_neg hcomplete).symm
    · rw [if_neg (fun hboth => hkey hboth.1), if_neg hkey, hcount]
  · intro i hi hcomplete
    dsimp only at hcomplete ⊢
    rw [hdescriptor] at hcomplete ⊢
    by_cases hkey : i = slot
    · subst hkey
      rw [if_pos rfl] at hcomplete ⊢
      rw [if_pos ⟨rfl, hcomplete⟩, List.getLast?_concat]
      change some _ = some (Transfer.mk status (if _ then _ else _))
      rw [if_pos rfl]
    · rw [if_neg hkey] at hcomplete ⊢
      rw [if_neg (fun hboth => hkey hboth.1), h.last i hi hcomplete]
      -- The hardware wrote into another packet.
      obtain ⟨p, hp, hbuffer⟩ := h.linked i hi
      obtain ⟨q, hq, hbuffer'⟩ := h.linked slot hslot
      have hne := hsound.number_ne hi hslot hp hq hkey
      have hpointer : (s.dma.descriptor i).buffer ≠ (s.dma.descriptor slot).buffer := by
        rw [hbuffer, hbuffer']
        intro hsame
        exact hne (congrArg Pointer.packet hsame)
      change _ = some (Transfer.mk _ (if _ then _ else _))
      rw [if_neg hpointer]

/-- The service after a packet has gone to NetX: the slot at the consumer is armed with the new
packet, and the consumer has gone on. -/
structure Exchanged (s : TraceSession) (replacement : NxPacket) (dma : TraceDma) : Prop where
  slot : ∀ i, dma.packetSlot i =
    if i = s.dma.consumer then some replacement else s.dma.packetSlot i
  descriptor : ∀ i, dma.descriptor i =
    if i = s.dma.consumer then { s.dma.descriptor s.dma.consumer with
      buffer := replacement.data
      control := TRACE_DMA_BUFFER_SIZE
      status := 0 }
    else s.dma.descriptor i
  consumer : dma.consumer = (s.dma.consumer + 1) % TRACE_DMA_BD_COUNT
  memory : dma.memory = s.dma.memory

/-- The ring goes on with the next slot. -/
theorem Streaming.advance (h : Streaming s) {replacement : NxPacket} {dma : TraceDma}
    (hdma : Exchanged s replacement dma)
    (hsent : (sent { s with dma := dma }).length = s.sent.length + 1)
    (hcomplete : Complete (s.dma.descriptor s.dma.consumer)) :
    Streaming { s with dma := dma } := by
  refine ⟨?_, ?_, ?_, ?_⟩
  · rw [hsent, hdma.consumer, h.consumer, Nat.mod_add_mod]
  · intro i hi
    rw [TraceDma.Linked, hdma.slot, hdma.descriptor]
    by_cases hkey : i = s.dma.consumer
    · rw [if_pos hkey, if_pos hkey]
      exact ⟨replacement, rfl, rfl⟩
    · rw [if_neg hkey, if_neg hkey]
      exact h.linked i hi
  · intro i hi
    have hold := h.count i hi
    have hcount := h.count _ h.consumer_lt
    rw [if_pos hcomplete, h.consumer] at hcount
    rw [hsent]
    dsimp only
    rw [hdma.descriptor, h.consumer]
    rw [TRACE_DMA_BD_COUNT] at *
    by_cases hkey : i = s.sent.length % 32
    · rw [if_pos hkey, if_neg (not_complete_of_armed rfl), hkey, hcount]
      omega
    · rw [if_neg hkey, hold]
      omega
  · intro i hi
    dsimp only
    rw [hdma.descriptor, hdma.memory]
    by_cases hkey : i = s.dma.consumer
    · rw [if_pos hkey]
      intro hzero
      exact absurd hzero (not_complete_of_armed rfl)
    · rw [if_neg hkey]
      exact h.last i hi

/-- What lies at the consumer is the next completion of its slot. -/
theorem Streaming.next_transfer (h : Streaming s)
    (hcomplete : Complete (s.dma.descriptor s.dma.consumer)) :
    (s.transfers (s.sent.length % TRACE_DMA_BD_COUNT))[s.sent.length / TRACE_DMA_BD_COUNT]? =
      some ⟨(s.dma.descriptor s.dma.consumer).status,
        s.dma.memory (s.dma.descriptor s.dma.consumer).buffer⟩ := by
  have hlast := h.last _ h.consumer_lt hcomplete
  have hcount := h.count _ h.consumer_lt
  have hnumber : (s.sent.length + 31 - s.dma.consumer) / TRACE_DMA_BD_COUNT =
      s.sent.length / TRACE_DMA_BD_COUNT := by
    rw [h.consumer, TRACE_DMA_BD_COUNT]
    omega
  rw [if_pos hcomplete] at hcount
  rw [List.getLast?_eq_getElem?, hcount, hnumber, Nat.add_sub_cancel] at hlast
  rw [← h.consumer]
  exact hlast

/-- The oldest packet goes to NetX. -/
theorem Streaming.sendCompleted (hsound : s.dma.Accounted [])
    (hbefore : s.before ≤ s.dma.handed.length) (h : Streaming s) {packet : NxPacket}
    (replacement : NxPacket)
    (hpacket : s.dma.packetSlot s.dma.consumer = some packet)
    (hcomplete : Complete (s.dma.descriptor s.dma.consumer))
    {dma : TraceDma} (hdma : dma = (((s.dma.setPacketSlot s.dma.consumer (some (packet.filled
      ((s.dma.descriptor s.dma.consumer).status &&& TRACE_DMA_LENGTH_MASK)))).allocate.exchange
        replacement).send
          (packet.filled ((s.dma.descriptor s.dma.consumer).status &&& TRACE_DMA_LENGTH_MASK))
          none).2) :
    Streaming { s with dma := dma } ∧
      ∃ t : Transfer, (s.transfers (s.sent.length % TRACE_DMA_BD_COUNT))[
          s.sent.length / TRACE_DMA_BD_COUNT]? = some t ∧
        sent { s with dma := dma } = s.sent ++
          [⟨packet.filled ((s.dma.descriptor s.dma.consumer).status &&& TRACE_DMA_LENGTH_MASK),
            t.payload⟩] := by
  generalize hlength :
    (s.dma.descriptor s.dma.consumer).status &&& TRACE_DMA_LENGTH_MASK = length at hdma ⊢
  have hexchanged := hsound.exchanged h.consumer_lt (packet.filled length) replacement
  have hnext : Exchanged s replacement dma := by
    rw [hdma]
    exact ⟨fun i => (hexchanged i).1, fun i => (hexchanged i).2, rfl, rfl⟩
  obtain ⟨p, hp, hbuffer⟩ := h.linked _ h.consumer_lt
  obtain rfl : p = packet := Option.some.inj (hp.symm.trans hpacket)
  have hsent : sent { s with dma := dma } = s.sent ++
      [⟨p.filled length, (s.dma.memory p.data).take length.toNat⟩] := by
    rw [sent, hdma, sent]
    exact List.drop_append_of_le_length hbefore
  constructor
  · apply h.advance hnext _ hcomplete
    rw [hsent, List.length_append, List.length_singleton]
  · refine ⟨_, h.next_transfer hcomplete, ?_⟩
    rw [hsent, Transfer.payload, hlength, hbuffer]

/-! ### Every step -/

/-- A session begins. -/
theorem Sound.begun (h : Sound s) (hphase : s.phase = .accepting) (reset : ℕ → Bool)
    (answers : ℕ → Allocation) : Sound (s.step (.initializeRing reset answers)) := by
  have hempty : TraceDma.Filled s.dma 0 := by
    refine ⟨h.accounted, ?_, fun i _ hi => h.empty hphase i hi⟩
    intro i hi
    contradiction
  obtain ⟨hsound, hhanded, hfilled⟩ := TraceDma.initializeRing_spec reset answers hempty
  rw [step, if_pos hphase]
  generalize s.dma.initializeRing reset answers = outcome at hsound hhanded hfilled
  obtain ⟨result, dma⟩ := outcome
  dsimp only at hsound hhanded hfilled ⊢
  have hnothing : dma.handed.drop s.dma.handed.length = [] := by
    rw [hhanded]
    exact List.drop_length
  refine ⟨hsound, ?_, Nat.le_of_eq (congrArg List.length hhanded.symm), ?_, ?_⟩
  · dsimp only
    intro hphase'
    split at hphase' <;> contradiction
  · dsimp only
    intro hphase'
    have hok : result = NX_SUCCESS := by
      by_contra hne
      rw [if_neg hne] at hphase'
      contradiction
    obtain ⟨⟨-, harmed, -⟩, hconsumer⟩ := hfilled hok
    have hlength : (TraceSession.sent ⟨dma, if result = NX_SUCCESS then .streaming else .ending,
        s.dma.handed.length, fun _ => []⟩).length = 0 := congrArg List.length hnothing
    refine ⟨?_, fun i hi => (harmed i hi).1, ?_, ?_⟩
    · rw [hlength]
      exact hconsumer
    · intro i hi
      rw [hlength, if_neg (not_complete_of_armed (harmed i hi).2), TRACE_DMA_BD_COUNT]
      change 0 = (0 + 31 - i) / 32 + 0
      omega
    · intro i hi hcomplete
      exact absurd hcomplete (not_complete_of_armed (harmed i hi).2)
  · intro k handed hget
    change (dma.handed.drop s.dma.handed.length)[k]? = some handed at hget
    rw [hnothing] at hget
    contradiction

/-- One call of `trace_dma_send_completed`. -/
theorem Sound.sentCompleted (h : Sound s) (hphase : s.phase = .streaming) (answer : Allocation)
    (result : SendResult) : Sound (s.step (.sendCompleted answer result)) := by
  have hstreaming := h.streaming hphase
  have hconsumer := hstreaming.consumer_lt
  rw [step, if_pos hphase]
  obtain hcall | ⟨failure, hfailed, hsound, hhanded⟩ |
    ⟨packet, replacement, hpacket, hcomplete, hsound, hcall⟩ :=
    h.accounted.sendCompleted_cases hconsumer answer result
  · rw [hcall]
    dsimp only
    rw [if_pos (.inl rfl), ← hphase]
    exact h
  · generalize s.dma.sendCompleted answer result = outcome at hfailed hsound hhanded
    obtain ⟨status, dma⟩ := outcome
    dsimp only at hfailed hsound hhanded ⊢
    subst hfailed
    rw [if_neg (fun hgood => hgood.elim failure.ne_not_ready failure.ne_success)]
    refine ⟨hsound, ?_, ?_, ?_, ?_⟩
    · intro hphase'
      contradiction
    · rw [hhanded]
      exact h.before_le
    · intro hphase'
      contradiction
    · intro k handed hget
      apply h.sent k handed
      rw [TraceSession.sent, hhanded] at hget
      exact hget
  · obtain ⟨hnext, t, ht, hsent⟩ := hstreaming.sendCompleted h.accounted h.before_le replacement
      hpacket hcomplete (congrArg Prod.snd hcall)
    rw [hcall] at hsound hnext hsent ⊢
    dsimp only
    rw [if_pos (.inr rfl), ← hphase]
    refine ⟨hsound, ?_, ?_, fun _ => hnext, ?_⟩
    · rw [hphase]
      intro hphase'
      contradiction
    · change s.before ≤ (s.dma.handed ++ [_]).length
      rw [List.length_append]
      exact Nat.le_add_right_of_le h.before_le
    · intro k handed hget
      rw [hsent] at hget
      obtain ⟨-, hold⟩ | ⟨rfl, rfl⟩ := RingIndex.getElem?_concat_cases hget
      · exact h.sent k handed hold
      · exact ⟨t, ht, rfl⟩

/-- The session ends. -/
theorem Sound.stopped (h : Sound s) : Sound (s.step .stop) := by
  rw [step]
  split
  · exact h
  · obtain ⟨hsound, hempty⟩ := h.accounted.stop
    have hhanded := s.dma.stop_handed
    generalize s.dma.stop = dma at hsound hempty hhanded ⊢
    refine ⟨hsound, fun _ => hempty, ?_, ?_, ?_⟩
    · dsimp only
      rw [hhanded]
      exact h.before_le
    · intro hphase
      contradiction
    · intro k handed hget
      apply h.sent k handed
      rw [TraceSession.sent, hhanded] at hget
      exact hget

/-- The hardware writes to a descriptor. -/
theorem Sound.transferred (h : Sound s) (slot : ℕ) (status : UInt32) (bytes : List UInt8) :
    Sound (s.step (.transfer slot status bytes)) := by
  rw [step]
  split
  · next hguard =>
    obtain ⟨hslot, hopen⟩ := hguard
    have hsound := h.accounted.setDescriptor slot
      { s.dma.descriptor slot with status := status }
    refine ⟨⟨hsound.descriptors, hsound.slots, hsound.ledger⟩, h.empty, h.before_le, ?_, ?_⟩
    · intro hphase
      exact (h.streaming hphase).transfer h.accounted hslot (not_not_intro hopen) status bytes
    · intro k handed hget
      obtain ⟨t, ht, hpayload⟩ := h.sent k handed hget
      refine ⟨t, ?_, hpayload⟩
      dsimp only
      split
      · rw [List.getElem?_append_left (List.getElem?_eq_some_iff.mp ht).1]
        exact ht
      · exact ht
  · exact h

theorem Sound.step (h : Sound s) (op : TraceOp) : Sound (s.step op) := by
  cases op with
  | initializeRing reset answers =>
    by_cases hphase : s.phase = .accepting
    · exact h.begun hphase reset answers
    · rw [TraceSession.step, if_neg hphase]
      exact h
  | sendCompleted answer result =>
    by_cases hphase : s.phase = .streaming
    · exact h.sentCompleted hphase answer result
    · rw [TraceSession.step, if_neg hphase]
      exact h
  | stop => exact h.stopped
  | transfer slot status bytes => exact h.transferred slot status bytes

theorem Sound.run (h : Sound s) (ops : List TraceOp) : Sound (s.run ops) := by
  induction ops generalizing s with
  | nil => exact h
  | cons op ops ih => exact ih (h.step op)

end

/-- Whatever NetX answers and the hardware writes, over any number of sessions: every packet
allocated so far is in exactly one slot, or was handed to NetX once, or was released once; after
`trace_dma_stop` no slot holds a packet; and the `k`-th payload NetX was handed in a session is
what the hardware completed in slot `k % 32` the `k / 32`-th time. -/
theorem packets_in_order (ops : List TraceOp) :
    (powerOn.run ops).dma.custody.Perm (List.range (powerOn.run ops).dma.allocated) ∧
      (∀ slot < TRACE_DMA_BD_COUNT,
        ((powerOn.run ops).step .stop).dma.packetSlot slot = none) ∧
      ∀ (k : ℕ) (h : Handed), (powerOn.run ops).sent[k]? = some h →
        ∃ t : Transfer, ((powerOn.run ops).transfers (k % TRACE_DMA_BD_COUNT))[
            k / TRACE_DMA_BD_COUNT]? = some t ∧ h.payload = t.payload := by
  have hsound := sound_powerOn.run ops
  refine ⟨hsound.accounted.ledger, ?_, hsound.sent⟩
  apply (hsound.step .stop).empty
  rw [step]
  split
  · assumption
  · rfl

end TraceSession

end Firmware
