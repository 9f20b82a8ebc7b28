import Zub1cg.Firmware.TraceDma

/-!
# Who holds a packet

A packet of the trace pool lies in a descriptor's slot, has been handed to NetX, or has been
released. In the middle of a function it may also be in a local variable: the packets there
are the function's hand.

## Main definitions

- `TraceDma.custody` — the packets in the slots, handed over and released
- `TraceDma.Accounted` — together with the hand, every allocation exactly once

## Main results

- `Accounted.allocate`, `Accounted.rearm`, `Accounted.release` — how packets move
- `Accounted.stop` — afterwards every slot is empty
-/

namespace Firmware

namespace TraceDma

/-- The packets in the slots, handed over and released, by the number of their allocation. -/
def custody (s : TraceDma) : List ℕ :=
  (Slots.held s.packetSlots).map NxPacket.number ++ s.handed.map (fun h => h.packet.number) ++
    s.released

/-- The hand and the custody are every allocation exactly once. -/
structure Accounted (s : TraceDma) (hand : List ℕ) : Prop where
  descriptors : s.descriptors.length = TRACE_DMA_BD_COUNT
  slots : s.packetSlots.length = TRACE_DMA_BD_COUNT
  ledger : (hand ++ s.custody).Perm (List.range s.allocated)

theorem accounted_powerOn : Accounted powerOn [] where
  descriptors := List.length_replicate
  slots := List.length_replicate
  ledger := by decide

/-! ### Slots and descriptors -/

theorem packetSlot_set (s : TraceDma) {slot : ℕ} (packet : Option NxPacket) (i : ℕ)
    (hslot : slot < s.packetSlots.length) :
    (s.setPacketSlot slot packet).packetSlot i = if i = slot then packet else s.packetSlot i := by
  rw [packetSlot, setPacketSlot, List.getD_eq_getElem?_getD, List.getElem?_set, packetSlot,
    List.getD_eq_getElem?_getD]
  by_cases hi : slot = i
  · subst hi
    rw [if_pos rfl, if_pos hslot, if_pos rfl]
    rfl
  · rw [if_neg hi, if_neg (Ne.symm hi)]

theorem descriptor_set (s : TraceDma) {slot : ℕ} (bd : TraceDmaDescriptor) (i : ℕ)
    (hslot : slot < s.descriptors.length) :
    (s.setDescriptor slot bd).descriptor i = if i = slot then bd else s.descriptor i := by
  rw [descriptor, setDescriptor, List.getD_eq_getElem?_getD, List.getElem?_set, descriptor,
    List.getD_eq_getElem?_getD]
  by_cases hi : slot = i
  · subst hi
    rw [if_pos rfl, if_pos hslot, if_pos rfl]
    rfl
  · rw [if_neg hi, if_neg (Ne.symm hi)]

theorem rearm_packetSlot (s : TraceDma) {slot : ℕ} (packet : NxPacket) (i : ℕ)
    (hslot : slot < s.packetSlots.length) :
    (s.rearm slot packet).packetSlot i = if i = slot then some packet else s.packetSlot i :=
  packetSlot_set (s.setDescriptor slot _) (some packet) i hslot

theorem rearm_descriptor (s : TraceDma) {slot : ℕ} (packet : NxPacket) (i : ℕ)
    (hslot : slot < s.descriptors.length) :
    (s.rearm slot packet).descriptor i =
      if i = slot then { s.descriptor slot with
        buffer := packet.data
        control := TRACE_DMA_BUFFER_SIZE
        status := 0 }
      else s.descriptor i :=
  descriptor_set s _ i hslot

/-- The number in a slot, if there is a packet. -/
def numbers (slot : Option NxPacket) : List ℕ := slot.toList.map NxPacket.number

section

variable {s : TraceDma} {hand : List ℕ}

theorem Accounted.getElem?_packetSlots (h : Accounted s hand) {slot : ℕ}
    (hslot : slot < TRACE_DMA_BD_COUNT) : s.packetSlots[slot]? = some (s.packetSlot slot) := by
  rw [packetSlot, List.getD_eq_getElem?_getD, List.getElem?_eq_getElem (by rwa [h.slots])]
  rfl

/-- Packets in different slots are different. -/
theorem Accounted.number_ne (h : Accounted s hand) {i j : ℕ} (hi : i < TRACE_DMA_BD_COUNT)
    (hj : j < TRACE_DMA_BD_COUNT) {p q : NxPacket} (hp : s.packetSlot i = some p)
    (hq : s.packetSlot j = some q) (hne : i ≠ j) : p.number ≠ q.number := by
  have hnodup := h.ledger.nodup_iff.mpr List.nodup_range
  have hheld := (List.nodup_append.mp (List.nodup_append.mp (List.nodup_append.mp hnodup).2.1).1).1
  apply Slots.ne_of_nodup hheld _ _ hne
  · rw [h.getElem?_packetSlots hi, hp]
  · rw [h.getElem?_packetSlots hj, hq]

/-! ### The steps of the functions -/

theorem Accounted.setDescriptor (h : Accounted s hand) (slot : ℕ) (bd : TraceDmaDescriptor) :
    Accounted (s.setDescriptor slot bd) hand where
  descriptors := by rw [TraceDma.setDescriptor, List.length_set, h.descriptors]
  slots := h.slots
  ledger := h.ledger

theorem Accounted.error (h : Accounted s hand) : Accounted s.error hand :=
  ⟨h.descriptors, h.slots, h.ledger⟩

/-- A packet leaves the hand for the pool. -/
theorem Accounted.release {packet : NxPacket} (h : Accounted s (packet.number :: hand)) :
    Accounted (s.release packet) hand where
  descriptors := h.descriptors
  slots := h.slots
  ledger := by
    have hcustody : (s.release packet).custody = s.custody ++ [packet.number] :=
      (List.append_assoc _ _ _).symm
    rw [hcustody, ← List.append_assoc]
    exact (List.perm_append_singleton _ _).trans h.ledger

/-- A packet leaves the hand for NetX, or for the pool when NetX does not take it. -/
theorem Accounted.send {packet : NxPacket} (h : Accounted s (packet.number :: hand))
    (result : SendResult) : Accounted (s.send packet result).2 hand := by
  cases result with
  | some failure => exact h.release
  | none =>
    refine ⟨h.descriptors, h.slots, ?_⟩
    apply List.Perm.trans _ h.ledger
    apply List.perm_iff_count.mpr
    intro number
    simp only [TraceDma.send, custody, List.map_append, List.map_cons, List.map_nil,
      List.count_append, List.cons_append, List.count_cons, List.count_nil]
    omega

/-- What was in a slot comes into the hand, what is put there leaves it. -/
theorem Accounted.setPacketSlot {slot : ℕ} (hslot : slot < TRACE_DMA_BD_COUNT)
    {packet : Option NxPacket} (h : Accounted s (numbers packet ++ hand)) :
    Accounted (s.setPacketSlot slot packet) (numbers (s.packetSlot slot) ++ hand) where
  descriptors := h.descriptors
  slots := by rw [TraceDma.setPacketSlot, List.length_set, h.slots]
  ledger := by
    apply List.Perm.trans _ h.ledger
    have hswap := (Slots.perm_set s.packetSlots slot (s.packetSlot slot) packet
      (h.getElem?_packetSlots hslot)).map NxPacket.number
    apply List.perm_iff_count.mpr
    intro number
    have hcount := hswap.count_eq number
    simp only [List.map_append, List.count_append] at hcount
    simp only [custody, numbers, TraceDma.setPacketSlot, List.count_append]
    omega

theorem Accounted.rearm {slot : ℕ} (hslot : slot < TRACE_DMA_BD_COUNT) {packet : NxPacket}
    (h : Accounted s (packet.number :: hand)) :
    Accounted (s.rearm slot packet) (numbers (s.packetSlot slot) ++ hand) :=
  @Accounted.setPacketSlot (s.setDescriptor slot _) hand slot hslot (some packet)
    (h.setDescriptor slot _)

/-- The packet of a new allocation comes into the hand. -/
theorem Accounted.allocate (h : Accounted s hand) {number : ℕ} (hnumber : number = s.allocated) :
    Accounted s.allocate (number :: hand) where
  descriptors := h.descriptors
  slots := h.slots
  ledger := by
    rw [TraceDma.allocate, List.range_succ, hnumber]
    exact (h.ledger.cons _).trans (List.perm_append_singleton _ _).symm

/-- What `trace_dma_allocate_packet` does: NetX has no packet, or the packet is too small and
goes back, or it is fine. -/
theorem allocatePacket_cases (s : TraceDma) (answer : Allocation) :
    (∃ failure, s.allocatePacket answer = (.error failure, s)) ∨
      (∃ packet : NxPacket, packet.number = s.allocated ∧ s.allocatePacket answer =
        (.error NX_SIZE_ERROR, s.allocate.release packet)) ∨
      ∃ packet : NxPacket, packet.number = s.allocated ∧
        s.allocatePacket answer = (.ok packet, s.allocate) := by
  cases answer with
  | error failure => exact .inl ⟨failure, rfl⟩
  | ok memory =>
    right
    rw [allocatePacket]
    split
    · exact .inl ⟨_, rfl, rfl⟩
    · exact .inr ⟨_, rfl, rfl⟩

/-! ### `trace_dma_stop` -/

theorem Accounted.releaseSlot {slot : ℕ} (hslot : slot < TRACE_DMA_BD_COUNT)
    (h : Accounted s hand) : Accounted (s.releaseSlot slot) hand := by
  rw [TraceDma.releaseSlot]
  cases hpacket : s.packetSlot slot with
  | none => exact h
  | some packet =>
    have hempty : Accounted s (numbers none ++ hand) := h
    have htaken := hempty.setPacketSlot hslot
    rw [hpacket] at htaken
    exact htaken.release

theorem releaseSlot_packetSlot (s : TraceDma) {slot : ℕ} (i : ℕ)
    (hslot : slot < s.packetSlots.length) :
    (s.releaseSlot slot).packetSlot i = if i = slot then none else s.packetSlot i := by
  rw [TraceDma.releaseSlot]
  cases hpacket : s.packetSlot slot with
  | none =>
    dsimp only
    by_cases hi : i = slot
    · rw [hi, if_pos rfl, hpacket]
    · rw [if_neg hi]
  | some packet => exact packetSlot_set (s.release packet) none i hslot

theorem releaseSlot_handed (s : TraceDma) (slot : ℕ) :
    (s.releaseSlot slot).handed = s.handed := by
  rw [TraceDma.releaseSlot]
  split <;> rfl

theorem stop_handed (s : TraceDma) : s.stop.handed = s.handed := by
  rw [TraceDma.stop]
  generalize List.range TRACE_DMA_BD_COUNT = slots
  induction slots generalizing s with
  | nil => rfl
  | cons slot slots ih => exact (ih (s.releaseSlot slot)).trans (s.releaseSlot_handed slot)

/-- After `n` turns of the loop the first `n` slots are empty. -/
theorem Accounted.releaseSlots (h : Accounted s hand) (n : ℕ) (hn : n ≤ TRACE_DMA_BD_COUNT) :
    Accounted ((List.range n).foldl TraceDma.releaseSlot s) hand ∧
      ∀ i < n, ((List.range n).foldl TraceDma.releaseSlot s).packetSlot i = none := by
  induction n with
  | zero =>
    refine ⟨h, ?_⟩
    intro i hi
    contradiction
  | succ n ih =>
    obtain ⟨hsound, hempty⟩ := ih (by omega)
    rw [List.range_succ, List.foldl_append, List.foldl_cons, List.foldl_nil]
    refine ⟨hsound.releaseSlot hn, ?_⟩
    intro i hi
    rw [releaseSlot_packetSlot _ i (by rw [hsound.slots]; exact hn)]
    split
    · rfl
    · exact hempty i (by omega)

theorem Accounted.stop (h : Accounted s hand) :
    Accounted s.stop hand ∧ ∀ slot < TRACE_DMA_BD_COUNT, s.stop.packetSlot slot = none :=
  h.releaseSlots TRACE_DMA_BD_COUNT (Nat.le_refl _)

end

end TraceDma

end Firmware
