import Mathlib.Data.List.GetD
import Zub1cg.Library.Slots
import Zub1cg.Firmware.Gem2.Link

/-!
# Where a received packet is

A packet for the receiver is in a slot of the ring or has been handed to NetX. The DMA writes
only to packets in slots, and what NetX gets is the frame that was last written to the packet.

## Main definitions

- `RxRing.Sound` — the ring, between two functions of the driver

## Main results

- `RxRing.rxTurns_invariant`, `RxRing.reinit_invariant` — what the loops preserve
- `Link.receives_run` — the ring is sound at every point of a run
- `Link.handed_exact` — every packet is handed over at most once, with the frame it carries
-/

namespace Gem2

def Arrival.delivery (a : Arrival) : Delivery := deliver a.number a.buffer a.status

/-- The last frame written to a packet. -/
def lastArrival (w : List Arrival) (number : ℕ) : Option Arrival :=
  w.reverse.find? (·.number = number)

theorem lastArrival_concat (w : List Arrival) (a : Arrival) (number : ℕ) :
    lastArrival (w ++ [a]) number = if a.number = number then some a else lastArrival w number := by
  rw [lastArrival, List.reverse_append, List.reverse_singleton, List.singleton_append,
    List.find?_cons]
  by_cases h : a.number = number
  · rw [decide_eq_true h, if_pos h]
  · rw [decide_eq_false h, if_neg h]
    rfl

theorem lastArrival_mem {w : List Arrival} {number : ℕ} {a : Arrival}
    (h : lastArrival w number = some a) : a.number = number ∧ a ∈ w := by
  have hnumber := List.find?_some (p := fun a : Arrival => decide (a.number = number)) h
  exact ⟨of_decide_eq_true hnumber, List.mem_reverse.mp (List.mem_of_find?_eq_some h)⟩

namespace RxRing

/-- What holds of a slot: the descriptor of a packet points to its buffer, and when it is new it
tells about the last frame there. Only the last slot wraps. -/
structure Linked (w : List Arrival) (s : RxRing) (slot : ℕ) : Prop where
  wrap : slot = GEM2_RX_BD_COUNT - 1 → (s.bd slot).wrap
  armed : (s.bd slot).isNew = false → s.pkt slot ≠ none
  buffer : ∀ number, s.pkt slot = some number → (s.bd slot).buffer = number
  waiting : ∀ number, s.pkt slot = some number → (s.bd slot).isNew →
    ∃ a, lastArrival w number = some a ∧ s.buffer number = a.buffer ∧
      (s.bd slot).status = a.status

/-- The ring when its first `k` slots are filled and `w` has been written. Every packet
allocated is in a slot or has been handed over, once. -/
structure Sound (w : List Arrival) (k : ℕ) (s : RxRing) : Prop where
  bds : s.bds.length = GEM2_RX_BD_COUNT
  pkts : s.pkts.length = GEM2_RX_BD_COUNT
  tail : s.tail < GEM2_RX_BD_COUNT
  ledger : (Slots.held s.pkts ++ s.handed.map Delivery.number).Perm (List.range s.memory.length)
  handed : ∀ d ∈ s.handed, ∃ a, lastArrival w d.number = some a ∧ d = a.delivery
  last : ∀ slot, (s.bd slot).wrap → slot = GEM2_RX_BD_COUNT - 1
  linked : ∀ slot < k, Linked w s slot
  vacant : ∀ slot, k ≤ slot → s.pkt slot = none

variable {w : List Arrival} {k : ℕ} {s s' : RxRing} {slot : ℕ}

/-! ### Slots and descriptors -/

theorem Sound.bd_arm (h : s.Sound w k) (hslot : slot < GEM2_RX_BD_COUNT) (number i : ℕ) :
    (s.arm slot number).bd i = if i = slot then
      ⟨false, (s.bd slot).wrap || slot == GEM2_RX_BD_COUNT - 1, number, 0⟩ else s.bd i :=
  Slots.getD_set _ (by rwa [h.bds]) _ _ _

theorem Sound.pkt_set (h : s.Sound w k) (hslot : slot < GEM2_RX_BD_COUNT) (pkt : Option ℕ)
    (i : ℕ) : (s.pkts.set slot pkt).getD i none = if i = slot then pkt else s.pkt i :=
  Slots.getD_set _ (by rwa [h.pkts]) _ _ _

theorem Sound.getElem?_pkts (h : s.Sound w k) (hslot : slot < GEM2_RX_BD_COUNT) :
    s.pkts[slot]? = some (s.pkt slot) := by
  rw [pkt, List.getD_eq_getElem?_getD, List.getElem?_eq_getElem (by rwa [h.pkts])]
  rfl

theorem Sound.slot_lt (h : s.Sound w k) {number : ℕ} (hpkt : s.pkt slot = some number) :
    slot < GEM2_RX_BD_COUNT := by
  by_contra hout
  rw [pkt, List.getD_eq_default _ _ (by rw [h.pkts]; exact Nat.le_of_not_lt hout)] at hpkt
  contradiction

theorem Sound.number_lt (h : s.Sound w k) {number : ℕ} (hpkt : s.pkt slot = some number) :
    number < s.memory.length := by
  have hmem := Slots.mem_held ((h.getElem?_pkts (h.slot_lt hpkt)).trans (congrArg some hpkt))
  exact List.mem_range.mp (h.ledger.subset (List.mem_append_left _ hmem))

theorem Sound.nodup (h : s.Sound w k) :
    (Slots.held s.pkts ++ s.handed.map Delivery.number).Nodup :=
  h.ledger.nodup_iff.mpr List.nodup_range

/-- Packets in different slots are different. -/
theorem Sound.number_ne (h : s.Sound w k) {i : ℕ} {m n : ℕ} (hm : s.pkt slot = some m)
    (hn : s.pkt i = some n) (hne : slot ≠ i) : m ≠ n := by
  have hnodup := (List.nodup_append.mp h.nodup).1
  apply Slots.ne_of_nodup (f := id) (i := slot) (by rwa [List.map_id]) _ _ hne
  · rw [h.getElem?_pkts (h.slot_lt hm), hm]
  · rw [h.getElem?_pkts (h.slot_lt hn), hn]

/-- A packet in a slot has not been handed over. -/
theorem Sound.not_handed (h : s.Sound w k) {number : ℕ} (hpkt : s.pkt slot = some number)
    {d : Delivery} (hd : d ∈ s.handed) : d.number ≠ number := by
  intro hsame
  have hmem := Slots.mem_held ((h.getElem?_pkts (h.slot_lt hpkt)).trans (congrArg some hpkt))
  exact (List.nodup_append.mp h.nodup).2.2 number hmem number
    (hsame ▸ List.mem_map_of_mem hd) rfl

theorem Linked.congr (h : Linked w s slot) (hbd : s'.bd slot = s.bd slot)
    (hpkt : s'.pkt slot = s.pkt slot)
    (hbuffer : ∀ number, s.pkt slot = some number → s'.buffer number = s.buffer number) :
    Linked w s' slot where
  wrap := by rw [hbd]; exact h.wrap
  armed := by rw [hbd, hpkt]; exact h.armed
  buffer := by rw [hbd, hpkt]; exact h.buffer
  waiting := by
    intro number hnumber hnew
    rw [hpkt] at hnumber
    rw [hbd] at hnew
    rw [hbd, hbuffer number hnumber]
    exact h.waiting number hnumber hnew

/-! ### The steps of the functions -/

theorem Sound.setTail (h : s.Sound w k) {tail : ℕ} (htail : tail < GEM2_RX_BD_COUNT) :
    ({ s with tail := tail } : RxRing).Sound w k :=
  { h with tail := htail, linked := fun slot hslot =>
      (h.linked slot hslot).congr rfl rfl fun _ _ => rfl }

theorem allocRxPacket_eq_some {answer : Option (List UInt8)}
    (hs : s.allocRxPacket slot answer = some s') :
    ∃ memory, s' = ({ s with
      memory := s.memory ++ [memory]
      pkts := s.pkts.set slot (some s.memory.length) }.arm slot s.memory.length) := by
  cases answer with
  | none => contradiction
  | some memory => exact ⟨memory, (Option.some.inj hs).symm⟩

section

variable {answer : Option (List UInt8)}

theorem Sound.alloc_bd (h : s.Sound w k) (hslot : slot < GEM2_RX_BD_COUNT)
    (hs : s.allocRxPacket slot answer = some s') (i : ℕ) : s'.bd i = if i = slot then
      ⟨false, (s.bd slot).wrap || slot == GEM2_RX_BD_COUNT - 1, s.memory.length, 0⟩
      else s.bd i := by
  obtain ⟨memory, rfl⟩ := allocRxPacket_eq_some hs
  exact h.bd_arm hslot s.memory.length i

theorem Sound.alloc_pkt (h : s.Sound w k) (hslot : slot < GEM2_RX_BD_COUNT)
    (hs : s.allocRxPacket slot answer = some s') (i : ℕ) :
    s'.pkt i = if i = slot then some s.memory.length else s.pkt i := by
  obtain ⟨memory, rfl⟩ := allocRxPacket_eq_some hs
  exact h.pkt_set hslot (some s.memory.length) i

theorem alloc_buffer (hs : s.allocRxPacket slot answer = some s') {number : ℕ}
    (hnumber : number < s.memory.length) : s'.buffer number = s.buffer number := by
  obtain ⟨memory, rfl⟩ := allocRxPacket_eq_some hs
  exact List.getD_append _ _ _ _ hnumber

/-- The slot that was filled. -/
theorem Sound.alloc_linked_self (h : s.Sound w k) (hslot : slot < GEM2_RX_BD_COUNT)
    (hs : s.allocRxPacket slot answer = some s') : Linked w s' slot := by
  have hbd := h.alloc_bd hslot hs slot
  have hpkt := h.alloc_pkt hslot hs slot
  rw [if_pos rfl] at hbd hpkt
  refine ⟨?_, ?_, ?_, ?_⟩
  · intro hlast
    rw [hbd, Bool.or_eq_true]
    exact .inr (beq_iff_eq.mpr hlast)
  · intro _
    rw [hpkt]
    exact Option.some_ne_none _
  · intro number hnumber
    rw [hbd]
    exact Option.some.inj (hpkt.symm.trans hnumber)
  · intro number _ hnew
    rw [hbd] at hnew
    contradiction

/-- A packet comes into a vacant slot. -/
theorem Sound.alloc (h : s.Sound w k) (hslot : slot < GEM2_RX_BD_COUNT)
    (hvacant : s.pkt slot = none) {k' : ℕ} (hk : ∀ i, i < k' ↔ i < k ∨ i = slot)
    (hs : s.allocRxPacket slot answer = some s') : s'.Sound w k' where
  bds := by
    obtain ⟨memory, rfl⟩ := allocRxPacket_eq_some hs
    rw [arm, List.length_set, h.bds]
  pkts := by
    obtain ⟨memory, rfl⟩ := allocRxPacket_eq_some hs
    rw [arm, List.length_set, h.pkts]
  tail := by
    obtain ⟨memory, rfl⟩ := allocRxPacket_eq_some hs
    exact h.tail
  ledger := by
    obtain ⟨memory, rfl⟩ := allocRxPacket_eq_some hs
    have hswap := Slots.perm_set s.pkts slot none (some s.memory.length)
      ((h.getElem?_pkts hslot).trans (congrArg some hvacant))
    change (Slots.held (s.pkts.set slot (some s.memory.length)) ++ _).Perm
      (List.range (s.memory ++ [memory]).length)
    rw [List.length_append, List.length_singleton, List.range_succ]
    exact ((hswap.append_right _).trans (h.ledger.cons _)).trans
      (List.perm_append_singleton _ _).symm
  handed := by
    obtain ⟨memory, rfl⟩ := allocRxPacket_eq_some hs
    exact h.handed
  last := by
    intro i hi
    rw [h.alloc_bd hslot hs] at hi
    split at hi
    · next heq =>
      subst heq
      rw [Bool.or_eq_true, beq_iff_eq] at hi
      exact hi.elim (h.last i) id
    · exact h.last i hi
  linked := by
    intro i hi
    by_cases heq : i = slot
    · rw [heq]
      exact h.alloc_linked_self hslot hs
    · refine (h.linked i (((hk i).mp hi).resolve_right heq)).congr ?_ ?_ ?_
      · rw [h.alloc_bd hslot hs, if_neg heq]
      · rw [h.alloc_pkt hslot hs, if_neg heq]
      · intro number hnumber
        exact alloc_buffer hs (h.number_lt hnumber)
  vacant := by
    intro i hi
    have hout := mt (hk i).mpr (Nat.not_lt.mpr hi)
    rw [not_or] at hout
    rw [h.alloc_pkt hslot hs, if_neg hout.2]
    exact h.vacant i (Nat.le_of_not_lt hout.1)

end

/-- What filling a slot does to a full ring. -/
theorem Sound.refill (h : s.Sound w GEM2_RX_BD_COUNT) (hslot : slot < GEM2_RX_BD_COUNT)
    (hvacant : s.pkt slot = none) {answer : Option (List UInt8)}
    (hs : s.allocRxPacket slot answer = some s') : s'.Sound w GEM2_RX_BD_COUNT := by
  apply h.alloc hslot hvacant _ hs
  intro i
  exact ⟨.inl, fun hi => hi.elim id fun heq => heq.symm ▸ hslot⟩

theorem takeFrame_bd (s : RxRing) (slot i : ℕ) : (s.takeFrame slot).bd i = s.bd i := by
  rw [takeFrame]
  split <;> rfl

theorem Sound.takeFrame_pkt (h : s.Sound w k) (hslot : slot < GEM2_RX_BD_COUNT) (i : ℕ) :
    (s.takeFrame slot).pkt i = if i = slot then none else s.pkt i := by
  rw [takeFrame]
  cases hpkt : s.pkt slot with
  | none =>
    dsimp only
    split
    · next heq => rw [heq, hpkt]
    · rfl
  | some number => exact h.pkt_set hslot none i

theorem takeFrame_memory (s : RxRing) (slot : ℕ) : (s.takeFrame slot).memory = s.memory := by
  rw [takeFrame]
  split <;> rfl

/-- A frame that has arrived is handed over as it was written. -/
theorem Sound.takeFrame_eq (h : s.Sound w GEM2_RX_BD_COUNT) (hnew : (s.bd slot).isNew)
    {number : ℕ} (hpkt : s.pkt slot = some number) :
    ∃ a, lastArrival w number = some a ∧ s.takeFrame slot =
      { s with
        frames := s.frames + 1
        arp := learnFrom s.arp a.delivery
        handed := s.handed ++ [a.delivery]
        pkts := s.pkts.set slot none } := by
  obtain ⟨a, ha, hbuffer, hstatus⟩ :=
    (h.linked slot (h.slot_lt hpkt)).waiting number hpkt hnew
  refine ⟨a, ha, ?_⟩
  rw [takeFrame, hpkt, Arrival.delivery, (lastArrival_mem ha).1, ← hbuffer, ← hstatus]

theorem Sound.takeFrame (h : s.Sound w GEM2_RX_BD_COUNT) (hslot : slot < GEM2_RX_BD_COUNT)
    (hnew : (s.bd slot).isNew) : (s.takeFrame slot).Sound w GEM2_RX_BD_COUNT := by
  cases hpkt : s.pkt slot with
  | none =>
    have hsame : s.takeFrame slot = s := by
      rw [RxRing.takeFrame, hpkt]
    rw [hsame]
    exact h
  | some number =>
    obtain ⟨a, ha, htake⟩ := h.takeFrame_eq hnew hpkt
    have hpkts := h.takeFrame_pkt hslot
    have hbds := s.takeFrame_bd slot
    have hmemory := s.takeFrame_memory slot
    rw [htake] at hpkts hbds hmemory ⊢
    have hnumber : a.delivery.number = number := (lastArrival_mem ha).1
    refine ⟨h.bds, ?_, h.tail, ?_, ?_, h.last, ?_, ?_⟩
    · rw [List.length_set, h.pkts]
    · have hswap := Slots.perm_set s.pkts slot (some number) none
        ((h.getElem?_pkts hslot).trans (congrArg some hpkt))
      rw [List.map_append, List.map_singleton, hnumber]
      apply List.Perm.trans _ h.ledger
      rw [← List.append_assoc]
      exact ((List.perm_append_singleton _ _).trans (hswap.append_right _))
    · intro d hd
      obtain hd | hd := List.mem_append.mp hd
      · exact h.handed d hd
      · rw [List.mem_singleton.mp hd, hnumber]
        exact ⟨a, ha, rfl⟩
    · intro i hi
      by_cases heq : i = slot
      · have hpkt' := hpkts i
        rw [if_pos heq] at hpkt'
        refine ⟨(h.linked i hi).wrap, ?_, ?_, ?_⟩
        · intro hold
          rw [hbds, heq, hnew] at hold
          contradiction
        · intro number' hnumber'
          rw [hpkt'] at hnumber'
          contradiction
        · intro number' hnumber'
          rw [hpkt'] at hnumber'
          contradiction
      · refine (h.linked i hi).congr (hbds i) ?_ fun _ _ => rfl
        rw [hpkts, if_neg heq]
    · intro i hi
      rw [hpkts]
      split
      · rfl
      · exact h.vacant i hi

theorem takeFrame_tail (s : RxRing) (slot : ℕ) : (s.takeFrame slot).tail = s.tail := by
  rw [takeFrame]
  split <;> rfl

theorem takeFrame_pkt_self (s : RxRing) (slot : ℕ) : (s.takeFrame slot).pkt slot = none := by
  rw [takeFrame]
  cases hpkt : s.pkt slot with
  | none => exact hpkt
  | some number =>
    dsimp only
    rw [pkt, List.getD_eq_getElem?_getD, List.getElem?_set_self']
    cases s.pkts[slot]? <;> rfl

/-! ### The loops -/

/-- What taking a frame and refilling its slot preserve, `gem2_rx_process` preserves. -/
theorem rxTurns_invariant {Q : RxRing → Prop}
    (htake : ∀ s : RxRing, Q s → (s.bd s.tail).isNew → Q (s.takeFrame s.tail))
    (hfill : ∀ (s s' : RxRing) (answer : Option (List UInt8)), Q s → (s.bd s.tail).isNew →
      s.pkt s.tail = none → s.allocRxPacket s.tail answer = some s' →
      Q { s' with tail := (s.tail + 1) % GEM2_RX_BD_COUNT })
    (answers : List (Option (List UInt8))) {s : RxRing} (hs : Q s) : Q (s.rxTurns answers) := by
  induction answers generalizing s with
  | nil => exact hs
  | cons answer answers ih =>
    rw [rxTurns]
    split
    · next hnew =>
      dsimp only
      have htaken := htake s hs hnew
      cases halloc : (s.takeFrame s.tail).allocRxPacket s.tail answer with
      | none => exact htaken
      | some s' =>
        apply ih
        have hrefill := hfill (s.takeFrame s.tail) s' answer htaken
        rw [takeFrame_tail, takeFrame_bd] at hrefill
        exact hrefill hnew (s.takeFrame_pkt_self s.tail) halloc
    · exact hs

/-- What filling a vacant slot and arming a packet again preserve, `gem2_full_reinit`
preserves. -/
theorem reinit_invariant {Q : RxRing → Prop}
    (hfill : ∀ (s s' : RxRing) (slot : ℕ) (answer : Option (List UInt8)), Q s →
      slot < GEM2_RX_BD_COUNT → s.pkt slot = none → s.allocRxPacket slot answer = some s' → Q s')
    (harm : ∀ (s : RxRing) (slot number : ℕ), Q s → slot < GEM2_RX_BD_COUNT →
      s.pkt slot = some number → Q (s.arm slot number))
    (htail : ∀ s : RxRing, Q s → Q { s with tail := 0 })
    (answers : ℕ → Option (List UInt8)) {s : RxRing} (hs : Q s) : Q (s.reinit answers) := by
  apply htail
  refine List.foldlRecOn (List.range GEM2_RX_BD_COUNT) (reinitSlot answers) hs ?_
  intro s' hs' slot hslot
  have hlt := List.mem_range.mp hslot
  rw [reinitSlot]
  cases hpkt : s'.pkt slot with
  | none =>
    dsimp only
    cases halloc : s'.allocRxPacket slot (answers slot) with
    | none => exact hs'
    | some s'' => exact hfill s' s'' slot _ hs' hlt hpkt halloc
  | some number => exact harm s' slot number hs' hlt hpkt

theorem Sound.arm (h : s.Sound w GEM2_RX_BD_COUNT) (hslot : slot < GEM2_RX_BD_COUNT) {number : ℕ}
    (hpkt : s.pkt slot = some number) : (s.arm slot number).Sound w GEM2_RX_BD_COUNT := by
  have hbd := h.bd_arm hslot number
  refine ⟨?_, h.pkts, h.tail, h.ledger, h.handed, ?_, ?_, h.vacant⟩
  · rw [RxRing.arm, List.length_set, h.bds]
  · intro i hi
    rw [hbd] at hi
    split at hi
    · next heq =>
      subst heq
      rw [Bool.or_eq_true, beq_iff_eq] at hi
      exact hi.elim (h.last i) id
    · exact h.last i hi
  · intro i hi
    by_cases heq : i = slot
    · subst heq
      have hbd' := hbd i
      rw [if_pos rfl] at hbd'
      refine ⟨?_, ?_, ?_, ?_⟩
      · intro hlast
        rw [hbd', Bool.or_eq_true]
        exact .inl ((h.linked i hi).wrap hlast)
      · intro _ hnone
        exact Option.some_ne_none _ (hpkt.symm.trans hnone)
      · intro number' hnumber'
        rw [hbd']
        exact Option.some.inj (hpkt.symm.trans hnumber')
      · intro number' _ hnew
        rw [hbd'] at hnew
        contradiction
    · refine (h.linked i hi).congr ?_ rfl fun _ _ => rfl
      rw [hbd, if_neg heq]

theorem Sound.rxTurns (h : s.Sound w GEM2_RX_BD_COUNT) (answers : List (Option (List UInt8))) :
    (s.rxTurns answers).Sound w GEM2_RX_BD_COUNT := by
  refine rxTurns_invariant ?_ ?_ answers h
  · intro s hs hnew
    exact hs.takeFrame hs.tail hnew
  · intro s s' answer hs _ hvacant halloc
    exact (hs.refill hs.tail hvacant halloc).setTail (Nat.mod_lt _ (by decide))

theorem Sound.reinit (h : s.Sound w GEM2_RX_BD_COUNT) (answers : ℕ → Option (List UInt8)) :
    (s.reinit answers).Sound w GEM2_RX_BD_COUNT := by
  refine reinit_invariant ?_ ?_ ?_ answers h
  · intro s s' slot answer hs hslot hvacant halloc
    exact hs.refill hslot hvacant halloc
  · intro s slot number hs hslot hpkt
    exact hs.arm hslot hpkt
  · intro s hs
    exact hs.setTail (by decide)

/-! ### The DMA -/

/-- The DMA writes to a packet that is in a slot. -/
theorem Sound.pkt_of_armed (h : s.Sound w GEM2_RX_BD_COUNT) (hslot : slot < GEM2_RX_BD_COUNT)
    (harmed : (s.bd slot).isNew = false) : s.pkt slot = some (s.bd slot).buffer := by
  obtain ⟨number, hnumber⟩ := Option.ne_none_iff_exists'.mp ((h.linked slot hslot).armed harmed)
  rw [(h.linked slot hslot).buffer number hnumber, hnumber]

section

variable (h : s.Sound w GEM2_RX_BD_COUNT) (hslot : slot < GEM2_RX_BD_COUNT) {a : Arrival}

include h hslot

theorem Sound.write_bd (i : ℕ) : (s.write slot a).bd i =
    if i = slot then { s.bd slot with isNew := true, status := a.status } else s.bd i :=
  Slots.getD_set _ (by rwa [h.bds]) _ i _

variable (harmed : (s.bd slot).isNew = false) (ha : a.number = (s.bd slot).buffer)

include harmed ha

theorem Sound.write_buffer (number : ℕ) : (s.write slot a).buffer number =
    if number = a.number then a.buffer else s.buffer number := by
  have hpkt := h.pkt_of_armed hslot harmed
  rw [← ha] at hpkt
  exact Slots.getD_set _ (h.number_lt hpkt) _ number _

/-- The slot that is written to. -/
theorem Sound.write_linked_self : Linked (w ++ [a]) (s.write slot a) slot := by
  have hold := h.linked slot hslot
  have hpkt := h.pkt_of_armed hslot harmed
  rw [← ha] at hpkt
  have hbd := h.write_bd hslot (a := a) slot
  rw [if_pos rfl] at hbd
  refine ⟨?_, ?_, ?_, ?_⟩
  · intro hlast
    rw [hbd]
    exact hold.wrap hlast
  · intro hnew
    rw [hbd] at hnew
    contradiction
  · intro number hnumber
    rw [hbd]
    exact hold.buffer number hnumber
  · intro number hnumber _
    obtain rfl := Option.some.inj (hpkt.symm.trans hnumber)
    refine ⟨a, ?_, ?_, ?_⟩
    · rw [lastArrival_concat, if_pos rfl]
    · rw [h.write_buffer hslot harmed ha, if_pos rfl]
    · rw [hbd]

theorem Sound.write_linked_other {i : ℕ} (hi : i < GEM2_RX_BD_COUNT) (hne : i ≠ slot) :
    Linked (w ++ [a]) (s.write slot a) i := by
  have hold := h.linked i hi
  have hpkt := h.pkt_of_armed hslot harmed
  rw [← ha] at hpkt
  have hbd := h.write_bd hslot (a := a) i
  rw [if_neg hne] at hbd
  refine ⟨?_, ?_, ?_, ?_⟩
  · intro hlast
    rw [hbd]
    exact hold.wrap hlast
  · intro hnew
    rw [hbd] at hnew
    exact hold.armed hnew
  · intro number hnumber
    rw [hbd]
    exact hold.buffer number hnumber
  · intro number hnumber hnew
    rw [hbd] at hnew
    have hother := h.number_ne hpkt hnumber (Ne.symm hne)
    rw [lastArrival_concat, if_neg hother, h.write_buffer hslot harmed ha, if_neg hother.symm,
      hbd]
    exact hold.waiting number hnumber hnew

theorem Sound.write : (s.write slot a).Sound (w ++ [a]) GEM2_RX_BD_COUNT where
  bds := (List.length_set ..).trans h.bds
  pkts := h.pkts
  tail := h.tail
  ledger := by
    change (Slots.held s.pkts ++ _).Perm (List.range (s.memory.set a.number a.buffer).length)
    rw [List.length_set]
    exact h.ledger
  handed := by
    intro d hd
    have hpkt := h.pkt_of_armed hslot harmed
    rw [← ha] at hpkt
    rw [lastArrival_concat, if_neg (h.not_handed hpkt hd).symm]
    exact h.handed d hd
  last := by
    intro i hi
    rw [h.write_bd hslot] at hi
    split at hi
    · next heq =>
      rw [heq]
      exact h.last slot hi
    · exact h.last i hi
  linked := by
    intro i hi
    by_cases heq : i = slot
    · rw [heq]
      exact h.write_linked_self hslot harmed ha
    · exact h.write_linked_other hslot harmed ha hi heq
  vacant := h.vacant

end

/-! ### The start -/

theorem sound_created : created.Sound [] 0 where
  bds := List.length_replicate
  pkts := List.length_replicate
  tail := by decide
  ledger := by decide
  handed := by
    intro d hd
    contradiction
  last := by
    intro slot hslot
    by_cases hlt : slot < GEM2_RX_BD_COUNT
    · rw [bd, created, List.getD_replicate _ hlt] at hslot
      contradiction
    · rw [bd, created, List.getD_eq_default] at hslot
      · contradiction
      · rw [List.length_replicate]
        exact Nat.le_of_not_lt hlt
  linked := by
    intro slot hslot
    contradiction
  vacant := by
    intro slot _
    by_cases hlt : slot < GEM2_RX_BD_COUNT
    · rw [pkt, created, List.getD_replicate _ hlt]
    · rw [pkt, created, List.getD_eq_default]
      rw [List.length_replicate]
      exact Nat.le_of_not_lt hlt

theorem Sound.rxFill {answers : ℕ → Option (List UInt8)} {n k : ℕ} {s s' : RxRing}
    (h : s.Sound w k) (hk : k + n = GEM2_RX_BD_COUNT)
    (hs : rxFill s answers (List.range' k n) = some s') : s'.Sound w GEM2_RX_BD_COUNT := by
  induction n generalizing k s with
  | zero =>
    obtain rfl := Option.some.inj hs
    rw [← hk]
    exact h
  | succ n ih =>
    rw [List.range'_succ, Gem2.rxFill] at hs
    cases halloc : s.allocRxPacket k (answers k) with
    | none =>
      rw [halloc] at hs
      contradiction
    | some s'' =>
      rw [halloc] at hs
      refine ih ?_ (by omega) hs
      apply h.alloc (by omega) (h.vacant k (Nat.le_refl _)) _ halloc
      omega

theorem rxFill_tail {answers : ℕ → Option (List UInt8)} {slots : List ℕ} {s s' : RxRing}
    (hs : Gem2.rxFill s answers slots = some s') : s'.tail = s.tail := by
  induction slots generalizing s with
  | nil => rw [Option.some.inj hs]
  | cons slot slots ih =>
    rw [Gem2.rxFill] at hs
    cases halloc : s.allocRxPacket slot (answers slot) with
    | none =>
      rw [halloc] at hs
      contradiction
    | some s'' =>
      rw [halloc] at hs
      have htail : s''.tail = s.tail := by
        obtain ⟨memory, rfl⟩ := allocRxPacket_eq_some halloc
        rfl
      exact (ih hs).trans htail

theorem sound_initialize {answers : ℕ → Option (List UInt8)} {s : RxRing}
    (hs : rxInitialize answers = some s) : s.Sound [] GEM2_RX_BD_COUNT := by
  rw [rxInitialize, List.range_eq_range'] at hs
  exact sound_created.rxFill (Nat.zero_add _) hs

end RxRing

/-! ### Runs -/

theorem rx_bd_count_pos : 0 < GEM2_RX_BD_COUNT := by decide

/-- What the DMA leaves for a frame. -/
structure Arrival.Genuine (a : Arrival) : Prop where
  fits : GEM2_RX_OFFSET + a.frame.length ≤ GEM2_RX_BUFSIZE
  buffer : ∃ p q rest, a.buffer = p :: q :: a.frame ++ rest
  status : ∃ flags, a.status = flags &&& 0xffffc000 ||| UInt32.ofNat a.frame.length

theorem rxInitialize_tail {answers : ℕ → Option (List UInt8)} {s : RxRing}
    (hs : rxInitialize answers = some s) : s.tail = 0 := RxRing.rxFill_tail hs

namespace Link

structure Receives (l : Link) : Prop where
  ring : l.rx.Sound l.written GEM2_RX_BD_COUNT
  pointer : l.rxPointer < GEM2_RX_BD_COUNT
  genuine : ∀ a ∈ l.written, a.Genuine

variable {l : Link}

theorem Receives.fullReinit (h : l.Receives) (answers : ℕ → Option (List UInt8)) :
    (l.fullReinit answers).Receives :=
  ⟨h.ring.reinit answers, rx_bd_count_pos, h.genuine⟩

theorem Receives.rxStallRecover (h : l.Receives) : l.rxStallRecover.Receives :=
  ⟨h.ring, h.ring.tail, h.genuine⟩

theorem Receives.irqHandler (h : l.Receives) (isr : UInt32)
    (answers : ℕ → Option (List UInt8)) : (l.irqHandler isr answers).Receives := by
  have hprocess : Receives { l with isrCalls := l.isrCalls + 1, rx := rxProcess l.rx answers } :=
    ⟨h.ring.rxTurns _, h.pointer, h.genuine⟩
  have hskip : Receives { l with isrCalls := l.isrCalls + 1 } := ⟨h.ring, h.pointer, h.genuine⟩
  rw [Link.irqHandler]
  dsimp only
  split
  · split
    · exact hprocess.rxStallRecover
    · exact hskip.rxStallRecover
  · split
    · exact hprocess
    · exact hskip

theorem Receives.pollTx (h : l.Receives) (answers : ℕ → Option (List UInt8)) :
    (l.pollTx answers).Receives := by
  have hpoll : ∀ poll, Receives { l with txPoll := poll } :=
    fun _ => ⟨h.ring, h.pointer, h.genuine⟩
  rw [Link.pollTx]
  dsimp only
  split
  · exact hpoll _
  · exact ⟨h.ring, h.pointer, h.genuine⟩
  · exact (hpoll _).fullReinit answers

theorem Receives.pollRx (h : l.Receives) : l.pollRx.Receives := by
  have hpoll : ∀ poll, Receives { l with rxPoll := poll } :=
    fun _ => ⟨h.ring, h.pointer, h.genuine⟩
  rw [Link.pollRx]
  dsimp only
  split
  · exact hpoll _
  · exact (hpoll _).rxStallRecover

theorem Receives.pollLink (h : l.Receives) (answers : ℕ → Option (List UInt8)) :
    (l.pollLink answers).Receives := by
  have hpoll : ∀ poll, Receives { l with linkPoll := poll } :=
    fun _ => ⟨h.ring, h.pointer, h.genuine⟩
  rw [Link.pollLink]
  dsimp only
  split
  · exact hpoll _
  · exact (hpoll _).fullReinit answers

theorem Receives.transmit (h : l.Receives) : l.transmit.Receives := by
  rw [Link.transmit]
  split
  · exact h
  · exact ⟨h.ring, h.pointer, h.genuine⟩

theorem Receives.receive (h : l.Receives) (pad : UInt8 × UInt8) (frame : List UInt8)
    (flags : UInt32) : (l.receive pad frame flags).Receives := by
  rw [Link.receive]
  dsimp only
  split
  · exact h
  · next hwrites =>
    rw [not_or] at hwrites
    have harmed := Bool.eq_false_iff.mpr hwrites.1
    refine ⟨h.ring.write h.pointer harmed rfl, ?_, ?_⟩
    · split
      · exact rx_bd_count_pos
      · next hwrap =>
        have hlast := mt (h.ring.linked l.rxPointer h.pointer).wrap hwrap
        have hpointer := h.pointer
        simp only [GEM2_RX_BD_COUNT] at hlast hpointer ⊢
        omega
    · intro a ha
      obtain ha | ha := List.mem_append.mp ha
      · exact h.genuine a ha
      · rw [List.mem_singleton.mp ha]
        exact ⟨Nat.le_of_not_lt hwrites.2, ⟨_, _, _, rfl⟩, ⟨flags, rfl⟩⟩

theorem Receives.step (h : l.Receives) (op : Op) : (l.step op).Receives := by
  cases op with
  | send r => exact ⟨h.ring, h.pointer, h.genuine⟩
  | deferredProcessing => exact ⟨h.ring, h.pointer, h.genuine⟩
  | irq isr answers => exact h.irqHandler isr answers
  | setTraceActive active => exact ⟨h.ring, h.pointer, h.genuine⟩
  | pollTx answers => exact h.pollTx answers
  | pollRx => exact h.pollRx
  | pollLink answers => exact h.pollLink answers
  | transmit => exact h.transmit
  | receive pad frame flags => exact h.receive pad frame flags

theorem receives_start {answers : ℕ → Option (List UInt8)} (hl : start answers = some l) :
    l.Receives := by
  obtain ⟨rx, hrx, rfl⟩ := Option.map_eq_some_iff.mp hl
  refine ⟨RxRing.sound_initialize hrx, rx_bd_count_pos, ?_⟩
  intro a ha
  contradiction

theorem receives_run {answers : ℕ → Option (List UInt8)} (hl : start answers = some l)
    (ops : List Op) : (l.run ops).Receives :=
  run_invariant (fun _ op h => h.step op) ops (receives_start hl)

end Link

/-! ### What NetX gets -/

/-- Bits that are masked out leave nothing behind. -/
theorem or_and_eq {x y c d : UInt32} (h : c &&& d = 0) : (x &&& c ||| y) &&& d = y &&& d := by
  rw [or_and_distrib, UInt32.and_assoc, h, UInt32.and_zero, UInt32.zero_or]

/-- The driver keeps thirteen bits of the length, also of a jumbo frame. -/
theorem Arrival.Genuine.frameLen {a : Arrival} (h : a.Genuine) :
    (a.status &&& XEMACPS_RXBUF_LEN_MASK).toNat = a.frame.length % 8192 := by
  obtain ⟨flags, hstatus⟩ := h.status
  have hsmall : a.frame.length < 2 ^ 32 := by
    have := h.fits
    simp only [GEM2_RX_OFFSET, GEM2_RX_BUFSIZE] at this
    omega
  rw [hstatus, XEMACPS_RXBUF_LEN_MASK, or_and_eq (by decide), UInt32.toNat_and,
    UInt32.toNat_ofNat_of_lt' hsmall]
  exact Nat.and_two_pow_sub_one_eq_mod _ 13

theorem word16_append {xs ys : List UInt8} {i : ℕ} (h : i + 1 < xs.length) :
    word16 (xs ++ ys) i = word16 xs i := by
  rw [word16, word16, List.getD_append _ _ _ _ (Nat.lt_of_succ_lt h), List.getD_append _ _ _ _ h]

/-- A frame is handed over without its header, as far as the driver's length reaches. -/
theorem Arrival.Genuine.delivery_eq {a : Arrival} (h : a.Genuine)
    (hlength : NX_ETHERNET_SIZE ≤ a.frame.length % 8192) : a.delivery =
      { number := a.number
        length := UInt32.ofNat (a.frame.length % 8192 - NX_ETHERNET_SIZE)
        data := (a.frame.drop NX_ETHERNET_SIZE).take (a.frame.length % 8192 - NX_ETHERNET_SIZE)
        route := route (word16 a.frame 12) } := by
  obtain ⟨p, q, rest, hbuffer⟩ := h.buffer
  have hle : a.frame.length % 8192 ≤ a.frame.length := Nat.mod_le _ _
  have hsmall : a.frame.length % 8192 < 2 ^ 32 :=
    Nat.lt_of_le_of_lt (Nat.le_of_lt (Nat.mod_lt _ (by decide))) (by decide : 8192 < 2 ^ 32)
  have hmask : a.status &&& XEMACPS_RXBUF_LEN_MASK = UInt32.ofNat (a.frame.length % 8192) := by
    apply UInt32.toNat_inj.mp
    rw [h.frameLen, UInt32.toNat_ofNat_of_lt' hsmall]
  have hlen : (UInt32.ofNat (a.frame.length % 8192 - NX_ETHERNET_SIZE)).toNat =
      a.frame.length % 8192 - NX_ETHERNET_SIZE :=
    UInt32.toNat_ofNat_of_lt' (Nat.lt_of_le_of_lt (Nat.sub_le _ _) hsmall)
  have heth : a.buffer.drop GEM2_RX_OFFSET = a.frame ++ rest := by
    rw [hbuffer]
    rfl
  have hdata : ((a.frame ++ rest).drop NX_ETHERNET_SIZE).take
      (a.frame.length % 8192 - NX_ETHERNET_SIZE) =
        (a.frame.drop NX_ETHERNET_SIZE).take (a.frame.length % 8192 - NX_ETHERNET_SIZE) := by
    rw [List.drop_append_of_le_length (Nat.le_trans hlength hle), List.take_append_of_le_length]
    rw [List.length_drop]
    exact Nat.sub_le_sub_right hle _
  have htype : word16 (a.frame ++ rest) 12 = word16 a.frame 12 :=
    word16_append (Nat.le_trans hlength hle)
  rw [Arrival.delivery, deliver, heth, hmask, ← UInt32.ofNat_sub hlength]
  rw [hlen, hdata, htype]

/-- Every packet allocated is with the driver or was handed over once; the DMA can only write to
those with the driver; and a packet handed over has the frame that was written to it last,
without its header and as long as thirteen bits can say. -/
theorem Link.handed_exact {answers : ℕ → Option (List UInt8)} {l : Link}
    (hl : start answers = some l) (ops : List Op) :
    (Slots.held (l.run ops).rx.pkts ++ (l.run ops).rx.handed.map Delivery.number).Perm
        (List.range (l.run ops).rx.memory.length) ∧
      (∀ slot < GEM2_RX_BD_COUNT, ((l.run ops).rx.bd slot).isNew = false →
        (l.run ops).rx.pkt slot = some ((l.run ops).rx.bd slot).buffer) ∧
      ∀ d ∈ (l.run ops).rx.handed, ∃ a, lastArrival (l.run ops).written d.number = some a ∧
        (NX_ETHERNET_SIZE ≤ a.frame.length % 8192 → d =
          { number := a.number
            length := UInt32.ofNat (a.frame.length % 8192 - NX_ETHERNET_SIZE)
            data := (a.frame.drop NX_ETHERNET_SIZE).take
              (a.frame.length % 8192 - NX_ETHERNET_SIZE)
            route := route (word16 a.frame 12) }) := by
  have h := receives_run hl ops
  refine ⟨h.ring.ledger, ?_, ?_⟩
  · intro slot hslot harmed
    exact h.ring.pkt_of_armed hslot harmed
  · intro d hd
    obtain ⟨a, ha, rfl⟩ := h.ring.handed d hd
    refine ⟨a, ha, ?_⟩
    exact (h.genuine a (lastArrival_mem ha).2).delivery_eq

theorem Link.handed_exact_frame :
    let ops := [.receive (0, 0) (frameFrom 3 0 [7, 8, 9]) 0,
      .receive (0, 0) (frameFrom 4 6 [5, 6]) 0, .irq 2 fun _ => some []]
    let l := fresh.run ops
    l.rx.handed = [⟨0, 3, [7, 8, 9], .ip⟩, ⟨1, 2, [5, 6], .arp⟩] ∧
      (Slots.held l.rx.pkts ++ [0, 1]).Perm (List.range 66) ∧
      (∀ slot < GEM2_RX_BD_COUNT, (l.rx.bd slot).isNew = false →
        l.rx.pkt slot = some (l.rx.bd slot).buffer) ∧
      ∀ d ∈ l.rx.handed, ∃ a, lastArrival l.written d.number = some a ∧
        d.data = a.frame.drop NX_ETHERNET_SIZE ∧ d.route = route (word16 a.frame 12) := by
  intro ops l
  have hhanded : l.rx.handed = [⟨0, 3, [7, 8, 9], .ip⟩, ⟨1, 2, [5, 6], .arp⟩] := by decide +kernel
  have hmemory : l.rx.memory.length = 66 := by decide +kernel
  have hwritten : ∀ a ∈ l.written, NX_ETHERNET_SIZE ≤ a.frame.length % 8192 ∧
      a.frame.length < 8192 := by decide +kernel
  obtain ⟨hledger, harmed, hexact⟩ := handed_exact start_fresh ops
  change (Slots.held l.rx.pkts ++ l.rx.handed.map Delivery.number).Perm
    (List.range l.rx.memory.length) at hledger
  rw [hhanded, hmemory] at hledger
  refine ⟨hhanded, hledger, harmed, fun d hd => ?_⟩
  obtain ⟨a, ha, heq⟩ := hexact d hd
  obtain ⟨hheader, hshort⟩ := hwritten a (lastArrival_mem ha).2
  refine ⟨a, ha, ?_⟩
  rw [heq hheader, Nat.mod_eq_of_lt hshort]
  exact ⟨List.take_of_length_le (List.length_drop ▸ Nat.le_refl _), rfl⟩

end Gem2
