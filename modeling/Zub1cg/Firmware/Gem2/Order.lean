import Zub1cg.Library.RingIndex
import Zub1cg.Firmware.Gem2.Receive

/-!
# The order of the packets handed over

Packets are handed over in the order in which their frames arrived, also when NetX runs out of
packets and when a watchdog moves the DMA to the tail. An interrupt that reports frames while the
DMA is halted must report the halt, too: then the DMA is put back behind the frames.

## Main definitions

- `RxRing.waiting` — the frames that wait in the ring, in order
- `RxRing.Queued` — they are in the slots from the tail on

## Main results

- `Link.handed_order` — what is handed over, in order
-/

namespace Gem2

namespace RxRing

/-- The packet at a place behind the tail, if it has a frame. -/
def pendingAt (s : RxRing) (k : ℕ) : Option Delivery :=
  let slot := (s.tail + k) % GEM2_RX_BD_COUNT
  if (s.bd slot).isNew then
    (s.pkt slot).map fun number => deliver number (s.buffer number) (s.bd slot).status
  else none

/-- The frames that have arrived and are not handed over, in order. -/
def waiting (s : RxRing) : List Delivery := (List.range GEM2_RX_BD_COUNT).filterMap s.pendingAt

/-- The descriptors of the first `n` places are new, and no other place has a frame. -/
structure Queued (s : RxRing) (n : ℕ) : Prop where
  le : n ≤ GEM2_RX_BD_COUNT
  fresh : ∀ k < n, (s.bd ((s.tail + k) % GEM2_RX_BD_COUNT)).isNew
  rest : ∀ k, n ≤ k → k < GEM2_RX_BD_COUNT → s.pendingAt k = none

variable {w : List Arrival} {s s' : RxRing} {n : ℕ}

theorem pendingAt_of_armed {k : ℕ}
    (h : (s.bd ((s.tail + k) % GEM2_RX_BD_COUNT)).isNew = false) : s.pendingAt k = none := by
  rw [pendingAt, h]
  rfl

theorem pendingAt_of_vacant {k : ℕ} (h : s.pkt ((s.tail + k) % GEM2_RX_BD_COUNT) = none) :
    s.pendingAt k = none := by
  rw [pendingAt, h]
  exact ite_self _

theorem pendingAt_congr {k j : ℕ} (hbd : s'.bd ((s'.tail + k) % GEM2_RX_BD_COUNT) =
      s.bd ((s.tail + j) % GEM2_RX_BD_COUNT))
    (hpkt : s'.pkt ((s'.tail + k) % GEM2_RX_BD_COUNT) =
      s.pkt ((s.tail + j) % GEM2_RX_BD_COUNT))
    (hbuffer : ∀ number, s.pkt ((s.tail + j) % GEM2_RX_BD_COUNT) = some number →
      s'.buffer number = s.buffer number) : s'.pendingAt k = s.pendingAt j := by
  rw [pendingAt, pendingAt, hbd, hpkt]
  cases hnumber : s.pkt ((s.tail + j) % GEM2_RX_BD_COUNT) with
  | none => rfl
  | some number => rw [Option.map_some, Option.map_some, hbuffer number hnumber]

theorem Sound.place_zero (h : s.Sound w n) : (s.tail + 0) % GEM2_RX_BD_COUNT = s.tail :=
  Nat.mod_eq_of_lt h.tail

theorem rx_place_ne (tail : ℕ) {j k : ℕ} (hj : j < GEM2_RX_BD_COUNT)
    (hk : k < GEM2_RX_BD_COUNT) (hne : j ≠ k) :
    (tail + j) % GEM2_RX_BD_COUNT ≠ (tail + k) % GEM2_RX_BD_COUNT :=
  RingIndex.mod_ne_of_ne (c := tail) (by omega) (by omega) (by omega) (by omega) (by omega)

/-- The places, the first one apart. -/
theorem waiting_eq_first (s : RxRing) : s.waiting = (s.pendingAt 0).toList ++
    (List.range (GEM2_RX_BD_COUNT - 1)).filterMap fun k => s.pendingAt (k + 1) := by
  have hrange : List.range GEM2_RX_BD_COUNT =
      0 :: (List.range (GEM2_RX_BD_COUNT - 1)).map Nat.succ := List.range_succ_eq_map
  rw [waiting, hrange]
  cases hfirst : s.pendingAt 0 with
  | none =>
    rw [List.filterMap_cons_none hfirst, List.filterMap_map]
    rfl
  | some d =>
    rw [List.filterMap_cons_some hfirst, List.filterMap_map]
    rfl

/-- The places, the last one apart. -/
theorem waiting_eq_last (s : RxRing) : s.waiting =
    (List.range (GEM2_RX_BD_COUNT - 1)).filterMap s.pendingAt ++
      (s.pendingAt (GEM2_RX_BD_COUNT - 1)).toList := by
  have hrange : List.range GEM2_RX_BD_COUNT =
      List.range (GEM2_RX_BD_COUNT - 1) ++ [GEM2_RX_BD_COUNT - 1] := List.range_succ
  rw [waiting, hrange, List.filterMap_append]
  congr 1

/-- The places move up by one when the tail does. -/
theorem advance_place (s : RxRing) (k : ℕ) :
    ((s.tail + 1) % GEM2_RX_BD_COUNT + k) % GEM2_RX_BD_COUNT =
      (s.tail + (k + 1)) % GEM2_RX_BD_COUNT := by
  rw [Nat.mod_add_mod, Nat.add_right_comm, Nat.add_assoc]

/-! ### Handing over -/

section

variable (h : s.Sound w GEM2_RX_BD_COUNT)

include h

theorem Sound.takeFrame_pendingAt {k : ℕ} (hk : k < GEM2_RX_BD_COUNT) :
    (s.takeFrame s.tail).pendingAt k = if k = 0 then none else s.pendingAt k := by
  split
  · next hzero =>
    apply pendingAt_of_vacant
    rw [takeFrame_tail, hzero, h.place_zero]
    exact s.takeFrame_pkt_self s.tail
  · next hne =>
    have hplace := rx_place_ne s.tail hk rx_bd_count_pos hne
    rw [h.place_zero] at hplace
    apply pendingAt_congr
    · rw [takeFrame_tail, takeFrame_bd]
    · rw [takeFrame_tail, h.takeFrame_pkt h.tail, if_neg hplace]
    · intro number _
      exact congrArg (fun memory => memory.getD number []) (s.takeFrame_memory s.tail)

/-- What is handed over was the first to wait. -/
theorem Sound.takeFrame_waiting (hnew : (s.bd s.tail).isNew) :
    (s.takeFrame s.tail).handed ++ (s.takeFrame s.tail).waiting = s.handed ++ s.waiting := by
  cases hpkt : s.pkt s.tail with
  | none =>
    have hsame : s.takeFrame s.tail = s := by
      rw [RxRing.takeFrame, hpkt]
    rw [hsame]
  | some number =>
    obtain ⟨a, ha, htake⟩ := h.takeFrame_eq hnew hpkt
    have hhanded : (s.takeFrame s.tail).handed = s.handed ++ [a.delivery] := by
      rw [htake]
    have hfirst : s.pendingAt 0 = some a.delivery := by
      obtain ⟨a', ha', hbuffer, hstatus⟩ := (h.linked s.tail h.tail).waiting number hpkt hnew
      obtain rfl := Option.some.inj (ha.symm.trans ha')
      rw [pendingAt, h.place_zero, if_pos hnew, hpkt, Option.map_some, hbuffer, hstatus,
        Arrival.delivery, (lastArrival_mem ha).1]
    have hfirst' := h.takeFrame_pendingAt rx_bd_count_pos
    rw [if_pos rfl] at hfirst'
    rw [waiting_eq_first, waiting_eq_first, hfirst, hfirst', hhanded, List.append_assoc]
    congr 2
    apply List.filterMap_congr
    intro k hk
    have hlt := List.mem_range.mp hk
    rw [h.takeFrame_pendingAt (by omega), if_neg (Nat.succ_ne_zero k)]

theorem Queued.takeFrame (hn : s.Queued n) : (s.takeFrame s.tail).Queued n where
  le := hn.le
  fresh := by
    intro k hk
    rw [takeFrame_tail, takeFrame_bd]
    exact hn.fresh k hk
  rest := by
    intro k hk hlt
    rw [h.takeFrame_pendingAt hlt]
    split
    · rfl
    · exact hn.rest k hk hlt

variable {answer : Option (List UInt8)}
  (halloc : s.allocRxPacket s.tail answer = some s')

include halloc

theorem Sound.refill_bd {k : ℕ} (hk : k + 1 < GEM2_RX_BD_COUNT) :
    s'.bd ((s.tail + (k + 1)) % GEM2_RX_BD_COUNT) =
      s.bd ((s.tail + (k + 1)) % GEM2_RX_BD_COUNT) := by
  have hne := rx_place_ne s.tail hk rx_bd_count_pos (Nat.succ_ne_zero k)
  rw [h.place_zero] at hne
  rw [h.alloc_bd h.tail halloc, if_neg hne]

theorem Sound.refill_pendingAt {k : ℕ} (hk : k + 1 < GEM2_RX_BD_COUNT) :
    ({ s' with tail := (s.tail + 1) % GEM2_RX_BD_COUNT } : RxRing).pendingAt k =
      s.pendingAt (k + 1) := by
  have hne := rx_place_ne s.tail hk rx_bd_count_pos (Nat.succ_ne_zero k)
  rw [h.place_zero] at hne
  apply pendingAt_congr
  · rw [advance_place]
    exact h.refill_bd halloc hk
  · rw [advance_place]
    change s'.pkt _ = _
    rw [h.alloc_pkt h.tail halloc, if_neg hne]
  · intro number hnumber
    exact alloc_buffer halloc (h.number_lt hnumber)

/-- The slot that was filled is the last one and has no frame. -/
theorem Sound.refill_last :
    ({ s' with tail := (s.tail + 1) % GEM2_RX_BD_COUNT } : RxRing).pendingAt
      (GEM2_RX_BD_COUNT - 1) = none := by
  apply pendingAt_of_armed
  rw [advance_place]
  have hlast : (s.tail + (GEM2_RX_BD_COUNT - 1 + 1)) % GEM2_RX_BD_COUNT = s.tail := by
    have htail := h.tail
    simp only [GEM2_RX_BD_COUNT] at *
    omega
  change (s'.bd _).isNew = false
  rw [hlast, h.alloc_bd h.tail halloc, if_pos rfl]

theorem Sound.refill_waiting (hvacant : s.pkt s.tail = none) :
    ({ s' with tail := (s.tail + 1) % GEM2_RX_BD_COUNT } : RxRing).waiting = s.waiting := by
  have hfirst : s.pendingAt 0 = none := by
    apply pendingAt_of_vacant
    rw [h.place_zero, hvacant]
  rw [waiting_eq_last, waiting_eq_first, h.refill_last halloc, hfirst, Option.toList_none,
    List.append_nil, List.nil_append]
  apply List.filterMap_congr
  intro k hk
  have hlt := List.mem_range.mp hk
  exact h.refill_pendingAt halloc (by omega)

theorem Queued.refill (hn : s.Queued n) :
    Queued { s' with tail := (s.tail + 1) % GEM2_RX_BD_COUNT } (n - 1) where
  le := (Nat.sub_le n 1).trans hn.le
  fresh := by
    intro k hk
    have hle := hn.le
    rw [advance_place]
    change (s'.bd _).isNew
    rw [h.refill_bd halloc (by omega)]
    exact hn.fresh (k + 1) (by omega)
  rest := by
    intro k hk hlt
    by_cases hlast : k + 1 < GEM2_RX_BD_COUNT
    · rw [h.refill_pendingAt halloc hlast]
      exact hn.rest (k + 1) (by omega) hlast
    · obtain rfl : k = GEM2_RX_BD_COUNT - 1 := by omega
      exact h.refill_last halloc

end

/-- The loop keeps what is handed over and what waits together in order. While the DMA can write,
it stands behind the frames. -/
theorem Sound.rxTurns_order (h : s.Sound w GEM2_RX_BD_COUNT) (answers : List (Option (List UInt8)))
    (pointer : ℕ) (live : Prop) (hqueued : ∃ n, s.Queued n ∧ (live →
      (s.bd pointer).isNew = false ∧ pointer = (s.tail + n) % GEM2_RX_BD_COUNT)) :
    (∃ n, (s.rxTurns answers).Queued n ∧ (live → ((s.rxTurns answers).bd pointer).isNew = false ∧
      pointer = ((s.rxTurns answers).tail + n) % GEM2_RX_BD_COUNT)) ∧
      (s.rxTurns answers).handed ++ (s.rxTurns answers).waiting = s.handed ++ s.waiting := by
  have hall := rxTurns_invariant (Q := fun s' => s'.Sound w GEM2_RX_BD_COUNT ∧
    (∃ n, s'.Queued n ∧ (live → (s'.bd pointer).isNew = false ∧
      pointer = (s'.tail + n) % GEM2_RX_BD_COUNT)) ∧
    s'.handed ++ s'.waiting = s.handed ++ s.waiting) ?_ ?_ answers ⟨h, hqueued, rfl⟩
  · exact hall.2
  · rintro s₁ ⟨h₁, ⟨n, hn, hlive⟩, horder⟩ hnew
    refine ⟨h₁.takeFrame h₁.tail hnew, ⟨n, hn.takeFrame h₁, ?_⟩,
      (h₁.takeFrame_waiting hnew).trans horder⟩
    rw [takeFrame_tail, takeFrame_bd]
    exact hlive
  · rintro s₁ s₂ answer ⟨h₁, ⟨n, hn, hlive⟩, horder⟩ hnew hvacant halloc
    refine ⟨(h₁.refill h₁.tail hvacant halloc).setTail (Nat.mod_lt _ rx_bd_count_pos),
      ⟨n - 1, hn.refill h₁ halloc, ?_⟩, ?_⟩
    · intro hl
      obtain ⟨harmed, hpointer⟩ := hlive hl
      have hpos : n - 1 + 1 = n := by
        apply Nat.sub_add_cancel
        by_contra hzero
        obtain rfl : n = 0 := by omega
        rw [hpointer, h₁.place_zero, hnew] at harmed
        contradiction
      refine ⟨?_, ?_⟩
      · change (s₂.bd pointer).isNew = false
        rw [h₁.alloc_bd h₁.tail halloc]
        split
        · rfl
        · exact harmed
      · change pointer = ((s₁.tail + 1) % GEM2_RX_BD_COUNT + (n - 1)) % GEM2_RX_BD_COUNT
        rw [advance_place, hpos]
        exact hpointer
    · rw [h₁.refill_waiting halloc hvacant]
      obtain ⟨memory, rfl⟩ := allocRxPacket_eq_some halloc
      exact horder

/-! ### The restart -/

/-- After `n` turns no descriptor of the first `n` slots has a frame. -/
theorem Sound.reinitSlots (h : s.Sound w GEM2_RX_BD_COUNT) (answers : ℕ → Option (List UInt8))
    (n : ℕ) (hn : n ≤ GEM2_RX_BD_COUNT) :
    ((List.range n).foldl (reinitSlot answers) s).Sound w GEM2_RX_BD_COUNT ∧
      ∀ slot < n, ((List.range n).foldl (reinitSlot answers) s).pkt slot = none ∨
        (((List.range n).foldl (reinitSlot answers) s).bd slot).isNew = false := by
  induction n with
  | zero => exact ⟨h, fun slot hslot => absurd hslot (Nat.not_lt_zero slot)⟩
  | succ n ih =>
    obtain ⟨hs, hclean⟩ := ih (Nat.le_of_succ_le hn)
    rw [List.range_succ, List.foldl_append, List.foldl_cons, List.foldl_nil]
    generalize (List.range n).foldl (reinitSlot answers) s = s₁ at hs hclean ⊢
    rw [reinitSlot]
    cases hpkt : s₁.pkt n with
    | none =>
      dsimp only
      cases halloc : s₁.allocRxPacket n (answers n) with
      | none =>
        refine ⟨hs, ?_⟩
        intro slot hslot
        obtain hlt | rfl := Nat.lt_succ_iff_lt_or_eq.mp hslot
        · exact hclean slot hlt
        · exact .inl hpkt
      | some s₂ =>
        refine ⟨hs.refill hn hpkt halloc, ?_⟩
        intro slot hslot
        rw [Option.getD_some, hs.alloc_bd hn halloc, hs.alloc_pkt hn halloc]
        split
        · exact .inr rfl
        · exact hclean slot (by omega)
    | some number =>
      refine ⟨hs.arm hn hpkt, ?_⟩
      intro slot hslot
      have hbd := hs.bd_arm hn number slot
      dsimp only
      rw [hbd]
      split
      · exact .inr rfl
      · exact hclean slot (by omega)

theorem Sound.reinit_order (h : s.Sound w GEM2_RX_BD_COUNT)
    (answers : ℕ → Option (List UInt8)) :
    (s.reinit answers).Queued 0 ∧ (s.reinit answers).waiting = [] := by
  obtain ⟨-, hclean⟩ := h.reinitSlots answers GEM2_RX_BD_COUNT (Nat.le_refl _)
  have hnone : ∀ k < GEM2_RX_BD_COUNT, (s.reinit answers).pendingAt k = none := by
    rw [RxRing.reinit]
    generalize (List.range GEM2_RX_BD_COUNT).foldl (reinitSlot answers) s = s₁ at hclean ⊢
    intro k hk
    obtain hvacant | harmed := hclean ((0 + k) % GEM2_RX_BD_COUNT)
      (Nat.mod_lt _ rx_bd_count_pos)
    · exact pendingAt_of_vacant hvacant
    · exact pendingAt_of_armed harmed
  refine ⟨⟨Nat.zero_le _, fun k hk => absurd hk (Nat.not_lt_zero k), fun k _ => hnone k⟩, ?_⟩
  apply List.filterMap_eq_nil_iff.mpr
  intro k hk
  exact hnone k (List.mem_range.mp hk)

theorem reinit_handed (s : RxRing) (answers : ℕ → Option (List UInt8)) :
    (s.reinit answers).handed = s.handed := by
  refine reinit_invariant (Q := fun s' => s'.handed = s.handed) ?_ ?_ ?_ answers rfl
  · intro s₁ s₂ slot answer hs _ _ halloc
    obtain ⟨memory, rfl⟩ := allocRxPacket_eq_some halloc
    exact hs
  · exact fun s₁ slot number hs _ _ => hs
  · exact fun s₁ hs => hs

/-! ### The DMA -/

section

variable (h : s.Sound w GEM2_RX_BD_COUNT) {slot : ℕ} (hslot : slot < GEM2_RX_BD_COUNT)
  {a : Arrival} (harmed : (s.bd slot).isNew = false) (ha : a.number = (s.bd slot).buffer)

include h hslot harmed ha

theorem Sound.write_pendingAt {n : ℕ} (hn : n < GEM2_RX_BD_COUNT)
    (hplace : slot = (s.tail + n) % GEM2_RX_BD_COUNT) {k : ℕ} (hk : k < GEM2_RX_BD_COUNT) :
    (s.write slot a).pendingAt k = if k = n then some a.delivery else s.pendingAt k := by
  have hpkt := h.pkt_of_armed hslot harmed
  rw [← ha] at hpkt
  split
  · next heq =>
    have hbd := h.write_bd hslot (a := a) slot
    have hbuffer := h.write_buffer hslot harmed ha a.number
    have htail : (s.write slot a).tail = s.tail := rfl
    have hpkt' : (s.write slot a).pkt slot = some a.number := hpkt
    rw [if_pos rfl] at hbd hbuffer
    rw [pendingAt, htail, heq, ← hplace, hbd, if_pos rfl, hpkt', Option.map_some, hbuffer]
    rfl
  · next hne =>
    have hother := rx_place_ne s.tail hk hn hne
    rw [← hplace] at hother
    apply pendingAt_congr
    · change (s.write slot a).bd ((s.tail + k) % _) = _
      rw [h.write_bd hslot, if_neg hother]
    · rfl
    · intro number hnumber
      rw [h.write_buffer hslot harmed ha, if_neg]
      exact h.number_ne hnumber hpkt hother

/-- A frame that arrives is the last to wait. -/
theorem Queued.write {n : ℕ} (hqueued : s.Queued n)
    (hplace : slot = (s.tail + n) % GEM2_RX_BD_COUNT) :
    (s.write slot a).Queued (n + 1) ∧ (s.write slot a).waiting = s.waiting ++ [a.delivery] := by
  have hn : n < GEM2_RX_BD_COUNT := by
    refine Nat.lt_of_le_of_ne hqueued.le ?_
    rintro rfl
    have hfresh := hqueued.fresh 0 rx_bd_count_pos
    rw [Nat.add_mod_right, Nat.mod_eq_of_lt h.tail] at hplace
    rw [h.place_zero, ← hplace, harmed] at hfresh
    contradiction
  have hpending := fun k hk => h.write_pendingAt hslot harmed ha hn hplace (k := k) hk
  refine ⟨⟨hn, ?_, ?_⟩, ?_⟩
  · intro k hk
    change ((s.write slot a).bd ((s.tail + k) % _)).isNew
    rw [h.write_bd hslot]
    split
    · rfl
    · next hne =>
      apply hqueued.fresh k
      refine Nat.lt_of_le_of_ne (Nat.le_of_lt_succ hk) ?_
      rintro rfl
      exact hne hplace.symm
  · intro k hk hlt
    rw [hpending k hlt, if_neg (by omega)]
    exact hqueued.rest k (Nat.le_of_succ_le hk) hlt
  · -- behind the place of the frame there is none
    have hsplit : List.range GEM2_RX_BD_COUNT = List.range n ++ List.range' n
        (GEM2_RX_BD_COUNT - n) := by
      rw [List.range_eq_range', List.range_eq_range']
      nth_rewrite 1 [← Nat.add_sub_cancel' hqueued.le]
      rw [← List.range'_append_1, Nat.zero_add]
    have hsucc : GEM2_RX_BD_COUNT - n = GEM2_RX_BD_COUNT - n - 1 + 1 := by omega
    have hbefore : ∀ k ∈ List.range n, (s.write slot a).pendingAt k = s.pendingAt k := by
      intro k hk
      have hlt := List.mem_range.mp hk
      rw [hpending k (by omega), if_neg (by omega)]
    have hself := hpending n hn
    rw [if_pos rfl] at hself
    have hafter : ((List.range' (n + 1) (GEM2_RX_BD_COUNT - n - 1)).filterMap
        (s.write slot a).pendingAt) = [] := by
      apply List.filterMap_eq_nil_iff.mpr
      intro k hk
      have hk' := List.mem_range'_1.mp hk
      rw [hpending k (by omega), if_neg (by omega)]
      exact hqueued.rest k (by omega) (by omega)
    have hnone : (List.range' n (GEM2_RX_BD_COUNT - n)).filterMap s.pendingAt = [] := by
      apply List.filterMap_eq_nil_iff.mpr
      intro k hk
      have hk' := List.mem_range'_1.mp hk
      exact hqueued.rest k (by omega) (by omega)
    rw [waiting, waiting, hsplit, List.filterMap_append, List.filterMap_append, hnone,
      List.append_nil, List.filterMap_congr hbefore, hsucc, List.range'_succ,
      List.filterMap_cons_some hself, hafter]

end

end RxRing

/-! ### Runs -/

namespace Link

/-- The DMA stands behind the frames that wait, or is halted. -/
def Stands (s : RxRing) (pointer : ℕ) : Prop :=
  ∃ n, s.Queued n ∧ ((s.bd pointer).isNew = false → pointer = (s.tail + n) % GEM2_RX_BD_COUNT)

structure HandsOver (l : Link) : Prop where
  receives : l.Receives
  stands : Stands l.rx l.rxPointer
  order : (l.rx.handed ++ l.rx.waiting).Sublist (l.written.map Arrival.delivery)
  complete : l.restarts = 0 → l.rx.handed ++ l.rx.waiting = l.written.map Arrival.delivery

/-- An interrupt that reports frames while the DMA is halted reports that, too. -/
def HeardOp (l : Link) : Op → Prop
  | .irq isr _ => (l.rx.bd l.rxPointer).isNew →
      isr &&& (XEMACPS_IXR_FRAMERX_MASK ||| XEMACPS_IXR_RXUSED_MASK) ≠ 0 →
      isr &&& XEMACPS_IXR_RXUSED_MASK ≠ 0
  | _ => True

instance HeardOp.decidable (l : Link) : ∀ op, Decidable (HeardOp l op)
  | .irq isr _ => inferInstanceAs (Decidable ((l.rx.bd l.rxPointer).isNew →
      isr &&& (XEMACPS_IXR_FRAMERX_MASK ||| XEMACPS_IXR_RXUSED_MASK) ≠ 0 →
      isr &&& XEMACPS_IXR_RXUSED_MASK ≠ 0))
  | .send _ | .deferredProcessing | .setTraceActive _ | .pollTx _ | .pollRx | .pollLink _
  | .transmit | .receive _ _ _ => isTrue trivial

variable {l : Link}

/-- The stall recovery puts the DMA behind the frames, or on a descriptor that is new. -/
theorem stands_tail {s : RxRing} {n : ℕ} (hn : s.Queued n) (htail : s.tail < GEM2_RX_BD_COUNT) :
    Stands s s.tail := by
  refine ⟨n, hn, ?_⟩
  intro harmed
  have hzero : n = 0 := by
    by_contra hne
    have hfresh := hn.fresh 0 (Nat.pos_of_ne_zero hne)
    rw [Nat.add_zero, Nat.mod_eq_of_lt htail, harmed] at hfresh
    contradiction
  rw [hzero, Nat.add_zero, Nat.mod_eq_of_lt htail]

theorem HandsOver.fullReinit (h : l.HandsOver) (answers : ℕ → Option (List UInt8)) :
    (l.fullReinit answers).HandsOver := by
  obtain ⟨hqueued, hwaiting⟩ := h.receives.ring.reinit_order answers
  refine ⟨h.receives.fullReinit answers, ⟨0, hqueued, fun _ => rfl⟩, ?_, ?_⟩
  · change ((l.rx.reinit answers).handed ++ (l.rx.reinit answers).waiting).Sublist _
    rw [hwaiting, List.append_nil, RxRing.reinit_handed]
    exact (List.sublist_append_left l.rx.handed l.rx.waiting).trans h.order
  · intro hnone
    exact absurd hnone (Nat.succ_ne_zero l.restarts)

theorem HandsOver.rxStallRecover (h : l.HandsOver) : l.rxStallRecover.HandsOver := by
  obtain ⟨n, hn, -⟩ := h.stands
  exact ⟨h.receives.rxStallRecover, stands_tail hn h.receives.ring.tail, h.order, h.complete⟩

/-- `gem2_rx_process` in an interrupt that reports the halt, or while there is none. -/
theorem HandsOver.process (h : l.HandsOver) (answers : ℕ → Option (List UInt8)) :
    (∃ n, (rxProcess l.rx answers).Queued n ∧ ((l.rx.bd l.rxPointer).isNew = false →
        l.rxPointer = ((rxProcess l.rx answers).tail + n) % GEM2_RX_BD_COUNT)) ∧
      ((rxProcess l.rx answers).handed ++ (rxProcess l.rx answers).waiting).Sublist
        (l.written.map Arrival.delivery) ∧
      (l.restarts = 0 → (rxProcess l.rx answers).handed ++ (rxProcess l.rx answers).waiting =
        l.written.map Arrival.delivery) := by
  obtain ⟨n, hn, hpointer⟩ := h.stands
  obtain ⟨⟨n', hn', hlive⟩, horder⟩ := h.receives.ring.rxTurns_order
    ((List.range GEM2_RX_BD_COUNT).map answers) l.rxPointer
    ((l.rx.bd l.rxPointer).isNew = false)
    ⟨n, hn, fun harmed => ⟨harmed, hpointer harmed⟩⟩
  have hsub := h.order
  have hcomplete := h.complete
  rw [← horder] at hsub hcomplete
  exact ⟨⟨n', hn', fun harmed => (hlive harmed).2⟩, hsub, hcomplete⟩

theorem HandsOver.irqHandler (h : l.HandsOver) (isr : UInt32)
    (answers : ℕ → Option (List UInt8)) (hop : HeardOp l (.irq isr answers)) :
    (l.irqHandler isr answers).HandsOver := by
  have hreceives := h.receives.irqHandler isr answers
  obtain ⟨⟨n, hn, hlive⟩, hsub, hcomplete⟩ := h.process answers
  have htail : (rxProcess l.rx answers).tail < GEM2_RX_BD_COUNT :=
    (h.receives.ring.rxTurns _).tail
  rw [Link.irqHandler] at hreceives ⊢
  dsimp only at hreceives ⊢
  by_cases hframes : isr &&& (XEMACPS_IXR_FRAMERX_MASK ||| XEMACPS_IXR_RXUSED_MASK) ≠ 0
  · rw [if_pos hframes] at hreceives ⊢
    by_cases hused : isr &&& XEMACPS_IXR_RXUSED_MASK ≠ 0
    · rw [if_pos hused] at hreceives ⊢
      exact ⟨hreceives, stands_tail hn htail, hsub, hcomplete⟩
    · rw [if_neg hused] at hreceives ⊢
      have harmed : (l.rx.bd l.rxPointer).isNew = false :=
        Bool.eq_false_iff.mpr fun hnew => hused (hop hnew hframes)
      exact ⟨hreceives, ⟨n, hn, fun _ => hlive harmed⟩, hsub, hcomplete⟩
  · rw [if_neg hframes] at hreceives ⊢
    have hskip : HandsOver { l with isrCalls := l.isrCalls + 1 } :=
      ⟨⟨h.receives.ring, h.receives.pointer, h.receives.genuine⟩, h.stands, h.order, h.complete⟩
    split
    · exact hskip.rxStallRecover
    · exact hskip

theorem HandsOver.pollTx (h : l.HandsOver) (answers : ℕ → Option (List UInt8)) :
    (l.pollTx answers).HandsOver := by
  have hpoll : ∀ poll, HandsOver { l with txPoll := poll } := fun _ =>
    ⟨⟨h.receives.ring, h.receives.pointer, h.receives.genuine⟩, h.stands, h.order, h.complete⟩
  rw [Link.pollTx]
  dsimp only
  split
  · exact hpoll _
  · exact ⟨⟨h.receives.ring, h.receives.pointer, h.receives.genuine⟩, h.stands, h.order,
      h.complete⟩
  · exact (hpoll _).fullReinit answers

theorem HandsOver.pollRx (h : l.HandsOver) : l.pollRx.HandsOver := by
  have hpoll : ∀ poll, HandsOver { l with rxPoll := poll } := fun _ =>
    ⟨⟨h.receives.ring, h.receives.pointer, h.receives.genuine⟩, h.stands, h.order, h.complete⟩
  rw [Link.pollRx]
  dsimp only
  split
  · exact hpoll _
  · exact (hpoll _).rxStallRecover

theorem HandsOver.pollLink (h : l.HandsOver) (answers : ℕ → Option (List UInt8)) :
    (l.pollLink answers).HandsOver := by
  have hpoll : ∀ poll, HandsOver { l with linkPoll := poll } := fun _ =>
    ⟨⟨h.receives.ring, h.receives.pointer, h.receives.genuine⟩, h.stands, h.order, h.complete⟩
  rw [Link.pollLink]
  dsimp only
  split
  · exact hpoll _
  · exact (hpoll _).fullReinit answers

theorem HandsOver.transmit (h : l.HandsOver) : l.transmit.HandsOver := by
  rw [Link.transmit]
  split
  · exact h
  · exact ⟨⟨h.receives.ring, h.receives.pointer, h.receives.genuine⟩, h.stands, h.order,
      h.complete⟩

/-- The DMA goes on to the next slot, from the last one to the first. -/
theorem next_rxPointer {w : List Arrival} (h : l.rx.Sound w GEM2_RX_BD_COUNT)
    (hpointer : l.rxPointer < GEM2_RX_BD_COUNT) :
    (if (l.rx.bd l.rxPointer).wrap then 0 else l.rxPointer + 1) =
      (l.rxPointer + 1) % GEM2_RX_BD_COUNT := by
  split
  · next hwrap =>
    rw [h.last l.rxPointer hwrap]
    rfl
  · next hwrap =>
    have hlast := mt (h.linked l.rxPointer hpointer).wrap hwrap
    rw [Nat.mod_eq_of_lt]
    simp only [GEM2_RX_BD_COUNT] at *
    omega

theorem HandsOver.receive (h : l.HandsOver) (pad : UInt8 × UInt8) (frame : List UInt8)
    (flags : UInt32) : (l.receive pad frame flags).HandsOver := by
  have hreceives := h.receives.receive pad frame flags
  obtain ⟨n, hn, hpointer⟩ := h.stands
  rw [Link.receive] at hreceives ⊢
  dsimp only at hreceives ⊢
  split
  · exact h
  · next hwrites =>
    rw [if_neg hwrites] at hreceives
    rw [not_or] at hwrites
    have harmed := Bool.eq_false_iff.mpr hwrites.1
    have hplace := hpointer harmed
    obtain ⟨hqueued, hwaiting⟩ := hn.write h.receives.ring h.receives.pointer harmed
      (a := l.arrival pad frame flags) rfl hplace
    refine ⟨hreceives, ⟨n + 1, hqueued, ?_⟩, ?_, ?_⟩
    · intro _
      have hnext := next_rxPointer h.receives.ring h.receives.pointer
      change _ = (l.rx.tail + (n + 1)) % GEM2_RX_BD_COUNT
      rw [hnext, hplace, Nat.mod_add_mod, Nat.add_assoc]
    · dsimp only
      rw [hwaiting, List.map_append, ← List.append_assoc]
      exact h.order.append_right _
    · intro hnone
      dsimp only
      rw [hwaiting, List.map_append, ← h.complete hnone, List.append_assoc]
      rfl

theorem HandsOver.step (h : l.HandsOver) (op : Op) (hop : HeardOp l op) :
    (l.step op).HandsOver := by
  have hsame : ∀ {l' : Link}, l'.rx = l.rx → l'.rxPointer = l.rxPointer →
      l'.written = l.written → l'.restarts = l.restarts → l'.HandsOver := by
    intro l' hrx hpointer hwritten hrestarts
    refine ⟨⟨?_, ?_, ?_⟩, ?_, ?_, ?_⟩
    · rw [hrx, hwritten]
      exact h.receives.ring
    · rw [hpointer]
      exact h.receives.pointer
    · rw [hwritten]
      exact h.receives.genuine
    · rw [hrx, hpointer]
      exact h.stands
    · rw [hrx, hwritten]
      exact h.order
    · rw [hrx, hwritten, hrestarts]
      exact h.complete
  cases op with
  | send r => exact hsame rfl rfl rfl rfl
  | deferredProcessing => exact hsame rfl rfl rfl rfl
  | irq isr answers => exact h.irqHandler isr answers hop
  | setTraceActive active => exact hsame rfl rfl rfl rfl
  | pollTx answers => exact h.pollTx answers
  | pollRx => exact h.pollRx
  | pollLink answers => exact h.pollLink answers
  | transmit => exact h.transmit
  | receive pad frame flags => exact h.receive pad frame flags

theorem handsOver_start {answers : ℕ → Option (List UInt8)} (hl : start answers = some l) :
    l.HandsOver := by
  have hreceives := receives_start hl
  obtain ⟨rx, hrx, rfl⟩ := Option.map_eq_some_iff.mp hl
  have hring : rx.Sound [] GEM2_RX_BD_COUNT := hreceives.ring
  -- nothing has been written, so no slot has a frame
  have hnone : ∀ k < GEM2_RX_BD_COUNT, rx.pendingAt k = none := by
    intro k hk
    have hslot : (rx.tail + k) % GEM2_RX_BD_COUNT < GEM2_RX_BD_COUNT :=
      Nat.mod_lt _ rx_bd_count_pos
    cases hpkt : rx.pkt ((rx.tail + k) % GEM2_RX_BD_COUNT) with
    | none => exact RxRing.pendingAt_of_vacant hpkt
    | some number =>
      cases hnew : (rx.bd ((rx.tail + k) % GEM2_RX_BD_COUNT)).isNew with
      | false => exact RxRing.pendingAt_of_armed hnew
      | true =>
        obtain ⟨a, ha, -⟩ := (hring.linked _ hslot).waiting number hpkt hnew
        contradiction
  have hhanded : rx.handed = [] := by
    apply List.eq_nil_iff_forall_not_mem.mpr
    intro d hd
    obtain ⟨a, ha, -⟩ := hring.handed d hd
    contradiction
  have hwaiting : rx.waiting = [] := by
    apply List.filterMap_eq_nil_iff.mpr
    intro k hk
    exact hnone k (List.mem_range.mp hk)
  have hempty : rx.handed ++ rx.waiting = [] := by
    rw [hhanded, hwaiting]
    rfl
  have htail := rxInitialize_tail hrx
  refine ⟨hreceives, ⟨0, ⟨Nat.zero_le _, ?_, fun k _ => hnone k⟩, ?_⟩, ?_, fun _ => hempty⟩
  · exact fun k hk => absurd hk (Nat.not_lt_zero k)
  · intro _
    change 0 = (rx.tail + 0) % GEM2_RX_BD_COUNT
    rw [htail]
    rfl
  · change (rx.handed ++ rx.waiting).Sublist _
    rw [hempty]
    exact List.nil_sublist _

/-- Packets are handed over in the order in which their frames arrived. Only a restart loses
some. -/
theorem handed_order {answers : ℕ → Option (List UInt8)} (hl : start answers = some l)
    {ops : List Op} (hops : Follows HeardOp l ops) :
    ((l.run ops).rx.handed ++ (l.run ops).rx.waiting).Sublist
        ((l.run ops).written.map Arrival.delivery) ∧
      ((l.run ops).restarts = 0 → (l.run ops).rx.handed ++ (l.run ops).rx.waiting =
        (l.run ops).written.map Arrival.delivery) := by
  have h : (l.run ops).HandsOver :=
    run_follows (fun l op hop h => h.step op hop) hops (handsOver_start hl)
  exact ⟨h.order, h.complete⟩

/-- The DMA fills the ring and is halted. One more frame is lost, and the one that comes when there
is room again waits. -/
def fillRing : List Op :=
  (List.range 65).map (fun k =>
    .receive (0, 0) (frameFrom (UInt8.ofNat k) 0 [UInt8.ofNat k]) 0) ++
  [.irq 6 fun _ => some [], .receive (0, 0) (frameFrom 77 6 [1, 2]) 0]

theorem handed_order_frame :
    (fresh.run fillRing).rx.handed.map Delivery.data =
        (List.range 64).map (fun k => [UInt8.ofNat k]) ∧
      (fresh.run fillRing).rx.waiting = [⟨64, 2, [1, 2], .arp⟩] ∧
      ((fresh.run fillRing).rx.handed ++ (fresh.run fillRing).rx.waiting).Sublist
        ((fresh.run fillRing).written.map Arrival.delivery) ∧
      (fresh.run fillRing).rx.handed ++ (fresh.run fillRing).rx.waiting =
        (fresh.run fillRing).written.map Arrival.delivery := by
  have hops : Follows HeardOp fresh fillRing := by decide +kernel
  obtain ⟨horder, hcomplete⟩ := handed_order start_fresh hops
  exact ⟨by decide +kernel, by decide +kernel, horder, hcomplete (by decide +kernel)⟩

end Link

end Gem2
