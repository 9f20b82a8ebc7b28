import Zub1cg.Library.RingIndex
import Zub1cg.Library.Slots
import Zub1cg.Firmware.Gem2.Frames

/-!
# What becomes of a packet to send

A packet that NetX gives to the driver is given back once, and its frame is sent at most once.
The frames are sent in order, also when a watchdog moves the DMA to the tail, as long as no frame
is put under a DMA that was left behind.

## Main definitions

- `TxRing.Sound` — the ring, between two functions of the driver
- `TxRing.waiting` — the frames that are not sent yet, in order

## Main results

- `TxRing.Sound` — which slots are in flight, and that only these are armed
- `TxRing.Sound.publish`, `TxRing.Sound.retire`, `TxRing.Sound.reinit` — the driver keeps it
-/

namespace Gem2

/-- The frame of a descriptor that is not used. -/
def TxDescriptor.pending (bd : TxDescriptor) : Option (List UInt8) :=
  if bd.used then none else some bd.frame

namespace TxRing

/-- The slots in flight are the `count` slots from the tail on: they have a packet, the others
do not, and only they can have a descriptor that is not used. -/
structure Sound (s : TxRing) : Prop where
  bds : s.bds.length = GEM2_TX_BD_COUNT
  pkts : s.pkts.length = GEM2_TX_BD_COUNT
  tail : s.tail < GEM2_TX_BD_COUNT
  count : s.count ≤ GEM2_TX_BD_COUNT
  head : s.head = (s.tail + s.count) % GEM2_TX_BD_COUNT
  held : ∀ k < GEM2_TX_BD_COUNT,
    (s.pkt ((s.tail + k) % GEM2_TX_BD_COUNT)).isSome ↔ k < s.count
  armed : ∀ k < GEM2_TX_BD_COUNT,
    (s.bd ((s.tail + k) % GEM2_TX_BD_COUNT)).used = false → k < s.count
  wrap : ∀ slot < GEM2_TX_BD_COUNT, (s.bd slot).wrap = decide (slot = GEM2_TX_BD_COUNT - 1)

theorem slot_lt (k : ℕ) : k % GEM2_TX_BD_COUNT < GEM2_TX_BD_COUNT := Nat.mod_lt _ (by decide)

/-- Every slot is some places behind the tail. -/
theorem exists_place {tail slot : ℕ} (htail : tail < GEM2_TX_BD_COUNT)
    (hslot : slot < GEM2_TX_BD_COUNT) :
    ∃ k < GEM2_TX_BD_COUNT, (tail + k) % GEM2_TX_BD_COUNT = slot := by
  simp only [GEM2_TX_BD_COUNT] at *
  obtain hlt | hle := Nat.lt_or_ge slot tail
  · exact ⟨slot + 64 - tail, by omega, by omega⟩
  · exact ⟨slot - tail, by omega, by omega⟩

/-- Different places have different slots. -/
theorem place_ne (tail : ℕ) {j k : ℕ} (hj : j < GEM2_TX_BD_COUNT)
    (hk : k < GEM2_TX_BD_COUNT) (hne : j ≠ k) :
    (tail + j) % GEM2_TX_BD_COUNT ≠ (tail + k) % GEM2_TX_BD_COUNT :=
  RingIndex.mod_ne_of_ne (c := tail) (by omega) (by omega) (by omega) (by omega) (by omega)

variable {s : TxRing}

theorem getElem?_pkts (hpkts : s.pkts.length = GEM2_TX_BD_COUNT) {slot : ℕ}
    (hslot : slot < GEM2_TX_BD_COUNT) : s.pkts[slot]? = some (s.pkt slot) := by
  rw [pkt, List.getD_eq_getElem?_getD, List.getElem?_eq_getElem (by rwa [hpkts])]
  rfl

theorem Sound.bd_set (h : s.Sound) {slot : ℕ} (hslot : slot < GEM2_TX_BD_COUNT)
    (bd : TxDescriptor) (i : ℕ) :
    (s.bds.set slot bd).getD i default = if i = slot then bd else s.bd i :=
  Slots.getD_set _ (by rwa [h.bds]) _ _ _

theorem pkt_set (hpkts : s.pkts.length = GEM2_TX_BD_COUNT) {slot : ℕ}
    (hslot : slot < GEM2_TX_BD_COUNT) (pkt : Option ℕ) (i : ℕ) :
    (s.pkts.set slot pkt).getD i none = if i = slot then pkt else s.pkt i :=
  Slots.getD_set _ (by rwa [hpkts]) _ _ _

/-! ### Sending -/

theorem Sound.head_lt (h : s.Sound) : s.head < GEM2_TX_BD_COUNT := h.head ▸ slot_lt _

section

variable (number : ℕ) (data : List UInt8) (total : ℕ)

theorem Sound.publish_bd (h : s.Sound) (i : ℕ) : (s.publish number data total).bd i =
    if i = s.head then ⟨data, armedStatus total s.head⟩ else s.bd i :=
  h.bd_set h.head_lt _ i

theorem Sound.publish_pkt (h : s.Sound) (i : ℕ) : (s.publish number data total).pkt i =
    if i = s.head then some number else s.pkt i :=
  pkt_set h.pkts h.head_lt _ i

/-- The head is at place `count`. -/
theorem Sound.place_eq_head (h : s.Sound) (hroom : s.count < GEM2_TX_BD_COUNT) {k : ℕ}
    (hk : k < GEM2_TX_BD_COUNT) : (s.tail + k) % GEM2_TX_BD_COUNT = s.head ↔ k = s.count := by
  rw [h.head]
  constructor
  · intro hsame
    by_contra hne
    exact place_ne _ hk hroom hne hsame
  · rintro rfl
    rfl

theorem Sound.publish (h : s.Sound) (hroom : s.count < GEM2_TX_BD_COUNT) :
    (s.publish number data total).Sound where
  bds := (List.length_set ..).trans h.bds
  pkts := (List.length_set ..).trans h.pkts
  tail := h.tail
  count := hroom
  head := by
    change (s.head + 1) % _ = (s.tail + (s.count + 1)) % _
    rw [h.head, Nat.mod_add_mod, Nat.add_assoc]
  held := by
    intro k hk
    change ((s.publish number data total).pkt _).isSome ↔ k < s.count + 1
    rw [h.publish_pkt]
    have hplace := h.place_eq_head hroom hk
    split
    · next heq => exact ⟨fun _ => by have := hplace.mp heq; omega, fun _ => rfl⟩
    · next hne =>
      have hother := mt hplace.mpr hne
      exact (h.held k hk).trans (by omega)
  armed := by
    intro k hk harmed
    change k < s.count + 1
    change ((s.publish number data total).bd ((s.tail + k) % GEM2_TX_BD_COUNT)).used = false
      at harmed
    rw [h.publish_bd] at harmed
    have hplace := h.place_eq_head hroom hk
    split at harmed
    · next heq => have := hplace.mp heq; omega
    · have := h.armed k hk harmed
      omega
  wrap := by
    intro slot hslot
    rw [h.publish_bd]
    split
    · next heq => rw [armed_wrap, heq]
    · exact h.wrap slot hslot

end

/-! ### Giving packets back -/

theorem releaseSlot_bds (s : TxRing) (slot : ℕ) : (s.releaseSlot slot).bds = s.bds := by
  rw [releaseSlot]
  split <;> rfl

theorem releaseSlot_length (s : TxRing) (slot : ℕ) :
    (s.releaseSlot slot).pkts.length = s.pkts.length := by
  rw [releaseSlot]
  split
  · exact List.length_set
  · rfl

theorem releaseSlot_pkt (hpkts : s.pkts.length = GEM2_TX_BD_COUNT) {slot : ℕ}
    (hslot : slot < GEM2_TX_BD_COUNT) (i : ℕ) :
    (s.releaseSlot slot).pkt i = if i = slot then none else s.pkt i := by
  rw [releaseSlot]
  cases hpkt : s.pkt slot with
  | none =>
    dsimp only
    split
    · next heq => rw [heq, hpkt]
    · rfl
  | some number => exact pkt_set hpkts hslot none i

/-- The packets given back and those in the slots. -/
def custody (s : TxRing) : List ℕ := s.released ++ Slots.held s.pkts

theorem custody_releaseSlot (hpkts : s.pkts.length = GEM2_TX_BD_COUNT) {slot : ℕ}
    (hslot : slot < GEM2_TX_BD_COUNT) : (s.releaseSlot slot).custody.Perm s.custody := by
  rw [releaseSlot]
  cases hpkt : s.pkt slot with
  | none => exact List.Perm.refl _
  | some number =>
    have hswap := Slots.perm_set s.pkts slot (some number) none
      ((getElem?_pkts hpkts hslot).trans (congrArg some hpkt))
    change (s.released ++ [number] ++ Slots.held (s.pkts.set slot none)).Perm _
    rw [List.append_assoc]
    exact hswap.append_left _

theorem custody_release (s : TxRing) (number : ℕ) :
    (s.release number).custody.Perm (s.custody ++ [number]) := by
  change (s.released ++ [number] ++ Slots.held s.pkts).Perm
    (s.released ++ Slots.held s.pkts ++ [number])
  rw [List.append_assoc, List.append_assoc]
  exact List.perm_append_comm.append_left _

theorem Sound.vacant_head (h : s.Sound) (hroom : s.count < GEM2_TX_BD_COUNT) :
    s.pkt s.head = none := by
  have hheld := (h.held s.count hroom).mp
  rw [← h.head] at hheld
  exact Option.not_isSome_iff_eq_none.mp fun hsome => Nat.lt_irrefl _ (hheld hsome)

theorem Sound.custody_publish (h : s.Sound) (hroom : s.count < GEM2_TX_BD_COUNT) (number : ℕ)
    (data : List UInt8) (total : ℕ) :
    (s.publish number data total).custody.Perm (s.custody ++ [number]) := by
  have hswap := Slots.perm_set s.pkts s.head none (some number)
    ((getElem?_pkts h.pkts h.head_lt).trans (congrArg some (h.vacant_head hroom)))
  change (s.released ++ Slots.held (s.pkts.set s.head (some number))).Perm
    (s.released ++ Slots.held s.pkts ++ [number])
  rw [List.append_assoc]
  exact (hswap.trans (List.perm_append_singleton _ _).symm).append_left _

theorem retire_bd (s : TxRing) (i : ℕ) : s.retire.bd i = s.bd i := by
  change (s.releaseSlot s.tail).bds.getD i default = _
  rw [releaseSlot_bds]
  rfl

theorem Sound.retire_pkt (h : s.Sound) (i : ℕ) :
    s.retire.pkt i = if i = s.tail then none else s.pkt i :=
  releaseSlot_pkt h.pkts h.tail i

/-- The places move up by one. -/
theorem retire_place (s : TxRing) (k : ℕ) :
    (s.retire.tail + k) % GEM2_TX_BD_COUNT = (s.tail + (k + 1)) % GEM2_TX_BD_COUNT := by
  change ((s.tail + 1) % GEM2_TX_BD_COUNT + k) % GEM2_TX_BD_COUNT = _
  rw [Nat.mod_add_mod, Nat.add_right_comm, Nat.add_assoc]

theorem Sound.place_zero (h : s.Sound) : (s.tail + 0) % GEM2_TX_BD_COUNT = s.tail :=
  Nat.mod_eq_of_lt h.tail

/-- The last place is the old tail. -/
theorem Sound.place_last (h : s.Sound) {k : ℕ} (hk : k < GEM2_TX_BD_COUNT)
    (hlast : ¬ k + 1 < GEM2_TX_BD_COUNT) :
    (s.tail + (k + 1)) % GEM2_TX_BD_COUNT = s.tail := by
  have htail := h.tail
  simp only [GEM2_TX_BD_COUNT] at *
  omega

theorem Sound.retire (h : s.Sound) (hcount : 0 < s.count) (hused : (s.bd s.tail).used) :
    s.retire.Sound where
  bds := (congrArg List.length (releaseSlot_bds s s.tail)).trans h.bds
  pkts := (releaseSlot_length s s.tail).trans h.pkts
  tail := slot_lt _
  count := (Nat.sub_le _ _).trans h.count
  head := by
    have hhead : s.retire.head = s.head := by
      change (s.releaseSlot s.tail).head = s.head
      rw [releaseSlot]
      split <;> rfl
    rw [hhead, retire_place, h.head]
    change _ = (s.tail + (s.count - 1 + 1)) % GEM2_TX_BD_COUNT
    rw [Nat.sub_add_cancel hcount]
  held := by
    intro k hk
    change _ ↔ k < s.count - 1
    rw [retire_place, h.retire_pkt]
    by_cases hlast : k + 1 < GEM2_TX_BD_COUNT
    · have hne := place_ne s.tail hlast (Nat.zero_lt_of_lt hk) (Nat.succ_ne_zero k)
      rw [h.place_zero] at hne
      rw [if_neg hne]
      exact (h.held (k + 1) hlast).trans (by omega)
    · have hcount' := h.count
      rw [if_pos (h.place_last hk hlast)]
      exact ⟨fun hsome => absurd hsome Bool.false_ne_true, fun hlt => by omega⟩
  armed := by
    intro k hk harmed
    change k < s.count - 1
    rw [retire_place, retire_bd] at harmed
    by_cases hlast : k + 1 < GEM2_TX_BD_COUNT
    · have := h.armed (k + 1) hlast harmed
      omega
    · rw [h.place_last hk hlast, hused] at harmed
      contradiction
  wrap := by
    intro slot hslot
    rw [retire_bd]
    exact h.wrap slot hslot

theorem Sound.custody_retire (h : s.Sound) : s.retire.custody.Perm s.custody :=
  custody_releaseSlot h.pkts h.tail

/-- What retiring the tail preserves, `gem2_tx_cleanup` preserves. -/
theorem Sound.txCleanup_invariant {Q : TxRing → Prop} (hretire : ∀ s : TxRing, s.Sound → Q s →
      0 < s.count → (s.bd s.tail).used → Q s.retire) (h : s.Sound) (hs : Q s) :
    (txCleanup s).Sound ∧ Q (txCleanup s) := by
  have hloop : ∀ (n : ℕ) (s : TxRing), s.Sound → Q s → n ≤ s.count →
      (s.cleanupFrom n).Sound ∧ Q (s.cleanupFrom n) := by
    intro n
    induction n with
    | zero => exact fun s h hs _ => ⟨h, hs⟩
    | succ n ih =>
      intro s h hs hn
      rw [cleanupFrom]
      split
      · next hused =>
        have hcount : 0 < s.count := Nat.lt_of_lt_of_le (Nat.succ_pos n) hn
        exact ih s.retire (h.retire hcount hused) (hretire s h hs hcount hused)
          (Nat.le_sub_one_of_lt hn)
      · exact ⟨h, hs⟩
  exact hloop s.count s h hs (Nat.le_refl _)

/-! ### The restart -/

theorem idleBds_getD {slot : ℕ} (hslot : slot < GEM2_TX_BD_COUNT) :
    idleBds.getD slot default = ⟨[], XEMACPS_TXBUF_USED_MASK ||| wrapBit slot⟩ := by
  rw [idleBds, List.getD_eq_getElem?_getD, List.getElem?_map, List.getElem?_range hslot]
  rfl

theorem idle_used (slot : ℕ) :
    (⟨[], XEMACPS_TXBUF_USED_MASK ||| wrapBit slot⟩ : TxDescriptor).used = true := by
  rw [TxDescriptor.used, wrapBit]
  split <;> decide

theorem idle_wrap (slot : ℕ) :
    (⟨[], XEMACPS_TXBUF_USED_MASK ||| wrapBit slot⟩ : TxDescriptor).wrap =
      decide (slot = GEM2_TX_BD_COUNT - 1) := by
  rw [TxDescriptor.wrap, wrapBit]
  split
  · next h =>
    rw [decide_eq_true h]
    decide
  · next h =>
    rw [decide_eq_false h]
    decide

/-- An empty ring whose descriptors are idle. -/
theorem sound_idle (hbds : s.bds = idleBds) (hpkts : s.pkts.length = GEM2_TX_BD_COUNT)
    (hempty : ∀ slot < GEM2_TX_BD_COUNT, s.pkt slot = none) (hhead : s.head = 0)
    (htail : s.tail = 0) (hcount : s.count = 0) : s.Sound where
  bds := by
    rw [hbds, idleBds, List.length_map, List.length_range]
  pkts := hpkts
  tail := by
    rw [htail]
    decide
  count := by
    rw [hcount]
    decide
  head := by
    rw [hhead, htail, hcount]
    rfl
  held := by
    intro k hk
    rw [hempty _ (slot_lt _), hcount]
    exact ⟨fun h => absurd h Bool.false_ne_true, fun h => absurd h (Nat.not_lt_zero k)⟩
  armed := by
    intro k hk harmed
    rw [bd, hbds, idleBds_getD (slot_lt _), idle_used] at harmed
    contradiction
  wrap := by
    intro slot hslot
    rw [bd, hbds, idleBds_getD hslot, idle_wrap]

/-- After `n` turns of the loop the first `n` slots are empty. -/
theorem releaseSlots (hpkts : s.pkts.length = GEM2_TX_BD_COUNT) (n : ℕ)
    (hn : n ≤ GEM2_TX_BD_COUNT) :
    ((List.range n).foldl releaseSlot s).pkts.length = GEM2_TX_BD_COUNT ∧
      (∀ slot < n, ((List.range n).foldl releaseSlot s).pkt slot = none) ∧
      ((List.range n).foldl releaseSlot s).custody.Perm s.custody := by
  induction n with
  | zero =>
    refine ⟨hpkts, ?_, List.Perm.refl _⟩
    intro slot hslot
    contradiction
  | succ n ih =>
    obtain ⟨hlength, hempty, hcustody⟩ := ih (Nat.le_of_succ_le hn)
    rw [List.range_succ, List.foldl_append, List.foldl_cons, List.foldl_nil]
    refine ⟨(releaseSlot_length _ n).trans hlength, ?_,
      (custody_releaseSlot hlength hn).trans hcustody⟩
    intro slot hslot
    rw [releaseSlot_pkt hlength hn]
    split
    · rfl
    · exact hempty slot (by omega)

theorem Sound.reinit (h : s.Sound) :
    s.reinit.Sound ∧ s.reinit.custody.Perm s.custody := by
  have hreleased := releaseSlots h.pkts GEM2_TX_BD_COUNT (Nat.le_refl _)
  rw [TxRing.reinit]
  generalize (List.range GEM2_TX_BD_COUNT).foldl releaseSlot s = s' at hreleased ⊢
  obtain ⟨hlength, hempty, hcustody⟩ := hreleased
  exact ⟨sound_idle rfl hlength hempty rfl rfl rfl, hcustody⟩

section

variable {slot : ℕ} (hslot : slot < GEM2_TX_BD_COUNT)

include hslot

theorem Sound.markUsed_bd (h : s.Sound) (i : ℕ) : (s.markUsed slot).bd i = if i = slot then
    { s.bd slot with status := (s.bd slot).status ||| XEMACPS_TXBUF_USED_MASK } else s.bd i :=
  h.bd_set hslot _ i

theorem Sound.markUsed_used (h : s.Sound) (i : ℕ) :
    ((s.markUsed slot).bd i).used = (decide (i = slot) || (s.bd i).used) := by
  rw [h.markUsed_bd hslot]
  by_cases heq : i = slot
  · rw [if_pos heq, decide_eq_true heq, TxDescriptor.used, or_and_self]
    rfl
  · rw [if_neg heq, decide_eq_false heq, Bool.false_or]

theorem Sound.markUsed (h : s.Sound) : (s.markUsed slot).Sound where
  bds := (List.length_set ..).trans h.bds
  pkts := h.pkts
  tail := h.tail
  count := h.count
  head := h.head
  held := h.held
  armed := by
    intro k hk harmed
    change ((s.markUsed slot).bd ((s.tail + k) % GEM2_TX_BD_COUNT)).used = false at harmed
    rw [h.markUsed_used hslot, Bool.or_eq_false_iff] at harmed
    exact h.armed k hk harmed.2
  wrap := by
    intro i hi
    rw [h.markUsed_bd hslot]
    split
    · next heq =>
      have hzero : XEMACPS_TXBUF_USED_MASK &&& XEMACPS_TXBUF_WRAP_MASK = 0 := by decide
      rw [TxDescriptor.wrap, or_and_distrib, hzero, UInt32.or_zero, heq]
      exact h.wrap slot hslot
    · exact h.wrap i hi

end

/-! ### The frames in the ring -/

/-- The frame at a place behind the tail, if it is not sent yet. -/
def pendingAt (s : TxRing) (k : ℕ) : Option (List UInt8) :=
  (s.bd ((s.tail + k) % GEM2_TX_BD_COUNT)).pending

/-- The frames that are not sent yet, in order. -/
def waiting (s : TxRing) : List (List UInt8) := (List.range s.count).filterMap s.pendingAt

theorem pending_of_used {bd : TxDescriptor} (h : bd.used) : bd.pending = none := by
  rw [TxDescriptor.pending, if_pos h]

theorem pending_of_armed {bd : TxDescriptor} (h : bd.used = false) :
    bd.pending = some bd.frame := by
  rw [TxDescriptor.pending, h]
  rfl

theorem Sound.waiting_publish (h : s.Sound) (hroom : s.count < GEM2_TX_BD_COUNT) (number : ℕ)
    (data : List UInt8) (total : ℕ) : (s.publish number data total).waiting =
      s.waiting ++ [TxDescriptor.frame ⟨data, armedStatus total s.head⟩] := by
  have hplace : ∀ k < GEM2_TX_BD_COUNT, (s.publish number data total).pendingAt k =
      if k = s.count then some (TxDescriptor.frame ⟨data, armedStatus total s.head⟩)
        else s.pendingAt k := by
    intro k hk
    change ((s.publish number data total).bd ((s.tail + k) % GEM2_TX_BD_COUNT)).pending = _
    rw [h.publish_bd]
    have hhead := h.place_eq_head hroom hk
    by_cases heq : k = s.count
    · rw [if_pos (hhead.mpr heq), if_pos heq]
      exact pending_of_armed (armed_used data total s.head)
    · rw [if_neg (mt hhead.mp heq), if_neg heq]
      rfl
  change (List.range (s.count + 1)).filterMap _ = _
  have hlast := hplace s.count hroom
  rw [if_pos rfl] at hlast
  rw [List.range_succ, List.filterMap_append, List.filterMap_cons_some hlast, List.filterMap_nil]
  congr 1
  apply List.filterMap_congr
  intro k hk
  have hlt := List.mem_range.mp hk
  rw [hplace k (Nat.lt_trans hlt hroom), if_neg (Nat.ne_of_lt hlt)]

theorem Sound.waiting_retire (h : s.Sound) (hcount : 0 < s.count) (hused : (s.bd s.tail).used) :
    s.retire.waiting = s.waiting := by
  have hplace : ∀ k, s.retire.pendingAt k = s.pendingAt (k + 1) := by
    intro k
    rw [pendingAt, retire_place, retire_bd]
    rfl
  have hfirst : s.pendingAt 0 = none := by
    rw [pendingAt, h.place_zero]
    exact pending_of_used hused
  have hsucc : s.count = s.count - 1 + 1 := (Nat.sub_add_cancel hcount).symm
  rw [waiting, waiting, hsucc, List.range_succ_eq_map, List.filterMap_cons_none hfirst,
    List.filterMap_map]
  change (List.range (s.count - 1)).filterMap _ = _
  apply List.filterMap_congr
  intro k _
  exact hplace k

/-- The frame the DMA sends is one of those in the ring, and the others stay. -/
theorem Sound.waiting_markUsed (h : s.Sound) {slot : ℕ} (hslot : slot < GEM2_TX_BD_COUNT)
    (harmed : (s.bd slot).used = false) :
    ∃ k < s.count, slot = (s.tail + k) % GEM2_TX_BD_COUNT ∧
      ∃ before after, before = (List.range k).filterMap s.pendingAt ∧
        s.waiting = before ++ (s.bd slot).frame :: after ∧
        (s.markUsed slot).waiting = before ++ after := by
  obtain ⟨k, hk, hplace⟩ := exists_place h.tail hslot
  have hlt : k < s.count := h.armed k hk (hplace.symm ▸ harmed)
  have hself : s.pendingAt k = some (s.bd slot).frame := by
    rw [pendingAt, hplace]
    exact pending_of_armed harmed
  have hself' : (s.markUsed slot).pendingAt k = none := by
    apply pending_of_used
    change ((s.markUsed slot).bd ((s.tail + k) % GEM2_TX_BD_COUNT)).used
    rw [hplace, h.markUsed_used hslot, decide_eq_true rfl]
    rfl
  have hother : ∀ j < s.count, j ≠ k → (s.markUsed slot).pendingAt j = s.pendingAt j := by
    intro j hj hne
    change ((s.markUsed slot).bd ((s.tail + j) % GEM2_TX_BD_COUNT)).pending = _
    rw [h.markUsed_bd hslot, if_neg]
    · rfl
    · rw [← hplace]
      exact place_ne _ (Nat.lt_of_lt_of_le hj h.count) hk hne
  have hsplit : List.range s.count =
      List.range k ++ k :: List.range' (k + 1) (s.count - (k + 1)) := by
    have hcount : s.count = k + (s.count - (k + 1) + 1) := by omega
    rw [← List.range'_succ, List.range_eq_range', List.range_eq_range']
    nth_rewrite 1 [hcount]
    rw [← List.range'_append_1, Nat.zero_add]
  refine ⟨k, hlt, hplace.symm, _,
    (List.range' (k + 1) (s.count - (k + 1))).filterMap s.pendingAt, rfl, ?_, ?_⟩
  · rw [waiting, hsplit, List.filterMap_append, List.filterMap_cons_some hself]
  · change (List.range s.count).filterMap _ = _
    rw [hsplit, List.filterMap_append, List.filterMap_cons_none hself']
    congr 1
    · apply List.filterMap_congr
      intro j hj
      have := List.mem_range.mp hj
      exact hother j (by omega) (by omega)
    · apply List.filterMap_congr
      intro j hj
      have := List.mem_range'_1.mp hj
      exact hother j (by omega) (by omega)

end TxRing

end Gem2
