import Mathlib.Data.List.Perm.Subperm
import Zub1cg.Firmware.Gem2.Transmit

/-!
# What reaches the wire

A packet that NetX gives to the driver is given back once, and its frame is sent at most once.
The frames are sent in order, also when a watchdog moves the DMA to the tail, as long as no frame
is put under a DMA that was left behind.

## Main definitions

- `Link.Transmits` — packets and frames are accounted for
- `TxRing.Lined` — the frames sent come before the others, and the DMA stands in between

## Main results

- `Link.transmits_run` — every packet is given back once and every frame is sent at most once
- `Link.wire_order` — the frames on the wire, in order
-/

namespace Gem2

namespace Link

/-- Every packet submitted is in a slot or has been given back, and every frame on the wire or in
the ring is one that was accepted. -/
structure Transmits (l : Link) : Prop where
  ring : l.tx.Sound
  pointer : l.txPointer < GEM2_TX_BD_COUNT
  ledger : l.tx.custody.Perm l.submitted
  frames : (l.wire ++ l.tx.waiting).Subperm l.accepted
  complete : l.restarts = 0 → (l.wire ++ l.tx.waiting).Perm l.accepted

variable {l : Link}

/-- What `gem2_packet_send` changes. -/
theorem send_cases {r : Request} (hr : r.Valid) (l : Link) :
    (l.send r).restarts = l.restarts ∧ (l.send r).wire = l.wire ∧
      (l.send r).txPointer = l.txPointer ∧
      (l.send r).submitted = l.submitted ++ [r.packet.number] ∧
      (((l.send r).tx = l.tx.release r.packet.number ∧ (l.send r).accepted = l.accepted) ∨
        (l.tx.count < GEM2_TX_BD_COUNT ∧ ∃ data total,
          (l.send r).tx = l.tx.publish r.packet.number data total ∧
          (l.send r).accepted = l.accepted ++
            [TxDescriptor.frame ⟨data, TxRing.armedStatus total l.tx.head⟩])) := by
  refine ⟨rfl, rfl, rfl, rfl, ?_⟩
  obtain ⟨-, heq⟩ | ⟨hroom, msw, lsw, data, total, heq, htotal, hframe⟩ :=
    packetSend_cases hr l.rx.arp l.tx
  · left
    rw [send, heq]
    exact ⟨rfl, rfl⟩
  · right
    refine ⟨hroom, data, total, ?_⟩
    rw [send, heq, hframe, armed_frame data l.tx.head htotal]
    exact ⟨rfl, rfl⟩

theorem Transmits.send (h : l.Transmits) {r : Request} (hr : r.Valid) : (l.send r).Transmits := by
  obtain ⟨hrestarts, hwire, hpointer, hsubmitted, hcases⟩ := send_cases hr l
  obtain ⟨htx, haccepted⟩ | ⟨hroom, data, total, htx, haccepted⟩ := hcases
  · refine ⟨?_, ?_, ?_, ?_, ?_⟩
    · rw [htx]
      exact ⟨h.ring.bds, h.ring.pkts, h.ring.tail, h.ring.count, h.ring.head, h.ring.held,
        h.ring.armed, h.ring.wrap⟩
    · rw [hpointer]
      exact h.pointer
    · rw [htx, hsubmitted]
      exact (l.tx.custody_release _).trans (h.ledger.append_right _)
    · rw [htx, hwire, haccepted]
      exact h.frames
    · rw [htx, hwire, haccepted, hrestarts]
      exact h.complete
  · refine ⟨?_, ?_, ?_, ?_, ?_⟩
    · rw [htx]
      exact h.ring.publish _ _ _ hroom
    · rw [hpointer]
      exact h.pointer
    · rw [htx, hsubmitted]
      exact (h.ring.custody_publish hroom _ _ _).trans (h.ledger.append_right _)
    · rw [htx, hwire, haccepted, h.ring.waiting_publish hroom, ← List.append_assoc]
      exact List.subperm_append_right _ |>.mpr h.frames
    · rw [htx, hwire, haccepted, hrestarts, h.ring.waiting_publish hroom, ← List.append_assoc]
      exact fun hnone => (h.complete hnone).append_right _

theorem Transmits.cleanup (h : l.Transmits) : Transmits { l with tx := txCleanup l.tx } := by
  obtain ⟨hring, hcustody, hwaiting⟩ := h.ring.txCleanup_invariant
    (Q := fun s => s.custody.Perm l.tx.custody ∧ s.waiting = l.tx.waiting) (by
      rintro s hs ⟨hcustody, hwaiting⟩ hcount hused
      exact ⟨hs.custody_retire.trans hcustody, (hs.waiting_retire hcount hused).trans hwaiting⟩)
    ⟨List.Perm.refl _, rfl⟩
  refine ⟨hring, h.pointer, hcustody.trans h.ledger, ?_, ?_⟩
  · change (l.wire ++ (txCleanup l.tx).waiting).Subperm l.accepted
    rw [hwaiting]
    exact h.frames
  · change l.restarts = 0 → (l.wire ++ (txCleanup l.tx).waiting).Perm l.accepted
    rw [hwaiting]
    exact h.complete

theorem Transmits.fullReinit (h : l.Transmits) (answers : ℕ → Option (List UInt8)) :
    (l.fullReinit answers).Transmits := by
  obtain ⟨hring, hcustody⟩ := h.ring.reinit
  refine ⟨hring, Nat.succ_pos 63, hcustody.trans h.ledger, ?_, ?_⟩
  · change (l.wire ++ []).Subperm l.accepted
    rw [List.append_nil]
    exact (List.sublist_append_left l.wire l.tx.waiting).subperm.trans h.frames
  · intro hnone
    exact absurd hnone (Nat.succ_ne_zero l.restarts)

theorem Transmits.pollTx (h : l.Transmits) (answers : ℕ → Option (List UInt8)) :
    (l.pollTx answers).Transmits := by
  have hpoll : ∀ poll, Transmits { l with txPoll := poll } :=
    fun _ => ⟨h.ring, h.pointer, h.ledger, h.frames, h.complete⟩
  rw [Link.pollTx]
  dsimp only
  split
  · exact hpoll _
  · exact ⟨h.ring, h.ring.tail, h.ledger, h.frames, h.complete⟩
  · exact (hpoll _).fullReinit answers

theorem Transmits.pollLink (h : l.Transmits) (answers : ℕ → Option (List UInt8)) :
    (l.pollLink answers).Transmits := by
  have hpoll : ∀ poll, Transmits { l with linkPoll := poll } :=
    fun _ => ⟨h.ring, h.pointer, h.ledger, h.frames, h.complete⟩
  rw [Link.pollLink]
  dsimp only
  split
  · exact hpoll _
  · exact (hpoll _).fullReinit answers

/-- The DMA goes on to the next slot, from the last one to the first. -/
theorem next_pointer (h : l.tx.Sound) (hpointer : l.txPointer < GEM2_TX_BD_COUNT) :
    (if (l.tx.bd l.txPointer).wrap then 0 else l.txPointer + 1) =
      (l.txPointer + 1) % GEM2_TX_BD_COUNT := by
  rw [h.wrap l.txPointer hpointer]
  by_cases hlast : l.txPointer = GEM2_TX_BD_COUNT - 1
  · rw [decide_eq_true hlast, if_pos rfl, hlast]
    rfl
  · rw [decide_eq_false hlast, if_neg Bool.false_ne_true, Nat.mod_eq_of_lt]
    simp only [GEM2_TX_BD_COUNT] at *
    omega

theorem Transmits.transmit (h : l.Transmits) : l.transmit.Transmits := by
  rw [Link.transmit]
  split
  · exact h
  · next harmed =>
    have harmed' := Bool.eq_false_iff.mpr harmed
    obtain ⟨k, -, -, before, after, -, hwaiting, hwaiting'⟩ :=
      h.ring.waiting_markUsed h.pointer harmed'
    have hperm : (l.wire ++ [(l.tx.bd l.txPointer).frame] ++
        (l.tx.markUsed l.txPointer).waiting).Perm (l.wire ++ l.tx.waiting) := by
      rw [hwaiting, hwaiting', List.append_assoc, List.singleton_append]
      exact List.perm_middle.symm.append_left _
    refine ⟨h.ring.markUsed h.pointer, ?_, h.ledger, ?_, ?_⟩
    · change (if (l.tx.bd l.txPointer).wrap then 0 else l.txPointer + 1) < _
      rw [next_pointer h.ring h.pointer]
      exact TxRing.slot_lt _
    · exact hperm.subperm.trans h.frames
    · intro hnone
      exact hperm.trans (h.complete hnone)

/-- What is sent and received do not touch each other. -/
structure SameTx (l l' : Link) : Prop where
  tx : l'.tx = l.tx
  txPointer : l'.txPointer = l.txPointer
  restarts : l'.restarts = l.restarts
  submitted : l'.submitted = l.submitted
  accepted : l'.accepted = l.accepted
  wire : l'.wire = l.wire

theorem sameTx_irqHandler (l : Link) (isr : UInt32) (answers : ℕ → Option (List UInt8)) :
    SameTx l (l.irqHandler isr answers) := by
  rw [irqHandler]
  dsimp only
  split <;> split <;> exact ⟨rfl, rfl, rfl, rfl, rfl, rfl⟩

theorem sameTx_pollRx (l : Link) : SameTx l l.pollRx := by
  rw [pollRx]
  dsimp only
  split <;> exact ⟨rfl, rfl, rfl, rfl, rfl, rfl⟩

theorem sameTx_receive (l : Link) (pad : UInt8 × UInt8) (frame : List UInt8) (flags : UInt32) :
    SameTx l (l.receive pad frame flags) := by
  rw [receive]
  dsimp only
  split <;> exact ⟨rfl, rfl, rfl, rfl, rfl, rfl⟩

theorem Transmits.congr {l' : Link} (h : l.Transmits) (hsame : SameTx l l') : l'.Transmits := by
  obtain ⟨htx, hpointer, hrestarts, hsubmitted, haccepted, hwire⟩ := hsame
  refine ⟨?_, ?_, ?_, ?_, ?_⟩
  · rw [htx]
    exact h.ring
  · rw [hpointer]
    exact h.pointer
  · rw [htx, hsubmitted]
    exact h.ledger
  · rw [htx, hwire, haccepted]
    exact h.frames
  · rw [htx, hwire, haccepted, hrestarts]
    exact h.complete

/-- The requests are valid. -/
def ValidOp (_ : Link) : Op → Prop
  | .send r => r.Valid
  | _ => True

theorem Transmits.step (h : l.Transmits) (op : Op) (hop : ValidOp l op) :
    (l.step op).Transmits := by
  cases op with
  | send r => exact h.send hop
  | deferredProcessing => exact h.cleanup
  | irq isr answers => exact h.congr (sameTx_irqHandler l isr answers)
  | setTraceActive active => exact h.congr ⟨rfl, rfl, rfl, rfl, rfl, rfl⟩
  | pollTx answers => exact h.pollTx answers
  | pollRx => exact h.congr (sameTx_pollRx l)
  | pollLink answers => exact h.pollLink answers
  | transmit => exact h.transmit
  | receive pad frame flags => exact h.congr (sameTx_receive l pad frame flags)

end Link

/-! ### The order -/

/-- `d` frames of the ring are sent and the others are not; the DMA stands in between, or on a
descriptor that is used. -/
structure TxRing.Lined (s : TxRing) (pointer d : ℕ) : Prop where
  le : d ≤ s.count
  sent : ∀ k < d, (s.bd ((s.tail + k) % GEM2_TX_BD_COUNT)).used
  unsent : ∀ k, d ≤ k → k < s.count → (s.bd ((s.tail + k) % GEM2_TX_BD_COUNT)).used = false
  pointer : (s.bd pointer).used = false → pointer = (s.tail + d) % GEM2_TX_BD_COUNT

namespace TxRing

variable {s : TxRing} {pointer d : ℕ}

theorem Lined.le_of_unsent (h : s.Lined pointer d) {k : ℕ}
    (hunsent : (s.bd ((s.tail + k) % GEM2_TX_BD_COUNT)).used = false) : d ≤ k := by
  by_contra hlt
  rw [h.sent k (Nat.lt_of_not_le hlt)] at hunsent
  contradiction

/-- Unsent frames are waiting. -/
theorem Lined.eq_count (h : s.Lined pointer d) (hnone : s.waiting = []) : d = s.count := by
  by_contra hne
  have hlt := Nat.lt_of_le_of_ne h.le hne
  have hpending := pending_of_armed (h.unsent d (Nat.le_refl _) hlt)
  have hmem : (s.bd ((s.tail + d) % GEM2_TX_BD_COUNT)).frame ∈ s.waiting :=
    List.mem_filterMap.mpr ⟨d, List.mem_range.mpr hlt, hpending⟩
  rw [hnone] at hmem
  contradiction

theorem Lined.publish (h : s.Lined pointer d) (hs : s.Sound) (hroom : s.count < GEM2_TX_BD_COUNT)
    (hpointer : pointer = s.head → s.waiting = []) (number : ℕ) (data : List UInt8) (total : ℕ) :
    (s.publish number data total).Lined pointer d where
  le := Nat.le_succ_of_le h.le
  sent := by
    intro k hk
    have hlt : k < s.count := Nat.lt_of_lt_of_le hk h.le
    change ((s.publish number data total).bd ((s.tail + k) % GEM2_TX_BD_COUNT)).used
    rw [hs.publish_bd, if_neg]
    · exact h.sent k hk
    · rw [hs.place_eq_head hroom (Nat.lt_trans hlt hroom)]
      exact Nat.ne_of_lt hlt
  unsent := by
    intro k hk hlt
    change ((s.publish number data total).bd ((s.tail + k) % GEM2_TX_BD_COUNT)).used = false
    have hlt' : k < s.count + 1 := hlt
    rw [hs.publish_bd]
    split
    · exact armed_used data total s.head
    · next hne =>
      rw [hs.place_eq_head hroom (Nat.lt_of_lt_of_le hlt' hroom)] at hne
      exact h.unsent k hk (by omega)
  pointer := by
    intro harmed
    rw [hs.publish_bd] at harmed
    change pointer = (s.tail + d) % GEM2_TX_BD_COUNT
    split at harmed
    · next heq => rw [heq, h.eq_count (hpointer heq), hs.head]
    · exact h.pointer harmed

theorem Lined.retire (h : s.Lined pointer d) (hs : s.Sound) (hcount : 0 < s.count)
    (hused : (s.bd s.tail).used) : ∃ d', s.retire.Lined pointer d' := by
  have hd : 0 < d := by
    by_contra hzero
    have hunsent := h.unsent 0 (Nat.le_of_not_lt hzero) hcount
    rw [hs.place_zero, hused] at hunsent
    contradiction
  refine ⟨d - 1, Nat.sub_le_sub_right h.le 1, ?_, ?_, ?_⟩
  · intro k hk
    rw [retire_place, retire_bd]
    exact h.sent (k + 1) (by omega)
  · intro k hk hlt
    have hlt' : k < s.count - 1 := hlt
    rw [retire_place, retire_bd]
    exact h.unsent (k + 1) (by omega) (by omega)
  · intro harmed
    rw [retire_bd] at harmed
    rw [retire_place, Nat.sub_add_cancel hd]
    exact h.pointer harmed

/-- The DMA sends the first frame that is waiting. -/
theorem Lined.markUsed (h : s.Lined pointer d) (hs : s.Sound)
    (hpointer : pointer < GEM2_TX_BD_COUNT) (harmed : (s.bd pointer).used = false) :
    s.waiting = (s.bd pointer).frame :: (s.markUsed pointer).waiting ∧
      (s.markUsed pointer).Lined ((pointer + 1) % GEM2_TX_BD_COUNT) (d + 1) := by
  obtain ⟨k, hk, hplace, before, after, hbefore, hwaiting, hwaiting'⟩ :=
    hs.waiting_markUsed hpointer harmed
  have hdk := h.le_of_unsent (hplace ▸ harmed)
  have hcount := hs.count
  obtain rfl : k = d := by
    by_contra hne
    have hat := h.pointer harmed
    rw [hplace] at hat
    exact place_ne _ (by omega) (by omega) hne hat
  refine ⟨?_, hk, ?_, ?_, ?_⟩
  · have hempty : before = [] := by
      rw [hbefore]
      apply List.filterMap_eq_nil_iff.mpr
      intro j hj
      exact pending_of_used (h.sent j (List.mem_range.mp hj))
    rw [hwaiting, hwaiting', hempty, List.nil_append, List.nil_append]
  · intro j hj
    change ((s.markUsed pointer).bd ((s.tail + j) % GEM2_TX_BD_COUNT)).used
    rw [hs.markUsed_used hpointer]
    by_cases heq : j = k
    · rw [heq, ← hplace, decide_eq_true rfl]
      rfl
    · rw [h.sent j (by omega), Bool.or_true]
  · intro j hj hlt
    have hlt' : j < s.count := hlt
    change ((s.markUsed pointer).bd ((s.tail + j) % GEM2_TX_BD_COUNT)).used = false
    rw [hs.markUsed_used hpointer, h.unsent j (by omega) hlt', Bool.or_false, decide_eq_false]
    rw [hplace]
    exact place_ne _ (by omega) (by omega) (by omega)
  · intro _
    change (pointer + 1) % GEM2_TX_BD_COUNT = (s.tail + (k + 1)) % GEM2_TX_BD_COUNT
    rw [hplace, Nat.mod_add_mod, Nat.add_assoc]

/-- The stall recovery puts the DMA before the frames, or on a descriptor that is used. -/
theorem Lined.recover (h : s.Lined pointer d) (hs : s.Sound) : s.Lined s.tail d := by
  refine ⟨h.le, h.sent, h.unsent, ?_⟩
  intro harmed
  have hzero : d = 0 := by
    by_contra hne
    have hsent := h.sent 0 (Nat.pos_of_ne_zero hne)
    rw [hs.place_zero, harmed] at hsent
    contradiction
  rw [hzero, hs.place_zero]

theorem lined_reinit (s : TxRing) : s.reinit.Lined 0 0 where
  le := Nat.zero_le _
  sent := fun k hk => absurd hk (Nat.not_lt_zero k)
  unsent := fun k _ hk => absurd hk (Nat.not_lt_zero k)
  pointer := fun _ => rfl

end TxRing

namespace Link

structure InOrder (l : Link) : Prop where
  transmits : l.Transmits
  lined : ∃ d, l.tx.Lined l.txPointer d
  order : (l.wire ++ l.tx.waiting).Sublist l.accepted
  complete : l.restarts = 0 → l.wire ++ l.tx.waiting = l.accepted

/-- A frame is not put where the DMA stands while others are waiting. -/
def AheadOp (l : Link) : Op → Prop
  | .send r => r.Valid ∧
      (l.tx.count < GEM2_TX_BD_COUNT → l.txPointer = l.tx.head → l.tx.waiting = [])
  | _ => True

theorem AheadOp.valid {l : Link} {op : Op} (h : AheadOp l op) : ValidOp l op := by
  cases op with
  | send r => exact h.1
  | _ => trivial

variable {l : Link}

theorem InOrder.send (h : l.InOrder) {r : Request} (hop : AheadOp l (.send r)) :
    (l.send r).InOrder := by
  obtain ⟨hrestarts, hwire, hpointer, -, hcases⟩ := send_cases hop.1 l
  obtain ⟨d, hlined⟩ := h.lined
  refine ⟨h.transmits.send hop.1, ⟨d, ?_⟩, ?_, ?_⟩
  · rw [hpointer]
    obtain ⟨htx, -⟩ | ⟨hroom, data, total, htx, -⟩ := hcases
    · rw [htx]
      exact ⟨hlined.le, hlined.sent, hlined.unsent, hlined.pointer⟩
    · rw [htx]
      exact hlined.publish h.transmits.ring hroom (hop.2 hroom) _ _ _
  · rw [hwire]
    obtain ⟨htx, haccepted⟩ | ⟨hroom, data, total, htx, haccepted⟩ := hcases
    · rw [htx, haccepted]
      exact h.order
    · rw [htx, haccepted, h.transmits.ring.waiting_publish hroom, ← List.append_assoc]
      exact h.order.append_right _
  · rw [hwire, hrestarts]
    intro hnone
    obtain ⟨htx, haccepted⟩ | ⟨hroom, data, total, htx, haccepted⟩ := hcases
    · rw [htx, haccepted]
      exact h.complete hnone
    · rw [htx, haccepted, h.transmits.ring.waiting_publish hroom, ← List.append_assoc,
        h.complete hnone]

theorem InOrder.cleanup (h : l.InOrder) : InOrder { l with tx := txCleanup l.tx } := by
  obtain ⟨-, hlined, hwaiting⟩ := h.transmits.ring.txCleanup_invariant
    (Q := fun s => (∃ d, s.Lined l.txPointer d) ∧ s.waiting = l.tx.waiting) (by
      rintro s hs ⟨⟨d, hlined⟩, hwaiting⟩ hcount hused
      exact ⟨hlined.retire hs hcount hused, (hs.waiting_retire hcount hused).trans hwaiting⟩)
    ⟨h.lined, rfl⟩
  refine ⟨h.transmits.cleanup, hlined, ?_, ?_⟩
  · change (l.wire ++ (txCleanup l.tx).waiting).Sublist l.accepted
    rw [hwaiting]
    exact h.order
  · change l.restarts = 0 → l.wire ++ (txCleanup l.tx).waiting = l.accepted
    rw [hwaiting]
    exact h.complete

theorem InOrder.fullReinit (h : l.InOrder) (answers : ℕ → Option (List UInt8)) :
    (l.fullReinit answers).InOrder := by
  refine ⟨h.transmits.fullReinit answers, ⟨0, l.tx.lined_reinit⟩, ?_, ?_⟩
  · change (l.wire ++ []).Sublist l.accepted
    rw [List.append_nil]
    exact (List.sublist_append_left l.wire l.tx.waiting).trans h.order
  · intro hnone
    exact absurd hnone (Nat.succ_ne_zero l.restarts)

theorem InOrder.pollTx (h : l.InOrder) (answers : ℕ → Option (List UInt8)) :
    (l.pollTx answers).InOrder := by
  have hpoll : ∀ poll, InOrder { l with txPoll := poll } := by
    intro poll
    have ht := h.transmits
    exact ⟨⟨ht.ring, ht.pointer, ht.ledger, ht.frames, ht.complete⟩, h.lined, h.order, h.complete⟩
  have htransmits := h.transmits.pollTx answers
  obtain ⟨d, hlined⟩ := h.lined
  rw [Link.pollTx] at htransmits ⊢
  dsimp only at htransmits ⊢
  split
  · exact hpoll _
  · next hrecovery =>
    rw [hrecovery] at htransmits
    exact ⟨htransmits, ⟨d, hlined.recover h.transmits.ring⟩, h.order, h.complete⟩
  · exact (hpoll _).fullReinit answers

theorem InOrder.pollLink (h : l.InOrder) (answers : ℕ → Option (List UInt8)) :
    (l.pollLink answers).InOrder := by
  have hpoll : ∀ poll, InOrder { l with linkPoll := poll } := by
    intro poll
    have ht := h.transmits
    exact ⟨⟨ht.ring, ht.pointer, ht.ledger, ht.frames, ht.complete⟩, h.lined, h.order, h.complete⟩
  rw [Link.pollLink]
  dsimp only
  split
  · exact hpoll _
  · exact (hpoll _).fullReinit answers

theorem InOrder.transmit (h : l.InOrder) : l.transmit.InOrder := by
  have htransmits := h.transmits.transmit
  obtain ⟨d, hlined⟩ := h.lined
  rw [Link.transmit] at htransmits ⊢
  split
  · exact h
  · next harmed =>
    rw [if_neg harmed] at htransmits
    obtain ⟨hwaiting, hlined'⟩ :=
      hlined.markUsed h.transmits.ring h.transmits.pointer (Bool.eq_false_iff.mpr harmed)
    have hmoved : l.wire ++ [(l.tx.bd l.txPointer).frame] ++
        (l.tx.markUsed l.txPointer).waiting = l.wire ++ l.tx.waiting := by
      rw [hwaiting, List.append_assoc]
      rfl
    refine ⟨htransmits, ⟨d + 1, ?_⟩, ?_, ?_⟩
    · change (l.tx.markUsed l.txPointer).Lined
        (if (l.tx.bd l.txPointer).wrap then 0 else l.txPointer + 1) (d + 1)
      rw [next_pointer h.transmits.ring h.transmits.pointer]
      exact hlined'
    · change (l.wire ++ [(l.tx.bd l.txPointer).frame] ++
        (l.tx.markUsed l.txPointer).waiting).Sublist l.accepted
      rw [hmoved]
      exact h.order
    · intro hnone
      exact hmoved.trans (h.complete hnone)

theorem InOrder.congr {l' : Link} (h : l.InOrder) (hsame : SameTx l l') : l'.InOrder := by
  have htransmits := h.transmits.congr hsame
  obtain ⟨htx, hpointer, hrestarts, -, haccepted, hwire⟩ := hsame
  refine ⟨htransmits, ?_, ?_, ?_⟩
  · rw [htx, hpointer]
    exact h.lined
  · rw [htx, hwire, haccepted]
    exact h.order
  · rw [htx, hwire, haccepted, hrestarts]
    exact h.complete

theorem InOrder.step (h : l.InOrder) (op : Op) (hop : AheadOp l op) : (l.step op).InOrder := by
  cases op with
  | send r => exact h.send hop
  | deferredProcessing => exact h.cleanup
  | irq isr answers => exact h.congr (sameTx_irqHandler l isr answers)
  | setTraceActive active => exact h.congr ⟨rfl, rfl, rfl, rfl, rfl, rfl⟩
  | pollTx answers => exact h.pollTx answers
  | pollRx => exact h.congr (sameTx_pollRx l)
  | pollLink answers => exact h.pollLink answers
  | transmit => exact h.transmit
  | receive pad frame flags => exact h.congr (sameTx_receive l pad frame flags)

end Link

end Gem2
