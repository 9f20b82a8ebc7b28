import Mathlib.Data.List.GetD
import Zub1cg.Firmware.Gem2.Link

/-!
# The frame of a packet

A packet in one buffer is sent from where it lies, with the header written in front of it; a
chain is copied. What is sent is the same, and NetX finds the packet as it was.

## Main results

- `packetSend_cases` — the two ways a request can go
- `packetSend_exact` — the frame of a request that is taken, and the packet afterwards
-/

namespace Gem2

/-- What NetX sees to: there is room for the header, and the length is that of the data. -/
structure Request.Valid (r : Request) : Prop where
  room : NX_ETHERNET_SIZE ≤ r.packet.headroom.length
  length : r.packet.length = (r.packet.data :: r.packet.next).flatten.length

/-! ### The descriptor's status -/

theorem armedStatus_and (total slot : ℕ) (m : UInt32) : TxRing.armedStatus total slot &&& m =
    UInt32.ofNat total &&& (XEMACPS_TXBUF_LEN_MASK &&& m) ||| XEMACPS_TXBUF_LAST_MASK &&& m |||
      TxRing.wrapBit slot &&& m := by
  rw [TxRing.armedStatus, or_and_distrib, or_and_distrib, UInt32.and_assoc]

theorem armed_used (data : List UInt8) (total slot : ℕ) :
    (⟨data, TxRing.armedStatus total slot⟩ : TxDescriptor).used = false := by
  have hlength : XEMACPS_TXBUF_LEN_MASK &&& XEMACPS_TXBUF_USED_MASK = 0 := by decide
  have hlast : XEMACPS_TXBUF_LAST_MASK &&& XEMACPS_TXBUF_USED_MASK = 0 := by decide
  have hwrap : TxRing.wrapBit slot &&& XEMACPS_TXBUF_USED_MASK = 0 := by
    rw [TxRing.wrapBit]
    split <;> decide
  rw [TxDescriptor.used, armedStatus_and, hlength, hlast, hwrap, UInt32.and_zero]
  decide

theorem armed_wrap (data : List UInt8) (total slot : ℕ) :
    (⟨data, TxRing.armedStatus total slot⟩ : TxDescriptor).wrap =
      decide (slot = GEM2_TX_BD_COUNT - 1) := by
  have hlength : XEMACPS_TXBUF_LEN_MASK &&& XEMACPS_TXBUF_WRAP_MASK = 0 := by decide
  have hlast : XEMACPS_TXBUF_LAST_MASK &&& XEMACPS_TXBUF_WRAP_MASK = 0 := by decide
  rw [TxDescriptor.wrap, armedStatus_and, hlength, hlast, UInt32.and_zero, TxRing.wrapBit]
  split
  · next h =>
    rw [decide_eq_true h]
    decide
  · next h =>
    rw [decide_eq_false h]
    decide

theorem armed_frame (data : List UInt8) {total : ℕ} (slot : ℕ) (htotal : total ≤ GEM2_RX_BUFSIZE) :
    (⟨data, TxRing.armedStatus total slot⟩ : TxDescriptor).frame = data.take total := by
  have hlast : XEMACPS_TXBUF_LAST_MASK &&& XEMACPS_TXBUF_LEN_MASK = 0 := by decide
  have hwrap : TxRing.wrapBit slot &&& XEMACPS_TXBUF_LEN_MASK = 0 := by
    rw [TxRing.wrapBit]
    split <;> decide
  have hfits : total < 2 ^ 14 := Nat.lt_of_le_of_lt htotal (by decide)
  have hsmall : total < 2 ^ 32 := Nat.lt_trans hfits (by decide)
  have hlen : (UInt32.ofNat total &&& XEMACPS_TXBUF_LEN_MASK).toNat = total := by
    rw [UInt32.toNat_and, UInt32.toNat_ofNat_of_lt' hsmall]
    change total &&& (2 ^ 14 - 1) = total
    rw [Nat.and_two_pow_sub_one_eq_mod, Nat.mod_eq_of_lt hfits]
  rw [TxDescriptor.frame, armedStatus_and, hlast, hwrap, UInt32.or_zero, UInt32.or_zero,
    UInt32.and_self, hlen]

/-! ### What is sent -/

theorem flatten_eq (frags : List (List UInt8)) {dst : List UInt8}
    (h : dst.length ≤ GEM2_RX_BUFSIZE) :
    flatten dst frags = (dst ++ frags.flatten).take GEM2_RX_BUFSIZE := by
  induction frags generalizing dst with
  | nil => rw [flatten, List.flatten_nil, List.append_nil, List.take_of_length_le h]
  | cons frag frags ih =>
    rw [flatten, List.flatten_cons]
    split
    · next hroom =>
      rw [ih (by rw [List.length_append, List.length_take]; omega), ← List.append_assoc]
      obtain hfits | hlong := Nat.le_total frag.length (GEM2_RX_BUFSIZE - dst.length)
      · rw [List.take_of_length_le hfits]
      · have hfull : (dst ++ frag.take (GEM2_RX_BUFSIZE - dst.length)).length =
            GEM2_RX_BUFSIZE := by
          rw [List.length_append, List.length_take]
          omega
        have hlong' : GEM2_RX_BUFSIZE ≤ (dst ++ frag).length := by
          rw [List.length_append]
          omega
        rw [List.take_append_of_le_length (Nat.le_of_eq hfull.symm),
          List.take_of_length_le (Nat.le_of_eq hfull),
          List.take_append_of_le_length hlong', List.take_append, List.take_of_length_le h]
    · next hfull =>
      rw [List.take_append_of_le_length (Nat.le_of_not_lt hfull), List.take_of_length_le h]

/-- With and without a copy, the packet's data is sent up to the size of a buffer. -/
theorem txData_eq {p : NxPacket} (h : p.length = (p.data :: p.next).flatten.length) :
    (txData p).1.take (txData p).2 = (p.data :: p.next).flatten.take GEM2_RX_BUFSIZE ∧
      (txData p).2 ≤ GEM2_RX_BUFSIZE := by
  rw [txData]
  split
  · next hsingle =>
    have hdata : (p.data :: p.next).flatten = p.data := by
      rw [hsingle.1, List.flatten_cons, List.flatten_nil, List.append_nil]
    rw [hdata] at h ⊢
    refine ⟨?_, hsingle.2⟩
    rw [List.take_of_length_le (Nat.le_of_eq h.symm), List.take_of_length_le (h ▸ hsingle.2)]
  · dsimp only
    rw [flatten_eq _ (Nat.zero_le _), List.nil_append, List.take_of_length_le (Nat.le_refl _)]
    exact ⟨rfl, List.length_take_le _ _⟩

/-! ### The packet -/

theorem header_length (msw lsw : UInt32) (type : UInt16) :
    (header msw lsw type).length = NX_ETHERNET_SIZE := rfl

/-- The packet while the driver has it, the header in front. -/
def Request.framed (r : Request) (msw lsw : UInt32) : NxPacket :=
  { r.packet with
    headroom := r.packet.headroom.take (r.packet.headroom.length - NX_ETHERNET_SIZE)
    data := header msw lsw (etherType r) ++ r.packet.data
    length := r.packet.length + NX_ETHERNET_SIZE }

/-- The packet afterwards, the header left in the room before it. -/
def Request.restored (r : Request) (msw lsw : UInt32) : NxPacket :=
  { r.packet with
    headroom := r.packet.headroom.take (r.packet.headroom.length - NX_ETHERNET_SIZE) ++
      header msw lsw (etherType r) }

section

variable {r : Request} (hr : r.Valid)

include hr

theorem Request.Valid.taken_room :
    (r.packet.headroom.drop (r.packet.headroom.length - NX_ETHERNET_SIZE)).length =
      NX_ETHERNET_SIZE := by
  rw [List.length_drop]
  have := hr.room
  omega

theorem Request.Valid.overwrite_eq (msw lsw : UInt32) :
    (r.packet.retreat NX_ETHERNET_SIZE).overwrite (header msw lsw (etherType r)) =
      r.framed msw lsw := by
  have hroom := hr.taken_room
  rw [NxPacket.overwrite, NxPacket.retreat, Request.framed, header_length]
  dsimp only
  rw [List.drop_append_of_le_length (Nat.le_of_eq hroom.symm),
    List.drop_of_length_le (Nat.le_of_eq hroom), List.nil_append]

omit hr in
theorem Request.advance_framed (r : Request) (msw lsw : UInt32) :
    (r.framed msw lsw).advance NX_ETHERNET_SIZE = r.restored msw lsw := by
  rw [NxPacket.advance, Request.framed, Request.restored]
  dsimp only
  rw [← header_length msw lsw (etherType r), List.take_left, List.drop_left, Nat.add_sub_cancel]

theorem Request.Valid.advance_retreat :
    (r.packet.retreat NX_ETHERNET_SIZE).advance NX_ETHERNET_SIZE = r.packet := by
  have hroom := hr.taken_room
  rw [NxPacket.advance, NxPacket.retreat]
  dsimp only
  rw [List.take_append_of_le_length (Nat.le_of_eq hroom.symm),
    List.take_of_length_le (Nat.le_of_eq hroom), List.take_append_drop,
    List.drop_append_of_le_length (Nat.le_of_eq hroom.symm),
    List.drop_of_length_le (Nat.le_of_eq hroom), List.nil_append, Nat.add_sub_cancel]

theorem Request.Valid.txData_framed (msw lsw : UInt32) :
    (txData (r.framed msw lsw)).1.take (txData (r.framed msw lsw)).2 =
        (header msw lsw (etherType r) ++ (r.packet.data :: r.packet.next).flatten).take
          GEM2_RX_BUFSIZE ∧
      (txData (r.framed msw lsw)).2 ≤ GEM2_RX_BUFSIZE := by
  have hflatten : ((r.framed msw lsw).data :: (r.framed msw lsw).next).flatten =
      header msw lsw (etherType r) ++ (r.packet.data :: r.packet.next).flatten := by
    rw [List.flatten_cons, List.flatten_cons, Request.framed, List.append_assoc]
  rw [← hflatten]
  apply txData_eq
  rw [hflatten, List.length_append, header_length, Request.framed, hr.length, Nat.add_comm]

/-- What `gem2_packet_send` does: it gives the packet back, or it gives the frame to the DMA. -/
theorem packetSend_cases (cache : ArpCache) (s : TxRing) :
    (¬ (s.count < GEM2_TX_BD_COUNT ∧ (ethernetFrame cache r).isSome) ∧
        packetSend cache s r = ⟨false, r.packet, s.release r.packet.number⟩) ∨
      (s.count < GEM2_TX_BD_COUNT ∧ ∃ msw lsw data total,
        packetSend cache s r =
          ⟨true, r.restored msw lsw, s.publish r.packet.number data total⟩ ∧
        total ≤ GEM2_RX_BUFSIZE ∧ ethernetFrame cache r = some (data.take total)) := by
  rw [packetSend, ethernetFrame]
  split
  · next hfull => exact .inl ⟨fun h => Nat.not_lt_of_ge hfull h.1, rfl⟩
  · next hroom =>
    dsimp only
    cases destination cache r (r.packet.retreat NX_ETHERNET_SIZE).data with
    | none =>
      left
      dsimp only
      rw [hr.advance_retreat]
      exact ⟨fun h => Bool.false_ne_true h.2, rfl⟩
    | some address =>
      obtain ⟨msw, lsw⟩ := address
      right
      dsimp only
      rw [hr.overwrite_eq, r.advance_framed]
      obtain ⟨hdata, htotal⟩ := hr.txData_framed msw lsw
      refine ⟨Nat.lt_of_not_le hroom, msw, lsw, _, _, rfl, htotal, ?_⟩
      rw [hdata]
      rfl

theorem Request.Valid.restored_valid (msw lsw : UInt32) :
    Request.Valid { r with packet := r.restored msw lsw } where
  room := by
    change NX_ETHERNET_SIZE ≤ (_ ++ header msw lsw (etherType r)).length
    rw [List.length_append, header_length]
    exact Nat.le_add_left _ _
  length := hr.length

/-- The address in the IP header, seen from the start of the frame. -/
theorem Request.Valid.word32_retreat (i : ℕ) :
    word32 (r.packet.retreat NX_ETHERNET_SIZE).data (NX_ETHERNET_SIZE + i) =
      word32 r.packet.data i := by
  have hroom := hr.taken_room
  have hbyte : ∀ j, (r.packet.retreat NX_ETHERNET_SIZE).data.getD (NX_ETHERNET_SIZE + j) 0 =
      r.packet.data.getD j 0 := by
    intro j
    rw [NxPacket.retreat, List.getD_append_right _ _ _ _ (by omega), hroom,
      Nat.add_sub_cancel_left]
  rw [word32, word32, hbyte, Nat.add_assoc, hbyte, Nat.add_assoc, hbyte, Nat.add_assoc, hbyte]

theorem Request.Valid.ethernetFrame_restored (cache : ArpCache) (msw lsw : UInt32) :
    ethernetFrame cache { r with packet := r.restored msw lsw } = ethernetFrame cache r := by
  have hword := hr.word32_retreat 16
  have hword' := (hr.restored_valid msw lsw).word32_retreat 16
  rw [ethernetFrame, ethernetFrame, destination, destination, hword, hword']
  rfl

/-- A request is taken when there is room and an address. The frame is the header and the data
then, whether it lies in one buffer or in many. Either way NetX can hand the packet over again,
and the frame is the same. -/
theorem packetSend_exact (cache : ArpCache) (s : TxRing) :
    let outcome := packetSend cache s r
    let again : Request := { r with packet := outcome.packet }
    (outcome.sent ↔ s.count < GEM2_TX_BD_COUNT ∧ (ethernetFrame cache r).isSome) ∧
      (outcome.sent = false → outcome.ring = s.release r.packet.number) ∧
      (outcome.sent → ∃ data total, outcome.ring = s.publish r.packet.number data total ∧
        ethernetFrame cache r =
          some (TxDescriptor.frame ⟨data, TxRing.armedStatus total s.head⟩)) ∧
      again.Valid ∧ ∀ cache', ethernetFrame cache' again = ethernetFrame cache' r := by
  intro outcome again
  obtain ⟨hrefused, heq⟩ | ⟨hroom, msw, lsw, data, total, heq, htotal, hframe⟩ :=
    packetSend_cases hr cache s
  · have houtcome : outcome = _ := heq
    have hagain : again = r := by
      change { r with packet := outcome.packet } = r
      rw [houtcome]
    rw [hagain, houtcome]
    exact ⟨⟨fun h => absurd h Bool.false_ne_true, fun h => absurd h hrefused⟩, fun _ => rfl,
      fun h => absurd h Bool.false_ne_true, hr, fun _ => rfl⟩
  · have houtcome : outcome = _ := heq
    have hagain : again = { r with packet := r.restored msw lsw } := by
      change { r with packet := outcome.packet } = _
      rw [houtcome]
    rw [hagain, houtcome]
    refine ⟨⟨fun _ => ⟨hroom, ?_⟩, fun _ => rfl⟩, fun h => absurd h.symm Bool.false_ne_true, ?_,
      hr.restored_valid msw lsw, fun cache' => hr.ethernetFrame_restored cache' msw lsw⟩
    · rw [hframe]
      rfl
    · intro _
      refine ⟨data, total, rfl, ?_⟩
      rw [armed_frame data s.head htotal, hframe]

end

/-- An IPv4 packet in two fragments, for a host whose address NetX does not know. -/
def ipRequest (number : ℕ) (host : UInt8) : Request where
  command := .LINK_PACKET_SEND
  packet :=
    { number := number
      headroom := List.replicate 16 0
      data := [0x45, 0, 0, 23, 0, 0, 0, 0, 64, 17, 0, 0, 10, 0, 0, 1, 10, 0, 0, host]
      next := [[1, 2, 3]]
      length := 23
      ipVersion := 4 }
  physicalAddressMsw := 0
  physicalAddressLsw := 0

theorem ipRequest_valid (number : ℕ) (host : UInt8) : (ipRequest number host).Valid :=
  ⟨show 14 ≤ 16 by decide, rfl⟩

/-- The host's address has to be learned first. -/
theorem packetSend_exact_packet :
    let cache := arpLearn ArpCache.empty ⟨0x0a000002, 0x0000000a, 0x35000202⟩
    let outcome := packetSend cache TxRing.initial (ipRequest 3 2)
    let again : Request := { ipRequest 3 2 with packet := outcome.packet }
    (packetSend ArpCache.empty TxRing.initial (ipRequest 3 2)).ring = TxRing.initial.release 3 ∧
      outcome.sent = true ∧
      (outcome.ring.bd 0).frame = header 0x0000000a 0x35000202 NX_ETHERNET_IP ++
        ((ipRequest 3 2).packet.data ++ [1, 2, 3]) ∧
      again.Valid ∧ ∀ cache', ethernetFrame cache' again = ethernetFrame cache' (ipRequest 3 2) := by
  intro cache outcome again
  obtain ⟨hunknown, hrefused, -⟩ := packetSend_exact (ipRequest_valid 3 2) .empty .initial
  obtain ⟨hknown, -, htaken, hvalid, hsame⟩ := packetSend_exact (ipRequest_valid 3 2) cache .initial
  have hsent : outcome.sent = true := hknown.mpr (by decide)
  obtain ⟨data, total, hring, hframe⟩ := htaken hsent
  refine ⟨hrefused ?_, hsent, ?_, hvalid, hsame⟩
  · exact Bool.eq_false_iff.mpr fun h => absurd (hunknown.mp h).2 (by decide)
  · have hbd : outcome.ring.bd 0 = ⟨data, TxRing.armedStatus total 0⟩ := congrArg (·.bd 0) hring
    rw [hbd, ← Option.some_inj]
    exact hframe.symm.trans (by decide)

end Gem2
