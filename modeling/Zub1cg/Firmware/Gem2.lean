import Mathlib.Data.List.Nodup

/-!
# The Ethernet driver of the A53 (`os_abstraction_layer/ThreadX/ThreadXGEM2Driver.c`)

Between NetX and the MAC lie two rings of descriptors. The MAC's DMA walks them on its own:
it sends what a descriptor points at until it meets one that is used, and it writes what
arrives until it meets one that is new. Where it stands is not known to the driver, which
keeps its own positions.

NetX is not modelled: each allocation comes with NetX's answer, and what NetX is handed or
gets back is recorded. Nor are the data cache, the PHY and the registers that are set once.

## Main definitions

- `NxPacket`, `Request` — a packet of NetX and what it asks of the driver
- `ArpCache`, `arpLearn`, `arpLookup` — the addresses the driver has seen itself
- `TxRing`, `packetSend`, `txCleanup` — the packets on their way out
- `RxRing`, `RxRing.allocRxPacket`, `rxProcess` — the packets that wait for a frame
-/

namespace Gem2

def GEM2_RX_BD_COUNT : ℕ := 64
def GEM2_TX_BD_COUNT : ℕ := 64
def GEM2_ARP_CACHE_SIZE : ℕ := 4
/-- `XEMACPS_RX_BUF_SIZE_JUMBO` -/
def GEM2_RX_BUFSIZE : ℕ := 10240
def GEM2_RX_OFFSET : ℕ := 2
def GEM2_TX_STALL_ESCALATE_THRESHOLD : UInt32 := 3
def GEM2_LINK_STALL_TICKS_THRESHOLD : UInt32 := 3

def NX_ETHERNET_SIZE : ℕ := 14
def NX_ETHERNET_IP : UInt16 := 0x0800
def NX_ETHERNET_ARP : UInt16 := 0x0806
def NX_ETHERNET_RARP : UInt16 := 0x8035
def NX_ETHERNET_IPV6 : UInt16 := 0x86dd

def XEMACPS_TXBUF_USED_MASK : UInt32 := 0x80000000
def XEMACPS_TXBUF_WRAP_MASK : UInt32 := 0x40000000
def XEMACPS_TXBUF_LAST_MASK : UInt32 := 0x00008000
def XEMACPS_TXBUF_LEN_MASK : UInt32 := 0x00003fff
def XEMACPS_RXBUF_LEN_MASK : UInt32 := 0x00001fff
def XEMACPS_IXR_FRAMERX_MASK : UInt32 := 0x00000002
def XEMACPS_IXR_RXUSED_MASK : UInt32 := 0x00000004

theorem or_and_distrib (x y m : UInt32) : (x ||| y) &&& m = x &&& m ||| y &&& m :=
  UInt32.toBitVec_inj.mp BitVec.and_or_distrib_right

theorem or_and_self (x m : UInt32) : (x ||| m) &&& m = m := by
  have hbit : ∀ a b : Bool, ((a || b) && b) = b := by decide
  apply UInt32.toBitVec_inj.mp
  ext i
  simp only [UInt32.toBitVec_and, UInt32.toBitVec_or, BitVec.getElem_and, BitVec.getElem_or, hbit]

/-! ### The ARP cache -/

/-- One index of the three arrays `arp_cache_…`. -/
structure ArpEntry where
  ip : UInt32
  msw : UInt32
  lsw : UInt32
  deriving DecidableEq, Repr

/-- The loop that looks for the address and overwrites its entry. -/
def refresh (e : ArpEntry) : List ArpEntry → Option (List ArpEntry)
  | [] => none
  | x :: xs => if x.ip = e.ip then some (e :: xs) else (refresh e xs).map (x :: ·)

/-- The entries after `gem2_arp_learn`. -/
def learnEntries (e : ArpEntry) (entries : List ArpEntry) : List ArpEntry :=
  match refresh e entries with
  | some updated => updated
  | none =>
    if entries.length < GEM2_ARP_CACHE_SIZE then entries ++ [e]
    -- a full cache gives up its first entry
    else entries.set 0 e

theorem refresh_map_ip {e : ArpEntry} {entries updated : List ArpEntry}
    (h : refresh e entries = some updated) :
    updated.map ArpEntry.ip = entries.map ArpEntry.ip := by
  induction entries generalizing updated with
  | nil => contradiction
  | cons x xs ih =>
    rw [refresh] at h
    split at h
    · next hsame =>
      obtain rfl := Option.some.inj h
      rw [List.map_cons, List.map_cons, hsame]
    · obtain ⟨rest, hrest, rfl⟩ := Option.map_eq_some_iff.mp h
      rw [List.map_cons, List.map_cons, ih hrest]

theorem refresh_eq_none {e : ArpEntry} {entries : List ArpEntry} :
    refresh e entries = none ↔ e.ip ∉ entries.map ArpEntry.ip := by
  induction entries with
  | nil => simp [refresh]
  | cons x xs ih =>
    rw [refresh, List.map_cons, List.mem_cons]
    by_cases hsame : x.ip = e.ip
    · simp [hsame]
    · rw [if_neg hsame, Option.map_eq_none_iff, ih]
      simp [Ne.symm hsame]

theorem learnEntries_length (e : ArpEntry) {entries : List ArpEntry}
    (h : entries.length ≤ GEM2_ARP_CACHE_SIZE) :
    (learnEntries e entries).length ≤ GEM2_ARP_CACHE_SIZE := by
  rw [learnEntries]
  split
  · next updated hupdated =>
    rw [← List.length_map (f := ArpEntry.ip), refresh_map_ip hupdated, List.length_map]
    exact h
  · split
    · next hroom =>
      rw [List.length_append]
      exact hroom
    · rw [List.length_set]
      exact h

theorem learnEntries_nodup (e : ArpEntry) {entries : List ArpEntry}
    (h : (entries.map ArpEntry.ip).Nodup) : ((learnEntries e entries).map ArpEntry.ip).Nodup := by
  rw [learnEntries]
  split
  · next updated hupdated =>
    rw [refresh_map_ip hupdated]
    exact h
  · next hnew =>
    have hfresh := refresh_eq_none.mp hnew
    split
    · rw [List.map_append, List.map_singleton, ← List.concat_eq_append]
      exact h.concat hfresh
    · cases entries with
      | nil => exact List.nodup_nil
      | cons x xs =>
        rw [List.map_cons, List.mem_cons, not_or] at hfresh
        exact List.nodup_cons.mpr ⟨hfresh.2, (List.nodup_cons.mp h).2⟩

/-- The arrays up to `arp_cache_count`. No address is there twice. -/
structure ArpCache where
  entries : List ArpEntry
  bounded : entries.length ≤ GEM2_ARP_CACHE_SIZE
  distinct : (entries.map ArpEntry.ip).Nodup

def ArpCache.empty : ArpCache := ⟨[], Nat.zero_le _, List.nodup_nil⟩

def arpLearn (c : ArpCache) (e : ArpEntry) : ArpCache :=
  ⟨learnEntries e c.entries, learnEntries_length e c.bounded, learnEntries_nodup e c.distinct⟩

def arpLookup (c : ArpCache) (ip : UInt32) : Option (UInt32 × UInt32) :=
  (c.entries.find? fun x => x.ip = ip).map fun x => (x.msw, x.lsw)

/-! ### Requests -/

/-- A packet of NetX: what its first buffer holds in front of `nx_packet_prepend_ptr`, what it
holds from there to `nx_packet_append_ptr`, and the data of the fragments chained to it. -/
structure NxPacket where
  number : ℕ
  headroom : List UInt8
  data : List UInt8
  next : List (List UInt8)
  length : ℕ
  ipVersion : UInt8
  deriving DecidableEq, Repr

/-- `nx_packet_prepend_ptr -= n; nx_packet_length += n` -/
def NxPacket.retreat (p : NxPacket) (n : ℕ) : NxPacket :=
  { p with
    headroom := p.headroom.take (p.headroom.length - n)
    data := p.headroom.drop (p.headroom.length - n) ++ p.data
    length := p.length + n }

/-- `nx_packet_prepend_ptr += n; nx_packet_length -= n` -/
def NxPacket.advance (p : NxPacket) (n : ℕ) : NxPacket :=
  { p with
    headroom := p.headroom ++ p.data.take n
    data := p.data.drop n
    length := p.length - n }

/-- Writing from `nx_packet_prepend_ptr` on. -/
def NxPacket.overwrite (p : NxPacket) (bytes : List UInt8) : NxPacket :=
  { p with data := bytes ++ p.data.drop bytes.length }

/-- The commands of `NX_IP_DRIVER` that send a packet. -/
inductive SendCommand where
  | LINK_PACKET_SEND
  | LINK_PACKET_BROADCAST
  | LINK_ARP_SEND
  | LINK_ARP_RESPONSE_SEND
  | LINK_RARP_SEND
  deriving DecidableEq, Repr

/-- What NetX hands to the driver: the packet, and the two words of the address it is to go
to. -/
structure Request where
  command : SendCommand
  packet : NxPacket
  physicalAddressMsw : UInt32
  physicalAddressLsw : UInt32
  deriving DecidableEq, Repr

def etherType (r : Request) : UInt16 :=
  match r.command with
  | .LINK_ARP_SEND => NX_ETHERNET_ARP
  | .LINK_ARP_RESPONSE_SEND => NX_ETHERNET_ARP
  | .LINK_RARP_SEND => NX_ETHERNET_RARP
  | _ => if r.packet.ipVersion = 4 then NX_ETHERNET_IP else NX_ETHERNET_IPV6

/-- A word of a packet, the most significant byte first. -/
def word32 (bytes : List UInt8) (i : ℕ) : UInt32 :=
  (bytes.getD i 0).toUInt32 <<< 24 ||| (bytes.getD (i + 1) 0).toUInt32 <<< 16 |||
    (bytes.getD (i + 2) 0).toUInt32 <<< 8 ||| (bytes.getD (i + 3) 0).toUInt32

def word16 (bytes : List UInt8) (i : ℕ) : UInt16 :=
  (bytes.getD i 0).toUInt16 <<< 8 ||| (bytes.getD (i + 1) 0).toUInt16

/-- The six bytes of an address. -/
def addressBytes (msw lsw : UInt32) : List UInt8 :=
  [(msw >>> 8).toUInt8, msw.toUInt8, (lsw >>> 24).toUInt8, (lsw >>> 16).toUInt8,
    (lsw >>> 8).toUInt8, lsw.toUInt8]

/-- `nx_interface_physical_address_msw` and `_lsw`, made from `sMAC` -/
def SOURCE_MSW : UInt32 := 0x0000000a
def SOURCE_LSW : UInt32 := 0x35000102

/-- The Ethernet header. -/
def header (msw lsw : UInt32) (etherType : UInt16) : List UInt8 :=
  addressBytes msw lsw ++ addressBytes SOURCE_MSW SOURCE_LSW ++
    [(etherType >>> 8).toUInt8, etherType.toUInt8]

/-- Where a packet goes. `eth` is its frame, the header not written yet. -/
def destination (cache : ArpCache) (r : Request) (eth : List UInt8) : Option (UInt32 × UInt32) :=
  let given := (r.physicalAddressMsw, r.physicalAddressLsw)
  if etherType r = NX_ETHERNET_IP then
    match arpLookup cache (word32 eth (NX_ETHERNET_SIZE + 16)) with
    | some cached => some cached
    | none => if given.1 > 0xffff ∨ (given.1 = 0 ∧ given.2 = 0) then none else some given
  else some given

/-- The loop that copies the fragments of a chain into `tx_buf`. -/
def flatten (dst : List UInt8) : List (List UInt8) → List UInt8
  | [] => dst
  | frag :: rest =>
    if dst.length < GEM2_RX_BUFSIZE then
      flatten (dst ++ frag.take (GEM2_RX_BUFSIZE - dst.length)) rest
    else dst

/-- `tx_data` and `total`: a single buffer is sent from where it is. -/
def txData (p : NxPacket) : List UInt8 × ℕ :=
  if p.next = [] ∧ p.length ≤ GEM2_RX_BUFSIZE then (p.data, p.length)
  else
    let copy := flatten [] (p.data :: p.next)
    (copy, copy.length)

/-! ### The ring of packets on their way out -/

/-- `data` is what lies at the address in the descriptor. -/
structure TxDescriptor where
  data : List UInt8
  status : UInt32
  deriving DecidableEq, Repr, Inhabited

/-- The DMA is done with the descriptor. -/
def TxDescriptor.used (bd : TxDescriptor) : Bool := bd.status &&& XEMACPS_TXBUF_USED_MASK != 0

def TxDescriptor.wrap (bd : TxDescriptor) : Bool := bd.status &&& XEMACPS_TXBUF_WRAP_MASK != 0

/-- What the DMA sends. -/
def TxDescriptor.frame (bd : TxDescriptor) : List UInt8 :=
  bd.data.take (bd.status &&& XEMACPS_TXBUF_LEN_MASK).toNat

/-- `sTxBd` and the variables `tx_…`, with the packets given back to NetX. -/
structure TxRing where
  bds : List TxDescriptor
  pkts : List (Option ℕ)
  head : ℕ
  tail : ℕ
  count : ℕ
  complete : UInt32
  frames : UInt32
  released : List ℕ
  deriving Repr

namespace TxRing

def bd (s : TxRing) (slot : ℕ) : TxDescriptor := s.bds.getD slot default

def pkt (s : TxRing) (slot : ℕ) : Option ℕ := s.pkts.getD slot none

/-- `nx_packet_transmit_release` -/
def release (s : TxRing) (number : ℕ) : TxRing := { s with released := s.released ++ [number] }

/-- `WRAP` is set in the last descriptor of the ring. -/
def wrapBit (slot : ℕ) : UInt32 :=
  if slot = GEM2_TX_BD_COUNT - 1 then XEMACPS_TXBUF_WRAP_MASK else 0

/-- The status of a descriptor that is given to the DMA. -/
def armedStatus (total slot : ℕ) : UInt32 :=
  UInt32.ofNat total &&& XEMACPS_TXBUF_LEN_MASK ||| XEMACPS_TXBUF_LAST_MASK ||| wrapBit slot

/-- The descriptor at the head is given to the DMA. -/
def publish (s : TxRing) (number : ℕ) (data : List UInt8) (total : ℕ) : TxRing :=
  { s with
    bds := s.bds.set s.head ⟨data, armedStatus total s.head⟩
    pkts := s.pkts.set s.head (some number)
    head := (s.head + 1) % GEM2_TX_BD_COUNT
    count := s.count + 1
    frames := s.frames + 1 }

/-- `XEmacPs_BdRingClone` with a descriptor that is used. -/
def idleBds : List TxDescriptor :=
  (List.range GEM2_TX_BD_COUNT).map fun slot => ⟨[], XEMACPS_TXBUF_USED_MASK ||| wrapBit slot⟩

/-- One turn of the loop in `gem2_full_reinit` that gives the packets back. -/
def releaseSlot (s : TxRing) (slot : ℕ) : TxRing :=
  match s.pkt slot with
  | some number => { s.release number with pkts := s.pkts.set slot none }
  | none => s

/-- What `gem2_full_reinit` does to the ring. -/
def reinit (s : TxRing) : TxRing :=
  let s := (List.range GEM2_TX_BD_COUNT).foldl releaseSlot s
  { s with head := 0, tail := 0, count := 0, bds := idleBds }

/-- One turn of the loop in `gem2_tx_cleanup`, for a descriptor that is used. -/
def retire (s : TxRing) : TxRing :=
  let slot := s.tail
  { s.releaseSlot slot with
    complete := s.complete + 1
    tail := (slot + 1) % GEM2_TX_BD_COUNT
    count := s.count - 1 }

def cleanupFrom : ℕ → TxRing → TxRing
  | 0, s => s
  | n + 1, s => if (s.bd s.tail).used then cleanupFrom n s.retire else s

end TxRing

/-- `gem2_tx_cleanup` -/
def txCleanup (s : TxRing) : TxRing := s.cleanupFrom s.count

/-- The ring after `gem2_initialize`. -/
def TxRing.initial : TxRing where
  bds := TxRing.idleBds
  pkts := List.replicate GEM2_TX_BD_COUNT none
  head := 0
  tail := 0
  count := 0
  complete := 0
  frames := 0
  released := []

/-- What `gem2_packet_send` leaves behind; `sent` is whether the status is `NX_SUCCESS`. -/
structure SendOutcome where
  sent : Bool
  packet : NxPacket
  ring : TxRing

/-- `gem2_packet_send` -/
def packetSend (cache : ArpCache) (s : TxRing) (r : Request) : SendOutcome :=
  if s.count ≥ GEM2_TX_BD_COUNT then ⟨false, r.packet, s.release r.packet.number⟩
  else
    let pkt := r.packet.retreat NX_ETHERNET_SIZE
    match destination cache r pkt.data with
    | none => ⟨false, pkt.advance NX_ETHERNET_SIZE, s.release pkt.number⟩
    | some (msw, lsw) =>
      let pkt := pkt.overwrite (header msw lsw (etherType r))
      let (data, total) := txData pkt
      ⟨true, pkt.advance NX_ETHERNET_SIZE, s.publish pkt.number data total⟩

/-! ### The packets that wait for a frame -/

/-- `isNew` and `wrap` are the low bits of the address word, `buffer` is the packet whose data
is at the address. -/
structure RxDescriptor where
  isNew : Bool
  wrap : Bool
  buffer : ℕ
  status : UInt32
  deriving DecidableEq, Repr, Inhabited

/-- Which function of NetX gets a packet. -/
inductive Route where
  | ip
  | arp
  | rarp
  | release
  deriving DecidableEq, Repr

/-- A packet as it is handed to NetX. -/
structure Delivery where
  number : ℕ
  length : UInt32
  data : List UInt8
  route : Route
  deriving DecidableEq, Repr

def route (etype : UInt16) : Route :=
  if etype = NX_ETHERNET_IP ∨ etype = NX_ETHERNET_IPV6 then .ip
  else if etype = NX_ETHERNET_ARP then .arp
  else if etype = NX_ETHERNET_RARP then .rarp
  else .release

/-- What `gem2_rx_process` makes of a buffer and the descriptor's status. -/
def deliver (number : ℕ) (buffer : List UInt8) (status : UInt32) : Delivery :=
  let frameLen := status &&& XEMACPS_RXBUF_LEN_MASK
  let eth := buffer.drop GEM2_RX_OFFSET
  let length := frameLen - UInt32.ofNat NX_ETHERNET_SIZE
  ⟨number, length, (eth.drop NX_ETHERNET_SIZE).take length.toNat, route (word16 eth 12)⟩

/-- The sender of an ARP message. -/
def arpSender (dump : List UInt8) : ArpEntry where
  ip := word32 dump 14
  msw := (word16 dump 8).toUInt32
  lsw := word32 dump 10

/-- `gem2_rx_process` learns from a packet what the driver needs for its own sends. -/
def learnFrom (c : ArpCache) (d : Delivery) : ArpCache :=
  if d.route = .arp ∧ 28 ≤ d.length ∧ (arpSender d.data).ip ≠ 0 then
    arpLearn c (arpSender d.data)
  else c

/-- `sRxBd`, `rx_pkts`, `rx_tail` and the cache. A packet's number is that of its allocation,
`memory` is what lies in the packets' buffers, and `handed` are the packets NetX got. -/
structure RxRing where
  bds : List RxDescriptor
  pkts : List (Option ℕ)
  tail : ℕ
  memory : List (List UInt8)
  arp : ArpCache
  frames : UInt32
  handed : List Delivery

namespace RxRing

def bd (s : RxRing) (slot : ℕ) : RxDescriptor := s.bds.getD slot default

def pkt (s : RxRing) (slot : ℕ) : Option ℕ := s.pkts.getD slot none

def buffer (s : RxRing) (number : ℕ) : List UInt8 := s.memory.getD number []

/-- The descriptor is given to the DMA with the packet's buffer. -/
def arm (s : RxRing) (slot number : ℕ) : RxRing :=
  { s with
    bds := s.bds.set slot
      { isNew := false
        wrap := (s.bd slot).wrap || slot == GEM2_RX_BD_COUNT - 1
        buffer := number
        status := 0 } }

/-- `gem2_alloc_rx_packet`. NetX answers with a packet, whose buffer is in any state, or with
none. -/
def allocRxPacket (s : RxRing) (slot : ℕ) (answer : Option (List UInt8)) : Option RxRing :=
  match answer with
  | none => none
  | some memory =>
    let number := s.memory.length
    some ({ s with
      memory := s.memory ++ [memory]
      pkts := s.pkts.set slot (some number) }.arm slot number)

/-- The frame in a slot goes to NetX. A slot without a packet is one whose frame went there
before, when there was no packet to refill it. -/
def takeFrame (s : RxRing) (slot : ℕ) : RxRing :=
  match s.pkt slot with
  | none => s
  | some number =>
    let d := deliver number (s.buffer number) (s.bd slot).status
    { s with
      frames := s.frames + 1
      arp := learnFrom s.arp d
      handed := s.handed ++ [d]
      pkts := s.pkts.set slot none }

/-- The loop of `gem2_rx_process`, with NetX's answer for each turn. -/
def rxTurns (s : RxRing) : List (Option (List UInt8)) → RxRing
  | [] => s
  | answer :: answers =>
    let slot := s.tail
    if (s.bd slot).isNew then
      let s := s.takeFrame slot
      match s.allocRxPacket slot answer with
      | none => s
      | some s => rxTurns { s with tail := (slot + 1) % GEM2_RX_BD_COUNT } answers
    else s

/-- One turn of the loop in `gem2_full_reinit` over the slots. -/
def reinitSlot (answers : ℕ → Option (List UInt8)) (s : RxRing) (slot : ℕ) : RxRing :=
  match s.pkt slot with
  | none => (s.allocRxPacket slot (answers slot)).getD s
  | some number => s.arm slot number

/-- What `gem2_full_reinit` does to the ring. -/
def reinit (answers : ℕ → Option (List UInt8)) (s : RxRing) : RxRing :=
  { (List.range GEM2_RX_BD_COUNT).foldl (reinitSlot answers) s with tail := 0 }

end RxRing

/-- `gem2_rx_process` -/
def rxProcess (s : RxRing) (answers : ℕ → Option (List UInt8)) : RxRing :=
  s.rxTurns ((List.range GEM2_RX_BD_COUNT).map answers)

/-- The ring after `XEmacPs_BdRingCreate`. -/
def RxRing.created : RxRing where
  bds := List.replicate GEM2_RX_BD_COUNT ⟨false, false, 0, 0⟩
  pkts := List.replicate GEM2_RX_BD_COUNT none
  tail := 0
  memory := []
  arp := ArpCache.empty
  frames := 0
  handed := []

/-- The loop in `gem2_initialize` that fills the ring. -/
def rxFill (s : RxRing) (answers : ℕ → Option (List UInt8)) : List ℕ → Option RxRing
  | [] => some s
  | slot :: slots =>
    match s.allocRxPacket slot (answers slot) with
    | none => none
    | some s => rxFill s answers slots

/-- The ring after `gem2_initialize`, unless NetX has too few packets. -/
def rxInitialize (answers : ℕ → Option (List UInt8)) : Option RxRing :=
  rxFill RxRing.created answers (List.range GEM2_RX_BD_COUNT)

end Gem2
