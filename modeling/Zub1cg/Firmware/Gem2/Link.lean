import Zub1cg.Firmware.Gem2

/-!
# The driver, its watchdogs and the DMA

Each function of the driver runs to its end before the next one starts. The DMA takes a step
in between: it sends the frame it stands on, or it writes a frame that has arrived. Both ends
move through their ring on their own, and only the watchdogs and a restart put them back.

## Main definitions

- `txPollRecover`, `rxPollRecover`, `linkPollRecover` — the watchdogs
- `Link` — the driver, the two positions of the DMA and what has gone over the wire
- `Link.step`, `Link.run` — the functions of the driver and the DMA, in any order
-/

namespace Gem2

/-! ### The watchdogs -/

/-- What a watchdog does about a stall. -/
inductive Recovery where
  | nothing
  | stallRecover
  | fullReinit
  deriving DecidableEq, Repr

/-- The static variables of `gem2_tx_poll_recover`. -/
structure TxPoll where
  lastTxComplete : UInt32
  lastSeenProgress : Bool
  consecutiveStallRecoveries : UInt32
  deriving DecidableEq, Repr

def TxPoll.initial : TxPoll := ⟨0, true, 0⟩

/-- `gem2_tx_poll_recover` -/
def txPollRecover (p : TxPoll) (txCount : ℕ) (txComplete : UInt32) : TxPoll × Recovery :=
  if txCount = 0 then (⟨txComplete, true, 0⟩, .nothing)
  else if txComplete ≠ p.lastTxComplete then (⟨txComplete, true, 0⟩, .nothing)
  else if p.lastSeenProgress then ({ p with lastSeenProgress := false }, .nothing)
  else
    let recoveries := p.consecutiveStallRecoveries + 1
    if recoveries ≥ GEM2_TX_STALL_ESCALATE_THRESHOLD then
      ({ p with consecutiveStallRecoveries := 0 }, .fullReinit)
    else ({ p with consecutiveStallRecoveries := recoveries }, .stallRecover)

/-- The static variables of `gem2_rx_poll_recover`. -/
structure RxPoll where
  lastRxFrames : UInt32
  lastTxFrames : UInt32
  deriving DecidableEq, Repr

def RxPoll.initial : RxPoll := ⟨0, 0⟩

/-- `gem2_rx_poll_recover` -/
def rxPollRecover (p : RxPoll) (traceActive : Bool) (rxFrames txFrames : UInt32) :
    RxPoll × Recovery :=
  let next : RxPoll := ⟨rxFrames, txFrames⟩
  if traceActive ∧ rxFrames = p.lastRxFrames ∧ txFrames ≠ p.lastTxFrames then
    (next, .stallRecover)
  else (next, .nothing)

/-- `sGem2LinkPollLastIsrCalls`, `sGem2LinkPollStallTicks` -/
structure LinkPoll where
  lastIsrCalls : UInt32
  stallTicks : UInt32
  deriving DecidableEq, Repr

def LinkPoll.initial : LinkPoll := ⟨0, 0⟩

/-- `gem2_link_poll_recover` -/
def linkPollRecover (p : LinkPoll) (traceActive : Bool) (isrCalls : UInt32) :
    LinkPoll × Recovery :=
  if ¬traceActive then (⟨isrCalls, 0⟩, .nothing)
  else if isrCalls ≠ p.lastIsrCalls then (⟨isrCalls, 0⟩, .nothing)
  else
    let ticks := p.stallTicks + 1
    if ticks ≥ GEM2_LINK_STALL_TICKS_THRESHOLD then ({ p with stallTicks := 0 }, .fullReinit)
    else ({ p with stallTicks := ticks }, .nothing)

/-! ### Driver and DMA -/

/-- A frame the DMA has written: the packet, the frame, what the buffer holds afterwards and the
descriptor's status. -/
structure Arrival where
  number : ℕ
  frame : List UInt8
  buffer : List UInt8
  status : UInt32
  deriving DecidableEq, Repr

/-- The DMA has written to the packet of a descriptor. -/
def RxRing.write (s : RxRing) (slot : ℕ) (a : Arrival) : RxRing :=
  { s with
    bds := s.bds.set slot { s.bd slot with isNew := true, status := a.status }
    memory := s.memory.set a.number a.buffer }

/-- `txPointer` and `rxPointer` are where the DMA stands. `submitted` are the packets NetX has
given to the driver, `accepted` the frames of those it has taken, `wire` the frames sent and
`written` those that have arrived. -/
structure Link where
  tx : TxRing
  rx : RxRing
  traceActive : Bool
  isrCalls : UInt32
  txPoll : TxPoll
  rxPoll : RxPoll
  linkPoll : LinkPoll
  txPointer : ℕ
  rxPointer : ℕ
  restarts : ℕ
  submitted : List ℕ
  accepted : List (List UInt8)
  wire : List (List UInt8)
  written : List Arrival

/-- The DMA is done with a descriptor. -/
def TxRing.markUsed (s : TxRing) (slot : ℕ) : TxRing :=
  { s with
    bds := s.bds.set slot
      { s.bd slot with status := (s.bd slot).status ||| XEMACPS_TXBUF_USED_MASK } }

/-- The frame of a request that is not refused. -/
def ethernetFrame (cache : ArpCache) (r : Request) : Option (List UInt8) :=
  (destination cache r (r.packet.retreat NX_ETHERNET_SIZE).data).map fun (msw, lsw) =>
    (header msw lsw (etherType r) ++ (r.packet.data :: r.packet.next).flatten).take
      GEM2_RX_BUFSIZE

namespace Link

/-- `gem2_full_reinit` -/
def fullReinit (l : Link) (answers : ℕ → Option (List UInt8)) : Link :=
  { l with
    tx := l.tx.reinit
    rx := l.rx.reinit answers
    txPointer := 0
    rxPointer := 0
    restarts := l.restarts + 1 }

/-- `gem2_tx_stall_recover` -/
def txStallRecover (l : Link) : Link := { l with txPointer := l.tx.tail }

/-- `gem2_rx_stall_recover` -/
def rxStallRecover (l : Link) : Link := { l with rxPointer := l.rx.tail }

/-- `gem2_packet_send` -/
def send (l : Link) (r : Request) : Link :=
  let outcome := packetSend l.rx.arp l.tx r
  { l with
    tx := outcome.ring
    submitted := l.submitted ++ [r.packet.number]
    accepted := if outcome.sent then l.accepted ++ (ethernetFrame l.rx.arp r).toList
      else l.accepted }

/-- `gem2_irq_handler` -/
def irqHandler (l : Link) (isr : UInt32) (answers : ℕ → Option (List UInt8)) : Link :=
  let l := { l with isrCalls := l.isrCalls + 1 }
  let l :=
    if isr &&& (XEMACPS_IXR_FRAMERX_MASK ||| XEMACPS_IXR_RXUSED_MASK) ≠ 0 then
      { l with rx := rxProcess l.rx answers }
    else l
  if isr &&& XEMACPS_IXR_RXUSED_MASK ≠ 0 then l.rxStallRecover else l

/-- `gem2_tx_poll_recover` -/
def pollTx (l : Link) (answers : ℕ → Option (List UInt8)) : Link :=
  let (poll, recovery) := txPollRecover l.txPoll l.tx.count l.tx.complete
  let l := { l with txPoll := poll }
  match recovery with
  | .nothing => l
  | .stallRecover => l.txStallRecover
  | .fullReinit => l.fullReinit answers

/-- `gem2_rx_poll_recover` -/
def pollRx (l : Link) : Link :=
  let (poll, recovery) := rxPollRecover l.rxPoll l.traceActive l.rx.frames l.tx.frames
  let l := { l with rxPoll := poll }
  match recovery with
  | .nothing => l
  | _ => l.rxStallRecover

/-- `gem2_link_poll_recover` -/
def pollLink (l : Link) (answers : ℕ → Option (List UInt8)) : Link :=
  let (poll, recovery) := linkPollRecover l.linkPoll l.traceActive l.isrCalls
  let l := { l with linkPoll := poll }
  match recovery with
  | .nothing => l
  | _ => l.fullReinit answers

/-- The DMA sends a frame, unless the descriptor it stands on is used. -/
def transmit (l : Link) : Link :=
  let bd := l.tx.bd l.txPointer
  if bd.used then l
  else
    { l with
      tx := l.tx.markUsed l.txPointer
      txPointer := if bd.wrap then 0 else l.txPointer + 1
      wire := l.wire ++ [bd.frame] }

/-- What the DMA leaves for a frame. The length is in the fourteen low bits of the status, with
jumbo frames enabled. -/
def arrival (l : Link) (pad : UInt8 × UInt8) (frame : List UInt8) (flags : UInt32) : Arrival :=
  let number := (l.rx.bd l.rxPointer).buffer
  { number := number
    frame := frame
    buffer := pad.1 :: pad.2 :: frame ++
      (l.rx.buffer number).drop (GEM2_RX_OFFSET + frame.length)
    status := flags &&& 0xffffc000 ||| UInt32.ofNat frame.length }

/-- The DMA writes a frame, unless the descriptor it stands on is new. -/
def receive (l : Link) (pad : UInt8 × UInt8) (frame : List UInt8) (flags : UInt32) : Link :=
  let bd := l.rx.bd l.rxPointer
  if bd.isNew ∨ GEM2_RX_OFFSET + frame.length > GEM2_RX_BUFSIZE then l
  else
    let a := l.arrival pad frame flags
    { l with
      rx := l.rx.write l.rxPointer a
      rxPointer := if bd.wrap then 0 else l.rxPointer + 1
      written := l.written ++ [a] }

/-- What can happen. `answers` are those of NetX to the allocations of the call. -/
inductive Op where
  | send (r : Request)
  | deferredProcessing
  | irq (isr : UInt32) (answers : ℕ → Option (List UInt8))
  | setTraceActive (active : Bool)
  | pollTx (answers : ℕ → Option (List UInt8))
  | pollRx
  | pollLink (answers : ℕ → Option (List UInt8))
  | transmit
  | receive (pad : UInt8 × UInt8) (frame : List UInt8) (flags : UInt32)

def step (l : Link) : Op → Link
  | .send r => l.send r
  | .deferredProcessing => { l with tx := txCleanup l.tx }
  | .irq isr answers => l.irqHandler isr answers
  | .setTraceActive active => { l with traceActive := active }
  | .pollTx answers => l.pollTx answers
  | .pollRx => l.pollRx
  | .pollLink answers => l.pollLink answers
  | .transmit => l.transmit
  | .receive pad frame flags => l.receive pad frame flags

def run (l : Link) (ops : List Op) : Link := ops.foldl step l

/-- After `NX_LINK_INITIALIZE` and `NX_LINK_ENABLE`. -/
def enabled (rx : RxRing) : Link where
  tx := TxRing.initial
  rx := rx
  traceActive := false
  isrCalls := 0
  txPoll := TxPoll.initial
  rxPoll := RxPoll.initial
  linkPoll := LinkPoll.initial
  txPointer := 0
  rxPointer := 0
  restarts := 0
  submitted := []
  accepted := []
  wire := []
  written := []

/-- What `gem2_initialize` and `gem2_enable` lead to, unless NetX has too few packets. -/
def start (answers : ℕ → Option (List UInt8)) : Option Link := (rxInitialize answers).map enabled

/-- The ring is filled when NetX has a packet for every slot. -/
theorem exists_start (answers : ℕ → Option (List UInt8))
    (hanswers : ∀ slot, (answers slot).isSome) : ∃ l, start answers = some l := by
  have hfill : ∀ slots (s : RxRing), ∃ s', rxFill s answers slots = some s' := by
    intro slots
    induction slots with
    | nil => exact fun s => ⟨s, rfl⟩
    | cons slot slots ih =>
      intro s
      obtain ⟨memory, hmemory⟩ := Option.isSome_iff_exists.mp (hanswers slot)
      rw [rxFill, hmemory]
      exact ih _
  obtain ⟨rx, hrx⟩ := hfill (List.range GEM2_RX_BD_COUNT) RxRing.created
  exact ⟨enabled rx, Option.map_eq_some_iff.mpr ⟨rx, hrx, rfl⟩⟩

/-- The start at which NetX has an empty packet for every slot. -/
def fresh : Link := (start fun _ => some []).getD (enabled RxRing.created)

theorem start_fresh : start (fun _ => some []) = some fresh := by
  obtain ⟨l, hl⟩ := exists_start (fun _ => some []) fun _ => rfl
  rw [fresh, hl]
  rfl

/-- A frame from a neighbour, with the EtherType `0x0800 + type`. -/
def frameFrom (host type : UInt8) (data : List UInt8) : List UInt8 :=
  [0, 10, 53, 0, 1, 2, 0, 10, 53, 0, 1, host, 8, type] ++ data

/-- Every operation of the run is `ok` where it happens. -/
def Follows (ok : Link → Op → Prop) (l : Link) : List Op → Prop
  | [] => True
  | op :: ops => ok l op ∧ Follows ok (l.step op) ops

instance Follows.decidable {ok : Link → Op → Prop} [∀ l op, Decidable (ok l op)] :
    ∀ (l : Link) (ops : List Op), Decidable (Follows ok l ops)
  | _, [] => isTrue trivial
  | l, op :: ops =>
    have : Decidable (Follows ok (l.step op) ops) := Follows.decidable (l.step op) ops
    inferInstanceAs (Decidable (ok l op ∧ Follows ok (l.step op) ops))

/-- What a step that is `ok` preserves, a run preserves. -/
theorem run_follows {ok : Link → Op → Prop} {P : Link → Prop}
    (hstep : ∀ l op, ok l op → P l → P (l.step op)) {ops : List Op} {l : Link}
    (hok : Follows ok l ops) (hl : P l) : P (l.run ops) := by
  induction ops generalizing l with
  | nil => exact hl
  | cons op ops ih => exact ih hok.2 (hstep l op hok.1 hl)

theorem run_invariant {P : Link → Prop} (hstep : ∀ l op, P l → P (l.step op)) (ops : List Op)
    {l : Link} (hl : P l) : P (l.run ops) := by
  have htrue : ∀ l, Follows (fun _ _ => True) l ops := by
    induction ops with
    | nil => exact fun _ => trivial
    | cons op ops ih => exact fun l => ⟨trivial, ih (l.step op)⟩
  exact run_follows (fun l op _ => hstep l op) (htrue l) hl

end Link

end Gem2
