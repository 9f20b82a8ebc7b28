import Zub1cg.Library.Clocked
import Zub1cg.Library.Packets
import Mathlib.Data.BitVec

/-!
# The channel packetizer (`orbtrace_channel_packetizer.sv`)

The packetizer holds one byte back until it knows whether the byte is the last one of its
packet: a byte of another channel follows, the packet is full, or nothing has followed for a
while. The two counters are natural numbers. Every update reads the old state `s` and writes
the new state `n`.

## Main definitions

- `ChannelPacketizer.State`, `ChannelPacketizer.Input` — the registers and the ports at one edge
- `ChannelPacketizer.step` — one edge of `clk`
- `Packetized` — the packets so far, in terms of the registers

## Main results

- `conserved` — what an edge takes is what it hands over and what it holds back
- `Packetized.step` — what an edge does to the packets
-/

namespace ChannelPacketizer

/-- The input ports sampled at one edge of `clk`. -/
structure Input where
  resetN : Bool
  inputChannel : BitVec 7
  inputData : UInt8
  inputValid : Bool
  outputReady : Bool

structure State where
  channel : BitVec 7
  heldData : UInt8
  count : ℕ
  idle : ℕ
  held : Bool
  endPending : Bool

/-! ### Wires -/

def channelBoundary (i : Input) (s : State) : Bool :=
  s.held && i.inputValid && i.inputChannel != s.channel

def sizeBoundary (maxPacket : ℕ) (s : State) : Bool := s.held && s.count == maxPacket

def outputValid (maxPacket : ℕ) (i : Input) (s : State) : Bool :=
  s.held && (i.inputValid || s.endPending || sizeBoundary maxPacket s)

def outputLast (maxPacket : ℕ) (i : Input) (s : State) : Bool :=
  s.endPending || channelBoundary i s || sizeBoundary maxPacket s

def inputReady (maxPacket : ℕ) (i : Input) (s : State) : Bool :=
  !s.held || (i.outputReady && outputValid maxPacket i s)

/-- The held byte is handed over at this edge. -/
def outputFire (maxPacket : ℕ) (i : Input) (s : State) : Bool :=
  outputValid maxPacket i s && i.outputReady

/-! ### The clocked block -/

/-- The registers the reset branch assigns. -/
def resetState : State where
  channel := 0
  heldData := 0
  count := 0
  idle := 0
  held := false
  endPending := false

/-- The packet ends when nothing has followed the held byte for a while. -/
def idleUpdate (s n : State) : State :=
  let n := if s.held && s.idle != 0 then { n with idle := s.idle - 1 } else n
  if s.held && s.idle == 1 then { n with endPending := true } else n

def handshakeUpdate (maxPacket idleCycles : ℕ) (i : Input) (s n : State) : State :=
  if outputFire maxPacket i s then
    if i.inputValid then
      { held := true
        heldData := i.inputData
        channel := i.inputChannel
        count := if outputLast maxPacket i s then 1 else s.count + 1
        idle := idleCycles
        endPending := false }
    else { n with held := false, endPending := false, count := 0, idle := 0 }
  else if !s.held && i.inputValid then
    { n with
      held := true
      heldData := i.inputData
      channel := i.inputChannel
      count := 1
      idle := idleCycles }
  else n

/-- One edge of `clk`. -/
def step (maxPacket idleCycles : ℕ) (i : Input) (s : State) : State :=
  if !i.resetN then resetState else handshakeUpdate maxPacket idleCycles i s (idleUpdate s s)

/-- The byte taken at this edge, with its channel. -/
def accepted (maxPacket : ℕ) (i : Input) (s : State) : List (BitVec 7 × UInt8) :=
  if i.inputValid && inputReady maxPacket i s then [(i.inputChannel, i.inputData)] else []

/-- The byte handed over at this edge, with its channel and last flag. -/
def handedOver (maxPacket : ℕ) (i : Input) (s : State) : List ((BitVec 7 × UInt8) × Bool) :=
  if outputFire maxPacket i s then
    [((s.channel, s.heldData), outputLast maxPacket i s)]
  else []

/-- The byte that is held back. -/
def heldByte (s : State) : List (BitVec 7 × UInt8) :=
  if s.held then [(s.channel, s.heldData)] else []

/-! ### The packets -/

/-- All bytes of a packet have one channel. -/
def OneChannel (p : List (BitVec 7 × UInt8)) : Prop := ∃ channel, ∀ x ∈ p, x.1 = channel

/-- The packets in `items` have one channel each and are not too long; the open one has the
channel of the held byte, which is its next byte and still fits. -/
structure Packetized (maxPacket : ℕ) (items : List ((BitVec 7 × UInt8) × Bool)) (s : State) :
    Prop where
  completed : ∀ p ∈ Packets.completed items, OneChannel p ∧ p.length ≤ maxPacket
  empty : s.held = false → Packets.pending items = []
  count : s.held = true → s.count = (Packets.pending items).length + 1
  fits : s.held = true → s.count ≤ maxPacket
  channel : ∀ x ∈ Packets.pending items, x.1 = s.channel

theorem packetized_start (maxPacket : ℕ) : Packetized maxPacket [] resetState where
  completed := fun _ h => by contradiction
  empty := fun _ => rfl
  count := fun h => by contradiction
  fits := fun h => by contradiction
  channel := fun _ h => by contradiction

section

variable {maxPacket idleCycles : ℕ} {i : Input} {s : State}
  {items : List ((BitVec 7 × UInt8) × Bool)}

/-! ### The four kinds of edges -/

/-- Only the handshakes change what is held. -/
theorem idleUpdate_frame (s : State) :
    (idleUpdate s s).held = s.held ∧ (idleUpdate s s).channel = s.channel ∧
      (idleUpdate s s).heldData = s.heldData ∧ (idleUpdate s s).count = s.count := by
  rw [idleUpdate]
  split_ifs <;> exact ⟨rfl, rfl, rfl, rfl⟩

theorem step_eq (hi : i.resetN = true) :
    step maxPacket idleCycles i s = handshakeUpdate maxPacket idleCycles i s (idleUpdate s s) := by
  rw [step, hi]
  rfl

theorem held_of_fire (hfire : outputFire maxPacket i s = true) : s.held = true := by
  rw [outputFire, outputValid, Bool.and_eq_true, Bool.and_eq_true] at hfire
  exact hfire.1.1

/-- The held byte goes and the next one takes its place. -/
theorem step_pass (hi : i.resetN = true) (hfire : outputFire maxPacket i s = true)
    (hinput : i.inputValid = true) :
    (step maxPacket idleCycles i s).held = true ∧
      (step maxPacket idleCycles i s).channel = i.inputChannel ∧
      (step maxPacket idleCycles i s).heldData = i.inputData ∧
      (step maxPacket idleCycles i s).count =
        if outputLast maxPacket i s then 1 else s.count + 1 := by
  rw [step_eq hi, handshakeUpdate, if_pos hfire, if_pos hinput]
  exact ⟨rfl, rfl, rfl, rfl⟩

/-- The held byte goes and nothing takes its place. -/
theorem step_release (hi : i.resetN = true) (hfire : outputFire maxPacket i s = true)
    (hinput : i.inputValid = false) : (step maxPacket idleCycles i s).held = false := by
  rw [step_eq hi, handshakeUpdate, if_pos hfire, hinput, if_neg Bool.false_ne_true]

/-- The first byte of a packet is taken. -/
theorem step_hold (hi : i.resetN = true) (hheld : s.held = false) (hinput : i.inputValid = true) :
    (step maxPacket idleCycles i s).held = true ∧
      (step maxPacket idleCycles i s).channel = i.inputChannel ∧
      (step maxPacket idleCycles i s).heldData = i.inputData ∧
      (step maxPacket idleCycles i s).count = 1 := by
  have hfire : ¬ outputFire maxPacket i s = true := by
    intro hfire
    rw [held_of_fire hfire] at hheld
    contradiction
  rw [step_eq hi, handshakeUpdate, if_neg hfire, hheld, hinput]
  exact ⟨rfl, rfl, rfl, rfl⟩

/-- The held byte stays, or there is none. -/
theorem step_wait (hi : i.resetN = true) (hfire : outputFire maxPacket i s = false)
    (hwait : s.held = true ∨ i.inputValid = false) :
    (step maxPacket idleCycles i s).held = s.held ∧
      (step maxPacket idleCycles i s).channel = s.channel ∧
      (step maxPacket idleCycles i s).heldData = s.heldData ∧
      (step maxPacket idleCycles i s).count = s.count := by
  have hnone : (!s.held && i.inputValid) = false := by
    obtain hheld | hinput := hwait
    · rw [hheld, Bool.not_true, Bool.false_and]
    · rw [hinput, Bool.and_false]
  rw [step_eq hi, handshakeUpdate, hfire, hnone]
  exact idleUpdate_frame s

/-- A byte is taken when nothing is held or the held byte goes. -/
theorem accepted_eq : accepted maxPacket i s =
    if i.inputValid && (!s.held || outputFire maxPacket i s) then
      [(i.inputChannel, i.inputData)] else [] := by
  rw [accepted, inputReady, outputFire, Bool.and_comm i.outputReady]

/-- No byte is lost or made up. -/
theorem conserved (hi : i.resetN = true) :
    heldByte s ++ accepted maxPacket i s =
      (handedOver maxPacket i s).map Prod.fst ++ heldByte (step maxPacket idleCycles i s) := by
  rw [accepted_eq, handedOver, heldByte, heldByte]
  cases hfire : outputFire maxPacket i s with
  | true =>
    rw [held_of_fire hfire, Bool.or_true, Bool.and_true]
    cases hinput : i.inputValid with
    | true =>
      obtain ⟨hheld, hchannel, hdata, -⟩ := @step_pass maxPacket idleCycles i s hi hfire hinput
      rw [hheld, hchannel, hdata]
      rfl
    | false =>
      rw [step_release hi hfire hinput]
      rfl
  | false =>
    cases hheld : s.held with
    | true =>
      obtain ⟨hsame, hchannel, hdata, -⟩ :=
        @step_wait maxPacket idleCycles i s hi hfire (.inl hheld)
      rw [hsame, hchannel, hdata, hheld, Bool.not_true, Bool.or_false, Bool.and_false]
      rfl
    | false =>
      cases hinput : i.inputValid with
      | true =>
        obtain ⟨hset, hchannel, hdata, -⟩ :=
          @step_hold maxPacket idleCycles i s hi hheld hinput
        rw [hset, hchannel, hdata]
        rfl
      | false =>
        obtain ⟨hsame, -⟩ := @step_wait maxPacket idleCycles i s hi hfire (.inr hinput)
        rw [hsame, hheld]
        rfl

/-! ### What an edge does to the packets -/

/-- Without an input byte the held byte only goes as the last one of its packet. -/
theorem last_of_fire (hfire : outputFire maxPacket i s = true) (hinput : i.inputValid = false) :
    outputLast maxPacket i s = true := by
  rw [outputFire, outputValid, hinput, Bool.false_or, Bool.and_eq_true, Bool.and_eq_true] at hfire
  rw [outputLast, channelBoundary, hinput, Bool.and_false, Bool.false_and, Bool.or_false]
  exact hfire.1.2

/-- A byte that is not the last one of its packet is followed by one of its channel, and there
is room for that one. -/
theorem not_last (hfire : outputFire maxPacket i s = true)
    (hlast : outputLast maxPacket i s = false) :
    i.inputChannel = s.channel ∧ s.count ≠ maxPacket := by
  have hheld := held_of_fire hfire
  have hinput : i.inputValid = true := by
    by_contra hnone
    rw [Bool.not_eq_true] at hnone
    rw [last_of_fire hfire hnone] at hlast
    contradiction
  rw [outputLast, channelBoundary, sizeBoundary, hheld, hinput] at hlast
  simp only [Bool.or_eq_false_iff, Bool.and_self, Bool.true_and, bne_eq_false_iff_eq,
    beq_eq_false_iff_ne] at hlast
  exact ⟨hlast.1.2, hlast.2⟩

/-- The held byte may end its packet. -/
theorem Packetized.finish (h : Packetized maxPacket items s) (hheld : s.held = true) :
    ∀ p ∈ Packets.completed (items ++ [((s.channel, s.heldData), true)]),
      OneChannel p ∧ p.length ≤ maxPacket := by
  rw [Packets.completed_concat, if_pos rfl]
  intro p hp
  obtain hold | hnew := List.mem_append.mp hp
  · exact h.completed p hold
  · rw [List.mem_singleton.mp hnew]
    refine ⟨⟨s.channel, ?_⟩, ?_⟩
    · intro x hx
      obtain hx | hx := List.mem_append.mp hx
      · exact h.channel x hx
      · rw [List.mem_singleton.mp hx]
    · rw [List.length_append, List.length_singleton, ← h.count hheld]
      exact h.fits hheld

/-- The held byte goes and the next one takes its place. -/
theorem Packetized.pass (hmax : 1 ≤ maxPacket) (hi : i.resetN = true)
    (h : Packetized maxPacket items s) (hfire : outputFire maxPacket i s = true)
    (hinput : i.inputValid = true) :
    Packetized maxPacket (items ++ [((s.channel, s.heldData), outputLast maxPacket i s)])
      (step maxPacket idleCycles i s) := by
  have hheld := held_of_fire hfire
  obtain ⟨hset, hchannel, -, hcount⟩ := @step_pass maxPacket idleCycles i s hi hfire hinput
  have hfree : (step maxPacket idleCycles i s).held ≠ false := by
    rw [hset]
    exact Bool.noConfusion
  cases hlast : outputLast maxPacket i s with
  | true =>
    rw [hlast, if_pos rfl] at hcount
    have hpending : Packets.pending (items ++ [((s.channel, s.heldData), true)]) = [] :=
      Packets.pending_concat _ _ _
    refine ⟨h.finish hheld, fun hnone => absurd hnone hfree, ?_, ?_, ?_⟩
    · rw [hcount, hpending]
      exact fun _ => rfl
    · rw [hcount]
      exact fun _ => hmax
    · rw [hpending]
      exact fun x hx => absurd hx List.not_mem_nil
  | false =>
    obtain ⟨hsame, hroom⟩ := not_last hfire hlast
    have hfits := h.fits hheld
    rw [hlast, if_neg Bool.false_ne_true] at hcount
    have hpending : Packets.pending (items ++ [((s.channel, s.heldData), false)]) =
        Packets.pending items ++ [(s.channel, s.heldData)] := Packets.pending_concat _ _ _
    refine ⟨?_, fun hnone => absurd hnone hfree, ?_, ?_, ?_⟩
    · rw [Packets.completed_concat, if_neg Bool.false_ne_true]
      exact h.completed
    · intro _
      rw [hcount, hpending, h.count hheld, List.length_append, List.length_singleton]
    · intro _
      rw [hcount]
      omega
    · rw [hpending, hchannel, hsame]
      intro x hx
      obtain hx | hx := List.mem_append.mp hx
      · exact h.channel x hx
      · rw [List.mem_singleton.mp hx]

/-- The held byte goes as the last one of its packet. -/
theorem Packetized.release (hi : i.resetN = true) (h : Packetized maxPacket items s)
    (hfire : outputFire maxPacket i s = true) (hinput : i.inputValid = false) :
    Packetized maxPacket (items ++ [((s.channel, s.heldData), outputLast maxPacket i s)])
      (step maxPacket idleCycles i s) := by
  have hpending : Packets.pending (items ++ [((s.channel, s.heldData), true)]) = [] :=
    Packets.pending_concat _ _ _
  have hset : (step maxPacket idleCycles i s).held ≠ true := by
    rw [step_release hi hfire hinput]
    exact Bool.noConfusion
  rw [last_of_fire hfire hinput]
  refine ⟨h.finish (held_of_fire hfire), fun _ => hpending, fun hsome => absurd hsome hset,
    fun hsome => absurd hsome hset, ?_⟩
  rw [hpending]
  exact fun x hx => absurd hx List.not_mem_nil

/-- The first byte of a packet is taken. -/
theorem Packetized.hold (hmax : 1 ≤ maxPacket) (hi : i.resetN = true)
    (h : Packetized maxPacket items s) (hheld : s.held = false) (hinput : i.inputValid = true) :
    Packetized maxPacket items (step maxPacket idleCycles i s) := by
  obtain ⟨hset, -, -, hcount⟩ := @step_hold maxPacket idleCycles i s hi hheld hinput
  have hpending := h.empty hheld
  refine ⟨h.completed, fun _ => hpending, ?_, ?_, ?_⟩
  · rw [hcount, hpending]
    exact fun _ => rfl
  · rw [hcount]
    exact fun _ => hmax
  · rw [hpending]
    exact fun x hx => absurd hx List.not_mem_nil

/-- Nothing happens to the packets while the held byte stays. -/
theorem Packetized.wait (hi : i.resetN = true) (h : Packetized maxPacket items s)
    (hfire : outputFire maxPacket i s = false) (hwait : s.held = true ∨ i.inputValid = false) :
    Packetized maxPacket items (step maxPacket idleCycles i s) := by
  obtain ⟨hheld, hchannel, -, hcount⟩ := @step_wait maxPacket idleCycles i s hi hfire hwait
  refine ⟨h.completed, ?_, ?_, ?_, ?_⟩
  · rw [hheld]
    exact h.empty
  · rw [hheld, hcount]
    exact h.count
  · rw [hheld, hcount]
    exact h.fits
  · rw [hchannel]
    exact h.channel

/-- What one edge preserves. -/
theorem Packetized.step (hmax : 1 ≤ maxPacket) (hi : i.resetN = true)
    (h : Packetized maxPacket items s) :
    Packetized maxPacket (items ++ handedOver maxPacket i s)
      (ChannelPacketizer.step maxPacket idleCycles i s) := by
  rw [handedOver]
  cases hfire : outputFire maxPacket i s with
  | true =>
    cases hinput : i.inputValid with
    | true => exact h.pass hmax hi hfire hinput
    | false => exact h.release hi hfire hinput
  | false =>
    rw [if_neg Bool.false_ne_true, List.append_nil]
    cases hheld : s.held with
    | true => exact h.wait hi hfire (.inl hheld)
    | false =>
      cases hinput : i.inputValid with
      | true => exact h.hold hmax hi hheld hinput
      | false => exact h.wait hi hfire (.inr hinput)

end

end ChannelPacketizer
