import Zub1cg.System.Board
import Mathlib.Logic.Relation

/-!
# One bus access, whatever its timing

Between two accesses both AXI-Lite channels are at rest. A write access is then a number
of cycles in which no register is touched, the one cycle in which the write takes effect,
and at least one more silent cycle; a read access is the same with the cycle in which the
register is sampled. Later proofs follow an access through `Waits` and these cycles only.

## Main results

- `Board.Waits.invariant` — what a silent cycle preserves, waiting preserves
- `Board.write_cycles`, `Board.read_cycles` — an access, cycle by cycle
-/

namespace System

namespace Board

open Pl (Bus)

/-- Nothing is written or read at this edge. -/
def Silent (u : Bus) (b : Board) : Prop :=
  AxiRegs.writeFire (b.ports u) b.pl.regs = false ∧ AxiRegs.readFire (b.ports u) b.pl.regs = false

/-- A number of silent cycles. -/
def Waits : Board → Board → Prop :=
  Relation.ReflTransGen fun b b' => ∃ u, b.Silent u ∧ b' = b.tick u

/-- What every silent cycle preserves, waiting preserves. -/
theorem Waits.invariant {P : Board → Prop} (hstep : ∀ u b, b.Silent u → P b → P (b.tick u))
    {b b' : Board} (h : b.Waits b') (hb : P b) : P b' := by
  induction h with
  | refl => exact hb
  | tail _ hlast ih =>
    obtain ⟨u, hu, rfl⟩ := hlast
    exact hstep u _ hu ih

theorem Waits.tick {b b' : Board} {u : Bus} (h : b.Waits b') (hu : b'.Silent u) :
    b.Waits (b'.tick u) :=
  Relation.ReflTransGen.tail h ⟨u, hu, rfl⟩

/-! ### The two channels -/

/-- The registers of the two bus channels. -/
structure Channels where
  awPending : Bool
  wPending : Bool
  bvalid : Bool
  rvalid : Bool
  awaddrHold : BitVec 16
  wdataHold : BitVec 32
  rdata : BitVec 32

def channels (b : Board) : Channels where
  awPending := b.pl.regs.awPending
  wPending := b.pl.regs.wPending
  bvalid := b.pl.regs.sAxiBvalid
  rvalid := b.pl.regs.sAxiRvalid
  awaddrHold := b.pl.regs.awaddrHold
  wdataHold := b.pl.regs.wdataHold
  rdata := b.pl.regs.sAxiRdata

/-- No access is under way. -/
structure AtRest (b : Board) : Prop where
  aw : b.pl.regs.awPending = false
  w : b.pl.regs.wPending = false
  bvalid : b.pl.regs.sAxiBvalid = false
  rvalid : b.pl.regs.sAxiRvalid = false

/-- The channels after one cycle. -/
theorem channels_tick (u : Bus) (b : Board) :
    (b.tick u).channels =
      { awPending := (b.pl.regs.awPending || AxiRegs.awTake (b.ports u) b.pl.regs) &&
          !AxiRegs.writeFire (b.ports u) b.pl.regs
        wPending := (b.pl.regs.wPending || AxiRegs.wTake (b.ports u) b.pl.regs) &&
          !AxiRegs.writeFire (b.ports u) b.pl.regs
        bvalid := b.pl.regs.sAxiBvalid && !u.bready || AxiRegs.writeFire (b.ports u) b.pl.regs
        rvalid := b.pl.regs.sAxiRvalid && !u.rready || AxiRegs.readFire (b.ports u) b.pl.regs
        awaddrHold := if AxiRegs.awTake (b.ports u) b.pl.regs then u.awaddr
          else b.pl.regs.awaddrHold
        wdataHold := if AxiRegs.wTake (b.ports u) b.pl.regs then u.wdata
          else b.pl.regs.wdataHold
        rdata := if AxiRegs.readFire (b.ports u) b.pl.regs then
          AxiRegs.readRegister (b.ports u) b.pl.regs u.araddr else b.pl.regs.sAxiRdata } := by
  have hi : (b.ports u).aresetn = true := rfl
  rw [channels, tick, Pl.step]
  rw [Channels.mk.injEq]
  exact ⟨AxiRegs.step_awPending hi _, AxiRegs.step_wPending hi _, AxiRegs.step_sAxiBvalid hi _,
    AxiRegs.step_sAxiRvalid hi _, AxiRegs.step_awaddrHold hi _, AxiRegs.step_wdataHold hi _,
    AxiRegs.step_sAxiRdata hi _⟩

/-- A master that does nothing touches no register unless a write is complete. -/
theorem silent_idle {b : Board}
    (h : (b.pl.regs.awPending && b.pl.regs.wPending && !b.pl.regs.sAxiBvalid) = false) :
    b.Silent Bus.idle ∧ (b.tick Bus.idle).channels = b.channels := by
  have hwrite : AxiRegs.writeFire (b.ports Bus.idle) b.pl.regs = false := by
    simpa [AxiRegs.writeFire, AxiRegs.awTake, AxiRegs.wTake, ports, Pl.regsInput, Bus.idle] using h
  have hread : AxiRegs.readFire (b.ports Bus.idle) b.pl.regs = false := rfl
  refine ⟨⟨hwrite, hread⟩, ?_⟩
  rw [channels_tick, hwrite, hread]
  simp [AxiRegs.awTake, AxiRegs.wTake, ports, Pl.regsInput, Bus.idle, channels]

/-- Idle cycles are waiting, and leave the channels as they are. -/
theorem waits_idle {b : Board} (n : ℕ)
    (h : (b.channels.awPending && b.channels.wPending && !b.channels.bvalid) = false) :
    b.Waits (b.drive (List.replicate n Bus.idle)) ∧
      (b.drive (List.replicate n Bus.idle)).channels = b.channels := by
  induction n generalizing b with
  | zero => exact ⟨Relation.ReflTransGen.refl, rfl⟩
  | succ n ih =>
    obtain ⟨hsilent, hkept⟩ := silent_idle h
    obtain ⟨hwaits, hlast⟩ := ih (b := b.tick Bus.idle) (by rw [hkept]; exact h)
    exact ⟨Relation.ReflTransGen.head ⟨Bus.idle, hsilent, rfl⟩ hwaits, hlast.trans hkept⟩

/-! ### Accesses -/

/-- The write of `data` to `address` takes effect at this edge. -/
def Writes (address : BitVec 16) (data : BitVec 32) (u : Bus) (b : Board) : Prop :=
  AxiRegs.writeFire (b.ports u) b.pl.regs = true ∧
    AxiRegs.writeAddress (b.ports u) b.pl.regs = address ∧
    AxiRegs.writeData (b.ports u) b.pl.regs = data ∧
    AxiRegs.readFire (b.ports u) b.pl.regs = false

/-- The register at `address` is sampled at this edge and holds `word`. -/
def Reads (address : BitVec 16) (word : BitVec 32) (u : Bus) (b : Board) : Prop :=
  AxiRegs.readFire (b.ports u) b.pl.regs = true ∧ u.araddr = address ∧
    AxiRegs.readRegister (b.ports u) b.pl.regs address = word ∧
    AxiRegs.writeFire (b.ports u) b.pl.regs = false

/-- Silent cycles, one cycle of the kind `Fires`, and silent cycles, of which there is at
least one. -/
inductive Access (Fires : Bus → Board → Prop) (b : Board) : Board → Prop
  | mk (b₁ b₂ : Board) (u v : Bus) (before : b.Waits b₁) (fires : Fires u b₁)
      (after : (b₁.tick u).Waits b₂) (last : b₂.Silent v) : Access Fires b (b₂.tick v)

/-- The rule for an access: `P` holds up to the cycle of the access and `Q` right after it,
and any silent cycle establishes `R`. -/
theorem Access.rule {Fires : Bus → Board → Prop} {P Q R : Board → Prop}
    (hP : ∀ u b, b.Silent u → P b → P (b.tick u))
    (hfires : ∀ u b, Fires u b → P b → Q (b.tick u))
    (hQ : ∀ u b, b.Silent u → Q b → R (b.tick u)) (hR : ∀ u b, b.Silent u → R b → R (b.tick u))
    {b b' : Board} (h : Access Fires b b') (hb : P b) : R b' := by
  obtain ⟨b₁, b₂, u, v, hbefore, hfire, hafter, hlast⟩ := h
  have hmid : Q b₂ ∨ R b₂ := by
    refine hafter.invariant (P := fun b => Q b ∨ R b) ?_
      (.inl (hfires u b₁ hfire (hbefore.invariant hP hb)))
    rintro w c hw (hc | hc)
    · exact .inr (hQ w c hw hc)
    · exact .inr (hR w c hw hc)
  obtain hc | hc := hmid
  · exact hQ v b₂ hlast hc
  · exact hR v b₂ hlast hc

/-- Taking a response touches no register and frees its channel. -/
theorem silent_response {b : Board} (haw : b.channels.awPending = false)
    (hw : b.channels.wPending = false) (bready rready : Bool) :
    b.Silent { Bus.idle with bready := bready, rready := rready } ∧
      (b.tick { Bus.idle with bready := bready, rready := rready }).channels =
        { b.channels with
          bvalid := b.channels.bvalid && !bready
          rvalid := b.channels.rvalid && !rready } := by
  change b.pl.regs.awPending = false at haw
  change b.pl.regs.wPending = false at hw
  have hwrite : AxiRegs.writeFire (b.ports { Bus.idle with bready := bready, rready := rready })
      b.pl.regs = false := by
    simp [AxiRegs.writeFire, AxiRegs.awTake, ports, Pl.regsInput, Bus.idle, haw]
  have hread : AxiRegs.readFire (b.ports { Bus.idle with bready := bready, rready := rready })
      b.pl.regs = false := rfl
  refine ⟨⟨hwrite, hread⟩, ?_⟩
  rw [channels_tick, hwrite, hread]
  simp [AxiRegs.awTake, AxiRegs.wTake, ports, Pl.regsInput, Bus.idle, channels]

theorem AtRest.of_channels {b b' : Board} (h : b.AtRest) (hkept : b'.channels = b.channels) :
    b'.AtRest :=
  ⟨(congrArg Channels.awPending hkept).trans h.aw, (congrArg Channels.wPending hkept).trans h.w,
    (congrArg Channels.bvalid hkept).trans h.bvalid,
    (congrArg Channels.rvalid hkept).trans h.rvalid⟩

theorem AtRest.waits_idle {b : Board} (h : b.AtRest) (n : ℕ) :
    b.Waits (b.drive (List.replicate n Bus.idle)) ∧
      (b.drive (List.replicate n Bus.idle)).AtRest := by
  have haw : b.channels.awPending = false := h.aw
  obtain ⟨hwaits, hkept⟩ := Board.waits_idle n (b := b) (by rw [haw]; rfl)
  exact ⟨hwaits, h.of_channels hkept⟩

/-- The address has been taken, the data comes now. -/
theorem writes_dataPhase {b : Board} (haw : b.pl.regs.awPending = true)
    (hw : b.pl.regs.wPending = false) (hbvalid : b.pl.regs.sAxiBvalid = false)
    (data : BitVec 32) : Writes b.pl.regs.awaddrHold data (dataPhase data) b := by
  refine ⟨?_, ?_, ?_, rfl⟩
  · simp [AxiRegs.writeFire, AxiRegs.wTake, AxiRegs.wready, ports, Pl.regsInput, dataPhase, haw,
      hw, hbvalid]
  · simp [AxiRegs.writeAddress, haw]
  · simp [AxiRegs.writeData, hw, ports, Pl.regsInput, dataPhase]

/-- The data has been taken, the address comes now. -/
theorem writes_addressPhase {b : Board} (haw : b.pl.regs.awPending = false)
    (hw : b.pl.regs.wPending = true) (hbvalid : b.pl.regs.sAxiBvalid = false)
    (address : BitVec 16) : Writes address b.pl.regs.wdataHold (addressPhase address) b := by
  refine ⟨?_, ?_, ?_, rfl⟩
  · simp [AxiRegs.writeFire, AxiRegs.awTake, AxiRegs.awready, ports, Pl.regsInput, addressPhase,
      haw, hw, hbvalid]
  · simp [AxiRegs.writeAddress, haw, ports, Pl.regsInput, addressPhase]
  · simp [AxiRegs.writeData, hw]

theorem drive_cons_concat (u v : Bus) (us : List Bus) (b : Board) :
    b.drive (u :: us ++ [v]) = ((b.tick u).drive us).tick v := by
  simp [drive]

/-- Whichever channel comes first, the write takes effect when the second one is taken. -/
theorem write_channels {b : Board} (h : b.AtRest) (t : AccessTiming) (address : BitVec 16)
    (data : BitVec 32) :
    ∃ b₁ u, b.Waits b₁ ∧ Writes address data u b₁ ∧ b₁.pl.regs.sAxiRvalid = false ∧
      b.drive (writeChannels t address data) = b₁.tick u := by
  obtain ⟨haw, hw, hbvalid, hrvalid⟩ := h
  rw [writeChannels]
  cases t.order with
  | together =>
    refine ⟨b, writePhase address data, Relation.ReflTransGen.refl, ⟨?_, ?_, ?_, rfl⟩, hrvalid, rfl⟩
    · simp [AxiRegs.writeFire, AxiRegs.awTake, AxiRegs.wTake, AxiRegs.awready, AxiRegs.wready,
        ports, Pl.regsInput, writePhase, addressPhase, haw, hw, hbvalid]
    · simp [AxiRegs.writeAddress, haw, ports, Pl.regsInput, writePhase, addressPhase]
    · simp [AxiRegs.writeData, hw, ports, Pl.regsInput, writePhase]
  | addressFirst =>
    -- the address is taken at once and held until the data arrives
    have htake : AxiRegs.awTake (b.ports (addressPhase address)) b.pl.regs = true := by
      simp [AxiRegs.awTake, AxiRegs.awready, ports, Pl.regsInput, addressPhase, haw, hbvalid]
    have hnone : AxiRegs.wTake (b.ports (addressPhase address)) b.pl.regs = false := rfl
    have hfire : AxiRegs.writeFire (b.ports (addressPhase address)) b.pl.regs = false := by
      simp [AxiRegs.writeFire, hw, hnone]
    have hread : AxiRegs.readFire (b.ports (addressPhase address)) b.pl.regs = false := rfl
    have hfirst := channels_tick (addressPhase address) b
    rw [htake, hnone, hfire, hread, haw, hw, hbvalid, hrvalid] at hfirst
    obtain ⟨hwaits, hkept⟩ := waits_idle t.skew (b := b.tick (addressPhase address)) (by
      rw [hfirst]; rfl)
    have hheld := hkept.trans hfirst
    generalize hb₁ : (b.tick (addressPhase address)).drive (List.replicate t.skew Bus.idle) = b₁
      at hwaits hheld
    have hwrites := writes_dataPhase (b := b₁) (congrArg Channels.awPending hheld)
      (congrArg Channels.wPending hheld) (congrArg Channels.bvalid hheld) data
    rw [show b₁.pl.regs.awaddrHold = address from congrArg Channels.awaddrHold hheld] at hwrites
    refine ⟨b₁, dataPhase data, Relation.ReflTransGen.head ⟨_, ⟨hfire, hread⟩, rfl⟩ hwaits, hwrites,
      congrArg Channels.rvalid hheld, ?_⟩
    rw [drive_cons_concat, hb₁]
  | dataFirst =>
    have htake : AxiRegs.wTake (b.ports (dataPhase data)) b.pl.regs = true := by
      simp [AxiRegs.wTake, AxiRegs.wready, ports, Pl.regsInput, dataPhase, hw, hbvalid]
    have hnone : AxiRegs.awTake (b.ports (dataPhase data)) b.pl.regs = false := rfl
    have hfire : AxiRegs.writeFire (b.ports (dataPhase data)) b.pl.regs = false := by
      simp [AxiRegs.writeFire, haw, hnone]
    have hread : AxiRegs.readFire (b.ports (dataPhase data)) b.pl.regs = false := rfl
    have hfirst := channels_tick (dataPhase data) b
    rw [htake, hnone, hfire, hread, haw, hw, hbvalid, hrvalid] at hfirst
    obtain ⟨hwaits, hkept⟩ := waits_idle t.skew (b := b.tick (dataPhase data)) (by
      rw [hfirst]; rfl)
    have hheld := hkept.trans hfirst
    generalize hb₁ : (b.tick (dataPhase data)).drive (List.replicate t.skew Bus.idle) = b₁
      at hwaits hheld
    have hwrites := writes_addressPhase (b := b₁) (congrArg Channels.awPending hheld)
      (congrArg Channels.wPending hheld) (congrArg Channels.bvalid hheld) address
    rw [show b₁.pl.regs.wdataHold = data from congrArg Channels.wdataHold hheld] at hwrites
    refine ⟨b₁, addressPhase address, Relation.ReflTransGen.head ⟨_, ⟨hfire, hread⟩, rfl⟩ hwaits,
      hwrites, congrArg Channels.rvalid hheld, ?_⟩
    rw [drive_cons_concat, hb₁]

/-- **A write access.** -/
theorem write_cycles {b : Board} (h : b.AtRest) (address : BitVec 16) (data : BitVec 32) :
    Access (Writes address data) b (b.write address data) ∧ (b.write address data).AtRest := by
  obtain ⟨hgap, hrest⟩ := h.waits_idle (b.timing b.cycle).gap
  obtain ⟨b₁, u, hchannels, hwrites, hrvalid, hdrive⟩ :=
    write_channels hrest (b.timing b.cycle) address data
  have hafter := channels_tick u b₁
  rw [hwrites.1, hwrites.2.2.2, hrvalid] at hafter
  obtain ⟨hdelay, hkept⟩ := waits_idle (b.timing b.cycle).delay (b := b₁.tick u)
    (by rw [hafter]; simp)
  have hheld := hkept.trans hafter
  generalize hb₂ : (b₁.tick u).drive (List.replicate (b.timing b.cycle).delay Bus.idle) = b₂
    at hdelay hheld
  obtain ⟨hlast, hend⟩ := silent_response (b := b₂) (by rw [hheld]; simp) (by rw [hheld]; simp)
    true false
  have hwrite : b.write address data = b₂.tick { Bus.idle with bready := true } := by
    rw [← hb₂, ← hdrive]
    rfl
  rw [hheld] at hend
  rw [hwrite]
  refine ⟨⟨b₁, b₂, u, _, hgap.trans hchannels, hwrites, hdelay, hlast⟩, ?_, ?_, ?_, ?_⟩
  · exact (congrArg Channels.awPending hend).trans (by simp)
  · exact (congrArg Channels.wPending hend).trans (by simp)
  · exact (congrArg Channels.bvalid hend).trans (by simp)
  · exact (congrArg Channels.rvalid hend).trans (by simp)

/-- **A read access.** The word returned is the one sampled. -/
theorem read_cycles {b : Board} (h : b.AtRest) (address : BitVec 16) :
    Access (Reads address (b.read address).1) b (b.read address).2 ∧
      (b.read address).2.AtRest := by
  obtain ⟨hgap, hrest⟩ := h.waits_idle (b.timing b.cycle).gap
  generalize hb₁ : b.drive (List.replicate (b.timing b.cycle).gap Bus.idle) = b₁ at hgap hrest
  obtain ⟨haw, hw, hbvalid, hrvalid⟩ := hrest
  have hfire : AxiRegs.readFire (b₁.ports (readPhase address)) b₁.pl.regs = true := by
    simp [AxiRegs.readFire, AxiRegs.arready, ports, Pl.regsInput, readPhase, hrvalid]
  have hwrite : AxiRegs.writeFire (b₁.ports (readPhase address)) b₁.pl.regs = false := by
    simp [AxiRegs.writeFire, AxiRegs.awTake, ports, Pl.regsInput, readPhase, Bus.idle, haw]
  have hsampled := channels_tick (readPhase address) b₁
  rw [hfire, hwrite, haw, hw, hbvalid] at hsampled
  obtain ⟨hdelay, hkept⟩ := waits_idle (b.timing b.cycle).delay (b := b₁.tick (readPhase address))
    (by rw [hsampled]; rfl)
  have hheld := hkept.trans hsampled
  generalize hb₂ : (b₁.tick (readPhase address)).drive
    (List.replicate (b.timing b.cycle).delay Bus.idle) = b₂ at hdelay hheld
  have hread : b.read address =
      (b₂.pl.regs.sAxiRdata, b₂.tick { Bus.idle with rready := true }) := by
    rw [← hb₂, ← hb₁]
    rfl
  have hword : AxiRegs.readRegister (b₁.ports (readPhase address)) b₁.pl.regs address =
      b₂.pl.regs.sAxiRdata := (congrArg Channels.rdata hheld).symm
  obtain ⟨hlast, hend⟩ := silent_response (b := b₂) (congrArg Channels.awPending hheld)
    (congrArg Channels.wPending hheld) false true
  rw [hheld] at hend
  rw [hread]
  refine ⟨⟨b₁, b₂, _, _, hgap, ⟨hfire, rfl, hword, hwrite⟩, hdelay, hlast⟩, ?_, ?_, ?_, ?_⟩
  · exact congrArg Channels.awPending hend
  · exact congrArg Channels.wPending hend
  · exact congrArg Channels.bvalid hend
  · exact (congrArg Channels.rvalid hend).trans (by simp)

end Board

end System
