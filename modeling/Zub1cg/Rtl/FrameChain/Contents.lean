import Zub1cg.Rtl.FrameChain
import Zub1cg.Rtl.OrbflowEncoder.Frames

/-!
# The bytes inside packetizer and encoder

What the registers and memories of the chain hold is one list of bytes: the packets in the
banks, the packet that is being loaded, and the byte the packetizer holds back.

## Main definitions

- `LoaderHolds` — the packet the loader holds
- `Inside` — the bytes the chain holds

## Main results

- `Inside.unique` — the registers and memories tell which bytes are inside
-/

open OrbflowEncoder (Packet Banks Loading Partial Holds header raw channelByte)
open ChannelPacketizer (OneChannel heldByte)

namespace FrameChain

/-- The packet the loader holds. In `L_FIRST_DATA` the packet's first byte is still in a
register, and from `L_FINALIZE` on the checksum is behind the packet. -/
def LoaderHolds (s : OrbflowEncoder.State) (p : Packet) : Prop :=
  match s.load.state with
  | .L_ACCEPT => Partial s (header p)
  | .L_FIRST_DATA => ∃ x, p = [x] ∧ s.load.pendingData = x.2 ∧ Partial s [channelByte x.1]
  | .L_CHECKSUM => Partial s (header p)
  | .L_FINALIZE => Partial s (raw p)

/-- The bytes inside the chain, oldest first: those of the packets in the banks, those of the
packet the loader holds, and the byte the packetizer holds back. -/
inductive Inside (s : State) : List (BitVec 7 × UInt8) → Prop
  | mk (committed : List Packet) (loading : Packet) (banks : Banks s.encoder committed)
      (loader : LoaderHolds s.encoder loading)
      (oneChannel : ∀ p ∈ committed ++ [loading], OneChannel p) :
      Inside s (committed.flatten ++ loading ++ heldByte s.packetizer)

/-! ### One packet -/

theorem map_channel {p : Packet} {channel : BitVec 7} (h : ∀ x ∈ p, x.1 = channel) :
    p = (p.map Prod.snd).map fun b => (channel, b) := by
  rw [List.map_map]
  conv_lhs => rw [← List.map_id p]
  exact List.map_congr_left fun x hx => Prod.ext (h x hx) rfl

/-- A packet with one channel is told by its channel byte and its data. -/
theorem eq_of_header {p q : Packet} (hp : OneChannel p) (hq : OneChannel q)
    (h : header p = header q) : p = q := by
  cases p with
  | nil =>
    cases q with
    | nil => rfl
    | cons y ys => contradiction
  | cons x xs =>
    cases q with
    | nil => contradiction
    | cons y ys =>
      obtain ⟨hchannel, hdata⟩ := List.cons.inj h
      obtain ⟨c, hp⟩ := hp
      obtain ⟨d, hq⟩ := hq
      have hsame : c = d := by
        rw [← hp x List.mem_cons_self, ← hq y List.mem_cons_self]
        exact OrbflowEncoder.channelByte_injective hchannel
      rw [map_channel hp, map_channel hq, hsame]
      exact congrArg _ hdata

theorem eq_of_raw {p q : Packet} (hp : OneChannel p) (hq : OneChannel q) (h : raw p = raw q) :
    p = q :=
  eq_of_header hp hq (List.append_inj_left' h rfl)

/-! ### The banks and the loader -/

section

variable {s : OrbflowEncoder.State}

theorem partial_unique {bytes bytes' : List UInt8} (h : Partial s bytes) (h' : Partial s bytes') :
    bytes = bytes' :=
  h.packet.unique h'.packet (h.rawLength.symm.trans h'.rawLength)

/-- The lengths of the runs tell how long the packet in a bank is. -/
theorem holds_unique {bank : Bool} {p q : Packet} (hp : Holds s bank p) (hq : Holds s bank q) :
    raw p = raw q := by
  have hcount : ((Cobs.runs (raw p)).all.map Cobs.runLength).length =
      ((Cobs.runs (raw q)).all.map Cobs.runLength).length := by
    rw [List.length_map, List.length_map, ← hp.count, hq.count]
  have hlengths := Cobs.map_length_eq (Cobs.runs (raw p)).all_run (Cobs.runs (raw q)).all_run
    (hp.groups.unique hq.groups hcount)
  have hexpand := Cobs.length_expand_eq hlengths
  rw [Cobs.expand_runs, Cobs.expand_runs] at hexpand
  exact hp.packet.unique hq.packet hexpand

theorem banks_unique {ps qs : List Packet} (hp : Banks s ps) (hq : Banks s qs)
    (hone : ∀ p ∈ ps, OneChannel p) (hone' : ∀ p ∈ qs, OneChannel p) : ps = qs := by
  have hsame : ∀ {bank p q}, Holds s bank p → Holds s bank q → p ∈ ps → q ∈ qs → p = q :=
    fun hold hold' hmem hmem' =>
      eq_of_raw (hone _ hmem) (hone' _ hmem') (holds_unique hold hold')
  cases hp with
  | none empty bank =>
    cases hq with
    | none => rfl
    | one q full => simp [empty] at full
    | two q q' full => simp [empty] at full
  | one p full empty holds bank =>
    cases hq with
    | none empty' => simp [empty'] at full
    | one q full' empty' holds' =>
      rw [hsame holds holds' List.mem_cons_self List.mem_cons_self]
    | two q q' full' => simp [full'] at empty
  | two p p' full holds holds' bank =>
    cases hq with
    | none empty => simp [empty] at full
    | one q full' empty => simp [full] at empty
    | two q q' full' hold hold' =>
      rw [hsame holds hold (by simp) (by simp), hsame holds' hold' (by simp) (by simp)]

theorem loaderHolds_unique {p q : Packet} (hp : LoaderHolds s p) (hq : LoaderHolds s q)
    (hone : OneChannel p) (hone' : OneChannel q) : p = q := by
  rw [LoaderHolds] at hp hq
  cases hstate : s.load.state with
  | L_ACCEPT =>
    rw [hstate] at hp hq
    exact eq_of_header hone hone' (partial_unique hp hq)
  | L_FIRST_DATA =>
    rw [hstate] at hp hq
    obtain ⟨x, rfl, hx, hpart⟩ := hp
    obtain ⟨y, rfl, hy, hpart'⟩ := hq
    have hchannel := OrbflowEncoder.channelByte_injective
      (List.singleton_injective (partial_unique hpart hpart'))
    rw [show x = y from Prod.ext hchannel (hx.symm.trans hy)]
  | L_CHECKSUM =>
    rw [hstate] at hp hq
    exact eq_of_header hone hone' (partial_unique hp hq)
  | L_FINALIZE =>
    rw [hstate] at hp hq
    exact eq_of_raw hone hone' (partial_unique hp hq)

/-- The packet that is coming in or has come in is the one the loader holds. -/
theorem loading_holds {maxPayload : ℕ} {cur : Packet} {final : List Packet}
    (h : Loading maxPayload s cur final) (hfits : cur.length ≤ maxPayload) :
    ∃ p, LoaderHolds s p ∧ (final = [] ∧ p = cur ∨ final = [p] ∧ cur = []) := by
  simp only [LoaderHolds]
  cases h with
  | empty state count keeping stored =>
    rw [state]
    exact ⟨[], stored, .inl ⟨rfl, rfl⟩⟩
  | filling p state nonempty fits count keeping sum stored =>
    rw [state]
    exact ⟨_, stored, .inl ⟨rfl, rfl⟩⟩
  | dropping p state long => omega
  | first x state count keeping open_ data sum stored =>
    rw [state]
    exact ⟨[x], ⟨x, rfl, data, stored⟩, .inl ⟨rfl, rfl⟩⟩
  | only x state keeping closed data sum stored =>
    rw [state]
    exact ⟨[x], ⟨x, rfl, data, stored⟩, .inr ⟨rfl, rfl⟩⟩
  | checksum p state nonempty keeping sum stored =>
    rw [state]
    exact ⟨p, stored, .inr ⟨rfl, rfl⟩⟩
  | finalize p state nonempty keeping stored =>
    rw [state]
    exact ⟨p, stored, .inr ⟨rfl, rfl⟩⟩

end

/-- **The registers and memories tell which bytes are inside.** -/
theorem Inside.unique {s : State} {held held' : List (BitVec 7 × UInt8)} (h : Inside s held)
    (h' : Inside s held') : held = held' := by
  obtain ⟨committed, loading, banks, loader, one⟩ := h
  obtain ⟨committed', loading', banks', loader', one'⟩ := h'
  have hcommitted := banks_unique banks banks' (fun p hp => one p (List.mem_append_left _ hp))
    fun p hp => one' p (List.mem_append_left _ hp)
  have hloading := loaderHolds_unique loader loader' (one loading (by simp))
    (one' loading' (by simp))
  rw [hcommitted, hloading]

end FrameChain
