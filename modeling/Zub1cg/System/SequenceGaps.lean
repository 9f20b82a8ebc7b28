import Zub1cg.Firmware.Workload
import Zub1cg.Model.Itm
import Mathlib.Logic.Function.Iterate

/-!
# The gaps in a capture that has lost nothing

The M3 reports the events of its workload, each in one packet; the host decodes the packets and
looks for gaps in the sequence numbers. A timestamp is told from the other packets on port 0 by
its value alone, so an idle count that is a multiple of 16 passes for one.

## Main definitions

- `captureGaps` — the gaps the host finds in the first events, nothing of which is lost
- `Misread` — an event that passes for a timestamp

## Main results

- `captureGaps_nil_iff` — when the host finds none
-/

namespace SequenceGaps

open Model
open M3 (Event Workload)

/-! ### The capture -/

/-- The packet of an event; those without a channel are written to port 0. -/
def encode : Event → Option (List UInt8)
  | .Itm channel value width => encodeSwit channel value width
  | .Timestamp value => encodeSwit 0 value 4
  | .Idle value => encodeSwit 0 value 4
  | .Malformed value => encodeSwit 0 value.toUInt32 1
  | .Fault value => encodeSwit 0 value 4

def encodeEvents : List Event → Option (List UInt8)
  | [] => some []
  | event :: events => do
    let packet ← encode event
    let packets ← encodeEvents events
    some (packet ++ packets)

/-- The first `n` events of the workload with the given seed. -/
def events (seed : UInt32) (n : ℕ) : List Event :=
  Generator.first Workload.next (Workload.new seed) n

/-- The gaps found in the packets of the first `n` events. -/
def captureGaps (seed : UInt32) (n : ℕ) : Option (List (ℕ × ℕ)) :=
  (encodeEvents (events seed n)).map fun bytes =>
    (buildPerfettoTrace (decodeItmStream bytes)).sequenceGaps

/-! ### The events -/

/-- The generator behind the workload. -/
def xorshift (state : UInt32) : UInt32 :=
  let state := state ^^^ (state <<< 13)
  let state := state ^^^ (state >>> 17)
  state ^^^ (state <<< 5)

/-- The idle count that the state gives. -/
def idle (state : UInt32) : UInt32 := (state &&& 0x3ff) + 1

/-- The `k`-th event is an idle count that is a multiple of 16. -/
def Misread (seed : UInt32) (k : ℕ) : Prop := k % 16 = 1 ∧ (idle (xorshift^[k] seed)) % 16 = 0

theorem after_eq (seed : UInt32) (k : ℕ) :
    Generator.after Workload.next (Workload.new seed) k =
      { state := xorshift^[k] seed, sequence := UInt32.ofNat k } := by
  induction k with
  | zero => rfl
  | succ k ih =>
    rw [Generator.after, ih, Function.iterate_succ_apply', UInt32.ofNat_add]
    rfl

/-- What the packet of an event is decoded to. -/
def packet : Event → ItmPacket
  | .Itm channel value width =>
    .Swit channel (UInt32.ofNat (value.toNat % 256 ^ width.toNat)) width
  | .Timestamp value => .Swit 0 value 4
  | .Idle value => .Swit 0 value 4
  | .Malformed value => .Swit 0 value.toUInt32 1
  | .Fault value => .Swit 0 value 4

/-- The event can be encoded, and its packet is decoded whatever follows it. -/
def Encodable (event : Event) : Prop :=
  ∃ bytes, encode event = some bytes ∧
    ∀ rest, decodeItmStream (bytes ++ rest) = packet event :: decodeItmStream rest

theorem decode_word (value : UInt32) {bytes : List UInt8} (h : encodeSwit 0 value 4 = some bytes)
    (rest : List UInt8) :
    decodeItmStream (bytes ++ rest) = .Swit 0 value 4 :: decodeItmStream rest := by
  have hvalue : value.toNat % 256 ^ (4 : UInt8).toNat = value.toNat :=
    Nat.mod_eq_of_lt value.toNat_lt
  rw [decodeItmStream_swit (by decide) h, hvalue, UInt32.ofNat_toNat]

theorem decode_byte (value : UInt8) {bytes : List UInt8}
    (h : encodeSwit 0 value.toUInt32 1 = some bytes) (rest : List UInt8) :
    decodeItmStream (bytes ++ rest) = .Swit 0 value.toUInt32 1 :: decodeItmStream rest := by
  have hvalue : value.toUInt32.toNat % 256 ^ (1 : UInt8).toNat = value.toUInt32.toNat :=
    Nat.mod_eq_of_lt value.toNat_lt
  rw [decodeItmStream_swit (by decide) h, hvalue, UInt32.ofNat_toNat]

theorem encodable_itm {channel width : UInt8} (hchannel : channel.toNat < 32)
    (hwidth : width ∈ [(1 : UInt8), 2, 4]) (value : UInt32) :
    Encodable (.Itm channel value width) := by
  have hcode : (sizeCode width).isSome := by
    simp only [List.mem_cons, List.not_mem_nil, or_false] at hwidth
    obtain rfl | rfl | rfl := hwidth <;> rfl
  obtain ⟨code, hcode⟩ := Option.isSome_iff_exists.mp hcode
  have hbytes : encodeSwit channel value width =
      some (((channel <<< 3) ||| code) :: slice (u32ToLe value) 0 width.toNat) := by
    rw [encodeSwit, hcode, Option.map_some]
  exact ⟨_, hbytes, decodeItmStream_swit hchannel hbytes⟩

/-- The workload gives no other events. -/
theorem next_encodable (w : Workload) : Encodable w.next.1 := by
  rw [Workload.next]
  dsimp only
  split
  · exact ⟨_, rfl, decode_word _ rfl⟩
  · exact ⟨_, rfl, decode_word _ rfl⟩
  · exact ⟨_, rfl, decode_byte _ rfl⟩
  · exact ⟨_, rfl, decode_word _ rfl⟩
  · refine encodable_itm ?_ (List.get_mem _ _) _
    generalize UInt32.toNat _ = n
    rw [UInt8.toNat_add, UInt8.toNat_ofNat']
    change (n % 7 % 2 ^ 8 + 1) % 2 ^ 8 < 32
    omega

/-- Packets one after the other are decoded one after the other. -/
theorem decode_encodeEvents (list : List Event) (h : ∀ event ∈ list, Encodable event) :
    ∃ bytes, encodeEvents list = some bytes ∧ decodeItmStream bytes = list.map packet := by
  induction list with
  | nil => exact ⟨[], rfl, by rw [decodeItmStream]; rfl⟩
  | cons event list ih =>
    obtain ⟨bytes, hencode, hdecode⟩ := h event (List.mem_cons_self ..)
    obtain ⟨rest, hrest, hlist⟩ := ih fun e he => h e (List.mem_cons_of_mem _ he)
    refine ⟨bytes ++ rest, ?_, ?_⟩
    · rw [encodeEvents, hencode, hrest]
      rfl
    · rw [hdecode, hlist, List.map_cons]

/-- The host's variables after the packets of the first `n` events. -/
def builder (seed : UInt32) (n : ℕ) : Builder :=
  ((events seed n).map packet).foldl Builder.step Builder.initial

theorem captureGaps_eq (seed : UInt32) (n : ℕ) :
    captureGaps seed n = some (builder seed n).trace.sequenceGaps := by
  have hall : ∀ event ∈ events seed n, Encodable event := by
    intro event hevent
    rw [events, Generator.first, List.mem_map] at hevent
    obtain ⟨k, -, rfl⟩ := hevent
    exact next_encodable _
  obtain ⟨bytes, hencode, hdecode⟩ := decode_encodeEvents _ hall
  rw [captureGaps, hencode, Option.map_some, hdecode, buildPerfettoTrace, builder]

/-- The timestamp that the packet after `k` others is taken for. -/
def stamp (seed : UInt32) (k : ℕ) : Option UInt32 :=
  (packet (Generator.nth Workload.next (Workload.new seed) k)).timestamp

theorem builder_succ (seed : UInt32) (n : ℕ) :
    builder seed (n + 1) =
      (builder seed n).step (packet (Generator.nth Workload.next (Workload.new seed) n)) := by
  rw [builder, events, Generator.first_succ, List.map_append, List.foldl_append]
  rfl

/-! ### What passes for a timestamp -/

instance (seed : UInt32) (k : ℕ) : Decidable (Misread seed k) :=
  inferInstanceAs (Decidable (_ ∧ _))

theorem idle_toNat (state : UInt32) : (idle state).toNat = state.toNat % 1024 + 1 := by
  rw [idle, UInt32.toNat_add, UInt32.toNat_and]
  change ((state.toNat &&& 2 ^ 10 - 1) + 1) % 2 ^ 32 = _
  rw [Nat.and_two_pow_sub_one_eq_mod]
  omega

/-- The high half of a word. -/
theorem high_half (value : UInt32) :
    (value &&& 0xffff0000).toNat = value.toNat / 2 ^ 16 * 2 ^ 16 := by
  rw [UInt32.toNat_and]
  change value.toNat &&& (2 ^ 16 - 1) * 2 ^ 16 = _
  apply Nat.eq_of_testBit_eq
  intro i
  rw [Nat.testBit_and, Nat.testBit_mul_two_pow, Nat.testBit_mul_two_pow, Nat.testBit_div_two_pow,
    Nat.testBit_two_pow_sub_one]
  rcases Nat.lt_or_ge i 16 with hlow | hhigh
  · rw [decide_eq_false (Nat.not_le.mpr hlow), Bool.false_and, Bool.false_and, Bool.and_false]
  · rw [decide_eq_true hhigh, Bool.true_and, Bool.true_and, Nat.sub_add_cancel hhigh]
    rcases Nat.lt_or_ge i 32 with hin | hout
    · rw [decide_eq_true (by omega), Bool.and_true]
    · have hzero : value.toNat.testBit i = false :=
        Nat.testBit_lt_two_pow
          (lt_of_lt_of_le value.toNat_lt (Nat.pow_le_pow_right (by decide) hout))
      rw [hzero, Bool.false_and]

theorem mod_sixteen (value : UInt32) : value % 16 = 0 ↔ value.toNat % 16 = 0 := by
  rw [← UInt32.toNat_inj, UInt32.toNat_mod]
  rfl

/-- Which words on port 0 pass for timestamps. -/
theorem word_timestamp (value : UInt32) :
    (ItmPacket.Swit 0 value 4).timestamp =
      if value.toNat / 2 ^ 16 ≠ 0xf001 ∧ value ≠ 0 ∧ value % 16 = 0 then some value
      else none := by
  have hfault : value &&& 0xffff0000 = 0xf0010000 ↔ value.toNat / 2 ^ 16 = 0xf001 := by
    rw [← UInt32.toNat_inj, high_half]
    change _ = 0xf001 * 2 ^ 16 ↔ _
    omega
  rw [ItmPacket.timestamp, if_pos rfl, classifyPort0, if_neg (by decide)]
  by_cases hhigh : value &&& 0xffff0000 = 0xf0010000
  · rw [if_pos ⟨rfl, hhigh⟩, if_neg fun h => h.1 (hfault.mp hhigh)]
  · rw [if_neg fun h => hhigh h.2]
    by_cases hstamp : value ≠ 0 ∧ value % 16 = 0
    · rw [if_pos ⟨rfl, hstamp⟩, if_pos ⟨mt hfault.mpr hhigh, hstamp⟩]
    · have hidle : ¬ ((4 : UInt8) = 4 ∧ value ≠ 0 ∧ value % 16 = 0) := fun h => hstamp h.2
      have hnone : ¬ (value.toNat / 2 ^ 16 ≠ 0xf001 ∧ value ≠ 0 ∧ value % 16 = 0) :=
        fun h => hstamp h.2
      rw [if_neg hidle, if_neg hnone]
      split_ifs <;> rfl

theorem idle_timestamp (state : UInt32) :
    (packet (.Idle (idle state))).timestamp =
      if idle state % 16 = 0 then some (idle state) else none := by
  have hvalue := idle_toNat state
  have hsmall : (idle state).toNat / 2 ^ 16 ≠ 0xf001 := by omega
  have hpos : idle state ≠ 0 := by
    intro hzero
    rw [hzero] at hvalue
    exact absurd hvalue (Nat.succ_ne_zero _).symm
  rw [packet, word_timestamp]
  by_cases hsixteen : idle state % 16 = 0
  · rw [if_pos ⟨hsmall, hpos, hsixteen⟩, if_pos hsixteen]
  · rw [if_neg fun h => hsixteen h.2.2, if_neg hsixteen]

/-- A fault is told from a timestamp even if its high half is not that of a fault any more. -/
theorem fault_timestamp {sequence : UInt32} (h : sequence.toNat % 16 = 3) :
    (packet (.Fault (0xf0010000 ||| sequence))).timestamp = none := by
  rw [packet, word_timestamp, if_neg]
  rintro ⟨-, -, hsixteen⟩
  rw [mod_sixteen, UInt32.toNat_or] at hsixteen
  change (0xf0010000 ||| sequence.toNat) % 2 ^ 4 = 0 at hsixteen
  rw [Nat.or_mod_two_pow, h] at hsixteen
  contradiction

theorem itm_timestamp (n : ℕ) (value : UInt32) (width : UInt8) :
    (packet (.Itm (UInt8.ofNat (n % 7) + 1) value width)).timestamp = none := by
  have hport : UInt8.ofNat (n % 7) + 1 ≠ 0 := by
    intro hzero
    have hnat := congrArg UInt8.toNat hzero
    rw [UInt8.toNat_add, UInt8.toNat_ofNat'] at hnat
    change (n % 7 % 2 ^ 8 + 1) % 2 ^ 8 = 0 at hnat
    omega
  rw [packet, ItmPacket.timestamp, if_neg hport]

theorem mod_three_lt (n : ℕ) : n % 3 < 3 := Nat.mod_lt n (by decide)

/-- The event that the workload makes of its sequence number and its state; the kind is in the low
bits of the sequence number. -/
def eventOf (sequence state : UInt32) : ℕ → Event
  | 0 => .Timestamp sequence
  | 1 => .Idle (idle state)
  | 2 => .Malformed state.toUInt8
  | 3 => .Fault (0xf0010000 ||| sequence)
  | n => .Itm (UInt8.ofNat (n % 7) + 1) state ([1, 2, 4].get ⟨n % 3, mod_three_lt n⟩)

/-- Which packets pass for timestamps. -/
theorem stamp_eq (seed : UInt32) (k : ℕ) :
    stamp seed k =
      if (k + 1) % 16 = 0 then
        if (k + 1) % 2 ^ 32 / 2 ^ 16 ≠ 0xf001 ∧ UInt32.ofNat (k + 1) ≠ 0 then
          some (UInt32.ofNat (k + 1))
        else none
      else if Misread seed (k + 1) then some (idle (xorshift^[k + 1] seed))
      else none := by
  have hsequence : UInt32.ofNat k + 1 = UInt32.ofNat (k + 1) := (UInt32.ofNat_add k 1).symm
  have hmod : (UInt32.ofNat (k + 1)).toNat % 16 = (k + 1) % 16 := by
    rw [UInt32.toNat_ofNat']
    omega
  have hlow : (UInt32.ofNat (k + 1) &&& 15).toNat = (k + 1) % 16 := by
    rw [UInt32.toNat_and, ← hmod]
    exact Nat.and_two_pow_sub_one_eq_mod _ 4
  have hstate : xorshift^[k + 1] seed = xorshift (xorshift^[k] seed) :=
    Function.iterate_succ_apply' _ _ _
  rw [stamp, Generator.nth, after_eq, Workload.next, hsequence]
  change (packet (eventOf (UInt32.ofNat (k + 1)) (xorshift (xorshift^[k] seed))
    (UInt32.ofNat (k + 1) &&& 15).toNat)).timestamp = _
  rw [hlow, ← hstate]
  by_cases htimestamp : (k + 1) % 16 = 0
  · have hsixteen := (mod_sixteen _).mpr (hmod.trans htimestamp)
    rw [if_pos htimestamp, htimestamp]
    change (ItmPacket.Swit 0 _ 4).timestamp = _
    simp only [word_timestamp, UInt32.toNat_ofNat', hsixteen, and_true]
  · rw [if_neg htimestamp]
    by_cases hidle : (k + 1) % 16 = 1
    · rw [hidle]
      change (packet (.Idle (idle (xorshift^[k + 1] seed)))).timestamp = _
      simp only [idle_timestamp, Misread, hidle, true_and]
    · rw [if_neg fun hmisread => hidle hmisread.1]
      generalize hkind : (k + 1) % 16 = kind at *
      -- no other event passes for one
      obtain _ | _ | _ | _ | n := kind
      · contradiction
      · contradiction
      · rfl
      · exact fault_timestamp hmod
      · exact itm_timestamp _ _ _

/-! ### When there is a gap -/

/-- The idle counts among the first `n` events that pass for timestamps are out of harm's way: no
timestamp comes after them, and they follow the one before them, if there is one. -/
structure Harmless (seed : UInt32) (n : ℕ) : Prop where
  /-- the sequence numbers from `0xf0010000` on pass for faults, and the next one is missed -/
  short : n < 0xf0020000
  misread : ∀ k ≤ n, Misread seed k →
    n < k + 15 ∧ (k = 1 ∨ (idle (xorshift^[k] seed)).toNat = k + 15)

/-- The last timestamp among the first `n` events, as long as they are harmless. -/
def lastStamp (seed : UInt32) (n : ℕ) : Option UInt32 :=
  if n % 16 ≠ 0 ∧ Misread seed (n / 16 * 16 + 1) then
    some (idle (xorshift^[n / 16 * 16 + 1] seed))
  else if n < 16 then none
  else some (UInt32.ofNat (min (n / 16 * 16) 0xf000fff0))

/-- The event after the first `n` makes no gap. -/
def Follows (seed : UInt32) (n : ℕ) : Prop :=
  ∀ v previous, stamp seed n = some v → lastStamp seed n = some previous → v = previous + 16

theorem ofNat_toNat_of_lt {k : ℕ} (h : k < 2 ^ 32) : (UInt32.ofNat k).toNat = k :=
  UInt32.toNat_ofNat_of_lt' h

theorem follows_of_none {seed : UInt32} {n : ℕ}
    (h : stamp seed n = none ∨ lastStamp seed n = none) :
    Follows seed n := by
  intro v previous hv hprevious
  rw [hv, hprevious] at h
  simp at h

/-- The event that ends a round carries its sequence number; from `0xf0010000` on for a while that
passes for a fault. -/
theorem stamp_end {seed : UInt32} {n : ℕ} (hn : (n + 1) % 16 = 0) (hshort : n < 0xf0020000) :
    stamp seed n =
      if (n + 1) / 2 ^ 16 ≠ 0xf001 then some (UInt32.ofNat (n + 1)) else none := by
  have hvalue : (UInt32.ofNat (n + 1)).toNat = n + 1 := ofNat_toNat_of_lt (by omega)
  have hpos : UInt32.ofNat (n + 1) ≠ 0 := by
    intro hzero
    rw [hzero] at hvalue
    exact absurd hvalue (Nat.succ_ne_zero n).symm
  have hmod : (n + 1) % 2 ^ 32 = n + 1 := Nat.mod_eq_of_lt (by omega)
  rw [stamp_eq, if_pos hn, hmod]
  simp only [hpos, ne_eq, not_false_eq_true, and_true]

/-- A timestamp follows the one before it if it is 16 more, provided that this fits a word. -/
theorem follows_iff {seed v previous : UInt32} {n : ℕ} (hv : stamp seed n = some v)
    (hprevious : lastStamp seed n = some previous) (hfit : previous.toNat + 16 < 2 ^ 32) :
    Follows seed n ↔ v.toNat = previous.toNat + 16 := by
  have hsum : (previous + 16).toNat = previous.toNat + 16 := by
    rw [UInt32.toNat_add]
    exact Nat.mod_eq_of_lt hfit
  rw [← hsum, UInt32.toNat_inj]
  refine ⟨fun h => h v previous hv hprevious, fun h w p hw hp => ?_⟩
  rw [hv, Option.some.injEq] at hw
  rw [hprevious, Option.some.injEq] at hp
  rw [← hw, ← hp, h]

/-- Between the idle count that passes for a timestamp, if there is one, and the round's end the
last timestamp is that of the round before; the high half of a fault stops them. -/
theorem lastStamp_regular {seed : UInt32} {n : ℕ}
    (h : n % 16 = 0 ∨ ¬ Misread seed (n / 16 * 16 + 1)) (hn : 16 ≤ n) :
    lastStamp seed n = some (UInt32.ofNat (min (n / 16 * 16) 0xf000fff0)) := by
  rw [lastStamp, if_neg, if_neg (Nat.not_lt.mpr hn)]
  rintro ⟨hmod, hmisread⟩
  exact h.elim hmod (fun hno => hno hmisread)

theorem lastStamp_first {seed : UInt32} {n : ℕ} (h : n = 0 ∨ ¬ Misread seed 1) (hn : n < 16) :
    lastStamp seed n = none := by
  have hblock : n / 16 * 16 = 0 := by omega
  rw [lastStamp, if_neg, if_pos hn]
  rintro ⟨hmod, hmisread⟩
  rw [hblock] at hmisread
  exact h.elim (fun h0 => hmod (by rw [h0])) (fun hno => hno hmisread)

section

variable {seed : UInt32} {n : ℕ} (h : Harmless seed n)

include h

/-- Only the idle count of the round that goes on can be taken for a timestamp. -/
theorem Harmless.block {k : ℕ} (hk : k ≤ n) (hmisread : Misread seed k) :
    k = n / 16 * 16 + 1 ∧ n % 16 ≠ 0 := by
  have hlate := (h.misread k hk hmisread).1
  have hmod := hmisread.1
  omega

/-- The timestamp that ends a round does not follow the idle count that has passed for one in it. -/
theorem Harmless.round_end_misread (hn : (n + 1) % 16 = 0)
    (hmisread : Misread seed (n / 16 * 16 + 1)) :
    ¬ Follows seed n ∧ ¬ Harmless seed (n + 1) := by
  have hshort := h.short
  obtain ⟨-, hidle⟩ := h.misread _ (by omega) hmisread
  have hcount := idle_toNat (xorshift^[n / 16 * 16 + 1] seed)
  have hlast : lastStamp seed n = some (idle (xorshift^[n / 16 * 16 + 1] seed)) :=
    if_pos ⟨by omega, hmisread⟩
  have hnow : stamp seed n = some (UInt32.ofNat (n + 1)) := by
    rw [stamp_end hn hshort, if_pos (by omega)]
  constructor
  · intro hfollows
    rw [follows_iff hnow hlast (by omega), ofNat_toNat_of_lt (by omega)] at hfollows
    omega
  · intro hharmless
    have := (hharmless.misread _ (by omega) hmisread).1
    omega

/-- It follows the one before it, unless it is the sequence number that passes for a fault. -/
theorem Harmless.round_end_regular (hn : (n + 1) % 16 = 0)
    (hmisread : ¬ Misread seed (n / 16 * 16 + 1)) :
    (Follows seed n ↔ Harmless seed (n + 1)) ∧
    (Harmless seed (n + 1) → (stamp seed n).or (lastStamp seed n) = lastStamp seed (n + 1)) := by
  have hshort := h.short
  have hstamp := @stamp_end seed n hn hshort
  have hvalue : (UInt32.ofNat (n + 1)).toNat = n + 1 := ofNat_toNat_of_lt (by omega)
  have hnone {k : ℕ} (hk : k ≤ n + 1) : ¬ Misread seed k := fun hk' => by
    have hmod := hk'.1
    have hwhere := (h.block (by omega : k ≤ n) hk').1
    rw [hwhere] at hk'
    exact hmisread hk'
  have hharmless : Harmless seed (n + 1) ↔ n + 1 < 0xf0020000 :=
    ⟨fun hh => hh.short, fun hlt => ⟨hlt, fun k hk hk' => absurd hk' (hnone hk)⟩⟩
  have hnext : lastStamp seed (n + 1) =
      some (UInt32.ofNat (min ((n + 1) / 16 * 16) 0xf000fff0)) :=
    lastStamp_regular (.inl hn) (by omega)
  have hsame : (n + 1) / 16 * 16 = n + 1 := by omega
  rw [hharmless, hnext, hsame]
  rcases Nat.lt_or_ge n 16 with hfirst | hlater
  · have hnow : stamp seed n = some (UInt32.ofNat (n + 1)) := by
      rw [hstamp, if_pos (by omega)]
    have hlast := lastStamp_first (.inr (hnone (by omega) : ¬ Misread seed 1)) hfirst
    refine ⟨iff_of_true (follows_of_none (.inr hlast)) (by omega), fun _ => ?_⟩
    rw [hnow, Option.some_or, Nat.min_eq_left (by omega)]
  · have hlast := lastStamp_regular (.inr hmisread) hlater
    have hprevious : (UInt32.ofNat (min (n / 16 * 16) 0xf000fff0)).toNat =
        min (n / 16 * 16) 0xf000fff0 := ofNat_toNat_of_lt (by omega)
    by_cases hfault : (n + 1) / 2 ^ 16 = 0xf001
    · -- the sequence number passes for a fault
      rw [if_neg (not_not_intro hfault)] at hstamp
      refine ⟨iff_of_true (follows_of_none (.inl hstamp)) (by omega), fun _ => ?_⟩
      rw [hstamp, Option.none_or, hlast, Nat.min_eq_right (by omega),
        Nat.min_eq_right (by omega)]
    · rw [if_pos hfault] at hstamp
      refine ⟨?_, fun hlt => ?_⟩
      · rw [follows_iff hstamp hlast (by rw [hprevious]; omega), hprevious, hvalue]
        omega
      · rw [hstamp, Option.some_or, Nat.min_eq_left (by omega)]

/-- At the end of a round comes a timestamp. -/
theorem Harmless.round_end (hn : (n + 1) % 16 = 0) :
    (Follows seed n ↔ Harmless seed (n + 1)) ∧
    (Harmless seed (n + 1) → (stamp seed n).or (lastStamp seed n) = lastStamp seed (n + 1)) := by
  by_cases hmisread : Misread seed (n / 16 * 16 + 1)
  · obtain ⟨hfollows, hharmless⟩ := h.round_end_misread hn hmisread
    exact ⟨iff_of_false hfollows hharmless, fun hno => absurd hno hharmless⟩
  · exact h.round_end_regular hn hmisread

/-- At the start of a round comes an idle count. -/
theorem Harmless.round_start (hn : (n + 1) % 16 = 1) :
    (Follows seed n ↔ Harmless seed (n + 1)) ∧
    (Harmless seed (n + 1) → (stamp seed n).or (lastStamp seed n) = lastStamp seed (n + 1)) := by
  have hblock : (n + 1) / 16 * 16 = n := by omega
  have hnone {k : ℕ} (hk : k ≤ n) : ¬ Misread seed k := fun hmisread =>
    (h.block hk hmisread).2 (by omega)
  have hshort := h.short
  by_cases hmisread : Misread seed (n + 1)
  · have hcount := idle_toNat (xorshift^[n + 1] seed)
    have hstamp : stamp seed n = some (idle (xorshift^[n + 1] seed)) := by
      rw [stamp_eq, if_neg (by omega), if_pos hmisread]
    have hharmless : Harmless seed (n + 1) ↔
        n = 0 ∨ (idle (xorshift^[n + 1] seed)).toNat = n + 16 := by
      refine ⟨fun hh => ?_, fun hcase => ⟨by omega, fun k hk hk' => ?_⟩⟩
      · have := (hh.misread (n + 1) le_rfl hmisread).2
        omega
      · obtain rfl : k = n + 1 := by
          by_contra hne
          exact hnone (by omega) hk'
        exact ⟨by omega, by omega⟩
    refine ⟨?_, fun _ => ?_⟩
    · rw [hharmless]
      rcases Nat.eq_zero_or_pos n with rfl | hpos
      · exact iff_of_true (follows_of_none (.inr (lastStamp_first (.inl rfl) (by decide))))
          (.inl rfl)
      · have hprevious : (UInt32.ofNat (min (n / 16 * 16) 0xf000fff0)).toNat =
            min (n / 16 * 16) 0xf000fff0 := ofNat_toNat_of_lt (by omega)
        rw [follows_iff hstamp (lastStamp_regular (.inl (by omega)) (by omega))
          (by rw [hprevious]; omega), hprevious]
        omega
    · rw [hstamp, Option.some_or, lastStamp, hblock, if_pos ⟨by omega, hmisread⟩]
  · have hstamp : stamp seed n = none := by
      rw [stamp_eq, if_neg (by omega), if_neg hmisread]
    have hall {k : ℕ} (hk : k ≤ n + 1) : ¬ Misread seed k := by
      rcases Nat.lt_or_ge n k with hlt | hle
      · obtain rfl : k = n + 1 := by omega
        exact hmisread
      · exact hnone hle
    refine ⟨iff_of_true (follows_of_none (.inl hstamp))
      ⟨by omega, fun k hk hk' => absurd hk' (hall hk)⟩, fun _ => ?_⟩
    rw [hstamp, Option.none_or]
    rcases Nat.eq_zero_or_pos n with rfl | hpos
    · rw [lastStamp_first (.inl rfl) (by decide), lastStamp_first (.inr hmisread) (by decide)]
    · rw [lastStamp_regular (.inl (by omega)) (by omega),
        lastStamp_regular (.inr (by rwa [hblock])) (by omega), hblock]
      have hsame : n / 16 * 16 = n := by omega
      rw [hsame]

/-- In between comes nothing that passes for a timestamp. -/
theorem Harmless.round_middle (hend : (n + 1) % 16 ≠ 0) (hstart : (n + 1) % 16 ≠ 1) :
    (Follows seed n ↔ Harmless seed (n + 1)) ∧
    (Harmless seed (n + 1) → (stamp seed n).or (lastStamp seed n) = lastStamp seed (n + 1)) := by
  have hstamp : stamp seed n = none := by
    rw [stamp_eq, if_neg hend, if_neg fun hmisread => hstart hmisread.1]
  have hshort := h.short
  have hblock : (n + 1) / 16 * 16 = n / 16 * 16 := by omega
  refine ⟨⟨fun _ => ⟨by omega, fun k hk hk' => ?_⟩, fun _ v previous hv => ?_⟩, fun _ => ?_⟩
  · have hmod := hk'.1
    obtain ⟨hlate, hvalue⟩ := h.misread k (by omega) hk'
    exact ⟨by omega, hvalue⟩
  · rw [hstamp] at hv
    contradiction
  · have hlt : n + 1 < 16 ↔ n < 16 := by omega
    have hne : (n + 1) % 16 ≠ 0 ↔ n % 16 ≠ 0 := by omega
    rw [hstamp, Option.none_or, lastStamp, lastStamp, hblock]
    simp only [hlt, hne]

end

theorem Harmless.before {seed : UInt32} {n : ℕ} (h : Harmless seed (n + 1)) : Harmless seed n := by
  have hshort := h.short
  refine ⟨by omega, fun k hk hk' => ?_⟩
  obtain ⟨hlate, hvalue⟩ := h.misread k (by omega) hk'
  exact ⟨by omega, hvalue⟩

/-- The host finds no gap in the first `n` events just when they are harmless. -/
theorem builder_harmless (seed : UInt32) (n : ℕ) :
    ((builder seed n).trace.sequenceGaps = [] ↔ Harmless seed n) ∧
      (Harmless seed n → (builder seed n).lastTimestamp = lastStamp seed n) := by
  induction n with
  | zero =>
    have hnone : ∀ k ≤ 0, ¬ Misread seed k := fun k hk hmisread => by
      have hmod := hmisread.1
      omega
    refine ⟨iff_of_true rfl ⟨by decide, fun k hk hk' => absurd hk' (hnone k hk)⟩, fun _ => ?_⟩
    rw [lastStamp_first (.inl rfl) (by decide)]
    rfl
  | succ n ih =>
    obtain ⟨hgaps, hlast⟩ := ih
    obtain ⟨htimestamp, -, hnil⟩ := Builder.step_timestamp (builder seed n)
      (packet (Generator.nth Workload.next (Workload.new seed) n))
    rw [← builder_succ, ← stamp] at htimestamp hnil
    rw [hnil, htimestamp, hgaps]
    have hround (h : Harmless seed n) : (Follows seed n ↔ Harmless seed (n + 1)) ∧
        (Harmless seed (n + 1) →
          (stamp seed n).or (lastStamp seed n) = lastStamp seed (n + 1)) := by
      by_cases hend : (n + 1) % 16 = 0
      · exact h.round_end hend
      · by_cases hstart : (n + 1) % 16 = 1
        · exact h.round_start hstart
        · exact h.round_middle hend hstart
    refine ⟨⟨fun ⟨h, hfollows⟩ => ?_, fun h => ⟨h.before, ?_⟩⟩, fun h => ?_⟩
    · rw [hlast h] at hfollows
      exact (hround h).1.mp hfollows
    · rw [hlast h.before]
      exact (hround h.before).1.mpr h
    · rw [hlast h.before]
      exact (hround h.before).2 h

/-- **When the host finds no gap** in a capture that has lost nothing: the sequence number has not
come to `0xf0020000`, and each idle count among the events that is a multiple of 16 is the first
event or 15 more than its own sequence number, with no timestamp after it. -/
theorem captureGaps_nil_iff (seed : UInt32) (n : ℕ) :
    captureGaps seed n = some [] ↔
      n < 0xf0020000 ∧ ∀ k ≤ n, k % 16 = 1 → (xorshift^[k] seed).toNat % 16 = 15 →
        n < k + 15 ∧ (k = 1 ∨ (xorshift^[k] seed).toNat % 1024 + 1 = k + 15) := by
  have hmisread (k : ℕ) :
      Misread seed k ↔ k % 16 = 1 ∧ (xorshift^[k] seed).toNat % 16 = 15 := by
    rw [Misread, mod_sixteen, idle_toNat]
    omega
  rw [captureGaps_eq, Option.some.injEq, (builder_harmless seed n).1]
  constructor
  · intro h
    refine ⟨h.short, fun k hk hmod hstate => ?_⟩
    have hvalue := h.misread k hk ((hmisread k).mpr ⟨hmod, hstate⟩)
    rwa [idle_toNat] at hvalue
  · rintro ⟨hshort, h⟩
    refine ⟨hshort, fun k hk hk' => ?_⟩
    rw [idle_toNat]
    exact h k hk ((hmisread k).mp hk').1 ((hmisread k).mp hk').2

/-- With the firmware's seed the 417th event is the idle count 336. -/
theorem captureGaps_seed_seven : captureGaps 7 417 = some [(416, 1)] := by
  rw [captureGaps_eq]
  decide +kernel

/-- **A lossless capture may show a gap.** -/
theorem not_always_gapless : ¬ ∀ (seed : UInt32) (n : ℕ), captureGaps seed n = some [] := by
  intro h
  have hgap := captureGaps_seed_seven
  rw [h] at hgap
  exact absurd hgap (by decide)

end SequenceGaps
