import Zub1cg.Model.Itm

/-!
# The picture of a packet list

What the loop over the packets draws, without the loop: the SWIT packets are numbered in order, each
is an instant at its number, and the timestamps among them are compared pair by pair.

## Main definitions

- `switPackets`, `stamps` — the SWIT packets, and the timestamps among them with their numbers
- `instants`, `gaps` — the two tracks

## Main results

- `Drawn.step` — one more packet
- `perfetto_trace` — the trace of a packet list
-/

namespace Model

/-! ### Neighbours -/

section

variable {α : Type*}

/-- The items of a list, each with the one behind it. -/
def neighbours (l : List α) : List (α × α) := l.zip l.tail

theorem neighbours_concat (l : List α) (x : α) :
    neighbours (l ++ [x]) = neighbours l ++ l.getLast?.toList.map (·, x) := by
  induction l with
  | nil => rfl
  | cons a l ih =>
    cases l with
    | nil => rfl
    | cons b l =>
      change (a, b) :: neighbours ((b :: l) ++ [x]) = (a, b) :: (neighbours (b :: l) ++ _)
      rw [ih, List.getLast?_cons_cons]

theorem neighbours_map_snd (l : List α) : (neighbours l).map Prod.snd = l.tail :=
  List.map_snd_zip (by rw [List.length_tail]; omega)

end

/-! ### The tracks of a packet list -/

/-- A SWIT packet. -/
structure SwitPacket where
  port : UInt8
  value : UInt32
  width : UInt8
  deriving DecidableEq, Repr

def ItmPacket.swit : ItmPacket → Option SwitPacket
  | Swit port value width => some ⟨port, value, width⟩
  | Unrecognized _ => none

/-- The timestamp that it is taken for. -/
def SwitPacket.timestamp (p : SwitPacket) : Option UInt32 :=
  (ItmPacket.Swit p.port p.value p.width).timestamp

/-- The SWIT packets, in order. -/
def switPackets (packets : List ItmPacket) : List SwitPacket := packets.filterMap ItmPacket.swit

/-- The instant of a SWIT packet with its number. -/
def instant (item : SwitPacket × ℕ) : PerfettoEvent where
  port := item.1.port
  ts := item.2
  name := eventName item.1.port item.1.value item.1.width
  value := item.1.value
  width := item.1.width

/-- The instants of the SWIT packets. -/
def instants (packets : List ItmPacket) : List PerfettoEvent :=
  (switPackets packets).zipIdx.map instant

/-- The timestamps, each with the number of its packet. -/
def stamps (packets : List ItmPacket) : List (ℕ × UInt32) :=
  (switPackets packets).zipIdx.filterMap fun item => item.1.timestamp.map (item.2, ·)

/-- The number of every timestamp that is not 16 after the one before it. -/
def jumps (l : List (ℕ × UInt32)) : List ℕ :=
  ((neighbours l).filter fun pair => pair.2.2 ≠ pair.1.2 + 16).map fun pair => pair.2.1

/-- The samples of the counter track. -/
def gaps (packets : List ItmPacket) : List (ℕ × ℕ) := (jumps (stamps packets)).zipIdx 1

/-! ### One more packet -/

theorem jumps_concat (l : List (ℕ × UInt32)) (x : ℕ × UInt32) :
    jumps (l ++ [x]) = jumps l ++
      (l.getLast?.toList.filter fun last => x.2 ≠ last.2 + 16).map fun _ => x.1 := by
  rw [jumps, neighbours_concat, List.filter_append, List.map_append, jumps, List.filter_map,
    List.map_map]
  rfl

section

variable (packets : List ItmPacket) (port : UInt8) (value : UInt32) (width : UInt8)

theorem switPackets_concat :
    switPackets (packets ++ [.Swit port value width]) =
      switPackets packets ++ [⟨port, value, width⟩] := by
  rw [switPackets, List.filterMap_append]
  rfl

theorem instants_concat :
    instants (packets ++ [.Swit port value width]) =
      instants packets ++ [instant (⟨port, value, width⟩, (switPackets packets).length)] := by
  rw [instants, switPackets_concat, List.zipIdx_append, List.map_append, instants, Nat.zero_add]
  rfl

theorem stamps_concat :
    stamps (packets ++ [.Swit port value width]) = stamps packets ++
      (ItmPacket.Swit port value width).timestamp.toList.map ((switPackets packets).length, ·) := by
  rw [stamps, switPackets_concat, List.zipIdx_append, List.filterMap_append, stamps, Nat.zero_add]
  congr 1
  cases htimestamp : (ItmPacket.Swit port value width).timestamp with
  | none => simp [SwitPacket.timestamp, htimestamp]
  | some v => simp [SwitPacket.timestamp, htimestamp]

end

/-- What has been drawn of the packets so far. -/
structure Drawn (packets : List ItmPacket) (b : Builder) : Prop where
  events : b.trace.events = instants packets
  ts : b.ts = (switPackets packets).length
  last : b.lastTimestamp = (stamps packets).getLast?.map Prod.snd
  count : b.gapCount = (jumps (stamps packets)).length
  gaps : b.trace.sequenceGaps = gaps packets

/-- A SWIT packet is held against the last timestamp if it is one, and then drawn. -/
theorem Builder.step_swit (b : Builder) (port : UInt8) (value : UInt32) (width : UInt8) :
    b.step (.Swit port value width) =
      let b := match (ItmPacket.Swit port value width).timestamp with
        | some v => b.timestamp v
        | none => b
      { b with
        trace :=
          { b.trace with
            events := b.trace.events ++ [instant (⟨port, value, width⟩, b.ts)] }
        ts := b.ts + 1 } := by
  rw [Builder.step, ItmPacket.timestamp]
  by_cases hport : port = 0
  · rw [if_pos hport, if_pos hport]
    cases classifyPort0 value width <;> rfl
  · rw [if_neg hport, if_neg hport]
    rfl

theorem Builder.timestamp_frame (b : Builder) (v : UInt32) :
    (b.timestamp v).trace.events = b.trace.events ∧ (b.timestamp v).ts = b.ts ∧
      (b.timestamp v).lastTimestamp = some v := by
  rw [Builder.timestamp]
  cases b.lastTimestamp with
  | none => exact ⟨rfl, rfl, rfl⟩
  | some previous =>
    dsimp only
    split <;> exact ⟨rfl, rfl, rfl⟩

/-- What a timestamp adds to the counter track. -/
theorem Builder.timestamp_gaps (b : Builder) (v : UInt32) {l : List (ℕ × UInt32)}
    (hlast : b.lastTimestamp = l.getLast?.map Prod.snd) (hcount : b.gapCount = (jumps l).length)
    (hgaps : b.trace.sequenceGaps = (jumps l).zipIdx 1) :
    (b.timestamp v).gapCount = (jumps (l ++ [(b.ts, v)])).length ∧
      (b.timestamp v).trace.sequenceGaps = (jumps (l ++ [(b.ts, v)])).zipIdx 1 := by
  rw [Builder.timestamp, jumps_concat, hlast]
  cases l.getLast? with
  | none =>
    rw [Option.map_none, Option.toList_none, List.filter_nil, List.map_nil, List.append_nil]
    exact ⟨hcount, hgaps⟩
  | some last =>
    rw [Option.map_some, Option.toList_some]
    dsimp only
    by_cases hgap : v = last.2 + 16
    · rw [if_neg (not_not_intro hgap), List.filter_singleton, decide_eq_false (not_not_intro hgap)]
      rw [cond_false, List.map_nil, List.append_nil]
      exact ⟨hcount, hgaps⟩
    · rw [if_pos hgap, List.filter_singleton, decide_eq_true hgap, cond_true, List.map_singleton,
        List.length_append, List.zipIdx_append, ← hcount, ← hgaps]
      refine ⟨rfl, ?_⟩
      rw [Nat.add_comm 1]
      rfl

/-- **One more packet.** -/
theorem Drawn.step {packets : List ItmPacket} {b : Builder} (h : Drawn packets b)
    (packet : ItmPacket) : Drawn (packets ++ [packet]) (b.step packet) := by
  cases packet with
  | Unrecognized header =>
    have hsame : switPackets (packets ++ [.Unrecognized header]) = switPackets packets := by
      rw [switPackets, List.filterMap_append]
      exact List.append_nil _
    refine ⟨?_, ?_, ?_, ?_, ?_⟩
    · rw [instants, hsame]
      exact h.events
    · rw [hsame]
      exact h.ts
    · rw [stamps, hsame]
      exact h.last
    · rw [stamps, hsame]
      exact h.count
    · rw [Model.gaps, stamps, hsame]
      exact h.gaps
  | Swit port value width =>
    rw [Builder.step_swit]
    have hlength : (switPackets (packets ++ [.Swit port value width])).length =
        (switPackets packets).length + 1 := by
      rw [switPackets_concat, List.length_append, List.length_singleton]
    cases hstamp : (ItmPacket.Swit port value width).timestamp with
    | none =>
      have hstamps : stamps (packets ++ [.Swit port value width]) = stamps packets := by
        rw [stamps_concat, hstamp, Option.toList_none, List.map_nil, List.append_nil]
      refine ⟨?_, ?_, ?_, ?_, ?_⟩
      · rw [instants_concat, ← h.events, ← h.ts]
      · rw [hlength, ← h.ts]
      · rw [hstamps]
        exact h.last
      · rw [hstamps]
        exact h.count
      · rw [Model.gaps, hstamps]
        exact h.gaps
    | some v =>
      obtain ⟨hevents, hts, hlast⟩ := b.timestamp_frame v
      obtain ⟨hcount, hgaps⟩ := b.timestamp_gaps v h.last h.count h.gaps
      have hstamps : stamps (packets ++ [.Swit port value width]) =
          stamps packets ++ [(b.ts, v)] := by
        rw [stamps_concat, hstamp, Option.toList_some, List.map_singleton, ← h.ts]
      refine ⟨?_, ?_, ?_, ?_, ?_⟩
      · dsimp only
        rw [instants_concat, hevents, hts, ← h.events, ← h.ts]
      · dsimp only
        rw [hlength, hts, ← h.ts]
      · rw [hstamps, List.getLast?_concat]
        exact hlast
      · rw [hstamps]
        exact hcount
      · rw [Model.gaps, hstamps]
        exact hgaps

/-- All packets. -/
theorem drawn_all (packets : List ItmPacket) :
    Drawn packets (packets.foldl Builder.step Builder.initial) := by
  induction packets using List.reverseRecOn with
  | nil => exact ⟨rfl, rfl, rfl, rfl, rfl⟩
  | append_singleton packets packet ih =>
    rw [List.foldl_append]
    exact ih.step packet

/-! ### Numbers in order -/

theorem stamps_increasing (packets : List ItmPacket) :
    (stamps packets).Pairwise fun x y => x.1 < y.1 := by
  have hnumbers : (switPackets packets).zipIdx.Pairwise fun x y => x.2 < y.2 := by
    rw [← List.pairwise_map (f := Prod.snd), List.zipIdx_map_snd]
    exact List.pairwise_lt_range'
  refine hnumbers.filterMap _ fun x y hlt => ?_
  intro s hs t ht
  obtain ⟨v, -, rfl⟩ := Option.map_eq_some_iff.mp hs
  obtain ⟨w, -, rfl⟩ := Option.map_eq_some_iff.mp ht
  exact hlt

theorem jumps_increasing {l : List (ℕ × UInt32)} (h : l.Pairwise fun x y => x.1 < y.1) :
    (jumps l).Pairwise (· < ·) := by
  have hsub : List.Sublist (((neighbours l).filter fun pair => pair.2.2 ≠ pair.1.2 + 16).map
      Prod.snd) l := by
    refine (List.filter_sublist.map Prod.snd).trans ?_
    rw [neighbours_map_snd]
    exact List.tail_sublist l
  have hpairs := h.sublist hsub
  rw [List.pairwise_map] at hpairs
  rw [jumps, List.pairwise_map]
  exact hpairs

/-- **The trace of a packet list.** There is one instant for each SWIT packet, in order, with its
port, value and width, at `0`, `1` and so on. The samples of the counter track are, for each two
timestamps behind each other that are not 16 apart, the number of the second one; they are in strict
order, and count `1`, `2` and so on. -/
theorem perfetto_trace (packets : List ItmPacket) :
    (buildPerfettoTrace packets).events = instants packets ∧
      (buildPerfettoTrace packets).events.map (·.ts) = List.range (switPackets packets).length ∧
      (buildPerfettoTrace packets).events.map (fun e => ⟨e.port, e.value, e.width⟩) =
        switPackets packets ∧
      (buildPerfettoTrace packets).sequenceGaps.map Prod.fst =
        ((neighbours (stamps packets)).filter fun pair => pair.2.2 ≠ pair.1.2 + 16).map
          (fun pair => pair.2.1) ∧
      ((buildPerfettoTrace packets).sequenceGaps.map Prod.fst).Pairwise (· < ·) ∧
      (buildPerfettoTrace packets).sequenceGaps.map Prod.snd =
        List.range' 1 (buildPerfettoTrace packets).sequenceGaps.length := by
  have hdrawn := drawn_all packets
  have hgaps : (buildPerfettoTrace packets).sequenceGaps.map Prod.fst = jumps (stamps packets) := by
    rw [buildPerfettoTrace, hdrawn.gaps, gaps, List.zipIdx_map_fst]
  refine ⟨hdrawn.events, ?_, ?_, hgaps, ?_, ?_⟩
  · rw [buildPerfettoTrace, hdrawn.events, instants, List.map_map, List.range_eq_range',
      ← List.zipIdx_map_snd]
    rfl
  · rw [buildPerfettoTrace, hdrawn.events, instants, List.map_map]
    exact List.zipIdx_map_fst 0 _
  · rw [hgaps]
    exact jumps_increasing (stamps_increasing packets)
  · rw [buildPerfettoTrace, hdrawn.gaps, gaps, List.zipIdx_map_snd, List.length_zipIdx]

end Model
