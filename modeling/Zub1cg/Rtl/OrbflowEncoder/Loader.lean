import Zub1cg.Rtl.OrbflowEncoder
import Zub1cg.Library.MemoryRegion
import Zub1cg.Library.Packets
import Zub1cg.Model.Orbflow.RoundTrip

/-!
# The loader of the Orbflow encoder

While a packet comes in, the bank being loaded holds its raw bytes so far and the lengths of
their closed COBS runs. A packet that grows too long is forgotten when it ends.

## Main definitions

- `Packet`, `header`, `raw` — a packet, its raw bytes without and with the checksum
- `Partial` — the bank being loaded holds these raw bytes
- `Loading` — what the loader is doing, in terms of the packets
- `kept` — the completed packets that are not too long

## Main results

- `Partial.append` — one raw byte more
- `Loading.step` — one edge outside of `L_FINALIZE`
- `Loading.fill` — the edge that fills a bank
-/

open MemoryRegion Cobs

namespace OrbflowEncoder

/-! ### Packets -/

abbrev Packet := List (BitVec 7 × UInt8)

/-- The channel of a packet is that of its first byte. -/
def header : Packet → List UInt8
  | [] => []
  | (channel, data) :: rest => channelByte channel :: data :: rest.map Prod.snd

def raw (p : Packet) : List UInt8 := Model.appendChecksum (header p)

/-- The completed packets that are not too long. -/
def kept (maxPayload : ℕ) (items : List ((BitVec 7 × UInt8) × Bool)) : List Packet :=
  (Packets.completed items).filter fun p => p.length ≤ maxPayload

theorem header_concat {p : Packet} (hp : p ≠ []) (x : BitVec 7 × UInt8) :
    header (p ++ [x]) = header p ++ [x.2] := by
  obtain ⟨⟨channel, data⟩, rest, rfl⟩ := List.exists_cons_of_ne_nil hp
  rw [List.cons_append, header, header, List.map_append]
  rfl

theorem header_length {p : Packet} (hp : p ≠ []) : (header p).length = p.length + 1 := by
  obtain ⟨⟨channel, data⟩, rest, rfl⟩ := List.exists_cons_of_ne_nil hp
  rw [header, List.length_cons, List.length_cons, List.length_map, List.length_cons]

theorem raw_length {p : Packet} (hp : p ≠ []) : (raw p).length = p.length + 2 := by
  rw [raw, Model.appendChecksum, List.length_append, header_length hp]
  rfl

theorem kept_concat (maxPayload : ℕ) (items : List ((BitVec 7 × UInt8) × Bool))
    (x : BitVec 7 × UInt8) (last : Bool) :
    kept maxPayload (items ++ [(x, last)]) = kept maxPayload items ++
      if last ∧ (Packets.pending items ++ [x]).length ≤ maxPayload then
        [Packets.pending items ++ [x]] else [] := by
  rw [kept, Packets.filter_completed_concat, kept]
  simp only [decide_eq_true_eq]

/-! ### The checksum -/

theorem checksum_concat (bytes : List UInt8) (b : UInt8) :
    0 - Model.byteSum bytes - b = 0 - Model.byteSum (bytes ++ [b]) := by
  rw [Model.byteSum_concat]
  grind

theorem checksum_first (channel : BitVec 7) (data : UInt8) :
    0 - channelByte channel - data = 0 - Model.byteSum (header [(channel, data)]) := by
  change _ = 0 - (0 + channelByte channel + data)
  grind

/-! ### The bank being loaded -/

theorem store_same {α : Type} (mem : Bool → ℕ → α) (bank : Bool) (address : ℕ) (value : α) :
    store mem bank address value bank = Function.update (mem bank) address value :=
  Function.update_self _ _ _

theorem store_other {α : Type} (mem : Bool → ℕ → α) {bank other : Bool} (h : other ≠ bank)
    (address : ℕ) (value : α) : store mem bank address value other = mem other :=
  Function.update_of_ne h _ _

/-- The bank being loaded holds the raw bytes and the lengths of their closed runs. -/
structure Partial (s : State) (bytes : List UInt8) : Prop where
  packet : Stored (s.packet s.load.bank) 0 bytes
  rawLength : s.load.rawLength = bytes.length
  groups : Stored (s.groups s.load.bank) 0 ((runs bytes).closed.map runLength)
  groupIndex : s.load.groupIndex = (runs bytes).closed.length
  groupLength : s.load.groupLength = runLength (runs bytes).current

section

variable {maxPayload : ℕ} {i : Input} {s : State}

/-- Storing a raw byte changes the counters of the bank being loaded and nothing else of the
loader. -/
theorem appendUpdate_frame (maxPayload : ℕ) (i : Input) (s : State) :
    (∃ rawLength groupIndex groupLength, (appendUpdate maxPayload i s s).load = { s.load with
      rawLength := rawLength, groupIndex := groupIndex, groupLength := groupLength }) ∧
    (appendUpdate maxPayload i s s).emit = s.emit ∧
    (appendUpdate maxPayload i s s).bankFull = s.bankFull ∧
    (appendUpdate maxPayload i s s).bankGroupCount = s.bankGroupCount ∧
    (appendUpdate maxPayload i s s).overrun = s.overrun ∧
    (appendUpdate maxPayload i s s).droppedBytes = s.droppedBytes ∧
    ∀ bank, bank ≠ s.load.bank →
      (appendUpdate maxPayload i s s).packet bank = s.packet bank ∧
      (appendUpdate maxPayload i s s).groups bank = s.groups bank := by
  rw [appendUpdate]
  cases append maxPayload i s with
  | none =>
    exact ⟨⟨_, _, _, rfl⟩, rfl, rfl, rfl, rfl, rfl, fun _ _ => ⟨rfl, rfl⟩⟩
  | some value =>
    dsimp only
    split_ifs
    · exact ⟨⟨_, _, _, rfl⟩, rfl, rfl, rfl, rfl, rfl, fun bank hbank =>
        ⟨store_other _ hbank _ _, store_other _ hbank _ _⟩⟩
    · exact ⟨⟨_, _, _, rfl⟩, rfl, rfl, rfl, rfl, rfl, fun bank hbank =>
        ⟨store_other _ hbank _ _, store_other _ hbank _ _⟩⟩
    · exact ⟨⟨_, _, _, rfl⟩, rfl, rfl, rfl, rfl, rfl, fun bank hbank =>
        ⟨store_other _ hbank _ _, rfl⟩⟩

/-- One raw byte more. -/
theorem Partial.append {bytes : List UInt8} (h : Partial s bytes) {value : UInt8}
    (hvalue : append maxPayload i s = some value) :
    Partial (appendUpdate maxPayload i s s) (bytes ++ [value]) := by
  have hclosed : ((runs bytes).closed.map runLength).length = (runs bytes).closed.length :=
    List.length_map _
  have hpacket : Stored (store s.packet s.load.bank s.load.rawLength value s.load.bank) 0
      (bytes ++ [value]) := by
    rw [store_same]
    exact h.packet.concat (by rw [h.rawLength, Nat.zero_add]) value
  have hlength : s.load.rawLength + 1 = (bytes ++ [value]).length := by
    rw [h.rawLength, List.length_append, List.length_singleton]
  have hgroups : ∀ length, Stored (store s.groups s.load.bank s.load.groupIndex length s.load.bank)
      0 ((runs bytes).closed.map runLength ++ [length]) := by
    intro length
    rw [store_same]
    exact h.groups.concat (by rw [h.groupIndex, hclosed, Nat.zero_add]) length
  rw [appendUpdate, hvalue]
  dsimp only
  by_cases hzero : value = 0
  · subst hzero
    obtain ⟨hrun, hcurrent⟩ := (runs bytes).push_zero
    rw [if_pos rfl]
    refine ⟨hpacket, hlength, ?_, ?_, ?_⟩
    · rw [runs_concat, hrun, List.map_append, List.map_singleton, ← h.groupLength]
      exact hgroups _
    · rw [runs_concat, hrun, List.length_append, List.length_singleton, h.groupIndex]
    · rw [runs_concat, hcurrent]
      rfl
  · rw [if_neg hzero]
    have hfull := runLength_eq_iff (Nat.le_of_lt (runs bytes).current_short) 0xfd
    rw [← h.groupLength] at hfull
    by_cases hlong : s.load.groupLength = 0xfd
    · obtain ⟨hrun, hcurrent⟩ := Runs.push_full hzero (hfull.mp hlong)
      have hlast : runLength ((runs bytes).current ++ [value]) = 0xfe := by
        rw [runLength_concat, ← h.groupLength, hlong]
        rfl
      rw [if_pos hlong]
      refine ⟨hpacket, hlength, ?_, ?_, ?_⟩
      · rw [runs_concat, hrun, List.map_append, List.map_singleton, hlast]
        exact hgroups _
      · rw [runs_concat, hrun, List.length_append, List.length_singleton, h.groupIndex]
      · rw [runs_concat, hcurrent]
        rfl
    · obtain ⟨hrun, hcurrent⟩ := Runs.push_grow hzero (fun hlen => hlong (hfull.mpr hlen))
      rw [if_neg hlong]
      refine ⟨hpacket, hlength, ?_, ?_, ?_⟩
      · rw [runs_concat, hrun]
        exact h.groups
      · rw [runs_concat, hrun]
        exact h.groupIndex
      · rw [runs_concat, hcurrent, runLength_concat, ← h.groupLength]

/-- What the bank being loaded holds is told by its memories and four registers. -/
theorem Partial.of_same {n : State} {bytes : List UInt8} (h : Partial s bytes)
    (hpacket : n.packet = s.packet) (hgroups : n.groups = s.groups)
    (hbank : n.load.bank = s.load.bank) (hlength : n.load.rawLength = s.load.rawLength)
    (hindex : n.load.groupIndex = s.load.groupIndex)
    (hgroup : n.load.groupLength = s.load.groupLength) : Partial n bytes := by
  refine ⟨?_, hlength.trans h.rawLength, ?_, hindex.trans h.groupIndex,
    hgroup.trans h.groupLength⟩
  · rw [hpacket, hbank]
    exact h.packet
  · rw [hgroups, hbank]
    exact h.groups

/-! ### What the loader is doing -/

/-- The state behind the loader's half of an edge. -/
def loaded (maxPayload : ℕ) (i : Input) (s : State) : State :=
  loadUpdate maxPayload i s (appendUpdate maxPayload i s s)

/-- The loader in terms of the packet that is coming in and the one that has come in but is
not in a bank yet. -/
inductive Loading (maxPayload : ℕ) (s : State) : Packet → List Packet → Prop
  | empty (state : s.load.state = .L_ACCEPT) (count : s.load.payloadCount = 0)
      (keeping : s.load.dropping = false) (stored : Partial s []) : Loading maxPayload s [] []
  | filling (p : Packet) (state : s.load.state = .L_ACCEPT) (nonempty : p ≠ [])
      (fits : p.length ≤ maxPayload) (count : s.load.payloadCount = p.length)
      (keeping : s.load.dropping = false)
      (sum : s.load.checksum = 0 - Model.byteSum (header p)) (stored : Partial s (header p)) :
      Loading maxPayload s p []
  | dropping (p : Packet) (state : s.load.state = .L_ACCEPT) (long : maxPayload < p.length)
      (count : s.load.payloadCount = maxPayload) (dropping : s.load.dropping = true) :
      Loading maxPayload s p []
  | first (x : BitVec 7 × UInt8) (state : s.load.state = .L_FIRST_DATA)
      (count : s.load.payloadCount = 1) (keeping : s.load.dropping = false)
      (open_ : s.load.pendingLast = false) (data : s.load.pendingData = x.2)
      (sum : s.load.checksum = 0 - Model.byteSum (header [x]))
      (stored : Partial s [channelByte x.1]) : Loading maxPayload s [x] []
  | only (x : BitVec 7 × UInt8) (state : s.load.state = .L_FIRST_DATA)
      (keeping : s.load.dropping = false) (closed : s.load.pendingLast = true)
      (data : s.load.pendingData = x.2) (sum : s.load.checksum = 0 - Model.byteSum (header [x]))
      (stored : Partial s [channelByte x.1]) : Loading maxPayload s [] [[x]]
  | checksum (p : Packet) (state : s.load.state = .L_CHECKSUM) (nonempty : p ≠ [])
      (keeping : s.load.dropping = false)
      (sum : s.load.checksum = 0 - Model.byteSum (header p)) (stored : Partial s (header p)) :
      Loading maxPayload s [] [p]
  | finalize (p : Packet) (state : s.load.state = .L_FINALIZE) (nonempty : p ≠ [])
      (keeping : s.load.dropping = false) (stored : Partial s (raw p)) :
      Loading maxPayload s [] [p]

/-- The loader waits for a byte: no packet has begun, or the one that is coming in fits so far,
or it is too long. -/
theorem Loading.accepting {cur : Packet} {final : List Packet} (h : Loading maxPayload s cur final)
    (hstate : s.load.state = .L_ACCEPT) :
    final = [] ∧
      (cur = [] ∧ s.load.payloadCount = 0 ∧ s.load.dropping = false ∧ Partial s [] ∨
        (cur ≠ [] ∧ cur.length ≤ maxPayload ∧ s.load.payloadCount = cur.length ∧
          s.load.dropping = false ∧ s.load.checksum = 0 - Model.byteSum (header cur) ∧
          Partial s (header cur)) ∨
        maxPayload < cur.length ∧ s.load.payloadCount = maxPayload) := by
  cases h with
  | empty state count keeping stored => exact ⟨rfl, .inl ⟨rfl, count, keeping, stored⟩⟩
  | filling p state nonempty fits count keeping sum stored =>
    exact ⟨rfl, .inr (.inl ⟨nonempty, fits, count, keeping, sum, stored⟩)⟩
  | dropping p state long count => exact ⟨rfl, .inr (.inr ⟨long, count⟩)⟩
  | first x state => exact absurd (hstate.symm.trans state) (by decide)
  | only x state => exact absurd (hstate.symm.trans state) (by decide)
  | checksum p state => exact absurd (hstate.symm.trans state) (by decide)
  | finalize p state => exact absurd (hstate.symm.trans state) (by decide)

theorem append_of_idle (hstate : s.load.state = .L_ACCEPT) (hfire : inputFire i s = false) :
    append maxPayload i s = none := by
  rw [append, hstate, hfire]
  rfl

/-- Nothing is taken: nothing changes. -/
theorem loaded_idle (hstate : s.load.state = .L_ACCEPT) (hfire : inputFire i s = false) :
    loaded maxPayload i s = s ∧ accepted i s = [] := by
  constructor
  · rw [loaded, loadUpdate, hstate, hfire, appendUpdate, append_of_idle hstate hfire]
    rfl
  · rw [accepted, hfire]
    rfl

theorem accepted_of_busy (hstate : s.load.state ≠ .L_ACCEPT) : accepted i s = [] := by
  have hready : inputReady s = false := by
    rw [inputReady]
    simp [hstate]
  rw [accepted, inputFire, hready, Bool.and_false]
  rfl

theorem accepted_of_fire (hfire : inputFire i s = true) :
    accepted i s = [((i.inputChannel, i.inputData), i.inputLast)] := by
  rw [accepted, if_pos hfire]

/-- The packet behind a byte that is taken: it goes on, or it is complete and kept, or it is
complete and too long. -/
def taken (maxPayload : ℕ) (i : Input) (s : State) (cur : Packet) : Prop :=
  Loading maxPayload (loaded maxPayload i s)
    (if i.inputLast then [] else cur ++ [(i.inputChannel, i.inputData)])
    (if i.inputLast ∧ (cur ++ [(i.inputChannel, i.inputData)]).length ≤ maxPayload then
      [cur ++ [(i.inputChannel, i.inputData)]] else [])

theorem taken_of_fits {cur : Packet}
    (hfits : (cur ++ [(i.inputChannel, i.inputData)]).length ≤ maxPayload)
    (h : Loading maxPayload (loaded maxPayload i s)
      (if i.inputLast then [] else cur ++ [(i.inputChannel, i.inputData)])
      (if i.inputLast then [cur ++ [(i.inputChannel, i.inputData)]] else [])) :
    taken maxPayload i s cur := by
  rw [taken]
  simp only [hfits, and_true]
  exact h

theorem taken_of_long {cur : Packet}
    (hlong : maxPayload < (cur ++ [(i.inputChannel, i.inputData)]).length)
    (h : Loading maxPayload (loaded maxPayload i s)
      (if i.inputLast then [] else cur ++ [(i.inputChannel, i.inputData)]) []) :
    taken maxPayload i s cur := by
  rw [taken]
  simp only [Nat.not_le.mpr hlong, and_false]
  exact h

/-- The first byte of a packet is taken. -/
theorem taken_first (hmax : 1 ≤ maxPayload) (hfire : inputFire i s = true)
    (state : s.load.state = .L_ACCEPT) (count : s.load.payloadCount = 0)
    (keeping : s.load.dropping = false) (stored : Partial s []) : taken maxPayload i s [] := by
  have happend : append maxPayload i s = some (channelByte i.inputChannel) := by
    rw [append, state]
    dsimp only
    rw [if_pos hfire, if_pos count]
  have hpart := stored.append happend
  obtain ⟨⟨_, _, _, hload⟩, -⟩ := appendUpdate_frame maxPayload i s
  apply taken_of_fits hmax
  rw [loaded, loadUpdate, state]
  dsimp only
  rw [if_pos hfire, acceptUpdate, if_pos count]
  generalize appendUpdate maxPayload i s s = n at hpart hload ⊢
  have hdropping : n.load.dropping = false := by
    rw [hload]
    exact keeping
  cases hlast : i.inputLast with
  | true =>
    exact .only _ rfl hdropping rfl rfl (checksum_first _ _)
      (hpart.of_same rfl rfl rfl rfl rfl rfl)
  | false =>
    exact .first _ rfl rfl hdropping rfl rfl (checksum_first _ _)
      (hpart.of_same rfl rfl rfl rfl rfl rfl)

/-- A byte that still fits is taken. -/
theorem taken_fits {p : Packet} (hfire : inputFire i s = true) (state : s.load.state = .L_ACCEPT)
    (nonempty : p ≠ []) (fits : p.length < maxPayload) (count : s.load.payloadCount = p.length)
    (keeping : s.load.dropping = false) (sum : s.load.checksum = 0 - Model.byteSum (header p))
    (stored : Partial s (header p)) : taken maxPayload i s p := by
  have hcount : s.load.payloadCount ≠ 0 := by
    rw [count]
    exact fun hzero => nonempty (List.eq_nil_of_length_eq_zero hzero)
  have hroom : s.load.payloadCount < maxPayload := by rwa [count]
  have happend : append maxPayload i s = some i.inputData := by
    rw [append, state]
    dsimp only
    rw [if_pos hfire, if_neg hcount, keeping, decide_eq_true hroom]
    rfl
  have hpart := stored.append happend
  obtain ⟨⟨_, _, _, hload⟩, -⟩ := appendUpdate_frame maxPayload i s
  have hlonger : (p ++ [(i.inputChannel, i.inputData)]).length = p.length + 1 := by
    rw [List.length_append, List.length_singleton]
  have hfits : (p ++ [(i.inputChannel, i.inputData)]).length ≤ maxPayload := by
    rw [hlonger]
    exact fits
  have hcount' : s.load.payloadCount + 1 = (p ++ [(i.inputChannel, i.inputData)]).length := by
    rw [hlonger, count]
  apply taken_of_fits hfits
  rw [loaded, loadUpdate, state]
  dsimp only
  rw [if_pos hfire, acceptUpdate, if_neg hcount, keeping, if_neg Bool.false_ne_true,
    if_pos hroom]
  generalize appendUpdate maxPayload i s s = n at hpart hload ⊢
  have hdropping : n.load.dropping = false := by
    rw [hload]
    exact keeping
  have hstate : n.load.state = .L_ACCEPT := by
    rw [hload]
    exact state
  have hheader := header_concat nonempty (i.inputChannel, i.inputData)
  rw [← hheader] at hpart
  have hsum : s.load.checksum - i.inputData =
      0 - Model.byteSum (header (p ++ [(i.inputChannel, i.inputData)])) := by
    rw [hheader, sum, checksum_concat]
  have hnonempty : p ++ [(i.inputChannel, i.inputData)] ≠ [] :=
    List.append_ne_nil_of_left_ne_nil nonempty _
  cases hlast : i.inputLast with
  | true =>
    exact .checksum _ rfl hnonempty hdropping hsum
      (hpart.of_same rfl rfl rfl rfl rfl rfl)
  | false =>
    exact .filling _ hstate hnonempty hfits hcount' hdropping hsum
      (hpart.of_same rfl rfl rfl rfl rfl rfl)

/-- The registers of the loader after a packet that was too long. -/
theorem loading_cleared {n : State} (hstate : n.load.state = .L_ACCEPT) :
    Loading maxPayload { n with load := { clearLoad n.load with dropping := false } } [] [] :=
  .empty hstate rfl rfl ⟨trivial, rfl, trivial, rfl, rfl⟩

/-- A byte that does not fit any more is taken. -/
theorem taken_long {p : Packet} (hmax : 1 ≤ maxPayload) (hfire : inputFire i s = true)
    (state : s.load.state = .L_ACCEPT) (long : maxPayload ≤ p.length)
    (count : s.load.payloadCount = maxPayload) : taken maxPayload i s p := by
  have hcount : s.load.payloadCount ≠ 0 := by omega
  have hroom : ¬ s.load.payloadCount < maxPayload := by omega
  have hlonger : maxPayload < (p ++ [(i.inputChannel, i.inputData)]).length := by
    rw [List.length_append, List.length_singleton]
    omega
  have happend : append maxPayload i s = none := by
    rw [append, state]
    dsimp only
    rw [if_pos hfire, if_neg hcount, decide_eq_false hroom, Bool.and_false]
    rfl
  have hsame : appendUpdate maxPayload i s s = s := by
    rw [appendUpdate, happend]
  apply taken_of_long hlonger
  rw [loaded, hsame, loadUpdate, state]
  dsimp only
  rw [if_pos hfire, acceptUpdate, if_neg hcount, if_neg hroom]
  cases hlast : i.inputLast with
  | true =>
    by_cases hdropping : s.load.dropping = true
    · rw [if_pos hdropping]
      exact loading_cleared state
    · rw [if_neg hdropping]
      exact loading_cleared state
  | false =>
    by_cases hdropping : s.load.dropping = true
    · rw [if_pos hdropping]
      exact .dropping _ state hlonger count hdropping
    · rw [if_neg hdropping]
      exact .dropping _ state hlonger count rfl

/-- The byte that was held back while the channel was stored. -/
theorem loading_first {x : BitVec 7 × UInt8} (hmax : 1 ≤ maxPayload)
    (state : s.load.state = .L_FIRST_DATA) (count : s.load.payloadCount = 1)
    (keeping : s.load.dropping = false) (open_ : s.load.pendingLast = false)
    (data : s.load.pendingData = x.2) (sum : s.load.checksum = 0 - Model.byteSum (header [x]))
    (stored : Partial s [channelByte x.1]) :
    Loading maxPayload (loaded maxPayload i s) [x] [] := by
  have happend : append maxPayload i s = some x.2 := by
    rw [append, state, ← data]
  have hpart : Partial _ (header [x]) := stored.append happend
  obtain ⟨⟨_, _, _, hload⟩, -⟩ := appendUpdate_frame maxPayload i s
  rw [loaded, loadUpdate, state]
  dsimp only
  rw [open_]
  generalize appendUpdate maxPayload i s s = n at hpart hload ⊢
  have hregisters : n.load.payloadCount = 1 ∧ n.load.dropping = false ∧
      n.load.checksum = 0 - Model.byteSum (header [x]) := by
    rw [hload]
    exact ⟨count, keeping, sum⟩
  exact .filling [x] rfl (List.cons_ne_nil _ _) hmax hregisters.1 hregisters.2.1 hregisters.2.2
    (hpart.of_same rfl rfl rfl rfl rfl rfl)

theorem loading_only {x : BitVec 7 × UInt8} (state : s.load.state = .L_FIRST_DATA)
    (keeping : s.load.dropping = false) (closed : s.load.pendingLast = true)
    (data : s.load.pendingData = x.2) (sum : s.load.checksum = 0 - Model.byteSum (header [x]))
    (stored : Partial s [channelByte x.1]) :
    Loading maxPayload (loaded maxPayload i s) [] [[x]] := by
  have happend : append maxPayload i s = some x.2 := by
    rw [append, state, ← data]
  have hpart : Partial _ (header [x]) := stored.append happend
  obtain ⟨⟨_, _, _, hload⟩, -⟩ := appendUpdate_frame maxPayload i s
  rw [loaded, loadUpdate, state]
  dsimp only
  rw [closed]
  generalize appendUpdate maxPayload i s s = n at hpart hload ⊢
  have hregisters : n.load.dropping = false ∧
      n.load.checksum = 0 - Model.byteSum (header [x]) := by
    rw [hload]
    exact ⟨keeping, sum⟩
  exact .checksum [x] rfl (List.cons_ne_nil _ _) hregisters.1 hregisters.2
    (hpart.of_same rfl rfl rfl rfl rfl rfl)

/-- The checksum is stored. -/
theorem loading_checksum {p : Packet} (state : s.load.state = .L_CHECKSUM) (nonempty : p ≠ [])
    (keeping : s.load.dropping = false) (sum : s.load.checksum = 0 - Model.byteSum (header p))
    (stored : Partial s (header p)) : Loading maxPayload (loaded maxPayload i s) [] [p] := by
  have happend : append maxPayload i s = some (0 - Model.byteSum (header p)) := by
    rw [append, state, ← sum]
  have hpart : Partial _ (raw p) := stored.append happend
  obtain ⟨⟨_, _, _, hload⟩, -⟩ := appendUpdate_frame maxPayload i s
  rw [loaded, loadUpdate, state]
  dsimp only
  generalize appendUpdate maxPayload i s s = n at hpart hload ⊢
  have hdropping : n.load.dropping = false := by
    rw [hload]
    exact keeping
  exact .finalize p rfl nonempty hdropping
    (hpart.of_same rfl rfl rfl rfl rfl rfl)

/-- One edge of the loader that does not fill a bank. -/
theorem Loading.step (hmax : 1 ≤ maxPayload) {items : List ((BitVec 7 × UInt8) × Bool)}
    {final : List Packet} (h : Loading maxPayload s (Packets.pending items) final)
    (hstate : s.load.state ≠ .L_FINALIZE) :
    ∃ new, kept maxPayload (items ++ accepted i s) = kept maxPayload items ++ new ∧
      Loading maxPayload (loaded maxPayload i s) (Packets.pending (items ++ accepted i s))
        (final ++ new) := by
  by_cases haccept : s.load.state = .L_ACCEPT
  · cases hfire : inputFire i s with
    | false =>
      obtain ⟨hsame, hnothing⟩ := @loaded_idle maxPayload i s haccept hfire
      rw [hsame, hnothing, List.append_nil]
      exact ⟨[], (List.append_nil _).symm, by rwa [List.append_nil]⟩
    | true =>
      have htaken : final = [] ∧ taken maxPayload i s (Packets.pending items) := by
        obtain ⟨hfinal, ⟨hnone, count, keeping, stored⟩ |
          ⟨nonempty, fits, count, keeping, sum, stored⟩ | ⟨long, count⟩⟩ := h.accepting haccept
        · rw [hnone]
          exact ⟨hfinal, taken_first hmax hfire haccept count keeping stored⟩
        · obtain hlt | heq := Nat.lt_or_eq_of_le fits
          · exact ⟨hfinal, taken_fits hfire haccept nonempty hlt count keeping sum stored⟩
          · exact ⟨hfinal, taken_long hmax hfire haccept heq.ge (count.trans heq)⟩
        · exact ⟨hfinal, taken_long hmax hfire haccept (Nat.le_of_lt long) count⟩
      obtain ⟨rfl, hloading⟩ := htaken
      rw [accepted_of_fire hfire, kept_concat, Packets.pending_concat]
      exact ⟨_, rfl, hloading⟩
  · rw [accepted_of_busy haccept, List.append_nil]
    refine ⟨[], (List.append_nil _).symm, ?_⟩
    rw [List.append_nil]
    generalize Packets.pending items = cur at h ⊢
    cases h with
    | empty state => exact absurd state haccept
    | filling p state => exact absurd state haccept
    | dropping p state => exact absurd state haccept
    | first x state count keeping open_ data sum stored =>
      exact loading_first hmax state count keeping open_ data sum stored
    | only x state keeping closed data sum stored =>
      exact loading_only state keeping closed data sum stored
    | checksum p state nonempty keeping sum stored =>
      exact loading_checksum state nonempty keeping sum stored
    | finalize p state => exact absurd state hstate

/-! ### A bank is filled -/

/-- A bank holds a packet's raw bytes and the lengths of all their runs. -/
structure Holds (s : State) (bank : Bool) (p : Packet) : Prop where
  packet : Stored (s.packet bank) 0 (raw p)
  groups : Stored (s.groups bank) 0 ((runs (raw p)).all.map runLength)
  count : s.bankGroupCount bank = (runs (raw p)).all.length

/-- A bank that is not written to goes on holding its packet. -/
theorem Holds.of_same {n : State} {bank : Bool} {p : Packet} (h : Holds s bank p)
    (hpacket : n.packet bank = s.packet bank) (hgroups : n.groups bank = s.groups bank)
    (hcount : n.bankGroupCount bank = s.bankGroupCount bank) : Holds n bank p := by
  refine ⟨?_, ?_, ?_⟩
  · rw [hpacket]
    exact h.packet
  · rw [hgroups]
    exact h.groups
  · rw [hcount]
    exact h.count

/-- The last run is stored and the bank is handed to the emitter. -/
theorem Loading.fill {cur : Packet} {final : List Packet} (h : Loading maxPayload s cur final)
    (hstate : s.load.state = .L_FINALIZE) :
    ∃ p, final = [p] ∧ cur = [] ∧ Loading maxPayload (loaded maxPayload i s) [] [] ∧
      Holds (loaded maxPayload i s) s.load.bank p ∧
      (loaded maxPayload i s).load.bank = !s.load.bank ∧
      (loaded maxPayload i s).bankFull = Function.update s.bankFull s.load.bank true := by
  have happend : append maxPayload i s = none := by
    rw [append, hstate]
  have hsame : appendUpdate maxPayload i s s = s := by
    rw [appendUpdate, happend]
  rw [loaded, hsame, loadUpdate, hstate]
  dsimp only
  cases h with
  | empty state => exact absurd (hstate.symm.trans state) (by decide)
  | filling p state => exact absurd (hstate.symm.trans state) (by decide)
  | dropping p state => exact absurd (hstate.symm.trans state) (by decide)
  | first x state => exact absurd (hstate.symm.trans state) (by decide)
  | only x state => exact absurd (hstate.symm.trans state) (by decide)
  | checksum p state => exact absurd (hstate.symm.trans state) (by decide)
  | finalize p state nonempty keeping stored =>
    have hclosed : ((runs (raw p)).closed.map runLength).length = (runs (raw p)).closed.length :=
      List.length_map _
    refine ⟨p, rfl, rfl, .empty rfl rfl keeping ⟨trivial, rfl, trivial, rfl, rfl⟩,
      ⟨stored.packet, ?_, ?_⟩, rfl, rfl⟩
    · dsimp only
      rw [store_same, Runs.all, List.map_append, List.map_singleton, ← stored.groupLength]
      exact stored.groups.concat (by rw [stored.groupIndex, hclosed, Nat.zero_add]) _
    · dsimp only
      rw [Function.update_self, Runs.all, List.length_append, List.length_singleton,
        stored.groupIndex]

/-- The loader only reads its registers and the bank being loaded. -/
theorem Loading.of_same {n : State} {cur : Packet} {final : List Packet}
    (h : Loading maxPayload s cur final) (hload : n.load = s.load) (hpacket : n.packet = s.packet)
    (hgroups : n.groups = s.groups) : Loading maxPayload n cur final := by
  have hstored : ∀ {bytes}, Partial s bytes → Partial n bytes := by
    intro bytes hpart
    apply hpart.of_same hpacket hgroups <;> rw [hload]
  cases h with
  | empty state count keeping stored =>
    rw [← hload] at state count keeping
    exact .empty state count keeping (hstored stored)
  | filling p state nonempty fits count keeping sum stored =>
    rw [← hload] at state count keeping sum
    exact .filling _ state nonempty fits count keeping sum (hstored stored)
  | dropping p state long count dropping =>
    rw [← hload] at state count dropping
    exact .dropping _ state long count dropping
  | first x state count keeping open_ data sum stored =>
    rw [← hload] at state count keeping open_ data sum
    exact .first x state count keeping open_ data sum (hstored stored)
  | only x state keeping closed data sum stored =>
    rw [← hload] at state keeping closed data sum
    exact .only x state keeping closed data sum (hstored stored)
  | checksum p state nonempty keeping sum stored =>
    rw [← hload] at state keeping sum
    exact .checksum p state nonempty keeping sum (hstored stored)
  | finalize p state nonempty keeping stored =>
    rw [← hload] at state keeping
    exact .finalize p state nonempty keeping (hstored stored)

/-- With nothing in flight the loader waits for a packet. -/
theorem Loading.waiting (h : Loading maxPayload s [] []) :
    s.load.state = .L_ACCEPT ∧ s.load.payloadCount = 0 := by
  generalize hcur : ([] : Packet) = cur at h
  generalize hfinal : ([] : List Packet) = final at h
  cases h with
  | empty state count => exact ⟨state, count⟩
  | filling p state nonempty => exact absurd hcur.symm nonempty
  | dropping p state long =>
    rw [← hcur] at long
    contradiction
  | first => contradiction
  | only => contradiction
  | checksum => contradiction
  | finalize => contradiction

/-- Nothing is dropped while a byte that is taken still fits. -/
theorem Loading.no_overrun {cur : Packet} {final : List Packet} (h : Loading maxPayload s cur final)
    (hroom : inputFire i s = true → cur.length < maxPayload) :
    (loaded maxPayload i s).overrun = s.overrun ∧
      (loaded maxPayload i s).droppedBytes = s.droppedBytes := by
  obtain ⟨-, -, -, -, hoverrun, hdropped, -⟩ := appendUpdate_frame maxPayload i s
  rw [loaded, loadUpdate]
  cases hstate : s.load.state with
  | L_ACCEPT =>
    dsimp only
    split_ifs with hfire
    · have hfits := hroom hfire
      have hkeeping : s.load.payloadCount = 0 ∨
          s.load.dropping = false ∧ s.load.payloadCount < maxPayload := by
        obtain ⟨-, ⟨-, count, -⟩ | ⟨-, -, count, keeping, -⟩ | ⟨long, -⟩⟩ := h.accepting hstate
        · exact .inl count
        · exact .inr ⟨keeping, by rwa [count]⟩
        · omega
      rw [acceptUpdate]
      obtain hcount | ⟨hkeep, hcount⟩ := hkeeping
      · rw [if_pos hcount]
        exact ⟨hoverrun, hdropped⟩
      · rw [hkeep, if_neg Bool.false_ne_true, if_pos hcount]
        split_ifs <;> exact ⟨hoverrun, hdropped⟩
    · exact ⟨hoverrun, hdropped⟩
  | L_FIRST_DATA =>
    dsimp only
    split_ifs <;> exact ⟨hoverrun, hdropped⟩
  | L_CHECKSUM => exact ⟨hoverrun, hdropped⟩
  | L_FINALIZE => exact ⟨hoverrun, hdropped⟩

/-- What the loader's half of an edge leaves alone. -/
theorem loadUpdate_frame (maxPayload : ℕ) (i : Input) (s n : State) :
    (loadUpdate maxPayload i s n).emit = n.emit ∧
      (loadUpdate maxPayload i s n).packet = n.packet ∧
      (s.load.state ≠ .L_FINALIZE →
        (loadUpdate maxPayload i s n).groups = n.groups ∧
        (loadUpdate maxPayload i s n).bankGroupCount = n.bankGroupCount ∧
        (loadUpdate maxPayload i s n).bankFull = n.bankFull ∧
        (loadUpdate maxPayload i s n).load.bank = n.load.bank) := by
  rw [loadUpdate]
  cases hstate : s.load.state with
  | L_ACCEPT =>
    dsimp only
    rw [acceptUpdate]
    split_ifs <;> exact ⟨rfl, rfl, fun _ => ⟨rfl, rfl, rfl, rfl⟩⟩
  | L_FIRST_DATA =>
    dsimp only
    split <;> exact ⟨rfl, rfl, fun _ => ⟨rfl, rfl, rfl, rfl⟩⟩
  | L_CHECKSUM => exact ⟨rfl, rfl, fun _ => ⟨rfl, rfl, rfl, rfl⟩⟩
  | L_FINALIZE => exact ⟨rfl, rfl, fun hne => absurd rfl hne⟩

theorem loaded_frame (maxPayload : ℕ) (i : Input) (s : State) :
    (loaded maxPayload i s).emit = s.emit ∧
      (s.load.state ≠ .L_FINALIZE → (loaded maxPayload i s).bankFull = s.bankFull ∧
        (loaded maxPayload i s).load.bank = s.load.bank) ∧
      ∀ bank, bank ≠ s.load.bank → (loaded maxPayload i s).packet bank = s.packet bank ∧
        (loaded maxPayload i s).groups bank = s.groups bank ∧
        (loaded maxPayload i s).bankGroupCount bank = s.bankGroupCount bank := by
  obtain ⟨⟨_, _, _, hload⟩, hemit, hfull, hcount, -, -, hother⟩ :=
    appendUpdate_frame maxPayload i s
  obtain ⟨hemit', hpacket', hrest⟩ :=
    loadUpdate_frame maxPayload i s (appendUpdate maxPayload i s s)
  refine ⟨hemit'.trans hemit, ?_, ?_⟩
  · intro hstate
    obtain ⟨-, -, hfull', hbank'⟩ := hrest hstate
    refine ⟨hfull'.trans hfull, hbank'.trans ?_⟩
    rw [hload]
  · intro bank hbank
    obtain ⟨hpacket, hgroups⟩ := hother bank hbank
    refine ⟨(congrFun hpacket' bank).trans hpacket, ?_⟩
    by_cases hstate : s.load.state = .L_FINALIZE
    · rw [loaded, loadUpdate, hstate]
      exact ⟨(store_other _ hbank _ _).trans hgroups,
        (Function.update_of_ne hbank _ _).trans (congrFun hcount bank)⟩
    · obtain ⟨hgroups', hcount', -, -⟩ := hrest hstate
      exact ⟨(congrFun hgroups' bank).trans hgroups,
        (congrFun hcount' bank).trans (congrFun hcount bank)⟩

end

end OrbflowEncoder
