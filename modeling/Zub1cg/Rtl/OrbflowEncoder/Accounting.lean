import Zub1cg.Rtl.OrbflowEncoder.Frames

/-!
# The byte counters of the Orbflow encoder

Every byte that is taken belongs to a packet that has been put into a bank, to one that is too
long, or to the packet in the loader. `received_bytes` counts all of them and `dropped_bytes`
those of the packets that are too long, both in 64 bits.

## Main definitions

- `droppedOf`, `uncounted` — the payload bytes given up so far, and those in the loader that are
  not
- `packetWrite`, `groupWrite` — the addresses that are written

## Main results

- `byte_accounting` — where the bytes are, and where they are stored
- `received_wraps` — a packet without an end makes the counter overflow
-/

open MemoryRegion Cobs

namespace OrbflowEncoder

section

variable {maxPayload : ℕ} {i : Input} {s n : State} {items : List ((BitVec 7 × UInt8) × Bool)}
  {done committed final : List Packet} {cur : Packet}

/-! ### Counting bytes -/

/-- The payload bytes of some packets. -/
def payload (ps : List Packet) : ℕ := ps.flatten.length

@[simp] theorem payload_nil : payload [] = 0 := rfl

@[simp] theorem payload_append (ps qs : List Packet) :
    payload (ps ++ qs) = payload ps + payload qs := by
  rw [payload, List.flatten_append, List.length_append, payload, payload]

@[simp] theorem payload_singleton (p : Packet) : payload [p] = p.length := by
  rw [payload, List.flatten_singleton]

/-- The completed packets that are too long. -/
def tooLong (maxPayload : ℕ) (items : List ((BitVec 7 × UInt8) × Bool)) : List Packet :=
  (Packets.completed items).filter fun p => maxPayload < p.length

/-- The bytes of the packets that are too long, also of the one that is coming in. -/
def droppedOf (maxPayload : ℕ) (items : List ((BitVec 7 × UInt8) × Bool)) : ℕ :=
  payload (tooLong maxPayload items) +
    if maxPayload < (Packets.pending items).length then (Packets.pending items).length else 0

/-- The bytes in the loader that are not dropped: of the packet that is coming in, and of the one
that is not in a bank yet. -/
def uncounted (maxPayload : ℕ) (items : List ((BitVec 7 × UInt8) × Bool))
    (final : List Packet) : ℕ :=
  payload final +
    if maxPayload < (Packets.pending items).length then 0 else (Packets.pending items).length

/-- A packet is kept or too long. -/
theorem payload_partition (maxPayload : ℕ) (ps : List Packet) :
    payload ps = payload (ps.filter fun p => p.length ≤ maxPayload) +
      payload (ps.filter fun p => maxPayload < p.length) := by
  induction ps with
  | nil => rfl
  | cons p ps ih =>
    have hcons (q : Packet) (qs : List Packet) : payload (q :: qs) = q.length + payload qs := by
      rw [← List.singleton_append, payload_append, payload_singleton]
    rw [hcons, ih, List.filter_cons, List.filter_cons]
    by_cases hfits : p.length ≤ maxPayload
    · rw [if_pos (decide_eq_true hfits),
        if_neg (by rw [decide_eq_true_eq, Nat.not_lt]; exact hfits), hcons]
      omega
    · rw [if_neg (by rw [decide_eq_true_eq]; exact hfits),
        if_pos (decide_eq_true (Nat.not_le.mp hfits)), hcons]
      omega

/-- The bytes that have been taken. -/
theorem length_items (maxPayload : ℕ) (items : List ((BitVec 7 × UInt8) × Bool)) :
    items.length = payload (kept maxPayload items) + payload (tooLong maxPayload items) +
      (Packets.pending items).length := by
  have hcut := congrArg List.length (Packets.flatten_completed items)
  rw [List.length_append, List.length_map] at hcut
  rw [kept, tooLong, ← payload_partition, payload, hcut]

/-- Each of them is in a bank or sent, dropped, or in the loader. -/
theorem Tracks.length_items {out : List (UInt8 × Bool)}
    (h : Tracks maxPayload items out s done committed final) :
    items.length = payload (done ++ committed) + droppedOf maxPayload items +
      uncounted maxPayload items final := by
  rw [OrbflowEncoder.length_items maxPayload, h.split, payload_append, droppedOf, uncounted]
  split_ifs <;> omega

theorem tooLong_concat (maxPayload : ℕ) (items : List ((BitVec 7 × UInt8) × Bool))
    (x : BitVec 7 × UInt8) (last : Bool) :
    tooLong maxPayload (items ++ [(x, last)]) = tooLong maxPayload items ++
      if last ∧ maxPayload < (Packets.pending items ++ [x]).length then
        [Packets.pending items ++ [x]] else [] := by
  rw [tooLong, Packets.filter_completed_concat, tooLong]
  simp only [decide_eq_true_eq]

/-- One more byte: the first one too many gives up the whole packet so far, a later one
itself. -/
theorem droppedOf_concat (maxPayload : ℕ) (items : List ((BitVec 7 × UInt8) × Bool))
    (x : BitVec 7 × UInt8) (last : Bool) :
    droppedOf maxPayload (items ++ [(x, last)]) = droppedOf maxPayload items +
      if maxPayload < (Packets.pending items).length then 1
      else if (Packets.pending items).length = maxPayload then maxPayload + 1 else 0 := by
  have hlength : (Packets.pending items ++ [x]).length = (Packets.pending items).length + 1 := by
    rw [List.length_append, List.length_singleton]
  rw [droppedOf, tooLong_concat, Packets.pending_concat, payload_append, droppedOf]
  cases last with
  | false =>
    rw [if_neg (fun hboth => Bool.false_ne_true hboth.1), if_neg Bool.false_ne_true, payload_nil,
      hlength]
    split_ifs <;> omega
  | true =>
    rw [if_pos rfl, List.length_nil, if_neg (Nat.not_lt_zero _)]
    by_cases hlong : maxPayload < (Packets.pending items ++ [x]).length
    · rw [if_pos ⟨rfl, hlong⟩, payload_singleton]
      rw [hlength] at hlong ⊢
      split_ifs <;> omega
    · rw [if_neg (fun hboth => hlong hboth.2), payload_nil]
      rw [hlength] at hlong
      split_ifs <;> omega

/-- A packet of `L` bytes that is too long adds `L`. -/
theorem droppedOf_packet {p : Packet} (hopen : Packets.pending items = [])
    (hlong : maxPayload < p.length) :
    droppedOf maxPayload (items ++ Packets.markLast p) = droppedOf maxPayload items + p.length := by
  have hp : p ≠ [] := List.ne_nil_of_length_pos (Nat.zero_lt_of_lt hlong)
  obtain ⟨hdone, hnone⟩ := (Packets.finished_markLast hp).cut_append hopen
  rw [Packets.markLast_map_fst] at hdone
  rw [droppedOf, tooLong, hdone, hnone, droppedOf, tooLong, hopen, List.filter_append,
    List.filter_singleton, decide_eq_true hlong, payload_append, cond_true, payload_singleton,
    List.length_nil, if_neg (Nat.not_lt_zero _)]
  omega

/-! ### The counters -/

theorem appendUpdate_receivedBytes (maxPayload : ℕ) (i : Input) (s : State) :
    (appendUpdate maxPayload i s s).receivedBytes = s.receivedBytes := by
  rw [appendUpdate]
  cases append maxPayload i s with
  | none => rfl
  | some value =>
    dsimp only
    split_ifs <;> rfl

theorem emitUpdate_receivedBytes (i : Input) (s n : State) :
    (emitUpdate i s n).receivedBytes = n.receivedBytes := by
  rw [emitUpdate]
  cases s.emit.state <;> dsimp only <;> split_ifs <;> rfl

/-- `received_bytes` counts the bytes that are taken. -/
theorem step_receivedBytes (maxPayload : ℕ) (hreset : i.resetN = true) (s : State) :
    (step maxPayload i s).receivedBytes =
      s.receivedBytes + BitVec.ofNat 64 (accepted i s).length := by
  have happend := appendUpdate_receivedBytes maxPayload i s
  have hsame : s.receivedBytes = s.receivedBytes + BitVec.ofNat 64 0 := (BitVec.add_zero _).symm
  rw [step, hreset, Bool.not_true, if_neg Bool.false_ne_true, emitUpdate_receivedBytes, loadUpdate]
  cases hstate : s.load.state with
  | L_ACCEPT =>
    dsimp only
    cases hfire : inputFire i s with
    | false =>
      rw [if_neg Bool.false_ne_true, (@loaded_idle maxPayload i s hstate hfire).2]
      exact happend.trans hsame
    | true =>
      rw [if_pos rfl, accepted_of_fire hfire, acceptUpdate]
      split_ifs <;> rfl
  | L_FIRST_DATA =>
    dsimp only
    rw [accepted_of_busy (by rw [hstate]; decide)]
    split_ifs <;> exact happend.trans hsame
  | L_CHECKSUM =>
    rw [accepted_of_busy (by rw [hstate]; decide)]
    exact happend.trans hsame
  | L_FINALIZE =>
    rw [accepted_of_busy (by rw [hstate]; decide)]
    exact happend.trans hsame

/-- The loader drops exactly the packet that has got too long. -/
theorem Loading.dropping_iff (hmax : 1 ≤ maxPayload) (h : Loading maxPayload s cur final) :
    s.load.dropping = true ↔ maxPayload < cur.length := by
  cases h with
  | empty state count keeping => simp [keeping]
  | filling p state nonempty fits count keeping => simp [keeping, fits]
  | dropping p state long count dropping => simp [dropping, long]
  | first x state count keeping => simp [keeping, Nat.one_le_iff_ne_zero.mp hmax]
  | only x state keeping => simp [keeping]
  | checksum p state nonempty keeping => simp [keeping]
  | finalize p state nonempty keeping => simp [keeping]

/-- `dropped_bytes` behind a byte that is taken. -/
theorem acceptUpdate_droppedBytes (hmax : 1 ≤ maxPayload) (h : Loading maxPayload s cur final)
    (hstate : s.load.state = .L_ACCEPT) (hn : n.droppedBytes = s.droppedBytes) :
    (acceptUpdate maxPayload i s n).droppedBytes = s.droppedBytes + BitVec.ofNat 64
      (if maxPayload < cur.length then 1
        else if cur.length = maxPayload then maxPayload + 1 else 0) := by
  have hdropping := h.dropping_iff hmax
  have hsame : n.droppedBytes = s.droppedBytes + BitVec.ofNat 64 0 := by
    rw [hn, BitVec.add_zero]
  obtain ⟨-, ⟨rfl, count, -⟩ | ⟨nonempty, fits, count, keeping, -⟩ | ⟨long, count⟩⟩ :=
    h.accepting hstate
  · rw [acceptUpdate, if_pos count, List.length_nil, if_neg (Nat.not_lt_zero _),
      if_neg (Nat.ne_of_lt hmax)]
    exact hsame
  · have hcount : s.load.payloadCount ≠ 0 := by
      rw [count]
      exact (List.length_pos_iff.mpr nonempty).ne'
    rw [acceptUpdate, if_neg hcount, keeping, if_neg Bool.false_ne_true, count,
      if_neg (Nat.not_lt.mpr fits)]
    obtain hroom | hfull := Nat.lt_or_eq_of_le fits
    · rw [if_pos hroom, if_neg hroom.ne]
      split_ifs <;> exact hsame
    · rw [if_neg (Nat.not_lt.mpr hfull.ge), if_pos hfull, ← hfull, BitVec.ofNat_add,
        ← BitVec.add_assoc]
      split_ifs <;> rfl
  · have hcount : s.load.payloadCount ≠ 0 := by omega
    rw [acceptUpdate, if_neg hcount, if_pos (hdropping.mpr long), if_pos long]
    split_ifs <;> rfl

/-- `dropped_bytes` counts the bytes of the packets that are too long. -/
theorem droppedBytes_step (hmax : 1 ≤ maxPayload)
    (h : Loading maxPayload s (Packets.pending items) final) (hreset : i.resetN = true)
    (hdropped : s.droppedBytes = BitVec.ofNat 64 (droppedOf maxPayload items)) :
    (step maxPayload i s).droppedBytes =
      BitVec.ofNat 64 (droppedOf maxPayload (items ++ accepted i s)) := by
  obtain ⟨-, -, -, -, -, happend, -⟩ := appendUpdate_frame maxPayload i s
  obtain ⟨-, -, -, -, -, hemit⟩ := emitUpdate_frame i s
    (loadUpdate maxPayload i s (appendUpdate maxPayload i s s))
  rw [step, hreset, Bool.not_true, if_neg Bool.false_ne_true, hemit, loadUpdate]
  cases hstate : s.load.state with
  | L_ACCEPT =>
    dsimp only
    cases hfire : inputFire i s with
    | false =>
      rw [if_neg Bool.false_ne_true, (@loaded_idle maxPayload i s hstate hfire).2,
        List.append_nil]
      exact happend.trans hdropped
    | true =>
      rw [if_pos rfl, acceptUpdate_droppedBytes hmax h hstate happend, accepted_of_fire hfire,
        droppedOf_concat, BitVec.ofNat_add, hdropped]
  | L_FIRST_DATA =>
    dsimp only
    rw [accepted_of_busy (by rw [hstate]; decide), List.append_nil]
    split_ifs <;> exact happend.trans hdropped
  | L_CHECKSUM =>
    rw [accepted_of_busy (by rw [hstate]; decide), List.append_nil]
    exact happend.trans hdropped
  | L_FINALIZE =>
    rw [accepted_of_busy (by rw [hstate]; decide), List.append_nil]
    exact happend.trans hdropped

/-! ### The addresses -/

/-- `MAX_RAW` -/
def maxRaw (maxPayload : ℕ) : ℕ := maxPayload + 2

/-- `MAX_GROUPS` -/
def maxGroups (maxPayload : ℕ) : ℕ := maxRaw maxPayload + 1

/-- The address of the packet memory that is written at this edge. -/
def packetWrite (maxPayload : ℕ) (i : Input) (s : State) : Option ℕ :=
  (append maxPayload i s).map fun _ => s.load.rawLength

/-- The address of the group memory that is written at this edge. -/
def groupWrite (maxPayload : ℕ) (i : Input) (s : State) : Option ℕ :=
  match append maxPayload i s with
  | some value =>
    if value = 0 ∨ s.load.groupLength = 0xfd then some s.load.groupIndex else none
  | none => if s.load.state = .L_FINALIZE then some s.load.groupIndex else none

theorem store_address {α : Type} (mem : Bool → ℕ → α) (bank other : Bool) {address at_ : ℕ}
    (value : α) (h : at_ ≠ address) : store mem bank address value other at_ = mem other at_ := by
  by_cases hbank : other = bank
  · rw [hbank, store_same, Function.update_of_ne h]
  · rw [store_other _ hbank]

/-- Every other address of the packet memories keeps its byte. -/
theorem step_packet (hreset : i.resetN = true) (bank : Bool) {address : ℕ}
    (h : packetWrite maxPayload i s ≠ some address) :
    (step maxPayload i s).packet bank address = s.packet bank address := by
  rw [step, hreset, Bool.not_true, if_neg Bool.false_ne_true,
    (emitUpdate_frame i s (loadUpdate maxPayload i s (appendUpdate maxPayload i s s))).2.1,
    (loadUpdate_frame maxPayload i s _).2.1, appendUpdate]
  rw [packetWrite] at h
  cases happend : append maxPayload i s with
  | none => rfl
  | some value =>
    rw [happend, Option.map_some, ne_eq, Option.some_inj] at h
    dsimp only
    split_ifs <;> exact store_address _ _ _ _ (Ne.symm h)

/-- Every other address of the group memories keeps its length. -/
theorem step_groups (hreset : i.resetN = true) (bank : Bool) {address : ℕ}
    (h : groupWrite maxPayload i s ≠ some address) :
    (step maxPayload i s).groups bank address = s.groups bank address := by
  rw [step, hreset, Bool.not_true, if_neg Bool.false_ne_true,
    (emitUpdate_frame i s (loadUpdate maxPayload i s (appendUpdate maxPayload i s s))).2.2.1]
  rw [groupWrite] at h
  have happended : s.load.state ≠ .L_FINALIZE →
      (appendUpdate maxPayload i s s).groups bank address = s.groups bank address := by
    intro hstate
    rw [appendUpdate]
    cases happend : append maxPayload i s with
    | none => rfl
    | some value =>
      rw [happend] at h
      dsimp only at h ⊢
      split_ifs with hzero hfull
      · rw [if_pos (.inl hzero), ne_eq, Option.some_inj] at h
        exact store_address _ _ _ _ (Ne.symm h)
      · rw [if_pos (.inr hfull), ne_eq, Option.some_inj] at h
        exact store_address _ _ _ _ (Ne.symm h)
      · rfl
  by_cases hstate : s.load.state = .L_FINALIZE
  · have happend : append maxPayload i s = none := by
      rw [append, hstate]
    rw [happend] at h
    dsimp only at h
    rw [if_pos hstate, ne_eq, Option.some_inj] at h
    rw [loadUpdate, hstate, appendUpdate, happend]
    exact store_address _ _ _ _ (Ne.symm h)
  · obtain ⟨-, -, hgroups⟩ := loadUpdate_frame maxPayload i s (appendUpdate maxPayload i s s)
    rw [(hgroups hstate).1]
    exact happended hstate

/-- There are no more closed runs than bytes. -/
theorem closed_length (bytes : List UInt8) : (runs bytes).closed.length ≤ bytes.length := by
  induction bytes using List.reverseRecOn with
  | nil => exact Nat.le_refl _
  | append_singleton bytes b ih =>
    rw [runs_concat, List.length_append, List.length_singleton]
    by_cases hzero : b = 0
    · rw [hzero, (runs bytes).push_zero.1, List.length_append, List.length_singleton]
      exact Nat.succ_le_succ ih
    · by_cases hfull : (runs bytes).current.length = 253
      · rw [(Runs.push_full hzero hfull).1, List.length_append, List.length_singleton]
        exact Nat.succ_le_succ ih
      · rw [(Runs.push_grow hzero hfull).1]
        exact Nat.le_succ_of_le ih

/-- Nothing is written, or what the bank being loaded holds leaves room for it. -/
theorem Loading.room (hmax : 1 ≤ maxPayload) (h : Loading maxPayload s cur final)
    (hfinal : ∀ p ∈ final, p.length ≤ maxPayload) :
    append maxPayload i s = none ∧ s.load.state ≠ .L_FINALIZE ∨
      ∃ bytes, Partial s bytes ∧ (bytes.length < maxRaw maxPayload ∨
        bytes.length = maxRaw maxPayload ∧ append maxPayload i s = none) := by
  rw [maxRaw]
  cases h with
  | empty state count keeping stored => exact .inr ⟨[], stored, .inl (Nat.succ_pos _)⟩
  | filling p state nonempty fits count keeping sum stored =>
    have hlength := header_length nonempty
    exact .inr ⟨_, stored, .inl (by omega)⟩
  | dropping p state long count dropping =>
    left
    constructor
    · rw [append, state]
      dsimp only
      rw [dropping, if_neg (by omega : s.load.payloadCount ≠ 0), Bool.not_true, Bool.false_and,
        if_neg Bool.false_ne_true, ite_self]
    · rw [state]
      decide
  | first x state count keeping open_ data sum stored =>
    exact .inr ⟨_, stored, .inl (by rw [List.length_singleton]; omega)⟩
  | only x state keeping closed data sum stored =>
    exact .inr ⟨_, stored, .inl (by rw [List.length_singleton]; omega)⟩
  | checksum p state nonempty keeping sum stored =>
    have hlength := header_length nonempty
    have hfits := hfinal p (List.mem_singleton_self p)
    exact .inr ⟨_, stored, .inl (by omega)⟩
  | finalize p state nonempty keeping stored =>
    have hlength := raw_length nonempty
    have hfits := hfinal p (List.mem_singleton_self p)
    have hnone : append maxPayload i s = none := by
      rw [append, state]
    obtain hlt | heq := Nat.lt_or_eq_of_le hfits
    · exact .inr ⟨_, stored, .inl (by omega)⟩
    · exact .inr ⟨_, stored, .inr ⟨by omega, hnone⟩⟩

/-- The addresses that are written lie in the memories. -/
theorem Tracks.addresses {out : List (UInt8 × Bool)} (hmax : 1 ≤ maxPayload)
    (h : Tracks maxPayload items out s done committed final) (i : Input) :
    (∀ address, packetWrite maxPayload i s = some address → address < maxRaw maxPayload) ∧
      ∀ address, groupWrite maxPayload i s = some address → address < maxGroups maxPayload := by
  have hfinal : ∀ p ∈ final, p.length ≤ maxPayload := by
    intro p hp
    have hkept : p ∈ kept maxPayload items := by
      rw [h.split]
      exact List.mem_append_right _ hp
    exact of_decide_eq_true (List.mem_filter.mp hkept).2
  obtain ⟨hnone, hstate⟩ | ⟨bytes, hstored, hroom⟩ := h.loader.room (i := i) hmax hfinal
  · rw [packetWrite, groupWrite, hnone]
    dsimp only
    rw [if_neg hstate]
    exact ⟨fun _ hsome => by contradiction, fun _ hsome => by contradiction⟩
  · have hclosed := closed_length bytes
    have hraw := hstored.rawLength
    have hgroup := hstored.groupIndex
    rw [maxGroups]
    constructor
    · intro address haddress
      rw [packetWrite, Option.map_eq_some_iff] at haddress
      obtain ⟨value, hvalue, rfl⟩ := haddress
      obtain hlt | ⟨-, hnone⟩ := hroom
      · rwa [hraw]
      · rw [hnone] at hvalue
        contradiction
    · intro address haddress
      have hat : s.load.groupIndex = address := by
        rw [groupWrite] at haddress
        split at haddress <;> split_ifs at haddress <;> exact Option.some_inj.mp haddress
      omega

/-! ### Whole runs -/

/-- What every edge preserves of the counters. -/
theorem counters_run (hmax : 1 ≤ maxPayload) (s₀ : State) {inp : ℕ → Input}
    (hreset : ∀ t, (inp t).resetN = true) (t : ℕ) :
    ((run maxPayload s₀ inp).state t).receivedBytes =
        BitVec.ofNat 64 ((run maxPayload s₀ inp).record accepted t).length ∧
      ((run maxPayload s₀ inp).state t).droppedBytes =
        BitVec.ofNat 64 (droppedOf maxPayload ((run maxPayload s₀ inp).record accepted t)) := by
  induction t with
  | zero => exact ⟨rfl, rfl⟩
  | succ t ih =>
    obtain ⟨hreceived, hdropped⟩ := ih
    obtain ⟨_, _, _, htracks⟩ := tracks_run hmax s₀ hreset t
    rw [Clocked.Run.record_succ, Clocked.Run.state_succ]
    constructor
    · change (step maxPayload (inp t) _).receivedBytes = _
      rw [step_receivedBytes maxPayload (hreset t), hreceived, List.length_append,
        BitVec.ofNat_add]
      rfl
    · exact droppedBytes_step hmax htracks.loader (hreset t) hdropped

/-- **Where the bytes are.** From a reset on, for any packets and any schedules of both sides:
modulo `2 ^ 64`, `received_bytes` is the number of bytes that have been taken and `dropped_bytes`
that of the bytes of packets that are too long, and these and the bytes of the packets in a
bank, of those that have been sent and of the one in the loader are all there are; a packet of
`L` bytes that is too long adds `L`. Nothing is written behind the end of a memory. -/
theorem byte_accounting (hmax : 1 ≤ maxPayload) (s₀ : State) {inp : ℕ → Input}
    (hreset : ∀ t, (inp t).resetN = true) (t : ℕ) :
    let r := run maxPayload s₀ inp
    (∃ sent banked loading, Tracks maxPayload (r.record accepted t) (r.record handedOver t)
        (r.state t) sent banked loading ∧
      (r.record accepted t).length = payload (sent ++ banked) +
        droppedOf maxPayload (r.record accepted t) +
          uncounted maxPayload (r.record accepted t) loading ∧
      (r.state t).receivedBytes = BitVec.ofNat 64 (payload (sent ++ banked)) +
        (r.state t).droppedBytes +
          BitVec.ofNat 64 (uncounted maxPayload (r.record accepted t) loading)) ∧
      (r.state t).receivedBytes = BitVec.ofNat 64 (r.record accepted t).length ∧
      (r.state t).droppedBytes = BitVec.ofNat 64 (droppedOf maxPayload (r.record accepted t)) ∧
      (∀ u p, Packets.pending (r.record accepted u) = [] → maxPayload < p.length →
        r.record accepted t = r.record accepted u ++ Packets.markLast p →
        (r.state t).droppedBytes = (r.state u).droppedBytes + BitVec.ofNat 64 p.length) ∧
      ((∀ address, packetWrite maxPayload (inp t) (r.state t) = some address →
          address < maxRaw maxPayload) ∧
        ∀ address, groupWrite maxPayload (inp t) (r.state t) = some address →
          address < maxGroups maxPayload) ∧
      ∀ bank,
        (∀ address, maxRaw maxPayload ≤ address →
          (r.state (t + 1)).packet bank address = (r.state t).packet bank address) ∧
        ∀ address, maxGroups maxPayload ≤ address →
          (r.state (t + 1)).groups bank address = (r.state t).groups bank address := by
  intro r
  obtain ⟨sent, banked, loading, htracks⟩ := tracks_run hmax s₀ hreset t
  obtain ⟨hreceived, hdropped⟩ := counters_run hmax s₀ hreset t
  obtain ⟨hpacket, hgroups⟩ := htracks.addresses hmax (inp t)
  have hlength := htracks.length_items
  refine ⟨⟨sent, banked, loading, htracks, hlength, ?_⟩, hreceived, hdropped, ?_,
    ⟨hpacket, hgroups⟩, fun bank => ⟨fun address hend => ?_, fun address hend => ?_⟩⟩
  · rw [hreceived, hdropped, ← BitVec.ofNat_add, ← BitVec.ofNat_add, ← hlength]
  · intro u p hopen hlong hrecord
    obtain ⟨-, hbefore⟩ := counters_run hmax s₀ hreset u
    rw [hdropped, hrecord, droppedOf_packet hopen hlong, BitVec.ofNat_add, hbefore]
  · exact step_packet (hreset t) bank fun hwrite => (hpacket address hwrite).not_ge hend
  · exact step_groups (hreset t) bank fun hwrite => (hgroups address hwrite).not_ge hend

end

/-! ### A counter that wraps around -/

/-- A byte is offered at every edge and none is the last one of its packet. -/
def endlessInput : Input := ⟨true, 0, 0, true, false, true⟩

/-- The encoder is dropping a packet and has nothing to send. -/
structure Flooded (s : State) : Prop where
  state : s.load.state = .L_ACCEPT
  count : s.load.payloadCount ≠ 0
  dropping : s.load.dropping = true
  idle : s.emit.state = .E_IDLE
  empty : ∀ bank, s.bankFull bank = false

theorem Flooded.fire {s : State} (h : Flooded s) : inputFire endlessInput s = true := by
  rw [inputFire, inputReady, h.state, h.empty]
  rfl

theorem Flooded.step {s : State} (h : Flooded s) : Flooded (step 1 endlessInput s) := by
  have happend : append 1 endlessInput s = none := by
    rw [append, h.state]
    dsimp only
    rw [h.dropping, if_pos h.fire, if_neg h.count]
    rfl
  have hnext : OrbflowEncoder.step 1 endlessInput s =
      { s with receivedBytes := s.receivedBytes + 1, droppedBytes := s.droppedBytes + 1 } := by
    rw [OrbflowEncoder.step, appendUpdate, happend, loadUpdate, h.state]
    dsimp only
    rw [if_pos h.fire, acceptUpdate, if_neg h.count, if_pos h.dropping, emitUpdate, h.idle]
    dsimp only
    rw [h.empty]
    rfl
  rw [hnext]
  exact ⟨h.state, h.count, h.dropping, h.idle, h.empty⟩

/-- After three edges the only payload byte that fits has been followed by another one. -/
theorem flooded_run (k : ℕ) :
    Flooded ((run 1 initial fun _ => endlessInput).state (3 + k)) ∧
      ((run 1 initial fun _ => endlessInput).record accepted (3 + k)).length = 2 + k := by
  induction k with
  | zero => exact ⟨⟨by decide, by decide, by decide, by decide, by decide⟩, by decide⟩
  | succ k ih =>
    obtain ⟨hflooded, hlength⟩ := ih
    refine ⟨hflooded.step, ?_⟩
    rw [← Nat.add_assoc, Clocked.Run.record_succ, List.length_append, hlength]
    exact congrArg (2 + k + List.length ·) (accepted_of_fire hflooded.fire)

theorem byte_accounting_endless :
    ((run 1 initial fun _ => endlessInput).record accepted 5).length = 4 ∧
      ((run 1 initial fun _ => endlessInput).state 5).receivedBytes =
        BitVec.ofNat 64 ((run 1 initial fun _ => endlessInput).record accepted 5).length ∧
      ((run 1 initial fun _ => endlessInput).state 5).droppedBytes = BitVec.ofNat 64
        (droppedOf 1 ((run 1 initial fun _ => endlessInput).record accepted 5)) := by
  obtain ⟨-, hreceived, hdropped, -⟩ :=
    @byte_accounting 1 (Nat.le_refl 1) initial (fun _ => endlessInput) (fun _ => rfl) 5
  exact ⟨by decide, hreceived, hdropped⟩

/-- A packet without an end makes the counter overflow. -/
theorem received_wraps :
    ¬ ∀ (maxPayload : ℕ) (s₀ : State) (inp : ℕ → Input), 1 ≤ maxPayload →
      (∀ t, (inp t).resetN = true) → ∀ t,
        ((run maxPayload s₀ inp).state t).receivedBytes.toNat =
          ((run maxPayload s₀ inp).record accepted t).length := by
  intro h
  have hcount := h 1 initial (fun _ => endlessInput) (Nat.le_refl _) (fun _ => rfl) (3 + 2 ^ 64)
  rw [(flooded_run (2 ^ 64)).2] at hcount
  have hfits := ((run 1 initial fun _ => endlessInput).state (3 + 2 ^ 64)).receivedBytes.isLt
  omega

end OrbflowEncoder
