import Zub1cg.Rtl.OrbflowEncoder.Loader

/-!
# The emitter of the Orbflow encoder

From the raw bytes of a bank and the lengths of their runs the emitter makes the packet's
frame, one byte a handshake: each run behind its code byte, and a zero byte at the end.

## Main definitions

- `Emitting` — the bytes of the frame that are still to come

## Main results

- `Emitting.send` — the first of them is offered, and taking it leaves the others
- `Emitting.begin` — a full bank becomes a frame
-/

open MemoryRegion Cobs

namespace OrbflowEncoder

/-- The rest of a frame, in terms of the runs that are still to come and the part `d` of the
current run `g` that is. -/
inductive Emitting (s : State) : List UInt8 → Prop
  | code (g : List UInt8) (gs : List (List UInt8)) (state : s.emit.state = .E_CODE)
      (isRun : ∀ h ∈ g :: gs, IsRun h)
      (packet : Stored (s.packet s.emit.encodeBank) s.emit.rawIndex (expand (g :: gs)))
      (groups : Stored (s.groups s.emit.encodeBank) s.emit.groupIndex
        ((g :: gs).map runLength))
      (count : s.emit.groupIndex + 1 + gs.length = s.bankGroupCount s.emit.encodeBank) :
      Emitting s (pack (g :: gs) ++ [0])
  | data (b : UInt8) (d g : List UInt8) (gs : List (List UInt8)) (state : s.emit.state = .E_DATA)
      (nonzero : ∀ c ∈ b :: d, c ≠ 0) (part : (b :: d).length ≤ g.length)
      (isRun : ∀ h ∈ g :: gs, IsRun h) (remaining : s.emit.groupRemaining = runLength (b :: d))
      (packet : Stored (s.packet s.emit.encodeBank) s.emit.rawIndex (b :: d ++ after g gs))
      (groups : Stored (s.groups s.emit.encodeBank) s.emit.groupIndex
        ((g :: gs).map runLength))
      (count : s.emit.groupIndex + 1 + gs.length = s.bankGroupCount s.emit.encodeBank) :
      Emitting s (b :: d ++ pack gs ++ [0])
  | delimiter (state : s.emit.state = .E_DELIMITER) : Emitting s [0]

/-- The loader's half of an edge has left the emitter and its bank alone. -/
structure Undisturbed (s n : State) : Prop where
  emit : n.emit = s.emit
  packet : n.packet s.emit.encodeBank = s.packet s.emit.encodeBank
  groups : n.groups s.emit.encodeBank = s.groups s.emit.encodeBank
  count : n.bankGroupCount s.emit.encodeBank = s.bankGroupCount s.emit.encodeBank

section

variable {i : Input} {s n : State}

theorem Emitting.not_idle {rest : List UInt8} (h : Emitting s rest) : s.emit.state ≠ .E_IDLE := by
  cases h with
  | code g gs state => simp [state]
  | data b d g gs state => simp [state]
  | delimiter state => simp [state]

/-- The emitter reads nothing but its own bank. -/
theorem Emitting.of_undisturbed {rest : List UInt8} (h : Emitting s rest)
    (hsame : Undisturbed s n) : Emitting n rest := by
  obtain ⟨hemit, hpacket, hgroups, hcount⟩ := hsame
  cases h with
  | code g gs state isRun packet groups count =>
    rw [← hpacket] at packet
    rw [← hgroups] at groups
    rw [← hcount] at count
    rw [← hemit] at state packet groups count
    exact .code g gs state isRun packet groups count
  | data b d g gs state nonzero part isRun remaining packet groups count =>
    rw [← hpacket] at packet
    rw [← hgroups] at groups
    rw [← hcount] at count
    rw [← hemit] at state remaining packet groups count
    exact .data b d g gs state nonzero part isRun remaining packet groups count
  | delimiter state =>
    rw [← hemit] at state
    exact .delimiter state

/-- The emitter waits for the sink. -/
theorem emitUpdate_stall (hidle : s.emit.state ≠ .E_IDLE) (hready : i.outputReady = false) :
    emitUpdate i s n = n := by
  rw [emitUpdate]
  cases hstate : s.emit.state with
  | E_IDLE => exact absurd hstate hidle
  | E_CODE =>
    dsimp only
    rw [hready, if_neg Bool.false_ne_true]
  | E_DATA =>
    dsimp only
    rw [hready, if_neg Bool.false_ne_true]
  | E_DELIMITER =>
    dsimp only
    rw [hready, if_neg Bool.false_ne_true]

/-- The byte that is offered, and what is still to come when it is taken. -/
def Sends (i : Input) (s n : State) (rest : List UInt8) : Prop :=
  ∃ tail, rest = outputData s :: tail ∧ outputLast s = tail.isEmpty ∧
    (s.emit.state = .E_DELIMITER ∧ tail = [] ∨
      s.emit.state ≠ .E_DELIMITER ∧ Emitting (emitUpdate i s n) tail)

/-- A byte that is not the delimiter is offered. -/
theorem sends_of_next {b : UInt8} {front : List UInt8} (hdata : outputData s = b)
    (hstate : s.emit.state ≠ .E_DELIMITER) (h : Emitting (emitUpdate i s n) (front ++ [0])) :
    Sends i s n (b :: (front ++ [0])) := by
  refine ⟨front ++ [0], by rw [hdata], ?_, .inr ⟨hstate, h⟩⟩
  rw [outputLast, beq_false_of_ne hstate]
  exact (List.isEmpty_eq_false_iff.mpr (by simp)).symm

/-- Behind the last byte of a run the next run begins, one address further if the run was cut
short by its length, two if by a zero. -/
theorem stored_after {mem : ℕ → UInt8} {address : ℕ} {g h : List UInt8} {gs : List (List UInt8)}
    (hg : g.length ≤ 254) (hmem : Stored mem (address + 1) (after g (h :: gs))) :
    Stored mem (address + if runLength g = 0xfe then 1 else 2) (expand (h :: gs)) := by
  rw [after] at hmem
  have hfull := runLength_eq_iff hg 0xfe
  by_cases hlong : g.length = 254
  · rw [if_pos hlong, List.nil_append] at hmem
    rw [if_pos (hfull.mpr hlong)]
    exact hmem
  · rw [if_neg hlong] at hmem
    rw [if_neg (fun hlen => hlong (hfull.mp hlen))]
    exact hmem.2

/-- In front of a run its code byte is offered. -/
theorem outputData_code {g : List UInt8} (state : s.emit.state = .E_CODE)
    (hlength : emitGroupLength s = runLength g) : outputData s = Cobs.code g := by
  rw [outputData, state, hlength, code_eq_runLength]
  dsimp only
  split
  · next hlong =>
    rw [hlong]
    rfl
  · rfl

/-- A code byte. -/
theorem sends_code (hready : i.outputReady = true) (hsame : Undisturbed s n)
    {g : List UInt8} {gs : List (List UInt8)} (state : s.emit.state = .E_CODE)
    (isRun : ∀ h ∈ g :: gs, IsRun h)
    (packet : Stored (s.packet s.emit.encodeBank) s.emit.rawIndex (expand (g :: gs)))
    (groups : Stored (s.groups s.emit.encodeBank) s.emit.groupIndex ((g :: gs).map runLength))
    (count : s.emit.groupIndex + 1 + gs.length = s.bankGroupCount s.emit.encodeBank) :
    Sends i s n (pack (g :: gs) ++ [0]) := by
  obtain ⟨hemit, hpacket, hgroups, hcount⟩ := hsame
  have hrun := isRun g List.mem_cons_self
  have hlength : emitGroupLength s = runLength g := groups.1
  have hnext : s.emit.state ≠ .E_DELIMITER := by
    rw [state]
    decide
  rw [expand_cons] at packet
  apply sends_of_next (outputData_code state hlength) hnext
  rw [emitUpdate, state]
  dsimp only
  rw [if_pos hready, hlength, hemit]
  cases g with
  | nil =>
    rw [if_pos (show runLength [] = 0 from rfl)]
    cases gs with
    | nil =>
      rw [List.length_nil, Nat.add_zero] at count
      rw [if_pos count]
      exact .delimiter rfl
    | cons h gs =>
      rw [if_neg (by rw [List.length_cons] at count; omega)]
      refine .code h gs state ?_ ?_ ?_ ?_
      · intro r hr
        exact isRun r (List.mem_cons_of_mem _ hr)
      · dsimp only
        rw [hpacket]
        exact packet.2
      · dsimp only
        rw [hgroups]
        exact groups.2
      · dsimp only
        rw [hcount, ← count, List.length_cons]
        omega
  | cons b d =>
    have hne : runLength (b :: d) ≠ 0 := by
      intro hzero
      have := (runLength_eq_iff hrun.2 0).mp hzero
      contradiction
    rw [if_neg hne]
    refine .data b d (b :: d) gs rfl hrun.1 (Nat.le_refl _) isRun rfl ?_ ?_ ?_
    · dsimp only
      rw [hpacket]
      exact packet
    · dsimp only
      rw [hgroups]
      exact groups
    · dsimp only
      rw [hcount]
      exact count

/-- A byte of a run. -/
theorem sends_data (hready : i.outputReady = true) (hsame : Undisturbed s n) {b : UInt8}
    {d g : List UInt8} {gs : List (List UInt8)} (state : s.emit.state = .E_DATA)
    (nonzero : ∀ c ∈ b :: d, c ≠ 0) (part : (b :: d).length ≤ g.length)
    (isRun : ∀ h ∈ g :: gs, IsRun h) (remaining : s.emit.groupRemaining = runLength (b :: d))
    (packet : Stored (s.packet s.emit.encodeBank) s.emit.rawIndex (b :: d ++ after g gs))
    (groups : Stored (s.groups s.emit.encodeBank) s.emit.groupIndex ((g :: gs).map runLength))
    (count : s.emit.groupIndex + 1 + gs.length = s.bankGroupCount s.emit.encodeBank) :
    Sends i s n (b :: d ++ pack gs ++ [0]) := by
  obtain ⟨hemit, hpacket, hgroups, hcount⟩ := hsame
  have hrun := isRun g List.mem_cons_self
  have hlength : emitGroupLength s = runLength g := groups.1
  have hdata : outputData s = b := by
    rw [outputData, state]
    exact packet.1
  have hnext : s.emit.state ≠ .E_DELIMITER := by
    rw [state]
    decide
  have hone : runLength (b :: d) = 1 ↔ d = [] := by
    rw [runLength_eq_iff (part.trans hrun.2), List.length_cons]
    constructor
    · intro hlen
      exact List.eq_nil_of_length_eq_zero (Nat.succ.inj hlen)
    · intro hnil
      rw [hnil]
      rfl
  apply sends_of_next hdata hnext
  rw [emitUpdate, state]
  dsimp only
  rw [if_pos hready, remaining, hlength, hemit]
  cases d with
  | nil =>
    rw [if_pos (hone.mpr rfl)]
    cases gs with
    | nil =>
      rw [List.length_nil, Nat.add_zero] at count
      rw [if_pos count]
      exact .delimiter rfl
    | cons h gs =>
      rw [if_neg (by rw [List.length_cons] at count; omega)]
      refine .code h gs rfl ?_ ?_ ?_ ?_
      · intro r hr
        exact isRun r (List.mem_cons_of_mem _ hr)
      · dsimp only
        rw [hpacket]
        exact stored_after hrun.2 packet.2
      · dsimp only
        rw [hgroups]
        exact groups.2
      · dsimp only
        rw [hcount, ← count, List.length_cons]
        omega
  | cons c d =>
    rw [if_neg (fun h => List.cons_ne_nil _ _ (hone.mp h))]
    refine .data c d g gs state ?_ ?_ isRun ?_ ?_ ?_ ?_
    · intro r hr
      exact nonzero r (List.mem_cons_of_mem _ hr)
    · rw [List.length_cons] at part
      exact Nat.le_of_succ_le part
    · dsimp only
      rw [runLength_cons b]
      grind
    · dsimp only
      rw [hpacket]
      exact packet.2
    · dsimp only
      rw [hgroups]
      exact groups
    · dsimp only
      rw [hcount]
      exact count

/-- The offered byte is the first one of the rest of the frame, marked last if it is the only
one, and taking it leaves the others. -/
theorem Emitting.send {rest : List UInt8} (h : Emitting s rest) (hready : i.outputReady = true)
    (hsame : Undisturbed s n) : Sends i s n rest := by
  cases h with
  | code g gs state isRun packet groups count =>
    exact sends_code hready hsame state isRun packet groups count
  | data b d g gs state nonzero part isRun remaining packet groups count =>
    exact sends_data hready hsame state nonzero part isRun remaining packet groups count
  | delimiter state =>
    refine ⟨[], ?_, ?_, .inl ⟨state, rfl⟩⟩
    · rw [outputData, state]
    · rw [outputLast, state]
      rfl

/-- A bank that is full becomes the frame of its packet. -/
theorem Emitting.begin {p : Packet} (hstate : s.emit.state = .E_IDLE)
    (hfull : s.bankFull s.emit.nextEncodeBank = true) (hholds : Holds n s.emit.nextEncodeBank p) :
    Emitting (emitUpdate i s n) (encode (raw p) ++ [0]) := by
  rw [emitUpdate, hstate]
  dsimp only
  rw [if_pos hfull, encode]
  obtain ⟨g, gs, hall⟩ : ∃ g gs, (runs (raw p)).all = g :: gs :=
    List.exists_cons_of_ne_nil (List.append_ne_nil_of_right_ne_nil _ (List.cons_ne_nil _ _))
  have hruns := (runs (raw p)).all_run
  have hpacket := hholds.packet
  have hgroups := hholds.groups
  have hcount := hholds.count
  rw [← expand_runs (raw p)] at hpacket
  rw [hall] at hruns hpacket hgroups hcount ⊢
  refine .code g gs rfl hruns hpacket hgroups ?_
  dsimp only
  rw [hcount, List.length_cons]
  omega

/-! ### The emitter's registers and the banks -/

/-- What the emitter's half of an edge leaves alone. -/
theorem emitUpdate_frame (i : Input) (s n : State) :
    (emitUpdate i s n).load = n.load ∧ (emitUpdate i s n).packet = n.packet ∧
      (emitUpdate i s n).groups = n.groups ∧
      (emitUpdate i s n).bankGroupCount = n.bankGroupCount ∧
      (emitUpdate i s n).overrun = n.overrun ∧
      (emitUpdate i s n).droppedBytes = n.droppedBytes := by
  rw [emitUpdate]
  cases s.emit.state <;> dsimp only <;> split_ifs <;> exact ⟨rfl, rfl, rfl, rfl, rfl, rfl⟩

/-- Only a delimiter that is taken frees a bank. -/
theorem emitUpdate_banks (i : Input) (s n : State) (hemit : n.emit = s.emit)
    (h : s.emit.state ≠ .E_DELIMITER ∨ i.outputReady = false) :
    (emitUpdate i s n).bankFull = n.bankFull ∧
      (emitUpdate i s n).emit.nextEncodeBank = s.emit.nextEncodeBank ∧
      (s.emit.state ≠ .E_IDLE →
        (emitUpdate i s n).emit.encodeBank = s.emit.encodeBank) := by
  have hnext : n.emit.nextEncodeBank = s.emit.nextEncodeBank := by rw [hemit]
  have hbank : n.emit.encodeBank = s.emit.encodeBank := by rw [hemit]
  rw [emitUpdate]
  cases hstate : s.emit.state with
  | E_IDLE =>
    dsimp only
    split_ifs <;> exact ⟨rfl, hnext, fun hne => absurd rfl hne⟩
  | E_CODE =>
    dsimp only
    split_ifs <;> exact ⟨rfl, hnext, fun _ => hbank⟩
  | E_DATA =>
    dsimp only
    split_ifs <;> exact ⟨rfl, hnext, fun _ => hbank⟩
  | E_DELIMITER =>
    have hready := h.resolve_left (fun hne => hne hstate)
    dsimp only
    rw [hready, if_neg Bool.false_ne_true]
    exact ⟨rfl, hnext, fun _ => hbank⟩

end

end OrbflowEncoder
