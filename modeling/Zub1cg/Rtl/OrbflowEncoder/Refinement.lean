import Zub1cg.Rtl.OrbflowEncoder.Emitter

/-!
# The packets in the Orbflow encoder

The packets that are kept are, oldest first, those whose frames have been sent, those that
lie in a bank, and the one the loader is done with but has not put into a bank. The emitter
is at the first of those in a bank.

## Main definitions

- `Banks` — the packets in the two banks
- `Tracks` — the packets that went in and the bytes that came out, in terms of the registers

## Main results

- `tracks_step`, `tracks_run` — one edge, and all of them
-/

open MemoryRegion Cobs

namespace OrbflowEncoder

/-- The bytes of a packet's frame. -/
def frame (p : Packet) : List UInt8 := encode (raw p) ++ [0]

/-- The bytes of the packets' frames, each delimiter marked last. -/
def flagged (ps : List Packet) : List (UInt8 × Bool) :=
  ps.flatMap fun p => Packets.markLast (frame p)

theorem flagged_concat (ps : List Packet) (p : Packet) :
    flagged (ps ++ [p]) = flagged ps ++ Packets.markLast (frame p) := by
  rw [flagged, List.flatMap_append, List.flatMap_singleton, flagged]

/-! ### The banks -/

/-- The packets in the banks: the first one in the bank that is sent next. -/
inductive Banks (s : State) : List Packet → Prop
  | none (empty : ∀ bank, s.bankFull bank = false) (bank : s.load.bank = s.emit.nextEncodeBank) :
      Banks s []
  | one (p : Packet) (full : s.bankFull s.emit.nextEncodeBank = true)
      (empty : s.bankFull (!s.emit.nextEncodeBank) = false)
      (holds : Holds s s.emit.nextEncodeBank p) (bank : s.load.bank = !s.emit.nextEncodeBank) :
      Banks s [p]
  | two (p q : Packet) (full : ∀ bank, s.bankFull bank = true)
      (holds : Holds s s.emit.nextEncodeBank p) (holds' : Holds s (!s.emit.nextEncodeBank) q)
      (bank : s.load.bank = s.emit.nextEncodeBank) : Banks s [p, q]

section

variable {maxPayload : ℕ} {i : Input} {s n : State}

/-- The next bank to be sent is full exactly when there is a packet in the banks. -/
theorem Banks.next_full {p : Packet} {later : List Packet} (h : Banks s (p :: later)) :
    s.bankFull s.emit.nextEncodeBank = true ∧ Holds s s.emit.nextEncodeBank p := by
  cases h with
  | one _ full empty holds bank => exact ⟨full, holds⟩
  | two _ q full holds holds' bank => exact ⟨full _, holds⟩

/-- The banks after an edge that neither fills nor frees one. -/
theorem Banks.of_same {committed : List Packet} (h : Banks s committed)
    (hfull : n.bankFull = s.bankFull) (hnext : n.emit.nextEncodeBank = s.emit.nextEncodeBank)
    (hbank : n.load.bank = s.load.bank)
    (hholds : ∀ bank p, s.bankFull bank = true → Holds s bank p → Holds n bank p) :
    Banks n committed := by
  cases h with
  | none empty bank =>
    rw [← hfull] at empty
    rw [← hbank, ← hnext] at bank
    exact .none empty bank
  | one p full empty holds bank =>
    have holdsNext := hholds _ p full holds
    rw [← hfull, ← hnext] at full empty
    rw [← hnext] at holdsNext
    rw [← hbank, ← hnext] at bank
    exact .one p full empty holdsNext bank
  | two p q full holds holds' bank =>
    have holdsNext := hholds _ p (full _) holds
    have holdsOther := hholds _ q (full _) holds'
    rw [← hfull] at full
    rw [← hnext] at holdsNext holdsOther
    rw [← hbank, ← hnext] at bank
    exact .two p q full holdsNext holdsOther bank

/-- The banks after the loader has filled one. -/
theorem Banks.push {committed : List Packet} (h : Banks s committed) {p : Packet}
    (hempty : s.bankFull s.load.bank = false)
    (hfull : n.bankFull = Function.update s.bankFull s.load.bank true)
    (hnext : n.emit.nextEncodeBank = s.emit.nextEncodeBank) (hbank : n.load.bank = !s.load.bank)
    (hholds : ∀ bank p, s.bankFull bank = true → Holds s bank p → Holds n bank p)
    (hnew : Holds n s.load.bank p) : Banks n (committed ++ [p]) := by
  cases h with
  | none empty bank =>
    rw [bank, ← hnext] at hnew hfull hbank
    refine .one p ?_ ?_ hnew hbank
    · rw [hfull, Function.update_self]
    · rw [hfull, Function.update_of_ne (Bool.not_ne_self _)]
      exact empty _
  | one q full empty holds bank =>
    have holdsNext := hholds _ q full holds
    rw [bank, ← hnext] at hnew hfull hbank
    rw [← hnext] at holdsNext full
    refine .two q p ?_ holdsNext hnew (by rw [hbank, Bool.not_not])
    intro b
    rw [hfull]
    by_cases hb : b = !n.emit.nextEncodeBank
    · rw [hb, Function.update_self]
    · rw [Function.update_of_ne hb, Bool.eq_not.not_left.mp hb]
      exact full
  | two q r full holds holds' bank =>
    rw [full] at hempty
    contradiction

/-- The banks after the emitter has freed one. -/
theorem Banks.pop {p : Packet} {later : List Packet} (h : Banks s (p :: later))
    (hfull : n.bankFull = Function.update s.bankFull s.emit.nextEncodeBank false)
    (hnext : n.emit.nextEncodeBank = !s.emit.nextEncodeBank) (hbank : n.load.bank = s.load.bank)
    (hholds : ∀ bank p, Holds s bank p → Holds n bank p) : Banks n later := by
  cases h with
  | one _ full empty holds bank =>
    refine .none ?_ ?_
    · intro b
      rw [hfull]
      by_cases hb : b = s.emit.nextEncodeBank
      · rw [hb, Function.update_self]
      · rw [Function.update_of_ne hb, Bool.eq_not.mpr hb]
        exact empty
    · rw [hbank, hnext, bank]
  | two _ q full holds holds' bank =>
    have holdsNext := hholds _ q holds'
    rw [← hnext] at holdsNext
    refine .one q ?_ ?_ holdsNext ?_
    · rw [hfull, hnext, Function.update_of_ne (Bool.not_ne_self _)]
      exact full _
    · rw [hfull, hnext, Bool.not_not, Function.update_self]
    · rw [hbank, hnext, Bool.not_not, bank]

/-! ### The invariant -/

/-- A packet that has begun comes into a bank that is not full. -/
def Free (s : State) : Prop :=
  s.load.state = .L_ACCEPT ∧ s.load.payloadCount = 0 ∨ s.bankFull s.load.bank = false

/-- While the emitter is at the frame of `p`, the rest of it is still to come. -/
inductive Emission (s : State) (out : List (UInt8 × Bool)) (done : List Packet) :
    List Packet → Prop
  | idle (committed : List Packet) (state : s.emit.state = .E_IDLE) (sent : out = flagged done) :
      Emission s out done committed
  | active (p : Packet) (later : List Packet) (rest : List UInt8)
      (bank : s.emit.encodeBank = s.emit.nextEncodeBank) (emitting : Emitting s rest)
      (sent : out ++ Packets.markLast rest = flagged (done ++ [p])) :
      Emission s out done (p :: later)

structure Tracks (maxPayload : ℕ) (items : List ((BitVec 7 × UInt8) × Bool))
    (out : List (UInt8 × Bool)) (s : State) (done committed final : List Packet) : Prop where
  split : kept maxPayload items = done ++ committed ++ final
  banks : Banks s committed
  loader : Loading maxPayload s (Packets.pending items) final
  free : Free s
  emitter : Emission s out done committed

theorem tracks_start (maxPayload : ℕ) (s₀ : State) :
    Tracks maxPayload [] [] (resetState s₀) [] [] [] where
  split := rfl
  banks := .none (fun _ => rfl) rfl
  loader := .empty rfl rfl rfl ⟨trivial, rfl, trivial, rfl, rfl⟩
  free := .inl ⟨rfl, rfl⟩
  emitter := .idle [] rfl rfl

/-- Into a full bank nothing is loaded. -/
theorem loaded_of_full (h : Free s) (hfull : s.bankFull s.load.bank = true) :
    loaded maxPayload i s = s := by
  obtain ⟨hstate, -⟩ | hempty := h
  · apply (loaded_idle hstate _).1
    rw [inputFire, inputReady, hfull, Bool.not_true, Bool.and_false, Bool.and_false]
  · rw [hempty] at hfull
    contradiction

/-- The loader does not write to a full bank. -/
theorem loaded_full_bank (h : Free s) {bank : Bool} (hfull : s.bankFull bank = true) :
    (loaded maxPayload i s).packet bank = s.packet bank ∧
      (loaded maxPayload i s).groups bank = s.groups bank ∧
      (loaded maxPayload i s).bankGroupCount bank = s.bankGroupCount bank := by
  obtain ⟨-, -, hother⟩ := loaded_frame maxPayload i s
  by_cases hbank : bank = s.load.bank
  · rw [hbank] at hfull
    rw [loaded_of_full h hfull]
    exact ⟨rfl, rfl, rfl⟩
  · exact hother bank hbank

theorem loaded_holds (h : Free s) (bank : Bool) (p : Packet) (hfull : s.bankFull bank = true)
    (hholds : Holds s bank p) : Holds (loaded maxPayload i s) bank p := by
  obtain ⟨hpacket, hgroups, hcount⟩ := @loaded_full_bank maxPayload i s h bank hfull
  exact hholds.of_same hpacket hgroups hcount

/-- The loader's half of an edge. -/
theorem tracks_loaded (hmax : 1 ≤ maxPayload) {items : List ((BitVec 7 × UInt8) × Bool)}
    {done committed final : List Packet}
    (hsplit : kept maxPayload items = done ++ committed ++ final) (hbanks : Banks s committed)
    (hloader : Loading maxPayload s (Packets.pending items) final) (hfree : Free s) :
    ∃ extra final', kept maxPayload (items ++ accepted i s) =
        done ++ (committed ++ extra) ++ final' ∧
      Banks (loaded maxPayload i s) (committed ++ extra) ∧
      Loading maxPayload (loaded maxPayload i s) (Packets.pending (items ++ accepted i s)) final' ∧
      Free (loaded maxPayload i s) := by
  obtain ⟨hemit, hsame, -⟩ := loaded_frame maxPayload i s
  have hnext : (loaded maxPayload i s).emit.nextEncodeBank = s.emit.nextEncodeBank := by
    rw [hemit]
  by_cases hstate : s.load.state = .L_FINALIZE
  · have hempty : s.bankFull s.load.bank = false := by
      obtain ⟨haccept, -⟩ | hempty := hfree
      · rw [hstate] at haccept
        contradiction
      · exact hempty
    have hnothing : accepted i s = [] := by
      apply accepted_of_busy
      rw [hstate]
      decide
    obtain ⟨p, rfl, hcur, hloading, hholds, hbank, hfull⟩ := hloader.fill (i := i) hstate
    refine ⟨[p], [], ?_, hbanks.push hempty hfull hnext hbank (loaded_holds hfree) hholds, ?_,
      .inl hloading.waiting⟩
    · rw [hnothing, List.append_nil, hsplit, List.append_nil, List.append_assoc]
    · rw [hnothing, List.append_nil, hcur]
      exact hloading
  · obtain ⟨hfull, hbank⟩ := hsame hstate
    obtain ⟨new, hkept, hloading⟩ := hloader.step (i := i) hmax hstate
    refine ⟨[], final ++ new, ?_, ?_, hloading, ?_⟩
    · rw [hkept, hsplit, List.append_nil, List.append_assoc]
    · rw [List.append_nil]
      exact hbanks.of_same hfull hnext hbank (loaded_holds hfree)
    · rw [Free, hfull, hbank]
      obtain ⟨haccept, hcount⟩ | hempty := hfree
      · cases hfire : inputFire i s with
        | false =>
          rw [(loaded_idle haccept hfire).1]
          exact .inl ⟨haccept, hcount⟩
        | true =>
          right
          rw [inputFire, inputReady] at hfire
          simp only [Bool.and_eq_true, Bool.not_eq_true'] at hfire
          exact hfire.2.2
      · exact .inr hempty

/-- The loader's half of an edge does not disturb the emitter. -/
theorem undisturbed_loaded (hfree : Free s) (hbank : s.emit.encodeBank = s.emit.nextEncodeBank)
    (hfull : s.bankFull s.emit.nextEncodeBank = true) :
    Undisturbed s (loaded maxPayload i s) := by
  rw [← hbank] at hfull
  obtain ⟨hpacket, hgroups, hcount⟩ := @loaded_full_bank maxPayload i s hfree _ hfull
  exact ⟨(loaded_frame maxPayload i s).1, hpacket, hgroups, hcount⟩

theorem handedOver_of_idle (hstate : s.emit.state = .E_IDLE) : handedOver i s = [] := by
  rw [handedOver, outputFire, outputValid, hstate]
  rfl

theorem handedOver_of_stall (hready : i.outputReady = false) : handedOver i s = [] := by
  rw [handedOver, outputFire, hready, Bool.and_false]
  rfl

theorem outputValid_of_active (hstate : s.emit.state ≠ .E_IDLE) : outputValid s = true := by
  rw [outputValid]
  simpa using hstate

/-- What the emitter's half of an edge makes of the frames that have come out, the bytes that
have, and the packets in the banks behind the loader's half. -/
def Emitted (i : Input) (s n : State) (out : List (UInt8 × Bool)) (done packets : List Packet) :
    Prop :=
  ∃ done' committed', done' ++ committed' = done ++ packets ∧
    Banks (emitUpdate i s n) committed' ∧
    Emission (emitUpdate i s n) (out ++ handedOver i s) done' committed'

/-- What the banks hold is not touched by the emitter. -/
theorem emitUpdate_holds (i : Input) (s n : State) {bank : Bool} {p : Packet}
    (h : Holds n bank p) : Holds (emitUpdate i s n) bank p := by
  obtain ⟨-, hpacket, hgroups, hcount, -, -⟩ := emitUpdate_frame i s n
  exact h.of_same (congrFun hpacket bank) (congrFun hgroups bank) (congrFun hcount bank)

/-- The banks after an edge of the emitter that frees none. -/
theorem Banks.emitted {packets : List Packet} (h : Banks n packets) (hemit : n.emit = s.emit)
    (hkeep : s.emit.state ≠ .E_DELIMITER) : Banks (emitUpdate i s n) packets := by
  obtain ⟨hfull, hbank, -⟩ := emitUpdate_banks i s n hemit (.inl hkeep)
  have hload : (emitUpdate i s n).load.bank = n.load.bank := by rw [(emitUpdate_frame i s n).1]
  have hnext : n.emit.nextEncodeBank = s.emit.nextEncodeBank := by rw [hemit]
  exact h.of_same hfull (hbank.trans hnext.symm) hload fun _ _ _ => emitUpdate_holds i s n

/-- An idle emitter begins with the first packet in the banks, if there is one. -/
theorem emitted_idle {out : List (UInt8 × Bool)} {done committed extra : List Packet}
    (state : s.emit.state = .E_IDLE) (sent : out = flagged done) (hbanks : Banks s committed)
    (hnext : Banks n (committed ++ extra)) (hemit : n.emit = s.emit)
    (hholds : ∀ bank p, s.bankFull bank = true → Holds s bank p → Holds n bank p) :
    Emitted i s n out done (committed ++ extra) := by
  rw [Emitted, handedOver_of_idle state, List.append_nil]
  refine ⟨done, committed ++ extra, rfl, hnext.emitted hemit (by rw [state]; decide), ?_⟩
  cases committed with
  | nil =>
    -- Nothing was in the banks at the edge: the emitter stays idle.
    have hempty : s.bankFull s.emit.nextEncodeBank = false := by
      cases hbanks with
      | none empty bank => exact empty _
    apply Emission.idle _ _ sent
    rw [emitUpdate, state]
    dsimp only
    rw [hempty, if_neg Bool.false_ne_true, hemit]
    exact state
  | cons p later =>
    obtain ⟨hnextFull, hnextHolds⟩ := hbanks.next_full
    have hemitting := Emitting.begin (i := i) state hnextFull (hholds _ p hnextFull hnextHolds)
    refine .active p _ _ ?_ hemitting ?_
    · rw [emitUpdate, state]
      dsimp only
      rw [if_pos hnextFull, hemit]
    · rw [sent, flagged_concat]
      rfl

/-- The offered byte is taken. -/
theorem emitted_taken {out : List (UInt8 × Bool)} {done later extra : List Packet} {p : Packet}
    {rest : List UInt8} (bank : s.emit.encodeBank = s.emit.nextEncodeBank)
    (emitting : Emitting s rest) (sent : out ++ Packets.markLast rest = flagged (done ++ [p]))
    (hnext : Banks n (p :: later ++ extra)) (hundisturbed : Undisturbed s n)
    (hready : i.outputReady = true) : Emitted i s n out done (p :: later ++ extra) := by
  have hemit := hundisturbed.emit
  have hnextBank : n.emit.nextEncodeBank = s.emit.encodeBank := by rw [hemit, bank]
  obtain ⟨tail, rfl, hlast, hcase⟩ := emitting.send hready hundisturbed
  have hhanded : handedOver i s = [(outputData s, tail.isEmpty)] := by
    rw [handedOver, outputFire, outputValid_of_active emitting.not_idle, hready, hlast]
    rfl
  have hsent : out ++ handedOver i s ++ Packets.markLast tail = flagged (done ++ [p]) := by
    rw [hhanded, List.append_assoc]
    exact sent
  obtain ⟨state, rfl⟩ | ⟨state, hemitting⟩ := hcase
  · -- The delimiter is taken: the bank is free and the frame complete.
    have hupdate : emitUpdate i s n = { n with
        bankFull := Function.update n.bankFull s.emit.encodeBank false
        emit := { n.emit with nextEncodeBank := !s.emit.encodeBank, state := .E_IDLE } } := by
      rw [emitUpdate, state]
      dsimp only
      rw [if_pos hready]
    rw [Packets.markLast, List.append_nil] at hsent
    refine ⟨done ++ [p], later ++ extra, ?_, ?_, .idle _ ?_ hsent⟩
    · rw [List.append_assoc]
      rfl
    · refine Banks.pop hnext ?_ ?_ ?_ fun _ _ => emitUpdate_holds i s n
      · rw [hnextBank, hupdate]
      · rw [hnextBank, hupdate]
      · rw [hupdate]
    · rw [hupdate]
  · obtain ⟨-, hbank, hencode⟩ := emitUpdate_banks i s n hemit (.inl state)
    refine ⟨done, p :: later ++ extra, rfl, hnext.emitted hemit state, ?_⟩
    refine .active p _ tail ?_ hemitting hsent
    rw [hbank, hencode emitting.not_idle]
    exact bank

/-- The emitter's half of an edge, on the state `n` behind the loader's half. -/
theorem tracks_emitted {out : List (UInt8 × Bool)} {done committed extra : List Packet}
    (hemission : Emission s out done committed) (hbanks : Banks s committed)
    (hnext : Banks n (committed ++ extra)) (hemit : n.emit = s.emit)
    (hholds : ∀ bank p, s.bankFull bank = true → Holds s bank p → Holds n bank p)
    (hsame : s.emit.encodeBank = s.emit.nextEncodeBank →
      s.bankFull s.emit.nextEncodeBank = true → Undisturbed s n) :
    Emitted i s n out done (committed ++ extra) := by
  cases hemission with
  | idle _ state sent => exact emitted_idle state sent hbanks hnext hemit hholds
  | active p later rest bank emitting sent =>
    have hundisturbed := hsame bank hbanks.next_full.1
    cases hready : i.outputReady with
    | true => exact emitted_taken bank emitting sent hnext hundisturbed hready
    | false =>
      rw [Emitted, emitUpdate_stall emitting.not_idle hready, handedOver_of_stall hready,
        List.append_nil]
      refine ⟨done, p :: later ++ extra, rfl, hnext, ?_⟩
      exact .active p _ rest (by rw [hemit]; exact bank) (emitting.of_undisturbed hundisturbed)
        sent

/-- The emitter fills no bank. -/
theorem emitUpdate_empty {bank : Bool} (h : n.bankFull bank = false) :
    (emitUpdate i s n).bankFull bank = false := by
  rw [emitUpdate]
  cases s.emit.state with
  | E_IDLE =>
    dsimp only
    split_ifs <;> exact h
  | E_CODE =>
    dsimp only
    split_ifs <;> exact h
  | E_DATA =>
    dsimp only
    split_ifs <;> exact h
  | E_DELIMITER =>
    dsimp only
    split
    · dsimp only
      by_cases hbank : bank = s.emit.encodeBank
      · rw [hbank, Function.update_self]
      · rw [Function.update_of_ne hbank]
        exact h
    · exact h

/-- What one edge preserves. -/
theorem tracks_step (hmax : 1 ≤ maxPayload) (hi : i.resetN = true)
    {items : List ((BitVec 7 × UInt8) × Bool)} {out : List (UInt8 × Bool)}
    {done committed final : List Packet} (h : Tracks maxPayload items out s done committed final) :
    ∃ done' committed' final', Tracks maxPayload (items ++ accepted i s) (out ++ handedOver i s)
      (step maxPayload i s) done' committed' final' := by
  have hstep : step maxPayload i s = emitUpdate i s (loaded maxPayload i s) := by
    rw [step, hi]
    rfl
  obtain ⟨extra, final', hsplit, hbanks, hloader, hfree⟩ :=
    tracks_loaded (i := i) hmax h.split h.banks h.loader h.free
  obtain ⟨done', committed', hcut, hbanks', hemission⟩ :=
    tracks_emitted (i := i) h.emitter h.banks hbanks (loaded_frame maxPayload i s).1
      (loaded_holds h.free) (undisturbed_loaded h.free)
  obtain ⟨hload, hpacket, hgroups, -, -, -⟩ := emitUpdate_frame i s (loaded maxPayload i s)
  rw [hstep]
  refine ⟨done', committed', final', ?_, hbanks', hloader.of_same hload hpacket hgroups, ?_,
    hemission⟩
  · rw [hsplit, hcut]
  · obtain hwaiting | hempty := hfree
    · left
      rw [hload]
      exact hwaiting
    · right
      rw [hload]
      exact emitUpdate_empty hempty

/-- What all edges after a reset preserve. -/
theorem tracks_run (hmax : 1 ≤ maxPayload) (s₀ : State) {inp : ℕ → Input}
    (hreset : ∀ t, (inp t).resetN = true) (t : ℕ) :
    ∃ done committed final, Tracks maxPayload ((run maxPayload s₀ inp).record accepted t)
      ((run maxPayload s₀ inp).record handedOver t) ((run maxPayload s₀ inp).state t)
      done committed final := by
  apply (run maxPayload s₀ inp).record_invariant
    (P := fun items out s => ∃ done committed final,
      Tracks maxPayload items out s done committed final)
  · exact ⟨[], [], [], tracks_start maxPayload s₀⟩
  · rintro u items out s ⟨done, committed, final, h⟩
    exact tracks_step hmax (hreset u) h

end

end OrbflowEncoder
