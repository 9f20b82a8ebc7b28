import Zub1cg.Firmware.TraceDma.Sessions
import Zub1cg.Rtl.Core.Frames

/-!
# The trace server on the board

From the bytes that the packetizer takes to the bytes a client of TCP 3402 gets: packetizer,
encoder and packer, the channel of the DMA engine that writes the beats into the packets of the
ring, and the trace thread that hands the packets to NetX. The calls of the thread come between
the edges of the clock in any order and with any answers of NetX, and the channel writes whenever
it can.

## Main definitions

- `S2mm` — the DMA engine's channel
- `TraceServer.step` — some calls of the trace thread, and one edge of `aclk`
- `IsTransfer` — the beats of one transfer
- `Tracks` — where the beats of a session are

## Main results

- `Tracks.step` — what one step preserves
- `Tracks.sent_prefix` — the packets of a session are the PL's transfers, in order
- `trace_server_lossless` — and the host reconstructs what the packetizer has taken
-/

namespace System

open AxisPacker (Beat)
open Firmware (TraceSession TraceOp Allocation SendResult Transfer Handed TRACE_DMA_BD_COUNT
  TRACE_DMA_BD_COMPLETE TRACE_DMA_LENGTH_MASK TRACE_DMA_BUFFER_SIZE)
open Stream (Whole onChannel)

/-! ### The channel of the DMA engine -/

/-- The channel from the stream to the memory. The reset at the start of a session empties it. -/
structure S2mm where
  running : Bool
  /-- how many descriptors it has completed since it was started -/
  completed : ℕ
  /-- the beats it has taken and not written -/
  fifo : List Beat

/-- The beats up to the end of a transfer, or until a buffer with `room` bytes is full, and the
beats behind them. -/
def nextTransfer : ℕ → List Beat → Option (List Beat × List Beat)
  | _, [] => none
  | room, beat :: rest =>
    if beat.last ∨ room ≤ beat.bytes.length then some ([beat], rest)
    else (nextTransfer (room - beat.bytes.length) rest).map fun x => (beat :: x.1, x.2)

/-- `RXSOF` and `RXEOF` of the status word, which the firmware does not look at. -/
def TRACE_DMA_BD_MARKS : UInt32 := 0x0c000000

/-- The status word of a completed descriptor. -/
def completedStatus (marks : UInt32) (length : ℕ) : UInt32 :=
  TRACE_DMA_BD_COMPLETE ||| (marks &&& TRACE_DMA_BD_MARKS) ||| UInt32.ofNat length

/-! ### The thread and the PL -/

/-- A call of the trace thread, with NetX's answers. -/
inductive TraceCall where
  | initializeRing (reset : ℕ → Bool) (answers : ℕ → Allocation)
  | sendCompleted (answer : Allocation) (result : SendResult)
  | stop

def TraceCall.op : TraceCall → TraceOp
  | .initializeRing reset answers => .initializeRing reset answers
  | .sendCompleted answer result => .sendCompleted answer result
  | .stop => .stop

/-- The PL's trace stream, the channel and the thread, with a record of the beats that the PL has
delivered, and of those before the session. -/
structure TraceServer where
  pl : Stream.State
  s2mm : S2mm
  session : TraceSession
  beats : List Beat
  begun : List Beat

namespace TraceServer

/-- What happens around one edge of `aclk`; `mAxisTready` is the channel's. -/
structure Input where
  calls : List TraceCall
  pl : Stream.Input
  /-- the channel stops by itself -/
  fault : Bool
  /-- it completes a descriptor if it can -/
  writes : Bool
  marks : UInt32

/-- One call of the trace thread. -/
def call (s : TraceServer) (c : TraceCall) : TraceServer :=
  let session := s.session.step c.op
  match c with
  | .initializeRing _ _ =>
    -- `trace_thread_entry` starts the channel with the session
    if s.session.phase = .accepting then
      { s with
        session := session
        s2mm := ⟨decide (session.phase = .streaming), 0, []⟩
        begun := s.beats }
    else { s with session := session }
  | .sendCompleted _ _ => { s with session := session }
  | .stop => { s with session := session, s2mm := { s.s2mm with running := false } }

/-- The channel completes the descriptor it is at, if this one is armed. -/
def write (s : TraceServer) (marks : UInt32) : TraceServer :=
  let slot := s.s2mm.completed % TRACE_DMA_BD_COUNT
  if s.s2mm.running ∧ (s.session.dma.descriptor slot).status &&& TRACE_DMA_BD_COMPLETE = 0 then
    match nextTransfer TRACE_DMA_BUFFER_SIZE.toNat s.s2mm.fifo with
    | none => s
    | some (transfer, rest) =>
      let bytes := transfer.flatMap Beat.bytes
      { s with
        session := s.session.step (.transfer slot (completedStatus marks bytes.length) bytes)
        s2mm := { s.s2mm with completed := s.s2mm.completed + 1, fifo := rest } }
  else s

/-- One edge of `aclk`: the channel takes the beat that is handed over. -/
def edge (s : TraceServer) (i : Stream.Input) : TraceServer :=
  let beats := AxisPacker.deliveredBeat (Stream.packerInput i s.pl) s.pl.packer
  { s with
    pl := Stream.step i s.pl
    s2mm := { s.s2mm with fifo := s.s2mm.fifo ++ beats }
    beats := s.beats ++ beats }

def fault (s : TraceServer) : TraceServer := { s with s2mm := { s.s2mm with running := false } }

def step (i : Input) (s : TraceServer) : TraceServer :=
  let s := i.calls.foldl call s
  let s := if i.fault then s.fault else s
  let s := if i.writes then s.write i.marks else s
  s.edge i.pl

/-- From power on, with the PL coming out of reset. -/
def run (demux : TpiuDemux.State) (encoder : OrbflowEncoder.State) (inp : ℕ → Input) :
    Clocked.Run Input TraceServer where
  step := step
  start :=
    { pl := (Stream.run demux encoder fun t => (inp t).pl).start
      s2mm := ⟨false, 0, []⟩
      session := TraceSession.powerOn
      beats := []
      begun := [] }
  input := inp

end TraceServer

/-! ### Transfers -/

/-- The beats of one transfer. -/
structure IsTransfer (beats : List Beat) : Prop where
  nonempty : beats ≠ []
  inner : ∀ beat ∈ beats.dropLast, beat.last = false
  whole : Whole beats

/-- What the channel cuts off ends with a transfer, or fills the buffer. -/
theorem nextTransfer_spec {room : ℕ} {fifo transfer rest : List Beat}
    (h : nextTransfer room fifo = some (transfer, rest)) :
    fifo = transfer ++ rest ∧ transfer ≠ [] ∧ (∀ beat ∈ transfer.dropLast, beat.last = false) ∧
      (Whole transfer ∨ room ≤ (transfer.flatMap Beat.bytes).length) := by
  induction fifo generalizing room transfer with
  | nil => cases h
  | cons beat fifo ih =>
    rw [nextTransfer] at h
    split at h
    · next hend =>
      obtain ⟨rfl, rfl⟩ := Prod.mk.inj (Option.some.inj h)
      refine ⟨rfl, List.cons_ne_nil _ _, fun _ hbeat => absurd hbeat List.not_mem_nil, ?_⟩
      refine hend.imp (fun hlast other hother => ?_) fun hfull => ?_
      · rwa [← Option.some.inj (Option.mem_def.mp hother)]
      · rwa [List.flatMap_singleton]
    · next hgo =>
      obtain ⟨⟨others, back⟩, hnext, hsplit⟩ := Option.map_eq_some_iff.mp h
      obtain ⟨rfl, rfl⟩ := Prod.mk.inj hsplit
      obtain ⟨hlast, hroom⟩ := not_or.mp hgo
      obtain ⟨hfifo, hne, hinner, hcase⟩ := ih hnext
      refine ⟨by rw [hfifo]; rfl, List.cons_ne_nil _ _, ?_, hcase.imp (fun hwhole => ?_) ?_⟩
      · rw [List.dropLast_cons_of_ne_nil hne]
        exact List.forall_mem_cons.mpr ⟨Bool.eq_false_iff.mpr hlast, hinner⟩
      · rw [Whole, List.getLast?_cons_of_ne_nil hne]
        exact hwhole
      · intro hfull
        dsimp only
        rw [List.flatMap_cons, List.length_append]
        omega

/-- The firmware finds the length in the status word. -/
theorem completedStatus_length {length : ℕ} (marks : UInt32) (h : length < 2 ^ 26) :
    (completedStatus marks length &&& TRACE_DMA_LENGTH_MASK).toNat = length := by
  have hmask : TRACE_DMA_LENGTH_MASK.toNat = 2 ^ 26 - 1 := rfl
  have hlength : (UInt32.ofNat length).toNat = length := Nat.mod_eq_of_lt (by omega)
  have hmarks : (marks.toNat &&& TRACE_DMA_BD_MARKS.toNat) % 2 ^ 26 = 0 := by
    rw [Nat.and_mod_two_pow]
    exact Nat.and_zero _
  have hcomplete : TRACE_DMA_BD_COMPLETE.toNat % 2 ^ 26 = 0 := rfl
  rw [completedStatus, UInt32.toNat_and, UInt32.toNat_or, UInt32.toNat_or, UInt32.toNat_and, hmask,
    Nat.and_two_pow_sub_one_eq_mod, Nat.or_mod_two_pow, Nat.or_mod_two_pow, hmarks, hcomplete,
    hlength, Nat.mod_eq_of_lt h, Nat.or_zero, Nat.zero_or]

/-- And that the descriptor is complete. -/
theorem completedStatus_complete (marks : UInt32) (length : ℕ) :
    completedStatus marks length &&& TRACE_DMA_BD_COMPLETE ≠ 0 := by
  intro hzero
  have hbit := congrArg (fun status => status.toNat.testBit 31) hzero
  have hcomplete : TRACE_DMA_BD_COMPLETE.toNat.testBit 31 = true := rfl
  rw [completedStatus, UInt32.toNat_and, UInt32.toNat_or, UInt32.toNat_or, Nat.testBit_and,
    Nat.testBit_or, Nat.testBit_or, hcomplete, Bool.true_or, Bool.true_or, Bool.true_and] at hbit
  cases hbit

/-! ### What the calls leave alone -/

namespace TraceServer

variable {s : TraceServer}

/-- The PL does not see the thread or the channel's writes. -/
structure SamePl (s s' : TraceServer) : Prop where
  pl : s'.pl = s.pl
  beats : s'.beats = s.beats

theorem call_samePl (s : TraceServer) (c : TraceCall) : SamePl s (s.call c) := by
  cases c with
  | initializeRing reset answers =>
    rw [call]
    split <;> exact ⟨rfl, rfl⟩
  | sendCompleted answer result => exact ⟨rfl, rfl⟩
  | stop => exact ⟨rfl, rfl⟩

theorem calls_samePl (s : TraceServer) (calls : List TraceCall) :
    SamePl s (calls.foldl call s) := by
  induction calls generalizing s with
  | nil => exact ⟨rfl, rfl⟩
  | cons c calls ih =>
    have hcall := s.call_samePl c
    have hcalls := ih (s.call c)
    exact ⟨hcalls.pl.trans hcall.pl, hcalls.beats.trans hcall.beats⟩

theorem write_samePl (s : TraceServer) (marks : UInt32) : SamePl s (s.write marks) := by
  rw [write]
  dsimp only
  split
  · split <;> exact ⟨rfl, rfl⟩
  · exact ⟨rfl, rfl⟩

/-- What comes before the edge. -/
def prepared (i : Input) (s : TraceServer) : TraceServer :=
  let s := i.calls.foldl call s
  let s := if i.fault then s.fault else s
  if i.writes then s.write i.marks else s

theorem step_eq (i : Input) (s : TraceServer) : step i s = (prepared i s).edge i.pl := rfl

theorem prepared_samePl (i : Input) (s : TraceServer) : SamePl s (prepared i s) := by
  have hcalls := s.calls_samePl i.calls
  rw [prepared]
  generalize i.calls.foldl call s = s' at hcalls ⊢
  have hwrite := s'.write_samePl i.marks
  have hfault := s'.fault.write_samePl i.marks
  cases i.fault <;> cases i.writes
  · exact hcalls
  · exact ⟨hwrite.pl.trans hcalls.pl, hwrite.beats.trans hcalls.beats⟩
  · exact ⟨hcalls.pl, hcalls.beats⟩
  · exact ⟨hfault.pl.trans hcalls.pl, hfault.beats.trans hcalls.beats⟩

section

variable {demux : TpiuDemux.State} {encoder : OrbflowEncoder.State} {inp : ℕ → Input}

/-- The PL runs on its own. -/
theorem pl_state (t : ℕ) : ((run demux encoder inp).state t).pl =
    (Stream.run demux encoder fun t => (inp t).pl).state t := by
  let r := run demux encoder inp
  have hpart : ∀ i s, (r.step i s).pl = Stream.step i.pl s.pl := by
    intro i s
    change Stream.step i.pl (prepared i s).pl = _
    rw [(prepared_samePl i s).pl]
  have hsame : (r.part Stream.step (fun i _ => i.pl) (fun s => s.pl)).state t = (r.state t).pl :=
    r.part_state hpart t
  exact hsame.symm

/-- The record of the beats. -/
theorem beats_eq (t : ℕ) : ((run demux encoder inp).state t).beats =
    Stream.delivered (Stream.run demux encoder fun t => (inp t).pl) t := by
  induction t with
  | zero => rfl
  | succ t ih =>
    have hsame := prepared_samePl (inp t) ((run demux encoder inp).state t)
    change (prepared (inp t) _).beats ++
      AxisPacker.deliveredBeat (Stream.packerInput (inp t).pl (prepared (inp t) _).pl)
        (prepared (inp t) _).pl.packer = _
    rw [hsame.beats, hsame.pl, ih, pl_state]
    rfl

end

/-! ### Where the beats of a session are -/

/-- Every beat since the session began is in a transfer that has been written, or in the channel;
the transfers lie in the slots in turn. -/
structure Tracks (s : TraceServer) (transfers : List (List Beat)) : Prop where
  sound : s.session.Sound
  beats : s.beats = s.begun ++ transfers.flatten ++ s.s2mm.fifo
  completed : s.s2mm.completed = transfers.length
  dealt : RingIndex.Dealt TRACE_DMA_BD_COUNT
    (fun i => (s.session.transfers i).map Transfer.payload)
    (transfers.map (·.flatMap Beat.bytes))
  transfer : ∀ transfer ∈ transfers, IsTransfer transfer

/-- A call of the thread leaves the session going, or begins a new one. -/
theorem Tracks.call {transfers : List (List Beat)} (h : Tracks s transfers) (c : TraceCall) :
    ∃ transfers', Tracks (s.call c) transfers' := by
  have hsound := h.sound.step c.op
  cases c with
  | initializeRing reset answers =>
    by_cases hphase : s.session.phase = .accepting
    · refine ⟨[], ?_⟩
      rw [TraceServer.call, if_pos hphase]
      refine ⟨hsound, (by simp), rfl, ?_, fun _ hmem => absurd hmem List.not_mem_nil⟩
      have hnone : (s.session.step (TraceCall.initializeRing reset answers).op).transfers =
          fun _ => [] := by
        rw [TraceCall.op, TraceSession.step, if_pos hphase]
      rw [hnone]
      exact RingIndex.dealt_nil _
    · refine ⟨transfers, ?_⟩
      have hsame : s.session.step (TraceCall.initializeRing reset answers).op = s.session := by
        rw [TraceCall.op, TraceSession.step, if_neg hphase]
      rw [TraceServer.call, if_neg hphase, hsame]
      exact h
  | sendCompleted answer result =>
    refine ⟨transfers, hsound, h.beats, h.completed, ?_, h.transfer⟩
    have hsame : (s.session.step (TraceCall.sendCompleted answer result).op).transfers =
        s.session.transfers := by
      rw [TraceCall.op, TraceSession.step]
      split <;> rfl
    rw [TraceServer.call]
    dsimp only
    rw [hsame]
    exact h.dealt
  | stop =>
    refine ⟨transfers, hsound, h.beats, h.completed, ?_, h.transfer⟩
    have hsame : (s.session.step TraceCall.stop.op).transfers = s.session.transfers := by
      rw [TraceCall.op, TraceSession.step]
      split <;> rfl
    rw [TraceServer.call]
    dsimp only
    rw [hsame]
    exact h.dealt

/-- The slot that is next has one more transfer when it is written. -/
theorem Tracks.dealt_write {transfers : List (List Beat)} (h : Tracks s transfers)
    (hopen : (s.session.dma.descriptor (s.s2mm.completed % TRACE_DMA_BD_COUNT)).status &&&
      TRACE_DMA_BD_COMPLETE = 0)
    (marks : UInt32) {transfer : List Beat}
    (hlength : (transfer.flatMap Beat.bytes).length < 2 ^ 26) :
    RingIndex.Dealt TRACE_DMA_BD_COUNT
      (fun i => ((s.session.step (.transfer (s.s2mm.completed % TRACE_DMA_BD_COUNT)
        (completedStatus marks (transfer.flatMap Beat.bytes).length)
        (transfer.flatMap Beat.bytes))).transfers i).map Transfer.payload)
      ((transfers ++ [transfer]).map (·.flatMap Beat.bytes)) := by
  have hcomplete := completedStatus_complete marks (transfer.flatMap Beat.bytes).length
  have hpayload : Transfer.payload ⟨completedStatus marks (transfer.flatMap Beat.bytes).length,
      transfer.flatMap Beat.bytes⟩ = transfer.flatMap Beat.bytes := by
    rw [Transfer.payload, completedStatus_length marks hlength, List.take_length]
  have hpush := h.dealt.push (by decide) (transfer.flatMap Beat.bytes)
  rw [List.length_map, ← h.completed] at hpush
  rw [TraceSession.step, if_pos ⟨Nat.mod_lt _ (by decide), hopen⟩, List.map_append,
    List.map_singleton]
  convert hpush using 2 with i
  dsimp only
  by_cases hslot : i = s.s2mm.completed % TRACE_DMA_BD_COUNT
  · rw [if_pos ⟨hslot, hcomplete⟩, if_pos hslot, List.map_append, List.map_singleton, hpayload]
  · rw [if_neg (fun hboth => hslot hboth.1), if_neg hslot]

/-- Where no transfer ends, the beats do not fill a buffer. -/
def Short (beats : List Beat) : Prop :=
  ∀ before stretch rest, beats = before ++ stretch ++ rest →
    (∀ beat ∈ stretch.dropLast, beat.last = false) →
      (stretch.flatMap Beat.bytes).length < TRACE_DMA_BUFFER_SIZE.toNat

/-- The channel writes the next transfer into the next slot. -/
theorem Tracks.write {transfers : List (List Beat)} (h : Tracks s transfers)
    (hshort : Short s.beats) (marks : UInt32) :
    ∃ transfers', Tracks (s.write marks) transfers' := by
  rw [TraceServer.write]
  dsimp only
  split
  · next hguard =>
    obtain ⟨-, hopen⟩ := hguard
    split
    · exact ⟨transfers, h⟩
    · next transfer rest hnext =>
      obtain ⟨hfifo, hne, hinner, hcase⟩ := nextTransfer_spec hnext
      have hbeats := h.beats
      rw [hfifo, ← List.append_assoc] at hbeats
      have hlength := hshort _ _ _ hbeats hinner
      have hwhole := hcase.resolve_right (Nat.not_le_of_lt hlength)
      refine ⟨transfers ++ [transfer], ?_, ?_, ?_, ?_, ?_⟩
      · exact h.sound.step (.transfer (s.s2mm.completed % TRACE_DMA_BD_COUNT)
          (completedStatus marks (transfer.flatMap Beat.bytes).length)
          (transfer.flatMap Beat.bytes))
      · rw [List.flatten_append, List.flatten_singleton, ← List.append_assoc]
        exact hbeats
      · rw [List.length_append, List.length_singleton]
        exact congrArg (· + 1) h.completed
      · exact h.dealt_write hopen marks (hlength.trans (by decide))
      · intro other hother
        obtain hother | hother := List.mem_append.mp hother
        · exact h.transfer other hother
        · rw [List.mem_singleton.mp hother]
          exact ⟨hne, hinner, hwhole⟩
  · exact ⟨transfers, h⟩

theorem Tracks.calls {transfers : List (List Beat)} (h : Tracks s transfers)
    (calls : List TraceCall) :
    ∃ transfers', Tracks (calls.foldl TraceServer.call s) transfers' := by
  induction calls generalizing s transfers with
  | nil => exact ⟨transfers, h⟩
  | cons c calls ih =>
    obtain ⟨transfers', hcall⟩ := h.call c
    exact ih hcall

theorem Tracks.fault {transfers : List (List Beat)} (h : Tracks s transfers) :
    Tracks s.fault transfers := ⟨h.sound, h.beats, h.completed, h.dealt, h.transfer⟩

/-- The channel takes a beat. -/
theorem Tracks.edge {transfers : List (List Beat)} (h : Tracks s transfers) (i : Stream.Input) :
    Tracks (s.edge i) transfers := by
  refine ⟨h.sound, ?_, h.completed, h.dealt, h.transfer⟩
  rw [TraceServer.edge]
  dsimp only
  rw [h.beats, List.append_assoc (s.begun ++ transfers.flatten)]

/-- **One step** keeps every beat of the session. -/
theorem Tracks.step {transfers : List (List Beat)} (h : Tracks s transfers) (hshort : Short s.beats)
    (i : Input) : ∃ transfers', Tracks (step i s) transfers' := by
  obtain ⟨transfers', hcalls⟩ := h.calls i.calls
  have hshort' : Short (i.calls.foldl TraceServer.call s).beats := by
    rwa [(s.calls_samePl i.calls).beats]
  obtain ⟨transfers'', hprepared⟩ : ∃ transfers'', Tracks (prepared i s) transfers'' := by
    rw [prepared]
    generalize i.calls.foldl TraceServer.call s = s' at hcalls hshort' ⊢
    cases i.fault <;> cases i.writes
    · exact ⟨transfers', hcalls⟩
    · exact hcalls.write hshort' i.marks
    · exact ⟨transfers', hcalls.fault⟩
    · exact hcalls.fault.write hshort' i.marks
  exact ⟨transfers'', hprepared.edge i.pl⟩

section

variable {demux : TpiuDemux.State} {encoder : OrbflowEncoder.State} {inp : ℕ → Input}

/-- Every step of a run keeps them. -/
theorem tracks_run (hreset : ∀ t, (inp t).pl.aresetn = true) (t : ℕ) :
    ∃ transfers, Tracks ((run demux encoder inp).state t) transfers := by
  induction t with
  | zero =>
    exact ⟨[], TraceSession.sound_powerOn, rfl, rfl, RingIndex.dealt_nil _,
      fun _ hmem => absurd hmem List.not_mem_nil⟩
  | succ t ih =>
    obtain ⟨transfers, htracks⟩ := ih
    refine htracks.step ?_ (inp t)
    intro before stretch rest hbeats hinner
    rw [beats_eq] at hbeats
    exact Stream.stretch_length (fun u => hreset u) hbeats hinner

end

/-- The packets that NetX has been handed are the first transfers. -/
theorem Tracks.sent_prefix {transfers : List (List Beat)} (h : Tracks s transfers) :
    s.session.sent.map Handed.payload <+: transfers.map (·.flatMap Beat.bytes) := by
  rw [List.prefix_iff_getElem?]
  intro k hk
  rw [List.getElem_map]
  rw [List.length_map] at hk
  obtain ⟨t, ht, hpayload⟩ := h.sound.sent k _ (List.getElem?_eq_getElem hk)
  rw [hpayload, ← h.dealt k, List.getElem?_map, ht]
  rfl

/-- Some transfers end where the last one does. -/
theorem whole_transfers {before : List Beat} {transfers : List (List Beat)}
    (h : ∀ transfer ∈ transfers, IsTransfer transfer) (hbefore : transfers = [] → Whole before) :
    Whole (before ++ transfers.flatten) := by
  cases transfers using List.reverseRecOn with
  | nil =>
    rw [List.flatten_nil, List.append_nil]
    exact hbefore rfl
  | append_singleton transfers transfer =>
    have hlast := h transfer (by simp)
    rw [List.flatten_append, List.flatten_singleton, ← List.append_assoc, Whole,
      List.getLast?_append_of_ne_nil _ hlast.nonempty]
    exact hlast.whole

/-- The bytes of packets that hold transfers. -/
theorem flatMap_payload {packets : List Handed} {transfers : List (List Beat)}
    (h : transfers.map (·.flatMap Beat.bytes) = packets.map Handed.payload) :
    transfers.flatten.flatMap Beat.bytes = packets.flatMap Handed.payload := by
  rw [← List.flatMap_id, List.flatMap_assoc, List.flatMap_def, List.flatMap_def]
  exact congrArg List.flatten h

/-- Packets that follow each other, as beats of the PL's stream. -/
theorem Tracks.stretch {transfers : List (List Beat)} (h : Tracks s transfers)
    {skip stretch more : List Handed} (hparts : s.session.sent = skip ++ stretch ++ more)
    (hbegun : skip = [] → Whole s.begun) :
    ∃ before middle rest : List Beat, s.beats = before ++ middle ++ rest ∧ Whole before ∧
      Whole (before ++ middle) ∧
      before.flatMap Beat.bytes = s.begun.flatMap Beat.bytes ++ skip.flatMap Handed.payload ∧
      middle.flatMap Beat.bytes = stretch.flatMap Handed.payload := by
  obtain ⟨unsent, hunsent⟩ := h.sent_prefix
  rw [hparts, List.map_append, List.map_append, List.append_assoc, List.append_assoc] at hunsent
  -- the transfers in the packets
  obtain ⟨transfers₁, others, rfl, hskip, hothers⟩ := List.map_eq_append_iff.mp hunsent.symm
  obtain ⟨transfers₂, transfers₃, rfl, hstretch, -⟩ := List.map_eq_append_iff.mp hothers
  have hbeats := h.beats
  rw [List.flatten_append, List.flatten_append, List.append_assoc, List.append_assoc,
    List.append_assoc, ← List.append_assoc, ← List.append_assoc] at hbeats
  have hbefore : Whole (s.begun ++ transfers₁.flatten) := by
    refine whole_transfers (fun x hx => h.transfer x (List.mem_append_left _ hx)) ?_
    rintro rfl
    exact hbegun (List.map_eq_nil_iff.mp hskip.symm)
  have hafter := whole_transfers (fun x hx => h.transfer x
    (List.mem_append_right _ (List.mem_append_left transfers₃ hx))) fun _ => hbefore
  refine ⟨_, _, _, hbeats, hbefore, hafter, ?_, flatMap_payload hstretch⟩
  rw [List.flatMap_append, flatMap_payload hskip]

end TraceServer

open TraceServer

/-- **The packets of a session are transfers of the PL, and the host finds every channel's bytes in
them.** Whatever the sources send, whatever NetX answers and whenever the channel writes or stops:
the beats that the PL has delivered since the session began are transfers and what is still in the
channel, and NetX has been handed the first of these transfers in order. Any packets of the session
that follow each other, from the first one on if the session did not begin inside a transfer, give
the host on every channel the bytes that the packetizer took in a row, right behind those that the
beats and packets before them give. -/
theorem trace_server_lossless (demux : TpiuDemux.State) (encoder : OrbflowEncoder.State)
    (inp : ℕ → Input) (hreset : ∀ t, (inp t).pl.aresetn = true) (t : ℕ) :
    let s := (run demux encoder inp).state t
    (∃ transfers : List (List Beat), s.beats = s.begun ++ transfers.flatten ++ s.s2mm.fifo ∧
      (∀ transfer ∈ transfers, IsTransfer transfer) ∧
      s.session.sent.map Handed.payload <+: transfers.map (·.flatMap Beat.bytes)) ∧
    ∀ skip stretch more : List Handed, s.session.sent = skip ++ stretch ++ more →
      (skip = [] → Whole s.begun) →
        ∃ front middle back,
          Stream.taken (Stream.run demux encoder fun u => (inp u).pl) t = front ++ middle ++ back ∧
            ∀ c : UInt8,
              Model.reconstructChannelStream
                (s.begun.flatMap Beat.bytes ++ skip.flatMap Handed.payload) c = onChannel c front ∧
              Model.reconstructChannelStream (stretch.flatMap Handed.payload) c =
                onChannel c middle := by
  intro s
  obtain ⟨transfers, htracks⟩ := @tracks_run demux encoder inp hreset t
  refine ⟨⟨transfers, htracks.beats, htracks.transfer, htracks.sent_prefix⟩,
    fun skip stretch more hparts hbegun => ?_⟩
  obtain ⟨before, beats, rest, hbeats, hbefore, hafter, hskip, hstretch⟩ :=
    htracks.stretch hparts hbegun
  rw [beats_eq] at hbeats
  obtain ⟨front, middle, back, htaken, hstreams⟩ :=
    Stream.stretch_frames (fun u => hreset u) hbeats hbefore hafter
  rw [hskip, hstretch] at hstreams
  exact ⟨front, middle, back, htaken, hstreams⟩

/-- A client connects at once, and the first transfer goes to it. -/
def firstClient (t : ℕ) : TraceServer.Input where
  calls :=
    if t = 0 then [.initializeRing (fun _ => false) fun _ => .ok (0, 0x10000)]
    else if t = 41 then [.sendCompleted (.ok (0, 0x10000)) none]
    else []
  pl := Stream.alternating t
  fault := false
  writes := true
  marks := TRACE_DMA_BD_MARKS

/-- It has one frame of channel 2 and one of channel 3. -/
theorem trace_server_lossless_first :
    let s := (run TpiuDemux.initial OrbflowEncoder.initial firstClient).state 42
    s.session.sent.map Handed.payload = [[4, 2, 17, 237, 0, 4, 3, 34, 219, 0]] ∧
      ∃ front middle back,
        Stream.taken (Stream.run TpiuDemux.initial OrbflowEncoder.initial Stream.alternating) 42 =
          front ++ middle ++ back ∧ onChannel 2 front = [] ∧ onChannel 2 middle = [17] := by
  intro s
  have hsent : s.session.sent.map Handed.payload = [[4, 2, 17, 237, 0, 4, 3, 34, 219, 0]] := by
    decide +kernel
  have hbegun : s.begun = [] := by
    apply List.eq_nil_of_length_eq_zero
    decide +kernel
  have hwhole : Whole s.begun := by
    rw [hbegun]
    intro beat hbeat
    cases hbeat
  obtain ⟨-, hstretch⟩ := trace_server_lossless TpiuDemux.initial OrbflowEncoder.initial
    firstClient (fun _ => rfl) 42
  obtain ⟨front, middle, back, htaken, hstreams⟩ := hstretch [] s.session.sent []
    (by rw [List.nil_append, List.append_nil]) fun _ => hwhole
  obtain ⟨hfront, hmiddle⟩ := hstreams 2
  refine ⟨hsent, front, middle, back, htaken, ?_, ?_⟩
  · rw [← hfront, hbegun]
    rfl
  · have hbytes : s.session.sent.flatMap Handed.payload = [4, 2, 17, 237, 0, 4, 3, 34, 219, 0] := by
      rw [List.flatMap_def, hsent]
      rfl
    rw [← hmiddle, hbytes]
    decide +kernel

end System
