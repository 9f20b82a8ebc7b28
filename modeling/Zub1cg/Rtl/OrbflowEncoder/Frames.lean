import Zub1cg.Rtl.OrbflowEncoder.Refinement

/-!
# The Orbflow encoder makes the frames of the host model

What has come out is at every time the front of the host's frames of the packets that have
come in completely and are not too long. If the sink is ready some time after each offer, all of
these frames come out.

## Main definitions

- `hostFrames` — the host's frames of the packets
- `phase` — how far the emitter is from its next byte

## Main results

- `progress` — an edge brings the next byte nearer
- `encoder_refines` — the encoder makes the frames of the host model, in order
-/

namespace OrbflowEncoder

section

variable {maxPayload : ℕ} {i : Input} {s n : State} {items : List ((BitVec 7 × UInt8) × Bool)}
  {out : List (UInt8 × Bool)} {done committed final : List Packet}

/-! ### The host's frames -/

/-- The channel byte of a packet. -/
def channelOf : Packet → UInt8
  | [] => 0
  | (channel, _) :: _ => channelByte channel

/-- `orbflow_frame` of every completed packet that is not too long. -/
def hostFrames (maxPayload : ℕ) (items : List ((BitVec 7 × UInt8) × Bool)) :
    Except Model.ProtocolError (List (List UInt8)) :=
  (kept maxPayload items).mapM fun p => Model.orbflowFrame (channelOf p) (p.map Prod.snd)

theorem channelByte_toNat (channel : BitVec 7) : (channelByte channel).toNat = channel.toNat := by
  change (0#1 ++ channel).toNat = channel.toNat
  rw [BitVec.toNat_append]
  simp

theorem channelByte_le (channel : BitVec 7) : channelByte channel ≤ 0x7f := by
  have hlt := channel.isLt
  rw [UInt8.le_iff_toNat_le, channelByte_toNat]
  change channel.toNat ≤ 127
  omega

theorem channelByte_injective : Function.Injective channelByte := by
  intro a b h
  apply BitVec.eq_of_toNat_eq
  rw [← channelByte_toNat, ← channelByte_toNat, h]

theorem channelOf_le (p : Packet) : channelOf p ≤ 0x7f := by
  cases p with
  | nil => decide
  | cons x rest => exact channelByte_le x.1

/-- A packet's raw bytes are what the host encodes. -/
theorem frame_eq {p : Packet} (hp : p ≠ []) :
    frame p = Model.encoded (channelOf p) (p.map Prod.snd) ++ [0] := by
  obtain ⟨⟨channel, data⟩, rest, rfl⟩ := List.exists_cons_of_ne_nil hp
  rfl

theorem kept_ne_nil {p : Packet} (hp : p ∈ kept maxPayload items) : p ≠ [] :=
  Packets.completed_ne_nil (List.mem_filter.mp hp).1

/-- The host makes a frame of every kept packet, and these are the frames the encoder is to
send. -/
theorem hostFrames_eq (maxPayload : ℕ) (items : List ((BitVec 7 × UInt8) × Bool)) :
    ∃ frames, hostFrames maxPayload items = .ok frames ∧
      frames.flatMap Packets.markLast = flagged (kept maxPayload items) := by
  have hle : ∀ q ∈ (kept maxPayload items).map (fun p => (channelOf p, p.map Prod.snd)),
      q.1 ≤ 0x7f := by
    intro q hq
    obtain ⟨p, -, rfl⟩ := List.mem_map.mp hq
    exact channelOf_le p
  have hframes := Model.orbflowFrame_mapM hle
  rw [List.mapM_map] at hframes
  refine ⟨_, hframes, ?_⟩
  rw [List.map_map, List.flatMap_map, flagged]
  apply List.flatMap_congr
  intro p hp
  rw [frame_eq (kept_ne_nil hp)]
  rfl

/-- The packets only get more. -/
theorem flagged_kept_mono (r : Clocked.Run Input State) {t u : ℕ} (h : t ≤ u) :
    flagged (kept maxPayload (r.record accepted t)) <+:
      flagged (kept maxPayload (r.record accepted u)) :=
  ((Packets.completed_mono (r.record_mono accepted h)).filter _).flatMap _

/-! ### What has come out -/

/-- The bytes behind what has come out. -/
theorem Tracks.flagged_prefix (h : Tracks maxPayload items out s done committed final) :
    out <+: flagged (kept maxPayload items) := by
  rw [h.split]
  have hemission := h.emitter
  cases hemission with
  | idle _ state sent =>
    rw [sent, flagged, List.append_assoc, flagged, List.flatMap_append]
    exact List.prefix_append _ _
  | active p later rest bank emitting sent =>
    have hfront : done ++ p :: later ++ final = done ++ [p] ++ (later ++ final) := by simp
    rw [hfront, flagged, List.flatMap_append]
    change out <+: flagged (done ++ [p]) ++ _
    rw [← sent, List.append_assoc]
    exact List.prefix_append _ _

/-- The byte on the output is the first one that is still to come. -/
theorem Emitting.offered {rest : List UInt8} (h : Emitting s rest) :
    ∃ tail, rest = outputData s :: tail ∧ outputLast s = tail.isEmpty := by
  have hsame : Undisturbed s s := ⟨rfl, rfl, rfl, rfl⟩
  obtain ⟨tail, hrest, hlast, -⟩ :=
    h.send (i := ⟨true, 0, 0, false, false, true⟩) (n := s) rfl hsame
  exact ⟨tail, hrest, hlast⟩

/-- The byte on the output comes next in the frames. -/
theorem Tracks.offered_prefix (h : Tracks maxPayload items out s done committed final)
    (hvalid : outputValid s = true) :
    out ++ [(outputData s, outputLast s)] <+: flagged (kept maxPayload items) := by
  rw [h.split]
  have hemission := h.emitter
  cases hemission with
  | idle _ state sent =>
    rw [outputValid, state] at hvalid
    contradiction
  | active p later rest bank emitting sent =>
    obtain ⟨tail, rfl, hlast⟩ := emitting.offered
    have hfront : done ++ p :: later ++ final = done ++ [p] ++ (later ++ final) := by simp
    have hsent : out ++ [(outputData s, outputLast s)] ++ Packets.markLast tail =
        flagged (done ++ [p]) := by
      rw [hlast, List.append_assoc]
      exact sent
    rw [hfront, flagged, List.flatMap_append]
    change _ <+: flagged (done ++ [p]) ++ _
    rw [← hsent, List.append_assoc]
    exact List.prefix_append _ _

/-- A frame's delimiter is its only zero byte. -/
theorem Emitting.last_iff {rest : List UInt8} (h : Emitting s rest) :
    outputLast s = true ↔ outputData s = 0 := by
  cases h with
  | code g gs state isRun packet groups count =>
    have hcode := Cobs.pack_ne_zero isRun (Cobs.code g) List.mem_cons_self
    rw [outputLast, state, outputData_code state groups.1]
    exact ⟨fun hlast => by contradiction, fun hzero => absurd hzero hcode⟩
  | data b d g gs state nonzero part isRun remaining packet groups count =>
    have hdata : outputData s = b := by
      rw [outputData, state]
      exact packet.1
    rw [outputLast, state, hdata]
    exact ⟨fun hlast => by contradiction, fun hzero => absurd hzero (nonzero b List.mem_cons_self)⟩
  | delimiter state =>
    rw [outputLast, outputData, state]
    exact ⟨fun _ => rfl, fun _ => rfl⟩

/-- What the emitter offers while the loader works. -/
theorem Undisturbed.output (h : Undisturbed s n) :
    outputValid n = outputValid s ∧ outputData n = outputData s ∧ outputLast n = outputLast s := by
  obtain ⟨hemit, hpacket, hgroups, hcount⟩ := h
  have hraw : emitRawData n = emitRawData s := by
    rw [emitRawData, hemit, hpacket, emitRawData]
  have hlength : emitGroupLength n = emitGroupLength s := by
    rw [emitGroupLength, hemit, hgroups, emitGroupLength]
  refine ⟨?_, ?_, ?_⟩
  · rw [outputValid, hemit, outputValid]
  · rw [outputData, hemit, hraw, hlength, outputData]
  · rw [outputLast, hemit, outputLast]

/-- An offered byte stays until it is taken. -/
theorem Tracks.output_stable (h : Tracks maxPayload items out s done committed final)
    (hi : i.resetN = true) (hvalid : outputValid s = true) (hready : i.outputReady = false) :
    outputValid (step maxPayload i s) = true ∧
      outputData (step maxPayload i s) = outputData s ∧
      outputLast (step maxPayload i s) = outputLast s := by
  have hidle : s.emit.state ≠ .E_IDLE := by
    intro hstate
    rw [outputValid, hstate] at hvalid
    contradiction
  have hstep : step maxPayload i s = loaded maxPayload i s := by
    rw [step, hi]
    exact emitUpdate_stall hidle hready
  have hemission := h.emitter
  have hbanks := h.banks
  cases hemission with
  | idle _ state sent => exact absurd state hidle
  | active p later rest bank emitting sent =>
    obtain ⟨hvalid', hdata, hlast⟩ :=
      (@undisturbed_loaded maxPayload i s h.free bank hbanks.next_full.1).output
    rw [hstep]
    exact ⟨hvalid'.trans hvalid, hdata, hlast⟩

/-- The byte on the output is marked last exactly when it is a zero. -/
theorem Tracks.last_iff (h : Tracks maxPayload items out s done committed final) :
    outputLast s = true ↔ outputValid s = true ∧ outputData s = 0 := by
  have hemission := h.emitter
  cases hemission with
  | idle _ state sent =>
    rw [outputLast, outputValid, state]
    exact ⟨fun hlast => by contradiction, fun hboth => by cases hboth.1⟩
  | active p later rest bank emitting sent =>
    rw [emitting.last_iff, outputValid_of_active emitting.not_idle]
    exact ⟨fun hzero => ⟨rfl, hzero⟩, fun hboth => hboth.2⟩

theorem flagged_map_fst (ps : List Packet) : (flagged ps).map Prod.fst = ps.flatMap frame := by
  rw [flagged, List.map_flatMap]
  apply List.flatMap_congr
  intro p _
  exact Packets.markLast_map_fst _

/-- Whole frames end with a delimiter. -/
theorem last_of_flagged {ps : List Packet} {front : List (UInt8 × Bool)} {x : UInt8 × Bool}
    (h : flagged ps = front ++ [x]) : x = (0, true) := by
  cases ps using List.reverseRecOn with
  | nil => exact absurd h.symm (List.append_ne_nil_of_right_ne_nil _ (List.cons_ne_nil _ _))
  | append_singleton ps p =>
    rw [flagged_concat, frame, Packets.markLast_concat, ← List.append_assoc] at h
    exact (List.singleton_injective (List.append_inj_right' h rfl)).symm

theorem Emitting.ends {rest : List UInt8} (h : Emitting s rest) : ∃ front, rest = front ++ [0] := by
  cases h with
  | code g gs => exact ⟨_, rfl⟩
  | data b d g gs => exact ⟨_, rfl⟩
  | delimiter state => exact ⟨[], rfl⟩

/-- What has come out are whole frames and a part of the next one, without its delimiter. -/
theorem Emission.whole_frames (h : Emission s out done committed) :
    ∃ part : List UInt8, (∀ b ∈ part, b ≠ 0) ∧
      out = flagged done ++ part.map fun b => (b, false) := by
  cases h with
  | idle _ state sent => exact ⟨[], fun _ hb => absurd hb List.not_mem_nil, by simpa using sent⟩
  | active p later rest bank emitting sent =>
    obtain ⟨front, rfl⟩ := emitting.ends
    rw [flagged_concat, frame, Packets.markLast_concat, Packets.markLast_concat,
      ← List.append_assoc, ← List.append_assoc] at sent
    have hbytes := List.append_cancel_right sent
    obtain ⟨extra, hdone, hfront⟩ | ⟨sentPart, hout, hpart⟩ := List.append_eq_append_iff.mp hbytes
    · -- the frames before this one have come out, as their last byte is marked
      cases extra using List.reverseRecOn with
      | nil =>
        rw [List.append_nil] at hdone
        exact ⟨[], fun _ hb => absurd hb List.not_mem_nil, by simpa using hdone.symm⟩
      | append_singleton extra x =>
        rw [← List.append_assoc] at hdone
        have hx : x ∈ front.map fun b => (b, false) := by
          rw [hfront]
          simp
        obtain ⟨b, -, hb⟩ := List.mem_map.mp hx
        rw [last_of_flagged hdone] at hb
        cases hb
    · obtain ⟨part, left, hencode, rfl, -⟩ := List.map_eq_append_iff.mp hpart
      refine ⟨part, ?_, hout⟩
      intro b hb
      apply Cobs.encode_ne_zero (raw p)
      rw [hencode]
      exact List.mem_append_left _ hb

/-! ### What is still to come out -/

def loadPhase : LoadState → ℕ
  | .L_FINALIZE => 2
  | .L_CHECKSUM => 3
  | .L_FIRST_DATA => 4
  | .L_ACCEPT => 5

/-- The number of edges until the emitter offers a byte, provided that it has a frame to
send. -/
def phase (s : State) : ℕ :=
  if s.emit.state ≠ .E_IDLE then 0
  else if s.bankFull s.emit.nextEncodeBank then 1
  else loadPhase s.load.state

theorem phase_of_active (hstate : s.emit.state ≠ .E_IDLE) : phase s = 0 := by
  rw [phase, if_pos hstate]

theorem phase_of_full (hstate : s.emit.state = .E_IDLE)
    (hfull : s.bankFull s.emit.nextEncodeBank = true) : phase s = 1 := by
  rw [phase, if_neg (fun hne => hne hstate), if_pos hfull]

theorem phase_of_empty (hstate : s.emit.state = .E_IDLE)
    (hempty : s.bankFull s.emit.nextEncodeBank = false) : phase s = loadPhase s.load.state := by
  rw [phase, if_neg (fun hne => hne hstate), hempty, if_neg Bool.false_ne_true]

theorem phase_le (s : State) : phase s ≤ 5 := by
  rw [phase]
  split_ifs
  · omega
  · omega
  · cases s.load.state <;> decide

/-- A packet on its way to a bank gets one phase further. -/
theorem phase_loaded {cur : Packet} {final : List Packet} (hloader : Loading maxPayload s cur final)
    (hfinal : final ≠ []) (hidle : s.emit.state = .E_IDLE)
    (hempty : s.bankFull s.emit.nextEncodeBank = false)
    (hbank : s.load.bank = s.emit.nextEncodeBank) :
    phase (loaded maxPayload i s) < phase s := by
  obtain ⟨hemit, hsame, -⟩ := loaded_frame maxPayload i s
  have hidle' : (loaded maxPayload i s).emit.state = .E_IDLE := by rwa [hemit]
  rw [phase_of_empty hidle hempty]
  cases hloader with
  | empty => contradiction
  | filling => contradiction
  | dropping => contradiction
  | first => contradiction
  | only x state keeping closed data sum stored =>
    have hnext : (loaded maxPayload i s).load.state = .L_CHECKSUM := by
      rw [loaded, loadUpdate, state]
      dsimp only
      rw [if_pos closed]
    have hempty' := hempty
    rw [← (hsame (by rw [state]; decide)).1, ← hemit] at hempty'
    rw [phase_of_empty hidle' hempty', hnext, state]
    decide
  | checksum p state nonempty keeping sum stored =>
    have hnext : (loaded maxPayload i s).load.state = .L_FINALIZE := by
      rw [loaded, loadUpdate, state]
    have hempty' := hempty
    rw [← (hsame (by rw [state]; decide)).1, ← hemit] at hempty'
    rw [phase_of_empty hidle' hempty', hnext, state]
    decide
  | finalize p state nonempty keeping stored =>
    obtain ⟨-, -, -, -, -, -, hfull⟩ :=
      (Loading.finalize p state nonempty keeping stored).fill (i := i) state
    rw [phase_of_full hidle' (by rw [hfull, hemit, hbank, Function.update_self]), state]
    decide

/-- An idle emitter with a frame to send gets one phase further. -/
theorem Tracks.phase_step (h : Tracks maxPayload items out s done committed final)
    (hi : i.resetN = true) (hidle : s.emit.state = .E_IDLE) (hmore : committed ++ final ≠ []) :
    phase (step maxPayload i s) < phase s := by
  have hstep : step maxPayload i s = emitUpdate i s (loaded maxPayload i s) := by
    rw [step, hi]
    rfl
  have hbanks := h.banks
  have hemit := (loaded_frame maxPayload i s).1
  rw [hstep, emitUpdate, hidle]
  dsimp only
  cases hfull : s.bankFull s.emit.nextEncodeBank with
  | true =>
    rw [phase_of_full hidle hfull, phase_of_active (by simp)]
    exact Nat.one_pos
  | false =>
    rw [if_neg Bool.false_ne_true]
    cases hbanks with
    | none empty bank =>
      rw [List.nil_append] at hmore
      exact phase_loaded h.loader hmore hidle hfull bank
    | one p full empty holds bank =>
      rw [full] at hfull
      contradiction
    | two p q full holds holds' bank =>
      rw [full] at hfull
      contradiction

/-- An edge at which the sink is ready or nothing is offered brings the byte behind the first
`out.length` bytes nearer, and no other edge takes it away. -/
theorem Tracks.progress (h : Tracks maxPayload items out s done committed final)
    (hi : i.resetN = true) {bytes : ℕ} (hless : out.length < bytes)
    (hbytes : bytes ≤ (flagged (kept maxPayload items)).length) :
    6 * (bytes - (out ++ handedOver i s).length) + phase (step maxPayload i s) ≤
        6 * (bytes - out.length) + phase s ∧
      (outputValid s = false ∨ i.outputReady = true →
        6 * (bytes - (out ++ handedOver i s).length) + phase (step maxPayload i s) <
          6 * (bytes - out.length) + phase s) := by
  have hsplit := h.split
  have hemission := h.emitter
  cases hemission with
  | idle _ state sent =>
    have hmore : committed ++ final ≠ [] := by
      intro hnil
      rw [List.append_assoc, hnil, List.append_nil] at hsplit
      rw [hsplit, ← sent] at hbytes
      omega
    have hphase := h.phase_step hi state hmore
    rw [handedOver_of_idle state, List.append_nil]
    exact ⟨by omega, fun _ => by omega⟩
  | active p later rest bank emitting sent =>
    rw [phase_of_active emitting.not_idle]
    cases hready : i.outputReady with
    | false =>
      have hstep : step maxPayload i s = loaded maxPayload i s := by
        rw [step, hi]
        exact emitUpdate_stall emitting.not_idle hready
      have hactive : (loaded maxPayload i s).emit.state ≠ .E_IDLE := by
        rw [(loaded_frame maxPayload i s).1]
        exact emitting.not_idle
      rw [handedOver_of_stall hready, List.append_nil, hstep, phase_of_active hactive]
      refine ⟨Nat.le_refl _, ?_⟩
      rw [outputValid_of_active emitting.not_idle]
      intro hgo
      simp at hgo
    | true =>
      have hone : (out ++ handedOver i s).length = out.length + 1 := by
        rw [handedOver, outputFire, outputValid_of_active emitting.not_idle, hready,
          List.length_append]
        rfl
      have hphase := phase_le (step maxPayload i s)
      rw [hone]
      exact ⟨by omega, fun _ => by omega⟩

/-- Every frame comes out if the sink is ready some time after each offer. -/
theorem eventually_sent (hmax : 1 ≤ maxPayload) (s₀ : State) {inp : ℕ → Input}
    (hreset : ∀ t, (inp t).resetN = true)
    (hready : ∀ t, outputValid ((run maxPayload s₀ inp).state t) = true →
      ∃ u, t ≤ u ∧ (inp u).outputReady = true) (t : ℕ) :
    ∃ u, t ≤ u ∧ flagged (kept maxPayload ((run maxPayload s₀ inp).record accepted t)) <+:
      (run maxPayload s₀ inp).record handedOver u := by
  let r := run maxPayload s₀ inp
  let target := flagged (kept maxPayload (r.record accepted t))
  have hgrows : ∀ k, target <+: flagged (kept maxPayload (r.record accepted (t + k))) :=
    fun k => flagged_kept_mono r (Nat.le_add_right t k)
  obtain ⟨k, -, hlength, -⟩ := @Clocked.eventually
    (fun k => target.length ≤ (r.record handedOver (t + k)).length)
    (fun k => 6 * (target.length - (r.record handedOver (t + k)).length) + phase (r.state (t + k)))
    (fun k => outputValid (r.state (t + k)) = false ∨ (inp (t + k)).outputReady = true)
    (by
      intro k
      cases hvalid : outputValid (r.state (t + k)) with
      | false => exact ⟨k, Nat.le_refl k, .inl hvalid⟩
      | true =>
        obtain ⟨u, hu, hgo⟩ := hready (t + k) hvalid
        obtain ⟨m, rfl⟩ := Nat.exists_eq_add_of_le hu
        rw [Nat.add_assoc] at hgo
        exact ⟨k + m, Nat.le_add_right k m, .inr hgo⟩)
    (by
      intro k hless
      obtain ⟨done, committed, final, htracks⟩ := tracks_run hmax s₀ hreset (t + k)
      exact .inr (htracks.progress (hreset (t + k)) (Nat.lt_of_not_le hless) (hgrows k).length_le))
    0
  obtain ⟨done, committed, final, htracks⟩ := tracks_run hmax s₀ hreset (t + k)
  exact ⟨t + k, Nat.le_add_right t k,
    List.prefix_of_prefix_length_le (hgrows k) htracks.flagged_prefix hlength⟩

end

/-- **The encoder makes the frames of the host model.** At every time after a reset, whatever
comes in and however the sink stalls: the bytes that have been handed over, each with its last
flag, are the front of the host's frames of the completed packets that are not too long, in
order, and so are they with the byte that is offered; exactly the zero that delimits a frame is
marked last; and an offered byte stays until it is taken. When the sink is ready some time after
each offer, all of these frames come out. -/
theorem encoder_refines (maxPayload : ℕ) (hmax : 1 ≤ maxPayload) (s₀ : State) (inp : ℕ → Input)
    (hreset : ∀ t, (inp t).resetN = true) :
    (∀ t, let s := (run maxPayload s₀ inp).state t
      let out := (run maxPayload s₀ inp).record handedOver t
      (∃ frames, hostFrames maxPayload ((run maxPayload s₀ inp).record accepted t) = .ok frames ∧
        out <+: frames.flatMap Packets.markLast ∧
        (outputValid s = true →
          out ++ [(outputData s, outputLast s)] <+: frames.flatMap Packets.markLast)) ∧
      (outputLast s = true ↔ outputValid s = true ∧ outputData s = 0) ∧
      (outputValid s = true → (inp t).outputReady = false →
        let s' := (run maxPayload s₀ inp).state (t + 1)
        outputValid s' = true ∧ outputData s' = outputData s ∧ outputLast s' = outputLast s)) ∧
    ((∀ t, outputValid ((run maxPayload s₀ inp).state t) = true →
        ∃ u, t ≤ u ∧ (inp u).outputReady = true) → ∀ t, ∃ u, t ≤ u ∧ ∃ frames,
      hostFrames maxPayload ((run maxPayload s₀ inp).record accepted t) = .ok frames ∧
        frames.flatMap Packets.markLast <+: (run maxPayload s₀ inp).record handedOver u) := by
  constructor
  · intro t s out
    obtain ⟨done, committed, final, htracks⟩ := tracks_run hmax s₀ hreset t
    obtain ⟨frames, hframes, hflagged⟩ :=
      hostFrames_eq maxPayload ((run maxPayload s₀ inp).record accepted t)
    refine ⟨⟨frames, hframes, ?_, ?_⟩, htracks.last_iff, ?_⟩
    · rw [hflagged]
      exact htracks.flagged_prefix
    · intro hvalid
      rw [hflagged]
      exact htracks.offered_prefix hvalid
    · intro hvalid hready
      exact htracks.output_stable (hreset t) hvalid hready
  · intro hready t
    obtain ⟨frames, hframes, hflagged⟩ :=
      hostFrames_eq maxPayload ((run maxPayload s₀ inp).record accepted t)
    obtain ⟨u, htu, hsent⟩ := eventually_sent hmax s₀ hreset hready t
    rw [← hflagged] at hsent
    exact ⟨u, htu, frames, hframes, hsent⟩

/-- A packet of one zero byte on channel 1, offered again and again to a sink that is always
ready: its frame comes out. -/
theorem encoder_refines_zero_byte :
    let inp : ℕ → Input := fun _ => ⟨true, 1, 0, true, true, true⟩
    let s₀ : State := ⟨fun _ _ => 0, fun _ _ => 0, fun _ => 0, fun _ => false,
      ⟨false, .L_ACCEPT, 0, 0, 0, 0, 0, 0, false, false⟩, ⟨.E_IDLE, false, false, 0, 0, 0⟩,
      false, 0, 0⟩
    1 ≤ 16 ∧ (∀ t, (inp t).resetN = true) ∧ ∃ u, 1 ≤ u ∧
      [(2, false), (1, false), (2, false), (0xff, false), (0, true)] <+:
        (run 16 s₀ inp).record handedOver u := by
  intro inp s₀
  refine ⟨by decide, fun _ => rfl, ?_⟩
  obtain ⟨u, hu, frames, hframes, hsent⟩ :=
    (encoder_refines 16 (by decide) s₀ inp fun _ => rfl).2 (fun t _ => ⟨t, Nat.le_refl t, rfl⟩) 1
  have honly : hostFrames 16 ((run 16 s₀ inp).record accepted 1) = .ok [[2, 1, 2, 0xff, 0]] := by
    decide +kernel
  rw [honly] at hframes
  cases hframes
  exact ⟨u, hu, hsent⟩

end OrbflowEncoder
