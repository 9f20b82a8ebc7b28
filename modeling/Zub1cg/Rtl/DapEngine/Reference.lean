import Zub1cg.Rtl.DapEngine.Exchange
import Zub1cg.Model.SyntheticDap

/-!
# The packet engine and its reference

Without a target the engine answers a request at once, except for a DAP_Transfer, whose
transfers it works through one by one. `SyntheticDap` is the reference for both.

## Main definitions

- `plainReply` — the response to a request that is not a DAP_Transfer
- `Loops` — the engine in front of a transfer, and the reference's loop there

## Main results

- `transfers_agree` — DAP_Transfer
- `plain_agrees_iff` — all other requests
-/

namespace DapEngine

open MemoryRegion (Stored)
open Packets (markLast)
open Model (SyntheticDap)
open Model.SyntheticDap (TransferLoop transferLoop)

/-! ### Requests without transfers -/

/-- The response of a command that needs no further state, from the header of its request. -/
def headerReply (length : ℕ) (command argument data : UInt8) : List UInt8 :=
  match command.toNat with
  | 0x00 => if length > 1 && argument == 0x01 then command :: 7 :: SyntheticDap.ORBCODE else [command, 0]
  | 0x02 => [command, if length > 1 then argument &&& 0x03 else 0]
  | 0x07 => [command, 0]
  | 0x08 => [command, 0]
  | 0x10 => [command, if length > 1 then argument else 0]
  | 0x14 => [command, 0, if length > 3 then data ^^^ 0x01 else 0]
  | _ => [command, 0xff]

/-- The response to a request that is not a DAP_Transfer, without a target. -/
def plainReply (request : List UInt8) : List UInt8 :=
  headerReply request.length (byteAt request 0) (byteAt request 1) (byteAt request 3)

/-- Whether a command is counted as an abort. -/
def isAbort (command : UInt8) : Bool := command.toNat == 0x07 || command.toNat == 0x08

/-- The pins that DAP_SWJ_Pins drives. -/
def plainPins (request : List UInt8) (real : Bool) : List (Pin × Bool) :=
  if byteAt request 0 = 0x10 ∧ real = true ∧ request.length > 1 then
    [(.ntrst, (byteAt request 1).toBitVec.getLsbD 5),
      (.nreset, (byteAt request 1).toBitVec.getLsbD 7)]
  else []

/-- What an exchange without transfers leaves behind. -/
def plainOutcome (s₀ : State) (request : List UInt8) (real : Bool) : Outcome where
  reply := plainReply request
  pins := plainPins request real
  transferCount := s₀.transferCount
  abortCount := if isAbort (byteAt request 0) then s₀.abortCount + 1 else s₀.abortCount

theorem getD_of_lt {bytes : List UInt8} {k : ℕ} (hk : k < bytes.length) (old : UInt8) :
    bytes.getD k old = byteAt bytes k := by
  simp [byteAt, List.getD_eq_getElem?_getD, hk]

/-- Only the bytes that have come count. -/
theorem headerReply_congr {length : ℕ} {command a a' d d' : UInt8} (ha : 1 < length → a = a')
    (hd : 3 < length → d = d') : headerReply length command a d = headerReply length command a' d' := by
  by_cases h1 : 1 < length
  · rw [ha h1]
    by_cases h3 : 3 < length
    · rw [hd h3]
    · simp only [headerReply, gt_iff_lt, h3, if_false]
  · simp only [headerReply, gt_iff_lt, h1, show ¬ 3 < length by omega, decide_false, Bool.false_and,
      Bool.false_eq_true, if_false]

theorem headerReply_ne_nil (length : ℕ) (command a d : UInt8) : headerReply length command a d ≠ [] := by
  rw [headerReply]
  split
  · split <;> exact List.cons_ne_nil _ _
  all_goals exact List.cons_ne_nil _ _

/-- A list written from address 0 on. -/
theorem stored_store (mem : ℕ → UInt8) (bytes : List UInt8) :
    Stored (store mem (bytes.zipIdx.map Prod.swap)) 0 bytes := by
  induction bytes using List.reverseRecOn with
  | nil => trivial
  | append_singleton bytes b ih =>
    rw [List.zipIdx_append, List.map_append, store, List.foldl_append]
    rw [Nat.zero_add]
    exact ih.concat (Nat.zero_add _).symm b

/-- Four writes right behind a list. -/
theorem stored_four {mem : ℕ → UInt8} {bytes : List UInt8} (h : Stored mem 0 bytes)
    (a b c d : UInt8) :
    Stored (store mem [(bytes.length, a), (bytes.length + 1, b), (bytes.length + 2, c),
      (bytes.length + 3, d)]) 0 (bytes ++ [a, b, c, d]) := by
  have ha := h.concat (Nat.zero_add _).symm a
  have hb := ha.concat (show bytes.length + 1 = _ by simp) b
  have hc := hb.concat (show bytes.length + 2 = _ by simp) c
  have hd := hc.concat (show bytes.length + 3 = _ by simp) d
  simpa [store] using hd

section

variable {s₀ s : State} {request : List UInt8} {i : Input}

theorem Captured.command (h : Captured s₀ request s) (hrequest : request ≠ []) :
    s.headerCommand = byteAt request 0 := by
  rw [h.headerCommand, getD_of_lt (List.length_pos_of_ne_nil hrequest)]

/-- The edge in `PREPARE`. -/
theorem step_prepare (hi : i.resetN = true) (hs : s.state = .PREPARE) :
    step i s = prepareUpdate i s
      { s with requestReadData := s.requestMem s.requestReadAddress, debugComplete := false } := by
  rw [step_released hi, phaseUpdate, hs]

/-- Without a transfer and without a clock only the response is written, and perhaps the resets
are driven. -/
theorem prepareResponse_plain (hcommand : s.headerCommand.toNat ≠ 0x05)
    (hclock : ¬ (s.headerCommand.toNat = 0x14 ∧ i.useRealTarget = true))
    (n : State) (hn : n.abortCount = s.abortCount) :
    prepareResponse i s n =
      let reply := headerReply s.requestLength s.headerCommand s.headerArgument s.headerData
      let resets := s.headerCommand.toNat = 0x10 ∧ i.useRealTarget = true ∧ s.requestLength > 1
      { n with
        responseMem := store s.responseMem (reply.zipIdx.map Prod.swap)
        responseLength := reply.length
        abortCount := if isAbort s.headerCommand then s.abortCount + 1 else s.abortCount
        jtagNtrst := if resets then s.headerArgument.toBitVec.getLsbD 5 else n.jtagNtrst
        jtagNreset := if resets then s.headerArgument.toBitVec.getLsbD 7 else n.jtagNreset } := by
  rw [prepareResponse, headerReply, isAbort]
  split
  · next hc =>
    rw [hc]
    split <;> simp [hn, SyntheticDap.ORBCODE]
  · next hc => simp [hc, hn]
  · next hc => exact absurd hc hcommand
  · next hc => simp [hc]
  · next hc => simp [hc]
  · next hc =>
    by_cases hresets : i.useRealTarget = true ∧ s.requestLength > 1
    · simp [hc, hn, hresets]
    · simp [hc, hn, hresets]
  · next hc =>
    have hreal : i.useRealTarget = false := Bool.eq_false_iff.mpr fun hreal => hclock ⟨hc, hreal⟩
    simp [hc, hn, hreal]
  · next h0 h2 h5 h7 h8 h10 h14 =>
    have hcount : (s.headerCommand.toNat == 0x07 || s.headerCommand.toNat == 0x08) = false :=
      Bool.or_eq_false_iff.mpr ⟨beq_eq_false_iff_ne.mpr h7, beq_eq_false_iff_ne.mpr h8⟩
    have hten : ¬ s.headerCommand.toNat = 16 := h10
    simp [hn, hcount, hten]

/-- A request without transfers and without a clock is answered at once. -/
theorem Prepares.plain (h : Prepares s₀ request s) (hi : i.resetN = true) (hrequest : request ≠ [])
    (hcommand : byteAt request 0 ≠ 0x05)
    (hclock : ¬ (byteAt request 0 = 0x14 ∧ i.useRealTarget = true)) :
    Responds (plainOutcome s₀ request i.useRealTarget) 0 (step i s) ∧
      pinWrites i s = (plainOutcome s₀ request i.useRealTarget).pins := by
  have hheader := h.toCaptured.command hrequest
  have hnot : s.headerCommand ≠ 0x05 := hheader ▸ hcommand
  have hclock' : ¬ (s.headerCommand.toNat = 0x14 ∧ i.useRealTarget = true) := fun hboth =>
    hclock ⟨hheader ▸ UInt8.toNat_inj.mp hboth.1, hboth.2⟩
  have hreply : headerReply s.requestLength s.headerCommand s.headerArgument s.headerData =
      plainReply request := by
    rw [plainReply, h.requestLength, hheader]
    refine headerReply_congr (fun h1 => ?_) (fun h3 => ?_)
    · rw [h.headerArgument, getD_of_lt h1]
    · rw [h.headerData, getD_of_lt h3]
  refine ⟨?_, ?_⟩
  · rw [step_prepare hi h.state]
    unfold prepareUpdate
    extract_lets n
    have hn : n = _ := prepareResponse_plain (fun hc => hnot (UInt8.toNat_inj.mp hc)) hclock' _ rfl
    have hsetup : ¬ (s.headerCommand == 0x14 && i.useRealTarget) = true := by
      rw [hheader, Bool.and_eq_true, beq_iff_eq]
      exact hclock
    rw [if_neg hsetup, if_pos (by simp [hnot]), hn, hreply, hheader, h.counts.2]
    exact
      { state := rfl
        requestPos := h.requestPos
        responsePos := rfl
        responseLength := rfl
        more := List.length_pos_of_ne_nil (headerReply_ne_nil _ _ _ _)
        stored := stored_store _ _
        counts := ⟨h.counts.1, rfl⟩ }
  · have hsame : s.headerCommand.toNat = 0x10 ↔ byteAt request 0 = 0x10 := by
      rw [hheader]
      exact @UInt8.toNat_inj _ 0x10
    rw [pinWrites, h.state]
    show (if _ then _ else if _ then _ else _) = plainPins request i.useRealTarget
    rw [if_neg hclock', plainPins, h.requestLength]
    by_cases hresets : byteAt request 0 = 0x10 ∧ i.useRealTarget = true ∧ request.length > 1
    · rw [if_pos hresets, if_pos ⟨hsame.mpr hresets.1, hresets.2⟩, h.headerArgument,
        getD_of_lt hresets.2.2]
    · rw [if_neg hresets, if_neg fun h => hresets ⟨hsame.mp h.1, h.2⟩]

end

/-! ### Transfers -/

/-- The bit that tells a read from a write. -/
theorem byte_read_bit (x : UInt8) : x &&& 0x02 ≠ 0 ↔ x.toBitVec.getLsbD 1 = true := by
  rw [ne_eq, ← UInt8.toBitVec_inj]
  change ¬ x.toBitVec &&& BitVec.twoPow 8 1 = 0#8 ↔ _
  rw [BitVec.and_twoPow]
  cases x.toBitVec.getLsbD 1 <;> decide

/-- The word a read returns, byte by byte. -/
theorem read_word (transfer : UInt8) :
    u32ToLe (0xa5a50000 ||| transfer.toUInt32) = [transfer, 0x00, 0xa5, 0xa5] := by
  have hbyte := transfer.toNat_lt
  have hword : (0xa5a50000 ||| transfer.toUInt32).toNat = 0xa5a5 * 2 ^ 16 + transfer.toNat := by
    rw [UInt32.toNat_or, UInt8.toNat_toUInt32]
    exact (Nat.two_pow_add_eq_or_of_lt (show transfer.toNat < 2 ^ 16 by omega) 0xa5a5).symm
  rw [u32ToLe, hword]
  simp only [LittleEndian.ofNat, List.cons.injEq, and_true, ← UInt8.toNat_inj, UInt8.toNat_ofNat']
  refine ⟨?_, ?_, ?_, ?_⟩
  · omega
  · change _ = 0
    omega
  · change _ = 0xa5
    omega
  · change _ = 0xa5
    omega

/-- The engine in front of a transfer, with `n` transfers to go, and the variables `l` of the
reference's loop there. The reference has counted transfers from `first` on. -/
structure Loops (s₀ : State) (request : List UInt8) (first : UInt64) (n : ℕ) (l : TransferLoop)
    (s : State) : Prop where
  requestPos : s.requestPos = 0
  requestLength : s.requestLength = request.length
  stored : Stored s.requestMem 0 request
  count : s.headerCount.toNat = s.transferIndex + n
  position : s.transferRequestPos = l.requestPos
  address : s.requestReadAddress = l.requestPos
  out : Stored s.responseMem 0 l.out
  outputIndex : s.outputIndex = l.out.length
  longEnough : 3 ≤ l.out.length
  completed : UInt8.ofNat s.completedTransfers = l.completed
  responsePos : s.responsePos = 0
  transferCount : s.transferCount = s₀.transferCount + (l.transfers - first).toBitVec
  abortCount : s.abortCount = s₀.abortCount

/-- The state in which the engine is there: it fetches the byte of the transfer, or has it. -/
def AtTransfer (request : List UInt8) (n : ℕ) (l : TransferLoop) (s : State) : Prop :=
  s.state = .FETCH_TRANSFER ∨
    s.state = .BUILD_TRANSFER ∧
      (0 < n → ∀ h : l.requestPos < request.length, s.requestReadData = request[l.requestPos])

/-- What the transfers leave behind when the reference's loop ends with `result`. -/
def transferOutcome (s₀ : State) (first : UInt64) (result : List UInt8 × UInt64) : Outcome where
  reply := result.1
  pins := []
  transferCount := s₀.transferCount + (result.2 - first).toBitVec
  abortCount := s₀.abortCount

section

variable {s₀ s : State} {request : List UInt8} {i : Input} {first : UInt64} {n : ℕ}
  {l : TransferLoop}

theorem step_fetch (hi : i.resetN = true) (hs : s.state = .FETCH_TRANSFER) :
    step i s = { s with
      requestReadData := s.requestMem s.requestReadAddress
      debugComplete := false
      state := .BUILD_TRANSFER } := by
  rw [step_released hi, phaseUpdate, hs]

theorem step_build (hi : i.resetN = true) (hs : s.state = .BUILD_TRANSFER) :
    step i s = buildTransferUpdate s
      { s with requestReadData := s.requestMem s.requestReadAddress, debugComplete := false } := by
  rw [step_released hi, phaseUpdate, hs]

/-- The fetch brings the byte of the transfer. -/
theorem Loops.fetch (h : Loops s₀ request first n l s) (hi : i.resetN = true)
    (hs : s.state = .FETCH_TRANSFER) :
    Loops s₀ request first n l (step i s) ∧ (step i s).state = .BUILD_TRANSFER ∧
      AtTransfer request n l (step i s) := by
  rw [step_fetch hi hs]
  refine ⟨{ h with }, rfl, .inr ⟨rfl, fun _ hmore => ?_⟩⟩
  have hbyte := MemoryRegion.stored_iff_getElem.mp h.stored _ hmore
  rw [Nat.zero_add] at hbyte
  show s.requestMem s.requestReadAddress = _
  rw [h.address, hbyte]

/-- The response when the loop ends as it should. -/
theorem Loops.finished (h : Loops s₀ request first 0 l s) (hi : i.resetN = true)
    (hs : s.state = .BUILD_TRANSFER) :
    Responds (transferOutcome s₀ first (transferLoop request 0 l)) 0 (step i s) := by
  have hcount : s.transferIndex ≥ s.headerCount.toNat := by
    rw [h.count]
    exact Nat.le_refl _
  have hlong := h.longEnough
  rw [step_build hi hs, buildTransferUpdate, if_pos hcount, transferLoop, ← h.completed]
  refine
    { state := rfl
      requestPos := h.requestPos
      responsePos := h.responsePos
      responseLength := ?_
      more := ?_
      stored := ?_
      counts := ⟨h.transferCount, h.abortCount⟩ }
  · exact h.outputIndex.trans List.length_set.symm
  · show 0 < (l.out.set 1 _).length
    rw [List.length_set]
    omega
  · have hset := h.out.set 1 (UInt8.ofNat s.completedTransfers)
    rwa [Nat.zero_add] at hset

/-- The response of a request that ends too early; `transfers` are counted. -/
theorem Loops.cut_short (h : Loops s₀ request first n l s) (transfers : UInt64) {s' : State}
    (hstate : s'.state = .RESPOND) (hpos : s'.requestPos = s.requestPos)
    (hresponsePos : s'.responsePos = s.responsePos) (hlength : s'.responseLength = s.outputIndex)
    (hmem : s'.responseMem =
      store s.responseMem [(1, UInt8.ofNat s.completedTransfers), (2, 0x04)])
    (htransfers : s'.transferCount = s₀.transferCount + (transfers - first).toBitVec)
    (haborts : s'.abortCount = s.abortCount) :
    Responds (transferOutcome s₀ first (l.cutShort, transfers)) 0 s' := by
  have hlong := h.longEnough
  have hsame : l.cutShort.length = l.out.length := by
    rw [TransferLoop.cutShort, List.length_set, List.length_set]
  refine
    { state := hstate
      requestPos := hpos.trans h.requestPos
      responsePos := hresponsePos.trans h.responsePos
      responseLength := ?_
      more := ?_
      stored := ?_
      counts := ⟨htransfers, haborts.trans h.abortCount⟩ }
  · exact (hlength.trans h.outputIndex).trans hsame.symm
  · show 0 < l.cutShort.length
    omega
  · rw [hmem]
    have hset := (h.out.set 1 l.completed).set 2 0x04
    rw [Nat.zero_add, Nat.zero_add] at hset
    rw [h.completed]
    exact hset

/-- One transfer more has been counted. -/
theorem Loops.counted (h : Loops s₀ request first n l s) :
    s.transferCount + 1 = s₀.transferCount + (l.transfers + 1 - first).toBitVec := by
  rw [h.transferCount, UInt64.toBitVec_sub, UInt64.toBitVec_sub, UInt64.toBitVec_add]
  change _ + 1#64 = _ + (_ + 1#64 - _)
  grind

/-- There are transfers to go. -/
theorem Loops.more (h : Loops s₀ request first (n + 1) l s) :
    ¬ s.transferIndex ≥ s.headerCount.toNat := by
  rw [h.count]
  omega

/-- The byte of the next transfer has come. -/
theorem Loops.has_byte (h : Loops s₀ request first n l s) (hmore : l.requestPos < request.length) :
    ¬ s.transferRequestPos ≥ s.requestLength := by
  rw [h.position, h.requestLength]
  omega

/-- What a transfer that is done changes in the two counts of transfers. -/
theorem Loops.one_done (h : Loops s₀ request first (n + 1) l s) :
    s.headerCount.toNat = s.transferIndex + 1 + n ∧
      UInt8.ofNat (s.completedTransfers + 1) = l.completed + 1 := by
  refine ⟨by rw [h.count, Nat.add_right_comm]; rfl, ?_⟩
  rw [← h.completed]
  exact UInt8.ofNat_add _ _

theorem atTransfer_next (l : TransferLoop)
    (hstate : s.state = if 0 < n then .FETCH_TRANSFER else .BUILD_TRANSFER) :
    AtTransfer request n l s := by
  by_cases hn : 0 < n
  · exact .inl (hstate.trans (if_pos hn))
  · exact .inr ⟨hstate.trans (if_neg hn), fun hpos => absurd hpos hn⟩

/-- A read puts its byte and two more words of the pattern behind the response. -/
theorem Loops.read (h : Loops s₀ request first (n + 1) l s) (hi : i.resetN = true)
    (hs : s.state = .BUILD_TRANSFER) (hmore : l.requestPos < request.length)
    (hdata : s.requestReadData = request[l.requestPos])
    (hread : request[l.requestPos] &&& 0x02 ≠ 0) :
    let l' : TransferLoop :=
      { out := l.out ++ u32ToLe (0xa5a50000 ||| request[l.requestPos].toUInt32)
        requestPos := l.requestPos + 1
        completed := l.completed + 1
        transfers := l.transfers + 1 }
    Loops s₀ request first n l' (step i s) ∧ AtTransfer request n l' (step i s) := by
  intro l'
  have hbit : s.requestReadData.toBitVec.getLsbD 1 = true := by
    rw [hdata]
    exact (byte_read_bit _).mp hread
  have hstep : step i s =
      { s with
        requestReadData := s.requestMem s.requestReadAddress
        debugComplete := false
        transferCount := s.transferCount + 1
        completedTransfers := s.completedTransfers + 1
        transferIndex := s.transferIndex + 1
        responseMem := store s.responseMem [(s.outputIndex, s.requestReadData),
          (s.outputIndex + 1, 0x00), (s.outputIndex + 2, 0xa5), (s.outputIndex + 3, 0xa5)]
        outputIndex := s.outputIndex + 4
        transferRequestPos := s.transferRequestPos + 1
        requestReadAddress := s.transferRequestPos + 1
        state := if 0 < n then .FETCH_TRANSFER else .BUILD_TRANSFER } := by
    rw [step_build hi hs, buildTransferUpdate, if_neg h.more, if_neg (h.has_byte hmore), if_pos hbit, h.count]
    by_cases hn : 0 < n
    · rw [if_pos (by omega), if_pos hn]
    · rw [if_neg (by omega), if_neg hn, hs]
  rw [hstep]
  refine ⟨?_, atTransfer_next l' rfl⟩
  · refine
      { h with
        count := ?_
        position := congrArg (· + 1) h.position
        address := congrArg (· + 1) h.position
        out := ?_
        outputIndex := ?_
        longEnough := ?_
        completed := ?_
        transferCount := h.counted }
    · exact h.one_done.1
    · show Stored _ 0 (l.out ++ u32ToLe _)
      rw [read_word, hdata, h.outputIndex]
      exact stored_four h.out _ _ _ _
    · show s.outputIndex + 4 = (l.out ++ u32ToLe _).length
      rw [List.length_append, u32ToLe_length, h.outputIndex]
    · have hlong := h.longEnough
      show 3 ≤ (l.out ++ u32ToLe _).length
      rw [List.length_append]
      omega
    · exact h.one_done.2

/-- A write whose word has come is passed over. -/
theorem Loops.write (h : Loops s₀ request first (n + 1) l s) (hi : i.resetN = true)
    (hs : s.state = .BUILD_TRANSFER) (hmore : l.requestPos < request.length)
    (hdata : s.requestReadData = request[l.requestPos])
    (hwrite : ¬ request[l.requestPos] &&& 0x02 ≠ 0)
    (hword : l.requestPos + 1 + 4 ≤ request.length) :
    let l' : TransferLoop :=
      { l with
        requestPos := l.requestPos + 1 + 4
        completed := l.completed + 1
        transfers := l.transfers + 1 }
    Loops s₀ request first n l' (step i s) ∧ AtTransfer request n l' (step i s) := by
  intro l'
  have hbit : ¬ s.requestReadData.toBitVec.getLsbD 1 = true := by
    rw [hdata, ← byte_read_bit]
    exact hwrite
  have hroom : s.transferRequestPos + 4 < s.requestLength := by
    rw [h.position, h.requestLength]
    omega
  have hstep : step i s =
      { s with
        requestReadData := s.requestMem s.requestReadAddress
        debugComplete := false
        transferCount := s.transferCount + 1
        completedTransfers := s.completedTransfers + 1
        transferIndex := s.transferIndex + 1
        transferRequestPos := s.transferRequestPos + 5
        requestReadAddress := s.transferRequestPos + 5
        state := if 0 < n then .FETCH_TRANSFER else .BUILD_TRANSFER } := by
    rw [step_build hi hs, buildTransferUpdate, if_neg h.more, if_neg (h.has_byte hmore), if_neg hbit,
      if_pos hroom, h.count]
    by_cases hn : 0 < n
    · rw [if_pos (by omega), if_pos hn]
    · rw [if_neg (by omega), if_neg hn, hs]
  rw [hstep]
  refine ⟨?_, atTransfer_next l' rfl⟩
  · refine
      { h with
        count := ?_
        position := congrArg (· + 5) h.position
        address := congrArg (· + 5) h.position
        completed := ?_
        transferCount := h.counted }
    · exact h.one_done.1
    · exact h.one_done.2

/-- A request that ends before the next transfer. -/
theorem Loops.no_byte (h : Loops s₀ request first (n + 1) l s) (hi : i.resetN = true)
    (hs : s.state = .BUILD_TRANSFER) (hend : request.length ≤ l.requestPos) :
    Responds (transferOutcome s₀ first (l.cutShort, l.transfers)) 0 (step i s) := by
  have hpos : s.transferRequestPos ≥ s.requestLength := by
    rw [h.position, h.requestLength]
    exact hend
  rw [step_build hi hs, buildTransferUpdate, if_neg h.more, if_pos hpos]
  exact h.cut_short l.transfers rfl rfl rfl rfl rfl h.transferCount rfl

/-- A request that ends inside a write. -/
theorem Loops.no_word (h : Loops s₀ request first (n + 1) l s) (hi : i.resetN = true)
    (hs : s.state = .BUILD_TRANSFER) (hmore : l.requestPos < request.length)
    (hdata : s.requestReadData = request[l.requestPos])
    (hwrite : ¬ request[l.requestPos] &&& 0x02 ≠ 0)
    (hword : ¬ l.requestPos + 1 + 4 ≤ request.length) :
    Responds (transferOutcome s₀ first (l.cutShort, l.transfers + 1)) 0 (step i s) := by
  have hbit : ¬ s.requestReadData.toBitVec.getLsbD 1 = true := by
    rw [hdata, ← byte_read_bit]
    exact hwrite
  have hroom : ¬ s.transferRequestPos + 4 < s.requestLength := by
    rw [h.position, h.requestLength]
    omega
  rw [step_build hi hs, buildTransferUpdate, if_neg h.more, if_neg (h.has_byte hmore), if_neg hbit,
    if_neg hroom]
  exact h.cut_short (l.transfers + 1) rfl rfl rfl rfl rfl h.counted rfl

/-- **One round of the loop**, in the engine and in the reference. -/
theorem Loops.round (h : Loops s₀ request first n l s) (hi : i.resetN = true)
    (hs : s.state = .BUILD_TRANSFER)
    (hdata : 0 < n → ∀ h : l.requestPos < request.length, s.requestReadData = request[l.requestPos]) :
    (∃ n' l', n = n' + 1 ∧ Loops s₀ request first n' l' (step i s) ∧
      AtTransfer request n' l' (step i s) ∧
      transferLoop request n' l' = transferLoop request n l) ∨
    Responds (transferOutcome s₀ first (transferLoop request n l)) 0 (step i s) := by
  cases n with
  | zero => exact .inr (h.finished hi hs)
  | succ n =>
    rw [transferLoop]
    by_cases hmore : l.requestPos < request.length
    · have hbyte := hdata (Nat.zero_lt_succ n) hmore
      rw [List.getElem?_eq_getElem hmore]
      by_cases hread : request[l.requestPos] &&& 0x02 ≠ 0
      · obtain ⟨hnext, hstate⟩ := h.read hi hs hmore hbyte hread
        exact .inl ⟨n, _, rfl, hnext, hstate, (if_pos hread).symm⟩
      · by_cases hword : l.requestPos + 1 + 4 ≤ request.length
        · obtain ⟨hnext, hstate⟩ := h.write hi hs hmore hbyte hread hword
          refine .inl ⟨n, _, rfl, hnext, hstate, ?_⟩
          exact ((if_neg hread).trans (if_pos hword)).symm
        · refine .inr ?_
          show Responds (transferOutcome s₀ first (if _ then _ else if _ then _ else _)) 0 _
          rw [if_neg hread, if_neg hword]
          exact h.no_word hi hs hmore hbyte hread hword
    · rw [List.getElem?_eq_none (Nat.le_of_not_lt hmore)]
      exact .inr (h.no_byte hi hs (Nat.le_of_not_lt hmore))

/-- The variables of the reference's loop before the first transfer. -/
def firstLoop (parity : Bool) (first : UInt64) : TransferLoop where
  out := [0x05, 0, if parity then 0x09 else 0x01]
  requestPos := 3
  completed := 0
  transfers := first

/-- The header of the response to a DAP_Transfer, and the set-up of its loop. -/
theorem prepareResponse_transfer (hcommand : s.headerCommand = 0x05)
    (haccepted : transferRejected i s = false) (n : State) :
    prepareResponse i s n =
      { n with
        responseMem := store s.responseMem [(0, 0x05), (1, 0), (1, 0),
          (2, if i.forceParityError then 0x09 else 0x01)]
        outputIndex := 3
        transferIndex := 0
        transferRequestPos := 3
        requestReadAddress := 3
        completedTransfers := 0
        state := .FETCH_TRANSFER } := by
  rw [transferRejected, Bool.or_eq_false_iff, Bool.or_eq_false_iff] at haccepted
  obtain ⟨⟨hshort, hwait⟩, hfault⟩ := haccepted
  rw [prepareResponse, hcommand]
  show (if (_ || _) = true then _ else if i.forceWait = true then _
    else if i.forceFault = true then _ else _) = _
  rw [if_neg (Bool.eq_false_iff.mp hshort), if_neg (Bool.eq_false_iff.mp hwait),
    if_neg (Bool.eq_false_iff.mp hfault)]

/-- The edge that begins with the transfers of a request. -/
theorem Prepares.transfers (h : Prepares s₀ request s) (hi : i.resetN = true)
    (hcommand : byteAt request 0 = 0x05) (hlength : 3 ≤ request.length)
    (hcount : (byteAt request 2).toNat ≤ MAX_TRANSFERS) (hwait : i.forceWait = false)
    (hfault : i.forceFault = false) (first : UInt64) :
    Loops s₀ request first (byteAt request 2).toNat (firstLoop i.forceParityError first)
      (step i s) ∧ (step i s).state = .FETCH_TRANSFER := by
  have hheader : s.headerCommand = 0x05 := by
    rw [h.toCaptured.command (List.ne_nil_of_length_pos (by omega)), hcommand]
  have hgoal : s.headerCount = byteAt request 2 := by
    rw [h.headerCount, getD_of_lt (by omega)]
  have haccepted : transferRejected i s = false := by
    rw [transferRejected, hwait, hfault, Bool.or_false, Bool.or_false, h.requestLength, hgoal,
      Bool.or_eq_false_iff, decide_eq_false_iff_not, decide_eq_false_iff_not]
    omega
  have hstep : step i s =
      { s with
        requestReadData := s.requestMem s.requestReadAddress
        debugComplete := false
        responsePos := 0
        responseMem := store s.responseMem [(0, 0x05), (1, 0), (1, 0),
          (2, if i.forceParityError then 0x09 else 0x01)]
        outputIndex := 3
        transferIndex := 0
        transferRequestPos := 3
        requestReadAddress := 3
        completedTransfers := 0
        state := .FETCH_TRANSFER } := by
    rw [step_prepare hi h.state, prepareUpdate, prepareResponse_transfer hheader haccepted,
      haccepted, hheader]
    rfl
  rw [hstep]
  refine ⟨?_, rfl⟩
  exact
    { requestPos := h.requestPos
      requestLength := h.requestLength
      stored := h.stored
      count := (congrArg UInt8.toNat hgoal).trans (Nat.zero_add _).symm
      position := rfl
      address := rfl
      out := ⟨rfl, rfl, rfl, trivial⟩
      outputIndex := rfl
      longEnough := Nat.le_refl 3
      completed := rfl
      responsePos := rfl
      transferCount := by
        show s.transferCount = s₀.transferCount + (first - first).toBitVec
        rw [h.counts.1, UInt64.sub_self]
        exact (BitVec.add_zero _).symm
      abortCount := h.counts.2 }

section

variable (s₀ : State) (request : List UInt8) (parity : Bool) (first : UInt64)

/-- What the loop over the transfers of a request ends with -/
def transferResult : List UInt8 × UInt64 :=
  transferLoop request (byteAt request 2).toNat (firstLoop parity first)

/-- The engine is in the loop over the transfers. -/
def Transferring (s : State) : Prop :=
  ∃ n l, Loops s₀ request first n l s ∧ AtTransfer request n l s ∧
    transferLoop request n l = transferResult request parity first

/-- There are two cycles for each transfer that is left, and the first of them comes first. -/
def transferRank (s : State) : ℕ :=
  2 * (s.headerCount.toNat - s.transferIndex) + if s.state = .FETCH_TRANSFER then 1 else 0

variable {s₀ request parity first} {i : Input} {s : State}

theorem Transferring.apart (h : Transferring s₀ request parity first s) :
    s.state ≠ .CAPTURE ∧ s.state ≠ .RESPOND ∧ s.state ≠ .PREPARE := by
  obtain ⟨n, l, -, hs | ⟨hs, -⟩, -⟩ := h <;> rw [hs] <;> decide

theorem Prepares.transferring (hcommand : byteAt request 0 = 0x05) (hlength : 3 ≤ request.length)
    (hcount : (byteAt request 2).toNat ≤ MAX_TRANSFERS) (hi : i.resetN = true)
    (hok : s.state = .PREPARE →
      i.forceWait = false ∧ i.forceFault = false ∧ i.forceParityError = parity)
    (h : Prepares s₀ request s) :
    Transferring s₀ request parity first (step i s) ∧ pinWrites i s ++ [] = [] := by
  obtain ⟨hwait, hfault, rfl⟩ := hok h.state
  obtain ⟨hloops, hs⟩ := h.transfers hi hcommand hlength hcount hwait hfault first
  refine ⟨⟨_, _, hloops, .inl hs, rfl⟩, ?_⟩
  rw [pinWrites, h.state, h.toCaptured.command (List.ne_nil_of_length_pos (by omega)), hcommand]
  rfl

/-- The engine goes on with the transfers, or answers. -/
theorem Transferring.step (hi : i.resetN = true) (h : Transferring s₀ request parity first s) :
    Transferring s₀ request parity first (step i s) ∧
        transferRank (step i s) < transferRank s ∧ pinWrites i s ++ [] = [] ∨
      Responds (transferOutcome s₀ first (transferResult request parity first)) 0
        (step i s) ∧ pinWrites i s = [] := by
  obtain ⟨n, l, h, hs | ⟨hs, hdata⟩, hresult⟩ := h
  · obtain ⟨hnext, hbuild, hat⟩ := h.fetch hi hs
    refine .inl ⟨⟨n, l, hnext, hat, hresult⟩, ?_, by rw [pinWrites, hs, List.append_nil]⟩
    have hbefore := h.count
    have hafter := hnext.count
    rw [transferRank, transferRank, hbuild, hs, if_neg Phase.noConfusion, if_pos rfl]
    omega
  · obtain ⟨n', l', rfl, hnext, hat, hsame⟩ | hresponds := h.round hi hs hdata
    · refine .inl ⟨⟨n', l', hnext, hat, hsame.trans hresult⟩, ?_,
        by rw [pinWrites, hs, List.append_nil]⟩
      have hbefore := h.count
      have hafter := hnext.count
      have hnot : ¬ s.state = .FETCH_TRANSFER := by
        rw [hs]
        decide
      rw [transferRank, transferRank, if_neg hnot]
      split <;> omega
    · exact .inr ⟨hresult ▸ hresponds, by rw [pinWrites, hs]⟩

end

/-- The engine at work on the transfers of a request. -/
def transferWork (s₀ : State) (parity : Bool) (first : UInt64)
    (hcommand : byteAt request 0 = 0x05) (hlength : 3 ≤ request.length)
    (hcount : (byteAt request 2).toNat ≤ MAX_TRANSFERS) :
    Work s₀ request
      (fun i s => s.state = .PREPARE →
        i.forceWait = false ∧ i.forceFault = false ∧ i.forceParityError = parity)
      (transferOutcome s₀ first
        (transferLoop request (byteAt request 2).toNat (firstLoop parity first))) where
  busy := Transferring s₀ request parity first
  rank := transferRank
  left _ := []
  apart := Transferring.apart
  begins hi hok h := .inl (h.transferring hcommand hlength hcount hi hok)
  goes_on hi _ h := h.step hi

/-! ### Against the reference -/

theorem legal_request (hrequest : request ≠ []) (hfits : request.length ≤ MAX_PACKET) :
    (request.isEmpty || request.length > Model.MAX_DAP_PACKET) = false := by
  rw [List.isEmpty_eq_false_iff.mpr hrequest]
  exact decide_eq_false (Nat.not_lt_of_le hfits)

theorem execute_transfer {d : SyntheticDap} (hcommand : byteAt request 0 = 0x05)
    (hlength : 3 ≤ request.length) (hfits : request.length ≤ MAX_PACKET)
    (hwait : d.waitOnce = false) (hfault : d.faultOnce = false) :
    d.execute request =
      let result := transferLoop request (byteAt request 2).toNat
        (firstLoop d.parityErrorOnce d.transfers)
      (.ok result.1, { d with parityErrorOnce := false, transfers := result.2 }) := by
  rw [SyntheticDap.execute, legal_request (List.ne_nil_of_length_pos (by omega)) hfits, hcommand]
  show SyntheticDap.transfer d request = _
  rw [SyntheticDap.transfer, if_neg (by omega), hwait, hfault]
  rfl

/-- The engine answers `request` as the reference does, counts as much and drives no pin. -/
def Agrees (d : SyntheticDap) (s₀ : State) (inp : ℕ → Input) (request : List UInt8) : Prop :=
  ∃ reply d', d.execute request = (.ok reply, d') ∧
    Answers s₀ inp request
      { reply := reply
        pins := []
        transferCount := s₀.transferCount + (d'.transfers - d.transfers).toBitVec
        abortCount := s₀.abortCount + (d'.aborts - d.aborts).toBitVec }

/-- **DAP_Transfer.** The transfers of a request are answered as the reference answers them. -/
theorem transfers_agree (d : SyntheticDap) (hwait : d.waitOnce = false)
    (hfault : d.faultOnce = false) (hcommand : byteAt request 0 = 0x05)
    (hlength : 3 ≤ request.length) (hfits : request.length ≤ MAX_PACKET)
    (hcount : (byteAt request 2).toNat ≤ MAX_TRANSFERS) (hidle : Idle s₀) (inp : ℕ → Input)
    (hreset : ∀ t, (inp t).resetN = true)
    (hforce : ∀ t, ((run s₀ inp).state t).state = .PREPARE →
      (inp t).forceWait = false ∧ (inp t).forceFault = false ∧
        (inp t).forceParityError = d.parityErrorOnce) :
    Agrees d s₀ inp request := by
  have hne : request ≠ [] := List.ne_nil_of_length_pos (by omega)
  let w := transferWork s₀ d.parityErrorOnce d.transfers hcommand hlength hcount
  have hanswers := w.answers hreset hidle hne hforce
  refine ⟨_, _, execute_transfer hcommand hlength hfits hwait hfault, ?_⟩
  simpa [transferOutcome] using hanswers

theorem transfers_agree_mixed :
    Answers resetState (offer [5, 0, 2, 0, 1, 2, 3, 4, 2] noFlags false)
      [5, 0, 2, 0, 1, 2, 3, 4, 2]
      { reply := [5, 2, 1, 2, 0, 0xa5, 0xa5], pins := [], transferCount := 2, abortCount := 0 } := by
  obtain ⟨reply, d', hexecute, hanswers⟩ :=
    @transfers_agree resetState [5, 0, 2, 0, 1, 2, 3, 4, 2] SyntheticDap.default rfl rfl rfl
      (by decide) (by decide) (by decide) ⟨rfl, rfl⟩
      (offer [5, 0, 2, 0, 1, 2, 3, 4, 2] noFlags false)
      (fun _ => rfl) fun _ _ => ⟨rfl, rfl, rfl⟩
  cases hexecute
  exact hanswers

/-- The reference's response to a request that is not a DAP_Transfer. -/
def referenceReply (request : List UInt8) : List UInt8 :=
  let command := byteAt request 0
  match command.toNat with
  | 0x00 => SyntheticDap.information request
  | 0x02 => [0x02, SyntheticDap.get request 1 &&& 0x03]
  | 0x07 => [command, 0]
  | 0x08 => [command, 0]
  | 0x10 => [0x10, SyntheticDap.get request 1]
  | 0x14 => [0x14, 0, SyntheticDap.get request 3 ^^^ 1]
  | _ => [command, 0xff]

/-- The requests that the reference answers in another way. -/
def Differs (request : List UInt8) : Prop :=
  byteAt request 0 = 0x00 ∧ request[1]? = some 0x02 ∨ byteAt request 0 = 0x14 ∧ request.length ≤ 3

/-- The commands that are told apart. -/
theorem command_cases {command : UInt8} (h5 : command ≠ 0x05) :
    command = 0x00 ∨ command = 0x02 ∨ command = 0x07 ∨ command = 0x08 ∨ command = 0x10 ∨
      command = 0x14 ∨ ∀ k ∈ [0x00, 0x02, 0x05, 0x07, 0x08, 0x10, 0x14], command.toNat ≠ k := by
  by_contra! hnone
  obtain ⟨h0, h2, h7, h8, h10, h14, k, hk, rfl⟩ := hnone
  simp only [List.mem_cons, List.not_mem_nil, or_false] at hk
  obtain hk | hk | hk | hk | hk | hk | hk := hk
  · exact h0 (UInt8.toNat_inj.mp hk)
  · exact h2 (UInt8.toNat_inj.mp hk)
  · exact h5 (UInt8.toNat_inj.mp hk)
  · exact h7 (UInt8.toNat_inj.mp hk)
  · exact h8 (UInt8.toNat_inj.mp hk)
  · exact h10 (UInt8.toNat_inj.mp hk)
  · exact h14 (UInt8.toNat_inj.mp hk)

theorem execute_plain (d : SyntheticDap) (hrequest : request ≠ [])
    (hfits : request.length ≤ MAX_PACKET) (hcommand : byteAt request 0 ≠ 0x05) :
    d.execute request = (.ok (referenceReply request), { d with
      aborts := if isAbort (byteAt request 0) then d.aborts + 1 else d.aborts }) := by
  rw [SyntheticDap.execute, legal_request hrequest hfits, if_neg Bool.false_ne_true, referenceReply]
  obtain h | h | h | h | h | h | h := command_cases hcommand
  · rw [h]; rfl
  · rw [h]; rfl
  · rw [h]; rfl
  · rw [h]; rfl
  · rw [h]; rfl
  · rw [h]; rfl
  · simp only [List.mem_cons, List.not_mem_nil, or_false, forall_eq_or_imp, forall_eq] at h
    simp [isAbort, h]

theorem get_one (request : List UInt8) :
    SyntheticDap.get request 1 = if request.length > 1 then byteAt request 1 else 0 := by
  by_cases h : request.length > 1
  · rw [if_pos h, SyntheticDap.get, byteAt, List.getD_eq_getElem?_getD]
  · rw [if_neg h, SyntheticDap.get, List.getElem?_eq_none (by omega)]
    rfl

/-- DAP_Info: the reference knows one identifier more. -/
theorem information_iff (h : byteAt request 0 = 0x00) :
    referenceReply request = plainReply request ↔ request[1]? ≠ some 0x02 := by
  rw [referenceReply, plainReply, h, byteAt, List.getD_eq_getElem?_getD]
  show SyntheticDap.information request =
    (if (_ && _) = true then _ else _) ↔ _
  rw [SyntheticDap.information, SyntheticDap.get]
  cases hbyte : request[1]? with
  | none =>
    have hshort : ¬ request.length > 1 := by
      have := List.getElem?_eq_none_iff.mp hbyte
      omega
    simp [hshort]
  | some b =>
    have hlong : request.length > 1 := (List.getElem?_eq_some_iff.mp hbyte).1
    simp only [Option.getD_some, hlong, decide_true, Bool.true_and, beq_iff_eq]
    split
    · next h1 =>
      have hb : b = 0x01 := UInt8.toNat_inj.mp h1
      simp [hb, SyntheticDap.ORBCODE]
    · next h2 =>
      have hb : b = 0x02 := UInt8.toNat_inj.mp h2
      simp [hb, SyntheticDap.ZUBOARD_ORBTRACE]
    · next h1 h2 =>
      have hb1 : b ≠ 0x01 := fun h => h1 (congrArg UInt8.toNat h)
      have hb2 : b ≠ 0x02 := fun h => h2 (congrArg UInt8.toNat h)
      simp [hb1, hb2]

/-- DAP_JTAG_Sequence: without data the engine answers 0 and the reference 1. -/
theorem sequence_iff (h : byteAt request 0 = 0x14) :
    referenceReply request = plainReply request ↔ 3 < request.length := by
  rw [referenceReply, plainReply, h]
  show [0x14, 0, SyntheticDap.get request 3 ^^^ 1] =
    [0x14, 0, if request.length > 3 then byteAt request 3 ^^^ 1 else 0] ↔ _
  by_cases hlong : request.length > 3
  · rw [if_pos hlong, SyntheticDap.get, byteAt, List.getD_eq_getElem?_getD]
    exact ⟨fun _ => hlong, fun _ => rfl⟩
  · rw [if_neg hlong, SyntheticDap.get, List.getElem?_eq_none (by omega)]
    exact ⟨fun heq => absurd heq (by decide), fun hlong' => absurd hlong' hlong⟩

/-- All other commands are answered alike. -/
theorem replies_equal_iff (hcommand : byteAt request 0 ≠ 0x05) :
    referenceReply request = plainReply request ↔ ¬ Differs request := by
  rw [Differs]
  obtain h | h | h | h | h | h | h := command_cases hcommand
  · rw [information_iff h, h]
    simp
  · rw [referenceReply, plainReply, h, get_one]
    refine ⟨fun _ => by simp, fun _ => ?_⟩
    show [_, _] = [_, _]
    by_cases hlong : request.length > 1 <;> simp [hlong]
  · rw [referenceReply, plainReply, h]
    simp
    rfl
  · rw [referenceReply, plainReply, h]
    simp
    rfl
  · rw [referenceReply, plainReply, h, get_one]
    simp
    rfl
  · rw [sequence_iff h, h]
    simp
  · simp only [List.mem_cons, List.not_mem_nil, or_false, forall_eq_or_imp, forall_eq] at h
    have h00 : byteAt request 0 ≠ 0x00 := fun h0 => h.1 (congrArg UInt8.toNat h0)
    have h14 : byteAt request 0 ≠ 0x14 := fun h0 => h.2.2.2.2.2.2 (congrArg UInt8.toNat h0)
    simp [referenceReply, plainReply, headerReply, h, h00, h14]

/-- A request without transfers and without a clock needs no work. -/
def plainWork (s₀ : State) (real : Bool) (hrequest : request ≠ [])
    (hcommand : byteAt request 0 ≠ 0x05) (hclock : ¬ (byteAt request 0 = 0x14 ∧ real = true)) :
    Work s₀ request (fun i s => s.state = .PREPARE → i.useRealTarget = real)
      (plainOutcome s₀ request real) where
  busy _ := False
  rank _ := 0
  left _ := []
  apart := @not_busy_apart
  begins := by
    intro i s hi hok h
    obtain rfl := hok h.state
    exact .inr (h.plain hi hrequest hcommand hclock)
  goes_on _ _ hbusy := hbusy.elim

/-- The engine agrees with the reference if the responses are equal. -/
theorem agrees_plain_iff (d : SyntheticDap) (hrequest : request ≠ [])
    (hfits : request.length ≤ MAX_PACKET) (hcommand : byteAt request 0 ≠ 0x05) (hidle : Idle s₀) :
    (∀ inp : ℕ → Input, (∀ t, (inp t).resetN = true) → (∀ t, (inp t).useRealTarget = false) →
      Agrees d s₀ inp request) ↔
    referenceReply request = plainReply request := by
  have hplain (inp : ℕ → Input) (hreset : ∀ t, (inp t).resetN = true)
      (hreal : ∀ t, (inp t).useRealTarget = false) :
      Answers s₀ inp request (plainOutcome s₀ request false) :=
    (plainWork s₀ false hrequest hcommand fun h => Bool.false_ne_true h.2).answers hreset hidle
      hrequest fun t _ => hreal t
  have hexecute := execute_plain d hrequest hfits hcommand
  constructor
  · intro hagrees
    obtain ⟨reply, d', heq, hanswers⟩ :=
      hagrees (offer request noFlags false) (fun _ => rfl) fun _ => rfl
    rw [hexecute] at heq
    cases heq
    exact congrArg Outcome.reply (hanswers.unique (hplain _ (fun _ => rfl) fun _ => rfl) hfits)
  · intro hreplies inp hreset hreal
    refine ⟨_, _, hexecute, ?_⟩
    convert hplain inp hreset hreal using 1
    rw [plainOutcome, plainPins, hreplies]
    cases hcount : isAbort (byteAt request 0) <;> simp

/-- **The other requests.** Without a target the engine answers them as the reference does, but
for DAP_Info of identifier 2 and for DAP_JTAG_Sequence without data. -/
theorem plain_agrees_iff (d : SyntheticDap) (hrequest : request ≠ [])
    (hfits : request.length ≤ MAX_PACKET) (hcommand : byteAt request 0 ≠ 0x05) (hidle : Idle s₀) :
    (∀ inp : ℕ → Input, (∀ t, (inp t).resetN = true) → (∀ t, (inp t).useRealTarget = false) →
      Agrees d s₀ inp request) ↔
    ¬ Differs request := by
  rw [agrees_plain_iff d hrequest hfits hcommand hidle, replies_equal_iff hcommand]

theorem plain_agrees_connect :
    Agrees SyntheticDap.default resetState (offer [0x02, 0x01] noFlags false) [0x02, 0x01] :=
  (plain_agrees_iff SyntheticDap.default (by decide) (by decide) (by decide) ⟨rfl, rfl⟩).mpr
    (by rw [Differs]; decide) _ (fun _ => rfl) fun _ => rfl

/-- DAP_Info of identifier 2: the engine has no product name. -/
theorem product_name_missing :
    ¬ ∀ inp : ℕ → Input, (∀ t, (inp t).resetN = true) → (∀ t, (inp t).useRealTarget = false) →
      Agrees SyntheticDap.default resetState inp [0x00, 0x02] := by
  rw [agrees_plain_iff SyntheticDap.default (by decide) (by decide) (by decide) ⟨rfl, rfl⟩]
  decide

end

end DapEngine
