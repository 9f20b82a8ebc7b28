import Zub1cg.Library.Clocked
import Zub1cg.Rtl.AxisPacker
import Mathlib.Data.List.FinRange

/-!
# The packer hands on what it takes

Whatever the schedule: the bytes that the beats select are, in order, the bytes taken, up to the
beat that is offered and the bytes that wait for a beat of their own. A beat is full unless it
ends a transfer, and a transfer ends with the last byte of every `FRAMES_PER_TRANSFER`-th frame.

## Main definitions

- `Beat`, `selected` — what is handed over at one edge
- `marked` — the bytes taken, with the ends of the transfers
- `Packed` — where the bytes taken are

## Main results

- `Packed.step` — what one edge does to them
- `run_packed`, `packer_transparent` — and a whole run
-/

namespace AxisPacker

/-- The bytes on the lanes that `keep` selects, lowest lane first. -/
def selected (data : Fin 8 → UInt8) (keep : Fin 8 → Bool) : List UInt8 :=
  (List.finRange 8).filterMap fun lane => if keep lane then some (data lane) else none

/-- What is on the output at one edge. -/
structure Beat where
  data : Fin 8 → UInt8
  keep : Fin 8 → Bool
  last : Bool

def Beat.bytes (beat : Beat) : List UInt8 := selected beat.data beat.keep

/-- A byte with `input_last`. -/
abbrev Item := UInt8 × Bool

/-- The byte taken at this edge, if any. -/
def acceptedItem (i : Input) (s : State) : List Item :=
  if i.inputValid && inputReady i s then [(i.inputData, i.inputLast)] else []

/-- The beat that is offered, if any. -/
def registered (s : State) : List Beat :=
  if s.outputValid then [⟨s.outputData, s.outputKeep, s.outputLast⟩] else []

/-- The beat handed over at this edge, if any. -/
def deliveredBeat (i : Input) (s : State) : List Beat :=
  if i.outputReady then registered s else []

/-- The packer after a reset, driven by the schedule `inp`. -/
def run (framesPerTransfer : ℕ) (inp : ℕ → Input) : Clocked.Run Input State where
  step := step framesPerTransfer
  start := resetState
  input := inp

/-- The items taken by time `t`. -/
def accepted (r : Clocked.Run Input State) (t : ℕ) : List Item := r.record acceptedItem t

/-- The beats handed over by time `t`. -/
def delivered (r : Clocked.Run Input State) (t : ℕ) : List Beat := r.record deliveredBeat t

/-- The number of frames that end in `items`. -/
def frames (items : List Item) : ℕ := items.countP (·.2)

/-- The bytes of `items`, each with whether it is the last byte of a frame that ends a transfer:
one of whose number, counted from one, `framesPerTransfer` is a divisor. -/
def marked (framesPerTransfer : ℕ) (items : List Item) : List Item :=
  items.zipIdx.map fun x =>
    (x.1.1, x.1.2 && decide (framesPerTransfer ∣ frames (items.take (x.2 + 1))))

/-- The bytes of a beat; the beat's `last` is that of its last byte. -/
def Beat.marked (beat : Beat) : List Item :=
  beat.bytes.dropLast.map (·, false) ++ beat.bytes.getLast?.toList.map (·, beat.last)

/-! ### Lanes -/

/-- The lanes hold `bytes` from the lowest on, and `keep` selects no other. -/
structure Holds (bytes : List UInt8) (data : Fin 8 → UInt8) (keep : Fin 8 → Bool) : Prop where
  keep : ∀ lane : Fin 8, keep lane = decide (lane.val < bytes.length)
  data : ∀ lane : Fin 8, ∀ h : lane.val < bytes.length, data lane = bytes[lane.val]
  fits : bytes.length ≤ 8

theorem holds_nil : Holds [] (fun _ => 0) (fun _ => false) :=
  ⟨fun _ => rfl, fun _ h => absurd h (Nat.not_lt_zero _), Nat.zero_le 8⟩

/-- A byte put on the next lane. -/
theorem Holds.push {bytes : List UInt8} {data : Fin 8 → UInt8} {keep : Fin 8 → Bool}
    (h : Holds bytes data keep) {lane : Fin 8} (hlane : lane.val = bytes.length) (byte : UInt8) :
    Holds (bytes ++ [byte]) (Function.update data lane byte) (Function.update keep lane true) := by
  have hlength : (bytes ++ [byte]).length = lane.val + 1 := by
    rw [List.length_append, List.length_singleton, hlane]
  refine ⟨fun other => ?_, fun other hother => ?_, by omega⟩
  · rw [hlength]
    by_cases heq : other = lane
    · rw [heq, Function.update_self, decide_eq_true (Nat.lt_succ_self _)]
    · have hne : other.val ≠ lane.val := fun hval => heq (Fin.ext hval)
      rw [Function.update_of_ne heq, h.keep]
      congr 1
      rw [eq_iff_iff]
      omega
  · rw [hlength] at hother
    by_cases heq : other = lane
    · subst heq
      rw [Function.update_self, List.getElem_append_right hlane.ge]
      simp
    · have hne : other.val ≠ lane.val := fun hval => heq (Fin.ext hval)
      have hlt : other.val < bytes.length := by omega
      rw [Function.update_of_ne heq, h.data other hlt, List.getElem_append_left hlt]

/-- The first of the values of `f`. -/
theorem filterMap_finRange {α : Type*} {n : ℕ} (f : Fin n → α) (m : ℕ) :
    (List.finRange n).filterMap (fun lane => if lane.val < m then some (f lane) else none) =
      (List.ofFn f).take m := by
  induction n generalizing m with
  | zero => simp
  | succ n ih =>
    rw [List.finRange_succ, List.ofFn_succ, List.filterMap_cons, List.filterMap_map]
    cases m with
    | zero =>
      rw [List.take_zero]
      simp
    | succ m =>
      rw [List.take_succ_cons, ← ih (fun lane => f lane.succ) m]
      simp

/-- What is selected is what the lanes hold. -/
theorem Holds.selected {bytes : List UInt8} {data : Fin 8 → UInt8} {keep : Fin 8 → Bool}
    (h : Holds bytes data keep) : selected data keep = bytes := by
  have hkeep : (fun lane => if keep lane then some (data lane) else none) =
      fun lane : Fin 8 => if lane.val < bytes.length then some (data lane) else none := by
    funext lane
    simp only [h.keep lane, decide_eq_true_eq]
  have hfits := h.fits
  rw [AxisPacker.selected, hkeep, filterMap_finRange]
  apply List.ext_getElem
  · rw [List.length_take, List.length_ofFn]
    omega
  · intro k hk hk'
    rw [List.getElem_take, List.getElem_ofFn]
    exact h.data ⟨k, by omega⟩ hk'

/-! ### Transfers -/

/-- One more item. -/
theorem marked_concat (framesPerTransfer : ℕ) (items : List Item) (item : Item) :
    marked framesPerTransfer (items ++ [item]) =
      marked framesPerTransfer items ++
        [(item.1, item.2 && decide (framesPerTransfer ∣ frames (items ++ [item])))] := by
  rw [marked, marked, List.zipIdx_append, List.map_append]
  congr 1
  · apply List.map_congr_left
    intro x hx
    have hlt : x.2 < items.length := by
      have := List.snd_lt_of_mem_zipIdx hx
      omega
    rw [List.take_append_of_le_length hlt]
  · have hall : (items ++ [item]).take (items.length + 1) = items ++ [item] :=
      List.take_of_length_le (by simp)
    simp [hall]

/-- The marks do not change the bytes. -/
theorem marked_bytes (framesPerTransfer : ℕ) (items : List Item) :
    (marked framesPerTransfer items).map (·.1) = items.map (·.1) := by
  rw [marked, List.map_map]
  change items.zipIdx.map ((·.1) ∘ (·.1)) = _
  rw [← List.map_map, List.zipIdx_map_fst]

theorem Beat.marked_bytes (beat : Beat) : beat.marked.map (·.1) = beat.bytes := by
  rw [Beat.marked, List.map_append, List.map_map, List.map_map]
  change beat.bytes.dropLast.map id ++ beat.bytes.getLast?.toList.map id = _
  rw [List.map_id, List.map_id]
  rcases List.eq_nil_or_concat beat.bytes with hnil | ⟨bytes, byte, hbytes⟩
  · rw [hnil]
    rfl
  · rw [hbytes]
    simp

/-- A beat made of `bytes` and one byte more. -/
theorem Beat.marked_concat {bytes : List UInt8} {byte : UInt8} {beat : Beat}
    (h : beat.bytes = bytes ++ [byte]) :
    beat.marked = bytes.map (·, false) ++ [(byte, beat.last)] := by
  rw [Beat.marked, h]
  simp

/-! ### One edge -/

/-- The lanes that `keep` selects are the lowest. -/
def LowMask (keep : Fin 8 → Bool) (m : ℕ) : Prop :=
  ∀ lane : Fin 8, keep lane = decide (lane.val < m)

/-- A beat holds bytes, eight of them unless it ends a transfer. -/
def WellFormed (beat : Beat) : Prop :=
  ∃ bytes, Holds bytes beat.data beat.keep ∧ bytes ≠ [] ∧
    (beat.last = false → bytes.length = 8)

/-- After `items` have been taken and `beats` handed over, the bytes that are in neither of these
nor in the beat on offer, `pending`, are in the buffer. -/
structure Packed (framesPerTransfer : ℕ) (items : List Item) (beats : List Beat)
    (pending : List UInt8) (s : State) : Prop where
  content : marked framesPerTransfer items =
    (beats ++ registered s).flatMap Beat.marked ++ pending.map (·, false)
  buffer : Holds pending s.buffer s.keep
  count : s.count.val = pending.length
  frameCount : s.frameCount = frames items % framesPerTransfer
  wellFormed : ∀ beat ∈ beats ++ registered s, WellFormed beat
  mask : ∃ m ≤ 8, LowMask s.outputKeep m

/-- A byte is taken. -/
def takes (i : Input) (s : State) : Bool := i.inputValid && inputReady i s

/-- Everything one edge out of reset does, register by register. -/
theorem step_released (framesPerTransfer : ℕ) {i : Input} (hi : i.resetN = true) (s : State) :
    step framesPerTransfer i s =
      { buffer := if takes i s then
          if completes framesPerTransfer i s then fun _ => 0 else assembledData i s else s.buffer
        keep := if takes i s then
          if completes framesPerTransfer i s then fun _ => false else assembledKeep s else s.keep
        count := if takes i s then
          if completes framesPerTransfer i s then 0 else s.count + 1 else s.count
        frameCount := if takes i s && i.inputLast then
          if transferLast framesPerTransfer i s then 0 else s.frameCount + 1 else s.frameCount
        outputData := if takes i s && completes framesPerTransfer i s then assembledData i s
          else s.outputData
        outputKeep := if takes i s && completes framesPerTransfer i s then assembledKeep s
          else s.outputKeep
        outputValid := takes i s && completes framesPerTransfer i s ||
          s.outputValid && !i.outputReady
        outputLast := if takes i s && completes framesPerTransfer i s then
          transferLast framesPerTransfer i s else s.outputLast } := by
  obtain ⟨buffer, keep, count, frameCount, outputData, outputKeep, outputValid, outputLast⟩ := s
  obtain ⟨resetN, inputData, inputValid, inputLast, outputReady⟩ := i
  obtain rfl : resetN = true := hi
  unfold step inputUpdate takes completes inputReady
  generalize transferLast _ _ _ = ends
  cases outputValid <;> cases outputReady <;> cases inputValid <;> cases inputLast <;>
    cases ends <;> cases count == 7 <;> rfl

/-- The beat that the byte taken at this edge completes, if any. -/
def completedBeat (framesPerTransfer : ℕ) (i : Input) (s : State) : List Beat :=
  if takes i s && completes framesPerTransfer i s then
    [⟨assembledData i s, assembledKeep s, transferLast framesPerTransfer i s⟩]
  else []

/-- A beat is offered until it is handed over. -/
theorem offered_next (framesPerTransfer : ℕ) {i : Input} (hi : i.resetN = true) (s : State) :
    deliveredBeat i s ++ registered (step framesPerTransfer i s) =
      registered s ++ completedBeat framesPerTransfer i s := by
  rw [step_released framesPerTransfer hi, deliveredBeat, registered, registered, completedBeat]
  have hready : s.outputValid = true → i.outputReady = false → takes i s = false := by
    intro hvalid hstall
    rw [takes, inputReady, hvalid, hstall]
    exact Bool.and_false _
  cases hvalid : s.outputValid <;> cases hstall : i.outputReady <;>
    cases htakes : takes i s <;> cases completes framesPerTransfer i s
  all_goals first
    | rfl
    | exact absurd (hready hvalid hstall) (by rw [htakes]; decide)

/-- The beats handed over and the one on offer, after an edge. -/
theorem offered_concat (beats : List Beat) (framesPerTransfer : ℕ) {i : Input}
    (hi : i.resetN = true) (s : State) :
    beats ++ deliveredBeat i s ++ registered (step framesPerTransfer i s) =
      beats ++ registered s ++ completedBeat framesPerTransfer i s := by
  rw [List.append_assoc, offered_next framesPerTransfer hi, List.append_assoc]

theorem acceptedItem_of_takes {i : Input} {s : State} (htakes : takes i s = true) :
    acceptedItem i s = [(i.inputData, i.inputLast)] := by
  rw [acceptedItem, ← takes, htakes, if_pos rfl]

/-- **A stalled beat does not change.** -/
theorem stalled (framesPerTransfer : ℕ) {i : Input} (hi : i.resetN = true) {s : State}
    (hvalid : s.outputValid = true) (hready : i.outputReady = false) :
    step framesPerTransfer i s = s := by
  rw [step, hi, inputReady, hvalid, hready]
  simp

theorem packed_reset (framesPerTransfer : ℕ) :
    Packed framesPerTransfer [] [] [] resetState where
  content := rfl
  buffer := holds_nil
  count := rfl
  frameCount := (Nat.zero_mod _).symm
  wellFormed := fun _ hbeat => absurd hbeat List.not_mem_nil
  mask := ⟨0, Nat.zero_le 8, fun _ => rfl⟩

/-- A count of what goes round in turns of `n`. -/
theorem succ_mod_eq {n : ℕ} (hn : 0 < n) (k : ℕ) :
    (k + 1) % n = if k % n + 1 = n then 0 else k % n + 1 := by
  have hlt := Nat.mod_lt k hn
  rw [← Nat.mod_add_mod]
  split
  · next hturn => rw [hturn, Nat.mod_self]
  · exact Nat.mod_eq_of_lt (by omega)

theorem frames_concat (items : List Item) (item : Item) :
    frames (items ++ [item]) = if item.2 then frames items + 1 else frames items := by
  rw [frames, frames, List.countP_append, List.countP_singleton]
  cases item.2 <;> rfl

section

variable {framesPerTransfer : ℕ} {items : List Item} {beats : List Beat} {pending : List UInt8}
  {s : State} (h : Packed framesPerTransfer items beats pending s)

include h

/-- The byte on the input ends a transfer just when the frames, with its own, come out even. -/
theorem Packed.transferLast_eq (hframes : 0 < framesPerTransfer) (i : Input) :
    transferLast framesPerTransfer i s = (i.inputLast &&
      decide (framesPerTransfer ∣ frames (items ++ [(i.inputData, i.inputLast)]))) := by
  rw [transferLast, h.frameCount, frames_concat]
  cases i.inputLast with
  | false => rfl
  | true =>
    have hlt := Nat.mod_lt (frames items) hframes
    rw [Bool.true_and, Bool.true_and, if_pos rfl, Bool.eq_iff_iff, decide_eq_true_iff,
      Bool.or_eq_true, beq_iff_eq, beq_iff_eq, Nat.dvd_iff_mod_eq_zero, succ_mod_eq hframes]
    split <;> omega

/-- The byte on the input goes behind those that wait. -/
theorem Packed.assembled (i : Input) :
    Holds (pending ++ [i.inputData]) (assembledData i s) (assembledKeep s) :=
  h.buffer.push h.count i.inputData

/-- The counter counts the frames of the transfer that goes on. -/
theorem Packed.frameCount_next (hframes : 0 < framesPerTransfer) {i : Input}
    (hi : i.resetN = true) (htakes : takes i s = true) :
    (step framesPerTransfer i s).frameCount =
      frames (items ++ [(i.inputData, i.inputLast)]) % framesPerTransfer := by
  rw [step_released framesPerTransfer hi, htakes, h.transferLast_eq hframes, frames_concat,
    h.frameCount]
  cases i.inputLast with
  | false => rfl
  | true =>
    simp only [Bool.true_and, if_true, decide_eq_true_eq, Nat.dvd_iff_mod_eq_zero,
      succ_mod_eq hframes]
    split_ifs <;> first | rfl | contradiction

/-- No byte is taken: what waits stays. -/
theorem Packed.waits {i : Input} (hi : i.resetN = true) (htakes : takes i s = false) :
    Packed framesPerTransfer (items ++ acceptedItem i s) (beats ++ deliveredBeat i s) pending
      (step framesPerTransfer i s) := by
  have hitems : items ++ acceptedItem i s = items := by
    rw [acceptedItem, ← takes, htakes, if_neg Bool.false_ne_true, List.append_nil]
  have hoffered : beats ++ deliveredBeat i s ++ registered (step framesPerTransfer i s) =
      beats ++ registered s := by
    rw [offered_concat beats framesPerTransfer hi, completedBeat, htakes, Bool.false_and,
      if_neg Bool.false_ne_true, List.append_nil]
  have hstep := step_released framesPerTransfer hi s
  rw [htakes] at hstep
  refine ⟨?_, ?_, ?_, ?_, ?_, by rw [hstep]; exact h.mask⟩
  · rw [hoffered, hitems]
    exact h.content
  · rw [hstep]
    exact h.buffer
  · rw [hstep]
    exact h.count
  · rw [hstep, hitems]
    exact h.frameCount
  · rw [hoffered]
    exact h.wellFormed

/-- The byte taken waits with the others. -/
theorem Packed.buffers (hframes : 0 < framesPerTransfer) {i : Input} (hi : i.resetN = true)
    (htakes : takes i s = true) (hcompletes : completes framesPerTransfer i s = false) :
    Packed framesPerTransfer (items ++ acceptedItem i s) (beats ++ deliveredBeat i s)
      (pending ++ [i.inputData]) (step framesPerTransfer i s) := by
  have hoffered : beats ++ deliveredBeat i s ++ registered (step framesPerTransfer i s) =
      beats ++ registered s := by
    rw [offered_concat beats framesPerTransfer hi, completedBeat, htakes, hcompletes,
      Bool.and_false, if_neg Bool.false_ne_true, List.append_nil]
  have hstep := step_released framesPerTransfer hi s
  rw [htakes, hcompletes] at hstep
  rw [completes, Bool.or_eq_false_iff, beq_eq_false_iff_ne] at hcompletes
  rw [acceptedItem_of_takes htakes]
  refine ⟨?_, ?_, ?_, h.frameCount_next hframes hi htakes, ?_, by rw [hstep]; exact h.mask⟩
  · rw [marked_concat, ← h.transferLast_eq hframes i, hcompletes.1, hoffered, h.content,
      List.map_append, List.map_singleton, List.append_assoc]
  · rw [hstep]
    exact h.assembled i
  · have hne : s.count.val ≠ 7 := fun hseven => hcompletes.2 (Fin.ext hseven)
    rw [hstep, List.length_append, List.length_singleton, ← h.count]
    change (s.count + 1).val = s.count.val + 1
    rw [Fin.val_add]
    have hlt := s.count.isLt
    change (s.count.val + 1) % 8 = _
    omega
  · rw [hoffered]
    exact h.wellFormed

/-- The byte taken completes a beat. -/
theorem Packed.emits (hframes : 0 < framesPerTransfer) {i : Input} (hi : i.resetN = true)
    (htakes : takes i s = true) (hcompletes : completes framesPerTransfer i s = true) :
    Packed framesPerTransfer (items ++ acceptedItem i s) (beats ++ deliveredBeat i s) []
      (step framesPerTransfer i s) := by
  have hoffered : beats ++ deliveredBeat i s ++ registered (step framesPerTransfer i s) =
      beats ++ registered s ++
        [⟨assembledData i s, assembledKeep s, transferLast framesPerTransfer i s⟩] := by
    rw [offered_concat beats framesPerTransfer hi, completedBeat, htakes, hcompletes,
      Bool.and_true, if_pos rfl]
  have hassembled := h.assembled i
  have hstep := step_released framesPerTransfer hi s
  rw [htakes, hcompletes] at hstep
  rw [acceptedItem_of_takes htakes]
  refine ⟨?_, ?_, ?_, h.frameCount_next hframes hi htakes, ?_, ?_⟩
  · have hmarked : Beat.marked
        ⟨assembledData i s, assembledKeep s, transferLast framesPerTransfer i s⟩ =
          pending.map (·, false) ++ [(i.inputData, transferLast framesPerTransfer i s)] :=
      Beat.marked_concat hassembled.selected
    rw [marked_concat, ← h.transferLast_eq hframes i, hoffered, h.content, List.append_assoc,
      ← hmarked, List.map_nil, List.append_nil, ← List.flatMap_singleton Beat.marked,
      ← List.flatMap_append]
  · rw [hstep]
    exact holds_nil
  · rw [hstep]
    rfl
  · rw [hoffered]
    intro beat hmem
    rw [List.mem_append, List.mem_singleton] at hmem
    obtain hmem | rfl := hmem
    · exact h.wellFormed beat hmem
    · refine ⟨_, hassembled, List.concat_ne_nil _ _, fun hnot => ?_⟩
      change transferLast framesPerTransfer i s = false at hnot
      rw [completes, hnot, Bool.false_or, beq_iff_eq] at hcompletes
      rw [List.length_append, List.length_singleton, ← h.count, hcompletes]
      rfl
  · rw [hstep]
    exact ⟨_, hassembled.fits, hassembled.keep⟩

/-- **One edge** leaves every byte that has been taken where it can be told. -/
theorem Packed.step (hframes : 0 < framesPerTransfer) {i : Input} (hi : i.resetN = true) :
    ∃ pending, Packed framesPerTransfer (items ++ acceptedItem i s)
      (beats ++ deliveredBeat i s) pending (step framesPerTransfer i s) := by
  cases htakes : takes i s with
  | false => exact ⟨pending, h.waits hi htakes⟩
  | true =>
    cases hcompletes : completes framesPerTransfer i s with
    | false => exact ⟨pending ++ [i.inputData], h.buffers hframes hi htakes hcompletes⟩
    | true => exact ⟨[], h.emits hframes hi htakes hcompletes⟩

end

/-! ### Whole runs -/

/-- **A run** leaves every byte that has been taken where it can be told. -/
theorem run_packed {framesPerTransfer : ℕ} (hframes : 0 < framesPerTransfer) (inp : ℕ → Input)
    (hreset : ∀ t, (inp t).resetN = true) (t : ℕ) :
    ∃ pending, Packed framesPerTransfer (accepted (run framesPerTransfer inp) t)
      (delivered (run framesPerTransfer inp) t) pending ((run framesPerTransfer inp).state t) := by
  induction t with
  | zero => exact ⟨[], packed_reset framesPerTransfer⟩
  | succ t ih =>
    obtain ⟨pending, h⟩ := ih
    exact h.step hframes (hreset t)

/-- **The packer is transparent.** Out of reset, whatever the schedule:

- the bytes taken, marked where a frame ends a transfer, are the bytes of the beats handed over and
  of the beat on offer, marked where a beat has `output_last`, and at most seven bytes more, none
  of which ends a transfer;
- so the bytes handed over are a prefix of those taken, at most the beat on offer and seven bytes
  shorter;
- the lanes that `output_keep` selects are always the lowest, some in every beat, and all of them
  in a beat without `output_last`;
- a beat that is offered and not taken is offered again as it is. -/
theorem packer_transparent {framesPerTransfer : ℕ} (hframes : 0 < framesPerTransfer)
    (inp : ℕ → Input) (hreset : ∀ t, (inp t).resetN = true) (t : ℕ) :
    let r := run framesPerTransfer inp
    (∃ pending : List UInt8, pending.length ≤ 7 ∧
      marked framesPerTransfer (accepted r t) =
        (delivered r t ++ registered (r.state t)).flatMap Beat.marked ++
          pending.map (·, false)) ∧
    (delivered r t).flatMap Beat.bytes <+: (accepted r t).map (·.1) ∧
    (accepted r t).length ≤
      ((delivered r t ++ registered (r.state t)).flatMap Beat.bytes).length + 7 ∧
    (∃ m ≤ 8, LowMask (r.state t).outputKeep m) ∧
    (∀ beat ∈ delivered r t ++ registered (r.state t),
      ∃ m ≤ 8, 0 < m ∧ LowMask beat.keep m ∧ (beat.last = false → m = 8)) ∧
    ((r.state t).outputValid = true → (inp t).outputReady = false →
      registered (r.state (t + 1)) = registered (r.state t)) := by
  intro r
  obtain ⟨pending, h⟩ := run_packed hframes inp hreset t
  have hpending : pending.length ≤ 7 := by
    have := ((run framesPerTransfer inp).state t).count.isLt
    rw [h.count] at this
    omega
  have hbytes : (accepted r t).map (·.1) =
      (delivered r t ++ registered (r.state t)).flatMap Beat.bytes ++ pending := by
    rw [← marked_bytes framesPerTransfer, h.content, List.map_append, List.map_flatMap,
      List.map_map]
    congr 1
    · congr 1
      funext beat
      exact beat.marked_bytes
    · exact List.map_id pending
  refine ⟨⟨pending, hpending, h.content⟩, ?_, ?_, h.mask, fun beat hbeat => ?_,
    fun hvalid hstall => ?_⟩
  · rw [hbytes, List.flatMap_append, List.append_assoc]
    exact List.prefix_append _ _
  · have hlength := congrArg List.length hbytes
    rw [List.length_map, List.length_append] at hlength
    omega
  · obtain ⟨bytes, hholds, hne, hfull⟩ := h.wellFormed beat hbeat
    exact ⟨bytes.length, hholds.fits, List.length_pos_iff.mpr hne, hholds.keep, hfull⟩
  · exact congrArg registered (stalled framesPerTransfer (hreset t) hvalid hstall)

/-- A frame ends with every fifth byte that is offered, and the reader is ready at every fourth
edge. -/
def shortFrames (t : ℕ) : Input where
  resetN := true
  inputData := UInt8.ofNat t
  inputValid := true
  inputLast := t % 5 == 4
  outputReady := t % 4 == 0

theorem packer_transparent_shortFrames :
    (delivered (run 2 shortFrames) 20).map (fun beat => (beat.bytes, beat.last)) =
      [([0, 1, 2, 3, 4, 5, 6, 7], false), ([8, 9], true)] ∧
    (delivered (run 2 shortFrames) 20).flatMap Beat.bytes <+:
      (accepted (run 2 shortFrames) 20).map (·.1) :=
  ⟨by decide, (packer_transparent (by decide) shortFrames (fun _ => rfl) 20).2.1⟩

end AxisPacker
