import Zub1cg.Rtl.DapEngine.Packet
import Zub1cg.Library.LittleEndian
import Zub1cg.Library.MemoryRegion
import Zub1cg.Library.Packets

/-!
# One exchange with the packet engine

From an idle state the engine captures a request, works on it and hands over a response. What
it works out depends on the request; that it hands over what it has worked out does not. The
two are kept apart: `Work` is what is known of an engine at work, and `exchange_run` and
`exchange_completes` follow the exchange around it.

## Main definitions

- `Captured` — what the registers hold of the bytes taken
- `Responds`, `Done` — the response under way, and over
- `Work` — an engine that works on a request until it has a response
- `Answers` — the request is answered, whatever the schedule

## Main results

- `exchange_run` — the stages of an exchange, under any schedule
- `exchange_completes` — it comes to its end if the sink is ready again and again
- `Work.answers` — so the request is answered
-/

namespace DapEngine

open MemoryRegion (Stored)
open Packets (markLast)

/-- The engine started in `s` and driven by the schedule `inp`. -/
def run (s : State) (inp : ℕ → Input) : Clocked.Run Input State where
  step := step
  start := s
  input := inp

/-- The request byte taken at this edge, with its last flag. -/
def taken (i : Input) (s : State) : List (UInt8 × Bool) :=
  if commandFire i s then [(i.commandData, i.commandLast)] else []

/-- The response byte handed over at this edge, with its last flag. -/
def handedOver (i : Input) (s : State) : List (UInt8 × Bool) :=
  if responseFire i s then [(responseData s, responseLast s)] else []

/-- The JTAG pins of the target. -/
inductive Pin where
  | tck
  | tms
  | tdi
  | ntrst
  | nreset
  deriving DecidableEq, Repr

/-- The level of a pin. -/
def level (s : State) : Pin → Bool
  | .tck => s.jtagTck
  | .tms => s.jtagTms
  | .tdi => s.jtagTdi
  | .ntrst => s.jtagNtrst
  | .nreset => s.jtagNreset

/-- The pins driven at this edge outside reset, and to what. -/
def pinWrites (i : Input) (s : State) : List (Pin × Bool) :=
  match s.state with
  | .PREPARE =>
    if s.headerCommand.toNat = 0x10 ∧ i.useRealTarget = true ∧ s.requestLength > 1 then
      [(.ntrst, s.headerArgument.toBitVec.getLsbD 5), (.nreset, s.headerArgument.toBitVec.getLsbD 7)]
    else if s.headerCommand.toNat = 0x14 ∧ i.useRealTarget = true then
      [(.tms, s.headerCount.toBitVec.getLsbD 7), (.tdi, s.headerData.toBitVec.getLsbD 0),
        (.tck, false)]
    else []
  | .JTAG_SETUP => if s.jtagWait ≥ JTAG_HALF_PERIOD then [(.tck, true)] else []
  | .JTAG_HOLD => if s.jtagWait ≥ JTAG_HALF_PERIOD then [(.tck, false)] else []
  | _ => []

/-- No request has been begun, and no response is under way. -/
structure Idle (s : State) : Prop where
  state : s.state = .CAPTURE
  requestPos : s.requestPos = 0

/-- What an exchange leaves behind, and what it drives onto the pins. -/
structure Outcome where
  reply : List UInt8
  pins : List (Pin × Bool)
  transferCount : BitVec 64
  abortCount : BitVec 32

/-- The bytes `bytes` have been taken from `s₀` on. A header register keeps what it held
before as long as its byte has not come. -/
structure Captured (s₀ : State) (bytes : List UInt8) (s : State) : Prop where
  stored : Stored s.requestMem 0 bytes
  headerCommand : s.headerCommand = bytes.getD 0 s₀.headerCommand
  headerArgument : s.headerArgument = bytes.getD 1 s₀.headerArgument
  headerCount : s.headerCount = bytes.getD 2 s₀.headerCount
  headerData : s.headerData = bytes.getD 3 s₀.headerData
  counts : s.transferCount = s₀.transferCount ∧ s.abortCount = s₀.abortCount

/-- The engine is waiting for the rest of a request. -/
structure Captures (s₀ : State) (bytes : List UInt8) (s : State) : Prop
    extends Captured s₀ bytes s where
  state : s.state = .CAPTURE
  requestPos : s.requestPos = bytes.length

/-- The engine has a whole request. -/
structure Prepares (s₀ : State) (request : List UInt8) (s : State) : Prop
    extends Captured s₀ request s where
  state : s.state = .PREPARE
  requestPos : s.requestPos = 0
  requestLength : s.requestLength = request.length

/-- `k` bytes of the response have been handed over, and there are more. -/
structure Responds (o : Outcome) (k : ℕ) (s : State) : Prop where
  state : s.state = .RESPOND
  requestPos : s.requestPos = 0
  responsePos : s.responsePos = k
  responseLength : s.responseLength = o.reply.length
  more : k < o.reply.length
  stored : Stored s.responseMem 0 o.reply
  counts : s.transferCount = o.transferCount ∧ s.abortCount = o.abortCount

/-- The response has been handed over. -/
structure Done (o : Outcome) (s : State) : Prop extends Idle s where
  counts : s.transferCount = o.transferCount ∧ s.abortCount = o.abortCount

/-! ### Capturing -/

section

variable {i : Input} {s : State}

theorem taken_busy (h : s.state ≠ .CAPTURE) : taken i s = [] := by
  rw [taken, if_neg fun hfire => h (commandFire_capture hfire)]

theorem responseFire_respond (h : responseFire i s = true) : s.state = .RESPOND :=
  beq_iff_eq.mp (Bool.and_eq_true_iff.mp h).1

theorem handedOver_quiet (h : s.state ≠ .RESPOND) : handedOver i s = [] := by
  rw [handedOver, if_neg fun hfire => h (responseFire_respond hfire)]

end

theorem getD_concat (bytes : List UInt8) (b : UInt8) (k : ℕ) (old : UInt8) :
    (bytes ++ [b]).getD k old = if bytes.length = k then b else bytes.getD k old := by
  rw [List.getD_eq_getElem?_getD, List.getD_eq_getElem?_getD]
  by_cases hk : bytes.length = k
  · subst hk
    simp
  · rw [if_neg hk]
    by_cases hless : k < bytes.length
    · rw [List.getElem?_append_left hless]
    · have hlonger : (bytes ++ [b]).length = bytes.length + 1 := List.length_append
      rw [List.getElem?_eq_none (by omega), List.getElem?_eq_none (by omega)]

theorem Idle.captures {s : State} (h : Idle s) : Captures s [] s :=
  { stored := trivial
    headerCommand := rfl
    headerArgument := rfl
    headerCount := rfl
    headerData := rfl
    counts := ⟨rfl, rfl⟩
    state := h.state
    requestPos := h.requestPos }

section

variable {i : Input} {s₀ s : State} {bytes : List UInt8}

/-- A byte joins those taken before. -/
theorem Captures.take (h : Captures s₀ bytes s) (hi : i.resetN = true)
    (hfire : commandFire i s = true) : Captured s₀ (bytes ++ [i.commandData]) (step i s) := by
  have hpos := h.requestPos
  rw [step_byte hi hfire]
  refine ⟨?_, ?_, ?_, ?_, ?_, h.counts⟩
  · exact h.stored.concat (hpos.trans (Nat.zero_add _).symm) _
  · rw [getD_concat, ← hpos, ← h.headerCommand]
  · rw [getD_concat, ← hpos, ← h.headerArgument]
  · rw [getD_concat, ← hpos, ← h.headerCount]
  · rw [getD_concat, ← hpos, ← h.headerData]

theorem Captures.byte (h : Captures s₀ bytes s) (hi : i.resetN = true)
    (hfire : commandFire i s = true) (hlast : i.commandLast = false) :
    Captures s₀ (bytes ++ [i.commandData]) (step i s) := by
  refine { h.take hi hfire with state := ?_, requestPos := ?_ }
  · rw [step_byte hi hfire, hlast]
    rfl
  · rw [step_byte hi hfire, hlast, List.length_append, ← h.requestPos]
    rfl

theorem Captures.last (h : Captures s₀ bytes s) (hi : i.resetN = true)
    (hfire : commandFire i s = true) (hlast : i.commandLast = true) :
    Prepares s₀ (bytes ++ [i.commandData]) (step i s) := by
  refine { h.take hi hfire with state := ?_, requestPos := ?_, requestLength := ?_ }
  · rw [step_byte hi hfire, hlast]
    rfl
  · rw [step_byte hi hfire, hlast]
    rfl
  · rw [step_byte hi hfire, hlast, List.length_append, ← h.requestPos]
    rfl

theorem Captures.wait (h : Captures s₀ bytes s) (hi : i.resetN = true)
    (hfire : commandFire i s = false) : Captures s₀ bytes (step i s) := by
  rw [step_no_byte hi h.state hfire]
  exact { h with }

end

/-! ### Responding -/

theorem markLast_length (reply : List UInt8) : (markLast reply).length = reply.length := by
  rw [← List.length_map (f := Prod.fst), Packets.markLast_map_fst]

theorem markLast_getElem (reply : List UInt8) {k : ℕ} (hk : k < reply.length)
    (hk' : k < (markLast reply).length) :
    (markLast reply)[k] = (reply[k], k + 1 == reply.length) := by
  induction reply generalizing k with
  | nil => cases hk
  | cons b rest ih =>
    cases k with
    | zero => cases rest <;> simp [markLast]
    | succ k =>
      have hrest : k < rest.length := Nat.lt_of_succ_lt_succ hk
      simpa [markLast] using ih hrest (Nat.lt_of_succ_lt_succ hk')

/-- One edge of a response. -/
theorem Responds.step {i : Input} {o : Outcome} {k : ℕ} {s : State} (h : Responds o k s)
    (hi : i.resetN = true) :
    if i.responseReady then
      (∃ hk : k < (markLast o.reply).length, handedOver i s = [(markLast o.reply)[k]]) ∧
        (Responds o (k + 1) (step i s) ∨ k + 1 = o.reply.length ∧ Done o (step i s))
    else handedOver i s = [] ∧ Responds o k (step i s) := by
  have hvalid : responseValid s = true := by rw [responseValid, h.state]; rfl
  have hlast : responseLast s = (k + 1 == o.reply.length) := by
    rw [responseLast, h.state, h.responsePos, h.responseLength]
    rfl
  have hstep : DapEngine.step i s = respondUpdate i s
      { s with requestReadData := s.requestMem s.requestReadAddress, debugComplete := false } := by
    rw [step_released hi, phaseUpdate, h.state]
  rw [hstep, respondUpdate, handedOver, responseFire, hvalid, Bool.true_and]
  cases hready : i.responseReady with
  | false => exact ⟨rfl, { h with }⟩
  | true =>
    simp only [if_true]
    refine ⟨?_, ?_⟩
    · refine ⟨by rw [markLast_length]; exact h.more, ?_⟩
      rw [markLast_getElem _ h.more, hlast, responseData, h.responsePos]
      have hbyte := MemoryRegion.stored_iff_getElem.mp h.stored k h.more
      rw [Nat.zero_add] at hbyte
      rw [hbyte]
    · cases hend : responseLast s with
      | true =>
        rw [hend] at hlast
        have hfinal : k + 1 = o.reply.length := beq_iff_eq.mp hlast.symm
        exact .inr ⟨hfinal, { state := rfl, requestPos := h.requestPos, counts := h.counts }⟩
      | false =>
        rw [hend] at hlast
        have hmore : k + 1 ≠ o.reply.length := beq_eq_false_iff_ne.mp hlast.symm
        have hless := h.more
        refine .inl { h with responsePos := ?_, more := by omega }
        exact congrArg (· + 1) h.responsePos

/-! ### The whole exchange -/

/-- What is known of an engine at work on a request: the states in which it is busy, each edge
nearer to the response of `o`, and the pins it still has to drive. At every edge `ok` holds of
the inputs and the state. -/
structure Work (s₀ : State) (request : List UInt8) (ok : Input → State → Prop) (o : Outcome) where
  busy : State → Prop
  rank : State → ℕ
  left : State → List (Pin × Bool)
  apart : ∀ {s}, busy s → s.state ≠ .CAPTURE ∧ s.state ≠ .RESPOND ∧ s.state ≠ .PREPARE
  begins : ∀ {i s}, i.resetN = true → ok i s → Prepares s₀ request s →
    busy (step i s) ∧ pinWrites i s ++ left (step i s) = o.pins ∨
      Responds o 0 (step i s) ∧ pinWrites i s = o.pins
  goes_on : ∀ {i s}, i.resetN = true → ok i s → busy s →
    busy (step i s) ∧ rank (step i s) < rank s ∧ pinWrites i s ++ left (step i s) = left s ∨
      Responds o 0 (step i s) ∧ pinWrites i s = left s

/-- An engine without work is in no state. -/
theorem not_busy_apart {s : State} (h : False) :
    s.state ≠ .CAPTURE ∧ s.state ≠ .RESPOND ∧ s.state ≠ .PREPARE := h.elim

section

variable {s₀ : State} {request : List UInt8} {ok : Input → State → Prop} {o : Outcome}

/-- The stages of an exchange: the bytes taken, the bytes handed over, the pins driven, and the
state. -/
inductive Stage (w : Work s₀ request ok o) :
    List (UInt8 × Bool) → List (UInt8 × Bool) → List (Pin × Bool) → State → Prop
  | capturing {s : State} {bytes rest : List UInt8} (hsplit : request = bytes ++ rest)
      (hrest : rest ≠ []) (h : Captures s₀ bytes s) :
      Stage w (bytes.map fun b => (b, false)) [] [] s
  | preparing {s : State} (h : Prepares s₀ request s) : Stage w (markLast request) [] [] s
  | working {s : State} {p : List (Pin × Bool)} (h : w.busy s) (hleft : p ++ w.left s = o.pins) :
      Stage w (markLast request) [] p s
  | responding {s : State} (k : ℕ) (h : Responds o k s) :
      Stage w (markLast request) ((markLast o.reply).take k) o.pins s
  | done {s : State} (h : Done o s) : Stage w (markLast request) (markLast o.reply) o.pins s

theorem markLast_append (front : List UInt8) {rest : List UInt8} (hrest : rest ≠ []) :
    markLast (front ++ rest) = (front.map fun b => (b, false)) ++ markLast rest := by
  induction front with
  | nil => rfl
  | cons b front ih =>
    rw [List.cons_append, markLast, ih, List.map_cons, List.cons_append]
    cases front <;> simp [hrest]

theorem Responds.stage {w : Work s₀ request ok o} {s : State} {p : List (Pin × Bool)}
    (h : Responds o 0 s) (hpins : p = o.pins) : Stage w (markLast request) [] p s := by
  rw [hpins]
  exact .responding 0 h

/-- One edge of an engine that is waiting for the rest of the request. -/
theorem Captures.stage {w : Work s₀ request ok o} {bytes rest : List UInt8} {s : State}
    (h : Captures s₀ bytes s) (hsplit : request = bytes ++ rest) (hrest : rest ≠ []) {i : Input}
    (hi : i.resetN = true)
    (hfront : (bytes.map fun b => (b, false)) ++ taken i s <+: markLast request) :
    Stage w ((bytes.map fun b => (b, false)) ++ taken i s) [] [] (step i s) := by
  cases hfire : commandFire i s with
  | false =>
    rw [taken, hfire, if_neg Bool.false_ne_true, List.append_nil]
    exact .capturing hsplit hrest (h.wait hi hfire)
  | true =>
    rw [taken, hfire, if_pos rfl] at hfront ⊢
    obtain ⟨b, rest, rfl⟩ := List.exists_cons_of_ne_nil hrest
    -- the byte is the next one of the request, and is marked as such
    rw [hsplit, markLast_append bytes (List.cons_ne_nil b rest),
      List.prefix_append_right_inj, markLast, List.cons_prefix_cons] at hfront
    obtain ⟨hbyte, hlast⟩ := Prod.mk.inj hfront.1
    have htaken : request = (bytes ++ [i.commandData]) ++ rest := by
      rw [hsplit, hbyte, List.append_assoc, List.singleton_append]
    cases rest with
    | nil =>
      have hlast' : i.commandLast = true := hlast
      rw [List.append_nil] at htaken
      have hmarked : (bytes.map fun b => (b, false)) ++ [(i.commandData, true)] =
          markLast request := by rw [htaken, Packets.markLast_concat]
      have hprepares := h.last hi hfire hlast'
      rw [← htaken] at hprepares
      rw [hlast', hmarked]
      exact .preparing hprepares
    | cons b' rest =>
      have hlast' : i.commandLast = false := hlast
      have hmarked : (bytes.map fun b => (b, false)) ++ [(i.commandData, false)] =
          (bytes ++ [i.commandData]).map fun b => (b, false) := by
        rw [List.map_append]
        rfl
      rw [hlast', hmarked]
      exact .capturing htaken (List.cons_ne_nil b' rest) (h.byte hi hfire hlast')

/-- One edge of a response that is under way. -/
theorem Responds.goes_on {w : Work s₀ request ok o} {k : ℕ} {s : State} (h : Responds o k s)
    {i : Input} (hi : i.resetN = true) :
    Stage w (markLast request) ((markLast o.reply).take k ++ handedOver i s) o.pins
      (DapEngine.step i s) := by
  have hlength := markLast_length o.reply
  have hstep := h.step hi
  cases hready : i.responseReady with
  | false =>
    rw [hready, if_neg Bool.false_ne_true] at hstep
    rw [hstep.1, List.append_nil]
    exact .responding k hstep.2
  | true =>
    rw [hready, if_pos rfl] at hstep
    obtain ⟨hmore, hbyte⟩ := hstep.1
    rw [hbyte, List.take_concat_get' _ _ hmore]
    obtain hnext | ⟨hend, hdone⟩ := hstep.2
    · exact .responding (k + 1) hnext
    · rw [hend, ← hlength, List.take_length]
      exact .done hdone

/-- **One edge of an exchange.** -/
theorem Stage.step {w : Work s₀ request ok o} {c r : List (UInt8 × Bool)} {p : List (Pin × Bool)}
    {s : State} (h : Stage w c r p s) {i : Input} (hi : i.resetN = true) (hok : ok i s)
    (hfront : c ++ taken i s <+: markLast request) :
    Stage w (c ++ taken i s) (r ++ handedOver i s) (p ++ pinWrites i s) (step i s) := by
  cases h with
  | @capturing s bytes rest hsplit hrest h =>
    rw [handedOver_quiet (by rw [h.state]; decide), List.append_nil, pinWrites, h.state,
      List.append_nil]
    exact h.stage hsplit hrest hi hfront
  | preparing h =>
    rw [taken_busy (by rw [h.state]; decide), handedOver_quiet (by rw [h.state]; decide),
      List.append_nil, List.append_nil, List.nil_append]
    obtain ⟨hbusy, hpins⟩ | ⟨hresponds, hpins⟩ := w.begins hi hok h
    · exact .working hbusy hpins
    · exact hresponds.stage hpins
  | working h hleft =>
    obtain ⟨hcapture, hrespond, -⟩ := w.apart h
    rw [taken_busy hcapture, handedOver_quiet hrespond, List.append_nil, List.append_nil]
    obtain ⟨hbusy, -, hpins⟩ | ⟨hresponds, hpins⟩ := w.goes_on hi hok h
    · refine .working hbusy ?_
      rw [List.append_assoc, hpins, hleft]
    · refine hresponds.stage ?_
      rw [hpins, hleft]
  | responding k h =>
    rw [taken_busy (by rw [h.state]; decide), List.append_nil, pinWrites, h.state, List.append_nil]
    exact h.goes_on hi
  | done h =>
    -- no further byte is taken while the record is that of the request alone
    have hnone : taken i s = [] := by
      have hle := hfront.length_le
      rw [List.length_append] at hle
      exact List.eq_nil_of_length_eq_zero (by omega)
    have hfire : commandFire i s = false := by
      by_contra hne
      rw [taken, if_pos (Bool.eq_true_of_not_eq_false hne)] at hnone
      cases hnone
    rw [hnone, handedOver_quiet (by rw [h.state]; decide), List.append_nil, List.append_nil,
      pinWrites, h.state, List.append_nil, step_no_byte hi h.state hfire]
    exact .done { h with }

/-- Once the request has been taken and the engine is back in `CAPTURE`, the exchange is over. -/
theorem Stage.over {w : Work s₀ request ok o} {c r : List (UInt8 × Bool)} {p : List (Pin × Bool)}
    {s : State} (h : Stage w c r p s) (hc : c = markLast request) (hs : s.state = .CAPTURE) :
    r = markLast o.reply ∧ p = o.pins ∧ Done o s := by
  cases h with
  | @capturing s bytes rest hsplit hrest h =>
    -- the last byte of a request is marked
    obtain ⟨front, b, rfl⟩ : ∃ front b, rest = front ++ [b] :=
      ⟨rest.dropLast, rest.getLast hrest, (List.dropLast_append_getLast hrest).symm⟩
    rw [hsplit, ← List.append_assoc, Packets.markLast_concat] at hc
    have hmark : (b, true) ∈ bytes.map fun b => (b, false) := by
      rw [hc]
      exact List.mem_append_right _ (List.mem_singleton_self _)
    obtain ⟨x, -, hx⟩ := List.mem_map.mp hmark
    cases hx
  | preparing h => rw [h.state] at hs; cases hs
  | working h hleft => exact absurd hs (w.apart h).1
  | responding k h => rw [h.state] at hs; cases hs
  | done h => exact ⟨rfl, rfl, h⟩

/-- At any stage a front of the response has been handed over, and of the pins driven. -/
theorem Stage.front {w : Work s₀ request ok o} {c r : List (UInt8 × Bool)}
    {p : List (Pin × Bool)} {s : State} (h : Stage w c r p s) :
    r <+: markLast o.reply ∧ p <+: o.pins := by
  cases h with
  | capturing hsplit hrest h => exact ⟨List.nil_prefix, List.nil_prefix⟩
  | preparing h => exact ⟨List.nil_prefix, List.nil_prefix⟩
  | working h hleft => exact ⟨List.nil_prefix, hleft ▸ List.prefix_append _ _⟩
  | responding k h => exact ⟨List.take_prefix k _, List.prefix_rfl⟩
  | done h => exact ⟨List.prefix_rfl, List.prefix_rfl⟩

/-- As long as there is room, the next byte of the request is taken as soon as it is there. -/
theorem Stage.takes {w : Work s₀ request ok o} {c r : List (UInt8 × Bool)}
    {p : List (Pin × Bool)} {s : State} (h : Stage w c r p s) (hmore : c ≠ markLast request)
    (hroom : c.length < MAX_PACKET) : commandReady s = true := by
  cases h with
  | @capturing s bytes rest hsplit hrest h =>
    rw [List.length_map] at hroom
    rw [commandReady, h.state, h.requestPos]
    exact Bool.and_eq_true_iff.mpr ⟨rfl, decide_eq_true hroom⟩
  | preparing h => exact absurd rfl hmore
  | working h hleft => exact absurd rfl hmore
  | responding k h => exact absurd rfl hmore
  | done h => exact absurd rfl hmore

/-- Outside `CAPTURE` an edge leaves the record of the bytes taken alone. -/
theorem record_taken_busy {inp : ℕ → Input} {t : ℕ} (h : ((run s₀ inp).state t).state ≠ .CAPTURE) :
    (run s₀ inp).record taken (t + 1) = (run s₀ inp).record taken t := by
  rw [Clocked.Run.record_succ, taken_busy h, List.append_nil]

variable {inp : ℕ → Input} (hreset : ∀ t, (inp t).resetN = true)

include hreset

/-- **An exchange under any schedule.** As long as nothing but the request has been taken, the
engine is in one of the stages. -/
theorem exchange_run (w : Work s₀ request ok o) (hidle : Idle s₀) (hrequest : request ≠ [])
    (hok : ∀ t, ok (inp t) ((run s₀ inp).state t)) (t : ℕ)
    (hfront : (run s₀ inp).record taken t <+: markLast request) :
    Stage w ((run s₀ inp).record taken t) ((run s₀ inp).record handedOver t)
      ((run s₀ inp).record pinWrites t) ((run s₀ inp).state t) := by
  induction t with
  | zero => exact .capturing (List.nil_append request).symm hrequest hidle.captures
  | succ t ih =>
    have hbefore := ih (((run s₀ inp).record_mono taken (Nat.le_succ t)).trans hfront)
    exact hbefore.step (hreset t) (hok t) hfront

/-- An engine at work gets to the response by itself. -/
theorem work_responds (w : Work s₀ request ok o)
    (hok : ∀ t, ok (inp t) ((run s₀ inp).state t)) (t : ℕ)
    (hbusy : w.busy ((run s₀ inp).state t)) :
    ∃ u, t ≤ u ∧ (run s₀ inp).record taken u = (run s₀ inp).record taken t ∧
      Responds o 0 ((run s₀ inp).state u) := by
  induction hrank : w.rank ((run s₀ inp).state t) using Nat.strong_induction_on generalizing t with
  | _ n ih =>
    have hsame := record_taken_busy (w.apart hbusy).1
    obtain ⟨hnext, hless, -⟩ | ⟨hnext, -⟩ := w.goes_on (hreset t) (hok t) hbusy
    · obtain ⟨u, htu, htaken, hu⟩ := ih _ (hrank ▸ hless) (t + 1) hnext rfl
      exact ⟨u, Nat.le_of_succ_le htu, htaken.trans hsame, hu⟩
    · exact ⟨t + 1, Nat.le_succ t, hsame, hnext⟩

/-- The next byte of a response goes out once the sink is ready. -/
theorem response_next {k d : ℕ} (t : ℕ) (hready : (inp (t + d)).responseReady = true)
    (hresponds : Responds o k ((run s₀ inp).state t)) :
    ∃ u, t ≤ u ∧ (run s₀ inp).record taken u = (run s₀ inp).record taken t ∧
      (Responds o (k + 1) ((run s₀ inp).state u) ∨ Done o ((run s₀ inp).state u)) := by
  induction d generalizing t with
  | zero =>
    have hsame := record_taken_busy (t := t) (by rw [hresponds.state]; decide)
    have hstep := hresponds.step (hreset t)
    rw [if_pos (show (inp t).responseReady = true from hready)] at hstep
    obtain hmore | ⟨-, hdone⟩ := hstep.2
    · exact ⟨t + 1, Nat.le_succ t, hsame, .inl hmore⟩
    · exact ⟨t + 1, Nat.le_succ t, hsame, .inr hdone⟩
  | succ d ih =>
    have hsame := record_taken_busy (t := t) (by rw [hresponds.state]; decide)
    have hstep := hresponds.step (hreset t)
    cases hnow : (inp t).responseReady with
    | true =>
      rw [hnow, if_pos rfl] at hstep
      obtain hmore | ⟨-, hdone⟩ := hstep.2
      · exact ⟨t + 1, Nat.le_succ t, hsame, .inl hmore⟩
      · exact ⟨t + 1, Nat.le_succ t, hsame, .inr hdone⟩
    | false =>
      rw [hnow, if_neg Bool.false_ne_true] at hstep
      obtain ⟨u, htu, htaken, hu⟩ :=
        ih (t + 1) (by rwa [Nat.add_assoc, Nat.add_comm 1]) hstep.2
      exact ⟨u, Nat.le_of_succ_le htu, htaken.trans hsame, hu⟩

/-- A response under way is handed over if the sink is ready again and again. -/
theorem response_completes (hready : ∀ t, ∃ u, t ≤ u ∧ (inp u).responseReady = true) {k : ℕ}
    (t : ℕ) (hresponds : Responds o k ((run s₀ inp).state t)) :
    ∃ u, t ≤ u ∧ (run s₀ inp).record taken u = (run s₀ inp).record taken t ∧
      Done o ((run s₀ inp).state u) := by
  induction hleft : o.reply.length - k using Nat.strong_induction_on generalizing t k with
  | _ n ih =>
    obtain ⟨v, htv, hv⟩ := hready t
    obtain ⟨d, rfl⟩ := Nat.exists_eq_add_of_le htv
    obtain ⟨u, htu, hsame, hnext | hdone⟩ := response_next hreset t hv hresponds
    · have hless := hresponds.more
      obtain ⟨w, huw, hsame', hdone⟩ := ih (o.reply.length - (k + 1)) (by omega) u hnext rfl
      exact ⟨w, htu.trans huw, hsame'.trans hsame, hdone⟩
    · exact ⟨u, htu, hsame, hdone⟩

/-- **An exchange comes to its end** if the sink is ready again and again. -/
theorem exchange_completes (w : Work s₀ request ok o)
    (hready : ∀ t, ∃ u, t ≤ u ∧ (inp u).responseReady = true)
    (hok : ∀ t, ok (inp t) ((run s₀ inp).state t)) {c r : List (UInt8 × Bool)}
    {p : List (Pin × Bool)} (t : ℕ) (hstage : Stage w c r p ((run s₀ inp).state t)) :
    ∃ u, t ≤ u ∧ (run s₀ inp).record taken u = (run s₀ inp).record taken t ∧
      ((run s₀ inp).state u).state = .CAPTURE := by
  have hfinish : ∀ v, t ≤ v → (run s₀ inp).record taken v = (run s₀ inp).record taken t →
      (w.busy ((run s₀ inp).state v) ∨ ∃ k, Responds o k ((run s₀ inp).state v)) →
      ∃ u, t ≤ u ∧ (run s₀ inp).record taken u = (run s₀ inp).record taken t ∧
        ((run s₀ inp).state u).state = .CAPTURE := by
    rintro v htv hsame (hbusy | ⟨k, hresponds⟩)
    · obtain ⟨u, hvu, hsame', hu⟩ := work_responds hreset w hok v hbusy
      obtain ⟨x, hux, hsame'', hdone⟩ := response_completes hreset hready u hu
      exact ⟨x, (htv.trans hvu).trans hux, (hsame''.trans hsame').trans hsame, hdone.state⟩
    · obtain ⟨x, hvx, hsame', hdone⟩ := response_completes hreset hready v hresponds
      exact ⟨x, htv.trans hvx, hsame'.trans hsame, hdone.state⟩
  cases hstage with
  | capturing hsplit hrest h => exact ⟨t, Nat.le_refl t, rfl, h.state⟩
  | preparing h =>
    have hsame := @record_taken_busy s₀ inp t (by rw [h.state]; decide)
    obtain ⟨hbusy, -⟩ | ⟨hresponds, -⟩ := w.begins (hreset t) (hok t) h
    · exact hfinish (t + 1) (Nat.le_succ t) hsame (.inl hbusy)
    · exact hfinish (t + 1) (Nat.le_succ t) hsame (.inr ⟨0, hresponds⟩)
  | working h hleft => exact hfinish t (Nat.le_refl t) rfl (.inl h)
  | responding k h => exact hfinish t (Nat.le_refl t) rfl (.inr ⟨k, h⟩)
  | done h => exact ⟨t, Nat.le_refl t, rfl, h.state⟩

/-- What an exchange of `request` for `o` comes to under the schedule `inp`. -/
structure Answers (s₀ : State) (inp : ℕ → Input) (request : List UInt8) (o : Outcome) : Prop where
  takes : ∀ t, (run s₀ inp).record taken t <+: markLast request →
    (run s₀ inp).record taken t ≠ markLast request →
    ((run s₀ inp).record taken t).length < MAX_PACKET →
    commandReady ((run s₀ inp).state t) = true
  front : ∀ t, (run s₀ inp).record taken t <+: markLast request →
    (run s₀ inp).record handedOver t <+: markLast o.reply ∧
      (run s₀ inp).record pinWrites t <+: o.pins
  whole : ∀ t, (run s₀ inp).record taken t = markLast request →
    ((run s₀ inp).state t).state = .CAPTURE →
    (run s₀ inp).record handedOver t = markLast o.reply ∧
      (run s₀ inp).record pinWrites t = o.pins ∧ Done o ((run s₀ inp).state t)
  ends : (∀ t, ∃ u, t ≤ u ∧ (inp u).responseReady = true) →
    ∀ t, (run s₀ inp).record taken t = markLast request →
    ∃ u, t ≤ u ∧ (run s₀ inp).record taken u = markLast request ∧
      ((run s₀ inp).state u).state = .CAPTURE

/-- **An engine that works on a request answers it.** -/
theorem Work.answers (w : Work s₀ request ok o) (hidle : Idle s₀) (hrequest : request ≠ [])
    (hok : ∀ t, ok (inp t) ((run s₀ inp).state t)) : Answers s₀ inp request o := by
  have hstage := exchange_run hreset w hidle hrequest hok
  refine ⟨fun t hfront hmore hroom => ?_, fun t hfront => ?_, fun t hwhole hs => ?_,
    fun hready t hwhole => ?_⟩
  · exact (hstage t hfront).takes hmore hroom
  · exact (hstage t hfront).front
  · exact (hstage t (hwhole ▸ List.prefix_rfl)).over hwhole hs
  · obtain ⟨u, htu, hsame, hu⟩ := exchange_completes hreset w hready hok t
      (hstage t (hwhole ▸ List.prefix_rfl))
    exact ⟨u, htu, hsame.trans hwhole, hu⟩

end

/-! ### A request offered without a pause -/

/-- What the engine is told about the target. -/
structure Flags where
  forceWait : Bool
  forceFault : Bool
  forceParityError : Bool
  useRealTarget : Bool

def flags (i : Input) : Flags where
  forceWait := i.forceWait
  forceFault := i.forceFault
  forceParityError := i.forceParityError
  useRealTarget := i.useRealTarget

/-- No error is injected, and there is no target. -/
def noFlags : Flags where
  forceWait := false
  forceFault := false
  forceParityError := false
  useRealTarget := false

/-- The schedule that offers `request` byte by byte; the sink is always ready. -/
def offer (request : List UInt8) (f : Flags) (tdo : Bool) (t : ℕ) : Input where
  resetN := true
  commandData := byteAt request t
  commandValid := t < request.length
  commandLast := t + 1 == request.length
  responseReady := true
  forceWait := f.forceWait
  forceFault := f.forceFault
  forceParityError := f.forceParityError
  useRealTarget := f.useRealTarget
  jtagTdo := tdo

section

variable {s₀ : State} {request : List UInt8} {f : Flags} {tdo : Bool} {o o' : Outcome}

theorem Answers.offered (h : Answers s₀ (offer request f tdo) request o)
    (hfits : request.length ≤ MAX_PACKET) {t : ℕ} (ht : t ≤ request.length) :
    (run s₀ (offer request f tdo)).record taken t = (markLast request).take t := by
  induction t with
  | zero => rfl
  | succ t ih =>
    have hbefore := ih (Nat.le_of_succ_le ht)
    have hlength := markLast_length request
    have hmore : t < (markLast request).length := by omega
    have hsofar : ((run s₀ (offer request f tdo)).record taken t).length = t := by
      rw [hbefore, List.length_take]
      omega
    have hready := h.takes t (hbefore ▸ List.take_prefix t _) (fun hwhole => by
      rw [hwhole] at hsofar
      omega) (by omega)
    have htaken : taken (offer request f tdo t) ((run s₀ (offer request f tdo)).state t) =
        [(markLast request)[t]] := by
      rw [taken, commandFire, hready, markLast_getElem request ht hmore]
      simp [offer, byteAt, Nat.lt_of_succ_le ht]
    rw [Clocked.Run.record_succ, hbefore, ← List.take_concat_get' _ _ hmore]
    exact congrArg _ htaken

theorem Answers.completes (h : Answers s₀ (offer request f tdo) request o)
    (hfits : request.length ≤ MAX_PACKET) :
    ∃ u, (run s₀ (offer request f tdo)).record taken u = markLast request ∧
      ((run s₀ (offer request f tdo)).state u).state = .CAPTURE := by
  have hwhole := h.offered hfits (Nat.le_refl _)
  rw [← markLast_length, List.take_length, markLast_length] at hwhole
  obtain ⟨u, -, hu⟩ := h.ends (fun t => ⟨t, Nat.le_refl t, rfl⟩) _ hwhole
  exact ⟨u, hu⟩

/-- A request that fits has one answer. -/
theorem Answers.unique (h : Answers s₀ (offer request f tdo) request o)
    (h' : Answers s₀ (offer request f tdo) request o') (hfits : request.length ≤ MAX_PACKET) :
    o = o' := by
  obtain ⟨u, htaken, hu⟩ := h.completes hfits
  obtain ⟨hreply, hpins, hdone⟩ := h.whole u htaken hu
  obtain ⟨hreply', hpins', hdone'⟩ := h'.whole u htaken hu
  have hsame := congrArg (List.map Prod.fst) (hreply.symm.trans hreply')
  rw [Packets.markLast_map_fst, Packets.markLast_map_fst] at hsame
  cases o
  cases o'
  rw [Outcome.mk.injEq]
  exact ⟨hsame, hpins.symm.trans hpins', hdone.counts.1.symm.trans hdone'.counts.1,
    hdone.counts.2.symm.trans hdone'.counts.2⟩

end

end DapEngine
