import Zub1cg.Firmware.Service.Refinement
import Zub1cg.Firmware.Controller.Language

/-!
# The control service under fragmentation

A client sends length-framed requests; TCP delivers them in fragments of any size. What the
control service ought to do is `runCommands`: `Controller.command` on one request after the
other. It does so when no request is rejected, however the stream is cut. A rejected request
is reported to the pump as one byte consumed, so unless its last byte comes first in a
fragment, bytes before it are pushed into the decoder a second time.
-/

namespace Firmware

open Model
open FrameDecoder (framed)
open Framing (Session)

variable {Io : Type} [RegisterIo Io]

/-- `Controller.command` on one request after the other, skipping those it rejects: the
bytes each accepted request returns, and the controller at the end. -/
def runCommands (buffer : Vector UInt8 4096) :
    List (List UInt8) → Controller Io → List (List UInt8) × Controller Io
  | [], c => ([], c)
  | request :: rest, c =>
    match c.command request buffer.toList with
    | (.ok length, c', response) =>
      let later := runCommands buffer rest c'
      (response.take length :: later.1, later.2)
    | (.error _, _, _) => runCommands buffer rest c

/-- Every request is accepted in the state reached after the previous ones. -/
def AllAccepted (buffer : Vector UInt8 4096) : List (List UInt8) → Controller Io → Prop
  | [], _ => True
  | request :: rest, c =>
    (c.command request buffer.toList).1.isOk = true ∧
      AllAccepted buffer rest (c.command request buffer.toList).2.1

/-! ### One request -/

/-- The control service's answer to a request, next to that of `Controller.command`. -/
theorem answer_accepted {request : List UInt8} (h : Accepts request 4096) (c : Controller Io)
    (buffer : Vector UInt8 4096) :
    ∃ bytes c', bytes.length ≤ 4096 ∧
      c.command request buffer.toList = (.ok bytes.length, c', overwrite bytes buffer.toList) ∧
      controlService.answer request c = (some (framed bytes), c') := by
  obtain ⟨bytes, c', hlen, heq⟩ := Controller.command_of_accepts h c
  refine ⟨bytes, c', hlen, heq _ buffer.length_toList, ?_⟩
  have hzero := heq (List.replicate (CONTROL_RESPONSE_CAP - 4) 0) (by rw [List.length_replicate]; rfl)
  apply Handler.answer_of_ok
  rw [controlHandler, hzero]
  rfl

theorem answer_rejected {request : List UInt8} (h : ¬ Accepts request 4096) (c : Controller Io) :
    controlService.answer request c = (none, c) := by
  have hrejects :
      ¬ Accepts request (List.replicate (CONTROL_RESPONSE_CAP - 4) (0 : UInt8)).length := by
    rw [List.length_replicate]; exact h
  have hzero := Controller.command_of_rejects hrejects c
  apply Handler.answer_of_error
  rw [controlHandler, hzero]
  rfl

/-- The bytes of a framed request before its last one, and its last one. -/
theorem framed_split (request : List UInt8) :
    ∃ bytes b, framed request = bytes ++ [b] ∧ bytes.length + 1 = (framed request).length := by
  have hne : framed request ≠ [] := by
    rw [← List.length_pos_iff, FrameDecoder.length_framed]; omega
  refine ⟨_, _, (List.dropLast_append_getLast hne).symm, ?_⟩
  rw [List.length_dropLast, FrameDecoder.length_framed]
  omega

/-- Feeding one framed request to an idle session. -/
theorem session_framed {request : List UInt8} (hsize : request.length ≤ MAX_CONTROL_PAYLOAD)
    {x : Session UInt8 (Controller Io)} (hx : x.pending = []) {bytes : List UInt8} {b : UInt8}
    (hsplit : framed request = bytes ++ [b]) :
    controlService.Quiet bytes x ∧
      controlService.step b (controlService.after bytes x) =
        controlService.conclude request x.world := by
  have hsmall : MAX_CONTROL_PAYLOAD < 2 ^ 32 := by decide
  refine controlService.frame_step (fun k _ hk => ?_) ?_
  · rw [hx, List.nil_append]
    have hlt : k < (framed request).length := by
      rw [hsplit, List.length_append, List.length_singleton]; omega
    have hmore := FrameDecoder.judge_take_framed hsize hsmall hlt
    rwa [hsplit, List.take_append_of_le_length hk] at hmore
  · rw [hx, List.nil_append, ← hsplit]
    exact FrameDecoder.judge_framed hsize hsmall

/-- An accepted request in an idle session: one reply, the framed bytes that
`Controller.command` returns, and the session is idle again. -/
theorem session_accepted {request : List UInt8} (hsize : request.length ≤ MAX_CONTROL_PAYLOAD)
    (h : Accepts request 4096) {x : Session UInt8 (Controller Io)} (hx : x.pending = [])
    (buffer : Vector UInt8 4096) :
    ∃ bytes c, bytes.length ≤ 4096 ∧
      x.world.command request buffer.toList = (.ok bytes.length, c, overwrite bytes buffer.toList) ∧
      controlService.repliesOf (framed request) x = [framed bytes] ∧
      controlService.after (framed request) x = ⟨[], c⟩ ∧
      ∀ i, ¬ controlService.RefusedAt (framed request) x i := by
  obtain ⟨bytes, c, hlen, hcommand, hanswer⟩ := answer_accepted h x.world buffer
  obtain ⟨init, b, hsplit, -⟩ := framed_split request
  obtain ⟨hquiet, hstep⟩ := session_framed hsize hx hsplit
  rw [controlService.conclude_answered hanswer] at hstep
  refine ⟨bytes, c, hlen, hcommand, ?_, ?_, ?_⟩
  · rw [hsplit, Framing.Service.repliesOf_append, Framing.Service.repliesOf_quiet _ hquiet,
      Framing.Service.repliesOf, Framing.Service.outcomes, hstep]
    rfl
  · rw [hsplit, Framing.Service.after_append, Framing.Service.after_cons, hstep]
    rfl
  · intro i hi
    rw [hsplit, Framing.Service.refusedAt_append] at hi
    rcases hi with hi | ⟨j, -, hi⟩
    · exact controlService.not_refusedAt_quiet hquiet hi
    · rw [Framing.Service.refusedAt_singleton, hstep] at hi
      exact absurd hi.2 Bool.false_ne_true

/-- A rejected request in an idle session: no reply, no effect, and the refusal is decided by
the last byte of the frame. -/
theorem session_rejected {request : List UInt8} (hsize : request.length ≤ MAX_CONTROL_PAYLOAD)
    (h : ¬ Accepts request 4096) {x : Session UInt8 (Controller Io)} (hx : x.pending = []) :
    controlService.repliesOf (framed request) x = [] ∧
      controlService.after (framed request) x = ⟨[], x.world⟩ ∧
      ∀ i, controlService.RefusedAt (framed request) x i ↔ i + 1 = (framed request).length := by
  obtain ⟨init, b, hsplit, hinit⟩ := framed_split request
  obtain ⟨hquiet, hstep⟩ := session_framed hsize hx hsplit
  rw [controlService.conclude_refused (answer_rejected h x.world)] at hstep
  refine ⟨?_, ?_, fun i => ?_⟩
  · rw [hsplit, Framing.Service.repliesOf_append, Framing.Service.repliesOf_quiet _ hquiet,
      Framing.Service.repliesOf, Framing.Service.outcomes, hstep]
    rfl
  · rw [hsplit, Framing.Service.after_append, Framing.Service.after_cons, hstep]
    rfl
  · rw [← hinit, hsplit, Framing.Service.refusedAt_append]
    constructor
    · rintro (hi | ⟨j, hij, hj⟩)
      · exact absurd hi (controlService.not_refusedAt_quiet hquiet)
      · rw [Framing.Service.refusedAt_singleton] at hj
        omega
    · intro hi
      refine .inr ⟨0, by omega, ?_⟩
      rw [Framing.Service.refusedAt_singleton, hstep]
      exact ⟨rfl, rfl⟩

/-! ### A sequence of requests -/

/-- Framing every request succeeds exactly when none is too large. -/
theorem mapM_lengthFrame {requests frames : List (List UInt8)} {maximum : ℕ} :
    requests.mapM (lengthFrame · maximum) = .ok frames ↔
      (∀ r ∈ requests, r.length ≤ maximum) ∧ frames = requests.map framed := by
  induction requests generalizing frames with
  | nil =>
    rw [List.mapM_nil]
    exact ⟨fun h => ⟨by simp, (Except.ok.inj h).symm⟩, fun h => by rw [h.2]; rfl⟩
  | cons r rest ih =>
    rw [List.mapM_cons]
    by_cases hr : r.length ≤ maximum
    · rw [FrameDecoder.lengthFrame_eq_ok hr]
      cases hrest : rest.mapM (lengthFrame · maximum) with
      | error e =>
        refine ⟨fun h => (by cases h), fun h => ?_⟩
        have := ih.mpr ⟨fun r hr => h.1 r (List.mem_cons_of_mem _ hr), rfl⟩
        rw [hrest] at this
        cases this
      | ok later =>
        obtain ⟨hsize, rfl⟩ := ih.mp hrest
        refine ⟨fun h => ⟨?_, (Except.ok.inj h).symm⟩, fun h => by rw [h.2]; rfl⟩
        rintro r' hr'
        rcases List.mem_cons.mp hr' with rfl | hr'
        · exact hr
        · exact hsize r' hr'
    · have htoo : lengthFrame r maximum = .error (.TooLarge r.length) := by
        rw [lengthFrame, if_pos (by omega)]
      rw [htoo]
      refine ⟨fun h => (by cases h), fun h => ?_⟩
      exact absurd (h.1 r (List.mem_cons_self ..)) hr

/-- Feeding the framed requests to an idle session, byte by byte, runs the commands. -/
theorem session_requests (buffer : Vector UInt8 4096) {requests : List (List UInt8)}
    (hsize : ∀ r ∈ requests, r.length ≤ MAX_CONTROL_PAYLOAD)
    {x : Session UInt8 (Controller Io)} (hx : x.pending = []) :
    controlService.repliesOf (requests.flatMap framed) x =
        (runCommands buffer requests x.world).1.map framed ∧
      controlService.after (requests.flatMap framed) x =
        ⟨[], (runCommands buffer requests x.world).2⟩ := by
  induction requests generalizing x with
  | nil =>
    obtain ⟨pending, world⟩ := x
    subst hx
    exact ⟨rfl, rfl⟩
  | cons r rest ih =>
    have hr := hsize r (List.mem_cons_self ..)
    have hrest : ∀ r ∈ rest, r.length ≤ MAX_CONTROL_PAYLOAD :=
      fun r hr => hsize r (List.mem_cons_of_mem _ hr)
    rw [List.flatMap_cons, Framing.Service.repliesOf_append, Framing.Service.after_append]
    by_cases haccepts : Accepts r 4096
    · obtain ⟨bytes, c, -, hcommand, hreplies, hafter, -⟩ := session_accepted hr haccepts hx buffer
      obtain ⟨hlater, hlast⟩ := ih hrest (x := ⟨[], c⟩) rfl
      rw [hreplies, hafter, hlater, hlast, runCommands, hcommand]
      simp [overwrite]
    · obtain ⟨hreplies, hafter, -⟩ := session_rejected hr haccepts hx
      obtain ⟨hlater, hlast⟩ := ih hrest (x := ⟨[], x.world⟩) rfl
      have hrejects : ¬ Accepts r buffer.toList.length := by
        rw [Vector.length_toList]; exact haccepts
      rw [hreplies, hafter, hlater, hlast, runCommands, Controller.command_of_rejects hrejects]
      exact ⟨rfl, rfl⟩

theorem length_flatMap_framed_pos {requests : List (List UInt8)} {r : List UInt8} {i : ℕ}
    (h : requests[i]? = some r) : 0 < ((requests.take (i + 1)).flatMap framed).length := by
  cases requests with
  | nil => simp at h
  | cons a rest =>
    rw [List.take_succ_cons, List.flatMap_cons, List.length_append, FrameDecoder.length_framed]
    omega

/-- The refusals in a stream of framed requests are decided by the last bytes of the rejected
requests. -/
theorem refusedAt_requests {requests : List (List UInt8)}
    (hsize : ∀ r ∈ requests, r.length ≤ MAX_CONTROL_PAYLOAD)
    {x : Session UInt8 (Controller Io)} (hx : x.pending = []) (i : ℕ) :
    controlService.RefusedAt (requests.flatMap framed) x i ↔
      ∃ j r, requests[j]? = some r ∧ ¬ Accepts r 4096 ∧
        i + 1 = ((requests.take (j + 1)).flatMap framed).length := by
  induction requests generalizing x i with
  | nil => simp [Framing.Service.RefusedAt, Framing.Service.outcomes]
  | cons r rest ih =>
    have hr := hsize r (List.mem_cons_self ..)
    have hrest : ∀ r ∈ rest, r.length ≤ MAX_CONTROL_PAYLOAD :=
      fun r hr => hsize r (List.mem_cons_of_mem _ hr)
    -- the session is idle after the first request, whatever became of it
    have hidle : (controlService.after (framed r) x).pending = [] := by
      by_cases haccepts : Accepts r 4096
      · obtain ⟨_, _, -, -, -, hafter, -⟩ :=
          session_accepted hr haccepts hx (Vector.replicate 4096 0)
        rw [hafter]
      · rw [(session_rejected hr haccepts hx).2.1]
    have hhere : controlService.RefusedAt (framed r) x i ↔
        ¬ Accepts r 4096 ∧ i + 1 = (framed r).length := by
      by_cases haccepts : Accepts r 4096
      · obtain ⟨_, _, -, -, -, -, hnone⟩ :=
          session_accepted hr haccepts hx (Vector.replicate 4096 0)
        exact ⟨fun h => absurd h (hnone i), fun h => absurd haccepts h.1⟩
      · rw [(session_rejected hr haccepts hx).2.2 i]
        exact ⟨fun h => ⟨haccepts, h⟩, fun h => h.2⟩
    rw [List.flatMap_cons, Framing.Service.refusedAt_append, hhere]
    constructor
    · rintro (⟨hrejects, hi⟩ | ⟨k, rfl, hk⟩)
      · exact ⟨0, r, rfl, hrejects, by simpa using hi⟩
      · obtain ⟨j, r', hj, hrejects, hlen⟩ := (ih hrest hidle k).mp hk
        refine ⟨j + 1, r', hj, hrejects, ?_⟩
        rw [List.take_succ_cons, List.flatMap_cons, List.length_append, ← hlen]
        omega
    · rintro ⟨j, r', hj, hrejects, hlen⟩
      cases j with
      | zero =>
        obtain rfl : r = r' := by simpa using hj
        exact .inl ⟨hrejects, by simpa using hlen⟩
      | succ j =>
        rw [List.take_succ_cons, List.flatMap_cons, List.length_append] at hlen
        have hpos := length_flatMap_framed_pos (show rest[j]? = some r' from hj)
        exact .inr ⟨i - (framed r).length, by omega,
          (ih hrest hidle _).mpr ⟨j, r', hj, hrejects, by omega⟩⟩

/-! ### Whole connections -/

/-- The bytes `Controller.command` returns fit the response buffer. -/
theorem runCommands_size (buffer : Vector UInt8 4096) (requests : List (List UInt8))
    (c : Controller Io) : ∀ bytes ∈ (runCommands buffer requests c).1, bytes.length ≤ 4096 := by
  induction requests generalizing c with
  | nil => simp [runCommands]
  | cons r rest ih =>
    by_cases haccepts : Accepts r 4096
    · obtain ⟨bytes, c', hlen, heq⟩ := Controller.command_of_accepts haccepts c
      rw [runCommands, heq _ buffer.length_toList]
      rintro b hb
      rcases List.mem_cons.mp hb with rfl | hb
      · simpa [overwrite] using hlen
      · exact ih c' b hb
    · have hrejects : ¬ Accepts r buffer.toList.length := by
        rw [Vector.length_toList]; exact haccepts
      rw [runCommands, Controller.command_of_rejects hrejects]
      exact ih c

theorem AllAccepted.accepts {buffer : Vector UInt8 4096} {requests : List (List UInt8)}
    {c : Controller Io} (h : AllAccepted buffer requests c) :
    (∀ r ∈ requests, Accepts r 4096) ∧
      (runCommands buffer requests c).1.length = requests.length := by
  induction requests generalizing c with
  | nil => exact ⟨by simp, rfl⟩
  | cons r rest ih =>
    obtain ⟨hr, hrest⟩ := h
    have haccepts : Accepts r 4096 := by
      rw [Controller.command_isOk_iff, Vector.length_toList] at hr
      exact hr
    obtain ⟨bytes, c', -, heq⟩ := Controller.command_of_accepts haccepts c
    rw [heq _ buffer.length_toList] at hrest
    obtain ⟨hall, hlen⟩ := ih hrest
    refine ⟨?_, ?_⟩
    · rintro r' hr'
      rcases List.mem_cons.mp hr' with rfl | hr'
      · exact haccepts
      · exact hall r' hr'
    · rw [runCommands, heq _ buffer.length_toList, List.length_cons, hlen, List.length_cons]

/-- A connection on which every refusal is decided by the first byte of a fragment runs the
commands, and the decoder is then idle again. -/
theorem connection_exact (buffer : Vector UInt8 4096) {requests : List (List UInt8)}
    (hsize : ∀ r ∈ requests, r.length ≤ MAX_CONTROL_PAYLOAD) {t : ControlThread Io}
    (hidle : t.connection.decoder.Holds []) {packets : List (List (List UInt8))}
    (hpackets : packets.flatten.flatten = requests.flatMap framed)
    (hcut : ∀ i, controlService.RefusedAt (requests.flatMap framed) ⟨[], t.controller⟩ i →
      Framing.Service.FragmentAt packets.flatten i) :
    Framing.pushed (serveConnection serveControl packets t).1 = requests.flatMap framed ∧
      Framing.replies (serveConnection serveControl packets t).1 =
        (runCommands buffer requests t.controller).1.map framed ∧
      (serveConnection serveControl packets t).2.controller =
        (runCommands buffer requests t.controller).2 ∧
      (serveConnection serveControl packets t).2.connection.decoder.Holds [] := by
  obtain ⟨hcalls, hholds, hworld⟩ :=
    serveControl_refines packets (x := ⟨[], t.controller⟩) ⟨hidle, rfl⟩
  rw [← hpackets] at hcut
  have hexact := controlService.pumpAll_exact_of_fragmentAt hcut
  obtain ⟨hreplies, hafter⟩ :=
    session_requests buffer hsize (x := ⟨[], t.controller⟩) rfl
  rw [hpackets] at hexact
  refine ⟨?_, ?_, ?_, ?_⟩
  · rw [hcalls, hexact.pushed]
  · rw [hcalls, hexact.replies, hreplies]
  · rw [hworld, hexact.session, hafter]
  · rwa [hexact.session, hafter] at hholds

/-- **The control service under arbitrary fragmentation.** When every request is accepted in
the state reached after the previous ones, the connection makes one reply per request, in
order, each the `length_frame` of the bytes `Controller.command` returns, and the device
undergoes the same operations as when the commands are run one after the other. -/
theorem control_service_exact {requests frames : List (List UInt8)}
    (hframes : requests.mapM (lengthFrame · MAX_CONTROL_PAYLOAD) = .ok frames)
    (t : ControlThread (Recorded Io)) (hidle : t.connection.decoder.Holds [])
    (buffer : Vector UInt8 4096) (haccepted : AllAccepted buffer requests t.controller)
    (packets : List (List (List UInt8))) (hpackets : packets.flatten.flatten = frames.flatten) :
    (Framing.replies (serveConnection serveControl packets t).1).length = requests.length ∧
      (runCommands buffer requests t.controller).1.mapM (lengthFrame · MAX_CONTROL_PAYLOAD) =
        .ok (Framing.replies (serveConnection serveControl packets t).1) ∧
      (serveConnection serveControl packets t).2.controller.io.ops =
        (runCommands buffer requests t.controller).2.io.ops := by
  obtain ⟨hsize, rfl⟩ := mapM_lengthFrame.mp hframes
  obtain ⟨haccepts, hcount⟩ := haccepted.accepts
  have hcut : ∀ i, controlService.RefusedAt (requests.flatMap framed) ⟨[], t.controller⟩ i →
      Framing.Service.FragmentAt packets.flatten i := by
    intro i hi
    obtain ⟨j, r, hj, hrejects, -⟩ := (refusedAt_requests hsize rfl i).mp hi
    exact absurd (haccepts r (List.mem_of_getElem? hj)) hrejects
  obtain ⟨-, hreplies, hcontroller, -⟩ := connection_exact buffer hsize hidle hpackets hcut
  refine ⟨?_, ?_, by rw [hcontroller]⟩
  · rw [hreplies, List.length_map, hcount]
  · rw [hreplies]
    exact mapM_lengthFrame.mpr ⟨runCommands_size buffer requests t.controller, rfl⟩

/-- A `Configure` request and three bytes of the length of a `Start` request in one packet, and the
rest in two others. -/
theorem control_service_exact_start :
    let served := serveConnection serveControl
      [[[9, 0, 0, 0, 1, 0], [2, 1, 3, 0x40, 0x42, 0x0f, 0, 3, 0, 0]], [[0, 1, 0]], [[3]]]
      (ControlThread.boot (⟨Blank.mk, []⟩ : Recorded Blank))
    Framing.replies served.1 = [[1, 0, 0, 0, 0], [1, 0, 0, 0, 0]] ∧
      served.2.controller.io.ops =
        [.selectCoresightSource false, .enableCoresightTrace false,
          .write REG_SOURCE_FORMAT 0x301, .write REG_SWO_BAUD 1000000, .write REG_CONTROL 1] := by
  have hframes : [[1, 0, 2, 1, 3, 0x40, 0x42, 0x0f, 0], [1, 0, 3]].mapM
      (lengthFrame · MAX_CONTROL_PAYLOAD) =
      .ok [[9, 0, 0, 0, 1, 0, 2, 1, 3, 0x40, 0x42, 0x0f, 0], [3, 0, 0, 0, 1, 0, 3]] := by decide
  have haccepted : AllAccepted (Vector.replicate 4096 0)
      [[1, 0, 2, 1, 3, 0x40, 0x42, 0x0f, 0], [1, 0, 3]]
      (ControlThread.boot (⟨Blank.mk, []⟩ : Recorded Blank)).controller := by
    refine ⟨(Controller.command_isOk_iff _ _ _).mpr ?_,
      (Controller.command_isOk_iff _ _ _).mpr ?_, trivial⟩
    · rw [Vector.length_toList]
      decide
    · rw [Vector.length_toList]
      decide
  obtain ⟨-, hreplies, hops⟩ := control_service_exact hframes
    (ControlThread.boot ⟨Blank.mk, []⟩) FrameDecoder.new_holds (Vector.replicate 4096 0) haccepted
    [[[9, 0, 0, 0, 1, 0], [2, 1, 3, 0x40, 0x42, 0x0f, 0, 3, 0, 0]], [[0, 1, 0]], [[3]]] rfl
  have hrun : (runCommands (Vector.replicate 4096 0)
      [[1, 0, 2, 1, 3, 0x40, 0x42, 0x0f, 0], [1, 0, 3]]
      (ControlThread.boot (⟨Blank.mk, []⟩ : Recorded Blank)).controller).1 = [[0], [0]] := by
    decide +kernel
  have hanswers : ([[0], [0]] : List (List UInt8)).mapM (lengthFrame · MAX_CONTROL_PAYLOAD) =
      .ok [[1, 0, 0, 0, 0], [1, 0, 0, 0, 0]] := by decide
  rw [hrun, hanswers] at hreplies
  refine ⟨(Except.ok.inj hreplies).symm, hops.trans ?_⟩
  decide +kernel

/-- **When a rejected request leaves the others alone.** Every received byte is pushed once,
in order, and the replies and effects are those of `Controller.command` on the accepted
requests, exactly when each rejected request has a fragment that begins with its last byte. -/
theorem rejected_undisturbed_iff {requests frames : List (List UInt8)}
    (hframes : requests.mapM (lengthFrame · MAX_CONTROL_PAYLOAD) = .ok frames)
    (t : ControlThread (Recorded Io)) (hidle : t.connection.decoder.Holds [])
    (buffer : Vector UInt8 4096)
    (packets : List (List (List UInt8))) (hpackets : packets.flatten.flatten = frames.flatten) :
    (Framing.pushed (serveConnection serveControl packets t).1 = packets.flatten.flatten ∧
      (runCommands buffer requests t.controller).1.mapM (lengthFrame · MAX_CONTROL_PAYLOAD) =
        .ok (Framing.replies (serveConnection serveControl packets t).1) ∧
      (serveConnection serveControl packets t).2.controller =
        (runCommands buffer requests t.controller).2) ↔
    ∀ i r, requests[i]? = some r → ¬ Accepts r 4096 →
      ∃ k, (packets.flatten.take k).flatten.length + 1 = (frames.take (i + 1)).flatten.length := by
  obtain ⟨hsize, rfl⟩ := mapM_lengthFrame.mp hframes
  have hstream : packets.flatten.flatten = requests.flatMap framed := hpackets
  have hcut : (∀ i, controlService.RefusedAt (requests.flatMap framed) ⟨[], t.controller⟩ i →
        Framing.Service.FragmentAt packets.flatten i) ↔
      ∀ i r, requests[i]? = some r → ¬ Accepts r 4096 →
        ∃ k, (packets.flatten.take k).flatten.length + 1 =
          ((requests.map framed).take (i + 1)).flatten.length := by
    simp only [← List.map_take, ← List.flatMap_def]
    constructor
    · intro h i r hi hrejects
      have hlen := length_flatMap_framed_pos hi
      obtain ⟨k, hk⟩ := h (((requests.take (i + 1)).flatMap framed).length - 1)
        ((refusedAt_requests hsize rfl _).mpr ⟨i, r, hi, hrejects, by omega⟩)
      exact ⟨k, by omega⟩
    · intro h i hi
      obtain ⟨j, r, hj, hrejects, hlen⟩ := (refusedAt_requests hsize rfl i).mp hi
      obtain ⟨k, hk⟩ := h j r hj hrejects
      exact ⟨k, by omega⟩
  rw [← hcut, hstream]
  constructor
  · rintro ⟨hpushed, -, -⟩
    obtain ⟨hcalls, -⟩ := serveControl_refines packets (x := ⟨[], t.controller⟩) ⟨hidle, rfl⟩
    have hiff := controlService.pumpAll_pushed_iff (judge_single controlHandler _ _)
      packets.flatten ⟨[], t.controller⟩
    rw [← hcalls, hstream] at hiff
    exact hiff.mp hpushed
  · intro h
    obtain ⟨hpushed, hreplies, hcontroller, -⟩ := connection_exact buffer hsize hidle hstream h
    refine ⟨hpushed, ?_, hcontroller⟩
    rw [hreplies]
    exact mapM_lengthFrame.mpr ⟨runCommands_size buffer requests t.controller, rfl⟩

/-- A one-byte request is rejected and the `Start` request behind it is carried out, since a
fragment begins with the last byte of the rejected one. -/
theorem rejected_undisturbed_cut :
    Framing.pushed (serveConnection serveControl [[[1, 0, 0, 0]], [[99, 3, 0, 0, 0, 1, 0, 3]]]
      (ControlThread.boot (⟨Blank.mk, []⟩ : Recorded Blank))).1 =
        [1, 0, 0, 0, 99, 3, 0, 0, 0, 1, 0, 3] := by
  have hframes : [[99], [1, 0, 3]].mapM (lengthFrame · MAX_CONTROL_PAYLOAD) =
      .ok [[1, 0, 0, 0, 99], [3, 0, 0, 0, 1, 0, 3]] := by decide
  have hcut : ∀ i r, [[99], [1, 0, 3]][i]? = some r → ¬ Accepts r 4096 →
      ∃ k, (([[[1, 0, 0, 0]], [[99, 3, 0, 0, 0, 1, 0, (3 : UInt8)]]].flatten).take k).flatten.length
        + 1 = ([[1, 0, 0, 0, 99], [3, 0, 0, 0, 1, 0, (3 : UInt8)]].take (i + 1)).flatten.length := by
    rintro (_ | _ | i) r hr hrejects
    · exact ⟨1, rfl⟩
    · obtain rfl : [1, 0, 3] = r := by simpa using hr
      exact absurd (by decide) hrejects
    · simp at hr
  exact ((rejected_undisturbed_iff hframes (ControlThread.boot ⟨Blank.mk, []⟩)
    FrameDecoder.new_holds (Vector.replicate 4096 0)
    [[[1, 0, 0, 0]], [[99, 3, 0, 0, 0, 1, 0, 3]]] rfl).mpr hcut).1

/-- The same two requests in a single fragment: the bytes of the rejected one are pushed
again, a wrong length is read from them, and the `Start` request gets no reply. -/
theorem rejected_request_swallows_next :
    Framing.replies (serveConnection serveControl [[[1, 0, 0, 0, 99, 3, 0, 0, 0, 1, 0, 3]]]
        (ControlThread.boot (⟨Blank.mk, []⟩ : Recorded Blank))).1 = [] ∧
      Framing.pushed (serveConnection serveControl [[[1, 0, 0, 0, 99, 3, 0, 0, 0, 1, 0, 3]]]
        (ControlThread.boot (⟨Blank.mk, []⟩ : Recorded Blank))).1 ≠
          [1, 0, 0, 0, 99, 3, 0, 0, 0, 1, 0, 3] ∧
      (runCommands (Vector.replicate 4096 0) [[99], [1, 0, 3]]
        (ControlThread.boot (⟨Blank.mk, []⟩ : Recorded Blank)).controller).1.length = 1 := by
  obtain ⟨hcalls, -⟩ := serveControl_refines [[[1, 0, 0, 0, 99, 3, 0, 0, 0, 1, 0, 3]]]
    (t := ControlThread.boot (⟨Blank.mk, []⟩ : Recorded Blank)) (x := ⟨[], ⟨⟨Blank.mk, []⟩⟩⟩)
    ⟨FrameDecoder.new_holds, rfl⟩
  rw [hcalls]
  refine ⟨by decide, by decide, ?_⟩
  have hrejects : ¬ Accepts [99] (Vector.replicate 4096 (0 : UInt8)).toList.length := by
    rw [Vector.length_toList]; decide
  have haccepts : Accepts [1, 0, 3] 4096 := by decide
  obtain ⟨bytes, c, -, heq⟩ := Controller.command_of_accepts haccepts
    (ControlThread.boot (⟨Blank.mk, []⟩ : Recorded Blank)).controller
  have hskip : runCommands (Vector.replicate 4096 0) [[99], [1, 0, 3]]
      (ControlThread.boot (⟨Blank.mk, []⟩ : Recorded Blank)).controller =
        runCommands (Vector.replicate 4096 0) [[1, 0, 3]]
          (ControlThread.boot (⟨Blank.mk, []⟩ : Recorded Blank)).controller := by
    rw [runCommands, Controller.command_of_rejects hrejects]
  rw [hskip, runCommands, heq _ Vector.length_toList]
  rfl

end Firmware
